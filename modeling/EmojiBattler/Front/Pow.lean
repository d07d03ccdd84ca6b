import EmojiBattler.Library.Runs
import EmojiBattler.Pallet.Pow

/-! # Proof of work in the browser

The front counts the clicks on its button, accepted or not, and solves for its
own count.  The solution goes to the chain in the tip of the call. -/

namespace EmojiBattler.Front

open EmojiBattler.Pallet.Pow
open LittleEndian

/-! ## Solving -/

/-- The WebAssembly solver: the buffer with the solution, and its hash, which
is empty when there is none. -/
abbrev SolverFn := List UInt8 → Nat → List UInt8 × List UInt8

/-- `PowThreshold` -/
def powThreshold : Nat := 2655

/-- The 128 bytes without a solution. -/
def puzzleBuffer (publicKey : AccountId) (count : Nat) : List UInt8 :=
  publicKey.toList ++ toBytes 4 count ++ toBytes 4 123 ++ List.replicate 88 0

/-- The last 8 bytes of the solved buffer. -/
def solvePowPure (solver : SolverFn) (publicKey : AccountId) (count : Nat) :
    Option (List UInt8) :=
  let (s, hash) := solver (puzzleBuffer publicKey count) powThreshold
  if hash.length = 0 then none else some (s.drop (s.length - 8))

def getPowSolutionBNFromBytes (solution : List UInt8) : Nat := ofBytes solution

/-- `solvePow` -/
def solvePow (solver : SolverFn) (publicKey : AccountId) (count : Nat) : Option Nat :=
  (solvePowPure solver publicKey count).map getPowSolutionBNFromBytes

/-- The tip of `extractTxArgs`. -/
def powTip (powSolution : Nat) : Nat := 1 <<< 127 + powSolution

/-- The solver changes the last 8 bytes only, and what it returns meets the
threshold. -/
def Solves (host : Host) (solver : SolverFn) : Prop :=
  ∀ buffer limit, buffer.length = 128 → (solver buffer limit).2 ≠ [] →
    (solver buffer limit).1.length = 128 ∧
      (solver buffer limit).1.take 120 = buffer.take 120 ∧
      ofBytes ((host.blake2b (solver buffer limit).1).toList.take 4) < limit

theorem puzzleBuffer_length (publicKey : AccountId) (count : Nat) :
    (puzzleBuffer publicKey count).length = 128 := by
  simp [puzzleBuffer]

/-- The chain hashes the buffer with another end. -/
theorem powInput_eq (publicKey : AccountId) (count solution : Nat) :
    powInput publicKey count solution =
      (puzzleBuffer publicKey count).take 120 ++ toBytes 8 solution := by
  have tag : toBytes 4 123 = [123, 0, 0, 0] := rfl
  have zeros : (List.replicate 88 (0 : UInt8)) = List.replicate 80 0 ++ List.replicate 8 0 := rfl
  have front : (publicKey.toList ++ toBytes 4 count ++ [123, 0, 0, 0] ++
      List.replicate 80 (0 : UInt8)).length = 120 := by simp
  rw [puzzleBuffer, tag, zeros, ← List.append_assoc, List.take_left' front, powInput]
  simp [List.append_assoc, List.replicate_succ]

/-- What the front solves for, the chain accepts. -/
theorem solvePow_checked {host : Host} {solver : SolverFn} {publicKey : AccountId}
    {count solution : Nat} (solves : Solves host solver)
    (solved : solvePow solver publicKey count = some solution) :
    solution < 2 ^ 64 ∧ checkSolution host publicKey count solution = true := by
  simp only [solvePow, solvePowPure, Option.map_eq_some_iff, Option.ite_none_left_eq_some,
    Option.some.injEq] at solved
  obtain ⟨_, ⟨found, rfl⟩, rfl⟩ := solved
  obtain ⟨length, start, met⟩ := solves _ powThreshold (puzzleBuffer_length publicKey count)
    (fun none => found (List.length_eq_zero_iff.mpr none))
  generalize (solver (puzzleBuffer publicKey count) powThreshold).1 = s at length start met
  have tail : (s.drop (s.length - 8)).length = 8 := by
    rw [List.length_drop]
    omega
  have bytes := toBytes_ofBytes (s.drop (s.length - 8))
  have bound := ofBytes_lt (s.drop (s.length - 8))
  rw [tail] at bytes bound
  have input : powInput publicKey count (ofBytes (s.drop (s.length - 8))) = s := by
    rw [powInput_eq, bytes, ← start, length]
    exact List.take_append_drop 120 s
  exact ⟨bound, decide_eq_true (by rw [getPowSolutionBNFromBytes, input]; exact met)⟩

/-- The chain reads the solution from the tip. -/
theorem whichPaymentKind_powTip {sudoKey who : AccountId} {solution : Nat} (other : who ≠ sudoKey)
    (bound : solution < 2 ^ 64) :
    whichPaymentKind sudoKey who (powTip solution) = .pow solution := by
  have head : powTip solution &&& (1 <<< 127) ≠ 0 := by
    have low : solution.testBit 127 = false := Nat.testBit_lt_two_pow (by omega)
    have high : (2 ^ 127 + solution).testBit 127 = true := by
      rw [Nat.testBit_two_pow_add_eq, low]
      rfl
    intro none
    rw [powTip, Nat.one_shiftLeft] at none
    have bit : ((2 ^ 127 + solution) &&& 2 ^ 127).testBit 127 = false := by
      rw [none]
      exact Nat.zero_testBit 127
    rw [Nat.testBit_and, high, Nat.testBit_two_pow_self] at bit
    cases bit
  have tail : powTip solution % 2 ^ 64 = solution := by
    simp only [powTip, Nat.one_shiftLeft]
    omega
  rw [whichPaymentKind, if_neg other, if_neg head, tail]

/-! ## The button -/

/-- An account in the browser and the button on its page. -/
structure PowClient where
  powCount : Nat
  /-- Without a solution the button has no click. -/
  solution : Option Nat

/-- What the chain checks of a call besides the solution. -/
structure Payable (host : Host) (withdrawal : Withdrawal NegativeImbalance)
    (accountData : AccountData) : Prop where
  other : withdrawal.who ≠ withdrawal.sudoKey
  short : ∃ almostlen, getAlmostlen host withdrawal.fee withdrawal.tip = some almostlen ∧
    almostlen ≤ 1500
  pallet : withdrawal.palletName ∈ allowedPallets
  function : withdrawal.functionName ∈ allowedFunctions
  later : (accountData.getOrDefault withdrawal.who).1 < withdrawal.blockNumber

inductive PowEvent (NegativeImbalance : Type) where
  /-- The page shows the button. -/
  | mount
  /-- The click sends a call, and the chain accepts its proof of work. -/
  | click (withdrawal : Withdrawal NegativeImbalance)
  /-- The chain does not accept the proof of work of the call. -/
  | refused (withdrawal : Withdrawal NegativeImbalance)
  /-- The click comes to no call: the user does not sign it, or the page cannot
  send it. -/
  | cancelled
  /-- Another account's call. -/
  | other (withdrawal : Withdrawal NegativeImbalance)

variable {NegativeImbalance : Type}

/-- A call that the button sends. -/
structure Sends (account : AccountId) (client : PowClient)
    (withdrawal : Withdrawal NegativeImbalance) : Prop where
  shown : ∃ solution, client.solution = some solution ∧ withdrawal.tip = powTip solution
  own : withdrawal.who = account

/-- The browser of one account and the storage of the chain.  `PowButton` counts
a click before the call is sent and never takes it back; the page takes the
button away. -/
inductive PowStep (host : Host) (solver : SolverFn) (account : AccountId) :
    PowClient × AccountData → PowEvent NegativeImbalance → PowClient × AccountData → Prop
  | mount (client : PowClient) (accountData : AccountData) :
      PowStep host solver account (client, accountData) .mount
        ({ client with solution := solvePow solver account client.powCount }, accountData)
  | click {client : PowClient} {accountData : AccountData}
      {withdrawal : Withdrawal NegativeImbalance} (sends : Sends account client withdrawal)
      (accepted : withdrawal.acceptedPow host accountData = true) :
      PowStep host solver account (client, accountData) (.click withdrawal)
        (⟨client.powCount + 1, none⟩, (withdrawFee host withdrawal accountData).2)
  | refused {client : PowClient} {accountData : AccountData}
      {withdrawal : Withdrawal NegativeImbalance} (sends : Sends account client withdrawal)
      (rejected : withdrawal.acceptedPow host accountData = false) :
      PowStep host solver account (client, accountData) (.refused withdrawal)
        (⟨client.powCount + 1, none⟩, (withdrawFee host withdrawal accountData).2)
  | cancelled {client : PowClient} {accountData : AccountData} {solution : Nat}
      (shown : client.solution = some solution) :
      PowStep host solver account (client, accountData) .cancelled
        (⟨client.powCount + 1, none⟩, accountData)
  | other {client : PowClient} {accountData : AccountData}
      {withdrawal : Withdrawal NegativeImbalance} (different : withdrawal.who ≠ account) :
      PowStep host solver account (client, accountData) (.other withdrawal)
        (client, (withdrawFee host withdrawal accountData).2)

/-- What `generateAccount` reads of the chain. -/
def PowClient.generate (accountData : AccountData) (account : AccountId) : PowClient :=
  ⟨(accountData.getOrDefault account).2, none⟩

variable {host : Host} {solver : SolverFn} {account : AccountId}

theorem solvePow_mod (count : Nat) :
    solvePow solver account (count % 2 ^ 32) = solvePow solver account count := by
  have bytes : toBytes 4 (count % 2 ^ 32) = toBytes 4 count := @toBytes_mod 4 count
  have buffer : puzzleBuffer account (count % 2 ^ 32) = puzzleBuffer account count := by
    rw [puzzleBuffer, puzzleBuffer, bytes]
  rw [solvePow, solvePow, solvePowPure, solvePowPure, buffer]

def PowEvent.isClick : PowEvent NegativeImbalance → Bool
  | .click _ | .refused _ | .cancelled => true
  | .mount | .other _ => false

def PowEvent.isAccepted : PowEvent NegativeImbalance → Bool
  | .click _ => true
  | _ => false

/-- A click that the browser counts and the chain does not. -/
def PowEvent.isLost : PowEvent NegativeImbalance → Bool
  | .refused _ | .cancelled => true
  | _ => false

/-- The browser counts the clicks, the chain the accepted ones, and a shown
solution is one for the count of the browser. -/
structure PowCounts (solver : SolverFn) (account : AccountId) (stored : Nat)
    (events : List (PowEvent NegativeImbalance)) (state : PowClient × AccountData) : Prop where
  clicks : state.1.powCount = stored + events.countP PowEvent.isClick
  accepted : (state.2.getOrDefault account).2 =
    (stored + events.countP PowEvent.isAccepted) % 2 ^ 32
  solution : ∀ solution, state.1.solution = some solution →
    solvePow solver account state.1.powCount = some solution

theorem getOrDefault_of_accepted {withdrawal : Withdrawal NegativeImbalance}
    {accountData : AccountData} (accepted : withdrawal.acceptedPow host accountData = true) :
    (withdrawFee host withdrawal accountData).2.getOrDefault withdrawal.who =
      (withdrawal.blockNumber, ((accountData.getOrDefault withdrawal.who).2 + 1) % 2 ^ 32) := by
  obtain ⟨_, _, _, after⟩ := withdrawFee_of_accepted accepted
  rw [after, getOrDefault_update_self]

theorem getOrDefault_of_unchanged {withdrawal : Withdrawal NegativeImbalance}
    {accountData : AccountData}
    (other : withdrawal.who ≠ account ∨ withdrawal.acceptedPow host accountData = false) :
    (withdrawFee host withdrawal accountData).2.getOrDefault account =
      accountData.getOrDefault account := by
  simp only [AccountData.getOrDefault, withdrawFee_account_unchanged other]

theorem PowCounts.step {stored : Nat} {event : PowEvent NegativeImbalance}
    {events : List (PowEvent NegativeImbalance)} {before after : PowClient × AccountData}
    (counts : PowCounts solver account stored events before)
    (stepped : PowStep host solver account before event after) :
    PowCounts solver account stored (events ++ [event]) after := by
  obtain ⟨clicks, accepts, solution⟩ := counts
  cases stepped with
  | mount client accountData =>
      exact ⟨by simpa [PowEvent.isClick] using clicks, by simpa [PowEvent.isAccepted] using accepts,
        fun _ solved => solved⟩
  | click sends accepted =>
      refine ⟨?_, ?_, fun _ none => by cases none⟩
      · simp only [List.countP_append, List.countP_singleton, PowEvent.isClick, if_true]
          at clicks ⊢
        omega
      · simp only [List.countP_append, List.countP_singleton, PowEvent.isAccepted, if_true]
          at accepts ⊢
        rw [← sends.own, getOrDefault_of_accepted accepted, sends.own, accepts, Nat.mod_add_mod,
          Nat.add_assoc]
  | refused sends rejected =>
      refine ⟨?_, ?_, fun _ none => by cases none⟩
      · simp only [List.countP_append, List.countP_singleton, PowEvent.isClick, if_true]
          at clicks ⊢
        omega
      · rw [getOrDefault_of_unchanged (.inr rejected)]
        simpa [PowEvent.isAccepted] using accepts
  | cancelled shown =>
      refine ⟨?_, by simpa [PowEvent.isAccepted] using accepts, fun _ none => by cases none⟩
      simp only [List.countP_append, List.countP_singleton, PowEvent.isClick, if_true] at clicks ⊢
      omega
  | other different =>
      refine ⟨by simpa [PowEvent.isClick] using clicks, ?_, solution⟩
      rw [getOrDefault_of_unchanged (.inl different)]
      simpa [PowEvent.isAccepted] using accepts

theorem PowCounts.reaches {accountData : AccountData}
    {events : List (PowEvent NegativeImbalance)} {last : PowClient × AccountData}
    (small : (accountData.getOrDefault account).2 < 2 ^ 32)
    (run : Runs.Reaches (PowStep host solver account)
      (PowClient.generate accountData account, accountData) events last) :
    PowCounts solver account (accountData.getOrDefault account).2 events last :=
  run.invariant ⟨rfl, (Nat.mod_eq_of_lt small).symm, fun _ none => by cases none⟩
    fun _ holds stepped => holds.step stepped

theorem countP_isClick (events : List (PowEvent NegativeImbalance)) :
    events.countP PowEvent.isClick =
      events.countP PowEvent.isAccepted + events.countP PowEvent.isLost := by
  induction events with
  | nil => rfl
  | cons event rest ih =>
      simp only [List.countP_cons, ih]
      cases event <;> simp only [PowEvent.isClick, PowEvent.isAccepted, PowEvent.isLost] <;>
        simp <;> omega

/-- The chain checks the solution of a click for its own count, and a click
that it lets pay by proof of work is accepted exactly if the check succeeds. -/
theorem accepted_iff_checkSolution {withdrawal : Withdrawal NegativeImbalance}
    {accountData : AccountData} {solution : Nat} (bound : solution < 2 ^ 64)
    (tip : withdrawal.tip = powTip solution) (payable : Payable host withdrawal accountData) :
    withdrawal.acceptedPow host accountData = true ↔
      checkSolution host withdrawal.who (accountData.getOrDefault withdrawal.who).2 solution =
        true := by
  have kind := whichPaymentKind_powTip payable.other bound
  rw [← tip] at kind
  have own : withdrawal.powSolution = some solution := by rw [Withdrawal.powSolution, kind]
  constructor
  · intro accepted
    obtain ⟨other, same, validated, _⟩ := withdrawFee_of_accepted accepted
    cases own.symm.trans same
    exact validated.solved
  · intro checked
    obtain ⟨almostlen, found, short⟩ := payable.short
    have allowed : ¬ (withdrawal.palletName ∉ allowedPallets ∨
        withdrawal.functionName ∉ allowedFunctions) := by
      simp [payable.pallet, payable.function]
    have validated : (validatePow host withdrawal solution accountData).1 = .ok () := by
      unfold validatePow
      simp only [found, Nat.not_lt.mpr short, allowed, Nat.not_le.mpr payable.later, checked,
        not_true_eq_false, if_false]
    rcases @validatePow_cases _ host withdrawal solution accountData with ⟨_, result⟩ | result
    · simp [Withdrawal.acceptedPow, own, withdrawFee, kind, result, Except.isOk, Except.toBool]
    · rw [result] at validated
      cases validated

/-- From what the front reads of the chain on, the browser counts every click
and the chain every accepted one.  As long as no click is lost, the chain
accepts each one whose call it lets pay by proof of work at all; after a lost
one the solution that the button shows is for a count ahead of the chain's, and
is accepted only if it happens to solve for that one, too. -/
theorem front_pow_accepted {accountData : AccountData}
    {events : List (PowEvent NegativeImbalance)} {last : PowClient × AccountData}
    (solves : Solves host solver) (stored : (accountData.getOrDefault account).2 < 2 ^ 32)
    (run : Runs.Reaches (PowStep host solver account)
      (PowClient.generate accountData account, accountData) events last) :
    last.1.powCount = (accountData.getOrDefault account).2 + events.countP PowEvent.isClick ∧
      ((last.2.getOrDefault account).2 + events.countP PowEvent.isLost) % 2 ^ 32 =
        last.1.powCount % 2 ^ 32 ∧
      ∀ (withdrawal : Withdrawal NegativeImbalance) solution, last.1.solution = some solution →
        withdrawal.who = account → withdrawal.tip = powTip solution →
        Payable host withdrawal last.2 →
        (withdrawal.acceptedPow host last.2 = true ↔
          checkSolution host account (last.2.getOrDefault account).2 solution = true) ∧
        ((∀ event ∈ events, event.isLost = false) →
          withdrawal.acceptedPow host last.2 = true ∧
          (withdrawFee host withdrawal last.2).2.getOrDefault account =
            (withdrawal.blockNumber, (last.1.powCount + 1) % 2 ^ 32)) := by
  obtain ⟨clicks, accepts, shows⟩ := PowCounts.reaches stored run
  have split := countP_isClick events
  refine ⟨clicks, ?_, fun withdrawal solution shown own tip payable => ?_⟩
  · rw [accepts, clicks, split, Nat.mod_add_mod, Nat.add_assoc]
  subst own
  obtain ⟨bound, checked⟩ := solvePow_checked solves (shows solution shown)
  have iff := accepted_iff_checkSolution bound tip payable
  refine ⟨iff, fun kept => ?_⟩
  have none : events.countP PowEvent.isLost = 0 := by
    rw [List.countP_eq_zero]
    exact fun event member lost => by simp [kept event member] at lost
  have same : (last.2.getOrDefault withdrawal.who).2 = last.1.powCount % 2 ^ 32 := by
    rw [accepts, clicks, split, none, Nat.add_zero]
  have solved := shows solution shown
  rw [← solvePow_mod, ← same] at solved
  have accepted := iff.mpr (solvePow_checked solves solved).2
  refine ⟨accepted, ?_⟩
  rw [getOrDefault_of_accepted accepted, same, Nat.mod_add_mod]

/-- Under a host whose hashes all meet the threshold the first solution does. -/
def easySolver : SolverFn := fun buffer limit => (buffer, if limit = 0 then [] else [0])

/-- After one paid call the browser solves for the next one. -/
theorem front_pow_accepted_twice :
    ∃ last, Runs.Reaches (PowStep easyHost easySolver (Vector.replicate 32 1))
      (PowClient.generate (fun _ => none) (Vector.replicate 32 1), fun _ => none)
      [.mount, .click (solvedAt 1), .mount] last ∧ last.1.powCount = 1 ∧
      (solvedAt 2).acceptedPow easyHost last.2 = true := by
  let account : AccountId := Vector.replicate 32 1
  have solves : Solves easyHost easySolver := by
    intro buffer limit length found
    have positive : limit ≠ 0 := by
      intro zero
      simp [easySolver, zero] at found
    exact ⟨length, rfl, Nat.pos_of_ne_zero positive⟩
  have other : account ≠ Vector.replicate 32 0 := by decide
  have short : getAlmostlen easyHost (125000000 + 2 ^ 127 + 200) (2 ^ 127) = some 200 := by decide
  have payable (blockNumber : Nat) {accountData : AccountData}
      (later : (accountData.getOrDefault account).1 < blockNumber) :
      Payable easyHost (solvedAt blockNumber) accountData :=
    ⟨other, ⟨200, short, by decide⟩, List.mem_cons_self, by simp [solvedAt, allowedFunctions],
      later⟩
  have first : solvePow easySolver account 0 = some 0 := by decide +kernel
  have second : solvePow easySolver account 1 = some 0 := by decide +kernel
  have tip : (2 : Nat) ^ 127 = powTip 0 := by decide
  let paid : AccountData := (withdrawFee easyHost (solvedAt 1) fun _ => none).2
  have shown : Runs.Reaches (PowStep easyHost easySolver account)
      (PowClient.generate (fun _ => none) account, fun _ => none) [(.mount : PowEvent Unit)]
      (⟨0, solvePow easySolver account 0⟩, fun _ => none) :=
    Runs.Reaches.start.step (.mount _ _)
  obtain ⟨_, _, accepts⟩ := front_pow_accepted solves (by decide) shown
  have accepted := (accepts (solvedAt 1) 0 first rfl tip (payable 1 Nat.one_pos)).2 (by decide)
  have again := (shown.step (.click ⟨⟨0, first, tip⟩, rfl⟩ accepted.1)).step (.mount _ paid)
  obtain ⟨_, _, accepts⟩ := front_pow_accepted solves (by decide) again
  have later : (paid.getOrDefault account).1 < 2 := by
    rw [accepted.2]
    exact Nat.one_lt_two
  have kept : ∀ event ∈ [(.mount : PowEvent Unit)] ++ [.click (solvedAt 1)] ++ [.mount],
      event.isLost = false := by
    simp [PowEvent.isLost]
  exact ⟨_, again, rfl, ((accepts (solvedAt 2) 0 second rfl tip (payable 2 later)).2 kept).1⟩

end EmojiBattler.Front
