import Mathlib.Data.List.Nodup
import Mathlib.Logic.Function.Basic
import EmojiBattler.Codec.Arithmetic
import EmojiBattler.Library.Keyed
import EmojiBattler.Library.LittleEndian

/-! # Paying by proof of work

The adapter of the transaction fees, at the types of the runtime: a balance is a
`u128`, a block number and a count are a `u32`, so that no conversion fails. -/

namespace EmojiBattler.Pallet.Pow

open LittleEndian
open Function (update)

/-- `AccountId32` -/
abbrev AccountId := Vector UInt8 32

/-- What the pallet uses of other crates. -/
structure Host where
  /-- A hash of 32 bytes, without a key. -/
  blake2b : List UInt8 → Vector UInt8 32
  extrinsicBaseWeight : Nat

/-! ## Solutions -/

def threshold : Nat := 2655

/-- The 128 bytes that are hashed. -/
def powInput (account : AccountId) (count solution : Nat) : List UInt8 :=
  account.toList ++ (toBytes 4 count ++ (123 :: (List.replicate 83 0 ++ toBytes 8 solution)))

def checkSolution (host : Host) (account : AccountId) (count solution : Nat) : Bool :=
  let fullHash := host.blake2b (powInput account count solution)
  let n := ofBytes (fullHash.toList.take 4)
  n < threshold

/-! ## The pallet -/

inductive TransactionValidityError where
  | payment
  | other (text : String)
  deriving DecidableEq

/-- The block of the last payment of an account and the number of its
payments. -/
abbrev AccountData := AccountId → Option (Nat × Nat)

/-- A call of `withdraw_fee` and what it reads of the chain. -/
structure Withdrawal (NegativeImbalance : Type) where
  who : AccountId
  palletName : String
  functionName : String
  fee : Nat
  tip : Nat
  sudoKey : AccountId
  blockNumber : Nat
  /-- What `CurrencyAdapter` returns. -/
  payment : Except TransactionValidityError (Option NegativeImbalance)

inductive PaymentKind where
  | root
  | payment
  | pow (solution : Nat)
  deriving DecidableEq

def whichPaymentKind (sudoKey who : AccountId) (tip : Nat) : PaymentKind :=
  if who = sudoKey then .root
  -- head bit is 0 => normal payment
  else if tip &&& (1 <<< 127) = 0 then .payment
  -- tail 64 bits
  else .pow (tip % 2 ^ 64)

/-- What the fee leaves without the base weight and the tip. -/
def getAlmostlen (host : Host) (fee tip : Nat) : Option Nat := do
  let rest ← checkedSub fee host.extrinsicBaseWeight
  checkedSub rest tip

def allowedPallets : List String := ["Game", "FirstAirdrop"]

def allowedFunctions : List String :=
  ["start_mtc", "start_mtc_by_session", "finish_mtc_shop", "claim"]

/-- The stored block and count, with the default of an account without. -/
def AccountData.getOrDefault (accountData : AccountData) (who : AccountId) : Nat × Nat :=
  (accountData who).getD (0, 0)

variable {NegativeImbalance : Type}

/-- The result and the storage after it. -/
def validatePow (host : Host) (withdrawal : Withdrawal NegativeImbalance) (solution : Nat)
    (accountData : AccountData) : Except Unit Unit × AccountData :=
  match getAlmostlen host withdrawal.fee withdrawal.tip with
  | none => (.error (), accountData)
  | some almostlen =>
      if 1500 < almostlen then (.error (), accountData)
      else if withdrawal.palletName ∉ allowedPallets ∨
          withdrawal.functionName ∉ allowedFunctions then (.error (), accountData)
      else
        let (previousBlockNum, count) := accountData.getOrDefault withdrawal.who
        if withdrawal.blockNumber ≤ previousBlockNum then (.error (), accountData)
        else if ¬ checkSolution host withdrawal.who count solution then (.error (), accountData)
        else (.ok (), update accountData withdrawal.who
          (some (withdrawal.blockNumber, (count + 1) % 2 ^ 32)))

def withdrawFee (host : Host) (withdrawal : Withdrawal NegativeImbalance)
    (accountData : AccountData) :
    Except TransactionValidityError (Option NegativeImbalance) × AccountData :=
  match whichPaymentKind withdrawal.sudoKey withdrawal.who withdrawal.tip with
  | .root => (.ok none, accountData)
  | .payment => (withdrawal.payment, accountData)
  | .pow solution =>
      match validatePow host withdrawal solution accountData with
      | (.ok (), accountData) => (.ok none, accountData)
      | (.error (), accountData) => (.error .payment, accountData)

/-! ## The input of the hash -/

theorem powInput_inj {account account' : AccountId} {count count' solution solution' : Nat}
    (count_lt : count < 2 ^ 32) (count'_lt : count' < 2 ^ 32)
    (same : powInput account count solution = powInput account' count' solution') :
    account = account' ∧ count = count' := by
  unfold powInput at same
  obtain ⟨accounts, rest⟩ := List.append_inj same (by simp)
  obtain ⟨counts, _⟩ := List.append_inj rest (by simp)
  exact ⟨Vector.toList_inj.mp accounts, (toBytes_inj count_lt count'_lt).mp counts⟩

/-! ## One call -/

section Call

variable {host : Host} {withdrawal : Withdrawal NegativeImbalance} {solution : Nat}
variable {accountData : AccountData}

/-- All that a payment by proof of work is checked for. -/
structure Validated (host : Host) (withdrawal : Withdrawal NegativeImbalance) (solution : Nat)
    (accountData : AccountData) : Prop where
  short : ∃ almostlen, getAlmostlen host withdrawal.fee withdrawal.tip = some almostlen ∧
    almostlen ≤ 1500
  pallet : withdrawal.palletName ∈ allowedPallets
  function : withdrawal.functionName ∈ allowedFunctions
  later : (accountData.getOrDefault withdrawal.who).1 < withdrawal.blockNumber
  solved : checkSolution host withdrawal.who (accountData.getOrDefault withdrawal.who).2 solution

/-- A payment is validated and counted, or rejected and leaves the storage. -/
theorem validatePow_cases :
    (Validated host withdrawal solution accountData ∧
      validatePow host withdrawal solution accountData = (.ok (), update accountData withdrawal.who
        (some (withdrawal.blockNumber,
          ((accountData.getOrDefault withdrawal.who).2 + 1) % 2 ^ 32)))) ∨
    validatePow host withdrawal solution accountData = (.error (), accountData) := by
  unfold validatePow
  split
  · exact .inr rfl
  · rename_i almostlen found
    split
    · exact .inr rfl
    · rename_i short
      split
      · exact .inr rfl
      · rename_i allowed
        obtain ⟨pallet, function⟩ := not_or.mp allowed
        dsimp only
        split
        · exact .inr rfl
        · rename_i later
          split
          · exact .inr rfl
          · rename_i solved
            exact .inl ⟨⟨⟨almostlen, found, Nat.not_lt.mp short⟩, not_not.mp pallet,
              not_not.mp function, Nat.not_le.mp later, not_not.mp solved⟩, rfl⟩

/-- The solution of a call that pays by proof of work. -/
def Withdrawal.powSolution (withdrawal : Withdrawal NegativeImbalance) : Option Nat :=
  match whichPaymentKind withdrawal.sudoKey withdrawal.who withdrawal.tip with
  | .pow solution => some solution
  | _ => none

/-- The call pays by proof of work and is accepted. -/
def Withdrawal.acceptedPow (host : Host) (accountData : AccountData)
    (withdrawal : Withdrawal NegativeImbalance) : Bool :=
  withdrawal.powSolution.isSome && (withdrawFee host withdrawal accountData).1.isOk

theorem withdrawFee_of_accepted (accepted : withdrawal.acceptedPow host accountData = true) :
    ∃ solution, withdrawal.powSolution = some solution ∧
      Validated host withdrawal solution accountData ∧
      (withdrawFee host withdrawal accountData).2 = update accountData withdrawal.who
        (some (withdrawal.blockNumber,
          ((accountData.getOrDefault withdrawal.who).2 + 1) % 2 ^ 32)) := by
  unfold Withdrawal.acceptedPow Withdrawal.powSolution withdrawFee at accepted
  unfold Withdrawal.powSolution withdrawFee
  cases kind : whichPaymentKind withdrawal.sudoKey withdrawal.who withdrawal.tip with
  | root | payment => simp [kind] at accepted
  | pow solution =>
      rcases @validatePow_cases _ host withdrawal solution accountData with
        ⟨validated, result⟩ | result
      · exact ⟨solution, rfl, validated, by simp only [result]⟩
      · simp [kind, result, Except.isOk, Except.toBool] at accepted

/-- A call that is not accepted as a proof of work leaves the storage. -/
theorem withdrawFee_of_not_accepted (rejected : withdrawal.acceptedPow host accountData = false) :
    (withdrawFee host withdrawal accountData).2 = accountData := by
  unfold Withdrawal.acceptedPow Withdrawal.powSolution withdrawFee at rejected
  unfold withdrawFee
  cases kind : whichPaymentKind withdrawal.sudoKey withdrawal.who withdrawal.tip with
  | root | payment => rfl
  | pow solution =>
      rcases @validatePow_cases _ host withdrawal solution accountData with ⟨_, result⟩ | result
      · simp [kind, result, Except.isOk, Except.toBool] at rejected
      · simp only [result]

end Call

/-! ## Sequences of calls -/

/-- A payment by proof of work and the count that its solution was checked
against. -/
structure PowPayment (NegativeImbalance : Type) where
  withdrawal : Withdrawal NegativeImbalance
  count : Nat

def PowPayment.who (payment : PowPayment NegativeImbalance) : AccountId := payment.withdrawal.who

def PowPayment.block (payment : PowPayment NegativeImbalance) : Nat :=
  payment.withdrawal.blockNumber

/-- What was hashed for the payment. -/
def PowPayment.input (payment : PowPayment NegativeImbalance) : List UInt8 :=
  powInput payment.who payment.count (payment.withdrawal.powSolution.getD 0)

/-- The accepted payments by proof of work of a sequence of calls. -/
def powPayments (host : Host) :
    List (Withdrawal NegativeImbalance) → AccountData → List (PowPayment NegativeImbalance)
  | [], _ => []
  | withdrawal :: rest, accountData =>
      let later := powPayments host rest (withdrawFee host withdrawal accountData).2
      if withdrawal.acceptedPow host accountData then
        ⟨withdrawal, (accountData.getOrDefault withdrawal.who).2⟩ :: later
      else later

/-- The accepted payments of one account. -/
def powPaymentsOf (host : Host) (withdrawals : List (Withdrawal NegativeImbalance))
    (accountData : AccountData) (account : AccountId) : List (PowPayment NegativeImbalance) :=
  (powPayments host withdrawals accountData).filter fun payment => payment.who = account

section Sequences

variable {host : Host} {withdrawal : Withdrawal NegativeImbalance}
variable {withdrawals : List (Withdrawal NegativeImbalance)} {accountData : AccountData}
variable {account : AccountId}

/-- The payments of an account count on from its stored count, in ever later
blocks. -/
structure Counted (stored : Nat × Nat) (payments : List (PowPayment NegativeImbalance)) : Prop where
  counts : payments.map PowPayment.count = List.range' stored.2 payments.length
  blocks : (payments.map PowPayment.block).Pairwise (· < ·)
  later : ∀ payment ∈ payments, stored.1 < payment.block

theorem powPaymentsOf_cons :
    powPaymentsOf host (withdrawal :: withdrawals) accountData account =
      if withdrawal.acceptedPow host accountData ∧ withdrawal.who = account then
        ⟨withdrawal, (accountData.getOrDefault account).2⟩ ::
          powPaymentsOf host withdrawals (withdrawFee host withdrawal accountData).2 account
      else powPaymentsOf host withdrawals (withdrawFee host withdrawal accountData).2 account := by
  unfold powPaymentsOf
  rw [powPayments]
  by_cases accepted : withdrawal.acceptedPow host accountData
  · by_cases own : withdrawal.who = account
    · subst own
      rw [if_pos accepted, if_pos ⟨accepted, rfl⟩]
      exact List.filter_cons_of_pos (by exact decide_eq_true rfl)
    · rw [if_pos accepted, if_neg fun both => own both.2]
      exact List.filter_cons_of_neg (by exact fun same => own (of_decide_eq_true same))
  · rw [if_neg accepted, if_neg fun both => accepted both.1]

theorem getOrDefault_update_self {stored : Nat × Nat} :
    AccountData.getOrDefault (update accountData account (some stored)) account = stored := by
  rw [AccountData.getOrDefault, Function.update_self, Option.getD_some]

/-- A call by another account, and one that is not accepted as a proof of work,
leave what is stored of an account. -/
theorem withdrawFee_account_unchanged
    (other : withdrawal.who ≠ account ∨ withdrawal.acceptedPow host accountData = false) :
    (withdrawFee host withdrawal accountData).2 account = accountData account := by
  rcases other with different | rejected
  · by_cases accepted : withdrawal.acceptedPow host accountData
    · obtain ⟨_, _, _, after⟩ := withdrawFee_of_accepted accepted
      rw [after, Function.update_of_ne different.symm]
    · rw [withdrawFee_of_not_accepted (Bool.not_eq_true _ ▸ accepted)]
  · rw [withdrawFee_of_not_accepted rejected]

/-- The count is kept in 32 bits, so it may be 0 again after the last payment. -/
theorem Counted.cons {stored : Nat × Nat} {payment : PowPayment NegativeImbalance}
    {payments : List (PowPayment NegativeImbalance)} (checked : payment.count = stored.2)
    (later : stored.1 < payment.block) (room : stored.2 + 1 + payments.length ≤ 2 ^ 32)
    (counted : Counted (payment.block, (stored.2 + 1) % 2 ^ 32) payments) :
    Counted stored (payment :: payments) := by
  constructor
  · rw [List.map_cons, List.length_cons, List.range'_succ, counted.counts, checked]
    rcases Nat.lt_or_ge (stored.2 + 1) (2 ^ 32) with small | wrapped
    · rw [Nat.mod_eq_of_lt small]
    · have last : payments.length = 0 := by omega
      rw [last]
      rfl
  · rw [List.map_cons, List.pairwise_cons]
    refine ⟨fun block member => ?_, counted.blocks⟩
    obtain ⟨next, listed, rfl⟩ := List.mem_map.mp member
    exact counted.later next listed
  · intro next member
    rcases List.mem_cons.mp member with rfl | listed
    · exact later
    · exact Nat.lt_trans later (counted.later next listed)

theorem powPaymentsOf_counted
    (below : (accountData.getOrDefault account).2 +
      (powPaymentsOf host withdrawals accountData account).length ≤ 2 ^ 32) :
    Counted (accountData.getOrDefault account)
      (powPaymentsOf host withdrawals accountData account) := by
  induction withdrawals generalizing accountData with
  | nil => exact ⟨rfl, List.Pairwise.nil, fun _ member => (List.not_mem_nil member).elim⟩
  | cons withdrawal rest ih =>
      rw [powPaymentsOf_cons] at below ⊢
      split at below
      · rename_i pays
        obtain ⟨accepted, rfl⟩ := pays
        rw [if_pos ⟨accepted, rfl⟩]
        obtain ⟨solution, _, validated, after⟩ := withdrawFee_of_accepted accepted
        have stored : AccountData.getOrDefault (withdrawFee host withdrawal accountData).2
            withdrawal.who = (withdrawal.blockNumber,
              ((accountData.getOrDefault withdrawal.who).2 + 1) % 2 ^ 32) := by
          rw [after, getOrDefault_update_self]
        rw [List.length_cons] at below
        have counted := @ih (withdrawFee host withdrawal accountData).2 (by
          have wrapped := Nat.mod_le ((accountData.getOrDefault withdrawal.who).2 + 1) (2 ^ 32)
          rw [stored]
          omega)
        rw [stored] at counted
        exact Counted.cons rfl validated.later (by omega) counted
      · rename_i other
        have same : AccountData.getOrDefault (withdrawFee host withdrawal accountData).2 account =
            accountData.getOrDefault account := by
          unfold AccountData.getOrDefault
          rw [withdrawFee_account_unchanged (by
            by_cases own : withdrawal.who = account
            · exact .inr (Bool.eq_false_iff.mpr fun accepted => other ⟨accepted, own⟩)
            · exact .inl own)]
        rw [if_neg other, ← same]
        exact ih (same ▸ below)

/-- What every accepted payment was checked for. -/
structure Checked (host : Host) (payment : PowPayment NegativeImbalance) : Prop where
  solved : ∃ solution, payment.withdrawal.powSolution = some solution ∧
    checkSolution host payment.who payment.count solution
  short : ∃ almostlen, getAlmostlen host payment.withdrawal.fee payment.withdrawal.tip =
    some almostlen ∧ almostlen ≤ 1500
  pallet : payment.withdrawal.palletName ∈ allowedPallets
  function : payment.withdrawal.functionName ∈ allowedFunctions

theorem powPayments_checked :
    ∀ payment ∈ powPayments host withdrawals accountData, Checked host payment := by
  induction withdrawals generalizing accountData with
  | nil => exact fun _ member => (List.not_mem_nil member).elim
  | cons withdrawal rest ih =>
      intro payment member
      rw [powPayments] at member
      split at member
      · rename_i accepted
        rcases List.mem_cons.mp member with rfl | member
        · obtain ⟨solution, found, validated, _⟩ := withdrawFee_of_accepted accepted
          exact ⟨⟨solution, found, validated.solved⟩, validated.short, validated.pallet,
            validated.function⟩
        · exact ih payment member
      · exact ih payment member

/-- No input is hashed for two accepted payments. -/
theorem powPayments_inputs_nodup
    (below : ∀ account, (powPaymentsOf host withdrawals accountData account).length ≤ 2 ^ 32)
    (counts : ∀ account,
      (powPaymentsOf host withdrawals accountData account).map PowPayment.count =
        List.range (powPaymentsOf host withdrawals accountData account).length) :
    ((powPayments host withdrawals accountData).map PowPayment.input).Nodup := by
  have small : ∀ payment ∈ powPayments host withdrawals accountData, payment.count < 2 ^ 32 := by
    intro payment member
    have own : payment ∈ powPaymentsOf host withdrawals accountData payment.who :=
      List.mem_filter.mpr ⟨member, decide_eq_true rfl⟩
    have listed := @List.mem_map_of_mem _ _ _ _ PowPayment.count own
    rw [counts, List.mem_range] at listed
    exact Nat.lt_of_lt_of_le listed (below payment.who)
  have apart : (powPayments host withdrawals accountData).Pairwise fun earlier payment =>
      earlier.who = payment.who → earlier.count ≠ payment.count := by
    refine Keyed.pairwise_of_filter fun account => ?_
    have distinct : ((powPaymentsOf host withdrawals accountData account).map
        PowPayment.count).Nodup := by
      rw [counts]
      exact List.nodup_range
    exact List.pairwise_map.mp distinct
  refine List.pairwise_map.mpr
    (apart.imp_of_mem fun {earlier payment} member member' apart same => ?_)
  obtain ⟨who, count⟩ := powInput_inj (small earlier member) (small payment member') same
  exact apart who count

end Sequences

/-- From a storage without entries, the payments of an account by proof of work
are checked against the counts 0, 1, 2 and so on, in ever later blocks.  No hash
input pays twice, only short calls of the allowed functions are paid, and all
other calls leave the entry of the account. -/
theorem pow_pays_once {host : Host} {withdrawals : List (Withdrawal NegativeImbalance)}
    (below : ∀ account, (powPaymentsOf host withdrawals (fun _ => none) account).length ≤ 2 ^ 32) :
    (∀ account,
      (powPaymentsOf host withdrawals (fun _ => none) account).map PowPayment.count =
          List.range (powPaymentsOf host withdrawals (fun _ => none) account).length ∧
        ((powPaymentsOf host withdrawals (fun _ => none) account).map
          PowPayment.block).Pairwise (· < ·)) ∧
      ((powPayments host withdrawals fun _ => none).map PowPayment.input).Nodup ∧
      (∀ payment ∈ powPayments host withdrawals fun _ => none, Checked host payment) ∧
      ∀ (withdrawal : Withdrawal NegativeImbalance) (accountData : AccountData)
        (account : AccountId),
        withdrawal.who ≠ account ∨ withdrawal.acceptedPow host accountData = false →
          (withdrawFee host withdrawal accountData).2 account = accountData account := by
  have counted : ∀ account, Counted (0, 0)
      (powPaymentsOf host withdrawals (fun _ => none) account) := by
    intro account
    refine @powPaymentsOf_counted _ host withdrawals (fun _ => none) account ?_
    change 0 + _ ≤ _
    rw [Nat.zero_add]
    exact below account
  have counts : ∀ account,
      (powPaymentsOf host withdrawals (fun _ => none) account).map PowPayment.count =
        List.range (powPaymentsOf host withdrawals (fun _ => none) account).length := by
    intro account
    rw [(counted account).counts, List.range_eq_range']
  exact ⟨fun account => ⟨counts account, (counted account).blocks⟩,
    powPayments_inputs_nodup below counts, powPayments_checked,
    fun _ _ _ => withdrawFee_account_unchanged⟩

section Solved

/-- A host whose hashes all meet the threshold. -/
def easyHost : Host where
  blake2b _ := Vector.replicate 32 0
  extrinsicBaseWeight := 125000000

/-- A short call of account 1 with a solution in its tip. -/
def solvedAt (blockNumber : Nat) : Withdrawal Unit where
  who := Vector.replicate 32 1
  palletName := "Game"
  functionName := "finish_mtc_shop"
  fee := 125000000 + 2 ^ 127 + 200
  tip := 2 ^ 127
  sudoKey := Vector.replicate 32 0
  blockNumber
  payment := .error .payment

/-- Of two calls in one block the second is rejected. -/
theorem pow_pays_once_solved :
    (powPayments easyHost [solvedAt 1, solvedAt 1, solvedAt 2] fun _ => none).map
        (fun payment => (payment.block, payment.count)) = [(1, 0), (2, 1)] ∧
      ((powPayments easyHost [solvedAt 1, solvedAt 1, solvedAt 2] fun _ => none).map
        PowPayment.input).Nodup := by
  refine ⟨by decide, (@pow_pays_once _ easyHost [solvedAt 1, solvedAt 1, solvedAt 2] ?_).2.1⟩
  intro account
  refine Nat.le_trans (List.length_filter_le _ _) ?_
  decide

end Solved

end EmojiBattler.Pallet.Pow
