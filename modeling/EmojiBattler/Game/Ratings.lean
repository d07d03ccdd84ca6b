import EmojiBattler.Game.Isolation

/-! # EP over the matches

The EP of a player is written when the first match starts, when a match is
abandoned and when one ends.  Every write applies an outcome to the EP of
before. -/

namespace EmojiBattler.Game

open EmojiBattler.Mtc
open Function (update)

/-! ## Outcomes -/

/-- How a match ends for its player. -/
inductive Outcome where
  | abandoned
  | finished (place : Nat)
deriving DecidableEq

def Outcome.newEp (oldEp : Nat) : Outcome → Result Nat
  | .abandoned => return reduceEp oldEp epUnfinishPenalty
  | .finished place => calcNewEp place oldEp

/-- What `calc_new_ep` adds for a place that is worth `plus`. -/
def gain (plus oldEp : Nat) : Nat :=
  if initialEp < oldEp then
    let x := (oldEp - initialEp) / 40
    if x < plus then plus - x else 1
  else plus

theorem calcNewEp_first (oldEp : Nat) :
    calcNewEp 1 oldEp = .ok (saturatingAddU16 (gain 70 oldEp) oldEp) := rfl

theorem calcNewEp_second (oldEp : Nat) :
    calcNewEp 2 oldEp = .ok (saturatingAddU16 (gain 50 oldEp) oldEp) := rfl

theorem calcNewEp_third (oldEp : Nat) : calcNewEp 3 oldEp = .ok (reduceEp oldEp 30) := rfl

theorem calcNewEp_fourth (oldEp : Nat) : calcNewEp 4 oldEp = .ok (reduceEp oldEp 50) := rfl

/-- There are four places. -/
theorem calcNewEp_place {place oldEp newEp : Nat} (scored : calcNewEp place oldEp = .ok newEp) :
    place = 1 ∨ place = 2 ∨ place = 3 ∨ place = 4 := by
  unfold calcNewEp plusOfPlace? minusOfPlace at scored
  split at scored
  · rename_i worth
    split at worth
    · exact .inl rfl
    · exact .inr (.inl rfl)
    · cases worth
  · split at scored
    · exact .inr (.inr (.inl rfl))
    · exact .inr (.inr (.inr rfl))
    · cases scored

/-! ## The bounds of one outcome -/

variable {plus better ep other minus more : Nat}

theorem gain_pos (worth : 0 < plus) : 0 < gain plus ep := by
  unfold gain
  split
  · dsimp only
    split <;> omega
  · exact worth

theorem gain_le_gain (le : plus ≤ better) : gain plus ep ≤ gain better ep := by
  unfold gain
  split
  · dsimp only
    split <;> split <;> omega
  · exact le

/-- Forty more EP cost at most one point of the bonus. -/
theorem gain_add_le (le : ep ≤ other) (worth : 0 < plus) :
    gain plus ep + ep ≤ gain plus other + other := by
  have quotient : (other - initialEp) / 40 ≤ (ep - initialEp) / 40 + (other - ep) := by
    simp only [initialEp]
    omega
  unfold gain
  by_cases high : initialEp < ep
  · rw [if_pos high, if_pos (Nat.lt_of_lt_of_le high le)]
    dsimp only
    split <;> split <;> omega
  · rw [if_neg high]
    have low : (ep - initialEp) / 40 = 0 := by
      rw [Nat.sub_eq_zero_of_le (Nat.le_of_not_lt high)]
    rw [low] at quotient
    dsimp only
    split
    · split <;> omega
    · omega

theorem saturatingAddU16_le (first : gain plus ep + ep ≤ gain better other + other) :
    saturatingAddU16 (gain plus ep) ep ≤ saturatingAddU16 (gain better other) other :=
  Nat.le_min.mpr ⟨Nat.min_le_left _ _, Nat.le_trans (Nat.min_le_right _ _) first⟩

/-- A gain raises every EP that is not the largest one. -/
theorem lt_saturatingAddU16_gain_iff (worth : 0 < plus) (bound : ep ≤ u16Max) :
    ep < saturatingAddU16 (gain plus ep) ep ↔ ep ≠ u16Max := by
  have positive : 0 < gain plus ep := gain_pos worth
  unfold saturatingAddU16
  omega

theorem le_saturatingAddU16 (bound : ep ≤ u16Max) (added : Nat) :
    ep ≤ saturatingAddU16 added ep :=
  Nat.le_min.mpr ⟨bound, Nat.le_add_left _ _⟩

theorem minEp_le_reduceEp (ep minus : Nat) : minEp ≤ reduceEp ep minus := by
  unfold reduceEp
  dsimp only
  split <;> omega

theorem reduceEp_le (least : minEp ≤ ep) : reduceEp ep minus ≤ ep := by
  unfold reduceEp
  dsimp only
  split
  · exact Nat.sub_le ep minus
  · exact least

theorem reduceEp_le_reduceEp (le : ep ≤ other) (less : minus ≤ more) :
    reduceEp ep more ≤ reduceEp other minus := by
  unfold reduceEp
  dsimp only
  split <;> split <;> omega

/-- No outcome lets a lower EP overtake a higher one. -/
theorem Outcome.newEp_mono {outcome : Outcome} {new newOther : Nat} (le : ep ≤ other)
    (scored : outcome.newEp ep = .ok new) (scoredOther : outcome.newEp other = .ok newOther) :
    new ≤ newOther := by
  cases outcome with
  | abandoned =>
      cases scored
      cases scoredOther
      exact reduceEp_le_reduceEp le (Nat.le_refl _)
  | finished place =>
      simp only [newEp] at scored scoredOther
      rcases calcNewEp_place scored with rfl | rfl | rfl | rfl
      · cases (calcNewEp_first ep).symm.trans scored
        cases (calcNewEp_first other).symm.trans scoredOther
        exact saturatingAddU16_le (gain_add_le le (by decide))
      · cases (calcNewEp_second ep).symm.trans scored
        cases (calcNewEp_second other).symm.trans scoredOther
        exact saturatingAddU16_le (gain_add_le le (by decide))
      · cases (calcNewEp_third ep).symm.trans scored
        cases (calcNewEp_third other).symm.trans scoredOther
        exact reduceEp_le_reduceEp le (Nat.le_refl _)
      · cases (calcNewEp_fourth ep).symm.trans scored
        cases (calcNewEp_fourth other).symm.trans scoredOther
        exact reduceEp_le_reduceEp le (Nat.le_refl _)

/-- No outcome leaves less than the minimum, or more than fits. -/
theorem Outcome.newEp_bounds {outcome : Outcome} {new : Nat} (least : minEp ≤ ep)
    (bound : ep ≤ u16Max) (scored : outcome.newEp ep = .ok new) : minEp ≤ new ∧ new ≤ u16Max := by
  have gained (added : Nat) : minEp ≤ saturatingAddU16 added ep ∧
      saturatingAddU16 added ep ≤ u16Max :=
    ⟨Nat.le_trans least (le_saturatingAddU16 bound added), Nat.min_le_left _ _⟩
  have reduced (minus : Nat) : minEp ≤ reduceEp ep minus ∧ reduceEp ep minus ≤ u16Max :=
    ⟨minEp_le_reduceEp ep minus, Nat.le_trans (reduceEp_le least) bound⟩
  cases outcome with
  | abandoned =>
      cases scored
      exact reduced _
  | finished place =>
      simp only [newEp] at scored
      rcases calcNewEp_place scored with rfl | rfl | rfl | rfl
      · cases (calcNewEp_first ep).symm.trans scored
        exact gained _
      · cases (calcNewEp_second ep).symm.trans scored
        exact gained _
      · cases (calcNewEp_third ep).symm.trans scored
        exact reduced _
      · cases (calcNewEp_fourth ep).symm.trans scored
        exact reduced _

/-! ## Runs -/

/-- How a message changes a stored EP. -/
inductive EpStep : Option Nat → Option Nat → Prop where
  | kept (ep : Option Nat) : EpStep ep ep
  | initial : EpStep none (some initialEp)
  | scored (outcome : Outcome) {oldEp newEp : Nat} (scored : outcome.newEp oldEp = .ok newEp) :
      EpStep (some oldEp) (some newEp)

/-- A stored EP is within the bounds. -/
def EpBounded (stored : Option Nat) : Prop :=
  ∀ ep, stored = some ep → minEp ≤ ep ∧ ep ≤ u16Max

theorem EpStep.bounded {before after : Option Nat} (step : EpStep before after)
    (bounded : EpBounded before) : EpBounded after := by
  cases step with
  | kept => exact bounded
  | initial =>
      intro ep stored
      cases stored
      decide
  | scored outcome scored =>
      intro ep stored
      cases stored
      obtain ⟨least, bound⟩ := bounded _ rfl
      exact outcome.newEp_bounds least bound scored

namespace Contract

variable {AccountId : Type} [DecidableEq AccountId]

theorem createOrUpdatePlayerEp_step (player : AccountId) (contract : Contract AccountId) :
    EpStep (contract.playerEp player) (some (contract.createOrUpdatePlayerEp player).1) := by
  unfold createOrUpdatePlayerEp
  split
  · rename_i oldEp found
    rw [found]
    split
    · exact .scored .abandoned rfl
    · exact .kept _
  · rename_i found
    rw [found]
    exact .initial

theorem finishMtc_epStep {context : Context AccountId} {player : AccountId} {place : Nat}
    {history : List GradeAndBoard} {before after : Contract AccountId}
    (performed : before.finishMtc context player place history = .ok after) :
    EpStep (before.playerEp player) (after.playerEp player) := by
  simp only [finishMtc, Result.bind_eq_ok_iff, okOr_eq_ok_iff, Result.pure_eq_ok_iff] at performed
  obtain ⟨oldEp, found, newEp, scored, leaderboardOpt, _, placed, stored, rfl⟩ := performed
  have written := congrArg Account.ep (addMatchmakingGhostOfHistory_account stored player)
  simp only [account, Function.update_self] at written ⊢
  rw [found, written]
  exact .scored (.finished place) scored

theorem execute_epStep {chain : Chain AccountId} {context : Context AccountId} {fuel : Nat}
    {message : Message AccountId} {before after : Contract AccountId}
    (performed : before.execute chain context fuel message = pure after) (player : AccountId) :
    EpStep (before.playerEp player) (after.playerEp player) := by
  cases execute_executed performed with
  | managed | updated => exact .kept _
  | started performed =>
      obtain ⟨_, _, _, rfl⟩ := startMtc_cases performed
      by_cases own : player = context.caller
      · subst own
        dsimp only
        rw [Function.update_self]
        exact createOrUpdatePlayerEp_step _ _
      · dsimp only
        rw [Function.update_of_ne own]
        exact .kept _
  | finished performed =>
      obtain ⟨outcome, _, _, _, ⟨place, stored, _, finished, rfl⟩ | ⟨_, _, rfl⟩⟩ :=
        finishMtcShop_cases performed
      · by_cases own : player = context.caller
        · subst own
          have step := finishMtc_epStep finished
          exact step
        · have kept := congrArg Account.ep ((finishMtc_accounts finished).2.2 player own)
          simp only [account] at kept
          rw [kept]
          exact .kept _
      · exact .kept _

theorem Reachable.epBounded {chain : Chain AccountId} {contract : Contract AccountId}
    (reached : contract.Reachable chain) (player : AccountId) :
    EpBounded (contract.playerEp player) := by
  obtain ⟨deployer, messages⟩ := reached
  induction messages with
  | refl => exact fun _ stored => nomatch stored
  | tail _ message ih =>
      obtain ⟨context, fuel, message, performed⟩ := message
      exact (execute_epStep performed player).bounded ih

/-- In every run no stored EP is below the minimum, the outcomes of a match are
ordered, and each of them keeps the order of the players. -/
theorem ep_rewards_ordered {chain : Chain AccountId} {contract : Contract AccountId}
    (reached : contract.Reachable chain) :
    (∀ player ep, contract.playerEp player = some ep → minEp ≤ ep) ∧
      (∀ ep, 1 ≤ ep → ep ≤ u16Max → ∃ fourth third second first,
        calcNewEp 4 ep = .ok fourth ∧ calcNewEp 3 ep = .ok third ∧
          calcNewEp 2 ep = .ok second ∧ calcNewEp 1 ep = .ok first ∧
          reduceEp ep 60 ≤ fourth ∧ fourth ≤ third ∧ third ≤ ep ∧ ep ≤ second ∧
          second ≤ first ∧ (ep ≠ 65535 → ep < second ∧ ep < first)) ∧
      ∀ ep other, 1 ≤ ep → ep ≤ other → other ≤ u16Max →
        reduceEp ep 60 ≤ reduceEp other 60 ∧
          ∀ place, 1 ≤ place → place ≤ 4 → ∃ newEp newOther,
            calcNewEp place ep = .ok newEp ∧ calcNewEp place other = .ok newOther ∧
              newEp ≤ newOther := by
  refine ⟨fun player ep stored => (reached.epBounded player ep stored).1, ?_, ?_⟩
  · intro ep least bound
    have second := @lt_saturatingAddU16_gain_iff 50 ep (by decide) bound
    have first := @lt_saturatingAddU16_gain_iff 70 ep (by decide) bound
    refine ⟨_, _, _, _, calcNewEp_fourth ep, calcNewEp_third ep, calcNewEp_second ep,
      calcNewEp_first ep, ?_, ?_, reduceEp_le least, le_saturatingAddU16 bound _, ?_, ?_⟩
    · exact reduceEp_le_reduceEp (Nat.le_refl ep) (by decide)
    · exact reduceEp_le_reduceEp (Nat.le_refl ep) (by decide)
    · exact saturatingAddU16_le (Nat.add_le_add_right (gain_le_gain (by decide)) ep)
    · exact fun below => ⟨second.mpr below, first.mpr below⟩
  · intro ep other least le bound
    refine ⟨reduceEp_le_reduceEp le (Nat.le_refl 60), fun place lower upper => ?_⟩
    have scores (oldEp : Nat) : ∃ newEp, calcNewEp place oldEp = .ok newEp := by
      have places : place = 1 ∨ place = 2 ∨ place = 3 ∨ place = 4 := by omega
      rcases places with rfl | rfl | rfl | rfl
      · exact ⟨_, calcNewEp_first oldEp⟩
      · exact ⟨_, calcNewEp_second oldEp⟩
      · exact ⟨_, calcNewEp_third oldEp⟩
      · exact ⟨_, calcNewEp_fourth oldEp⟩
    obtain ⟨newEp, scored⟩ := scores ep
    obtain ⟨newOther, scoredOther⟩ := scores other
    exact ⟨newEp, newOther, scored, scoredOther,
      @Outcome.newEp_mono ep other (.finished place) newEp newOther le scored scoredOther⟩

/-- A player that starts its second match without having finished the first
one. -/
theorem ep_rewards_ordered_abandoned :
    ∃ contract : Contract Nat, contract.playerEp 0 = some 240 ∧
      ∀ ep, contract.playerEp 0 = some ep → minEp ≤ ep := by
  let chain : Chain Nat := { sampler := .first, hashEncoded := fun _ _ time => time }
  let context : Context Nat :=
    { caller := 0, callerIsOrigin := true, blockNumber := 1, blockTimestamp := 5 }
  let bases : Emo.Bases := fun id =>
    if id < 6 then some ⟨id, .human, id + 1, 1, 1, []⟩ else none
  let messages : Fueled (Contract Nat) := do
    let stored ← (new 0).execute chain context 0
      (.updateEmoBases bases [] [0, 1, 2, 3, 4, 5] true)
    let started ← stored.execute chain context 0 (.startMtc [0, 1, 2, 3, 4, 5])
    started.execute chain context 0 (.startMtc [0, 1, 2, 3, 4, 5])
  have executed : messages.value?.any fun last => last.playerEp 0 = some 240 := by
    decide +kernel
  obtain ⟨last, executed, found⟩ := Fueled.exists_of_value? executed
  simp only [messages, Fueled.bind_eq_pure_iff] at executed
  obtain ⟨stored, storing, started, starting, again⟩ := executed
  have reached : last.Reachable chain :=
    ⟨0, ((Relation.ReflTransGen.single ⟨context, 0, _, storing⟩).tail
      ⟨context, 0, _, starting⟩).tail ⟨context, 0, _, again⟩⟩
  exact ⟨last, of_decide_eq_true found, (ep_rewards_ordered reached).1 0⟩

end Contract

end EmojiBattler.Game
