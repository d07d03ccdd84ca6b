import EmojiBattler.Shop.Failures

/-! # How much an action changes the emos

An action that sets no emo leaves every emo in its place.  It raises attack and
health by a number that the action alone tells, and gives no ability but the one
it names. -/

namespace EmojiBattler.Mtc.Shop

open EmojiBattler.Emo Sampling CallMachine
open EmojiBattler.Emo.Ability (Destination Target TypOptAndIsTripleOpt)
open EmojiBattler.Emo.Ability.Shop (NormalAction)

/-! ## Raised emos -/

/-- The emo keeps its identity, gains no more than the amount and gets only
abilities of this kind. -/
structure Raised (given : Ability → Prop) (amount : Nat) (before after : ShopBoardEmo) :
    Prop where
  id : after.id = before.id
  baseId : after.baseId = before.baseId
  isTriple : after.attributes.isTriple = before.attributes.isTriple
  attack : after.attributes.attack ≤ before.attributes.attack + amount
  health : after.attributes.health ≤ before.attributes.health + amount
  abilities : ∃ gifts, after.attributes.abilities = before.attributes.abilities ++ gifts ∧
    ∀ ability ∈ gifts, given ability

/-- Each emo is raised by its own amount. -/
abbrev BoardRaised (given : Ability → Prop) (amount : ShopBoardEmo → Nat) :
    ShopBoard → ShopBoard → Prop :=
  List.Forall₂ fun before after => Raised given (amount before) before after

variable {given : Ability → Prop} {amount : ShopBoardEmo → Nat} {attack health : Nat}

theorem Raised.refl (emo : ShopBoardEmo) (gain : Nat) : Raised given gain emo emo :=
  ⟨rfl, rfl, rfl, Nat.le_add_right _ _, Nat.le_add_right _ _, [], (List.append_nil _).symm,
    List.forall_mem_nil _⟩

theorem Raised.trans {first second : Nat} {before middle after : ShopBoardEmo}
    (raised : Raised given first before middle) (again : Raised given second middle after) :
    Raised given (first + second) before after := by
  obtain ⟨gifts, abilities, kind⟩ := raised.abilities
  obtain ⟨gifts', abilities', kind'⟩ := again.abilities
  refine ⟨again.id.trans raised.id, again.baseId.trans raised.baseId,
    again.isTriple.trans raised.isTriple, ?_, ?_, gifts ++ gifts', ?_, ?_⟩
  · have := raised.attack
    have := again.attack
    omega
  · have := raised.health
    have := again.health
    omega
  · rw [abilities', abilities, List.append_assoc]
  · intro ability member
    rcases List.mem_append.mp member with old | new
    · exact kind ability old
    · exact kind' ability new

theorem Raised.mono {less more : Nat} {before after : ShopBoardEmo}
    (raised : Raised given less before after) (bound : less ≤ more) :
    Raised given more before after :=
  { raised with
    attack := Nat.le_trans raised.attack (Nat.add_le_add_left bound _)
    health := Nat.le_trans raised.health (Nat.add_le_add_left bound _) }

theorem BoardRaised.refl (board : ShopBoard) : BoardRaised given amount board board :=
  List.forall₂_same.mpr fun emo _ => .refl emo _

theorem BoardRaised.mono {more : ShopBoardEmo → Nat} {before after : ShopBoard}
    (raised : BoardRaised given amount before after)
    (bound : ∀ emo ∈ before, amount emo ≤ more emo) : BoardRaised given more before after := by
  induction raised with
  | nil => exact .nil
  | cons first _ ih =>
      rw [List.forall_mem_cons] at bound
      exact .cons (first.mono bound.1) (ih bound.2)

/-- An amount that depends on the identity alone adds up. -/
theorem BoardRaised.trans {first second : Nat → Nat} {before middle after : ShopBoard}
    (raised : BoardRaised given (fun emo => first emo.id) before middle)
    (again : BoardRaised given (fun emo => second emo.id) middle after) :
    BoardRaised given (fun emo => first emo.id + second emo.id) before after := by
  induction raised generalizing after with
  | nil =>
      cases again
      exact .nil
  | cons change _ ih =>
      cases again with
      | cons change' rest => exact .cons (change.trans (change.id ▸ change')) (ih rest)

theorem BoardRaised.weaken {wider : Ability → Prop} {before after : ShopBoard}
    (raised : BoardRaised given amount before after)
    (bound : ∀ ability, given ability → wider ability) :
    BoardRaised wider amount before after := by
  induction raised with
  | nil => exact .nil
  | cons change _ ih =>
      obtain ⟨gifts, abilities, kind⟩ := change.abilities
      refine .cons { change with abilities := ⟨gifts, abilities, fun ability member => ?_⟩ } ih
      exact bound ability (kind ability member)

/-- Only the emo at the index changes. -/
theorem BoardRaised.set {board : ShopBoard} {index gain : Nat} {emo changed : ShopBoardEmo}
    (found : board[index]? = some emo) (change : Raised given gain emo changed)
    (raises : ∀ other ∈ board, other.id = emo.id → gain ≤ amount other) :
    BoardRaised given amount board (board.set index changed) := by
  induction board generalizing index with
  | nil => cases found
  | cons head rest ih =>
      rw [List.forall_mem_cons] at raises
      cases index with
      | zero =>
          cases found
          exact .cons (change.mono (raises.1 rfl)) (BoardRaised.refl rest)
      | succ index => exact .cons (.refl head _) (ih found raises.2)

/-! ## Raising stats -/

section Stats

variable {env : Env} {state after : ShopState} {emoPointer : EmoPointer}

theorem addAttackAndHealthToEmo_raised {id : Nat}
    (performed : addAttackAndHealthToEmo env attack health state id = .ok after) :
    BoardRaised given (fun emo => if emo.id = id then max attack health else 0) state.board
      after.board := by
  simp only [addAttackAndHealthToEmo, Result.bind_eq_ok_iff, Result.pure_eq_ok_iff] at performed
  obtain ⟨⟨emo, index⟩, located, rfl⟩ := performed
  obtain ⟨found, rfl⟩ := ShopBoard.getEmoMutAndIndexById_found located
  simp only [ShopState.setEmoAt, ShopState.addLog_board]
  refine @BoardRaised.set _ _ _ _ (max attack health) _ _ found ⟨rfl, rfl, rfl, ?_, ?_, [],
    (List.append_nil _).symm, List.forall_mem_nil _⟩ fun other _ same => by rw [if_pos same]
  · exact Nat.le_trans (Nat.min_le_right _ _) (Nat.add_le_add_left (Nat.le_max_left _ _) _)
  · exact Nat.le_trans (Nat.min_le_right _ _) (Nat.add_le_add_left (Nat.le_max_right _ _) _)

/-- Each emo is raised as often as it is listed. -/
theorem addAttackAndHealth_foldlM_raised {ids : List Nat}
    (performed : ids.foldlM (addAttackAndHealthToEmo env attack health) state = .ok after) :
    BoardRaised given (fun emo => ids.count emo.id * max attack health) state.board
      after.board := by
  induction ids generalizing state with
  | nil =>
      cases performed
      exact .refl _
  | cons id rest ih =>
      rw [List.foldlM_cons, Result.bind_eq_ok_iff] at performed
      obtain ⟨middle, first, performed⟩ := performed
      refine BoardRaised.mono (@BoardRaised.trans _
        (fun other => if other = id then max attack health else 0)
        (fun other => rest.count other * max attack health) _ _ _
        (addAttackAndHealthToEmo_raised first) (ih performed)) fun emo _ => ?_
      by_cases same : emo.id = id
      · rw [if_pos same, same, List.count_cons_self, Nat.succ_mul, Nat.add_comm]
      · rw [if_neg same, Nat.zero_add, List.count_cons_of_ne (Ne.symm same)]

theorem filterMatchedEmoIds_sublist {board : ShopBoard} {typAndTriple : TypOptAndIsTripleOpt}
    {ids filteredIds : List Nat}
    (filtered : filterMatchedEmoIds env board typAndTriple ids = .ok filteredIds) :
    filteredIds.Sublist ids := by
  induction ids generalizing filteredIds with
  | nil =>
      cases filtered
      exact .refl _
  | cons id rest ih =>
      simp only [filterMatchedEmoIds, Result.bind_eq_ok_iff, Result.pure_eq_ok_iff] at filtered
      obtain ⟨emo, _, isMatched, _, others, performed, rfl⟩ := filtered
      split
      · exact (ih performed).cons_cons id
      · exact (ih performed).cons id

/-- No emo is a target twice. -/
theorem getEmoIdsByTarget_nodup {board : ShopBoard} {target : Target} {ids : List Nat}
    (distinct : board.emoIds.Nodup)
    (found : getEmoIdsByTarget env board emoPointer target = .ok ids) : ids.Nodup := by
  have toList_nodup (idOpt : Option Nat) : idOpt.toList.Nodup := by
    cases idOpt with
    | none => exact List.nodup_nil
    | some id => exact List.nodup_singleton id
  cases target with
  | oneself =>
      cases emoPointer with
      | onBoard emoId =>
          cases found
          exact List.nodup_singleton emoId
      | removed =>
          cases found
          exact List.nodup_nil
  | others destination typAndTriple =>
      simp only [getEmoIdsByTarget, Result.bind_eq_ok_iff] at found
      obtain ⟨candidates, listed, filtered⟩ := found
      refine List.Nodup.sublist (filterMatchedEmoIds_sublist filtered) ?_
      cases destination with
      | right | left =>
          simp only [getEmoIdsByDestination, Result.map_eq_ok_iff] at listed
          obtain ⟨idOpt, _, rfl⟩ := listed
          exact toList_nodup idOpt
      | all =>
          cases listed
          exact distinct.filter _

theorem addAttackAndHealthToEmos_raised {target : Target} (distinct : state.board.emoIds.Nodup)
    (performed : addAttackAndHealthToEmos env emoPointer target attack health state = .ok after) :
    BoardRaised given (fun _ => max attack health) state.board after.board := by
  simp only [addAttackAndHealthToEmos, Result.bind_eq_ok_iff] at performed
  obtain ⟨ids, targets, performed⟩ := performed
  refine (addAttackAndHealth_foldlM_raised performed).mono fun emo _ => ?_
  have once := List.nodup_iff_count_le_one.mp (getEmoIdsByTarget_nodup distinct targets) emo.id
  exact Nat.le_trans (Nat.mul_le_mul_right _ once) (Nat.le_of_eq (Nat.one_mul _))

theorem addAttackAndHealthToEmo_raised_le {id : Nat}
    (performed : addAttackAndHealthToEmo env attack health state id = .ok after) :
    BoardRaised given (fun _ => max attack health) state.board after.board :=
  (addAttackAndHealthToEmo_raised performed).mono fun emo _ => by split <;> omega

theorem increaseStatsOfLeft_raised {typOpt : Option Typ}
    (performed : increaseStatsOfLeft env emoPointer attack health state = .ok (typOpt, after)) :
    BoardRaised given (fun _ => max attack health) state.board after.board := by
  simp only [increaseStatsOfLeft, Result.bind_eq_ok_iff] at performed
  obtain ⟨idOpt, _, performed⟩ := performed
  cases idOpt with
  | none =>
      cases performed
      exact .refl _
  | some id =>
      simp only [Result.bind_eq_ok_iff, Result.pure_eq_ok_iff, Prod.mk.injEq] at performed
      obtain ⟨_, _, _, _, _, changed, _, rfl⟩ := performed
      exact addAttackAndHealthToEmo_raised_le changed

theorem increaseStatsOfRight_raised {leftTypOpt : Option Typ}
    (performed : increaseStatsOfRight env emoPointer leftTypOpt attack health state = .ok after) :
    BoardRaised given (fun _ => max attack health) state.board after.board := by
  simp only [increaseStatsOfRight, Result.bind_eq_ok_iff] at performed
  obtain ⟨idOpt, _, performed⟩ := performed
  cases idOpt with
  | none =>
      cases performed
      exact .refl _
  | some id =>
      simp only [Result.bind_eq_ok_iff] at performed
      obtain ⟨emo, _, performed⟩ := performed
      cases leftTypOpt with
      | none => exact addAttackAndHealthToEmo_raised_le performed
      | some leftTyp =>
          simp only [Result.bind_eq_ok_iff] at performed
          obtain ⟨base, _, performed⟩ := performed
          split at performed
          · exact addAttackAndHealthToEmo_raised_le performed
          · cases performed
            exact .refl _

/-- The loop raises each candidate at most once. -/
theorem increaseStatsOfMenagerieLoop_raised {actionEmoId typCount : Nat} {emoIds : List Nat}
    {typs : List Typ}
    (performed : increaseStatsOfMenagerieLoop env actionEmoId typCount attack health emoIds typs
      state = .ok after) :
    BoardRaised given (fun emo => emoIds.count emo.id * max attack health) state.board
      after.board := by
  have skipped {id : Nat} {rest : List Nat} {emo : ShopBoardEmo} :
      rest.count emo.id * max attack health ≤ (id :: rest).count emo.id * max attack health :=
    Nat.mul_le_mul_right _ (List.count_le_count_cons)
  induction emoIds generalizing typs state with
  | nil =>
      cases performed
      exact .refl _
  | cons id rest ih =>
      simp only [increaseStatsOfMenagerieLoop] at performed
      split at performed
      · exact (ih performed).mono fun _ _ => skipped
      · simp only [Result.bind_eq_ok_iff] at performed
        obtain ⟨_, _, _, _, performed⟩ := performed
        split at performed
        · exact (ih performed).mono fun _ _ => skipped
        · simp only [Result.bind_eq_ok_iff] at performed
          obtain ⟨middle, changed, performed⟩ := performed
          have first := @addAttackAndHealthToEmo_raised given _ _ _ _ _ _ changed
          have bound (emo : ShopBoardEmo) : (if emo.id = id then max attack health else 0) +
              rest.count emo.id * max attack health ≤
                (id :: rest).count emo.id * max attack health := by
            by_cases same : emo.id = id
            · rw [if_pos same, same, List.count_cons_self, Nat.succ_mul, Nat.add_comm]
            · rw [if_neg same, Nat.zero_add, List.count_cons_of_ne (Ne.symm same)]
          split at performed
          · cases performed
            exact first.mono fun emo _ => Nat.le_trans (Nat.le_add_right _ _) (bound emo)
          · exact BoardRaised.mono (@BoardRaised.trans _
              (fun other => if other = id then max attack health else 0)
              (fun other => rest.count other * max attack health) _ _ _ first (ih performed))
              fun emo _ => bound emo

theorem doubled_le {condition : Bool} :
    max (doubleAttackAndHealthIf condition attack health).1
      (doubleAttackAndHealthIf condition attack health).2 ≤ 2 * max attack health := by
  unfold doubleAttackAndHealthIf saturatingMulU16
  split <;> omega

theorem saturatingMulU16_le (left right : Nat) : saturatingMulU16 left right ≤ left * right :=
  Nat.min_le_right _ _

theorem increaseStatsOfMenagerie_raised {rng next : env.sampler.Rng} {actionEmoId typCount : Nat}
    (distinct : state.board.emoIds.Nodup)
    (performed : increaseStatsOfMenagerie env rng actionEmoId typCount attack health state =
      .ok (next, after)) :
    BoardRaised given (fun _ => 2 * max attack health) state.board after.board := by
  simp only [increaseStatsOfMenagerie, Result.bind_eq_ok_iff, Result.pure_eq_ok_iff,
    Prod.mk.injEq] at performed
  obtain ⟨_, _, _, changed, _, rfl⟩ := performed
  refine (increaseStatsOfMenagerieLoop_raised changed).mono fun emo _ => ?_
  have once := List.nodup_iff_count_le_one.mp
    ((Sampler.shuffleAll_perm rng state.board.emoIds).nodup_iff.mpr distinct) emo.id
  exact Nat.le_trans (Nat.mul_le_mul once doubled_le) (Nat.le_of_eq (Nat.one_mul _))

end Stats

/-! ## Actions -/

/-- A bound for what the action raises the stats of one emo by, if it sets none
and no base has a higher grade. -/
def raise (grade : Nat) : NormalAction → Nat
  | .increaseStats _ attack health => 2 * max attack health
  | .increaseStatsOfAdjacentMenagerie attack health => 4 * max attack health
  | .increaseStatsByGrade _ attack health => 2 * grade * max attack health
  | .increaseStatsByEmoCount _ _ attack health => 2 * boardEmoMaxCount * max attack health
  | .setEmo _ | .addAbility .. | .getCoin _ | .getCoinByEmoCountDiv .. => 0

section Actions

variable {env : Env} {state after : ShopState} {emoPointer : EmoPointer}

theorem countEmosByTypAndTriple_le {board : ShopBoard} {countCondition : TypOptAndIsTripleOpt}
    {count : Nat}
    (counted : countEmosByTypAndTriple env board emoPointer countCondition = .ok count) :
    count ≤ board.length := by
  have general : ∀ {board : ShopBoard} {start : Nat},
      board.foldlM (countEmoByTypAndTriple env emoPointer.getEmoId countCondition) start =
        .ok count → count ≤ start + board.length := by
    intro board
    induction board with
    | nil =>
        intro start counted
        cases counted
        exact Nat.le_refl _
    | cons emo rest ih =>
        intro start counted
        rw [List.foldlM_cons, Result.bind_eq_ok_iff] at counted
        obtain ⟨next, first, counted⟩ := counted
        have step : next ≤ start + 1 := by
          by_cases same : emo.id = emoPointer.getEmoId
          · simp only [countEmoByTypAndTriple, if_pos same] at first
            cases first
            exact Nat.le_succ _
          · simp only [countEmoByTypAndTriple, if_neg same, Result.bind_eq_ok_iff] at first
            obtain ⟨isMatched, _, counted⟩ := first
            cases isMatched with
            | true =>
                rw [if_pos rfl] at counted
                obtain ⟨_, rfl⟩ := addU8_eq_ok_iff.mp counted
                exact Nat.le_refl _
            | false =>
                rw [if_neg Bool.false_ne_true] at counted
                cases counted
                exact Nat.le_succ _
        have rest := ih counted
        rw [List.length_cons]
        omega
  exact Nat.le_trans (general counted) (Nat.le_of_eq (Nat.zero_add _))

theorem increaseStatsByEmoCount_raised {isTripleAction : Bool} {target : Target}
    {countCondition : TypOptAndIsTripleOpt} (small : state.board.length ≤ boardEmoMaxCount)
    (distinct : state.board.emoIds.Nodup)
    (performed : increaseStatsByEmoCount env emoPointer isTripleAction target countCondition
      attack health state = .ok after) :
    BoardRaised given (fun _ => 2 * boardEmoMaxCount * max attack health) state.board
      after.board := by
  simp only [increaseStatsByEmoCount, Result.bind_eq_ok_iff] at performed
  obtain ⟨count, counted, performed⟩ := performed
  refine (addAttackAndHealthToEmos_raised distinct performed).mono fun _ _ => ?_
  have few := Nat.le_trans (countEmosByTypAndTriple_le counted) small
  have doubled := @doubled_le attack health isTripleAction
  refine Nat.le_trans (Nat.max_le.mpr ⟨?_, ?_⟩)
    (Nat.le_of_eq (Nat.mul_right_comm 2 (max attack health) boardEmoMaxCount))
  · exact Nat.le_trans (saturatingMulU16_le _ _)
      (Nat.mul_le_mul (Nat.le_trans (Nat.le_max_left _ _) doubled) few)
  · exact Nat.le_trans (saturatingMulU16_le _ _)
      (Nat.mul_le_mul (Nat.le_trans (Nat.le_max_right _ _) doubled) few)

theorem increaseStatsByGrade_raised {grade : Nat} {isTripleAction : Bool} {target : Target}
    (grades : ∀ id base, env.emoBases id = some base → base.grade ≤ grade)
    (distinct : state.board.emoIds.Nodup)
    (performed : increaseStatsByGrade env emoPointer isTripleAction target attack health state =
      .ok after) :
    BoardRaised given (fun _ => 2 * grade * max attack health) state.board after.board := by
  simp only [increaseStatsByGrade, Result.bind_eq_ok_iff, Emo.Bases.find_eq_ok_iff] at performed
  obtain ⟨actionEmo, _, base, found, performed⟩ := performed
  refine (addAttackAndHealthToEmos_raised distinct performed).mono fun _ _ => ?_
  have low := grades _ _ found
  have doubled := @doubled_le attack health isTripleAction
  refine Nat.le_trans (Nat.max_le.mpr ⟨?_, ?_⟩)
    (Nat.le_of_eq (Nat.mul_right_comm 2 (max attack health) grade))
  · exact Nat.le_trans (saturatingMulU16_le _ _)
      (Nat.mul_le_mul (Nat.le_trans (Nat.le_max_left _ _) doubled) low)
  · exact Nat.le_trans (saturatingMulU16_le _ _)
      (Nat.mul_le_mul (Nat.le_trans (Nat.le_max_right _ _) doubled) low)

theorem addAbilityToEmo_raised {ability : Ability} {id : Nat}
    (performed : addAbilityToEmo env ability state id = .ok after) :
    BoardRaised (· = ability) (fun _ => 0) state.board after.board := by
  simp only [addAbilityToEmo, Result.bind_eq_ok_iff] at performed
  obtain ⟨⟨emo, index⟩, located, performed⟩ := performed
  split at performed
  · cases performed
    exact .refl _
  · cases performed
    simp only [ShopState.setEmoAt, ShopState.addLog_board]
    exact .set (ShopBoard.getEmoMutAndIndexById_found located).1
      ⟨rfl, rfl, rfl, Nat.le_refl _, Nat.le_refl _, [ability], rfl,
        List.forall_mem_singleton.mpr rfl⟩ fun _ _ _ => Nat.le_refl 0

theorem addAbility_raised {target : Target} {ability : Ability}
    (performed : addAbility env emoPointer target ability state = .ok after) :
    BoardRaised (· = ability) (fun _ => 0) state.board after.board := by
  simp only [addAbility, Result.bind_eq_ok_iff] at performed
  obtain ⟨ids, _, performed⟩ := performed
  clear * - performed
  induction ids generalizing state with
  | nil =>
      cases performed
      exact .refl _
  | cons id rest ih =>
      rw [List.foldlM_cons, Result.bind_eq_ok_iff] at performed
      obtain ⟨middle, first, performed⟩ := performed
      exact @BoardRaised.trans _ (fun _ => 0) (fun _ => 0) _ _ _ (addAbilityToEmo_raised first)
        (ih performed)

/-- An action that sets no emo calls nothing and raises the emos as it says. -/
theorem callAbilityAction_raised {action : NormalAction} {isTripleAction : Bool} {grade : Nat}
    {calls : List (Task env.sampler)}
    (grades : ∀ id base, env.emoBases id = some base → base.grade ≤ grade)
    (small : state.board.length ≤ boardEmoMaxCount) (distinct : state.board.emoIds.Nodup)
    (others : ∀ baseId, action ≠ .setEmo baseId)
    (performed : callAbilityAction env action emoPointer isTripleAction state =
      .ok (calls, after)) :
    calls = [] ∧ after.generatedIds = state.generatedIds ∧
      BoardRaised (fun ability => ∃ target, action = .addAbility target ability)
        (fun _ => raise grade action) state.board after.board := by
  obtain ⟨writes, rfl⟩ := (callAbilityAction_writes performed).resolve_left
    fun ⟨baseId, same⟩ => others baseId same
  refine ⟨rfl, writes.update.generatedIds, ?_⟩
  have of_map {result : Result ShopState}
      (performed : (([], ·) <$> result : Result (Calls env)) = .ok ([], after)) :
      result = .ok after := by
    simp only [Result.map_eq_ok_iff, Prod.mk.injEq, true_and, exists_eq_right] at performed
    exact performed
  cases action with
  | setEmo baseId => exact absurd rfl (others baseId)
  | increaseStats target attack health =>
      refine (addAttackAndHealthToEmos_raised distinct (of_map performed)).mono fun _ _ => ?_
      exact doubled_le
  | increaseStatsOfAdjacentMenagerie attack health =>
      have both := of_map performed
      simp only [increaseStatsOfAdjacentMenagerie, Result.bind_eq_ok_iff] at both
      obtain ⟨⟨typOpt, middle⟩, left, right⟩ := both
      have doubled := @doubled_le attack health isTripleAction
      refine BoardRaised.mono (@BoardRaised.trans _ (fun _ => _) (fun _ => _) _ _ _
        (increaseStatsOfLeft_raised left) (increaseStatsOfRight_raised right)) fun _ _ => ?_
      rw [raise]
      omega
  | increaseStatsByGrade target attack health =>
      exact increaseStatsByGrade_raised grades distinct (of_map performed)
  | increaseStatsByEmoCount target countCondition attack health =>
      exact increaseStatsByEmoCount_raised small distinct (of_map performed)
  | addAbility target ability =>
      refine (addAbility_raised (of_map performed)).weaken fun other same => ?_
      exact ⟨target, by rw [same]⟩
  | getCoin coin =>
      cases performed
      exact .refl _
  | getCoinByEmoCountDiv countCondition divisor =>
      have counted := of_map performed
      simp only [getCoinByEmoCountDiv, Result.bind_eq_ok_iff, Result.pure_eq_ok_iff] at counted
      obtain ⟨_, _, _, _, rfl⟩ := counted
      exact .refl _

end Actions

end EmojiBattler.Mtc.Shop
