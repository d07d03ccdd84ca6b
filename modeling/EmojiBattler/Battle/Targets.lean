import EmojiBattler.Library.Positions
import EmojiBattler.Battle.Board

/-! # Whom an attack or an action may hit

An index is drawn from a list of candidates.  The candidates of an attack are
the eligible defenders; those of an action are the emos of its own board that
match its condition, without the acting emo as long as it stands there. -/

namespace EmojiBattler.Mtc.Battle

open EmojiBattler.Emo Sampling
open EmojiBattler.Emo.Ability (TypOptAndIsTripleOpt)

/-! ## Defenders -/

abbrev isAttractive (emo : BattleEmo) : Bool :=
  .battle (.special .attractive) ∈ emo.attributes.abilities

abbrev hasAttackLowestAttack (emo : BattleEmo) : Bool :=
  .battle (.special .attackLowestAttack) ∈ emo.attributes.abilities

/-- What `get_defense_emo_index` draws from: the list that it passes to
`choose`, or all indexes below the bound that it passes to `gen_range`. -/
inductive DefenseDraw where
  | choose (indexes : List Nat)
  | genRange (bound : Nat)

def DefenseDraw.candidates : DefenseDraw → List Nat
  | .choose indexes => indexes
  | .genRange bound => List.range bound

def DefenseDraw.draw (sampler : Sampler) (rng : sampler.Rng) :
    DefenseDraw → Option Nat × sampler.Rng
  | .choose indexes => sampler.chooseFrom rng indexes
  | .genRange bound =>
      let (index, rng) := sampler.genRange rng bound
      (some index, rng)

def lowestAttackEmoIndexes : List BattleEmo → List Nat
  | [] => []
  | first :: others =>
      getLowestAttackEmoIndexesFrom [0] first.attributes.attack (others.zipIdx 1)

def attractiveEmoIndexes (emos : List BattleEmo) : List Nat :=
  (emos.zipIdx.filter fun (emo, _) => isAttractive emo).map Prod.snd

def defenseDraw (emos : List BattleEmo) (isLowestAttack : Bool) : DefenseDraw :=
  if isLowestAttack then .choose (lowestAttackEmoIndexes emos)
  else if emos.any isAttractive then .choose (attractiveEmoIndexes emos)
  else .genRange emos.length

/-- The emo at the index may be hit. -/
def Eligible (isLowestAttack : Bool) (emos : List BattleEmo) (index : Nat) : Prop :=
  ∃ emo, emos[index]? = some emo ∧
    if isLowestAttack then ∀ other ∈ emos, emo.attributes.attack ≤ other.attributes.attack
    else (∃ other ∈ emos, isAttractive other) → isAttractive emo

theorem mem_attractiveEmoIndexes {emos : List BattleEmo} {index : Nat} :
    index ∈ attractiveEmoIndexes emos ↔ ∃ emo, emos[index]? = some emo ∧ isAttractive emo :=
  Positions.mem_filter_zipIdx

theorem filter_zipIdx_nodup (holds : BattleEmo → Nat → Bool) (emos : List BattleEmo) :
    ((emos.zipIdx.filter fun (emo, index) => holds emo index).map Prod.snd).Nodup := by
  rw [Positions.filter_zipIdx_eq_range]
  exact List.nodup_range.filter _

/-! ## The scan for the lowest attack -/

/-- Without a lower attack the scan appends the equal ones. -/
theorem getLowestAttackEmoIndexesFrom_of_least {lowest : Nat} {rest : List (BattleEmo × Nat)}
    (least : ∀ entry ∈ rest, lowest ≤ entry.1.attributes.attack) (indexes : List Nat) :
    getLowestAttackEmoIndexesFrom indexes lowest rest =
      indexes ++ (rest.filter fun (emo, _) => emo.attributes.attack = lowest).map Prod.snd := by
  induction rest generalizing indexes with
  | nil => simp [getLowestAttackEmoIndexesFrom]
  | cons entry rest ih =>
      obtain ⟨emo, index⟩ := entry
      have here : lowest ≤ emo.attributes.attack := least (emo, index) (List.mem_cons_self ..)
      have later := ih fun entry member => least entry (List.mem_cons_of_mem _ member)
      simp only [getLowestAttackEmoIndexesFrom, if_neg (Nat.not_lt.mpr here)]
      rw [later]
      by_cases equal : lowest = emo.attributes.attack
      · simp [equal]
      · simp [equal, Ne.symm equal]

/-- A lower attack is pushed right after it has started the list anew, and so
it is there twice. -/
theorem getLowestAttackEmoIndexesFrom_of_lower {lowest : Nat} {rest : List (BattleEmo × Nat)}
    (lower : ∃ entry ∈ rest, entry.1.attributes.attack < lowest) (indexes : List Nat) :
    ¬ (getLowestAttackEmoIndexesFrom indexes lowest rest).Nodup := by
  induction rest generalizing indexes lowest with
  | nil => simp at lower
  | cons entry rest ih =>
      obtain ⟨emo, index⟩ := entry
      by_cases here : emo.attributes.attack < lowest
      · simp only [getLowestAttackEmoIndexesFrom, if_pos here]
        by_cases again : ∃ entry ∈ rest, entry.1.attributes.attack < emo.attributes.attack
        · exact ih again _
        · have least : ∀ entry ∈ rest, emo.attributes.attack ≤ entry.1.attributes.attack :=
            fun entry member => Nat.le_of_not_lt fun less => again ⟨entry, member, less⟩
          rw [getLowestAttackEmoIndexesFrom_of_least least]
          simp
      · simp only [getLowestAttackEmoIndexesFrom, if_neg here]
        apply ih
        obtain ⟨other, member, less⟩ := lower
        rcases List.mem_cons.mp member with rfl | later
        · exact absurd less here
        · exact ⟨other, later, less⟩

/-- When the first emo has the lowest attack, the scan finds what it should. -/
theorem lowestAttackEmoIndexes_of_first {first : BattleEmo} {others : List BattleEmo}
    (least : ∀ other ∈ others, first.attributes.attack ≤ other.attributes.attack) :
    lowestAttackEmoIndexes (first :: others) =
      ((first :: others).zipIdx.filter fun (emo, _) =>
        emo.attributes.attack = first.attributes.attack).map Prod.snd := by
  have scanned : ∀ entry ∈ others.zipIdx 1,
      first.attributes.attack ≤ entry.1.attributes.attack := fun entry member =>
    least entry.1 (List.fst_mem_of_mem_zipIdx member)
  rw [lowestAttackEmoIndexes, getLowestAttackEmoIndexesFrom_of_least scanned, List.zipIdx_cons,
    List.filter_cons_of_pos (by simp)]
  rfl

theorem mem_lowestAttackEmoIndexes_of_first {first : BattleEmo} {others : List BattleEmo}
    (least : ∀ other ∈ others, first.attributes.attack ≤ other.attributes.attack) {index : Nat} :
    index ∈ lowestAttackEmoIndexes (first :: others) ↔
      Eligible true (first :: others) index := by
  rw [lowestAttackEmoIndexes_of_first least]
  have found := @Positions.mem_filter_zipIdx _
    (fun emo => decide (emo.attributes.attack = first.attributes.attack)) (first :: others) index
  rw [found, Eligible]
  apply exists_congr
  intro emo
  apply and_congr_right
  intro found
  simp only [decide_eq_true_eq, if_true]
  constructor
  · intro equal other member
    rw [equal]
    rcases List.mem_cons.mp member with rfl | later
    · exact Nat.le_refl _
    · exact least other later
  · intro lowest
    apply Nat.le_antisymm (lowest first (List.mem_cons_self ..))
    rcases List.mem_cons.mp (List.mem_of_getElem? found) with rfl | later
    · exact Nat.le_refl _
    · exact least emo later

/-! ## The draw -/

theorem attractiveEmoIndexes_ne_nil {emos : List BattleEmo} (some : emos.any isAttractive) :
    attractiveEmoIndexes emos ≠ [] := by
  obtain ⟨emo, member, attractive⟩ := List.any_eq_true.mp some
  obtain ⟨index, found⟩ := List.mem_iff_getElem?.mp member
  exact List.ne_nil_of_mem (mem_attractiveEmoIndexes.mpr ⟨emo, found, attractive⟩)

theorem attractiveEmoIndexes_eq_nil {emos : List BattleEmo} (none : ¬ emos.any isAttractive) :
    attractiveEmoIndexes emos = [] := by
  apply List.eq_nil_iff_forall_not_mem.mpr
  intro index member
  obtain ⟨emo, found, attractive⟩ := mem_attractiveEmoIndexes.mp member
  exact none (List.any_eq_true.mpr ⟨emo, List.mem_of_getElem? found, attractive⟩)

/-- `get_defense_emo_index` draws from the candidates. -/
theorem getDefenseEmoIndex_eq_draw {env : Env} {emos : List BattleEmo} (nonempty : emos ≠ [])
    {isLowestAttack : Bool} {rng after : env.sampler.Rng} {index : Nat}
    (chosen : getDefenseEmoIndex env emos isLowestAttack rng = .ok (index, after)) :
    (defenseDraw emos isLowestAttack).draw env.sampler rng = (some index, after) := by
  unfold getDefenseEmoIndex at chosen
  unfold defenseDraw
  cases isLowestAttack with
  | true =>
      obtain ⟨first, others, rfl⟩ := List.exists_cons_of_ne_nil nonempty
      simp only [if_true, getLowestAttackEmoIndex, Result.bind_eq_ok_iff, okOr_eq_ok_iff,
        Result.pure_eq_ok_iff, Prod.mk.injEq] at chosen
      obtain ⟨_, found, _, picked, rfl, rfl⟩ := chosen
      cases found
      exact Prod.ext picked rfl
  | false =>
      have looked : getAttractiveEmoIndex env emos rng =
          env.sampler.chooseFrom rng (attractiveEmoIndexes emos) := rfl
      simp only [Bool.false_eq_true, if_false, looked] at chosen ⊢
      by_cases attractive : emos.any isAttractive
      · rw [if_pos attractive]
        obtain ⟨candidate, found⟩ :=
          @Sampler.chooseFrom_isSome env.sampler _ rng _ (attractiveEmoIndexes_ne_nil attractive)
        generalize drawn : env.sampler.chooseFrom rng (attractiveEmoIndexes emos) = result
          at chosen found
        obtain ⟨picked, next⟩ := result
        cases found
        simp only [Result.pure_eq_ok_iff, Prod.mk.injEq] at chosen
        obtain ⟨rfl, rfl⟩ := chosen
        exact drawn
      · rw [if_neg attractive]
        rw [attractiveEmoIndexes_eq_nil attractive] at chosen
        simp only [Sampler.chooseFrom, List.isEmpty_nil, if_true, Result.bind_eq_ok_iff,
          Result.pure_eq_ok_iff] at chosen
        obtain ⟨_, _, drawn⟩ := chosen
        simp only [DefenseDraw.draw, drawn]

theorem any_getAbilities {emo : BattleEmo} {listed : List (Nat × Ability.Battle)}
    (abilities : emo.getAbilities = .ok listed) {searched : Ability.Battle} :
    (listed.any fun (_, ability) => ability = searched) =
      decide (.battle searched ∈ emo.attributes.abilities) := by
  rw [Bool.eq_iff_iff, List.any_eq_true, decide_eq_true_eq]
  constructor
  · rintro ⟨⟨abilityIndex, ability⟩, member, same⟩
    rw [← of_decide_eq_true same]
    exact List.mem_of_getElem? (BattleEmo.mem_getAbilities abilities member)
  · intro member
    obtain ⟨abilityIndex, found⟩ := List.mem_iff_getElem?.mp member
    simp only [BattleEmo.getAbilities, Result.bind_eq_ok_iff, zipU8_eq_ok_iff,
      Result.pure_eq_ok_iff] at abilities
    obtain ⟨_, ⟨_, rfl⟩, rfl⟩ := abilities
    exact ⟨(abilityIndex, searched), List.mem_filterMap.mpr
      ⟨(.battle searched, abilityIndex), List.mem_zipIdx_iff_getElem?.mpr found, rfl⟩, decide_eq_true rfl⟩

/-- An attack draws its defender, by the abilities of its attacker. -/
theorem getAttackAndDefenseEmoIndexes_draws {env : Env} {attackPlayerIndex : PlayerIndex}
    {state after : St env} {attackEmoIndex defenseEmoIndex : Nat} {attackEmo : BattleEmo}
    (standing : (state.getBoard attackPlayerIndex)[attackEmoIndex]? = some attackEmo)
    (nonempty : state.getBoard (switchPlayerIndex attackPlayerIndex) ≠ [])
    (chosen : getAttackAndDefenseEmoIndexes env attackPlayerIndex state =
      .ok (attackEmoIndex, defenseEmoIndex, after)) :
    (defenseDraw (state.getBoard (switchPlayerIndex attackPlayerIndex))
      (hasAttackLowestAttack attackEmo)).draw env.sampler state.rng =
        (some defenseEmoIndex, after.rng) := by
  simp only [getAttackAndDefenseEmoIndexes, Result.bind_eq_ok_iff, Result.pure_eq_ok_iff,
    BattleBoards.getEmo_eq_ok_iff, Prod.mk.injEq] at chosen
  obtain ⟨_, _, emo, found, _, listed, ⟨index, rng⟩, drawn, rfl, rfl, rfl⟩ := chosen
  cases standing.symm.trans found
  rw [any_getAbilities listed] at drawn
  exact getDefenseEmoIndex_eq_draw nonempty drawn

theorem candidates_eligible_once_iff {emos : List BattleEmo} (nonempty : emos ≠ [])
    (isLowestAttack : Bool) :
    ((defenseDraw emos isLowestAttack).candidates.Nodup ∧
      ∀ index, index ∈ (defenseDraw emos isLowestAttack).candidates ↔
        Eligible isLowestAttack emos index) ↔
    (isLowestAttack → ∀ other ∈ emos,
      (emos.head nonempty).attributes.attack ≤ other.attributes.attack) := by
  cases isLowestAttack with
  | true =>
      obtain ⟨first, others, rfl⟩ := List.exists_cons_of_ne_nil nonempty
      simp only [defenseDraw, if_true, DefenseDraw.candidates, List.head_cons, forall_const]
      constructor
      · rintro ⟨nodup, _⟩ other member
        by_contra less
        rcases List.mem_cons.mp member with rfl | later
        · exact less (Nat.le_refl _)
        · obtain ⟨index, found⟩ := List.mem_iff_getElem?.mp later
          refine getLowestAttackEmoIndexesFrom_of_lower ⟨(other, index + 1), ?_,
            Nat.lt_of_not_le less⟩ [0] nodup
          exact List.mk_mem_zipIdx_iff_le_and_getElem?_sub.mpr ⟨by omega, by simpa using found⟩
      · intro least
        have later : ∀ other ∈ others, first.attributes.attack ≤ other.attributes.attack :=
          fun other member => least other (List.mem_cons_of_mem _ member)
        constructor
        · rw [lowestAttackEmoIndexes_of_first later]
          exact filter_zipIdx_nodup
            (fun emo _ => emo.attributes.attack = first.attributes.attack) (first :: others)
        · intro index
          exact mem_lowestAttackEmoIndexes_of_first later
  | false =>
      simp only [Bool.false_eq_true, false_implies, iff_true, defenseDraw, if_false]
      by_cases attractive : emos.any isAttractive
      · rw [if_pos attractive]
        have somewhere : ∃ other ∈ emos, isAttractive other := List.any_eq_true.mp attractive
        constructor
        · exact filter_zipIdx_nodup (fun emo _ => isAttractive emo) emos
        · intro index
          apply mem_attractiveEmoIndexes.trans
          simp only [Eligible, Bool.false_eq_true, if_false, imp_iff_right somewhere]
      · rw [if_neg attractive]
        have nowhere : ¬ ∃ other ∈ emos, isAttractive other :=
          fun somewhere => attractive (List.any_eq_true.mpr somewhere)
        constructor
        · exact List.nodup_range
        · intro index
          simp only [DefenseDraw.candidates, List.mem_range, Eligible, Bool.false_eq_true,
            if_false, false_implies, nowhere, and_true]
          constructor
          · intro bound
            exact ⟨emos[index], List.getElem?_eq_getElem bound⟩
          · rintro ⟨emo, found⟩
            exact (List.getElem?_eq_some_iff.mp found).1

/-- The candidates of an attack are exactly the eligible defenders, each once,
unless the attack is aimed at the lowest attack and the first defender does not
have it. -/
theorem defense_candidates_eligible_once_iff (env : Env) (attackEmo : BattleEmo)
    {defenders : List BattleEmo} (nonempty : defenders ≠ []) :
    let isLowestAttack := hasAttackLowestAttack attackEmo
    let draw := defenseDraw defenders isLowestAttack
    ((∀ (attackPlayerIndex : PlayerIndex) (state after : St env)
        (attackEmoIndex defenseEmoIndex : Nat),
        (state.getBoard attackPlayerIndex)[attackEmoIndex]? = some attackEmo →
        state.getBoard (switchPlayerIndex attackPlayerIndex) = defenders →
        getAttackAndDefenseEmoIndexes env attackPlayerIndex state =
          .ok (attackEmoIndex, defenseEmoIndex, after) →
        draw.draw env.sampler state.rng = (some defenseEmoIndex, after.rng)) ∧
      draw.candidates.Nodup ∧
      ∀ index, index ∈ draw.candidates ↔ Eligible isLowestAttack defenders index) ↔
    (isLowestAttack → ∀ other ∈ defenders,
      (defenders.head nonempty).attributes.attack ≤ other.attributes.attack) := by
  intro isLowestAttack draw
  have draws : ∀ (attackPlayerIndex : PlayerIndex) (state after : St env)
      (attackEmoIndex defenseEmoIndex : Nat),
      (state.getBoard attackPlayerIndex)[attackEmoIndex]? = some attackEmo →
      state.getBoard (switchPlayerIndex attackPlayerIndex) = defenders →
      getAttackAndDefenseEmoIndexes env attackPlayerIndex state =
        .ok (attackEmoIndex, defenseEmoIndex, after) →
      draw.draw env.sampler state.rng = (some defenseEmoIndex, after.rng) := by
    intro attackPlayerIndex state after attackEmoIndex defenseEmoIndex standing board chosen
    subst board
    exact getAttackAndDefenseEmoIndexes_draws standing nonempty chosen
  rw [and_iff_right draws]
  exact candidates_eligible_once_iff nonempty isLowestAttack

/-- Of three defenders the two with the lowest attack are eligible, and the
candidate list holds the one on the left twice. -/
theorem lowest_attack_candidates_repeat :
    let emo (id attack : Nat) : BattleEmo := ⟨id, 1, .human, ⟨attack, 1, [], false⟩, 0⟩
    (defenseDraw [emo 0 2, emo 1 1, emo 2 1] true).candidates = [1, 1, 2] ∧
      ¬ (defenseDraw [emo 0 2, emo 1 1, emo 2 1] true).candidates.Nodup := by
  decide

theorem lowest_attack_candidates_of_first :
    let emo (id attack : Nat) : BattleEmo := ⟨id, 1, .human, ⟨attack, 1, [], false⟩, 0⟩
    (defenseDraw [emo 0 1, emo 1 2, emo 2 1] true).candidates.Nodup := by
  intro emo
  let attackEmo : BattleEmo :=
    ⟨3, 1, .human, ⟨1, 1, [.battle (.special .attackLowestAttack)], false⟩, 0⟩
  exact ((@defense_candidates_eligible_once_iff { emoBases := fun _ => none, sampler := .first }
    attackEmo [emo 0 1, emo 1 2, emo 2 1] (by simp)).mpr (by decide)).2.1

/-! ## Allies -/

/-- The indexes of the matching emos of a board, without the acting emo if it
still stands there. -/
def matchingAllies (board : List BattleEmo) (actionEmoIndex : Nat) (isActionEmoRetired : Bool)
    (isMatched : BattleEmo → Bool) : List Nat :=
  (List.range board.length).filter fun index =>
    (isActionEmoRetired || index ≠ actionEmoIndex) && board[index]?.any isMatched

/-- The emo may be given the ability: nobody has a special ability twice. -/
def acceptsAbility (ability : Ability.Battle) (emo : BattleEmo) : Bool :=
  match ability with
  | .special _ => .battle ability ∉ emo.attributes.abilities
  | .general _ => true

theorem otherEmos_matching (board : List BattleEmo) (actionEmoIndex : Nat)
    (isActionEmoRetired : Bool) (isMatched : BattleEmo → Bool) :
    ((otherEmos board actionEmoIndex isActionEmoRetired).filter fun (emo, _) =>
      isMatched emo).map Prod.snd =
    matchingAllies board actionEmoIndex isActionEmoRetired isMatched := by
  have picked := Positions.filter_zipIdx_eq_range (fun emo index =>
    isMatched emo && (isActionEmoRetired || index ≠ actionEmoIndex)) board
  rw [otherEmos, List.filter_filter]
  refine picked.trans (List.filter_congr fun index member => ?_)
  rw [List.getElem?_eq_getElem (List.mem_range.mp member)]
  simp [Bool.and_comm]

theorem matchingAllies_of_standing {board : List BattleEmo} {actionEmoIndex : Nat}
    {isMatched : BattleEmo → Bool} :
    matchingAllies board actionEmoIndex false isMatched =
      (matchingAllies board actionEmoIndex true isMatched).filter (· ≠ actionEmoIndex) := by
  rw [matchingAllies, matchingAllies, List.filter_filter]
  simp

theorem mem_matchingAllies_of_retired {board : List BattleEmo} {actionEmoIndex index : Nat}
    {isMatched : BattleEmo → Bool} :
    index ∈ matchingAllies board actionEmoIndex true isMatched ↔
      ∃ emo, board[index]? = some emo ∧ isMatched emo := by
  rw [matchingAllies, List.mem_filter]
  simp only [Bool.true_or, Bool.true_and, Option.any_eq_true, and_iff_right_iff_imp, List.mem_range]
  rintro ⟨emo, found, _⟩
  exact (List.getElem?_eq_some_iff.mp found).1

/-- The count leaves the acting index out, whoever stands there. -/
theorem countEmosForStats_ally {boards : BattleBoards} {playerIndex : PlayerIndex}
    {actionEmoIndex : Nat} {countCondition : TypOptAndIsTripleOpt} :
    countEmosForStats boards playerIndex actionEmoIndex .ally countCondition =
      (matchingAllies (boards.getBoard playerIndex) actionEmoIndex false
        (isMatchedTypAndTripleForEmo countCondition)).length := by
  have picked := Positions.filter_zipIdx_eq_range (fun emo index =>
    index ≠ actionEmoIndex && isMatchedTypAndTripleForEmo countCondition emo)
    (boards.getBoard playerIndex)
  rw [countEmosForStats, ← List.length_map Prod.snd]
  refine congrArg List.length (picked.trans (List.filter_congr fun index member => ?_))
  rw [List.getElem?_eq_getElem (List.mem_range.mp member)]
  simp

theorem countEmosForStats_ally_iff {boards : BattleBoards} {playerIndex : PlayerIndex}
    {actionEmoIndex : Nat} {isActionEmoRetired : Bool} {countCondition : TypOptAndIsTripleOpt} :
    countEmosForStats boards playerIndex actionEmoIndex .ally countCondition =
        (matchingAllies (boards.getBoard playerIndex) actionEmoIndex isActionEmoRetired
          (isMatchedTypAndTripleForEmo countCondition)).length ↔
      ¬ (isActionEmoRetired ∧ ∃ emo, (boards.getBoard playerIndex)[actionEmoIndex]? = some emo ∧
        isMatchedTypAndTripleForEmo countCondition emo) := by
  rw [countEmosForStats_ally]
  cases isActionEmoRetired with
  | false => simp
  | true =>
      rw [matchingAllies_of_standing, ← mem_matchingAllies_of_retired]
      simp only [true_and]
      constructor
      · intro counted member
        have fewer := (List.length_filter_lt_length_iff_exists
          (p := fun index => index ≠ actionEmoIndex)).mpr ⟨actionEmoIndex, member, by simp⟩
        exact absurd counted (Nat.ne_of_lt fewer)
      · intro absent
        rw [List.filter_eq_self.mpr]
        intro index member
        exact decide_eq_true fun same => absent (same ▸ member)

/-- A sample of the candidates in random order, as the actions draw it. -/
def drawShuffled (sampler : Sampler) (rng : sampler.Rng) (candidates : List Nat) (count : Nat) :
    List Nat × sampler.Rng :=
  let (chosen, rng) := sampler.chooseMultipleFrom rng candidates count
  sampler.shuffleAll rng chosen

/-- What the actions of a battle range over are the matching allies, with the
acting emo's place left out as long as it stands there.  Only the count of
`increase_stats_by_emo_count` leaves it out for a retired emo as well, and so is
wrong when somebody who matches has moved into the place. -/
theorem actions_range_over_matching_allies_iff (env : Env) (state : St env)
    (playerIndex : PlayerIndex) (actionEmoIndex : Nat) (isActionEmoRetired : Bool)
    (condition : TypOptAndIsTripleOpt) :
    let board := state.getBoard playerIndex
    let isMatched := isMatchedTypAndTripleForEmo condition
    let allies := matchingAllies board actionEmoIndex isActionEmoRetired isMatched
    (getMatchedEmoIndexsFromBoard board actionEmoIndex (.others .all condition)
        isActionEmoRetired = .ok allies ∧
      (∀ count rng, getMatchedEmoIndexsFromBoardByTargetOrRandom env board actionEmoIndex
        (.random condition count) isActionEmoRetired rng =
          .ok (drawShuffled env.sampler rng allies count)) ∧
      (∀ isTripleAction ability count,
        addBattleAbilityRandom env playerIndex actionEmoIndex isActionEmoRetired isTripleAction
          ability condition count state =
        let candidates := matchingAllies board actionEmoIndex isActionEmoRetired fun emo =>
          acceptsAbility ability emo && isMatched emo
        let (indexes, rng) := drawShuffled env.sampler state.rng candidates
          (count * if isTripleAction then 2 else 1)
        indexes.foldlM (addAbilityToEmoAt env playerIndex ability) { state with rng }) ∧
      countEmosForStats state.boards playerIndex actionEmoIndex .ally condition =
        allies.length) ↔
    ¬ (isActionEmoRetired ∧ ∃ emo, board[actionEmoIndex]? = some emo ∧ isMatched emo) := by
  intro board isMatched allies
  rw [← countEmosForStats_ally_iff]
  constructor
  · rintro ⟨_, _, _, counted⟩
    exact counted
  · intro counted
    refine ⟨?_, fun count rng => ?_, fun isTripleAction ability count => ?_, counted⟩
    · exact congrArg Except.ok (otherEmos_matching board actionEmoIndex isActionEmoRetired isMatched)
    · have candidates : allies = _ :=
        (otherEmos_matching board actionEmoIndex isActionEmoRetired isMatched).symm
      rw [candidates]
      rfl
    · have candidates := (otherEmos_matching board actionEmoIndex isActionEmoRetired fun emo =>
        acceptsAbility ability emo && isMatched emo).symm
      dsimp only
      rw [candidates]
      cases ability <;> rfl

/-- A retired emo stood left of the only other one, which then stands where it
did: the count of all allies is 0. -/
theorem count_misses_successor :
    let emo : BattleEmo := ⟨1, 1, .human, ⟨1, 1, [], false⟩, 0⟩
    let boards : BattleBoards := ⟨[emo], []⟩
    countEmosForStats boards .zero 0 .ally {} = 0 ∧
      matchingAllies (boards.getBoard .zero) 0 true (isMatchedTypAndTripleForEmo {}) = [0] := by
  decide

end EmojiBattler.Mtc.Battle
