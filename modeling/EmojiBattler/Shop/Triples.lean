import EmojiBattler.Shop.Identity

/-! # Three of a kind

A new emo waits for its check while its abilities run, so more than two copies
of a base may stand on the board for a while.  They cannot be merged together:
the check of a copy that another check has merged away fails. -/

namespace EmojiBattler.Mtc.Shop

open EmojiBattler.Emo CallMachine

variable {env : Env}

/-! ## Pending checks -/

/-- The next check to be performed finds its emo. -/
theorem Effect.checked_present {task : Task env.sampler} {before after : ShopState}
    {calls : List (Task env.sampler)} (effect : Effect env task before after calls) {id : Nat}
    (checked : task.pendingTriple? = some id) : ∃ emo ∈ before.board, emo.id = id := by
  cases effect with
  | update unchecked => cases checked.symm.trans unchecked
  | addition _ _ _ unchecked => cases checked.symm.trans unchecked
  | settled _ target checks member identified =>
      cases checked.symm.trans checks
      exact ⟨target, member, identified⟩
  | merge _ target checks member identified =>
      cases checked.symm.trans checks
      exact ⟨target, member, identified⟩

/-- A check is pending whose emo is gone for good. -/
def Doomed (first : Nat) (config : Config (Task env.sampler) ShopState) : Prop :=
  first + idCount < config.state.generatedIds ∨
    ∃ id ∈ pendingTriples config.stack, Issued first config.state.generatedIds id ∧
      ∀ emo ∈ config.state.board, emo.id ≠ id

theorem Doomed.step {first : Nat} {task : Task env.sampler} {rest calls : List (Task env.sampler)}
    {before after : ShopState} (doomed : Doomed first ⟨task :: rest, before⟩)
    (performed : perform env task before = .ok (calls, after)) :
    Doomed first ⟨calls ++ rest, after⟩ := by
  have effect := perform_effect performed
  have grows := effect.generatedIds_le
  rcases doomed with exceeded | ⟨id, pending, issued, absent⟩
  · exact .inl (Nat.lt_of_lt_of_le exceeded grows)
  by_cases exceeded : first + idCount < after.generatedIds
  · exact .inl exceeded
  refine .inr ⟨id, ?_, issued.mono grows, fun emo member => ?_⟩
  · rw [pendingTriples_append]
    refine List.mem_append_right _ ?_
    rcases List.mem_filterMap.mp pending with ⟨waiting, inside, checks⟩
    rcases List.mem_cons.mp inside with rfl | later
    · obtain ⟨emo, member, identified⟩ := effect.checked_present checks
      exact absurd identified (absent emo member)
    · exact List.mem_filterMap.mpr ⟨waiting, later, checks⟩
  · rcases effect.ids emo member with ⟨old, oldMember, same⟩ | ⟨new, next⟩
    · rw [← same]
      exact absent old oldMember
    · rw [new]
      exact issued.ne_next (by simp only at exceeded ⊢; omega)

/-- In a run that returns, every emo stays on the board until its check. -/
theorem pending_present {first : Nat} {stack : List (Task env.sampler)}
    {state after : ShopState} (returned : Returns (perform env) ⟨stack, state⟩ after)
    (room : after.generatedIds ≤ first + idCount) {id : Nat}
    (pending : id ∈ pendingTriples stack) (issued : Issued first state.generatedIds id) :
    ∃ emo ∈ state.board, emo.id = id := by
  have lives : ¬ Doomed first (⟨stack, state⟩ : Config (Task env.sampler) ShopState) := by
    refine Returns.excludes (fun doomed performed => doomed.step performed) returned ?_
    rintro (exceeded | ⟨_, absurd, _⟩)
    · exact absurd exceeded (Nat.not_lt.mpr room)
    · cases absurd
  by_contra gone
  exact lives (.inr ⟨id, pending, issued, fun emo member same => gone ⟨emo, member, same⟩⟩)

/-! ## Counting copies -/

/-- The copies of a base that no longer wait for their check. -/
def settledCopies (baseId : Nat) (pending : List Nat) (board : ShopBoard) : Nat :=
  board.countP fun emo => isSameBaseNotTriple baseId emo && emo.id ∉ pending

theorem settledCopies_le {baseId : Nat} {pending : List Nat} {board : ShopBoard} :
    settledCopies baseId pending board ≤ (board.filter (isSameBaseNotTriple baseId)).length := by
  rw [← List.countP_eq_length_filter]
  exact List.countP_mono_left fun emo _ counted => (Bool.and_eq_true_iff.mp counted).1

/-- Fewer copies are settled when more of them wait. -/
theorem settledCopies_mono {baseId : Nat} {fewer more : List Nat} {part board : ShopBoard}
    (sublist : part.Sublist board)
    (wait : ∀ emo ∈ part, isSameBaseNotTriple baseId emo → emo.id ∈ fewer → emo.id ∈ more) :
    settledCopies baseId more part ≤ settledCopies baseId fewer board := by
  refine Nat.le_trans (List.countP_mono_left fun emo member counted => ?_) (sublist.countP_le)
  simp only [Bool.and_eq_true, decide_eq_true_eq] at counted ⊢
  exact ⟨counted.1, fun waits => counted.2 (wait emo member counted.1 waits)⟩

theorem settledCopies_insertIdx {baseId index : Nat} {pending : List Nat} {board : ShopBoard}
    {emo : ShopBoardEmo} (bound : index ≤ board.length)
    (waits : isSameBaseNotTriple baseId emo → emo.id ∈ pending) :
    settledCopies baseId pending (board.insertIdx index emo) =
      settledCopies baseId pending board := by
  rw [settledCopies, (List.perm_insertIdx emo board bound).countP_eq, List.countP_cons_of_neg]
  · rfl
  · simp only [Bool.and_eq_true, decide_eq_true_eq]
    exact fun ⟨same, settled⟩ => settled (waits same)

theorem settledCopies_changed {baseId : Nat} {pending : List Nat} {before after : ShopBoard}
    (changed : BoardChanged before after) :
    settledCopies baseId pending after = settledCopies baseId pending before :=
  changed.countP_eq fun change => by
    simp only [isSameBaseNotTriple, change.baseId_eq, change.isTriple_eq, change.id_eq]

/-- How many ids an emo carries at most. -/
def carriedMax (attributes : Attributes) : Nat := if attributes.isTriple then 3 else 1

/-- The state of a shop at some time of a run; `pending` are the emos that wait
for their check. -/
structure Orderly (first : Nat) (pending : List Nat) (state : ShopState) : Prop where
  fresh : Fresh first state
  size : state.board.length ≤ boardEmoMaxCount
  settled : ∀ baseId, settledCopies baseId pending state.board ≤ 2
  carried : ∀ emo ∈ state.board, emo.mtcEmoIds.length ≤ carriedMax emo.attributes

theorem Orderly.update {first : Nat} {pending : List Nat} {before after : ShopState}
    (orderly : Orderly first pending before) (update : Update before after) :
    Orderly first pending after where
  fresh := orderly.fresh.update update
  size := by
    rw [← update.board.length_eq]
    exact orderly.size
  settled baseId := by
    rw [settledCopies_changed update.board]
    exact orderly.settled baseId
  carried := update.board.forall
    (fun change bound => by rwa [change.mtcEmoIds_eq, carriedMax, change.isTriple_eq])
    orderly.carried

/-- A new emo waits for its check, unless it is a triple. -/
theorem Orderly.addition {first : Nat} {pending : List Nat} {before after : ShopState}
    {newEmo : ShopBoardEmo} {calls : List (Task env.sampler)}
    (orderly : Orderly first pending before) (fresh : Fresh first after)
    (addition : Addition newEmo before.board after calls)
    (carried : newEmo.mtcEmoIds.length ≤ carriedMax newEmo.attributes) :
    Orderly first (pendingTriples calls ++ pending) after := by
  obtain ⟨room, ⟨index, bound, inserted⟩, waits⟩ := addition
  refine ⟨fresh, ?_, fun baseId => ?_, ?_⟩
  · have size := orderly.size
    rw [ShopBoard.countEmos, Nat.mod_eq_of_lt
      (Nat.lt_of_le_of_lt size (by decide : boardEmoMaxCount < 256))] at room
    rw [inserted, List.length_insertIdx_of_le_length bound]
    exact room
  · rw [inserted, settledCopies_insertIdx bound]
    · refine Nat.le_trans (settledCopies_mono (.refl _) fun emo _ _ member => ?_)
        (orderly.settled baseId)
      exact List.mem_append_right _ member
    · intro same
      simp only [isSameBaseNotTriple, Bool.and_eq_true, Bool.not_eq_true'] at same
      rw [waits, same.2]
      exact List.mem_append_left _ (List.mem_singleton_self _)
  · intro emo member
    rw [inserted] at member
    rcases List.eq_or_mem_of_mem_insertIdx member with rfl | old
    · exact carried
    · exact orderly.carried emo old

/-- Every copy of the base is settled or the checked one, so fewer than three
copies of it are settled after the check. -/
theorem Orderly.settle {first : Nat} {pending : List Nat} {state : ShopState}
    {target : ShopBoardEmo} (orderly : Orderly first (target.id :: pending) state)
    (member : target ∈ state.board)
    (few : (state.board.filter (isSameBaseNotTriple target.baseId)).length < 3) :
    Orderly first pending state := by
  refine ⟨orderly.fresh, orderly.size, fun baseId => ?_, orderly.carried⟩
  by_cases same : baseId = target.baseId
  · rw [same]
    exact Nat.le_trans settledCopies_le (by omega)
  · refine Nat.le_trans ?_ (orderly.settled baseId)
    refine List.countP_mono_left fun emo present counted => ?_
    simp only [Bool.and_eq_true, decide_eq_true_eq, List.mem_cons, not_or] at counted ⊢
    refine ⟨counted.1, fun identified => same ?_, counted.2⟩
    have sameEmo := orderly.fresh.eq_of_id_eq present member identified
    simp only [isSameBaseNotTriple, Bool.and_eq_true, decide_eq_true_eq] at counted
    rw [counted.1.1, sameEmo]

/-! ## Merges -/

theorem countP_le_add {values : List α} (p q r : α → Bool)
    (covered : ∀ value ∈ values, p value → q value ∨ r value) :
    values.countP p ≤ values.countP q + values.countP r := by
  induction values with
  | nil => exact Nat.zero_le _
  | cons value rest ih =>
      rw [List.forall_mem_cons] at covered
      have ih := ih covered.2
      have here := covered.1
      simp only [List.countP_cons]
      split_ifs <;> simp_all <;> omega

/-- A merge that dooms no other check merges the two settled copies and the
checked one. -/
theorem Orderly.merged_three {first : Nat} {pending : List Nat} {state : ShopState}
    {target : ShopBoardEmo} (orderly : Orderly first (target.id :: pending) state)
    (kept : ∀ emo ∈ state.board, isSameBaseNotTriple target.baseId emo → emo.id ∉ pending) :
    (state.board.filter (isSameBaseNotTriple target.baseId)).length ≤ 3 := by
  rw [← List.countP_eq_length_filter]
  have once : state.board.countP (fun emo => emo.id = target.id) ≤ 1 := by
    have counted := List.nodup_iff_count_le_one.mp orderly.fresh.distinct target.id
    rw [List.count, List.countP_map] at counted
    exact counted
  have covered := @countP_le_add _ state.board (isSameBaseNotTriple target.baseId)
    (fun emo => isSameBaseNotTriple target.baseId emo && emo.id ∉ target.id :: pending)
    (fun emo => emo.id = target.id) fun emo member same => by
      simp only [Bool.and_eq_true, decide_eq_true_eq, List.mem_cons, not_or]
      by_cases identified : emo.id = target.id
      · exact .inr identified
      · exact .inl ⟨same, identified, kept emo member same⟩
  have settled := orderly.settled target.baseId
  rw [settledCopies] at settled
  omega

theorem length_flatMap_le {values : List α} {f : α → List β}
    (bound : ∀ value ∈ values, (f value).length ≤ 1) :
    (values.flatMap f).length ≤ values.length := by
  induction values with
  | nil => exact Nat.le_refl _
  | cons value rest ih =>
      rw [List.forall_mem_cons] at bound
      rw [List.flatMap_cons, List.length_append, List.length_cons]
      have := ih bound.2
      omega

theorem Orderly.merge {first : Nat} {pending : List Nat} {before after : ShopState}
    {target : ShopBoardEmo} {calls : List (Task env.sampler)}
    (orderly : Orderly first (target.id :: pending) before) (member : target ∈ before.board)
    (fresh : Fresh first after) (merge : Merge env target before after calls)
    (kept : ∀ emo ∈ before.board, isSameBaseNotTriple target.baseId emo → emo.id ∉ pending) :
    Orderly first (pendingTriples calls ++ pending) after := by
  obtain ⟨_, ⟨triple, built, addition⟩, _⟩ := merge
  let remaining : ShopState :=
    { before with board := before.board.filter fun emo => !isSameBaseNotTriple target.baseId emo }
  have part : remaining.board.Sublist before.board := List.filter_sublist
  have left : Orderly first pending remaining := by
    refine ⟨⟨orderly.fresh.distinct.sublist (part.map _), fun emo inside =>
        orderly.fresh.issued emo (part.subset inside)⟩,
      Nat.le_trans part.length_le orderly.size, fun baseId => ?_,
      fun emo inside => orderly.carried emo (part.subset inside)⟩
    refine Nat.le_trans (@settledCopies_mono baseId (target.id :: pending) _ _ _ part
      fun emo inside same waits => ?_) (orderly.settled baseId)
    rcases List.mem_cons.mp waits with identified | waits
    · have sameEmo := orderly.fresh.eq_of_id_eq (part.subset inside) member identified
      obtain ⟨_, other⟩ := List.mem_filter.mp inside
      simp only [isSameBaseNotTriple, Bool.and_eq_true, decide_eq_true_eq, Bool.not_eq_true']
        at same other
      simp [sameEmo, ← sameEmo ▸ same.2] at other
    · exact waits
  refine left.addition fresh addition ?_
  rw [built.mtcEmoIds, carriedMax, if_pos built.isTriple]
  refine Nat.le_trans (length_flatMap_le fun emo inside => ?_) (orderly.merged_three kept)
  obtain ⟨present, same⟩ := List.mem_filter.mp inside
  simp only [isSameBaseNotTriple, Bool.and_eq_true, Bool.not_eq_true'] at same
  have bound := orderly.carried emo present
  rwa [carriedMax, same.2] at bound

/-! ## Runs -/

theorem Orderly.step {first : Nat} {task : Task env.sampler} {rest calls : List (Task env.sampler)}
    {before after last : ShopState}
    (orderly : Orderly first (pendingTriples (task :: rest)) before)
    (start : first ≤ before.generatedIds) (room : last.generatedIds ≤ first + idCount)
    (performed : perform env task before = .ok (calls, after))
    (returned : Returns (perform env) ⟨calls ++ rest, after⟩ last) :
    Orderly first (pendingTriples (calls ++ rest)) after := by
  have effect := perform_effect performed
  have later := Returns.generatedIds_le returned
  have fresh := orderly.fresh.step start (Nat.le_trans later room) effect
  rw [pendingTriples_append]
  cases effect with
  | update unchecked update pending =>
      rw [pendingTriples, List.filterMap_cons_none unchecked] at orderly
      rw [pending]
      exact orderly.update update
  | settled newEmoId target checked member identified few pending same =>
      subst identified
      rw [pendingTriples, List.filterMap_cons_some checked] at orderly
      rw [pending, same]
      exact orderly.settle member few
  | addition base baseId isTriple unchecked found addition generatedIds =>
      rw [pendingTriples, List.filterMap_cons_none unchecked] at orderly
      exact orderly.addition fresh addition (Nat.zero_le _)
  | merge newEmoId target checked member identified merge =>
      subst identified
      rw [pendingTriples, List.filterMap_cons_some checked] at orderly
      refine orderly.merge member fresh merge fun emo present same waits => ?_
      -- The copy would be merged away before its own check.
      have issued := orderly.fresh.issued emo present
      obtain ⟨survivor, survives, identified⟩ := @pending_present _ _ _ _ _ returned room emo.id
        (by
          rw [pendingTriples_append]
          exact List.mem_append_right _ waits)
        (issued.mono (by rw [merge.generatedIds]; exact Nat.le_succ _))
      obtain ⟨_, ⟨triple, built, _, ⟨index, bound, inserted⟩, _⟩, generatedIds⟩ := merge
      rw [inserted] at survives
      rcases List.eq_or_mem_of_mem_insertIdx survives with rfl | old
      · rw [built.id] at identified
        exact issued.ne_next (by omega) identified
      · obtain ⟨oldMember, other⟩ := List.mem_filter.mp old
        have sameEmo := orderly.fresh.eq_of_id_eq oldMember present identified
        rw [sameEmo, same] at other
        cases other

theorem Orderly.returns {first : Nat} {stack : List (Task env.sampler)}
    {before after : ShopState} (orderly : Orderly first (pendingTriples stack) before)
    (start : first ≤ before.generatedIds) (room : after.generatedIds ≤ first + idCount)
    (returned : Returns (perform env) ⟨stack, before⟩ after) : Orderly first [] after := by
  have run := Reaches.invariant
    (P := fun config => Returns (perform env) config after ∧
      first ≤ config.state.generatedIds ∧
      Orderly first (pendingTriples config.stack) config.state)
    (fun {task rest calls state next} holds performed => by
      obtain ⟨returns, start, orderly⟩ := holds
      have rest := returns.of_reaches (.single (.call performed))
      exact ⟨rest, Nat.le_trans start (perform_effect performed).generatedIds_le,
        orderly.step start room performed rest⟩)
    returned ⟨returned, start, orderly⟩
  exact run.2.2

end EmojiBattler.Mtc.Shop
