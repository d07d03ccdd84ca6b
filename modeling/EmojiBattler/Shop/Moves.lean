import EmojiBattler.Shop.Turn

/-! # What a list of indexes does to a board

`mov` swaps emos until the board is in the order of the list.  For a list of
all indexes the order is reached, whatever swaps led to the list. -/

namespace EmojiBattler.Mtc.Shop

open EmojiBattler.Emo

/-- The emos at the indexes, in the order of the indexes. -/
abbrev Selects (board : ShopBoard) : List Nat → ShopBoard → Prop :=
  List.Forall₂ fun index emo => board[index]? = some emo

theorem Selects.unique {board left right : ShopBoard} {indexes : List Nat}
    (first : Selects board indexes left) (second : Selects board indexes right) :
    left = right := by
  induction first generalizing right with
  | nil =>
      cases second
      rfl
  | cons found _ ih =>
      cases second with
      | cons again rest =>
          rw [Option.some.inj (found.symm.trans again), ih rest]

theorem selects_range (board : ShopBoard) : Selects board (List.range board.length) board := by
  apply List.forall₂_iff_get.mpr
  refine ⟨List.length_range, fun index _ inside => ?_⟩
  simp [List.getElem?_eq_getElem inside]

theorem swapElements_map (f : α → β) (values : List α) (i j : Nat) :
    swapElements (values.map f) i j = List.map f <$> swapElements values i j := by
  simp only [swapElements, List.getElem?_map]
  cases values[i]? with
  | none => rfl
  | some x =>
      cases values[j]? with
      | none => rfl
      | some y =>
          have written : ((values.map f).set i (f y)).set j (f x) =
              ((values.set i y).set j x).map f := by rw [List.map_set, List.map_set]
          exact congrArg Except.ok written

/-- Swapping the indexes swaps the emos. -/
theorem Selects.swapElements {board selected : ShopBoard} {indexes swapped : List Nat} {i j : Nat}
    (selects : Selects board indexes selected)
    (performed : Mtc.swapElements indexes i j = .ok swapped) :
    ∃ after, Mtc.swapElements selected i j = .ok after ∧ Selects board swapped after := by
  simp only [Mtc.swapElements, Result.bind_eq_ok_iff, okOr_eq_ok_iff, Result.pure_eq_ok_iff]
    at performed
  obtain ⟨x, foundX, y, foundY, rfl⟩ := performed
  obtain ⟨emoX, emoFoundX, selectsX⟩ := Positions.forall₂_getElem? selects foundX
  obtain ⟨emoY, emoFoundY, selectsY⟩ := Positions.forall₂_getElem? selects foundY
  refine ⟨(selected.set i emoY).set j emoX, ?_, ?_⟩
  · simp [Mtc.swapElements, emoFoundX, emoFoundY, okOr]
  · exact Positions.forall₂_set (Positions.forall₂_set selects i selectsY) j selectsX

/-- Swapping the next element to the front of those that are not in place. -/
theorem swapElements_append {done tail : List Nat} {next position : Nat}
    (found : tail[position]? = some next) :
    ∃ tail', swapElements (done ++ tail) done.length (position + done.length) =
        .ok (done ++ next :: tail') ∧ (next :: tail').Perm tail := by
  cases tail with
  | nil => cases found
  | cons head tail =>
      have performed : swapElements (done ++ head :: tail) done.length (position + done.length) =
          .ok (done ++ ((head :: tail).set 0 next).set position head) := by
        have right : (done ++ head :: tail)[position + done.length]? = some next := by
          rw [List.getElem?_append_right (Nat.le_add_left _ _), Nat.add_sub_cancel, found]
        have left : (done ++ head :: tail)[done.length]? = some head := by simp
        simp only [swapElements, left, right, okOr, List.set_append_right _ _ (Nat.le_refl _),
          List.set_append_right _ _ (Nat.le_add_left _ _), Nat.sub_self, Nat.add_sub_cancel]
        rfl
      have permuted := swapElements_perm performed
      rw [List.perm_append_left_iff] at permuted
      cases position with
      | zero =>
          cases found
          exact ⟨tail, performed, .refl _⟩
      | succ position => exact ⟨tail.set position head, performed, permuted⟩

/-- The loop of `mov`: the first indexes are in place, the others are still to
come. -/
theorem foldlM_movTo_selects {board current : ShopBoard} {done tail rest : List Nat}
    (selects : Selects board (done ++ tail) current) (permuted : tail.Perm rest)
    (nodup : (done ++ rest).Nodup) :
    ∃ moved, (rest.zipIdx done.length).foldlM movTo (done ++ tail, current) =
        .ok (done ++ rest, moved) ∧ Selects board (done ++ rest) moved := by
  induction rest generalizing done tail current with
  | nil =>
      rw [permuted.eq_nil] at selects ⊢
      exact ⟨current, rfl, selects⟩
  | cons next rest ih =>
      have inTail : next ∈ tail := permuted.symm.subset List.mem_cons_self
      have notDone : next ∉ done := fun member =>
        (List.nodup_append.mp nodup).2.2 next member next List.mem_cons_self rfl
      obtain ⟨position, located⟩ : ∃ position, tail.findIdx? (· = next) = some position :=
        Option.isSome_iff_exists.mp (List.findIdx?_isSome.trans (List.any_eq_true.mpr
          ⟨next, inTail, decide_eq_true rfl⟩))
      have found : tail[position]? = some next := by
        obtain ⟨bound, met, _⟩ := List.findIdx?_eq_some_iff_getElem.mp located
        rw [List.getElem?_eq_getElem bound, of_decide_eq_true met]
      have actual : (done ++ tail).findIdx? (· = next) = some (position + done.length) := by
        have absent : done.findIdx? (· = next) = none := by
          rw [List.findIdx?_eq_none_iff]
          exact fun index member => decide_eq_false fun same => notDone (same ▸ member)
        rw [List.findIdx?_append, absent, located]
        rfl
      obtain ⟨tail', swapped, ordered⟩ := @swapElements_append done tail next position found
      obtain ⟨after, moved, selectsAfter⟩ := selects.swapElements swapped
      have step : movTo (done ++ tail, current) (next, done.length) =
          .ok (done ++ next :: tail', after) := by
        simp only [movTo, Result.bind_eq_ok_iff, okOr_eq_ok_iff, Result.pure_eq_ok_iff]
        exact ⟨_, actual, _, swapped, _, moved, rfl⟩
      rw [List.zipIdx_cons, List.foldlM_cons, step]
      have later := @ih after (done ++ [next]) tail' (by simpa using selectsAfter)
        (ordered.trans permuted).cons_inv (by simpa using nodup)
      simp only [List.append_assoc, List.singleton_append, List.length_append,
        List.length_singleton] at later
      exact later

/-- A list of all indexes puts the emos in its order. -/
theorem mov_selects {board : ShopBoard} {resultIndexes : List Nat}
    (small : board.length ≤ u8Max)
    (permuted : resultIndexes.Perm (List.range board.length)) :
    ∃ moved, mov board resultIndexes = .ok moved ∧ Selects board resultIndexes moved := by
  have nodup : resultIndexes.Nodup := permuted.nodup_iff.mpr List.nodup_range
  obtain ⟨moved, looped, selects⟩ := @foldlM_movTo_selects board board [] _ resultIndexes
    (selects_range board) permuted.symm nodup
  refine ⟨moved, ?_, selects⟩
  have indexes : board.emoIndexes = .ok (List.range board.length) := by
    rw [ShopBoard.emoIndexes, zipU8, if_pos small, List.range_eq_range',
      ← List.zipIdx_map_snd 0 board]
    rfl
  have length : (List.range board.length).length = resultIndexes.length := permuted.length_eq.symm
  simp only [mov, indexes, Result.bind_eq_ok_iff, ensure_eq_ok_iff, Result.pure_eq_ok_iff]
  exact ⟨_, rfl, (), length, _, looped, rfl⟩

/-! ## Which lists are accepted

The shadow list is a permutation of all indexes whatever was placed before.
Every index is found in it, also one that is already in place. -/

theorem movTo_succeeds_iff {count resultIndex idx : Nat} {currentIndexes : List Nat}
    {board : ShopBoard} (permuted : currentIndexes.Perm (List.range count))
    (length : board.length = count) (inside : idx < count) :
    (∃ after, movTo (currentIndexes, board) (resultIndex, idx) = .ok after) ↔
      resultIndex < count := by
  have indexesLength : currentIndexes.length = count := by
    rw [permuted.length_eq, List.length_range]
  constructor
  · rintro ⟨after, performed⟩
    simp only [movTo, Result.bind_eq_ok_iff, okOr_eq_ok_iff] at performed
    obtain ⟨actualIndex, found, _⟩ := performed
    obtain ⟨bound, met, _⟩ := List.findIdx?_eq_some_iff_getElem.mp found
    rw [← List.mem_range, ← of_decide_eq_true met]
    exact permuted.subset (List.getElem_mem bound)
  · intro below
    have member : resultIndex ∈ currentIndexes :=
      permuted.symm.subset (List.mem_range.mpr below)
    obtain ⟨actualIndex, found⟩ : ∃ actualIndex,
        currentIndexes.findIdx? (· = resultIndex) = some actualIndex :=
      Option.isSome_iff_exists.mp (List.findIdx?_isSome.trans (List.any_eq_true.mpr
        ⟨resultIndex, member, decide_eq_true rfl⟩))
    obtain ⟨bound, _⟩ := List.findIdx?_eq_some_iff_getElem.mp found
    have swaps : ∀ {α : Type} (values : List α), values.length = count →
        ∃ swapped, swapElements values idx actualIndex = .ok swapped := by
      intro α values size
      have left : idx < values.length := by omega
      have right : actualIndex < values.length := by omega
      simp only [swapElements, List.getElem?_eq_getElem left, List.getElem?_eq_getElem right]
      exact ⟨_, rfl⟩
    obtain ⟨swappedIndexes, indexesSwapped⟩ := swaps currentIndexes indexesLength
    obtain ⟨swappedBoard, boardSwapped⟩ := swaps board length
    refine ⟨(swappedIndexes, swappedBoard), ?_⟩
    simp only [movTo, Result.bind_eq_ok_iff, okOr_eq_ok_iff, Result.pure_eq_ok_iff]
    exact ⟨actualIndex, found, _, indexesSwapped, _, boardSwapped, rfl⟩

/-- What an iteration keeps. -/
theorem movTo_keeps {entry : Nat × Nat} {before after : List Nat × ShopBoard}
    (performed : movTo before entry = .ok after) :
    after.1.Perm before.1 ∧ after.2.length = before.2.length := by
  simp only [movTo, Result.bind_eq_ok_iff, Result.pure_eq_ok_iff] at performed
  obtain ⟨_, _, _, indexesSwapped, _, boardSwapped, rfl⟩ := performed
  exact ⟨swapElements_perm indexesSwapped, (swapElements_perm boardSwapped).length_eq⟩

theorem foldlM_movTo_succeeds_iff {count start : Nat} {indexes currentIndexes : List Nat}
    {board : ShopBoard} (permuted : currentIndexes.Perm (List.range count))
    (length : board.length = count) (room : start + indexes.length ≤ count) :
    (∃ last, (indexes.zipIdx start).foldlM movTo (currentIndexes, board) = .ok last) ↔
      ∀ index ∈ indexes, index < count := by
  induction indexes generalizing start currentIndexes board with
  | nil =>
      constructor
      · intro _ index member
        cases member
      · intro _
        exact ⟨_, rfl⟩
  | cons index rest ih =>
      rw [List.length_cons] at room
      have first := @movTo_succeeds_iff count index start currentIndexes board permuted length
        (by omega)
      simp only [List.zipIdx_cons, List.foldlM_cons, Result.bind_eq_ok_iff,
        List.forall_mem_cons]
      constructor
      · rintro ⟨last, middle, performed, looped⟩
        obtain ⟨keptIndexes, keptLength⟩ := movTo_keeps performed
        have later := @ih (start + 1) middle.1 middle.2 (keptIndexes.trans permuted)
          (keptLength.trans length) (by omega)
        exact ⟨first.mp ⟨middle, performed⟩, later.mp ⟨last, looped⟩⟩
      · rintro ⟨below, belows⟩
        obtain ⟨middle, performed⟩ := first.mpr below
        obtain ⟨keptIndexes, keptLength⟩ := movTo_keeps performed
        have later := @ih (start + 1) middle.1 middle.2 (keptIndexes.trans permuted)
          (keptLength.trans length) (by omega)
        obtain ⟨last, looped⟩ := later.mpr belows
        exact ⟨last, middle, performed, looped⟩

/-- `mov` wants as many indexes as there are emos and every index below their
number.  It does not see that an index comes twice. -/
theorem mov_succeeds_iff {board : ShopBoard} {resultIndexes : List Nat} :
    (∃ moved, mov board resultIndexes = .ok moved) ↔
      board.length ≤ u8Max ∧ resultIndexes.length = board.length ∧
        ∀ index ∈ resultIndexes, index < board.length := by
  simp only [mov, ShopBoard.emoIndexes, Result.bind_eq_ok_iff, Result.map_eq_ok_iff,
    zipU8_eq_ok_iff, ensure_eq_ok_iff, Result.pure_eq_ok_iff]
  have indexes : board.zipIdx.map Prod.snd = List.range board.length := by
    rw [List.zipIdx_map_snd, ← List.range_eq_range']
  have loop : ∀ {resultIndexes : List Nat}, resultIndexes.length = board.length →
      ((∃ last, resultIndexes.zipIdx.foldlM movTo (List.range board.length, board) = .ok last) ↔
        ∀ index ∈ resultIndexes, index < board.length) := fun same =>
    foldlM_movTo_succeeds_iff (.refl _) rfl (by omega)
  constructor
  · rintro ⟨moved, _, ⟨_, ⟨small, rfl⟩, rfl⟩, _, length, last, looped, _⟩
    rw [indexes] at length looped
    rw [List.length_range] at length
    exact ⟨small, length.symm, (loop length.symm).mp ⟨last, looped⟩⟩
  · rintro ⟨small, length, below⟩
    obtain ⟨last, looped⟩ := (loop length).mpr below
    refine ⟨last.2, _, ⟨_, ⟨small, rfl⟩, rfl⟩, (), ?_, last, ?_, rfl⟩
    · rw [indexes, List.length_range, length]
    · rw [indexes, looped]

/-- A list of all indexes is one of as many indexes, all small enough, without
a repetition. -/
theorem perm_range_iff {indexes : List Nat} {count : Nat} :
    indexes.Perm (List.range count) ↔
      indexes.length = count ∧ (∀ index ∈ indexes, index < count) ∧ indexes.Nodup := by
  constructor
  · intro permuted
    exact ⟨by rw [permuted.length_eq, List.length_range],
      fun index member => List.mem_range.mp (permuted.subset member),
      permuted.nodup_iff.mpr List.nodup_range⟩
  · rintro ⟨length, below, nodup⟩
    have inside : indexes.Subperm (List.range count) :=
      List.subperm_of_subset nodup fun index member => List.mem_range.mpr (below index member)
    exact inside.perm_of_length_le (by rw [length, List.length_range])

/-- `mov` accepts exactly the lists of all indexes, and orders the emos by
them, unless the list repeats an index in the place of another one or the board
has more emos than a `u8` counts. -/
theorem mov_accepts_permutations_iff (board : ShopBoard) (resultIndexes : List Nat) :
    (((∃ moved, mov board resultIndexes = .ok moved) ↔
          resultIndexes.Perm (List.range board.length)) ∧
        ∀ moved : ShopBoard, mov board resultIndexes = .ok moved →
          ∀ position index : Nat, resultIndexes[position]? = some index →
            ∃ emo, board[index]? = some emo ∧ moved[position]? = some emo) ↔
      (board.length ≤ u8Max → resultIndexes.length = board.length →
          (∀ index ∈ resultIndexes, index < board.length) → resultIndexes.Nodup) ∧
        (u8Max < board.length → ¬ resultIndexes.Perm (List.range board.length)) := by
  rw [mov_succeeds_iff]
  constructor
  · rintro ⟨accepts, _⟩
    constructor
    · intro small length below
      exact (perm_range_iff.mp (accepts.mp ⟨small, length, below⟩)).2.2
    · intro large permuted
      have small := (accepts.mpr permuted).1
      omega
  · rintro ⟨distinct, tooLarge⟩
    have accepts : (board.length ≤ u8Max ∧ resultIndexes.length = board.length ∧
        ∀ index ∈ resultIndexes, index < board.length) ↔
          resultIndexes.Perm (List.range board.length) := by
      constructor
      · rintro ⟨small, length, below⟩
        exact perm_range_iff.mpr ⟨length, below, distinct small length below⟩
      · intro permuted
        obtain ⟨length, below, _⟩ := perm_range_iff.mp permuted
        exact ⟨Nat.le_of_not_lt fun large => tooLarge large permuted, length, below⟩
    refine ⟨accepts, fun moved performed position index found => ?_⟩
    obtain ⟨small, _⟩ := mov_succeeds_iff.mp ⟨moved, performed⟩
    have permuted := accepts.mp (mov_succeeds_iff.mp ⟨moved, performed⟩)
    obtain ⟨other, again, selects⟩ := mov_selects small permuted
    cases performed.symm.trans again
    obtain ⟨emo, foundEmo, selected⟩ := Positions.forall₂_getElem? selects found
    exact ⟨emo, selected, foundEmo⟩

/-- An index given twice: the first emo ends on the right of the second, and
the call succeeds. -/
theorem mov_accepts_repetition :
    let emo (id : Nat) : ShopBoardEmo := ⟨id, [id], 0, ⟨1, 1, [], false⟩⟩
    mov [emo 0, emo 1] [0, 0] = .ok [emo 1, emo 0] ∧
      ¬ [0, 0].Perm (List.range [emo 0, emo 1].length) :=
  ⟨rfl, by decide⟩

/-! ## Boards that the indexes reach

An index is a `u8`.  A board that is small enough for its indexes stays so. -/

variable {env : Env}

theorem Addition.fits {newEmo : ShopBoardEmo} {before : ShopBoard} {after : ShopState}
    {calls : List (Task env.sampler)} (addition : Addition newEmo before after calls)
    (small : before.length ≤ u8Max) : after.board.length ≤ u8Max := by
  obtain ⟨room, ⟨index, bound, inserted⟩, _⟩ := addition
  have counted : before.length < 256 := Nat.lt_succ_of_le small
  rw [ShopBoard.countEmos, Nat.mod_eq_of_lt counted] at room
  rw [inserted, List.length_insertIdx_of_le_length bound newEmo]
  exact Nat.le_trans room (by decide)

theorem Effect.fits {task : Task env.sampler} {before after : ShopState}
    {calls : List (Task env.sampler)} (effect : Effect env task before after calls)
    (small : before.board.length ≤ u8Max) : after.board.length ≤ u8Max := by
  cases effect with
  | update _ update _ =>
      rw [← update.board.length_eq]
      exact small
  | settled _ _ _ _ _ _ _ same => rwa [same]
  | addition _ _ _ _ _ addition _ => exact addition.fits small
  | merge _ _ _ _ _ merge =>
      obtain ⟨_, ⟨_, _, addition⟩, _⟩ := merge
      exact addition.fits (Nat.le_trans (List.length_filter_le _ _) small)

theorem Returns.fits {stack : List (Task env.sampler)} {before after : ShopState}
    (returned : CallMachine.Returns (perform env) ⟨stack, before⟩ after)
    (small : before.board.length ≤ u8Max) : after.board.length ≤ u8Max :=
  CallMachine.Reaches.state_invariant (P := fun state => state.board.length ≤ u8Max)
    (fun holds performed => (perform_effect performed).fits holds) returned small

theorem startShop_fits {fuel seed : Nat} {state last : ShopState}
    (performed : startShop env fuel seed state = pure last)
    (small : state.board.length ≤ u8Max) : last.board.length ≤ u8Max :=
  Returns.fits (runCalls_returns performed) small

theorem addEmo_fits {fuel baseId emoIndex : Nat} {mtcEmoIds : List Nat} {isTriple : Bool}
    {state last : ShopState}
    (performed : addEmo env fuel mtcEmoIds baseId isTriple emoIndex state = pure last)
    (small : state.board.length ≤ u8Max) : last.board.length ≤ u8Max := by
  simp only [addEmo, Fueled.bind_eq_pure_iff, Fueled.of_eq_pure_iff] at performed
  obtain ⟨⟨calls, started⟩, added, performed⟩ := performed
  obtain ⟨_, _, addition, _⟩ := addEmoCalls_addition added
  exact Returns.fits (runCalls_returns performed) (addition.fits small)

theorem sellEmo_fits {fuel emoIndex : Nat} {state last : ShopState}
    (performed : sellEmo env fuel emoIndex state = pure last)
    (small : state.board.length ≤ u8Max) : last.board.length ≤ u8Max := by
  simp only [sellEmo, Fueled.bind_eq_pure_iff, Fueled.of_eq_pure_iff] at performed
  obtain ⟨⟨calls, started⟩, sold, performed⟩ := performed
  obtain ⟨removed, _, _⟩ := sellEmoCalls_removal sold
  apply Returns.fits (runCalls_returns performed)
  rw [removed]
  exact Nat.le_trans (List.eraseIdx_sublist _ _).length_le small

end EmojiBattler.Mtc.Shop
