import EmojiBattler.Mtc.Utils

/-! # Catalogs -/

namespace EmojiBattler.Mtc.Shop

open Sampling

def catalogCount : Nat := 5

def catalogLineEmoCount : Nat := 7

/-- The inner loop of `get_catalog`: the line and the emos that are left. -/
def fillCatalogLine : Nat → CatalogLine → List Emo → Result (CatalogLine × List Emo)
  | 0, catalogLine, emos => return (catalogLine, emos)
  | count + 1, catalogLine, emos => do
      let emo ← okOr emos.getLast? .catalogFailed
      fillCatalogLine count (catalogLine ++ [emo]) emos.dropLast

/-- The outer loop of `get_catalog`. -/
def fillCatalog : Nat → Catalog → List Emo → Result Catalog
  | 0, catalog, _ => return catalog
  | count + 1, catalog, emos => do
      let (catalogLine, emos) ← fillCatalogLine catalogLineEmoCount [] emos
      fillCatalog count (catalog ++ [catalogLine]) emos

/-- The pool without the emos on the board. -/
def getOffboardEmos (pool : List Emo) (board : Board) : List Emo :=
  let onboardDeckEmoIds := board.flatMap BoardEmo.mtcEmoIds
  pool.filter fun emo => emo.id ∉ onboardDeckEmoIds

def getCatalog (sampler : Sampler) (pool : List Emo) (board : Board) (seed : Nat) :
    Result Catalog :=
  let rng := sampler.seedFromU64 seed
  let (emos, rng) := sampler.chooseMultipleFrom rng (getOffboardEmos pool board)
    (catalogCount * catalogLineEmoCount)
  let (emos, _) := sampler.shuffleAll rng emos
  fillCatalog catalogCount [] emos

/-! ## What a catalog contains -/

/-- A line takes the last emos, the last one first. -/
theorem fillCatalogLine_eq_ok_iff {count : Nat} {line filled : CatalogLine}
    {emos left : List Emo} :
    fillCatalogLine count line emos = .ok (filled, left) ↔
      ∃ taken, taken.length = count ∧ emos = left ++ taken.reverse ∧ filled = line ++ taken := by
  induction count generalizing line emos with
  | zero =>
      simp only [fillCatalogLine, Result.pure_eq_ok_iff, Prod.mk.injEq, List.length_eq_zero_iff,
        exists_eq_left, List.reverse_nil, List.append_nil]
      constructor
      · rintro ⟨same, whole⟩
        exact ⟨whole, same.symm⟩
      · rintro ⟨whole, same⟩
        exact ⟨same.symm, whole⟩
  | succ count ih =>
      simp only [fillCatalogLine, Result.bind_eq_ok_iff, okOr_eq_ok_iff, ih]
      constructor
      · rintro ⟨last, popped, taken, rfl, rest, rfl⟩
        refine ⟨last :: taken, rfl, ?_, by simp⟩
        have whole := List.dropLast_append_getLast? last popped
        rw [rest] at whole
        simpa using whole.symm
      · rintro ⟨taken, size, rfl, rfl⟩
        cases taken with
        | nil => cases size
        | cons last taken =>
            exact ⟨last, by simp, taken, by simpa using size, by
              rw [List.reverse_cons, ← List.append_assoc, List.dropLast_concat], by simp⟩

theorem fillCatalog_eq_ok_iff {count : Nat} {catalog filled : Catalog} {emos : List Emo} :
    fillCatalog count catalog emos = .ok filled ↔
      ∃ lines left, lines.length = count ∧ (∀ line ∈ lines, line.length = catalogLineEmoCount) ∧
        emos = left ++ lines.flatten.reverse ∧ filled = catalog ++ lines := by
  induction count generalizing catalog emos with
  | zero =>
      simp only [fillCatalog, Result.pure_eq_ok_iff, List.length_eq_zero_iff]
      constructor
      · rintro rfl
        exact ⟨[], emos, rfl, List.forall_mem_nil _, by simp, by simp⟩
      · rintro ⟨_, _, rfl, _, _, rfl⟩
        simp
  | succ count ih =>
      simp only [fillCatalog, Result.bind_eq_ok_iff]
      constructor
      · rintro ⟨⟨line, rest⟩, first, performed⟩
        obtain ⟨taken, size, rfl, whole⟩ := fillCatalogLine_eq_ok_iff.mp first
        rw [List.nil_append] at whole
        subst whole
        obtain ⟨lines, left, rfl, sizes, rfl, rfl⟩ := ih.mp performed
        refine ⟨line :: lines, left, rfl, ?_, by simp, by simp⟩
        exact List.forall_mem_cons.mpr ⟨size, sizes⟩
      · rintro ⟨lines, left, size, sizes, rfl, rfl⟩
        cases lines with
        | nil => cases size
        | cons line lines =>
            rw [List.forall_mem_cons] at sizes
            refine ⟨(line, left ++ lines.flatten.reverse), ?_, ?_⟩
            · exact fillCatalogLine_eq_ok_iff.mpr ⟨line, sizes.1, by simp, rfl⟩
            · exact ih.mpr ⟨lines, left, by simpa using size, sizes.2, rfl, by simp⟩

/-- The emos of a catalog are emos of the pool off the board, each once. -/
theorem getCatalog_subperm {sampler : Sampler} {pool : List Emo} {board : Board} {seed : Nat}
    {catalog : Catalog} (got : getCatalog sampler pool board seed = .ok catalog) :
    catalog.flatten.Subperm (getOffboardEmos pool board) := by
  obtain ⟨lines, left, _, _, whole, same⟩ := fillCatalog_eq_ok_iff.mp got
  rw [List.nil_append] at same
  subst same
  have part : catalog.flatten.Subperm (left ++ catalog.flatten.reverse) :=
    (List.reverse_perm _).symm.subperm.trans (List.sublist_append_right _ _).subperm
  rw [← whole] at part
  exact part.trans ((Sampler.shuffleAll_perm _ _).subperm.trans
    (Sampler.chooseMultipleFrom_subperm _ _ _))

/-- A catalog offers emos of the pool. -/
theorem getCatalog_mem_pool {sampler : Sampler} {pool : List Emo} {board : Board} {seed : Nat}
    {catalog : Catalog} (got : getCatalog sampler pool board seed = .ok catalog) :
    ∀ line ∈ catalog, ∀ emo ∈ line, emo ∈ pool := by
  intro line member emo present
  have offboard := (getCatalog_subperm got).subset (List.mem_flatten.mpr ⟨line, member, present⟩)
  exact (List.mem_filter.mp offboard).1

/-- A catalog offers an emo once. -/
theorem getCatalog_nodup {sampler : Sampler} {pool : List Emo} {board : Board} {seed : Nat}
    {catalog : Catalog} (distinct : (pool.map Mtc.Emo.id).Nodup)
    (got : getCatalog sampler pool board seed = .ok catalog) :
    (catalog.flatten.map Mtc.Emo.id).Nodup := by
  obtain ⟨chosen, permuted, sublist⟩ := getCatalog_subperm got
  refine (permuted.map _).nodup_iff.mp (distinct.sublist (List.Sublist.map _ ?_))
  exact sublist.trans List.filter_sublist

/-- A list can be cut into lines. -/
theorem exists_lines {count size : Nat} {values : List α} (enough : values.length = count * size) :
    ∃ lines : List (List α), lines.length = count ∧ (∀ line ∈ lines, line.length = size) ∧
      values = lines.flatten := by
  induction count generalizing values with
  | zero =>
      refine ⟨[], rfl, List.forall_mem_nil _, ?_⟩
      exact List.eq_nil_of_length_eq_zero (by simpa using enough)
  | succ count ih =>
      rw [Nat.succ_mul] at enough
      obtain ⟨lines, length, sizes, rest⟩ := @ih (values.drop size) (by simp; omega)
      refine ⟨values.take size :: lines, by simp [length], List.forall_mem_cons.mpr
        ⟨by simp; omega, sizes⟩, ?_⟩
      rw [List.flatten_cons, ← rest, List.take_append_drop]

/-- With enough emos off the board there is a catalog, and its lines are
full. -/
theorem getCatalog_of_enough (sampler : Sampler) {pool : List Emo} {board : Board} (seed : Nat)
    (enough : catalogCount * catalogLineEmoCount ≤ (getOffboardEmos pool board).length) :
    ∃ catalog, getCatalog sampler pool board seed = .ok catalog ∧ catalog.length = catalogCount ∧
      ∀ line ∈ catalog, line.length = catalogLineEmoCount := by
  let chosen := sampler.chooseMultipleFrom (sampler.seedFromU64 seed)
    (getOffboardEmos pool board) (catalogCount * catalogLineEmoCount)
  let shuffled := (sampler.shuffleAll chosen.2 chosen.1).1
  have size : shuffled.reverse.length = catalogCount * catalogLineEmoCount := by
    rw [List.length_reverse, (Sampler.shuffleAll_perm _ _).length_eq]
    exact (Sampler.chooseMultipleFrom_length _ _ _).trans (Nat.min_eq_left enough)
  obtain ⟨lines, length, sizes, whole⟩ := exists_lines size
  refine ⟨lines, fillCatalog_eq_ok_iff.mpr ⟨lines, [], length, sizes, ?_, rfl⟩, length, sizes⟩
  rw [← whole, List.reverse_reverse]
  rfl

end EmojiBattler.Mtc.Shop
