import Mathlib.Data.List.Nodup
import EmojiBattler.Mtc.Ghost

/-! # The rivals of a match

`choose_ghosts` walks down from the player's band until it has seen enough
ghosts, and then takes what it still needs from one band after the other.  A
ghost of a lower band is therefore taken only when the higher bands are used
up. -/

namespace EmojiBattler.Mtc

open Sampling

variable {A : Type} {getGhostsInfo : Nat → Option (List A)} {getGhost : Nat × Nat → Option Ghost}

/-! ## Walking down -/

/-- The entry of a band in the list of the first loop. -/
def bandInfo (getGhostsInfo : Nat → Option (List A)) (band : Nat) : Option (Nat × List A) :=
  (getGhostsInfo band).map fun listed => (band, listed)

/-- The bands from `lowest` up to `highest`, the highest first. -/
def bandsDown (lowest highest : Nat) : List Nat := (List.range' lowest (highest + 1 - lowest)).reverse

def ghostTotal (infos : List (Nat × List A)) : Nat := (infos.map fun info => info.2.length).sum

theorem mem_bandsDown {lowest highest band : Nat} (bound : lowest ≤ highest) :
    band ∈ bandsDown lowest highest ↔ lowest ≤ band ∧ band ≤ highest := by
  rw [bandsDown, List.mem_reverse, List.mem_range'_1]
  omega

theorem bandsDown_succ {lowest highest : Nat} (bound : lowest ≤ highest) :
    bandsDown lowest (highest + 1) = (highest + 1) :: bandsDown lowest highest := by
  have length : highest + 1 + 1 - lowest = (highest + 1 - lowest) + 1 := by omega
  rw [bandsDown, length, List.range'_1_concat, List.reverse_append]
  have last : lowest + (highest + 1 - lowest) = highest + 1 := by omega
  rw [last]
  rfl

theorem bandsDown_self (band : Nat) : bandsDown band band = [band] := by
  rw [bandsDown, Nat.add_sub_cancel_left]
  rfl

theorem bandsDown_pairwise (lowest highest : Nat) :
    (bandsDown lowest highest).Pairwise fun higher lower => lower < higher := by
  rw [bandsDown, List.pairwise_reverse]
  exact List.pairwise_lt_range'

theorem bandInfo_eq_some_iff {band : Nat} {info : Nat × List A} :
    bandInfo getGhostsInfo band = some info ↔
      info.1 = band ∧ getGhostsInfo info.1 = some info.2 := by
  rw [bandInfo, Option.map_eq_some_iff]
  constructor
  · rintro ⟨listed, found, rfl⟩
    exact ⟨rfl, found⟩
  · rintro ⟨rfl, found⟩
    exact ⟨info.2, found, rfl⟩

theorem mem_bandInfos {lowest highest : Nat} (bound : lowest ≤ highest) {info : Nat × List A} :
    info ∈ (bandsDown lowest highest).filterMap (bandInfo getGhostsInfo) ↔
      (lowest ≤ info.1 ∧ info.1 ≤ highest) ∧ getGhostsInfo info.1 = some info.2 := by
  simp only [List.mem_filterMap, bandInfo_eq_some_iff, mem_bandsDown bound]
  constructor
  · rintro ⟨_, range, rfl, found⟩
    exact ⟨range, found⟩
  · rintro ⟨range, found⟩
    exact ⟨info.1, range, rfl, found⟩

theorem bandInfos_pairwise (lowest highest : Nat) :
    ((bandsDown lowest highest).filterMap (bandInfo getGhostsInfo)).Pairwise
      fun higher lower => lower.1 < higher.1 := by
  rw [List.pairwise_filterMap]
  apply (bandsDown_pairwise lowest highest).imp
  intro higher lower below info found other foundOther
  rw [(bandInfo_eq_some_iff.mp found).1, (bandInfo_eq_some_iff.mp foundOther).1]
  exact below

/-- The first loop collects the bands down to the one at which it stops: band
0, or one at which it has enough ghosts. -/
theorem collectGhostsInfos_eq (epBand : Nat) (infos : List (Nat × List A)) :
    ∃ lowest ≤ epBand,
      collectGhostsInfos getGhostsInfo epBand infos =
        infos ++ (bandsDown lowest epBand).filterMap (bandInfo getGhostsInfo) ∧
      (lowest = 0 ∨
        ghostCount ≤ ghostTotal (collectGhostsInfos getGhostsInfo epBand infos)) := by
  induction epBand generalizing infos with
  | zero =>
      refine ⟨0, Nat.le_refl _, ?_, .inl rfl⟩
      unfold collectGhostsInfos
      cases found : getGhostsInfo 0 with
      | none => simp [bandsDown_self, bandInfo, found]
      | some listed => simp [bandsDown_self, bandInfo, found]
  | succ epBand ih =>
      unfold collectGhostsInfos
      cases found : getGhostsInfo (epBand + 1) with
      | none =>
          obtain ⟨lowest, bound, collected, stopped⟩ := ih infos
          refine ⟨lowest, Nat.le_succ_of_le bound, ?_, stopped⟩
          simp [bandsDown_succ bound, bandInfo, found, collected]
      | some listed =>
          dsimp only
          split
          · rename_i enough
            exact ⟨epBand + 1, Nat.le_refl _, by simp [bandsDown_self, bandInfo, found],
              .inr enough⟩
          · obtain ⟨lowest, bound, collected, stopped⟩ := ih (infos ++ [(epBand + 1, listed)])
            refine ⟨lowest, Nat.le_succ_of_le bound, ?_, stopped⟩
            simp [bandsDown_succ bound, bandInfo, found, collected]

/-! ## Counting -/

def bandSize (getGhostsInfo : Nat → Option (List A)) (band : Nat) : Nat :=
  ((getGhostsInfo band).getD []).length

/-- The number of ghosts in the bands from 0 up to the given one. -/
def storedGhosts (getGhostsInfo : Nat → Option (List A)) (epBand : Nat) : Nat :=
  ((List.range (epBand + 1)).map (bandSize getGhostsInfo)).sum

theorem ghostTotal_filterMap (bands : List Nat) :
    ghostTotal (bands.filterMap (bandInfo getGhostsInfo)) =
      (bands.map (bandSize getGhostsInfo)).sum := by
  induction bands with
  | nil => rfl
  | cons band rest ih =>
      simp only [ghostTotal] at ih ⊢
      cases found : getGhostsInfo band with
      | none => simp [bandInfo, bandSize, found, ih]
      | some listed => simp [bandInfo, bandSize, found, ih]

theorem storedGhosts_split {lowest epBand : Nat} (bound : lowest ≤ epBand) :
    storedGhosts getGhostsInfo epBand =
      ((List.range lowest).map (bandSize getGhostsInfo)).sum +
        ghostTotal ((bandsDown lowest epBand).filterMap (bandInfo getGhostsInfo)) := by
  have whole : List.range (epBand + 1) =
      List.range lowest ++ List.range' lowest (epBand + 1 - lowest) := by
    rw [List.range_eq_range', List.range_eq_range']
    have appended := List.range'_append_1 (s := 0) (m := lowest) (n := epBand + 1 - lowest)
    rw [Nat.zero_add] at appended
    rw [appended]
    congr 1
    omega
  rw [storedGhosts, whole, List.map_append, List.sum_append, ghostTotal_filterMap, bandsDown,
    List.map_reverse, List.sum_reverse]

/-- The first loop misses no ghost that could be needed. -/
theorem min_ghostTotal_collectGhostsInfos (epBand : Nat) :
    min ghostCount (ghostTotal (collectGhostsInfos getGhostsInfo epBand [])) =
      min ghostCount (storedGhosts getGhostsInfo epBand) := by
  obtain ⟨lowest, bound, collected, stopped⟩ := @collectGhostsInfos_eq _ getGhostsInfo epBand []
  rw [List.nil_append] at collected
  rw [storedGhosts_split bound, ← collected]
  rcases stopped with rfl | enough
  · simp
  · omega

/-! ## Drawing -/

/-- A ghost with the account that it is paired with, and the band and the index
that it was read at. -/
abbrev Rival (A : Type) := (Nat × Nat) × (A × Ghost)

/-- What the second loop takes from some bands. -/
structure Drawn (getGhost : Nat × Nat → Option Ghost) (infos : List (Nat × List A)) (quota : Nat)
    (rivals : List (Rival A)) : Prop where
  paired : ∀ rival ∈ rivals, ∃ listed, (rival.1.1, listed) ∈ infos ∧
    listed[rival.1.2]? = some rival.2.1 ∧ getGhost rival.1 = some rival.2.2
  distinct : (rivals.map Prod.fst).Nodup
  length : rivals.length = min quota (ghostTotal infos)
  preferred : ∀ rival ∈ rivals, ∀ info ∈ infos, rival.1.1 < info.1 →
    ∀ index < info.2.length, (info.1, index) ∈ rivals.map Prod.fst

/-- Every ghost of the bands can be read. -/
def Readable (getGhost : Nat × Nat → Option Ghost) (infos : List (Nat × List A)) : Prop :=
  ∀ info ∈ infos, info.2.length ≤ u8Max ∧
    ∀ index < info.2.length, ∃ ghost, getGhost (info.1, index) = some ghost

/-- The closure of the second loop on what was drawn from a band. -/
def readGhosts (getGhost : Nat × Nat → Option Ghost) (band : Nat) (choosen : List (A × Nat)) :
    Result (List (A × Ghost)) :=
  choosen.mapM fun (a, index) => do
    let ghost ← okOr (getGhost (band, index)) (.panicked "get_ghost")
    return (a, ghost)

theorem readGhosts_succeeds {band bound : Nat} {choosen : List (A × Nat)}
    (readable : ∀ index < bound, ∃ ghost, getGhost (band, index) = some ghost)
    (below : ∀ entry ∈ choosen, entry.2 < bound) :
    ∃ rivals : List (Rival A),
      readGhosts getGhost band choosen = .ok (rivals.map Prod.snd) ∧
      rivals.map (fun rival => (rival.2.1, rival.1.2)) = choosen ∧
      ∀ rival ∈ rivals, rival.1.1 = band ∧ getGhost rival.1 = some rival.2.2 := by
  induction choosen with
  | nil => exact ⟨[], rfl, rfl, List.forall_mem_nil _⟩
  | cons entry rest ih =>
      obtain ⟨rivals, mapped, same, read⟩ := ih fun other member =>
        below other (List.mem_cons_of_mem _ member)
      obtain ⟨ghost, found⟩ := readable entry.2 (below entry (List.mem_cons_self ..))
      refine ⟨((band, entry.2), (entry.1, ghost)) :: rivals, ?_, by simp [same], ?_⟩
      · simp only [readGhosts, List.mapM_cons, Result.bind_eq_ok_iff, Result.pure_eq_ok_iff, okOr_eq_ok_iff]
        exact ⟨_, ⟨ghost, found, rfl⟩, _, mapped, rfl⟩
      · intro rival member
        rcases List.mem_cons.mp member with rfl | member
        · exact ⟨rfl, found⟩
        · exact read rival member

theorem drawFromBand {band : Nat} {listed : List A}
    (readable : ∀ index < listed.length, ∃ ghost, getGhost (band, index) = some ghost)
    (sampler : Sampler) (rng : sampler.Rng) (quota : Nat) :
    ∃ rivals : List (Rival A),
      readGhosts getGhost band (sampler.chooseMultipleFrom rng listed.zipIdx quota).1 =
        .ok (rivals.map Prod.snd) ∧
      Drawn getGhost [(band, listed)] quota rivals := by
  have part := Sampler.chooseMultipleFrom_subperm rng listed.zipIdx quota
  have size := Sampler.chooseMultipleFrom_length rng listed.zipIdx quota
  rw [List.length_zipIdx] at size
  have placed : ∀ entry ∈ (sampler.chooseMultipleFrom rng listed.zipIdx quota).1,
      listed[entry.2]? = some entry.1 := fun entry member =>
    List.mem_zipIdx_iff_getElem?.mp (part.subset member)
  obtain ⟨rivals, mapped, same, read⟩ := readGhosts_succeeds readable fun entry member =>
    (List.getElem?_eq_some_iff.mp (placed entry member)).1
  have keys : rivals.map Prod.fst =
      (sampler.chooseMultipleFrom rng listed.zipIdx quota).1.map fun entry => (band, entry.2) := by
    rw [← same, List.map_map]
    exact List.map_congr_left fun rival member => Prod.ext (read rival member).1 rfl
  have length : rivals.length = min quota listed.length := by
    rw [← size, ← same, List.length_map]
  refine ⟨rivals, mapped, ?_, ?_, ?_, ?_⟩
  · intro rival member
    have drawn : (rival.2.1, rival.1.2) ∈ (sampler.chooseMultipleFrom rng listed.zipIdx quota).1 :=
      same ▸ List.mem_map.mpr ⟨rival, member, rfl⟩
    exact ⟨listed, by simp [(read rival member).1], placed _ drawn, (read rival member).2⟩
  · have indexes : listed.zipIdx.map Prod.snd = List.range listed.length := by
      rw [List.zipIdx_map_snd, List.range_eq_range']
    have distinct : ((sampler.chooseMultipleFrom rng listed.zipIdx quota).1.map Prod.snd).Nodup := by
      obtain ⟨chosen, permuted, sublist⟩ := part
      have nodup : (chosen.map Prod.snd).Nodup :=
        (indexes ▸ List.nodup_range).sublist (sublist.map Prod.snd)
      exact (permuted.map Prod.snd).nodup_iff.mp nodup
    rw [keys]
    have paired := distinct.map (f := fun index => (band, index)) fun _ _ equal =>
      (Prod.mk.inj equal).2
    rwa [List.map_map] at paired
  · rw [length]
    rfl
  · intro rival member info only higher
    rw [List.mem_singleton.mp only, (read rival member).1] at higher
    exact absurd higher (Nat.lt_irrefl _)

/-- As many rivals as a band has ghosts are all its ghosts. -/
theorem Drawn.all_of_length {band quota : Nat} {listed : List A} {rivals : List (Rival A)}
    (drawn : Drawn getGhost [(band, listed)] quota rivals)
    (full : listed.length ≤ rivals.length) {index : Nat} (bound : index < listed.length) :
    (band, index) ∈ rivals.map Prod.fst := by
  have inside : ∀ key ∈ rivals.map Prod.fst,
      key ∈ (List.range listed.length).map fun index => (band, index) := by
    intro key member
    obtain ⟨rival, present, rfl⟩ := List.mem_map.mp member
    obtain ⟨_, only, found, _⟩ := drawn.paired rival present
    cases List.mem_singleton.mp only
    exact List.mem_map.mpr ⟨rival.1.2,
      List.mem_range.mpr (List.getElem?_eq_some_iff.mp found).1, rfl⟩
  have permuted := (List.subperm_of_subset drawn.distinct inside).perm_of_length_le (by simpa using full)
  exact permuted.mem_iff.mpr (List.mem_map.mpr ⟨index, List.mem_range.mpr bound, rfl⟩)

/-- What one band and the bands below it give together. -/
theorem Drawn.cons {band quota : Nat} {listed : List A} {rest : List (Nat × List A)}
    {first later : List (Rival A)} (below : ∀ info ∈ rest, info.1 < band)
    (drawn : Drawn getGhost [(band, listed)] quota first)
    (drawnLater : Drawn getGhost rest (quota - first.length) later) :
    Drawn getGhost ((band, listed) :: rest) quota (first ++ later) := by
  have size := drawn.length
  have sizeLater := drawnLater.length
  have one : ghostTotal [(band, listed)] = listed.length := Nat.add_zero _
  have both : ghostTotal ((band, listed) :: rest) = listed.length + ghostTotal rest := rfl
  rw [one] at size
  have here : ∀ rival ∈ first, rival.1.1 = band := by
    intro rival member
    obtain ⟨_, only, _⟩ := drawn.paired rival member
    exact congrArg Prod.fst (List.mem_singleton.mp only)
  have lower : ∀ rival ∈ later, rival.1.1 < band := by
    intro rival member
    obtain ⟨listed, present, _⟩ := drawnLater.paired rival member
    exact below _ present
  constructor
  · intro rival member
    rcases List.mem_append.mp member with member | member
    · obtain ⟨listed, only, read⟩ := drawn.paired rival member
      exact ⟨listed, List.mem_cons.mpr (.inl (List.mem_singleton.mp only)), read⟩
    · obtain ⟨listed, present, read⟩ := drawnLater.paired rival member
      exact ⟨listed, List.mem_cons_of_mem _ present, read⟩
  · rw [List.map_append]
    refine List.nodup_append.mpr ⟨drawn.distinct, drawnLater.distinct, ?_⟩
    intro key inFirst other inLater same
    obtain ⟨rival, member, rfl⟩ := List.mem_map.mp inFirst
    obtain ⟨_, otherMember, rfl⟩ := List.mem_map.mp inLater
    have bands := congrArg Prod.fst same
    rw [here rival member] at bands
    exact absurd bands.symm (Nat.ne_of_lt (lower _ otherMember))
  · rw [List.length_append, both]
    omega
  · intro rival member info present higher index bound
    rw [List.map_append]
    rcases List.mem_append.mp member with member | member
    · rw [here rival member] at higher
      rcases List.mem_cons.mp present with rfl | present
      · exact absurd higher (Nat.lt_irrefl _)
      · exact absurd (below info present) (Nat.lt_asymm higher)
    · rcases List.mem_cons.mp present with rfl | present
      · have some := List.length_pos_of_mem member
        exact List.mem_append_left _ (drawn.all_of_length (by omega) bound)
      · exact List.mem_append_right _ (drawnLater.preferred rival member info present higher index bound)

/-- The second loop. -/
theorem chooseFromGhostsInfos_drawn (sampler : Sampler) {infos : List (Nat × List A)}
    (descending : infos.Pairwise fun higher lower => lower.1 < higher.1)
    (readable : Readable getGhost infos) (choosenGhosts : List (A × Ghost)) (rng : sampler.Rng) :
    ∃ rivals next, chooseFromGhostsInfos sampler getGhost infos choosenGhosts rng =
        .ok (choosenGhosts ++ rivals.map Prod.snd, next) ∧
      Drawn getGhost infos (ghostCount - choosenGhosts.length) rivals := by
  induction infos generalizing choosenGhosts rng with
  | nil =>
      refine ⟨[], rng, by simp [chooseFromGhostsInfos], ?_⟩
      exact ⟨List.forall_mem_nil _, List.nodup_nil, by simp [ghostTotal],
        List.forall_mem_nil _⟩
  | cons info rest ih =>
      obtain ⟨band, listed⟩ := info
      obtain ⟨below, descendingRest⟩ := List.pairwise_cons.mp descending
      obtain ⟨small, ghosts⟩ := readable (band, listed) (List.mem_cons_self ..)
      obtain ⟨first, mapped, drawn⟩ :=
        drawFromBand ghosts sampler rng (ghostCount - choosenGhosts.length)
      obtain ⟨later, next, performed, drawnLater⟩ := ih descendingRest
        (fun info member => readable info (List.mem_cons_of_mem _ member))
        (choosenGhosts ++ first.map Prod.snd)
        (sampler.chooseMultipleFrom rng listed.zipIdx (ghostCount - choosenGhosts.length)).2
      refine ⟨first ++ later, next, ?_, drawn.cons below ?_⟩
      · simp only [chooseFromGhostsInfos, Result.bind_eq_ok_iff, zipU8_eq_ok_iff]
        refine ⟨_, ⟨small, rfl⟩, _, mapped, ?_⟩
        rw [performed, List.map_append, List.append_assoc]
      · rw [List.length_append, List.length_map, ← Nat.sub_sub] at drawnLater
        exact drawnLater

/-! ## Only stored ghosts are taken -/

theorem readGhosts_read {band : Nat} {choosen : List (A × Nat)} {ghosts : List (A × Ghost)}
    (performed : readGhosts getGhost band choosen = .ok ghosts) :
    ∀ entry ∈ ghosts, ∃ key, getGhost key = some entry.2 := by
  induction choosen generalizing ghosts with
  | nil =>
      cases performed
      exact List.forall_mem_nil _
  | cons first rest ih =>
      simp only [readGhosts, List.mapM_cons, Result.bind_eq_ok_iff, Result.pure_eq_ok_iff,
        okOr_eq_ok_iff] at performed
      obtain ⟨_, ⟨ghost, found, rfl⟩, later, mapped, rfl⟩ := performed
      intro entry member
      rcases List.mem_cons.mp member with rfl | member
      · exact ⟨_, found⟩
      · exact ih mapped entry member

theorem chooseFromGhostsInfos_read {sampler : Sampler} {infos : List (Nat × List A)}
    {choosenGhosts all : List (A × Ghost)} {rng next : sampler.Rng}
    (before : ∀ entry ∈ choosenGhosts, ∃ key, getGhost key = some entry.2)
    (performed : chooseFromGhostsInfos sampler getGhost infos choosenGhosts rng = .ok (all, next)) :
    ∀ entry ∈ all, ∃ key, getGhost key = some entry.2 := by
  induction infos generalizing choosenGhosts rng with
  | nil =>
      cases performed
      exact before
  | cons info rest ih =>
      simp only [chooseFromGhostsInfos, Result.bind_eq_ok_iff] at performed
      obtain ⟨_, _, ghosts, read, performed⟩ := performed
      refine ih (fun entry member => ?_) performed
      rcases List.mem_append.mp member with old | new
      · exact before entry old
      · exact readGhosts_read read entry new

/-- Every ghost that is returned was read. -/
theorem chooseGhosts_read {sampler : Sampler} {ep seed : Nat}
    {entries : List (Option (A × Ghost))}
    (performed : chooseGhosts sampler ep seed getGhostsInfo getGhost = .ok entries) {a : A}
    {ghost : Ghost} (member : some (a, ghost) ∈ entries) : ∃ key, getGhost key = some ghost := by
  simp only [chooseGhosts, Result.bind_eq_ok_iff, Result.pure_eq_ok_iff] at performed
  obtain ⟨⟨all, _⟩, chosen, rfl⟩ := performed
  rcases List.mem_append.mp member with taken | padding
  · obtain ⟨entry, present, same⟩ := List.mem_map.mp ((Sampler.shuffleAll_perm _ _).subset taken)
    cases same
    have none : ∀ entry ∈ ([] : List (A × Ghost)), ∃ key, getGhost key = some entry.2 :=
      (List.forall_mem_nil _)
    exact chooseFromGhostsInfos_read none chosen _ present
  · cases List.eq_of_mem_replicate padding

/-! ## Only the listed ghosts are read -/

theorem mapM_congr_of_mem {f g : α → Result β} {values : List α}
    (same : ∀ value ∈ values, f value = g value) : values.mapM f = values.mapM g := by
  induction values with
  | nil => rfl
  | cons value rest ih =>
      rw [List.mapM_cons, List.mapM_cons, same value (List.mem_cons_self ..),
        ih fun other member => same other (List.mem_cons_of_mem _ member)]

theorem chooseFromGhostsInfos_congr {sampler : Sampler} {other : Nat × Nat → Option Ghost}
    {infos : List (Nat × List A)}
    (same : ∀ info ∈ infos, ∀ index < info.2.length,
      other (info.1, index) = getGhost (info.1, index))
    (choosenGhosts : List (A × Ghost)) (rng : sampler.Rng) :
    chooseFromGhostsInfos sampler other infos choosenGhosts rng =
      chooseFromGhostsInfos sampler getGhost infos choosenGhosts rng := by
  induction infos generalizing choosenGhosts rng with
  | nil => rfl
  | cons info rest ih =>
      obtain ⟨band, listed⟩ := info
      have later := ih fun info member => same info (List.mem_cons_of_mem _ member)
      have read : readGhosts other band
            (sampler.chooseMultipleFrom rng listed.zipIdx (ghostCount - choosenGhosts.length)).1 =
          readGhosts getGhost band
            (sampler.chooseMultipleFrom rng listed.zipIdx (ghostCount - choosenGhosts.length)).1 := by
        apply mapM_congr_of_mem
        intro (a, index) member
        have placed := List.mem_zipIdx_iff_getElem?.mp
          ((Sampler.chooseMultipleFrom_subperm _ _ _).subset member)
        have bound := (List.getElem?_eq_some_iff.mp placed).1
        have read : other (band, index) = getGhost (band, index) :=
          same (band, listed) (List.mem_cons_self ..) index bound
        simp only [read]
      by_cases bound : listed.length ≤ u8Max
      · have indexed : zipU8 listed = .ok listed.zipIdx := if_pos bound
        simp only [chooseFromGhostsInfos, indexed, later]
        change readGhosts other band _ >>= _ = readGhosts getGhost band _ >>= _
        rw [read]
      · have overflows : zipU8 listed = .error .arithmeticOverflow := if_neg bound
        simp only [chooseFromGhostsInfos, overflows]
        rfl

/-! ## The selection -/

/-- The first loop lists the bands from some band up to the player's own, the
highest first. -/
theorem collectGhostsInfos_spec (epBand : Nat) :
    ∃ lowest ≤ epBand,
      (∀ info : Nat × List A, info ∈ collectGhostsInfos getGhostsInfo epBand [] ↔
        (lowest ≤ info.1 ∧ info.1 ≤ epBand) ∧ getGhostsInfo info.1 = some info.2) ∧
      (collectGhostsInfos getGhostsInfo epBand []).Pairwise fun higher lower =>
        lower.1 < higher.1 := by
  obtain ⟨lowest, bound, collected, _⟩ := @collectGhostsInfos_eq _ getGhostsInfo epBand []
  rw [List.nil_append] at collected
  rw [collected]
  exact ⟨lowest, bound, fun info => mem_bandInfos bound, bandInfos_pairwise lowest epBand⟩

theorem drawRivals (sampler : Sampler) (ep seed : Nat)
    (small : ∀ band listed, getGhostsInfo band = some listed → listed.length ≤ u8Max)
    (stored : ∀ band listed index, getGhostsInfo band = some listed → index < listed.length →
      ∃ ghost, getGhost (band, index) = some ghost) :
    ∃ drawn rng, chooseFromGhostsInfos sampler getGhost
        (collectGhostsInfos getGhostsInfo (getEpBand ep) []) [] (sampler.seedFromU64 seed) =
          .ok (drawn.map Prod.snd, rng) ∧
      Drawn getGhost (collectGhostsInfos getGhostsInfo (getEpBand ep) []) ghostCount drawn := by
  obtain ⟨lowest, _, listed_iff, descending⟩ :=
    @collectGhostsInfos_spec _ getGhostsInfo (getEpBand ep)
  have readable : Readable getGhost (collectGhostsInfos getGhostsInfo (getEpBand ep) []) := by
    intro info member
    have found := ((listed_iff info).mp member).2
    exact ⟨small info.1 info.2 found, fun index bound => stored info.1 info.2 index found bound⟩
  exact chooseFromGhostsInfos_drawn sampler descending readable [] (sampler.seedFromU64 seed)

theorem chooseGhosts_of_drawn {sampler : Sampler} {ep seed : Nat} {drawn : List (Rival A)}
    {rng : sampler.Rng}
    (performed : chooseFromGhostsInfos sampler getGhost
      (collectGhostsInfos getGhostsInfo (getEpBand ep) []) [] (sampler.seedFromU64 seed) =
        .ok (drawn.map Prod.snd, rng)) :
    chooseGhosts sampler ep seed getGhostsInfo getGhost =
      .ok ((pick (sampler.shuffle rng drawn.length).1 drawn).map (fun rival => some rival.2) ++
        List.replicate (3 - drawn.length) none) := by
  simp only [chooseGhosts, Result.bind_eq_ok_iff]
  refine ⟨_, performed, ?_⟩
  simp only [Sampler.shuffleAll, pick_map, List.length_map, List.map_map, ghostCount]
  rfl

/-- `choose_ghosts` takes as many ghosts as there are, up to three, each at most
once and the bands near the player's own first. -/
theorem chooseGhosts_selects (sampler : Sampler) (ep seed : Nat)
    (small : ∀ band listed, getGhostsInfo band = some listed → listed.length ≤ u8Max)
    (stored : ∀ band listed index, getGhostsInfo band = some listed → index < listed.length →
      ∃ ghost, getGhost (band, index) = some ghost) :
    ∃ entries, ∃ rivals : List (Rival A),
      chooseGhosts sampler ep seed getGhostsInfo getGhost = .ok entries ∧ entries.length = 3 ∧
      entries = (rivals.map fun rival => some rival.2) ++ List.replicate (3 - rivals.length) none ∧
      rivals.length = min 3 (storedGhosts getGhostsInfo (getEpBand ep)) ∧
      (rivals.map Prod.fst).Nodup ∧
      (∀ rival ∈ rivals, rival.1.1 ≤ getEpBand ep ∧ ∃ listed,
        getGhostsInfo rival.1.1 = some listed ∧ listed[rival.1.2]? = some rival.2.1 ∧
          getGhost rival.1 = some rival.2.2) ∧
      (∀ rival ∈ rivals, ∀ band listed index, rival.1.1 < band → band ≤ getEpBand ep →
        getGhostsInfo band = some listed → index < listed.length →
          (band, index) ∈ rivals.map Prod.fst) ∧
      ∀ other : Nat × Nat → Option Ghost,
        (∀ band listed index, getGhostsInfo band = some listed → index < listed.length →
          other (band, index) = getGhost (band, index)) →
        chooseGhosts sampler ep seed getGhostsInfo other = .ok entries := by
  obtain ⟨lowest, _, listed_iff, _⟩ := @collectGhostsInfos_spec _ getGhostsInfo (getEpBand ep)
  have total := @min_ghostTotal_collectGhostsInfos _ getGhostsInfo (getEpBand ep)
  obtain ⟨drawn, rng, performed, facts⟩ := drawRivals sampler ep seed small stored
  let positions := (sampler.shuffle rng drawn.length).1
  have permuted : (pick positions drawn).Perm drawn := pick_perm (sampler.shuffle_perm rng _)
  have keys := permuted.map Prod.fst
  have size : (pick positions drawn).length = min 3 (storedGhosts getGhostsInfo (getEpBand ep)) :=
    (permuted.length_eq.trans facts.length).trans total
  refine ⟨_, pick positions drawn, ?_, ?_, rfl, size, keys.nodup_iff.mpr facts.distinct, ?_, ?_, ?_⟩
  · rw [permuted.length_eq]
    exact chooseGhosts_of_drawn performed
  · rw [List.length_append, List.length_map, List.length_replicate]
    omega
  · intro rival member
    obtain ⟨listed, present, placed, read⟩ := facts.paired rival (permuted.subset member)
    obtain ⟨range, found⟩ := (listed_iff _).mp present
    exact ⟨range.2, listed, found, placed, read⟩
  · intro rival member band listed index higher below found inside
    obtain ⟨_, present, _⟩ := facts.paired rival (permuted.subset member)
    have above := ((listed_iff _).mp present).1.1
    have collectedToo := (listed_iff (band, listed)).mpr
      ⟨⟨Nat.le_of_lt (Nat.lt_of_le_of_lt above higher), below⟩, found⟩
    exact keys.mem_iff.mpr
      (facts.preferred rival (permuted.subset member) (band, listed) collectedToo higher index inside)
  · intro other same
    rw [permuted.length_eq]
    apply chooseGhosts_of_drawn
    rw [chooseFromGhostsInfos_congr fun info member index inside =>
      same info.1 info.2 index ((listed_iff info).mp member).2 inside]
    exact performed

/-- One ghost in the player's own band and two in the lowest: all are taken. -/
theorem chooseGhosts_selects_from_two_bands :
    let getGhostsInfo (band : Nat) : Option (List Nat) :=
      if band = 3 then some [7] else if band = 0 then some [8, 9] else none
    let getGhost (key : Nat × Nat) : Option Ghost :=
      if key.2 < 2 then some ⟨[⟨key.1, []⟩]⟩ else none
    ∃ entries, chooseGhosts .first 350 0 getGhostsInfo getGhost = .ok entries ∧
      entries.length = 3 ∧ none ∉ entries := by
  intro getGhostsInfo getGhost
  have bound : ∀ band listed, getGhostsInfo band = some listed → listed.length ≤ 2 := by
    intro band listed found
    simp only [getGhostsInfo] at found
    split at found
    · cases found
      decide
    · split at found
      · cases found
        decide
      · cases found
  obtain ⟨entries, rivals, performed, length, rfl, size, _⟩ :=
    @chooseGhosts_selects _ getGhostsInfo getGhost .first 350 0
      (fun band listed found => Nat.le_trans (bound band listed found) (by decide))
      (fun band listed index found inside =>
        ⟨_, if_pos (Nat.lt_of_lt_of_le inside (bound band listed found))⟩)
  have three : rivals.length = 3 := size.trans (by decide)
  exact ⟨_, performed, length, by simp [three]⟩

end EmojiBattler.Mtc
