import Mathlib.Data.List.Dedup
import Mathlib.Data.List.Sort
import Mathlib.Data.List.TakeWhile
import Mathlib.Order.Bounds.Basic

/-! # Rankings by the best score

Keys call with scores, and a ranking holds every key with the best score it
has called with, the best first.  A bounded list that enters every call in the
same way and forgets what falls off its end is always the top of the full
ranking.
-/

namespace Ranking

variable {S K : Type*} [LinearOrder S] [DecidableEq K]

/-- A new entry stands before the old ones of the same score. -/
def Before (left right : S × K) : Prop := right.1 ≤ left.1

instance : DecidableRel (Before : S × K → S × K → Prop) :=
  fun left right => inferInstanceAs (Decidable (right.1 ≤ left.1))

instance : Std.Total (Before : S × K → S × K → Prop) where
  total left right := le_total right.1 left.1

instance : IsTrans (S × K) Before where
  trans _ _ _ first second := le_trans second first

/-- The key has a better score already. -/
def Beaten (ranking : List (S × K)) (call : S × K) : Prop :=
  ∃ entry ∈ ranking, entry.2 = call.2 ∧ call.1 < entry.1

instance (ranking : List (S × K)) (call : S × K) : Decidable (Beaten ranking call) :=
  inferInstanceAs (Decidable (∃ entry ∈ ranking, _))

/-- The entries of the other keys. -/
def others (ranking : List (S × K)) (key : K) : List (S × K) :=
  ranking.filter fun entry => entry.2 ≠ key

def enter (ranking : List (S × K)) (call : S × K) : List (S × K) :=
  if Beaten ranking call then ranking else (others ranking call.2).orderedInsert Before call

/-- The ranking holds the best score of every key that has called. -/
structure Ranked (calls ranking : List (S × K)) : Prop where
  sorted : ranking.Pairwise Before
  distinct : (ranking.map Prod.snd).Nodup
  called : ∀ entry ∈ ranking, entry ∈ calls
  covered : ∀ call ∈ calls, ∃ entry ∈ ranking, entry.2 = call.2 ∧ call.1 ≤ entry.1

omit [DecidableEq K] in
theorem ranked_nil : Ranked ([] : List (S × K)) [] where
  sorted := .nil
  distinct := .nil
  called := nofun
  covered := nofun

omit [LinearOrder S] in
theorem others_sublist (ranking : List (S × K)) (key : K) :
    (others ranking key).Sublist ranking := List.filter_sublist

omit [LinearOrder S] in
theorem mem_others {ranking : List (S × K)} {key : K} {entry : S × K} :
    entry ∈ others ranking key ↔ entry ∈ ranking ∧ entry.2 ≠ key := by
  simp [others]

omit [LinearOrder S] in
theorem others_eq_self {ranking : List (S × K)} {key : K}
    (absent : ∀ entry ∈ ranking, entry.2 ≠ key) : others ranking key = ranking :=
  List.filter_eq_self.mpr fun entry member => decide_eq_true (absent entry member)

theorem Ranked.enter {calls ranking : List (S × K)} (ranked : Ranked calls ranking)
    (call : S × K) : Ranked (calls ++ [call]) (enter ranking call) := by
  unfold Ranking.enter
  split
  · rename_i beaten
    obtain ⟨better, member, same, lower⟩ := beaten
    refine ⟨ranked.sorted, ranked.distinct,
      fun entry member => List.mem_append_left _ (ranked.called entry member), ?_⟩
    intro earlier called
    rcases List.mem_append.mp called with old | new
    · exact ranked.covered earlier old
    · rw [List.mem_singleton.mp new]
      exact ⟨better, member, same, le_of_lt lower⟩
  · rename_i unbeaten
    have permuted := List.perm_orderedInsert Before call (others ranking call.2)
    constructor
    · exact (ranked.sorted.sublist (others_sublist _ _)).orderedInsert call
    · refine (permuted.map _).nodup_iff.mpr (List.nodup_cons.mpr ⟨fun member => ?_, ?_⟩)
      · obtain ⟨entry, other, same⟩ := List.mem_map.mp member
        exact (mem_others.mp other).2 same
      · exact ranked.distinct.sublist ((others_sublist _ _).map _)
    · intro entry member
      rcases (List.mem_orderedInsert _).mp member with rfl | other
      · exact List.mem_append_right _ List.mem_cons_self
      · exact List.mem_append_left _ (ranked.called entry (mem_others.mp other).1)
    · intro earlier called
      by_cases same : earlier.2 = call.2
      · refine ⟨call, (List.mem_orderedInsert _).mpr (.inl rfl), same.symm, ?_⟩
        rcases List.mem_append.mp called with old | new
        · obtain ⟨entry, member, sameKey, best⟩ := ranked.covered earlier old
          have lower : entry.1 ≤ call.1 := by
            by_contra higher
            exact unbeaten ⟨entry, member, sameKey.trans same, not_le.mp higher⟩
          exact le_trans best lower
        · rw [List.mem_singleton.mp new]
      · rcases List.mem_append.mp called with old | new
        · obtain ⟨entry, member, sameKey, best⟩ := ranked.covered earlier old
          refine ⟨entry, (List.mem_orderedInsert _).mpr (.inr (mem_others.mpr ⟨member, ?_⟩)),
            sameKey, best⟩
          rwa [sameKey]
        · rw [List.mem_singleton.mp new] at same
          exact absurd rfl same

theorem Ranked.foldl {done ranking : List (S × K)} (ranked : Ranked done ranking)
    (calls : List (S × K)) :
    Ranked (done ++ calls) (calls.foldl Ranking.enter ranking) := by
  induction calls generalizing done ranking with
  | nil => rwa [List.append_nil]
  | cons call rest ih =>
      rw [List.foldl_cons, List.append_cons]
      exact ih (ranked.enter call)

/-! ## The top -/

/-- The scores that a key has called with. -/
def scores (calls : List (S × K)) (key : K) : Set S := {score | (score, key) ∈ calls}

omit [DecidableEq K] in
theorem Ranked.isGreatest {calls ranking : List (S × K)} (ranked : Ranked calls ranking)
    {entry : S × K} (member : entry ∈ ranking) : IsGreatest (scores calls entry.2) entry.1 := by
  refine ⟨ranked.called entry member, fun score called => ?_⟩
  obtain ⟨best, listed, same, upper⟩ := ranked.covered (score, entry.2) called
  rwa [List.inj_on_of_nodup_map ranked.distinct listed member same] at upper

/-- There are as many entries as keys. -/
theorem Ranked.length_eq {calls ranking : List (S × K)} (ranked : Ranked calls ranking) :
    ranking.length = (calls.map Prod.snd).dedup.length := by
  rw [← List.length_map Prod.snd]
  refine List.Perm.length_eq ((List.perm_ext_iff_of_nodup ranked.distinct (List.nodup_dedup _)).mpr
    fun key => ?_)
  rw [List.mem_dedup]
  constructor
  · intro member
    obtain ⟨entry, listed, rfl⟩ := List.mem_map.mp member
    exact List.mem_map_of_mem (ranked.called entry listed)
  · intro member
    obtain ⟨call, called, rfl⟩ := List.mem_map.mp member
    obtain ⟨entry, listed, same, _⟩ := ranked.covered call called
    exact List.mem_map.mpr ⟨entry, listed, same⟩

/-- What the first entries of a ranking tell about all calls. -/
structure Top (size : Nat) (calls top : List (S × K)) : Prop where
  sorted : top.Pairwise Before
  distinct : (top.map Prod.snd).Nodup
  bounded : top.length ≤ size
  best : ∀ entry ∈ top, IsGreatest (scores calls entry.2) entry.1
  count : top.length = min size (calls.map Prod.snd).dedup.length
  outside : ∀ call ∈ calls, call.2 ∉ top.map Prod.snd → ∀ entry ∈ top, call.1 ≤ entry.1

theorem Ranked.top {calls ranking : List (S × K)} (ranked : Ranked calls ranking) (size : Nat) :
    Top size calls (ranking.take size) where
  sorted := ranked.sorted.sublist (List.take_sublist _ _)
  distinct := ranked.distinct.sublist ((List.take_sublist _ _).map _)
  bounded := List.length_take_le _ _
  best entry member := ranked.isGreatest (List.mem_of_mem_take member)
  count := by rw [List.length_take, ranked.length_eq]
  outside call called unlisted entry member := by
    obtain ⟨best, listed, same, upper⟩ := ranked.covered call called
    have dropped : best ∈ ranking.drop size := by
      rw [← List.take_append_drop size ranking] at listed
      rcases List.mem_append.mp listed with inside | outside
      · exact absurd (List.mem_map.mpr ⟨best, inside, same⟩) unlisted
      · exact outside
    have sorted := ranked.sorted
    rw [← List.take_append_drop size ranking] at sorted
    exact le_trans upper ((List.pairwise_append.mp sorted).2.2 entry member best dropped)

/-! ## Bounded rankings -/

omit [LinearOrder S] in
/-- An entry of the key that is dropped leaves room for at most one other. -/
theorem take_others {ranking : List (S × K)} {key : K}
    (distinct : (ranking.map Prod.snd).Nodup) (size : Nat) :
    (others (ranking.take (size + 1)) key).take size = (others ranking key).take size := by
  induction ranking generalizing size with
  | nil => rfl
  | cons entry rest ih =>
      rw [List.map_cons, List.nodup_cons] at distinct
      rw [List.take_succ_cons]
      by_cases same : entry.2 = key
      · have absent : ∀ other ∈ rest, other.2 ≠ key := by
          intro other member found
          exact distinct.1 (List.mem_map.mpr ⟨other, member, found.trans same.symm⟩)
        have dropped (more : List (S × K)) : others (entry :: more) key = others more key :=
          List.filter_cons_of_neg (by simpa using same)
        rw [dropped, dropped, others_eq_self absent,
          others_eq_self fun other member => absent other (List.mem_of_mem_take member),
          List.take_take, Nat.min_self]
      · have kept (more : List (S × K)) : others (entry :: more) key = entry :: others more key :=
          List.filter_cons_of_pos (by simpa using same)
        rw [kept, kept]
        cases size with
        | zero => rfl
        | succ size => rw [List.take_succ_cons, List.take_succ_cons, ih distinct.2]

/-- As long as the key is not beaten, only the top decides about the new top. -/
theorem take_orderedInsert_others {ranking : List (S × K)} {call : S × K}
    (sorted : ranking.Pairwise Before) (distinct : (ranking.map Prod.snd).Nodup)
    (unbeaten : ¬ Beaten ranking call) (size : Nat) :
    ((others (ranking.take size) call.2).orderedInsert Before call).take size =
      ((others ranking call.2).orderedInsert Before call).take size := by
  induction ranking generalizing size with
  | nil => rw [List.take_nil]
  | cons entry rest ih =>
      rw [List.pairwise_cons] at sorted
      cases size with
      | zero => rfl
      | succ size =>
          have distinctRest := (List.nodup_cons.mp distinct).2
          have unbeatenRest : ¬ Beaten rest call := by
            rintro ⟨better, member, same, lower⟩
            exact unbeaten ⟨better, List.mem_cons_of_mem _ member, same, lower⟩
          by_cases same : entry.2 = call.2
          · -- Everything after the old entry of the key has a lower score.
            have lower : entry.1 ≤ call.1 := by
              by_contra higher
              exact unbeaten ⟨entry, List.mem_cons_self, same, not_le.mp higher⟩
            have first (more : List (S × K)) (part : more.Sublist rest) :
                more.orderedInsert Before call = call :: more := by
              cases more with
              | nil => rfl
              | cons next later =>
                  have member := part.subset List.mem_cons_self
                  exact List.orderedInsert_cons_of_le _ _ (le_trans (sorted.1 next member) lower)
            have dropped (more : List (S × K)) :
                others (entry :: more) call.2 = others more call.2 :=
              List.filter_cons_of_neg (by simpa using same)
            rw [List.take_succ_cons, dropped, dropped, first _ (others_sublist _ _),
              first _ ((others_sublist _ _).trans (List.take_sublist _ _)), List.take_succ_cons,
              List.take_succ_cons]
            have absent : ∀ other ∈ rest, other.2 ≠ call.2 := by
              intro other member found
              exact (List.nodup_cons.mp distinct).1
                (List.mem_map.mpr ⟨other, member, found.trans same.symm⟩)
            rw [others_eq_self absent,
              others_eq_self fun other member => absent other (List.mem_of_mem_take member),
              List.take_take, Nat.min_self]
          · have kept (more : List (S × K)) :
                others (entry :: more) call.2 = entry :: others more call.2 :=
              List.filter_cons_of_pos (by simpa using same)
            rw [List.take_succ_cons, kept, kept, List.orderedInsert_cons, List.orderedInsert_cons]
            split
            · rw [List.take_succ_cons, List.take_succ_cons]
              cases size with
              | zero => rfl
              | succ size => rw [List.take_succ_cons, List.take_succ_cons, take_others distinctRest]
            · rw [List.take_succ_cons, List.take_succ_cons,
                ih sorted.2 distinctRest unbeatenRest]

/-- A list that forgets what falls off its end stays the top of the ranking. -/
theorem take_enter {ranking : List (S × K)} {call : S × K} (sorted : ranking.Pairwise Before)
    (distinct : (ranking.map Prod.snd).Nodup) (size : Nat) :
    (enter (ranking.take size) call).take size = (enter ranking call).take size := by
  by_cases beaten : Beaten ranking call
  · unfold enter
    rw [if_pos beaten]
    split
    · rw [List.take_take, Nat.min_self]
    · rename_i fresh
      -- The better entry is below the top, so the call falls off at once.
      obtain ⟨better, member, same, lower⟩ := beaten
      have below : better ∈ ranking.drop size := by
        rw [← List.take_append_drop size ranking] at member
        rcases List.mem_append.mp member with inside | outside
        · exact absurd ⟨better, inside, same, lower⟩ fresh
        · exact outside
      have parted := sorted
      rw [← List.take_append_drop size ranking] at parted
      have higher : ∀ entry ∈ ranking.take size, call.1 < entry.1 := fun entry inside =>
        lt_of_lt_of_le lower ((List.pairwise_append.mp parted).2.2 entry inside better below)
      have absent : ∀ entry ∈ ranking.take size, entry.2 ≠ call.2 := fun entry inside found =>
        fresh ⟨entry, inside, found, higher entry inside⟩
      have last : (ranking.take size).orderedInsert Before call = ranking.take size ++ [call] := by
        rw [List.orderedInsert_eq_take_drop, List.takeWhile_eq_self_iff.mpr,
          List.dropWhile_eq_nil_iff.mpr]
        · intro entry inside
          exact decide_eq_true (not_le.mpr (higher entry inside))
        · intro entry inside
          exact decide_eq_true (not_le.mpr (higher entry inside))
      have full : size ≤ ranking.length := by
        by_contra short
        rw [List.drop_eq_nil_of_le (le_of_lt (not_le.mp short))] at below
        exact nomatch below
      rw [others_eq_self absent, last, List.take_append_of_le_length, List.take_take, Nat.min_self]
      rw [List.length_take, Nat.min_eq_left full]
  · have unbeaten : ¬ Beaten (ranking.take size) call := by
      rintro ⟨better, member, same, lower⟩
      exact beaten ⟨better, List.mem_of_mem_take member, same, lower⟩
    unfold enter
    rw [if_neg beaten, if_neg unbeaten]
    exact take_orderedInsert_others sorted distinct beaten size

end Ranking
