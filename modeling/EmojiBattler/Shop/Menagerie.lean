import EmojiBattler.Library.Keyed
import EmojiBattler.Library.Representatives
import EmojiBattler.Shop.Failures

/-! # One emo of each type

`increase_stats_of_menagerie` takes the first emo of every type in a shuffled
order, and asks only after an emo whether there are enough. -/

namespace EmojiBattler.Mtc.Shop

open EmojiBattler.Emo Representatives Sampling

/-- The emo with its stats raised. -/
def ShopBoardEmo.raise (attack health : Nat) (emo : ShopBoardEmo) : ShopBoardEmo :=
  { emo with attributes :=
    { emo.attributes with
      attack := saturatingAddU16 emo.attributes.attack attack
      health := saturatingAddU16 emo.attributes.health health } }

namespace ShopBoard

/-- The board with the stats of some emos raised. -/
def raise (attack health : Nat) (ids : List Nat) (board : ShopBoard) : ShopBoard :=
  board.map fun emo => if emo.id ∈ ids then emo.raise attack health else emo

/-- The type of an emo on the board. -/
def typAt (bases : Bases) (board : ShopBoard) (id : Nat) : Option Typ :=
  (board.find? fun emo => emo.id = id).bind fun emo => (bases emo.baseId).map Base.typ

variable {bases : Bases} {board : ShopBoard} {attack health : Nat} {ids ids' : List Nat}

@[simp] theorem raise_nil : board.raise attack health [] = board := by
  simp [raise]

@[simp] theorem emoIds_raise : (board.raise attack health ids).emoIds = board.emoIds := by
  rw [emoIds, raise, List.map_map]
  refine List.map_congr_left fun emo _ => ?_
  dsimp only [Function.comp_apply]
  split <;> rfl

@[simp] theorem length_raise : (board.raise attack health ids).length = board.length := by
  rw [raise, List.length_map]

theorem raise_raise (apart : ∀ id ∈ ids, id ∉ ids') :
    (board.raise attack health ids).raise attack health ids' =
      board.raise attack health (ids ++ ids') := by
  rw [raise, raise, raise, List.map_map]
  refine List.map_congr_left fun emo _ => ?_
  by_cases first : emo.id ∈ ids
  · have id : (emo.raise attack health).id = emo.id := rfl
    simp [first, id, apart emo.id first]
  · simp [first]

/-- To raise one emo changes the board exactly if it changes the emo. -/
theorem raise_singleton_eq_iff {emo : ShopBoardEmo} (distinct : board.emoIds.Nodup)
    (member : emo ∈ board) :
    board.raise attack health [emo.id] = board ↔ emo.raise attack health = emo := by
  constructor
  · intro same
    have kept := List.map_inj_left.mp (same.trans (List.map_id board).symm) emo member
    simpa using kept
  · intro kept
    refine (List.map_congr_left fun other listed => ?_).trans (List.map_id board)
    split
    · rename_i own
      rw [List.inj_on_of_nodup_map distinct listed member (List.mem_singleton.mp own), kept]
      rfl
    · rfl

@[simp] theorem typAt_raise : typAt bases (board.raise attack health ids) = typAt bases board := by
  funext id
  rw [typAt, typAt, raise, List.find?_map, Option.bind_map]
  have sameId : ((fun emo : ShopBoardEmo => decide (emo.id = id)) ∘ fun emo : ShopBoardEmo =>
      if emo.id ∈ ids then emo.raise attack health else emo) =
        fun emo => decide (emo.id = id) := by
    funext emo
    dsimp only [Function.comp_apply]
    split <;> rfl
  rw [sameId]
  congr 1
  funext emo
  dsimp only [Function.comp_apply]
  split <;> rfl

end ShopBoard

/-! ## One raise -/

section Raise

variable {env : Env} {state : ShopState} {attack health id : Nat}

/-- What a function of the shop changes besides the board and the logs. -/
structure SameCounters (before after : ShopState) : Prop where
  gottenCoin : after.gottenCoin = before.gottenCoin
  generatedIds : after.generatedIds = before.generatedIds

theorem addAttackAndHealthToEmo_raises (distinct : state.board.emoIds.Nodup)
    (counted : state.board.length ≤ u8Max) (present : id ∈ state.board.emoIds) :
    ∃ after, addAttackAndHealthToEmo env attack health state id = .ok after ∧
      after.board = state.board.raise attack health [id] ∧ SameCounters state after := by
  obtain ⟨⟨emo, index⟩, found⟩ := exists_find?_zipIdx_iff.mpr present
  have located : state.board.getEmoMutAndIndexById id = .ok (emo, index) := by
    have counts : findZipU8 (fun emo : ShopBoardEmo => emo.id = id) state.board =
        .ok (some (emo, index)) := by
      rw [findZipU8, if_pos (by omega), found]
    simp only [ShopBoard.getEmoMutAndIndexById, Result.bind_eq_ok_iff, okOr_eq_ok_iff]
    exact ⟨_, counts, rfl⟩
  obtain ⟨standing, rfl⟩ := ShopBoard.getEmoMutAndIndexById_found located
  refine ⟨(state.addLog env (.increaseStats index attack health
    (saturatingAddU16 emo.attributes.attack attack)
    (saturatingAddU16 emo.attributes.health health))).setEmoAt index (emo.raise attack health),
    ?_, ?_, ?_, ?_⟩
  · rw [addAttackAndHealthToEmo, located]
    rfl
  · have written := @Keyed.set_eq_map _ _ ShopBoardEmo.id state.board emo index _
      (ShopBoardEmo.raise attack health) distinct standing
    simp only [ShopState.setEmoAt, ShopState.addLog_board, ShopBoard.raise, List.mem_singleton]
    exact written
  · simp only [ShopState.setEmoAt, ShopState.addLog_gottenCoin]
  · simp only [ShopState.setEmoAt, ShopState.addLog_generatedIds]

end Raise

/-! ## The loop -/

section Loop

variable {env : Env} {state : ShopState} {actionEmoId typCount attack health : Nat}

theorem getEmoMutById_found {board : ShopBoard} {id : Nat} {emo : ShopBoardEmo}
    (found : board.getEmoMutById id = .ok emo) :
    board.find? (fun emo => emo.id = id) = some emo := by
  simpa only [ShopBoard.getEmoMutById, okOr_eq_ok_iff] using found

/-- The loop raises the first emo of every type among the candidates. -/
theorem increaseStatsOfMenagerieLoop_raises {emoIds : List Nat} {typs : List Typ}
    (distinct : state.board.emoIds.Nodup) (counted : state.board.length ≤ u8Max)
    (bases : ∀ emo ∈ state.board, Resolves env.emoBases emo.baseId)
    (present : emoIds ⊆ state.board.emoIds) :
    ∃ after, increaseStatsOfMenagerieLoop env actionEmoId typCount attack health emoIds typs state =
        .ok after ∧
      after.board = state.board.raise attack health (firsts (state.board.typAt env.emoBases)
        typCount (emoIds.filter fun id => id ≠ actionEmoId) (typs.map some)) ∧
      SameCounters state after := by
  induction emoIds generalizing typs state with
  | nil => exact ⟨state, rfl, by simp [firsts], rfl, rfl⟩
  | cons candidateEmoId rest ih =>
      obtain ⟨here, later⟩ := List.cons_subset.mp present
      unfold increaseStatsOfMenagerieLoop
      by_cases acts : candidateEmoId = actionEmoId
      · rw [if_pos acts, List.filter_cons_of_neg (by simpa using acts)]
        exact ih distinct counted bases later
      · rw [if_neg acts, List.filter_cons_of_pos (by simpa using acts)]
        obtain ⟨emo, looked⟩ := getEmoMutById_succeeds_iff.mpr here
        have found := getEmoMutById_found looked
        obtain ⟨base, resolved⟩ := bases emo (List.mem_of_find?_eq_some found)
        have typ : state.board.typAt env.emoBases candidateEmoId = some base.typ := by
          rw [ShopBoard.typAt, found, Option.bind_some, resolved, Option.map_some]
        have seen : some base.typ ∈ typs.map some ↔ base.typ ∈ typs := by simp
        unfold firsts
        rw [typ, looked, List.length_map]
        simp only [seen]
        change ∃ after, (env.emoBases.find emo.baseId >>= _) = _ ∧ _
        rw [Emo.Bases.find_eq_ok_iff.mpr resolved]
        change ∃ after, (if base.typ ∈ typs then _ else _) = _ ∧ _
        by_cases old : base.typ ∈ typs
        · rw [if_pos old, if_pos old]
          exact ih distinct counted bases later
        · rw [if_neg old, if_neg old]
          obtain ⟨raised, changed, board, counters⟩ :=
            @addAttackAndHealthToEmo_raises env state attack health _ distinct counted here
          rw [changed]
          change ∃ after, (if typCount ≤ typs.length + 1 then _ else _) = _ ∧ _
          by_cases enough : typCount ≤ typs.length + 1
          · rw [if_pos enough, if_pos enough]
            exact ⟨raised, rfl, board, counters⟩
          · rw [if_neg enough, if_neg enough]
            have bases' : ∀ emo ∈ raised.board, Resolves env.emoBases emo.baseId := by
              rw [board]
              intro emo member
              obtain ⟨other, listed, rfl⟩ := List.mem_map.mp member
              split <;> exact bases other listed
            obtain ⟨after, performed, whole, counters'⟩ :=
              @ih raised (typs ++ [base.typ]) (by rwa [board, ShopBoard.emoIds_raise])
                (by rwa [board, ShopBoard.length_raise]) bases'
                (by rwa [board, ShopBoard.emoIds_raise])
            refine ⟨after, performed, ?_, counters'.gottenCoin.trans counters.gottenCoin,
              counters'.generatedIds.trans counters.generatedIds⟩
            rw [whole, board, ShopBoard.typAt_raise, List.map_append, List.map_singleton,
              ShopBoard.raise_raise, List.singleton_append]
            -- The type was seen, so the emo is not raised once more.
            intro id own again
            rw [List.mem_singleton] at own
            subst own
            refine firsts_classes.1 id again ?_
            rw [typ]
            simp

end Loop

/-! ## The whole function -/

/-- The types of the other emos on the board. -/
def otherTyps (bases : Bases) (actionEmoId : Nat) (board : ShopBoard) : List (Option Typ) :=
  (board.filter fun emo => emo.id ≠ actionEmoId).map fun emo => (bases emo.baseId).map Base.typ

/-- As many other emos as asked for are raised, or one of each type if there are
fewer types, no two of a type, and nothing else changes. -/
def RaisesMenagerie (bases : Bases) (actionEmoId typCount attack health : Nat)
    (before after : ShopState) : Prop :=
  ∃ ids : List Nat, ids ⊆ before.board.emoIds ∧ actionEmoId ∉ ids ∧
    (ids.map (before.board.typAt bases)).Nodup ∧
    ids.length = min typCount (otherTyps bases actionEmoId before.board).toFinset.card ∧
    after.board = before.board.raise attack health ids ∧ SameCounters before after

/-- The other emo that comes first in the shuffled order. -/
def firstOther (env : Env) (rng : env.sampler.Rng) (actionEmoId : Nat) (board : ShopBoard) :
    Option Nat :=
  (env.sampler.shuffleAll rng board.emoIds).1.find? fun id => id ≠ actionEmoId

theorem typAt_of_mem {bases : Bases} {board : ShopBoard} {emo : ShopBoardEmo}
    (distinct : board.emoIds.Nodup) (member : emo ∈ board) :
    board.typAt bases emo.id = (bases emo.baseId).map Base.typ := by
  rw [ShopBoard.typAt, Keyed.find?_of_mem distinct member, Option.bind_some]

/-- The types of the others do not depend on the order. -/
theorem mem_typs_iff_mem_otherTyps {bases : Bases} {board : ShopBoard} {order : List Nat}
    {actionEmoId : Nat} (distinct : board.emoIds.Nodup) (permuted : order.Perm board.emoIds)
    (typ : Option Typ) :
    typ ∈ (order.filter fun id => id ≠ actionEmoId).map (board.typAt bases) ↔
      typ ∈ otherTyps bases actionEmoId board := by
  constructor
  · intro member
    obtain ⟨id, listed, rfl⟩ := List.mem_map.mp member
    obtain ⟨listed, other⟩ := List.mem_filter.mp listed
    obtain ⟨emo, standing, rfl⟩ := List.mem_map.mp (permuted.subset listed)
    exact List.mem_map.mpr ⟨emo, List.mem_filter.mpr ⟨standing, other⟩,
      (typAt_of_mem distinct standing).symm⟩
  · intro member
    obtain ⟨emo, listed, rfl⟩ := List.mem_map.mp member
    obtain ⟨standing, other⟩ := List.mem_filter.mp listed
    have listed : emo.id ∈ order := permuted.mem_iff.mpr (List.mem_map_of_mem standing)
    exact List.mem_map.mpr ⟨emo.id, List.mem_filter.mpr ⟨listed, other⟩,
      typAt_of_mem distinct standing⟩

section Menagerie

variable {env : Env} {rng : env.sampler.Rng} {state : ShopState} {actionEmo : ShopBoardEmo}
variable {typCount attack health raisedAttack raisedHealth : Nat}

theorem increaseStatsOfMenagerie_raises (distinct : state.board.emoIds.Nodup)
    (counted : state.board.length ≤ u8Max)
    (bases : ∀ emo ∈ state.board, Resolves env.emoBases emo.baseId)
    (acts : actionEmo ∈ state.board)
    (doubled : doubleAttackAndHealthIf actionEmo.attributes.isTriple attack health =
      (raisedAttack, raisedHealth)) :
    ∃ rng' after, increaseStatsOfMenagerie env rng actionEmo.id typCount attack health state =
        .ok (rng', after) ∧
      after.board = state.board.raise raisedAttack raisedHealth
        (firsts (state.board.typAt env.emoBases) typCount
          ((env.sampler.shuffleAll rng state.board.emoIds).1.filter fun id => id ≠ actionEmo.id)
          []) ∧
      SameCounters state after := by
  have looked : state.board.getEmoById actionEmo.id = .ok actionEmo := by
    rw [ShopBoard.getEmoById, Keyed.find?_of_mem distinct acts]
    rfl
  obtain ⟨after, looped, facts⟩ := @increaseStatsOfMenagerieLoop_raises env state actionEmo.id
    typCount raisedAttack raisedHealth (env.sampler.shuffleAll rng state.board.emoIds).1 []
    distinct counted bases (env.sampler.shuffleAll_perm rng state.board.emoIds).subset
  refine ⟨(env.sampler.shuffleAll rng state.board.emoIds).2, after, ?_, facts⟩
  simp only [increaseStatsOfMenagerie, Result.bind_eq_ok_iff]
  refine ⟨actionEmo, looked, after, ?_, rfl⟩
  rw [doubled]
  exact looped

/-- The emos are raised as they should be exactly if some are asked for, or the
one that is raised nevertheless is left as it was. -/
theorem increaseStatsOfMenagerie_raises_iff (distinct : state.board.emoIds.Nodup)
    (counted : state.board.length ≤ u8Max)
    (bases : ∀ emo ∈ state.board, Resolves env.emoBases emo.baseId)
    (acts : actionEmo ∈ state.board)
    (doubled : doubleAttackAndHealthIf actionEmo.attributes.isTriple attack health =
      (raisedAttack, raisedHealth)) :
    (∃ rng' after, increaseStatsOfMenagerie env rng actionEmo.id typCount attack health state =
        .ok (rng', after) ∧
      RaisesMenagerie env.emoBases actionEmo.id typCount raisedAttack raisedHealth state after) ↔
    (typCount ≠ 0 ∨ ∀ emo ∈ state.board,
      firstOther env rng actionEmo.id state.board = some emo.id →
        emo.raise raisedAttack raisedHealth = emo) := by
  obtain ⟨rng', after, performed, board, counters⟩ := @increaseStatsOfMenagerie_raises env rng
    state actionEmo typCount attack health raisedAttack raisedHealth distinct counted bases acts
    doubled
  have permuted := env.sampler.shuffleAll_perm rng state.board.emoIds
  unfold firstOther
  rw [← List.head?_filter]
  generalize (env.sampler.shuffleAll rng state.board.emoIds).1 = order at board permuted
  have typs : ((order.filter fun id => id ≠ actionEmo.id).map
      (state.board.typAt env.emoBases)).toFinset =
        (otherTyps env.emoBases actionEmo.id state.board).toFinset := by
    ext typ
    rw [List.mem_toFinset, List.mem_toFinset]
    exact mem_typs_iff_mem_otherTyps distinct permuted typ
  have others : ∀ id ∈ order.filter fun id => id ≠ actionEmo.id,
      id ∈ state.board.emoIds ∧ id ≠ actionEmo.id := by
    intro id member
    obtain ⟨listed, other⟩ := List.mem_filter.mp member
    exact ⟨permuted.subset listed, of_decide_eq_true other⟩
  generalize (order.filter fun id => id ≠ actionEmo.id) = candidates at board typs others ⊢
  constructor
  · rintro ⟨_, _, again, ids, _, _, _, length, raised, _⟩
    cases performed.symm.trans again
    by_cases none : typCount = 0
    · subst none
      refine .inr fun emo member first => ?_
      obtain ⟨rest, rfl⟩ := List.head?_eq_some_iff.mp first
      -- No emo is asked for, so the board has to stay, but the first one is raised.
      have empty : ids = [] := List.length_eq_zero_iff.mp (by rw [length, Nat.zero_min])
      rw [empty, ShopBoard.raise_nil, board, firsts_zero_cons] at raised
      exact (ShopBoard.raise_singleton_eq_iff distinct member).mp raised
    · exact .inl none
  · intro condition
    by_cases idle : typCount ≠ 0 ∨ candidates = []
    · have classes := @firsts_classes _ _ _ (state.board.typAt env.emoBases) typCount candidates []
      have chosen := @firsts_sublist _ _ _ (state.board.typAt env.emoBases) typCount candidates []
      refine ⟨rng', after, performed, _, fun id member => (others id (chosen.subset member)).1,
        fun member => (others _ (chosen.subset member)).2 rfl, classes.2, ?_, board, counters⟩
      rw [length_firsts_nil, typs]
      rcases idle with asked | rfl
      · rw [Nat.max_eq_right (Nat.pos_of_ne_zero asked)]
      · have empty : (otherTyps env.emoBases actionEmo.id state.board).toFinset.card = 0 := by
          rw [← typs]
          rfl
        rw [empty, Nat.min_zero, Nat.min_zero]
    · obtain ⟨none, some⟩ := not_or.mp idle
      have none : typCount = 0 := not_not.mp none
      subst none
      obtain ⟨id, rest, rfl⟩ := List.exists_cons_of_ne_nil some
      obtain ⟨standing, _⟩ := others id (List.mem_cons_self ..)
      obtain ⟨emo, member, rfl⟩ := List.mem_map.mp standing
      have kept : emo.raise raisedAttack raisedHealth = emo :=
        condition.resolve_left (fun asked => asked rfl) emo member rfl
      refine ⟨rng', after, performed, [], List.nil_subset _, List.not_mem_nil, List.nodup_nil,
        (Nat.zero_min _).symm, ?_, counters⟩
      rw [board, firsts_zero_cons, ShopBoard.raise_nil]
      exact (ShopBoard.raise_singleton_eq_iff distinct member).mpr kept

end Menagerie

section TwoEmos

def menagerieEnv : Env where
  emoBases id := if id = 0 then some ⟨0, .food, 1, 1, 1, []⟩ else none
  sampler := .first

/-- The emos 0 and 1 of one base. -/
def twoEmos : ShopState where
  board := [⟨0, [0], 0, ⟨1, 1, [], false⟩⟩, ⟨1, [1], 0, ⟨1, 1, [], false⟩⟩]
  logs := []
  gottenCoin := 0
  generatedIds := 2

/-- An emo is raised although none is asked for. -/
theorem menagerie_of_none_raises_one :
    twoEmos.board.emoIds.Nodup ∧
      (∀ emo ∈ twoEmos.board, Resolves menagerieEnv.emoBases emo.baseId) ∧
      ∃ after, increaseStatsOfMenagerie menagerieEnv () 0 0 1 1 twoEmos = .ok ((), after) ∧
        after.board = twoEmos.board.raise 1 1 [1] ∧
        ¬ RaisesMenagerie menagerieEnv.emoBases 0 0 1 1 twoEmos after := by
  refine ⟨by decide, fun emo member => ?_, _, rfl, rfl, ?_⟩
  · have base : emo.baseId = 0 := by
      revert emo
      decide
    exact ⟨⟨0, .food, 1, 1, 1, []⟩, by rw [base]; rfl⟩
  · rintro ⟨ids, _, _, _, length, board, _⟩
    rw [List.length_eq_zero_iff.mp (length.trans (Nat.zero_min _)), ShopBoard.raise_nil] at board
    exact absurd board (by decide)

theorem increaseStatsOfMenagerie_raises_iff_twoEmos :
    ∃ rng' after, increaseStatsOfMenagerie menagerieEnv () 0 1 1 1 twoEmos = .ok (rng', after) ∧
      RaisesMenagerie menagerieEnv.emoBases 0 1 1 1 twoEmos after := by
  refine (@increaseStatsOfMenagerie_raises_iff menagerieEnv () twoEmos
    ⟨0, [0], 0, ⟨1, 1, [], false⟩⟩ 1 1 1 1 1 (by decide) (by decide) (fun emo member => ?_)
    (by decide) rfl).mpr (.inl (by decide))
  have base : emo.baseId = 0 := by
    revert emo
    decide
  exact ⟨⟨0, .food, 1, 1, 1, []⟩, by rw [base]; rfl⟩

end TwoEmos

end EmojiBattler.Mtc.Shop
