import EmojiBattler.Shop.Triples

/-! # Stored boards -/

namespace EmojiBattler.Mtc.Shop

open EmojiBattler.Emo Sampling CallMachine

variable {env : Env}

structure WellFormed (board : Board) : Prop where
  size : board.length ≤ boardEmoMaxCount
  copies : ∀ baseId,
    board.countP (fun emo => baseId = emo.baseId && !emo.attributes.isTriple) < 3
  carried : ∀ emo ∈ board, emo.mtcEmoIds.length ≤ carriedMax emo.attributes

/-- A turn whose operations are accepted and that generates fewer ids than
there are. -/
def AcceptedTurn (env : Env) (before after : Board) : Prop :=
  ∃ input last, input.board = before ∧ TurnInput.play env input = pure last ∧
    last.shop.generatedIds < input.generatedIds + idCount ∧ after = last.shop.board.intoBoard

/-- The boards that accepted turns lead to from the empty one. -/
def PlayedBoard : Board → Prop :=
  Relation.ReflTransGen (fun before after => ∃ env, AcceptedTurn env before after) []

theorem wellFormed_nil : WellFormed [] :=
  ⟨Nat.zero_le _, fun _ => Nat.zero_lt_succ _, List.forall_mem_nil _⟩

theorem settledCopies_intoBoard (baseId : Nat) (board : ShopBoard) :
    settledCopies baseId [] board = board.intoBoard.countP fun emo =>
      baseId = emo.baseId && !emo.attributes.isTriple := by
  rw [ShopBoard.intoBoard, List.countP_map]
  refine List.countP_congr fun emo _ => ?_
  change (isSameBaseNotTriple baseId emo && decide (emo.id ∉ [])) = true ↔
    (decide (baseId = emo.baseId) && !emo.attributes.isTriple) = true
  simp [isSameBaseNotTriple]

theorem Orderly.wellFormed {first : Nat} {state : ShopState} (orderly : Orderly first [] state) :
    WellFormed state.board.intoBoard where
  size := by
    rw [ShopBoard.intoBoard_length]
    exact orderly.size
  copies baseId := by
    rw [← settledCopies_intoBoard]
    exact Nat.lt_succ_of_le (orderly.settled baseId)
  carried boardEmo member := by
    obtain ⟨emo, present, rfl⟩ := List.mem_map.mp member
    exact orderly.carried emo present

theorem WellFormed.openShop {board : Board} (wellFormed : WellFormed board) (generatedIds : Nat) :
    Orderly generatedIds [] (openShop board generatedIds) where
  fresh := fresh_openShop (Nat.le_trans wellFormed.size (by decide))
  size := by
    rw [Shop.openShop, ShopBoard.fromBoard_length]
    exact wellFormed.size
  settled baseId := by
    rw [settledCopies_intoBoard, Shop.openShop, ShopBoard.intoBoard_fromBoard]
    exact Nat.le_of_lt_succ (wellFormed.copies baseId)
  carried emo member := by
    have present : emo.intoBoardEmo ∈ (ShopBoard.fromBoard board generatedIds).intoBoard :=
      List.mem_map_of_mem member
    rw [ShopBoard.intoBoard_fromBoard] at present
    exact wellFormed.carried _ present

/-- Between the calls of a turn the board has no pending checks. -/
theorem Orderly.operated {first : Nat} {catalog : Catalog} {operation : PlayerOperation}
    {before after : TurnState} (orderly : Orderly first [] before.shop)
    (start : first ≤ before.shop.generatedIds)
    (room : after.shop.generatedIds ≤ first + idCount)
    (operated : Operated env catalog before after operation) : Orderly first [] after.shop := by
  cases operated with
  | @buy mtcEmoId _ base added started calls _ _ _ addition generatedIds returned _ =>
      have later := Returns.generatedIds_le returned
      obtain ⟨_, ⟨index, bound, inserted⟩, _⟩ := id addition
      have inserting := orderly.fresh.insert [] 0 (by omega) start
        (.refl _) bound inserted rfl
      have fresh : Fresh first started := ⟨inserting.distinct, by
        rw [generatedIds]
        exact inserting.issued⟩
      have begun := orderly.addition fresh addition (Nat.le_refl _)
      rw [List.append_nil] at begun
      exact begun.returns (by omega) room returned
  | @sell index soldEmo started calls _ found removal generatedIds pending returned _ =>
      have part : started.board.Sublist before.shop.board := by
        rw [removal]
        exact List.eraseIdx_sublist _ _
      have begun : Orderly first (pendingTriples calls) started := by
        rw [pending]
        exact ⟨⟨orderly.fresh.distinct.sublist (part.map _), fun emo member => by
            rw [generatedIds]
            exact orderly.fresh.issued emo (part.subset member)⟩,
          Nat.le_trans part.length_le orderly.size,
          fun baseId => Nat.le_trans part.countP_le (orderly.settled baseId),
          fun emo member => orderly.carried emo (part.subset member)⟩
      exact begun.returns (by omega) room returned
  | move permuted generatedIds _ =>
      exact ⟨orderly.fresh.perm permuted generatedIds, by
          rw [permuted.length_eq]
          exact orderly.size,
        fun baseId => by
          rw [settledCopies, permuted.countP_eq]
          exact orderly.settled baseId,
        fun emo member => orderly.carried emo (permuted.subset member)⟩
  | nextCatalogLine shop _ => rwa [shop]
  | upgrade shop _ => rwa [shop]

theorem WellFormed.acceptedTurn {before after : Board} (wellFormed : WellFormed before)
    (accepted : AcceptedTurn env before after) : WellFormed after := by
  obtain ⟨input, last, rfl, played, room, rfl⟩ := accepted
  let first := input.generatedIds
  obtain ⟨_, _, _, orderly⟩ := TurnInput.play_invariant
    (P := fun _ _ state => first ≤ state.shop.generatedIds ∧
      (state.shop.generatedIds ≤ first + idCount → Orderly first [] state.shop))
    (fun started => by
      have opened := startTurn_opened started
      have later := Returns.generatedIds_le opened.returned
      have start : first ≤ (Shop.openShop input.board first).generatedIds := Nat.le_add_right _ _
      exact ⟨Nat.le_trans start later, fun room =>
        (wellFormed.openShop first).returns start room opened.returned⟩)
    (fun _ holds performed => by
      have operated := applyOperation_operated performed
      have later := operated.generatedIds_le
      exact ⟨Nat.le_trans holds.1 later, fun room =>
        (holds.2 (Nat.le_trans later room)).operated holds.1 room operated⟩) played
  exact (orderly (Nat.le_of_lt room)).wellFormed

theorem PlayedBoard.wellFormed {board : Board} (played : PlayedBoard board) :
    WellFormed board := by
  induction played with
  | refl => exact wellFormed_nil
  | tail _ accepted ih =>
      obtain ⟨env, accepted⟩ := accepted
      exact ih.acceptedTurn accepted

/-! ## Catalogs -/

/-- The emos on a board carry at most three ids each. -/
theorem WellFormed.carried_length {board : Board} (wellFormed : WellFormed board) :
    (board.flatMap BoardEmo.mtcEmoIds).length ≤ 3 * boardEmoMaxCount := by
  have sum : ∀ {emos : Board},
      (∀ emo ∈ emos, emo.mtcEmoIds.length ≤ carriedMax emo.attributes) →
      (emos.flatMap BoardEmo.mtcEmoIds).length ≤ 3 * emos.length := by
    intro emos
    induction emos with
    | nil => exact fun _ => Nat.le_refl _
    | cons emo rest ih =>
        intro carried
        rw [List.forall_mem_cons] at carried
        have here : emo.mtcEmoIds.length ≤ 3 :=
          Nat.le_trans carried.1 (by unfold carriedMax; split <;> omega)
        have ih := ih carried.2
        rw [List.flatMap_cons, List.length_append, List.length_cons]
        omega
  exact Nat.le_trans (sum wellFormed.carried) (Nat.mul_le_mul_left 3 wellFormed.size)

/-- Every id on the board takes at most one emo of the pool away. -/
theorem getOffboardEmos_length {pool : List Emo} (board : Board)
    (distinct : (pool.map Mtc.Emo.id).Nodup) :
    pool.length ≤
      (getOffboardEmos pool board).length + (board.flatMap BoardEmo.mtcEmoIds).length := by
  let taken := pool.filter fun emo => emo.id ∈ board.flatMap BoardEmo.mtcEmoIds
  have takenIds : (taken.map Mtc.Emo.id).Subperm (board.flatMap BoardEmo.mtcEmoIds) := by
    refine List.subperm_of_subset (distinct.sublist (List.filter_sublist.map _)) fun id member => ?_
    obtain ⟨emo, inside, rfl⟩ := List.mem_map.mp member
    simpa using (List.mem_filter.mp inside).2
  have fewer := takenIds.length_le
  have split := List.length_eq_length_filter_add (l := pool)
    fun emo : Emo => decide (emo.id ∈ board.flatMap BoardEmo.mtcEmoIds)
  have rest : (pool.filter fun emo =>
      !decide (emo.id ∈ board.flatMap BoardEmo.mtcEmoIds)) = getOffboardEmos pool board := by
    simp only [getOffboardEmos, decide_not]
  rw [rest] at split
  rw [List.length_map] at fewer
  have inside : taken.length + (getOffboardEmos pool board).length = pool.length := split.symm
  omega

/-- A pool that is large enough has a catalog for every well-formed board. -/
theorem WellFormed.getCatalog {board : Board} (wellFormed : WellFormed board) (sampler : Sampler)
    {pool : List Emo} (seed : Nat) (large : 56 ≤ pool.length)
    (distinct : (pool.map Mtc.Emo.id).Nodup) :
    ∃ catalog, getCatalog sampler pool board seed = .ok catalog ∧
      catalog.length = 5 ∧ (∀ line ∈ catalog, line.length = 7) ∧
      (catalog.flatten.map Mtc.Emo.id).Nodup ∧
      ∀ line ∈ catalog, ∀ emo ∈ line,
        emo ∈ pool ∧ emo.id ∉ board.flatMap BoardEmo.mtcEmoIds := by
  have carried := wellFormed.carried_length
  have offboard := getOffboardEmos_length board distinct
  obtain ⟨catalog, got, lines, sizes⟩ := @getCatalog_of_enough sampler pool board seed (by
      simp only [catalogCount, catalogLineEmoCount, boardEmoMaxCount] at *
      omega)
  have part := getCatalog_subperm got
  refine ⟨catalog, got, lines, sizes, getCatalog_nodup distinct got,
    fun line member emo present => ?_⟩
  have inside := part.subset (List.mem_flatten.mpr ⟨line, member, present⟩)
  obtain ⟨inPool, off⟩ := List.mem_filter.mp inside
  exact ⟨inPool, by simpa using off⟩

/-- Accepted turns lead to well-formed boards, and these have catalogs. -/
theorem playedBoard_wellFormed {board : Board} (played : PlayedBoard board) :
    board.length ≤ 7 ∧
      (∀ baseId, board.countP (fun emo => baseId = emo.baseId && !emo.attributes.isTriple) < 3) ∧
      (∀ emo ∈ board, emo.mtcEmoIds.length ≤ if emo.attributes.isTriple then 3 else 1) ∧
      ∀ (sampler : Sampler) (pool : List Emo) (seed : Nat), 56 ≤ pool.length →
        (pool.map Mtc.Emo.id).Nodup →
        ∃ catalog, getCatalog sampler pool board seed = .ok catalog ∧
          catalog.length = 5 ∧ (∀ line ∈ catalog, line.length = 7) ∧
          (catalog.flatten.map Mtc.Emo.id).Nodup ∧
          ∀ line ∈ catalog, ∀ emo ∈ line,
            emo ∈ pool ∧ emo.id ∉ board.flatMap BoardEmo.mtcEmoIds :=
  have wellFormed := played.wellFormed
  ⟨wellFormed.size, wellFormed.copies, wellFormed.carried, fun sampler _ seed large distinct =>
    wellFormed.getCatalog sampler seed large distinct⟩

/-- A turn is accepted if running it says so. -/
theorem AcceptedTurn.of_run {before after : Board}
    (ops : List PlayerOperation) (pool : List Emo) (fuel grade seed turn : Nat)
    (upgradeCoin : Option Nat)
    (run : (playTurn env fuel before grade upgradeCoin ops pool seed turn 0).value?.any
      fun last => last.shop.generatedIds < idCount && last.shop.board.intoBoard = after) :
    AcceptedTurn env before after := by
  obtain ⟨last, played, met⟩ := Fueled.exists_of_value? run
  simp only [Bool.and_eq_true, decide_eq_true_eq] at met
  exact ⟨⟨before, fuel, grade, upgradeCoin, ops, pool, seed, turn, 0⟩, last, rfl, played,
    by simp only; omega, met.2.symm⟩

/-- In three turns three copies of an emo are bought. -/
theorem playedBoard_wellFormed_triple :
    let triple : BoardEmo := ⟨[36, 35, 34], 0, ⟨4, 6, [], true⟩⟩
    let pool : List Emo := (List.range 56).map fun id => ⟨id, 0⟩
    [triple].length ≤ 7 ∧
      (∀ baseId,
        [triple].countP (fun emo => baseId = emo.baseId && !emo.attributes.isTriple) < 3) ∧
      (∀ emo ∈ [triple], emo.mtcEmoIds.length ≤ if emo.attributes.isTriple then 3 else 1) ∧
      ∃ catalog, getCatalog .first pool [triple] 0 = .ok catalog ∧
        catalog.length = 5 ∧ (∀ line ∈ catalog, line.length = 7) ∧
        (catalog.flatten.map Mtc.Emo.id).Nodup ∧
        ∀ line ∈ catalog, ∀ emo ∈ line,
          emo ∈ pool ∧ emo.id ∉ [triple].flatMap BoardEmo.mtcEmoIds := by
  intro triple pool
  let copy (id : Nat) : BoardEmo := ⟨[id], 0, ⟨2, 3, [], false⟩⟩
  let env : Env :=
    { emoBases := fun id => if id = 0 then some ⟨0, .food, 1, 2, 3, []⟩ else none
      sampler := .first }
  have first : AcceptedTurn env [] [copy 34] :=
    .of_run [.buy 34 0] pool 20 1 0 1 none (by decide +kernel)
  have second : AcceptedTurn env [copy 34] [copy 35, copy 34] :=
    .of_run [.buy 35 0] pool 20 1 0 2 none (by decide +kernel)
  have third : AcceptedTurn env [copy 35, copy 34] [triple] :=
    .of_run [.buy 36 0] pool 20 1 0 3 none (by decide +kernel)
  have played : PlayedBoard [triple] :=
    ((Relation.ReflTransGen.single ⟨env, first⟩).tail ⟨env, second⟩).tail ⟨env, third⟩
  obtain ⟨size, copies, carried, catalogs⟩ := playedBoard_wellFormed played
  exact ⟨size, copies, carried, catalogs .first pool 0 (by decide) (by decide)⟩

end EmojiBattler.Mtc.Shop
