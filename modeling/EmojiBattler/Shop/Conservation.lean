import EmojiBattler.Shop.Turn

/-! # The pool emos of a turn

The ids of pool emos enter the board by buying and leave it by selling.
Nothing in between loses or copies one. -/

namespace EmojiBattler.Mtc.Shop

open EmojiBattler.Emo Sampling CallMachine

variable {env : Env}

def carriedIds (board : ShopBoard) : List Nat := board.flatMap ShopBoardEmo.mtcEmoIds

/-- Every id sits on an emo of the base that the pool gives it. -/
def Pooled (pool : List Emo) (board : ShopBoard) : Prop :=
  ∀ emo ∈ board, ∀ id ∈ emo.mtcEmoIds, (⟨id, emo.baseId⟩ : Mtc.Emo) ∈ pool

/-- `Pooled` for a stored board. -/
def PooledBoard (pool : List Emo) (board : Board) : Prop :=
  ∀ emo ∈ board, ∀ id ∈ emo.mtcEmoIds, (⟨id, emo.baseId⟩ : Mtc.Emo) ∈ pool

def KeyedBases (emoBases : Bases) : Prop := ∀ id base, emoBases id = some base → base.id = id

/-- The emos that the operations buy. -/
def boughtMtcEmoIds (ops : List PlayerOperation) : List Nat :=
  ops.filterMap fun
    | .buy mtcEmoId _ => some mtcEmoId
    | _ => none

theorem carriedIds_perm {left right : ShopBoard} (permuted : left.Perm right) :
    (carriedIds left).Perm (carriedIds right) :=
  permuted.flatMap_right _

theorem carriedIds_insertIdx {board : ShopBoard} {index : Nat} (bound : index ≤ board.length)
    (emo : ShopBoardEmo) :
    (carriedIds (board.insertIdx index emo)).Perm (emo.mtcEmoIds ++ carriedIds board) :=
  carriedIds_perm (List.perm_insertIdx emo board bound)

/-- Merging a part of the board into one emo moves its ids. -/
theorem carriedIds_filter (board : ShopBoard) (holds : ShopBoardEmo → Bool) :
    ((board.filter holds).flatMap ShopBoardEmo.mtcEmoIds ++
      carriedIds (board.filter fun emo => !holds emo)).Perm (carriedIds board) := by
  rw [carriedIds, ← List.flatMap_append]
  exact carriedIds_perm (List.filter_append_perm holds board)

theorem carriedIds_intoBoard (board : ShopBoard) :
    board.intoBoard.flatMap BoardEmo.mtcEmoIds = carriedIds board := by
  rw [ShopBoard.intoBoard, List.flatMap_map]
  rfl

theorem carriedIds_fromBoard (board : Board) (generatedIds : Nat) :
    carriedIds (.fromBoard board generatedIds) = board.flatMap BoardEmo.mtcEmoIds := by
  rw [← carriedIds_intoBoard, ShopBoard.intoBoard_fromBoard]

theorem Pooled.intoBoard {pool : List Emo} {board : ShopBoard} (pooled : Pooled pool board) :
    PooledBoard pool board.intoBoard := by
  intro boardEmo member
  obtain ⟨emo, present, rfl⟩ := List.mem_map.mp member
  exact pooled emo present

theorem PooledBoard.fromBoard {pool : List Emo} {board : Board} (pooled : PooledBoard pool board)
    (generatedIds : Nat) : Pooled pool (.fromBoard board generatedIds) := by
  intro emo member
  obtain ⟨⟨boardEmo, number⟩, indexed, rfl⟩ := List.mem_map.mp member
  exact pooled boardEmo (List.mem_of_getElem? (List.mem_zipIdx_iff_le_and_getElem?_sub.mp indexed).2)

theorem Pooled.insertIdx {pool : List Emo} {board : ShopBoard} {index : Nat} {emo : ShopBoardEmo}
    (pooled : Pooled pool board)
    (new : ∀ id ∈ emo.mtcEmoIds, (⟨id, emo.baseId⟩ : Mtc.Emo) ∈ pool) :
    Pooled pool (board.insertIdx index emo) := by
  intro other member
  rcases List.eq_or_mem_of_mem_insertIdx member with rfl | old
  · exact new
  · exact pooled other old

/-! ## A run of abilities -/

/-- A run moves ids only between emos. -/
structure Preserved (pool : List Emo) (ids : List Nat) (state : ShopState) : Prop where
  carried : (carriedIds state.board).Perm ids
  pooled : Pooled pool state.board

theorem Preserved.merge {pool : List Emo} {ids : List Nat} {target : ShopBoardEmo}
    {before after : ShopState} {calls : List (Task env.sampler)}
    (keyed : KeyedBases env.emoBases) (preserved : Preserved pool ids before)
    (merge : Merge env target before after calls) : Preserved pool ids after := by
  obtain ⟨_, ⟨triple, built, _, ⟨index, bound, inserted⟩, _⟩, _⟩ := merge
  obtain ⟨base, found, baseId, _⟩ := built.base
  constructor
  · rw [inserted]
    have moved := carriedIds_filter before.board (isSameBaseNotTriple target.baseId)
    rw [← built.mtcEmoIds] at moved
    exact (carriedIds_insertIdx bound triple).trans (moved.trans preserved.carried)
  · rw [inserted]
    refine Pooled.insertIdx (fun emo member => preserved.pooled emo (List.mem_filter.mp member).1)
      fun id member => ?_
    rw [built.mtcEmoIds] at member
    obtain ⟨source, merged, carries⟩ := List.mem_flatMap.mp member
    obtain ⟨present, same⟩ := List.mem_filter.mp merged
    simp only [isSameBaseNotTriple, Bool.and_eq_true, decide_eq_true_eq] at same
    rw [baseId, keyed _ _ found, same.1]
    exact preserved.pooled source present id carries

theorem Preserved.step {pool : List Emo} {ids : List Nat} {task : Task env.sampler}
    {before after : ShopState} {calls : List (Task env.sampler)}
    (keyed : KeyedBases env.emoBases) (preserved : Preserved pool ids before)
    (performed : perform env task before = .ok (calls, after)) : Preserved pool ids after := by
  cases perform_effect performed with
  | update _ update _ =>
      refine ⟨?_, update.board.forall ?_ preserved.pooled⟩
      · rw [carriedIds, update.board.flatMap_mtcEmoIds]
        exact preserved.carried
      · intro emo changed change holds
        rwa [change.mtcEmoIds_eq, change.baseId_eq]
  | settled _ _ _ _ _ _ _ same => rwa [same]
  | addition base baseId isTriple _ found addition _ =>
      obtain ⟨_, ⟨index, bound, inserted⟩, _⟩ := addition
      constructor
      · rw [inserted]
        exact (carriedIds_insertIdx bound _).trans preserved.carried
      · rw [inserted]
        exact preserved.pooled.insertIdx (List.forall_mem_nil _)
  | merge _ target _ _ _ merge => exact preserved.merge keyed merge

theorem Preserved.returns {pool : List Emo} {ids : List Nat} {stack : List (Task env.sampler)}
    {before after : ShopState} (keyed : KeyedBases env.emoBases)
    (preserved : Preserved pool ids before)
    (returned : Returns (perform env) ⟨stack, before⟩ after) : Preserved pool ids after :=
  Reaches.state_invariant (P := Preserved pool ids)
    (fun holds performed => holds.step keyed performed) returned preserved

/-! ## Turns -/

/-- What the operations so far leave of the initial emos and the bought ones. -/
structure Conserved (pool : List Emo) (initial : List Nat) (ops : List PlayerOperation)
    (state : TurnState) : Prop where
  carried : (carriedIds state.shop.board ++ state.soldMtcEmoIds).Perm
    (initial ++ boughtMtcEmoIds ops)
  distinct : (carriedIds state.shop.board ++ state.soldMtcEmoIds).Nodup
  pooled : Pooled pool state.shop.board

theorem Conserved.same {pool : List Emo} {initial : List Nat} {ops done : List PlayerOperation}
    {before after : TurnState} (conserved : Conserved pool initial done before)
    (bought : boughtMtcEmoIds ops = boughtMtcEmoIds done)
    (permuted : (carriedIds after.shop.board).Perm (carriedIds before.shop.board))
    (pooled : Pooled pool after.shop.board)
    (sold : after.soldMtcEmoIds = before.soldMtcEmoIds) : Conserved pool initial ops after := by
  have moved : (carriedIds after.shop.board ++ after.soldMtcEmoIds).Perm
      (carriedIds before.shop.board ++ before.soldMtcEmoIds) := by
    rw [sold]
    exact permuted.append_right _
  refine ⟨?_, moved.nodup_iff.mpr conserved.distinct, pooled⟩
  rw [bought]
  exact moved.trans conserved.carried

theorem boughtMtcEmoIds_append (first second : List PlayerOperation) :
    boughtMtcEmoIds (first ++ second) = boughtMtcEmoIds first ++ boughtMtcEmoIds second :=
  List.filterMap_append

theorem Conserved.operated {pool : List Emo} {initial : List Nat} {done : List PlayerOperation}
    {operation : PlayerOperation} {catalog : Catalog} {before after : TurnState}
    (keyed : KeyedBases env.emoBases)
    (offers : ∀ line ∈ catalog, ∀ emo ∈ line, emo ∈ pool)
    (conserved : Conserved pool initial done before)
    (operated : Operated env catalog before after operation) :
    Conserved pool initial (done ++ [operation]) after := by
  cases operated with
  | @buy mtcEmoId _ base added started calls _ bought found addition generatedIds returned sold =>
      obtain ⟨line, offered, baseId, inLine, resolved⟩ := bought.offered
      obtain ⟨_, ⟨index, bound, inserted⟩, _⟩ := addition
      have inPool : (⟨mtcEmoId, added.id⟩ : Mtc.Emo) ∈ pool := by
        rw [keyed _ _ found, keyed _ _ resolved]
        exact offers line offered _ inLine
      have startedIds : (carriedIds started.board).Perm
          (mtcEmoId :: carriedIds before.shop.board) := by
        rw [inserted]
        exact carriedIds_insertIdx bound _
      have preserved := Preserved.returns keyed ⟨startedIds, by
        rw [inserted]
        refine conserved.pooled.insertIdx fun id member => ?_
        rw [List.mem_singleton.mp member]
        exact inPool⟩ returned
      have moved : (carriedIds after.shop.board ++ after.soldMtcEmoIds).Perm
          (mtcEmoId :: (carriedIds before.shop.board ++ before.soldMtcEmoIds)) := by
        rw [sold]
        exact preserved.carried.append_right _
      refine ⟨?_, moved.nodup_iff.mpr (List.nodup_cons.mpr ⟨?_, conserved.distinct⟩),
        preserved.pooled⟩
      · rw [boughtMtcEmoIds_append, ← List.append_assoc]
        exact moved.trans ((conserved.carried.cons mtcEmoId).trans
          (List.perm_append_singleton mtcEmoId _).symm)
      · rw [List.mem_append, not_or]
        refine ⟨fun member => ?_, bought.unsold⟩
        obtain ⟨emo, present, carries⟩ := List.mem_flatMap.mp member
        exact bought.offBoard emo present carries
  | @sell index soldEmo started calls _ found removal generatedIds pending returned sold =>
      obtain ⟨bound, indexed⟩ := List.getElem?_eq_some_iff.mp found
      have taken : (soldEmo :: started.board).Perm before.shop.board := by
        rw [removal, ← indexed]
        exact List.getElem_cons_eraseIdx_perm bound
      have preserved := @Preserved.returns _ pool _ _ _ _ keyed
        ⟨.refl (carriedIds started.board), fun emo member =>
          conserved.pooled emo (taken.subset (List.mem_cons_of_mem _ member))⟩ returned
      have moved : (carriedIds after.shop.board ++ after.soldMtcEmoIds).Perm
          (carriedIds before.shop.board ++ before.soldMtcEmoIds) := by
        rw [sold]
        have board : (soldEmo.mtcEmoIds ++ carriedIds started.board).Perm
            (carriedIds before.shop.board) := carriedIds_perm taken
        calc (carriedIds after.shop.board ++ (before.soldMtcEmoIds ++ soldEmo.mtcEmoIds)).Perm
              (carriedIds started.board ++ (soldEmo.mtcEmoIds ++ before.soldMtcEmoIds)) :=
              preserved.carried.append List.perm_append_comm
          _ = (carriedIds started.board ++ soldEmo.mtcEmoIds) ++ before.soldMtcEmoIds :=
              (List.append_assoc ..).symm
          List.Perm _ (carriedIds before.shop.board ++ before.soldMtcEmoIds) :=
              (List.perm_append_comm.trans board).append_right _
      refine ⟨?_, moved.nodup_iff.mpr conserved.distinct, preserved.pooled⟩
      rw [boughtMtcEmoIds_append]
      exact moved.trans (by simpa [boughtMtcEmoIds] using conserved.carried)
  | move permuted _ sold =>
      exact conserved.same (by simp [boughtMtcEmoIds]) (carriedIds_perm permuted)
        (fun emo member => conserved.pooled emo (permuted.subset member)) sold
  | nextCatalogLine shop sold =>
      exact conserved.same (by simp [boughtMtcEmoIds]) (by rw [shop]) (by
        rw [shop]
        exact conserved.pooled) sold
  | upgrade shop sold =>
      exact conserved.same (by simp [boughtMtcEmoIds]) (by rw [shop]) (by
        rw [shop]
        exact conserved.pooled) sold

/-- The emos on the board after an accepted turn and those sold in it are the
initial ones and the bought ones, each once and on its own base. -/
theorem verifyPlayerOperationsAndUpdate_conserves {fuel grade seed turn generatedIds : Nat}
    {board : Board} {upgradeCoin : Option Nat} {ops : List PlayerOperation} {pool : List Emo}
    {result : Board × Nat × Option Nat} (keyed : KeyedBases env.emoBases)
    (distinct : (board.flatMap BoardEmo.mtcEmoIds).Nodup) (pooled : PooledBoard pool board)
    (verified : verifyPlayerOperationsAndUpdate env fuel board grade upgradeCoin ops pool seed turn
      generatedIds = pure result) :
    ∃ last, playTurn env fuel board grade upgradeCoin ops pool seed turn generatedIds =
        pure last ∧
      result.1 = last.shop.board.intoBoard ∧
      (result.1.flatMap BoardEmo.mtcEmoIds ++ last.soldMtcEmoIds).Perm
        (board.flatMap BoardEmo.mtcEmoIds ++ boughtMtcEmoIds ops) ∧
      (result.1.flatMap BoardEmo.mtcEmoIds ++ last.soldMtcEmoIds).Nodup ∧
      (boughtMtcEmoIds ops).Nodup ∧
      PooledBoard pool result.1 := by
  simp only [verifyPlayerOperationsAndUpdate, Fueled.bind_eq_pure_iff, Fueled.pure_eq_pure_iff]
    at verified
  obtain ⟨last, played, rfl⟩ := verified
  obtain ⟨catalog, _, _, conserved⟩ := @TurnInput.play_invariant env
    (fun catalog ops state => (∀ line ∈ catalog, ∀ emo ∈ line, emo ∈ pool) ∧
      Conserved pool (board.flatMap BoardEmo.mtcEmoIds) ops state)
    ⟨board, fuel, grade, upgradeCoin, ops, pool, seed, turn, generatedIds⟩ last
    (fun started => ⟨getCatalog_mem_pool (startTurn_opened started).catalog, by
      have opened := startTurn_opened started
      have preserved := @Preserved.returns _ pool _ _ _ _ keyed
        ⟨.of_eq (carriedIds_fromBoard board generatedIds), pooled.fromBoard generatedIds⟩
        opened.returned
      refine ⟨?_, ?_, preserved.pooled⟩
      · rw [opened.unsold]
        exact preserved.carried.append_right []
      · rw [opened.unsold, List.append_nil]
        exact preserved.carried.nodup_iff.mpr distinct⟩)
    (fun _ holds performed =>
      ⟨holds.1, holds.2.operated keyed holds.1 (applyOperation_operated performed)⟩) played
  refine ⟨last, played, rfl, ?_, ?_, ?_, conserved.pooled.intoBoard⟩
  · rw [carriedIds_intoBoard]
    exact conserved.carried
  · rw [carriedIds_intoBoard]
    exact conserved.distinct
  · exact (List.nodup_append.mp (conserved.carried.nodup_iff.mp conserved.distinct)).2.1

/-- Two copies wait for a third one, which is bought.  The triple is sold after
a fourth copy was bought. -/
theorem verifyPlayerOperationsAndUpdate_conserves_triple :
    let copy (id : Nat) : BoardEmo := ⟨[id], 0, ⟨2, 3, [], false⟩⟩
    let env : Env :=
      { emoBases := fun id => if id = 0 then some ⟨0, .food, 1, 2, 3, []⟩ else none
        sampler := .first }
    let pool : List Emo := (List.range 37).map fun id => ⟨id, 0⟩
    ∃ last, playTurn env 20 [copy 1, copy 2] 1 none [.buy 36 0, .buy 35 1, .sell 0] pool 0 1 0 =
        pure last ∧
      [copy 35] = last.shop.board.intoBoard ∧
      ([35] ++ last.soldMtcEmoIds).Perm [1, 2, 36, 35] ∧
      ([35] ++ last.soldMtcEmoIds).Nodup ∧
      [36, 35].Nodup ∧
      PooledBoard pool [copy 35] :=
  @verifyPlayerOperationsAndUpdate_conserves _ _ _ _ _ _ _ _ _ _ (_, 1, none)
    (fun id base found => by
      dsimp only at found
      split at found
      · cases found
        exact Eq.symm ‹id = 0›
      · cases found)
    (by decide) (by unfold PooledBoard; decide) rfl

end EmojiBattler.Mtc.Shop
