import EmojiBattler.Front.MtcShopBoard
import EmojiBattler.Shop.Conservation
import EmojiBattler.Shop.Moves
import EmojiBattler.Shop.Renaming

/-! # The chain replays what the front recorded

The front builds the board anew for every operation, the chain keeps one board
and runs the recorded operations on it.  After every operation the two boards
differ in the ids of their emos only. -/

namespace EmojiBattler.Front

open EmojiBattler.Mtc
open EmojiBattler.Mtc.Shop (ShopBoard ShopState TurnState Catalog PlayerOperation Fresh Naming
  Renamed KeyedBases openShop idCount applyOperation Selects)

variable {env : Env} {isViewLogsEnabled : Bool}

/-! ## Recorded moves -/

theorem insertIdx_append (done tail : List α) (index : Nat) (value : α) :
    (done ++ tail).insertIdx (done.length + index) value = done ++ tail.insertIdx index value := by
  induction done with
  | nil => simp
  | cons first rest ih =>
      rw [List.cons_append, List.length_cons, Nat.succ_add, List.insertIdx_succ_cons, ih,
        List.cons_append]

/-- Two elements next to each other, and what is before and after them. -/
theorem exists_adjacent {values : List α} {index : Nat} (inside : index + 1 < values.length) :
    ∃ done x y rest, values = done ++ x :: y :: rest ∧ done.length = index := by
  refine ⟨values.take index, values[index], values[index + 1], values.drop (index + 2), ?_, ?_⟩
  · rw [← List.drop_eq_getElem_cons inside, ← List.drop_eq_getElem_cons (by omega),
      List.take_append_drop]
  · rw [List.length_take]
    omega

/-- Taking an element out and putting it back next to where it was swaps two
elements. -/
theorem moveArrayElement_adjacent {values moved : List α} {fromIndex toIndex : Nat}
    (adjacent : toIndex = fromIndex + 1 ∨ fromIndex = toIndex + 1)
    (inside : toIndex < values.length)
    (performed : moveArrayElement values fromIndex toIndex = some moved) :
    swapElements values fromIndex toIndex = .ok moved := by
  simp only [moveArrayElement, Option.bind_eq_bind, Option.bind_eq_some_iff, Option.pure_def,
    Option.some.injEq] at performed
  obtain ⟨removed, found, rfl⟩ := performed
  obtain ⟨bound, rfl⟩ := List.getElem?_eq_some_iff.mp found
  rcases adjacent with rfl | rfl
  · obtain ⟨done, x, y, rest, rfl, rfl⟩ := exists_adjacent inside
    have inserted := insertIdx_append done (y :: rest) 1 x
    simp [swapElements, okOr, List.eraseIdx_append_of_length_le, inserted]
  · obtain ⟨done, x, y, rest, rfl, rfl⟩ := exists_adjacent bound
    have inserted : (done ++ x :: rest).insertIdx done.length y = done ++ y :: x :: rest :=
      insertIdx_append done (x :: rest) 0 y
    simp [swapElements, okOr, List.eraseIdx_append_of_length_le, inserted]

/-- What `recordMove` appends to, and the indexes it records. -/
inductive Recorded (boardLength idx toIdx : Nat) (before after : List PlayerOperation) : Prop where
  | first (indexes : List Nat)
      (swapped : swapElements (List.range boardLength) idx toIdx = .ok indexes)
      (same : after = before ++ [.move indexes])
  | merged (done : List PlayerOperation) (lastIndexes indexes : List Nat)
      (last : before = done ++ [.move lastIndexes])
      (swapped : swapElements lastIndexes idx toIdx = .ok indexes)
      (same : after = done ++ [.move indexes])

theorem recordMove_recorded {boardLength idx toIdx : Nat} {before after : List PlayerOperation}
    (adjacent : toIdx = idx + 1 ∨ idx = toIdx + 1) (inside : toIdx < boardLength)
    (lengths : ∀ done indexes, before = done ++ [.move indexes] → indexes.length = boardLength)
    (performed : recordMove boardLength before idx toIdx = some after) :
    Recorded boardLength idx toIdx before after := by
  unfold recordMove at performed
  split at performed
  · rename_i lastIndexes located
    obtain ⟨done, last⟩ := List.getLast?_eq_some_iff.mp located
    simp only [Option.bind_eq_bind, Option.bind_eq_some_iff, Option.pure_def,
      Option.some.injEq] at performed
    obtain ⟨indexes, moved, rfl⟩ := performed
    have swapped := moveArrayElement_adjacent adjacent
      (by rwa [lengths done lastIndexes last]) moved
    exact .merged done lastIndexes indexes last swapped (by rw [last, List.dropLast_concat])
  · simp only [Option.bind_eq_bind, Option.bind_eq_some_iff, Option.pure_def,
      Option.some.injEq] at performed
    obtain ⟨indexes, moved, rfl⟩ := performed
    exact .first indexes (moveArrayElement_adjacent adjacent (by rwa [List.length_range]) moved)
      rfl

/-! ## Operations of the front -/

/-- The board and the generator as an action leaves them. -/
def Session.finish (before : Session) (shop : ShopState) (shopState : State) : Session where
  mtcState := { before.mtcState with board := shop.board.intoBoard }
  shopState := shopState
  generatedIds := shop.generatedIds

/-- The operations and what they do to a session. -/
inductive Played (env : Env) (fuel preShopSeed : Nat) (before after : Session) :
    Operation → Prop where
  | preShop (shop : ShopState)
      (performed : Mtc.Shop.startShop env fuel preShopSeed
        (openShop before.mtcState.board before.generatedIds) = pure shop)
      (same : after = before.finish shop { before.shopState with
        coin := before.shopState.coin + shop.gottenCoin }) :
      Played env fuel preShopSeed before after .preShop
  | set (index : Nat) (mtcEmo : Mtc.Emo) (shop : ShopState)
      (performed : Mtc.Shop.addEmo env fuel [mtcEmo.id] mtcEmo.baseId false index
        (openShop before.mtcState.board before.generatedIds) = pure shop)
      (same : after = before.finish shop { before.shopState with
        coin := before.shopState.coin + (-emoBuyCoin + shop.gottenCoin)
        playerOperations := before.shopState.playerOperations ++ [.buy mtcEmo.id index] }) :
      Played env fuel preShopSeed before after (.set index mtcEmo)
  | sell (index : Nat) (boardEmo : BoardEmo) (shop : ShopState)
      (found : before.mtcState.board[index]? = some boardEmo)
      (performed : Mtc.Shop.sellEmo env fuel index
        (openShop before.mtcState.board before.generatedIds) = pure shop)
      (same : after = before.finish shop { before.shopState with
        coin := before.shopState.coin + shop.gottenCoin
        soldMtcEmoIds := before.shopState.soldMtcEmoIds ++ boardEmo.mtcEmoIds
        playerOperations := before.shopState.playerOperations ++ [.sell index] }) :
      Played env fuel preShopSeed before after (.sell index)
  | move (index toIdx : Nat) (isRight : Bool) (board : Board)
      (playerOperations : List PlayerOperation)
      (adjacent : toIdx = index + 1 ∨ index = toIdx + 1)
      (inside : toIdx < before.mtcState.board.length)
      (performed : swapElements before.mtcState.board index toIdx = .ok board)
      (recorded : recordMove before.mtcState.board.length before.shopState.playerOperations index
        toIdx = some playerOperations)
      (same : after =
        { mtcState := { before.mtcState with board }
          shopState := { before.shopState with playerOperations }
          generatedIds := before.generatedIds + before.mtcState.board.length }) :
      Played env fuel preShopSeed before after (.move index isRight)

theorem decodeAndEncodeForShop_eq_pure_iff {f : ShopState → Fueled ShopState} {board : Board}
    {generatedIds : Nat} {result : ShopResult} :
    decodeAndEncodeForShop f board generatedIds = pure result ↔
      ∃ shop, f (openShop board generatedIds) = pure shop ∧
        (⟨shop.board.intoBoard, shop.logs, shop.gottenCoin, shop.generatedIds⟩ : ShopResult) =
          result := by
  simp only [decodeAndEncodeForShop, Fueled.bind_eq_pure_iff, Fueled.pure_eq_pure_iff]

/-- A move leads to a neighbour that exists. -/
theorem getToIdx_adjacent {board : Board} {idx toIdx : Nat} {isRight : Bool}
    (target : getToIdx board idx isRight = some toIdx) :
    (toIdx = idx + 1 ∨ idx = toIdx + 1) ∧ toIdx < board.length ∧
      toIdx = if isRight then idx + 1 else idx - 1 := by
  cases isRight with
  | false =>
      simp only [getToIdx, Option.bind_eq_bind, Option.bind_eq_some_iff, Bool.false_eq_true,
        if_false, checkedSub_eq_some_iff] at target ⊢
      obtain ⟨_, found, target⟩ := target
      obtain ⟨bound, _⟩ := List.getElem?_eq_some_iff.mp found
      omega
  | true =>
      simp only [getToIdx, Option.bind_eq_bind, Option.bind_eq_some_iff, if_true,
        Option.pure_def, Option.some.injEq] at target ⊢
      obtain ⟨_, _, _, found, rfl⟩ := target
      obtain ⟨bound, _⟩ := List.getElem?_eq_some_iff.mp found
      exact ⟨.inl rfl, bound, rfl⟩

/-- A move swaps the emo with its neighbour and brings nothing. -/
theorem moveEmo_swaps {board : Board} {emoIndex generatedIds : Nat} {isRight : Bool}
    {shop : ShopState}
    (performed : Mtc.Shop.moveEmo env emoIndex isRight (openShop board generatedIds) = .ok shop) :
    swapElements board emoIndex (if isRight then emoIndex + 1 else emoIndex - 1) =
        .ok shop.board.intoBoard ∧
      shop.gottenCoin = 0 ∧ shop.generatedIds = generatedIds + board.length := by
  simp only [Mtc.Shop.moveEmo, Result.bind_eq_ok_iff, Result.pure_eq_ok_iff] at performed
  obtain ⟨_, _, _, _, _, _, moved, swapped, rfl⟩ := performed
  refine ⟨?_, rfl, by simp [openShop]⟩
  rw [Mtc.Shop.ShopState.addLog_board, openShop] at swapped
  rw [← ShopBoard.intoBoard_fromBoard board generatedIds, ShopBoard.intoBoard,
    Mtc.Shop.swapElements_map, Result.map_eq_ok_iff]
  exact ⟨moved, swapped, rfl⟩

theorem playOperation_played {fuel preShopSeed : Nat} {before after : Session}
    {operation : Operation}
    (performed : playOperation env fuel preShopSeed before operation = some after) :
    Played env fuel preShopSeed before after operation := by
  simp only [playOperation, Option.bind_eq_bind, Option.bind_eq_some_iff, Option.pure_def,
    Option.some.injEq, Fueled.value?_eq_some_iff, finishShopBoardOperation] at performed
  obtain ⟨⟨board, coinDiff, generatedIds⟩, operated, ⟨mtcState, shopState⟩, finished, rfl⟩ := performed
  cases operation with
  | preShop =>
      simp only [MtcShopBoard.operate, startShop, decodeAndEncodeForShop_eq_pure_iff,
        Fueled.bind_eq_pure_iff, Fueled.pure_eq_pure_iff, Prod.mk.injEq] at operated
      obtain ⟨_, ⟨shop, performed, rfl⟩, rfl, rfl, rfl⟩ := operated
      simp only [recordOperation, Option.some.injEq, Prod.mk.injEq] at finished
      obtain ⟨_, rfl, rfl, rfl⟩ := finished
      exact .preShop shop performed rfl
  | set index mtcEmo =>
      simp only [MtcShopBoard.operate, addEmo, decodeAndEncodeForShop_eq_pure_iff,
        Fueled.bind_eq_pure_iff, Fueled.pure_eq_pure_iff, Prod.mk.injEq] at operated
      obtain ⟨_, ⟨shop, performed, rfl⟩, rfl, rfl, rfl⟩ := operated
      simp only [recordOperation, Option.some.injEq, Prod.mk.injEq] at finished
      obtain ⟨_, rfl, rfl, rfl⟩ := finished
      exact .set index mtcEmo shop performed rfl
  | sell index =>
      simp only [MtcShopBoard.operate, sellEmo, decodeAndEncodeForShop_eq_pure_iff,
        Fueled.bind_eq_pure_iff, Fueled.pure_eq_pure_iff, Prod.mk.injEq] at operated
      obtain ⟨_, ⟨shop, performed, rfl⟩, rfl, rfl, rfl⟩ := operated
      simp only [recordOperation, Option.bind_eq_bind, Option.bind_eq_some_iff, Option.pure_def,
        Option.some.injEq, Prod.mk.injEq] at finished
      obtain ⟨_, ⟨boardEmo, found, rfl⟩, rfl, rfl⟩ := finished
      exact .sell index boardEmo shop found performed rfl
  | move index isRight =>
      simp only [MtcShopBoard.operate, moveEmo, decodeAndEncodeForShop_eq_pure_iff,
        Fueled.bind_eq_pure_iff, Fueled.of_eq_pure_iff, Fueled.pure_eq_pure_iff,
        Prod.mk.injEq] at operated
      obtain ⟨_, ⟨shop, performed, rfl⟩, rfl, rfl, rfl⟩ := operated
      simp only [recordOperation, Option.bind_eq_bind, Option.bind_eq_some_iff, Option.pure_def,
        Option.some.injEq, Prod.mk.injEq] at finished
      obtain ⟨_, ⟨toIdx, target, playerOperations, recorded, rfl⟩, rfl, rfl⟩ := finished
      obtain ⟨swapped, gottenCoin, generatedIds⟩ := moveEmo_swaps performed
      obtain ⟨adjacent, inside, rfl⟩ := getToIdx_adjacent target
      refine .move index _ isRight _ _ adjacent inside swapped recorded ?_
      rw [gottenCoin, generatedIds]
      simp

theorem Played.generatedIds_le {fuel preShopSeed : Nat} {before after : Session}
    {operation : Operation} (played : Played env fuel preShopSeed before after operation) :
    before.generatedIds + before.mtcState.board.length ≤ after.generatedIds := by
  cases played with
  | preShop shop performed same =>
      rw [same]
      exact Mtc.Shop.startShop_generatedIds_le performed
  | set index mtcEmo shop performed same =>
      rw [same]
      exact Nat.le_of_lt (Mtc.Shop.addEmo_generatedIds_lt performed)
  | sell index boardEmo shop _ performed same =>
      rw [same]
      exact Mtc.Shop.sellEmo_generatedIds_le performed
  | move _ _ _ _ _ _ _ _ _ same => rw [same]

/-- What the catalog of the front checks before it lets the player select an
emo.  A full board is left to the operation. -/
structure Selectable (emoBases : Emo.Bases) (catalog : Catalog) (session : Session)
    (mtcEmo : Mtc.Emo) : Prop where
  purchasable : (emoBuyCoin : Int) ≤ session.shopState.coin
  unsold : mtcEmo.id ∉ session.shopState.soldMtcEmoIds
  offBoard : ∀ boardEmo ∈ session.mtcState.board, mtcEmo.id ∉ boardEmo.mtcEmoIds
  offered : ∃ line, catalog[0]? = some line ∧ mtcEmo ∈ line
  grade : ∃ base, emoBases mtcEmo.baseId = some base ∧ base.grade ≤ session.mtcState.grade

/-- The pre shop and then other operations, each of which succeeds and leaves
fewer coins than a `u8` can count to. -/
inductive Plays (env : Env) (fuel : Nat) (catalog : Catalog) (preShopSeed : Nat)
    (opening : Session) : List Operation → Session → Prop where
  | preShop {after : Session}
      (performed : playOperation env fuel preShopSeed opening .preShop = some after)
      (below : after.shopState.coin < u8Max) :
      Plays env fuel catalog preShopSeed opening [.preShop] after
  | operation {operations : List Operation} {operation : Operation} {before after : Session}
      (plays : Plays env fuel catalog preShopSeed opening operations before)
      (later : operation ≠ .preShop)
      (selected : ∀ index mtcEmo, operation = .set index mtcEmo →
        Selectable env.emoBases catalog before mtcEmo)
      (performed : playOperation env fuel preShopSeed before operation = some after)
      (below : after.shopState.coin < u8Max) :
      Plays env fuel catalog preShopSeed opening (operations ++ [operation]) after

/-! ## The replay -/

/-- Where the generators started, on both sides, and what the turn is replayed
with. -/
structure Setting where
  fuel : Nat
  catalog : Catalog
  turn : Nat
  opened : TurnState
  frontIds : Nat
  chainIds : Nat

/-- The chain comes to the state of the session by what was recorded. -/
structure Replays (env : Env) (setting : Setting) (session : Session) (state : TurnState) :
    Prop where
  replayed : session.shopState.playerOperations.foldlM
    (applyOperation env setting.fuel setting.catalog setting.turn) setting.opened = pure state
  board : state.shop.board.intoBoard = session.mtcState.board
  coin : (state.coin : Int) = session.shopState.coin
  soldMtcEmoIds : state.soldMtcEmoIds = session.shopState.soldMtcEmoIds
  grade : state.grade = session.mtcState.grade
  upgradeCoin : state.upgradeCoin = session.mtcState.upgradeCoin
  catalogLineIndex : state.catalogLineIndex = 0
  small : state.shop.board.length ≤ u8Max
  fresh : Fresh setting.chainIds state.shop
  chainIds : setting.chainIds ≤ state.shop.generatedIds
  frontIds : setting.frontIds ≤ session.generatedIds
  /-- The front generates at least as many ids. -/
  pace : state.shop.generatedIds + setting.frontIds ≤ session.generatedIds + setting.chainIds
  moves : ∀ done indexes, session.shopState.playerOperations = done ++ [.move indexes] →
    indexes.Perm (List.range state.shop.board.length)

variable {setting : Setting} {session after : Session} {state : TurnState}

theorem Replays.length (replays : Replays env setting session state) :
    session.mtcState.board.length = state.shop.board.length := by
  rw [← replays.board, ShopBoard.intoBoard_length]

/-- The board that the front builds and the one of the chain have the same emos
under other ids. -/
theorem Replays.exists_naming (replays : Replays env setting session state) {limit : Nat}
    (enough : session.generatedIds + session.mtcState.board.length ≤ limit)
    (room : limit ≤ setting.frontIds + idCount) :
    ∃ naming : Naming, naming.limit = limit ∧
      naming.first = session.generatedIds + session.mtcState.board.length ∧
      naming.second = state.shop.generatedIds ∧
      Renamed naming (openShop session.mtcState.board session.generatedIds)
        { state.shop with gottenCoin := 0 } := by
  have pace := replays.pace
  have frontIds := replays.frontIds
  rw [replays.length] at enough ⊢
  obtain ⟨naming, first, second, same, renamed⟩ := Mtc.Shop.exists_naming replays.fresh
    replays.chainIds enough (by omega) (by omega)
  rw [replays.board] at renamed
  exact ⟨naming, same, first, second, renamed⟩

/-- Coins that stay below the largest number are added as they are. -/
theorem saturatingAddU8_coin {coin gottenCoin : Nat} {total : Int}
    (below : ((coin : Int) + gottenCoin) = total) (bound : total < u8Max) :
    ((saturatingAddU8 coin gottenCoin : Nat) : Int) = total := by
  simp only [saturatingAddU8, u8Max] at *
  omega

/-- An action on both sides, as long as the boards stay the same up to their
ids. -/
theorem Replays.acted (replays : Replays env setting session state) {naming : Naming}
    {shop image : ShopState} {operation : PlayerOperation} {next : TurnState}
    {shopState : State}
    (first : naming.first = session.generatedIds + session.mtcState.board.length)
    (second : naming.second = state.shop.generatedIds)
    (renamed : Renamed naming shop image) (small : image.board.length ≤ u8Max)
    (fresh : Fresh setting.chainIds image)
    (applied : applyOperation env setting.fuel setting.catalog setting.turn state operation =
      pure next)
    (still : ∀ indexes, operation ≠ .move indexes)
    (recorded : shopState.playerOperations = session.shopState.playerOperations ++ [operation])
    (nextShop : next.shop = image) (coin : (next.coin : Int) = shopState.coin)
    (sold : next.soldMtcEmoIds = shopState.soldMtcEmoIds)
    (rest : (next.grade, next.upgradeCoin, next.catalogLineIndex) =
      (state.grade, state.upgradeCoin, state.catalogLineIndex)) :
    Replays env setting (session.finish shop shopState) next := by
  obtain ⟨grade, upgradeCoin, catalogLineIndex⟩ :
      next.grade = state.grade ∧ next.upgradeCoin = state.upgradeCoin ∧
        next.catalogLineIndex = state.catalogLineIndex := by
    simpa only [Prod.mk.injEq] using rest
  obtain ⟨count, front, chain⟩ := renamed.generatedIds
  have pace := replays.pace
  have chainIds := replays.chainIds
  have frontIds := replays.frontIds
  rw [← nextShop] at small fresh chain
  refine ⟨?_, ?_, coin, sold, grade.trans replays.grade, upgradeCoin.trans replays.upgradeCoin,
    catalogLineIndex.trans replays.catalogLineIndex, small, fresh, by omega, ?_, ?_, ?_⟩
  · rw [Session.finish, recorded, List.foldlM_append, Fueled.bind_eq_pure_iff]
    refine ⟨state, replays.replayed, ?_⟩
    rw [List.foldlM_cons, Fueled.bind_eq_pure_iff]
    exact ⟨next, applied, rfl⟩
  · rw [nextShop, renamed.board, Mtc.Shop.renamed_intoBoard]
    rfl
  · simp only [Session.finish]
    omega
  · simp only [Session.finish]
    omega
  · intro done indexes same
    rw [Session.finish, recorded] at same
    exact absurd (List.append_inj_right' same rfl) (by simpa using still indexes)

/-- In a line of distinct ids an emo is found by its id. -/
theorem find?_of_distinct {line : List Mtc.Emo} {mtcEmo : Mtc.Emo}
    (distinct : (line.map Mtc.Emo.id).Nodup) (member : mtcEmo ∈ line) :
    line.find? (fun emo => emo.id = mtcEmo.id) = some mtcEmo := by
  cases found : line.find? fun emo => emo.id = mtcEmo.id with
  | none => simpa using List.find?_eq_none.mp found mtcEmo member
  | some other =>
      have same : other.id = mtcEmo.id := by simpa using List.find?_some found
      rw [List.inj_on_of_nodup_map distinct (List.mem_of_find?_eq_some found) member same]

theorem Replays.checkBuy (replays : Replays env setting session state) {mtcEmo : Mtc.Emo}
    (distinct : ∀ line ∈ setting.catalog, (line.map Mtc.Emo.id).Nodup)
    (selectable : Selectable env.emoBases setting.catalog session mtcEmo) :
    ∃ coin base, Mtc.Shop.checkBuy env setting.catalog mtcEmo.id state = .ok (coin, base) ∧
      coin + Mtc.Shop.emoBuyCoin = state.coin ∧ env.emoBases mtcEmo.baseId = some base := by
  obtain ⟨purchasable, unsold, offBoard, ⟨line, first, offered⟩, base, found, grade⟩ := selectable
  rw [← replays.coin] at purchasable
  rw [← replays.soldMtcEmoIds] at unsold
  rw [← replays.board] at offBoard
  rw [← replays.grade] at grade
  have enough : Mtc.Shop.emoBuyCoin ≤ state.coin := by
    exact_mod_cast purchasable
  obtain ⟨coin, paid⟩ := Nat.exists_eq_add_of_le' enough
  have offChainBoard : ∀ boardEmo ∈ state.shop.board, mtcEmo.id ∉ boardEmo.mtcEmoIds :=
    fun emo member => offBoard emo.intoBoardEmo (List.mem_map_of_mem member)
  refine ⟨coin, base, ?_, paid.symm, found⟩
  simp only [Mtc.Shop.checkBuy, Result.bind_eq_ok_iff, ensure_eq_ok_iff, okOr_eq_ok_iff,
    checkedSub_eq_some_iff, Emo.Bases.find_eq_ok_iff, Result.pure_eq_ok_iff, Prod.mk.injEq]
  refine ⟨(), unsold, (), offChainBoard, coin, ⟨enough, by omega⟩, line, ?_, mtcEmo,
    find?_of_distinct (distinct line (List.mem_of_getElem? first)) offered, base, found, (),
    grade, rfl, rfl⟩
  rw [replays.catalogLineIndex, first]

/-- The ids that an action generates on the chain are still new. -/
theorem Replays.image_generatedIds (replays : Replays env setting session state)
    {naming : Naming} {shop image : ShopState}
    (first : naming.first = session.generatedIds + session.mtcState.board.length)
    (second : naming.second = state.shop.generatedIds) (renamed : Renamed naming shop image)
    (room : shop.generatedIds ≤ setting.frontIds + idCount) :
    image.generatedIds ≤ setting.chainIds + idCount := by
  obtain ⟨count, front, chain⟩ := renamed.generatedIds
  have pace := replays.pace
  omega

theorem Replays.set (replays : Replays env setting session state) {index : Nat}
    {mtcEmo : Mtc.Emo} {shop : ShopState} (keyed : KeyedBases env.emoBases)
    (distinct : ∀ line ∈ setting.catalog, (line.map Mtc.Emo.id).Nodup)
    (selectable : Selectable env.emoBases setting.catalog session mtcEmo)
    (performed : Mtc.Shop.addEmo (env.withLogs isViewLogsEnabled) setting.fuel [mtcEmo.id]
      mtcEmo.baseId false index (openShop session.mtcState.board session.generatedIds) = pure shop)
    (below : session.shopState.coin + (-emoBuyCoin + shop.gottenCoin) < u8Max)
    (room : shop.generatedIds ≤ setting.frontIds + idCount) :
    ∃ next, Replays env setting (session.finish shop { session.shopState with
      coin := session.shopState.coin + (-emoBuyCoin + shop.gottenCoin)
      playerOperations := session.shopState.playerOperations ++ [.buy mtcEmo.id index] }) next := by
  obtain ⟨naming, limit, first, second, renamed⟩ := replays.exists_naming
    (Nat.le_of_lt (Mtc.Shop.addEmo_generatedIds_lt performed)) room
  obtain ⟨image, added, renamed⟩ := @Mtc.Shop.addEmo_renamed _ env.isViewLogsEnabled _ _ _ _ _ _
    _ _ _ renamed (Nat.le_of_eq limit.symm) performed
  rw [Mtc.Shop.addEmo_gottenCoin] at added
  obtain ⟨coin, base, checked, paid, found⟩ := replays.checkBuy distinct selectable
  rw [← keyed _ _ found] at added
  have applied : applyOperation env setting.fuel setting.catalog setting.turn state
      (.buy mtcEmo.id index) =
        pure { state with shop := image, coin := saturatingAddU8 coin image.gottenCoin } := by
    simp only [applyOperation, Mtc.Shop.buy, Fueled.bind_eq_pure_iff, Fueled.of_eq_pure_iff,
      Fueled.pure_eq_pure_iff]
    exact ⟨(coin, base), checked, image, added, rfl⟩
  have total := replays.coin
  refine ⟨_, replays.acted first second renamed (Mtc.Shop.addEmo_fits added replays.small)
    (replays.fresh.addEmo replays.chainIds
      (replays.image_generatedIds first second renamed room) added)
    applied (fun _ same => by cases same) rfl rfl ?_ replays.soldMtcEmoIds rfl⟩
  apply saturatingAddU8_coin _ below
  rw [renamed.gottenCoin, ← total, ← paid]
  simp only [Mtc.Shop.emoBuyCoin, emoBuyCoin]
  omega

theorem Replays.sell (replays : Replays env setting session state) {index : Nat}
    {boardEmo : BoardEmo} {shop : ShopState}
    (found : session.mtcState.board[index]? = some boardEmo)
    (performed : Mtc.Shop.sellEmo (env.withLogs isViewLogsEnabled) setting.fuel index
      (openShop session.mtcState.board session.generatedIds) = pure shop)
    (below : session.shopState.coin + shop.gottenCoin < u8Max)
    (room : shop.generatedIds ≤ setting.frontIds + idCount) :
    ∃ next, Replays env setting (session.finish shop { session.shopState with
      coin := session.shopState.coin + shop.gottenCoin
      soldMtcEmoIds := session.shopState.soldMtcEmoIds ++ boardEmo.mtcEmoIds
      playerOperations := session.shopState.playerOperations ++ [.sell index] }) next := by
  obtain ⟨naming, limit, first, second, renamed⟩ := replays.exists_naming
    (Mtc.Shop.sellEmo_generatedIds_le performed) room
  obtain ⟨image, sold, renamed⟩ := @Mtc.Shop.sellEmo_renamed _ env.isViewLogsEnabled _ _ _ _ _ _
    renamed (Nat.le_of_eq limit.symm) performed
  rw [Mtc.Shop.sellEmo_gottenCoin] at sold
  rw [← replays.board, ShopBoard.intoBoard, List.getElem?_map, Option.map_eq_some_iff] at found
  obtain ⟨soldEmo, found, rfl⟩ := found
  have applied : applyOperation env setting.fuel setting.catalog setting.turn state
      (.sell index) = pure { state with
        shop := image
        coin := saturatingAddU8 state.coin image.gottenCoin
        soldMtcEmoIds := state.soldMtcEmoIds ++ soldEmo.mtcEmoIds } := by
    simp only [applyOperation, Mtc.Shop.sell, Fueled.bind_eq_pure_iff, Fueled.of_eq_pure_iff,
      Fueled.pure_eq_pure_iff, ShopBoard.getEmoByIndex_eq_ok_iff]
    exact ⟨soldEmo, found, image, sold, rfl⟩
  refine ⟨_, replays.acted first second renamed (Mtc.Shop.sellEmo_fits sold replays.small)
    (replays.fresh.sellEmo replays.chainIds
      (replays.image_generatedIds first second renamed room) sold)
    applied (fun _ same => by cases same) rfl rfl ?_ (congrArg (· ++ _) replays.soldMtcEmoIds) rfl⟩
  apply saturatingAddU8_coin _ below
  rw [renamed.gottenCoin, replays.coin]

/-- Moves in a row are one permutation of the board before them. -/
theorem Replays.recorded (replays : Replays env setting session state) {idx toIdx : Nat}
    {emos : ShopBoard} {playerOperations : List PlayerOperation}
    (swapped : swapElements state.shop.board idx toIdx = .ok emos)
    (recorded : Recorded state.shop.board.length idx toIdx session.shopState.playerOperations
      playerOperations) :
    playerOperations.foldlM (applyOperation env setting.fuel setting.catalog setting.turn)
        setting.opened = pure { state with shop := { state.shop with board := emos } } ∧
      ∃ done indexes, playerOperations = done ++ [.move indexes] ∧
        indexes.Perm (List.range state.shop.board.length) := by
  cases recorded with
  | first indexes moved same =>
      have permuted := swapElements_perm moved
      obtain ⟨_, again, selects⟩ := (Mtc.Shop.selects_range state.shop.board).swapElements moved
      cases swapped.symm.trans again
      obtain ⟨_, performed, selected⟩ := Mtc.Shop.mov_selects replays.small permuted
      cases selected.unique selects
      refine ⟨?_, _, indexes, same, permuted⟩
      simp only [same, List.foldlM_append, List.foldlM_cons, List.foldlM_nil,
        Fueled.bind_eq_pure_iff, Fueled.pure_eq_pure_iff, applyOperation, Fueled.of_eq_pure_iff]
      exact ⟨state, replays.replayed, _, ⟨emos, performed, rfl⟩, rfl⟩
  | merged done lastIndexes indexes last moved same =>
      have replayed := replays.replayed
      simp only [last, List.foldlM_append, List.foldlM_cons, List.foldlM_nil,
        Fueled.bind_eq_pure_iff, Fueled.pure_eq_pure_iff, applyOperation,
        Fueled.of_eq_pure_iff] at replayed
      obtain ⟨before, reached, _, ⟨board, lastMoved, rfl⟩, rfl⟩ := replayed
      dsimp only at swapped
      have length : board.length = before.shop.board.length :=
        (Mtc.Shop.mov_perm lastMoved).length_eq
      have lastPermuted := replays.moves done lastIndexes last
      have small := replays.small
      dsimp only at lastPermuted small
      rw [length] at lastPermuted small
      have permuted := (swapElements_perm moved).trans lastPermuted
      obtain ⟨_, again, lastSelects⟩ := Mtc.Shop.mov_selects small lastPermuted
      cases lastMoved.symm.trans again
      obtain ⟨_, swappedAgain, selects⟩ := lastSelects.swapElements moved
      cases swapped.symm.trans swappedAgain
      obtain ⟨_, performed, selected⟩ := Mtc.Shop.mov_selects small permuted
      cases selected.unique selects
      refine ⟨?_, done, indexes, same, by rwa [length]⟩
      simp only [same, List.foldlM_append, List.foldlM_cons, List.foldlM_nil,
        Fueled.bind_eq_pure_iff, Fueled.pure_eq_pure_iff, applyOperation, Fueled.of_eq_pure_iff]
      exact ⟨before, reached, _, ⟨emos, performed, rfl⟩, rfl⟩

theorem Replays.move (replays : Replays env setting session state) {idx toIdx : Nat}
    {board : Board} {playerOperations : List PlayerOperation}
    (adjacent : toIdx = idx + 1 ∨ idx = toIdx + 1)
    (inside : toIdx < session.mtcState.board.length)
    (performed : swapElements session.mtcState.board idx toIdx = .ok board)
    (recorded : recordMove session.mtcState.board.length session.shopState.playerOperations idx
      toIdx = some playerOperations) :
    ∃ next, Replays env setting
      { mtcState := { session.mtcState with board }
        shopState := { session.shopState with playerOperations }
        generatedIds := session.generatedIds + session.mtcState.board.length } next := by
  rw [replays.length] at inside recorded
  rw [← replays.board, ShopBoard.intoBoard, Mtc.Shop.swapElements_map,
    Result.map_eq_ok_iff] at performed
  obtain ⟨emos, swapped, rfl⟩ := performed
  have permuted := swapElements_perm swapped
  obtain ⟨replayed, done, indexes, last, arranged⟩ := replays.recorded swapped
    (recordMove_recorded adjacent inside (fun done indexes same => by
      rw [(replays.moves done indexes same).length_eq, List.length_range]) recorded)
  have pace := replays.pace
  have frontIds := replays.frontIds
  refine ⟨_, replayed, rfl, replays.coin, replays.soldMtcEmoIds, replays.grade,
    replays.upgradeCoin, replays.catalogLineIndex, ?_, replays.fresh.perm permuted rfl,
    replays.chainIds, by dsimp only; omega, by dsimp only; omega, ?_⟩
  · rw [permuted.length_eq]
    exact replays.small
  · intro other otherIndexes same
    rw [last] at same
    have one := List.append_inj_right' same rfl
    simp only [List.cons.injEq, Mtc.Shop.PlayerOperation.move.injEq, and_true] at one
    rw [← one, permuted.length_eq]
    exact arranged

/-! ## Turns -/

theorem startTurn_replays {fuel grade seed turn coin frontIds chainIds : Nat} {board : Board}
    {upgradeCoin : Option Nat} {pool : List Mtc.Emo} {catalog : Catalog} {shop : ShopState}
    (small : board.length ≤ u8Max) (paid : Mtc.Shop.getInitialCoinByTurn turn = .ok coin)
    (offered : Mtc.Shop.getCatalog env.sampler pool board seed = .ok catalog)
    (performed : Mtc.Shop.startShop (env.withLogs isViewLogsEnabled) fuel seed
      (openShop board frontIds) = pure shop)
    (below : (coin : Int) + shop.gottenCoin < u8Max)
    (room : shop.generatedIds ≤ frontIds + idCount) :
    ∃ opened, Mtc.Shop.startTurn env fuel board grade upgradeCoin pool seed turn chainIds =
        pure (catalog, opened) ∧
      Replays env ⟨fuel, catalog, turn, opened, frontIds, chainIds⟩
        { mtcState := { turn, board := shop.board.intoBoard, grade, upgradeCoin }
          shopState := { coin := (coin : Int) + shop.gottenCoin }
          generatedIds := shop.generatedIds } opened := by
  have fits : (openShop board chainIds).board.length ≤ u8Max := by
    rwa [openShop, ShopBoard.fromBoard_length]
  have fresh : Fresh chainIds (openShop board chainIds) :=
    Mtc.Shop.fresh_openShop (Nat.le_trans small (by decide))
  have grown := Mtc.Shop.startShop_generatedIds_le performed
  have length : (openShop board chainIds).board.length = board.length :=
    ShopBoard.fromBoard_length board chainIds
  have frontStart : (openShop board frontIds).generatedIds = frontIds + board.length := rfl
  have chainStart : (openShop board chainIds).generatedIds = chainIds + board.length := rfl
  obtain ⟨naming, first, second, limit, renamed⟩ := @Mtc.Shop.exists_naming chainIds frontIds
    shop.generatedIds _ fresh (by omega) (by omega) room (by omega)
  have rebuilt : (openShop board chainIds).board.intoBoard = board :=
    ShopBoard.intoBoard_fromBoard board chainIds
  rw [rebuilt] at renamed
  obtain ⟨image, started, renamed⟩ := @Mtc.Shop.startShop_renamed _ env.isViewLogsEnabled _ _ _ _
    _ _ renamed (Nat.le_of_eq limit.symm) performed
  obtain ⟨count, front, chain⟩ := renamed.generatedIds
  have freshImage : Fresh chainIds image :=
    fresh.returns (by omega) (by omega) (Mtc.Shop.runCalls_returns started)
  let opened : TurnState :=
    { shop := image
      grade
      upgradeCoin
      coin := saturatingAddU8 coin image.gottenCoin
      catalogLineIndex := 0
      nextCatalogLineCounter := 0
      soldMtcEmoIds := [] }
  refine ⟨opened, ?_, rfl, ?_, ?_, rfl, rfl, rfl, rfl, Mtc.Shop.startShop_fits started fits,
    freshImage, ?_, ?_, ?_, ?_⟩
  · simp only [Mtc.Shop.startTurn, Fueled.bind_eq_pure_iff, Fueled.of_eq_pure_iff,
      Fueled.pure_eq_pure_iff]
    exact ⟨coin, paid, catalog, offered, image, started, rfl⟩
  · simp only [opened, renamed.board, Mtc.Shop.renamed_intoBoard]
  · apply saturatingAddU8_coin _ below
    rw [renamed.gottenCoin]
  · simp only [opened]
    omega
  · dsimp only
    omega
  · simp only [opened]
    omega
  · intro done indexes same
    cases done <;> cases same

theorem Replays.played (replays : Replays env setting session state)
    (keyed : KeyedBases env.emoBases)
    (distinct : ∀ line ∈ setting.catalog, (line.map Mtc.Emo.id).Nodup) {preShopSeed : Nat}
    {operation : Operation} (later : operation ≠ .preShop)
    (selected : ∀ index mtcEmo, operation = .set index mtcEmo →
      Selectable env.emoBases setting.catalog session mtcEmo)
    (below : after.shopState.coin < u8Max)
    (room : after.generatedIds ≤ setting.frontIds + idCount)
    (played : Played (env.withLogs isViewLogsEnabled) setting.fuel preShopSeed session after
      operation) :
    ∃ next, Replays env setting after next := by
  cases played with
  | preShop => exact absurd rfl later
  | set index mtcEmo shop performed same =>
      subst same
      exact replays.set keyed distinct (selected index mtcEmo rfl) performed below room
  | sell index boardEmo shop found performed same =>
      subst same
      exact replays.sell found performed below room
  | move index toIdx isRight board playerOperations adjacent inside performed recorded same =>
      subst same
      exact replays.move adjacent inside performed recorded

/-- The session of a shop that was just opened. -/
def openSession (turn : Nat) (board : Board) (grade : Nat) (upgradeCoin : Option Nat)
    (shopState : State) (generatedIds : Nat) : Session where
  mtcState := { turn, board, grade, upgradeCoin }
  shopState := shopState
  generatedIds := generatedIds

theorem Plays.replays {fuel grade seed turn frontIds : Nat} {board : Board}
    {upgradeCoin : Option Nat} {pool : List Mtc.Emo} {catalog : Catalog} {shopState : State}
    {operations : List Operation} {last : Session} (chainIds : Nat)
    (keyed : KeyedBases env.emoBases) (distinct : (pool.map Mtc.Emo.id).Nodup)
    (small : board.length ≤ u8Max)
    (offered : Mtc.Shop.getCatalog env.sampler pool board seed = .ok catalog)
    (initial : buildInitialState turn = .ok shopState)
    (plays : Plays (env.withLogs isViewLogsEnabled) fuel catalog seed
      (openSession turn board grade upgradeCoin shopState frontIds) operations last)
    (room : last.generatedIds ≤ frontIds + idCount) :
    ∃ opened state, Mtc.Shop.startTurn env fuel board grade upgradeCoin pool seed turn chainIds =
        pure (catalog, opened) ∧
      Replays env ⟨fuel, catalog, turn, opened, frontIds, chainIds⟩ last state := by
  induction plays with
  | preShop operated below =>
      cases playOperation_played operated with
      | preShop shop performed same =>
          simp only [buildInitialState, Result.bind_eq_ok_iff, Result.pure_eq_ok_iff] at initial
          obtain ⟨coin, paid, rfl⟩ := initial
          subst same
          obtain ⟨opened, started, replays⟩ := @startTurn_replays _ _ _ grade _ _ _ _ chainIds _
            upgradeCoin _ _ _ small paid offered performed below room
          exact ⟨opened, opened, started, replays⟩
  | operation _ later selected performed below ih =>
      have played := playOperation_played performed
      have grown := played.generatedIds_le
      obtain ⟨opened, state, started, replays⟩ := ih (by omega)
      have lines : ∀ line ∈ catalog, (line.map Mtc.Emo.id).Nodup := fun line member =>
        (Mtc.Shop.getCatalog_nodup distinct offered).sublist
          ((List.sublist_flatten_of_mem member).map _)
      obtain ⟨next, replays⟩ := replays.played keyed lines later selected below room played
      exact ⟨opened, next, started, replays⟩

/-- The chain accepts what the front recorded, and ends with the board and the
coins of the front. -/
theorem replay_agrees_with_front {fuel grade seed turn frontIds : Nat} {board : Board}
    {upgradeCoin : Option Nat} {pool : List Mtc.Emo} {catalog : Catalog} {shopState : State}
    {operations : List Operation} {last : Session} (chainIds : Nat)
    (keyed : KeyedBases env.emoBases) (distinct : (pool.map Mtc.Emo.id).Nodup)
    (small : board.length ≤ u8Max)
    (offered : Mtc.Shop.getCatalog env.sampler pool board seed = .ok catalog)
    (initial : buildInitialState turn = .ok shopState)
    (plays : Plays (env.withLogs isViewLogsEnabled) fuel catalog seed
      (openSession turn board grade upgradeCoin shopState frontIds) operations last)
    (room : last.generatedIds ≤ frontIds + idCount) :
    ∃ opened state, Mtc.Shop.startTurn env fuel board grade upgradeCoin pool seed turn chainIds =
        pure (catalog, opened) ∧
      last.shopState.playerOperations.foldlM (applyOperation env fuel catalog turn) opened =
        pure state ∧
      state.shop.board.intoBoard = last.mtcState.board ∧
      (state.coin : Int) = last.shopState.coin ∧
      (last.shopState.playerOperations.length < 200 →
        Mtc.Shop.verifyPlayerOperationsAndUpdate env fuel board grade upgradeCoin
          last.shopState.playerOperations pool seed turn chainIds =
            pure (last.mtcState.board, last.mtcState.grade, last.mtcState.upgradeCoin)) := by
  obtain ⟨opened, state, started, replays⟩ :=
    plays.replays chainIds keyed distinct small offered initial room
  refine ⟨opened, state, started, replays.replayed, replays.board, replays.coin, fun few => ?_⟩
  simp only [Mtc.Shop.verifyPlayerOperationsAndUpdate, Mtc.Shop.playTurn,
    Fueled.bind_eq_pure_iff, Fueled.of_eq_pure_iff, Fueled.pure_eq_pure_iff, ensure_eq_ok_iff]
  refine ⟨state, ⟨(), few, (catalog, opened), started, replays.replayed⟩, ?_⟩
  rw [replays.board, replays.grade, replays.upgradeCoin]

/-- A triple, a purchase behind it, a move and a sale. -/
theorem replay_agrees_with_front_triple :
    let copy (id : Nat) : BoardEmo := ⟨[id], 0, ⟨2, 3, [], false⟩⟩
    let triple : BoardEmo := ⟨[36, 1, 2], 0, ⟨4, 6, [], true⟩⟩
    let env : Env :=
      { emoBases := fun id => if id = 0 then some ⟨0, .food, 1, 2, 3, []⟩ else none
        sampler := .first }
    let pool : List Mtc.Emo := (List.range 37).map fun id => ⟨id, 0⟩
    let catalog : Catalog :=
      [[36, 35, 34, 33, 32, 31, 30], [29, 28, 27, 26, 25, 24, 23], [22, 21, 20, 19, 18, 17, 16],
        [15, 14, 13, 12, 11, 10, 9], [8, 7, 6, 5, 4, 3, 0]].map fun line =>
          line.map fun id => ⟨id, 0⟩
    let ops : List PlayerOperation := [.buy 36 0, .buy 35 1, .move [1, 0], .sell 0]
    ∃ opened state, Mtc.Shop.startTurn env 20 [copy 1, copy 2] 1 none pool 1 1 0 =
        pure (catalog, opened) ∧
      ops.foldlM (applyOperation env 20 catalog 1) opened = pure state ∧
      state.shop.board.intoBoard = [triple] ∧ (state.coin : Int) = 3 ∧
      (ops.length < 200 → Mtc.Shop.verifyPlayerOperationsAndUpdate env 20 [copy 1, copy 2] 1 none
        ops pool 1 1 0 = pure ([triple], 1, none)) := by
  intro copy triple env pool catalog ops
  have keyed : KeyedBases env.emoBases := fun id base found => by
    dsimp only [env] at found
    split at found
    · cases found
      exact Eq.symm ‹id = 0›
    · cases found
  have offered : Mtc.Shop.getCatalog env.sampler pool [copy 1, copy 2] 1 = .ok catalog := by
    decide
  have selectable : ∀ {session : Session} {id : Nat}, 3 ≤ session.shopState.coin →
      session.shopState.soldMtcEmoIds = [] → session.mtcState.grade = 1 →
      (∀ boardEmo ∈ session.mtcState.board, id ∉ boardEmo.mtcEmoIds) →
      id ∈ [36, 35, 34, 33, 32, 31, 30] →
      Selectable env.emoBases catalog session ⟨id, 0⟩ := by
    intro session id coin sold grade offBoard inLine
    exact ⟨coin, by simp [sold], offBoard, ⟨_, rfl, List.mem_map_of_mem inLine⟩, _, rfl, by
      rw [grade]⟩
  let opening := openSession 1 [copy 1, copy 2] 1 none { coin := 3 } 7
  have opened : Plays (env.withLogs true) 20 catalog 1 opening [.preShop]
      { opening with generatedIds := 9 } :=
    .preShop (by decide +kernel) (by decide)
  have merged : Plays (env.withLogs true) 20 catalog 1 opening [.preShop, .set 0 ⟨36, 0⟩]
      (openSession 1 [triple] 1 none ⟨[], [.buy 36 0], 5⟩ 13) := by
    refine @Plays.operation _ _ _ _ _ [.preShop] _ _ _ opened nofun ?_ (by decide +kernel)
      (by decide)
    rintro _ _ ⟨⟩
    exact selectable (by decide) rfl rfl (by decide) (by decide)
  have bought : Plays (env.withLogs true) 20 catalog 1 opening
      [.preShop, .set 0 ⟨36, 0⟩, .set 1 ⟨35, 0⟩]
      (openSession 1 [triple, copy 35] 1 none ⟨[], [.buy 36 0, .buy 35 1], 2⟩ 15) := by
    refine @Plays.operation _ _ _ _ _ [_, _] _ _ _ merged nofun ?_ (by decide +kernel)
      (by decide)
    rintro _ _ ⟨⟩
    exact selectable (by decide) rfl rfl (by decide) (by decide)
  have moved : Plays (env.withLogs true) 20 catalog 1 opening
      [.preShop, .set 0 ⟨36, 0⟩, .set 1 ⟨35, 0⟩, .move 0 true]
      (openSession 1 [copy 35, triple] 1 none ⟨[], [.buy 36 0, .buy 35 1, .move [1, 0]], 2⟩ 17) :=
    @Plays.operation _ _ _ _ _ [_, _, _] _ _ _ bought nofun (fun _ _ => nofun)
      (by decide +kernel) (by decide)
  have sold : Plays (env.withLogs true) 20 catalog 1 opening
      [.preShop, .set 0 ⟨36, 0⟩, .set 1 ⟨35, 0⟩, .move 0 true, .sell 0]
      (openSession 1 [triple] 1 none ⟨[35], ops, 3⟩ 19) :=
    @Plays.operation _ _ _ _ _ [_, _, _, _] _ _ _ moved nofun (fun _ _ => nofun)
      (by decide +kernel) (by decide)
  exact replay_agrees_with_front 0 keyed (by decide) (by decide) offered rfl sold (by decide)

end EmojiBattler.Front
