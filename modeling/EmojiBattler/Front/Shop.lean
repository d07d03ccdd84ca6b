import Mathlib.Data.List.Infix
import EmojiBattler.Front.Replay
import EmojiBattler.Front.Upgrade

/-! # The shop of the front

What the player can press in the shop, and that the chain accepts the turn
that was recorded meanwhile.  The front pays more for upgrades than the chain
asks for, so that the chain has at least the coins of the front. -/

namespace EmojiBattler.Front

open EmojiBattler.Mtc
open EmojiBattler.Mtc.Shop (ShopBoard ShopState TurnState Catalog PlayerOperation KeyedBases
  idCount applyOperation getUpgradeCoin)

def boardSize : Nat := 7

def nextCatalogLineCoin : Nat := 1

def mulliganCount : Nat := 2

/-- The states of the shop and of the board in it. -/
structure ShopSession where
  session : Session
  currentCatalogLineIndex : Nat
  nextCatalogLineCounter : Nat
  selectedCatalogLineEmo : Option Mtc.Emo
deriving DecidableEq

/-- The buttons of the shop, save the one that ends the turn. -/
inductive Button where
  | buy (mtcEmo : Mtc.Emo)
  | unselect
  | set (index : Nat)
  | sell (index : Nat)
  | move (index : Nat) (isRight : Bool)
  | nextCatalogLine
  | upgrade
deriving DecidableEq, Repr

def isMulliganAvailable (turn nextCatalogLineCounter : Nat) : Bool :=
  turn = 1 && nextCatalogLineCounter < mulliganCount

def isNextCatalogLineAvailable (catalogLineCount currentCatalogLineIndex : Nat) : Bool :=
  ((currentCatalogLineIndex : Int) ≤ (catalogLineCount : Int) - 2)

/-- The ids on the board and the sold ones, which the catalog does not offer.
Ids that are listed twice stay so. -/
def unavailableToBuyMtcEmoIds (session : Session) : List Nat :=
  session.mtcState.board.flatMap BoardEmo.mtcEmoIds ++ session.shopState.soldMtcEmoIds

variable (env : Env) (fuel : Nat) (catalog : Catalog) (preShopSeed : Nat)

/-- `selectEmoToBuy`, if the button is there and enabled. -/
def selectEmoToBuy (shop : ShopSession) (mtcEmo : Mtc.Emo) : Option ShopSession := do
  let currentCatalogLine ← catalog[shop.currentCatalogLineIndex]?
  let base ← env.emoBases mtcEmo.baseId
  guard (mtcEmo ∈ currentCatalogLine ∧ shop.session.mtcState.board.length < boardSize ∧
    (emoBuyCoin : Int) ≤ shop.session.shopState.coin ∧
    mtcEmo.id ∉ unavailableToBuyMtcEmoIds shop.session ∧
    base.grade ≤ shop.session.mtcState.grade)
  return { shop with selectedCatalogLineEmo := some mtcEmo }

/-- `nextCatalogLineFn`.  `none` where the front has none. -/
def nextCatalogLineFn (shop : ShopSession) : Option ShopSession := do
  let shopState := shop.session.shopState
  let isM := isMulliganAvailable shop.session.mtcState.turn shop.nextCatalogLineCounter
  guard (((nextCatalogLineCoin : Int) ≤ shopState.coin ∨ isM) ∧
    isNextCatalogLineAvailable catalog.length shop.currentCatalogLineIndex)
  return {
    session := { shop.session with shopState := { shopState with
      coin := if isM then shopState.coin else shopState.coin - nextCatalogLineCoin
      playerOperations := shopState.playerOperations ++ [.nextCatalogLine] } }
    currentCatalogLineIndex := shop.currentCatalogLineIndex + 1
    nextCatalogLineCounter := shop.nextCatalogLineCounter + 1
    selectedCatalogLineEmo := none }

/-- What a press leads to.  `none` if the button is not there or disabled, or
if something throws.  While an emo is selected the buttons of the board set
it; otherwise they move and sell. -/
def press (shop : ShopSession) : Button → Option ShopSession
  | .buy mtcEmo => selectEmoToBuy env catalog shop mtcEmo
  | .unselect => do
      let _ ← shop.selectedCatalogLineEmo
      return { shop with selectedCatalogLineEmo := none }
  | .set index => do
      let mtcEmo ← shop.selectedCatalogLineEmo
      guard (index ≤ shop.session.mtcState.board.length)
      let session ← playOperation env fuel preShopSeed shop.session (.set index mtcEmo)
      return { shop with session, selectedCatalogLineEmo := none }
  | .sell index => do
      guard (shop.selectedCatalogLineEmo = none ∧ index < shop.session.mtcState.board.length)
      let session ← playOperation env fuel preShopSeed shop.session (.sell index)
      return { shop with session }
  | .move index isRight => do
      guard (shop.selectedCatalogLineEmo = none ∧ index < shop.session.mtcState.board.length ∧
        if isRight then index + 1 ≠ shop.session.mtcState.board.length else index ≠ 0)
      let session ← playOperation env fuel preShopSeed shop.session (.move index isRight)
      return { shop with session }
  | .nextCatalogLine => nextCatalogLineFn catalog shop
  | .upgrade => do
      let upgradeCoin ← shop.session.mtcState.upgradeCoin
      guard ((upgradeCoin : Int) ≤ shop.session.shopState.coin)
      let (mtcState, shopState) ← upgradeFn shop.session.mtcState shop.session.shopState
      return { shop with session := { shop.session with mtcState, shopState } }

/-- The shop after the pre shop. -/
def enterShop (mtcState : MtcState) (generatedIds : Nat) : Option ShopSession := do
  let shopState ← (buildInitialState mtcState.turn).toOption
  let session ← playOperation env fuel preShopSeed { mtcState, shopState, generatedIds } .preShop
  return {
    session
    currentCatalogLineIndex := 0
    nextCatalogLineCounter := 0
    selectedCatalogLineEmo := none }

/-- The shop after the buttons were pressed. -/
def playShop (pool : List Mtc.Emo) (mtcState : MtcState) (generatedIds : Nat)
    (buttons : List Button) : Option ShopSession := do
  let catalog ← (Mtc.Shop.getCatalog env.sampler pool mtcState.board preShopSeed).toOption
  let entered ← enterShop env fuel preShopSeed mtcState generatedIds
  buttons.foldlM (press env fuel catalog preShopSeed) entered

variable {env fuel catalog preShopSeed}

/-! ## Chains that are ahead -/

/-- The chain has the coins of the second state at least, and its catalog
starts so many lines earlier. -/
structure Ahead (catalogLineIndex : Nat) (state rich : TurnState) : Prop where
  shop : rich.shop = state.shop
  grade : rich.grade = state.grade
  soldMtcEmoIds : rich.soldMtcEmoIds = state.soldMtcEmoIds
  coin : state.coin ≤ rich.coin
  line : rich.catalogLineIndex = catalogLineIndex + state.catalogLineIndex

/-- What an operation on the board leaves alone. -/
structure SamePrices (before after : TurnState) : Prop where
  upgradeCoin : after.upgradeCoin = before.upgradeCoin
  nextCatalogLineCounter : after.nextCatalogLineCounter = before.nextCatalogLineCounter

def IsBoardOperation : PlayerOperation → Prop
  | .buy _ _ | .sell _ | .move _ => True
  | .nextCatalogLine | .upgrade => False

theorem saturatingAddU8_mono {a b c d : Nat} (left : a ≤ b) (right : c ≤ d) :
    saturatingAddU8 a c ≤ saturatingAddU8 b d := by
  unfold saturatingAddU8
  omega

theorem checkedSub_mono {coin rich price left : Nat} (le : coin ≤ rich)
    (paid : checkedSub coin price = some left) :
    ∃ more, checkedSub rich price = some more ∧ left ≤ more := by
  rw [checkedSub_eq_some_iff] at paid
  exact ⟨rich - price, checkedSub_eq_some_iff.mpr ⟨by omega, rfl⟩, by omega⟩

section Ahead

variable {catalogLineIndex turn : Nat} {state rich after : TurnState}

theorem Ahead.checkBuy (ahead : Ahead catalogLineIndex state rich) {mtcEmoId coin : Nat}
    {base : Emo.Base}
    (checked : Mtc.Shop.checkBuy env (catalog.drop catalogLineIndex) mtcEmoId state =
      .ok (coin, base)) :
    ∃ more, Mtc.Shop.checkBuy env catalog mtcEmoId rich = .ok (more, base) ∧ coin ≤ more := by
  simp only [Mtc.Shop.checkBuy, Result.bind_eq_ok_iff, ensure_eq_ok_iff, okOr_eq_ok_iff,
    Emo.Bases.find_eq_ok_iff, Result.pure_eq_ok_iff, Prod.mk.injEq, List.getElem?_drop]
    at checked ⊢
  obtain ⟨_, unsold, _, offBoard, left, paid, line, current, mtcEmo, listed, _, found, _, grade,
    rfl, rfl⟩ := checked
  obtain ⟨more, paidMore, le⟩ := checkedSub_mono ahead.coin paid
  rw [← ahead.soldMtcEmoIds] at unsold
  rw [← ahead.shop] at offBoard
  rw [← ahead.line] at current
  rw [← ahead.grade] at grade
  exact ⟨more, ⟨(), unsold, (), offBoard, more, paidMore, line, current, mtcEmo, listed, _, found,
    (), grade, rfl, rfl⟩, le⟩

/-- Operations on the board succeed with more coins as well. -/
theorem Ahead.applyOperation (ahead : Ahead catalogLineIndex state rich)
    {operation : PlayerOperation} (onBoard : IsBoardOperation operation)
    (performed : applyOperation env fuel (catalog.drop catalogLineIndex) turn state operation =
      pure after) :
    ∃ richAfter, Mtc.Shop.applyOperation env fuel catalog turn rich operation = pure richAfter ∧
      Ahead catalogLineIndex after richAfter ∧ SamePrices rich richAfter := by
  cases operation with
  | buy mtcEmoId index =>
      simp only [Mtc.Shop.applyOperation, Mtc.Shop.buy, Fueled.bind_eq_pure_iff,
        Fueled.of_eq_pure_iff, Fueled.pure_eq_pure_iff] at performed ⊢
      obtain ⟨⟨coin, base⟩, checked, shop, added, rfl⟩ := performed
      obtain ⟨more, checkedMore, le⟩ := ahead.checkBuy checked
      rw [← ahead.shop] at added
      exact ⟨_, ⟨(more, base), checkedMore, shop, added, rfl⟩,
        ⟨rfl, ahead.grade, ahead.soldMtcEmoIds, saturatingAddU8_mono le le_rfl, ahead.line⟩,
        rfl, rfl⟩
  | sell index =>
      simp only [Mtc.Shop.applyOperation, Mtc.Shop.sell, Fueled.bind_eq_pure_iff,
        Fueled.of_eq_pure_iff, Fueled.pure_eq_pure_iff] at performed ⊢
      obtain ⟨soldEmo, found, shop, sold, rfl⟩ := performed
      rw [← ahead.shop] at found sold
      exact ⟨_, ⟨soldEmo, found, shop, sold, rfl⟩,
        ⟨rfl, ahead.grade, congrArg (· ++ _) ahead.soldMtcEmoIds,
          saturatingAddU8_mono ahead.coin le_rfl, ahead.line⟩, rfl, rfl⟩
  | move indexes =>
      simp only [Mtc.Shop.applyOperation, Fueled.bind_eq_pure_iff, Fueled.of_eq_pure_iff,
        Fueled.pure_eq_pure_iff] at performed ⊢
      obtain ⟨board, moved, rfl⟩ := performed
      have shop := ahead.shop
      rw [← shop] at moved
      refine ⟨_, ⟨board, moved, rfl⟩, ⟨?_, ahead.grade, ahead.soldMtcEmoIds, ahead.coin,
        ahead.line⟩, rfl, rfl⟩
      rw [shop]
  | nextCatalogLine => exact onBoard.elim
  | upgrade => exact onBoard.elim

theorem Ahead.foldlM (ahead : Ahead catalogLineIndex state rich) {ops : List PlayerOperation}
    (onBoard : ∀ operation ∈ ops, IsBoardOperation operation)
    (performed : ops.foldlM
      (Mtc.Shop.applyOperation env fuel (catalog.drop catalogLineIndex) turn) state = pure after) :
    ∃ richAfter, ops.foldlM (Mtc.Shop.applyOperation env fuel catalog turn) rich =
        pure richAfter ∧
      Ahead catalogLineIndex after richAfter ∧ SamePrices rich richAfter := by
  induction ops generalizing state rich with
  | nil =>
      rw [List.foldlM_nil, Fueled.pure_eq_pure_iff] at performed
      subst performed
      exact ⟨rich, rfl, ahead, rfl, rfl⟩
  | cons operation rest ih =>
      rw [List.foldlM_cons, Fueled.bind_eq_pure_iff] at performed
      obtain ⟨middle, first, performed⟩ := performed
      rw [List.forall_mem_cons] at onBoard
      obtain ⟨richMiddle, richFirst, aheadMiddle, same⟩ := ahead.applyOperation onBoard.1 first
      obtain ⟨richAfter, richRest, aheadAfter, sameAfter⟩ := ih aheadMiddle onBoard.2 performed
      refine ⟨richAfter, ?_, aheadAfter, sameAfter.upgradeCoin.trans same.upgradeCoin,
        sameAfter.nextCatalogLineCounter.trans same.nextCatalogLineCounter⟩
      rw [List.foldlM_cons, Fueled.bind_eq_pure_iff]
      exact ⟨richMiddle, richFirst, richRest⟩

end Ahead

/-! ## What is recorded since a line or an upgrade -/

def Session.recording (session : Session) (playerOperations : List PlayerOperation) : Session :=
  { session with shopState := { session.shopState with playerOperations } }

/-- The operations do not end with a move. -/
def Unmoved (operations : List PlayerOperation) : Prop :=
  ∀ earlier indexes, operations ≠ earlier ++ [.move indexes]

theorem Unmoved.concat {done : List PlayerOperation} {operation : PlayerOperation}
    (other : ∀ indexes, operation ≠ .move indexes) : Unmoved (done ++ [operation]) := by
  intro earlier indexes same
  have last := List.append_inj_right' same rfl
  exact other indexes (List.cons.inj last).1

/-- A move is merged with the last operation, which is one of those recorded
since. -/
theorem recordMove_append {boardLength idx toIdx : Nat}
    {done recorded after : List PlayerOperation} (unmoved : Unmoved done)
    (onBoard : ∀ operation ∈ recorded, IsBoardOperation operation)
    (performed : recordMove boardLength (done ++ recorded) idx toIdx = some after) :
    ∃ rest, after = done ++ rest ∧ recordMove boardLength recorded idx toIdx = some rest ∧
      ∀ operation ∈ rest, IsBoardOperation operation := by
  have concat : ∀ {operations : List PlayerOperation} (indexes : List Nat),
      (∀ operation ∈ operations, IsBoardOperation operation) →
      ∀ operation ∈ operations ++ [.move indexes], IsBoardOperation operation := by
    intro operations indexes plain operation member
    rcases List.mem_append.mp member with old | new
    · exact plain operation old
    · rw [List.mem_singleton.mp new]
      trivial
  rcases List.eq_nil_or_concat' recorded with rfl | ⟨earlier, last, rfl⟩
  · rw [List.append_nil] at performed
    unfold recordMove at performed
    split at performed
    · rename_i lastIndexes located
      obtain ⟨start, same⟩ := List.getLast?_eq_some_iff.mp located
      exact absurd same (unmoved start lastIndexes)
    · simp only [Option.bind_eq_bind, Option.bind_eq_some_iff, Option.pure_def,
        Option.some.injEq] at performed
      obtain ⟨indexes, moved, rfl⟩ := performed
      refine ⟨[.move indexes], rfl, ?_, concat indexes (List.forall_mem_nil _)⟩
      simp only [recordMove, List.getLast?_nil, moved, Option.bind_eq_bind, Option.bind_some,
        Option.pure_def, List.nil_append]
  · unfold recordMove at performed ⊢
    rw [← List.append_assoc, List.getLast?_concat] at performed
    rw [List.getLast?_concat]
    split at performed
    · rename_i lastIndexes same
      simp only [Option.bind_eq_bind, Option.bind_eq_some_iff, Option.pure_def,
        Option.some.injEq, List.dropLast_concat] at performed ⊢
      obtain ⟨indexes, moved, rfl⟩ := performed
      cases same
      refine ⟨earlier ++ [.move indexes], List.append_assoc _ _ _, ⟨indexes, moved, rfl⟩,
        concat indexes fun operation member => ?_⟩
      exact onBoard operation (List.mem_append_left _ member)
    · simp only [Option.bind_eq_bind, Option.bind_eq_some_iff, Option.pure_def,
        Option.some.injEq] at performed
      obtain ⟨indexes, moved, rfl⟩ := performed
      refine ⟨earlier ++ [last] ++ [.move indexes], by simp, ?_, concat indexes onBoard⟩
      rw [moved]
      rfl

/-- What was recorded before the last line or upgrade has no influence on an
operation. -/
theorem Played.recorded {before after : Session} {operation : Operation}
    {done recorded : List PlayerOperation} (later : operation ≠ .preShop)
    (unmoved : Unmoved done) (onBoard : ∀ operation ∈ recorded, IsBoardOperation operation)
    (whole : before.shopState.playerOperations = done ++ recorded)
    (played : Played env fuel preShopSeed before after operation) :
    ∃ rest, after.shopState.playerOperations = done ++ rest ∧
      Played env fuel preShopSeed (before.recording recorded) (after.recording rest) operation ∧
      (∀ operation ∈ rest, IsBoardOperation operation) := by
  have concat : ∀ operation : PlayerOperation, IsBoardOperation operation →
      ∀ other ∈ recorded ++ [operation], IsBoardOperation other := by
    intro operation plain other member
    rcases List.mem_append.mp member with old | new
    · exact onBoard other old
    · rwa [List.mem_singleton.mp new]
  cases played with
  | preShop => exact absurd rfl later
  | set index mtcEmo shop performed same =>
      subst same
      refine ⟨recorded ++ [.buy mtcEmo.id index], ?_, .set index mtcEmo shop performed rfl,
        concat (.buy mtcEmo.id index) trivial⟩
      simp only [Session.finish, whole, List.append_assoc]
  | sell index boardEmo shop found performed same =>
      subst same
      refine ⟨recorded ++ [.sell index], ?_, .sell index boardEmo shop found performed rfl,
        concat (.sell index) trivial⟩
      simp only [Session.finish, whole, List.append_assoc]
  | move index toIdx isRight board playerOperations adjacent inside performed appended same =>
      subst same
      rw [whole] at appended
      obtain ⟨rest, split, appended, plain⟩ := recordMove_append unmoved onBoard appended
      exact ⟨rest, split,
        .move index toIdx isRight board rest adjacent inside performed appended rfl, plain⟩

/-- An operation on the board changes nothing else of the match. -/
theorem Played.mtcState {before after : Session} {operation : Operation}
    (played : Played env fuel preShopSeed before after operation) :
    after.mtcState = { before.mtcState with board := after.mtcState.board } := by
  cases played with
  | preShop _ _ same | set _ _ _ _ same | sell _ _ _ _ _ same | move _ _ _ _ _ _ _ _ _ same =>
      subst same
      rfl

/-! ## The chain behind the shop -/

/-- The price that the front shows can be paid on the chain, which has not
reached the last grade. -/
def Affords (grade : Nat) (chainPrice price : Option Nat) : Prop :=
  ∀ coin, price = some coin →
    grade < Mtc.Shop.lastGrade ∧ ∃ paid, chainPrice = some paid ∧ paid ≤ coin

/-- The chain replays what was recorded before the last line or upgrade up to
`started`.  From there it is ahead of a turn on the lines that are left, which
opens as `mirrored` and replays what was recorded since. -/
structure Keeps (env : Env) (setting : Setting) (shop : ShopSession)
    (done recorded : List PlayerOperation) (started mirrored mirror : TurnState) : Prop where
  whole : shop.session.shopState.playerOperations = done ++ recorded
  unmoved : Unmoved done
  onBoard : ∀ operation ∈ recorded, IsBoardOperation operation
  reached : done.foldlM (applyOperation env setting.fuel setting.catalog setting.turn)
    setting.opened = pure started
  ahead : Ahead shop.currentCatalogLineIndex mirrored started
  replays : Replays env
    { setting with catalog := setting.catalog.drop shop.currentCatalogLineIndex, opened := mirrored }
    (shop.session.recording recorded) mirror
  turn : shop.session.mtcState.turn = setting.turn
  counter : started.nextCatalogLineCounter = shop.nextCatalogLineCounter
  counted : shop.nextCatalogLineCounter = shop.currentCatalogLineIndex
  price : Affords shop.session.mtcState.grade started.upgradeCoin
    shop.session.mtcState.upgradeCoin
  selected : ∀ mtcEmo, shop.selectedCatalogLineEmo = some mtcEmo →
    Selectable env.emoBases (setting.catalog.drop shop.currentCatalogLineIndex) shop.session mtcEmo

/-- The chain comes to a state from which it accepts what follows. -/
def Follows (env : Env) (setting : Setting) (shop : ShopSession) : Prop :=
  ∃ done recorded started mirrored mirror,
    Keeps env setting shop done recorded started mirrored mirror

variable {isViewLogsEnabled : Bool} {setting : Setting} {shop after : ShopSession}

/-- The state of the chain after everything that was recorded. -/
theorem Keeps.exists_replayed {done recorded : List PlayerOperation}
    {started mirrored mirror : TurnState}
    (keeps : Keeps env setting shop done recorded started mirrored mirror) :
    ∃ state, shop.session.shopState.playerOperations.foldlM
        (applyOperation env setting.fuel setting.catalog setting.turn) setting.opened =
          pure state ∧
      Ahead shop.currentCatalogLineIndex mirror state ∧ SamePrices started state := by
  obtain ⟨state, replayed, ahead, same⟩ := keeps.ahead.foldlM keeps.onBoard keeps.replays.replayed
  refine ⟨state, ?_, ahead, same⟩
  rw [keeps.whole, List.foldlM_append, Fueled.bind_eq_pure_iff]
  exact ⟨started, keeps.reached, replayed⟩

/-- A state that replays a session also opens one with another catalog, price
and grade, and with other coins. -/
theorem Replays.restart {session : Session} {state : TurnState}
    (replays : Replays env setting session state) (catalog : Catalog) (mtcState : MtcState)
    (shopState : State) (coin : Nat) (board : mtcState.board = session.mtcState.board)
    (sold : shopState.soldMtcEmoIds = session.shopState.soldMtcEmoIds)
    (paid : (coin : Int) = shopState.coin) (none : shopState.playerOperations = []) :
    let opened : TurnState :=
      { state with grade := mtcState.grade, upgradeCoin := mtcState.upgradeCoin, coin }
    Replays env { setting with catalog, opened } { session with mtcState, shopState } opened where
  replayed := by
    dsimp only
    rw [none]
    rfl
  board := replays.board.trans board.symm
  coin := paid
  soldMtcEmoIds := replays.soldMtcEmoIds.trans sold.symm
  grade := rfl
  upgradeCoin := rfl
  catalogLineIndex := replays.catalogLineIndex
  small := replays.small
  fresh := replays.fresh
  chainIds := replays.chainIds
  frontIds := replays.frontIds
  pace := replays.pace
  moves done indexes same := by
    rw [none] at same
    cases done <;> cases same

/-- An operation on the board. -/
theorem Follows.operation (follows : Follows env setting shop) (keyed : KeyedBases env.emoBases)
    (distinct : ∀ line ∈ setting.catalog, (line.map Mtc.Emo.id).Nodup) {operation : Operation}
    {session : Session} (later : operation ≠ .preShop)
    (selected : ∀ index mtcEmo, operation = .set index mtcEmo →
      shop.selectedCatalogLineEmo = some mtcEmo)
    (performed : playOperation (env.withLogs isViewLogsEnabled) setting.fuel preShopSeed
      shop.session operation = some session)
    (below : session.shopState.coin < u8Max)
    (room : session.generatedIds ≤ setting.frontIds + idCount) :
    Follows env setting { shop with session, selectedCatalogLineEmo := none } := by
  obtain ⟨done, recorded, started, mirrored, mirror, keeps⟩ := follows
  have played := playOperation_played performed
  obtain ⟨rest, whole, playedSince, onBoard⟩ :=
    played.recorded later keeps.unmoved keeps.onBoard keeps.whole
  have lines : ∀ line ∈ setting.catalog.drop shop.currentCatalogLineIndex,
      (line.map Mtc.Emo.id).Nodup := fun line member => distinct line (List.mem_of_mem_drop member)
  have belowSince : (session.recording rest).shopState.coin < u8Max := below
  have roomSince : (session.recording rest).generatedIds ≤ setting.frontIds + idCount := room
  obtain ⟨next, replays⟩ := keeps.replays.played keyed lines later
    (fun index mtcEmo same =>
      have selectable := keeps.selected mtcEmo (selected index mtcEmo same)
      ⟨selectable.purchasable, selectable.unsold, selectable.offBoard, selectable.offered,
        selectable.grade⟩) belowSince roomSince playedSince
  have same := played.mtcState
  refine ⟨done, rest, started, mirrored, next, whole, keeps.unmoved, onBoard, keeps.reached,
    keeps.ahead, replays, ?_, keeps.counter, keeps.counted, ?_, fun _ none => by cases none⟩
  · rw [same]
    exact keeps.turn
  · rw [same]
    exact keeps.price

theorem payNextCatalogLine_of_front {turn nextCatalogLineCounter coin chainCoin : Nat}
    {frontCoin : Int} (same : (coin : Int) = frontCoin) (le : coin ≤ chainCoin)
    (afford : (nextCatalogLineCoin : Int) ≤ frontCoin ∨
      isMulliganAvailable turn nextCatalogLineCounter) :
    ∃ left leftCoin, Mtc.Shop.payNextCatalogLine turn nextCatalogLineCounter chainCoin = .ok left ∧
      ((leftCoin : Nat) : Int) = (if isMulliganAvailable turn nextCatalogLineCounter then frontCoin
        else frontCoin - nextCatalogLineCoin) ∧ leftCoin ≤ left := by
  unfold Mtc.Shop.payNextCatalogLine
  have mulligan : isMulliganAvailable turn nextCatalogLineCounter ↔
      turn = 1 ∧ nextCatalogLineCounter < 2 := by
    rw [isMulliganAvailable, Bool.and_eq_true, decide_eq_true_eq, decide_eq_true_eq, mulliganCount]
  by_cases free : isMulliganAvailable turn nextCatalogLineCounter
  · have first := mulligan.mp free
    rw [if_pos free, if_neg (by unfold Mtc.Shop.mulliganCount; omega)]
    exact ⟨chainCoin, coin, rfl, same, le⟩
  · have enough : (1 : Int) ≤ frontCoin := afford.resolve_right free
    rw [if_neg free]
    have left : ((coin - 1 : Nat) : Int) = frontCoin - nextCatalogLineCoin := by
      unfold nextCatalogLineCoin
      omega
    split
    · have paid : checkedSub chainCoin Mtc.Shop.nextCatalogLineCoin = some (chainCoin - 1) :=
        checkedSub_eq_some_iff.mpr ⟨by unfold Mtc.Shop.nextCatalogLineCoin; omega, rfl⟩
      exact ⟨chainCoin - 1, coin - 1, by rw [paid]; rfl, left, by omega⟩
    · exact ⟨chainCoin, coin - 1, rfl, left, by omega⟩

/-- A line that the front can pay can be paid on the chain. -/
theorem Follows.nextCatalogLine (follows : Follows env setting shop)
    (few : setting.catalog.length ≤ u8Max)
    (pressed : nextCatalogLineFn setting.catalog shop = some after) :
    Follows env setting after := by
  obtain ⟨done, recorded, started, mirrored, mirror, keeps⟩ := follows
  obtain ⟨state, replayed, ahead, same⟩ := keeps.exists_replayed
  simp only [nextCatalogLineFn, Option.bind_eq_bind, Option.pure_def, Option.bind_eq_some_iff,
    Option.guard_eq_some', Option.some.injEq] at pressed
  obtain ⟨_, ⟨afford, available⟩, rfl⟩ := pressed
  obtain ⟨left, coin, paid, coins, le⟩ :=
    payNextCatalogLine_of_front keeps.replays.coin ahead.coin afford
  rw [keeps.turn, ← keeps.counter, ← same.nextCatalogLineCounter] at paid
  have line := ahead.line
  rw [keeps.replays.catalogLineIndex, Nat.add_zero] at line
  have counter := same.nextCatalogLineCounter.trans (keeps.counter.trans keeps.counted)
  simp only [isNextCatalogLineAvailable, decide_eq_true_eq] at available
  let next : TurnState := { state with
    coin := left
    nextCatalogLineCounter := state.nextCatalogLineCounter + 1
    catalogLineIndex := state.catalogLineIndex + 1 }
  have performed : applyOperation env setting.fuel setting.catalog setting.turn state
      .nextCatalogLine = pure next := by
    simp only [applyOperation, Fueled.of_eq_pure_iff, Mtc.Shop.nextCatalogLine,
      Result.bind_eq_ok_iff, ensure_eq_ok_iff, Result.pure_eq_ok_iff]
    exact ⟨left, paid, (), by omega, (), by omega, rfl⟩
  refine ⟨shop.session.shopState.playerOperations ++ [.nextCatalogLine], [], next, _, _,
    (List.append_nil _).symm, .concat (fun _ same => by cases same), List.forall_mem_nil _, ?_, ?_,
    keeps.replays.restart (setting.catalog.drop (shop.currentCatalogLineIndex + 1))
      shop.session.mtcState _ coin rfl rfl coins rfl, keeps.turn, ?_, ?_, ?_,
    fun _ none => by cases none⟩
  · rw [List.foldlM_append, Fueled.bind_eq_pure_iff]
    refine ⟨state, replayed, ?_⟩
    rw [List.foldlM_cons, Fueled.bind_eq_pure_iff]
    exact ⟨next, performed, rfl⟩
  · exact ⟨ahead.shop, ahead.grade.trans keeps.replays.grade, ahead.soldMtcEmoIds, le, by
      simp only [next, line, keeps.replays.catalogLineIndex, Nat.add_zero]⟩
  · simp only [next, counter, keeps.counted]
  · simp only [keeps.counted]
  · simp only [next, same.upgradeCoin]
    exact keeps.price

/-- The grade that an upgrade reaches has a price on the chain, which is not
above the one that the front puts up. -/
theorem affords_upgraded {grade : Nat} (positive : 1 ≤ grade) (lower : grade < Mtc.Shop.lastGrade) :
    Affords (grade + 1) (getUpgradeCoin (grade + 1)) (getUpgradeCoin (grade + 2)) := by
  intro coin shown
  rcases (by unfold Mtc.Shop.lastGrade at lower; omega :
    grade = 1 ∨ grade = 2 ∨ grade = 3 ∨ grade = 4 ∨ grade = 5) with rfl | rfl | rfl | rfl | rfl
  case inr.inr.inr.inr => cases shown
  all_goals
    cases shown
    exact ⟨by decide, _, rfl, by decide⟩

/-- An upgrade that the front can pay can be paid on the chain. -/
theorem Follows.upgrade (follows : Follows env setting shop) {mtcState : MtcState}
    {shopState : State} {upgradeCoin : Nat} (positive : 1 ≤ shop.session.mtcState.grade)
    (price : shop.session.mtcState.upgradeCoin = some upgradeCoin)
    (afford : (upgradeCoin : Int) ≤ shop.session.shopState.coin)
    (upgraded : upgradeFn shop.session.mtcState shop.session.shopState =
      some (mtcState, shopState))
    (reserved : shop.selectedCatalogLineEmo.isSome → (emoBuyCoin : Int) ≤ shopState.coin) :
    Follows env setting { shop with session := { shop.session with mtcState, shopState } } := by
  obtain ⟨done, recorded, started, mirrored, mirror, keeps⟩ := follows
  obtain ⟨state, replayed, ahead, same⟩ := keeps.exists_replayed
  simp only [upgradeFn, price, Option.bind_eq_bind, Option.bind_some, Option.pure_def,
    Option.some.injEq, Prod.mk.injEq] at upgraded
  obtain ⟨rfl, rfl⟩ := upgraded
  obtain ⟨lower, paid, chainPrice, cheap⟩ := keeps.price upgradeCoin price
  have coins : (mirror.coin : Int) = shop.session.shopState.coin := keeps.replays.coin
  have enough := ahead.coin
  have grade : state.grade = shop.session.mtcState.grade := ahead.grade.trans keeps.replays.grade
  have line := ahead.line
  rw [keeps.replays.catalogLineIndex, Nat.add_zero] at line
  let next : TurnState := { state with
    coin := state.coin - paid
    grade := state.grade + 1
    upgradeCoin := getUpgradeCoin (state.grade + 1) }
  have performed : applyOperation env setting.fuel setting.catalog setting.turn state .upgrade =
      pure next := by
    have chargeable : checkedSub state.coin paid = some (state.coin - paid) :=
      checkedSub_eq_some_iff.mpr ⟨by omega, rfl⟩
    simp only [applyOperation, Fueled.of_eq_pure_iff, Mtc.Shop.upgrade, same.upgradeCoin,
      chainPrice, Result.bind_eq_ok_iff, okOr_eq_ok_iff, ensure_eq_ok_iff, Result.pure_eq_ok_iff]
    exact ⟨_, chargeable, (), by rwa [grade], rfl⟩
  refine ⟨shop.session.shopState.playerOperations ++ [.upgrade], [], next, _, _,
    (List.append_nil _).symm, .concat (fun _ same => by cases same), List.forall_mem_nil _, ?_, ?_,
    keeps.replays.restart (setting.catalog.drop shop.currentCatalogLineIndex)
      { shop.session.mtcState with
        grade := shop.session.mtcState.grade + 1
        upgradeCoin := getUpgradeCoin (shop.session.mtcState.grade + 2) } _
      (mirror.coin - upgradeCoin) rfl rfl ?_ rfl, keeps.turn, ?_, keeps.counted, ?_, ?_⟩
  · rw [List.foldlM_append, Fueled.bind_eq_pure_iff]
    refine ⟨state, replayed, ?_⟩
    rw [List.foldlM_cons, Fueled.bind_eq_pure_iff]
    exact ⟨next, performed, rfl⟩
  · refine ⟨ahead.shop, ?_, ahead.soldMtcEmoIds, ?_, ?_⟩
    · simp only [next, grade]
    · simp only [next]
      omega
    · simp only [next, line, keeps.replays.catalogLineIndex, Nat.add_zero]
  · dsimp only
    omega
  · simp only [next, same.nextCatalogLineCounter, keeps.counter]
  · simp only [next, grade]
    exact affords_upgraded positive lower
  · intro mtcEmo chosen
    have selectable := keeps.selected mtcEmo chosen
    obtain ⟨base, found, low⟩ := selectable.grade
    have kept : shop.selectedCatalogLineEmo.isSome := by
      rw [chosen]
      rfl
    exact ⟨reserved kept, selectable.unsold, selectable.offBoard, selectable.offered, base, found,
      Nat.le_succ_of_le low⟩

/-- What the front has to leave to the player: coins for the emo that is
selected, and no more than a `u8` counts. -/
structure Solvent (shop : ShopSession) : Prop where
  reserved : shop.selectedCatalogLineEmo.isSome →
    (emoBuyCoin : Int) ≤ shop.session.shopState.coin
  below : shop.session.shopState.coin < u8Max

/-- The buttons and what they do to the shop. -/
inductive Pressed (env : Env) (fuel : Nat) (catalog : Catalog) (preShopSeed : Nat)
    (before after : ShopSession) : Button → Prop where
  | buy (mtcEmo : Mtc.Emo)
      (selectable : Selectable env.emoBases (catalog.drop before.currentCatalogLineIndex)
        before.session mtcEmo)
      (same : after = { before with selectedCatalogLineEmo := some mtcEmo }) :
      Pressed env fuel catalog preShopSeed before after (.buy mtcEmo)
  | unselect (same : after = { before with selectedCatalogLineEmo := none }) :
      Pressed env fuel catalog preShopSeed before after .unselect
  | operation (button : Button) (operation : Operation) (session : Session)
      (later : operation ≠ .preShop)
      (selected : ∀ index mtcEmo, operation = .set index mtcEmo →
        before.selectedCatalogLineEmo = some mtcEmo)
      (performed : playOperation env fuel preShopSeed before.session operation = some session)
      (same : after = { before with session, selectedCatalogLineEmo := none }) :
      Pressed env fuel catalog preShopSeed before after button
  | nextCatalogLine (moved : nextCatalogLineFn catalog before = some after) :
      Pressed env fuel catalog preShopSeed before after .nextCatalogLine
  | upgrade (upgradeCoin : Nat) (mtcState : MtcState) (shopState : State)
      (price : before.session.mtcState.upgradeCoin = some upgradeCoin)
      (afford : (upgradeCoin : Int) ≤ before.session.shopState.coin)
      (upgraded : upgradeFn before.session.mtcState before.session.shopState =
        some (mtcState, shopState))
      (same : after = { before with session := { before.session with mtcState, shopState } }) :
      Pressed env fuel catalog preShopSeed before after .upgrade

theorem press_pressed {button : Button}
    (pressed : press env fuel catalog preShopSeed shop button = some after) :
    Pressed env fuel catalog preShopSeed shop after button := by
  cases button with
  | buy mtcEmo =>
      simp only [press, selectEmoToBuy, Option.bind_eq_bind, Option.pure_def,
        Option.bind_eq_some_iff, Option.guard_eq_some', Option.some.injEq] at pressed
      obtain ⟨line, current, base, found, _, ⟨offered, _, coin, available, grade⟩, rfl⟩ := pressed
      simp only [unavailableToBuyMtcEmoIds, List.mem_append, not_or, List.mem_flatMap,
        not_exists, not_and] at available
      refine .buy mtcEmo ⟨coin, available.2, available.1, ⟨line, ?_, offered⟩, base, found, grade⟩
        rfl
      rw [List.getElem?_drop, Nat.add_zero]
      exact current
  | unselect =>
      simp only [press, Option.bind_eq_bind, Option.pure_def, Option.bind_eq_some_iff,
        Option.some.injEq] at pressed
      obtain ⟨_, _, rfl⟩ := pressed
      exact .unselect rfl
  | set index =>
      simp only [press, Option.bind_eq_bind, Option.pure_def, Option.bind_eq_some_iff,
        Option.guard_eq_some', Option.some.injEq] at pressed
      obtain ⟨mtcEmo, selected, _, _, session, performed, rfl⟩ := pressed
      refine .operation _ _ session (fun same => by cases same) ?_ performed rfl
      rintro _ _ ⟨⟩
      exact selected
  | sell index =>
      simp only [press, Option.bind_eq_bind, Option.pure_def, Option.bind_eq_some_iff,
        Option.guard_eq_some', Option.some.injEq] at pressed
      obtain ⟨_, ⟨unselected, _⟩, session, performed, rfl⟩ := pressed
      exact .operation _ _ session (fun same => by cases same) (fun _ _ same => by cases same)
        performed (by rw [← unselected])
  | move index isRight =>
      simp only [press, Option.bind_eq_bind, Option.pure_def, Option.bind_eq_some_iff,
        Option.guard_eq_some', Option.some.injEq] at pressed
      obtain ⟨_, ⟨unselected, _⟩, session, performed, rfl⟩ := pressed
      exact .operation _ _ session (fun same => by cases same) (fun _ _ same => by cases same)
        performed (by rw [← unselected])
  | nextCatalogLine => exact .nextCatalogLine pressed
  | upgrade =>
      simp only [press, Option.bind_eq_bind, Option.pure_def, Option.bind_eq_some_iff,
        Option.guard_eq_some', Option.some.injEq] at pressed
      obtain ⟨upgradeCoin, price, _, afford, ⟨mtcState, shopState⟩, upgraded, rfl⟩ := pressed
      exact .upgrade upgradeCoin mtcState shopState price afford upgraded rfl

/-- A press takes back neither ids nor grades. -/
theorem Pressed.grows {button : Button}
    (pressed : Pressed env fuel catalog preShopSeed shop after button) :
    shop.session.generatedIds ≤ after.session.generatedIds ∧
      shop.session.mtcState.grade ≤ after.session.mtcState.grade := by
  cases pressed with
  | buy _ _ same | unselect same =>
      subst same
      exact ⟨le_rfl, le_rfl⟩
  | operation _ operation session later _ performed same =>
      subst same
      have played := playOperation_played performed
      have grown := played.generatedIds_le
      rw [played.mtcState]
      exact ⟨by dsimp only; omega, le_rfl⟩
  | nextCatalogLine moved =>
      simp only [nextCatalogLineFn, Option.bind_eq_bind, Option.pure_def, Option.bind_eq_some_iff,
        Option.some.injEq] at moved
      obtain ⟨_, _, rfl⟩ := moved
      exact ⟨le_rfl, le_rfl⟩
  | upgrade upgradeCoin mtcState shopState price afford upgraded same =>
      subst same
      simp only [upgradeFn, price, Option.bind_eq_bind, Option.bind_some, Option.pure_def,
        Option.some.injEq, Prod.mk.injEq] at upgraded
      obtain ⟨rfl, rfl⟩ := upgraded
      exact ⟨le_rfl, Nat.le_succ _⟩

theorem Follows.pressed (follows : Follows env setting shop) (keyed : KeyedBases env.emoBases)
    (distinct : ∀ line ∈ setting.catalog, (line.map Mtc.Emo.id).Nodup)
    (few : setting.catalog.length ≤ u8Max) (positive : 1 ≤ shop.session.mtcState.grade)
    {button : Button}
    (pressed : Pressed (env.withLogs isViewLogsEnabled) setting.fuel setting.catalog preShopSeed
      shop after button)
    (solvent : Solvent after) (room : after.session.generatedIds ≤ setting.frontIds + idCount) :
    Follows env setting after := by
  cases pressed with
  | buy mtcEmo selectable same =>
      subst same
      obtain ⟨done, recorded, started, mirrored, mirror, keeps⟩ := follows
      refine ⟨done, recorded, started, mirrored, mirror, { keeps with selected := ?_ }⟩
      rintro _ ⟨⟩
      exact selectable
  | unselect same =>
      subst same
      obtain ⟨done, recorded, started, mirrored, mirror, keeps⟩ := follows
      exact ⟨done, recorded, started, mirrored, mirror,
        { keeps with selected := fun _ none => by cases none }⟩
  | operation _ operation session later selected performed same =>
      subst same
      exact follows.operation keyed distinct later selected performed solvent.below room
  | nextCatalogLine moved => exact follows.nextCatalogLine few moved
  | upgrade upgradeCoin mtcState shopState price afford upgraded same =>
      subst same
      exact follows.upgrade positive price afford upgraded solvent.reserved

theorem foldlM_press_grows {buttons : List Button} {last : ShopSession}
    (pressed : buttons.foldlM (press env fuel catalog preShopSeed) shop = some last) :
    shop.session.generatedIds ≤ last.session.generatedIds ∧
      shop.session.mtcState.grade ≤ last.session.mtcState.grade := by
  induction buttons generalizing shop with
  | nil =>
      cases pressed
      exact ⟨le_rfl, le_rfl⟩
  | cons button rest ih =>
      rw [List.foldlM_cons, Option.bind_eq_bind, Option.bind_eq_some_iff] at pressed
      obtain ⟨middle, first, pressed⟩ := pressed
      have grown := (press_pressed first).grows
      have later := ih pressed
      exact ⟨grown.1.trans later.1, grown.2.trans later.2⟩

/-- The chain follows all presses. -/
theorem Follows.foldlM (follows : Follows env setting shop) (keyed : KeyedBases env.emoBases)
    (distinct : ∀ line ∈ setting.catalog, (line.map Mtc.Emo.id).Nodup)
    (few : setting.catalog.length ≤ u8Max) (positive : 1 ≤ shop.session.mtcState.grade)
    {buttons : List Button} {last : ShopSession}
    (pressed : buttons.foldlM (press (env.withLogs isViewLogsEnabled) setting.fuel setting.catalog
      preShopSeed) shop = some last)
    (solvent : ∀ done middle, done <+: buttons → done.foldlM (press
      (env.withLogs isViewLogsEnabled) setting.fuel setting.catalog preShopSeed) shop =
        some middle → Solvent middle)
    (room : last.session.generatedIds ≤ setting.frontIds + idCount) :
    Follows env setting last := by
  induction buttons generalizing shop with
  | nil =>
      cases pressed
      exact follows
  | cons button rest ih =>
      rw [List.foldlM_cons, Option.bind_eq_bind, Option.bind_eq_some_iff] at pressed
      obtain ⟨middle, first, pressed⟩ := pressed
      have grown := press_pressed first
      have solventFirst : Solvent middle := by
        refine solvent [button] middle ⟨rest, rfl⟩ ?_
        rw [List.foldlM_cons, first]
        rfl
      refine ih (follows.pressed keyed distinct few positive grown solventFirst
        ((foldlM_press_grows pressed).1.trans room)) (positive.trans grown.grows.2) pressed ?_
      intro done shop before reached
      refine solvent (button :: done) shop (List.prefix_cons_inj button |>.mpr before) ?_
      rw [List.foldlM_cons, first]
      exact reached

/-! ## Turns -/

theorem startTurn_price {grade seed turn chainIds : Nat} {board : Board}
    {upgradeCoin : Option Nat} {pool : List Mtc.Emo} {opened : TurnState} (price : Option Nat)
    (started : Mtc.Shop.startTurn env fuel board grade upgradeCoin pool seed turn chainIds =
      pure (catalog, opened)) :
    Mtc.Shop.startTurn env fuel board grade price pool seed turn chainIds =
      pure (catalog, { opened with upgradeCoin := price }) := by
  simp only [Mtc.Shop.startTurn, Fueled.bind_eq_pure_iff, Fueled.of_eq_pure_iff,
    Fueled.pure_eq_pure_iff, Prod.mk.injEq] at started ⊢
  obtain ⟨coin, paid, _, offered, shop, performed, rfl, rfl⟩ := started
  exact ⟨coin, paid, _, offered, shop, performed, rfl, rfl⟩

/-- The chain opens the turn as the front enters the shop. -/
theorem enterShop_follows {seed frontIds : Nat} {pool : List Mtc.Emo} {mtcState : MtcState}
    {entered : ShopSession} {chainPrice : Option Nat} (chainIds : Nat)
    (small : mtcState.board.length ≤ u8Max)
    (price : Affords mtcState.grade chainPrice mtcState.upgradeCoin)
    (offered : Mtc.Shop.getCatalog env.sampler pool mtcState.board seed = .ok catalog)
    (entering : enterShop (env.withLogs isViewLogsEnabled) fuel seed mtcState frontIds =
      some entered) (solvent : Solvent entered)
    (room : entered.session.generatedIds ≤ frontIds + idCount) :
    ∃ opened, Mtc.Shop.startTurn env fuel mtcState.board mtcState.grade chainPrice pool seed
        mtcState.turn chainIds = pure (catalog, opened) ∧
      Follows env ⟨fuel, catalog, mtcState.turn, opened, frontIds, chainIds⟩ entered ∧
      entered.session.mtcState.grade = mtcState.grade := by
  simp only [enterShop, Option.bind_eq_bind, Option.pure_def, Option.bind_eq_some_iff,
    Option.some.injEq] at entering
  obtain ⟨shopState, initial, session, performed, rfl⟩ := entering
  obtain ⟨coin, paid, rfl⟩ : ∃ coin, Mtc.Shop.getInitialCoinByTurn mtcState.turn = .ok coin ∧
      shopState = { coin := (coin : Int) } := by
    unfold buildInitialState at initial
    cases paid : Mtc.Shop.getInitialCoinByTurn mtcState.turn with
    | error error =>
        rw [paid] at initial
        cases initial
    | ok coin =>
        rw [paid] at initial
        cases initial
        exact ⟨coin, rfl, rfl⟩
  cases playOperation_played performed with
  | preShop shop started same =>
      subst same
      obtain ⟨opened, opening, replays⟩ := @startTurn_replays _ _ _ mtcState.grade _ _ _ _ chainIds
        _ mtcState.upgradeCoin _ _ _ small paid offered started solvent.below room
      refine ⟨_, startTurn_price chainPrice opening, ⟨[], [], _, opened, opened, rfl,
        fun earlier _ same => (by cases earlier <;> cases same), List.forall_mem_nil _, rfl,
        ⟨rfl, rfl, rfl, le_rfl, (Nat.zero_add _).symm⟩, ?_, rfl, ?_, rfl, price,
        fun _ none => by cases none⟩, rfl⟩
      · exact replays
      · simp only [Mtc.Shop.startTurn, Fueled.bind_eq_pure_iff, Fueled.of_eq_pure_iff,
          Fueled.pure_eq_pure_iff, Prod.mk.injEq] at opening
        obtain ⟨_, _, _, _, _, _, _, rfl⟩ := opening
        rfl

/-- The chain follows the whole shop. -/
theorem playShop_follows {seed generatedIds : Nat} {pool : List Mtc.Emo} {mtcState : MtcState}
    {buttons : List Button} {last : ShopSession} {chainPrice : Option Nat} (chainIds : Nat)
    (keyed : KeyedBases env.emoBases) (distinct : (pool.map Mtc.Emo.id).Nodup)
    (small : mtcState.board.length ≤ u8Max) (positive : 1 ≤ mtcState.grade)
    (price : Affords mtcState.grade chainPrice mtcState.upgradeCoin)
    (played : playShop (env.withLogs isViewLogsEnabled) fuel seed pool mtcState generatedIds
      buttons = some last)
    (solvent : ∀ done shop, done <+: buttons → playShop (env.withLogs isViewLogsEnabled) fuel seed
      pool mtcState generatedIds done = some shop → Solvent shop)
    (room : last.session.generatedIds ≤ generatedIds + idCount) :
    ∃ catalog opened, Mtc.Shop.startTurn env fuel mtcState.board mtcState.grade chainPrice pool
        seed mtcState.turn chainIds = pure (catalog, opened) ∧
      Follows env ⟨fuel, catalog, mtcState.turn, opened, generatedIds, chainIds⟩ last ∧
      mtcState.grade ≤ last.session.mtcState.grade := by
  simp only [playShop, Option.bind_eq_bind, Option.bind_eq_some_iff] at played solvent
  obtain ⟨catalog, offered, entered, entering, pressed⟩ := played
  have solventPress : ∀ done shop, done <+: buttons → done.foldlM (press
      (env.withLogs isViewLogsEnabled) fuel catalog seed) entered = some shop → Solvent shop :=
    fun done shop before reached =>
      solvent done shop before ⟨catalog, offered, entered, entering, reached⟩
  have got : Mtc.Shop.getCatalog env.sampler pool mtcState.board seed = .ok catalog := by
    cases same : Mtc.Shop.getCatalog env.sampler pool mtcState.board seed with
    | error error =>
        rw [same] at offered
        cases offered
    | ok other =>
        rw [same] at offered
        cases offered
        rfl
  have grown := foldlM_press_grows pressed
  obtain ⟨opened, started, follows, sameGrade⟩ := enterShop_follows chainIds small price got
    entering (solventPress [] entered List.nil_prefix rfl) (grown.1.trans room)
  have lines : ∀ line ∈ catalog, (line.map Mtc.Emo.id).Nodup := fun line member =>
    (Mtc.Shop.getCatalog_nodup distinct got).sublist ((List.sublist_flatten_of_mem member).map _)
  have short : catalog.length ≤ u8Max := by
    obtain ⟨filled, _, length, _, _, same⟩ := Mtc.Shop.fillCatalog_eq_ok_iff.mp got
    rw [List.nil_append] at same
    rw [same, length]
    decide
  exact ⟨catalog, opened, started, follows.foldlM keyed lines short
    (positive.trans (Nat.le_of_eq sameGrade.symm)) pressed solventPress room, sameGrade ▸ grown.2⟩

/-- What a shop that the chain follows is verified to. -/
theorem Follows.verified {grade seed : Nat} {board : Board} {chainPrice : Option Nat}
    {pool : List Mtc.Emo} (follows : Follows env setting shop)
    (started : Mtc.Shop.startTurn env setting.fuel board grade chainPrice pool seed setting.turn
      setting.chainIds = pure (setting.catalog, setting.opened))
    (few : shop.session.shopState.playerOperations.length < 200) :
    ∃ upgradeCoin, Mtc.Shop.verifyPlayerOperationsAndUpdate env setting.fuel board grade chainPrice
        shop.session.shopState.playerOperations pool seed setting.turn setting.chainIds =
          pure (shop.session.mtcState.board, shop.session.mtcState.grade, upgradeCoin) ∧
      Affords shop.session.mtcState.grade upgradeCoin shop.session.mtcState.upgradeCoin ∧
      shop.session.mtcState.turn = setting.turn ∧ shop.session.mtcState.board.length ≤ u8Max := by
  obtain ⟨done, recorded, middle, mirrored, mirror, keeps⟩ := follows
  obtain ⟨state, replayed, ahead, same⟩ := keeps.exists_replayed
  refine ⟨state.upgradeCoin, ?_, ?_, keeps.turn, ?_⟩
  · simp only [Mtc.Shop.verifyPlayerOperationsAndUpdate, Mtc.Shop.playTurn,
      Fueled.bind_eq_pure_iff, Fueled.of_eq_pure_iff, Fueled.pure_eq_pure_iff, ensure_eq_ok_iff]
    refine ⟨state, ⟨(), few, (setting.catalog, setting.opened), started, replayed⟩, ?_⟩
    rw [ahead.shop, ahead.grade, keeps.replays.board, keeps.replays.grade]
    rfl
  · rw [same.upgradeCoin]
    exact keeps.price
  · have length := keeps.replays.length
    have small := keeps.replays.small
    have onFront : (shop.session.recording recorded).mtcState.board =
        shop.session.mtcState.board := rfl
    rw [← onFront, length]
    exact small

/-- The chain accepts the turn that the shop recorded and comes to its board and
its grade, as long as the player keeps the coins for the selected emo.  What
the next upgrade costs on the chain stays within what it costs the player. -/
theorem playShop_accepted {seed generatedIds : Nat} {pool : List Mtc.Emo} {mtcState : MtcState}
    {buttons : List Button} {last : ShopSession} {chainPrice : Option Nat} (chainIds : Nat)
    (keyed : KeyedBases env.emoBases) (distinct : (pool.map Mtc.Emo.id).Nodup)
    (small : mtcState.board.length ≤ u8Max) (positive : 1 ≤ mtcState.grade)
    (price : Affords mtcState.grade chainPrice mtcState.upgradeCoin)
    (played : playShop (env.withLogs isViewLogsEnabled) fuel seed pool mtcState generatedIds
      buttons = some last)
    (solvent : ∀ done shop, done <+: buttons → playShop (env.withLogs isViewLogsEnabled) fuel seed
      pool mtcState generatedIds done = some shop → Solvent shop)
    (room : last.session.generatedIds ≤ generatedIds + idCount)
    (few : last.session.shopState.playerOperations.length < 200) :
    ∃ upgradeCoin, Mtc.Shop.verifyPlayerOperationsAndUpdate env fuel mtcState.board mtcState.grade
        chainPrice last.session.shopState.playerOperations pool seed mtcState.turn chainIds =
          pure (last.session.mtcState.board, last.session.mtcState.grade, upgradeCoin) ∧
      Affords last.session.mtcState.grade upgradeCoin last.session.mtcState.upgradeCoin ∧
      last.session.mtcState.turn = mtcState.turn := by
  obtain ⟨catalog, opened, started, follows, _⟩ :=
    playShop_follows chainIds keyed distinct small positive price played solvent room
  obtain ⟨upgradeCoin, verified, affords, turn, _⟩ := follows.verified started few
  exact ⟨upgradeCoin, verified, affords, turn⟩

/-- Two lines, an upgrade, two purchases, a move and a sale. -/
theorem playShop_accepted_upgraded :
    let copy (id : Nat) : BoardEmo := ⟨[id], 0, ⟨2, 3, [], false⟩⟩
    let env : Env :=
      { emoBases := fun id => if id = 0 then some ⟨0, .food, 1, 2, 3, []⟩ else none
        sampler := .first }
    let pool : List Mtc.Emo := (List.range 37).map fun id => ⟨id, 0⟩
    let ops : List PlayerOperation := [.nextCatalogLine, .upgrade, .buy 29 0, .nextCatalogLine,
      .buy 22 0, .move [1, 0], .sell 1]
    ∃ board upgradeCoin, Mtc.Shop.verifyPlayerOperationsAndUpdate env 20 [copy 1, copy 2] 1 (some 0)
        ops pool 1 5 0 = pure (board, 2, upgradeCoin) ∧
      Affords 2 upgradeCoin (some 7) := by
  intro copy env pool ops
  let mtcState : MtcState := ⟨5, [copy 1, copy 2], 1, some 1⟩
  let buttons : List Button := [.nextCatalogLine, .upgrade, .buy ⟨29, 0⟩, .set 0, .nextCatalogLine,
    .buy ⟨22, 0⟩, .set 0, .move 0 true, .sell 1]
  have keyed : KeyedBases env.emoBases := fun id base found => by
    dsimp only [env] at found
    split at found
    · cases found
      exact Eq.symm ‹id = 0›
    · cases found
  have pressed : (playShop (env.withLogs true) 20 1 pool mtcState 7 buttons).any fun last =>
      last.session.generatedIds = 19 ∧ last.session.shopState.playerOperations = ops ∧
        last.session.mtcState.grade = 2 ∧ last.session.mtcState.upgradeCoin = some 7 := by
    decide +kernel
  obtain ⟨last, played, found⟩ := (Option.any_eq_true _ _).mp pressed
  rw [decide_eq_true_eq] at found
  obtain ⟨generatedIds, recorded, grade, upgradeCoin⟩ := found
  have checked : ∀ done ∈ buttons.inits, ∀ shop ∈ playShop (env.withLogs true) 20 1 pool mtcState 7
      done, (shop.selectedCatalogLineEmo.isSome → (emoBuyCoin : Int) ≤
        shop.session.shopState.coin) ∧ shop.session.shopState.coin < u8Max := by
    decide +kernel
  have solvent : ∀ done shop, done <+: buttons → playShop (env.withLogs true) 20 1 pool mtcState 7
      done = some shop → Solvent shop := by
    intro done shop before reached
    obtain ⟨reserved, below⟩ := checked done ((List.mem_inits done buttons).mpr before) shop reached
    exact ⟨reserved, below⟩
  have price : Affords 1 (some 0) (some 1) := by
    rintro _ ⟨⟩
    exact ⟨by decide, 0, rfl, by decide⟩
  obtain ⟨chainCoin, verified, affords, _⟩ := playShop_accepted 0 keyed (by decide) (by decide)
    (le_refl 1) price played solvent (by rw [generatedIds]; decide) (by rw [recorded]; decide)
  rw [recorded, grade] at verified
  rw [grade, upgradeCoin] at affords
  exact ⟨_, chainCoin, verified, affords⟩

/-- An upgrade while an emo is selected can leave too few coins for it.  The
front still sets the emo, and the chain rejects the turn. -/
example :
    let env : Env :=
      { emoBases := fun id => if id = 0 then some ⟨0, .food, 1, 2, 3, []⟩ else none
        sampler := .first }
    let pool : List Mtc.Emo := (List.range 37).map fun id => ⟨id, 0⟩
    let mtcState : MtcState := ⟨3, [], 1, some 3⟩
    (playShop env 20 1 pool mtcState 0 [.buy ⟨34, 0⟩, .upgrade, .set 0]).any fun last =>
      last.session.shopState.coin = -1 ∧
        (Mtc.Shop.verifyPlayerOperationsAndUpdate env 20 [] 1 (some 3)
          last.session.shopState.playerOperations pool 1 3 0).value? = none := by
  decide +kernel

end EmojiBattler.Front
