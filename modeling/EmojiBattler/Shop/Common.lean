import EmojiBattler.Mtc.Utils

/-! # Shop boards -/

namespace EmojiBattler.Mtc.Shop

open EmojiBattler.Emo

structure ShopBoardEmo where
  /-- Unique in a shop action. -/
  id : Nat
  mtcEmoIds : List Nat
  baseId : Nat
  attributes : Attributes
deriving DecidableEq

/-- The id that `generate_shop_board_emo_id` returns after so many calls.  The
generator is a `u16` that wraps. -/
def generateShopBoardEmoId (generatedIds : Nat) : Nat := generatedIds % 65536

namespace ShopBoardEmo

def fromAttributes (generatedIds : Nat) (mtcEmoIds : List Nat) (baseId : Nat)
    (attributes : Attributes) : ShopBoardEmo where
  id := generateShopBoardEmoId generatedIds
  mtcEmoIds := mtcEmoIds
  baseId := baseId
  attributes := attributes

def newWithBase (generatedIds : Nat) (mtcEmoIds : List Nat) (base : Base) (isTriple : Bool) :
    ShopBoardEmo :=
  fromAttributes generatedIds mtcEmoIds base.id (buildEmoAttributes base isTriple)

def fromBoardEmo (generatedIds : Nat) (boardEmo : BoardEmo) : ShopBoardEmo :=
  fromAttributes generatedIds boardEmo.mtcEmoIds boardEmo.baseId boardEmo.attributes

/-- `into_board_emo` and `clone_as_board_emo` -/
def intoBoardEmo (emo : ShopBoardEmo) : BoardEmo where
  mtcEmoIds := emo.mtcEmoIds
  baseId := emo.baseId
  attributes := emo.attributes

@[simp] theorem intoBoardEmo_fromBoardEmo (generatedIds : Nat) (boardEmo : BoardEmo) :
    (fromBoardEmo generatedIds boardEmo).intoBoardEmo = boardEmo := rfl

end ShopBoardEmo

def periAbility? : Ability → Option Ability.Shop.Peri
  | .shop (.peri peri) => some peri
  | _ => none

def preAbility? : Ability → Option Ability.Shop.Pre
  | .shop (.pre pre) => some pre
  | _ => none

def ShopBoardEmo.getPeriAbilities (emo : ShopBoardEmo) : List Ability.Shop.Peri :=
  emo.attributes.abilities.filterMap periAbility?

abbrev ShopBoard := List ShopBoardEmo

namespace ShopBoard

/-- Generates as many ids as the board has emos. -/
def fromBoard (board : Board) (generatedIds : Nat) : ShopBoard :=
  (board.zipIdx generatedIds).map fun (boardEmo, generatedIds) =>
    .fromBoardEmo generatedIds boardEmo

def intoBoard (board : ShopBoard) : Board := board.map ShopBoardEmo.intoBoardEmo

def getEmoByIndex (board : ShopBoard) (emoIndex : Nat) : Result ShopBoardEmo :=
  okOr board[emoIndex]? (.getEmoByIndexNotFound emoIndex)

def getEmoById (board : ShopBoard) (emoId : Nat) : Result ShopBoardEmo :=
  okOr (board.find? fun emo => emo.id = emoId) (.getEmoByIdNotFound emoId)

def getEmoMutById (board : ShopBoard) (emoId : Nat) : Result ShopBoardEmo :=
  okOr (board.find? fun emo => emo.id = emoId) (.getEmoMutByIdNotFound emoId)

def getEmoAndIndexById (board : ShopBoard) (emoId : Nat) : Result (ShopBoardEmo × Nat) := do
  let found ← findZipU8 (fun emo => emo.id = emoId) board
  okOr found (.getEmoAndIndexByIdNotFound emoId)

def getEmoMutAndIndexById (board : ShopBoard) (emoId : Nat) : Result (ShopBoardEmo × Nat) := do
  let found ← findZipU8 (fun emo => emo.id = emoId) board
  okOr found (.getEmoMutAndIndexByIdNotFound emoId)

def getEmoIdByIndex (board : ShopBoard) (emoIndex : Nat) : Result Nat :=
  okOr (board[emoIndex]?.map ShopBoardEmo.id) (.getEmoByIndexNotFound emoIndex)

def getEmoIndexById (board : ShopBoard) (emoId : Nat) : Result Nat := do
  let found ← findZipU8 (fun emo => emo.id = emoId) board
  okOr (found.map Prod.snd) (.getEmoIndexByIdNotFound emoId)

def emoIndexes (board : ShopBoard) : Result (List Nat) :=
  List.map Prod.snd <$> zipU8 board

def emosWithIndexes (board : ShopBoard) : Result (List (ShopBoardEmo × Nat)) :=
  zipU8 board

def emoIds (board : ShopBoard) : List Nat := board.map ShopBoardEmo.id

/-- `len() as u8` -/
def countEmos (board : ShopBoard) : Nat := board.length % 256

def swapEmos (board : ShopBoard) (a b : Nat) : Result ShopBoard := swapElements board a b

/-- The pre abilities on the board and the ids of the emos that have them. -/
def getBoardPreAbilities (board : ShopBoard) : List (Nat × Ability.Shop.Pre) :=
  board.flatMap fun emo =>
    (emo.attributes.abilities.filterMap preAbility?).map fun pre => (emo.id, pre)

/-- The peri abilities on the board and the ids of the emos that have them. -/
def getBoardPeriAbilities (board : ShopBoard) : List (Nat × Ability.Shop.Peri) :=
  board.flatMap fun emo => emo.getPeriAbilities.map fun peri => (emo.id, peri)

/-! ## Lookups -/

@[simp] theorem getEmoByIndex_eq_ok_iff {board : ShopBoard} {emoIndex : Nat}
    {emo : ShopBoardEmo} :
    board.getEmoByIndex emoIndex = .ok emo ↔ board[emoIndex]? = some emo := by
  simp [getEmoByIndex]

theorem getEmoById_found {board : ShopBoard} {emoId : Nat} {emo : ShopBoardEmo}
    (found : board.getEmoById emoId = .ok emo) : emo ∈ board ∧ emo.id = emoId := by
  simp only [getEmoById, okOr_eq_ok_iff] at found
  exact ⟨List.mem_of_find?_eq_some found, by simpa using List.find?_some found⟩

theorem getEmoAndIndexById_found {board : ShopBoard} {emoId index : Nat} {emo : ShopBoardEmo}
    (found : board.getEmoAndIndexById emoId = .ok (emo, index)) :
    board[index]? = some emo ∧ emo.id = emoId := by
  simp only [getEmoAndIndexById, Result.bind_eq_ok_iff, okOr_eq_ok_iff] at found
  obtain ⟨_, found, rfl⟩ := found
  simpa using findZipU8_found found

theorem getEmoMutAndIndexById_found {board : ShopBoard} {emoId index : Nat} {emo : ShopBoardEmo}
    (found : board.getEmoMutAndIndexById emoId = .ok (emo, index)) :
    board[index]? = some emo ∧ emo.id = emoId := by
  simp only [getEmoMutAndIndexById, Result.bind_eq_ok_iff, okOr_eq_ok_iff] at found
  obtain ⟨_, found, rfl⟩ := found
  simpa using findZipU8_found found

theorem getEmoIndexById_found {board : ShopBoard} {emoId index : Nat}
    (found : board.getEmoIndexById emoId = .ok index) :
    ∃ emo, board[index]? = some emo ∧ emo.id = emoId := by
  simp only [getEmoIndexById, Result.bind_eq_ok_iff, okOr_eq_ok_iff, Option.map_eq_some_iff]
    at found
  obtain ⟨_, found, ⟨emo, _⟩, rfl, rfl⟩ := found
  exact ⟨emo, by simpa using findZipU8_found found⟩

/-! ## Conversions -/

@[simp] theorem intoBoard_fromBoard (board : Board) (generatedIds : Nat) :
    (fromBoard board generatedIds).intoBoard = board := by
  simp only [intoBoard, fromBoard, List.map_map]
  have restored : (ShopBoardEmo.intoBoardEmo ∘ fun ((boardEmo, generatedIds) : BoardEmo × Nat) =>
      ShopBoardEmo.fromBoardEmo generatedIds boardEmo) = Prod.fst := rfl
  rw [restored, List.zipIdx_map_fst]

@[simp] theorem intoBoard_length (board : ShopBoard) :
    board.intoBoard.length = board.length := by
  simp [intoBoard]

@[simp] theorem fromBoard_length (board : Board) (generatedIds : Nat) :
    (fromBoard board generatedIds).length = board.length := by
  simp [fromBoard]

end ShopBoard

end EmojiBattler.Mtc.Shop
