import EmojiBattler.Codec.Types

/-! # Errors and machine arithmetic

The functions of the source either report an error or panic.  Both abort the
whole call, so both are errors of the model; `MtcError.message` keeps the text
of the reported ones. -/

namespace EmojiBattler

inductive MtcError where
  | emoBaseNotFound (id : Nat)
  | emoNotFound (emoIndex : Nat)
  | emoMutNotFound (emoIndex : Nat)
  | shouldBeBattleAbility
  | firstEmoNotFound
  | chooseNoneForLowest
  | leftEmoNotFound
  | invalidEmoIndex
  | reachedMaximumTick
  | battleAllInvalid
  | failedToSplitGhostSets (index : Nat)
  | liveZero
  | chooseFailed
  | invalidGrade (grade : Nat)
  | invalidLenForSelectedBuiltBaseIds
  | notContainedInAllowlist (id : Nat)
  | containsSameGrade
  | getEmoByIndexNotFound (emoIndex : Nat)
  | getEmoByIdNotFound (emoId : Nat)
  | getEmoMutByIdNotFound (emoId : Nat)
  | getEmoAndIndexByIdNotFound (emoId : Nat)
  | getEmoMutAndIndexByIdNotFound (emoId : Nat)
  | getEmoIndexByIdNotFound (emoId : Nat)
  | invalidIndexForSell
  | invalidIndexForMove
  | cannotMoveLeft
  | cannotMoveRight
  | boardMaxCapacity
  | invalidEmoIndexForAdd
  | catalogFailed
  | tooBigOps
  | soldEmo
  | alreadyOnBoard
  | notEnoughCoinToBuy
  | nonCatalogLine
  | targetEmoToBuyNotFound
  | higherGrade
  | invalidIndexesLen
  | invalidIndex
  | notEnoughCoinForNextCatalogLine
  | invalidCounter
  | notEnoughCoinForUpgrade
  | alreadyLastGrade
  | noUpgrade
  | invalidFixedBaseIds
  | invalidBuiltBaseIds
  /-- An index past the end of a slice. -/
  | indexOutOfBounds
  | divisionByZero
  /-- An unchecked `+` or `-` whose result does not fit its type. -/
  | arithmeticOverflow
  /-- A failed `unwrap`, `expect` or `assert!`. -/
  | panicked (message : String)
deriving DecidableEq, Repr

/-- The text of a reported error; `none` for a panic. -/
def MtcError.message : MtcError → Option String
  | emoBaseNotFound id => some s!"emo base not found: {id}"
  | emoNotFound emoIndex => some s!"emo not found: {emoIndex}"
  | emoMutNotFound emoIndex => some s!"emo mut not found: {emoIndex}"
  | shouldBeBattleAbility => some "should be battle ability"
  | firstEmoNotFound => some "emos[0] not found"
  | chooseNoneForLowest => some "choose none for lowest"
  | leftEmoNotFound => some "left emo not found, invalid state"
  | invalidEmoIndex => some "invalid emo_index"
  | reachedMaximumTick => some "reached maximum tick"
  | battleAllInvalid => some "battle_all: invalid"
  | failedToSplitGhostSets index => some s!"failed to split ghost_sets {index}"
  | liveZero => some "select_battle_ghost_index: live zero"
  | chooseFailed => some "choose failed"
  | invalidGrade grade => some s!"invalid grade: {grade}"
  | invalidLenForSelectedBuiltBaseIds => some "invalid len for selected_built_base_ids"
  | notContainedInAllowlist id => some s!"not contained in allowlist: {id}"
  | containsSameGrade => some "contains same grade"
  | getEmoByIndexNotFound emoIndex => some s!"get_emo_by_index: emo not found (index {emoIndex})"
  | getEmoByIdNotFound emoId => some s!"get_emo_by_id: emo not found (id {emoId})"
  | getEmoMutByIdNotFound emoId => some s!"get_emo_mut_by_id: emo not found: id {emoId}"
  | getEmoAndIndexByIdNotFound emoId =>
      some s!"get_emo_and_index_by_id: emo not found (id {emoId})"
  | getEmoMutAndIndexByIdNotFound emoId =>
      some s!"get_emo_mut_and_index_by_id: emo not found (id {emoId})"
  | getEmoIndexByIdNotFound emoId => some s!"get_emo_index_by_id: emo not found (id {emoId})"
  | invalidIndexForSell => some "invalid index for sell"
  | invalidIndexForMove => some "invalid index for move"
  | cannotMoveLeft => some "move_emo: cannot move left"
  | cannotMoveRight => some "move_emo: cannot move right"
  | boardMaxCapacity => some "board max capacity"
  | invalidEmoIndexForAdd => some "Invalid emo_index"
  | catalogFailed => some "catalog failed"
  | tooBigOps => some "too big ops"
  | soldEmo => some "sold emo"
  | alreadyOnBoard => some "already on board"
  | notEnoughCoinToBuy => some "Not enough coin to buy"
  | nonCatalogLine => some "non catalog_line"
  | targetEmoToBuyNotFound => some "target emo to buy not found"
  | higherGrade => some "higher grade"
  | invalidIndexesLen => some "invalid indexes len"
  | invalidIndex => some "invalid index"
  | notEnoughCoinForNextCatalogLine => some "Not enough coin for next catalog_line"
  | invalidCounter => some "invalid counter"
  | notEnoughCoinForUpgrade => some "Not enough coin for upgrade"
  | alreadyLastGrade => some "already last grade"
  | noUpgrade => some "no upgrade"
  | invalidFixedBaseIds => some "invalid emo bases: fixed_base_ids"
  | invalidBuiltBaseIds => some "invalid emo bases: built_base_ids"
  | indexOutOfBounds | divisionByZero | arithmeticOverflow | panicked _ => none

abbrev Result := Except MtcError

/-- `ensure!` -/
def ensure (condition : Prop) [Decidable condition] (error : MtcError) : Result Unit :=
  if condition then .ok () else .error error

/-- `ok_or_else` -/
def okOr (value : Option α) (error : MtcError) : Result α :=
  match value with
  | some value => .ok value
  | none => .error error

@[simp] theorem ensure_eq_ok_iff {condition : Prop} [Decidable condition] {error : MtcError}
    {result : Unit} : ensure condition error = .ok result ↔ condition := by
  unfold ensure
  split <;> simp_all

@[simp] theorem okOr_eq_ok_iff {value : Option α} {error : MtcError} {result : α} :
    okOr value error = .ok result ↔ value = some result := by
  cases value <;> simp [okOr]

/-- A computation of two parts succeeds when both do. -/
@[simp] theorem Result.bind_eq_ok_iff {ε : Type} {first : Except ε α} {second : α → Except ε β}
    {result : β} : (first >>= second) = .ok result ↔
      ∃ middle, first = .ok middle ∧ second middle = .ok result := by
  cases first <;> simp [bind, Except.bind]

@[simp] theorem Result.pure_eq_ok_iff {ε : Type} {value result : α} :
    (pure value : Except ε α) = .ok result ↔ value = result := by
  simp [pure, Except.pure]

@[simp] theorem Result.map_eq_ok_iff {ε : Type} {first : Except ε α} {f : α → β} {result : β} :
    (f <$> first) = .ok result ↔ ∃ middle, first = .ok middle ∧ f middle = result := by
  cases first <;> simp [Functor.map, Except.map]

/-- The computation reports no error. -/
def Succeeds (result : Result α) : Prop := ∃ value, result = .ok value

@[simp] theorem succeeds_ok (value : α) : Succeeds (.ok value : Result α) := ⟨value, rfl⟩

@[simp] theorem succeeds_pure (value : α) : Succeeds (pure value : Result α) := ⟨value, rfl⟩

@[simp] theorem not_succeeds_error (error : MtcError) : ¬ Succeeds (.error error : Result α) :=
  fun ⟨_, same⟩ => nomatch same

theorem succeeds_bind_iff {first : Result α} {second : α → Result β} :
    Succeeds (first >>= second) ↔ ∃ value, first = .ok value ∧ Succeeds (second value) := by
  cases first <;> simp [Succeeds, bind, Except.bind]

@[simp] theorem succeeds_map_iff {first : Result α} {f : α → β} :
    Succeeds (f <$> first) ↔ Succeeds first := by
  cases first <;> simp [Succeeds, Functor.map, Except.map]

@[simp] theorem succeeds_ensure_iff {condition : Prop} [Decidable condition] {error : MtcError} :
    Succeeds (ensure condition error) ↔ condition := by
  simp [Succeeds]

@[simp] theorem succeeds_okOr_iff {value : Option α} {error : MtcError} :
    Succeeds (okOr value error) ↔ ∃ result, value = some result := by
  simp [Succeeds]

/-- A loop succeeds when every iteration does, from every state that the
iterations before it can leave. -/
theorem succeeds_foldlM {I : β → Prop} {f : β → α → Result β} {values : List α} {start : β}
    (initial : I start)
    (step : ∀ value ∈ values, ∀ state, I state → ∃ next, f state value = .ok next ∧ I next) :
    Succeeds (values.foldlM f start) := by
  induction values generalizing start with
  | nil => exact ⟨start, rfl⟩
  | cons value rest ih =>
      obtain ⟨next, performed, holds⟩ := step value List.mem_cons_self start initial
      rw [List.foldlM_cons, succeeds_bind_iff]
      exact ⟨next, performed, ih holds fun other member =>
        step other (List.mem_cons_of_mem _ member)⟩

/-- The result of a function whose run is bounded by a fuel; it is missing if
the fuel ran out. -/
abbrev Fueled := ExceptT MtcError Option

def Fueled.of (result : Result α) : Fueled α := ExceptT.mk (some result)

@[simp] theorem Fueled.of_eq_pure_iff {result : Result α} {value : α} :
    Fueled.of result = pure value ↔ result = .ok value := by
  change some result = some (.ok value) ↔ _
  simp

/-- A computation that is bounded by a fuel comes to a value when both its parts
do, whatever its errors are. -/
theorem bounded_bind_eq_pure_iff {ε : Type} {first : ExceptT ε Option α}
    {second : α → ExceptT ε Option β} {value : β} :
    (first >>= second) = pure value ↔
      ∃ middle, first = pure middle ∧ second middle = pure value := by
  change Option.bind first (ExceptT.bindCont second) = some (.ok value) ↔
    ∃ middle, first = some (.ok middle) ∧ second middle = some (.ok value)
  match first with
  | none => exact iff_of_false (fun same => nomatch same) fun ⟨_, same, _⟩ => nomatch same
  | some (.error error) =>
      exact iff_of_false (fun same => nomatch same) fun ⟨_, same, _⟩ => nomatch same
  | some (.ok middle) =>
      refine ⟨fun performed => ⟨middle, rfl, performed⟩, ?_⟩
      rintro ⟨_, same, performed⟩
      cases same
      exact performed

@[simp] theorem Fueled.bind_eq_pure_iff {first : Fueled α} {second : α → Fueled β} {value : β} :
    (first >>= second) = pure value ↔
      ∃ middle, first = pure middle ∧ second middle = pure value :=
  bounded_bind_eq_pure_iff

@[simp] theorem Fueled.pure_eq_pure_iff {left right : α} :
    (pure left : Fueled α) = pure right ↔ left = right := by
  change some (Except.ok left) = some (Except.ok right) ↔ _
  simp

@[simp] theorem Fueled.map_eq_pure_iff {first : Fueled α} {f : α → β} {value : β} :
    (f <$> first) = pure value ↔ ∃ middle, first = pure middle ∧ f middle = value := by
  rw [map_eq_pure_bind, Fueled.bind_eq_pure_iff]
  simp only [Fueled.pure_eq_pure_iff]

/-- The value of a run that ended without an error. -/
def Fueled.value? (result : Fueled α) : Option α :=
  match result.run with
  | some (.ok value) => some value
  | _ => none

theorem Fueled.value?_eq_some_iff {result : Fueled α} {value : α} :
    result.value? = some value ↔ result = pure value := by
  constructor
  · intro ended
    unfold Fueled.value? at ended
    split at ended
    · rename_i performed
      cases ended
      exact performed
    · cases ended
  · rintro rfl
    rfl

theorem Fueled.exists_of_value? {result : Fueled α} {holds : α → Bool}
    (found : result.value?.any holds) : ∃ value, result = pure value ∧ holds value := by
  obtain ⟨value, ended, met⟩ := (Option.any_eq_true _ _).mp found
  exact ⟨value, Fueled.value?_eq_some_iff.mp ended, met⟩

/-- A loop keeps a relation between the values it has read and its state. -/
theorem Fueled.foldlM_invariant {f : β → α → Fueled β} {P : List α → β → Prop}
    {values : List α} {start last : β}
    (step : ∀ {done value rest state after}, values = done ++ value :: rest →
      done.foldlM f start = pure state → P done state → f state value = pure after →
      P (done ++ [value]) after)
    (initial : P [] start) (performed : values.foldlM f start = pure last) : P values last := by
  have continued : ∀ {rest done : List α} {state : β}, values = done ++ rest →
      done.foldlM f start = pure state → P done state → rest.foldlM f state = pure last →
      P values last := by
    intro rest
    induction rest with
    | nil =>
        intro done state whole _ holds performed
        rw [List.foldlM_nil, Fueled.pure_eq_pure_iff] at performed
        rwa [whole, List.append_nil, ← performed]
    | cons value rest ih =>
        intro done state whole reached holds performed
        rw [List.foldlM_cons, Fueled.bind_eq_pure_iff] at performed
        obtain ⟨next, first, performed⟩ := performed
        refine ih (by simp [whole]) ?_ (step whole reached holds first) performed
        rw [List.foldlM_append, Fueled.bind_eq_pure_iff]
        exact ⟨state, reached, by simpa using first⟩
  exact @continued values [] start rfl rfl initial performed

/-! ## `u8` and `u16`

An unchecked operation that overflows panics, as in a build with overflow
checks, on the chain and in the front alike.  A release build without
`overflow-checks` would wrap around instead; neither `Cargo.toml` sets them. -/

def u8Max : Nat := 255

def u16Max : Nat := 65535

/-- `u8::saturating_add` -/
def saturatingAddU8 (left right : Nat) : Nat := min u8Max (left + right)

/-- `u8::saturating_mul` -/
def saturatingMulU8 (left right : Nat) : Nat := min u8Max (left * right)

/-- `u16::saturating_add` -/
def saturatingAddU16 (left right : Nat) : Nat := min u16Max (left + right)

/-- `u16::saturating_mul` -/
def saturatingMulU16 (left right : Nat) : Nat := min u16Max (left * right)

/-- `+` on `u8`, with overflow checks. -/
def addU8 (left right : Nat) : Result Nat :=
  if left + right ≤ u8Max then .ok (left + right) else .error .arithmeticOverflow

/-- `sum::<u16>()`, with overflow checks. -/
def sumU16 (values : List Nat) : Result Nat :=
  if values.sum ≤ u16Max then .ok values.sum else .error .arithmeticOverflow

/-- `u8::checked_sub` -/
def checkedSub (left right : Nat) : Option Nat :=
  if right ≤ left then some (left - right) else none

/-- `u64::reverse_bits` -/
def reverseBitsU64 (value : Nat) : Nat := (BitVec.ofNat 64 value).reverse.toNat

@[simp] theorem addU8_eq_ok_iff {left right result : Nat} :
    addU8 left right = .ok result ↔ left + right ≤ u8Max ∧ left + right = result := by
  by_cases bound : left + right ≤ u8Max <;> simp [addU8, bound]

@[simp] theorem sumU16_eq_ok_iff {values : List Nat} {result : Nat} :
    sumU16 values = .ok result ↔ values.sum ≤ u16Max ∧ values.sum = result := by
  by_cases bound : values.sum ≤ u16Max <;> simp [sumU16, bound]

@[simp] theorem checkedSub_eq_some_iff {left right result : Nat} :
    checkedSub left right = some result ↔ right ≤ left ∧ left - right = result := by
  by_cases bound : right ≤ left <;> simp [checkedSub, bound]

/-- `iter().zip(0u8..)` over a whole list: taking the 256th element overflows
the counter, which is checked like `+`. -/
def zipU8 (values : List α) : Result (List (α × Nat)) :=
  if values.length ≤ u8Max then .ok values.zipIdx else .error .arithmeticOverflow

@[simp] theorem zipU8_eq_ok_iff {values : List α} {result : List (α × Nat)} :
    zipU8 values = .ok result ↔ values.length ≤ u8Max ∧ values.zipIdx = result := by
  by_cases bound : values.length ≤ u8Max <;> simp [zipU8, bound]

/-- `iter().zip(0u8..).find(..)`: visiting the 256th element overflows the
counter. -/
def findZipU8 (holds : α → Bool) (values : List α) : Result (Option (α × Nat)) :=
  if min (values.findIdx holds + 1) values.length ≤ u8Max then
    .ok (values.zipIdx.find? fun (value, _) => holds value)
  else .error .arithmeticOverflow

theorem findZipU8_found {holds : α → Bool} {values : List α} {value : α} {index : Nat}
    (found : findZipU8 holds values = .ok (some (value, index))) :
    values[index]? = some value ∧ holds value := by
  unfold findZipU8 at found
  split at found
  · simp only [Except.ok.injEq] at found
    have met := List.find?_some found
    exact ⟨List.mem_zipIdx_iff_getElem?.mp (List.mem_of_find?_eq_some found), met⟩
  · cases found

end EmojiBattler
