import Mathlib.Data.List.Infix
import EmojiBattler.Library.Scale

/-! # The codec types of the chain and of the front

The types of messages and storage are defined once.  `generateCodecTypes.ts`
writes them as Rust for the chain and as an object for the front's codec, which
knows one flat space of names. -/

namespace EmojiBattler.Tools

open Scale

abbrev Text := List Char

abbrev Path := List Text

/-! ## Definitions -/

inductive Params (T : Type) where
  | struct (params : List (Text × T))
  | tuple (params : List T)
deriving DecidableEq

structure Variant (T : Type) where
  name : Text
  params : Option (Params T)
deriving DecidableEq

inductive AnyDef (T : Type) where
  | mod (name : Text) (params : List (AnyDef T))
  | struct (name : Text) (params : List (Text × T))
  | tuple (name : Text) (params : List T)
  | enum (name : Text) (params : List (Variant T))

/-- Induction over nested modules. -/
theorem AnyDef.induct {T : Type} {P : List (AnyDef T) → Prop} (nil : P [])
    (mod : ∀ name params rest, P params → P rest → P (.mod name params :: rest))
    (struct : ∀ name params rest, P rest → P (.struct name params :: rest))
    (tuple : ∀ name params rest, P rest → P (.tuple name params :: rest))
    (enum : ∀ name params rest, P rest → P (.enum name params :: rest))
    (defs : List (AnyDef T)) : P defs :=
  @AnyDef.rec_1 T (fun definition => ∀ rest, P rest → P (definition :: rest)) P
    (fun name params inner rest others => mod name params rest inner others)
    (fun name params rest others => struct name params rest others)
    (fun name params rest others => tuple name params rest others)
    (fun name params rest others => enum name params rest others)
    nil (fun _ rest first others => first rest others) defs

/-! ## Names and types in text -/

/-- `[...mods, name].join("_")` -/
def buildTsName (name : Text) (mods : List Text) : Text :=
  List.intercalate ['_'] (mods ++ [name])

/-- `\w` -/
def isWord (c : Char) : Bool := c.isAlphanum || c = '_'

/-- `.split("::").join("_")` -/
def joinSegments : Text → Text
  | ':' :: ':' :: rest => '_' :: joinSegments rest
  | c :: rest => c :: joinSegments rest
  | [] => []

/-- The text between an opening and a closing one. -/
def between (opening closing name : Text) : Option Text :=
  let inner := (name.drop opening.length).take (name.length - opening.length - closing.length)
  if name = opening ++ inner ++ closing then some inner else none

/-- `^opening(\w+)closing$` -/
def matchOne (opening closing name : Text) : Option Text :=
  (between opening closing name).filter fun inner => inner ≠ [] ∧ inner.all isWord

/-- `^opening(\w+)separator(second+)closing$` -/
def matchTwo (opening separator closing : Text) (second : Char → Bool) (name : Text) :
    Option (Text × Text) := do
  let inner ← between opening closing name
  let first := inner.takeWhile isWord
  let rest ← between separator [] (inner.dropWhile isWord)
  if first ≠ [] ∧ rest ≠ [] ∧ rest.all second then some (first, rest) else none

/-- Each match sets a prefix, the name in it and a suffix anew. -/
def buildTsValue (name : Text) : Text :=
  let parts : Text × Text × Text := ([], name, [])
  let parts := (matchOne "Vec<".toList ">".toList name).elim parts fun item =>
    ("Vec<".toList, item, ">".toList)
  let parts := (matchTwo "[".toList "; ".toList "]".toList Char.isDigit name).elim parts
    fun (item, length) => ("[".toList, item, "; ".toList ++ length ++ "]".toList)
  let parts := (matchTwo "BTreeMap<".toList ", ".toList ">".toList isWord name).elim parts
    fun (key, value) => ("BTreeMap<".toList ++ key ++ ", ".toList, value, ">".toList)
  let parts := (matchOne "Option<".toList ">".toList name).elim parts fun item =>
    ("Option<".toList, item, ">".toList)
  let parts := (matchOne "Box<".toList ">".toList name).elim parts fun item =>
    ("Box<".toList, item, ">".toList)
  parts.1 ++ joinSegments parts.2.1 ++ parts.2.2

def buildTsTupleParams (params : List Text) : Text :=
  "(".toList ++ List.intercalate ", ".toList (params.map buildTsValue) ++ ")".toList

/-! ## The object for the front -/

/-- What the object holds of a variant. -/
inductive TsVariant (W : Type) where
  | null
  | named (name : Text)
  | tuple (types : W)
deriving DecidableEq

/-- What the object holds of a type. -/
inductive TsType (V W : Type) where
  | struct (params : List (Text × V))
  | tuple (types : W)
  | enum (variants : List (Text × TsVariant W))
deriving DecidableEq

/-- `obj[key] = value`.  A key keeps its place. -/
def assign (obj : List (Text × A)) (key : Text) (value : A) : List (Text × A) :=
  if key ∈ obj.map Prod.fst then
    obj.map fun entry => if entry.1 = key then (key, value) else entry
  else obj ++ [(key, value)]

section Generator

variable {T V W : Type} (value : T → V) (tuple : List T → W)

def buildTsStructParams (params : List (Text × T)) : List (Text × V) :=
  params.map fun (k, v) => (k, value v)

/-- One round of the loop over the variants. -/
def genTsVariant (name : Text) (enAndObj : List (Text × TsVariant W) × List (Text × TsType V W))
    (p : Variant T) : List (Text × TsVariant W) × List (Text × TsType V W) :=
  let (en, obj) := enAndObj
  match p.params with
  | some (.struct params) =>
      let n := name ++ ['_'] ++ p.name
      (assign en p.name (.named n), assign obj n (.struct (buildTsStructParams value params)))
  | some (.tuple params) => (assign en p.name (.tuple (tuple params)), obj)
  | none => (assign en p.name .null, obj)

mutual

/-- One round of the loop over the definitions. -/
def genTsDef : AnyDef T → List (Text × TsType V W) → List Text → List (Text × TsType V W)
  | .mod name params, obj, mods => genTsObj params obj (mods ++ [name])
  | .struct name params, obj, mods =>
      assign obj (buildTsName name mods) (.struct (buildTsStructParams value params))
  | .tuple name params, obj, mods => assign obj (buildTsName name mods) (.tuple (tuple params))
  | .enum name params, obj, mods =>
      let (en, obj) := params.foldl (genTsVariant value tuple (buildTsName name mods)) ([], obj)
      assign obj (buildTsName name mods) (.enum en)
termination_by structural definition => definition

def genTsObj : List (AnyDef T) → List (Text × TsType V W) → List Text → List (Text × TsType V W)
  | [], obj, _ => obj
  | definition :: rest, obj, mods => genTsObj rest (genTsDef definition obj mods) mods
termination_by structural defs => defs

end

end Generator

/-- The object that `writeTsFile` writes. -/
def writeTsFile (defs : List (AnyDef Text)) : List (Text × TsType Text Text) :=
  genTsObj buildTsValue buildTsTupleParams defs [] []

/-! ## The cases of `buildTsValue` -/

@[simp] theorem joinSegments_nil : joinSegments [] = [] := rfl

theorem joinSegments_cons {c : Char} (text : Text) (plain : ':' ≠ c) :
    joinSegments (c :: text) = c :: joinSegments text := by
  rw [joinSegments]
  exact fun _ same => absurd same.symm plain

/-- Text without a colon is left as it is, and so is what is behind it. -/
theorem joinSegments_append {text : Text} (plain : ':' ∉ text) (rest : Text) :
    joinSegments (text ++ rest) = text ++ joinSegments rest := by
  induction text with
  | nil => rfl
  | cons c text ih =>
      obtain ⟨head, others⟩ := List.ne_and_not_mem_of_not_mem_cons plain
      rw [List.cons_append, joinSegments_cons _ head, ih others, List.cons_append]

theorem joinSegments_eq {text : Text} (plain : ':' ∉ text) : joinSegments text = text := by
  simpa using joinSegments_append plain []

/-- What comes behind is not drawn into a text, save a colon. -/
theorem joinSegments_append_of_head (text : Text) {rest : Text} (head : rest.head? ≠ some ':') :
    joinSegments (text ++ rest) = joinSegments text ++ joinSegments rest := by
  induction text using joinSegments.induct with
  | case1 text ih => simp [joinSegments, ih]
  | case2 c text notPair ih =>
      have apart : ∀ others, c = ':' → text ++ rest = ':' :: others → False := by
        intro others colon same
        cases text with
        | nil => exact head (by rw [List.nil_append] at same; rw [same]; rfl)
        | cons next more =>
            rw [List.cons_append, List.cons.injEq] at same
            exact notPair more colon (by rw [same.1])
      rw [List.cons_append, joinSegments.eq_2 _ _ apart, joinSegments.eq_2 _ _ notPair, ih,
        List.cons_append]
  | case3 => rfl

theorem joinSegments_between (text : Text) {opening closing : Text} (openingPlain : ':' ∉ opening)
    (closingPlain : ':' ∉ closing) :
    joinSegments (opening ++ text ++ closing) = opening ++ joinSegments text ++ closing := by
  have head : closing.head? ≠ some ':' :=
    fun same => closingPlain (List.mem_of_mem_head? same)
  rw [List.append_assoc, joinSegments_append openingPlain, joinSegments_append_of_head _ head,
    joinSegments_eq closingPlain, List.append_assoc]

theorem words_plain {text : Text} (words : ∀ c ∈ text, isWord c) : ':' ∉ text :=
  fun member => absurd (words _ member) (by decide)

theorem digits_plain {text : Text} (digits : ∀ c ∈ text, c.isDigit) : ':' ∉ text :=
  fun member => absurd (digits _ member) (by decide)

theorem between_eq_some {opening closing name inner : Text}
    (found : between opening closing name = some inner) : name = opening ++ inner ++ closing := by
  simp only [between, Option.ite_none_right_eq_some, Option.some.injEq] at found
  obtain ⟨same, rfl⟩ := found
  exact same

theorem matchOne_eq_some {opening closing name inner : Text}
    (found : matchOne opening closing name = some inner) :
    name = opening ++ inner ++ closing ∧ ∀ c ∈ inner, isWord c := by
  obtain ⟨found, checked⟩ := Option.filter_eq_some_iff.mp found
  simp only [decide_eq_true_eq, List.all_eq_true] at checked
  exact ⟨between_eq_some found, checked.2⟩

theorem matchTwo_eq_some {opening separator closing name first rest : Text} {second : Char → Bool}
    (found : matchTwo opening separator closing second name = some (first, rest)) :
    name = opening ++ (first ++ (separator ++ rest)) ++ closing ∧ (∀ c ∈ first, isWord c) ∧
      ∀ c ∈ rest, second c := by
  simp only [matchTwo, Option.bind_eq_bind, Option.bind_eq_some_iff] at found
  obtain ⟨inner, outer, rest, split, found⟩ := found
  split at found
  · rename_i checked
    cases found
    have divided := between_eq_some split
    rw [List.append_nil] at divided
    rw [← divided, List.takeWhile_append_dropWhile]
    refine ⟨between_eq_some outer, ?_, ?_⟩
    · exact fun c member => List.all_eq_true.mp List.all_takeWhile c member
    · simpa [List.all_eq_true] using checked.2.2
  · cases found

/-- Around a name that is matched there are no segments to join. -/
def Reassembles (name : Text) (parts : Text × Text × Text) : Prop :=
  parts.1 ++ joinSegments parts.2.1 ++ parts.2.2 = joinSegments name

theorem Reassembles.of_plain {name : Text} {parts : Text × Text × Text}
    (same : name = parts.1 ++ parts.2.1 ++ parts.2.2) (plain : ':' ∉ name) :
    Reassembles name parts := by
  have inner : ':' ∉ parts.2.1 := fun member => plain (by rw [same]; simp [member])
  rw [Reassembles, joinSegments_eq inner, joinSegments_eq plain, same]

theorem Reassembles.elim {name : Text} {α : Type} {found : Option α} {parts : Text × Text × Text}
    {f : α → Text × Text × Text} (otherwise : Reassembles name parts)
    (matched : ∀ x, found = some x → Reassembles name (f x)) :
    Reassembles name (found.elim parts f) := by
  cases found with
  | none => exact otherwise
  | some x => exact matched x rfl

theorem Reassembles.one {opening closing name item : Text} (openingPlain : ':' ∉ opening)
    (closingPlain : ':' ∉ closing) (found : matchOne opening closing name = some item) :
    Reassembles name (opening, item, closing) := by
  obtain ⟨same, words⟩ := matchOne_eq_some found
  refine .of_plain same ?_
  simp only [same, List.mem_append, not_or]
  exact ⟨⟨openingPlain, words_plain words⟩, closingPlain⟩

theorem matchTwo_plain {opening separator closing name first rest : Text} {second : Char → Bool}
    (found : matchTwo opening separator closing second name = some (first, rest))
    (texts : ':' ∉ opening ++ separator ++ closing) (secondPlain : second ':' = false) :
    name = opening ++ (first ++ (separator ++ rest)) ++ closing ∧ ':' ∉ name := by
  obtain ⟨same, words, others⟩ := matchTwo_eq_some found
  simp only [List.mem_append, not_or] at texts
  obtain ⟨⟨openingPlain, separatorPlain⟩, closingPlain⟩ := texts
  have restPlain : ':' ∉ rest := by
    intro member
    have accepted := others _ member
    rw [secondPlain] at accepted
    cases accepted
  refine ⟨same, ?_⟩
  simp only [same, List.mem_append, not_or]
  exact ⟨⟨openingPlain, words_plain words, separatorPlain, restPlain⟩, closingPlain⟩

/-- The matches never matter: what they take apart has no segments. -/
theorem buildTsValue_eq (name : Text) : buildTsValue name = joinSegments name := by
  have start : Reassembles name ([], name, []) := by simp [Reassembles]
  refine ((((start.elim ?_).elim ?_).elim ?_).elim ?_).elim ?_
  · exact fun item found => .one (by decide) (by decide) found
  · intro parts found
    obtain ⟨same, plain⟩ := matchTwo_plain found (by decide) (by decide)
    exact .of_plain (by simp [same]) plain
  · intro parts found
    obtain ⟨same, plain⟩ := matchTwo_plain found (by decide) (by decide)
    exact .of_plain (by simp [same]) plain
  · exact fun item found => .one (by decide) (by decide) found
  · exact fun item found => .one (by decide) (by decide) found

end EmojiBattler.Tools
