import Mathlib.Data.List.Forall2
import EmojiBattler.Library.LittleEndian

/-! # Codecs of named types

Both ends of a channel hold definitions of the types that they exchange.  A
value is encoded by the constructors of its type and never by names, so two
sets of definitions encode alike if their types can be matched with each other,
one constructor at a time.

The encoding is the one that SCALE documents: numbers of a fixed width with the
lowest byte first, compact lengths before lists and maps, one byte for an option
or for the place of a variant, and the fields of a struct or tuple one after
another. -/

namespace Scale

open LittleEndian

/-- A type by its constructors, over the names of definitions. -/
inductive Ty (Name : Type) where
  | ref (name : Name)
  | vec (item : Ty Name)
  | array (item : Ty Name) (length : Nat)
  | btreeMap (key value : Ty Name)
  | option (item : Ty Name)
  | box (item : Ty Name)
deriving DecidableEq

/-- What a variant carries: fields of its own, or a type. -/
inductive Payload (Name : Type) where
  | fields (types : List (Ty Name))
  | type (ty : Ty Name)
deriving DecidableEq

inductive Layout (Name : Type) where
  /-- A number below the bound, in so many bytes. -/
  | number (bound width : Nat)
  /-- Items of one type, as many as there are or a fixed number. -/
  | sequence (item : Ty Name) (length : Option Nat)
  | entries (key value : Ty Name)
  | option (item : Ty Name)
  | product (fields : List (Ty Name))
  | sum (variants : List (Payload Name))
deriving DecidableEq

inductive Value where
  | number (n : Nat)
  | list (items : List Value)
  | variant (index : Nat) (payload : Value)

/-- What `none` and a variant without fields carry. -/
def Value.isUnit : Value → Bool
  | .list [] => true
  | _ => false

variable {Name Other : Type}

namespace Ty

def map (f : Name → Other) : Ty Name → Ty Other
  | ref name => ref (f name)
  | vec item => vec (item.map f)
  | array item length => array (item.map f) length
  | btreeMap key value => btreeMap (key.map f) (value.map f)
  | option item => option (item.map f)
  | box item => box (item.map f)

def names : Ty Name → List Name
  | ref name => [name]
  | vec item | array item _ | option item | box item => item.names
  | btreeMap key value => key.names ++ value.names

/-- A box is encoded as what is in it. -/
def layout (defs : Name → Option (Layout Name)) : Ty Name → Option (Layout Name)
  | ref name => defs name
  | vec item => some (.sequence item none)
  | array item length => some (.sequence item (some length))
  | btreeMap key value => some (.entries key value)
  | option item => some (.option item)
  | box item => item.layout defs

theorem map_congr {f g : Name → Other} {ty : Ty Name}
    (same : ∀ name ∈ ty.names, f name = g name) : ty.map f = ty.map g := by
  induction ty with
  | ref name => simpa [map, names] using same
  | vec item ih | array item _ ih | option item ih | box item ih => simp [map, ih same]
  | btreeMap key value ihKey ihValue =>
      simp only [names, List.mem_append] at same
      simp [map, ihKey fun name member => same name (.inl member),
        ihValue fun name member => same name (.inr member)]

theorem names_map (f : Name → Other) (ty : Ty Name) : (ty.map f).names = ty.names.map f := by
  induction ty with
  | ref name => rfl
  | vec item ih | array item _ ih | option item ih | box item ih => exact ih
  | btreeMap key value ihKey ihValue => simp [map, names, ihKey, ihValue]

@[simp] theorem map_id (ty : Ty Name) : ty.map id = ty := by
  induction ty <;> simp_all [map]

end Ty

def Payload.layout (defs : Name → Option (Layout Name)) : Payload Name → Option (Layout Name)
  | .fields types => some (.product types)
  | .type ty => ty.layout defs

/-- The compact form of a length: its two lowest bits tell how many bytes
follow. -/
def compact (n : Nat) : List UInt8 :=
  if n < 2 ^ 6 then toBytes 1 (4 * n)
  else if n < 2 ^ 14 then toBytes 2 (4 * n + 1)
  else if n < 2 ^ 30 then toBytes 4 (4 * n + 2)
  else
    let width := Nat.log2 n / 8 + 1
    toBytes 1 (4 * (width - 4) + 3) ++ toBytes width n

section Encoding

variable (defs : Name → Option (Layout Name))

mutual

/-- `none` for a value that the layout does not have. -/
def encodeLayout : Layout Name → Value → Option (List UInt8)
  | .number bound width, .number n => if n < bound then some (toBytes width n) else none
  | .sequence item length, .list items => do
      let layout ← item.layout defs
      let bytes ← encodeEach layout items
      match length with
      | none => some (compact items.length ++ bytes)
      | some length => if items.length = length then some bytes else none
  | .entries key value, .list items => do
      let bytes ← encodeEach (.product [key, value]) items
      some (compact items.length ++ bytes)
  | .option item, .variant index payload => do
      let layout ← item.layout defs
      if index = 1 then do
        let bytes ← encodeLayout layout payload
        some (1 :: bytes)
      else if index = 0 ∧ payload.isUnit then some [0]
      else none
  | .product fields, .list items => encodeFields fields items
  | .sum variants, .variant index payload => do
      let variant ← variants[index]?
      let layout ← variant.layout defs
      let bytes ← encodeLayout layout payload
      some (UInt8.ofNat index :: bytes)
  | _, _ => none

def encodeEach (layout : Layout Name) : List Value → Option (List UInt8)
  | [] => some []
  | item :: rest => do
      let bytes ← encodeLayout layout item
      let others ← encodeEach layout rest
      some (bytes ++ others)

def encodeFields : List (Ty Name) → List Value → Option (List UInt8)
  | [], [] => some []
  | ty :: types, item :: rest => do
      let layout ← ty.layout defs
      let bytes ← encodeLayout layout item
      let others ← encodeFields types rest
      some (bytes ++ others)
  | _, _ => none

end

def encode (ty : Ty Name) (value : Value) : Option (List UInt8) := do
  let layout ← ty.layout defs
  encodeLayout defs layout value

end Encoding

/-! ## Matching types -/

section Matching

variable {defs : Name → Option (Layout Name)} {defs' : Other → Option (Layout Other)}
variable {Same : Ty Name → Ty Other → Prop}

/-- Variants carry matching fields, inline or under a name. -/
def MatchingPayload (defs : Name → Option (Layout Name)) (defs' : Other → Option (Layout Other))
    (Same : Ty Name → Ty Other → Prop) (payload : Payload Name) (payload' : Payload Other) :
    Prop :=
  ∃ fields fields', payload.layout defs = some (.product fields) ∧
    payload'.layout defs' = some (.product fields') ∧ List.Forall₂ Same fields fields'

/-- The same constructor, over matching types. -/
inductive Matching (defs : Name → Option (Layout Name)) (defs' : Other → Option (Layout Other))
    (Same : Ty Name → Ty Other → Prop) : Layout Name → Layout Other → Prop
  | number (bound width : Nat) : Matching defs defs' Same (.number bound width)
      (.number bound width)
  | sequence {item : Ty Name} {item' : Ty Other} (same : Same item item')
      (length : Option Nat) : Matching defs defs' Same (.sequence item length)
      (.sequence item' length)
  | entries {key value : Ty Name} {key' value' : Ty Other} (sameKey : Same key key')
      (sameValue : Same value value') :
      Matching defs defs' Same (.entries key value) (.entries key' value')
  | option {item : Ty Name} {item' : Ty Other} (same : Same item item') :
      Matching defs defs' Same (.option item) (.option item')
  | product {fields : List (Ty Name)} {fields' : List (Ty Other)}
      (same : List.Forall₂ Same fields fields') :
      Matching defs defs' Same (.product fields) (.product fields')
  | sum {variants : List (Payload Name)} {variants' : List (Payload Other)}
      (same : List.Forall₂ (MatchingPayload defs defs' Same) variants variants') :
      Matching defs defs' Same (.sum variants) (.sum variants')

/-- Types that match have layouts, and these match too. -/
def Bisimulation (defs : Name → Option (Layout Name)) (defs' : Other → Option (Layout Other))
    (Same : Ty Name → Ty Other → Prop) : Prop :=
  ∀ ty ty', Same ty ty' → ∃ layout layout', ty.layout defs = some layout ∧
    ty'.layout defs' = some layout' ∧ Matching defs defs' Same layout layout'

theorem forall₂_getElem? {α β : Type} {R : α → β → Prop} {first : List α} {second : List β}
    (related : List.Forall₂ R first second) (index : Nat) :
    (first[index]? = none ∧ second[index]? = none) ∨
      ∃ x y, first[index]? = some x ∧ second[index]? = some y ∧ R x y := by
  induction related generalizing index with
  | nil => exact .inl ⟨rfl, rfl⟩
  | cons head _ ih =>
      cases index with
      | zero => exact .inr ⟨_, _, rfl, rfl, head⟩
      | succ index => simpa using ih index

theorem encodeLayout_eq (bisimulation : Bisimulation defs defs' Same) (value : Value) :
    ∀ layout layout', Matching defs defs' Same layout layout' →
      encodeLayout defs layout value = encodeLayout defs' layout' value := by
  refine @Value.rec
    (fun value => ∀ layout layout', Matching defs defs' Same layout layout' →
      encodeLayout defs layout value = encodeLayout defs' layout' value)
    (fun items =>
      (∀ layout layout', Matching defs defs' Same layout layout' →
        encodeEach defs layout items = encodeEach defs' layout' items) ∧
      ∀ fields fields', List.Forall₂ Same fields fields' →
        encodeFields defs fields items = encodeFields defs' fields' items)
    ?_ ?_ ?_ ?_ ?_ value
  · intro n layout layout' matching
    cases matching <;> simp [encodeLayout]
  · intro items ih layout layout' matching
    obtain ⟨each, fieldwise⟩ := ih
    cases matching with
    | number | option | sum => simp [encodeLayout]
    | sequence same length =>
        obtain ⟨layout, layout', found, found', matching⟩ := bisimulation _ _ same
        simp only [encodeLayout, found, found', Option.bind_eq_bind, Option.bind_some,
          each layout layout' matching]
    | entries sameKey sameValue =>
        have pairs := each _ _ (.product (.cons sameKey (.cons sameValue .nil)))
        simp only [encodeLayout, pairs]
    | product same => simp only [encodeLayout, fieldwise _ _ same]
  · intro index payload ih layout layout' matching
    cases matching with
    | number | sequence | entries | product => simp [encodeLayout]
    | option same =>
        obtain ⟨layout, layout', found, found', matching⟩ := bisimulation _ _ same
        simp only [encodeLayout, found, found', Option.bind_eq_bind, Option.bind_some,
          ih layout layout' matching]
    | @sum variants variants' same =>
        simp only [encodeLayout]
        rcases forall₂_getElem? same index with ⟨missing, missing'⟩ | ⟨_, _, found, found', carried⟩
        · rw [missing, missing']
          rfl
        · obtain ⟨fields, fields', inner, inner', matching⟩ := carried
          simp only [found, found', inner, inner', Option.bind_eq_bind, Option.bind_some,
            ih _ _ (.product matching)]
  · exact ⟨fun _ _ _ => rfl, fun fields fields' same => by cases same <;> rfl⟩
  · intro item rest ihItem ihRest
    refine ⟨fun layout layout' matching => ?_, fun fields fields' same => ?_⟩
    · simp only [encodeEach, ihItem layout layout' matching, ihRest.1 layout layout' matching]
    · cases same with
      | nil => rfl
      | cons first others =>
          obtain ⟨layout, layout', found, found', matching⟩ := bisimulation _ _ first
          simp only [encodeFields, found, found', Option.bind_eq_bind, Option.bind_some,
            ihItem layout layout' matching, ihRest.2 _ _ others]

/-- Matching types encode every value alike. -/
theorem encode_eq (bisimulation : Bisimulation defs defs' Same) {ty : Ty Name} {ty' : Ty Other}
    (same : Same ty ty') (value : Value) : encode defs ty value = encode defs' ty' value := by
  obtain ⟨layout, layout', found, found', matching⟩ := bisimulation ty ty' same
  simp only [encode, found, found', Option.bind_eq_bind, Option.bind_some]
  exact encodeLayout_eq bisimulation value layout layout' matching

end Matching

end Scale
