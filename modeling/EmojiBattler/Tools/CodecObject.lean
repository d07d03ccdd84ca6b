import EmojiBattler.Tools.CodecText

/-! # The object for the front

The generator goes through nested modules and assigns to one object.  What it
assigns is read off the definitions by their places, and is the same whether
the types are given or their texts. -/

namespace EmojiBattler.Tools

open Scale

/-! ## Definitions by their places -/

inductive Item (T : Type) where
  | mod
  | struct (params : List (Text × T))
  | tuple (params : List T)
  | enum (params : List (Variant T))

/-- A module or a type in the module that defines it. -/
structure Located (T : Type) where
  mods : List Text
  name : Text
  item : Item T

def Located.path (located : Located T) : Path := located.mods ++ [located.name]

mutual

def AnyDef.items : AnyDef T → List Text → List (Located T)
  | .mod name params, mods => ⟨mods, name, .mod⟩ :: itemsOf params (mods ++ [name])
  | .struct name params, mods => [⟨mods, name, .struct params⟩]
  | .tuple name params, mods => [⟨mods, name, .tuple params⟩]
  | .enum name params, mods => [⟨mods, name, .enum params⟩]
termination_by structural definition => definition

/-- What the definitions define, in order. -/
def itemsOf : List (AnyDef T) → List Text → List (Located T)
  | [], _ => []
  | definition :: rest, mods => definition.items mods ++ itemsOf rest mods
termination_by structural defs => defs

end

def Params.types : Params T → List T
  | .struct params => params.map Prod.snd
  | .tuple params => params

def Variant.types (variant : Variant T) : List T :=
  match variant.params with
  | some params => params.types
  | none => []

def Item.types : Item T → List T
  | .mod => []
  | .struct params => params.map Prod.snd
  | .tuple params => params
  | .enum params => params.flatMap Variant.types

/-- The names that an item uses. -/
def Located.refs (located : Located (Ty Path)) : List Path := located.item.types.flatMap Ty.names

def Params.map (f : T → S) : Params T → Params S
  | .struct params => .struct (params.map fun (k, v) => (k, f v))
  | .tuple params => .tuple (params.map f)

def Variant.map (f : T → S) (variant : Variant T) : Variant S where
  name := variant.name
  params := variant.params.map (Params.map f)

def Item.map (f : T → S) : Item T → Item S
  | .mod => .mod
  | .struct params => .struct (params.map fun (k, v) => (k, f v))
  | .tuple params => .tuple (params.map f)
  | .enum params => .enum (params.map (Variant.map f))

def Located.map (f : T → S) (located : Located T) : Located S where
  mods := located.mods
  name := located.name
  item := located.item.map f

mutual

def AnyDef.map (f : T → S) : AnyDef T → AnyDef S
  | .mod name params => .mod name (mapDefs f params)
  | .struct name params => .struct name (params.map fun (k, v) => (k, f v))
  | .tuple name params => .tuple name (params.map f)
  | .enum name params => .enum name (params.map (Variant.map f))
termination_by structural definition => definition

def mapDefs (f : T → S) : List (AnyDef T) → List (AnyDef S)
  | [] => []
  | definition :: rest => definition.map f :: mapDefs f rest
termination_by structural defs => defs

end

theorem itemsOf_mapDefs (f : T → S) (defs : List (AnyDef T)) (mods : List Text) :
    itemsOf (mapDefs f defs) mods = (itemsOf defs mods).map (Located.map f) := by
  induction defs using AnyDef.induct generalizing mods with
  | nil => rfl
  | mod name params rest ihParams ihRest =>
      simp only [mapDefs, AnyDef.map, itemsOf, AnyDef.items, ihParams, ihRest, List.map_append,
        List.map_cons]
      rfl
  | struct name params rest ih | tuple name params rest ih | enum name params rest ih =>
      simp only [mapDefs, AnyDef.map, itemsOf, AnyDef.items, ih, List.map_append, List.map_cons]
      rfl

/-! ## What the object means

The object is a registry of polkadot-js: a struct is an object of its fields, a
tuple a string in parentheses, and the places of the variants are those in
`_enum`. -/

/-- Bound and width of the types that neither side defines. -/
def builtin? (name : Text) : Option (Nat × Nat) :=
  if name = "u8".toList then some (2 ^ 8, 1)
  else if name = "u16".toList then some (2 ^ 16, 2)
  else if name = "u32".toList then some (2 ^ 32, 4)
  else if name = "u64".toList then some (2 ^ 64, 8)
  else if name = "u128".toList then some (2 ^ 128, 16)
  else if name = "bool".toList then some (2, 1)
  else none

def builtinLayout? (name : Text) : Option (Layout Name) :=
  (builtin? name).map fun (bound, width) => .number bound width

abbrev TsObj := List (Text × TsType (Ty Text) (List (Ty Text)))

def tsVariant : TsVariant (List (Ty Text)) → Payload Text
  | .null => .fields []
  | .named name => .type (.ref name)
  | .tuple types => .fields types

def tsLayout : TsType (Ty Text) (List (Ty Text)) → Layout Text
  | .struct params => .product (params.map Prod.snd)
  | .tuple types => .product types
  | .enum variants => .sum (variants.map fun (_, variant) => tsVariant variant)

def tsDefs (obj : TsObj) (name : Text) : Option (Layout Text) :=
  match obj.find? fun entry => entry.1 = name with
  | some (_, ty) => some (tsLayout ty)
  | none => builtinLayout? name

def TsVariant.text : TsVariant (List (Ty Text)) → TsVariant Text
  | .null => .null
  | .named name => .named name
  | .tuple types => .tuple (tupleText types)

def TsType.text : TsType (Ty Text) (List (Ty Text)) → TsType Text Text
  | .struct params => .struct (params.map fun (k, v) => (k, tsText v))
  | .tuple types => .tuple (tupleText types)
  | .enum variants => .enum (variants.map fun (k, variant) => (k, variant.text))

/-- The object as it is written. -/
def objText (obj : TsObj) : List (Text × TsType Text Text) :=
  obj.map fun (key, ty) => (key, ty.text)

def TsVariant.types : TsVariant (List (Ty Text)) → List (Ty Text)
  | .tuple types => types
  | _ => []

def TsType.types : TsType (Ty Text) (List (Ty Text)) → List (Ty Text)
  | .struct params => params.map Prod.snd
  | .tuple types => types
  | .enum variants => variants.flatMap fun (_, variant) => variant.types

/-- All names in the object can be told apart from what stands around them. -/
def ReadableObj (obj : TsObj) : Prop := ∀ entry ∈ obj, ∀ ty ∈ entry.2.types, Readable ty

theorem map_inj_on {α β : Type} {f : α → β} {first second : List α}
    (inj : ∀ x ∈ first, ∀ y ∈ second, f x = f y → x = y) (same : first.map f = second.map f) :
    first = second := by
  induction first generalizing second with
  | nil => exact (List.map_eq_nil_iff.mp same.symm).symm
  | cons x rest ih =>
      cases second with
      | nil => cases same
      | cons y others =>
          rw [List.map_cons, List.map_cons, List.cons.injEq] at same
          rw [inj x List.mem_cons_self y List.mem_cons_self same.1,
            ih (fun x member y listed => inj x (List.mem_cons_of_mem _ member) y
              (List.mem_cons_of_mem _ listed)) same.2]

theorem TsVariant.text_inj {variant variant' : TsVariant (List (Ty Text))}
    (readable : ∀ ty ∈ variant.types, Readable ty) (readable' : ∀ ty ∈ variant'.types, Readable ty)
    (same : variant.text = variant'.text) : variant = variant' := by
  cases variant with
  | null =>
      cases variant' with
      | null => rfl
      | named | tuple => cases same
  | named name =>
      cases variant' with
      | named name' => rw [TsVariant.named.inj same]
      | null | tuple => cases same
  | tuple types =>
      cases variant' with
      | tuple types' =>
          exact congrArg TsVariant.tuple
            (tupleText_inj readable readable' (TsVariant.tuple.inj same))
      | null | named => cases same

theorem TsType.text_inj {ty ty' : TsType (Ty Text) (List (Ty Text))}
    (readable : ∀ item ∈ ty.types, Readable item) (readable' : ∀ item ∈ ty'.types, Readable item)
    (same : ty.text = ty'.text) : ty = ty' := by
  cases ty with
  | struct params =>
      cases ty' with
      | tuple | enum => cases same
      | struct params' =>
          refine congrArg TsType.struct (map_inj_on ?_ (TsType.struct.inj same))
          intro param member param' member' equal
          obtain ⟨key, text⟩ := Prod.mk.inj equal
          exact Prod.ext key (tsText_inj (readable _ (List.mem_map_of_mem member))
            (readable' _ (List.mem_map_of_mem member')) text)
  | tuple types =>
      cases ty' with
      | tuple types' =>
          exact congrArg TsType.tuple (tupleText_inj readable readable' (TsType.tuple.inj same))
      | struct | enum => cases same
  | enum variants =>
      cases ty' with
      | struct | tuple => cases same
      | enum variants' =>
          refine congrArg TsType.enum (map_inj_on ?_ (TsType.enum.inj same))
          intro entry member entry' member' equal
          obtain ⟨key, text⟩ := Prod.mk.inj equal
          have own : ∀ ty ∈ entry.2.types, Readable ty :=
            fun ty used => readable ty (List.mem_flatMap.mpr ⟨entry, member, used⟩)
          have own' : ∀ ty ∈ entry'.2.types, Readable ty :=
            fun ty used => readable' ty (List.mem_flatMap.mpr ⟨entry', member', used⟩)
          exact Prod.ext key (TsVariant.text_inj own own' text)

/-- What is written can be read in one way. -/
theorem objText_inj {obj obj' : TsObj} (readable : ReadableObj obj) (readable' : ReadableObj obj')
    (same : objText obj = objText obj') : obj = obj' := by
  refine map_inj_on ?_ same
  intro entry member entry' member' equal
  obtain ⟨key, text⟩ := Prod.mk.inj equal
  exact Prod.ext key (TsType.text_inj (readable entry member) (readable' entry' member') text)

/-! ## What is generated -/

section Generated

variable {T V W : Type} (value : T → V) (tuple : List T → W)

def variantEntry (name : Text) (p : Variant T) : Text × TsVariant W :=
  (p.name, match p.params with
    | some (.struct _) => .named (name ++ ['_'] ++ p.name)
    | some (.tuple params) => .tuple (tuple params)
    | none => .null)

/-- The struct of its own that a variant with named fields gets. -/
def ownStruct? (name : Text) (p : Variant T) : Option (Text × TsType V W) :=
  match p.params with
  | some (.struct params) =>
      some (name ++ ['_'] ++ p.name, .struct (buildTsStructParams value params))
  | _ => none

def ownType? (located : Located T) : Option (TsType V W) :=
  match located.item with
  | .mod => none
  | .struct params => some (.struct (buildTsStructParams value params))
  | .tuple params => some (.tuple (tuple params))
  | .enum params => some (.enum (params.map (variantEntry tuple (flatName located.path))))

/-- What is assigned for a definition. -/
def entries (located : Located T) : List (Text × TsType V W) :=
  (match located.item with
    | .enum params => params.filterMap (ownStruct? value (flatName located.path))
    | _ => []) ++ (ownType? value tuple located).toList.map fun ty => (flatName located.path, ty)

def assignAll (obj added : List (Text × A)) : List (Text × A) :=
  added.foldl (fun obj entry => assign obj entry.1 entry.2) obj

theorem assignAll_append (obj first second : List (Text × A)) :
    assignAll obj (first ++ second) = assignAll (assignAll obj first) second :=
  List.foldl_append

/-- New keys are appended. -/
theorem assignAll_new {obj added : List (Text × A)}
    (distinct : ((obj ++ added).map Prod.fst).Nodup) : assignAll obj added = obj ++ added := by
  induction added generalizing obj with
  | nil => simp [assignAll]
  | cons entry rest ih =>
      have fresh : entry.1 ∉ obj.map Prod.fst := by
        intro member
        rw [List.map_append, List.map_cons, List.nodup_append] at distinct
        exact distinct.2.2 _ member _ List.mem_cons_self rfl
      rw [assignAll, List.foldl_cons, assign, if_neg fresh]
      have more := @ih (obj ++ [(entry.1, entry.2)]) (by simpa using distinct)
      rw [assignAll] at more
      rw [more, List.append_assoc]
      rfl

theorem genTsVariant_foldl (name : Text) (variants : List (Variant T))
    (en : List (Text × TsVariant W)) (obj : List (Text × TsType V W)) :
    variants.foldl (genTsVariant value tuple name) (en, obj) =
      (assignAll en (variants.map (variantEntry tuple name)),
        assignAll obj (variants.filterMap (ownStruct? value name))) := by
  induction variants generalizing en obj with
  | nil => rfl
  | cons p rest ih =>
      obtain ⟨pName, params⟩ := p
      cases params with
      | none => exact ih ..
      | some params =>
          cases params with
          | struct params => exact ih ..
          | tuple params => exact ih ..

def Item.variantNames : Item T → List Text
  | .enum params => params.map Variant.name
  | _ => []

theorem genTsObj_eq {defs : List (AnyDef T)} {obj : List (Text × TsType V W)} {mods : List Text}
    (distinct : ∀ located ∈ itemsOf defs mods, located.item.variantNames.Nodup) :
    genTsObj value tuple defs obj mods =
      assignAll obj ((itemsOf defs mods).flatMap (entries value tuple)) := by
  induction defs using AnyDef.induct generalizing obj mods with
  | nil => rfl
  | mod name params rest ihParams ihRest =>
      simp only [itemsOf, AnyDef.items, List.cons_append, List.forall_mem_cons,
        List.forall_mem_append] at distinct
      rw [genTsObj, genTsDef, ihParams distinct.2.1, ihRest distinct.2.2, ← assignAll_append]
      simp only [itemsOf, AnyDef.items, List.cons_append, List.flatMap_cons, List.flatMap_append]
      rfl
  | struct name params rest ih | tuple name params rest ih =>
      simp only [itemsOf, AnyDef.items, List.cons_append, List.nil_append,
        List.forall_mem_cons] at distinct
      rw [genTsObj, genTsDef, ih distinct.2]
      rfl
  | enum name params rest ih =>
      simp only [itemsOf, AnyDef.items, List.cons_append, List.nil_append,
        List.forall_mem_cons] at distinct
      have keys : (params.map (variantEntry tuple (buildTsName name mods))).map Prod.fst =
          params.map Variant.name := by rw [List.map_map]; rfl
      have en := @assignAll_new _ []
        (params.map (variantEntry tuple (buildTsName name mods)))
        (by rw [List.nil_append, keys]; exact distinct.1)
      rw [genTsObj, genTsDef, ih distinct.2, genTsVariant_foldl, en]
      simp only [itemsOf, AnyDef.items, List.cons_append, List.nil_append, List.flatMap_cons,
        assignAll_append]
      rw [entries, assignAll_append]
      rfl

end Generated

/-- The object over types in place of their texts. -/
def tsObj (defs : List (AnyDef (Ty Path))) : TsObj :=
  genTsObj (Ty.map flatName) (List.map (Ty.map flatName)) defs [] []

def tsEntries : Located (Ty Path) → TsObj :=
  entries (Ty.map flatName) (List.map (Ty.map flatName))

theorem buildTsStructParams_rsText {params : List (Text × Ty Path)}
    (words : ∀ ty ∈ params.map Prod.snd, ∀ path ∈ ty.names, Words path) :
    buildTsStructParams buildTsValue (params.map fun (k, v) => (k, rsText v)) =
      (buildTsStructParams (Ty.map flatName) params).map fun (k, v) => (k, tsText v) := by
  simp only [buildTsStructParams, List.map_map]
  refine List.map_congr_left fun param member => ?_
  simp only [Function.comp, buildTsValue_rsText (words _ (List.mem_map_of_mem member))]

section Variants

variable {name : Text} {p : Variant (Ty Path)}

theorem variantEntry_rsText (words : ∀ ty ∈ p.types, ∀ path ∈ ty.names, Words path) :
    variantEntry buildTsTupleParams name (p.map rsText) =
      ((variantEntry (List.map (Ty.map flatName)) name p).1,
        (variantEntry (List.map (Ty.map flatName)) name p).2.text) := by
  obtain ⟨pName, params⟩ := p
  cases params with
  | none => rfl
  | some params =>
      cases params with
      | struct params => rfl
      | tuple params =>
          exact congrArg (fun text => (pName, TsVariant.tuple text))
            (buildTsTupleParams_rsText words)

theorem ownStruct?_rsText (words : ∀ ty ∈ p.types, ∀ path ∈ ty.names, Words path) :
    ownStruct? (W := Text) buildTsValue name (p.map rsText) =
      (ownStruct? (Ty.map flatName) name p).map fun entry => (entry.1, entry.2.text) := by
  obtain ⟨pName, params⟩ := p
  cases params with
  | none => rfl
  | some params =>
      cases params with
      | tuple params => rfl
      | struct params =>
          exact congrArg (fun params => some (name ++ ['_'] ++ pName, TsType.struct params))
            (buildTsStructParams_rsText words)

end Variants

theorem entries_rsText {located : Located (Ty Path)} (words : ∀ path ∈ located.refs, Words path) :
    entries buildTsValue buildTsTupleParams (located.map rsText) = objText (tsEntries located) := by
  obtain ⟨mods, name, item⟩ := located
  have inside : ∀ ty ∈ item.types, ∀ path ∈ ty.names, Words path :=
    fun ty member path used => words path (List.mem_flatMap.mpr ⟨ty, member, used⟩)
  cases item with
  | mod => rfl
  | struct params =>
      exact congrArg (fun params => [(flatName (mods ++ [name]), TsType.struct params)])
        (buildTsStructParams_rsText inside)
  | tuple params =>
      exact congrArg (fun text => [(flatName (mods ++ [name]), TsType.tuple text)])
        (buildTsTupleParams_rsText inside)
  | enum params =>
      have each : ∀ p ∈ params, ∀ ty ∈ p.types, ∀ path ∈ ty.names, Words path :=
        fun p member ty used => inside ty (List.mem_flatMap.mpr ⟨p, member, used⟩)
      have structs : (params.map (Variant.map rsText)).filterMap
          (ownStruct? (W := Text) buildTsValue (flatName (mods ++ [name]))) =
          (params.filterMap (ownStruct? (Ty.map flatName) (flatName (mods ++ [name])))).map
            fun entry => (entry.1, entry.2.text) := by
        rw [List.filterMap_map, List.map_filterMap]
        exact List.filterMap_congr fun p member => ownStruct?_rsText (each p member)
      have en : (params.map (Variant.map rsText)).map
          (variantEntry buildTsTupleParams (flatName (mods ++ [name]))) =
          (params.map (variantEntry (List.map (Ty.map flatName)) (flatName (mods ++ [name])))).map
            fun (k, variant) => (k, variant.text) := by
        rw [List.map_map, List.map_map]
        exact List.map_congr_left fun p member => variantEntry_rsText (each p member)
      simp only [entries, tsEntries, ownType?, Located.map, Item.map, Located.path, structs, en,
        objText, List.map_append]
      rfl

/-! ## Types in the object -/

theorem ownStruct?_types {name : Text} {p : Variant (Ty Path)}
    {entry : Text × TsType (Ty Text) (List (Ty Text))}
    (own : ownStruct? (Ty.map flatName) name p = some entry) :
    entry.2.types = p.types.map (Ty.map flatName) := by
  obtain ⟨pName, params⟩ := p
  cases params with
  | none => cases own
  | some params =>
      cases params with
      | tuple types => cases own
      | struct params =>
          cases own
          simp [TsType.types, buildTsStructParams, Variant.types, Params.types]

/-- Fields of a variant are in a struct of their own, if they have names. -/
theorem mem_variantEntry_types {name : Text} {p : Variant (Ty Path)} {ty : Ty Text}
    (used : ty ∈ (variantEntry (List.map (Ty.map flatName)) name p).2.types) :
    ty ∈ p.types.map (Ty.map flatName) := by
  obtain ⟨pName, params⟩ := p
  cases params with
  | none => cases used
  | some params =>
      cases params with
      | struct params => cases used
      | tuple types => exact used

theorem ownType?_types {located : Located (Ty Path)} {own : TsType (Ty Text) (List (Ty Text))}
    (found : ownType? (Ty.map flatName) (List.map (Ty.map flatName)) located = some own)
    {ty : Ty Text} (used : ty ∈ own.types) : ty ∈ located.item.types.map (Ty.map flatName) := by
  obtain ⟨mods, name, item⟩ := located
  cases item with
  | mod => cases found
  | struct params =>
      cases found
      simpa [TsType.types, buildTsStructParams, Item.types] using used
  | tuple types =>
      cases found
      exact used
  | enum variants =>
      cases found
      obtain ⟨entry, member, inner⟩ := List.mem_flatMap.mp used
      obtain ⟨variant, listed, rfl⟩ := List.mem_map.mp member
      obtain ⟨original, carried, rfl⟩ := List.mem_map.mp (mem_variantEntry_types inner)
      exact List.mem_map_of_mem (List.mem_flatMap.mpr ⟨variant, listed, carried⟩)

theorem mem_tsEntries_types {located : Located (Ty Path)}
    {entry : Text × TsType (Ty Text) (List (Ty Text))} (written : entry ∈ tsEntries located)
    {ty : Ty Text} (used : ty ∈ entry.2.types) : ty ∈ located.item.types.map (Ty.map flatName) := by
  rw [tsEntries, entries] at written
  rcases List.mem_append.mp written with structs | whole
  · obtain ⟨mods, name, item⟩ := located
    cases item with
    | mod | struct | tuple => cases structs
    | enum variants =>
        obtain ⟨variant, listed, own⟩ := List.mem_filterMap.mp structs
        rw [ownStruct?_types own] at used
        obtain ⟨original, carried, rfl⟩ := List.mem_map.mp used
        exact List.mem_map_of_mem (List.mem_flatMap.mpr ⟨variant, listed, carried⟩)
  · obtain ⟨own, found, rfl⟩ := List.mem_map.mp whole
    exact ownType?_types (Option.mem_toList.mp found) used

end EmojiBattler.Tools
