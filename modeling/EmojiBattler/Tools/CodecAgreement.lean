import EmojiBattler.Library.Keyed
import EmojiBattler.Tools.CodecObject
import EmojiBattler.Tools.CodecTypesDefs

/-! # The chain and the front encode alike

`genRsLines` writes the definitions as they stand, into nested modules whose
paths the compiler resolves.  The object for the front has one flat space of
names and structs of their own for the variants with fields.  Every value has
the same encoding in both. -/

namespace EmojiBattler.Tools

open Scale

/-! ## What the Rust types mean

The text that `genRsLines` writes is not modelled, only the types that it
declares.  Their derived codecs take fields and variants in their order, as
SCALE documents. -/

/-- The first segment of a path is looked up in the module, and then, by `use
super::*`, in the modules around it. -/
def resolve (known : List Path) (mods : List Text) (path : Path) : Path :=
  match mods.inits.reverse.find? fun scope => (scope ++ path.take 1) ∈ known with
  | some scope => scope ++ path
  | none => path

def rsVariant (resolved : Path → Path) (variant : Variant (Ty Path)) : Payload Path :=
  .fields (variant.types.map (Ty.map resolved))

/-- A module is no type. -/
def rsLayout (resolved : Path → Path) : Item (Ty Path) → Option (Layout Path)
  | .mod => none
  | .struct params => some (.product ((params.map Prod.snd).map (Ty.map resolved)))
  | .tuple params => some (.product (params.map (Ty.map resolved)))
  | .enum params => some (.sum (params.map (rsVariant resolved)))

def rsDefs (defs : List (AnyDef (Ty Path))) (path : Path) : Option (Layout Path) :=
  let all := itemsOf defs []
  match all.find? fun located => located.path = path with
  | some located => rsLayout (resolve (all.map Located.path) located.mods) located.item
  | none =>
      match path with
      | [name] => builtinLayout? name
      | _ => none

/-! ## What both sides make of the definitions -/

def Item.isType : Item T → Bool
  | .mod => false
  | _ => true

/-- A type that is defined, or one that neither side defines. -/
def Declared (defs : List (AnyDef (Ty Path))) (path : Path) : Prop :=
  (∃ located ∈ itemsOf defs [], located.path = path ∧ located.item.isType) ∨
    path ∉ (itemsOf defs []).map Located.path ∧ path.length = 1 ∧ (builtin? (flatName path)).isSome

instance (defs : List (AnyDef (Ty Path))) : DecidablePred (Declared defs) :=
  fun _ => inferInstanceAs (Decidable (_ ∨ _))

/-- The names that a definition must leave to the types with parameters. -/
def containers : List Text :=
  ["Vec".toList, "BTreeMap".toList, "Option".toList, "Box".toList]

/-- Definitions that both sides can read. -/
structure Legible (defs : List (AnyDef (Ty Path))) : Prop where
  words : ∀ located ∈ itemsOf defs [], ∀ path ∈ located.refs, Words path
  names : ∀ located ∈ itemsOf defs [], containers.contains located.name = false
  paths : ((itemsOf defs []).map Located.path).Nodup
  variants : ∀ located ∈ itemsOf defs [], located.item.variantNames.Nodup
  keys : (((itemsOf defs []).flatMap tsEntries).map Prod.fst).Nodup
  builtins : ∀ key ∈ ((itemsOf defs []).flatMap tsEntries).map Prod.fst, builtin? key = none
  /-- Every path starts at the root, whichever module it is used in. -/
  rooted : ∀ located ∈ itemsOf defs [], ∀ path ∈ located.refs,
    resolve ((itemsOf defs []).map Located.path) located.mods path = path
  declared : ∀ located ∈ itemsOf defs [], ∀ path ∈ located.refs, Declared defs path

theorem legible_iff (defs : List (AnyDef (Ty Path))) :
    ((∀ located ∈ itemsOf defs [], ∀ path ∈ located.refs, Words path) ∧
      (∀ located ∈ itemsOf defs [], containers.contains located.name = false) ∧
      ((itemsOf defs []).map Located.path).Nodup ∧
      (∀ located ∈ itemsOf defs [], located.item.variantNames.Nodup) ∧
      (((itemsOf defs []).flatMap tsEntries).map Prod.fst).Nodup ∧
      (∀ key ∈ ((itemsOf defs []).flatMap tsEntries).map Prod.fst, builtin? key = none) ∧
      (∀ located ∈ itemsOf defs [], ∀ path ∈ located.refs,
        resolve ((itemsOf defs []).map Located.path) located.mods path = path) ∧
      ∀ located ∈ itemsOf defs [], ∀ path ∈ located.refs, Declared defs path) ↔ Legible defs := by
  refine ⟨fun checked => ?_, fun legible => ?_⟩
  · obtain ⟨words, names, paths, variants, keys, builtins, rooted, declared⟩ := checked
    exact ⟨words, names, paths, variants, keys, builtins, rooted, declared⟩
  · exact ⟨legible.words, legible.names, legible.paths, legible.variants, legible.keys,
      legible.builtins, legible.rooted, legible.declared⟩

instance (defs : List (AnyDef (Ty Path))) : Decidable (Legible defs) :=
  decidable_of_iff _ (legible_iff defs)

theorem Item.variantNames_map (f : T → S) (item : Item T) :
    (item.map f).variantNames = item.variantNames := by
  cases item with
  | enum params => simp [Item.map, Item.variantNames, Variant.map]
  | mod | struct | tuple => rfl

theorem map_fst_objText (obj : TsObj) : (objText obj).map Prod.fst = obj.map Prod.fst := by
  rw [objText, List.map_map]
  rfl

section Legible

variable {defs : List (AnyDef (Ty Path))}

theorem tsObj_eq (legible : Legible defs) :
    tsObj defs = (itemsOf defs []).flatMap tsEntries := by
  rw [tsObj, genTsObj_eq _ _ legible.variants]
  exact @assignAll_new _ [] _ (by rw [List.nil_append]; exact legible.keys)

/-- The file holds the object over types. -/
theorem writeTsFile_eq (legible : Legible defs) :
    writeTsFile (mapDefs rsText defs) = objText (tsObj defs) := by
  have items := itemsOf_mapDefs rsText defs []
  have variants : ∀ located ∈ itemsOf (mapDefs rsText defs) [],
      located.item.variantNames.Nodup := by
    rw [items]
    intro located member
    obtain ⟨original, listed, rfl⟩ := List.mem_map.mp member
    rw [Located.map, Item.variantNames_map]
    exact legible.variants original listed
  have written : (itemsOf (mapDefs rsText defs) []).flatMap
      (entries buildTsValue buildTsTupleParams) =
      objText ((itemsOf defs []).flatMap tsEntries) := by
    rw [items, List.flatMap_map, objText, List.map_flatMap]
    exact List.flatMap_congr fun located member => entries_rsText (legible.words located member)
  rw [writeTsFile, genTsObj_eq _ _ variants, written, tsObj_eq legible]
  exact @assignAll_new _ [] _ (by rw [List.nil_append, map_fst_objText]; exact legible.keys)

theorem tsDefs_of_mem (legible : Legible defs) {key : Text}
    {ty : TsType (Ty Text) (List (Ty Text))} (member : (key, ty) ∈ tsObj defs) :
    tsDefs (tsObj defs) key = some (tsLayout ty) := by
  have distinct : ((tsObj defs).map Prod.fst).Nodup := by
    rw [tsObj_eq legible]
    exact legible.keys
  have found := Keyed.find?_of_mem distinct member
  rw [tsDefs, found]

theorem tsDefs_entry (legible : Legible defs) {located : Located (Ty Path)} {key : Text}
    {ty : TsType (Ty Text) (List (Ty Text))} (member : located ∈ itemsOf defs [])
    (written : (key, ty) ∈ tsEntries located) :
    tsDefs (tsObj defs) key = some (tsLayout ty) := by
  refine tsDefs_of_mem legible ?_
  rw [tsObj_eq legible]
  exact List.mem_flatMap.mpr ⟨located, member, written⟩

theorem tsDefs_builtin (legible : Legible defs) {name : Text} (builtin : (builtin? name).isSome) :
    tsDefs (tsObj defs) name = builtinLayout? name := by
  have missing : (tsObj defs).find? (fun entry => entry.1 = name) = none := by
    rw [List.find?_eq_none, tsObj_eq legible]
    intro entry member same
    have own := legible.builtins _ (List.mem_map_of_mem member)
    rw [of_decide_eq_true same] at own
    rw [own] at builtin
    cases builtin
  rw [tsDefs, missing]

/-- The layout of an item whose names are all resolved. -/
def Item.layout : Item (Ty Path) → Option (Layout Path)
  | .mod => none
  | .struct params => some (.product (params.map Prod.snd))
  | .tuple params => some (.product params)
  | .enum params => some (.sum (params.map fun variant => .fields variant.types))

theorem map_resolved {resolved : Path → Path} {types : List (Ty Path)}
    (fixed : ∀ ty ∈ types, ∀ path ∈ ty.names, resolved path = path) :
    types.map (Ty.map resolved) = types := by
  have each : types.map (Ty.map resolved) = types.map id :=
    List.map_congr_left fun ty member => (Ty.map_congr (fixed ty member)).trans ty.map_id
  rw [each, List.map_id]

theorem rsLayout_eq {resolved : Path → Path} {item : Item (Ty Path)}
    (fixed : ∀ ty ∈ item.types, ∀ path ∈ ty.names, resolved path = path) :
    rsLayout resolved item = item.layout := by
  cases item with
  | mod => rfl
  | struct params => exact congrArg (some ∘ Layout.product) (map_resolved fixed)
  | tuple params => exact congrArg (some ∘ Layout.product) (map_resolved fixed)
  | enum params =>
      refine congrArg (some ∘ Layout.sum) ?_
      refine List.map_congr_left fun variant member => ?_
      exact congrArg Payload.fields (map_resolved fun ty used =>
        fixed ty (List.mem_flatMap.mpr ⟨variant, member, used⟩))

theorem rsDefs_of_mem (legible : Legible defs) {located : Located (Ty Path)}
    (member : located ∈ itemsOf defs []) : rsDefs defs located.path = located.item.layout := by
  have found := Keyed.find?_of_mem legible.paths member
  have layout : rsLayout (resolve ((itemsOf defs []).map Located.path) located.mods) located.item =
      located.item.layout := by
    refine rsLayout_eq fun ty listed path used => ?_
    exact legible.rooted located member path (List.mem_flatMap.mpr ⟨ty, listed, used⟩)
  simp only [rsDefs, found]
  exact layout

theorem rsDefs_builtin {name : Text} (undefined : [name] ∉ (itemsOf defs []).map Located.path) :
    rsDefs defs [name] = builtinLayout? name := by
  have missing : (itemsOf defs []).find? (fun located => located.path = [name]) = none := by
    rw [List.find?_eq_none]
    intro located member same
    exact undefined (List.mem_map.mpr ⟨located, member, of_decide_eq_true same⟩)
  simp only [rsDefs, missing]

theorem tsObj_readable (legible : Legible defs) : ReadableObj (tsObj defs) := by
  intro entry member ty used
  rw [tsObj_eq legible] at member
  obtain ⟨located, listed, written⟩ := List.mem_flatMap.mp member
  obtain ⟨original, carried, rfl⟩ := List.mem_map.mp (mem_tsEntries_types written used)
  exact readable_map fun path mentioned =>
    legible.words located listed path (List.mem_flatMap.mpr ⟨original, carried, mentioned⟩)

/-! ## The agreement -/

/-- A type and what the object holds of it, where both sides know its names. -/
def Same (defs : List (AnyDef (Ty Path))) (ty : Ty Path) (ty' : Ty Text) : Prop :=
  ty' = ty.map flatName ∧ ∀ path ∈ ty.names, Declared defs path

theorem same_fields {types : List (Ty Path)}
    (declared : ∀ ty ∈ types, ∀ path ∈ ty.names, Declared defs path) :
    List.Forall₂ (Same defs) types (types.map (Ty.map flatName)) := by
  rw [List.forall₂_map_right_iff, List.forall₂_same]
  exact fun ty member => ⟨rfl, declared ty member⟩

theorem Legible.declared_types (legible : Legible defs) {located : Located (Ty Path)}
    (member : located ∈ itemsOf defs []) :
    ∀ ty ∈ located.item.types, ∀ path ∈ ty.names, Declared defs path :=
  fun ty listed path used =>
    legible.declared located member path (List.mem_flatMap.mpr ⟨ty, listed, used⟩)

theorem tsDefs_ownStruct (legible : Legible defs) {located : Located (Ty Path)} {name : Text}
    {variants : List (Variant (Ty Path))} {params : List (Text × Ty Path)}
    (member : located ∈ itemsOf defs []) (enum : located.item = .enum variants)
    (listed : ⟨name, some (.struct params)⟩ ∈ variants) :
    tsDefs (tsObj defs) (flatName located.path ++ ['_'] ++ name) =
      some (.product ((params.map Prod.snd).map (Ty.map flatName))) := by
  have written : (flatName located.path ++ ['_'] ++ name,
      .struct (buildTsStructParams (Ty.map flatName) params)) ∈ tsEntries located := by
    rw [tsEntries, entries, enum]
    exact List.mem_append_left _ (List.mem_filterMap.mpr ⟨_, listed, rfl⟩)
  rw [tsDefs_entry legible member written, tsLayout, buildTsStructParams, List.map_map,
    List.map_map]
  rfl

/-- A variant with fields of its own matches the name of its struct. -/
theorem matchingPayload (legible : Legible defs) {located : Located (Ty Path)}
    {variants : List (Variant (Ty Path))} {variant : Variant (Ty Path)}
    (member : located ∈ itemsOf defs []) (enum : located.item = .enum variants)
    (listed : variant ∈ variants) :
    MatchingPayload (rsDefs defs) (tsDefs (tsObj defs)) (Same defs) (.fields variant.types)
      (tsVariant
        (variantEntry (List.map (Ty.map flatName)) (flatName located.path) variant).2) := by
  have declared : ∀ ty ∈ variant.types, ∀ path ∈ ty.names, Declared defs path := by
    have all := legible.declared_types member
    rw [enum] at all
    exact fun ty used => all ty (List.mem_flatMap.mpr ⟨variant, listed, used⟩)
  refine ⟨variant.types, variant.types.map (Ty.map flatName), rfl, ?_, same_fields declared⟩
  obtain ⟨name, params⟩ := variant
  cases params with
  | none => rfl
  | some params =>
      cases params with
      | tuple types => rfl
      | struct params => exact tsDefs_ownStruct legible member enum listed

theorem tsDefs_ownType (legible : Legible defs) {located : Located (Ty Path)}
    {ty : TsType (Ty Text) (List (Ty Text))} (member : located ∈ itemsOf defs [])
    (own : ownType? (Ty.map flatName) (List.map (Ty.map flatName)) located = some ty) :
    tsDefs (tsObj defs) (flatName located.path) = some (tsLayout ty) := by
  refine tsDefs_entry legible member ?_
  rw [tsEntries, entries, own]
  exact List.mem_append_right _ List.mem_cons_self

theorem matching_item (legible : Legible defs) {located : Located (Ty Path)}
    (member : located ∈ itemsOf defs []) (isType : located.item.isType) :
    ∃ layout layout', rsDefs defs located.path = some layout ∧
      tsDefs (tsObj defs) (flatName located.path) = some layout' ∧
      Matching (rsDefs defs) (tsDefs (tsObj defs)) (Same defs) layout layout' := by
  have declared := legible.declared_types member
  rw [rsDefs_of_mem legible member]
  cases item : located.item with
  | mod =>
      rw [item] at isType
      cases isType
  | struct params =>
      have own := tsDefs_ownType legible member (by rw [ownType?, item])
      rw [item] at declared
      refine ⟨_, _, rfl, own, ?_⟩
      have fields := same_fields declared
      simp only [tsLayout, buildTsStructParams, List.map_map]
      rw [Item.types, List.map_map] at fields
      exact .product fields
  | tuple params =>
      have own := tsDefs_ownType legible member (by rw [ownType?, item])
      rw [item] at declared
      exact ⟨_, _, rfl, own, .product (same_fields declared)⟩
  | enum params =>
      have own := tsDefs_ownType legible member (by rw [ownType?, item])
      refine ⟨_, _, rfl, own, ?_⟩
      simp only [tsLayout, List.map_map]
      refine .sum ?_
      rw [List.forall₂_map_left_iff, List.forall₂_map_right_iff, List.forall₂_same]
      exact fun variant listed => matchingPayload legible member item listed

theorem bisimulation (legible : Legible defs) :
    Bisimulation (rsDefs defs) (tsDefs (tsObj defs)) (Same defs) := by
  intro ty ty' same
  obtain ⟨rfl, declared⟩ := same
  induction ty with
  | ref path =>
      rcases declared path (List.mem_singleton_self path) with defined | ⟨undefined, single, known⟩
      · obtain ⟨located, member, rfl, isType⟩ := defined
        exact matching_item legible member isType
      · obtain ⟨name, rfl⟩ := List.length_eq_one_iff.mp single
        have flat : flatName [name] = name := List.intercalate_singleton ..
        rw [flat] at known
        obtain ⟨⟨bound, width⟩, found⟩ := Option.isSome_iff_exists.mp known
        refine ⟨.number bound width, .number bound width, ?_, ?_, .number bound width⟩
        · rw [Ty.layout, rsDefs_builtin undefined, builtinLayout?, found]
          rfl
        · rw [Ty.map, Ty.layout, flat, tsDefs_builtin legible known, builtinLayout?, found]
          rfl
  | vec item => exact ⟨_, _, rfl, rfl, .sequence ⟨rfl, declared⟩ none⟩
  | array item length => exact ⟨_, _, rfl, rfl, .sequence ⟨rfl, declared⟩ (some length)⟩
  | btreeMap key value =>
      simp only [Ty.names, List.forall_mem_append] at declared
      exact ⟨_, _, rfl, rfl, .entries ⟨rfl, declared.1⟩ ⟨rfl, declared.2⟩⟩
  | option item => exact ⟨_, _, rfl, rfl, .option ⟨rfl, declared⟩⟩
  | box item ih => exact ih declared

theorem Declared.of_type {located : Located (Ty Path)} (member : located ∈ itemsOf defs [])
    (isType : located.item.isType) : Declared defs located.path :=
  .inl ⟨located, member, rfl, isType⟩

end Legible

end EmojiBattler.Tools
