import EmojiBattler.Tools.CodecTypes

/-! # Types in text

The definitions name types by paths, the object by flat names.  The text of a
type can be read back, so that the object holds what the generator means. -/

namespace EmojiBattler.Tools

open Scale

/-- The text of a type over the texts of its names. -/
def tyText (nameText : Name → Text) : Ty Name → Text
  | .ref name => nameText name
  | .vec item => "Vec<".toList ++ tyText nameText item ++ ">".toList
  | .array item length =>
      "[".toList ++ tyText nameText item ++ ("; ".toList ++ Nat.toDigits 10 length ++ "]".toList)
  | .btreeMap key value =>
      "BTreeMap<".toList ++ (tyText nameText key ++ (", ".toList ++ tyText nameText value)) ++
        ">".toList
  | .option item => "Option<".toList ++ tyText nameText item ++ ">".toList
  | .box item => "Box<".toList ++ tyText nameText item ++ ">".toList

section

variable (nameText : Name → Text) (item : Ty Name)

@[simp] theorem tyText_ref (name : Name) : tyText nameText (.ref name) = nameText name := rfl

@[simp] theorem tyText_vec :
    tyText nameText (.vec item) = "Vec<".toList ++ tyText nameText item ++ ">".toList := rfl

@[simp] theorem tyText_array (length : Nat) : tyText nameText (.array item length) =
    "[".toList ++ tyText nameText item ++ ("; ".toList ++ Nat.toDigits 10 length ++ "]".toList) :=
  rfl

@[simp] theorem tyText_btreeMap (key value : Ty Name) : tyText nameText (.btreeMap key value) =
    "BTreeMap<".toList ++ (tyText nameText key ++ (", ".toList ++ tyText nameText value)) ++
      ">".toList := rfl

@[simp] theorem tyText_option :
    tyText nameText (.option item) = "Option<".toList ++ tyText nameText item ++ ">".toList := rfl

@[simp] theorem tyText_box :
    tyText nameText (.box item) = "Box<".toList ++ tyText nameText item ++ ">".toList := rfl

end

def rsText : Ty Path → Text := tyText (List.intercalate "::".toList)

def tsText : Ty Text → Text := tyText id

def tupleText (types : List (Ty Text)) : Text :=
  "(".toList ++ List.intercalate ", ".toList (types.map tsText) ++ ")".toList

/-- The name of a type in the object. -/
def flatName (path : Path) : Text := List.intercalate ['_'] path

def Words (path : Path) : Prop :=
  path ≠ [] ∧ ∀ segment ∈ path, segment ≠ [] ∧ segment.all isWord

instance : DecidablePred Words :=
  fun path =>
    inferInstanceAs (Decidable (path ≠ [] ∧ ∀ segment ∈ path, segment ≠ [] ∧ segment.all isWord))

theorem joinSegments_path {path : Path} (words : Words path) :
    joinSegments (List.intercalate "::".toList path) = flatName path := by
  obtain ⟨_, each⟩ := words
  induction path with
  | nil => rfl
  | cons segment rest ih =>
      obtain ⟨own, others⟩ := List.forall_mem_cons.mp each
      have plain : ':' ∉ segment := words_plain (List.all_eq_true.mp own.2)
      cases rest with
      | nil => simpa [flatName, List.intercalate_singleton] using joinSegments_eq plain
      | cons next more =>
          rw [flatName, List.intercalate_cons_cons, List.intercalate_cons_cons,
            List.append_assoc, List.append_assoc, joinSegments_append plain]
          exact congrArg (segment ++ '_' :: ·) (ih (List.cons_ne_nil next more) others)

theorem flatName_words {path : Path} (words : Words path) :
    flatName path ≠ [] ∧ (flatName path).all isWord := by
  obtain ⟨nonempty, each⟩ := words
  induction path with
  | nil => exact absurd rfl nonempty
  | cons segment rest ih =>
      obtain ⟨own, others⟩ := List.forall_mem_cons.mp each
      cases rest with
      | nil => simpa [flatName, List.intercalate_singleton] using own
      | cons next more =>
          have following := (ih (List.cons_ne_nil next more) others).2
          rw [flatName, List.intercalate_cons_cons]
          refine ⟨?_, ?_⟩
          · simp [own.1]
          · rw [List.all_append, List.all_append, own.2]
            exact following

theorem toDigits_plain (n : Nat) : ':' ∉ Nat.toDigits 10 n :=
  digits_plain fun _ member => Nat.isDigit_of_mem_toDigits (by decide) (by decide) member

theorem joinSegments_rsText {ty : Ty Path} (words : ∀ path ∈ ty.names, Words path) :
    joinSegments (rsText ty) = tsText (ty.map flatName) := by
  induction ty with
  | ref path => exact joinSegments_path (words path (List.mem_singleton_self path))
  | vec item ih | option item ih | box item ih =>
      simp only [Ty.names] at words
      have inner := ih words
      simp only [rsText, tsText, Ty.map, tyText_vec, tyText_option, tyText_box] at inner ⊢
      rw [joinSegments_between _ (by decide) (by decide), inner]
  | array item length ih =>
      simp only [Ty.names] at words
      have inner := ih words
      have closing : ':' ∉ "; ".toList ++ Nat.toDigits 10 length ++ "]".toList := by
        simp only [List.mem_append, not_or]
        exact ⟨⟨by decide, toDigits_plain length⟩, by decide⟩
      simp only [rsText, tsText, Ty.map, tyText_array] at inner ⊢
      rw [joinSegments_between _ (by decide) closing, inner]
  | btreeMap key value ihKey ihValue =>
      simp only [Ty.names, List.forall_mem_append] at words
      have keyText := ihKey words.1
      have valueText := ihValue words.2
      have comma (rest : Text) : (", ".toList ++ rest).head? ≠ some ':' := by
        intro head
        cases head
      simp only [rsText, tsText, Ty.map, tyText_btreeMap] at keyText valueText ⊢
      rw [joinSegments_between _ (by decide) (by decide), joinSegments_append_of_head _ (comma _),
        joinSegments_append (by decide), keyText, valueText]

theorem buildTsValue_rsText {ty : Ty Path} (words : ∀ path ∈ ty.names, Words path) :
    buildTsValue (rsText ty) = tsText (ty.map flatName) := by
  rw [buildTsValue_eq, joinSegments_rsText words]

theorem buildTsTupleParams_rsText {types : List (Ty Path)}
    (words : ∀ ty ∈ types, ∀ path ∈ ty.names, Words path) :
    buildTsTupleParams (types.map rsText) = tupleText (types.map (Ty.map flatName)) := by
  have each : (types.map rsText).map buildTsValue =
      (types.map (Ty.map flatName)).map tsText := by
    rw [List.map_map, List.map_map]
    exact List.map_congr_left fun ty member => buildTsValue_rsText (words ty member)
  rw [buildTsTupleParams, each, tupleText]

/-! ## Reading the text back -/

/-- A name that can be told from what stands behind it. -/
def Readable (ty : Ty Text) : Prop := ∀ name ∈ ty.names, name ≠ [] ∧ name.all isWord

theorem readable_map {ty : Ty Path} (words : ∀ path ∈ ty.names, Words path) :
    Readable (ty.map flatName) := by
  intro name member
  rw [Ty.names_map] at member
  obtain ⟨path, used, rfl⟩ := List.mem_map.mp member
  exact flatName_words (words path used)

/-- Text that cannot go on with a name. -/
def Ends (rest : Text) : Prop := ∀ c, rest.head? = some c → isWord c = false

/-- The word that the text of a type starts with. -/
def opening : Ty Text → Text
  | .ref name => name
  | .vec _ => ['V', 'e', 'c']
  | .array _ _ => []
  | .btreeMap _ _ => ['B', 'T', 'r', 'e', 'e', 'M', 'a', 'p']
  | .option _ => ['O', 'p', 't', 'i', 'o', 'n']
  | .box _ => ['B', 'o', 'x']

/-- What stands behind that word. -/
def inside (rest : Text) : Ty Text → Text
  | .ref _ => rest
  | .vec item | .option item | .box item => '<' :: (tsText item ++ '>' :: rest)
  | .array item length =>
      '[' :: (tsText item ++ ';' :: ' ' :: (Nat.toDigits 10 length ++ ']' :: rest))
  | .btreeMap key value =>
      '<' :: (tsText key ++ ',' :: ' ' :: (tsText value ++ '>' :: rest))

theorem tsText_append (ty : Ty Text) (rest : Text) :
    tsText ty ++ rest = opening ty ++ inside rest ty := by
  cases ty with
  | ref name => rfl
  | vec item | option item | box item =>
      simp only [tsText, tyText_vec, tyText_option, tyText_box, List.append_assoc]
      rfl
  | array item length =>
      simp only [tsText, tyText_array, List.append_assoc]
      rfl
  | btreeMap key value =>
      simp only [tsText, tyText_btreeMap, List.append_assoc]
      rfl

theorem Ends.takeWhile {word rest : Text} (ends : Ends rest) (words : word.all isWord) :
    (word ++ rest).takeWhile isWord = word := by
  have none : rest.takeWhile isWord = [] := by
    cases rest with
    | nil => rfl
    | cons c others => exact List.takeWhile_cons_of_neg (by rw [ends c rfl]; decide)
  rw [List.takeWhile_append_of_pos (List.all_eq_true.mp words), none, List.append_nil]

theorem word_cancel {word word' rest rest' : Text} (words : word.all isWord)
    (words' : word'.all isWord) (ends : Ends rest) (ends' : Ends rest')
    (same : word ++ rest = word' ++ rest') : word = word' ∧ rest = rest' := by
  have first := ends.takeWhile words
  rw [same, ends'.takeWhile words'] at first
  subst first
  exact ⟨rfl, List.append_cancel_left same⟩

theorem Ends.cons {c : Char} (other : isWord c = false) (rest : Text) : Ends (c :: rest) := by
  intro d head
  cases head
  exact other

theorem opening_words {ty : Ty Text} (readable : Readable ty) : (opening ty).all isWord := by
  cases ty with
  | ref name => exact (readable name (List.mem_singleton_self name)).2
  | vec | array | btreeMap | option | box => rfl

theorem toDigits_words (n : Nat) : (Nat.toDigits 10 n).all isWord := by
  refine List.all_eq_true.mpr fun c member => ?_
  have digit : c.isDigit := Nat.isDigit_of_mem_toDigits (by decide) (by decide) member
  simp [isWord, Char.isAlphanum, digit]

theorem toDigits_inj {n m : Nat} (same : Nat.toDigits 10 n = Nat.toDigits 10 m) : n = m := by
  rw [← @Nat.ofDigitChars_toDigits 10 n (by decide) (by decide), same,
    Nat.ofDigitChars_toDigits (by decide) (by decide)]

/-- Text that can stand behind a type. -/
structure Behind (rest : Text) : Prop where
  ends : Ends rest
  closed : rest.head? ≠ some '<'

theorem Behind.cons {c : Char} (other : isWord c = false) (apart : c ≠ '<') (rest : Text) :
    Behind (c :: rest) :=
  ⟨.cons other rest, fun head => apart (Option.some.inj head)⟩

theorem Behind.inside {rest : Text} (behind : Behind rest) (ty : Ty Text) :
    Ends (inside rest ty) := by
  cases ty with
  | ref name => exact behind.ends
  | vec | array | btreeMap | option | box => exact .cons (by decide) _

theorem tsText_parts {ty ty' : Ty Text} (readable : Readable ty) (readable' : Readable ty')
    {rest rest' : Text} (behind : Behind rest) (behind' : Behind rest')
    (same : tsText ty ++ rest = tsText ty' ++ rest') :
    opening ty = opening ty' ∧ inside rest ty = inside rest' ty' :=
  word_cancel (opening_words readable) (opening_words readable') (behind.inside ty)
    (behind'.inside ty') (by rwa [← tsText_append, ← tsText_append])

theorem Readable.btreeMap {key value : Ty Text} (readable : Readable (.btreeMap key value)) :
    Readable key ∧ Readable value :=
  List.forall_mem_append.mp readable

/-- The text of a type ends where the type does. -/
theorem tsText_cancel {ty ty' : Ty Text} (readable : Readable ty) (readable' : Readable ty')
    {rest rest' : Text} (behind : Behind rest) (behind' : Behind rest')
    (same : tsText ty ++ rest = tsText ty' ++ rest') : ty = ty' ∧ rest = rest' := by
  induction ty generalizing ty' rest rest' with
  | ref name =>
      obtain ⟨word, others⟩ := tsText_parts readable readable' behind behind' same
      cases ty' with
      | ref name' => exact ⟨congrArg Ty.ref word, others⟩
      | array => exact absurd word (readable name (List.mem_singleton_self name)).1
      | vec | btreeMap | option | box => exact absurd (congrArg List.head? others) behind.closed
  | vec item ih | option item ih | box item ih =>
      obtain ⟨word, others⟩ := tsText_parts readable readable' behind behind' same
      cases ty' with
      | ref name' => exact absurd (congrArg List.head? others).symm behind'.closed
      | vec item' | option item' | box item' =>
          -- The same constructor, or a word of its own.
          first
          | obtain ⟨rfl, more⟩ := @ih item' readable readable' _ _ (.cons (by decide) (by decide) _)
              (.cons (by decide) (by decide) _) (List.cons.inj others).2
            exact ⟨rfl, (List.cons.inj more).2⟩
          | cases word
      | array | btreeMap => cases word
  | array item length ih =>
      obtain ⟨word, others⟩ := tsText_parts readable readable' behind behind' same
      cases ty' with
      | ref name' => exact absurd word.symm (readable' name' (List.mem_singleton_self name')).1
      | vec | btreeMap | option | box => cases word
      | array item' length' =>
          obtain ⟨rfl, more⟩ := @ih item' readable readable' _ _ (.cons (by decide) (by decide) _)
            (.cons (by decide) (by decide) _) (List.cons.inj others).2
          obtain ⟨digits, more⟩ := word_cancel (toDigits_words length) (toDigits_words length')
            (.cons (by decide) rest) (.cons (by decide) rest')
            (List.cons.inj (List.cons.inj more).2).2
          exact ⟨congrArg (Ty.array item) (toDigits_inj digits), (List.cons.inj more).2⟩
  | btreeMap key value ihKey ihValue =>
      obtain ⟨word, others⟩ := tsText_parts readable readable' behind behind' same
      cases ty' with
      | ref name' => exact absurd (congrArg List.head? others).symm behind'.closed
      | vec | array | option | box => cases word
      | btreeMap key' value' =>
          obtain ⟨readableKey, readableValue⟩ := readable.btreeMap
          obtain ⟨readableKey', readableValue'⟩ := readable'.btreeMap
          obtain ⟨rfl, afterKey⟩ := ihKey readableKey readableKey'
            (.cons (by decide) (by decide) _) (.cons (by decide) (by decide) _)
            (List.cons.inj others).2
          obtain ⟨rfl, afterValue⟩ := ihValue readableValue readableValue'
            (.cons (by decide) (by decide) _) (.cons (by decide) (by decide) _)
            (List.cons.inj (List.cons.inj afterKey).2).2
          exact ⟨rfl, (List.cons.inj afterValue).2⟩

theorem Behind.nil : Behind [] := by
  refine ⟨fun c head => ?_, fun head => ?_⟩
  · cases head
  · cases head

theorem tsText_inj {ty ty' : Ty Text} (readable : Readable ty) (readable' : Readable ty')
    (same : tsText ty = tsText ty') : ty = ty' :=
  (tsText_cancel readable readable' .nil .nil (congrArg (· ++ []) same)).1

theorem tsText_ne_nil {ty : Ty Text} (readable : Readable ty) : tsText ty ≠ [] := by
  intro empty
  cases ty with
  | ref name => exact (readable name (List.mem_singleton_self name)).1 empty
  | vec | array | btreeMap | option | box => cases empty

/-- What stands behind the first type of a list. -/
def afterFirst : List (Ty Text) → Text
  | [] => []
  | ty :: rest => ',' :: ' ' :: List.intercalate ", ".toList ((ty :: rest).map tsText)

theorem intercalate_tsText (ty : Ty Text) (rest : List (Ty Text)) :
    List.intercalate ", ".toList ((ty :: rest).map tsText) = tsText ty ++ afterFirst rest := by
  cases rest with
  | nil => simp [afterFirst, List.intercalate_singleton]
  | cons next more =>
      rw [List.map_cons, List.map_cons, List.intercalate_cons_cons, List.append_assoc]
      rfl

theorem behind_afterFirst (rest : List (Ty Text)) : Behind (afterFirst rest) := by
  cases rest with
  | nil => exact .nil
  | cons => exact .cons (by decide) (by decide) _

/-- A separated list of types can be read back. -/
theorem intercalate_tsText_inj {types types' : List (Ty Text)}
    (readable : ∀ ty ∈ types, Readable ty) (readable' : ∀ ty ∈ types', Readable ty)
    (same : List.intercalate ", ".toList (types.map tsText) =
      List.intercalate ", ".toList (types'.map tsText)) : types = types' := by
  induction types generalizing types' with
  | nil =>
      cases types' with
      | nil => rfl
      | cons ty' rest' =>
          rw [intercalate_tsText] at same
          exact absurd (List.append_eq_nil_iff.mp same.symm).1
            (tsText_ne_nil (readable' ty' List.mem_cons_self))
  | cons ty rest ih =>
      cases types' with
      | nil =>
          rw [intercalate_tsText] at same
          exact absurd (List.append_eq_nil_iff.mp same).1
            (tsText_ne_nil (readable ty List.mem_cons_self))
      | cons ty' rest' =>
          rw [intercalate_tsText, intercalate_tsText] at same
          obtain ⟨own, others⟩ := List.forall_mem_cons.mp readable
          obtain ⟨own', others'⟩ := List.forall_mem_cons.mp readable'
          obtain ⟨rfl, more⟩ := tsText_cancel own own' (behind_afterFirst rest)
            (behind_afterFirst rest') same
          have tails : rest = rest' := by
            cases rest with
            | nil =>
                cases rest' with
                | nil => rfl
                | cons => cases more
            | cons next after =>
                cases rest' with
                | nil => cases more
                | cons next' after' =>
                    exact ih others others' (List.cons.inj (List.cons.inj more).2).2
          rw [tails]

theorem tupleText_inj {types types' : List (Ty Text)} (readable : ∀ ty ∈ types, Readable ty)
    (readable' : ∀ ty ∈ types', Readable ty) (same : tupleText types = tupleText types') :
    types = types' := by
  rw [tupleText, tupleText] at same
  exact intercalate_tsText_inj readable readable'
    (List.append_cancel_left (List.append_cancel_right same))

end EmojiBattler.Tools
