import Mathlib.Algebra.Ring.Nat
import Mathlib.Data.List.Basic

/-! # Base64

The proof-of-work solver is kept as text.  Text and bytes are read in groups of
four characters and of three bytes; what is missing in the last group counts as
zero, and the padding says how much of it is there.

The source counts UTF-16 units and reads single units.  Here a text is a list of
characters, which is the same as long as each of them is one unit; a character
outside the basic plane would be two of them, neither in the alphabet. -/

namespace EmojiBattler.Front.Base64

def chars : List Char :=
  "ABCDEFGHIJKLMNOPQRSTUVWXYZabcdefghijklmnopqrstuvwxyz0123456789+/".toList

def eqChar : Char := '='

/-- `CHARS.charAt` -/
def charAt (index : Nat) : List Char := chars[index]?.toList

/-- The table is zero outside the alphabet, and what is read past its end counts
as zero. -/
def lookup (char : Char) : Nat := if char ∈ chars then chars.idxOf char else 0

/-! ## Encoding -/

def encodeBytes (b0 b1 b2 : Nat) : List Char :=
  charAt (b0 >>> 2) ++ charAt (((b0 &&& 3) <<< 4) ||| (b1 >>> 4)) ++
    charAt (((b1 &&& 15) <<< 2) ||| (b2 >>> 6)) ++ charAt (b2 &&& 63)

/-- The loop of `encode`. -/
def encodeLoop : List UInt8 → List Char
  | [] => []
  | [b0] => encodeBytes b0.toNat 0 0
  | [b0, b1] => encodeBytes b0.toNat b1.toNat 0
  | b0 :: b1 :: b2 :: rest => encodeBytes b0.toNat b1.toNat b2.toNat ++ encodeLoop rest

def encode (bytes : List UInt8) : List Char :=
  let len := bytes.length
  let base64 := encodeLoop bytes
  if len % 3 = 2 then base64.take (base64.length - 1) ++ [eqChar]
  else if len % 3 = 1 then base64.take (base64.length - 2) ++ [eqChar, eqChar]
  else base64

/-! ## Decoding -/

/-- The array takes the lowest 8 bits. -/
def decodeChars (encoded1 encoded2 encoded3 encoded4 : Nat) : List UInt8 :=
  [.ofNat ((encoded1 <<< 2) ||| (encoded2 >>> 4)),
    .ofNat (((encoded2 &&& 15) <<< 4) ||| (encoded3 >>> 2)),
    .ofNat (((encoded3 &&& 3) <<< 6) ||| (encoded4 &&& 63))]

/-- The loop of `decode`. -/
def decodeLoop : List Char → List UInt8
  | [] => []
  | [c0] => decodeChars (lookup c0) 0 0 0
  | [c0, c1] => decodeChars (lookup c0) (lookup c1) 0 0
  | [c0, c1, c2] => decodeChars (lookup c0) (lookup c1) (lookup c2) 0
  | c0 :: c1 :: c2 :: c3 :: rest =>
      decodeChars (lookup c0) (lookup c1) (lookup c2) (lookup c3) ++ decodeLoop rest

/-- The shift makes the length a number of 32 bits. -/
def bufferLength (base64 : List Char) : Int :=
  let padded (index : Nat) : Int := if base64.reverse[index]? = some eqChar then 1 else 0
  ((base64.length * 3 % 2 ^ 32) >>> 2 : Nat) - padded 0 - padded 1

/-- There is no array of a negative length.  The array drops what is written
past its end. -/
def decode (base64 : List Char) : Option (List UInt8) :=
  if bufferLength base64 < 0 then none
  else some ((decodeLoop base64).take (bufferLength base64).toNat)

/-! ## Six bits -/

theorem shiftLeft_or {x y i : Nat} (small : y < 2 ^ i) : (x <<< i) ||| y = x * 2 ^ i + y := by
  rw [← Nat.shiftLeft_add_eq_or_of_lt small, Nat.shiftLeft_eq]

theorem charAt_spec {index : Nat} (small : index < 64) :
    ∃ char ∈ chars, charAt index = [char] ∧ lookup char = index := by
  have all : ∀ index < 64, chars[index]?.map lookup = some index := by decide +kernel
  obtain ⟨char, found, read⟩ := Option.map_eq_some_iff.mp (all index small)
  exact ⟨char, List.mem_of_getElem? found, by rw [charAt, found]; rfl, read⟩

theorem lookup_spec {char : Char} (listed : char ∈ chars) :
    lookup char < 64 ∧ charAt (lookup char) = [char] := by
  have all : chars.all fun char => lookup char < 64 ∧ charAt (lookup char) = [char] := by
    decide +kernel
  exact of_decide_eq_true (List.all_eq_true.mp all char listed)

theorem lookup_inj {char other : Char} (listed : char ∈ chars) (otherListed : other ∈ chars)
    (same : lookup char = lookup other) : char = other := by
  have own := (lookup_spec listed).2
  rw [same, (lookup_spec otherListed).2] at own
  exact (List.singleton_inj.mp own).symm

theorem lookup_eqChar : lookup eqChar = 0 := by decide

theorem eqChar_not_mem : eqChar ∉ chars := by decide

theorem encodeBytes_spec {b0 b1 b2 : Nat} (small0 : b0 < 256) (small1 : b1 < 256)
    (small2 : b2 < 256) :
    ∃ c0 ∈ chars, ∃ c1 ∈ chars, ∃ c2 ∈ chars, ∃ c3 ∈ chars,
      encodeBytes b0 b1 b2 = [c0, c1, c2, c3] ∧ lookup c0 = b0 / 4 ∧
        lookup c1 = b0 % 4 * 16 + b1 / 16 ∧ lookup c2 = b1 % 16 * 4 + b2 / 64 ∧
        lookup c3 = b2 % 64 := by
  have low0 : b0 &&& 3 = b0 % 4 := Nat.and_two_pow_sub_one_eq_mod b0 2
  have low1 : b1 &&& 15 = b1 % 16 := Nat.and_two_pow_sub_one_eq_mod b1 4
  have sextet1 : ((b0 &&& 3) <<< 4) ||| (b1 >>> 4) = b0 % 4 * 16 + b1 / 16 := by
    rw [shiftLeft_or (by simp only [Nat.shiftRight_eq_div_pow]; omega), low0,
      Nat.shiftRight_eq_div_pow]
    omega
  have sextet2 : ((b1 &&& 15) <<< 2) ||| (b2 >>> 6) = b1 % 16 * 4 + b2 / 64 := by
    rw [shiftLeft_or (by simp only [Nat.shiftRight_eq_div_pow]; omega), low1,
      Nat.shiftRight_eq_div_pow]
    omega
  have sextet3 : b2 &&& 63 = b2 % 64 := Nat.and_two_pow_sub_one_eq_mod b2 6
  have sextet0 : b0 >>> 2 = b0 / 4 := Nat.shiftRight_eq_div_pow b0 2
  obtain ⟨c0, listed0, at0, read0⟩ := @charAt_spec (b0 / 4) (by omega)
  obtain ⟨c1, listed1, at1, read1⟩ := @charAt_spec (b0 % 4 * 16 + b1 / 16) (by omega)
  obtain ⟨c2, listed2, at2, read2⟩ := @charAt_spec (b1 % 16 * 4 + b2 / 64) (by omega)
  obtain ⟨c3, listed3, at3, read3⟩ := @charAt_spec (b2 % 64) (by omega)
  refine ⟨c0, listed0, c1, listed1, c2, listed2, c3, listed3, ?_, read0, read1, read2, read3⟩
  rw [encodeBytes, sextet0, sextet1, sextet2, sextet3, at0, at1, at2, at3]
  rfl

theorem decodeChars_eq {encoded1 encoded2 encoded3 encoded4 : Nat} (small2 : encoded2 < 64)
    (small3 : encoded3 < 64) (small4 : encoded4 < 64) :
    decodeChars encoded1 encoded2 encoded3 encoded4 =
      [.ofNat (encoded1 * 4 + encoded2 / 16), .ofNat (encoded2 % 16 * 16 + encoded3 / 4),
        .ofNat (encoded3 % 4 * 64 + encoded4)] := by
  have low2 : encoded2 &&& 15 = encoded2 % 16 := Nat.and_two_pow_sub_one_eq_mod encoded2 4
  have low3 : encoded3 &&& 3 = encoded3 % 4 := Nat.and_two_pow_sub_one_eq_mod encoded3 2
  have whole : encoded4 &&& 63 = encoded4 :=
    (Nat.and_two_pow_sub_one_eq_mod encoded4 6).trans (Nat.mod_eq_of_lt small4)
  have octet0 : (encoded1 <<< 2) ||| (encoded2 >>> 4) = encoded1 * 4 + encoded2 / 16 := by
    rw [shiftLeft_or (by simp only [Nat.shiftRight_eq_div_pow]; omega),
      Nat.shiftRight_eq_div_pow]
    omega
  have octet1 : ((encoded2 &&& 15) <<< 4) ||| (encoded3 >>> 2) =
      encoded2 % 16 * 16 + encoded3 / 4 := by
    rw [shiftLeft_or (by simp only [Nat.shiftRight_eq_div_pow]; omega), low2,
      Nat.shiftRight_eq_div_pow]
    omega
  have octet2 : ((encoded3 &&& 3) <<< 6) ||| (encoded4 &&& 63) =
      encoded3 % 4 * 64 + encoded4 := by
    rw [whole, shiftLeft_or (by omega), low3]
    omega
  rw [decodeChars, octet0, octet1, octet2]

/-- Three bytes come back from their four characters. -/
theorem decodeChars_lookup {b0 b1 b2 : UInt8} {c0 c1 c2 c3 : Char}
    (read0 : lookup c0 = b0.toNat / 4)
    (read1 : lookup c1 = b0.toNat % 4 * 16 + b1.toNat / 16)
    (read2 : lookup c2 = b1.toNat % 16 * 4 + b2.toNat / 64)
    (read3 : lookup c3 = b2.toNat % 64) :
    decodeChars (lookup c0) (lookup c1) (lookup c2) (lookup c3) = [b0, b1, b2] := by
  have small0 := b0.toNat_lt
  have small1 := b1.toNat_lt
  have small2 := b2.toNat_lt
  have octet0 : lookup c0 * 4 + lookup c1 / 16 = b0.toNat := by omega
  have octet1 : lookup c1 % 16 * 16 + lookup c2 / 4 = b1.toNat := by omega
  have octet2 : lookup c2 % 4 * 64 + lookup c3 = b2.toNat := by omega
  rw [decodeChars_eq (by omega) (by omega) (by omega), octet0, octet1, octet2, UInt8.ofNat_toNat,
    UInt8.ofNat_toNat, UInt8.ofNat_toNat]

/-! ## Texts -/

/-- A text in groups of four with its padding.  The bits that the padding leaves
out are zero. -/
inductive Canonical : List Char → Nat → Prop
  | nil : Canonical [] 0
  | one {c0 c1 : Char} (listed0 : c0 ∈ chars) (listed1 : c1 ∈ chars)
      (zero : lookup c1 % 16 = 0) : Canonical [c0, c1, eqChar, eqChar] 2
  | two {c0 c1 c2 : Char} (listed0 : c0 ∈ chars) (listed1 : c1 ∈ chars) (listed2 : c2 ∈ chars)
      (zero : lookup c2 % 4 = 0) : Canonical [c0, c1, c2, eqChar] 1
  | three {c0 c1 c2 c3 : Char} {rest : List Char} {padding : Nat} (listed0 : c0 ∈ chars)
      (listed1 : c1 ∈ chars) (listed2 : c2 ∈ chars) (listed3 : c3 ∈ chars)
      (canonical : Canonical rest padding) : Canonical (c0 :: c1 :: c2 :: c3 :: rest) padding

theorem ne_eqChar {char : Char} (listed : char ∈ chars) : char ≠ eqChar := by
  rintro rfl
  exact eqChar_not_mem listed

namespace Canonical

variable {base64 : List Char} {padding : Nat}

theorem length_cases (canonical : Canonical base64 padding) :
    base64 = [] ∨ 4 ≤ base64.length := by
  cases canonical with
  | nil => exact .inl rfl
  | one | two | three => exact .inr (by simp)

theorem length_mod (canonical : Canonical base64 padding) : base64.length % 4 = 0 := by
  induction canonical with
  | nil | one | two => simp
  | three _ _ _ _ _ ih =>
      simp only [List.length_cons]
      omega

/-- The last two characters tell the padding. -/
theorem padding_eq (canonical : Canonical base64 padding) :
    (padding : Int) = (if base64.reverse[0]? = some eqChar then 1 else 0) +
      if base64.reverse[1]? = some eqChar then 1 else 0 := by
  induction canonical with
  | nil => rfl
  | one => simp
  | two _ _ listed2 => simp [ne_eqChar listed2]
  | @three c0 c1 c2 c3 rest padding _ _ listed2 listed3 canonical ih =>
      have turned : (c0 :: c1 :: c2 :: c3 :: rest).reverse = rest.reverse ++ [c3, c2, c1, c0] := by
        simp
      rcases canonical.length_cases with rfl | long
      · rw [ih]
        simp [ne_eqChar listed2, ne_eqChar listed3]
      · have bound : 1 < rest.reverse.length := by
          rw [List.length_reverse]
          omega
        rw [turned, List.getElem?_append_left (by omega), List.getElem?_append_left bound, ih]

theorem bufferLength_eq (canonical : Canonical base64 padding)
    (small : base64.length * 3 < 2 ^ 32) :
    bufferLength base64 = (base64.length / 4 * 3 : Nat) - padding := by
  have length := canonical.length_mod
  have whole : (base64.length * 3 % 2 ^ 32) >>> 2 = base64.length / 4 * 3 := by
    rw [Nat.mod_eq_of_lt small, Nat.shiftRight_eq_div_pow]
    omega
  rw [bufferLength, whole, canonical.padding_eq, Int.sub_sub]

end Canonical

/-! ## The round trip -/

theorem encodeLoop_length (bytes : List UInt8) :
    (encodeLoop bytes).length = (bytes.length + 2) / 3 * 4 := by
  have four (b0 b1 b2 : UInt8) : (encodeBytes b0.toNat b1.toNat b2.toNat).length = 4 := by
    obtain ⟨_, _, _, _, _, _, _, _, same, _⟩ :=
      encodeBytes_spec b0.toNat_lt b1.toNat_lt b2.toNat_lt
    rw [same]
    rfl
  induction bytes using encodeLoop.induct with
  | case1 => rfl
  | case2 b0 => simpa [encodeLoop] using four b0 0 0
  | case3 b0 b1 => simpa [encodeLoop] using four b0 b1 0
  | case4 b0 b1 b2 rest ih =>
      rw [encodeLoop, List.length_append, four, ih]
      simp only [List.length_cons]
      omega

/-- The padding touches the last group only. -/
theorem encode_cons (b0 b1 b2 : UInt8) (rest : List UInt8) :
    encode (b0 :: b1 :: b2 :: rest) =
      encodeBytes b0.toNat b1.toNat b2.toNat ++ encode rest := by
  obtain ⟨c0, _, c1, _, c2, _, c3, _, same, _⟩ :=
    encodeBytes_spec b0.toNat_lt b1.toNat_lt b2.toNat_lt
  have groups := encodeLoop_length rest
  have length : (b0 :: b1 :: b2 :: rest).length % 3 = rest.length % 3 := by
    simp only [List.length_cons]
    omega
  simp only [encode, length, encodeLoop, same, List.length_append]
  have front (dropped : Nat) (few : dropped ≤ (encodeLoop rest).length) :
      ([c0, c1, c2, c3] ++ encodeLoop rest).take
          ([c0, c1, c2, c3].length + (encodeLoop rest).length - dropped) =
        [c0, c1, c2, c3] ++ (encodeLoop rest).take ((encodeLoop rest).length - dropped) := by
    rw [Nat.add_sub_assoc few, List.take_length_add_append]
  split
  · rw [front 1 (by omega), List.append_assoc]
  · split
    · rw [front 2 (by omega), List.append_assoc]
    · rfl

theorem encode_one (b0 : UInt8) :
    ∃ c0 ∈ chars, ∃ c1 ∈ chars, encode [b0] = [c0, c1, eqChar, eqChar] ∧
      lookup c0 = b0.toNat / 4 ∧ lookup c1 = b0.toNat % 4 * 16 := by
  obtain ⟨c0, listed0, c1, listed1, _, _, _, _, same, read0, read1, _⟩ :=
    @encodeBytes_spec b0.toNat 0 0 b0.toNat_lt (by omega) (by omega)
  exact ⟨c0, listed0, c1, listed1, by simp [encode, encodeLoop, same], read0, by simpa using read1⟩

theorem encode_two (b0 b1 : UInt8) :
    ∃ c0 ∈ chars, ∃ c1 ∈ chars, ∃ c2 ∈ chars, encode [b0, b1] = [c0, c1, c2, eqChar] ∧
      lookup c0 = b0.toNat / 4 ∧ lookup c1 = b0.toNat % 4 * 16 + b1.toNat / 16 ∧
        lookup c2 = b1.toNat % 16 * 4 := by
  obtain ⟨c0, listed0, c1, listed1, c2, listed2, _, _, same, read0, read1, read2, _⟩ :=
    @encodeBytes_spec b0.toNat b1.toNat 0 b0.toNat_lt b1.toNat_lt (by omega)
  exact ⟨c0, listed0, c1, listed1, c2, listed2, by simp [encode, encodeLoop, same], read0, read1,
    by simpa using read2⟩

/-- What `encode` writes, and how `decode` reads it. -/
theorem encode_canonical (bytes : List UInt8) :
    Canonical (encode bytes) ((3 - bytes.length % 3) % 3) ∧
      (encode bytes).length = (bytes.length + 2) / 3 * 4 ∧
      (decodeLoop (encode bytes)).take bytes.length = bytes := by
  induction bytes using encodeLoop.induct with
  | case1 => exact ⟨.nil, rfl, rfl⟩
  | case2 b0 =>
      obtain ⟨c0, listed0, c1, listed1, same, read0, read1⟩ := encode_one b0
      rw [same]
      refine ⟨.one listed0 listed1 (by omega), by simp, ?_⟩
      have back := @decodeChars_lookup b0 0 0 c0 c1 eqChar eqChar read0 (by simpa using read1)
        lookup_eqChar lookup_eqChar
      simp [decodeLoop, back]
  | case3 b0 b1 =>
      obtain ⟨c0, listed0, c1, listed1, c2, listed2, same, read0, read1, read2⟩ := encode_two b0 b1
      rw [same]
      refine ⟨.two listed0 listed1 listed2 (by omega), by simp, ?_⟩
      have back := @decodeChars_lookup b0 b1 0 c0 c1 c2 eqChar read0 read1 (by simpa using read2)
        lookup_eqChar
      simp [decodeLoop, back]
  | case4 b0 b1 b2 rest ih =>
      obtain ⟨canonical, length, decoded⟩ := ih
      obtain ⟨c0, listed0, c1, listed1, c2, listed2, c3, listed3, same, read0, read1, read2,
        read3⟩ := encodeBytes_spec b0.toNat_lt b1.toNat_lt b2.toNat_lt
      have groups : (b0 :: b1 :: b2 :: rest).length = rest.length + 3 := rfl
      rw [encode_cons, same, groups, Nat.add_mod_right]
      refine ⟨.three listed0 listed1 listed2 listed3 canonical, ?_, ?_⟩
      · simp only [List.length_append, length, List.length_cons, List.length_nil]
        omega
      · have back := decodeChars_lookup read0 read1 read2 read3
        simp [decodeLoop, back, decoded]

theorem toNat_ofNat {value : Nat} (small : value < 256) : (UInt8.ofNat value).toNat = value :=
  UInt8.toNat_ofNat_of_lt' small

/-- Any four characters are written for some bytes. -/
theorem exists_encodeBytes {c0 c1 c2 c3 : Char} (listed0 : c0 ∈ chars) (listed1 : c1 ∈ chars)
    (listed2 : c2 ∈ chars) (listed3 : c3 ∈ chars) :
    ∃ b0 b1 b2 : UInt8, encodeBytes b0.toNat b1.toNat b2.toNat = [c0, c1, c2, c3] := by
  have small0 := (lookup_spec listed0).1
  have small1 := (lookup_spec listed1).1
  have small2 := (lookup_spec listed2).1
  have small3 := (lookup_spec listed3).1
  refine ⟨.ofNat (lookup c0 * 4 + lookup c1 / 16), .ofNat (lookup c1 % 16 * 16 + lookup c2 / 4),
    .ofNat (lookup c2 % 4 * 64 + lookup c3), ?_⟩
  rw [toNat_ofNat (by omega), toNat_ofNat (by omega), toNat_ofNat (by omega)]
  obtain ⟨_, own0, _, own1, _, own2, _, own3, same, read0, read1, read2, read3⟩ :=
    @encodeBytes_spec (lookup c0 * 4 + lookup c1 / 16) (lookup c1 % 16 * 16 + lookup c2 / 4)
      (lookup c2 % 4 * 64 + lookup c3) (by omega) (by omega) (by omega)
  rw [same, lookup_inj own0 listed0 (by omega), lookup_inj own1 listed1 (by omega),
    lookup_inj own2 listed2 (by omega), lookup_inj own3 listed3 (by omega)]

/-- Every canonical text is written for some bytes. -/
theorem Canonical.exists_encode {base64 : List Char} {padding : Nat}
    (canonical : Canonical base64 padding) : ∃ bytes, encode bytes = base64 := by
  induction canonical with
  | nil => exact ⟨[], rfl⟩
  | @one c0 c1 listed0 listed1 zero =>
      have small0 := (lookup_spec listed0).1
      have small1 := (lookup_spec listed1).1
      have byte0 := @toNat_ofNat (lookup c0 * 4 + lookup c1 / 16) (by omega)
      obtain ⟨_, own0, _, own1, same, read0, read1⟩ :=
        encode_one (.ofNat (lookup c0 * 4 + lookup c1 / 16))
      rw [byte0] at read0 read1
      obtain rfl := lookup_inj own0 listed0 (by omega)
      obtain rfl := lookup_inj own1 listed1 (by omega)
      exact ⟨_, same⟩
  | @two c0 c1 c2 listed0 listed1 listed2 zero =>
      have small0 := (lookup_spec listed0).1
      have small1 := (lookup_spec listed1).1
      have small2 := (lookup_spec listed2).1
      have byte0 := @toNat_ofNat (lookup c0 * 4 + lookup c1 / 16) (by omega)
      have byte1 := @toNat_ofNat (lookup c1 % 16 * 16 + lookup c2 / 4) (by omega)
      obtain ⟨_, own0, _, own1, _, own2, same, read0, read1, read2⟩ :=
        encode_two (.ofNat (lookup c0 * 4 + lookup c1 / 16))
          (.ofNat (lookup c1 % 16 * 16 + lookup c2 / 4))
      rw [byte0] at read0 read1
      rw [byte1] at read1 read2
      obtain rfl := lookup_inj own0 listed0 (by omega)
      obtain rfl := lookup_inj own1 listed1 (by omega)
      obtain rfl := lookup_inj own2 listed2 (by omega)
      exact ⟨_, same⟩
  | three listed0 listed1 listed2 listed3 _ ih =>
      obtain ⟨bytes, rfl⟩ := ih
      obtain ⟨b0, b1, b2, same⟩ := exists_encodeBytes listed0 listed1 listed2 listed3
      exact ⟨b0 :: b1 :: b2 :: bytes, by rw [encode_cons, same]; rfl⟩

/-- As long as the length fits its 32 bits, the bytes come back from their text,
and every canonical text is that of the bytes that it is read as. -/
theorem base64_round_trip :
    (∀ bytes : List UInt8, (bytes.length + 2) / 3 * 12 < 2 ^ 32 →
      decode (encode bytes) = some bytes) ∧
    ∀ base64 padding, Canonical base64 padding → base64.length * 3 < 2 ^ 32 →
      ∃ bytes, decode base64 = some bytes ∧ encode bytes = base64 := by
  have back (bytes : List UInt8) (small : (bytes.length + 2) / 3 * 12 < 2 ^ 32) :
      decode (encode bytes) = some bytes := by
    obtain ⟨canonical, length, decoded⟩ := encode_canonical bytes
    have buffer : bufferLength (encode bytes) = bytes.length := by
      rw [canonical.bufferLength_eq (by rw [length]; omega), length]
      omega
    rw [decode, buffer, if_neg (by omega), Int.toNat_natCast, decoded]
  refine ⟨back, fun base64 padding canonical small => ?_⟩
  obtain ⟨bytes, rfl⟩ := canonical.exists_encode
  have length := (encode_canonical bytes).2.1
  exact ⟨bytes, back bytes (by omega), rfl⟩

theorem base64_round_trip_padded : encode [77, 97, 110, 121] = "TWFueQ==".toList ∧
    decode "TWFueQ==".toList = some [77, 97, 110, 121] := by
  have written : encode [77, 97, 110, 121] = "TWFueQ==".toList := by decide
  exact ⟨written, written ▸ base64_round_trip.1 [77, 97, 110, 121] (by decide)⟩

end EmojiBattler.Front.Base64
