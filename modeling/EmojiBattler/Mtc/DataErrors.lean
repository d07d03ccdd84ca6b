import EmojiBattler.Library.Contracts
import EmojiBattler.Mtc.Utils

/-! # The errors that the game data causes -/

namespace EmojiBattler.Mtc

open EmojiBattler.Emo Contracts

variable {α β : Type}

def Resolves (bases : Bases) (id : Nat) : Prop := ∃ base, bases id = some base

/-- The errors that legal data excludes are a division by zero and a base id
that does not resolve. -/
def NotDataError : MtcError → Prop
  | .divisionByZero | .emoBaseNotFound _ => False
  | _ => True

abbrev Sound (computation : Result α) (post : α → Prop) : Prop :=
  Meets NotDataError computation post

theorem sound_okOr {value : Option α} {error : MtcError} (excused : NotDataError error) :
    Sound (okOr value error) fun result => value = some result := by
  cases value with
  | some result => rfl
  | none => exact excused

theorem sound_ensure {condition : Prop} [Decidable condition] {error : MtcError}
    (excused : NotDataError error) : Sound (ensure condition error) fun _ => condition := by
  unfold ensure
  split
  · assumption
  · exact excused

theorem sound_find {bases : Bases} {id : Nat} (resolves : Resolves bases id) :
    Sound (bases.find id) fun base => bases id = some base := by
  obtain ⟨base, found⟩ := resolves
  simp [Bases.find, okOr, found]

theorem sound_addU8 {left right : Nat} : Sound (addU8 left right) fun _ => True := by
  unfold addU8
  split <;> trivial

theorem sound_sumU16 {values : List Nat} : Sound (sumU16 values) fun _ => True := by
  unfold sumU16
  split <;> trivial

theorem sound_zipU8 {values : List α} :
    Sound (zipU8 values) fun result => result = values.zipIdx := by
  unfold zipU8
  split
  · rfl
  · trivial

theorem sound_findZipU8 {holds : α → Bool} {values : List α} :
    Sound (findZipU8 holds values) fun _ => True := by
  unfold findZipU8
  split <;> trivial

/-! ## Computations whose result may be anything -/

/-- Whatever error the computation ends with, the data did not cause it. -/
abbrev Excused (computation : Result α) : Prop := Sound computation fun _ => True

theorem excused_okOr {value : Option α} {error : MtcError} (excused : NotDataError error) :
    Excused (okOr value error) :=
  (sound_okOr excused).mono fun _ _ => trivial

theorem excused_ensure {condition : Prop} [Decidable condition] {error : MtcError}
    (excused : NotDataError error) : Excused (ensure condition error) :=
  (sound_ensure excused).mono fun _ _ => trivial

theorem Excused.bind {first : Result α} {second : α → Result β} (excused : Excused first)
    (then_excused : ∀ value, Excused (second value)) : Excused (first >>= second) :=
  Meets.bind excused fun value _ => then_excused value

theorem Excused.map {first : Result α} {f : α → β} (excused : Excused first) :
    Excused (f <$> first) :=
  Meets.map excused fun _ _ => trivial

theorem excused_foldlM {f : β → α → Result β} {values : List α} {start : β}
    (step : ∀ state value, Excused (f state value)) : Excused (values.foldlM f start) :=
  Meets.foldlM trivial fun value _ state _ => step state value

end EmojiBattler.Mtc
