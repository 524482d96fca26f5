import Mathlib.Data.Fin.Basic
import Mathlib.Data.List.Basic
import Mathlib.Data.List.TakeWhile
import Mathlib.Tactic.IntervalCases
import Mathlib.Tactic.Ring

/-!
# Object keys as texts

Keys of the object store are slash-separated paths.  The functions below are the text operations
the harness reads its keys with: the last component, a stripped suffix, a split at the first
occurrence of a character.  Identifiers appear in keys through their display text; what the code
relies on is that parsing undoes displaying and that the text is made of letters, digits and
hyphens only.
-/

namespace Exo.Storage

open List

/-- A normalised path. -/
abbrev Key := List Char

/-- `Path::join` with one component, after normalisation. -/
def Key.join (directory : Key) (component : List Char) : Key := directory ++ '/' :: component

section
variable (separator : Char) (key : List Char)

/-- `key.rsplit(separator).next()`: what follows the last separator. -/
def rsplitNext : List Char :=
  (key.reverse.takeWhile (· ≠ separator)).reverse

/-- `str::strip_suffix`. -/
def stripSuffix (suffix key : List Char) : Option (List Char) :=
  if suffix <:+ key then some (key.take (key.length - suffix.length)) else none

/-- `str::split_once`: the texts around the first separator. -/
def splitOnce : Option (List Char × List Char) :=
  match key.dropWhile (· ≠ separator) with
  | [] => none
  | _ :: after => some (key.takeWhile (· ≠ separator), after)

end

variable {separator : Char} {name : List Char}

theorem rsplitNext_join (hname : separator ∉ name) (directory : List Char) :
    rsplitNext separator (directory ++ separator :: name) = name := by
  have hkeep : ∀ c ∈ name.reverse, decide (c ≠ separator) = true := by
    intro c hc
    rw [mem_reverse] at hc
    exact decide_eq_true (ne_of_mem_of_not_mem hc hname)
  rw [rsplitNext, reverse_append, reverse_cons, append_assoc, takeWhile_append_of_pos hkeep]
  simp

variable {directory before digits : List Char} {value : ℕ} {c : Char}

/-- Two keys whose last components have no separator agree component by component. -/
theorem join_inj {other another : List Char} (hname : separator ∉ name)
    (hanother : separator ∉ another)
    (hkey : directory ++ separator :: name = other ++ separator :: another) :
    directory = other ∧ name = another := by
  have hnames := congrArg (rsplitNext separator) hkey
  rw [rsplitNext_join hname, rsplitNext_join hanother] at hnames
  rw [hnames] at hkey
  exact ⟨append_cancel_right hkey, hnames⟩

@[simp]
theorem stripSuffix_append (suffix name : List Char) :
    stripSuffix suffix (name ++ suffix) = some name := by
  rw [stripSuffix, if_pos (suffix_append name suffix)]
  simp

theorem splitOnce_append (hbefore : separator ∉ before) (after : List Char) :
    splitOnce separator (before ++ separator :: after) = some (before, after) := by
  have hkeep : ∀ c ∈ before, decide (c ≠ separator) = true := by
    intro c hc
    exact decide_eq_true (ne_of_mem_of_not_mem hc hbefore)
  rw [splitOnce, dropWhile_append_of_pos hkeep, takeWhile_append_of_pos hkeep]
  simp

theorem splitOnce_eq_some {key after : List Char} : splitOnce separator key = some (before, after) ↔
      key = before ++ separator :: after ∧ separator ∉ before := by
  constructor
  · intro hsplit
    unfold splitOnce at hsplit
    cases hdrop : key.dropWhile (· ≠ separator) with
    | nil =>
      rw [hdrop] at hsplit
      cases hsplit
    | cons c rest =>
      have hc : c = separator := by
        have hhead := head?_dropWhile_not (· ≠ separator) key
        rw [hdrop] at hhead
        simpa using hhead
      rw [hdrop] at hsplit
      obtain ⟨rfl, rfl⟩ := Prod.mk.inj (Option.some.inj hsplit)
      have hbefore : separator ∉ key.takeWhile (· ≠ separator) := by
        intro hmem
        have hkeep := mem_takeWhile_imp hmem
        simp at hkeep
      refine ⟨?_, hbefore⟩
      rw [← hc, ← hdrop, hc, takeWhile_append_dropWhile]
  · rintro ⟨rfl, hbefore⟩
    exact splitOnce_append hbefore after

theorem suffix_of_suffix_join {suffix : List Char} (hsuffix : separator ∉ suffix)
    (hkey : suffix <:+ directory ++ separator :: name) : suffix <:+ name := by
  have hname : separator :: name <:+ directory ++ separator :: name := suffix_append _ _
  rcases suffix_or_suffix_of_suffix hkey hname with hle | hle
  · rcases suffix_cons_iff.1 hle with rfl | hle
    · exact absurd mem_cons_self hsuffix
    · exact hle
  · exact absurd (hle.subset mem_cons_self) hsuffix

/-- A letter, a digit or a hyphen: all an identifier's text is made of. -/
def Plain (c : Char) : Prop := c.isAlphanum = true ∨ c = '-'

instance (c : Char) : Decidable (Plain c) := inferInstanceAs (Decidable (_ ∨ _))

/-- `Display` and `FromStr` of the identifiers, which are the `uuid` crate's. -/
structure IdText (Id : Type*) where
  text : Id → List Char
  parse : List Char → Option Id
  parse_text : ∀ id, parse (text id) = some id
  plain : ∀ id, ∀ c ∈ text id, Plain c

namespace IdText

variable {Id : Type*} (ids : IdText Id)

theorem text_injective : Function.Injective ids.text := by
  intro id other htext
  have hparse := congrArg ids.parse htext
  rw [ids.parse_text, ids.parse_text] at hparse
  exact Option.some.inj hparse

theorem not_mem_text {c : Char} (hc : ¬ Plain c) (id : Id) : c ∉ ids.text id :=
  fun hmem ↦ hc (ids.plain id c hmem)

end IdText

/-- A lower-case hexadecimal digit. -/
def hexDigit (value : ℕ) : Char :=
  ['0', '1', '2', '3', '4', '5', '6', '7', '8', '9', 'a', 'b', 'c', 'd', 'e', 'f'].getD value '0'

/-- The value of a hexadecimal digit; hyphens are dropped before. -/
def hexValue (digit : Char) : Option ℕ :=
  ((List.range 16).find? fun value ↦ hexDigit value = digit.toLower)

/-- A number with a fixed number of hexadecimal digits. -/
def paddedHex : ℕ → ℕ → List Char
  | 0, _ => []
  | width + 1, value => paddedHex width (value / 16) ++ [hexDigit (value % 16)]

/-- Read hexadecimal digits, most significant first. -/
def readHex (digits : List Char) : Option ℕ :=
  digits.foldl (fun read digit ↦ do return (← read) * 16 + (← hexValue digit)) (some 0)

/-- Put a hyphen after each of the leading groups. -/
def hyphenate : List ℕ → List Char → List Char
  | [], digits => digits
  | width :: widths, digits => digits.take width ++ '-' :: hyphenate widths (digits.drop width)

/-- A 128-bit identifier in the form 8-4-4-4-12. -/
def hyphenated (id : Fin (2 ^ 128)) : List Char := hyphenate [8, 4, 4, 4] (paddedHex 32 id)

/-- Read an identifier back, with or without its hyphens. -/
def parseHyphenated (text : List Char) : Option (Fin (2 ^ 128)) := do
  let digits := text.filter (· ≠ '-')
  guard (digits.length = 32)
  let value ← readHex digits
  if hvalue : value < 2 ^ 128 then some ⟨value, hvalue⟩ else none

theorem hexValue_hexDigit (hvalue : value < 16) : hexValue (hexDigit value) = some value := by
  interval_cases value <;> decide

theorem hexDigit_plain (value : ℕ) : (hexDigit value).isAlphanum = true := by
  unfold hexDigit
  by_cases hvalue : value < 16
  · interval_cases value <;> decide
  · rw [getD_eq_getElem?_getD, getElem?_eq_none (by simp; omega)]
    decide

theorem length_paddedHex (width value : ℕ) : (paddedHex width value).length = width := by
  induction width generalizing value with
  | zero => rfl
  | succ width ih => simp [paddedHex, ih]

theorem mem_paddedHex {width : ℕ} (hc : c ∈ paddedHex width value) : c.isAlphanum = true := by
  induction width generalizing value with
  | zero => cases hc
  | succ width ih =>
    rw [paddedHex, mem_append, mem_singleton] at hc
    rcases hc with hc | rfl
    · exact ih hc
    · exact hexDigit_plain _

theorem readHex_paddedHex (width value : ℕ) :
    readHex (paddedHex width value) = some (value % 16 ^ width) := by
  induction width generalizing value with
  | zero => simp [paddedHex, readHex, Nat.mod_one]
  | succ width ih =>
    have hread : readHex (paddedHex (width + 1) value) =
        (readHex (paddedHex width (value / 16))).bind fun read ↦
          (hexValue (hexDigit (value % 16))).bind fun digit ↦ some (read * 16 + digit) := by
      rw [paddedHex, readHex, foldl_append]
      rfl
    have hsplit : value / 16 % 16 ^ width * 16 + value % 16 = value % 16 ^ (width + 1) := by
      rw [pow_succ', Nat.mod_mul]
      ring
    rw [hread, ih, hexValue_hexDigit (Nat.mod_lt _ (by decide))]
    simp [hsplit]

theorem filter_hyphenate (widths : List ℕ) (hdigits : '-' ∉ digits) :
    (hyphenate widths digits).filter (· ≠ '-') = digits := by
  have hkeep : ∀ part : List Char, part ⊆ digits → part.filter (· ≠ '-') = part := by
    intro part hpart
    exact filter_eq_self.2 fun c hc ↦
      decide_eq_true (ne_of_mem_of_not_mem (hpart hc) hdigits)
  induction widths generalizing digits with
  | nil => exact hkeep digits (List.Subset.refl _)
  | cons width widths ih =>
    have hdrop : '-' ∉ digits.drop width := fun hmem ↦ hdigits (mem_of_mem_drop hmem)
    have hrest := ih hdrop fun part hpart ↦
      hkeep part (List.Subset.trans hpart (drop_subset _ _))
    calc (hyphenate (width :: widths) digits).filter (· ≠ '-')
        = (digits.take width).filter (· ≠ '-') ++
            (hyphenate widths (digits.drop width)).filter (· ≠ '-') := by simp [hyphenate]
      _ = digits.take width ++ digits.drop width := by
          rw [hkeep _ (take_subset _ _), hrest]
      _ = digits := take_append_drop width digits

theorem mem_hyphenate {widths : List ℕ} (hc : c ∈ hyphenate widths digits) :
    c = '-' ∨ c ∈ digits := by
  induction widths generalizing digits with
  | nil => exact .inr hc
  | cons width widths ih =>
    rw [hyphenate, mem_append, mem_cons] at hc
    rcases hc with hc | rfl | hc
    · exact .inr (mem_of_mem_take hc)
    · exact .inl rfl
    · exact (ih hc).imp_right mem_of_mem_drop

theorem hyphen_not_mem_paddedHex (width value : ℕ) : '-' ∉ paddedHex width value :=
  fun hmem ↦ absurd (mem_paddedHex hmem) (by decide)

instance neZero_uuid : NeZero (2 ^ 128) := inferInstance

/-- The identifiers the harness uses, with the text of the `uuid` crate. -/
def uuidText : IdText (Fin (2 ^ 128)) where
  text := hyphenated
  parse := parseHyphenated
  parse_text id := by
    have hvalue : (id : ℕ) % 16 ^ 32 = id := Nat.mod_eq_of_lt (by
      have hid := id.isLt
      norm_num at hid ⊢
      exact hid)
    have hdigits : (hyphenated id).filter (· ≠ '-') = paddedHex 32 id :=
      filter_hyphenate _ (hyphen_not_mem_paddedHex 32 id)
    rw [parseHyphenated, hdigits]
    simp only [length_paddedHex, guard_true, readHex_paddedHex, hvalue]
    simp
  plain id c hc := by
    rcases mem_hyphenate hc with rfl | hc
    · exact .inr rfl
    · exact .inl (mem_paddedHex hc)

example : uuidText.text 0x0192f0c1a2b37cde8f90123456789abc =
    "0192f0c1-a2b3-7cde-8f90-123456789abc".toList := by decide +kernel

end Exo.Storage
