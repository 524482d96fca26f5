import Mathlib.Data.List.Basic
import Mathlib.Tactic.Set

/-!
# Lines of a byte stream that arrives in chunks

A reader keeps the bytes of the line it has begun and gives a line with every separator.  What it
gives depends on the bytes and not on how they were cut.  The second half is UTF-8 on lists of
bytes: decoding undoes encoding, and the bytes after an encoded text are the text that follows it.
-/

namespace Exo.Library

open List

section Break
variable {α : Type*} [DecidableEq α] (separator : α)

/-- The lines that end in the new elements, each with its separator, and the line begun; `begun` is
the line begun before them. -/
def breakLines (begun : List α) : List α → List (List α) × List α
  | [] => ([], begun)
  | x :: rest =>
    if x = separator then
      let after := breakLines [] rest
      ((begun ++ [x]) :: after.1, after.2)
    else breakLines (begun ++ [x]) rest

variable {separator}

/-- Breaking goes on from the line begun. -/
theorem breakLines_append (begun first second : List α) :
    breakLines separator begun (first ++ second) =
      ((breakLines separator begun first).1 ++
          (breakLines separator (breakLines separator begun first).2 second).1,
        (breakLines separator (breakLines separator begun first).2 second).2) := by
  induction first generalizing begun with
  | nil => simp [breakLines]
  | cons x rest ih =>
    rw [cons_append, breakLines, breakLines]
    split
    · simp [ih]
    · exact ih (begun ++ [x])

theorem breakLines_of_not_mem (begun : List α) {body : List α} (hbody : separator ∉ body) :
    breakLines separator begun body = ([], begun ++ body) := by
  induction body generalizing begun with
  | nil => simp [breakLines]
  | cons x rest ih =>
    rw [mem_cons, not_or] at hbody
    rw [breakLines, if_neg (Ne.symm hbody.1), ih (begun ++ [x]) hbody.2]
    simp

theorem breakLines_line {body : List α} (hbody : separator ∉ body) (rest : List α) :
    breakLines separator [] (body ++ separator :: rest) =
      ((body ++ [separator]) :: (breakLines separator [] rest).1,
        (breakLines separator [] rest).2) := by
  rw [breakLines_append, breakLines_of_not_mem [] hbody]
  simp [breakLines]

end Break

section
variable (text : List Char)

/-- The bytes of a text. -/
def utf8 : List UInt8 := text.flatMap String.utf8EncodeChar

/-- The text of some bytes, if they are one. -/
def utf8Decode? (bytes : List UInt8) : Option (List Char) :=
  bytes.toByteArray.utf8Decode?.map Array.toList

theorem utf8_cons (c : Char) (text : List Char) :
    utf8 (c :: text) = String.utf8EncodeChar c ++ utf8 text := rfl

theorem utf8_append (first second : List Char) :
    utf8 (first ++ second) = utf8 first ++ utf8 second := flatMap_append

theorem toByteArray_utf8 : (utf8 text).toByteArray = text.utf8Encode := rfl

@[simp]
theorem utf8Decode?_utf8 : utf8Decode? (utf8 text) = some text := by
  rw [utf8Decode?, toByteArray_utf8, utf8Decode?_utf8Encode]
  rfl

end

theorem toByteArray_inj {first second : List UInt8}
    (h : first.toByteArray = second.toByteArray) : first = second := by
  have hdata := congrArg (fun bytes : ByteArray ↦ bytes.data.toList) h
  simpa using hdata

variable {text : List Char}

/-- What decodes is the encoding of what it decodes to. -/
theorem utf8_of_decode {bytes : List UInt8} (hdecode : utf8Decode? bytes = some text) :
    utf8 text = bytes := by
  obtain ⟨chars, hchars, rfl⟩ := Option.map_eq_some_iff.1 hdecode
  refine toByteArray_inj ?_
  rw [toByteArray_utf8]
  have hsome : bytes.toByteArray.utf8Decode?.isSome := by rw [hchars]; rfl
  have hget : bytes.toByteArray.utf8Decode?.get hsome = chars := by simp [hchars]
  rw [← hget]
  exact ByteArray.utf8Encode_get_utf8Decode?

/-- Bytes that begin with an encoded text decode to a text that begins with it. -/
theorem exists_of_decode_append {start : List Char} {rest : List UInt8}
    (hdecode : utf8Decode? (utf8 start ++ rest) = some text) :
    ∃ tail, text = start ++ tail ∧ utf8 tail = rest := by
  have htext := utf8_of_decode hdecode
  have harray : start.utf8Encode ++ rest.toByteArray = text.utf8Encode := by
    rw [← toByteArray_utf8, ← toByteArray_utf8, htext, toByteArray_append]
  obtain ⟨tail, rfl⟩ := isPrefix_of_utf8Encode_append_eq_utf8Encode _ harray
  refine ⟨tail, rfl, ?_⟩
  rw [utf8_append] at htext
  exact append_cancel_left htext

/-- A byte below 128 stands for its own character only. -/
theorem mem_utf8EncodeChar {byte : UInt8} (hbyte : byte.toNat < 128) (c : Char) :
    byte ∈ String.utf8EncodeChar c ↔ byte.toNat = c.toNat := by
  have hval : c.toNat = c.val.toNat := rfl
  have hofNat : ∀ n, byte = UInt8.ofNat n ↔ byte.toNat = n % 256 := by
    intro n
    rw [← UInt8.toNat_inj, UInt8.toNat_ofNat']
  unfold String.utf8EncodeChar
  dsimp only
  rw [hval]
  split_ifs with hone htwo hthree
  all_goals simp only [mem_cons, not_mem_nil, or_false, hofNat]
  all_goals omega

theorem mem_utf8 {byte : UInt8} (hbyte : byte.toNat < 128) (text : List Char) :
    byte ∈ utf8 text ↔ ∃ c ∈ text, byte.toNat = c.toNat := by
  simp only [utf8, mem_flatMap, mem_utf8EncodeChar hbyte]

theorem utf8EncodeChar_of_lt {c : Char} (hc : c.toNat < 128) :
    String.utf8EncodeChar c = [c.toUInt8] := by
  have hle : c.val.toNat ≤ 0x7f := Nat.le_of_lt_succ hc
  unfold String.utf8EncodeChar
  dsimp only
  rw [if_pos hle]
  rfl

/-- Characters below 128 have one byte each. -/
theorem utf8_eq_map (htext : ∀ c ∈ text, c.toNat < 128) : utf8 text = text.map Char.toUInt8 := by
  induction text with
  | nil => rfl
  | cons c rest ih =>
    rw [utf8_cons, utf8EncodeChar_of_lt (htext c mem_cons_self),
      ih fun d hd ↦ htext d (mem_cons_of_mem c hd)]
    rfl

theorem utf8_take (htext : ∀ c ∈ text, c.toNat < 128) (n : ℕ) :
    (utf8 text).take n = utf8 (text.take n) := by
  rw [utf8_eq_map htext, utf8_eq_map fun c hc ↦ htext c (mem_of_mem_take hc), map_take]

end Exo.Library
