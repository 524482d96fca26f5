import Mathlib.Data.List.Basic

/-!
# The output of a scheduled command

Both streams of a command are read to their ends, and only their first bytes are kept.
-/

namespace Exo.Scheduler

open List

/-- What a read into the buffer returns before the end of the stream. -/
abbrev ReadChunk := {bytes : List UInt8 // bytes ≠ [] ∧ bytes.length ≤ 8192}

/-- The loop of `read_limited`; beside its result, what has not been read. -/
def readLoop (maxBytes : ℕ) (output : List UInt8) (truncated : Bool) :
    List (Except String (List UInt8)) →
      Except String ((List UInt8 × Bool) × List (Except String (List UInt8)))
  | [] => .ok ((output, truncated), [])
  | .error message :: _ => .error message
  | .ok buffer :: reads =>
    if buffer.length = 0 then .ok ((output, truncated), reads)
    else
      let remaining := maxBytes - output.length
      if buffer.length > remaining then
        readLoop maxBytes (output ++ buffer.take remaining) true reads
      else readLoop maxBytes (output ++ buffer) truncated reads

def readLimited (reads : List (Except String (List UInt8))) (maxBytes : ℕ) :=
  readLoop maxBytes [] false reads

section
variable (chunks : List ReadChunk) (emptyRead : Bool)

/-- The reads of a stream; the end may show as an empty read. -/
def readsOf : List (Except String (List UInt8)) :=
  chunks.map (.ok ·.1) ++ if emptyRead then [.ok []] else []

/-- After the bytes that were seen, the loop goes on as if it had kept all of them. -/
theorem readLoop_readsOf (maxBytes : ℕ) (seen : List UInt8) (chunks : List ReadChunk)
    (emptyRead : Bool) :
    readLoop maxBytes (seen.take maxBytes) (decide (maxBytes < seen.length))
        (readsOf chunks emptyRead) =
      let stream := seen ++ (chunks.map Subtype.val).flatten
      .ok ((stream.take maxBytes, decide (maxBytes < stream.length)), []) := by
  induction chunks generalizing seen with
  | nil => cases emptyRead <;> simp [readsOf, readLoop]
  | cons chunk chunks ih =>
    obtain ⟨buffer, hchunk⟩ := chunk
    have hlength : buffer.length ≠ 0 := by simpa using hchunk.1
    have hnext := ih (seen ++ buffer)
    rw [append_assoc, take_append, length_append] at hnext
    have hremaining : maxBytes - (seen.take maxBytes).length = maxBytes - seen.length := by
      rw [length_take]
      omega
    rw [show readsOf (⟨buffer, hchunk⟩ :: chunks) emptyRead = .ok buffer :: readsOf chunks emptyRead
      from rfl, readLoop, if_neg hlength, hremaining]
    by_cases hmore : buffer.length > maxBytes - seen.length
    · rw [decide_eq_true (by omega)] at hnext
      exact (if_pos hmore).trans hnext
    · rw [take_of_length_le (Nat.le_of_not_gt hmore), decide_eq_false (by omega)] at hnext
      rw [decide_eq_false (by omega)]
      exact (if_neg hmore).trans hnext

/-- Whatever the chunks, the first bytes are kept, and the stream is read to its end. -/
theorem read_limited_is_first_bytes (maxBytes : ℕ) : let stream := (chunks.map Subtype.val).flatten
    readLimited (readsOf chunks emptyRead) maxBytes =
      .ok ((stream.take (min maxBytes stream.length), decide (maxBytes < stream.length)), []) := by
  intro stream
  have hloop := readLoop_readsOf maxBytes [] chunks emptyRead
  rw [take_nil] at hloop
  rw [← take_eq_take_min]
  exact hloop

end

end Exo.Scheduler
