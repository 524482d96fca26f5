import Mathlib.Data.List.Basic
import Exo.Library.Grid

/-!
# Schedules

A schedule is `@every <n><unit>`, `@at <timestamp>` or `*/N * * * *`.  Times and intervals are
milliseconds in 64 bits; arithmetic on them saturates.  Texts are Rust strings, so the length the
interval parser looks at counts bytes and cutting off its last byte panics inside a longer
character.
-/

namespace Exo.Scheduler

open Library

/-- `u64::MAX`. -/
def u64Max : ℕ := 2 ^ 64 - 1

/-- `u64::saturating_add`. -/
def saturatingAdd (x y : ℕ) : ℕ := min (x + y) u64Max

/-- `u64::saturating_mul`. -/
def saturatingMul (x y : ℕ) : ℕ := min (x * y) u64Max

inductive ParsedSchedule where
  | every (intervalMs : ℕ)
  | at (atMs : ℕ)
  deriving DecidableEq

/-- Why a schedule is refused; `panicked` is the interval whose last character is longer than one
byte. -/
inductive ScheduleError where
  | unknownForm
  | intervalTooShort
  | intervalNotAnInteger
  | intervalZero
  | intervalUnit
  | cronNotAnInteger
  | cronZero
  | atNotRfc3339
  | atBeforeEpoch
  | panicked
  deriving DecidableEq

/-- The texts of the errors; the one for a malformed timestamp ends with the parser's own text. -/
def ScheduleError.message : ScheduleError → String
  | .unknownForm => "schedule must be '@every <duration>', '@at <rfc3339>', or '*/N * * * *'"
  | .intervalTooShort => "interval must include a value and unit"
  | .intervalNotAnInteger => "interval value must be a positive integer"
  | .intervalZero => "interval value must be greater than zero"
  | .intervalUnit => "interval unit must be one of s, m, h, or d"
  | .cronNotAnInteger => "cron minute interval must be a positive integer"
  | .cronZero => "cron minute interval must be greater than zero"
  | .atNotRfc3339 => "@at timestamp must be RFC 3339, for example '@at 2026-07-26T17:00:00Z': "
  | .atBeforeEpoch => "@at timestamp must be at or after the unix epoch"
  | .panicked => "byte index is not a char boundary"

/-- `char::is_whitespace`: the characters with the Unicode property `White_Space`. -/
def isWhitespace (c : Char) : Bool :=
  let code := c.toNat
  (0x9 ≤ code ∧ code ≤ 0xd) ∨ (0x2000 ≤ code ∧ code ≤ 0x200a) ∨
    code ∈ [0x20, 0x85, 0xa0, 0x1680, 0x2028, 0x2029, 0x202f, 0x205f, 0x3000]

/-- `str::trim`. -/
def trim (text : List Char) : List Char :=
  ((text.dropWhile isWhitespace).reverse.dropWhile isWhitespace).reverse

/-- `str::strip_prefix`. -/
def stripPrefix (start text : List Char) : Option (List Char) :=
  if start <+: text then some (text.drop start.length) else none

/-- `str::trim_start_matches` with a text of two characters. -/
def trimStartMatches (first second : Char) : List Char → List Char
  | c :: d :: rest =>
    if c = first ∧ d = second then trimStartMatches first second rest else c :: d :: rest
  | text => text

/-- `str::split_whitespace`; `word` is the word being read. -/
def splitWhitespace (word : List Char) : List Char → List (List Char)
  | [] => if word = [] then [] else [word]
  | c :: rest =>
    if isWhitespace c then
      if word = [] then splitWhitespace [] rest else word :: splitWhitespace [] rest
    else splitWhitespace (word ++ [c]) rest

/-- The value of decimal digits. -/
def readDecimal (digits : List Char) : Option ℕ :=
  if digits ≠ [] ∧ digits.all Char.isDigit then
    some (digits.foldl (fun value digit ↦ value * 10 + (digit.toNat - '0'.toNat)) 0)
  else none

/-- `str::parse::<u64>`: decimal digits after an optional plus sign, in 64 bits. -/
def parseU64 (text : List Char) : Option ℕ := do
  let digits := match text with
    | '+' :: digits => digits
    | digits => digits
  let value ← readDecimal digits
  if value ≤ u64Max then some value else none

/-- `str::len`: the bytes of the text. -/
def byteLength (text : List Char) : ℕ := (text.map fun c ↦ c.utf8Size).sum

/-- `parse_interval`. -/
def parseInterval (raw : List Char) : Except ScheduleError ParsedSchedule :=
  if byteLength raw < 2 then .error .intervalTooShort
  else
    match raw.getLast? with
    | none => .error .intervalTooShort
    | some unit =>
      if unit.utf8Size ≠ 1 then .error .panicked
      else
        match parseU64 raw.dropLast with
        | none => .error .intervalNotAnInteger
        | some 0 => .error .intervalZero
        | some (count + 1) =>
          match unit with
          | 's' => .ok (.every (saturatingMul (count + 1) 1000))
          | 'm' => .ok (.every (saturatingMul (count + 1) 60000))
          | 'h' => .ok (.every (saturatingMul (count + 1) 3600000))
          | 'd' => .ok (.every (saturatingMul (count + 1) 86400000))
          | _ => .error .intervalUnit

/-- `DateTime::parse_from_rfc3339` of the `chrono` crate, as milliseconds since the epoch. -/
abbrev TimestampParser := List Char → Option ℤ

section
variable (parseRfc3339 : TimestampParser) (raw : List Char)

/-- `parse_at`. -/
def parseAt : Except ScheduleError ParsedSchedule :=
  match parseRfc3339 raw with
  | none => .error .atNotRfc3339
  | some (.negSucc _) => .error .atBeforeEpoch
  | some (.ofNat atMs) => .ok (.at atMs)

/-- The cron form, once its five fields are separated. -/
def parseCron (minutes : List Char) : Except ScheduleError ParsedSchedule :=
  match parseU64 (trimStartMatches '*' '/' minutes) with
  | none => .error .cronNotAnInteger
  | some 0 => .error .cronZero
  | some (count + 1) => .ok (.every (saturatingMul (count + 1) 60000))

/-- `parse_schedule`. -/
def parseSchedule : Except ScheduleError ParsedSchedule :=
  let schedule := trim raw
  match stripPrefix "@every ".toList schedule with
  | some interval => parseInterval (trim interval)
  | none =>
    match stripPrefix "@at ".toList schedule with
    | some timestamp => parseAt parseRfc3339 (trim timestamp)
    | none =>
      match splitWhitespace [] schedule with
      | [minutes, ['*'], ['*'], ['*'], ['*']] =>
        if ['*', '/'] <+: minutes then parseCron minutes else .error .unknownForm
      | _ => .error .unknownForm

end

theorem saturatingMul_pos {x y : ℕ} (hx : 0 < x) (hy : 0 < y) : 0 < saturatingMul x y :=
  lt_min (Nat.mul_pos hx hy) (by decide)

theorem parseInterval_pos {raw : List Char} {interval : ℕ}
    (hparse : parseInterval raw = .ok (.every interval)) : 0 < interval := by
  unfold parseInterval at hparse
  split_ifs at hparse
  split at hparse
  case h_1 => cases hparse
  case h_2 unit _ =>
    split_ifs at hparse
    split at hparse <;> try cases hparse
    split at hparse <;> cases hparse <;> exact saturatingMul_pos (Nat.succ_pos _) (by decide)

theorem parseSchedule_pos {parseRfc3339 : TimestampParser} {raw : List Char} {interval : ℕ}
    (hparse : parseSchedule parseRfc3339 raw = .ok (.every interval)) : 0 < interval := by
  unfold parseSchedule at hparse
  simp only at hparse
  split at hparse
  case h_1 => exact parseInterval_pos hparse
  case h_2 =>
    split at hparse
    case h_1 =>
      unfold parseAt at hparse
      split at hparse <;> cases hparse
    case h_2 =>
      split at hparse
      case h_1 =>
        split_ifs at hparse
        unfold parseCron at hparse
        split at hparse <;> cases hparse
        exact saturatingMul_pos (Nat.succ_pos _) (by decide)
      case h_2 => cases hparse

example : parseSchedule (fun _ ↦ none) " @every 90s ".toList = .ok (.every 90000) := by decide

example : parseSchedule (fun _ ↦ none) "*/5 * * *  *".toList = .ok (.every 300000) := by decide

/-- `next_slot_after_ms`. -/
def ParsedSchedule.nextSlotAfterMs (schedule : ParsedSchedule) (anchorMs afterMs : ℕ) : ℕ :=
  match schedule with
  | .every intervalMs =>
    let elapsedMs := afterMs - anchorMs
    let slots := saturatingAdd (elapsedMs / intervalMs) 1
    saturatingAdd anchorMs (saturatingMul slots intervalMs)
  | .at atMs => atMs

/-- Where nothing saturates, the next slot is the next point of the grid. -/
theorem nextSlotAfterMs_every {intervalMs anchorMs afterMs : ℕ} (hinterval : 0 < intervalMs)
    (hfits : Grid.nextAfter anchorMs intervalMs afterMs ≤ u64Max) :
    (ParsedSchedule.every intervalMs).nextSlotAfterMs anchorMs afterMs =
      Grid.nextAfter anchorMs intervalMs afterMs := by
  have hproduct : ((afterMs - anchorMs) / intervalMs + 1) * intervalMs ≤ u64Max :=
    le_trans (Nat.le_add_left _ _) hfits
  have hslots : (afterMs - anchorMs) / intervalMs + 1 ≤ u64Max :=
    le_trans (Nat.le_mul_of_pos_right _ hinterval) hproduct
  rw [ParsedSchedule.nextSlotAfterMs, saturatingAdd, saturatingAdd, saturatingMul,
    min_eq_left hslots, min_eq_left hproduct]
  exact min_eq_left hfits

end Exo.Scheduler
