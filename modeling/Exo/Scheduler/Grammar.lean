import Exo.Scheduler.Schedule

/-!
# The grammar of schedules

What a schedule denotes is said over the trimmed text: `@every` or `@at` with what follows, without
the blanks around it, or five words of which the first is `*/N`.  The parser agrees with it unless a
number is written in a way that `u64::from_str` or the stripping of `*/` reads differently, or an
interval ends with a character of several bytes.
-/

namespace Exo.Scheduler

open List

/-- The milliseconds of a unit. -/
def unitMs : Char → Option ℕ
  | 's' => some 1000
  | 'm' => some 60000
  | 'h' => some 3600000
  | 'd' => some 86400000
  | _ => none

/-- What a trimmed text denotes. -/
def Denotes (parseRfc3339 : TimestampParser) (text : List Char) (schedule : ParsedSchedule) :
    Prop :=
  (∃ interval number unit count ms, stripPrefix "@every ".toList text = some interval ∧
    trim interval = number ++ [unit] ∧ 0 < count ∧ readDecimal number = some count ∧
      unitMs unit = some ms ∧ schedule = .every (saturatingMul count ms)) ∨
  (∃ (timestamp : List Char) (atMs : ℕ), stripPrefix "@at ".toList text = some timestamp ∧
    parseRfc3339 (trim timestamp) = some (.ofNat atMs) ∧ schedule = .at atMs) ∨
  ∃ number count, splitWhitespace [] text = ['*' :: '/' :: number, ['*'], ['*'], ['*'], ['*']] ∧
    0 < count ∧ readDecimal number = some count ∧ schedule = .every (saturatingMul count 60000)

/-- The parser does not panic and accepts what the trimmed text denotes, an interval that is never
zero, and nothing else. -/
def ParsesExactly (parseRfc3339 : TimestampParser) (raw : List Char) : Prop :=
  parseSchedule parseRfc3339 raw ≠ .error .panicked ∧
    (∀ schedule, parseSchedule parseRfc3339 raw = .ok schedule ↔
      Denotes parseRfc3339 (trim raw) schedule) ∧
    parseSchedule parseRfc3339 raw ≠ .ok (.every 0)

/-- A number of more than 64 bits, or a positive one of at most 64 bits with a plus sign. -/
inductive MisreadNumber (number : List Char) : Prop where
  | large {count : ℕ} (hnumber : readDecimal number = some count) (hcount : u64Max < count)
  | signed {digits : List Char} {count : ℕ} (hsign : number = '+' :: digits)
      (hdigits : readDecimal digits = some count) (hcount : 0 < count) (hfits : count ≤ u64Max)

/-- The trimmed text is an interval with a last character of several bytes, or with a unit and a
misread number, or a cron schedule with a misread number or with a number after further `*/`. -/
def Misread (text : List Char) : Prop :=
  (∃ interval number unit, stripPrefix "@every ".toList text = some interval ∧
    trim interval = number ++ [unit] ∧
      (unit.utf8Size ≠ 1 ∨ (unitMs unit).isSome = true ∧ MisreadNumber number)) ∨
  ∃ number, splitWhitespace [] text = ['*' :: '/' :: number, ['*'], ['*'], ['*'], ['*']] ∧
    (MisreadNumber number ∨ ∃ more count, number = '*' :: '/' :: more ∧
      parseU64 (trimStartMatches '*' '/' more) = some count ∧ 0 < count)

section Numbers
variable {number : List Char} {count : ℕ}

theorem isDigit_of_readDecimal (hnumber : readDecimal number = some count) :
    number ≠ [] ∧ ∀ c ∈ number, c.isDigit = true := by
  unfold readDecimal at hnumber
  split_ifs at hnumber with hdigits
  exact ⟨hdigits.1, all_eq_true.1 hdigits.2⟩

theorem readDecimal_cons_eq_none {c : Char} (hc : c.isDigit = false) (rest : List Char) :
    readDecimal (c :: rest) = none := by
  cases hread : readDecimal (c :: rest) with
  | none => rfl
  | some count =>
    have hdigit := (isDigit_of_readDecimal hread).2 c mem_cons_self
    rw [hc] at hdigit
    cases hdigit

theorem parseU64_signed (digits : List Char) :
    parseU64 ('+' :: digits) = some count ↔ readDecimal digits = some count ∧ count ≤ u64Max := by
  simp only [parseU64, Option.bind_eq_bind, Option.bind_eq_some_iff]
  constructor
  · rintro ⟨value, hvalue, hfits⟩
    split_ifs at hfits with hle
    cases hfits
    exact ⟨hvalue, hle⟩
  · rintro ⟨hread, hle⟩
    exact ⟨count, hread, if_pos hle⟩

theorem parseU64_unsigned (hsign : ∀ digits, number ≠ '+' :: digits) :
    parseU64 number = some count ↔ readDecimal number = some count ∧ count ≤ u64Max := by
  have hsigned : parseU64 ('+' :: number) = some count ↔ _ := parseU64_signed number
  rw [← hsigned]
  unfold parseU64
  split
  case h_1 digits => exact absurd rfl (hsign digits)
  case h_2 => rfl

/-- The lenient parser and the grammar agree on the positive numbers that are not misread. -/
theorem parseU64_iff (hcount : 0 < count) (hplain : ¬MisreadNumber number) :
    parseU64 number = some count ↔ readDecimal number = some count := by
  by_cases hsign : ∃ digits, number = '+' :: digits
  · obtain ⟨digits, rfl⟩ := hsign
    rw [readDecimal_cons_eq_none (by decide), parseU64_signed]
    constructor
    · rintro ⟨hread, hfits⟩
      exact absurd (.signed rfl hread hcount hfits) hplain
    · intro hnone
      cases hnone
  · rw [parseU64_unsigned fun digits heq ↦ hsign ⟨digits, heq⟩, and_iff_left_iff_imp]
    intro hread
    exact Nat.le_of_not_lt fun hlarge ↦ hplain (.large hread hlarge)

/-- On a misread number only one of them has a positive value. -/
theorem MisreadNumber.differ (hmisread : MisreadNumber number) :
    ∃ count, 0 < count ∧ (readDecimal number = some count ∧ parseU64 number = none ∨
      parseU64 number = some count ∧ readDecimal number = none) := by
  cases hmisread with
  | @large count hnumber hcount =>
    refine ⟨count, Nat.zero_lt_of_lt hcount, .inl ⟨hnumber, ?_⟩⟩
    have hsign : ∀ digits, number ≠ '+' :: digits := by
      rintro digits rfl
      rw [readDecimal_cons_eq_none (by decide)] at hnumber
      cases hnumber
    rw [Option.eq_none_iff_forall_ne_some]
    intro value hvalue
    obtain ⟨hread, hfits⟩ := (parseU64_unsigned hsign).1 hvalue
    cases hnumber.symm.trans hread
    exact absurd hfits (Nat.not_le.2 hcount)
  | @signed digits count hsign hdigits hcount hfits =>
    subst hsign
    exact ⟨count, hcount, .inr ⟨(parseU64_signed digits).2 ⟨hdigits, hfits⟩,
      readDecimal_cons_eq_none (by decide) digits⟩⟩

/-- A number gives the same schedules through both exactly if it is not misread. -/
theorem not_misreadNumber_iff (form : ℕ → ParsedSchedule) :
    (∀ schedule, (∃ count, 0 < count ∧ parseU64 number = some count ∧ schedule = form count) ↔
      ∃ count, 0 < count ∧ readDecimal number = some count ∧ schedule = form count) ↔
      ¬MisreadNumber number := by
  constructor
  · intro hagree hmisread
    obtain ⟨count, hcount, ⟨hread, hnone⟩ | ⟨hparse, hnone⟩⟩ := hmisread.differ
    · obtain ⟨_, _, hparse, _⟩ := (hagree (form count)).2 ⟨count, hcount, hread, rfl⟩
      cases hnone.symm.trans hparse
    · obtain ⟨_, _, hread, _⟩ := (hagree (form count)).1 ⟨count, hcount, hparse, rfl⟩
      cases hnone.symm.trans hread
  · intro hplain schedule
    exact exists_congr fun count ↦ and_congr_right fun hcount ↦
      and_congr_left fun _ ↦ parseU64_iff hcount hplain

end Numbers

section Parser
variable {parseRfc3339 : TimestampParser} {raw number : List Char} {unit : Char}
  {schedule : ParsedSchedule}

theorem parseInterval_snoc (hone : unit.utf8Size = 1) :
    parseInterval (number ++ [unit]) = .ok schedule ↔ ∃ count ms, 0 < count ∧
      parseU64 number = some count ∧ unitMs unit = some ms ∧
      schedule = .every (saturatingMul count ms) := by
  have hlast : (number ++ [unit]).getLast? = some unit := getLast?_concat
  have hlength : byteLength (number ++ [unit]) < 2 → number = [] := by
    intro hshort
    by_contra hne
    obtain ⟨c, rest, rfl⟩ := exists_cons_of_ne_nil hne
    have hc := c.utf8Size_pos
    simp only [byteLength, cons_append, map_cons, map_append, map_nil,
      sum_cons, sum_append, sum_nil, hone] at hshort
    omega
  unfold parseInterval
  split_ifs with hshort
  · rw [hlength hshort]
    constructor
    · exact nofun
    · rintro ⟨count, ms, -, hnone, -⟩
      cases hnone
  · rw [hlast]
    simp only [hone, ne_eq, not_true_eq_false, if_false, dropLast_concat]
    rcases hread : parseU64 number with _ | _ | count
    · simp
    · simp
    · cases hunit : unitMs unit with
      | none =>
        have hother : unit ≠ 's' ∧ unit ≠ 'm' ∧ unit ≠ 'h' ∧ unit ≠ 'd' := by
          refine ⟨?_, ?_, ?_, ?_⟩ <;> rintro rfl <;> cases hunit
        simp [hother]
      | some ms =>
        unfold unitMs at hunit
        split at hunit <;> cases hunit <;> simp [eq_comm]

theorem parseInterval_ne_panicked (hone : unit.utf8Size = 1) :
    parseInterval (number ++ [unit]) ≠ .error .panicked := by
  unfold parseInterval
  rw [getLast?_concat]
  split_ifs with hshort
  · exact nofun
  · simp only [hone, ne_eq, not_true_eq_false, if_false]
    split
    case h_3 => split <;> exact nofun
    all_goals exact nofun

theorem parseInterval_wide (hwide : unit.utf8Size ≠ 1) :
    parseInterval (number ++ [unit]) = .error .panicked := by
  have hlong : ¬byteLength (number ++ [unit]) < 2 := by
    have hunit := unit.utf8Size_pos
    simp only [byteLength, map_append, map_cons, map_nil, sum_append, sum_cons, sum_nil]
    omega
  rw [parseInterval, if_neg hlong, getLast?_concat]
  exact if_pos hwide

theorem parseCron_ok (minutes : List Char) : parseCron minutes = .ok schedule ↔ ∃ count, 0 < count ∧
      parseU64 (trimStartMatches '*' '/' minutes) = some count ∧
      schedule = .every (saturatingMul count 60000) := by
  unfold parseCron
  rcases parseU64 (trimStartMatches '*' '/' minutes) with _ | _ | count
  · simp
  · simp
  · simp [eq_comm]

/-- The first word goes on with what has been read of it. -/
theorem splitWhitespace_of_ne_nil {word : List Char} (hword : word ≠ []) (rest : List Char) :
    ∃ more words, splitWhitespace word rest = (word ++ more) :: words := by
  induction rest generalizing word with
  | nil => exact ⟨[], [], by simp [splitWhitespace, hword]⟩
  | cons c rest ih =>
    unfold splitWhitespace
    split_ifs
    · exact ⟨[], splitWhitespace [] rest, by rw [append_nil]⟩
    · obtain ⟨more, words, heq⟩ := ih (concat_ne_nil c word)
      exact ⟨c :: more, words, by rw [heq, append_assoc, singleton_append]⟩

theorem not_cron_of_stripPrefix {start rest : List Char} {words : List (List Char)}
    (hbegins : stripPrefix ('@' :: start) raw = some rest) :
    splitWhitespace [] raw ≠ ('*' :: number) :: words := by
  unfold stripPrefix at hbegins
  split_ifs at hbegins with hstart
  obtain ⟨more, rfl⟩ := hstart
  have hfirst : splitWhitespace [] ('@' :: (start ++ more)) =
      splitWhitespace ['@'] (start ++ more) := rfl
  obtain ⟨_, _, heq⟩ := splitWhitespace_of_ne_nil (cons_ne_nil '@' []) (start ++ more)
  rw [cons_append, hfirst, heq]
  simp

theorem trimStartMatches_of_ne (hne : ∀ more, number ≠ '*' :: '/' :: more) :
    trimStartMatches '*' '/' number = number := by
  unfold trimStartMatches
  split
  case h_1 c d rest =>
    rw [if_neg]
    rintro ⟨rfl, rfl⟩
    exact hne rest rfl
  case h_2 => rfl

variable (parseRfc3339)

theorem parsesExactly_iff :
    ParsesExactly parseRfc3339 raw ↔ parseSchedule parseRfc3339 raw ≠ .error .panicked ∧
      ∀ schedule, parseSchedule parseRfc3339 raw = .ok schedule ↔
        Denotes parseRfc3339 (trim raw) schedule := by
  refine and_congr_right fun _ ↦ and_iff_left ?_
  intro hzero
  exact absurd (parseSchedule_pos hzero) (Nat.lt_irrefl 0)

variable {interval timestamp : List Char}

theorem not_at_of_every (hevery : stripPrefix "@every ".toList raw = some interval) :
    stripPrefix "@at ".toList raw ≠ some timestamp := by
  intro hat
  unfold stripPrefix at hevery hat
  split_ifs at hevery hat with hfirst hsecond
  obtain ⟨rest, rfl⟩ := hfirst
  obtain ⟨more, heq⟩ := hsecond
  simp at heq

theorem every_exactly (hevery : stripPrefix "@every ".toList (trim raw) = some interval) :
    ParsesExactly parseRfc3339 raw ↔ ¬Misread (trim raw) := by
  have hparse : parseSchedule parseRfc3339 raw = parseInterval (trim interval) := by
    simp only [parseSchedule, hevery]
  have hat : ∀ timestamp, stripPrefix "@at ".toList (trim raw) ≠ some timestamp :=
    fun _ ↦ not_at_of_every hevery
  have hcron : ∀ number, splitWhitespace [] (trim raw) ≠
      ['*' :: '/' :: number, ['*'], ['*'], ['*'], ['*']] := fun _ ↦ not_cron_of_stripPrefix hevery
  simp only [parsesExactly_iff, hparse, Denotes, Misread, hevery, hat, hcron]
  obtain hnil | ⟨number, unit, hsnoc⟩ := (trim interval).eq_nil_or_concat'
  · have hshort : parseInterval [] = .error .intervalTooShort := by decide
    simp [hnil, hshort]
  rw [hsnoc]
  by_cases hone : unit.utf8Size = 1
  · have hpanics : parseInterval (number ++ [unit]) ≠ _ := parseInterval_ne_panicked hone
    cases hunit : unitMs unit with
    | none => simp [hsnoc, hpanics, parseInterval_snoc hone, hone, hunit]
    | some ms =>
      have hnumber : _ ↔ ¬MisreadNumber number :=
        not_misreadNumber_iff fun count ↦ .every (saturatingMul count ms)
      simpa [hsnoc, hpanics, parseInterval_snoc hone, hone, hunit] using hnumber
  · simp [hsnoc, parseInterval_wide hone, hone]

section
variable (hevery : stripPrefix "@every ".toList (trim raw) = none)
include hevery

theorem at_exactly (hat : stripPrefix "@at ".toList (trim raw) = some timestamp) :
    ParsesExactly parseRfc3339 raw ↔ ¬Misread (trim raw) := by
  have hparse : parseSchedule parseRfc3339 raw = parseAt parseRfc3339 (trim timestamp) := by
    simp only [parseSchedule, hevery, hat]
  have hcron : ∀ number, splitWhitespace [] (trim raw) ≠
      ['*' :: '/' :: number, ['*'], ['*'], ['*'], ['*']] := fun _ ↦ not_cron_of_stripPrefix hat
  simp only [parsesExactly_iff, hparse, Denotes, Misread, hevery, hat, hcron, parseAt,
    Option.some.injEq, exists_and_left, exists_eq_left']
  rcases parseRfc3339 (trim timestamp) with _ | atMs | before
  · simp
  · simp [eq_comm (a := ParsedSchedule.at atMs)]
  · simp

theorem cron_exactly (hat : stripPrefix "@at ".toList (trim raw) = none) :
    ParsesExactly parseRfc3339 raw ↔ ¬Misread (trim raw) := by
  by_cases hcron : ∃ number,
      splitWhitespace [] (trim raw) = ['*' :: '/' :: number, ['*'], ['*'], ['*'], ['*']]
  · obtain ⟨number, hfields⟩ := hcron
    have hparse : parseSchedule parseRfc3339 raw = parseCron ('*' :: '/' :: number) := by
      simp only [parseSchedule, hevery, hat, hfields]
      exact if_pos ⟨number, rfl⟩
    have hpanics : parseCron ('*' :: '/' :: number) ≠ .error .panicked := by
      unfold parseCron
      split <;> exact nofun
    have hstrip : ∀ rest, trimStartMatches '*' '/' ('*' :: '/' :: rest) =
        trimStartMatches '*' '/' rest := fun rest ↦ by simp [trimStartMatches]
    simp only [parsesExactly_iff, hparse, Denotes, Misread, hevery, hat, hfields, parseCron_ok,
      hstrip]
    by_cases hrepeated : ∃ more, number = '*' :: '/' :: more
    · obtain ⟨more, rfl⟩ := hrepeated
      have hnone : readDecimal ('*' :: '/' :: more) = none :=
        readDecimal_cons_eq_none (by decide) _
      have hmisreadNumber : ¬MisreadNumber ('*' :: '/' :: more) := by
        intro hnumber
        cases hnumber with
        | large hread => cases hnone.symm.trans hread
        | signed hsign => cases hsign
      have hnever : (∀ (schedule : ParsedSchedule) (count : ℕ), 0 < count →
          parseU64 (trimStartMatches '*' '/' more) = some count →
            ¬schedule = .every (saturatingMul count 60000)) ↔
          ∀ count, parseU64 (trimStartMatches '*' '/' more) = some count → count = 0 := by
        constructor
        · intro hnever count hread
          by_contra hcount
          exact hnever _ count (Nat.pos_of_ne_zero hcount) hread rfl
        · intro hzero _ count hcount hread
          exact absurd (hzero count hread) hcount.ne'
      simpa [hstrip, hnone, hmisreadNumber, hpanics] using hnever
    · have hne : ∀ more, number ≠ '*' :: '/' :: more := fun more heq ↦ hrepeated ⟨more, heq⟩
      have hnumber : _ ↔ ¬MisreadNumber number :=
        not_misreadNumber_iff fun count ↦ .every (saturatingMul count 60000)
      simpa [trimStartMatches_of_ne hne, hne, hpanics] using hnumber
  · have hparse : parseSchedule parseRfc3339 raw = .error .unknownForm := by
      simp only [parseSchedule, hevery, hat]
      split
      case h_1 minutes hfields =>
        refine if_neg ?_
        rintro ⟨number, rfl⟩
        exact hcron ⟨number, hfields⟩
      case h_2 => rfl
    have hnot : ∀ number, splitWhitespace [] (trim raw) ≠
        ['*' :: '/' :: number, ['*'], ['*'], ['*'], ['*']] :=
      fun number hfields ↦ hcron ⟨number, hfields⟩
    simp only [parsesExactly_iff, hparse, Denotes, Misread, hevery, hat]
    simp [hnot]

end

end Parser

/-- The parser is exact on a text if and only if the trimmed text is not misread. -/
theorem parses_exactly_iff (parseRfc3339 : TimestampParser) (raw : List Char) :
    ParsesExactly parseRfc3339 raw ↔ ¬Misread (trim raw) := by
  cases hevery : stripPrefix "@every ".toList (trim raw) with
  | some interval => exact every_exactly parseRfc3339 hevery
  | none =>
    cases hat : stripPrefix "@at ".toList (trim raw) with
    | some timestamp => exact at_exactly parseRfc3339 hevery hat
    | none => exact cron_exactly parseRfc3339 hevery hat

theorem not_parses_exactly : ¬ParsesExactly (fun _ ↦ none) "@every 5分".toList := by
  intro hexact
  exact hexact.1 (by decide +kernel)

end Exo.Scheduler
