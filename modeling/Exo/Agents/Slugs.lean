import Exo.Storage.Paths

/-!
# Slug marker keys

`slug_marker_path` keeps letters, digits, `-` and `_` and writes every other character as `%`
followed by its code point in at least two hexadecimal digits.  The digits have no terminator, so
what follows an escaped character can be read as more of its digits, and the last digits of a long
escape can be read as text of their own.  `Ambiguous` finds these slugs; they are exactly the ones
that share their marker with another slug.
-/

namespace Exo.Agents

open Storage List

/-- A character that is not kept as it is. -/
def Escaped (c : Char) : Prop := ¬ (c.isAlphanum = true ∨ c = '-' ∨ c = '_')

instance (c : Char) : Decidable (Escaped c) := inferInstanceAs (Decidable (¬ (_ ∨ _ ∨ _)))

/-- The number of digits of `{:02x}`: two at least, and no more than needed. -/
def hexWidth (code : ℕ) : ℕ :=
  if code < 0x100 then 2 else if code < 0x1000 then 3 else if code < 0x10000 then 4
  else if code < 0x100000 then 5 else 6

/-- `format!("{:02x}", c as u32)`. -/
def hexText (c : Char) : List Char := paddedHex (hexWidth c.toNat) c.toNat

/-- What one character of a slug becomes. -/
def encodeChar (c : Char) : List Char := if Escaped c then '%' :: hexText c else [c]

/-- The encoded slug. -/
def encode (slug : List Char) : List Char := slug.flatMap encodeChar

@[simp]
theorem encode_nil : encode [] = [] := rfl

theorem encode_append (first second : List Char) :
    encode (first ++ second) = encode first ++ encode second := by
  simp [encode]

variable {c : Char} {slug rest : List Char}

theorem encode_escaped (hc : Escaped c) (rest : List Char) :
    encode (c :: rest) = '%' :: (hexText c ++ encode rest) := by
  simp [encode, encodeChar, hc]

theorem encode_kept (hc : ¬ Escaped c) (rest : List Char) :
    encode (c :: rest) = c :: encode rest := by
  simp [encode, encodeChar, hc]

variable {text other : List Char}

theorem encode_eq_self (htext : ∀ c ∈ text, ¬ Escaped c) : encode text = text := by
  induction text with
  | nil => rfl
  | cons c rest ih =>
    rw [encode_kept (htext c mem_cons_self), ih fun d hd ↦ htext d (mem_cons_of_mem _ hd)]

theorem escaped_percent : Escaped '%' := by decide

theorem not_escaped_of_mem_hexText {digit : Char} (hdigit : digit ∈ hexText c) :
    ¬ Escaped digit := fun hescaped ↦ hescaped (.inl (mem_paddedHex hdigit))

theorem mem_encode (hc : c ∈ encode slug) : c = '%' ∨ ¬ Escaped c := by
  simp only [encode, mem_flatMap] at hc
  obtain ⟨source, -, hc⟩ := hc
  by_cases hsource : Escaped source
  · rw [encodeChar, if_pos hsource, mem_cons] at hc
    exact hc.imp_right not_escaped_of_mem_hexText
  · rw [encodeChar, if_neg hsource, mem_singleton] at hc
    rw [hc]
    exact .inr hsource

theorem lt_pow_hexWidth (c : Char) : c.toNat < 16 ^ hexWidth c.toNat := by
  have hcode : c.toNat < 0x110000 := by
    rcases c.valid with hvalid | hvalid
    · exact lt_trans hvalid (by decide)
    · exact hvalid.2
  unfold hexWidth
  split_ifs with h2 h3 h4 h5 <;> norm_num <;> omega

theorem hexWidth_bounds (code : ℕ) : 2 ≤ hexWidth code ∧ hexWidth code ≤ 6 := by
  unfold hexWidth
  split_ifs <;> omega

theorem length_hexText (c : Char) : (hexText c).length = hexWidth c.toNat :=
  length_paddedHex _ _

theorem readHex_hexText (c : Char) : readHex (hexText c) = some c.toNat := by
  rw [hexText, readHex_paddedHex, Nat.mod_eq_of_lt (lt_pow_hexWidth c)]

/-- The escaped character that exactly these digits stand for. -/
def readEscape (digits : List Char) : Option Char := do
  let code ← readHex digits
  let c := Char.ofNat code
  if Escaped c ∧ hexText c = digits then some c else none

theorem readEscape_eq_some {digits : List Char} :
    readEscape digits = some c ↔ Escaped c ∧ hexText c = digits := by
  constructor
  · intro hread
    simp only [readEscape, Option.bind_eq_bind, Option.bind_eq_some_iff] at hread
    obtain ⟨code, -, hcode⟩ := hread
    split at hcode
    case isTrue hdigits =>
      rw [← Option.some.inj hcode]
      exact hdigits
    case isFalse => cases hcode
  · rintro ⟨hescaped, rfl⟩
    simp [readEscape, readHex_hexText, Char.ofNat_toNat, hescaped]

/-- The digits of an escaped character, read together with the text after it, begin with the
digits of another escaped character. -/
def Misread (c : Char) (rest : List Char) : Prop :=
  ∃ width ∈ [2, 3, 4, 5, 6], (readEscape ((hexText c ++ rest).take width)).any (· ≠ c) = true

instance (c : Char) (rest : List Char) : Decidable (Misread c rest) :=
  inferInstanceAs (Decidable (∃ width ∈ [2, 3, 4, 5, 6], _ = true))

/-- Some escaped character of the slug can be misread. -/
def Ambiguous : List Char → Prop
  | [] => False
  | c :: rest => Escaped c ∧ Misread c rest ∨ Ambiguous rest

instance decidableAmbiguous : ∀ slug : List Char, Decidable (Ambiguous slug)
  | [] => isFalse id
  | _ :: rest => @instDecidableOr _ _ _ (decidableAmbiguous rest)

theorem misread_iff :
    Misread c rest ↔ ∃ d, Escaped d ∧ d ≠ c ∧ hexText d <+: hexText c ++ rest := by
  simp only [Misread, Option.any_eq_true, decide_eq_true_eq]
  constructor
  · rintro ⟨width, -, d, hread, hne⟩
    obtain ⟨hescaped, hdigits⟩ := readEscape_eq_some.1 hread
    exact ⟨d, hescaped, hne, hdigits ▸ take_prefix _ _⟩
  · rintro ⟨d, hescaped, hne, hstart⟩
    have hwidth := hexWidth_bounds d.toNat
    refine ⟨hexWidth d.toNat, ?_, d, readEscape_eq_some.2 ⟨hescaped, ?_⟩, hne⟩
    · simp only [mem_cons, not_mem_nil, or_false]
      omega
    · rw [← length_hexText]
      exact prefix_iff_eq_take.1 hstart

theorem prefix_of_prefix_encode (htext : ∀ c ∈ text, ¬ Escaped c) (hstart : text <+: encode slug) :
    text <+: slug := by
  induction text generalizing slug with
  | nil => exact nil_prefix
  | cons c text ih =>
    have hc := htext c mem_cons_self
    cases slug with
    | nil => simp at hstart
    | cons d rest =>
      by_cases hd : Escaped d
      · rw [encode_escaped hd, cons_prefix_cons] at hstart
        rw [hstart.1] at hc
        exact absurd escaped_percent hc
      · rw [encode_kept hd, cons_prefix_cons] at hstart
        rw [hstart.1, prefix_cons_inj]
        exact ih (fun e he ↦ htext e (mem_cons_of_mem _ he)) hstart.2

theorem exists_of_misread (hc : Escaped c) (hmisread : Misread c rest) :
    ∃ other, other ≠ c :: rest ∧ encode other = encode (c :: rest) := by
  obtain ⟨d, hd, hne, hstart⟩ := misread_iff.1 hmisread
  have hcut : hexText d <+: hexText c ∨ hexText c <+: hexText d :=
    prefix_or_prefix_of_prefix hstart (prefix_append _ _)
  rcases hcut with ⟨tail, htail⟩ | ⟨tail, htail⟩
  · -- the digits end early: the remaining ones are text of their own
    have hkept : encode tail = tail := encode_eq_self fun e he ↦
      not_escaped_of_mem_hexText (c := c) (htail ▸ mem_append_right _ he)
    refine ⟨d :: (tail ++ rest), fun heq ↦ hne (cons.inj heq).1, ?_⟩
    rw [encode_escaped hd, encode_escaped hc, encode_append, hkept, ← htail, append_assoc]
  · -- the digits go on into the text
    have htext : tail <+: rest := by
      rw [← htail] at hstart
      exact (prefix_append_right_inj _).1 hstart
    obtain ⟨remaining, rfl⟩ := htext
    have hkept : encode tail = tail := encode_eq_self fun e he ↦
      not_escaped_of_mem_hexText (c := d) (htail ▸ mem_append_right _ he)
    refine ⟨d :: remaining, fun heq ↦ hne (cons.inj heq).1, ?_⟩
    rw [encode_escaped hd, encode_escaped hc, encode_append, hkept, ← htail, append_assoc]

theorem encode_cons_ne_nil (c : Char) (rest : List Char) : encode (c :: rest) ≠ [] := by
  by_cases hc : Escaped c
  · simp [encode_escaped hc]
  · simp [encode_kept hc]

/-- Two different escapes that begin the same text: the other one misreads this one. -/
theorem misread_of_encode_eq {d : Char} {others : List Char} (hd : Escaped d) (hne : d ≠ c)
    (hencode : hexText d ++ encode others = hexText c ++ encode rest) : Misread c rest := by
  have hstart : hexText d <+: hexText c ++ encode rest := hencode ▸ prefix_append _ _
  refine misread_iff.2 ⟨d, hd, hne, ?_⟩
  rcases prefix_or_prefix_of_prefix hstart (prefix_append _ _) with hcut | hcut
  · exact hcut.trans (prefix_append _ _)
  · obtain ⟨tail, htail⟩ := hcut
    have hkept : ∀ e ∈ tail, ¬ Escaped e := fun e he ↦
      not_escaped_of_mem_hexText (c := d) (htail ▸ mem_append_right _ he)
    rw [← htail] at hstart ⊢
    rw [prefix_append_right_inj] at hstart ⊢
    exact prefix_of_prefix_encode hkept hstart

theorem ambiguous_of_encode_eq (hne : other ≠ slug) (hencode : encode other = encode slug) :
    Ambiguous slug := by
  induction slug generalizing other with
  | nil =>
    cases other with
    | nil => exact absurd rfl hne
    | cons d others => exact absurd hencode (encode_cons_ne_nil d others)
  | cons c rest ih =>
    cases other with
    | nil => exact absurd hencode.symm (encode_cons_ne_nil c rest)
    | cons d others =>
      have hrest : d = c → encode others = encode rest → Ambiguous (c :: rest) := by
        rintro rfl hothers
        exact .inr (ih (fun heq ↦ hne (by rw [heq])) hothers)
      by_cases hc : Escaped c <;> by_cases hd : Escaped d
      · rw [encode_escaped hc, encode_escaped hd, cons_inj_right] at hencode
        by_cases hdc : d = c
        · rw [hdc] at hencode
          exact hrest hdc (append_cancel_left hencode)
        · exact .inl ⟨hc, misread_of_encode_eq hd hdc hencode⟩
      · rw [encode_escaped hc, encode_kept hd] at hencode
        exact absurd ((cons.inj hencode).1 ▸ escaped_percent) hd
      · rw [encode_kept hc, encode_escaped hd] at hencode
        exact absurd ((cons.inj hencode).1 ▸ escaped_percent) hc
      · rw [encode_kept hc, encode_kept hd] at hencode
        exact hrest (cons.inj hencode).1 (cons.inj hencode).2

theorem ambiguous_iff : Ambiguous slug ↔ ∃ other, other ≠ slug ∧ encode other = encode slug := by
  constructor
  · intro hambiguous
    induction slug with
    | nil => exact absurd hambiguous id
    | cons c rest ih =>
      rcases hambiguous with ⟨hc, hmisread⟩ | hrest
      · exact exists_of_misread hc hmisread
      · obtain ⟨other, hne, hencode⟩ := ih hrest
        refine ⟨c :: other, fun heq ↦ hne (cons.inj heq).2, ?_⟩
        calc encode (c :: other) = encodeChar c ++ encode other := rfl
          _ = encodeChar c ++ encode rest := by rw [hencode]
          _ = encode (c :: rest) := rfl
  · rintro ⟨other, hne, hencode⟩
    exact ambiguous_of_encode_eq hne hencode

theorem encode_inj_of_not_ambiguous (hslug : ¬ Ambiguous slug)
    (hencode : encode other = encode slug) : other = slug := by
  by_contra hne
  exact hslug (ambiguous_iff.2 ⟨other, hne, hencode⟩)

example : encode "my agent".toList = encode "myȊgent".toList := by decide

example : ¬ Ambiguous "my-agent_2".toList := by decide

example : ¬ Ambiguous "who knows?".toList := by decide

end Exo.Agents
