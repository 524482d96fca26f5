import Mathlib.Data.List.DropRight
import Mathlib.Data.List.Infix

/-!
# Replacing a word

A text is cut into tokens, single elements and slots where a word stands, and is read off them again
for any values put into the slots.  Replacing a word from the left fills its slots when the word
occurs nowhere else.
-/

namespace Exo.Library

open List

variable {α : Type*}

/-- No occurrence of the word begins in this part of the text. -/
def Clear (word part rest : List α) : Prop :=
  ∀ i < part.length, ¬ word <+: part.drop i ++ rest

/-- No occurrence of the word overlaps the value, or the place of an empty one: the window holds the
value with as much of its surroundings as such an occurrence could reach. -/
def Apart (word before value after : List α) : Prop :=
  ¬ word <:+: before.rtake (word.length - 1) ++ value ++ after.take (word.length - 1)

instance [DecidableEq α] (word before value after : List α) :
    Decidable (Apart word before value after) :=
  inferInstanceAs (Decidable (¬ _))

variable {word value part rest before after : List α}

theorem Clear.tail {first : α} (hclear : Clear word (first :: part) rest) :
    Clear word part rest := by
  intro i hi
  exact hclear (i + 1) (Nat.succ_lt_succ hi)

theorem Clear.infix_right (hclear : Clear word part rest) (hoccurs : word <:+: part ++ rest) :
    word <:+: rest := by
  obtain ⟨left, right, heq⟩ := hoccurs
  have hbegins : word <+: (part ++ rest).drop left.length := by
    rw [← heq, append_assoc, drop_left]
    exact prefix_append word right
  rw [drop_append] at hbegins
  rcases Nat.lt_or_ge left.length part.length with hlt | hge
  · rw [Nat.sub_eq_zero_of_le hlt.le, drop_zero] at hbegins
    exact absurd hbegins (hclear _ hlt)
  · rw [drop_eq_nil_of_le hge, nil_append] at hbegins
    exact hbegins.isInfix.trans (drop_suffix _ rest).isInfix

/-- An occurrence that begins in the window, before what follows the value, lies in it. -/
theorem not_apart_of_begins (hpart : part ≠ [])
    (hends : part <:+ before.rtake (word.length - 1) ++ value) (hword : word <+: part ++ after) :
    ¬ Apart word before value after := by
  intro hapart
  have hpos : 0 < part.length := length_pos_iff.2 hpart
  have hwindow : word <+: part ++ after.take (word.length - 1) := by
    rw [← take_length_add_append, prefix_take_iff]
    exact ⟨hword, by omega⟩
  obtain ⟨front, hfront⟩ := hends
  apply hapart
  rw [← hfront, append_assoc]
  exact hwindow.isInfix.trans (suffix_append front _).isInfix

theorem suffix_rtake {n : ℕ} (hpart : part <:+ before) (hlength : part.length ≤ n) :
    part <:+ before.rtake n := by
  apply suffix_of_suffix_length_le hpart (drop_suffix _ before)
  have hle : part.length ≤ before.length := hpart.length_le
  simp only [length_drop]
  omega

section
variable (hapart : Apart word before value after)
include hapart

/-- No occurrence begins in the value. -/
theorem Apart.clear : Clear word value after := by
  intro i hi hword
  have hpart : value.drop i ≠ [] := by simpa using hi
  have hends : value.drop i <:+ before.rtake (word.length - 1) ++ value :=
    (drop_suffix i value).trans (suffix_append _ value)
  exact not_apart_of_begins hpart hends hword hapart

/-- No occurrence begins before the value and reaches beyond its place. -/
theorem Apart.not_straddles (hpart : part <:+ before)
    (hne : part ≠ []) (hshort : part.length < word.length) :
    ¬ word <+: part ++ value ++ after := by
  intro hword
  have hends : part ++ value <:+ before.rtake (word.length - 1) ++ value := by
    obtain ⟨front, hfront⟩ := suffix_rtake hpart (Nat.le_sub_one_of_lt hshort)
    exact ⟨front, by rw [← hfront, append_assoc]⟩
  exact not_apart_of_begins (by simp [hne]) hends hword hapart

/-- An occurrence is on one side of the value or on the other. -/
theorem Apart.before_or_after
    (hword : word <:+: before ++ value ++ after) : word <:+: before ∨ word <:+: after := by
  by_cases hbefore : word <:+: before
  · exact .inl hbefore
  · right
    have hclear : Clear word before (value ++ after) := by
      intro i hi hbegins
      have hne : before.drop i ≠ [] := by simpa using hi
      have hlong : word.length ≤ (before.drop i).length := by
        by_contra hshort
        apply hapart.not_straddles (drop_suffix i before) hne (Nat.lt_of_not_le hshort)
        rw [append_assoc]
        exact hbegins
      have hinside : word <+: before.drop i :=
        prefix_of_prefix_length_le hbegins (prefix_append _ _) hlong
      exact hbefore (hinside.isInfix.trans (drop_suffix i before).isInfix)
    rw [append_assoc] at hword
    exact hapart.clear.infix_right (hclear.infix_right hword)

end

theorem Apart.mono {outer further : List α}
    (hapart : Apart word (outer ++ before) value (after ++ further)) :
    Apart word before value after := by
  intro hoccurs
  apply hapart
  have hleft : before.rtake (word.length - 1) <:+ (outer ++ before).rtake (word.length - 1) := by
    apply suffix_rtake ((drop_suffix _ before).trans (suffix_append outer before))
    simp only [length_drop]
    omega
  have hright : after.take (word.length - 1) <+: (after ++ further).take (word.length - 1) :=
    (prefix_append after further).take _
  obtain ⟨front, hfront⟩ := hleft
  obtain ⟨back, hback⟩ := hright
  apply hoccurs.trans
  exact ⟨front, back, by rw [← hfront, ← hback]; simp only [append_assoc]⟩

/-- No two occurrences of words overlap. -/
def NoOverlap (words : List (List α)) (text : List α) : Prop :=
  ∀ rest ∈ text.tails, ∀ word ∈ words, word <+: rest →
    ∀ w ∈ words, ∀ i < word.length, 0 < i → ¬ w <+: rest.drop i

theorem NoOverlap.drop {words : List (List α)} (hoverlap : NoOverlap words (part ++ rest)) :
    NoOverlap words rest := by
  intro tail htail
  apply hoverlap tail
  rw [mem_tails] at htail ⊢
  exact htail.trans (suffix_append part rest)

theorem nil_not_mem_of_length {words : List (List α)} {n : ℕ} (hpos : 0 < n)
    (hlength : ∀ word ∈ words, word.length = n) : [] ∉ words := by
  intro hnil
  have hzero : 0 = n := hlength [] hnil
  omega

variable [DecidableEq α]

/-- Replaces the occurrences of a nonempty word from the left; `skip` elements of the last one are
still to be passed over. -/
def replaceFrom (word value : List α) : ℕ → List α → List α
  | _, [] => []
  | skip + 1, _ :: rest => replaceFrom word value skip rest
  | 0, first :: rest =>
    if word <+: first :: rest then value ++ replaceFrom word value (word.length - 1) rest
    else first :: replaceFrom word value 0 rest

def replaceAll (word value text : List α) : List α := replaceFrom word value 0 text

theorem replaceFrom_skip (word value : List α) (skip : ℕ) (text : List α) :
    replaceFrom word value skip text = replaceAll word value (text.drop skip) := by
  induction text generalizing skip with
  | nil => simp [replaceAll, replaceFrom]
  | cons first rest ih =>
    cases skip with
    | zero => rfl
    | succ skip => exact ih skip

theorem replaceAll_word (hword : word ≠ []) (rest : List α) :
    replaceAll word value (word ++ rest) = value ++ replaceAll word value rest := by
  cases word with
  | nil => exact absurd rfl hword
  | cons first tail =>
    have hfound : first :: tail <+: first :: (tail ++ rest) := prefix_append _ rest
    rw [cons_append, replaceAll, replaceFrom, if_pos hfound, replaceFrom_skip]
    simp

theorem replaceAll_of_clear (hclear : Clear word part rest) :
    replaceAll word value (part ++ rest) = part ++ replaceAll word value rest := by
  induction part with
  | nil => rfl
  | cons first part ih =>
    have hfirst : ¬ word <+: first :: (part ++ rest) := hclear 0 (Nat.zero_lt_succ _)
    rw [cons_append, replaceAll, replaceFrom, if_neg hfirst, ← replaceAll, ih hclear.tail,
      cons_append]

/-- An element of the text, or the place where a word stands. -/
inductive Token (α : Type*) where
  | char (a : α)
  | slot (word : List α)
  deriving DecidableEq

section
variable (filled : List (List α × List α))

/-- A slot shows the value its word was replaced by, or else the word. -/
def Token.render : Token α → List α
  | .char a => [a]
  | .slot word => (filled.lookup word).getD word

def render (tokens : List (Token α)) : List α :=
  tokens.flatMap (Token.render filled)

end

/-- Cuts a text into tokens from the left. -/
def scanFrom (words : List (List α)) : ℕ → List α → List (Token α)
  | _, [] => []
  | skip + 1, _ :: rest => scanFrom words skip rest
  | 0, first :: rest =>
    match words.find? fun word ↦ word.isPrefixOf (first :: rest) with
    | some word => .slot word :: scanFrom words (word.length - 1) rest
    | none => .char first :: scanFrom words 0 rest

def scan (words : List (List α)) (text : List α) : List (Token α) := scanFrom words 0 text

variable {words : List (List α)} {filled : List (List α × List α)}
  {tokens : List (Token α)} {token : Token α} {w : List α}

section
variable (filled : List (List α × List α))

@[simp] theorem render_cons (token : Token α)
    (tokens : List (Token α)) :
    render filled (token :: tokens) = token.render filled ++ render filled tokens := rfl

@[simp] theorem render_append (left right : List (Token α)) :
    render filled (left ++ right) = render filled left ++ render filled right :=
  flatMap_append

end

theorem scanFrom_skip (words : List (List α)) (skip : ℕ) (text : List α) :
    scanFrom words skip text = scan words (text.drop skip) := by
  induction text generalizing skip with
  | nil => simp [scan, scanFrom]
  | cons first rest ih =>
    cases skip with
    | zero => rfl
    | succ skip => exact ih skip

/-- To show something of a text and its tokens, follow the scan. -/
theorem scan_induction {P : List α → List (Token α) → Prop} (hwords : [] ∉ words)
    (nil : P [] [])
    (slot : ∀ word ∈ words, ∀ rest, P rest (scan words rest) →
      P (word ++ rest) (.slot word :: scan words rest))
    (char : ∀ first rest, (∀ word ∈ words, ¬ word <+: first :: rest) →
      P rest (scan words rest) → P (first :: rest) (.char first :: scan words rest))
    (text : List α) : P text (scan words text) := by
  induction hlength : text.length using Nat.strong_induction_on generalizing text with
  | _ n ih =>
    cases text with
    | nil => exact nil
    | cons first rest =>
      rw [scan, scanFrom]
      split
      case h_1 word hfind =>
        have hmem : word ∈ words := mem_of_find?_eq_some hfind
        have hbegins : word <+: first :: rest := by
          apply isPrefixOf_iff_prefix.1
          exact find?_some (p := fun word : List α ↦ word.isPrefixOf (first :: rest)) hfind
        obtain ⟨tail, htail⟩ := hbegins
        have hpos : word ≠ [] := fun hnil ↦ hwords (hnil ▸ hmem)
        cases word with
        | nil => exact absurd rfl hpos
        | cons head word =>
          have hrest : rest.drop word.length = tail := by
            have hcons : head :: (word ++ tail) = first :: rest := htail
            rw [← (cons.inj hcons).2, drop_left]
          rw [scanFrom_skip, length_cons, Nat.add_sub_cancel, hrest, ← htail]
          have hshorter : tail.length < n := by
            rw [← hlength, ← htail]
            simp only [length_append, length_cons]
            omega
          exact slot _ hmem tail (ih tail.length hshorter tail rfl)
      case h_2 hfind =>
        have hnone (word : List α) (hmem : word ∈ words) : ¬ word <+: first :: rest := by
          intro hbegins
          have hnot := find?_eq_none.1 hfind word hmem
          exact hnot <| isPrefixOf_iff_prefix.2 hbegins
        have hshorter : rest.length < n := by
          rw [← hlength]
          exact Nat.lt_succ_self _
        exact char first rest hnone (ih rest.length hshorter rest rfl)

theorem render_scan (hwords : [] ∉ words) (text : List α) : render [] (scan words text) = text := by
  apply scan_induction (P := fun text tokens ↦ render [] tokens = text) hwords
  case nil => rfl
  case slot =>
    intro word _ rest ih
    rw [render_cons, ih]
    rfl
  case char =>
    intro first rest _ ih
    rw [render_cons, ih]
    rfl

theorem mem_of_slot_mem_scan (hwords : [] ∉ words) (text : List α) :
    ∀ word, Token.slot word ∈ scan words text → word ∈ words := by
  apply scan_induction (P := fun _ tokens ↦ ∀ word, Token.slot word ∈ tokens → word ∈ words) hwords
  case nil =>
    intro word hmem
    cases hmem
  case slot =>
    intro word hword rest ih other hmem
    rcases mem_cons.1 hmem with heq | hrest
    · cases heq
      exact hword
    · exact ih other hrest
  case char =>
    intro first rest _ ih other hmem
    rcases mem_cons.1 hmem with heq | hrest
    · cases heq
    · exact ih other hrest

/-- A slot whose word was not replaced shows it. -/
theorem infix_render_of_slot (hslot : Token.slot w ∈ tokens) (hpending : filled.lookup w = none) :
    w <:+: render filled tokens := by
  obtain ⟨left, right, rfl⟩ := append_of_mem hslot
  refine ⟨render filled left, render filled right, ?_⟩
  simp [Token.render, hpending]

theorem lookup_fill_self (hpending : filled.lookup word = none) (value : List α) :
    (filled ++ [(word, value)]).lookup word = some value := by
  simp [lookup_append, hpending]

theorem lookup_fill_of_ne (hne : w ≠ word) (value : List α) :
    (filled ++ [(word, value)]).lookup w = filled.lookup w := by
  have hbeq : (w == word) = false := beq_false_of_ne hne
  simp [lookup_append, lookup_cons, hbeq]

theorem lookup_fill_of_filled (hfilled : filled.lookup word ≠ none) (value : List α) :
    (filled ++ [(word, value)]).lookup word = filled.lookup word := by
  obtain ⟨old, hold⟩ := Option.ne_none_iff_exists'.1 hfilled
  simp [lookup_append, hold]

theorem Token.render_fill (htoken : token ≠ .slot word) (value : List α) :
    token.render (filled ++ [(word, value)]) = token.render filled := by
  cases token with
  | char a => rfl
  | slot other =>
    have hne : other ≠ word := fun heq ↦ htoken (heq ▸ rfl)
    rw [Token.render, Token.render, lookup_fill_of_ne hne]

theorem render_fill_of_not_mem (htokens : Token.slot word ∉ tokens) (value : List α) :
    render (filled ++ [(word, value)]) tokens = render filled tokens := by
  induction tokens with
  | nil => rfl
  | cons token rest ih =>
    have hne : token ≠ .slot word := fun heq ↦ htokens (heq ▸ mem_cons_self)
    have hrest : Token.slot word ∉ rest := fun hmem ↦ htokens (mem_cons_of_mem token hmem)
    rw [render_cons, render_cons, Token.render_fill hne, ih hrest]

section
variable (hfilled : filled.lookup word ≠ none) (value : List α)
include hfilled

theorem Token.render_fill_of_filled
    (token : Token α) : token.render (filled ++ [(word, value)]) = token.render filled := by
  by_cases hslot : token = .slot word
  · rw [hslot, Token.render, Token.render, lookup_fill_of_filled hfilled]
  · exact Token.render_fill hslot value

theorem render_fill_of_filled (tokens : List (Token α)) :
    render (filled ++ [(word, value)]) tokens = render filled tokens := by
  have htoken := funext (Token.render_fill_of_filled hfilled value)
  rw [render, render, htoken]

end

instance (words : List (List α)) (text : List α) : Decidable (NoOverlap words text) :=
  inferInstanceAs (Decidable (∀ rest ∈ text.tails, ∀ word ∈ words, word <+: rest →
    ∀ w ∈ words, ∀ i < word.length, 0 < i → ¬ w <+: rest.drop i))

/-- Every occurrence of the word begins in a slot where it still stands. -/
def Clean (filled : List (List α × List α)) (w : List α) : List (Token α) → Prop
  | [] => True
  | token :: rest =>
    (token = .slot w ∧ filled.lookup w = none ∨
      Clear w (token.render filled) (render filled rest)) ∧ Clean filled w rest

/-- The scan finds the words, if they are all of one length. -/
theorem clean_scan {n : ℕ} (hpos : 0 < n) (hlength : ∀ word ∈ words, word.length = n)
    (hw : w ∈ words) (text : List α) (hoverlap : NoOverlap words text) :
    Clean [] w (scan words text) := by
  have hwords : [] ∉ words := nil_not_mem_of_length hpos hlength
  revert hoverlap
  apply scan_induction (P := fun text tokens ↦ NoOverlap words text → Clean [] w tokens) hwords
  case nil =>
    intro _
    trivial
  case slot =>
    intro word hword rest ih hoverlap
    refine ⟨?_, ih hoverlap.drop⟩
    by_cases heq : word = w
    · exact .inl ⟨heq ▸ rfl, rfl⟩
    · right
      have hself : word ++ rest ∈ (word ++ rest).tails := by simp
      intro i hi hbegins
      rw [render_scan hwords] at hbegins
      have hle : i ≤ word.length := Nat.le_of_lt hi
      have hbegins' : w <+: (word ++ rest).drop i := by
        rw [drop_append_of_le_length hle]
        exact hbegins
      rcases Nat.eq_zero_or_pos i with rfl | hipos
      · have hsame : w.length = word.length := by rw [hlength w hw, hlength word hword]
        have hshared : w <+: word :=
          prefix_of_prefix_length_le hbegins' (prefix_append word rest) hsame.le
        exact heq (hshared.eq_of_length hsame).symm
      · exact hoverlap _ hself word hword (prefix_append word rest) w hw i hi hipos hbegins'
  case char =>
    intro first rest hnone ih hoverlap
    have hlater : NoOverlap words rest := @NoOverlap.drop α [first] rest words hoverlap
    refine ⟨.inr ?_, ih hlater⟩
    intro i hi hbegins
    have hzero : i = 0 := Nat.lt_one_iff.1 hi
    rw [render_scan hwords, hzero] at hbegins
    exact hnone w hw hbegins

/-- Replacing a word fills its slots. -/
theorem replaceAll_render (hword : word ≠ []) (hclean : Clean filled word tokens)
    (value : List α) :
    replaceAll word value (render filled tokens) = render (filled ++ [(word, value)]) tokens := by
  induction tokens with
  | nil => rfl
  | cons token rest ih =>
    obtain ⟨hhead, htail⟩ := hclean
    have hrest := ih htail
    by_cases hslot : token = .slot word ∧ filled.lookup word = none
    · obtain ⟨rfl, hpending⟩ := hslot
      simp only [render_cons, Token.render, hpending, lookup_fill_self hpending, Option.getD_none,
        Option.getD_some]
      rw [replaceAll_word hword, hrest]
    · have hclear := hhead.resolve_left hslot
      have hsame : token.render (filled ++ [(word, value)]) = token.render filled := by
        by_cases heq : token = .slot word
        · have hfilled : filled.lookup word ≠ none := fun hnone ↦ hslot ⟨heq, hnone⟩
          exact Token.render_fill_of_filled hfilled value token
        · exact Token.render_fill heq value
      rw [render_cons, render_cons, replaceAll_of_clear hclear, hrest, hsame]

/-- A word that occurs has a slot in which it still stands. -/
theorem Clean.slot_of_occurs (hw : w ≠ []) (hclean : Clean filled w tokens)
    (hoccurs : w <:+: render filled tokens) :
    Token.slot w ∈ tokens ∧ filled.lookup w = none := by
  induction tokens with
  | nil => exact absurd (infix_nil.1 hoccurs) hw
  | cons token rest ih =>
    obtain ⟨hhead, htail⟩ := hclean
    rcases hhead with ⟨rfl, hpending⟩ | hclear
    · exact ⟨mem_cons_self, hpending⟩
    · obtain ⟨hmem, hpending⟩ := ih htail (hclear.infix_right hoccurs)
      exact ⟨mem_cons_of_mem token hmem, hpending⟩

end Exo.Library
