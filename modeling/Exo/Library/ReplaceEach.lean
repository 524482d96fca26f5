import Exo.Library.Replace

/-!
# Replacing words one after another

A text holds some words, and each is to be replaced by a value of its own.  Doing this one word after
the other is not the same as replacing them all at once: a value may form a further word with what
stands next to it, and so may the two sides of a word that is deleted.  As long as no value is part
of an occurrence of a word where it is put, the slots of the text are filled and nothing else is
touched.
-/

namespace Exo.Library

open List

variable {α : Type*} [DecidableEq α] {words watch : List (List α)} {filled : List (List α × List α)}
  {tokens : List (Token α)} {word value part w : List α}

/-- Wherever the value of a word is put, it is part of no occurrence of the words watched for; the
filling is the one with the value. -/
def Seam (watch : List (List α)) (filled : List (List α × List α)) (word value : List α)
    (tokens : List (Token α)) : Prop :=
  ∀ i < tokens.length, tokens[i]? = some (.slot word) → ∀ w ∈ watch,
    Apart w (render filled (tokens.take i)) value (render filled (tokens.drop (i + 1)))

instance (watch : List (List α)) (filled : List (List α × List α)) (word value : List α)
    (tokens : List (Token α)) : Decidable (Seam watch filled word value tokens) :=
  inferInstanceAs (Decidable (∀ i < tokens.length, tokens[i]? = some (.slot word) → ∀ w ∈ watch,
    Apart w (render filled (tokens.take i)) value (render filled (tokens.drop (i + 1)))))

theorem seam_iff : Seam watch filled word value tokens ↔
    ∀ left right, tokens = left ++ .slot word :: right → ∀ w ∈ watch,
      Apart w (render filled left) value (render filled right) := by
  constructor
  · intro hseam left right heq w hw
    have hapart := hseam left.length (by simp [heq]) (by simp [heq]) w hw
    simpa [heq] using hapart
  · intro hsplit i hi hslot w hw
    apply hsplit _ _ _ w hw
    obtain ⟨hlt, hget⟩ := List.getElem?_eq_some_iff.1 hslot
    rw [← hget, List.cons_getElem_drop_succ, List.take_append_drop]

theorem Seam.inside {mid : List (Token α)} (hseam : Seam watch filled word value tokens)
    (hmid : mid <:+: tokens) : Seam watch filled word value mid := by
  obtain ⟨outer, further, htokens⟩ := hmid
  rw [seam_iff] at hseam ⊢
  intro left right heq w hw
  have hapart := hseam (outer ++ left) (right ++ further) (by simp [← htokens, heq]) w hw
  rw [render_append, render_append] at hapart
  exact hapart.mono

/-- An occurrence that begins in `part` would have to reach the value, or was there before. -/
theorem Clear.fill (hclear : Clear w part (render filled tokens))
    (hpending : filled.lookup word = none)
    (hseam : ∀ left right, tokens = left ++ .slot word :: right →
      Apart w (part ++ render (filled ++ [(word, value)]) left) value
        (render (filled ++ [(word, value)]) right)) :
    Clear w part (render (filled ++ [(word, value)]) tokens) := by
  intro i hi hbegins
  by_cases hslot : Token.slot word ∈ tokens
  · obtain ⟨left, right, heq, hfirst⟩ := eq_append_cons_of_mem hslot
    have hapart := hseam left right heq
    -- Up to the first slot of the word nothing has changed.
    rw [render_fill_of_not_mem hfirst] at hapart
    rw [heq, render_append, render_fill_of_not_mem hfirst, render_cons, Token.render,
      lookup_fill_self hpending, Option.getD_some, ← append_assoc] at hbegins
    have hends : part.drop i ++ render filled left <:+ part ++ render filled left := by
      rw [← drop_append_of_le_length (Nat.le_of_lt hi)]
      exact drop_suffix i _
    have hne : part.drop i ++ render filled left ≠ [] := by
      intro hnil
      have hdrop := (append_eq_nil_iff.1 hnil).1
      rw [drop_eq_nil_iff] at hdrop
      omega
    rcases Nat.lt_or_ge (part.drop i ++ render filled left).length w.length with hshort | hlong
    · rw [← append_assoc] at hbegins
      exact hapart.not_straddles hends hne hshort hbegins
    · apply hclear i hi
      rw [heq, render_append, ← append_assoc]
      have hinside : w <+: part.drop i ++ render filled left :=
        prefix_of_prefix_length_le hbegins (prefix_append _ _) hlong
      exact hinside.trans (prefix_append _ _)
  · rw [render_fill_of_not_mem hslot] at hbegins
    exact hclear i hi hbegins

/-- Filling a word leaves the others where they are. -/
theorem Clean.fill (hclean : Clean filled w tokens) (hw : w ∈ watch)
    (hseam : Seam watch (filled ++ [(word, value)]) word value tokens) :
    Clean (filled ++ [(word, value)]) w tokens := by
  induction tokens with
  | nil => trivial
  | cons token rest ih =>
    obtain ⟨hhead, htail⟩ := hclean
    refine ⟨?_, ih htail (hseam.inside (suffix_cons token rest).isInfix)⟩
    by_cases hpending : filled.lookup word = none
    · by_cases hslot : token = .slot word
      · right
        have hapart := seam_iff.1 hseam [] rest (by rw [hslot]; rfl) w hw
        rw [hslot, Token.render, lookup_fill_self hpending]
        exact hapart.clear
      · rcases hhead with ⟨heq, hstands⟩ | hclear
        · have hne : w ≠ word := fun hsame ↦ hslot (hsame ▸ heq)
          exact .inl ⟨heq, by rw [lookup_fill_of_ne hne, hstands]⟩
        · right
          rw [Token.render_fill hslot]
          apply hclear.fill hpending
          intro left right heq
          have hapart := seam_iff.1 hseam (token :: left) right (by rw [heq]; rfl) w hw
          rwa [render_cons, Token.render_fill hslot] at hapart
    · rw [Token.render_fill_of_filled hpending, render_fill_of_filled hpending]
      rcases hhead with ⟨heq, hstands⟩ | hclear
      · have hne : w ≠ word := fun hsame ↦ hpending (hsame ▸ hstands)
        exact .inl ⟨heq, by rw [lookup_fill_of_ne hne, hstands]⟩
      · exact .inr hclear

/-- Every occurrence of `w` reaches into a slot whose word still stands. -/
def Touched (filled : List (List α × List α)) (w : List α) (tokens : List (Token α)) : Prop :=
  ∀ mid, mid <:+: tokens → (∀ word, Token.slot word ∈ mid → filled.lookup word ≠ none) →
    ¬ w <:+: render filled mid

theorem Touched.fill (htouched : Touched filled w tokens) (hw : w ∈ watch)
    (hpending : filled.lookup word = none)
    (hseam : Seam watch (filled ++ [(word, value)]) word value tokens) :
    Touched (filled ++ [(word, value)]) w tokens := by
  intro mid hmid hfilled hoccurs
  induction hlength : mid.length using Nat.strong_induction_on generalizing mid with
  | _ n ih =>
    by_cases hslot : Token.slot word ∈ mid
    · -- The occurrence is on one side of the slot that was filled.
      obtain ⟨left, right, heq⟩ := append_of_mem hslot
      have hapart := seam_iff.1 (hseam.inside hmid) left right heq w hw
      have hleft : left <:+: mid := ⟨[], .slot word :: right, by rw [heq]; rfl⟩
      have hright : right <:+: mid := ⟨left ++ [.slot word], [], by simp [heq]⟩
      have hshorter : left.length < n ∧ right.length < n := by
        rw [← hlength, heq]
        simp only [length_append, length_cons]
        omega
      rw [heq, render_append, render_cons, Token.render, lookup_fill_self hpending,
        Option.getD_some, ← append_assoc] at hoccurs
      rcases hapart.before_or_after hoccurs with hside | hside
      · exact ih _ hshorter.1 left (hleft.trans hmid)
          (fun other hother ↦ hfilled other (hleft.subset hother)) hside rfl
      · exact ih _ hshorter.2 right (hright.trans hmid)
          (fun other hother ↦ hfilled other (hright.subset hother)) hside rfl
    · rw [render_fill_of_not_mem hslot] at hoccurs
      apply htouched mid hmid _ hoccurs
      intro other hother
      have hne : other ≠ word := fun heq ↦ hslot (heq ▸ hother)
      rw [← lookup_fill_of_ne hne value]
      exact hfilled other hother

/-- What is left of a text without its words shows what there was beside them. -/
theorem touched_of_not_occurs (hnot : ¬ w <:+: render filled tokens) : Touched [] w tokens := by
  intro mid hmid hslots hoccurs
  have hsame : render filled mid = render [] mid := by
    clear hmid hoccurs
    induction mid with
    | nil => rfl
    | cons token rest ih =>
      cases token with
      | char a =>
        rw [render_cons, render_cons, ih]
        · rfl
        · exact fun word hmem ↦ hslots word (mem_cons_of_mem _ hmem)
      | slot word => exact absurd rfl (hslots word mem_cons_self)
  obtain ⟨left, right, rfl⟩ := hmid
  apply hnot
  rw [render_append, render_append, hsame]
  exact hoccurs.trans ⟨render filled left, render filled right, rfl⟩

/-- Every value fits where it is put, at the time it is put there. -/
def Seamless (watch : List (List α)) (tokens : List (Token α)) :
    List (List α × List α) → List (List α × List α) → Prop
  | _, [] => True
  | filled, (word, value) :: later =>
    Seam watch (filled ++ [(word, value)]) word value tokens ∧
      Seamless watch tokens (filled ++ [(word, value)]) later

instance decidableSeamless (watch : List (List α)) (tokens : List (Token α)) :
    ∀ filled values, Decidable (Seamless watch tokens filled values)
  | _, [] => inferInstanceAs (Decidable True)
  | filled, (word, value) :: later =>
    haveI := decidableSeamless watch tokens (filled ++ [(word, value)]) later
    inferInstanceAs (Decidable (_ ∧ _))

/-- Replaces each word by its value, whether it occurs or not. -/
def replaceEach (values : List (List α × List α)) (text : List α) : List α :=
  values.foldl (fun text entry ↦ replaceAll entry.1 entry.2 text) text

/-- The words are looked for in turn, and one that occurs is replaced by a value it is given then. -/
inductive Replaces : List (List α) → List α → List (List α × List α) → List α → Prop
  | done {text : List α} : Replaces [] text [] text
  | absent {word text result : List α} {words : List (List α)} {values : List (List α × List α)}
      (habsent : ¬ word <:+: text) (hlater : Replaces words text values result) :
      Replaces (word :: words) text values result
  | found {word value text result : List α} {words : List (List α)}
      {values : List (List α × List α)} (hfound : word <:+: text)
      (hlater : Replaces words (replaceAll word value text) values result) :
      Replaces (word :: words) text ((word, value) :: values) result

variable {values : List (List α × List α)} {todo : List (List α)} {marker text result : List α}

theorem replaceEach_render (hwords : [] ∉ words) (hvalues : ∀ entry ∈ values, entry.1 ∈ words)
    (hclean : ∀ w ∈ words, Clean filled w tokens) (hseamless : Seamless words tokens filled values) :
    replaceEach values (render filled tokens) = render (filled ++ values) tokens := by
  induction values generalizing filled with
  | nil => rw [append_nil]; rfl
  | cons entry values ih =>
    obtain ⟨word, value⟩ := entry
    obtain ⟨hseam, hlater⟩ := hseamless
    have hmem : word ∈ words := hvalues _ mem_cons_self
    have hword : word ≠ [] := fun hnil ↦ hwords (hnil ▸ hmem)
    have hrest := ih (fun entry hentry ↦ hvalues entry (mem_cons_of_mem _ hentry))
      (fun w hw ↦ (hclean w hw).fill hw hseam) hlater
    rw [append_assoc] at hrest
    rw [replaceEach, foldl_cons, replaceAll_render hword (hclean word hmem), ← replaceEach]
    exact hrest

/-- A text that shows no marker when its words are deleted has markers at its words only, unless a
deletion has put a word together. -/
theorem touched_of_deleted {n : ℕ} (hpos : 0 < n) (hlength : ∀ word ∈ words, word.length = n)
    (hoverlap : NoOverlap words text)
    (hseamless : Seamless words (scan words text) [] (words.map (·, [])))
    (hdeleted : ¬ marker <:+: replaceEach (words.map (·, [])) text) :
    Touched [] marker (scan words text) := by
  have hwords : [] ∉ words := nil_not_mem_of_length hpos hlength
  have hvalues : ∀ entry ∈ words.map (·, ([] : List α)), entry.1 ∈ words := by
    intro entry hentry
    obtain ⟨word, hword, rfl⟩ := mem_map.1 hentry
    exact hword
  have hclean (w : List α) (hw : w ∈ words) : Clean [] w (scan words text) :=
    clean_scan hpos hlength hw text hoverlap
  have hrender := replaceEach_render hwords hvalues hclean hseamless
  rw [render_scan hwords] at hrender
  rw [hrender] at hdeleted
  exact touched_of_not_occurs hdeleted

/-- The words that are still to come find the text as the tokens show it. -/
theorem Replaces.fills (hrun : Replaces todo text values result) (hwords : [] ∉ words)
    (htodo : ∀ w ∈ todo, w ∈ words) (htext : text = render filled tokens)
    (hclean : ∀ w ∈ words, Clean filled w tokens) (htouched : Touched filled marker tokens)
    (hseamless : Seamless (marker :: words) tokens filled values) :
    result = render (filled ++ values) tokens ∧ Touched (filled ++ values) marker tokens ∧
      (∀ entry ∈ values, Token.slot entry.1 ∈ tokens) ∧
      ∀ w ∈ todo, Token.slot w ∈ tokens → (filled ++ values).lookup w ≠ none := by
  induction hrun generalizing filled with
  | done => simpa [htext] using htouched
  | @absent word text result todo values habsent _ ih =>
    have hlater : ∀ w ∈ todo, w ∈ words := fun w hw ↦ htodo w (mem_cons_of_mem _ hw)
    obtain ⟨hresult, hend, hslots, hfilled⟩ := ih hlater htext hclean htouched hseamless
    refine ⟨hresult, hend, hslots, forall_mem_cons.2 ⟨?_, hfilled⟩⟩
    intro hslot hnone
    rw [lookup_append, Option.or_eq_none_iff] at hnone
    rw [htext] at habsent
    exact habsent (infix_render_of_slot hslot hnone.1)
  | @found word value text result todo values hfound _ ih =>
    have hlater : ∀ w ∈ todo, w ∈ words := fun w hw ↦ htodo w (mem_cons_of_mem _ hw)
    have hmem : word ∈ words := htodo word mem_cons_self
    have hword : word ≠ [] := fun hnil ↦ hwords (hnil ▸ hmem)
    obtain ⟨hseam, hrest⟩ := hseamless
    rw [htext] at hfound
    obtain ⟨hslot, hpending⟩ := (hclean word hmem).slot_of_occurs hword hfound
    have hnext : replaceAll word value text = render (filled ++ [(word, value)]) tokens := by
      rw [htext, replaceAll_render hword (hclean word hmem)]
    have hcleaner (w : List α) (hw : w ∈ words) : Clean (filled ++ [(word, value)]) w tokens :=
      (hclean w hw).fill (mem_cons_of_mem marker hw) hseam
    have htouching := htouched.fill mem_cons_self hpending hseam
    obtain ⟨hresult, hend, hslots, hfilled⟩ := ih hlater hnext hcleaner htouching hrest
    rw [append_assoc, singleton_append] at hresult hend hfilled
    refine ⟨hresult, hend, forall_mem_cons.2 ⟨hslot, hslots⟩, forall_mem_cons.2 ⟨?_, hfilled⟩⟩
    intro _
    simp [lookup_append, hpending]

/-- If no value is part of a word or of a marker where it is put, then the words that are replaced
are those of the text, they are replaced as if all at once, and no marker is left. -/
theorem Replaces.simultaneous {n : ℕ} (hrun : Replaces words text values result) (hpos : 0 < n)
    (hlength : ∀ word ∈ words, word.length = n) (hoverlap : NoOverlap words text)
    (htouched : Touched [] marker (scan words text))
    (hseamless : Seamless (marker :: words) (scan words text) [] values) :
    result = render values (scan words text) ∧ (∀ entry ∈ values, entry.1 <:+: text) ∧
      ¬ marker <:+: result := by
  have hwords : [] ∉ words := nil_not_mem_of_length hpos hlength
  have hclean (w : List α) (hw : w ∈ words) : Clean [] w (scan words text) :=
    clean_scan hpos hlength hw text hoverlap
  obtain ⟨hresult, hend, hslots, hfilled⟩ := hrun.fills hwords (fun w hw ↦ hw)
    (render_scan hwords text).symm hclean htouched hseamless
  rw [nil_append] at hresult hend hfilled
  refine ⟨hresult, ?_, ?_⟩
  · intro entry hentry
    rw [← render_scan hwords text]
    exact infix_render_of_slot (hslots entry hentry) rfl
  · rw [hresult]
    apply hend _ infix_rfl
    intro word hslot
    exact hfilled word (mem_of_slot_mem_scan hwords text word hslot) hslot

end Exo.Library
