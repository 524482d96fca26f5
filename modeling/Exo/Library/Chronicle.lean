import Mathlib.Data.List.Induction

/-!
# Chronicles

A log that only grows at its end, in which every entry has to be right given the entries before it.
Such a property is kept step by step: it is enough to look at the entry that is added.
-/

namespace Exo.Library

variable {Entry : Type*}

/-- Every entry stands in the relation to what came before it. -/
def EachAfter (P : List Entry → Entry → Prop) (log : List Entry) : Prop :=
  ∀ before entry after, log = before ++ entry :: after → P before entry

variable {P : List Entry → Entry → Prop} {log : List Entry} {entry : Entry}

theorem eachAfter_nil : EachAfter P [] := by
  intro before entry after heq
  simp at heq

theorem EachAfter.snoc (hlog : EachAfter P log) (hentry : P log entry) :
    EachAfter P (log ++ [entry]) := by
  intro before other after heq
  induction after using List.reverseRecOn with
  | nil =>
    obtain ⟨rfl, hlast⟩ := List.append_inj' heq rfl
    cases hlast
    exact hentry
  | append_singleton after last _ =>
    rw [← List.cons_append, ← List.append_assoc] at heq
    obtain ⟨hbefore, -⟩ := List.append_inj' heq rfl
    exact hlog before other after hbefore

end Exo.Library
