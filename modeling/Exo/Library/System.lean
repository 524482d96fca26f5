import Mathlib.Data.List.Induction

/-!
# Guarded transition systems and their runs

A system is a state space with a guarded, deterministic step for every label; all nondeterminism
of the program (scheduling, faults, the environment) sits in the choice of the label.  A run is a
list of labels each of which is enabled where it is taken.  The rules below are the ones the
invariant proofs use: splitting a run, carrying an invariant along it, carrying an invariant that
speaks about the labels already taken, and restricting a system to the steps that meet a condition.
-/

namespace Exo.Library

/-- A labelled transition system with a guard and a function for each label. -/
structure System (State Label : Type*) where
  enabled : State → Label → Prop
  next : State → Label → State

namespace System

variable {State Label : Type*} (system : System State Label)

/-- The state after taking the labels in order. -/
def exec : State → List Label → State
  | state, [] => state
  | state, label :: labels => exec (system.next state label) labels

/-- Every label is enabled in the state in which it is taken. -/
def Admits : State → List Label → Prop
  | _, [] => True
  | state, label :: labels => system.enabled state label ∧ Admits (system.next state label) labels

instance decidableAdmits [∀ state label, Decidable (system.enabled state label)] :
    ∀ (state : State) (labels : List Label), Decidable (system.Admits state labels)
  | _, [] => isTrue trivial
  | state, label :: labels =>
    @instDecidableAnd _ _ _ (decidableAdmits (system.next state label) labels)

/-- What the steps of a run show, gathered in order. -/
def collect {α : Type*} (observe : State → Label → List α) : State → List Label → List α
  | _, [] => []
  | state, label :: labels =>
    observe state label ++ collect observe (system.next state label) labels

/-- The same system, in which only the steps meeting `condition` may be taken. -/
def restrict (condition : State → Label → Prop) : System State Label where
  enabled state label := system.enabled state label ∧ condition state label
  next := system.next

/-- At every step of the run the property holds of the state and the label taken there. -/
def Throughout (P : State → Label → Prop) : State → List Label → Prop
  | _, [] => True
  | state, label :: labels => P state label ∧ Throughout P (system.next state label) labels

instance decidableThroughout (P : State → Label → Prop) [∀ state label, Decidable (P state label)] :
    ∀ (state : State) (labels : List Label), Decidable (system.Throughout P state labels)
  | _, [] => isTrue trivial
  | state, label :: labels =>
    @instDecidableAnd _ _ _ (decidableThroughout P (system.next state label) labels)

instance (condition : State → Label → Prop) (state : State) (label : Label)
    [Decidable (system.enabled state label)] [Decidable (condition state label)] :
    Decidable ((system.restrict condition).enabled state label) :=
  inferInstanceAs (Decidable (_ ∧ _))

section
variable (state : State)

@[simp]
theorem exec_nil : system.exec state [] = state := rfl

section
variable (label : Label) (labels : List Label)

@[simp]
theorem exec_cons :
    system.exec state (label :: labels) = system.exec (system.next state label) labels := rfl

@[simp]
theorem admits_nil : system.Admits state [] := trivial

@[simp]
theorem admits_cons : system.Admits state (label :: labels) ↔
      system.enabled state label ∧ system.Admits (system.next state label) labels := Iff.rfl

end

theorem exec_append (first second : List Label) :
    system.exec state (first ++ second) = system.exec (system.exec state first) second := by
  induction first generalizing state with
  | nil => rfl
  | cons label labels ih => exact ih (system.next state label)

theorem admits_append (first second : List Label) : system.Admits state (first ++ second) ↔
      system.Admits state first ∧ system.Admits (system.exec state first) second := by
  induction first generalizing state with
  | nil => simp
  | cons label labels ih => simp [ih, and_assoc]

end

theorem throughout_append (P : State → Label → Prop) (state : State) (first second : List Label) :
    system.Throughout P state (first ++ second) ↔
      system.Throughout P state first ∧ system.Throughout P (system.exec state first) second := by
  induction first generalizing state with
  | nil => exact (iff_of_eq (true_and _)).symm
  | cons label labels ih =>
    calc system.Throughout P state (label :: labels ++ second)
        ↔ P state label ∧ system.Throughout P (system.next state label) labels ∧
            system.Throughout P (system.exec state (label :: labels)) second :=
          and_congr_right fun _ ↦ ih (system.next state label)
      _ ↔ system.Throughout P state (label :: labels) ∧
            system.Throughout P (system.exec state (label :: labels)) second := and_assoc.symm

@[simp]
theorem collect_nil {α : Type*} (observe : State → Label → List α) (state : State) :
    system.collect observe state [] = [] := rfl

theorem collect_append {α : Type*} (observe : State → Label → List α) (state : State)
    (first second : List Label) :
    system.collect observe state (first ++ second) =
      system.collect observe state first ++
        system.collect observe (system.exec state first) second := by
  induction first generalizing state with
  | nil => rfl
  | cons label labels ih => simp [collect, ih]

theorem collect_snoc {α : Type*} (observe : State → Label → List α) (state : State)
    (labels : List Label) (label : Label) :
    system.collect observe state (labels ++ [label]) =
      system.collect observe state labels ++ observe (system.exec state labels) label := by
  rw [collect_append]
  simp [collect]

variable {system} {state : State} {labels : List Label}

/-- An invariant of every enabled step holds at the end of every run that starts with it. -/
theorem invariant (Inv : State → Prop)
    (hstep : ∀ state label, Inv state → system.enabled state label → Inv (system.next state label))
    (hinit : Inv state) :
    ∀ {labels : List Label}, system.Admits state labels → Inv (system.exec state labels) := by
  intro labels hrun
  induction labels generalizing state with
  | nil => exact hinit
  | cons label labels ih => exact ih (hstep state label hinit hrun.1) hrun.2

/-- The invariant rule for properties that also speak about the labels taken so far. -/
theorem traceInvariant (Inv : List Label → State → Prop) (start : State)
    (hinit : Inv [] start)
    (hstep : ∀ labels label, system.Admits start labels →
      Inv labels (system.exec start labels) →
      system.enabled (system.exec start labels) label →
      Inv (labels ++ [label]) (system.next (system.exec start labels) label)) :
    ∀ {labels : List Label}, system.Admits start labels →
      Inv labels (system.exec start labels) := by
  intro labels
  induction labels using List.reverseRecOn with
  | nil => exact fun _ ↦ hinit
  | append_singleton labels label ih =>
    intro hrun
    rw [admits_append] at hrun
    rw [exec_append]
    exact hstep labels label hrun.1 (ih hrun.1) hrun.2.1

section
variable (condition : State → Label → Prop)

section
variable (state : State) (labels : List Label)

@[simp]
theorem exec_restrict :
    (system.restrict condition).exec state labels = system.exec state labels := by
  induction labels generalizing state with
  | nil => rfl
  | cons label labels ih => exact ih (system.next state label)

theorem throughout_restrict (condition P : State → Label → Prop) (state : State)
    (labels : List Label) :
    (system.restrict condition).Throughout P state labels ↔ system.Throughout P state labels := by
  induction labels generalizing state with
  | nil => exact Iff.rfl
  | cons label labels ih => exact and_congr_right fun _ ↦ ih (system.next state label)

theorem admits_restrict_iff : (system.restrict condition).Admits state labels ↔
      system.Admits state labels ∧ system.Throughout condition state labels := by
  induction labels generalizing state with
  | nil => simp [Throughout]
  | cons label labels ih =>
    have hrest := ih (system.next state label)
    constructor
    · intro hrun
      have hnext := hrest.1 hrun.2
      exact ⟨⟨hrun.1.1, hnext.1⟩, hrun.1.2, hnext.2⟩
    · intro hrun
      exact ⟨⟨hrun.1.1, hrun.2.1⟩, hrest.2 ⟨hrun.1.2, hrun.2.2⟩⟩

end

end

/-- The invariant rule for the runs whose steps all meet a condition. -/
theorem invariant_of_restrict {condition : State → Label → Prop} (Inv : State → Prop)
    (hstep : ∀ state label, Inv state → system.enabled state label → condition state label →
      Inv (system.next state label)) (hinit : Inv state)
    (hrun : (system.restrict condition).Admits state labels) : Inv (system.exec state labels) := by
  rw [← exec_restrict condition]
  refine invariant Inv ?_ hinit hrun
  intro state label hstate hlabel
  exact hstep state label hstate hlabel.1 hlabel.2

/-- A property of the steps that an invariant gives holds along every run. -/
theorem throughout_of_invariant {P : State → Label → Prop} (Inv : State → Prop)
    (hstep : ∀ state label, Inv state → system.enabled state label → Inv (system.next state label))
    (hproperty : ∀ state label, Inv state → system.enabled state label → P state label)
    (hinit : Inv state) (hrun : system.Admits state labels) : system.Throughout P state labels := by
  induction labels generalizing state with
  | nil => trivial
  | cons label labels ih =>
    exact ⟨hproperty state label hinit hrun.1, ih (hstep state label hinit hrun.1) hrun.2⟩

/-- Two properties of steps hold along the same runs, if they agree wherever an invariant holds and
either of them keeps it. -/
theorem throughout_congr {P Q : State → Label → Prop} (Inv : State → Prop)
    (hiff : ∀ state label, Inv state → system.enabled state label → (P state label ↔ Q state label))
    (hstep : ∀ state label, Inv state → system.enabled state label → Q state label →
      Inv (system.next state label)) (hinit : Inv state) (hrun : system.Admits state labels) :
    system.Throughout P state labels ↔ system.Throughout Q state labels := by
  induction labels generalizing state with
  | nil => exact Iff.rfl
  | cons label labels ih =>
    have hlabel := hiff state label hinit hrun.1
    constructor
    · rintro ⟨hfirst, hrest⟩
      have hnext := hstep state label hinit hrun.1 (hlabel.1 hfirst)
      exact ⟨hlabel.1 hfirst, (ih hnext hrun.2).1 hrest⟩
    · rintro ⟨hfirst, hrest⟩
      have hnext := hstep state label hinit hrun.1 hfirst
      exact ⟨hlabel.2 hfirst, (ih hnext hrun.2).2 hrest⟩

end System

end Exo.Library
