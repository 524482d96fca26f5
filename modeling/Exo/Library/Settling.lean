import Exo.Library.System

/-!
# Systems that settle

Some steps are the system's own, the others wait for its environment. If every own step lowers a
measure, the system left to itself comes to rest, whatever own steps are taken; what it settles on
is what holds in every state of rest that it can reach alone.
-/

namespace Exo.Library.System

variable {State Label : Type*} (system : System State Label) (own : Label → Prop)

/-- Nothing is left to do without the environment. -/
def AtRest (state : State) : Prop := ∀ label, own label → ¬ system.enabled state label

/-- A run of own steps. -/
def RunsAlone (state : State) (labels : List Label) : Prop :=
  system.Admits state labels ∧ ∀ label ∈ labels, own label

/-- The property holds wherever the system left to itself comes to rest. -/
def SettlesOn (property : State → Prop) (state : State) : Prop :=
  ∀ labels, system.RunsAlone own state labels → system.AtRest own (system.exec state labels) →
    property (system.exec state labels)

variable {system own} {work : State → ℕ} {state : State} {labels : List Label}

theorem runsAlone_cons {label : Label} : system.RunsAlone own state (label :: labels) ↔
      (system.enabled state label ∧ own label) ∧
        system.RunsAlone own (system.next state label) labels := by
  rw [RunsAlone, RunsAlone, admits_cons, List.forall_mem_cons]
  exact and_and_and_comm

/-- A run alone is no longer than the work there was. -/
theorem RunsAlone.length_le (hwork : ∀ state label, own label → system.enabled state label →
      work (system.next state label) < work state) (hrun : system.RunsAlone own state labels) :
    labels.length ≤ work state := by
  induction labels generalizing state with
  | nil => exact Nat.zero_le _
  | cons label labels ih =>
    rw [runsAlone_cons] at hrun
    have hless := hwork state label hrun.1.2 hrun.1.1
    have hrest := ih hrun.2
    rw [List.length_cons]
    omega

/-- Left to itself, the system comes to rest. -/
theorem exists_atRest (hwork : ∀ state label, own label → system.enabled state label →
      work (system.next state label) < work state) (state : State) :
    ∃ labels, system.RunsAlone own state labels ∧ system.AtRest own (system.exec state labels) := by
  by_cases hrest : system.AtRest own state
  · exact ⟨[], ⟨trivial, by simp⟩, hrest⟩
  · simp only [AtRest, not_forall, not_not] at hrest
    obtain ⟨label, hown, henabled⟩ := hrest
    have hless := hwork state label hown henabled
    obtain ⟨labels, hrun, hatRest⟩ := exists_atRest hwork (system.next state label)
    exact ⟨label :: labels, runsAlone_cons.2 ⟨⟨henabled, hown⟩, hrun⟩, hatRest⟩
termination_by work state

/-- What a system settles on holds somewhere. -/
theorem SettlesOn.exists {property : State → Prop}
    (hwork : ∀ state label, own label → system.enabled state label →
      work (system.next state label) < work state)
    (hsettles : system.SettlesOn own property state) :
    ∃ labels, system.RunsAlone own state labels ∧ property (system.exec state labels) := by
  obtain ⟨labels, hrun, hrest⟩ := exists_atRest hwork state
  exact ⟨labels, hrun, hsettles labels hrun hrest⟩

end Exo.Library.System
