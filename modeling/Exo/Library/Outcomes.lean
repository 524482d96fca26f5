import Exo.Library.InPlace

/-!
# Outcomes of operations in place

What holds after an operation in place, for both of its outcomes: one condition on the result and
the state if it succeeds, and one on the state if it fails.  The rules follow the operations: a
failure ends a sequence, and may be answered by a cleanup whose own failure is only logged.
-/

namespace Exo.Library

namespace InPlace

variable {σ α β : Type}

def when (condition : Bool) (operation : InPlace σ Unit) : InPlace σ Unit :=
  if condition = true then operation else pure ()

/-- After a failure the cleanup runs, and the failure is passed on whatever came of it. -/
def onFailure (operation : InPlace σ α) (cleanup : InPlace σ Unit) : InPlace σ α := fun state ↦
  match operation.runOn state with
  | (.ok value, state') => (.ok value, state')
  | (.error message, state') => (.error message, (cleanup.runOn state').2)

/-- From every state with `P` the operation succeeds with `Q`, or fails with `E`. -/
def Meets (P : σ → Prop) (operation : InPlace σ α) (Q : α → σ → Prop) (E : σ → Prop) : Prop :=
  ∀ state, P state →
    match operation.runOn state with
    | (.ok value, state') => Q value state'
    | (.error _, state') => E state'

variable {P P' : σ → Prop} {Q Q' : α → σ → Prop} {R : β → σ → Prop} {E E' : σ → Prop}
  {operation : InPlace σ α} {next : α → InPlace σ β} {cleanup : InPlace σ Unit}

theorem runOn_onFailure (state : σ) : (operation.onFailure cleanup).runOn state =
      match operation.runOn state with
      | (.ok value, state') => (.ok value, state')
      | (.error message, state') => (.error message, (cleanup.runOn state').2) := rfl

/-- Where both outcomes leave the same, the result does not matter. -/
theorem Meets.state {state : σ} (hoperation : operation.Meets P (fun _ ↦ E) E) (hstate : P state) :
    E (operation.runOn state).2 := by
  have houtcome := hoperation state hstate
  cases hrun : operation.runOn state with
  | mk result state' =>
    rw [hrun] at houtcome
    cases result with
    | ok value => exact houtcome
    | error message => exact houtcome

theorem Meets.succeeds {state : σ} (hoperation : operation.Meets P Q fun _ ↦ False)
    (hstate : P state) : ∃ value, (operation.runOn state).1 = .ok value := by
  have houtcome := hoperation state hstate
  cases hrun : operation.runOn state with
  | mk result state' =>
    rw [hrun] at houtcome
    cases result with
    | ok value => exact ⟨value, rfl⟩
    | error message => exact houtcome.elim

section
variable (hoperation : operation.Meets P Q E)
include hoperation

theorem Meets.weaken (hP : ∀ state, P' state → P state)
    (hQ : ∀ value state, Q value state → Q' value state) (hE : ∀ state, E state → E' state) :
    operation.Meets P' Q' E' := by
  intro state hstate
  have houtcome := hoperation state (hP state hstate)
  cases hrun : operation.runOn state with
  | mk result state' =>
    rw [hrun] at houtcome
    cases result with
    | ok value => exact hQ value state' houtcome
    | error message => exact hE state' houtcome

theorem Meets.start (hP : ∀ state, P' state → P state) : operation.Meets P' Q E :=
  hoperation.weaken hP (fun _ _ ↦ id) fun _ ↦ id

theorem Meets.result
    (hQ : ∀ value state, Q value state → Q' value state) : operation.Meets P Q' E :=
  hoperation.weaken (fun _ ↦ id) hQ fun _ ↦ id

theorem Meets.failure (hE : ∀ state, E state → E' state) : operation.Meets P Q E' :=
  hoperation.weaken (fun _ ↦ id) (fun _ _ ↦ id) hE

end

/-- What holds in every state holds after every operation. -/
theorem meets_of_forall (hQ : ∀ value state, Q value state) (hE : ∀ state, E state) :
    operation.Meets P Q E := by
  intro state _
  cases operation.runOn state with
  | mk result state' =>
    cases result with
    | ok value => exact hQ value state'
    | error message => exact hE state'

theorem Meets.and (hfirst : operation.Meets P Q E) (hsecond : operation.Meets P' Q' E') :
    operation.Meets (fun state ↦ P state ∧ P' state)
      (fun value state ↦ Q value state ∧ Q' value state) fun state ↦ E state ∧ E' state := by
  intro state hstate
  have houtcome := hfirst state hstate.1
  have houtcome' := hsecond state hstate.2
  cases hrun : operation.runOn state with
  | mk result state' =>
    rw [hrun] at houtcome houtcome'
    cases result with
    | ok value => exact ⟨houtcome, houtcome'⟩
    | error message => exact ⟨houtcome, houtcome'⟩

/-- What an operation ends with is what it returns from the state it starts in. -/
theorem meets_run (operation : InPlace σ α) (state : σ) :
    operation.Meets (· = state) (fun value state' ↦ operation.runOn state = (.ok value, state'))
      fun _ ↦ True := by
  intro state' hstate
  rw [hstate]
  cases operation.runOn state with
  | mk result state' =>
    cases result with
    | ok value => rfl
    | error message => trivial

theorem Meets.bind (hfirst : operation.Meets P Q E)
    (hnext : ∀ value, (next value).Meets (Q value) R E) :
    (operation >>= next).Meets P R E := by
  intro state hstate
  have houtcome := hfirst state hstate
  rw [runOn_bind]
  cases hrun : operation.runOn state with
  | mk result state' =>
    rw [hrun] at houtcome
    cases result with
    | ok value => exact hnext value state' houtcome
    | error message => exact houtcome

/-- The cleanup starts where the operation has failed, and both of its outcomes count. -/
theorem Meets.onFailure (hoperation : operation.Meets P Q E)
    (hcleanup : cleanup.Meets E (fun _ ↦ E') E') : (operation.onFailure cleanup).Meets P Q E' := by
  intro state hstate
  have houtcome := hoperation state hstate
  rw [runOn_onFailure]
  cases hrun : operation.runOn state with
  | mk result state' =>
    rw [hrun] at houtcome
    cases result with
    | ok value => exact houtcome
    | error message =>
      have hcleaned := hcleanup state' houtcome
      show E' (cleanup.runOn state').2
      cases hrun' : cleanup.runOn state' with
      | mk outcome state'' =>
        rw [hrun'] at hcleaned
        cases outcome with
        | ok value => exact hcleaned
        | error message => exact hcleaned

theorem meets_pure {value : α} (hpure : ∀ state, P state → Q value state) :
    (pure value : InPlace σ α).Meets P Q E := hpure

theorem meets_update {change : σ → σ} {Q : Unit → σ → Prop}
    (hupdate : ∀ state, P state → Q () (change state)) : (update change).Meets P Q E := hupdate

theorem meets_look {view : σ → Except String α}
    (hok : ∀ state value, P state → view state = .ok value → Q value state)
    (herror : ∀ state message, P state → view state = .error message → E state) :
    (look view).Meets P Q E := by
  intro state hstate
  rw [runOn_look]
  cases hview : view state with
  | ok value => exact hok state value hstate hview
  | error message => exact herror state message hstate hview

theorem meets_check {value : Except String α}
    (hok : ∀ state result, P state → value = .ok result → Q result state)
    (herror : ∀ state message, P state → value = .error message → E state) :
    (check value : InPlace σ α).Meets P Q E :=
  meets_look hok herror

theorem Meets.keeping (hoperation : operation.Meets P (fun _ ↦ P) E)
    (hnext : ∀ value, (next value).Meets P R E) : (operation >>= next).Meets P R E :=
  hoperation.bind hnext

theorem Meets.looking {view : σ → Except String α}
    (herror : ∀ state message, P state → view state = .error message → E state)
    (hnext : ∀ value, (next value).Meets P R E) : (look view >>= next).Meets P R E :=
  Meets.keeping (meets_look (fun _ _ hstate _ ↦ hstate) herror) hnext

/-- A step that may fail without a change, and the operation after it. -/
theorem Meets.ensure {guard : Bool} {message : String}
    (hoperation : guard = true → operation.Meets P Q E)
    (hfails : ∀ state, P state → guard = false → E state) :
    (do check (ensure guard message); operation).Meets P Q E := by
  cases guard with
  | false =>
    refine Meets.bind (Q := fun _ _ ↦ False) ?_ fun _ _ hnever ↦ hnever.elim
    exact meets_check nofun fun state _ hstate _ ↦
      hfails state hstate rfl
  | true =>
    exact Meets.looking nofun fun _ ↦ hoperation rfl

theorem meets_ite {condition : Prop} [Decidable condition] {first second : InPlace σ α}
    (hfirst : condition → first.Meets P Q E) (hsecond : ¬condition → second.Meets P Q E) :
    (if condition then first else second).Meets P Q E := by
  split
  · exact hfirst ‹_›
  · exact hsecond ‹_›

/-- An operation that keeps what holds before it may be left out. -/
theorem Meets.when {condition : Bool} {operation : InPlace σ Unit}
    (hoperation : condition = true → operation.Meets P (fun _ ↦ P') E)
    (hskip : ∀ state, condition = false → P state → P' state) :
    (InPlace.when condition operation).Meets P (fun _ ↦ P') E := by
  refine meets_ite hoperation fun hcondition ↦ ?_
  exact meets_pure fun state hstate ↦ hskip state (by simpa using hcondition) hstate

end InPlace

end Exo.Library
