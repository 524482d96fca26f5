import Mathlib.Data.List.Induction

/-!
# Folding a partial step over a log

A protocol on a log is a step that is defined where the protocol allows the next event.  What holds
of every prefix that the protocol accepts is proved from one event to the next; another fold over
the same log is compared with the protocol in the same way.
-/

namespace Exo.Library

open List

variable {State Event : Type*} {step : State → Event → Option State} {start final : State}
  {events : List Event}

/-- Induction over an accepted log, from its prefixes to the next event. -/
theorem foldlM_rule (Inv : List Event → State → Prop) (hnil : Inv [] start)
    (hsnoc : ∀ events event state next, Inv events state → step state event = some next →
      Inv (events ++ [event]) next) (hfold : events.foldlM step start = some final) :
    Inv events final := by
  induction events using reverseRecOn generalizing final with
  | nil =>
    cases hfold
    exact hnil
  | append_singleton events event ih =>
    rw [foldlM_append] at hfold
    obtain ⟨state, hstate, hlast⟩ := Option.bind_eq_some_iff.mp hfold
    apply hsnoc events event state final (ih hstate)
    simpa using hlast

/-- A total fold that is related to the protocol step by step. -/
theorem foldl_simulates {Other : Type*} (other : Other → Event → Other) {init : Other}
    (Related : State → Other → Prop) (hinit : Related start init)
    (hstep : ∀ state next value event, Related state value → step state event = some next →
      Related next (other value event)) (hfold : events.foldlM step start = some final) :
    Related final (events.foldl other init) := by
  refine foldlM_rule (fun events state ↦ Related state (events.foldl other init)) hinit ?_ hfold
  intro events event state next hrelated hnext
  rw [foldl_append]
  exact hstep state next _ event hrelated hnext

/-- A fallible fold that is related to the protocol step by step does not fail. -/
theorem foldlM_simulates {Other Error : Type*} (other : Other → Event → Except Error Other)
    {init : Other} (Related : State → Other → Prop) (hinit : Related start init)
    (hstep : ∀ state next value event, Related state value → step state event = some next →
      ∃ result, other value event = .ok result ∧ Related next result)
    (hfold : events.foldlM step start = some final) :
    ∃ result, events.foldlM other init = .ok result ∧ Related final result := by
  refine foldlM_rule (fun events state ↦
    ∃ result, events.foldlM other init = .ok result ∧ Related state result) ⟨init, rfl, hinit⟩ ?_
    hfold
  intro events event state next hrelated hnext
  obtain ⟨value, hvalue, hrelated⟩ := hrelated
  obtain ⟨result, hresult, hrelated'⟩ := hstep state next value event hrelated hnext
  refine ⟨result, ?_, hrelated'⟩
  rw [foldlM_append, hvalue]
  change foldlM other value [event] = Except.ok result
  simpa using hresult

/-- Events that a fold skips may be filtered out before. -/
theorem foldlM_filter_of_skip {Other : Type*} {m : Type _ → Type _} [Monad m] [LawfulMonad m]
    {other : Other → Event → m Other} (keep : Event → Bool)
    (hskip : ∀ value event, keep event = false → other value event = pure value) (init : Other)
    (events : List Event) : (events.filter keep).foldlM other init = events.foldlM other init := by
  rw [foldlM_filter]
  congr 1
  funext value event
  cases hkeep : keep event with
  | true => simp
  | false => simp [hskip value event hkeep]

theorem foldl_filter_of_skip {Other : Type*} {other : Other → Event → Other} (keep : Event → Bool)
    (hskip : ∀ value event, keep event = false → other value event = value) (init : Other)
    (events : List Event) : (events.filter keep).foldl other init = events.foldl other init := by
  rw [foldl_filter]
  congr 1
  funext value event
  cases hkeep : keep event with
  | true => simp
  | false => simp [hskip value event hkeep]

end Exo.Library
