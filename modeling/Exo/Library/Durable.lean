import Mathlib.Logic.Relation
import Exo.Library.InPlace

/-!
# Programs with durable writes

A program reads a store and writes to it; each write is durable by itself, and the program may be
stopped after any of them.  A step function on meanings of stores says which write comes next, from
the store alone.  A program whose writes follow the step function, and which ends where there is no
next step, can be stopped and started again any number of times: it ends with the same meaning.
-/

namespace Exo.Library

open List

/-- What a run does: the stores after its writes, and its result. -/
structure Trace (σ α : Type) where
  stores : List σ
  result : Except String α

def Durable (σ α : Type) := σ → Trace σ α

namespace Durable

variable {σ α β : Type}

/-- The store that a run leaves. -/
def final (program : Durable σ α) (store : σ) : σ := (program store).stores.getLastD store

def read (view : σ → Except String α) : Durable σ α := fun store ↦ ⟨[], view store⟩

def write (change : σ → σ) : Durable σ Unit := fun store ↦ ⟨[change store], .ok ()⟩

def bind (first : Durable σ α) (next : α → Durable σ β) : Durable σ β := fun store ↦
  match (first store).result with
  | .error message => ⟨(first store).stores, .error message⟩
  | .ok value =>
    let rest := next value (first.final store)
    ⟨(first store).stores ++ rest.stores, rest.result⟩

instance : Monad (Durable σ) where
  pure value := fun _ ↦ ⟨[], .ok value⟩
  bind := bind

/-- An operation on a part of the store, which is written back if the operation succeeds. -/
def access {ρ : Type} (part : σ → ρ) (putBack : ρ → σ → σ) (operation : InPlace ρ α) :
    Durable σ α := fun store ↦
  match operation.runOn (part store) with
  | (.ok value, changed) => ⟨[putBack changed store], .ok value⟩
  | (.error message, _) => ⟨[], .error message⟩

variable {store : σ} {value : α} {first : Durable σ α} {next : α → Durable σ β}

theorem access_of_ok {ρ : Type} {part : σ → ρ} {putBack : ρ → σ → σ} {operation : InPlace ρ α}
    {changed : ρ} (hrun : operation.runOn (part store) = (.ok value, changed)) :
    access part putBack operation store = ⟨[putBack changed store], .ok value⟩ := by
  rw [access, hrun]

variable {message : String}

theorem access_of_error {ρ : Type} {part : σ → ρ} {putBack : ρ → σ → σ} {operation : InPlace ρ α}
    {changed : ρ} (hrun : operation.runOn (part store) = (.error message, changed)) :
    access part putBack operation store = ⟨[], .error message⟩ := by
  rw [access, hrun]

section
variable (program : Durable σ α)

/-- The program may be stopped here: before its first write, or after any of its writes. -/
def Leaves (store store' : σ) : Prop :=
  store' ∈ store :: (program store).stores

theorem leaves_final (store : σ) : program.Leaves store (program.final store) := getLastD_mem_cons

/-- The run that a failing write ends; the writes before it stay. -/
def Breaks (store store' : σ) : Prop :=
  ∃ before after, (program store).stores = before ++ after ∧ after ≠ [] ∧
    before.getLastD store = store'

end

theorem Breaks.leaves {program : Durable σ α} {store' : σ} (hbreaks : program.Breaks store store') :
    program.Leaves store store' := by
  obtain ⟨before, after, hstores, -, rfl⟩ := hbreaks
  rcases mem_cons.1 (getLastD_mem_cons (l := before) (a := store)) with heq | hmem
  · rw [heq]
    exact mem_cons_self
  · rw [Leaves, hstores]
    exact mem_cons_of_mem _ (mem_append_left _ hmem)

theorem bind_of_error (herror : (first store).result = .error message) :
    (first >>= next) store = ⟨(first store).stores, .error message⟩ := by
  show bind first next store = _
  simp only [bind, herror]

theorem bind_of_ok (hvalue : (first store).result = .ok value) : (first >>= next) store =
      ⟨(first store).stores ++ (next value (first.final store)).stores,
        (next value (first.final store)).result⟩ := by
  show bind first next store = _
  simp only [bind, hvalue]

theorem getLastD_append (stores rest : List σ) (store : σ) :
    (stores ++ rest).getLastD store = rest.getLastD (stores.getLastD store) := by
  induction stores generalizing store with
  | nil => rfl
  | cons first stores ih => simp only [cons_append, getLastD_cons, ih]

theorem final_bind_of_ok (hvalue : (first store).result = .ok value) :
    (first >>= next).final store = (next value).final (first.final store) := by
  unfold final
  rw [bind_of_ok hvalue, getLastD_append]
  rfl

/-- No write of the program changes the view. -/
def Frames {γ : Type} (view : σ → γ) (program : Durable σ α) : Prop :=
  ∀ store, ∀ store' ∈ (program store).stores, view store' = view store

section Frames
variable {γ : Type} {view : σ → γ}

theorem Frames.final {program : Durable σ α} (hframes : Frames view program) (store : σ) :
    view (program.final store) = view store := by
  rcases mem_cons.1 (program.leaves_final store) with heq | hmem
  · rw [heq]
  · exact hframes store _ hmem

theorem frames_pure (value : α) : Frames view (pure value : Durable σ α) :=
  fun _ _ hmem ↦ by simp [pure] at hmem

theorem frames_read (look : σ → Except String α) : Frames view (read look) :=
  fun _ _ hmem ↦ by simp [read] at hmem

theorem frames_write {change : σ → σ} (hchange : ∀ store, view (change store) = view store) :
    Frames view (write change) := by
  intro store store' hmem
  rw [mem_singleton.1 hmem]
  exact hchange store

theorem frames_access {ρ : Type} {part : σ → ρ} {putBack : ρ → σ → σ} {operation : InPlace ρ α}
    (hchange : ∀ changed store, view (putBack changed store) = view store) :
    Frames view (access part putBack operation) := by
  intro store store' hmem
  unfold access at hmem
  split at hmem
  · rw [mem_singleton.1 hmem]
    exact hchange _ store
  · cases hmem

theorem Frames.bind {rest : α → Durable σ β} (hfirst : Frames view first)
    (hrest : ∀ value, Frames view (rest value)) : Frames view (first >>= rest) := by
  intro store store' hmem
  cases hvalue : (first store).result with
  | error message =>
    rw [bind_of_error hvalue] at hmem
    exact hfirst store store' hmem
  | ok value =>
    rw [bind_of_ok hvalue] at hmem
    rcases mem_append.1 hmem with hmem | hmem
    · exact hfirst store store' hmem
    · rw [hrest value _ store' hmem, hfirst.final]

end Frames

section Steps
variable {τ : Type} {good : σ → Prop} {meaning : σ → τ} {next : τ → Except String (Option τ)}

section
variable (next : τ → Except String (Option τ))

/-- The step function takes one meaning to the other. -/
def Step (before after : τ) : Prop :=
  next before = .ok (some after)

abbrev Reaches : τ → τ → Prop :=
  Relation.ReflTransGen (Step next)

/-- There is no next step. -/
def Ends (last : τ) : Prop :=
  ∀ after, ¬ Step next last after

end

variable {last : τ}

theorem Reaches.of_reaches_ends {start middle : τ} (hlast : Reaches next start last)
    (hends : Ends next last) (hmiddle : Reaches next start middle) : Reaches next middle last := by
  induction hmiddle with
  | refl => exact hlast
  | @tail before after _ hstep ih =>
    rcases Relation.ReflTransGen.cases_head ih with rfl | ⟨other, hother, hrest⟩
    · exact absurd hstep (hends after)
    · cases hother.symm.trans hstep
      exact hrest

/-- Where the steps end depends only on where they start. -/
theorem Reaches.ends_unique {start last' : τ} (hlast : Reaches next start last)
    (hends : Ends next last) (hlast' : Reaches next start last') (hends' : Ends next last') :
    last' = last := by
  rcases Relation.ReflTransGen.cases_head (hlast.of_reaches_ends hends hlast') with
    heq | ⟨after, hstep, -⟩
  · exact heq
  · exact absurd hstep (hends' after)

/-- Each write takes the next step or keeps the meaning; the program fails only where the step
function does. -/
def Follows (good : σ → Prop) (meaning : σ → τ) (next : τ → Except String (Option τ))
    (pre : σ → Prop) (program : Durable σ α) (post : α → σ → Prop) : Prop :=
  ∀ store, good store → pre store →
    (∀ store' ∈ (program store).stores,
      good store' ∧ Reaches next (meaning store) (meaning store')) ∧
    match (program store).result with
    | .ok value => post value (program.final store)
    | .error _ => ∃ message, next (meaning (program.final store)) = .error message

variable {pre : σ → Prop} {program : Durable σ α} {post : α → σ → Prop}

section
variable (hfollows : Follows good meaning next pre program post)
include hfollows

theorem Follows.leaves {store' : σ}
    (hgood : good store) (hpre : pre store) (hleaves : program.Leaves store store') :
    good store' ∧ Reaches next (meaning store) (meaning store') := by
  rcases mem_cons.1 hleaves with rfl | hmem
  · exact ⟨hgood, .refl⟩
  · exact (hfollows store hgood hpre).1 store' hmem

theorem Follows.final (hgood : good store)
    (hpre : pre store) :
    good (program.final store) ∧ Reaches next (meaning store) (meaning (program.final store)) :=
  hfollows.leaves hgood hpre (program.leaves_final store)

end

theorem follows_pure (hpost : ∀ store, good store → pre store → post value store) :
    Follows good meaning next pre (pure value : Durable σ α) post := by
  intro store hgood hpre
  exact ⟨by simp [pure], hpost store hgood hpre⟩

theorem follows_read {view : σ → Except String α}
    (hpost : ∀ store value, good store → pre store → view store = .ok value → post value store)
    (hstuck : ∀ store message, good store → pre store → view store = .error message →
      ∃ message, next (meaning store) = .error message) :
    Follows good meaning next pre (read view) post := by
  intro store hgood hpre
  refine ⟨by simp [read], ?_⟩
  show match view store with
    | .ok value => post value store
    | .error _ => ∃ message, next (meaning store) = .error message
  cases hview : view store with
  | error message => exact hstuck store message hgood hpre hview
  | ok value => exact hpost store value hgood hpre hview

theorem follows_write {change : σ → σ} {post : Unit → σ → Prop}
    (hgood : ∀ store, good store → pre store → good (change store))
    (hstep : ∀ store, good store → pre store → Reaches next (meaning store) (meaning (change store)))
    (hpost : ∀ store, good store → pre store → post () (change store)) :
    Follows good meaning next pre (write change) post := by
  intro store hstore hpre
  refine ⟨?_, hpost store hstore hpre⟩
  intro store' hmem
  rw [mem_singleton.1 hmem]
  exact ⟨hgood store hstore hpre, hstep store hstore hpre⟩

/-- A run of at most one write. -/
theorem follows_of_trace (htrace : ∀ store, good store → pre store →
      (∃ message message', program store = ⟨[], .error message⟩ ∧
        next (meaning store) = .error message') ∨
      ∃ value store', program store = ⟨[store'], .ok value⟩ ∧ good store' ∧
        Reaches next (meaning store) (meaning store') ∧ post value store') :
    Follows good meaning next pre program post := by
  intro store hgood hpre
  rcases htrace store hgood hpre with
    ⟨message, message', hrun, hstuck⟩ | ⟨value, store', hrun, hgood', hreaches, hpost⟩
  · rw [Durable.final, hrun]
    exact ⟨by simp, message', hstuck⟩
  · rw [Durable.final, hrun]
    refine ⟨fun store'' hmem ↦ ?_, hpost⟩
    rw [mem_singleton.1 hmem]
    exact ⟨hgood', hreaches⟩

theorem Follows.bind {rest : α → Durable σ β} {post' : β → σ → Prop}
    (hfirst : Follows good meaning next pre program post)
    (hrest : ∀ value, Follows good meaning next (post value) (rest value) post') :
    Follows good meaning next pre (program >>= rest) post' := by
  intro store hgood hpre
  obtain ⟨hstores, hresult⟩ := hfirst store hgood hpre
  obtain ⟨hfinal, hreaches⟩ := hfirst.final hgood hpre
  cases hvalue : (program store).result with
  | error message =>
    rw [hvalue] at hresult
    have hrun : (program >>= rest) store = ⟨(program store).stores, .error message⟩ :=
      bind_of_error hvalue
    rw [hrun]
    refine ⟨hstores, ?_⟩
    have hsame : (program >>= rest).final store = program.final store := by
      unfold Durable.final
      rw [hrun]
    rw [hsame]
    exact hresult
  | ok value =>
    rw [hvalue] at hresult
    obtain ⟨hrestStores, hrestResult⟩ := hrest value (program.final store) hfinal hresult
    rw [bind_of_ok hvalue, final_bind_of_ok hvalue]
    refine ⟨fun store' hmem ↦ ?_, hrestResult⟩
    rcases mem_append.1 hmem with hmem | hmem
    · exact hstores store' hmem
    · obtain ⟨hgood', hrestReaches⟩ := hrestStores store' hmem
      exact ⟨hgood', hreaches.trans hrestReaches⟩

theorem Follows.weaken {pre' : σ → Prop} {post' : α → σ → Prop}
    (hfollows : Follows good meaning next pre program post)
    (hpre : ∀ store, good store → pre' store → pre store)
    (hpost : ∀ value store, good store → post value store → post' value store) :
    Follows good meaning next pre' program post' := by
  intro store hgood hpre'
  obtain ⟨hstores, hresult⟩ := hfollows store hgood (hpre store hgood hpre')
  refine ⟨hstores, ?_⟩
  have hfinal := (hfollows.final hgood (hpre store hgood hpre')).1
  cases hvalue : (program store).result with
  | error message =>
    rw [hvalue] at hresult
    exact hresult
  | ok value =>
    rw [hvalue] at hresult
    exact hpost value _ hfinal hresult

/-- What the program does not change is as it was. -/
theorem Follows.frame {γ : Type} {view : σ → γ}
    (hfollows : Follows good meaning next pre program post) (hframes : Frames view program)
    (value : γ) :
    Follows good meaning next (fun store ↦ pre store ∧ view store = value) program
      fun result store ↦ post result store ∧ view store = value := by
  intro store hgood hpre
  obtain ⟨hstores, hresult⟩ := hfollows store hgood hpre.1
  refine ⟨hstores, ?_⟩
  cases hrun : (program store).result with
  | error message =>
    rw [hrun] at hresult
    exact hresult
  | ok result =>
    rw [hrun] at hresult
    exact ⟨hresult, (hframes.final store).trans hpre.2⟩

/-- A program that fails only where the step function does, and succeeds where there is no step. -/
theorem Follows.ends (hfollows : Follows good meaning next (fun _ ↦ True) program
      fun _ store ↦ next (meaning store) = .ok none) (hgood : good store) :
    Ends next (meaning (program.final store)) ∧
      ((program store).result.isOk ↔ next (meaning (program.final store)) = .ok none) := by
  obtain ⟨-, hresult⟩ := hfollows store hgood trivial
  cases hvalue : (program store).result with
  | error message =>
    rw [hvalue] at hresult
    obtain ⟨message, hmessage⟩ := hresult
    refine ⟨fun after hstep ↦ ?_, by simp [Except.isOk, Except.toBool, hmessage]⟩
    cases hmessage.symm.trans hstep
  | ok value =>
    rw [hvalue] at hresult
    refine ⟨fun after hstep ↦ ?_, by simp [Except.isOk, Except.toBool, hresult]⟩
    cases hresult.symm.trans hstep

/-- The store after some runs, each stopped after any of its writes. -/
inductive Stopped (programs : Durable σ α → Prop) (start : σ) : σ → Prop
  | start : Stopped programs start start
  | run {store store' : σ} {program : Durable σ α} (hstopped : Stopped programs start store)
      (hprogram : programs program) (hleaves : program.Leaves store store') :
      Stopped programs start store'

variable {programs : Durable σ α → Prop} {start store : σ}

section
variable
  (hfollows : ∀ program, programs program →
    Follows good meaning next (fun _ ↦ True) program fun _ store ↦ next (meaning store) = .ok none)
  (hgood : good start) (hstopped : Stopped programs start store)
include hfollows hgood hstopped

theorem Stopped.reaches : good store ∧ Reaches next (meaning start) (meaning store) := by
  induction hstopped with
  | start => exact ⟨hgood, .refl⟩
  | run _ hprogram hleaves ih =>
    obtain ⟨hstore, hreaches⟩ := ih
    obtain ⟨hstore', hreaches'⟩ := (hfollows _ hprogram).leaves hstore trivial hleaves
    exact ⟨hstore', hreaches.trans hreaches'⟩

/-- A run to the end after stopped runs leaves the meaning that a single run leaves, and fails if
that fails. -/
theorem Stopped.final_eq {program' : Durable σ α} (hprogram : programs program)
    (hprogram' : programs program') :
    meaning (program.final store) = meaning (program'.final start) ∧
      ((program store).result.isOk ↔ (program' start).result.isOk) := by
  obtain ⟨hstore, hreaches⟩ := hstopped.reaches hfollows hgood
  obtain ⟨-, hfinal⟩ := (hfollows _ hprogram).final hstore trivial
  obtain ⟨-, hfinal'⟩ := (hfollows _ hprogram').final hgood trivial
  obtain ⟨hends, hok⟩ := (hfollows _ hprogram).ends hstore
  obtain ⟨hends', hok'⟩ := (hfollows _ hprogram').ends hgood
  have heq := Reaches.ends_unique hfinal' hends' (hreaches.trans hfinal) hends
  exact ⟨heq, by rw [hok, hok', heq]⟩

end

end Steps

end Durable

end Exo.Library
