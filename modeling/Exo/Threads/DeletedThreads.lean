import Exo.Threads.Deletion

/-!
# The steps of the mutators on a thread that is being deleted

One lemma for each kind of step says that it keeps the invariant; the run theorem follows by induction.
The runs that break the property write an artifact, a caller or a lease after the deletion, or what a
dropped operation left to be written.
-/

namespace Exo.Threads

open Library List Option

/-- The change of an operation that goes on with a program. -/
structure Moves (change : Operation → Operation) (program : List Action) : Prop where
  program : ∀ entry, (change entry).program = program
  kind : ∀ entry, (change entry).kind = entry.kind
  outcome : ∀ entry, (change entry).outcome = entry.outcome
  late : ∀ entry, (change entry).late = entry.late

theorem moves_proceed (program : List Action) :
    Moves (fun entry ↦ { entry with program := program }) program :=
  ⟨fun _ ↦ rfl, fun _ ↦ rfl, fun _ ↦ rfl, fun _ ↦ rfl⟩

section Steps
variable {state after : ThreadState} {operation : ℕ} {entry : Operation}
  {change : Operation → Operation} {program rest : List Action} {loaded alive : Bool}
  {key : ThreadKey}

theorem mem_deleteKey {other : ThreadKey} :
    other ∈ (state.deleteKey key).keys ↔ other ∈ state.keys ∧ other ≠ key := by
  simp [ThreadState.deleteKey]

theorem take_iff {lock : Option ℕ} (hfree : lock.isNone = true) {other : ℕ}
    (hother : other ≠ operation) : some operation = some other ↔ lock = some other := by
  rw [isNone_iff_eq_none.1 hfree]
  simp [Ne.symm hother]

theorem drop_iff {lock : Option ℕ} (hlock : lock = some operation) {other : ℕ}
    (hother : other ≠ operation) : (none : Option ℕ) = some other ↔ lock = some other := by
  rw [hlock]
  simp [Ne.symm hother]

/-- An operation that was blocked after the deletion is so with what it goes on with. -/
def StaysBlocked (state : ThreadState) (entry : Operation) (program : List Action) : Prop :=
  state.deleted = true → Blocked state.sessions state.finished entry.program →
    Blocked state.sessions state.finished program

theorem blocked_rest {action : Action} (hprogram : entry.program = action :: rest)
    (hrest : Blocked state.sessions state.finished (action :: rest) →
      Blocked state.sessions state.finished rest) : StaysBlocked state entry rest :=
  fun _ hblocked ↦ hrest (hprogram ▸ hblocked)

section
variable (hmoves : Moves change program) (hentry : state.operations[operation]? = some entry)
  (hrunning : entry.outcome = none)
  (hoperations : after.operations = state.operations.modify operation change)
include hmoves hentry hrunning hoperations

theorem Moves.deleted_eq_false (hdeleted : state.deleted = false) : after.deleted = false := by
  by_contra hnow
  rcases deleted_modify hentry hoperations (by simpa using hnow) with hbefore | hreturns
  · rw [hdeleted] at hbefore
    cases hbefore
  · rw [hmoves.outcome, hrunning] at hreturns
    cases hreturns

/-- What covers the operation does so still. -/
theorem Moves.covers (hsessions : after.sessions = state.sessions)
    (hlocks : after.held operation true true = state.held operation true true)
    (hcovers : state.Covers operation loaded alive) : after.Covers operation loaded alive := by
  have hheld := held_eq_iff.1 hlocks
  refine ⟨fun hloaded ↦ ?_, fun halive ↦ ?_⟩
  · obtain ⟨hdeleted, hcover⟩ := hcovers.1 hloaded
    exact ⟨hmoves.deleted_eq_false hentry hrunning hoperations hdeleted,
      hcover.imp hheld.1.2 hheld.2.1.2⟩
  · obtain ⟨hdeleted, hcover⟩ := hcovers.2 halive
    rw [hsessions]
    exact ⟨hmoves.deleted_eq_false hentry hrunning hoperations hdeleted,
      hcover.imp hheld.2.1.2 (And.imp_right hheld.2.2.2)⟩

end

namespace ThreadState

namespace Sound

theorem not_deleted (hsound : state.Sound) (hkey : key ∈ state.keys) : state.deleted = false := by
  by_contra hdeleted
  rw [(hsound.deleted (by simpa using hdeleted)).1] at hkey
  cases hkey

theorem sandboxes_eq_nil (hsound : state.Sound) (hdeleted : state.deleted = true) :
    state.sandboxes = [] := by
  simp [ThreadState.sandboxes, (hsound.deleted hdeleted).1]

section
variable (hsound : state.Sound) (hentry : state.operations[operation]? = some entry)
include hsound hentry

section
variable (hrunning : entry.outcome = none)
include hrunning

theorem move (hmoves : Moves change program)
    (hoperations : after.operations = state.operations.modify operation change)
    (hsessions : after.sessions = state.sessions)
    (hheld : ∀ other, other ≠ operation → ∀ loaded alive,
      after.held other loaded alive = state.held other loaded alive)
    (hput : ∀ key ∈ after.keys, key ∈ state.keys ∨ (state.deleted = false ∧
      (state.writeLock = some operation ∨ state.resources = some operation ∨ state.Undisturbed)))
    (hlease : after.lease = true → state.lease = true ∨ (state.deleted = false ∧
      (state.resources = some operation ∨
        state.sessions = true ∧ state.namespaceLock = some operation)))
    (hfinished : state.deleted = true → after.finished = state.finished)
    (hruns : after.Runs operation program)
    (hblocked : StaysBlocked state entry program) : after.Sound := by
  refine Advances.sound hsound hentry hrunning ⟨hoperations, hmoves.kind entry, hmoves.late entry,
    hsessions, hheld, hput, hlease, ?_, hfinished, ?_, ?_⟩
  · intro hdeleted
    rw [hmoves.outcome, hrunning] at hdeleted
    cases hdeleted
  · intro _
    rw [hmoves.program]
    exact hruns
  · intro hlate
    rw [hmoves.late] at hlate
    obtain ⟨hdeleted, hfails⟩ := hsound.late entry (mem_of_getElem? hentry) hlate
    refine ⟨deleted_mono hentry hrunning hoperations hdeleted, fun hkind ↦ ?_⟩
    rw [hmoves.kind] at hkind
    rw [hmoves.outcome, hmoves.program, hsessions, hfinished hdeleted]
    obtain ⟨houtcome, hbefore⟩ := hfails hkind
    exact ⟨houtcome, fun hnone ↦ hblocked hdeleted (hbefore hnone)⟩

theorem finish {outcome : Outcome}
    (hdeleted : outcome = .deleted → state.keys = [] ∧ state.lease = false ∧
      state.HoldsAll operation)
    (hreturned : outcome = .returned → state.deleted = true →
      ¬Blocked state.sessions state.finished entry.program) :
    (state.finish operation outcome).Sound := by
  have hreleased : ∀ {lock : Option ℕ} {other : ℕ}, other ≠ operation →
      ((if lock = some operation then none else lock) = some other ↔ lock = some other) := by
    intro lock other hother
    split
    · rename_i hlock
      simp [hlock, Ne.symm hother]
    · rfl
  refine Advances.sound hsound hentry hrunning ⟨rfl, rfl, rfl, rfl, ?_, fun _ ↦ .inl, .inl, ?_,
    fun _ ↦ rfl, nofun, ?_⟩
  · intro other hother loaded alive
    exact held_eq_iff.2 ⟨hreleased hother, hreleased hother, hreleased hother⟩
  · intro houtcome
    exact hdeleted (some.inj houtcome)
  · intro hlate
    obtain ⟨hbefore, hfails⟩ := hsound.late entry (mem_of_getElem? hentry) hlate
    refine ⟨deleted_mono hentry hrunning rfl hbefore, fun hkind ↦ ⟨fun houtcome ↦ ?_, nofun⟩⟩
    exact hreturned (some.inj houtcome) hbefore ((hfails hkind).2 hrunning)

theorem fail : (state.finish operation .failed).Sound :=
  hsound.finish hentry hrunning nofun nofun

end

variable (hrunning : entry.outcome = none)
include hrunning

/-- A lock that was free, or one that its holder drops. -/
theorem changeLocks (hoperations : after.operations =
      state.operations.modify operation fun entry ↦ { entry with program := program })
    (hsessions : after.sessions = state.sessions) (hkeys : after.keys = state.keys)
    (hlease : after.lease = state.lease) (hfinished : after.finished = state.finished)
    (hheld : ∀ other, other ≠ operation → ∀ loaded alive,
      after.held other loaded alive = state.held other loaded alive)
    (loaded alive : Bool)
    (hloaded : loaded = true → state.deleted = false ∧
      (after.writeLock = some operation ∨ after.resources = some operation))
    (halive : alive = true → state.deleted = false ∧ (after.resources = some operation ∨
      state.sessions = true ∧ after.namespaceLock = some operation))
    (hsafe : Safe state.sessions (after.held operation loaded alive) program)
    (hblocked : StaysBlocked state entry program) : after.Sound := by
  have hmoves := moves_proceed program
  have hdeleted := hmoves.deleted_eq_false hentry hrunning hoperations
  refine hsound.move hentry hrunning hmoves hoperations hsessions hheld
    (fun _ h ↦ .inl (hkeys ▸ h)) (fun h ↦ .inl (hlease ▸ h)) (fun _ ↦ hfinished)
    (.inl ⟨loaded, alive, ⟨fun h ↦ ⟨hdeleted (hloaded h).1, (hloaded h).2⟩, fun h ↦ ?_⟩, ?_⟩) hblocked
  · rw [hsessions]
    exact ⟨hdeleted (halive h).1, (halive h).2⟩
  · rw [hsessions]
    exact hsafe

/-- The deletion lists the keys, with every lock in its hands. -/
theorem deletePrefix (hprogram : entry.program = .deletePrefix :: rest)
    (hsafe : Safe state.sessions (state.held operation loaded alive) (.deletePrefix :: rest)) :
    (state.proceed operation (.deleteKeys state.keys :: rest)).Sound := by
  obtain ⟨⟨hwrite, hresources, hnamespace, -, -⟩, hrest⟩ := hsafe
  refine hsound.move hentry hrunning (moves_proceed _) rfl rfl (fun _ _ _ _ ↦ rfl)
    (fun _ ↦ .inl) .inl (fun _ ↦ rfl) (.inr ⟨⟨?_, ?_, fun hsessions ↦ ?_⟩, ?_⟩) ?_
  · exact beq_iff_eq.1 hwrite
  · exact beq_iff_eq.1 hresources
  · exact beq_iff_eq.1 (hnamespace hsessions)
  · rw [hrest]
    exact fun _ ↦ id
  · intro _ hblocked
    rw [hprogram] at hblocked
    exact hblocked

theorem perform_removing {action : Action}
    (hprogram : entry.program = action :: rest) (hholds : state.HoldsAll operation)
    (hremoving : state.Removing (action :: rest)) (running : Bool) :
    (state.perform operation running action rest).Sound := by
  have hblocked : Blocked state.sessions state.finished entry.program →
      Blocked state.sessions state.finished (action :: rest) := fun h ↦ hprogram ▸ h
  unfold ThreadState.Removing at hremoving
  split at hremoving
  · rename_i keys hcase
    cases hcase
    cases keys with
    | nil =>
      refine hsound.move hentry hrunning (moves_proceed _) rfl rfl (fun _ _ _ _ ↦ rfl)
        (fun _ ↦ .inl) .inl (fun _ ↦ rfl) (.inr ⟨hholds, ?_⟩) (fun _ ↦ hblocked)
      exact eq_nil_iff_forall_not_mem.2 fun key hkey ↦ not_mem_nil (hremoving key hkey)
    | cons key keys =>
      refine hsound.move hentry hrunning (moves_proceed _) rfl rfl (fun _ _ _ _ ↦ rfl)
        (fun _ h ↦ .inl (mem_deleteKey.1 h).1) .inl (fun _ ↦ rfl) (.inr ⟨hholds, ?_⟩)
        (fun _ ↦ hblocked)
      intro other hother
      obtain ⟨hmem, hne⟩ := mem_deleteKey.1 hother
      exact (mem_cons.1 (hremoving other hmem)).resolve_left hne
  · rename_i hcase
    cases hcase
    exact hsound.move hentry hrunning (moves_proceed _) rfl rfl (fun _ _ _ _ ↦ rfl)
      (fun _ ↦ .inl) nofun (fun _ ↦ rfl) (.inr ⟨hholds, hremoving, rfl⟩) (fun _ ↦ hblocked)
  · rename_i hcase
    cases hcase
    exact hsound.finish hentry hrunning (fun _ ↦ ⟨hremoving.1, hremoving.2, hholds⟩) nofun
  · cases hremoving

section
variable (hcovers : state.Covers operation loaded alive)
include hcovers

/-- An operation goes on and leaves the thread as it is. -/
theorem proceed (hsafe : Safe state.sessions (state.held operation loaded alive) program)
    (hblocked : StaysBlocked state entry program) : (state.proceed operation program).Sound := by
  have hmoves := moves_proceed program
  exact hsound.move hentry hrunning hmoves rfl rfl (fun _ _ _ _ ↦ rfl) (fun _ ↦ .inl) .inl
    (fun _ ↦ rfl) (.inl ⟨loaded, alive, hmoves.covers hentry hrunning rfl rfl rfl hcovers, hsafe⟩)
    hblocked

omit hcovers in
/-- The record is still there, or the operation fails. -/
theorem require (hcovers : key ∈ state.keys → state.Covers operation loaded alive)
    (hsafe : Safe state.sessions (state.held operation loaded alive) rest)
    (hblocked : key ∈ state.keys → StaysBlocked state entry rest) :
    (state.require key operation rest).Sound := by
  unfold ThreadState.require
  split
  · rename_i hkey
    exact hsound.proceed hentry hrunning (hcovers hkey) hsafe (hblocked hkey)
  · exact hsound.fail hentry hrunning

/-- A put under a lock, after the record was seen. -/
theorem putKey (hmoves : Moves change program)
    (hoperations : after.operations = state.operations.modify operation change)
    (hsessions : after.sessions = state.sessions)
    (hlocks : ∀ other loaded alive, after.held other loaded alive = state.held other loaded alive)
    (hlease : after.lease = state.lease) (hfinished : after.finished = state.finished)
    (hdeleted : state.deleted = false)
    (hlock : state.writeLock = some operation ∨ state.resources = some operation ∨
      state.Undisturbed)
    (hsafe : Safe state.sessions (state.held operation loaded alive) program) : after.Sound := by
  have hcovered := hmoves.covers hentry hrunning hoperations hsessions (hlocks operation true true)
    hcovers
  refine hsound.move hentry hrunning hmoves hoperations hsessions (fun other _ ↦ hlocks other)
    (fun _ _ ↦ .inr ⟨hdeleted, hlock⟩) (fun h ↦ .inl (hlease ▸ h))
    (fun _ ↦ hfinished) (.inl ⟨loaded, alive, hcovered, ?_⟩) (fun h ↦ by rw [hdeleted] at h; cases h)
  rw [hsessions, hlocks]
  exact hsafe

/-- An event, for a record that was seen under the write lock or one of the others. -/
theorem putEvent (hdeleted : state.deleted = false)
    (hlock : state.writeLock = some operation ∨ state.resources = some operation)
    (hsafe : Safe state.sessions (state.held operation loaded alive) rest) :
    (state.putEvent.proceed operation rest).Sound :=
  hsound.putKey hentry hrunning hcovers (moves_proceed rest) rfl rfl (fun _ _ _ ↦ rfl) rfl rfl
    hdeleted (hlock.imp_right .inl) hsafe

/-! ### Claims -/

/-- `claim_local_scope` takes the way of an owned lease, or the one with the namespace guard. -/
theorem owns (hprogram : entry.program = .owns :: rest)
    (hsafe : Safe state.sessions (state.held operation loaded alive) (.owns :: rest))
    (running : Bool) : (state.perform operation running .owns rest).Sound := by
  obtain ⟨hwrite, -, hnamespace, hloaded, halive, hrest⟩ := hsafe
  simp only [ThreadState.perform]
  by_cases hsessions : state.sessions = true
  · rw [if_pos hsessions]
    refine hsound.proceed hentry hrunning hcovers ?_ ?_
    · by_cases hlease : state.lease = true
      · rw [if_pos hlease]
        exact ⟨hwrite, hloaded, hrest⟩
      · rw [if_neg hlease]
        refine ⟨hsessions, rfl, rfl, rfl, hwrite, hloaded, ?_⟩
        have hheld := (state.held operation loaded alive).unlockNamespace_eq hnamespace halive
        rw [← hheld] at hrest
        exact hrest
    · intro hdeleted _
      rw [(hsound.deleted hdeleted).2]
      trivial
  · rw [if_neg hsessions]
    exact hsound.proceed hentry hrunning hcovers hrest
      (blocked_rest hprogram fun hblocked ↦ hblocked.resolve_left hsessions)

/-- The lease is claimed by whoever knows that the thread is not deleted, or was held all along. -/
theorem claim (hsafe : Safe state.sessions (state.held operation loaded alive) rest)
    (hclaim : state.lease = true ∨ alive = true) :
    ThreadState.Sound { state.proceed operation rest with lease := true } := by
  have hmoves := moves_proceed rest
  have hnot : ¬state.deleted = true := by
    intro hdeleted
    rcases hclaim with hlease | halive
    · rw [(hsound.deleted hdeleted).2] at hlease
      cases hlease
    · rw [(hcovers.2 halive).1] at hdeleted
      cases hdeleted
  exact hsound.move hentry hrunning hmoves rfl rfl (fun _ _ _ _ ↦ rfl) (fun _ ↦ .inl)
    (fun _ ↦ hclaim.imp id hcovers.2) (fun _ ↦ rfl)
    (.inl ⟨loaded, alive, hmoves.covers hentry hrunning rfl rfl rfl hcovers, hsafe⟩)
    (fun h ↦ absurd h hnot)

/-! ### Locks -/

theorem lockNamespace (hprogram : entry.program = .lockNamespace :: rest)
    (havailable : state.namespaceLock.isNone = true)
    (hsafe : Safe state.sessions { state.held operation loaded alive with namespaceLock := true }
      rest) :
    ThreadState.Sound { state.proceed operation rest with namespaceLock := some operation } := by
  refine hsound.changeLocks hentry hrunning rfl rfl rfl rfl rfl ?_ loaded alive hcovers.1 ?_ ?_ ?_
  · exact fun other hother _ _ ↦ held_eq_iff.2 ⟨Iff.rfl, Iff.rfl, take_iff havailable hother⟩
  · intro halive
    obtain ⟨hdeleted, hlock⟩ := hcovers.2 halive
    exact ⟨hdeleted, hlock.imp_right (And.imp_right fun _ ↦ rfl)⟩
  · simpa [ThreadState.held, ThreadState.proceed] using hsafe
  · exact blocked_rest hprogram id

theorem unlockNamespace (hprogram : entry.program = .unlockNamespace :: rest)
    (hheld : state.namespaceLock = some operation)
    (hsafe : Safe state.sessions
      { state.held operation loaded alive with namespaceLock := false, alive := false } rest) :
    ThreadState.Sound { state.proceed operation rest with namespaceLock := none } := by
  refine hsound.changeLocks hentry hrunning rfl rfl rfl rfl rfl ?_ loaded false hcovers.1 nofun ?_ ?_
  · exact fun other hother _ _ ↦ held_eq_iff.2 ⟨Iff.rfl, Iff.rfl, drop_iff hheld hother⟩
  · simpa [ThreadState.held, ThreadState.proceed] using hsafe
  · exact blocked_rest hprogram id

theorem lockResources (hprogram : entry.program = .lockResources :: rest)
    (havailable : state.resources.isNone = true)
    (hsafe : Safe state.sessions { state.held operation loaded alive with resources := true }
      rest) :
    ThreadState.Sound { state.proceed operation rest with resources := some operation } := by
  refine hsound.changeLocks hentry hrunning rfl rfl rfl rfl rfl ?_ loaded alive ?_ ?_ ?_ ?_
  · exact fun other hother _ _ ↦ held_eq_iff.2 ⟨Iff.rfl, take_iff havailable hother, Iff.rfl⟩
  · exact fun hloaded ↦ ⟨(hcovers.1 hloaded).1, .inr rfl⟩
  · exact fun halive ↦ ⟨(hcovers.2 halive).1, .inl rfl⟩
  · simpa [ThreadState.held, ThreadState.proceed] using hsafe
  · exact blocked_rest hprogram id

theorem lockWrite (hprogram : entry.program = .lockWrite :: rest)
    (havailable : state.writeLock.isNone = true)
    (hsafe : Safe state.sessions { state.held operation loaded alive with write := true } rest) :
    ThreadState.Sound { state.proceed operation rest with writeLock := some operation } := by
  refine hsound.changeLocks hentry hrunning rfl rfl rfl rfl rfl ?_ loaded alive ?_ hcovers.2 ?_ ?_
  · exact fun other hother _ _ ↦ held_eq_iff.2 ⟨take_iff havailable hother, Iff.rfl, Iff.rfl⟩
  · exact fun hloaded ↦ ⟨(hcovers.1 hloaded).1, .inl rfl⟩
  · simpa [ThreadState.held, ThreadState.proceed] using hsafe
  · exact blocked_rest hprogram id

/-- The write lock is dropped before the next sandbox, or before the next round of a deletion. -/
theorem unlockWrite (hheld : state.writeLock = some operation)
    (hsafe : Safe state.sessions
      { state.held operation loaded alive with write := false, loaded := false } program)
    (hblocked : StaysBlocked state entry program) :
    ThreadState.Sound { state.proceed operation program with writeLock := none } := by
  refine hsound.changeLocks hentry hrunning rfl rfl rfl rfl rfl ?_ false alive nofun hcovers.2 ?_
    hblocked
  · exact fun other hother _ _ ↦ held_eq_iff.2 ⟨drop_iff hheld hother, Iff.rfl, Iff.rfl⟩
  · simpa [ThreadState.held, ThreadState.proceed] using hsafe

/-! ### Removing keys -/

/-- A sandbox record is removed by whoever holds the write lock. -/
theorem deleteSandbox {id : ℕ}
    (hprogram : entry.program = .deleteSandbox id :: rest)
    (hsafe : Safe state.sessions (state.held operation loaded alive) rest) :
    ((state.deleteKey (.sandbox id)).proceed operation rest).Sound := by
  have hmoves := moves_proceed rest
  refine hsound.move hentry hrunning hmoves rfl rfl (fun _ _ _ _ ↦ rfl)
    (fun _ h ↦ .inl (mem_deleteKey.1 h).1) .inl (fun _ ↦ rfl)
    (.inl ⟨loaded, alive, hmoves.covers hentry hrunning rfl rfl rfl hcovers, hsafe⟩) ?_
  exact blocked_rest hprogram fun h ↦ h

/-! ### All steps -/

/-- A sandbox that could not be stopped. -/
theorem markFailure (hsafe : Safe state.sessions (state.held operation loaded alive) rest)
    (hblocked : StaysBlocked state entry rest) :
    ((state.markFailure operation).proceed operation rest).Sound := by
  have hmoves : Moves ((fun entry ↦ { entry with program := rest }) ∘
      fun entry ↦ { entry with failure := true }) rest :=
    ⟨fun _ ↦ rfl, fun _ ↦ rfl, fun _ ↦ rfl, fun _ ↦ rfl⟩
  have hoperations : ((state.markFailure operation).proceed operation rest).operations =
      state.operations.modify operation ((fun entry ↦ { entry with program := rest }) ∘
        fun entry ↦ { entry with failure := true }) :=
    modify_modify_eq _ _ _ _
  exact hsound.move hentry hrunning hmoves hoperations rfl (fun _ _ _ _ ↦ rfl) (fun _ ↦ .inl)
    .inl (fun _ ↦ rfl) (.inl ⟨loaded, alive,
      hmoves.covers hentry hrunning hoperations rfl rfl hcovers, hsafe⟩) hblocked

/-- A turn is finished under the lock under which the record was seen. -/
theorem setFinished (hloaded : loaded = true)
    (hsafe : Safe state.sessions (state.held operation loaded alive) rest)
    (finished : ℕ → Bool) :
    ThreadState.Sound { state.proceed operation rest with finished := finished } := by
  have hmoves := moves_proceed rest
  have hnot : ¬state.deleted = true := by simp [(hcovers.1 hloaded).1]
  exact hsound.move hentry hrunning hmoves rfl rfl (fun _ _ _ _ ↦ rfl) (fun _ ↦ .inl) .inl
    (fun h ↦ absurd h hnot)
    (.inl ⟨loaded, alive, hmoves.covers hentry hrunning rfl rfl rfl hcovers, hsafe⟩)
    (fun h ↦ absurd h hnot)

/-- An event that is put only if the record is there. -/
theorem putEvent_of_mem (hrecord : .record ∈ state.keys)
    (hwrite : (state.held operation loaded alive).write = true)
    (hsafe : Safe state.sessions (state.held operation loaded alive) rest) :
    (state.putEvent.proceed operation rest).Sound :=
  hsound.putEvent hentry hrunning hcovers (hsound.not_deleted hrecord)
    (.inl (beq_iff_eq.1 hwrite)) hsafe

/-- The steps of an operation that has not begun to remove the keys. -/
theorem perform_safe {action : Action} (hprogram : entry.program = action :: rest)
    (havailable : state.available action = true) {running : Bool}
    (hrechecked : Rechecked state (.step operation running))
    (hsafe : Safe state.sessions (state.held operation loaded alive) (action :: rest)) :
    (state.perform operation running action rest).Sound := by
  have haction : state.action? operation = some action := by
    simp [ThreadState.action?, hentry, hprogram]
  have hblocked : Blocked state.sessions state.finished entry.program →
      Blocked state.sessions state.finished (action :: rest) := fun h ↦ hprogram ▸ h
  have hunchecked : action.isUnchecked = true → state.Undisturbed := by
    intro hunchecked
    refine hrechecked.1 ?_
    rw [haction]
    exact hunchecked
  have hcovered : loaded = true →
      state.writeLock = some operation ∨ state.resources = some operation :=
    fun h ↦ (hcovers.1 h).2
  cases action with
  | owns => exact hsound.owns hentry hrunning hcovers hprogram hsafe running
  | claimOwned =>
    exact hsound.claim hentry hrunning hcovers hsafe (.inl (hrechecked.2 haction))
  | claim => exact hsound.claim hentry hrunning hcovers hsafe.2 (.inr hsafe.1)
  | lockNamespace =>
    exact hsound.lockNamespace hentry hrunning hcovers hprogram havailable hsafe
  | unlockNamespace =>
    exact hsound.unlockNamespace hentry hrunning hcovers hprogram (beq_iff_eq.1 hsafe.1) hsafe.2
  | requireRecord =>
    refine hsound.require hentry hrunning
      (fun hkey ↦ ⟨hcovers.1, fun _ ↦ ⟨hsound.not_deleted hkey, .inr ?_⟩⟩) hsafe.2.2
      (fun hkey hdeleted _ ↦ absurd hdeleted (by simp [hsound.not_deleted hkey]))
    exact ⟨hsafe.1, beq_iff_eq.1 hsafe.2.1⟩
  | recover =>
    obtain ⟨hwrite, hloaded, hrest⟩ := hsafe
    refine hsound.proceed hentry hrunning hcovers ?_ ?_
    · split
      · exact safe_recoverSandbox _ hwrite hloaded hrest
      · exact hrest
    · intro hdeleted hbefore
      have hnone := hsound.sandboxes_eq_nil hdeleted
      split
      · rw [hnone]
        exact hblocked hbefore
      · exact hblocked hbefore
  | stopSandbox id =>
    simp only [ThreadState.perform]
    split
    · split
      · rename_i hkeys
        exact hsound.putEvent_of_mem hentry hrunning hcovers hkeys.2 hsafe.1 hsafe.2
      · exact hsound.markFailure hentry hrunning hcovers hsafe.2 (fun _ ↦ hblocked)
    · exact hsound.proceed hentry hrunning hcovers hsafe.2 (fun _ ↦ hblocked)
  | recovered =>
    simp only [ThreadState.perform]
    split
    · exact hsound.fail hentry hrunning
    · exact hsound.proceed hentry hrunning hcovers hsafe (fun _ ↦ hblocked)
  | lockResources =>
    exact hsound.lockResources hentry hrunning hcovers hprogram havailable hsafe
  | lockWrite => exact hsound.lockWrite hentry hrunning hcovers hprogram havailable hsafe
  | unlockWrite =>
    exact hsound.unlockWrite hentry hrunning hcovers (beq_iff_eq.1 hsafe.1) hsafe.2
      (fun _ ↦ hblocked)
  | loadRecord =>
    refine hsound.require hentry hrunning
      (fun hkey ↦ ⟨fun _ ↦ ⟨hsound.not_deleted hkey, ?_⟩, hcovers.2⟩) hsafe.2
      (fun hkey hdeleted _ ↦ absurd hdeleted (by simp [hsound.not_deleted hkey]))
    exact hsafe.1.imp beq_iff_eq.1 beq_iff_eq.1
  | put key =>
    exact hsound.putKey hentry hrunning hcovers (moves_proceed rest) rfl rfl (fun _ _ _ ↦ rfl) rfl
      rfl (hcovers.1 hsafe.1).1 ((hcovered hsafe.1).imp_right .inl) hsafe.2
  | appendEvents =>
    exact hsound.putEvent hentry hrunning hcovers (hcovers.1 hsafe.1).1 (hcovered hsafe.1) hsafe.2
  | putUnchecked key | putCaller principal =>
    have hundisturbed := hunchecked rfl
    exact hsound.putKey hentry hrunning hcovers (moves_proceed rest) rfl rfl (fun _ _ _ ↦ rfl) rfl
      rfl (hsound.not_deleted hundisturbed.1) (.inr (.inr hundisturbed)) hsafe
  | stopIfFinished turn =>
    simp only [ThreadState.perform]
    split
    · rename_i hfinished
      refine hsound.finish hentry hrunning nofun (fun _ _ hbefore ↦ ?_)
      rw [(hblocked hbefore).1] at hfinished
      cases hfinished
    · exact hsound.proceed hentry hrunning hcovers hsafe (fun _ hbefore ↦ (hblocked hbefore).2)
  | setFinished turn => exact hsound.setFinished hentry hrunning hcovers hsafe.1 hsafe.2 _
  | stopIfCaller principal =>
    simp only [ThreadState.perform]
    split
    · rename_i hcaller
      refine hsound.finish hentry hrunning nofun (fun _ hdeleted _ ↦ ?_)
      rw [ThreadState.activeCaller, (hsound.deleted hdeleted).1] at hcaller
      cases hcaller
    · exact hsound.proceed hentry hrunning hcovers hsafe (fun _ ↦ hblocked)
  | terminateSandboxes =>
    obtain ⟨hwrite, hloaded, hrest⟩ := hsafe
    refine hsound.proceed hentry hrunning hcovers (safe_terminateSandbox _ hwrite hloaded hrest) ?_
    intro hdeleted hbefore
    rw [hsound.sandboxes_eq_nil hdeleted]
    exact hblocked hbefore
  | terminateSandboxesLocked =>
    refine hsound.proceed hentry hrunning hcovers (safe_terminateSandboxLocked _ hsafe.1 hsafe.2) ?_
    intro hdeleted hbefore
    rw [hsound.sandboxes_eq_nil hdeleted]
    exact hblocked hbefore
  | loadSandbox id =>
    exact hsound.require hentry hrunning (fun _ ↦ hcovers) hsafe (fun _ _ ↦ hblocked)
  | deleteSandbox id =>
    exact hsound.deleteSandbox hentry hrunning hcovers hprogram hsafe.2
  | sandboxStopped =>
    simp only [ThreadState.perform]
    split
    · split
      · rename_i hrecord
        exact hsound.putEvent_of_mem hentry hrunning hcovers hrecord hsafe.1 hsafe.2
      · exact hsound.fail hentry hrunning
    · exact hsound.proceed hentry hrunning hcovers hsafe.2 (fun _ ↦ hblocked)
  | stopIfEmpty =>
    simp only [ThreadState.perform]
    split
    · exact hsound.finish hentry hrunning nofun nofun
    · rename_i hkeys
      refine hsound.proceed hentry hrunning ⟨hcovers.1, fun _ ↦ ⟨?_, .inl ?_⟩⟩ hsafe.2
        (fun _ ↦ hblocked)
      · by_contra hdeleted
        exact hkeys (hsound.deleted (by simpa using hdeleted)).1
      · exact beq_iff_eq.1 hsafe.1
  | prepare attempts =>
    obtain ⟨⟨hwrite, hresources, hnamespace, hloaded, halive⟩, hrest⟩ := hsafe
    simp only [ThreadState.perform]
    split
    · refine hsound.unlockWrite hentry hrunning hcovers (beq_iff_eq.1 hwrite)
        (safe_deleteLoop attempts rfl hresources hnamespace rfl) (fun hdeleted ↦ ?_)
      rw [(hcovers.2 halive).1] at hdeleted
      cases hdeleted
    · exact hsound.proceed hentry hrunning hcovers hrest (fun _ ↦ hblocked)
  | appendDeleted =>
    simp only [ThreadState.perform]
    split
    · rename_i hrecord
      exact hsound.putEvent_of_mem hentry hrunning hcovers hrecord hsafe.1 hsafe.2
    · exact hsound.proceed hentry hrunning hcovers hsafe.2 (fun _ ↦ hblocked)
  | deletePrefix => exact hsound.deletePrefix hentry hrunning hprogram hsafe
  | deleteKeys keys => cases hsafe
  | release => cases hsafe
  | returnDeleted => cases hsafe
  | bail => exact hsound.fail hentry hrunning

end

end

/-- A call; what returns without a look at the storage is not called on a deleted thread. -/
theorem start (hsound : state.Sound) {kind : OperationKind}
    (hrechecked : Rechecked state (.start kind)) : (thread.next state (.start kind)).Sound := by
  have hdeleted : (thread.next state (.start kind)).deleted = state.deleted := by
    simp [thread, ThreadState.deleted]
  refine ⟨fun index found hfound houtcome ↦ ?_, ?_, fun found hfound ↦ ?_, fun index hindex ↦ ?_⟩
  · rcases Nat.lt_trichotomy index state.operations.length with hlt | heq | hgt
    · have hbefore : state.operations[index]? = some found := by
        rw [← hfound]
        exact (getElem?_append_left hlt).symm
      rcases hsound.runs index found hbefore houtcome with ⟨loaded, alive, hcovers, hsafe⟩ | hremoving
      · refine .inl ⟨loaded, alive, ?_, hsafe⟩
        rw [ThreadState.Covers, hdeleted]
        exact hcovers
      · exact .inr hremoving
    · have hnew : found = ⟨kind, kind.program state.sessions index, none, false,
          state.deleted⟩ := by
        rw [heq] at hfound ⊢
        exact (some.inj (getElem?_concat_length.symm.trans hfound)).symm
      rw [hnew]
      refine .inl ⟨false, false, ⟨nofun, nofun⟩, ?_⟩
      have hheld := hsound.holders index (Nat.le_of_eq heq.symm) false false
      exact hheld ▸ safe_program state.sessions index kind
    · have hnone : (thread.next state (.start kind)).operations[index]? = none := by
        refine getElem?_eq_none ?_
        simp only [thread, length_append, length_singleton]
        omega
      rw [hnone] at hfound
      cases hfound
  · rw [hdeleted]
    exact hsound.deleted
  · intro hlate
    rw [hdeleted]
    rcases mem_append.1 hfound with hold | hnew
    · exact hsound.late found hold hlate
    · rw [mem_singleton.1 hnew] at hlate ⊢
      refine ⟨hlate, fun hkind ↦ ⟨nofun, fun _ ↦ ?_⟩⟩
      exact blocked_program hkind (hrechecked hlate) _
  · refine hsound.holders index (Nat.le_of_succ_le ?_)
    simpa [thread] using hindex

/-- The storage works on its own: keys go, and come only to an undisturbed thread. -/
theorem store (hsound : state.Sound) (hoperations : after.operations = state.operations)
    (hsessions : after.sessions = state.sessions)
    (hheld : ∀ other loaded alive, after.held other loaded alive = state.held other loaded alive)
    (hlease : after.lease = state.lease) (hfinished : after.finished = state.finished)
    (hkeys : ∀ key ∈ after.keys, key ∈ state.keys ∨ state.Undisturbed) : after.Sound := by
  have hdeleted : after.deleted = state.deleted := by rw [ThreadState.deleted, hoperations]; rfl
  have hlocks := fun other ↦ held_eq_iff.1 (hheld other true true)
  refine ⟨fun other found hfound houtcome ↦ ?_, fun hgone ↦ ?_, fun found hfound hlate ↦ ?_, ?_⟩
  · rw [hoperations] at hfound
    obtain ⟨hwrite, hresources, hnamespace⟩ := hlocks other
    rcases hsound.runs other found hfound houtcome with
      ⟨loaded, alive, hcovers, hsafe⟩ | ⟨hholds, hremoving⟩
    · refine .inl ⟨loaded, alive, ?_, hsessions ▸ hheld other loaded alive ▸ hsafe⟩
      rw [ThreadState.Covers, hdeleted, hsessions, hwrite, hresources, hnamespace]
      exact hcovers
    · refine .inr ⟨?_, hremoving.mono (fun key hkey ↦ ?_) hlease.trans⟩
      · rw [ThreadState.HoldsAll, hsessions, hwrite, hresources, hnamespace]
        exact hholds
      · exact (hkeys key hkey).resolve_right
          fun hundisturbed ↦ hundisturbed.not_removing hfound houtcome hremoving
  · rw [hdeleted] at hgone
    refine ⟨eq_nil_iff_forall_not_mem.2 fun key hkey ↦ ?_, hlease.trans (hsound.deleted hgone).2⟩
    have hold : key ∈ state.keys ∨ .record ∈ state.keys := (hkeys key hkey).imp_right And.left
    rw [(hsound.deleted hgone).1] at hold
    simp at hold
  · rw [hoperations] at hfound
    rw [hdeleted, hsessions, hfinished]
    exact hsound.late found hfound hlate
  · intro other hother loaded alive
    rw [hoperations] at hother
    rw [hheld]
    exact hsound.holders other hother loaded alive

theorem land (hsound : state.Sound) {call : StorageCall}
    (hrechecked : Rechecked state (.land call)) : (thread.next state (.land call)).Sound := by
  refine hsound.store ?_ ?_ ?_ ?_ ?_ ?_
  · cases call <;> rfl
  · cases call <;> rfl
  · cases call <;> exact fun _ _ _ ↦ rfl
  · cases call <;> rfl
  · cases call <;> rfl
  · intro key hkey
    cases call with
    | put | putCaller => exact .inr hrechecked
    | delete => exact .inl (mem_deleteKey.1 hkey).1

theorem next (hsound : state.Sound) {label : ThreadLabel}
    (henabled : thread.enabled state label) (hrechecked : Rechecked state label) :
    (thread.next state label).Sound := by
  cases label with
  | start kind => exact hsound.start hrechecked
  | fail operation =>
    obtain ⟨entry, hentry, hrunning⟩ := (any_eq_true _ _).1 henabled
    exact hsound.fail hentry (of_decide_eq_true hrunning)
  | drop operation call =>
    obtain ⟨entry, hentry, hrunning⟩ := (any_eq_true _ _).1 henabled.1
    exact (hsound.fail hentry (of_decide_eq_true hrunning)).store rfl rfl (fun _ _ _ ↦ rfl) rfl rfl
      fun _ ↦ .inl
  | land call => exact hsound.land hrechecked
  | step operation running =>
    obtain ⟨entry, hentry, houtcome⟩ := (any_eq_true _ _).1 henabled.1
    have hrunning : entry.outcome = none := of_decide_eq_true houtcome
    have havailable := henabled.2
    simp only [thread, ThreadState.step, hentry]
    match hprogram : entry.program with
    | [] =>
      refine hsound.finish hentry hrunning nofun (fun _ _ hblocked ↦ ?_)
      rw [hprogram] at hblocked
      exact hblocked
    | action :: rest =>
      have hready : state.available action = true := by
        simpa [ThreadState.action?, hentry, hprogram] using havailable
      have hruns := hsound.runs operation entry hentry hrunning
      rw [hprogram] at hruns
      rcases hruns with ⟨loaded, alive, hcovers, hsafe⟩ | ⟨hholds, hremoving⟩
      · exact hsound.perform_safe hentry hrunning hcovers hprogram hready hrechecked hsafe
      · exact hsound.perform_removing hentry hrunning hprogram hholds hremoving running

end Sound

end ThreadState

end Steps

/-- **A deleted thread stays deleted, if nobody relies on what was not looked at.**  In every run of a
deletion and the other mutators of a thread, with or without local sessions, in which unchecked puts are
made and the puts of dropped operations take effect while the record exists and no deletion lists or
removes the keys, in which a lease is claimed as owned only while it is owned, and in which nothing that
returns without a look is called after the deletion without local sessions: once `delete_conversation`
has returned true there is no key below the directory and no lease, and every operation that is called
later fails. -/
theorem deleted_thread_stays_deleted (sessions lease : Bool) (keys : List ThreadKey)
    (principal : String) (finished managed : ℕ → Bool) (nextEvent : ℕ) {labels : List ThreadLabel}
    (hrun : (thread.restrict Rechecked).Admits
      (.start sessions lease keys principal finished managed nextEvent) labels) :
    (thread.exec (.start sessions lease keys principal finished managed nextEvent)
      labels).StaysDeleted := by
  have hsound := System.invariant_of_restrict ThreadState.Sound
    (fun state label hsound henabled hrechecked ↦ hsound.next henabled hrechecked) ?_ hrun
  · refine ⟨fun h ↦ (hsound.deleted h).1, fun h ↦ (hsound.deleted h).2, ?_⟩
    exact fun entry hentry hlate hkind ↦ ((hsound.late entry hentry hlate).2 hkind).1
  · exact ⟨nofun, nofun, nofun, fun _ _ _ _ ↦ rfl⟩

/-- A conversation with a record, without a caller and without sandboxes. -/
def storedThread (sessions : Bool) : ThreadState :=
  .start sessions false [.record] "" (fun _ ↦ false) (fun _ ↦ true) 0

/-- The steps of a deletion that is the first operation and does not wait. -/
def deletionSteps (steps : ℕ) : List ThreadLabel :=
  List.replicate steps (.step 0 false)

/-- With local sessions: an append that is dropped and whose put takes effect, a deletion, an append
that waits for its locks, and one that comes later. -/
theorem deleted_thread_stays_deleted_run : (thread.exec (storedThread true)
      ([.start .deleteConversation, .start .addEvents, .step 1 false, .start .addEvents] ++
        List.replicate 8 (.step 2 false) ++
        [.drop 2 (.put (.event 0)), .land (.put (.event 0))] ++ deletionSteps 16 ++
        [.start .addEvents, .step 1 false, .step 1 false, .step 3 false, .step 3 false,
          .step 3 false])).StaysDeleted :=
  deleted_thread_stays_deleted true false [.record] "" _ _ 0 (by decide +kernel)

/-- A deletion without local sessions, and an artifact that is written later. -/
def lateArtifactRun : List ThreadLabel :=
  [.start .deleteConversation] ++ deletionSteps 13 ++
    [.start .writeArtifact, .step 1 false, .step 1 false, .step 1 false]

/-- **A late artifact brings the directory back.** -/
theorem late_artifact_undeletes : thread.Admits (storedThread false) lateArtifactRun ∧
      ¬(thread.exec (storedThread false) lateArtifactRun).StaysDeleted := by
  refine ⟨by decide +kernel, fun hstays ↦ ?_⟩
  have hkeys := hstays.keys (by decide +kernel)
  revert hkeys
  decide +kernel

end Exo.Threads
