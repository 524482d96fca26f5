import Exo.Threads.Mutators

/-!
# Deleted threads

Almost every mutator looks at `record.json` under a lock that excludes the deletion before it writes,
so after `delete_conversation` has returned true it fails.  Programs are checked against the locks they
hold: a put needs a look at the record that is still covered by a lock, a claim needs an answer that is,
and only the deletion removes the record, with all locks in its hands.  What is left are the steps that
look at nothing: the artifact that `write_artifact` of a conversation puts before it loads the record,
the `caller.json` of `activate_caller`, and the claim of a lease that was owned a moment ago; and the
put of a dropped operation, which no lock covers any more when it takes effect.
-/

namespace Exo.Threads

open Library List

/-- The thread stays deleted: no key, no lease, and no success for an operation that comes later. -/
structure ThreadState.StaysDeleted (state : ThreadState) : Prop where
  keys : state.deleted = true → state.keys = []
  lease : state.deleted = true → state.lease = false
  later : ∀ entry ∈ state.operations, entry.late = true → entry.kind ≠ .deleteConversation →
    entry.outcome ≠ some .returned

/-! ## The condition -/

/-- A put that no look at the record precedes. -/
def Action.isUnchecked : Action → Bool
  | .putUnchecked _ => true
  | .putCaller _ => true
  | _ => false

/-- The deletion lists the keys or removes them. -/
def Action.isDeleteKeys : Action → Bool
  | .deleteKeys _ => true
  | _ => false

/-- The operation returns without a look at the storage: there is no caller to activate, or the turn is
finished. -/
def OperationKind.isVacuous (finished : ℕ → Bool) : OperationKind → Bool
  | .activateCaller none => true
  | .finish turn => finished turn
  | _ => false

/-- The record exists, and nobody lists or removes the keys. -/
def ThreadState.Undisturbed (state : ThreadState) : Prop :=
  .record ∈ state.keys ∧ ∀ entry ∈ state.operations, entry.outcome = none →
    entry.program.head?.any (·.isDeleteKeys) = false

instance (state : ThreadState) : Decidable state.Undisturbed :=
  inferInstanceAs (Decidable (_ ∧ _))

/-- What a step relies on without a look is still true: the record exists and nobody removes the keys
when a put is made unchecked or that of a dropped operation takes effect, and a lease is still owned
when it is claimed as owned.  And without local sessions nothing is called on a deleted thread that
returns without a look. -/
def Rechecked (state : ThreadState) : ThreadLabel → Prop
  | .start kind => state.deleted = true → state.sessions = false →
    kind.isVacuous state.finished = false
  | .step operation _ =>
    ((state.action? operation).any (·.isUnchecked) = true → state.Undisturbed) ∧
    (state.action? operation = some .claimOwned → state.lease = true)
  | .fail _ => True
  | .drop _ _ => True
  | .land (.delete _) => True
  | .land _ => state.Undisturbed

instance (state : ThreadState) (label : ThreadLabel) : Decidable (Rechecked state label) :=
  match label with
  | .start _ => inferInstanceAs (Decidable (_ → _))
  | .step _ _ => inferInstanceAs (Decidable (_ ∧ _))
  | .fail _ => isTrue trivial
  | .drop _ _ => isTrue trivial
  | .land (.delete _) => isTrue trivial
  | .land (.put _) => inferInstanceAs (Decidable state.Undisturbed)
  | .land (.putCaller _) => inferInstanceAs (Decidable state.Undisturbed)

/-! ## Programs and the locks they hold -/

/-- The locks of an operation, and what it knows: that the record was there when it looked, and that
the thread is not deleted. -/
structure Held where
  write : Bool
  resources : Bool
  namespaceLock : Bool
  loaded : Bool
  alive : Bool

/-- Everything that a deletion needs before it removes a key. -/
def Held.Removes (sessions : Bool) (held : Held) : Prop :=
  held.write = true ∧ held.resources = true ∧ (sessions = true → held.namespaceLock = true) ∧
    held.loaded = false ∧ held.alive = true

/-- A program does what it does with the locks and the knowledge that it needs. -/
def Safe (sessions : Bool) : Held → List Action → Prop
  | _, [] => True
  | held, .owns :: rest =>
    held.write = false ∧ held.resources = false ∧ held.namespaceLock = false ∧
      held.loaded = false ∧ held.alive = false ∧ Safe sessions held rest
  | held, .claimOwned :: rest => Safe sessions held rest
  | held, .claim :: rest => held.alive = true ∧ Safe sessions held rest
  | held, .lockNamespace :: rest => Safe sessions { held with namespaceLock := true } rest
  | held, .unlockNamespace :: rest => held.namespaceLock = true ∧
    Safe sessions { held with namespaceLock := false, alive := false } rest
  | held, .requireRecord :: rest => sessions = true ∧ held.namespaceLock = true ∧
    Safe sessions { held with alive := true } rest
  | held, .recover :: rest => held.write = false ∧ held.loaded = false ∧ Safe sessions held rest
  | held, .stopSandbox _ :: rest => held.write = true ∧ Safe sessions held rest
  | held, .recovered :: rest => Safe sessions held rest
  | held, .lockResources :: rest => Safe sessions { held with resources := true } rest
  | held, .lockWrite :: rest => Safe sessions { held with write := true } rest
  | held, .unlockWrite :: rest => held.write = true ∧
    Safe sessions { held with write := false, loaded := false } rest
  | held, .loadRecord :: rest => (held.write = true ∨ held.resources = true) ∧
    Safe sessions { held with loaded := true } rest
  | held, .put _ :: rest => held.loaded = true ∧ Safe sessions held rest
  | held, .appendEvents :: rest => held.loaded = true ∧ Safe sessions held rest
  | held, .putUnchecked _ :: rest => Safe sessions held rest
  | held, .putCaller _ :: rest => Safe sessions held rest
  | held, .stopIfFinished _ :: rest => Safe sessions held rest
  | held, .setFinished _ :: rest => held.loaded = true ∧ Safe sessions held rest
  | held, .stopIfCaller _ :: rest => Safe sessions held rest
  | held, .terminateSandboxes :: rest =>
    held.write = false ∧ held.loaded = false ∧ Safe sessions held rest
  | held, .terminateSandboxesLocked :: rest => held.write = true ∧ Safe sessions held rest
  | held, .loadSandbox _ :: rest => Safe sessions held rest
  | held, .deleteSandbox _ :: rest => held.write = true ∧ Safe sessions held rest
  | held, .sandboxStopped :: rest => held.write = true ∧ Safe sessions held rest
  | held, .stopIfEmpty :: rest => held.resources = true ∧
    Safe sessions { held with alive := true } rest
  | held, .prepare _ :: rest => held.Removes sessions ∧ Safe sessions held rest
  | held, .appendDeleted :: rest => held.write = true ∧ Safe sessions held rest
  | held, .deletePrefix :: rest => held.Removes sessions ∧ rest = [.release, .returnDeleted]
  | _, .bail :: _ => True
  -- the deletion has listed the keys
  | _, .deleteKeys _ :: _ => False
  | _, .release :: _ => False
  | _, .returnDeleted :: _ => False

section Programs
variable {sessions : Bool} {held : Held} {rest : List Action}

theorem safe_deleteLoop (attempts : ℕ) (hwrite : held.write = false)
    (hresources : held.resources = true)
    (hnamespace : sessions = true → held.namespaceLock = true) (hloaded : held.loaded = false) :
    Safe sessions held (deleteLoop attempts) := by
  cases attempts with
  | zero => trivial
  | succ attempts =>
    simp only [deleteLoop, Safe, Held.Removes]
    simp [hwrite, hresources, hloaded]
    exact hnamespace

theorem Held.unlock_eq (held : Held) (hwrite : held.write = false) (hloaded : held.loaded = false) :
    { held with write := false, loaded := false } = held := by
  cases held
  cases hwrite
  cases hloaded
  rfl

/-- Dropping a namespace guard that is not held. -/
theorem Held.unlockNamespace_eq (held : Held) (hnamespace : held.namespaceLock = false)
    (halive : held.alive = false) : { held with namespaceLock := false, alive := false } = held := by
  cases held
  cases hnamespace
  cases halive
  rfl

section
variable (ids : List ℕ) (hwrite : held.write = false) (hloaded : held.loaded = false)
  (hrest : Safe sessions held rest)
include hwrite hloaded hrest

theorem safe_terminateSandbox : Safe sessions held (ids.flatMap terminateSandbox ++ rest) := by
  induction ids with
  | nil => exact hrest
  | cons id ids ih =>
    simp only [flatMap_cons, terminateSandbox, cons_append, nil_append, Safe, true_and]
    rw [held.unlock_eq hwrite hloaded]
    exact ih

theorem safe_recoverSandbox : Safe sessions held (ids.flatMap recoverSandbox ++ rest) := by
  induction ids with
  | nil => exact hrest
  | cons id ids ih =>
    simp only [flatMap_cons, recoverSandbox, cons_append, nil_append, Safe, true_and]
    rw [held.unlock_eq hwrite hloaded]
    exact ih

end

theorem safe_terminateSandboxLocked (ids : List ℕ) (hwrite : held.write = true)
    (hrest : Safe sessions held rest) :
    Safe sessions held (ids.flatMap terminateSandboxLocked ++ rest) := by
  induction ids with
  | nil => exact hrest
  | cons id ids ih => exact ⟨hwrite, hwrite, ih⟩

theorem safe_program (sessions : Bool) (operation : ℕ) (kind : OperationKind) :
    Safe sessions ⟨false, false, false, false, false⟩ (kind.program sessions operation) := by
  cases kind with
  | deleteConversation =>
    cases sessions with
    | true => exact ⟨rfl, rfl, safe_deleteLoop 5 rfl rfl (fun _ ↦ rfl) rfl⟩
    | false => exact ⟨rfl, safe_deleteLoop 5 rfl rfl nofun rfl⟩
  | updateEnvironment changes replaces =>
    cases changes <;> cases replaces <;>
      simp [OperationKind.program, updateEnvironment, Safe]
  | activateCaller caller =>
    cases caller <;> simp [OperationKind.program, activateCaller, Safe]
  | _ =>
    simp [OperationKind.program, appendEventsInternal, turnWriteArtifact, finish, writeArtifact,
      attachVaults, saveQueue, Safe]

end Programs

/-! ## The invariant -/

namespace ThreadState

variable (state : ThreadState)

section
variable (operation : ℕ)

/-- The locks that an operation holds in a state. -/
def held (loaded alive : Bool) : Held :=
  ⟨state.writeLock == some operation, state.resources == some operation,
    state.namespaceLock == some operation, loaded, alive⟩

/-- A thread on which an operation knows something is not deleted, and a lock that it holds keeps it
so. -/
def Covers (loaded alive : Bool) : Prop :=
  (loaded = true → state.deleted = false ∧
    (state.writeLock = some operation ∨ state.resources = some operation)) ∧
  (alive = true → state.deleted = false ∧ (state.resources = some operation ∨
    state.sessions = true ∧ state.namespaceLock = some operation))

/-- Every lock is in the hands of the operation. -/
def HoldsAll : Prop :=
  state.writeLock = some operation ∧ state.resources = some operation ∧
    (state.sessions = true → state.namespaceLock = some operation)

/-- What is left of the keys while a deletion removes them. -/
def Removing : List Action → Prop
  | [.deleteKeys keys, .release, .returnDeleted] => ∀ key ∈ state.keys, key ∈ keys
  | [.release, .returnDeleted] => state.keys = []
  | [.returnDeleted] => state.keys = [] ∧ state.lease = false
  | _ => False

/-- A running operation has a safe program, or is a deletion that removes the keys. -/
def Runs (program : List Action) : Prop :=
  (∃ loaded alive, state.Covers operation loaded alive ∧
    Safe state.sessions (state.held operation loaded alive) program) ∨
  state.HoldsAll operation ∧ state.Removing program

end

end ThreadState

/-- A program that cannot return on a deleted thread: it has to look at the record first. -/
def Blocked (sessions : Bool) (finished : ℕ → Bool) : List Action → Prop
  | [] => False
  | .owns :: rest => sessions = true ∨ Blocked sessions finished rest
  | .claimOwned :: _ => True
  | .requireRecord :: _ => True
  | .loadRecord :: _ => True
  | .putUnchecked _ :: _ => True
  | .putCaller _ :: _ => True
  | .stopIfFinished turn :: rest => finished turn = false ∧ Blocked sessions finished rest
  | _ :: rest => Blocked sessions finished rest

/-- Every other operation starts with a program that has to look, unless it is vacuous. -/
theorem blocked_program {sessions : Bool} {finished : ℕ → Bool} {kind : OperationKind}
    (hkind : kind ≠ .deleteConversation)
    (hlooks : sessions = false → kind.isVacuous finished = false) (operation : ℕ) :
    Blocked sessions finished (kind.program sessions operation) := by
  cases hsessions : sessions with
  | true =>
    cases kind with
    | deleteConversation => exact absurd rfl hkind
    | activateCaller caller => cases caller <;> exact .inl rfl
    | saveQueue => trivial
    | _ => exact .inl rfl
  | false =>
    cases kind with
    | deleteConversation => exact absurd rfl hkind
    | activateCaller caller =>
      cases caller with
      | none => cases hlooks hsessions
      | some principal => exact .inr trivial
    | finish turn => exact .inr ⟨hlooks hsessions, trivial⟩
    | saveQueue => trivial
    | _ => exact .inr trivial

/-- An operation that came after the deletion does not succeed. -/
def Operation.Fails (state : ThreadState) (entry : Operation) : Prop :=
  entry.late = true → state.deleted = true ∧ (entry.kind ≠ .deleteConversation →
    entry.outcome ≠ some .returned ∧
      (entry.outcome = none → Blocked state.sessions state.finished entry.program))

structure ThreadState.Sound (state : ThreadState) : Prop where
  runs : ∀ operation entry, state.operations[operation]? = some entry → entry.outcome = none →
    state.Runs operation entry.program
  deleted : state.deleted = true → state.keys = [] ∧ state.lease = false
  late : ∀ entry ∈ state.operations, entry.Fails state
  holders : ∀ operation, state.operations.length ≤ operation → ∀ loaded alive,
    state.held operation loaded alive = ⟨false, false, false, loaded, alive⟩

section Frame
variable {state after : ThreadState} {operation : ℕ} {entry : Operation}
  {change : Operation → Operation} {other : ℕ}

theorem held_eq_iff {loaded alive : Bool} :
    after.held other loaded alive = state.held other loaded alive ↔
      (after.writeLock = some other ↔ state.writeLock = some other) ∧
        (after.resources = some other ↔ state.resources = some other) ∧
        (after.namespaceLock = some other ↔ state.namespaceLock = some other) := by
  have hlock : ∀ {first second : Option ℕ}, (first == some other) = (second == some other) ↔
      (first = some other ↔ second = some other) := by
    intro first second
    rw [Bool.eq_iff_iff, beq_iff_eq, beq_iff_eq]
  simp only [ThreadState.held, Held.mk.injEq, hlock, and_true]

theorem deleted_of_mem (hentry : entry ∈ state.operations)
    (houtcome : entry.outcome = some .deleted) : state.deleted = true :=
  any_eq_true.2 ⟨entry, hentry, by simp [houtcome]⟩

section
variable (hentry : state.operations[operation]? = some entry)
include hentry

/-- A running operation is not a deletion that has returned, so changing it keeps the others. -/
theorem deleted_mono (hrunning : entry.outcome = none)
    (hoperations : after.operations = state.operations.modify operation change)
    (hdeleted : state.deleted = true) : after.deleted = true := by
  obtain ⟨other, hother, houtcome⟩ := any_eq_true.1 hdeleted
  obtain ⟨index, hindex⟩ := mem_iff_getElem?.1 hother
  have hne : operation ≠ index := by
    intro hsame
    rw [← hsame, hentry] at hindex
    cases hindex
    rw [hrunning] at houtcome
    cases houtcome
  refine any_eq_true.2 ⟨other, ?_, houtcome⟩
  refine mem_of_getElem? (i := index) ?_
  rw [hoperations, getElem?_modify_ne _ _ hne, hindex]

/-- A change of one operation deletes the thread only if that operation returns so. -/
theorem deleted_modify (hoperations : after.operations = state.operations.modify operation change)
    (hdeleted : after.deleted = true) :
    state.deleted = true ∨ (change entry).outcome = some .deleted := by
  obtain ⟨other, hother, houtcome⟩ := any_eq_true.1 hdeleted
  obtain ⟨index, hindex⟩ := mem_iff_getElem?.1 hother
  rw [hoperations] at hindex
  by_cases hsame : operation = index
  · rw [← hsame, getElem?_modify_eq, hentry] at hindex
    cases hindex
    exact .inr (by simpa using houtcome)
  · rw [getElem?_modify_ne _ _ hsame] at hindex
    exact .inl (deleted_of_mem (mem_of_getElem? hindex) (by simpa using houtcome))

end

/-- What a step of one operation may do to a thread, and what has to be shown for the operation
itself. -/
structure Advances (state after : ThreadState) (operation : ℕ) (entry : Operation)
    (change : Operation → Operation) : Prop where
  operations : after.operations = state.operations.modify operation change
  kind : (change entry).kind = entry.kind
  late : (change entry).late = entry.late
  sessions : after.sessions = state.sessions
  held : ∀ other, other ≠ operation → ∀ loaded alive,
    after.held other loaded alive = state.held other loaded alive
  put : ∀ key ∈ after.keys, key ∈ state.keys ∨ (state.deleted = false ∧
    (state.writeLock = some operation ∨ state.resources = some operation ∨ state.Undisturbed))
  lease : after.lease = true → state.lease = true ∨ (state.deleted = false ∧
    (state.resources = some operation ∨
      state.sessions = true ∧ state.namespaceLock = some operation))
  deleted : (change entry).outcome = some .deleted → after.keys = [] ∧ after.lease = false ∧
    state.HoldsAll operation
  finished : state.deleted = true → after.finished = state.finished
  runs : (change entry).outcome = none → after.Runs operation (change entry).program
  fails : (change entry).Fails after

theorem ThreadState.Undisturbed.not_removing (hundisturbed : state.Undisturbed)
    (hentry : state.operations[other]? = some entry) (hrunning : entry.outcome = none) :
    ¬state.Removing entry.program := by
  obtain ⟨hrecord, hnobody⟩ := hundisturbed
  intro hremoving
  have hhead := hnobody entry (mem_of_getElem? hentry) hrunning
  unfold ThreadState.Removing at hremoving
  split at hremoving
  · rename_i hlisted
    rw [hlisted] at hhead
    cases hhead
  · rw [hremoving] at hrecord
    cases hrecord
  · rw [hremoving.1] at hrecord
    cases hrecord
  · cases hremoving

theorem ThreadState.Removing.mono {program : List Action} (hremoving : state.Removing program)
    (hkeys : ∀ key ∈ after.keys, key ∈ state.keys)
    (hlease : state.lease = false → after.lease = false) : after.Removing program := by
  have hempty : state.keys = [] → after.keys = [] := by
    intro hnone
    rw [hnone] at hkeys
    exact eq_nil_iff_forall_not_mem.2 fun key hkey ↦ not_mem_nil (hkeys key hkey)
  unfold ThreadState.Removing at hremoving ⊢
  split at hremoving
  · exact fun key hkey ↦ hremoving key (hkeys key hkey)
  · exact hempty hremoving
  · exact ⟨hempty hremoving.1, hlease hremoving.2⟩
  · exact hremoving

section
variable (hadvances : Advances state after operation entry change) (hother : other ≠ operation)
include hadvances hother

/-- The keys while another operation removes them: none is added. -/
theorem Advances.mem_keys {removing : Operation}
    (hremoving : state.operations[other]? = some removing) (hrunning : removing.outcome = none)
    (hholds : state.HoldsAll other) (hprogram : state.Removing removing.program) {key : ThreadKey}
    (hkey : key ∈ after.keys) : key ∈ state.keys := by
  have hexcluded : ∀ {lock : Option ℕ}, lock = some other → lock ≠ some operation := by
    intro lock hlock hsame
    rw [hlock] at hsame
    exact hother (Option.some.inj hsame)
  rcases hadvances.put key hkey with hold | ⟨-, hwriter | hwriter | hundisturbed⟩
  · exact hold
  · exact absurd hwriter (hexcluded hholds.1)
  · exact absurd hwriter (hexcluded hholds.2.1)
  · exact absurd hprogram (hundisturbed.not_removing hremoving hrunning)

/-- The lease while another operation returns from a deletion. -/
theorem Advances.lease_eq (hholds : state.HoldsAll other) (hlease : state.lease = false) :
    after.lease = false := by
  by_contra htrue
  rcases hadvances.lease (by simpa using htrue) with hold | ⟨-, hheld | ⟨hsessions, hheld⟩⟩
  · rw [hlease] at hold
    cases hold
  · rw [hholds.2.1] at hheld
    exact hother (Option.some.inj hheld)
  · rw [hholds.2.2 hsessions] at hheld
    exact hother (Option.some.inj hheld)

/-- The other operations keep their locks. -/
theorem Advances.locks : (after.writeLock = some other ↔ state.writeLock = some other) ∧
      (after.resources = some other ↔ state.resources = some other) ∧
      (after.namespaceLock = some other ↔ state.namespaceLock = some other) :=
  held_eq_iff.1 (hadvances.held other hother true true)

end

/-- What another operation knows stays true. -/
theorem Advances.covers (hentry : state.operations[operation]? = some entry)
    (hadvances : Advances state after operation entry change) (hother : other ≠ operation)
    {loaded alive : Bool} (hcovers : state.Covers other loaded alive) :
    after.Covers other loaded alive := by
  obtain ⟨hwrite, hresources, hnamespace⟩ := hadvances.locks hother
  have hnot : ∀ {lock : Option ℕ}, lock = some operation → lock ≠ some other := by
    intro lock hlock hsame
    rw [hlock] at hsame
    exact hother (Option.some.inj hsame).symm
  -- only the holder of all locks returns from a deletion
  have hdeleted : state.deleted = false → (state.HoldsAll operation → False) →
      after.deleted = false := by
    intro hdeleted hexcluded
    by_contra hnow
    rcases deleted_modify hentry hadvances.operations (by simpa using hnow) with hbefore | hreturns
    · rw [hdeleted] at hbefore
      cases hbefore
    · exact hexcluded (hadvances.deleted hreturns).2.2
  constructor
  · intro hloaded
    obtain ⟨hbefore, hlock⟩ := hcovers.1 hloaded
    refine ⟨hdeleted hbefore fun hholds ↦ ?_, hlock.imp hwrite.2 hresources.2⟩
    rcases hlock with hlock | hlock
    · exact hnot hholds.1 hlock
    · exact hnot hholds.2.1 hlock
  · intro halive
    obtain ⟨hbefore, hlock⟩ := hcovers.2 halive
    rw [hadvances.sessions]
    refine ⟨hdeleted hbefore fun hholds ↦ ?_, hlock.imp hresources.2 (And.imp_right hnamespace.2)⟩
    rcases hlock with hlock | ⟨hsessions, hlock⟩
    · exact hnot hholds.2.1 hlock
    · exact hnot (hholds.2.2 hsessions) hlock

section
variable (hsound : state.Sound) (hentry : state.operations[operation]? = some entry)
include hsound hentry

section
variable (hadvances : Advances state after operation entry change)
include hadvances

/-- The other operations keep their programs, their locks and what they know. -/
theorem Advances.runs_other {running : Operation} (hother : other ≠ operation)
    (hrunning : state.operations[other]? = some running) (houtcome : running.outcome = none) :
    after.Runs other running.program := by
  rcases hsound.runs other running hrunning houtcome with
    ⟨loaded, alive, hcovers, hsafe⟩ | ⟨hholds, hremoving⟩
  · refine .inl ⟨loaded, alive, hadvances.covers hentry hother hcovers, ?_⟩
    rw [hadvances.sessions, hadvances.held other hother]
    exact hsafe
  · obtain ⟨hwrite, hresources, hnamespace⟩ := hadvances.locks hother
    refine .inr ⟨⟨hwrite.2 hholds.1, hresources.2 hholds.2.1, fun hsessions ↦ ?_⟩, ?_⟩
    · rw [hadvances.sessions] at hsessions
      exact hnamespace.2 (hholds.2.2 hsessions)
    · exact hremoving.mono (fun key ↦ hadvances.mem_keys hother hrunning houtcome hholds hremoving)
        (hadvances.lease_eq hother hholds)

/-- A deleted thread gets neither a key nor the lease. -/
theorem Advances.deleted_sound
    (hdeleted : after.deleted = true) : after.keys = [] ∧ after.lease = false := by
  rcases deleted_modify hentry hadvances.operations hdeleted with hbefore | hreturns
  · obtain ⟨hkeys, hlease⟩ := hsound.deleted hbefore
    constructor
    · refine eq_nil_iff_forall_not_mem.2 fun key hkey ↦ ?_
      rcases hadvances.put key hkey with hold | ⟨hfalse, -⟩
      · rw [hkeys] at hold
        cases hold
      · rw [hbefore] at hfalse
        cases hfalse
    · by_contra htrue
      rcases hadvances.lease (by simpa using htrue) with hold | ⟨hfalse, -⟩
      · rw [hlease] at hold
        cases hold
      · rw [hbefore] at hfalse
        cases hfalse
  · obtain ⟨hkeys, hlease, -⟩ := hadvances.deleted hreturns
    exact ⟨hkeys, hlease⟩

end

theorem Advances.sound (hrunning : entry.outcome = none)
    (hadvances : Advances state after operation entry change) : after.Sound := by
  have hlookup : ∀ other found, after.operations[other]? = some found →
      (other = operation ∧ found = change entry) ∨
        other ≠ operation ∧ state.operations[other]? = some found := by
    intro other found hfound
    rw [hadvances.operations] at hfound
    by_cases hsame : operation = other
    · rw [← hsame, List.getElem?_modify_eq, hentry] at hfound
      cases hfound
      exact .inl ⟨hsame.symm, rfl⟩
    · rw [List.getElem?_modify_ne _ _ hsame] at hfound
      exact .inr ⟨Ne.symm hsame, hfound⟩
  refine ⟨fun other found hfound houtcome ↦ ?_, hadvances.deleted_sound hsound hentry,
    fun found hfound ↦ ?_, fun other hother loaded alive ↦ ?_⟩
  · rcases hlookup other found hfound with ⟨hsame, hchange⟩ | ⟨hother, hbefore⟩
    · rw [hsame, hchange]
      rw [hchange] at houtcome
      exact hadvances.runs houtcome
    · exact hadvances.runs_other hsound hentry hother hbefore houtcome
  · obtain ⟨other, hindex⟩ := List.mem_iff_getElem?.1 hfound
    rcases hlookup other found hindex with ⟨-, hchange⟩ | ⟨-, hbefore⟩
    · rw [hchange]
      exact hadvances.fails
    · intro hlate
      obtain ⟨hdeleted, hfails⟩ := hsound.late found (List.mem_of_getElem? hbefore) hlate
      refine ⟨deleted_mono hentry hrunning hadvances.operations hdeleted, fun hkind ↦ ?_⟩
      obtain ⟨houtcome, hblocked⟩ := hfails hkind
      refine ⟨houtcome, fun hnone ↦ ?_⟩
      rw [hadvances.sessions, hadvances.finished hdeleted]
      exact hblocked hnone
  · rw [hadvances.operations, List.length_modify] at hother
    have hlt := (List.getElem?_eq_some_iff.1 hentry).1
    rw [hadvances.held other (Nat.ne_of_gt (Nat.lt_of_lt_of_le hlt hother))]
    exact hsound.holders other hother loaded alive

end

end Frame

end Exo.Threads
