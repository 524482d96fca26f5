import Exo.Library.System

/-!
# The adapter record

Five calls read the record of an adapter, change a few fields and write the whole copy back, and a
sixth reads it and removes its file.  Nothing compares the copy with what is stored when it is
written.  So a copy that was read before a disable or a delete carries the old word back, and these
writes are the only way in which a disabled adapter is enabled again behind the user's back or a
deleted one comes back.
-/

namespace Exo.Adapters

open Library List

inductive AdapterLifecycleState where
  | starting
  | running
  | disabled
  | error

/-- The fields of the record that the calls below change; the others are carried along. -/
structure AdapterRecord where
  id : String
  enabled : Bool
  lifecycleState : AdapterLifecycleState
  updatedAtMs : ℕ
  lastConnectedAtMs : Option ℕ
  lastError : Option String

inductive AdapterEventType where
  | connected
  | disconnected
  | inbound
  | outbound
  | error
  | lifecycle
  deriving DecidableEq

structure AdapterEventRecord where
  id : String
  adapterId : String
  eventType : AdapterEventType
  createdAtMs : ℕ
  summary : String
  deriving DecidableEq

/-- The calls that work on the record of one adapter. -/
inductive RecordCall where
  | disableAdapter
  | enableAdapter
  | deleteAdapter
  | markConnected
  | markError (error : String)
  | recordEvent (event : AdapterEventRecord)
  deriving DecidableEq

/-- What a call makes of the copy it read; `delete_adapter` writes nothing. -/
def RecordCall.edit (call : RecordCall) (nowMs : ℕ) (adapter : AdapterRecord) : AdapterRecord :=
  match call with
  | .disableAdapter =>
    { adapter with enabled := false, lifecycleState := .disabled, updatedAtMs := nowMs }
  | .enableAdapter =>
    { adapter with
      enabled := true, lifecycleState := .starting, lastError := none, updatedAtMs := nowMs }
  | .deleteAdapter => adapter
  | .markConnected =>
    { adapter with
      lastConnectedAtMs := some nowMs, lastError := none, lifecycleState := .running,
      updatedAtMs := nowMs }
  | .markError error =>
    { adapter with lastError := some error, lifecycleState := .error, updatedAtMs := nowMs }
  | .recordEvent _ => { adapter with updatedAtMs := nowMs }

/-- How many disables and deletes were done at some moment. -/
structure Done where
  disables : ℕ
  deletes : ℕ

/-- A call between two of its file steps. -/
inductive Pending where
  /-- `record_event` has written its event and will read the record. -/
  | reading (event : AdapterEventRecord)
  /-- The call holds the copy it read when `seen` was done. -/
  | holding (call : RecordCall) (copy : AdapterRecord) (seen : Done)
  /-- `delete_adapter` has removed the record and will remove the directories. -/
  | sweeping

/-- The files of one adapter and the calls in flight.  `off` says that a disable was done and
`enable_adapter` was not called since. -/
structure AdapterFiles where
  stored : Option AdapterRecord
  events : List AdapterEventRecord
  calls : List Pending
  off : Bool
  done : Done

/-- A call starts, or a call in flight takes its next file step or ends early by a crash. -/
inductive RecordLabel where
  | call (call : RecordCall)
  | resume (index nowMs : ℕ)
  | abandon (index : ℕ)

namespace AdapterFiles

variable (files : AdapterFiles)

section
variable (call : RecordCall)

/-- A disable or a delete is done. -/
def finish : AdapterFiles :=
  match call with
  | .disableAdapter =>
    { files with off := true, done := { files.done with disables := files.done.disables + 1 } }
  | .deleteAdapter => { files with done := { files.done with deletes := files.done.deletes + 1 } }
  | _ => files

/-- `get_adapter`, after which the call holds its copy or returns `None`. -/
def read : AdapterFiles × Option Pending :=
  match files.stored with
  | none => (files.finish call, none)
  | some adapter => (files, some (.holding call adapter files.done))

/-- `put_adapter`, or the removal of the file. -/
def write (nowMs : ℕ) (copy : AdapterRecord) : AdapterFiles × Option Pending :=
  match call with
  | .deleteAdapter => ({ files with stored := none }.finish call, some .sweeping)
  | _ => ({ files with stored := some (call.edit nowMs copy) }.finish call, none)

/-- The first file step of a call. -/
def start : AdapterFiles × Option Pending :=
  match call with
  | .recordEvent event => ({ files with events := files.events ++ [event] }, some (.reading event))
  | .enableAdapter => { files with off := false }.read call
  | _ => files.read call

end

/-- The next file step of a call in flight. -/
def resume (nowMs : ℕ) : Pending → AdapterFiles × Option Pending
  | .reading event => files.read (.recordEvent event)
  | .holding call copy _ => files.write call nowMs copy
  | .sweeping => ({ files with events := [] }, none)

end AdapterFiles

/-- Any calls on one adapter, file step by file step. -/
def recordCalls : System AdapterFiles RecordLabel where
  enabled files
    | .call _ => True
    | .resume index _ => index < files.calls.length
    | .abandon index => index < files.calls.length
  next files
    | .call call =>
      let (after, pending) := files.start call
      { after with calls := files.calls ++ pending.toList }
    | .resume index nowMs =>
      match files.calls[index]? with
      | none => files
      | some pending =>
        let (after, rest) := files.resume nowMs pending
        { after with calls := files.calls.eraseIdx index ++ rest.toList }
    | .abandon index => { files with calls := files.calls.eraseIdx index }

instance (files : AdapterFiles) (label : RecordLabel) :
    Decidable (recordCalls.enabled files label) :=
  match label with
  | .call _ => isTrue trivial
  | .resume index _ => inferInstanceAs (Decidable (index < files.calls.length))
  | .abandon index => inferInstanceAs (Decidable (index < files.calls.length))

section
variable (files : AdapterFiles)

/-- An adapter that is off is stored as disabled, and a deleted one is not stored. -/
def RecordSticks : Prop :=
  (files.off = true → ∀ adapter ∈ files.stored, adapter.enabled = false) ∧
  (0 < files.done.deletes → files.stored = none)

instance (files : AdapterFiles) : Decidable (RecordSticks files) :=
  inferInstanceAs (Decidable ((_ → _) ∧ (_ → _)))

/-- The call in flight does not write a copy that was read before a delete, and while the adapter is
off no enabled one that was read before it was disabled. -/
def Pending.WritesCurrent (nowMs : ℕ) : Pending → Prop
  | .holding call copy seen => call ≠ .deleteAdapter → seen.deletes = files.done.deletes ∧
      ((call.edit nowMs copy).enabled = true → files.off = true →
        seen.disables = files.done.disables)
  | _ => True

instance (files : AdapterFiles) (nowMs : ℕ) (pending : Pending) :
    Decidable (pending.WritesCurrent files nowMs) :=
  match pending with
  | .reading _ => isTrue trivial
  | .holding _ _ _ => inferInstanceAs (Decidable (_ → _ ∧ (_ → _ → _)))
  | .sweeping => isTrue trivial

def WritesCurrent : RecordLabel → Prop
  | .resume index nowMs => ∀ pending ∈ files.calls[index]?, pending.WritesCurrent files nowMs
  | _ => True

end

instance (files : AdapterFiles) (label : RecordLabel) : Decidable (WritesCurrent files label) :=
  match label with
  | .call _ => isTrue trivial
  | .resume index nowMs => inferInstanceAs (Decidable
      (∀ pending ∈ files.calls[index]?, pending.WritesCurrent files nowMs))
  | .abandon _ => isTrue trivial

/-- Whether the record a call writes is enabled, from whether its copy is. -/
def RecordCall.leaves (call : RecordCall) (enabled : Bool) : Bool :=
  match call with
  | .disableAdapter => false
  | .enableAdapter => true
  | _ => enabled

@[simp]
theorem edit_enabled (call : RecordCall) (nowMs : ℕ) (copy : AdapterRecord) :
    (call.edit nowMs copy).enabled = call.leaves copy.enabled := by
  cases call <;> rfl

/-- A copy that could bring an enabled record back was read before the last disable, if the adapter
is off now; and no copy was read after a delete. -/
def Pending.Current (files : AdapterFiles) : Pending → Prop
  | .holding call copy seen =>
    seen.deletes = 0 ∧ seen.disables ≤ files.done.disables ∧
      (call.leaves copy.enabled = true → seen.disables = files.done.disables → files.off = false)
  | _ => True

/-- The user's word holds so far, and the copies in flight are current. -/
structure RecordHeld (files : AdapterFiles) : Prop where
  sticks : RecordSticks files
  copies : ∀ pending ∈ files.calls, pending.Current files

/-- The adapter is off later only if it was off before or has been disabled since. -/
def AdapterFiles.Precedes (files later : AdapterFiles) : Prop :=
  files.done.disables < later.done.disables ∨
    files.done.disables = later.done.disables ∧ (later.off = true → files.off = true)

section Steps
variable {files later : AdapterFiles} {call : RecordCall} {pending : Pending}

theorem Pending.Current.mono (hcurrent : pending.Current files) (hlater : files.Precedes later) :
    pending.Current later := by
  cases pending with
  | reading event => trivial
  | sweeping => trivial
  | holding call copy seen =>
    obtain ⟨hdeletes, hdisables, hoff⟩ := hcurrent
    refine ⟨hdeletes, ?_, fun hleaves hsame ↦ ?_⟩
    · obtain hless | ⟨hsame, -⟩ := hlater <;> omega
    · obtain hless | ⟨hdone, hstill⟩ := hlater
      · omega
      · have hwas := hoff hleaves (by omega)
        simpa [hwas] using hstill

section
variable (call : RecordCall)

theorem precedes_finish : files.Precedes (files.finish call) := by
  cases call
  case disableAdapter => exact .inl (Nat.lt_succ_self _)
  all_goals exact .inr ⟨rfl, id⟩

theorem stored_finish : (files.finish call).stored = files.stored := by
  cases call <;> rfl

theorem sticks_of_stored_none (hstored : files.stored = none) : RecordSticks files := by
  rw [RecordSticks, hstored]
  exact ⟨by simp, fun _ ↦ rfl⟩

/-- Reading keeps the user's word, and the copy is current unless it is one to enable. -/
theorem read_spec (hsticks : RecordSticks files)
    (henable : call = .enableAdapter → files.off = false) :
    RecordSticks (files.read call).1 ∧ files.Precedes (files.read call).1 ∧
      ∀ pending ∈ (files.read call).2, pending.Current (files.read call).1 := by
  unfold AdapterFiles.read
  cases hstored : files.stored with
  | none =>
    refine ⟨sticks_of_stored_none ?_, precedes_finish call, by simp⟩
    rw [stored_finish, hstored]
  | some adapter =>
    refine ⟨hsticks, .inr ⟨rfl, id⟩, ?_⟩
    rintro pending ⟨⟩
    refine ⟨?_, Nat.le_refl _, fun hleaves _ ↦ ?_⟩
    · by_contra hdeletes
      have hnone := hsticks.2 (Nat.pos_of_ne_zero hdeletes)
      rw [hstored] at hnone
      cases hnone
    · by_contra hoff
      have hdisabled := hsticks.1 (by simpa using hoff) adapter hstored
      cases call <;> simp_all [RecordCall.leaves]

end

variable {nowMs : ℕ} {copy : AdapterRecord}

/-- A write keeps the user's word exactly when it is current. -/
theorem write_sticks_iff {seen : Done} (hcurrent : (Pending.holding call copy seen).Current files)
    (hcall : call ≠ .deleteAdapter) :
    RecordSticks (files.write call nowMs copy).1 ↔
      seen.deletes = files.done.deletes ∧
        ((call.edit nowMs copy).enabled = true → files.off = true →
          seen.disables = files.done.disables) := by
  obtain ⟨hdeletes, -, hoff⟩ := hcurrent
  have hwrite : files.write call nowMs copy =
      ({ files with stored := some (call.edit nowMs copy) }.finish call, none) := by
    cases call <;> first | rfl | exact absurd rfl hcall
  rw [hwrite, RecordSticks, stored_finish, edit_enabled]
  simp only [Option.mem_some_iff, forall_eq', edit_enabled, reduceCtorEq, imp_false]
  rw [and_comm]
  refine and_congr ?_ ?_
  · have hdone : ({ files with stored := some (call.edit nowMs copy) }.finish call).done.deletes =
        files.done.deletes := by
      cases call <;> first | rfl | exact absurd rfl hcall
    rw [hdone, hdeletes]
    omega
  · by_cases hdisable : call = .disableAdapter
    · subst hdisable
      simp [RecordCall.leaves]
    · have hsame : ({ files with stored := some (call.edit nowMs copy) }.finish call).off =
          files.off := by
        cases call <;> first | rfl | exact absurd rfl hdisable
      rw [hsame]
      constructor
      · intro h hon hisOff
        rw [h hisOff] at hon
        cases hon
      · intro h hisOff
        by_contra hon
        have hon' : call.leaves copy.enabled = true := by simpa using hon
        have hnot := hoff hon' (h hon' hisOff)
        rw [hisOff] at hnot
        cases hnot

theorem precedes_write : files.Precedes (files.write call nowMs copy).1 := by
  cases call
  case disableAdapter => exact .inl (Nat.lt_succ_self _)
  all_goals exact .inr ⟨rfl, id⟩

theorem write_pending : ∀ pending ∈ (files.write call nowMs copy).2, pending = .sweeping := by
  cases call <;> simp [AdapterFiles.write]

theorem start_spec (call : RecordCall) (hsticks : RecordSticks files) :
    RecordSticks (files.start call).1 ∧ files.Precedes (files.start call).1 ∧
      ∀ pending ∈ (files.start call).2, pending.Current (files.start call).1 := by
  cases call with
  | recordEvent event =>
    refine ⟨hsticks, .inr ⟨rfl, id⟩, ?_⟩
    rintro pending ⟨⟩
    trivial
  | enableAdapter =>
    have hoff : RecordSticks { files with off := false } := ⟨by simp, hsticks.2⟩
    obtain ⟨hnext, hlater, hcopy⟩ := read_spec .enableAdapter hoff fun _ ↦ rfl
    refine ⟨hnext, ?_, hcopy⟩
    obtain hless | ⟨hsame, hstill⟩ := hlater
    · exact .inl hless
    · exact .inr ⟨hsame, fun h ↦ absurd (hstill h) (by simp)⟩
  | disableAdapter | deleteAdapter | markConnected | markError error =>
    exact read_spec _ hsticks (by simp)

section
variable (hheld : RecordHeld files)
include hheld

theorem RecordHeld.resume_sticks_iff (hpending : pending ∈ files.calls) :
    RecordSticks (files.resume nowMs pending).1 ↔ pending.WritesCurrent files nowMs := by
  cases pending with
  | reading event => exact iff_of_true (read_spec _ hheld.sticks (by simp)).1 trivial
  | sweeping => exact iff_of_true hheld.sticks trivial
  | holding call copy seen =>
    by_cases hcall : call = .deleteAdapter
    · subst hcall
      exact iff_of_true (sticks_of_stored_none rfl) fun hne ↦ absurd rfl hne
    · rw [Pending.WritesCurrent, ← write_sticks_iff (hheld.copies _ hpending) hcall]
      exact ⟨fun h _ ↦ h, fun h ↦ h hcall⟩

theorem RecordHeld.resume_copies (nowMs : ℕ) (pending : Pending) :
    files.Precedes (files.resume nowMs pending).1 ∧
      ∀ rest ∈ (files.resume nowMs pending).2, rest.Current (files.resume nowMs pending).1 := by
  cases pending with
  | reading event => exact (read_spec _ hheld.sticks (by simp)).2
  | sweeping => exact ⟨.inr ⟨rfl, id⟩, by simp [AdapterFiles.resume]⟩
  | holding call copy seen =>
    refine ⟨precedes_write, fun rest hrest ↦ ?_⟩
    rw [write_pending rest hrest]
    trivial

/-- Under the invariant, the steps that leave the user's word standing are the current writes. -/
theorem RecordHeld.sticks_iff {label : RecordLabel}
    (henabled : recordCalls.enabled files label) :
    RecordSticks (recordCalls.next files label) ↔ WritesCurrent files label := by
  cases label with
  | call call => exact iff_of_true (start_spec call hheld.sticks).1 trivial
  | abandon index => exact iff_of_true hheld.sticks trivial
  | resume index nowMs =>
    obtain ⟨pending, hpending⟩ : ∃ pending, files.calls[index]? = some pending :=
      ⟨_, getElem?_eq_getElem henabled⟩
    simp only [recordCalls, WritesCurrent, hpending, Option.mem_some_iff, forall_eq']
    exact hheld.resume_sticks_iff (mem_of_getElem? hpending)

theorem RecordHeld.step {label : RecordLabel}
    (henabled : recordCalls.enabled files label) (hcurrent : WritesCurrent files label) :
    RecordHeld (recordCalls.next files label) := by
  refine ⟨(hheld.sticks_iff henabled).2 hcurrent, ?_⟩
  cases label with
  | call call =>
    obtain ⟨-, hlater, hcopy⟩ := start_spec call hheld.sticks
    intro pending hpending
    rcases mem_append.1 hpending with hold | hnew
    · exact (hheld.copies pending hold).mono hlater
    · exact hcopy pending (Option.mem_toList.1 hnew)
  | abandon index =>
    intro pending hpending
    exact hheld.copies pending (mem_of_mem_eraseIdx hpending)
  | resume index nowMs =>
    obtain ⟨taken, htaken⟩ : ∃ pending, files.calls[index]? = some pending :=
      ⟨_, getElem?_eq_getElem henabled⟩
    obtain ⟨hlater, hcopy⟩ := hheld.resume_copies nowMs taken
    simp only [recordCalls, htaken]
    intro pending hpending
    rcases mem_append.1 hpending with hold | hnew
    · exact (hheld.copies pending (mem_of_mem_eraseIdx hold)).mono hlater
    · exact hcopy pending (Option.mem_toList.1 hnew)

end

end Steps

section
variable (stored : Option AdapterRecord) (events : List AdapterEventRecord)

/-- The files of an adapter on which no call is running. -/
def AdapterFiles.initial : AdapterFiles := ⟨stored, events, [], false, ⟨0, 0⟩⟩

/-- **Disabling and deleting an adapter stick.**  In every interleaving of the file steps of any
calls on an adapter: after each step an adapter that was disabled, and not enabled since, is stored
as disabled, and a deleted one is not stored, if and only if no step writes back a copy from before
the delete, or an enabled one from before the disable. -/
theorem adapter_sticks_iff_writesCurrent {labels : List RecordLabel}
    (hrun : recordCalls.Admits (.initial stored events) labels) :
    recordCalls.Throughout (fun files label ↦ RecordSticks (recordCalls.next files label))
        (.initial stored events) labels ↔
      recordCalls.Throughout WritesCurrent (.initial stored events) labels := by
  refine System.throughout_congr RecordHeld ?_ ?_ ⟨?_, by simp [AdapterFiles.initial]⟩ hrun
  · exact fun files label hheld henabled ↦ hheld.sticks_iff henabled
  · exact fun files label hheld henabled hcurrent ↦ hheld.step henabled hcurrent
  · exact ⟨by simp [AdapterFiles.initial], fun hpos ↦ absurd hpos (Nat.lt_irrefl 0)⟩

end

/-- The record of a running adapter. -/
def runningAdapter : AdapterRecord := ⟨"adapter", true, .running, 1, some 1, none⟩

/-- The worker connects, the user disables and enables the adapter, the worker reports an error and
the adapter is deleted, one call after the other. -/
theorem adapter_sticks_iff_writesCurrent_run :
    recordCalls.Throughout (fun files label ↦ RecordSticks (recordCalls.next files label))
      (.initial (some runningAdapter) [])
      [.call .markConnected, .resume 0 2, .call .disableAdapter, .resume 0 3,
        .call (.markError "closed"), .resume 0 4, .call .enableAdapter, .resume 0 5,
        .call (.recordEvent ⟨"event", "adapter", .error, 6, "closed"⟩), .resume 0 6, .resume 0 7,
        .call .deleteAdapter, .resume 0 8, .resume 0 9] :=
  (adapter_sticks_iff_writesCurrent _ _ (by decide +kernel)).2 (by decide +kernel)

/-- The worker reads the record before the user disables the adapter and writes it back after. -/
theorem adapter_disable_undone :
    ¬ ∀ stored events labels, recordCalls.Admits (.initial stored events) labels →
      recordCalls.Throughout (fun files label ↦ RecordSticks (recordCalls.next files label))
        (.initial stored events) labels := by
  intro hall
  have hsticks := hall (some runningAdapter) []
    [.call .markConnected, .call .disableAdapter, .resume 1 2, .resume 0 3] (by decide +kernel)
  exact absurd hsticks (by decide +kernel)

end Exo.Adapters
