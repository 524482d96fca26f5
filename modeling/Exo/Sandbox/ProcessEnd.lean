import Exo.Sandbox.RunningProcess

/-!
# The end of a running process

Readers, watcher and cancelling calls all end a process by pushing an event and setting the status
later, and only the watcher looks at the status first.  If every push is made while the process runs
and nobody else is on the way from a terminal event to its status, and no task is aborted on that way,
the process ends once: one terminal event, the last one, one status and one entry of the journal, which
agree.  A cancellation after the exit breaks all of this.
-/

namespace Exo.Sandbox

open Library Function

/-- The list ends with its only terminal event, which says how the process ended. -/
def EndsWith (events : List SandboxProcessEvent) (status : SandboxProcessStatus) : Prop :=
  ∃ output event, events = output ++ [event] ∧
    (∀ earlier ∈ output, earlier.isTerminal = false) ∧ event.isTerminal = true ∧
    event.status = status

/-- A process ends at most once, and has ended when the watcher or a cancelling call is done. -/
structure RunningSandboxProcess.EndsOnce (process : RunningSandboxProcess) : Prop where
  numbered : Numbered process.events
  last : ∀ output event rest, process.events = output ++ event :: rest →
    event.isTerminal = true → rest = []
  agrees : process.status.isRunning = false → EndsWith process.events process.status
  journaled : process.stateUpdates.length ≤ 1
  updated : process.eventLog = true → process.status.isRunning = false →
    process.stateUpdates = [process.status]
  watched : process.stages .watcher = .returned → process.status.isRunning = false
  cancelled : ∀ call, process.stages (.cancel call) = .returned → process.status.isRunning = false

/-! ## The condition -/

/-- What a writer still has to do after it has pushed its terminal event. -/
def TaskStage.settlement : TaskStage → Option (Ending × SandboxProcessStatus)
  | .ending .push _ => none
  | .ending step status => some (step, status)
  | _ => none

/-- The process runs and nobody is between a terminal event and its status. -/
def RunningSandboxProcess.Unended (process : RunningSandboxProcess) : Prop :=
  process.status.isRunning = true ∧
    ∀ writer ∈ process.writers, (process.stages writer).settlement.isNone = true

instance (process : RunningSandboxProcess) : Decidable process.Unended :=
  inferInstanceAs (Decidable (_ ∧ _))

/-- The step pushes an event to the list. -/
def RunningLabel.pushes : RunningLabel → Bool
  | .push _ _ => true
  | .advance _ .push _ => true
  | _ => false

/-- The task that the step aborts. -/
def RunningLabel.abort? : RunningLabel → Option Writer
  | .abort writer => some writer
  | _ => none

/-- Events are pushed only while nobody has ended the process, and no task is aborted between its
terminal event and its status. -/
def Guarded (process : RunningSandboxProcess) (label : RunningLabel) : Prop :=
  (label.pushes = true → process.Unended) ∧
    ∀ writer ∈ label.abort?, (process.stages writer).settlement.isNone = true

instance (process : RunningSandboxProcess) (label : RunningLabel) :
    Decidable (Guarded process label) :=
  inferInstanceAs (Decidable (_ ∧ _))

/-! ## The invariant -/

/-- A process runs, or one writer has pushed the terminal event and is alone in that, or the status is
set. -/
inductive EndPhase (eventLog : Bool) (events : List SandboxProcessEvent)
    (status : SandboxProcessStatus) (updates : List SandboxProcessStatus)
    (settlement : Writer → Option (Ending × SandboxProcessStatus)) : Prop where
  | running (hstatus : status = .running) (hevents : ∀ event ∈ events, event.isTerminal = false)
      (hwriters : ∀ writer, settlement writer = none) (hupdates : updates = [])
  | settling (writer : Writer) (step : Ending) (ended : SandboxProcessStatus)
      (hwriter : settlement writer = some (step, ended))
      (hothers : ∀ other, other ≠ writer → settlement other = none)
      (hstatus : status = .running) (hevents : EndsWith events ended)
      (hupdates : updates = if eventLog ∧ step = .set then [ended] else [])
  | ended (hstatus : status.isRunning = false) (hwriters : ∀ writer, settlement writer = none)
      (hevents : EndsWith events status)
      (hupdates : updates = if eventLog then [status] else [])

/-- The status that a writer has in hand ends the process. -/
def TaskStage.Terminal : TaskStage → Prop
  | .draining status => status.isRunning = false
  | .checking status => status.isRunning = false
  | .ending _ status => status.isRunning = false
  | _ => True

/-- The invariant of the writers, on the parts of the process that they share. -/
structure WritersSound (eventLog : Bool) (events : List SandboxProcessEvent)
    (status : SandboxProcessStatus) (updates : List SandboxProcessStatus) (calls : ℕ)
    (stages : Writer → TaskStage) : Prop where
  numbered : Numbered events
  uncalled : ∀ call, calls ≤ call → stages (.cancel call) = .idle
  terminal : ∀ writer, (stages writer).Terminal
  phase : EndPhase eventLog events status updates fun writer ↦ (stages writer).settlement
  finished : ∀ writer, (∀ stream, writer ≠ .reader stream) → stages writer = .returned →
    status.isRunning = false

/-- The invariant of a process. -/
def RunningSandboxProcess.Sound (process : RunningSandboxProcess) : Prop :=
  WritersSound process.eventLog process.events process.status process.stateUpdates process.calls
    process.stages

section Parts
variable {eventLog : Bool} {events : List SandboxProcessEvent} {status : SandboxProcessStatus}
  {updates : List SandboxProcessStatus} {calls : ℕ} {stages : Writer → TaskStage}
  {writer : Writer} {stage : TaskStage}

/-- A writer that changes its stage and leaves its settlement as it is. -/
theorem settlement_update (hsame : stage.settlement = (stages writer).settlement) (other : Writer) :
    (Function.update stages writer stage other).settlement = (stages other).settlement := by
  by_cases hother : other = writer
  · rw [hother, update_self, hsame]
  · rw [update_of_ne hother]

section
variable (hsound : WritersSound eventLog events status updates calls stages)
include hsound

theorem WritersSound.ne_cancel (hactive : stages writer ≠ .idle) {call : ℕ} (hcall : calls ≤ call) :
    writer ≠ .cancel call := by
  intro hsame
  rw [hsame, hsound.uncalled call hcall] at hactive
  exact hactive rfl

variable {calls' : ℕ}

/-- What remains to be shown when one writer moves on. -/
theorem WritersSound.move {events' : List SandboxProcessEvent} {status' : SandboxProcessStatus}
    {updates' : List SandboxProcessStatus} (hcalls : calls ≤ calls')
    (hcalled : ∀ {call}, calls' ≤ call → writer ≠ .cancel call) (hnumbered : Numbered events')
    (hterminal : stage.Terminal) (hphase : EndPhase eventLog events' status' updates' fun other ↦
      (Function.update stages writer stage other).settlement)
    (hstatus : status.isRunning = false → status'.isRunning = false)
    (hreturned : (∀ stream, writer ≠ .reader stream) → stage = .returned →
      status'.isRunning = false) :
    WritersSound eventLog events' status' updates' calls'
      (Function.update stages writer stage) where
  numbered := hnumbered
  uncalled call hcall := by
    rw [update_of_ne (hcalled hcall).symm]
    exact hsound.uncalled call (Nat.le_trans hcalls hcall)
  terminal := by
    rw [forall_update_iff stages (p := fun _ stage ↦ stage.Terminal)]
    exact ⟨hterminal, fun other _ ↦ hsound.terminal other⟩
  phase := hphase
  finished := by
    rw [forall_update_iff stages (p := fun writer stage ↦
      (∀ stream, writer ≠ .reader stream) → stage = .returned → status'.isRunning = false)]
    refine ⟨hreturned, fun other _ hother hstage ↦ ?_⟩
    exact hstatus (hsound.finished other hother hstage)

/-- A step that only changes the stage of a writer. -/
theorem WritersSound.setStage (hcalls : calls ≤ calls')
    (hcalled : ∀ {call}, calls' ≤ call → writer ≠ .cancel call) (hterminal : stage.Terminal)
    (hsame : stage.settlement = (stages writer).settlement)
    (hreturned : (∀ stream, writer ≠ .reader stream) → stage = .returned →
      status.isRunning = false) :
    WritersSound eventLog events status updates calls' (Function.update stages writer stage) := by
  refine hsound.move hcalls hcalled hsound.numbered hterminal ?_ id hreturned
  rw [funext fun other ↦ settlement_update hsame other]
  exact hsound.phase

end

theorem EndsWith.isTerminal_last {output rest : List SandboxProcessEvent}
    {event : SandboxProcessEvent} (hends : EndsWith (output ++ event :: rest) status)
    (hevent : event.isTerminal = true) : rest = [] := by
  obtain ⟨before, last, hlist, hbefore, -, -⟩ := hends
  rcases List.eq_nil_or_concat rest with hrest | ⟨middle, final, hrest⟩
  · exact hrest
  · rw [hrest, List.concat_eq_append, ← List.cons_append, ← List.append_assoc] at hlist
    have hinit := (List.append_inj' hlist rfl).1
    have hmem : event ∈ before := by
      rw [← hinit]
      simp
    rw [hbefore event hmem] at hevent
    cases hevent

variable {settlement : Writer → Option (Ending × SandboxProcessStatus)}

section
variable (hphase : EndPhase eventLog events status updates settlement)
include hphase

/-- Whoever has something left to do is the only one, and the process still runs. -/
theorem EndPhase.of_settlement {step : Ending} {ended : SandboxProcessStatus}
    (hwriter : settlement writer = some (step, ended)) :
    (∀ other, other ≠ writer → settlement other = none) ∧ status = .running ∧
      EndsWith events ended ∧ updates = if eventLog ∧ step = .set then [ended] else [] := by
  cases hphase with
  | running hstatus hevents hwriters hupdates | ended hstatus hwriters hevents hupdates =>
    rw [hwriters writer] at hwriter
    cases hwriter
  | settling settler last final hsettler hothers hstatus hevents hupdates =>
    have hsame : writer = settler := by
      by_contra hne
      rw [hothers writer hne] at hwriter
      cases hwriter
    rw [hsame, hsettler] at hwriter
    cases hwriter
    rw [hsame]
    exact ⟨hothers, hstatus, hevents, hupdates⟩

theorem EndPhase.of_running
    (hrunning : status.isRunning = true) (hwriters : ∀ writer, settlement writer = none) :
    status = .running ∧ (∀ event ∈ events, event.isTerminal = false) ∧ updates = [] := by
  cases hphase with
  | running hstatus hevents _ hupdates => exact ⟨hstatus, hevents, hupdates⟩
  | settling writer step ended hwriter =>
    rw [hwriters writer] at hwriter
    cases hwriter
  | ended hstatus =>
    rw [hstatus] at hrunning
    cases hrunning

end

end Parts

/-! ## Steps -/

section Steps
variable {process : RunningSandboxProcess}

/-- The journal records a status only through its own entry. -/
theorem appendData_stateUpdates (entry : JournalEntry) : (process.appendData entry).stateUpdates =
      process.stateUpdates ++ if process.eventLog then entry.status?.toList else [] := by
  unfold RunningSandboxProcess.appendData RunningSandboxProcess.stateUpdates
  cases process.eventLog <;> cases entry <;> simp [JournalEntry.status?]

namespace RunningSandboxProcess

/-- The condition speaks about the writers that there are; all others are idle. -/
theorem Sound.settlement_eq_none (hsound : process.Sound)
    (hunended : process.Unended) (writer : Writer) :
    (process.stages writer).settlement = none := by
  have hlisted : ∀ writer ∈ process.writers, (process.stages writer).settlement = none :=
    fun writer hwriter ↦ Option.isNone_iff_eq_none.1 (hunended.2 writer hwriter)
  match writer with
  | .reader .stdout | .reader .stderr | .watcher =>
    exact hlisted _ (by simp [writers])
  | .cancel call =>
    by_cases hcall : call < process.calls
    · exact hlisted _ (by simp [writers, hcall])
    · rw [WritersSound.uncalled hsound call (Nat.le_of_not_lt hcall)]
      rfl

theorem Sound.push (hsound : process.Sound) {stream : OutputStream}
    {data : Bytes} (hstage : process.stages (.reader stream) = .holding data)
    (hunended : process.Unended) :
    (runningProcess.next process (.push stream data)).Sound := by
  have hwriters := hsound.settlement_eq_none hunended
  obtain ⟨hstatus, hevents, hupdates⟩ :=
    (WritersSound.phase hsound).of_running hunended.1 hwriters
  refine WritersSound.move hsound Nat.le.refl nofun (hsound.numbered.snoc (by simp)) trivial ?_ id
    (fun hreader ↦ absurd rfl (hreader stream))
  refine EndPhase.running hstatus ?_ ?_ hupdates
  · intro event hevent
    rcases List.mem_append.1 hevent with hold | hnew
    · exact hevents event hold
    · rw [List.mem_singleton.1 hnew]
      simp
  · intro other
    have hsame : (TaskStage.appending (.output stream (process.events.length + 1) data)).settlement =
        (process.stages (.reader stream)).settlement := by
      rw [hstage]
      rfl
    exact (settlement_update hsame other).trans (hwriters other)

variable {writer : Writer} {status : SandboxProcessStatus}

section
variable (hsound : process.Sound)
include hsound

namespace Sound

theorem advance_push
    (hstage : process.stages writer = .ending .push status) (hunended : process.Unended) :
    (process.advance writer status .push).Sound := by
  have hwriters := hsound.settlement_eq_none hunended
  have hterminal : status.isRunning = false := by
    have hstatus := WritersSound.terminal hsound writer
    rwa [hstage] at hstatus
  obtain ⟨hstatus, hevents, hupdates⟩ :=
    (WritersSound.phase hsound).of_running hunended.1 hwriters
  have hactive : process.stages writer ≠ .idle := by simp [hstage]
  refine WritersSound.move hsound Nat.le.refl (WritersSound.ne_cancel hsound hactive)
    (hsound.numbered.snoc (by simp)) hterminal ?_ id nofun
  have hnone : process.stateUpdates = if process.eventLog ∧ Ending.append
      (status.event (process.events.length + 1)) = .set then [status] else [] := by
    simpa using hupdates
  refine EndPhase.settling writer (.append _) status ?_ ?_ hstatus ?_ hnone
  · rw [update_self]
    rfl
  · intro other hother
    rw [update_of_ne hother]
    exact hwriters other
  · exact ⟨process.events, _, rfl, hevents, by simp, status_event hterminal _⟩

variable {step : Ending} {label : RunningLabel}

/-- A writer on its way to the status, before the last step. -/
theorem advance_journal {next : Ending} {entry : JournalEntry}
    (hstage : process.stages writer = .ending step status)
    (hsettlement : (TaskStage.ending step status).settlement = some (step, status))
    (hnext : (TaskStage.ending next status).settlement = some (next, status)) (hstep : step ≠ .set)
    (hentry : entry.status?.toList = if next = .set then [status] else []) :
    ((process.appendData entry).setStage writer (.ending next status)).Sound := by
  have hwriter : (process.stages writer).settlement = some (step, status) := by
    rw [hstage, hsettlement]
  have hterminal := WritersSound.terminal hsound writer
  rw [hstage] at hterminal
  obtain ⟨hothers, hstatus, hevents, hupdates⟩ :=
    (WritersSound.phase hsound).of_settlement hwriter
  have hlater : (process.appendData entry).stateUpdates =
      if process.eventLog ∧ next = .set then [status] else [] := by
    rw [appendData_stateUpdates, hupdates, hentry]
    cases process.eventLog <;> simp [hstep]
  have hactive : process.stages writer ≠ .idle := by simp [hstage]
  refine WritersSound.move hsound Nat.le.refl (WritersSound.ne_cancel hsound hactive)
    hsound.numbered hterminal ?_ id nofun
  refine EndPhase.settling writer next status ?_ ?_ hstatus hevents hlater
  · rw [update_self, hnext]
  · intro other hother
    rw [update_of_ne hother]
    exact hothers other hother

theorem advance_set (hstage : process.stages writer = .ending .set status) :
    (process.advance writer status .set).Sound := by
  have hwriter : (process.stages writer).settlement = some (.set, status) := by
    rw [hstage]
    rfl
  have hterminal : status.isRunning = false := by
    have hstatus := WritersSound.terminal hsound writer
    rwa [hstage] at hstatus
  obtain ⟨hothers, hstatus, hevents, hupdates⟩ :=
    (WritersSound.phase hsound).of_settlement hwriter
  have hactive : process.stages writer ≠ .idle := by simp [hstage]
  refine WritersSound.move hsound Nat.le.refl (WritersSound.ne_cancel hsound hactive)
    hsound.numbered ?_ ?_ (fun _ ↦ hterminal) (fun _ _ ↦ hterminal)
  · cases writer <;> trivial
  · have hrecorded : process.stateUpdates = if process.eventLog then [status] else [] := by
      simpa using hupdates
    refine EndPhase.ended hterminal ?_ hevents hrecorded
    intro other
    by_cases hother : other = writer
    · rw [hother, update_self]
      cases writer <;> rfl
    · rw [update_of_ne hother]
      exact hothers other hother

theorem advance (hstage : process.stages writer = .ending step status)
    (hguarded : Guarded process (.advance writer step status)) :
    (process.advance writer status step).Sound := by
  cases step with
  | push => exact hsound.advance_push hstage (hguarded.1 rfl)
  | append event | update => exact hsound.advance_journal hstage rfl rfl (by simp) rfl
  | set => exact hsound.advance_set hstage

/-- The stage of a task, which is the stage of nobody else. -/
theorem setStage {stage stage' : TaskStage}
    (hstage : process.stages writer = stage) (hactive : stage ≠ .idle) (hterminal : stage'.Terminal)
    (hsame : stage'.settlement = stage.settlement)
    (hreturned : (∀ stream, writer ≠ .reader stream) → stage' = .returned →
      process.status.isRunning = false) : (process.setStage writer stage').Sound := by
  have hidle : process.stages writer ≠ .idle := by
    rw [hstage]
    exact hactive
  refine WritersSound.setStage hsound Nat.le.refl (WritersSound.ne_cancel hsound hidle) hterminal ?_
    hreturned
  rw [hstage]
  exact hsame

theorem cancel : (runningProcess.next process .cancel).Sound := by
  have hidle := WritersSound.uncalled hsound process.calls (Nat.le_refl _)
  refine WritersSound.setStage hsound (Nat.le_succ _) ?_ trivial ?_ nofun
  · intro call hcall
    simp only [ne_eq, Writer.cancel.injEq]
    exact Nat.ne_of_lt hcall
  · rw [hidle]
    rfl

theorem next (henabled : runningProcess.enabled process label)
    (hguarded : Guarded process label) : (runningProcess.next process label).Sound := by
  cases label with
  | read stream data =>
    exact hsound.setStage henabled.1 (by simp) trivial rfl nofun
  | endOfFile stream | takeStdin call =>
    exact hsound.setStage henabled (by simp) trivial rfl nofun
  | readError stream message =>
    exact hsound.setStage henabled (by simp) rfl rfl nofun
  | push stream data => exact hsound.push henabled (hguarded.1 rfl)
  | append stream event =>
    have hmoved : (process.setStage (.reader stream) .reading).Sound :=
      hsound.setStage henabled (by simp) trivial rfl nofun
    have hupdates : (runningProcess.next process (.append stream event)).stateUpdates =
        process.stateUpdates := by
      refine (appendData_stateUpdates (.sandboxProcessEvent event)).trans ?_
      simp [JournalEntry.status?]
    rw [Sound, hupdates]
    exact hmoved
  | close stream =>
    exact hsound.setStage henabled (by simp) trivial rfl (fun h ↦ absurd rfl (h stream))
  | exit terminal =>
    refine hsound.setStage henabled (by simp) ?_ rfl nofun
    cases terminal <;> rfl
  | drain status =>
    have hterminal := WritersSound.terminal hsound .watcher
    rw [henabled.1] at hterminal
    exact hsound.setStage henabled.1 (by simp) hterminal rfl nofun
  | check status =>
    have hterminal := WritersSound.terminal hsound .watcher
    rw [show process.stages .watcher = .checking status from henabled] at hterminal
    simp only [runningProcess]
    split
    · exact hsound.setStage henabled (by simp) hterminal rfl nofun
    · rename_i hstatus
      exact hsound.setStage henabled (by simp) trivial rfl (fun _ _ ↦ by simpa using hstatus)
  | cancel => exact hsound.cancel
  | dropTasks call => exact hsound.setStage henabled (by simp) rfl rfl nofun
  | advance writer step status => exact hsound.advance henabled hguarded
  | abort writer =>
    refine WritersSound.setStage hsound Nat.le.refl ?_ trivial
      (Option.isNone_iff_eq_none.1 (hguarded.2 writer rfl)).symm nofun
    intro call _ hsame
    rw [hsame] at henabled
    cases henabled.1
  | closeInput | startPoll | snapshot index | look index => exact hsound

/-- The status is set by whoever has the last step to do, and then the process still ran. -/
theorem status_next (henabled : runningProcess.enabled process label)
    (hterminal : process.status.isRunning = false) :
    (runningProcess.next process label).status = process.status := by
  cases label with
  | advance writer step status =>
    cases step with
    | push => rfl
    | append event => rfl
    | update => rfl
    | set =>
      have hwriter : (process.stages writer).settlement = some (.set, status) := by
        rw [show process.stages writer = .ending .set status from henabled]
        rfl
      have hrunning := ((WritersSound.phase hsound).of_settlement hwriter).2.1
      rw [hrunning] at hterminal
      cases hterminal
  | append stream event => rfl
  | _ => rfl

/-- Whoever has pushed a terminal event has pushed the last one. -/
theorem endsWith {event : SandboxProcessEvent}
    (hevent : event ∈ process.events) (hterminal : event.isTerminal = true) :
    ∃ status, EndsWith process.events status := by
  cases WritersSound.phase hsound with
  | running hstatus hevents =>
    rw [hevents event hevent] at hterminal
    cases hterminal
  | settling writer step ended _ _ _ hends => exact ⟨ended, hends⟩
  | ended hstatus _ hends => exact ⟨process.status, hends⟩

theorem endsWith_status (hterminal : process.status.isRunning = false) :
    EndsWith process.events process.status := by
  cases WritersSound.phase hsound with
  | running hstatus | settling _ _ _ _ _ hstatus =>
    rw [hstatus] at hterminal
    cases hterminal
  | ended _ _ hends => exact hends

theorem endsOnce : process.EndsOnce where
  numbered := hsound.numbered
  last output event rest hlist hevent := by
    obtain ⟨status, hends⟩ := hsound.endsWith (by rw [hlist]; simp) hevent
    rw [hlist] at hends
    exact hends.isTerminal_last hevent
  agrees := hsound.endsWith_status
  journaled := by
    cases WritersSound.phase hsound with
    | running _ _ _ hupdates => simp [hupdates]
    | settling _ _ _ _ _ _ _ hupdates | ended _ _ _ hupdates =>
      rw [hupdates]
      split <;> simp
  updated hlog hterminal := by
    cases WritersSound.phase hsound with
    | running hstatus | settling _ _ _ _ _ hstatus =>
      rw [hstatus] at hterminal
      cases hterminal
    | ended _ _ _ hupdates => rw [hupdates, if_pos hlog]
  watched := WritersSound.finished hsound .watcher (by simp)
  cancelled call := WritersSound.finished hsound (.cancel call) (by simp)

end Sound

end

theorem sound_start (eventLog stdin : Bool) : (start eventLog stdin).Sound where
  numbered := numbered_nil
  uncalled _ _ := rfl
  terminal writer := by cases writer <;> trivial
  phase := by
    refine EndPhase.running rfl (by simp [start]) ?_ rfl
    intro writer
    cases writer <;> rfl
  finished writer hwriter hreturned := by
    cases writer <;> cases hreturned

end RunningSandboxProcess

end Steps

/-- **A process ends once, if every event is pushed while nobody has ended it.**  In every run of the
tasks, the cancelling calls and the clients in which events are pushed only while the status is running
and no writer is between its terminal event and its status, and in which no task is aborted there: the
cursors are `1, …, n`, nothing follows a terminal event, the status agrees with it and never changes
once it is set, and the journal records one status. -/
theorem process_ends_once (eventLog stdin : Bool) {labels : List RunningLabel}
    (hrun : (runningProcess.restrict Guarded).Admits (.start eventLog stdin) labels) :
    (runningProcess.exec (.start eventLog stdin) labels).EndsOnce ∧ runningProcess.Throughout
        (fun process label ↦ process.status.isRunning = false →
          (runningProcess.next process label).status = process.status)
        (.start eventLog stdin) labels := by
  have hstart := RunningSandboxProcess.sound_start eventLog stdin
  constructor
  · refine (System.invariant_of_restrict RunningSandboxProcess.Sound ?_ hstart hrun).endsOnce
    exact fun process label hsound henabled hguarded ↦ hsound.next henabled hguarded
  · rw [← System.throughout_restrict Guarded]
    refine System.throughout_of_invariant RunningSandboxProcess.Sound ?_ ?_ hstart hrun
    · exact fun process label hsound henabled ↦ hsound.next henabled.1 henabled.2
    · exact fun process label hsound henabled ↦ hsound.status_next henabled.1

/-- A cancellation while the output is read: the call drops the tasks, which are aborted, and ends the
process alone. -/
theorem process_ends_once_cancelled : (runningProcess.exec (.start true true)
      [.read .stdout [104], .push .stdout [104], .exit (.ok 0), .cancel, .takeStdin 0,
        .append .stdout (.stdout 1 [104]), .dropTasks 0, .abort (.reader .stdout),
        .abort .watcher, .advance (.cancel 0) .push .cancelled,
        .abort (.reader .stderr), .advance (.cancel 0) (.append (.cancelled 2)) .cancelled,
        .advance (.cancel 0) .update .cancelled, .advance (.cancel 0) .set .cancelled]).EndsOnce :=
  (process_ends_once true true (by decide +kernel)).1

/-- The exit is recorded, with both streams at their end. -/
def exitRun : List RunningLabel :=
  [.endOfFile .stdout, .endOfFile .stderr, .close .stdout, .close .stderr, .exit (.ok 0),
    .drain (.exited 0), .check (.exited 0), .advance .watcher .push (.exited 0),
    .advance .watcher (.append (.exit 1 0)) (.exited 0), .advance .watcher .update (.exited 0),
    .advance .watcher .set (.exited 0)]

/-- A call that cancels a process that has exited. -/
def lateCancelRun : List RunningLabel :=
  exitRun ++ [.cancel, .takeStdin 0, .dropTasks 0, .advance (.cancel 0) .push .cancelled,
    .advance (.cancel 0) (.append (.cancelled 2)) .cancelled,
    .advance (.cancel 0) .update .cancelled, .advance (.cancel 0) .set .cancelled]

/-- **A late cancellation ends the process again.** -/
theorem late_cancel_ends_again : runningProcess.Admits (.start true true) lateCancelRun ∧
      ¬(runningProcess.exec (.start true true) lateCancelRun).EndsOnce ∧
      ¬runningProcess.Throughout
        (fun process label ↦ process.status.isRunning = false →
          (runningProcess.next process label).status = process.status)
        (.start true true) lateCancelRun := by
  refine ⟨by decide +kernel, fun hends ↦ ?_, by decide +kernel⟩
  have hjournal := hends.journaled
  revert hjournal
  decide +kernel

end Exo.Sandbox
