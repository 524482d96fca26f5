import Exo.Library.UpdateFirst
import Exo.Sandbox.ProcessOutput

/-!
# Polling the events of a running process

A poller asks for the events after its cursor until it sees a terminal event or a terminal status.
The page is taken before the status is read, so a status that was set in between hides the events that
were pushed in between.  If a page never reads a terminal status unless it holds all events, and events
are pushed only while nobody has ended the process, a poller that stops has received every event, once
and in order, and with them all bytes of the streams that ended.
-/

namespace Exo.Sandbox

open Library List

section
variable (process : RunningSandboxProcess)

/-- What the pollers of a process have received. -/
structure RunningSandboxProcess.Delivers : Prop where
  numbered : Numbered process.events
  received : ∀ poller ∈ process.pollers, poller.received <+: process.events
  whole : ∀ poller ∈ process.pollers, poller.stage.isStopped = true →
    poller.received = process.events ∧ ∃ status, EndsWith poller.received status
  bytes : ∀ poller ∈ process.pollers, poller.stage.isStopped = true →
    ∀ stream, process.ended stream = true → outputOf stream poller.received = process.read stream
  exited : ∀ cursor exitCode, .exit cursor exitCode ∈ process.events →
    ∀ stream, process.ended stream = true

/-- The poller whose page is completed with a status. -/
def RunningLabel.look? : RunningLabel → Option ℕ
  | .look index => some index
  | _ => none

/-- A page that is completed with a terminal status ends with the terminal event. -/
def EventPoller.endsPage (poller : EventPoller) : Bool :=
  match poller.stage with
  | .holding page _ => process.status.isRunning || page.getLast?.any (·.isTerminal)
  | _ => true

/-- Every page that is completed with a terminal status ends with the terminal event. -/
def EndsPage (label : RunningLabel) : Prop :=
  ∀ index ∈ label.look?, ∀ poller ∈ process.pollers[index]?, poller.endsPage process = true

end

instance (process : RunningSandboxProcess) (label : RunningLabel) :
    Decidable (EndsPage process label) :=
  inferInstanceAs (Decidable (∀ index ∈ _, _))

/-- Nothing was pushed since the page was taken, and the page was not cut, if the status is
terminal. -/
def EventPoller.isCurrent (process : RunningSandboxProcess) (poller : EventPoller) : Bool :=
  match poller.stage with
  | .holding _ length => process.status.isRunning ||
    (length = process.events.length && length ≤ poller.cursor.getD 0 + pageLimit)
  | _ => true

/-- Events are pushed only while nobody has ended the process, and no event is pushed between the
events of a page and a terminal status. -/
def Current (process : RunningSandboxProcess) (label : RunningLabel) : Prop :=
  Guarded process label ∧
    ∀ index ∈ label.look?, ∀ poller ∈ process.pollers[index]?, poller.isCurrent process = true

instance (process : RunningSandboxProcess) (label : RunningLabel) :
    Decidable (Current process label) :=
  inferInstanceAs (Decidable (_ ∧ _))

/-- What a poller has received is the list up to its cursor, without a terminal event until it
stops. -/
def EventPoller.Sound (events : List SandboxProcessEvent) (poller : EventPoller) : Prop :=
  poller.cursor.getD 0 = poller.received.length ∧ poller.received <+: events ∧
    match poller.stage with
    | .asking => ∀ event ∈ poller.received, event.isTerminal = false
    | .holding page length => (∀ event ∈ poller.received, event.isTerminal = false) ∧
      poller.received.length ≤ length ∧ length ≤ events.length ∧
      page = ((events.take length).drop poller.received.length).take pageLimit
    | .stopped _ => poller.received = events ∧ ∃ status, EndsWith events status

section Pollers
variable {events : List SandboxProcessEvent} {poller : EventPoller} {event : SandboxProcessEvent}

theorem waitResult_of_isTerminal (hevent : event.isTerminal = true) :
    ∃ result, event.status.waitResult = some result := by
  cases event <;> first | exact ⟨_, rfl⟩ | cases hevent

theorem waitResult_of_not_isTerminal (hevent : event.isTerminal = false) :
    event.status.waitResult = none := by
  cases event <;> first | rfl | cases hevent

/-- A list with a terminal event at its end only, of which a part that has one is all. -/
theorem EndsWith.eq_of_append {status : SandboxProcessStatus} (hends : EndsWith events status)
    {output : List SandboxProcessEvent} (hevents : output ++ [event] <+: events)
    (hevent : event.isTerminal = true) : output ++ [event] = events := by
  obtain ⟨rest, hrest⟩ := hevents
  have hnil : rest = [] := by
    rw [← hrest, append_assoc, singleton_append] at hends
    exact hends.isTerminal_last hevent
  rw [← hrest, hnil, append_nil]

/-- The loop over a page: it either handles all of it, or stops at a terminal event. -/
theorem EventPoller.handle_spec (hnumbered : Numbered events) (page : List SandboxProcessEvent) :
    ∀ poller : EventPoller, poller.cursor.getD 0 = poller.received.length →
      poller.received ++ page <+: events → poller.stage = .asking →
      (∀ event ∈ poller.received, event.isTerminal = false) →
      (poller.handle page).cursor.getD 0 = (poller.handle page).received.length ∧
        ((poller.handle page).stage = .asking ∧
            (poller.handle page).received = poller.received ++ page ∧
            (∀ event ∈ poller.received ++ page, event.isTerminal = false) ∨
          ∃ result output event, (poller.handle page).stage = .stopped result ∧
            (poller.handle page).received = output ++ [event] ∧ event.isTerminal = true ∧
            output ++ [event] <+: events) := by
  induction page with
  | nil =>
    intro poller hcursor _ hstage hreceived
    refine ⟨hcursor, .inl ⟨hstage, ?_, ?_⟩⟩
    · simp [EventPoller.handle]
    · simpa using hreceived
  | cons event page ih =>
    intro poller hcursor hevents hstage hreceived
    have hsplit : poller.received ++ [event] ++ page <+: events := by simpa using hevents
    have hone : poller.received ++ [event] <+: events :=
      (prefix_append _ page).trans hsplit
    have hlast : event.cursor = poller.received.length + 1 := by
      obtain ⟨rest, hrest⟩ := hone
      rw [← hrest] at hnumbered
      have hcursors := congrArg getLast? hnumbered.of_append
      simpa [range'_concat, Nat.add_comm] using hcursors
    cases hevent : event.isTerminal with
    | true =>
      obtain ⟨result, hresult⟩ := waitResult_of_isTerminal hevent
      simp only [EventPoller.handle, hresult]
      refine ⟨by simp [hlast], .inr ⟨result, poller.received, event, rfl, rfl, hevent, hone⟩⟩
    | false =>
      simp only [EventPoller.handle, waitResult_of_not_isTerminal hevent]
      have hnext := ih { poller with
        cursor := some event.cursor, received := poller.received ++ [event] }
        (by simp [hlast]) hsplit hstage ?_
      · simpa using hnext
      · intro earlier hearlier
        rcases mem_append.1 hearlier with hold | hnew
        · exact hreceived earlier hold
        · rw [mem_singleton.1 hnew]
          exact hevent

theorem EventPoller.Sound.append (hpoller : poller.Sound events)
    (hevents : ∀ event ∈ events, event.isTerminal = false) (event : SandboxProcessEvent) :
    poller.Sound (events ++ [event]) := by
  obtain ⟨hcursor, hreceived, hstage⟩ := hpoller
  refine ⟨hcursor, hreceived.trans (prefix_append _ _), ?_⟩
  cases hpollStage : poller.stage with
  | asking =>
    rw [hpollStage] at hstage
    exact hstage
  | holding page length =>
    rw [hpollStage] at hstage
    obtain ⟨hterminal, hle, hlength, hpage⟩ := hstage
    refine ⟨hterminal, hle, ?_, ?_⟩
    · rw [length_append]
      exact Nat.le_add_right_of_le hlength
    · rw [take_append_of_le_length hlength]
      exact hpage
  | stopped result =>
    rw [hpollStage] at hstage
    obtain ⟨-, status, output, last, hlist, -, hlast, -⟩ := hstage
    rw [hevents last (by simp [hlist])] at hlast
    cases hlast

end Pollers

section Pages
variable {process : RunningSandboxProcess} {poller : EventPoller}

theorem EventPoller.Sound.snapshot (hnumbered : Numbered process.events)
    (hpoller : poller.Sound process.events) : (process.snapshot poller).Sound process.events := by
  obtain ⟨hcursor, hreceived, hstage⟩ := hpoller
  unfold RunningSandboxProcess.snapshot
  split
  · rename_i hasking
    rw [hasking] at hstage
    refine ⟨hcursor, hreceived, hstage, hreceived.length_le, Nat.le_refl _, ?_⟩
    rw [take_length, ← hcursor, ← hnumbered.filter_eq_drop]
    rfl
  · exact ⟨hcursor, hreceived, hstage⟩

variable {page : List SandboxProcessEvent} {length : ℕ}

section
variable (hpoller : poller.Sound process.events)
include hpoller

namespace EventPoller

theorem Sound.received_append_page (hstage : poller.stage = .holding page length) :
    poller.received ++ page <+: process.events := by
  obtain ⟨-, hreceived, hholding⟩ := hpoller
  rw [hstage] at hholding
  obtain ⟨-, hle, -, hpage⟩ := hholding
  have hstart : poller.received = (process.events.take length).take poller.received.length := by
    rw [take_take, Nat.min_eq_left hle]
    exact prefix_iff_eq_take.1 hreceived
  have hrest : page <+: (process.events.take length).drop poller.received.length := by
    rw [hpage]
    exact take_prefix _ _
  have hwhole : poller.received ++ (process.events.take length).drop poller.received.length =
      process.events.take length := by
    calc
      poller.received ++ (process.events.take length).drop poller.received.length =
          (process.events.take length).take poller.received.length ++
            (process.events.take length).drop poller.received.length := by
        rw [← hstart]
      _ = process.events.take length := take_append_drop _ _
  refine ((prefix_append_right_inj _).2 hrest).trans ?_
  rw [hwhole]
  exact take_prefix _ _

/-- A page that is current with a terminal status has all the events that are left. -/
theorem Sound.received_append_current (hstage : poller.stage = .holding page length)
    (hcurrent : poller.isCurrent process = true) (hterminal : process.status.isRunning = false) :
    poller.received ++ page = process.events := by
  obtain ⟨hcursor, hreceived, hholding⟩ := hpoller
  rw [hstage] at hholding
  obtain ⟨-, -, -, hpage⟩ := hholding
  simp only [isCurrent, hstage, hterminal, Bool.false_or, Bool.and_eq_true,
    decide_eq_true_eq] at hcurrent
  obtain ⟨hlength, hlimit⟩ := hcurrent
  have hrest : page = process.events.drop poller.received.length := by
    rw [hpage, hlength, take_length, take_of_length_le]
    rw [length_drop]
    omega
  calc
    poller.received ++ page =
        process.events.take poller.received.length ++
          process.events.drop poller.received.length := by
      rw [← prefix_iff_eq_take.1 hreceived, hrest]
    _ = process.events := take_append_drop _ _

/-- The page that a look with a terminal status handles ends with the terminal event. -/
theorem Sound.getLast?_page (hsound : process.Sound)
    (hstage : poller.stage = .holding page length) (hcurrent : poller.isCurrent process = true)
    (hterminal : process.status.isRunning = false) :
    ∃ event, page.getLast? = some event ∧ event.isTerminal = true := by
  have hevents := hpoller.received_append_current hstage hcurrent hterminal
  obtain ⟨-, -, hholding⟩ := hpoller
  rw [hstage] at hholding
  obtain ⟨output, event, hlist, -, hevent, -⟩ := hsound.endsWith_status hterminal
  have hlast : process.events.getLast? = some event := by simp [hlist]
  rw [← hevents] at hlast
  cases hpage : page.getLast? with
  | some last =>
    rw [getLast?_append, hpage, Option.some_or] at hlast
    cases hlast
    exact ⟨event, rfl, hevent⟩
  | none =>
    rw [getLast?_append, hpage, Option.none_or] at hlast
    rw [hholding.1 event (mem_of_getLast? hlast)] at hevent
    cases hevent

theorem Sound.look (hsound : process.Sound)
    (hcurrent : poller.isCurrent process = true) : (process.look poller).Sound process.events := by
  unfold RunningSandboxProcess.look
  split
  · rename_i page length hstage
    obtain ⟨hcursor, -, hholding⟩ := id hpoller
    rw [hstage] at hholding
    have hpage := hpoller.received_append_page hstage
    obtain ⟨hcursor', hhandled⟩ := handle_spec (WritersSound.numbered hsound) page
      { poller with stage := .asking } hcursor hpage rfl hholding.1
    unfold answer
    rcases hhandled with ⟨hasking, hreceived, hnone⟩ |
        ⟨result, output, event, hstopped, hreceived, hevent, hprior⟩
    · cases hstatus : process.status.isRunning with
      | true =>
        have hresult : process.status.waitResult = none := by
          cases hsame : process.status <;> first | rfl | (rw [hsame] at hstatus; cases hstatus)
        simp only [hasking, hresult]
        refine ⟨hcursor', ?_, ?_⟩
        · rw [hreceived]
          exact hpage
        · rw [hasking, hreceived]
          exact hnone
      | false =>
        -- a page with a terminal status ends with a terminal event, so the loop has stopped there
        obtain ⟨event, hlast, hevent⟩ :=
          hpoller.getLast?_page hsound hstage hcurrent hstatus
        have hmem := mem_append_right poller.received (mem_of_getLast? hlast)
        rw [hnone event hmem] at hevent
        cases hevent
    · obtain ⟨status, hends⟩ : ∃ status, EndsWith process.events status := by
        refine hsound.endsWith (hprior.subset ?_) hevent
        simp
      have hall := hends.eq_of_append hprior hevent
      simp only [hstopped]
      refine ⟨hcursor', ?_, ?_⟩
      · rw [hreceived]
        exact hprior
      · rw [hstopped]
        refine ⟨?_, status, hends⟩
        rw [hreceived, hall]
  · exact hpoller

end EventPoller

end

end Pages

/-- The writers, the output and the pollers of a process are sound. -/
structure RunningSandboxProcess.Polled (process : RunningSandboxProcess) : Prop where
  sound : process.Sound
  output : process.OutputSound
  pollers : ∀ poller ∈ process.pollers, poller.Sound process.events

section Runs
variable {process : RunningSandboxProcess}

namespace RunningSandboxProcess

section
variable (hpolled : process.Polled)
include hpolled

theorem Polled.append (hunended : process.Unended) (event : SandboxProcessEvent) :
    ∀ poller ∈ process.pollers, poller.Sound (process.events ++ [event]) := by
  intro poller hpoller
  have hwriters := hpolled.sound.settlement_eq_none hunended
  obtain ⟨-, hevents, -⟩ :=
    (WritersSound.phase hpolled.sound).of_running hunended.1 hwriters
  exact (hpolled.pollers poller hpoller).append hevents event

theorem Polled.next {label : RunningLabel}
    (henabled : runningProcess.enabled process label) (hcurrent : Current process label) :
    (runningProcess.next process label).Polled := by
  refine ⟨hpolled.sound.next henabled hcurrent.1, hpolled.output.next hpolled.sound henabled, ?_⟩
  cases label with
  | push stream data => exact hpolled.append (hcurrent.1.1 rfl) _
  | advance writer step status =>
    cases step with
    | push => exact hpolled.append (hcurrent.1.1 rfl) _
    | _ => exact hpolled.pollers
  | startPoll =>
    intro poller hpoller
    rcases mem_append.1 hpoller with hold | hnew
    · exact hpolled.pollers poller hold
    · rw [mem_singleton.1 hnew]
      exact ⟨rfl, nil_prefix, by simp⟩
  | snapshot index =>
    refine forall_mem_modify hpolled.pollers index fun poller _ hpoller ↦ ?_
    exact hpoller.snapshot (WritersSound.numbered hpolled.sound)
  | look index =>
    refine forall_mem_modify hpolled.pollers index fun poller hindex hpoller ↦ ?_
    exact hpoller.look hpolled.sound (hcurrent.2 index rfl poller hindex)
  | _ => exact hpolled.pollers

theorem Polled.endsPage {label : RunningLabel}
    (hcurrent : Current process label) : EndsPage process label := by
  intro index hlabel poller hindex
  have hpoller := hpolled.pollers poller (mem_of_getElem? hindex)
  unfold EventPoller.endsPage
  split
  · rename_i page length hstage
    cases hstatus : process.status.isRunning with
    | true => rfl
    | false =>
      obtain ⟨event, hlast, hevent⟩ := hpoller.getLast?_page hpolled.sound hstage
        (hcurrent.2 index hlabel poller hindex) hstatus
      simp [hlast, hevent]
  · rfl

theorem Polled.delivers : process.Delivers := by
  have hwhole : ∀ poller ∈ process.pollers, poller.stage.isStopped = true →
      poller.received = process.events ∧ ∃ status, EndsWith process.events status := by
    intro poller hpoller hstopped
    obtain ⟨-, -, hstage⟩ := hpolled.pollers poller hpoller
    cases hpollStage : poller.stage with
    | stopped result =>
      rw [hpollStage] at hstage
      exact hstage
    | _ =>
      rw [hpollStage] at hstopped
      cases hstopped
  refine ⟨hpolled.sound.numbered, fun poller hpoller ↦ (hpolled.pollers poller hpoller).2.1, ?_, ?_,
    hpolled.output.exited⟩
  · intro poller hpoller hstopped
    obtain ⟨hreceived, hends⟩ := hwhole poller hpoller hstopped
    rw [hreceived]
    exact ⟨rfl, hends⟩
  · intro poller hpoller hstopped stream hended
    rw [(hwhole poller hpoller hstopped).1]
    have hreads := hpolled.output.readers stream
    rw [hended] at hreads
    exact hreads.read_eq_output.symm

end

theorem polled_start (eventLog stdin : Bool) : (start eventLog stdin).Polled := by
  refine ⟨sound_start eventLog stdin, ?_, by simp [start]⟩
  refine ⟨fun stream ↦ ⟨rfl, rfl⟩, trivial, (fun _ _ _ hstage ↦ by cases hstage), rfl, ?_⟩
  intro cursor exitCode hexit
  cases hexit

end RunningSandboxProcess

end Runs

/-- **A poller receives every event, if no page reads a terminal status late.**  In every run in which
events are pushed only while nobody has ended the process, and in which nothing is pushed between the
events of a page and a terminal status that is read with them: what a poller has received is a prefix of
the events; a poller that has stopped has received all of them, up to the terminal event, and all bytes
of a stream whose end was seen, which both are if the process exited; and a page with a terminal status
ends with the terminal event. -/
theorem poller_receives_all (eventLog stdin : Bool) {labels : List RunningLabel}
    (hrun : (runningProcess.restrict Current).Admits (.start eventLog stdin) labels) :
    (runningProcess.exec (.start eventLog stdin) labels).Delivers ∧
      runningProcess.Throughout EndsPage (.start eventLog stdin) labels := by
  have hstart := RunningSandboxProcess.polled_start eventLog stdin
  constructor
  · refine (System.invariant_of_restrict RunningSandboxProcess.Polled ?_ hstart hrun).delivers
    exact fun process label hpolled henabled hcurrent ↦ hpolled.next henabled hcurrent
  · rw [← System.throughout_restrict Current]
    refine System.throughout_of_invariant RunningSandboxProcess.Polled ?_ ?_ hstart hrun
    · exact fun process label hpolled henabled ↦ hpolled.next henabled.1 henabled.2
    · exact fun process label hpolled henabled ↦ hpolled.endsPage henabled.2

/-- A page before the end and one after it. -/
theorem poller_receives_all_run : (runningProcess.exec (.start true true)
      [.startPoll, .read .stdout [104, 105], .push .stdout [104, 105], .snapshot 0,
        .append .stdout (.stdout 1 [104, 105]), .endOfFile .stdout, .endOfFile .stderr, .look 0,
        .close .stdout, .close .stderr, .exit (.ok 0), .drain (.exited 0), .check (.exited 0),
        .advance .watcher .push (.exited 0), .advance .watcher (.append (.exit 2 0)) (.exited 0),
        .advance .watcher .update (.exited 0), .advance .watcher .set (.exited 0), .snapshot 0,
        .look 0]).Delivers :=
  (poller_receives_all true true (by decide +kernel)).1

/-- The events of a page, then the output and the exit, then the status of the page. -/
def latePageRun : List RunningLabel :=
  [.startPoll, .snapshot 0, .read .stdout [104, 105], .push .stdout [104, 105],
    .append .stdout (.stdout 1 [104, 105]), .endOfFile .stdout, .endOfFile .stderr,
    .close .stdout, .close .stderr, .exit (.ok 0), .drain (.exited 0), .check (.exited 0),
    .advance .watcher .push (.exited 0), .advance .watcher (.append (.exit 2 0)) (.exited 0),
    .advance .watcher .update (.exited 0), .advance .watcher .set (.exited 0), .look 0]

/-- **A late status hides the whole output.**  The poller has stopped and has received nothing. -/
theorem late_page_loses_output :
    runningProcess.Admits (.start true true) latePageRun ∧ RunningLabel.cancel ∉ latePageRun ∧
      ¬(runningProcess.exec (.start true true) latePageRun).Delivers ∧
      ¬runningProcess.Throughout EndsPage (.start true true) latePageRun := by
  have hstopped : ∀ poller ∈ (runningProcess.exec (.start true true) latePageRun).pollers,
      poller.stage.isStopped = true ∧ poller.received = [] := by
    decide +kernel
  refine ⟨by decide +kernel, by simp [latePageRun], fun hdelivers ↦ ?_, by decide +kernel⟩
  have hsome : 0 < (runningProcess.exec (.start true true) latePageRun).pollers.length := by
    decide +kernel
  obtain ⟨poller, hpoller⟩ := exists_mem_of_length_pos hsome
  have hwhole := (hdelivers.whole poller hpoller (hstopped poller hpoller).1).1
  rw [(hstopped poller hpoller).2] at hwhole
  revert hwhole
  decide +kernel

end Exo.Sandbox
