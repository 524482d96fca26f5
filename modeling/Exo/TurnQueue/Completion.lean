import Exo.TurnQueue.Alignment

/-!
# Crash-safe completion

What the journal of a turn holds at every stage of its worker, across crashes and recoveries: it is
empty, open or closed, it is not empty only if the entry is persisted as started, a turn leaves the
queue only when it is closed, and the executor is handed a turn only while nothing settles it.

`start` does not mark a suspended head as started, and the stream it returns yields the control
stored when it is first polled.  A head that is suspended when `start` runs and resumed or cancelled
before that poll is therefore executed without being marked.  The results below are about the runs
in which this does not happen; the run at the end shows what happens if it does.
-/

namespace Exo.TurnQueue.Completion

open Library TurnCoordinator TurnCoordinator.Coordinator TurnCoordinator.Fifo List
open TurnCoordinator.Control

/-! ## The journal at the stages of a worker -/

/-- The turn is the stored head and persisted as started. -/
def Started (c : Coordinator TurnWork) (turn : TurnRecord) : Prop :=
  ∃ entry rest, c.stored.pending = entry :: rest ∧ entry.turn = turn ∧ entry.started = true

/-- An error or the completion marker is there. -/
def Settled (data : List EventData) : Prop := ∃ event ∈ data, event.settles = true

/-- The appends that are left end an open turn, after settling it if it has to be. -/
def Ends (data : List EventData) (batches : List (List EventData)) : Prop :=
  Open data ∧ (batches = [[.turnEnded]] ∨
    ∃ event, event.settles = true ∧ batches = [[event], [.turnEnded]])

/-- What the journal holds when a worker stands at a stage. -/
def Recorded (c : Coordinator TurnWork) (journal : Journal) : Stage → Prop
  | .firstControl head wasStarted _ => wasStarted = false → dataOf journal head.turn.id = []
  | .openHead head wasStarted _ =>
    Started c head.turn ∧ (wasStarted = false → dataOf journal head.turn.id = [])
  | .finishHead head => Started c head.turn ∧ Open (dataOf journal head.turn.id)
  | .begin head recovering _ => Started c head.turn ∧
      (recovering = true →
        Open (dataOf journal head.turn.id) ∧ ¬ Settled (dataOf journal head.turn.id)) ∧
      (recovering = false → dataOf journal head.turn.id = [])
  | .submit execution => Started c execution.head.turn ∧ execution.finished = false ∧
      Open (dataOf journal execution.head.turn.id) ∧
      ¬ Settled (dataOf journal execution.head.turn.id)
  | .running execution => Started c execution.head.turn ∧ execution.finished = false ∧
      Open (dataOf journal execution.head.turn.id)
  | .finalize execution batches _ => Started c execution.head.turn ∧
      (batches = [] ∨ Ends (dataOf journal execution.head.turn.id) batches)
  | .settle head _ _ => Started c head.turn
  | .decide head _ _ status => Started c head.turn ∧
      (status = .unstarted → dataOf journal head.turn.id = []) ∧
      (status = .running → Open (dataOf journal head.turn.id)) ∧ ∀ result, status ≠ .finished result
  | .persist head batches => Started c head.turn ∧
      ((batches = [] ∧ Closed (dataOf journal head.turn.id)) ∨
        Ends (dataOf journal head.turn.id) batches ∨
        (dataOf journal head.turn.id = [] ∧ ∃ work message,
          batches = [beginEvents work, [.error message], [.turnEnded]]))
  | .acknowledge head => Closed (dataOf journal head.turn.id)
  | _ => True

theorem settles_ne {event : EventData} (hsettles : event.settles = true) :
    event ≠ .turnStarted ∧ event ≠ .turnEnded := by
  constructor <;> rintro rfl <;> cases hsettles

variable {data : List EventData} {before after : List (QueuedTurn TurnWork)}
  {entry' : QueuedTurn TurnWork} {turn : TurnId} {move : Move}

/-- One of the appends that end a turn: the turn stays open, or is closed by the last one. -/
theorem Ends.append {batch : List EventData} {batches : List (List EventData)}
    (hends : Ends data (batch :: batches)) :
    (Ends (data ++ batch) batches ∧ Open (data ++ batch)) ∨
      (batches = [] ∧ Closed (data ++ batch)) := by
  obtain ⟨hopen, heq | ⟨event, hsettles, heq⟩⟩ := hends
  · cases heq
    exact .inr ⟨rfl, hopen.close⟩
  · cases heq
    have hsnoc := hopen.snoc (settles_ne hsettles).1 (settles_ne hsettles).2
    exact .inl ⟨⟨hsnoc, .inl rfl⟩, hsnoc⟩

/-! ## One step of a worker -/

/-- What a step does to the pending entries: nothing, mark the head started, or remove a head whose
journal is closed. -/
inductive PendingMove (journal : Journal) (before : List (QueuedTurn TurnWork)) :
    List (QueuedTurn TurnWork) → Prop where
  | same : PendingMove journal before before
  | marked {head : QueuedTurn TurnWork} {rest : List (QueuedTurn TurnWork)}
      (hbefore : before = head :: rest) : PendingMove journal before (startedHead head :: rest)
  | removed {head : QueuedTurn TurnWork} {rest : List (QueuedTurn TurnWork)}
      (hbefore : before = head :: rest) (hclosed : Closed (dataOf journal head.turn.id)) :
      PendingMove journal before rest

/-- What a worker's move respects. -/
structure Sound (c : Coordinator TurnWork) (journal : Journal) (move : Move) : Prop where
  pending : PendingMove journal c.stored.pending move.coordinator.stored.pending
  batch : ∀ turn batch, move.batch = some (turn, batch) →
    Started c turn ∧ Shaped (dataOf journal turn.id ++ batch) ∧
      move.coordinator.stored.pending = c.stored.pending
  invoked : ∀ turn, move.invoked = some turn →
    Open (dataOf journal turn) ∧ ¬ Settled (dataOf journal turn)
  recorded : Recorded move.coordinator (journalAfter journal move.batch) move.stage

variable {c c' : Coordinator TurnWork} {journal : Journal} {stage : Stage} {s : Drain}
  {op : Op TurnWork}

theorem Sound.quiet (hstored : c'.stored = c.stored) (hrecorded : Recorded c' journal stage) :
    Sound c journal ⟨c', stage, none, none⟩ :=
  ⟨by rw [hstored]; exact .same, by simp, by simp, hrecorded⟩

theorem unsettled_beginEvents (work : TurnWork) : ¬ Settled (beginEvents work) := by
  obtain ⟨newSession, hasInput⟩ := work
  cases newSession <;> cases hasInput <;> simp [Settled, beginEvents, EventData.settles]

/-- The finalizer of an open turn writes nothing or ends the turn. -/
theorem ends_finalizerBatches (hopen : Open data) {execution : Execution}
    (hfinished : execution.finished = false) (outcome : HarnessTurnOutcome) :
    finalizerBatches journal execution outcome = [] ∨
      Ends data (finalizerBatches journal execution outcome) := by
  have hfinish : finishEvents execution.finished = [.turnEnded] := by
    rw [hfinished]
    rfl
  cases outcome with
  | completed =>
    refine .inr ⟨hopen, ?_⟩
    simp only [finalizerBatches, hfinish]
    split
    · exact .inl rfl
    · exact .inr ⟨.turnCompleted, rfl, rfl⟩
  | failed message =>
    exact .inr ⟨hopen, .inr ⟨.error message, rfl, by rw [finalizerBatches, hfinish]⟩⟩
  | cancelled =>
    exact .inr ⟨hopen, .inr ⟨.error _, rfl, by rw [finalizerBatches, hfinish]⟩⟩
  | suspended => exact .inl rfl
  | interrupted => exact .inl rfl

theorem ends_persistBatches {head : QueuedTurn TurnWork}
    (hopen : Open (dataOf journal head.turn.id)) (error : Option String) :
    Ends (dataOf journal head.turn.id) (persistBatches journal head error .running) := by
  refine ⟨hopen, .inr
    ⟨.error (error.getD "turn execution stopped without completion"), rfl, ?_⟩⟩
  rw [persistBatches, handleFinished_of_open hopen.2]
  rfl

section Step
variable {c : Coordinator TurnWork} {journal : Journal}
  (hshaped : ∀ turn, Shaped (dataOf journal turn))

/-- An append for the head, after which the turn is well formed and the next stage recorded. -/
theorem Sound.append {turn : TurnRecord} {batch : List EventData} (hstarted : Started c turn)
    (hshape : Shaped (dataOf journal turn.id ++ batch))
    (hrecorded : Recorded c (append journal turn batch) stage) :
    Sound c journal ⟨c, stage, some (turn, batch), none⟩ := by
  refine ⟨.same, ?_, by simp, hrecorded⟩
  intro turn' batch' heq
  cases heq
  exact ⟨hstarted, hshape, rfl⟩

/-! ### Stage by stage -/

variable {lease : LeaseIdentity} {draining : Bool}

theorem recorded_examine (head : Option (QueuedTurn TurnWork)) :
    Recorded c journal (examine head) := by
  unfold examine
  repeat' split
  all_goals trivial

variable {head : QueuedTurn TurnWork} {watch : WatchId} {error : Option String}

theorem sound_start
    (hmarked : ∀ entry ∈ c.stored.pending, dataOf journal entry.turn.id ≠ [] → entry.started = true)
    (hsnapshot : Snapshot c head) (store : StoreOutcome) :
    Sound c journal (advance c journal draining lease (.start head) (.call store)) := by
  simp only [advance]
  split
  · rename_i started c' hstarted
    obtain ⟨first, rest, -, hpending, rfl, rfl⟩ := start_ok hstarted
    obtain ⟨entry, rest', hpending', hturn, hsame⟩ := hsnapshot
    rw [hpending] at hpending'
    cases hpending'
    refine ⟨.marked hpending, by simp, by simp, ?_⟩
    intro hunstarted
    by_contra hne
    have hmark := hmarked first (by simp [hpending]) (by simpa using hne)
    rw [hsame, hunstarted] at hmark
    cases hmark
  · rename_i error c' hfailed
    rw [start_error hfailed]
    exact Sound.quiet rfl trivial

variable {wasStarted suspended : Bool} {batches : List (List EventData)}

/-- The first control of a head that is started, or the suspension, which goes back to the loop. -/
theorem sound_firstControl (hwatching : Watching c)
    (haligned : (Stage.firstControl head wasStarted watch).Aligned c)
    (hrecorded : Recorded c journal (.firstControl head wasStarted watch))
    (hfirst : ∀ entry rest, c.stored.pending = entry :: rest →
      entry.started = true ∨ entry.control = .suspend) (store : StoreOutcome) :
    Sound c journal
      (advance c journal draining lease (.firstControl head wasStarted watch) (.call store)) := by
  simp only [advance]
  split
  · exact Sound.quiet rfl trivial
  obtain ⟨-, hwatched, hunpolled⟩ := haligned
  obtain ⟨entry, rest, hpending, hturn, -, -, hready⟩ := poll_watched hwatching hwatched
  have hstored := poll_stored c watch
  have hanswer := hready hunpolled
  generalize c.poll watch = result at hstored hanswer
  obtain ⟨answer, c'⟩ := result
  cases hanswer
  dsimp only at hstored ⊢
  split
  · exact Sound.quiet hstored trivial
  · rename_i hcontrol
    have hmark := (hfirst entry rest hpending).resolve_right hcontrol
    refine Sound.quiet hstored ⟨⟨entry, rest, ?_, hturn, hmark⟩, hrecorded⟩
    rw [hstored, hpending]

theorem sound_begin {recovering : Bool}
    (hrecorded : Recorded c journal (.begin head recovering watch)) (store : StoreOutcome) :
    Sound c journal
      (advance c journal draining lease (.begin head recovering watch) (.call store)) := by
  obtain ⟨hstarted, hopen, hempty⟩ := hrecorded
  simp only [advance]
  split
  · exact Sound.quiet rfl hstarted
  split
  · exact Sound.quiet rfl hstarted
  split
  · rename_i hrecovering
    refine Sound.quiet rfl ⟨hstarted, ?_, hopen hrecovering⟩
    exact handleFinished_of_open (hopen hrecovering).1.2
  · rename_i hrecovering
    have hnil := hempty (by simpa using hrecovering)
    have hbegun := open_beginEvents head.work
    refine Sound.append hstarted ?_ ⟨hstarted, rfl, ?_, ?_⟩
    · rw [hnil]
      exact .inr (.inl hbegun)
    · rw [dataOf_append_self, hnil]
      exact hbegun
    · rw [dataOf_append_self, hnil]
      exact unsettled_beginEvents head.work

theorem sound_finalize {execution : Execution}
    (hrecorded : Recorded c journal (.finalize execution batches error)) (store : StoreOutcome) :
    Sound c journal
      (advance c journal draining lease (.finalize execution batches error) (.call store)) := by
  obtain ⟨hstarted, hends⟩ := hrecorded
  cases batches with
  | nil => exact Sound.quiet rfl hstarted
  | cons batch batches =>
    have hends := hends.resolve_left (by simp)
    simp only [advance]
    split
    · rcases hends.append with ⟨hrest, hopen⟩ | ⟨rfl, hclosed⟩
      · refine Sound.append hstarted (.inr (.inl hopen)) ⟨hstarted, .inr ?_⟩
        rw [dataOf_append_self]
        exact hrest
      · exact Sound.append hstarted (.inr (.inr hclosed)) ⟨hstarted, .inl rfl⟩
    split
    · -- The marker could not be written: an error takes its place.
      rename_i hmarker
      refine Sound.quiet rfl ⟨hstarted, .inr ⟨hends.1, .inr ⟨.error "storage", rfl, ?_⟩⟩⟩
      rcases hends.2 with heq | ⟨event, -, heq⟩
      · cases heq
        cases hmarker
      · cases heq
        rfl
    · exact Sound.quiet rfl ⟨hstarted, .inl rfl⟩

theorem sound_decide {status : JournalStatus}
    (hrecorded : Recorded c journal (.decide head suspended error status)) (store : StoreOutcome) :
    Sound c journal
      (advance c journal draining lease (.decide head suspended error status) (.call store)) := by
  obtain ⟨hstarted, hunstarted, hrunning, hunfinished⟩ := hrecorded
  simp only [advance]
  split
  · split
    · exact Sound.quiet rfl trivial
    split
    · exact Sound.quiet rfl trivial
    refine Sound.quiet rfl ⟨hstarted, .inr ?_⟩
    cases status with
    | finished result => exact absurd rfl (hunfinished result)
    | running => exact .inl (ends_persistBatches (hrunning rfl) error)
    | unstarted => exact .inr ⟨hunstarted rfl, head.work, _, rfl⟩
  · exact Sound.quiet rfl trivial

theorem sound_persist (hrecorded : Recorded c journal (.persist head batches))
    (store : StoreOutcome) :
    Sound c journal (advance c journal draining lease (.persist head batches) (.call store)) := by
  obtain ⟨hstarted, hends⟩ := hrecorded
  cases batches with
  | nil =>
    rcases hends with ⟨-, hclosed⟩ | ⟨-, heq | ⟨_, -, heq⟩⟩ | ⟨-, _, _, heq⟩
    · exact Sound.quiet rfl hclosed
    · cases heq
    · cases heq
    · cases heq
  | cons batch batches =>
    simp only [advance]
    split
    · exact Sound.quiet rfl trivial
    rcases hends with ⟨heq, -⟩ | hends | ⟨hnil, work, message, heq⟩
    · cases heq
    · rcases hends.append with ⟨hrest, hopen⟩ | ⟨rfl, hclosed⟩
      · refine Sound.append hstarted (.inr (.inl hopen)) ⟨hstarted, .inr (.inl ?_)⟩
        rw [dataOf_append_self]
        exact hrest
      · refine Sound.append hstarted (.inr (.inr hclosed)) ⟨hstarted, .inl ⟨rfl, ?_⟩⟩
        rw [dataOf_append_self]
        exact hclosed
    · cases heq
      have hbegun := open_beginEvents work
      refine Sound.append hstarted ?_ ⟨hstarted, .inr (.inl ⟨?_, .inr ⟨_, rfl, rfl⟩⟩)⟩
      · rw [hnil]
        exact .inr (.inl hbegun)
      · rw [dataOf_append_self, hnil]
        exact hbegun

theorem sound_acknowledge (hclosed : Closed (dataOf journal head.turn.id)) (store : StoreOutcome) :
    Sound c journal (advance c journal draining lease (.acknowledge head) (.call store)) := by
  simp only [advance]
  split
  · rename_i next c' hacked
    refine ⟨?_, by simp, by simp, trivial⟩
    rcases acknowledge_pending hacked with rfl | ⟨first, rest, hpending, hid, hafter⟩
    · exact .same
    · dsimp only
      rw [hafter]
      exact .removed hpending (by rw [hid]; exact hclosed)
  · rename_i error c' hfailed
    rw [acknowledge_error hfailed]
    exact Sound.quiet rfl trivial

include hshaped

theorem recorded_openQueueHead (hrecorded : Recorded c journal (.openHead head wasStarted watch)) :
    Recorded c journal (openQueueHead journal head wasStarted watch) := by
  obtain ⟨hstarted, hempty⟩ := hrecorded
  have hevents : (if wasStarted then eventsOf journal head.turn.id else []).map (·.data) =
      dataOf journal head.turn.id := by
    cases wasStarted with
    | true => rfl
    | false => exact (hempty rfl).symm
  unfold openQueueHead
  dsimp only
  generalize (if wasStarted then eventsOf journal head.turn.id else []) = events at hevents
  have hspec := status_spec events
  rw [hevents] at hspec
  split
  · exact hstarted
  rename_i hfinished
  split
  · exact hstarted
  split
  · rename_i hsettled
    refine ⟨hstarted, ?_⟩
    obtain ⟨event, hevent, -⟩ := any_eq_true.mp hsettled
    have hmem : event.data ∈ dataOf journal head.turn.id := by
      rw [← hevents]
      exact mem_map_of_mem hevent
    rcases hshaped head.turn.id with hnil | hopen | hclosed
    · rw [hnil] at hmem
      cases hmem
    · exact hopen
    · exfalso
      cases hstatus : journalStatusFromEvents events with
      | unstarted | running =>
        rw [hstatus] at hspec
        exact hspec.2 hclosed.ended
      | finished result => exact hfinished result hstatus
  rename_i hsettled
  have hunsettled : ¬ Settled (dataOf journal head.turn.id) := by
    rintro ⟨data, hdata, hsettles⟩
    rw [← hevents] at hdata
    obtain ⟨event, hevent, rfl⟩ := mem_map.mp hdata
    exact hsettled (any_eq_true.mpr ⟨event, hevent, hsettles⟩)
  split
  · rename_i hrunning
    rw [hrunning] at hspec
    split
    · exact ⟨hstarted, fun _ ↦ ⟨(hshaped _).open_of_started hspec.1 hspec.2, hunsettled⟩, by simp⟩
    · exact hstarted
  · rename_i hnot
    refine ⟨hstarted, by simp, fun _ ↦ ?_⟩
    cases hstatus : journalStatusFromEvents events with
    | unstarted =>
      rw [hstatus] at hspec
      exact (hshaped _).nil_of_unstarted hspec.1
    | running => exact absurd hstatus hnot
    | finished result => exact absurd hstatus (hfinished result)

theorem sound_settle (hstarted : Started c head.turn) (store : StoreOutcome) : Sound c journal
      (advance c journal draining lease (.settle head suspended error) (.call store)) := by
  simp only [advance]
  split
  · exact Sound.quiet rfl trivial
  have hspec := status_spec (eventsOf journal head.turn.id)
  have hshape := hshaped head.turn.id
  unfold journalStatus
  cases hstatus : journalStatusFromEvents (eventsOf journal head.turn.id) with
  | finished result =>
    rw [hstatus] at hspec
    exact Sound.quiet rfl (hshape.closed_of_ended hspec)
  | running =>
    rw [hstatus] at hspec
    dsimp only
    split
    · exact Sound.quiet rfl trivial
    · refine Sound.quiet rfl ⟨hstarted, by simp, fun _ ↦ ?_, by simp⟩
      exact hshape.open_of_started hspec.1 hspec.2
  | unstarted =>
    rw [hstatus] at hspec
    dsimp only
    split
    · exact Sound.quiet rfl trivial
    · refine Sound.quiet rfl ⟨hstarted, fun _ ↦ ?_, by simp, by simp⟩
      exact hshape.nil_of_unstarted hspec.1

/-- Every step of a worker respects the journal, if the first control it reads is the suspension or
the control of a started head. -/
theorem sound_advance (hwatching : Watching c)
    (hmarked : ∀ entry ∈ c.stored.pending, dataOf journal entry.turn.id ≠ [] → entry.started = true)
    (haligned : stage.Aligned c) (hrecorded : Recorded c journal stage) {choice : Choice}
    (hallowed : choice.allowed stage = true)
    (hfirst : ∀ head wasStarted watch, stage = .firstControl head wasStarted watch →
      ∀ entry rest, c.stored.pending = entry :: rest →
        entry.started = true ∨ entry.control = .suspend) :
    Sound c journal (advance c journal draining lease stage choice) := by
  have hquiet {stage : Stage} (hrecorded : Recorded c journal stage) :
      Sound c journal ⟨c, stage, none, none⟩ := Sound.quiet rfl hrecorded
  cases stage with
  | peekInitial =>
    cases choice with
    | call store =>
      simp only [advance]
      split <;> exact hquiet trivial
    | refuse | write | stop => exact hquiet trivial
  | loop initialHead =>
    cases choice with
    | call store =>
      simp only [advance]
      split
      · exact hquiet trivial
      split
      · exact hquiet (recorded_examine _)
      · split
        · exact hquiet (recorded_examine _)
        · exact hquiet trivial
    | refuse | write | stop => exact hquiet trivial
  | release =>
    cases choice with
    | call store =>
      simp only [advance]
      have hstored := releaseIfIdle_stored c store lease
      split
      all_goals
        rename_i heq
        rw [heq] at hstored
        exact Sound.quiet hstored trivial
    | refuse | write | stop => exact hquiet trivial
  | start head =>
    cases choice with
    | call store => exact sound_start hmarked haligned store
    | refuse | write | stop => exact hquiet trivial
  | firstControl head wasStarted watch =>
    cases choice with
    | call store =>
      exact sound_firstControl hwatching haligned hrecorded (hfirst head wasStarted watch rfl) store
    | refuse | write | stop => exact hquiet hrecorded
  | openHead head wasStarted watch =>
    cases choice with
    | call store =>
      simp only [advance]
      split
      · exact hquiet hrecorded.1
      · exact hquiet (recorded_openQueueHead hshaped hrecorded)
    | refuse | write | stop => exact hquiet hrecorded
  | finishHead head =>
    cases choice with
    | call store =>
      obtain ⟨hstarted, hopen⟩ := hrecorded
      simp only [advance]
      split
      · exact hquiet hstarted
      · rw [handleFinished_of_open hopen.2]
        exact Sound.append hstarted (.inr (.inr hopen.close)) hstarted
    | refuse | write | stop => exact hquiet hrecorded
  | begin head recovering watch =>
    cases choice with
    | call store => exact sound_begin hrecorded store
    | refuse => exact hquiet hrecorded.1
    | write | stop => exact hquiet hrecorded
  | submit execution =>
    obtain ⟨hstarted, hfinished, hopen, hunsettled⟩ := hrecorded
    cases choice with
    | call store =>
      refine ⟨.same, by simp [advance], ?_, ⟨hstarted, hfinished, hopen⟩⟩
      intro turn heq
      cases heq
      exact ⟨hopen, hunsettled⟩
    | refuse message =>
      refine hquiet ⟨hstarted, .inr ⟨hopen, .inr ⟨.error message, rfl, ?_⟩⟩⟩
      rw [hfinished]
      rfl
    | write | stop => exact hquiet ⟨hstarted, hfinished, hopen, hunsettled⟩
  | running execution =>
    obtain ⟨hstarted, hfinished, hopen⟩ := hrecorded
    cases choice with
    | write data =>
      have hdata : data ≠ .turnStarted ∧ data ≠ .turnEnded := by
        constructor <;> rintro rfl <;> cases hallowed
      have hsnoc := hopen.snoc hdata.1 hdata.2
      refine Sound.append hstarted (.inr (.inl hsnoc)) ⟨hstarted, hfinished, ?_⟩
      rw [dataOf_append_self]
      exact hsnoc
    | stop outcome =>
      refine hquiet ⟨hstarted, ?_⟩
      exact ends_finalizerBatches hopen hfinished outcome
    | call | refuse => exact hquiet ⟨hstarted, hfinished, hopen⟩
  | finalize execution batches error =>
    cases choice with
    | call store => exact sound_finalize hrecorded store
    | refuse | write | stop => cases batches <;> exact hquiet hrecorded
  | settle head suspended error =>
    cases choice with
    | call store => exact sound_settle hshaped hrecorded store
    | refuse | write | stop => exact hquiet hrecorded
  | decide head suspended error status =>
    cases choice with
    | call store => exact sound_decide hrecorded store
    | refuse | write | stop => exact hquiet hrecorded
  | persist head batches =>
    cases choice with
    | call store => exact sound_persist hrecorded store
    | refuse | write | stop => cases batches <;> exact hquiet hrecorded
  | acknowledge head =>
    cases choice with
    | call store => exact sound_acknowledge hrecorded store
    | refuse | write | stop => exact hquiet hrecorded
  | stopped =>
    cases choice with
    | _ => exact hquiet trivial

end Step

/-! ## The invariant -/

/-- The events of a turn that forbid handing it to the executor. -/
def EventData.stops (data : EventData) : Prop := data.settles = true ∨ data = .turnEnded

structure Safe (s : Drain) : Prop where
  aligned : Aligned s
  shaped : ∀ turn, Shaped (dataOf s.journal turn)
  marked : ∀ entry ∈ s.coordinator.stored.pending, dataOf s.journal entry.turn.id ≠ [] →
    entry.started = true
  known : ∀ turn ∈ ids s.coordinator.stored.pending, turn ∈ s.accepted
  removed : ∀ turn ∈ s.accepted, turn ∉ ids s.coordinator.stored.pending →
    Closed (dataOf s.journal turn)
  unknown : ∀ turn, turn ∉ s.accepted → dataOf s.journal turn = []
  recorded : ∀ worker ∈ s.workers, Recorded s.coordinator s.journal worker.stage
  executed : ∀ invocation ∈ s.invocations, invocation.2 ≤ s.journal.length ∧
    ∀ event ∈ s.journal.take invocation.2, event.turn.id = invocation.1 →
      ¬ EventData.stops event.data

/-- Where the entries of the queue come from after a worker's move. -/
theorem PendingMove.origin (hmove : PendingMove journal before after) (hentry' : entry' ∈ after) :
    ∃ entry ∈ before, entry'.turn = entry.turn ∧
      (entry.started = true → entry'.started = true) := by
  cases hmove with
  | same => exact ⟨entry', hentry', rfl, id⟩
  | @marked head rest hbefore =>
    rcases mem_cons.mp hentry' with rfl | hrest
    · refine ⟨head, by simp [hbefore], startedHead_turn head, ?_⟩
      intro hstarted
      unfold startedHead
      split
      · rfl
      · exact hstarted
    · exact ⟨entry', by simp [hbefore, hrest], rfl, id⟩
  | removed hbefore => exact ⟨entry', by simp [hbefore, hentry'], rfl, id⟩

/-- A turn that a worker's move takes out of the queue is closed. -/
theorem PendingMove.closed (hmove : PendingMove journal before after) (hbefore : turn ∈ ids before)
    (hafter : turn ∉ ids after) : Closed (dataOf journal turn) := by
  cases hmove with
  | same => exact absurd hbefore hafter
  | @marked head rest heq =>
    refine absurd ?_ hafter
    rw [heq] at hbefore
    simpa [ids] using hbefore
  | @removed head rest heq hclosed =>
    rw [heq, ids, map_cons, mem_cons] at hbefore
    rcases hbefore with rfl | hrest
    · exact hclosed
    · exact absurd hrest hafter

theorem Started.mem_ids {turn : TurnRecord} (hstarted : Started c turn) :
    turn.id ∈ ids c.stored.pending := by
  obtain ⟨entry, rest, hpending, rfl, -⟩ := hstarted
  simp [ids, hpending]

/-- An append changes the events of its own turn only. -/
theorem dataOf_journalAfter (journal : Journal) (appended : Option (TurnRecord × List EventData))
    (turn : TurnId) :
    dataOf (journalAfter journal appended) turn = dataOf journal turn ∨
      ∃ record batch, appended = some (record, batch) ∧ record.id = turn ∧
        dataOf (journalAfter journal appended) turn = dataOf journal turn ++ batch := by
  cases appended with
  | none => exact .inl rfl
  | some appended =>
    obtain ⟨record, batch⟩ := appended
    by_cases hturn : record.id = turn
    · subst hturn
      exact .inr ⟨record, batch, rfl, rfl, dataOf_append_self ..⟩
    · exact .inl (dataOf_append_other _ _ hturn)

theorem take_journalAfter (appended : Option (TurnRecord × List EventData)) {n : ℕ}
    (hle : n ≤ journal.length) : (journalAfter journal appended).take n = journal.take n := by
  cases appended with
  | none => rfl
  | some appended => exact take_append _ _ _ hle

theorem length_le_journalAfter (journal : Journal)
    (appended : Option (TurnRecord × List EventData)) :
    journal.length ≤ (journalAfter journal appended).length := by
  cases appended with
  | none => exact Nat.le_refl _
  | some appended => exact length_append ..

/-- The executor is handed a turn only while nothing in the journal stops it. -/
theorem Safe.executed_apply (hs : Safe s) (lease : LeaseIdentity)
    (hsound : Sound s.coordinator s.journal move) :
    ∀ invocation ∈ (s.apply lease move).invocations,
      invocation.2 ≤ (s.apply lease move).journal.length ∧
        ∀ event ∈ (s.apply lease move).journal.take invocation.2,
          event.turn.id = invocation.1 → ¬ EventData.stops event.data := by
  intro invocation hinvocation
  have hlength := length_le_journalAfter s.journal move.batch
  have hold (hmem : invocation ∈ s.invocations) :
      invocation.2 ≤ (s.apply lease move).journal.length ∧
        ∀ event ∈ (s.apply lease move).journal.take invocation.2,
          event.turn.id = invocation.1 → ¬ EventData.stops event.data := by
    obtain ⟨hle, hevents⟩ := hs.executed invocation hmem
    refine ⟨Nat.le_trans hle hlength, ?_⟩
    rw [Drain.apply, take_journalAfter move.batch hle]
    exact hevents
  cases hinvoked : move.invoked with
  | none =>
    simp only [Drain.apply, hinvoked] at hinvocation
    exact hold hinvocation
  | some turn =>
    simp only [Drain.apply, hinvoked] at hinvocation
    rcases mem_append.mp hinvocation with hmem | hmem
    · exact hold hmem
    · rw [mem_singleton.mp hmem]
      refine ⟨hlength, ?_⟩
      rw [Drain.apply, take_journalAfter move.batch (Nat.le_refl _), take_length]
      intro event hevent hturn
      have hmem' : event.data ∈ dataOf s.journal turn :=
        mem_map_of_mem (mem_filter.mpr ⟨hevent, by simpa using hturn⟩)
      obtain ⟨hopen, hunsettled⟩ := hsound.invoked turn hinvoked
      rintro (hsettles | hended)
      · exact hunsettled ⟨event.data, hmem', hsettles⟩
      · exact hopen.2 (hended ▸ hmem')

/-- A sound move of a worker keeps the invariant. -/
theorem Safe.apply (hs : Safe s) {worker : Worker} (hworker : worker ∈ s.workers)
    (hactive : worker.stage ≠ .stopped) (hsound : Sound s.coordinator s.journal move)
    (haligned : Aligned (s.apply worker.lease move)) : Safe (s.apply worker.lease move) := by
  have hdata := dataOf_journalAfter s.journal move.batch
  have hnodup := hs.aligned.watching.nodup
  refine ⟨haligned, ?_, ?_, ?_, ?_, ?_, ?_, hs.executed_apply worker.lease hsound⟩
  · intro turn
    rcases hdata turn with heq | ⟨record, batch, hbatch, rfl, heq⟩
    · rw [Drain.apply, heq]
      exact hs.shaped turn
    · rw [Drain.apply, heq]
      exact (hsound.batch record batch hbatch).2.1
  · intro entry' hentry' hne
    obtain ⟨entry, hentry, hturn, hkeeps⟩ := hsound.pending.origin hentry'
    apply hkeeps
    rw [hturn] at hne
    rcases hdata entry.turn.id with heq | ⟨record, batch, hbatch, hid, -⟩
    · rw [Drain.apply, heq] at hne
      exact hs.marked entry hentry hne
    · obtain ⟨head, rest, hpending, rfl, hstarted⟩ := (hsound.batch record batch hbatch).1
      rw [entry_eq_of_id_eq hnodup (by simp [hpending]) hentry hid.symm]
      exact hstarted
  · intro turn hturn
    obtain ⟨entry', hentry', rfl⟩ := mem_map.mp hturn
    obtain ⟨entry, hentry, heq, -⟩ := hsound.pending.origin hentry'
    rw [heq]
    exact hs.known _ (mem_map_of_mem hentry)
  · intro turn haccepted hgone
    by_cases hpending : turn ∈ ids s.coordinator.stored.pending
    · have hclosed := hsound.pending.closed hpending hgone
      rcases hdata turn with heq | ⟨record, batch, hbatch, -, -⟩
      · rw [Drain.apply, heq]
        exact hclosed
      · rw [Drain.apply, (hsound.batch record batch hbatch).2.2] at hgone
        exact absurd hpending hgone
    · rcases hdata turn with heq | ⟨record, batch, hbatch, rfl, -⟩
      · rw [Drain.apply, heq]
        exact hs.removed turn haccepted hpending
      · exact absurd (hsound.batch record batch hbatch).1.mem_ids hpending
  · intro turn hunknown
    rcases hdata turn with heq | ⟨record, batch, hbatch, rfl, -⟩
    · rw [Drain.apply, heq]
      exact hs.unknown turn hunknown
    · exact absurd (hs.known _ (hsound.batch record batch hbatch).1.mem_ids) hunknown
  · intro worker' hworker'
    obtain ⟨original, horiginal, rfl⟩ := mem_map.mp hworker'
    split
    · exact hsound.recorded
    · rename_i hne
      rw [hs.aligned.stopped_of_ne hworker hactive horiginal hne]
      trivial

/-! ## The other steps -/

/-- The journal at a stage does not depend on more of the coordinator than the started head. -/
theorem Recorded.mono (hrecorded : Recorded c journal stage)
    (hstarted : ∀ turn, Started c turn → Started c' turn) : Recorded c' journal stage := by
  cases stage with
  | openHead | finishHead | begin | submit | running | finalize | decide | persist =>
    exact ⟨hstarted _ hrecorded.1, hrecorded.2⟩
  | settle => exact hstarted _ hrecorded
  | _ => exact hrecorded

theorem Started.of_stored (hstored : c'.stored = c.stored) (turn : TurnRecord)
    (hstarted : Started c turn) : Started c' turn := by
  unfold Started at hstarted ⊢
  rw [hstored]
  exact hstarted

theorem Started.of_frames (hframes : Frames c c') (turn : TurnRecord) (hstarted : Started c turn) :
    Started c' turn := by
  obtain ⟨entry, rest, hpending, hturn, hmark⟩ := hstarted
  obtain ⟨entry', rest', hpending', hturn', hmark'⟩ := hframes.head entry rest hpending
  exact ⟨entry', rest', hpending', hturn'.trans hturn, hmark'.trans hmark⟩

theorem Recorded.signal (hrecorded : Recorded c journal stage) (turn : TurnId)
    (control : TurnControl) : Recorded c journal (stage.signal turn control) := by
  unfold Stage.signal
  split
  · split <;> exact hrecorded
  · exact hrecorded

theorem Recorded.interrupt (hrecorded : Recorded c journal stage) :
    Recorded c journal stage.interrupt := by
  unfold Stage.interrupt
  split <;> exact hrecorded

theorem readControl_stored (c : Coordinator TurnWork) (stage : Stage) :
    (readControl c stage).1.stored = c.stored := by
  unfold readControl
  split
  · rename_i execution
    have hstored := poll_stored c execution.watch
    split <;> simp_all
  · rename_i execution batches error
    have hstored := poll_stored c execution.watch
    split <;> simp_all
  · rfl

theorem Recorded.readControl (hrecorded : Recorded c journal stage) :
    Recorded c journal (readControl c stage).2 := by
  unfold TurnQueue.readControl
  split
  · split <;> first | exact hrecorded | trivial
  · split <;> first | exact hrecorded | trivial
  · exact hrecorded

/-- A step that writes neither the queue nor the journal. -/
theorem Safe.of_same {s' : Drain} (hs : Safe s) (haligned : Aligned s')
    (hstored : s'.coordinator.stored = s.coordinator.stored) (hjournal : s'.journal = s.journal)
    (haccepted : s'.accepted = s.accepted) (hinvocations : s'.invocations = s.invocations)
    (hrecorded : ∀ worker ∈ s'.workers, Recorded s.coordinator s.journal worker.stage) :
    Safe s' := by
  refine ⟨haligned, ?_, ?_, ?_, ?_, ?_, ?_, ?_⟩
  · rw [hjournal]
    exact hs.shaped
  · rw [hjournal, hstored]
    exact hs.marked
  · rw [haccepted, hstored]
    exact hs.known
  · rw [haccepted, hjournal, hstored]
    exact hs.removed
  · rw [haccepted, hjournal]
    exact hs.unknown
  · rw [hjournal]
    exact fun worker hworker ↦ (hrecorded worker hworker).mono (Started.of_stored hstored)
  · rw [hjournal, hinvocations]
    exact hs.executed

theorem acceptedTurn_eq_nil {response : Response TurnWork}
    (hresponse : ∀ turn, response ≠ .accepted ⟨turn, false⟩) : acceptedTurn response = [] := by
  unfold acceptedTurn
  split
  · exact absurd rfl (hresponse _)
  · rfl

/-- A request appends the turn it adds and keeps the ids before it. -/
theorem request_ids (c : Coordinator TurnWork) (hrequest : isRequest op = true) :
    ids (c.perform op).2.stored.pending =
      ids c.stored.pending ++ acceptedTurn (c.perform op).1 := by
  have heffect := perform_effect c op
  generalize (c.perform op).1 = response at heffect
  generalize (c.perform op).2.stored = after at heffect
  cases heffect with
  | unchanged hresponse => rw [acceptedTurn_eq_nil hresponse, append_nil]
  | admitted hop hnew =>
    rw [ids_eq_map_content, acceptState, map_append, map_content_cancelHead]
    simp [ids_eq_map_content, content, contentId, entryOf, acceptedTurn]
  | @controlled turn authority control entry hop =>
    rw [ids_setControl, acceptedTurn_eq_nil (by simp), append_nil]
  | started hop => simp [hop, isRequest] at hrequest
  | removed hop => simp [hop, isRequest] at hrequest

/-- A request leaves the `started` flags alone; the turn it adds is not started. -/
theorem request_origin (hnodup : (ids c.stored.pending).Nodup) (hrequest : isRequest op = true)
    (hentry' : entry' ∈ (c.perform op).2.stored.pending) :
    (∃ entry ∈ c.stored.pending, entry'.turn = entry.turn ∧ entry'.started = entry.started) ∨
      entry'.turn.id ∈ acceptedTurn (c.perform op).1 := by
  have heffect := perform_effect c op
  generalize (c.perform op).1 = response at heffect
  generalize (c.perform op).2.stored = after at heffect hentry'
  cases heffect with
  | unchanged hresponse => exact .inl ⟨entry', hentry', rfl, rfl⟩
  | @admitted now turn hop hnew =>
    rcases mem_append.mp hentry' with hold | hnew
    · rcases mem_cancelHead hold with hmem | ⟨head, rest, hpending, -, rfl⟩
      · exact .inl ⟨entry', hmem, rfl, rfl⟩
      · exact .inl ⟨head, by simp [hpending], rfl, rfl⟩
    · rw [mem_singleton.mp hnew]
      exact .inr (by simp [acceptedTurn, entryOf])
  | @controlled turn authority control entry hop =>
    obtain ⟨original, horiginal, rfl⟩ := (mem_setControl hnodup).mp hentry'
    refine .inl ⟨original, horiginal, ?_⟩
    split <;> exact ⟨rfl, rfl⟩
  | started hop => simp [hop, isRequest] at hrequest
  | removed hop => simp [hop, isRequest] at hrequest

/-- An id that was accepted before is submitted again only while it is pending.  The runtime makes
the ids of its submissions with `Uuid7::now`. -/
def FreshIds (s : Drain) : Label → Prop
  | .request (.enqueue _ _ turn) =>
    turn.turn.id ∈ s.accepted → turn.turn.id ∈ ids s.coordinator.stored.pending
  | _ => True

theorem fresh_of_accepted (hfresh : FreshIds s (.request op))
    (haccepted : turn ∈ acceptedTurn (s.coordinator.perform op).1) : turn ∉ s.accepted := by
  have heffect := perform_effect s.coordinator op
  generalize (s.coordinator.perform op).1 = response at heffect haccepted
  generalize (s.coordinator.perform op).2.stored = after at heffect
  cases heffect with
  | unchanged hresponse =>
    rw [acceptedTurn_eq_nil hresponse] at haccepted
    cases haccepted
  | @admitted now submission hop hnew =>
    rw [hop] at hfresh
    have heq : turn = submission.turn.id := by simpa [acceptedTurn] using haccepted
    rw [heq]
    exact fun hmem ↦ not_mem_ids_of_duplicateOf hnew (hfresh hmem)
  | controlled | started | removed =>
    rw [acceptedTurn_eq_nil (by simp)] at haccepted
    cases haccepted

theorem Safe.request (hs : Safe s) (hrequest : isRequest op = true)
    (hfresh : FreshIds s (.request op)) (haligned : Aligned (s.next (.request op))) :
    Safe (s.next (.request op)) := by
  have hids := request_ids s.coordinator hrequest
  refine ⟨haligned, hs.shaped, ?_, ?_, ?_, ?_, ?_, hs.executed⟩
  · intro entry' hentry' hne
    rcases request_origin hs.aligned.watching.nodup hrequest hentry' with
      ⟨entry, hentry, hturn, hstarted⟩ | hnew
    · rw [hstarted]
      exact hs.marked entry hentry (by rw [← hturn]; exact hne)
    · exact absurd (hs.unknown _ (fresh_of_accepted hfresh hnew)) hne
  · intro turn hturn
    simp only [Drain.next] at hturn ⊢
    rw [hids] at hturn
    rcases mem_append.mp hturn with hold | hnew
    · exact mem_append_left _ (hs.known turn hold)
    · exact mem_append_right _ hnew
  · intro turn hturn hgone
    simp only [Drain.next] at hturn hgone
    rw [hids, mem_append, not_or] at hgone
    rcases mem_append.mp hturn with hold | hnew
    · exact hs.removed turn hold hgone.1
    · exact absurd hnew hgone.2
  · intro turn hturn
    exact hs.unknown turn (fun hmem ↦ hturn (mem_append_left _ hmem))
  · intro worker hworker
    exact (hs.recorded worker hworker).mono (Started.of_frames (frames_request hrequest))

/-- Whether the next step of a worker reads the first value of its control stream. -/
def Stage.readsFirst : Stage → Bool
  | .firstControl _ _ _ => true
  | _ => false

/-- The head is started, or suspended. -/
def startedOrSuspended : List (QueuedTurn TurnWork) → Bool
  | [] => true
  | head :: _ => head.started || head.control = .suspend

/-- A worker that reads the first value of its control stream finds the head started or
suspended. -/
def ReadsStarted (s : Drain) : Label → Prop
  | .work lease _ => ∀ worker ∈ s.workers, worker.lease = lease →
      Stage.readsFirst worker.stage = true → startedOrSuspended s.coordinator.stored.pending = true
  | _ => True

/-- The conditions on the steps of a run. -/
def Careful (s : Drain) (label : Label) : Prop := FreshIds s label ∧ ReadsStarted s label

instance (s : Drain) (label : Label) : Decidable (FreshIds s label) :=
  match label with
  | .request (.enqueue _ _ turn) =>
    inferInstanceAs (Decidable (turn.turn.id ∈ s.accepted → _))
  | .request (.cancel _ _ _) | .request (.setSuspended _ _ _ _) | .request (.claim _)
  | .request (.get _ _) | .request (.peek _ _) | .request (.start _ _ _)
  | .request (.acknowledge _ _ _) | .request (.releaseIfIdle _ _) | .request (.poll _)
  | .request (.dropLease _) | .request .dropThreadState | .wake | .signal _ | .claim _ _
  | .work _ _ | .control _ | .drop _ | .dropThreadState | .shutdown | .crash => isTrue trivial

instance (s : Drain) (label : Label) : Decidable (ReadsStarted s label) :=
  match label with
  | .work lease _ => inferInstanceAs (Decidable (∀ worker ∈ s.workers, worker.lease = lease → _))
  | .request _ | .wake | .signal _ | .claim _ _ | .control _ | .drop _ | .dropThreadState
  | .shutdown | .crash => isTrue trivial

instance (s : Drain) (label : Label) : Decidable (Careful s label) :=
  inferInstanceAs (Decidable (_ ∧ _))

theorem Safe.step (hs : Safe s) {label : Label} (henabled : s.enabled label)
    (hcareful : Careful s label) : Safe (s.next label) := by
  have haligned := hs.aligned.step henabled
  cases label with
  | request op => exact hs.request henabled.2 hcareful.1 haligned
  | wake => exact hs.of_same haligned rfl rfl rfl rfl hs.recorded
  | signal index =>
    revert haligned
    simp only [Drain.next]
    split
    · intro haligned
      refine hs.of_same haligned rfl rfl rfl rfl ?_
      intro worker hworker
      obtain ⟨original, horiginal, rfl⟩ := mem_map.mp hworker
      exact (hs.recorded original horiginal).signal _ _
    · exact fun _ ↦ hs
  | claim index identity =>
    have hstored : (s.coordinator.claim identity).2.stored = s.coordinator.stored := by
      unfold Coordinator.claim
      split <;> rfl
    refine hs.of_same haligned hstored rfl rfl rfl ?_
    intro worker hworker
    simp only [Drain.next] at hworker
    split at hworker
    · rcases mem_append.mp hworker with hold | hnew
      · exact hs.recorded worker hold
      · rw [mem_singleton.mp hnew]
        trivial
    · exact hs.recorded worker hworker
  | work lease choice =>
    obtain ⟨worker, hworker, rfl, hallowed⟩ := henabled
    by_cases hactive : worker.stage = .stopped
    · rw [hs.aligned.work_stopped hworker hactive]
      exact hs
    revert haligned
    simp only [Drain.next, hs.aligned.find_eq hworker]
    refine hs.apply hworker hactive ?_
    refine sound_advance hs.shaped hs.aligned.watching hs.marked (hs.aligned.aligned worker hworker)
      (hs.recorded worker hworker) hallowed ?_
    intro head wasStarted watch hstage entry rest hpending
    have hreads := hcareful.2 worker hworker rfl (by rw [hstage]; rfl)
    rw [hpending] at hreads
    simpa [startedOrSuspended] using hreads
  | control lease =>
    obtain ⟨worker, hworker, rfl, -⟩ := henabled
    revert haligned
    simp only [Drain.next, hs.aligned.find_eq hworker]
    intro haligned
    refine hs.of_same haligned (readControl_stored _ _) rfl rfl rfl ?_
    intro worker' hworker'
    obtain ⟨original, horiginal, rfl⟩ := mem_map.mp hworker'
    split
    · exact (hs.recorded worker hworker).readControl
    · exact hs.recorded original horiginal
  | drop lease =>
    refine hs.of_same haligned rfl rfl rfl rfl ?_
    exact fun worker hworker ↦ hs.recorded worker (mem_filter.mp hworker).1
  | dropThreadState =>
    refine hs.of_same haligned ?_ rfl rfl rfl hs.recorded
    simp [Drain.next, Coordinator.dropThreadState]
  | shutdown =>
    refine hs.of_same haligned rfl rfl rfl rfl ?_
    intro worker hworker
    obtain ⟨original, horiginal, rfl⟩ := mem_map.mp hworker
    exact (hs.recorded original horiginal).interrupt
  | crash => exact hs.of_same haligned rfl rfl rfl rfl (by simp [Drain.next])

theorem safe_init : Safe {} := by
  refine ⟨aligned_init, fun turn ↦ .inl rfl, ?_, ?_, ?_, fun turn _ ↦ rfl, ?_, ?_⟩
  all_goals simp [ids]

/-- Crash-safe completion in a state: a turn that has left the queue has begun once and ended once;
nothing is recorded after the end of a turn and nobody executes it then; the executor was never
handed a turn that an error, the completion marker or the end had settled; and a pending turn has
events only if it is persisted as started. -/
structure CrashSafe (s : Drain) : Prop where
  removed : ∀ turn ∈ s.accepted, turn ∉ ids s.coordinator.stored.pending →
    .turnEnded ∈ dataOf s.journal turn ∧ (dataOf s.journal turn).count .turnStarted = 1 ∧
      (dataOf s.journal turn).count .turnEnded = 1
  final : ∀ turn before after, dataOf s.journal turn = before ++ .turnEnded :: after → after = []
  idle : ∀ worker ∈ s.workers, ∀ execution, worker.stage = .running execution →
    .turnEnded ∉ dataOf s.journal execution.head.turn.id
  executed : ∀ invocation ∈ s.invocations, ∀ event ∈ s.journal.take invocation.2,
    event.turn.id = invocation.1 → event.data.settles = false ∧ event.data ≠ .turnEnded
  marked : ∀ entry ∈ s.coordinator.stored.pending, dataOf s.journal entry.turn.id ≠ [] →
    entry.started = true

theorem Safe.crashSafe (hs : Safe s) : CrashSafe s := by
  refine ⟨?_, ?_, ?_, ?_, hs.marked⟩
  · intro turn haccepted hgone
    have hclosed := hs.removed turn haccepted hgone
    exact ⟨hclosed.ended, hclosed.counts⟩
  · exact fun turn before after heq ↦ (hs.shaped turn).final heq
  · intro worker hworker execution hstage
    have hrecorded := hs.recorded worker hworker
    rw [hstage] at hrecorded
    exact hrecorded.2.2.2
  · intro invocation hinvocation event hevent hturn
    have hstops := (hs.executed invocation hinvocation).2 event hevent hturn
    unfold EventData.stops at hstops
    rw [not_or, Bool.not_eq_true] at hstops
    exact hstops

/-- **Crash-safe turn completion.**  In every run with any crashes, shutdowns, storage faults and
requests in which every first control is read from a head that is started or suspended, every state
is crash safe. -/
theorem completion_is_crash_safe (labels : List Label)
    (hrun : (Drain.system.restrict Careful).Admits {} labels) :
    CrashSafe (Drain.system.exec {} labels) := by
  apply Safe.crashSafe
  refine System.invariant_of_restrict Safe ?_ safe_init hrun
  exact fun state label hstate henabled hcareful ↦ hstate.step henabled hcareful

/-- A turn is executed, the process dies before the end is recorded, and the next drain completes
what is recorded. -/
theorem completion_is_crash_safe_recovered : let labels : List Label := [
      .request (.enqueue .ok 0 ⟨⟨1, 9⟩, {}, none, {}⟩),
      .claim 0 7,
      .work 7 (.call .ok),
      .work 7 (.call .ok),
      .work 7 (.call .ok),
      .work 7 (.call .ok),
      .work 7 (.call .ok),
      .work 7 (.call .ok),
      .work 7 (.call .ok),
      .work 7 (.write .turnCompleted),
      .crash,
      .wake,
      .claim 0 8,
      .work 8 (.call .ok),
      .work 8 (.call .ok),
      .work 8 (.call .ok),
      .work 8 (.call .ok),
      .work 8 (.call .ok),
      .work 8 (.call .ok),
      .work 8 (.call .ok),
      .work 8 (.call .ok)]
    let s := Drain.system.exec {} labels
    CrashSafe s ∧ ids s.coordinator.stored.pending = [] ∧ s.invocations = [(1, 3)] := by
  intro labels s
  exact ⟨completion_is_crash_safe labels (by decide), by decide, by decide⟩

/-- A head that is suspended when `start` runs and resumed before the stream is read is executed
without being marked as started.  After a crash the recovery does not look at its journal: the turn
begins again, and the executor gets it although its completion marker is recorded. -/
theorem completion_is_not_crash_safe :
    ¬ ∀ labels, (Drain.system.restrict FreshIds).Admits {} labels →
      CrashSafe (Drain.system.exec {} labels) := by
  intro hall
  have hsafe := hall [
    .request (.enqueue .ok 0 ⟨⟨1, 9⟩, {}, none, {}⟩),
    .claim 0 7,
    .work 7 (.call .ok),
    .work 7 (.call .ok),
    .request (.setSuspended .ok 1 .threadOwner true),
    .work 7 (.call .ok),
    .request (.setSuspended .ok 1 .threadOwner false),
    .work 7 (.call .ok),
    .work 7 (.call .ok),
    .work 7 (.call .ok),
    .work 7 (.call .ok),
    .work 7 (.write .turnCompleted),
    .crash,
    .wake,
    .claim 0 8,
    .work 8 (.call .ok),
    .work 8 (.call .ok),
    .work 8 (.call .ok),
    .work 8 (.call .ok),
    .work 8 (.call .ok),
    .work 8 (.call .ok),
    .work 8 (.call .ok),
    .work 8 (.stop .completed),
    .work 8 (.call .ok),
    .work 8 (.call .ok),
    .work 8 (.call .ok),
    .work 8 (.call .ok)] (by decide)
  exact absurd (hsafe.removed 1 (by decide) (by decide)).2.1 (by decide)

end Exo.TurnQueue.Completion
