import Exo.TurnCoordinator.Control
import Exo.TurnQueue.Drain

/-!
# Workers and the stored head

A worker that has not stopped owns the queue, so between two of its own steps nobody else removes
the head it works on, marks it started or replaces its control watch; clients only append entries
and change controls.  `Aligned` collects this for every stage, in every run with any faults.
-/

namespace Exo.TurnQueue

open Library TurnCoordinator TurnCoordinator.Coordinator TurnCoordinator.Control List

/-! ## What the operations of a worker return -/

section Operations
variable {c : Coordinator TurnWork} {store : StoreOutcome} {lease : LeaseIdentity} {turn : TurnId}

theorem peek_ok {head : Option (QueuedTurn TurnWork)} (hpeek : c.peek store lease = .ok head) :
    head = c.stored.pending.head? := by
  unfold peek at hpeek
  repeat' split at hpeek
  all_goals cases hpeek
  rfl

variable {c' : Coordinator TurnWork} {error : CoordinatorError}

theorem start_ok {started : QueuedTurn TurnWork × WatchId}
    (hstart : c.start store lease turn = (.ok started, c')) :
    ∃ first rest, turn = first.turn.id ∧ c.stored.pending = first :: rest ∧
      started = (startedHead first, c.watches.length) ∧ c' = { c with
        stored := { c.stored with pending := startedHead first :: rest }
        mutation := { c.mutation with control := some (first.turn.id, c.watches.length) }
        watches := c.dropControl.watches ++ [Watch.channel first.control] } := by
  have hperform : (c.perform (.start store lease turn)).1 = .started started.1 started.2 := by
    simp [perform, hstart, Response.ofExcept]
  obtain ⟨_, _, first, rest, hop, -, hpending, hhead, hwatch, hafter⟩ := perform_started hperform
  cases hop
  refine ⟨first, rest, rfl, hpending, Prod.ext hhead hwatch, ?_⟩
  rw [← hafter]
  simp [perform, hstart]

theorem acknowledge_ok {next : Option (QueuedTurn TurnWork)}
    (hack : c.acknowledge store lease turn = (.ok next, c')) :
    next = c'.stored.pending.head? ∧ c'.live = c.live ∧ c'.mutation.owner = c.mutation.owner := by
  unfold acknowledge at hack
  repeat' split at hack
  all_goals cases hack
  all_goals simp

/-- A successful acknowledgment repeats the last one or removes the head. -/
theorem acknowledge_pending {next : Option (QueuedTurn TurnWork)}
    (hack : c.acknowledge store lease turn = (.ok next, c')) :
    c' = c ∨ ∃ head rest, c.stored.pending = head :: rest ∧ head.turn.id = turn ∧
      c'.stored.pending = rest := by
  unfold acknowledge at hack
  repeat' split at hack
  all_goals cases hack
  · exact .inl rfl
  · rename_i head rest hpending hid _
    exact .inr ⟨head, rest, hpending, by simpa using hid, rfl⟩

theorem release_ok {released : Bool} (hrelease : c.releaseIfIdle store lease = (.ok released, c')) :
    c'.live = c.live ∧ (released = false → c' = c) ∧
      (released = true → c'.mutation.owner = none ∧ c'.stored = c.stored ∧
        runnable c.stored.pending = false) := by
  unfold releaseIfIdle at hrelease
  split at hrelease
  · cases hrelease
  split at hrelease
  · cases hrelease
  split at hrelease <;> cases hrelease
  · exact ⟨rfl, fun _ ↦ rfl, by simp⟩
  · rename_i hrunnable
    exact ⟨by simp, by simp, fun _ ↦ ⟨rfl, by simp, by simpa using hrunnable⟩⟩

theorem release_error (hrelease : c.releaseIfIdle store lease = (.error error, c')) : c' = c := by
  unfold releaseIfIdle at hrelease
  repeat' split at hrelease
  all_goals cases hrelease
  all_goals rfl

theorem start_error (hstart : c.start store lease turn = (.error error, c')) : c' = c := by
  unfold start at hstart
  repeat' split at hstart
  all_goals cases hstart
  all_goals rfl

theorem acknowledge_error (hack : c.acknowledge store lease turn = (.error error, c')) :
    c' = c := by
  unfold acknowledge at hack
  repeat' split at hack
  all_goals cases hack
  all_goals rfl

@[simp]
theorem poll_mutation (c : Coordinator TurnWork) (watch : WatchId) :
    (c.poll watch).2.mutation = c.mutation := by
  unfold poll
  split <;> rfl

@[simp]
theorem poll_live (c : Coordinator TurnWork) (watch : WatchId) :
    (c.poll watch).2.live = c.live := by
  unfold poll
  split <;> rfl

end Operations

/-! ## The stage of a worker and the coordinator -/

section
variable (c : Coordinator TurnWork)

/-- The turn is the stored head. -/
def AtHead (turn : TurnRecord) : Prop :=
  ∃ entry rest, c.stored.pending = entry :: rest ∧ entry.turn = turn

/-- The snapshot has the identity and the `started` flag of the stored head. -/
def Snapshot (head : QueuedTurn TurnWork) : Prop :=
  ∃ entry rest, c.stored.pending = entry :: rest ∧ entry.turn = head.turn ∧
    entry.started = head.started

/-- The turn is the stored head and the watch is the one installed for it. -/
def Watched (turn : TurnRecord) (watch : WatchId) : Prop :=
  AtHead c turn ∧ c.mutation.control = some (turn.id, watch)

/-- The stream over the watch has not been polled. -/
def Unpolled (watch : WatchId) : Prop :=
  ∀ channel, c.watches[watch]? = some channel → channel.seen = none

def Stage.Aligned : Stage → Prop
  | .loop (some (some head)) => Snapshot c head
  | .start head => Snapshot c head
  | .firstControl head _ watch =>
    Snapshot c head ∧ Watched c head.turn watch ∧ Unpolled c watch
  | .openHead head _ watch => Watched c head.turn watch
  | .begin head _ watch => Watched c head.turn watch
  | .submit execution => Watched c execution.head.turn execution.watch
  | .running execution => Watched c execution.head.turn execution.watch
  | .finalize execution _ _ => Watched c execution.head.turn execution.watch
  | .finishHead head => AtHead c head.turn
  | .settle head _ _ => AtHead c head.turn
  | .decide head _ _ _ => AtHead c head.turn
  | .persist head _ => AtHead c head.turn
  | .acknowledge head => AtHead c head.turn
  | _ => True

end

variable {c : Coordinator TurnWork} {stage : Stage} {s : Drain} {worker : Worker}

theorem snapshot_of_head {head : QueuedTurn TurnWork} (hhead : c.stored.pending.head? = some head) :
    Snapshot c head := by
  cases hpending : c.stored.pending with
  | nil => simp [hpending] at hhead
  | cons entry rest =>
    rw [hpending] at hhead
    cases hhead
    exact ⟨head, rest, hpending, rfl, rfl⟩

theorem examine_aligned {head : Option (QueuedTurn TurnWork)}
    (hhead : ∀ entry, head = some entry → Snapshot c entry) : (examine head).Aligned c := by
  unfold examine
  split
  · trivial
  · split
    · trivial
    · exact hhead _ rfl

variable {watch : WatchId} {c' : Coordinator TurnWork} {op : Op TurnWork}

/-- The first poll of the installed stream yields the control stored for the head. -/
theorem poll_watched (hwatching : Watching c) {turn : TurnRecord}
    (hwatched : Watched c turn watch) :
    ∃ entry rest, c.stored.pending = entry :: rest ∧ entry.turn = turn ∧
      (c.poll watch).1 ≠ .ended ∧ (∀ control, (c.poll watch).1 = .ready control →
        control = entry.control) ∧
      (Unpolled c watch → (c.poll watch).1 = .ready entry.control) := by
  obtain ⟨⟨entry, rest, hpending, hturn⟩, hcontrol⟩ := hwatched
  obtain ⟨found, hfound, hid, channel, hchannel, hopen, hvalue⟩ :=
    hwatching.current turn.id watch hcontrol
  have heq : found = entry := by
    apply entry_eq_of_id_eq hwatching.nodup (by simp [hpending]) hfound
    rw [hid, hturn]
  subst heq
  have hpoll : (c.poll watch).1 = channel.poll.1 := by simp [Coordinator.poll, hchannel]
  refine ⟨found, rest, hpending, hturn, ?_, ?_, ?_⟩
  · rw [hpoll]
    unfold Watch.poll
    split <;> simp [hopen]
  · intro control hready
    rw [hpoll] at hready
    rw [Watch.value_of_poll_ready hready, hvalue]
  · intro hunpolled
    rw [hpoll, Watch.poll_of_unseen (hunpolled channel hchannel), hvalue]

/-- What a step of the owner keeps: the lease, and the alignment of its next stage. -/
structure Keeps (c : Coordinator TurnWork) (lease : LeaseIdentity) (c' : Coordinator TurnWork)
    (stage : Stage) : Prop where
  watching : Watching c'
  live : c'.live = c.live
  owner : stage ≠ .stopped → c'.mutation.owner = some lease
  aligned : stage.Aligned c'

section Owner
variable {c : Coordinator TurnWork} {lease : LeaseIdentity} (hwatching : Watching c)
  (howner : c.mutation.owner = some lease)
include hwatching howner

theorem Keeps.same {stage : Stage} (haligned : stage.Aligned c) : Keeps c lease c stage :=
  ⟨hwatching, rfl, fun _ ↦ howner, haligned⟩

theorem Keeps.poll {stage : Stage} {watch : WatchId} (haligned : stage.Aligned (c.poll watch).2) :
    Keeps c lease (c.poll watch).2 stage :=
  ⟨hwatching.poll watch, poll_live c watch, fun _ ↦ by rw [poll_mutation, howner], haligned⟩

variable {head : QueuedTurn TurnWork} {wasStarted : Bool} {watch : WatchId}

theorem keeps_openQueueHead {journal : Journal} (hwatched : Watched c head.turn watch) :
    Keeps c lease c (openQueueHead journal head wasStarted watch) := by
  apply Keeps.same hwatching howner
  unfold openQueueHead
  dsimp only
  generalize (if wasStarted then eventsOf journal head.turn.id else []) = events
  split
  · exact hwatched.1
  split
  · exact hwatched.1
  split
  · exact hwatched.1
  split
  · split
    · exact hwatched
    · exact hwatched.1
  · exact hwatched

variable {journal : Journal} {draining : Bool}

theorem keeps_release (store : StoreOutcome) :
    Keeps c lease (advance c journal draining lease .release (.call store)).coordinator
      (advance c journal draining lease .release (.call store)).stage := by
  have hrelease := hwatching.releaseIfIdle store lease
  simp only [advance]
  split
  · rename_i c' hreleased
    rw [hreleased] at hrelease
    exact ⟨hrelease, (release_ok hreleased).1, fun hne ↦ absurd rfl hne, trivial⟩
  · rename_i c' hreleased
    rw [(release_ok hreleased).2.1 rfl]
    exact Keeps.same hwatching howner trivial
  · rename_i error c' hreleased
    rw [release_error hreleased]
    exact Keeps.same hwatching howner trivial

/-- `start` installs a new watch, which no one has polled. -/
theorem keeps_start (head : QueuedTurn TurnWork) (store : StoreOutcome) :
    Keeps c lease (advance c journal draining lease (.start head) (.call store)).coordinator
      (advance c journal draining lease (.start head) (.call store)).stage := by
  have hstart := hwatching.start store lease head.turn.id
    (Fifo.nodup_ids_step hwatching.nodup (.start store lease head.turn.id))
  simp only [advance]
  split
  · rename_i started c' hstarted
    rw [hstarted] at hstart
    obtain ⟨first, rest, hturn, hpending, rfl, rfl⟩ := start_ok hstarted
    refine ⟨hstart, rfl, fun _ ↦ howner, ?_, ⟨?_, ?_⟩, ?_⟩
    · exact ⟨startedHead first, rest, rfl, rfl, rfl⟩
    · exact ⟨startedHead first, rest, rfl, rfl⟩
    · simp
    · intro channel hchannel
      simp only [← dropControl_watches_length c, getElem?_concat_length] at hchannel
      cases hchannel
      rfl
  · rename_i error c' hfailed
    rw [start_error hfailed]
    exact Keeps.same hwatching howner trivial

/-- The first poll yields a control, since the stream has not been polled. -/
theorem keeps_firstControl (haligned : (Stage.firstControl head wasStarted watch).Aligned c)
    (store : StoreOutcome) :
    Keeps c lease (advance c journal draining lease (.firstControl head wasStarted watch)
        (.call store)).coordinator
      (advance c journal draining lease (.firstControl head wasStarted watch)
        (.call store)).stage := by
  obtain ⟨-, hwatched, hunpolled⟩ := haligned
  have hpoll {stage : Stage} := @Keeps.poll c lease hwatching howner stage watch
  have hwatched' : Watched (c.poll watch).2 head.turn watch := by
    simpa [Watched, AtHead] using hwatched
  obtain ⟨entry, rest, -, -, -, -, hfirst⟩ := poll_watched hwatching hwatched
  simp only [advance]
  split
  · exact Keeps.same hwatching howner trivial
  generalize hresult : c.poll watch = result at hpoll hwatched' hfirst
  obtain ⟨answer, c'⟩ := result
  have hready : answer = .ready entry.control := hfirst hunpolled
  subst hready
  dsimp only
  split
  · exact hpoll trivial
  · exact hpoll hwatched'

theorem keeps_acknowledge (head : QueuedTurn TurnWork) (store : StoreOutcome) :
    Keeps c lease (advance c journal draining lease (.acknowledge head) (.call store)).coordinator
      (advance c journal draining lease (.acknowledge head) (.call store)).stage := by
  have hack := hwatching.acknowledge store lease head.turn.id
    (Fifo.nodup_ids_step hwatching.nodup (.acknowledge store lease head.turn.id))
  simp only [advance]
  split
  · rename_i next c' hacked
    rw [hacked] at hack
    obtain ⟨hnext, hlive, howner'⟩ := acknowledge_ok hacked
    refine ⟨hack, hlive, fun _ ↦ howner'.trans howner, ?_⟩
    cases next with
    | none => trivial
    | some next => exact snapshot_of_head hnext.symm
  · rename_i error c' hfailed
    rw [acknowledge_error hfailed]
    exact Keeps.same hwatching howner trivial

/-- Every step of the owner keeps its lease and aligns its next stage. -/
theorem keeps_advance {stage : Stage}
    (haligned : stage.Aligned c) (choice : Choice) :
    Keeps c lease (advance c journal draining lease stage choice).coordinator
      (advance c journal draining lease stage choice).stage := by
  have hsame {stage : Stage} := @Keeps.same c lease hwatching howner stage
  cases stage with
  | peekInitial =>
    cases choice with
    | call store =>
      simp only [advance]
      split
      · rename_i head hpeek
        apply hsame
        cases head with
        | none => trivial
        | some head => exact snapshot_of_head (peek_ok hpeek).symm
      · exact hsame trivial
    | _ => exact hsame trivial
  | loop initialHead =>
    cases choice with
    | call store =>
      simp only [advance]
      split
      · exact hsame trivial
      split
      · apply hsame
        apply examine_aligned
        rintro entry rfl
        exact haligned
      · split
        · rename_i head hpeek
          apply hsame
          apply examine_aligned
          rintro entry rfl
          exact snapshot_of_head (peek_ok hpeek).symm
        · exact hsame trivial
    | _ => exact hsame haligned
  | release =>
    cases choice with
    | call store => exact keeps_release hwatching howner store
    | _ => exact hsame trivial
  | start head =>
    cases choice with
    | call store => exact keeps_start hwatching howner head store
    | _ => exact hsame haligned
  | firstControl head wasStarted watch =>
    cases choice with
    | call store => exact keeps_firstControl hwatching howner haligned store
    | _ => exact hsame haligned
  | openHead head wasStarted watch =>
    cases choice with
    | call store =>
      simp only [advance]
      split
      · exact hsame haligned.1
      · exact keeps_openQueueHead hwatching howner haligned
    | _ => exact hsame haligned
  | acknowledge head =>
    cases choice with
    | call store => exact keeps_acknowledge hwatching howner head store
    | _ => exact hsame haligned
  -- The head of the stage stays, with its watch or without it.
  | finalize execution batches error | persist head batches =>
    cases batches <;> cases choice <;> simp only [advance] <;> (repeat' split) <;>
      first
      | exact hsame trivial
      | exact hsame haligned
      | exact hsame haligned.1
  | _ =>
    cases choice <;> simp only [advance] <;> (repeat' split) <;>
      first
      | exact hsame trivial
      | exact hsame haligned
      | exact hsame haligned.1

/-- Reading the control stream keeps the lease and the alignment; the stream has not ended. -/
theorem keeps_readControl (haligned : stage.Aligned c) :
    Keeps c lease (readControl c stage).1 (readControl c stage).2 ∧
      (stage ≠ .stopped → (readControl c stage).2 ≠ .stopped) := by
  have hread {execution : Execution} (hwatched : Watched c execution.head.turn execution.watch) :
      Watched (c.poll execution.watch).2 execution.head.turn execution.watch ∧
        (c.poll execution.watch).1 ≠ .ended := by
    obtain ⟨-, -, -, -, hopen, -⟩ := poll_watched hwatching hwatched
    exact ⟨by simpa [Watched, AtHead] using hwatched, hopen⟩
  cases stage with
  | running execution | finalize execution batches error =>
    obtain ⟨hwatched, hopen⟩ := hread haligned
    have hpoll {stage : Stage} := @Keeps.poll c lease hwatching howner stage execution.watch
    simp only [readControl]
    generalize c.poll execution.watch = result at hpoll hwatched hopen
    obtain ⟨answer, c'⟩ := result
    cases answer with
    | ready control => exact ⟨hpoll hwatched, by simp⟩
    | pending => exact ⟨hpoll hwatched, by simp⟩
    | ended => exact absurd rfl hopen
  | _ =>
    exact ⟨Keeps.same hwatching howner haligned, fun hne ↦ hne⟩

end Owner

/-! ## Requests of clients -/

/-- What alignment reads is left alone. -/
structure Frames (c c' : Coordinator TurnWork) : Prop where
  control : c'.mutation.control = c.mutation.control
  head : ∀ entry rest, c.stored.pending = entry :: rest → ∃ entry' rest',
    c'.stored.pending = entry' :: rest' ∧ entry'.turn = entry.turn ∧ entry'.started = entry.started
  unpolled : ∀ watch, Unpolled c watch → Unpolled c' watch

theorem Frames.aligned (hframes : Frames c c') (haligned : stage.Aligned c) : stage.Aligned c' := by
  have hatHead {turn : TurnRecord} (hhead : AtHead c turn) : AtHead c' turn := by
    obtain ⟨entry, rest, hpending, hturn⟩ := hhead
    obtain ⟨entry', rest', hpending', hturn', -⟩ := hframes.head entry rest hpending
    exact ⟨entry', rest', hpending', hturn'.trans hturn⟩
  have hsnapshot {head : QueuedTurn TurnWork} (hhead : Snapshot c head) : Snapshot c' head := by
    obtain ⟨entry, rest, hpending, hturn, hstarted⟩ := hhead
    obtain ⟨entry', rest', hpending', hturn', hstarted'⟩ := hframes.head entry rest hpending
    exact ⟨entry', rest', hpending', hturn'.trans hturn, hstarted'.trans hstarted⟩
  have hwatched {turn : TurnRecord} {watch : WatchId} (hhead : Watched c turn watch) :
      Watched c' turn watch := ⟨hatHead hhead.1, by rw [hframes.control, hhead.2]⟩
  cases stage with
  | loop initialHead =>
    cases initialHead with
    | none => trivial
    | some head =>
      cases head with
      | none => trivial
      | some head => exact hsnapshot haligned
  | start head => exact hsnapshot haligned
  | firstControl head wasStarted watch =>
    exact ⟨hsnapshot haligned.1, hwatched haligned.2.1, hframes.unpolled watch haligned.2.2⟩
  | openHead | begin | submit | running | finalize => exact hwatched haligned
  | finishHead | settle | decide | persist | acknowledge => exact hatHead haligned
  | peekInitial | release | stopped => trivial

theorem unpolled_notify (hunpolled : Unpolled c watch) (turn : TurnId) (control : TurnControl) :
    Unpolled (c.notify turn control) watch := by
  unfold Coordinator.notify
  split
  · split
    · intro channel hchannel
      simp only [getElem?_modify] at hchannel
      obtain ⟨original, horiginal, rfl⟩ := Option.map_eq_some_iff.mp hchannel
      have hseen := hunpolled original horiginal
      split
      · exact hseen
      · exact hseen
    · exact hunpolled
  · exact hunpolled

theorem head_setControl {turn : TurnId} {control : TurnControl} {entry : QueuedTurn TurnWork}
    {rest : List (QueuedTurn TurnWork)} :
    ∃ entry' rest', setControl turn control (entry :: rest) = entry' :: rest' ∧
      entry'.turn = entry.turn ∧ entry'.started = entry.started := by
  unfold setControl
  rw [updateFirst_cons]
  split
  · exact ⟨_, _, rfl, rfl, rfl⟩
  · exact ⟨_, _, rfl, rfl, rfl⟩

theorem Frames.refl (c : Coordinator TurnWork) : Frames c c :=
  ⟨rfl, fun entry rest hpending ↦ ⟨entry, rest, hpending, rfl, rfl⟩, fun _ ↦ id⟩

theorem frames_updateControl (c : Coordinator TurnWork) (store : StoreOutcome) (turn : TurnId)
    (authority : TurnAuthority) (control : TurnControl) :
    Frames c (c.updateControl store turn authority control).2 := by
  unfold updateControl
  split
  · exact .refl c
  split
  · exact .refl c
  split
  · exact .refl c
  split
  · exact .refl c
  split
  · exact .refl c
  refine ⟨by simp, ?_, ?_⟩
  · intro entry rest hpending
    simp only [notify_stored, hpending]
    exact head_setControl
  · intro watch hunpolled
    refine unpolled_notify ?_ turn control
    exact hunpolled

theorem frames_enqueue (c : Coordinator TurnWork) (store : StoreOutcome) (now : ℤ)
    (turn : TurnSubmission TurnWork) : Frames c (c.enqueue store now turn).2 := by
  unfold enqueue
  split
  · exact .refl c
  split
  · exact .refl c
  split
  · exact .refl c
  refine ⟨by simp, ?_, ?_⟩
  · intro entry rest hpending
    simp only [notifyInterrupted_stored, acceptState, cancelHead, hpending]
    split
    · exact ⟨_, _, rfl, rfl, rfl⟩
    · exact ⟨_, _, rfl, rfl, rfl⟩
  · intro watch hunpolled
    cases hinterrupted : c.interrupted turn with
    | none => exact hunpolled
    | some id =>
      refine unpolled_notify ?_ id .cancel
      exact hunpolled

theorem frames_request (hrequest : isRequest op = true) : Frames c (c.perform op).2 := by
  cases op with
  | enqueue store now turn => exact frames_enqueue c store now turn
  | cancel store turn authority => exact frames_updateControl c store turn authority .cancel
  | setSuspended store turn authority suspended =>
    exact frames_updateControl c store turn authority _
  | _ => cases hrequest

/-- A request of a client touches neither the owner pointer nor the leases. -/
theorem request_mutation (c : Coordinator TurnWork) (hrequest : isRequest op = true) :
    (c.perform op).2.mutation = c.mutation ∧ (c.perform op).2.live = c.live := by
  cases op with
  | enqueue | cancel | setSuspended =>
    simp only [perform, enqueue, Coordinator.cancel, Coordinator.setSuspended, updateControl]
    repeat' split
    all_goals simp
  | _ => cases hrequest

/-! ## The invariant of the drain -/

/-- A worker that has not stopped owns the queue and stands where the queue is. -/
structure Aligned (s : Drain) : Prop where
  watching : Watching s.coordinator
  leases : (s.workers.map (·.lease)).Nodup
  live : ∀ lease, lease ∈ s.coordinator.live ↔ ∃ worker ∈ s.workers, worker.lease = lease
  owner : ∀ worker ∈ s.workers, worker.stage ≠ .stopped →
    s.coordinator.mutation.owner = some worker.lease
  aligned : ∀ worker ∈ s.workers, worker.stage.Aligned s.coordinator

theorem Aligned.worker_unique (hs : Aligned s) {first second : Worker} (hfirst : first ∈ s.workers)
    (hsecond : second ∈ s.workers) (hlease : second.lease = first.lease) : second = first :=
  inj_on_of_nodup_map hs.leases hsecond hfirst hlease

section
variable (hs : Aligned s) (hworker : worker ∈ s.workers)
include hs hworker

theorem Aligned.find_eq :
    s.workers.find? (fun other ↦ other.lease = worker.lease) = some worker := by
  cases hfind : s.workers.find? (fun other ↦ other.lease = worker.lease) with
  | none =>
    rw [find?_eq_none] at hfind
    exact absurd (decide_eq_true rfl) (hfind worker hworker)
  | some found =>
    have hmem := mem_of_find?_eq_some hfind
    have hlease : found.lease = worker.lease := by simpa using find?_some hfind
    rw [hs.worker_unique hworker hmem hlease]

theorem Aligned.setStage_self : s.setStage worker.lease worker.stage = s.workers := by
  calc
    s.setStage worker.lease worker.stage = s.workers.map id := by
      apply map_congr_left
      intro other hother
      split
      · rename_i hlease
        rw [hs.worker_unique hworker hother hlease]
        rfl
      · rfl
    _ = s.workers := map_id s.workers

theorem Aligned.work_stopped (hstage : worker.stage = .stopped) (choice : Choice) :
    s.next (.work worker.lease choice) = s := by
  have hself := hs.setStage_self hworker
  rw [hstage] at hself
  cases choice <;>
    simp [Drain.next, hs.find_eq hworker, hstage, advance, Drain.apply, journalAfter, hself]

/-- Two workers cannot both be at work. -/
theorem Aligned.stopped_of_ne {other : Worker} (hactive : worker.stage ≠ .stopped)
    (hother : other ∈ s.workers) (hne : other.lease ≠ worker.lease) : other.stage = .stopped := by
  by_contra hstage
  have howner := hs.owner worker hworker hactive
  rw [hs.owner other hother hstage] at howner
  exact hne (Option.some.inj howner)

end

theorem find_worker {lease : LeaseIdentity}
    (hfind : s.workers.find? (fun worker ↦ worker.lease = lease) = some worker) :
    worker ∈ s.workers ∧ worker.lease = lease :=
  ⟨mem_of_find?_eq_some hfind, by simpa using find?_some hfind⟩

/-- The steps that change stages only in what alignment does not read. -/
theorem Aligned.of_stages (hs : Aligned s) (change : Stage → Stage)
    (hstopped : change .stopped = .stopped)
    (haligned : ∀ stage, stage.Aligned s.coordinator → (change stage).Aligned s.coordinator)
    (clients : List Client) (draining : Bool) :
    Aligned { s with
      clients := clients
      workers := s.workers.map (fun worker ↦ { worker with stage := change worker.stage })
      draining := draining } := by
  refine ⟨hs.watching, by simpa [Function.comp_def] using hs.leases, ?_, ?_, ?_⟩
  · intro lease
    rw [hs.live lease]
    simp
  · intro worker hworker hstage
    obtain ⟨original, horiginal, rfl⟩ := mem_map.mp hworker
    exact hs.owner original horiginal (fun heq ↦ hstage (by simp [heq, hstopped]))
  · intro worker hworker
    obtain ⟨original, horiginal, rfl⟩ := mem_map.mp hworker
    exact haligned _ (hs.aligned original horiginal)

/-- A step of the worker with this lease. -/
theorem Aligned.of_keeps (hs : Aligned s) (hworker : worker ∈ s.workers)
    (hkeeps : worker.stage ≠ .stopped → Keeps s.coordinator worker.lease c' stage)
    (hstopped : worker.stage = .stopped → c' = s.coordinator ∧ stage = .stopped) (journal : Journal)
    (invocations : List (TurnId × ℕ)) :
    Aligned { s with
      coordinator := c'
      journal := journal
      workers := s.setStage worker.lease stage
      invocations := invocations } := by
  have hmem {worker' : Worker} (hworker' : worker' ∈ s.setStage worker.lease stage) :
      (worker'.lease = worker.lease ∧ worker'.stage = stage) ∨
        (worker' ∈ s.workers ∧ worker'.lease ≠ worker.lease) := by
    obtain ⟨original, horiginal, rfl⟩ := mem_map.mp hworker'
    split
    · rename_i hlease
      exact .inl ⟨hlease, rfl⟩
    · rename_i hlease
      exact .inr ⟨horiginal, hlease⟩
  have hleases : (s.setStage worker.lease stage).map (·.lease) = s.workers.map (·.lease) := by
    unfold Drain.setStage
    rw [map_map]
    apply map_congr_left
    intro original _
    simp only [Function.comp_apply]
    split <;> rfl
  have hself : Watching c' ∧ c'.live = s.coordinator.live ∧
      (stage ≠ .stopped → c'.mutation.owner = some worker.lease) ∧ stage.Aligned c' := by
    by_cases hstage : worker.stage = .stopped
    · obtain ⟨rfl, rfl⟩ := hstopped hstage
      exact ⟨hs.watching, rfl, fun hne ↦ absurd rfl hne, trivial⟩
    · obtain ⟨hwatching, hlive, howner, haligned⟩ := hkeeps hstage
      exact ⟨hwatching, hlive, howner, haligned⟩
  have hothers {other : Worker} (hother : other ∈ s.workers) (hne : other.lease ≠ worker.lease) :
      (other.stage ≠ .stopped → c'.mutation.owner = some other.lease) ∧ other.stage.Aligned c' := by
    by_cases hstage : worker.stage = .stopped
    · obtain ⟨rfl, -⟩ := hstopped hstage
      exact ⟨hs.owner other hother, hs.aligned other hother⟩
    · rw [hs.stopped_of_ne hworker hstage hother hne]
      exact ⟨fun hne ↦ absurd rfl hne, trivial⟩
  refine ⟨hself.1, by rw [hleases]; exact hs.leases, ?_, ?_, ?_⟩
  · intro lease
    have hiff : (∃ worker' ∈ s.setStage worker.lease stage, worker'.lease = lease) ↔
        ∃ worker' ∈ s.workers, worker'.lease = lease := by
      simpa using congrArg (lease ∈ ·) hleases
    rw [hself.2.1, hs.live lease, hiff]
  · intro worker' hworker'
    rcases hmem hworker' with ⟨hlease, hstage⟩ | ⟨hother, hne⟩
    · rw [hlease, hstage]
      exact hself.2.2.1
    · exact (hothers hother hne).1
  · intro worker' hworker'
    rcases hmem hworker' with ⟨-, hstage⟩ | ⟨hother, hne⟩
    · rw [hstage]
      exact hself.2.2.2
    · exact (hothers hother hne).2

/-- A claim makes a worker only where no other is at work. -/
theorem Aligned.claim (hs : Aligned s) {index : ℕ} {identity : LeaseIdentity}
    (henabled : s.coordinator.enabled (.claim identity)) :
    Aligned (s.next (.claim index identity)) := by
  have hwatching := hs.watching.perform (.claim identity)
  simp only [Drain.next, Coordinator.claim]
  simp only [Coordinator.perform, Coordinator.claim] at hwatching
  split
  · exact ⟨hs.watching, hs.leases, hs.live, hs.owner, hs.aligned⟩
  rename_i hdead
  rw [if_neg hdead] at hwatching
  have hstopped {worker : Worker} (hworker : worker ∈ s.workers) : worker.stage = .stopped := by
    by_contra hstage
    have hlive := (hs.live worker.lease).mpr ⟨worker, hworker, rfl⟩
    exact hdead (by simp [ThreadMutation.ownerAlive, hs.owner worker hworker hstage, hlive])
  have hfresh : ∀ worker ∈ s.workers, worker.lease ≠ identity := by
    intro worker hworker heq
    exact henabled.1 ((hs.live identity).mpr ⟨worker, hworker, heq⟩)
  refine ⟨hwatching, ?_, ?_, ?_, ?_⟩
  · rw [map_append, nodup_append]
    refine ⟨hs.leases, by simp, ?_⟩
    intro lease hlease other hother
    obtain ⟨worker, hworker, rfl⟩ := mem_map.mp hlease
    simp only [map_cons, map_nil, mem_singleton] at hother
    rw [hother]
    exact hfresh worker hworker
  · intro lease
    rw [mem_cons, hs.live lease]
    constructor
    · rintro (rfl | ⟨worker, hworker, hlease⟩)
      · exact ⟨⟨lease, .peekInitial⟩, by simp, rfl⟩
      · exact ⟨worker, mem_append_left _ hworker, hlease⟩
    · rintro ⟨worker, hworker, hlease⟩
      rcases mem_append.mp hworker with hworker | hworker
      · exact .inr ⟨worker, hworker, hlease⟩
      · rw [mem_singleton.mp hworker] at hlease
        exact .inl hlease.symm
  · intro worker hworker hstage
    rcases mem_append.mp hworker with hworker | hworker
    · exact absurd (hstopped hworker) hstage
    · rw [mem_singleton.mp hworker]
  · intro worker hworker
    rcases mem_append.mp hworker with hworker | hworker
    · rw [hstopped hworker]
      trivial
    · rw [mem_singleton.mp hworker]
      trivial

theorem Aligned.drop {s : Drain} (hs : Aligned s) (lease : LeaseIdentity) :
    Aligned (s.next (.drop lease)) := by
  refine ⟨hs.watching.perform (.dropLease lease), ?_, ?_, ?_, ?_⟩
  · exact hs.leases.sublist (filter_sublist.map _)
  · intro other
    simp only [Drain.next, Coordinator.dropLease, mem_filter, hs.live other]
    constructor
    · rintro ⟨⟨worker, hworker, rfl⟩, hne⟩
      exact ⟨worker, ⟨hworker, hne⟩, rfl⟩
    · rintro ⟨worker, ⟨hworker, hne⟩, rfl⟩
      exact ⟨⟨worker, hworker, rfl⟩, hne⟩
  · intro worker hworker
    exact hs.owner worker (mem_filter.mp hworker).1
  · intro worker hworker
    have hframes : Frames s.coordinator (s.coordinator.dropLease lease) :=
      ⟨rfl, (Frames.refl s.coordinator).head, fun _ ↦ id⟩
    exact hframes.aligned (hs.aligned worker (mem_filter.mp hworker).1)

theorem signal_aligned (turn : TurnId) (control : TurnControl) (haligned : stage.Aligned c) :
    (stage.signal turn control).Aligned c := by
  cases stage with
  | running execution =>
    simp only [Stage.signal]
    split <;> exact haligned
  | _ => exact haligned

theorem interrupt_aligned (haligned : stage.Aligned c) : stage.interrupt.Aligned c := by
  cases stage with
  | running execution => exact haligned
  | _ => exact haligned

/-- Every step keeps the workers aligned, whatever fails. -/
theorem Aligned.step (hs : Aligned s) {label : Label} (henabled : s.enabled label) :
    Aligned (s.next label) := by
  cases label with
  | request op =>
    obtain ⟨hmutation, hlive⟩ := request_mutation s.coordinator henabled.2
    refine ⟨hs.watching.perform op, hs.leases, ?_, ?_, ?_⟩
    · intro lease
      simp only [Drain.next, hlive]
      exact hs.live lease
    · intro worker hworker hstage
      simp only [Drain.next, hmutation]
      exact hs.owner worker hworker hstage
    · intro worker hworker
      exact (frames_request henabled.2).aligned (hs.aligned worker hworker)
  | wake => exact ⟨hs.watching, hs.leases, hs.live, hs.owner, hs.aligned⟩
  | signal index =>
    simp only [Drain.next]
    split
    · exact hs.of_stages (Stage.signal _ _) rfl (fun _ ↦ signal_aligned _ _) _ _
    · exact hs
  | claim index identity => exact hs.claim henabled.2
  | work lease choice =>
    simp only [Drain.next]
    split
    · rename_i worker hfind
      obtain ⟨hworker, rfl⟩ := find_worker hfind
      refine hs.of_keeps hworker ?_ ?_ _ _
      · exact fun hstage ↦ keeps_advance hs.watching (hs.owner worker hworker hstage)
          (hs.aligned worker hworker) choice
      · intro hstage
        rw [hstage]
        cases choice <;> exact ⟨rfl, rfl⟩
    · exact hs
  | control lease =>
    simp only [Drain.next]
    split
    · rename_i worker hfind
      obtain ⟨hworker, rfl⟩ := find_worker hfind
      refine hs.of_keeps hworker ?_ ?_ _ _
      · exact fun hstage ↦ (keeps_readControl hs.watching (hs.owner worker hworker hstage)
          (hs.aligned worker hworker)).1
      · intro hstage
        rw [hstage]
        exact ⟨rfl, rfl⟩
    · exact hs
  | drop lease => exact hs.drop lease
  | dropThreadState =>
    have hnone (worker : Worker) : worker ∉ s.workers := by
      intro hworker
      have hlive := (hs.live worker.lease).mpr ⟨worker, hworker, rfl⟩
      rw [henabled] at hlive
      cases hlive
    refine ⟨hs.watching.perform .dropThreadState, hs.leases, ?_, ?_, ?_⟩
    · intro lease
      simp only [Drain.next, Coordinator.dropThreadState, dropControl_live]
      exact hs.live lease
    · exact fun worker hworker ↦ absurd hworker (hnone worker)
    · exact fun worker hworker ↦ absurd hworker (hnone worker)
  | shutdown => exact hs.of_stages Stage.interrupt rfl (fun _ ↦ interrupt_aligned) _ _
  | crash =>
    refine ⟨⟨hs.watching.nodup, ?_, ?_, ?_⟩, ?_, ?_, ?_, ?_⟩ <;> simp [Drain.next]

theorem aligned_init : Aligned {} :=
  ⟨⟨nodup_nil, by simp, by simp, by simp⟩, by simp, by simp, by simp, by simp⟩

end Exo.TurnQueue
