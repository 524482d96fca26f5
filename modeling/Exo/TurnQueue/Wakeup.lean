import Exo.TurnQueue.Alignment

/-!
# No lost wakeup

A client that makes the head runnable claims the queue afterwards.  If the claim is refused there is
an owner, and an owner gives the queue up only through `release_if_idle`, which looks at the stored
head again in the critical section in which it clears the owner pointer.  So a runnable head always
has an owner at work or a client on its way to claim.
-/

namespace Exo.TurnQueue.Wakeup

open Library TurnCoordinator TurnCoordinator.Coordinator List

/-- No storage call of a worker fails, and the process neither shuts down nor dies. -/
def NoFault (_ : Drain) : Label → Prop
  | .work _ (.call store) => store = .ok
  | .shutdown => False
  | .crash => False
  | _ => True

instance (s : Drain) (label : Label) : Decidable (NoFault s label) :=
  match label with
  | .work _ (.call store) => inferInstanceAs (Decidable (store = .ok))
  | .shutdown | .crash => isFalse id
  | .work _ (.refuse _) | .work _ (.write _) | .work _ (.stop _) | .request _ | .wake | .signal _
  | .claim _ _ | .control _ | .drop _ | .dropThreadState => isTrue trivial

/-- A runnable head has an owner at work or a client on its way to claim. -/
structure Awake (s : Drain) : Prop where
  aligned : Aligned s
  serving : s.draining = false
  owned : ∀ lease, s.coordinator.mutation.owner = some lease → lease ∈ s.coordinator.live →
    ∃ worker ∈ s.workers, worker.lease = lease ∧ worker.stage ≠ .stopped
  woken : runnable s.coordinator.stored.pending = true →
    s.coordinator.mutation.ownerAlive s.coordinator.live = true ∨ s.clients ≠ []

theorem ownerAlive_iff {mutation : ThreadMutation} {live : List LeaseIdentity} :
    mutation.ownerAlive live = true ↔ ∃ lease, mutation.owner = some lease ∧ lease ∈ live := by
  unfold ThreadMutation.ownerAlive
  cases mutation.owner with
  | none => simp
  | some owner => simp

theorem examine_ne_stopped (head : Option (QueuedTurn TurnWork)) : examine head ≠ .stopped := by
  unfold examine
  repeat' split
  all_goals simp

theorem openQueueHead_ne_stopped (journal : Journal) (head : QueuedTurn TurnWork)
    (wasStarted : Bool) (watch : WatchId) :
    openQueueHead journal head wasStarted watch ≠ .stopped := by
  unfold openQueueHead
  dsimp only
  generalize (if wasStarted then eventsOf journal head.turn.id else []) = events
  repeat' split
  all_goals simp

section Owner
variable {c : Coordinator TurnWork} {lease : LeaseIdentity}
  (hcheck : c.mutation.check c.live lease = true)
include hcheck

theorem peek_of_check : c.peek .ok lease = .ok c.stored.pending.head? := by
  simp [peek, hcheck]

theorem start_of_check {head : QueuedTurn TurnWork} (hsnapshot : Snapshot c head) :
    ∃ started c', c.start .ok lease head.turn.id = (.ok started, c') := by
  obtain ⟨entry, rest, hpending, hturn, -⟩ := hsnapshot
  have hid : entry.turn.id = head.turn.id := by rw [hturn]
  simp [start, hcheck, hpending, hid]

theorem acknowledge_of_check {turn : TurnRecord} (hhead : AtHead c turn) :
    ∃ next c', c.acknowledge .ok lease turn.id = (.ok next, c') := by
  obtain ⟨entry, rest, hpending, hturn⟩ := hhead
  have hid : entry.turn.id = turn.id := by rw [hturn]
  by_cases hrepeated : c.stored.acknowledged = some turn.id
  · simp [acknowledge, hcheck, hrepeated]
  · simp [acknowledge, hcheck, hrepeated, hpending, hid]

/-- Without faults, a worker at work stops only by releasing an idle queue. -/
theorem idle_of_stopped {journal : Journal} (hwatching : Control.Watching c) {stage : Stage}
    (haligned : stage.Aligned c) (hactive : stage ≠ .stopped) {choice : Choice}
    (hcall : ∀ store, choice = .call store → store = .ok)
    (hstopped : (advance c journal false lease stage choice).stage = .stopped) :
    (advance c journal false lease stage choice).coordinator.mutation.owner = none ∧
      runnable (advance c journal false lease stage choice).coordinator.stored.pending = false := by
  cases choice with
  | refuse | write | stop =>
    cases stage with
    | stopped => exact absurd rfl hactive
    | finalize execution batches error => cases batches <;> cases hstopped
    | persist head batches => cases batches <;> cases hstopped
    | _ => cases hstopped
  | call store =>
    have hstore := hcall store rfl
    subst hstore
    cases stage with
    | peekInitial => simp [advance, peek_of_check hcheck] at hstopped
    | loop initialHead =>
      exfalso
      cases initialHead with
      | none => exact examine_ne_stopped _ (by simpa [advance, peek_of_check hcheck] using hstopped)
      | some head => exact examine_ne_stopped _ (by simpa [advance] using hstopped)
    | release =>
      revert hstopped
      simp only [advance]
      split
      · rename_i c' hreleased
        intro _
        obtain ⟨howner, hstored, hidle⟩ := (release_ok hreleased).2.2 rfl
        exact ⟨howner, by rw [hstored]; exact hidle⟩
      · intro hstopped
        cases hstopped
      · rename_i error c' hfailed
        unfold releaseIfIdle at hfailed
        simp only [hcheck] at hfailed
        repeat' split at hfailed
        all_goals simp_all
    | start head =>
      obtain ⟨started, c', hstarted⟩ := start_of_check hcheck haligned
      simp [advance, hstarted] at hstopped
    | firstControl head wasStarted watch =>
      obtain ⟨entry, rest, -, -, -, -, hfirst⟩ := poll_watched hwatching haligned.2.1
      have hready := hfirst haligned.2.2
      exfalso
      revert hstopped
      simp only [advance, ne_eq, not_true_eq_false, if_false]
      generalize c.poll watch = result at hready
      obtain ⟨answer, c'⟩ := result
      cases hready
      dsimp only
      split <;> simp
    | openHead head wasStarted watch =>
      exfalso
      exact openQueueHead_ne_stopped journal head wasStarted watch
        (by simpa [advance] using hstopped)
    | finishHead | submit | running => simp [advance] at hstopped
    | begin head recovering watch => cases recovering <;> simp [advance] at hstopped
    | finalize execution batches error | persist head batches =>
      cases batches <;> simp [advance] at hstopped
    | settle head suspended error =>
      simp only [advance] at hstopped
      split at hstopped
      · rename_i hstore
        exact absurd rfl hstore
      split at hstopped
      · cases hstopped
      · simp at hstopped
    | decide head suspended error status =>
      obtain ⟨entry, rest, hpending, -⟩ := haligned
      simp only [advance, peek_of_check hcheck, hpending, head?_cons] at hstopped
      repeat' split at hstopped
      all_goals cases hstopped
    | acknowledge head =>
      obtain ⟨next, c', hacked⟩ := acknowledge_of_check hcheck haligned
      simp [advance, hacked] at hstopped
    | stopped => exact absurd rfl hactive

end Owner

/-- A request that changes the stored queue leaves a client with a claim to make. -/
theorem clients_of_changed {c : Coordinator TurnWork} {op : Op TurnWork}
    (hrequest : isRequest op = true) (hclients : clientsOf op (c.perform op).1 = []) :
    (c.perform op).2.stored = c.stored := by
  have heffect := perform_effect c op
  generalize (c.perform op).1 = response at heffect hclients
  generalize (c.perform op).2.stored = after at heffect ⊢
  cases heffect with
  | unchanged => rfl
  | admitted => simp [clientsOf] at hclients
  | @controlled turn authority control entry hop =>
    cases hstarted : entry.started <;> simp [clientsOf, hop, hstarted] at hclients
  | started hop => simp [hop, isRequest] at hrequest
  | removed hop => simp [hop, isRequest] at hrequest

variable {stage : Stage} {s : Drain} {worker : Worker}

theorem signal_ne_stopped (hstage : stage ≠ .stopped) (turn : TurnId) (control : TurnControl) :
    stage.signal turn control ≠ .stopped := by
  unfold Stage.signal
  split
  · split <;> simp
  · exact hstage

theorem mem_setStage_self (hworker : worker ∈ s.workers) (stage : Stage) :
    ⟨worker.lease, stage⟩ ∈ s.setStage worker.lease stage :=
  mem_map.mpr ⟨worker, hworker, by simp⟩

/-- A step of a worker that stays at work, or stops and leaves an idle queue without owner. -/
theorem Awake.of_worker (hs : Awake s) (hworker : worker ∈ s.workers) {s' : Drain}
    (haligned : Aligned s') (hserving : s'.draining = s.draining)
    (hworkers : s'.workers = s.setStage worker.lease stage)
    (hlive : s'.coordinator.live = s.coordinator.live)
    (howner : stage ≠ .stopped → s'.coordinator.mutation.owner = some worker.lease)
    (hidle : stage = .stopped → s'.coordinator.mutation.owner = none ∧
      runnable s'.coordinator.stored.pending = false) : Awake s' := by
  have hlease : worker.lease ∈ s'.coordinator.live := by
    rw [hlive]
    exact (hs.aligned.live worker.lease).mpr ⟨worker, hworker, rfl⟩
  refine ⟨haligned, hserving.trans hs.serving, ?_, ?_⟩
  · intro lease hsome _
    by_cases hstage : stage = .stopped
    · rw [(hidle hstage).1] at hsome
      cases hsome
    · rw [howner hstage] at hsome
      cases hsome
      rw [hworkers]
      exact ⟨⟨worker.lease, stage⟩, mem_setStage_self hworker stage, rfl, hstage⟩
  · intro hrunnable
    by_cases hstage : stage = .stopped
    · rw [(hidle hstage).2] at hrunnable
      cases hrunnable
    · exact .inl (ownerAlive_iff.mpr ⟨worker.lease, howner hstage, hlease⟩)

section Step
variable {s : Drain} (hs : Awake s)
include hs

/-- A client that has changed the queue is on its way to claim. -/
theorem Awake.request {op : Op TurnWork} (henabled : s.enabled (.request op)) :
    Awake (s.next (.request op)) := by
  have haligned := hs.aligned.step henabled
  obtain ⟨hmutation, hlive⟩ := request_mutation s.coordinator henabled.2
  refine ⟨haligned, hs.serving, ?_, ?_⟩
  · simp only [Drain.next, hmutation, hlive]
    exact hs.owned
  · simp only [Drain.next, hmutation, hlive]
    by_cases hclients : clientsOf op (s.coordinator.perform op).1 = []
    · rw [clients_of_changed henabled.2 hclients, hclients, append_nil]
      exact hs.woken
    · intro _
      exact .inr (by simp [hclients])

variable {index : ℕ} {lease : LeaseIdentity}

theorem Awake.signal (henabled : s.enabled (.signal index)) : Awake (s.next (.signal index)) := by
  have haligned := hs.aligned.step henabled
  revert haligned
  simp only [Drain.next]
  split
  · rename_i hclient
    intro haligned
    refine ⟨haligned, hs.serving, ?_, ?_⟩
    · intro lease howner hlive
      obtain ⟨worker, hworker, hlease, hstage⟩ := hs.owned lease howner hlive
      exact ⟨_, mem_map_of_mem hworker, hlease, signal_ne_stopped hstage _ _⟩
    · intro _
      refine .inr ?_
      rw [ne_eq, set_eq_nil_iff]
      intro hnil
      simp [hnil] at hclient
  · exact fun _ ↦ hs

theorem Awake.claim {identity : LeaseIdentity} (henabled : s.enabled (.claim index identity)) :
    Awake (s.next (.claim index identity)) := by
  have haligned := hs.aligned.step henabled
  have hidentity := henabled.2
  revert haligned
  simp only [Drain.next, Coordinator.claim]
  split
  · rename_i halive
    intro haligned
    exact ⟨haligned, hs.serving, hs.owned, fun _ ↦ .inl halive⟩
  · intro haligned
    refine ⟨haligned, hs.serving, ?_, fun _ ↦ .inl (by simp [ThreadMutation.ownerAlive])⟩
    intro lease howner _
    cases howner
    exact ⟨⟨identity, .peekInitial⟩, by simp, rfl, by simp⟩

/-- A worker that stops without a fault has found the queue idle. -/
theorem Awake.work {choice : Choice} (henabled : s.enabled (.work lease choice))
    (hfault : NoFault s (.work lease choice)) : Awake (s.next (.work lease choice)) := by
  have haligned := hs.aligned.step henabled
  obtain ⟨worker, hworker, rfl, -⟩ := henabled
  have hfind := hs.aligned.find_eq hworker
  by_cases hstage : worker.stage = .stopped
  · rw [hs.aligned.work_stopped hworker hstage]
    exact hs
  revert haligned
  simp only [Drain.next, hfind]
  intro haligned
  have howner := hs.aligned.owner worker hworker hstage
  have hlive := (hs.aligned.live worker.lease).mpr ⟨worker, hworker, rfl⟩
  have hkeeps := @keeps_advance _ _ hs.aligned.watching howner s.journal s.draining _
    (hs.aligned.aligned worker hworker) choice
  apply hs.of_worker hworker haligned rfl rfl hkeeps.live hkeeps.owner
  intro hstopped
  rw [hs.serving] at hstopped ⊢
  apply idle_of_stopped _ hs.aligned.watching (hs.aligned.aligned worker hworker) hstage _ hstopped
  · simp [ThreadMutation.check, howner, hlive]
  · rintro store rfl
    exact hfault

theorem Awake.control (henabled : s.enabled (.control lease)) :
    Awake (s.next (.control lease)) := by
  have haligned := hs.aligned.step henabled
  obtain ⟨worker, hworker, rfl, hreads⟩ := henabled
  have hstage : worker.stage ≠ .stopped := by
    intro heq
    simp [heq, Stage.reads] at hreads
  revert haligned
  simp only [Drain.next, hs.aligned.find_eq hworker]
  intro haligned
  obtain ⟨hkeeps, hactive⟩ := keeps_readControl hs.aligned.watching
    (hs.aligned.owner worker hworker hstage) (hs.aligned.aligned worker hworker)
  exact hs.of_worker hworker haligned rfl rfl hkeeps.live hkeeps.owner
    (fun hstopped ↦ absurd hstopped (hactive hstage))

/-- The lease of a stopped worker is not the one that owns the queue. -/
theorem Awake.drop {lease : LeaseIdentity} (henabled : s.enabled (.drop lease)) :
    Awake (s.next (.drop lease)) := by
  have haligned := hs.aligned.step henabled
  obtain ⟨stopped, hstopped, rfl, hstage⟩ := henabled
  have hother {owner : LeaseIdentity} (howner : s.coordinator.mutation.owner = some owner)
      (hlive : owner ∈ s.coordinator.live) : ∃ worker ∈ s.workers, worker.lease = owner ∧
        worker.stage ≠ .stopped ∧ worker.lease ≠ stopped.lease := by
    obtain ⟨worker, hworker, hlease, hactive⟩ := hs.owned owner howner hlive
    refine ⟨worker, hworker, hlease, hactive, ?_⟩
    intro heq
    rw [hs.aligned.worker_unique hstopped hworker heq] at hactive
    exact hactive hstage
  refine ⟨haligned, hs.serving, ?_, ?_⟩
  · intro owner howner hlive
    obtain ⟨worker, hworker, hlease, hactive, hne⟩ := hother howner (mem_filter.mp hlive).1
    exact ⟨worker, mem_filter.mpr ⟨hworker, by simpa using hne⟩, hlease, hactive⟩
  · intro hrunnable
    refine (hs.woken hrunnable).imp ?_ id
    rw [ownerAlive_iff, ownerAlive_iff]
    intro ⟨owner, howner, hlive⟩
    obtain ⟨worker, -, rfl, -, hne⟩ := hother howner hlive
    exact ⟨worker.lease, howner, mem_filter.mpr ⟨hlive, by simpa using hne⟩⟩

theorem Awake.dropThreadState (henabled : s.enabled .dropThreadState) :
    Awake (s.next .dropThreadState) := by
  have haligned := hs.aligned.step henabled
  refine ⟨haligned, hs.serving, ?_, ?_⟩
  · intro lease howner
    simp [Drain.next, Coordinator.dropThreadState] at howner
  · intro hrunnable
    have hbefore := hs.woken (by simpa [Drain.next, Coordinator.dropThreadState] using hrunnable)
    refine .inr (hbefore.resolve_left ?_)
    rw [ownerAlive_iff, henabled]
    simp

theorem Awake.step {label : Label} (henabled : s.enabled label) (hfault : NoFault s label) :
    Awake (s.next label) := by
  cases label with
  | request op => exact hs.request henabled
  | wake =>
    refine ⟨hs.aligned.step henabled, hs.serving, hs.owned, fun _ ↦ .inr ?_⟩
    simp [Drain.next]
  | signal index => exact hs.signal henabled
  | claim index identity => exact hs.claim henabled
  | work lease choice => exact hs.work henabled hfault
  | control lease => exact hs.control henabled
  | drop lease => exact hs.drop henabled
  | dropThreadState => exact hs.dropThreadState henabled
  | shutdown => exact absurd hfault id
  | crash => exact absurd hfault id

end Step

/-- **No lost wakeup.**  For any number of clients and workers in any interleaving, without storage
faults, shutdown or crash: when no client is on its way to claim and no lease is alive, the stored
queue is empty or its head is suspended. -/
theorem no_wakeup_is_lost (labels : List Label)
    (hrun : (Drain.system.restrict NoFault).Admits {} labels) :
    let s := Drain.system.exec {} labels
    s.clients = [] → s.coordinator.live = [] →
      s.coordinator.stored.pending = [] ∨
        ∃ head rest, s.coordinator.stored.pending = head :: rest ∧ head.control = .suspend := by
  intro s hclients hlive
  have hawake : Awake s := by
    refine System.invariant_of_restrict Awake ?_ ?_ hrun
    · exact fun state label hstate henabled hfault ↦ hstate.step henabled hfault
    · exact ⟨aligned_init, rfl, by simp, by simp [runnable]⟩
  have hidle : runnable s.coordinator.stored.pending ≠ true := by
    intro hrunnable
    rcases hawake.woken hrunnable with halive | hwaiting
    · rw [ownerAlive_iff, hlive] at halive
      simp at halive
    · exact hwaiting hclients
  cases hpending : s.coordinator.stored.pending with
  | nil => exact .inl rfl
  | cons head rest =>
    refine .inr ⟨head, rest, rfl, ?_⟩
    simpa [hpending, runnable] using hidle

/-- A turn is suspended while its worker starts it; the worker releases the queue and its lease is
dropped, with the head kept for the client that resumes it. -/
theorem no_wakeup_is_lost_suspended : let labels : List Label := [
      .request (.enqueue .ok 0 ⟨⟨1, 9⟩, {}, none, {}⟩),
      .claim 0 7,
      .work 7 (.call .ok),
      .work 7 (.call .ok),
      .request (.setSuspended .ok 1 .threadOwner true),
      .signal 0,
      .claim 0 8,
      .work 7 (.call .ok),
      .work 7 (.call .ok),
      .work 7 (.call .ok),
      .work 7 (.call .ok),
      .drop 7]
    let s := Drain.system.exec {} labels
    ¬ s.coordinator.stored.pending = [] ∧ (s.coordinator.stored.pending = [] ∨
      ∃ head rest, s.coordinator.stored.pending = head :: rest ∧ head.control = .suspend) := by
  intro labels s
  exact ⟨by decide, no_wakeup_is_lost labels (by decide) (by decide) (by decide)⟩

end Exo.TurnQueue.Wakeup
