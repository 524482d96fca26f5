import Exo.TurnCoordinator.Fifo

/-!
# Control of pending turns

The control of a turn lives twice: durably in its queue entry and, once the turn is started, in the
watch channel its worker reads.  `cancel`, `set_suspended` and an interrupting submission write both
in one critical section; `start`, `acknowledge` and `release_if_idle` install and drop the channel.
The two agree in every reachable state, a cancellation is final, only the owner of the thread, the
submitter or an interrupting submission of the same principal changes a control, and a suspended
entry is not marked started.

The stream over the channel conflates: what it yields is the control stored when it is polled, which
is not the control at `start` if it changed before the first poll.
-/

namespace Exo.TurnCoordinator.Control

open Library Coordinator Fifo List

variable {Work : Type}

/-! ## What a step does to one entry -/

/-- Everything a step can do to an entry that stays in the queue. -/
inductive EntryEffect (c : Coordinator Work) (op : Op Work) (entry : QueuedTurn Work) :
    QueuedTurn Work → Prop where
  | same : EntryEffect c op entry entry
  | controlled {authority : TurnAuthority} {control : TurnControl}
      (hop : op.controlRequest = some (entry.turn.id, authority, control))
      (hpermits : authority.permits entry = true)
      (hfinal : entry.control = .cancel → control = .cancel) :
      EntryEffect c op entry { entry with control := control }
  | interrupted {now : ℤ} {turn : TurnSubmission Work} (hop : op = .enqueue .ok now turn)
      (hhead : c.stored.pending.head? = some entry) (hinterrupts : c.interrupts turn entry = true) :
      EntryEffect c op entry { entry with control := .cancel }
  | started (hmarks : marksStarted entry = true) :
      EntryEffect c op entry { entry with started := true }

variable {pending : List (QueuedTurn Work)} {turn : TurnId} {control : TurnControl}
  {entry : QueuedTurn Work}

theorem entry_eq_of_id_eq (hnodup : (ids pending).Nodup) {first second : QueuedTurn Work}
    (hfirst : first ∈ pending) (hsecond : second ∈ pending) (hid : second.turn.id = first.turn.id) :
    second = first :=
  inj_on_of_nodup_map hnodup hsecond hfirst hid

variable {entry' : QueuedTurn Work} {c : Coordinator Work} {op : Op Work}
  {channel : Watch TurnControl} {stored : TurnQueueState Work} {owner : Option LeaseIdentity}
  {live : List LeaseIdentity} {watch : WatchId}

/-- With distinct ids, exactly the entry of the turn is written. -/
theorem mem_setControl (hnodup : (ids pending).Nodup) :
    entry' ∈ setControl turn control pending ↔ ∃ entry ∈ pending,
      (if entry.turn.id = turn then { entry with control := control } else entry) = entry' := by
  unfold setControl
  rw [updateFirst_eq_map (fun entry : QueuedTurn Work ↦ entry.turn.id) turn _ hnodup, mem_map]

theorem mem_cancelHead {turn : TurnSubmission Work} (hmem : entry' ∈ c.cancelHead turn) :
    entry' ∈ c.stored.pending ∨ ∃ head rest, c.stored.pending = head :: rest ∧
      c.interrupts turn head = true ∧ entry' = { head with control := .cancel } := by
  unfold cancelHead interrupted at hmem
  cases hpending : c.stored.pending with
  | nil => simp [hpending] at hmem
  | cons head rest =>
    simp only [hpending] at hmem
    split at hmem
    · rename_i hsome
      have hinterrupts : c.interrupts turn head = true := by
        by_contra hnot
        simp [hnot] at hsome
      rcases mem_cons.mp hmem with rfl | hmem
      · exact .inr ⟨head, rest, rfl, hinterrupts, rfl⟩
      · exact .inl (mem_cons_of_mem _ hmem)
    · exact .inl hmem

/-- Two snapshots of one entry, before and after a step, are related by an effect. -/
theorem entryEffect_of_step (hnodup : (ids c.stored.pending).Nodup)
    (hentry : entry ∈ c.stored.pending) (hentry' : entry' ∈ (c.perform op).2.stored.pending)
    (hid : entry'.turn.id = entry.turn.id) : EntryEffect c op entry entry' := by
  have hsame (hold : entry' ∈ c.stored.pending) : EntryEffect c op entry entry' := by
    rw [entry_eq_of_id_eq hnodup hentry hold hid]
    exact .same
  have heffect := perform_effect c op
  generalize (c.perform op).1 = response at heffect
  generalize (c.perform op).2.stored = after at heffect hentry'
  cases heffect with
  | unchanged => exact hsame hentry'
  | @admitted now turn hop hnew =>
    rcases mem_append.mp hentry' with hmem | hmem
    · rcases mem_cancelHead hmem with hold | ⟨head, rest, hpending, hinterrupts, rfl⟩
      · exact hsame hold
      · have hhead : head ∈ c.stored.pending := by simp [hpending]
        have heq : entry = head := entry_eq_of_id_eq hnodup hhead hentry hid.symm
        subst heq
        exact .interrupted hop (by simp [hpending]) hinterrupts
    · rw [mem_singleton.mp hmem] at hid
      exact absurd (mem_map_of_mem hentry) (show entry.turn.id ∉ ids c.stored.pending from
          hid ▸ not_mem_ids_of_duplicateOf hnew)
  | @controlled turn authority control found hop hfind hpermits hfinal =>
    obtain ⟨original, horiginal, rfl⟩ := (mem_setControl hnodup).mp hentry'
    have heq : original = entry := by
      apply entry_eq_of_id_eq hnodup hentry horiginal
      rw [← hid]
      split <;> rfl
    subst heq
    split
    · rename_i hturn
      have hfound := find?_some hfind
      simp only [decide_eq_true_eq] at hfound
      have hentryFound : found = original := entry_eq_of_id_eq hnodup horiginal
        (mem_of_find?_eq_some hfind) (hfound.trans hturn.symm)
      subst hentryFound
      exact .controlled (hturn ▸ hop) hpermits hfinal
    · exact .same
  | @started store lease head rest watch hop hcheck hpending =>
    rcases mem_cons.mp hentry' with rfl | hmem
    · rw [startedHead_turn] at hid
      have heq : entry = head := entry_eq_of_id_eq hnodup (by simp [hpending]) hentry hid.symm
      subst heq
      unfold startedHead
      split
      · rename_i hmarks
        exact .started hmarks
      · exact .same
    · exact hsame (by simp [hpending, hmem])
  | removed _ _ hpending => exact hsame (by simp [hpending, hentry'])

namespace EntryEffect

variable {c : Coordinator Work} {op : Op Work} {entry entry' : QueuedTurn Work}

section
variable (heffect : EntryEffect c op entry entry')
include heffect

theorem cancel_final (hcancel : entry.control = .cancel) : entry'.control = .cancel := by
  cases heffect with
  | same => exact hcancel
  | controlled _ _ hfinal => exact hfinal hcancel
  | interrupted => rfl
  | started => exact hcancel

theorem authorised (hchanged : entry'.control ≠ entry.control) :
    (∃ authority control, op.controlRequest = some (entry.turn.id, authority, control) ∧
      (authority = .threadOwner ∨
        ∃ principal, authority = .submitter principal ∧ entry.principal = some principal)) ∨
    (∃ now turn, op = .enqueue .ok now turn ∧ turn.options.attention = .interrupt ∧
      turn.principal = entry.principal ∧ c.stored.pending.head? = some entry ∧
      (entry.started = true ∨ c.mutation.ownerAlive c.live = true)) := by
  cases heffect with
  | same => exact absurd rfl hchanged
  | @controlled authority control hop hpermits =>
    refine .inl ⟨authority, control, hop, ?_⟩
    cases authority with
    | threadOwner => exact .inl rfl
    | submitter principal =>
      exact .inr ⟨principal, rfl, by simpa [TurnAuthority.permits] using hpermits⟩
  | @interrupted now turn hop hhead hinterrupts =>
    have hguards : (turn.options.attention = .interrupt ∧
        (entry.started = true ∨ c.mutation.ownerAlive c.live = true)) ∧
        entry.principal = turn.principal := by
      simpa [interrupts] using hinterrupts
    exact .inr ⟨now, turn, hop, hguards.1.1, hguards.2.symm, hhead, hguards.1.2⟩
  | started => exact absurd rfl hchanged

theorem not_started_while_suspended
    (hsuspended : entry.control = .suspend) : entry'.started = entry.started := by
  cases heffect with
  | same => rfl
  | controlled => rfl
  | interrupted => rfl
  | started hmarks => simp [marksStarted, hsuspended] at hmarks

end

end EntryEffect

/-! ## The watch channel and the stored control -/

/-- The stream over `channel` shows `control`: it yields nothing else, yields it at the first poll,
and has yielded it last once there is nothing left to yield. -/
structure Shows (channel : Watch TurnControl) (control : TurnControl) : Prop where
  value : channel.value = control
  yields : ∀ value, channel.poll.1 = .ready value → value = control
  first : channel.seen = none → channel.poll.1 = .ready control
  settled : (∀ value, channel.poll.1 ≠ .ready value) → channel.yielded.getLast? = some control

theorem shows_of_fresh (hfresh : channel.Fresh) : Shows channel channel.value where
  value := rfl
  yields _ hpoll := Watch.value_of_poll_ready hpoll
  first hunseen := Watch.poll_of_unseen hunseen
  settled hpoll := Watch.last_yielded_of_not_ready hfresh hpoll

/-- The watch whose sender the thread holds. -/
def currentWatch (c : Coordinator Work) : Option WatchId := c.mutation.control.map Prod.snd

/-- The watch installed for a turn holds the control stored in its pending entry; every other
channel has lost its sender. -/
structure Watching (c : Coordinator Work) : Prop where
  nodup : (ids c.stored.pending).Nodup
  current : ∀ turn watch, c.mutation.control = some (turn, watch) →
    ∃ entry ∈ c.stored.pending, entry.turn.id = turn ∧
      ∃ channel, c.watches[watch]? = some channel ∧ channel.closed = false ∧
        channel.value = entry.control
  closed : ∀ watch channel, c.watches[watch]? = some channel → currentWatch c ≠ some watch →
    channel.closed = true
  fresh : ∀ (watch : WatchId) (channel : Watch TurnControl),
    c.watches[watch]? = some channel → channel.Fresh

section
variable (hwatching : Watching c)
include hwatching

/-- Rewriting the stored record keeps the invariant if no entry loses its id or its control. -/
theorem Watching.restore (hnodup : (ids stored.pending).Nodup)
    (hentries : ∀ entry ∈ c.stored.pending, ∃ entry' ∈ stored.pending,
      entry'.turn.id = entry.turn.id ∧ entry'.control = entry.control) :
    Watching ⟨stored, ⟨owner, c.mutation.control⟩, live, c.watches⟩ where
  nodup := hnodup
  current turn watch hcontrol := by
    obtain ⟨entry, hentry, hid, channel, hchannel, hopen, hvalue⟩ :=
      hwatching.current turn watch hcontrol
    obtain ⟨entry', hentry', hid', hcontrol'⟩ := hentries entry hentry
    exact ⟨entry', hentry', hid'.trans hid, channel, hchannel, hopen, hvalue.trans hcontrol'.symm⟩
  closed := hwatching.closed
  fresh := hwatching.fresh

/-- Writing a control to the entry of a turn and notifying its watch keeps the invariant. -/
theorem Watching.notify (hnodup : (ids stored.pending).Nodup)
    (hentries : ∀ entry ∈ c.stored.pending,
      (if entry.turn.id = turn then { entry with control := control } else entry) ∈
        stored.pending) :
    Watching (Coordinator.notify { c with stored := stored } turn control) := by
  unfold Coordinator.notify
  cases hcontrol : c.mutation.control with
  | none => exact ⟨hnodup, by simp [hcontrol], hwatching.closed, hwatching.fresh⟩
  | some current =>
    obtain ⟨id, watch⟩ := current
    obtain ⟨entry, hentry, rfl, channel, hchannel, hopen, hvalue⟩ :=
      hwatching.current id watch hcontrol
    have hentry' := hentries entry hentry
    dsimp only
    split
    · rename_i hturn
      rw [if_pos hturn] at hentry'
      refine ⟨hnodup, ?_, ?_, ?_⟩
      · intro id' watch' hcontrol'
        rw [hcontrol] at hcontrol'
        cases hcontrol'
        exact ⟨_, hentry', rfl, channel.sendReplace control, by simp [hchannel], hopen, rfl⟩
      · intro watch' channel' hchannel' hother
        have hne : watch ≠ watch' := by
          rintro rfl
          exact hother (by simp [currentWatch, hcontrol])
        have hchannel : c.watches[watch']? = some channel' := by
          simpa [getElem?_modify_ne _ _ hne] using hchannel'
        exact hwatching.closed watch' channel' hchannel hother
      · intro watch' channel' hchannel'
        simp only [getElem?_modify] at hchannel'
        obtain ⟨original, horiginal, rfl⟩ := Option.map_eq_some_iff.mp hchannel'
        have hfresh := hwatching.fresh watch' original horiginal
        split
        · exact hfresh.sendReplace control
        · exact hfresh
    · rename_i hturn
      rw [if_neg hturn] at hentry'
      refine ⟨hnodup, ?_, hwatching.closed, hwatching.fresh⟩
      intro id' watch' hcontrol'
      rw [hcontrol] at hcontrol'
      cases hcontrol'
      exact ⟨entry, hentry', rfl, channel, hchannel, hopen, hvalue⟩

/-- A channel after the current sender is dropped: closed, with the value it had. -/
theorem dropControl_channel (hchannel : c.dropControl.watches[watch]? = some channel) :
    channel.closed = true ∧ ∃ original, c.watches[watch]? = some original ∧
      channel.value = original.value ∧ channel.Fresh := by
  unfold dropControl at hchannel
  split at hchannel
  · rename_i id current hcontrol
    rw [getElem?_modify] at hchannel
    obtain ⟨original, horiginal, rfl⟩ := Option.map_eq_some_iff.mp hchannel
    have hfresh := hwatching.fresh watch original horiginal
    split
    · exact ⟨rfl, original, horiginal, rfl, hfresh.close⟩
    · rename_i hne
      have hclosed := hwatching.closed watch original horiginal
        (by simpa [currentWatch, hcontrol] using hne)
      exact ⟨hclosed, original, horiginal, rfl, hfresh⟩
  · rename_i hcontrol
    have hclosed := hwatching.closed watch channel hchannel (by simp [currentWatch, hcontrol])
    exact ⟨hclosed, channel, hchannel, rfl, hwatching.fresh watch channel hchannel⟩

/-- Dropping the sender keeps the invariant whatever happens to the queue. -/
theorem Watching.dropControl (hnodup : (ids stored.pending).Nodup) :
    Watching ⟨stored, ⟨owner, none⟩, live, c.dropControl.watches⟩ where
  nodup := hnodup
  current := nofun
  closed _ _ hchannel _ := (dropControl_channel hwatching hchannel).1
  fresh _ _ hchannel := by
    obtain ⟨-, _, -, -, hfresh⟩ := dropControl_channel hwatching hchannel
    exact hfresh

end

theorem dropControl_watches_length (c : Coordinator Work) :
    c.dropControl.watches.length = c.watches.length := by
  unfold Coordinator.dropControl
  split <;> simp

/-- Installing a channel with the control of a pending entry keeps the invariant. -/
theorem Watching.install (hwatching : Watching c) (hnodup : (ids stored.pending).Nodup)
    (hentry : entry ∈ stored.pending) :
    Watching ⟨stored, ⟨owner, some (entry.turn.id, c.watches.length)⟩, live,
      c.dropControl.watches ++ [Watch.channel entry.control]⟩ := by
  have hlength := dropControl_watches_length c
  have hold (watch : ℕ) (channel : Watch TurnControl)
      (hchannel : (c.dropControl.watches ++ [Watch.channel entry.control])[watch]? = some channel) :
      c.dropControl.watches[watch]? = some channel ∨
        watch = c.watches.length ∧ channel = Watch.channel entry.control := by
    rw [getElem?_append] at hchannel
    split at hchannel
    · exact .inl hchannel
    · rename_i hlt
      have hzero : watch - c.dropControl.watches.length = 0 := by
        by_contra hne
        rw [getElem?_eq_none (by simp; omega)] at hchannel
        cases hchannel
      rw [hzero] at hchannel
      exact .inr ⟨by omega, by simpa using hchannel.symm⟩
  refine ⟨hnodup, ?_, ?_, ?_⟩
  · intro turn watch hcontrol
    cases hcontrol
    refine ⟨entry, hentry, rfl, Watch.channel entry.control, ?_, rfl, rfl⟩
    rw [← hlength, getElem?_concat_length]
  · intro watch channel hchannel hother
    rcases hold watch channel hchannel with hchannel | ⟨rfl, -⟩
    · exact (dropControl_channel hwatching hchannel).1
    · exact absurd rfl hother
  · intro watch channel hchannel
    rcases hold watch channel hchannel with hchannel | ⟨-, rfl⟩
    · obtain ⟨-, _, -, -, hfresh⟩ := dropControl_channel hwatching hchannel
      exact hfresh
    · exact Watch.fresh_channel entry.control

theorem Watching.poll {c : Coordinator Work} (hwatching : Watching c) (watch : WatchId) :
    Watching (c.poll watch).2 := by
  unfold Coordinator.poll
  split
  · exact hwatching
  have hold (watch' : WatchId) (channel' : Watch TurnControl)
      (hchannel' : (c.watches.modify watch (·.poll.2))[watch']? = some channel') :
      ∃ channel, c.watches[watch']? = some channel ∧ channel'.closed = channel.closed ∧
        channel'.Fresh := by
    rw [getElem?_modify] at hchannel'
    obtain ⟨channel, hchannel, rfl⟩ := Option.map_eq_some_iff.mp hchannel'
    have hfresh := hwatching.fresh watch' channel hchannel
    split
    · exact ⟨channel, hchannel, Watch.poll_closed channel, hfresh.poll⟩
    · exact ⟨channel, hchannel, rfl, hfresh⟩
  refine ⟨hwatching.nodup, ?_, ?_, ?_⟩
  · intro turn watch' hcontrol
    obtain ⟨entry, hentry, hid, channel, hchannel, hopen, hvalue⟩ :=
      hwatching.current turn watch' hcontrol
    refine ⟨entry, hentry, hid, ?_⟩
    by_cases hwatch : watch = watch'
    · subst hwatch
      exact ⟨channel.poll.2, by simp [hchannel], by simp [hopen], by simp [hvalue]⟩
    · exact ⟨channel, by simp [getElem?_modify_ne _ _ hwatch, hchannel], hopen, hvalue⟩
  · intro watch' channel' hchannel' hother
    obtain ⟨channel, hchannel, hclosed, -⟩ := hold watch' channel' hchannel'
    rw [hclosed]
    exact hwatching.closed watch' channel hchannel hother
  · intro watch' channel' hchannel'
    obtain ⟨-, -, -, hfresh⟩ := hold watch' channel' hchannel'
    exact hfresh

section
variable (hwatching : Watching c)
include hwatching

section
variable (store : StoreOutcome)

theorem Watching.updateControl (turn : TurnId) (authority : TurnAuthority)
    (control : TurnControl) : Watching (c.updateControl store turn authority control).2 := by
  unfold Coordinator.updateControl
  split
  · exact hwatching
  split
  · exact hwatching
  split
  · exact hwatching
  split
  · exact hwatching
  split
  · exact hwatching
  apply hwatching.notify (by simpa using hwatching.nodup)
  intro entry hentry
  exact (mem_setControl hwatching.nodup).mpr ⟨entry, hentry, rfl⟩

theorem Watching.enqueue (now : ℤ) (turn : TurnSubmission Work)
    (hnodup : (ids (c.enqueue store now turn).2.stored.pending).Nodup) :
    Watching (c.enqueue store now turn).2 := by
  revert hnodup
  unfold Coordinator.enqueue
  split
  · exact fun _ ↦ hwatching
  split
  · exact fun _ ↦ hwatching
  split
  · exact fun _ ↦ hwatching
  intro hnodup
  rw [notifyInterrupted_stored] at hnodup
  dsimp only at hnodup ⊢
  cases hinterrupted : c.interrupted turn with
  | none =>
    apply hwatching.restore hnodup
    intro entry hentry
    exact ⟨entry, by simp [acceptState, cancelHead, hinterrupted, hentry], rfl, rfl⟩
  | some id =>
    apply hwatching.notify hnodup
    unfold interrupted at hinterrupted
    cases hpending : c.stored.pending with
    | nil => simp
    | cons head rest =>
      have hid : head.turn.id = id := by
        simp only [hpending] at hinterrupted
        split at hinterrupted
        · exact Option.some.inj hinterrupted
        · cases hinterrupted
      have hnew : (ids (head :: rest)).Nodup := hpending ▸ hwatching.nodup
      have hsome : (c.interrupted turn).isSome = true := by
        unfold interrupted
        rw [hinterrupted]
        rfl
      simp only [acceptState, cancelHead, if_pos hsome, hpending, modifyHead_cons]
      intro entry hentry
      rcases mem_cons.mp hentry with rfl | hentry
      · rw [if_pos hid]
        simp
      · have hne : entry.turn.id ≠ id := by
          rw [← hid]
          rintro heq
          exact (nodup_cons.mp hnew).1 (mem_map.mpr ⟨entry, hentry, heq⟩)
        rw [if_neg hne]
        simp [hentry]

section
variable (lease : LeaseIdentity)

theorem Watching.start (turn : TurnId)
    (hnodup : (ids (c.start store lease turn).2.stored.pending).Nodup) :
    Watching (c.start store lease turn).2 := by
  revert hnodup
  unfold Coordinator.start
  split
  · exact fun _ ↦ hwatching
  split
  · exact fun _ ↦ hwatching
  split
  · exact fun _ ↦ hwatching
  split
  · exact fun _ ↦ hwatching
  split
  · exact fun _ ↦ hwatching
  rename_i head rest _ hid _
  intro hnodup
  have hturn : (startedHead head).turn.id = turn := by
    rw [startedHead_turn]
    simpa using hid
  subst hturn
  rw [← startedHead_control head]
  exact hwatching.install hnodup mem_cons_self

theorem Watching.acknowledge (turn : TurnId)
    (hnodup : (ids (c.acknowledge store lease turn).2.stored.pending).Nodup) :
    Watching (c.acknowledge store lease turn).2 := by
  revert hnodup
  unfold Coordinator.acknowledge
  split
  · exact fun _ ↦ hwatching
  split
  · exact fun _ ↦ hwatching
  split
  · exact fun _ ↦ hwatching
  split
  · exact fun _ ↦ hwatching
  split
  · exact fun _ ↦ hwatching
  split
  · exact fun _ ↦ hwatching
  intro hnodup
  have hkeeps : Watching ⟨_, ⟨c.dropControl.mutation.owner, none⟩, c.dropControl.live,
      c.dropControl.watches⟩ := hwatching.dropControl hnodup
  rwa [← dropControl_control c] at hkeeps

theorem Watching.releaseIfIdle : Watching (c.releaseIfIdle store lease).2 := by
  unfold Coordinator.releaseIfIdle
  split
  · exact hwatching
  split
  · exact hwatching
  split
  · exact hwatching
  · exact hwatching.dropControl (by simpa using hwatching.nodup)

end

end

/-- Every operation keeps the channel and the stored control together. -/
theorem Watching.perform (op : Op Work) : Watching (c.perform op).2 := by
  have hnodup := nodup_ids_step hwatching.nodup op
  cases op with
  | enqueue store now turn => exact hwatching.enqueue store now turn hnodup
  | cancel store turn authority => exact hwatching.updateControl store turn authority _
  | setSuspended store turn authority suspended =>
    exact hwatching.updateControl store turn authority _
  | claim identity =>
    simp only [Coordinator.perform, claim]
    split
    · exact hwatching
    · exact hwatching.restore hwatching.nodup (fun entry hentry ↦ ⟨entry, hentry, rfl, rfl⟩)
  | get => exact hwatching
  | peek => exact hwatching
  | start store lease turn => exact hwatching.start store lease turn hnodup
  | acknowledge store lease turn => exact hwatching.acknowledge store lease turn hnodup
  | releaseIfIdle store lease => exact hwatching.releaseIfIdle store lease
  | poll watch => exact hwatching.poll watch
  | dropLease =>
    exact hwatching.restore hwatching.nodup (fun entry hentry ↦ ⟨entry, hentry, rfl, rfl⟩)
  | dropThreadState => exact hwatching.dropControl (by simpa using hwatching.nodup)

end

theorem watching_of_admits {ops : List (Op Work)} (hrun : (system Work).Admits {} ops) :
    Watching ((system Work).exec {} ops) := by
  refine System.invariant Watching ?_ ?_ hrun
  · intro c op hwatching _
    exact hwatching.perform op
  · exact ⟨nodup_nil, by simp, by simp, by simp⟩

/-- `start` answers with the watch it installed, holding the control of the head. -/
theorem started_channel {head : QueuedTurn Work}
    (hstarted : (c.perform op).1 = .started head watch) :
    (c.perform op).2.mutation.control = some (head.turn.id, watch) ∧
      (c.perform op).2.watches[watch]? = some (Watch.channel head.control) := by
  obtain ⟨store, lease, first, rest, -, -, -, rfl, rfl, hafter⟩ := perform_started hstarted
  rw [hafter, startedHead_turn, startedHead_control]
  refine ⟨rfl, ?_⟩
  rw [← dropControl_watches_length, getElem?_concat_length]

/-! ## Streams that have lost their sender -/

theorem notify_watches (hother : currentWatch c ≠ some watch) (turn : TurnId)
    (control : TurnControl) : (c.notify turn control).watches[watch]? = c.watches[watch]? := by
  unfold Coordinator.notify
  split
  · rename_i id current hcontrol
    have hne : current ≠ watch := by simpa [currentWatch, hcontrol] using hother
    split
    · exact getElem?_modify_ne _ _ hne
    · rfl
  · rfl

theorem notifyInterrupted_watches (hother : currentWatch c ≠ some watch)
    (interrupted : Option TurnId) :
    (c.notifyInterrupted interrupted).watches[watch]? = c.watches[watch]? := by
  cases interrupted with
  | none => rfl
  | some id => exact notify_watches hother id .cancel

theorem dropControl_value (hchannel : c.watches[watch]? = some channel) :
    ∃ channel', c.dropControl.watches[watch]? = some channel' ∧ channel'.value = channel.value := by
  unfold Coordinator.dropControl
  split
  · simp only [getElem?_modify, hchannel]
    refine ⟨_, rfl, ?_⟩
    split <;> rfl
  · exact ⟨channel, hchannel, rfl⟩

/-- A step that leaves a channel without sender leaves its value as it was. -/
theorem value_of_not_current (hchannel : c.watches[watch]? = some channel)
    (hother : currentWatch (c.perform op).2 ≠ some watch) :
    ∃ channel', (c.perform op).2.watches[watch]? = some channel' ∧
      channel'.value = channel.value := by
  have hsame : ∃ channel', c.watches[watch]? = some channel' ∧ channel'.value = channel.value :=
    ⟨channel, hchannel, rfl⟩
  have hdrop := dropControl_value hchannel
  have hupdate (store : StoreOutcome) (turn : TurnId) (authority : TurnAuthority)
      (control : TurnControl)
      (hother : currentWatch (c.updateControl store turn authority control).2 ≠ some watch) :
      ∃ channel', (c.updateControl store turn authority control).2.watches[watch]? =
        some channel' ∧ channel'.value = channel.value := by
    revert hother
    unfold Coordinator.updateControl
    split
    · exact fun _ ↦ hsame
    split
    · exact fun _ ↦ hsame
    split
    · exact fun _ ↦ hsame
    split
    · exact fun _ ↦ hsame
    split
    · exact fun _ ↦ hsame
    intro hother
    rw [notify_watches (by simpa [currentWatch] using hother)]
    exact hsame
  cases op with
  | enqueue store now turn =>
    revert hother
    simp only [Coordinator.perform, Coordinator.enqueue]
    repeat' split
    all_goals try exact fun _ ↦ hsame
    intro hother
    rw [notifyInterrupted_watches (by simpa [currentWatch] using hother)]
    exact hsame
  | cancel store turn authority => exact hupdate store turn authority .cancel hother
  | setSuspended store turn authority suspended => exact hupdate store turn authority _ hother
  | claim identity =>
    simp only [Coordinator.perform, Coordinator.claim]
    split <;> exact hsame
  | get => exact hsame
  | peek => exact hsame
  | start store lease turn =>
    simp only [Coordinator.perform, Coordinator.start]
    repeat' split
    all_goals try exact hsame
    obtain ⟨channel', hchannel', hvalue⟩ := hdrop
    exact ⟨channel', by rw [List.getElem?_append_left (List.getElem?_eq_some_iff.mp hchannel').1,
      hchannel'], hvalue⟩
  | acknowledge store lease turn =>
    simp only [Coordinator.perform, Coordinator.acknowledge]
    repeat' split
    all_goals first | exact hsame | exact hdrop
  | releaseIfIdle store lease =>
    simp only [Coordinator.perform, Coordinator.releaseIfIdle]
    repeat' split
    all_goals first | exact hsame | exact hdrop
  | poll watch' =>
    simp only [Coordinator.perform, Coordinator.poll]
    split
    · exact hsame
    · simp only [List.getElem?_modify, hchannel]
      refine ⟨_, rfl, ?_⟩
      split <;> simp
  | dropLease => exact hsame
  | dropThreadState => exact hdrop

/-! ## Control is consistent, authorised and final -/

/-- **Control.**  In every reachable state the watch of a turn shows the control stored in its
entry, `start` returns a stream on a channel that holds the control at that moment, and a stream
that loses its sender goes on showing the value it had.  No step changes a cancelled control, only
the owner of the thread, the submitter of the entry or an interrupting submission of its principal
changes a control, and a suspended entry is not marked started. -/
theorem control_is_consistent_authorised_and_final (ops : List (Op Work)) (op : Op Work)
    (hrun : (system Work).Admits {} (ops ++ [op])) :
    let c := (system Work).exec {} ops
    let c' := (c.perform op).2
    (∀ turn watch, c.mutation.control = some (turn, watch) →
      ∃ entry ∈ c.stored.pending, entry.turn.id = turn ∧
        ∃ channel, c.watches[watch]? = some channel ∧ channel.closed = false ∧
          Shows channel entry.control) ∧
    (∀ head watch, (c.perform op).1 = .started head watch →
      c'.mutation.control = some (head.turn.id, watch) ∧
        c'.watches[watch]? = some (Watch.channel head.control)) ∧
    (∀ watch channel, c.watches[watch]? = some channel → currentWatch c' ≠ some watch →
      ∃ channel', c'.watches[watch]? = some channel' ∧ channel'.closed = true ∧
        Shows channel' channel.value) ∧
    (∀ entry ∈ c.stored.pending, ∀ entry' ∈ c'.stored.pending, entry'.turn.id = entry.turn.id →
      (entry.control = .cancel → entry'.control = .cancel) ∧
      (entry'.control ≠ entry.control →
        (∃ authority control, op.controlRequest = some (entry.turn.id, authority, control) ∧
          (authority = .threadOwner ∨
            ∃ principal, authority = .submitter principal ∧ entry.principal = some principal)) ∨
        (∃ now turn, op = .enqueue .ok now turn ∧ turn.options.attention = .interrupt ∧
          turn.principal = entry.principal ∧ c.stored.pending.head? = some entry ∧
          (entry.started = true ∨ c.mutation.ownerAlive c.live = true))) ∧
      (entry.control = .suspend → entry'.started = entry.started)) := by
  intro c c'
  rw [System.admits_append] at hrun
  have hwatching : Watching c := watching_of_admits hrun.1
  have hwatching' : Watching c' := hwatching.perform op
  refine ⟨?_, ?_, ?_, ?_⟩
  · intro turn watch hcontrol
    obtain ⟨entry, hentry, hid, channel, hchannel, hopen, hvalue⟩ :=
      hwatching.current turn watch hcontrol
    refine ⟨entry, hentry, hid, channel, hchannel, hopen, ?_⟩
    rw [← hvalue]
    exact shows_of_fresh (hwatching.fresh watch channel hchannel)
  · intro head watch hstarted
    exact started_channel hstarted
  · intro watch channel hchannel hother
    obtain ⟨channel', hchannel', hvalue⟩ := value_of_not_current hchannel hother
    refine ⟨channel', hchannel', hwatching'.closed watch channel' hchannel' hother, ?_⟩
    rw [← hvalue]
    exact shows_of_fresh (hwatching'.fresh watch channel' hchannel')
  · intro entry hentry entry' hentry' hid
    have heffect := entryEffect_of_step hwatching.nodup hentry hentry' hid
    exact ⟨heffect.cancel_final, heffect.authorised, heffect.not_started_while_suspended⟩

/-- The submitter's interruption reaches the running head and its stream. -/
theorem control_is_consistent_authorised_and_final_interrupted : let ops : List (Op String) := [
      .enqueue .ok 0 ⟨⟨1, 9⟩, "first", some "alice", {}⟩,
      .claim 7,
      .start .ok 7 1,
      .poll 0,
      .enqueue .ok 0 ⟨⟨2, 9⟩, "second", some "alice", { attention := .interrupt }⟩]
    let c := (system String).exec {} ops
    ((c.perform (.poll 0)).1 = .polled (.ready .cancel)) ∧
      ∃ entry ∈ c.stored.pending, entry.turn.id = 1 ∧
        ∃ channel, c.watches[0]? = some channel ∧ channel.closed = false ∧
          Shows channel entry.control := by
  intro ops c
  have hcontrol := control_is_consistent_authorised_and_final ops (.poll 0) (by decide)
  exact ⟨by decide, hcontrol.1 1 0 (by decide)⟩

/-- What a stream yields first is the control its turn had at `start`. -/
def StreamsBeginAtStart (ops : List (Op Work)) : Prop :=
  ∀ before op after head watch channel, ops = before ++ op :: after →
    (((system Work).exec {} before).perform op).1 = .started head watch →
    ((system Work).exec {} ops).watches[watch]? = some channel →
    ∀ control, channel.yielded.head? = some control → control = head.control

/-- A turn suspended before `start` and resumed before the first poll: the stream never yields the
suspension. -/
theorem streams_do_not_begin_at_start : let before : List (Op String) := [
      .enqueue .ok 0 ⟨⟨1, 9⟩, "work", some "alice", {}⟩,
      .claim 7,
      .setSuspended .ok 1 .threadOwner true]
    let ops := before ++ Op.start .ok 7 1 :: [
      .setSuspended .ok 1 .threadOwner false,
      .poll 0]
    (system String).Admits {} ops ∧ ¬ StreamsBeginAtStart ops := by
  intro before ops
  refine ⟨by decide, ?_⟩
  intro hbegins
  have hfirst := hbegins before (.start .ok 7 1) _ ⟨⟨1, 9⟩, "work", some "alice", false, .suspend⟩ 0
    ⟨.run, 1, false, some 1, [.run]⟩ rfl (by decide) (by decide) .run rfl
  cases hfirst

end Exo.TurnCoordinator.Control
