import Exo.Adapters.Outbox

/-!
# What the outbox keeps

No message is lost, one that was delivered or has failed is never claimed again, and no message is
claimed more than three times, as long as the process does not die in two places: between the last
removal and the write of a negative acknowledgement, where the message is nowhere, and between the
write and the last removal of an acknowledgement, where it is delivered and still pending.
-/

namespace Exo.Adapters

open Library List System Option

section
variable (state : Outbox)

/-- The message is in one of the four directories. -/
def Outbox.Present (id : String) : Prop :=
  (state.outbox id).isSome = true ∨ (state.inflight id).isSome = true ∨
    (state.delivered id).isSome = true ∨ (state.failed id).isSome = true

/-- The message was delivered or has failed. -/
def Outbox.Settled (id : String) : Prop :=
  (state.delivered id).isSome = true ∨ (state.failed id).isSome = true

instance (state : Outbox) (id : String) : Decidable (state.Present id) :=
  inferInstanceAs (Decidable (_ ∨ _ ∨ _ ∨ _))

instance (state : Outbox) (id : String) : Decidable (state.Settled id) :=
  inferInstanceAs (Decidable (_ ∨ _))

/-- Between two calls, every message ever enqueued is somewhere. -/
def Outbox.Keeps : Prop :=
  state.task = none → ∀ id ∈ state.enqueued, state.Present id

/-- The step hands out no message that was delivered or has failed. -/
def ReturnsPending (label : OutboxLabel) : Prop :=
  ∀ message ∈ state.returns label, ¬ state.Settled message.id

instance (state : Outbox) : Decidable state.Keeps := inferInstanceAs (Decidable (_ → _))

instance (state : Outbox) (label : OutboxLabel) : Decidable (ReturnsPending state label) :=
  inferInstanceAs (Decidable (∀ message ∈ state.returns label, ¬ state.Settled message.id))

/-- How often a message was claimed. -/
def Outbox.claims (id : String) : ℕ := (state.returned.map (·.id)).count id

/-- The process may die here: the call in progress has not taken its message out of every directory,
and has not delivered a message that is still pending. -/
def OutboxTask.MayCrash : OutboxTask → Prop
  | .delivered _ => False
  | .unqueueing message => state.outbox message.id = none
  | .withdrawing message _ => state.outbox message.id ≠ none
  | .returning _ _ => False
  | _ => True

def CrashesSafely : OutboxLabel → Prop
  | .crash => ∀ task ∈ state.task, task.MayCrash state
  | _ => True

end

instance (state : Outbox) (task : OutboxTask) : Decidable (task.MayCrash state) :=
  match task with
  | .claiming _ _ | .claimed _ _ _ | .delivering _ | .retracting _ _ | .requeueing _ =>
    isTrue trivial
  | .delivered _ | .returning _ _ => isFalse id
  | .unqueueing _ => inferInstanceAs (Decidable (_ = none))
  | .withdrawing _ _ => inferInstanceAs (Decidable (_ ≠ none))

instance (state : Outbox) (label : OutboxLabel) : Decidable (CrashesSafely state label) :=
  match label with
  | .enqueue _ _ _ _ | .begin _ _ | .step _ => isTrue trivial
  | .crash => inferInstanceAs (Decidable (∀ task ∈ state.task, task.MayCrash state))

/-! ## The invariant -/

/-- A negative acknowledgement has begun to take the message out of its directories. -/
def OutboxTask.Carries (id : String) : OutboxTask → Prop
  | .withdrawing message _ => message.id = id
  | .returning message _ => message.id = id
  | _ => False

/-- An acknowledgement has delivered the message and not yet removed every pending file of it. -/
def OutboxTask.Delivers (id : String) : OutboxTask → Prop
  | .delivered message => message.id = id
  | .unqueueing message => message.id = id
  | _ => False

/-- The call in progress is moving the message. -/
def OutboxTask.Moves (id : String) : OutboxTask → Prop
  | .delivered message | .unqueueing message | .withdrawing message _ | .returning message _ =>
    message.id = id
  | _ => False

section
variable (state : Outbox)

/-- The messages a claim has gathered: each is in flight, and was not handed out at this attempt. -/
def Outbox.Gathered (messages : List AdapterOutboundMessageRecord) : Prop :=
  (messages.map (·.id)).Nodup ∧ ∀ message ∈ messages, state.outbox message.id = none ∧
    ¬ state.Settled message.id ∧
    ∃ file, state.inflight message.id = some file ∧ state.claims message.id < file.attempt

/-- What a negative acknowledgement has in memory. -/
def Outbox.Held (message : AdapterOutboundMessageRecord) : Prop :=
  message.id ∈ state.enqueued ∧ ¬ state.Settled message.id ∧
    message.attempt ≤ maxDeliveryAttempts ∧ state.claims message.id ≤ message.attempt

/-- What each call has done so far. -/
def OutboxTask.Sound : OutboxTask → Prop
  | .claiming _ messages => state.Gathered messages
  | .claimed message _ messages =>
    state.Gathered messages ∧ message.id ∉ messages.map (·.id) ∧ ¬ state.Settled message.id ∧
      state.inflight message.id = some message ∧ state.claims message.id < message.attempt
  | .delivering message => message.id ∈ state.enqueued
  | .delivered message => state.Settled message.id
  | .unqueueing message => state.Settled message.id ∧ state.inflight message.id = none
  | .retracting message _ => state.Held message
  | .withdrawing message _ => state.Held message ∧ state.inflight message.id = none
  | .returning message _ =>
    state.Held message ∧ state.inflight message.id = none ∧ state.outbox message.id = none
  | .requeueing _ => True

/-- What holds of one message: a pending file counts at least the claims so far and at most the
attempts allowed, and the message is somewhere, and not both pending and settled, unless the call in
progress is just moving it. -/
structure Outbox.SoundAt (id : String) : Prop where
  queued : ∀ message, state.outbox id = some message →
    message.id = id ∧ message.attempt < maxDeliveryAttempts ∧ state.claims id ≤ message.attempt
  flying : ∀ message, state.inflight id = some message →
    message.id = id ∧ message.attempt ≤ maxDeliveryAttempts ∧ state.claims id ≤ message.attempt
  bounded : state.claims id ≤ maxDeliveryAttempts
  known : state.Present id ∨ 0 < state.claims id → id ∈ state.enqueued
  kept : id ∈ state.enqueued → state.Present id ∨ ∃ task ∈ state.task, task.Carries id
  apart : state.Settled id →
    (state.outbox id = none ∧ state.inflight id = none) ∨ ∃ task ∈ state.task, task.Delivers id

end

structure Outbox.Sound (state : Outbox) : Prop where
  messages : ∀ id, state.SoundAt id
  task : ∀ task ∈ state.task, task.Sound state

/-- The two states have the same files and claims of a message. -/
structure Outbox.AgreesAt (state after : Outbox) (id : String) : Prop where
  outbox : after.outbox id = state.outbox id
  inflight : after.inflight id = state.inflight id
  delivered : after.delivered id = state.delivered id
  failed : after.failed id = state.failed id
  claims : after.claims id = state.claims id

namespace Outbox

/-! ## Frames -/

section Frames
variable {state after : Outbox} {id : String}

theorem AgreesAt.present (hagrees : state.AgreesAt after id) :
    after.Present id ↔ state.Present id := by
  rw [Present, Present, hagrees.outbox, hagrees.inflight, hagrees.delivered, hagrees.failed]

theorem AgreesAt.settled (hagrees : state.AgreesAt after id) :
    after.Settled id ↔ state.Settled id := by
  rw [Settled, Settled, hagrees.delivered, hagrees.failed]

theorem present_of_settled (hsettled : state.Settled id) : state.Present id :=
  .inr (.inr hsettled)

theorem moves_iff {task : OutboxTask} : task.Moves id ↔ task.Carries id ∨ task.Delivers id := by
  cases task <;> simp [OutboxTask.Moves, OutboxTask.Carries, OutboxTask.Delivers]

/-- A message whose files stay as they are stays sound, if the call that was moving it still is. -/
theorem SoundAt.frame (hsound : state.SoundAt id) (hagrees : state.AgreesAt after id)
    (henqueued : id ∈ after.enqueued ↔ id ∈ state.enqueued)
    (hmoves : ∀ task ∈ state.task, task.Moves id → after.task = some task) : after.SoundAt id where
  queued := by
    rw [hagrees.outbox, hagrees.claims]
    exact hsound.queued
  flying := by
    rw [hagrees.inflight, hagrees.claims]
    exact hsound.flying
  bounded := by
    rw [hagrees.claims]
    exact hsound.bounded
  known := by
    rw [hagrees.present, hagrees.claims, henqueued]
    exact hsound.known
  kept := by
    rw [hagrees.present, henqueued]
    intro hid
    exact (hsound.kept hid).imp_right fun ⟨task, htask, hcarry⟩ ↦
      ⟨task, hmoves task htask (moves_iff.2 (.inl hcarry)), hcarry⟩
  apart := by
    rw [hagrees.settled, hagrees.outbox, hagrees.inflight]
    exact fun hsettled ↦ (hsound.apart hsettled).imp_right fun ⟨task, htask, hdeliver⟩ ↦
      ⟨task, hmoves task htask (moves_iff.2 (.inr hdeliver)), hdeliver⟩

/-- What a claim has gathered, when the files of its messages stay as they are. -/
theorem Gathered.frame {messages : List AdapterOutboundMessageRecord}
    (hgathered : state.Gathered messages)
    (hagrees : ∀ message ∈ messages, state.AgreesAt after message.id) :
    after.Gathered messages := by
  refine ⟨hgathered.1, fun message hmessage ↦ ?_⟩
  obtain ⟨houtbox, hsettled, hfile⟩ := hgathered.2 message hmessage
  have hsame := hagrees message hmessage
  rw [hsame.outbox, hsame.settled, hsame.inflight, hsame.claims]
  exact ⟨houtbox, hsettled, hfile⟩

theorem Held.frame {message : AdapterOutboundMessageRecord} (hheld : state.Held message)
    (henqueued : message.id ∈ state.enqueued → message.id ∈ after.enqueued)
    (hsettled : after.Settled message.id ↔ state.Settled message.id)
    (hclaims : after.claims message.id = state.claims message.id) : after.Held message := by
  rw [Held, hsettled, hclaims]
  exact ⟨henqueued hheld.1, hheld.2⟩

end Frames

/-! ## One step -/

section Steps
variable {state after : Outbox} {message : AdapterOutboundMessageRecord} {nowMs : ℕ}

/-- A step that touches the files of one message only, which is the one the call was moving. -/
theorem Sound.change (hsound : state.Sound) {task : OutboxTask}
    (htask : state.task = some task) (moved : String)
    (hagrees : ∀ id, id ≠ moved → state.AgreesAt after id)
    (henqueued : after.enqueued = state.enqueued) (hmoves : ∀ id, task.Moves id → moved = id)
    (hmoved : after.SoundAt moved) (hnext : ∀ next ∈ after.task, next.Sound after) :
    after.Sound := by
  refine ⟨fun id ↦ ?_, hnext⟩
  by_cases hid : id = moved
  · rw [hid]
    exact hmoved
  · refine (hsound.messages id).frame (hagrees id hid) (by rw [henqueued]) ?_
    rw [htask]
    rintro _ ⟨⟩ hmove
    exact absurd (hmoves id hmove).symm hid

/-- A step that only moves on in the call, while no message is being moved. -/
theorem Sound.setTask (hsound : state.Sound) (task : Option OutboxTask)
    (hstill : ∀ task ∈ state.task, ∀ id, ¬ task.Moves id)
    (htask : ∀ next ∈ task, next.Sound state) :
    Sound { state with task := task } := by
  refine ⟨fun id ↦ ?_, fun next hnext ↦ ?_⟩
  · exact (hsound.messages id).frame ⟨rfl, rfl, rfl, rfl, rfl⟩ Iff.rfl
      fun task htask hmove ↦ absurd hmove (hstill task htask id)
  · have hnext := htask next hnext
    cases next <;> exact hnext

variable {id : String} {entries rest : List String} {messages : List AdapterOutboundMessageRecord}
  {file : AdapterOutboundMessageRecord}

theorem not_settled_of_pending (hsound : state.Sound)
    (hstill : ∀ task ∈ state.task, ∀ id, ¬ task.Moves id)
    (hpending : state.outbox id ≠ none ∨ state.inflight id ≠ none) : ¬ state.Settled id := by
  intro hsettled
  obtain hnone | ⟨task, htask, hdeliver⟩ := (hsound.messages id).apart hsettled
  · exact hpending.elim (· hnone.1) (· hnone.2)
  · exact hstill task htask id (moves_iff.2 (.inr hdeliver))

theorem readPending_cases (hread : state.readPendingOutboundMessage id = some message) :
    state.inflight id = some message ∨ state.outbox id = some message := by
  unfold readPendingOutboundMessage at hread
  cases hinflight : state.inflight id with
  | some file =>
    rw [hinflight] at hread
    exact .inl hread
  | none =>
    rw [hinflight] at hread
    exact .inr hread

section
variable (hsound : state.Sound) (hstill : ∀ task ∈ state.task, ∀ id, ¬ task.Moves id)
include hsound hstill

/-- A message read for a negative acknowledgement is pending and within its attempts. -/
theorem Sound.held_of_read (hread : state.readPendingOutboundMessage id = some message) :
    message.id = id ∧ state.Held message := by
  have hmessage := readPending_cases hread
  obtain ⟨hid, hattempt, hclaims⟩ : message.id = id ∧ message.attempt ≤ maxDeliveryAttempts ∧
      state.claims id ≤ message.attempt := by
    rcases hmessage with hinflight | houtbox
    · exact (hsound.messages id).flying message hinflight
    · exact ((hsound.messages id).queued message houtbox).imp_right (And.imp_left le_of_lt)
  have hpresent : state.Present id := by rcases hmessage with h | h <;> simp [Present, h]
  have hpending : state.outbox id ≠ none ∨ state.inflight id ≠ none := by
    rcases hmessage with h | h <;> simp [h]
  have hsettled := not_settled_of_pending hsound hstill hpending
  refine ⟨hid, ?_⟩
  rw [Held, hid]
  exact ⟨(hsound.messages id).known (.inl hpresent), hsettled, hattempt, hclaims⟩

theorem Sound.nack (id error : String) (rest : List String) :
    Sound { state with task := state.nack id error nowMs rest } := by
  refine hsound.setTask _ hstill fun next hnext ↦ ?_
  unfold Outbox.nack at hnext
  split at hnext <;> cases hnext
  · trivial
  · rename_i message hread
    obtain ⟨-, hheld⟩ := hsound.held_of_read hstill hread
    exact hheld

end

theorem Sound.begin (hsound : state.Sound) (hidle : state.task = none) (call : OutboxCall) :
    (state.begin call nowMs).Sound := by
  have hstill : ∀ task ∈ state.task, ∀ id, ¬ task.Moves id := by simp [hidle]
  cases call with
  | claimOutboundMessages entries =>
    refine hsound.setTask _ hstill fun next hnext ↦ ?_
    cases hnext
    exact ⟨nodup_nil, by simp⟩
  | acknowledgeOutboundMessage messageId =>
    refine hsound.setTask _ hstill fun next hnext ↦ ?_
    obtain ⟨message, hread, rfl⟩ := map_eq_some_iff.1 hnext
    exact (hsound.held_of_read hstill hread).2.1
  | nackOutboundMessage messageId error => exact hsound.nack hstill _ _ _
  | requeueOutboundMessage messageId => exact hsound.nack hstill _ _ _
  | requeueInflightMessages entries =>
    refine ⟨fun id ↦ ?_, fun next hnext ↦ by cases hnext; trivial⟩
    exact (hsound.messages id).frame ⟨rfl, rfl, rfl, rfl, rfl⟩ Iff.rfl
      fun task htask hmove ↦ absurd hmove (hstill task htask id)

theorem nextAttempt_of_lt {attempt : ℕ} (hattempt : attempt < maxDeliveryAttempts) :
    nextAttempt attempt = attempt + 1 := by
  unfold nextAttempt
  unfold maxDeliveryAttempts at hattempt
  omega

section
variable (hsound : state.Sound)
include hsound

namespace Sound

/-- The file in flight is written before the one in the outbox is removed. -/
theorem claim (htask : state.task = some (.claiming (id :: entries) messages))
    (hfile : state.outbox id = some file) (hmessage : message.id = file.id)
    (hattempt : message.attempt = nextAttempt file.attempt) :
    Sound { state with
      inflight := state.inflight.write message, task := some (.claimed message entries messages) } := by
  obtain ⟨hid, hless, hclaims⟩ := (hsound.messages id).queued file hfile
  rw [hid] at hmessage
  rw [nextAttempt_of_lt hless] at hattempt
  have hstill : ∀ task ∈ state.task, ∀ id, ¬ task.Moves id := by
    rw [htask]
    rintro _ ⟨⟩ _ ⟨⟩
  have hsettled : ¬ state.Settled id :=
    not_settled_of_pending hsound hstill (.inl (by rw [hfile]; simp))
  have hgathered : state.Gathered messages := hsound.task _ htask
  have hnew : ∀ other ∈ messages, other.id ≠ message.id := by
    intro other hother heq
    have houtbox := (hgathered.2 other hother).1
    rw [heq, hmessage, hfile] at houtbox
    cases houtbox
  have hagrees : ∀ other, other ≠ message.id → state.AgreesAt { state with
      inflight := state.inflight.write message
      task := some (.claimed message entries messages) } other :=
    fun other hother ↦ ⟨rfl, state.inflight.write_of_ne hother, rfl, rfl, rfl⟩
  refine hsound.change htask message.id hagrees rfl nofun ?_ ?_
  · rw [hmessage]
    have hold := hsound.messages id
    refine ⟨hold.queued, ?_, hold.bounded, ?_, ?_, fun h ↦ absurd h hsettled⟩
    · intro other hother
      have hsame : other = message := by
        have hwritten := state.inflight.write_self message
        rw [hmessage] at hwritten
        exact some.inj (hother.symm.trans hwritten)
      rw [hsame, hattempt]
      exact ⟨hmessage, hless, hclaims.trans (Nat.le_succ _)⟩
    · exact fun _ ↦ hold.known (.inl (.inl (by rw [hfile]; rfl)))
    · exact fun _ ↦ .inl (.inl (by simp [hfile]))
  · rintro _ ⟨⟩
    refine ⟨hgathered.frame fun other hother ↦ hagrees other.id (hnew other hother), ?_, ?_,
      state.inflight.write_self message, ?_⟩
    · intro hmem
      obtain ⟨other, hother, heq⟩ := mem_map.1 hmem
      exact hnew other hother heq
    · rw [hmessage]
      exact hsettled
    · rw [hmessage, hattempt]
      exact Nat.lt_succ_of_le hclaims

theorem claimed (htask : state.task = some (.claimed message entries messages)) : Sound { state with
      outbox := state.outbox.remove message.id
      task := some (.claiming entries (messages ++ [message])) } := by
  obtain ⟨hgathered, hnew, hsettled, hinflight, hclaims⟩ := hsound.task _ htask
  have hne : ∀ other ∈ messages, other.id ≠ message.id :=
    fun other hother heq ↦ hnew (mem_map.2 ⟨other, hother, heq⟩)
  have hagrees : ∀ other, other ≠ message.id → state.AgreesAt { state with
      outbox := state.outbox.remove message.id
      task := some (.claiming entries (messages ++ [message])) } other :=
    fun other hother ↦ ⟨state.outbox.remove_of_ne hother, rfl, rfl, rfl, rfl⟩
  have hold := hsound.messages message.id
  refine hsound.change htask message.id hagrees rfl nofun ?_ ?_
  · have hpresent : state.Present message.id := .inr (.inl (by rw [hinflight]; rfl))
    refine ⟨by simp [Directory.remove_self], hold.flying, hold.bounded, fun _ ↦ ?_, fun _ ↦ ?_,
      fun h ↦ absurd h hsettled⟩
    · exact hold.known (.inl hpresent)
    · exact .inl (.inr (.inl (by simp [hinflight])))
  · rintro _ ⟨⟩
    have hframe := hgathered.frame fun other hother ↦ hagrees other.id (hne other hother)
    refine ⟨?_, fun other hother ↦ ?_⟩
    · rw [map_append, map_singleton]
      simpa using hgathered.1.concat hnew
    · rcases mem_append.1 hother with hbefore | hlast
      · exact hframe.2 other hbefore
      · rw [mem_singleton.1 hlast]
        exact ⟨state.outbox.remove_self _, hsettled, message, hinflight, hclaims⟩

/-- What a claim has gathered is handed out once. -/
theorem returnClaimed {returned : List AdapterOutboundMessageRecord}
    (htask : state.task = some (.claiming entries messages)) (hperm : returned.Perm messages) :
    Sound { state with task := none, returned := state.returned ++ returned } := by
  have hgathered : state.Gathered messages := hsound.task _ htask
  have hclaims : ∀ id, claims { state with
      task := none, returned := state.returned ++ returned } id =
        state.claims id + (messages.map (·.id)).count id := by
    intro id
    rw [claims, map_append, count_append, (hperm.map _).count_eq]
    rfl
  refine ⟨fun id ↦ ?_, by simp⟩
  have hold := hsound.messages id
  by_cases hid : id ∈ messages.map (·.id)
  · obtain ⟨message, hmessage, rfl⟩ := mem_map.1 hid
    obtain ⟨houtbox, hsettled, file, hfile, hless⟩ := hgathered.2 message hmessage
    have hone : (messages.map (·.id)).count message.id = 1 :=
      count_eq_one_of_mem hgathered.1 hid
    obtain ⟨hfileId, hmax, -⟩ := hold.flying file hfile
    have hpresent : state.Present message.id := .inr (.inl (by rw [hfile]; rfl))
    refine ⟨?_, ?_, ?_, fun _ ↦ hold.known (.inl hpresent), fun _ ↦ .inl hpresent,
      fun h ↦ absurd h hsettled⟩
    · intro other hother
      rw [show outbox { state with
        task := none, returned := state.returned ++ returned } = state.outbox from rfl,
        houtbox] at hother
      cases hother
    · intro other hother
      have hsame : other = file := some.inj (hother.symm.trans hfile)
      rw [hclaims, hone, hsame]
      exact ⟨hfileId, hmax, hless⟩
    · rw [hclaims, hone]
      exact le_trans hless hmax
  · have hzero : (messages.map (·.id)).count id = 0 := count_eq_zero_of_not_mem hid
    refine hold.frame ⟨rfl, rfl, rfl, rfl, ?_⟩ Iff.rfl ?_
    · rw [hclaims, hzero, Nat.add_zero]
    · rw [htask]
      rintro _ ⟨⟩ ⟨⟩

theorem deliver (htask : state.task = some (.delivering message)) : Sound { state with
      delivered := state.delivered.write message, task := some (.delivered message) } := by
  have hknown : message.id ∈ state.enqueued := hsound.task _ htask
  have hold := hsound.messages message.id
  have hsettled : Settled { state with
      delivered := state.delivered.write message, task := some (.delivered message) } message.id :=
    .inl (by simp [Directory.write_self])
  refine hsound.change htask message.id ?_ rfl nofun ?_ ?_
  · exact fun id hid ↦ ⟨rfl, rfl, state.delivered.write_of_ne hid, rfl, rfl⟩
  · exact ⟨hold.queued, hold.flying, hold.bounded, fun _ ↦ hknown,
      fun _ ↦ .inl (present_of_settled hsettled), fun _ ↦ .inr ⟨_, rfl, rfl⟩⟩
  · rintro _ ⟨⟩
    exact hsettled

theorem removeInflight (htask : state.task = some (.delivered message)) : Sound { state with
      inflight := state.inflight.remove message.id, task := some (.unqueueing message) } := by
  have hsettled : state.Settled message.id := hsound.task _ htask
  have hold := hsound.messages message.id
  refine hsound.change htask message.id ?_ rfl (fun _ ↦ id) ?_ ?_
  · exact fun id hid ↦ ⟨rfl, state.inflight.remove_of_ne hid, rfl, rfl, rfl⟩
  · exact ⟨hold.queued, by simp [Directory.remove_self], hold.bounded,
      fun _ ↦ hold.known (.inl (present_of_settled hsettled)),
      fun _ ↦ .inl (present_of_settled hsettled), fun _ ↦ .inr ⟨_, rfl, rfl⟩⟩
  · rintro _ ⟨⟩
    exact ⟨hsettled, state.inflight.remove_self _⟩

theorem removeOutbox (htask : state.task = some (.unqueueing message)) :
    Sound { state with outbox := state.outbox.remove message.id, task := none } := by
  obtain ⟨hsettled, hinflight⟩ := hsound.task _ htask
  have hold := hsound.messages message.id
  refine hsound.change htask message.id ?_ rfl (fun _ ↦ id) ?_ ?_
  · exact fun id hid ↦ ⟨state.outbox.remove_of_ne hid, rfl, rfl, rfl, rfl⟩
  · exact ⟨by simp [Directory.remove_self], hold.flying, hold.bounded,
      fun _ ↦ hold.known (.inl (present_of_settled hsettled)),
      fun _ ↦ .inl (present_of_settled hsettled),
      fun _ ↦ .inl ⟨state.outbox.remove_self _, hinflight⟩⟩
  · simp

theorem retract (htask : state.task = some (.retracting message rest)) : Sound { state with
      inflight := state.inflight.remove message.id, task := some (.withdrawing message rest) } := by
  have hheld : state.Held message := hsound.task _ htask
  have hold := hsound.messages message.id
  refine hsound.change htask message.id ?_ rfl nofun ?_ ?_
  · exact fun id hid ↦ ⟨rfl, state.inflight.remove_of_ne hid, rfl, rfl, rfl⟩
  · exact ⟨hold.queued, by simp [Directory.remove_self], hold.bounded, fun _ ↦ hheld.1,
      fun _ ↦ .inr ⟨_, rfl, rfl⟩, fun h ↦ absurd h hheld.2.1⟩
  · rintro _ ⟨⟩
    exact ⟨hheld, state.inflight.remove_self _⟩

theorem withdraw (htask : state.task = some (.withdrawing message rest)) : Sound { state with
      outbox := state.outbox.remove message.id, task := some (.returning message rest) } := by
  obtain ⟨hheld, hinflight⟩ := hsound.task _ htask
  have hold := hsound.messages message.id
  refine hsound.change htask message.id ?_ rfl (fun _ ↦ id) ?_ ?_
  · exact fun id hid ↦ ⟨state.outbox.remove_of_ne hid, rfl, rfl, rfl, rfl⟩
  · exact ⟨by simp [Directory.remove_self], hold.flying, hold.bounded, fun _ ↦ hheld.1,
      fun _ ↦ .inr ⟨_, rfl, rfl⟩, fun h ↦ absurd h hheld.2.1⟩
  · rintro _ ⟨⟩
    exact ⟨hheld, hinflight, state.outbox.remove_self _⟩

section
variable (htask : state.task = some (.returning message rest)) (hid : file.id = message.id)
include htask hid

theorem fail : Sound { state with
      failed := state.failed.write file, task := some (.requeueing rest) } := by
  obtain ⟨hheld, hinflight, houtbox⟩ := hsound.task _ htask
  have hold := hsound.messages message.id
  have hsettled : Settled { state with
      failed := state.failed.write file, task := some (.requeueing rest) } message.id :=
    .inr (by rw [← hid]; simp [Directory.write_self])
  refine hsound.change htask message.id ?_ rfl (fun _ ↦ id) ?_ ?_
  · exact fun id hne ↦ ⟨rfl, rfl, rfl, state.failed.write_of_ne (by rwa [hid]), rfl⟩
  · exact ⟨hold.queued, hold.flying, hold.bounded, fun _ ↦ hheld.1,
      fun _ ↦ .inl (present_of_settled hsettled), fun _ ↦ .inl ⟨houtbox, hinflight⟩⟩
  · rintro _ ⟨⟩
    trivial

/-- With attempts left the message is queued again. -/
theorem queueAgain (hattempt : file.attempt = message.attempt)
    (hless : message.attempt < maxDeliveryAttempts) :
    Sound { state with
      outbox := state.outbox.write file, task := some (.requeueing rest) } := by
  obtain ⟨hheld, hinflight, -⟩ := hsound.task _ htask
  have hold := hsound.messages message.id
  have hwritten : state.outbox.write file message.id = some file := by
    rw [← hid]
    exact state.outbox.write_self file
  refine hsound.change htask message.id ?_ rfl (fun _ ↦ id) ?_ ?_
  · exact fun id hne ↦ ⟨state.outbox.write_of_ne (by rwa [hid]), rfl, rfl, rfl, rfl⟩
  · refine ⟨fun other hother ↦ ?_, hold.flying, hold.bounded, fun _ ↦ hheld.1,
      fun _ ↦ .inl (.inl ?_), fun h ↦ absurd h hheld.2.1⟩
    · have hsame : other = file := some.inj (hother.symm.trans hwritten)
      rw [hsame, hattempt]
      exact ⟨hid, hless, hheld.2.2.2⟩
    · simp [hwritten]
  · rintro _ ⟨⟩
    trivial

end

theorem enqueue (hnew : message.id ∉ state.enqueued) (hattempt : message.attempt = 0) :
    (state.enqueueOutboundMessage message).Sound := by
  unfold enqueueOutboundMessage
  split
  · exact hsound
  have hold := hsound.messages message.id
  have habsent : ¬ state.Present message.id := fun h ↦ hnew (hold.known (.inl h))
  have hclaims : state.claims message.id = 0 := by
    by_contra hne
    exact hnew (hold.known (.inr (Nat.pos_of_ne_zero hne)))
  have hagrees : ∀ id, id ≠ message.id → state.AgreesAt { state with
      outbox := state.outbox.write message, enqueued := state.enqueued ++ [message.id] } id :=
    fun id hid ↦ ⟨state.outbox.write_of_ne hid, rfl, rfl, rfl, rfl⟩
  have hother : ∀ id ∈ state.enqueued, id ≠ message.id := fun id hid heq ↦ hnew (heq ▸ hid)
  refine ⟨fun id ↦ ?_, fun task htask ↦ ?_⟩
  · by_cases hid : id = message.id
    · rw [hid]
      refine ⟨fun other hwritten ↦ ?_, fun other hinflight ↦ ?_, hold.bounded, by simp, fun _ ↦ ?_,
        fun h ↦ absurd (.inr (.inr h)) habsent⟩
      · have hsame : other = message :=
          some.inj (hwritten.symm.trans (state.outbox.write_self message))
        rw [hsame, hattempt]
        exact ⟨rfl, Nat.succ_pos _, hclaims.le⟩
      · exact absurd (.inr (.inl (isSome_of_eq_some hinflight))) habsent
      · exact .inl (.inl (by simp [Directory.write_self]))
    · exact (hsound.messages id).frame (hagrees id hid) (by simp [hid]) fun _ htask _ ↦ htask
  · -- the call in progress works on messages that were there before
    have hsoundTask := hsound.task task htask
    have hpresent : ∀ id, state.Present id → state.AgreesAt { state with
        outbox := state.outbox.write message, enqueued := state.enqueued ++ [message.id] } id :=
      fun id h ↦ hagrees id (hother id ((hsound.messages id).known (.inl h)))
    have hgathered : ∀ messages, state.Gathered messages → Gathered { state with
        outbox := state.outbox.write message, enqueued := state.enqueued ++ [message.id] }
          messages := by
      intro messages hmessages
      refine hmessages.frame fun other hmem ↦ hpresent other.id ?_
      obtain ⟨-, -, file, hfile, -⟩ := hmessages.2 other hmem
      exact .inr (.inl (isSome_of_eq_some hfile))
    have hheld : ∀ other, state.Held other → Held { state with
        outbox := state.outbox.write message, enqueued := state.enqueued ++ [message.id] } other :=
      fun other h ↦ h.frame (mem_append_left _) Iff.rfl rfl
    cases task with
    | claiming entries messages => exact hgathered messages hsoundTask
    | claimed other entries messages => exact ⟨hgathered messages hsoundTask.1, hsoundTask.2⟩
    | delivering other => exact mem_append_left _ hsoundTask
    | delivered other => exact hsoundTask
    | unqueueing other => exact hsoundTask
    | retracting other rest => exact hheld other hsoundTask
    | withdrawing other rest => exact ⟨hheld other hsoundTask.1, hsoundTask.2⟩
    | returning other rest =>
      refine ⟨hheld other hsoundTask.1, hsoundTask.2.1, ?_⟩
      rw [(hagrees other.id (hother _ hsoundTask.1.1)).outbox]
      exact hsoundTask.2.2
    | requeueing rest => trivial

theorem crash (hsafe : ∀ task ∈ state.task, task.MayCrash state) :
    Sound { state with task := none, restarting := true } := by
  refine ⟨fun id ↦ ?_, by simp⟩
  have hold := hsound.messages id
  refine ⟨hold.queued, hold.flying, hold.bounded, hold.known, fun hid ↦ ?_, fun hsettled ↦ ?_⟩
  · obtain hpresent | ⟨task, htask, hcarry⟩ := hold.kept hid
    · exact .inl hpresent
    · have hmay := hsafe task htask
      cases task with
      | withdrawing message rest =>
        obtain rfl : message.id = id := hcarry
        exact .inl (.inl (isSome_iff_ne_none.2 hmay))
      | returning message rest => exact hmay.elim
      | _ => exact hcarry.elim
  · obtain hnone | ⟨task, htask, hdeliver⟩ := hold.apart hsettled
    · exact .inl hnone
    · have hmay := hsafe task htask
      cases task with
      | unqueueing message =>
        obtain rfl : message.id = id := hdeliver
        exact .inl ⟨hmay, (hsound.task _ htask).2⟩
      | delivered message => exact hmay.elim
      | _ => exact hdeliver.elim

theorem advance {task : OutboxTask} (htask : state.task = some task) :
    Sound { (state.advance nowMs task).1 with
      returned := state.returned ++ (state.advance nowMs task).2 } := by
  cases task with
  | claiming entries messages =>
    simp only [Outbox.advance]
    have hsort : (sortMessages messages).Perm messages := perm_insertionSort _ messages
    split
    · cases entries with
      | nil => exact hsound.returnClaimed htask hsort
      | cons id entries =>
        simp only
        cases hfile : state.outbox id with
        | none =>
          rw [append_nil]
          exact hsound.setTask none (by simp [htask, OutboxTask.Moves]) (by simp)
        | some file =>
          rw [append_nil]
          exact hsound.claim htask hfile rfl rfl
    · exact hsound.returnClaimed htask hsort
  | claimed message entries messages =>
    simp only [Outbox.advance, append_nil]
    exact hsound.claimed htask
  | delivering message =>
    simp only [Outbox.advance, append_nil]
    exact hsound.deliver htask
  | delivered message =>
    simp only [Outbox.advance, append_nil]
    exact hsound.removeInflight htask
  | unqueueing message =>
    simp only [Outbox.advance, append_nil]
    exact hsound.removeOutbox htask
  | retracting message rest =>
    simp only [Outbox.advance, append_nil]
    exact hsound.retract htask
  | withdrawing message rest =>
    simp only [Outbox.advance, append_nil]
    exact hsound.withdraw htask
  | returning message rest =>
    simp only [Outbox.advance]
    split
    · rw [append_nil]
      exact hsound.fail htask rfl
    · rename_i hless
      rw [append_nil]
      exact hsound.queueAgain htask rfl rfl (Nat.lt_of_not_le hless)
  | requeueing rest =>
    have hstill : ∀ task ∈ state.task, ∀ id, ¬ task.Moves id := by simp [htask, OutboxTask.Moves]
    cases rest with
    | nil =>
      simp only [Outbox.advance, append_nil]
      exact hsound.setTask none hstill (by simp)
    | cons id rest =>
      simp only [Outbox.advance, append_nil]
      exact hsound.nack hstill id _ rest

theorem next {label : OutboxLabel} (henabled : outboxCalls.enabled state label)
    (hsafe : CrashesSafely state label) : (outboxCalls.next state label).Sound := by
  cases label with
  | enqueue id text target nowMs => exact hsound.enqueue henabled rfl
  | begin call nowMs => exact hsound.begin henabled.1 call
  | step nowMs =>
    obtain ⟨task, htask⟩ := isSome_iff_exists.1 henabled
    simp only [outboxCalls, htask]
    exact hsound.advance htask
  | crash => exact hsound.crash hsafe

theorem returnsPending (label : OutboxLabel) : ReturnsPending state label := by
  intro message hmessage
  cases label with
  | step nowMs =>
    cases htask : state.task with
    | none => simp [Outbox.returns, htask] at hmessage
    | some task =>
      simp only [Outbox.returns, htask, map_some, getD_some] at hmessage
      cases task with
      | claiming entries messages =>
        have hmem : message ∈ messages := by
          simp only [Outbox.advance] at hmessage
          split at hmessage
          · cases entries with
            | nil => exact (mem_insertionSort _).1 hmessage
            | cons id entries =>
              simp only at hmessage
              split at hmessage <;> cases hmessage
          · exact (mem_insertionSort _).1 hmessage
        have hgathered : state.Gathered messages := hsound.task _ htask
        exact (hgathered.2 message hmem).2.1
      | returning other rest =>
        simp only [Outbox.advance] at hmessage
        split at hmessage <;> cases hmessage
      | requeueing rest => cases rest <;> cases hmessage
      | _ => cases hmessage
  | _ => cases hmessage

end Sound

end

end Steps

end Outbox

theorem sound_initial : Outbox.initial.Sound :=
  ⟨fun id ↦ ⟨by simp [Outbox.initial], by simp [Outbox.initial], by simp [Outbox.claims, Outbox.initial],
    by simp [Outbox.Present, Outbox.claims, Outbox.initial], by simp [Outbox.initial],
    by simp [Outbox.Settled, Outbox.initial]⟩, by simp [Outbox.initial]⟩

/-- **The outbox neither loses nor resurrects a message.**  In every run of the calls in which the
process never dies while a negative acknowledgement has taken its message out of every directory, or
while an acknowledgement has delivered a message that is still pending: between the calls every
message ever enqueued is in one of the four directories, no claim returns a message that was
delivered or has failed, and no message is claimed more often than there are attempts. -/
theorem outbox_keeps_messages {labels : List OutboxLabel}
    (hrun : (outboxCalls.restrict CrashesSafely).Admits .initial labels) :
    (outboxCalls.exec .initial labels).Keeps ∧
      outboxCalls.Throughout ReturnsPending .initial labels ∧
      ∀ id, (outboxCalls.exec .initial labels).claims id ≤ maxDeliveryAttempts := by
  have hstep : ∀ state label, state.Sound → (outboxCalls.restrict CrashesSafely).enabled state label →
      (outboxCalls.next state label).Sound :=
    fun state label hsound hlabel ↦ hsound.next hlabel.1 hlabel.2
  have hsound : (outboxCalls.exec .initial labels).Sound := by
    rw [← exec_restrict CrashesSafely]
    exact invariant Outbox.Sound hstep sound_initial hrun
  refine ⟨fun hidle id hid ↦ ?_, ?_, fun id ↦ (hsound.messages id).bounded⟩
  · obtain hpresent | ⟨task, htask, -⟩ := (hsound.messages id).kept hid
    · exact hpresent
    · rw [hidle] at htask
      cases htask
  · rw [← throughout_restrict CrashesSafely]
    exact throughout_of_invariant Outbox.Sound hstep
      (fun state label hsound _ ↦ hsound.returnsPending label) sound_initial hrun

/-- A claim dies after its write, the message is requeued, claimed again, refused once and then
acknowledged, while another one is enqueued. -/
theorem outbox_keeps_messages_run : let labels : List OutboxLabel :=
      [.enqueue "m" "hello" none 1, .begin (.claimOutboundMessages ["m"]) 2, .step 2, .crash,
        .begin (.requeueInflightMessages ["m"]) 3, .step 3, .step 3, .step 3, .step 3, .step 3,
        .begin (.claimOutboundMessages ["m"]) 4, .step 4, .step 4, .step 4,
        .begin (.nackOutboundMessage "m" "offline") 5, .step 5, .enqueue "n" "bye" none 5, .step 5,
        .step 5, .step 5, .begin (.claimOutboundMessages ["n", "m"]) 6, .step 6, .step 6, .step 6,
        .step 6, .step 6, .begin (.acknowledgeOutboundMessage "m") 7, .step 7, .step 7, .step 7]
    (outboxCalls.exec .initial labels).Keeps ∧
      outboxCalls.Throughout ReturnsPending .initial labels ∧
      ∀ id, (outboxCalls.exec .initial labels).claims id ≤ maxDeliveryAttempts :=
  outbox_keeps_messages (by decide +kernel)

/-- A message is claimed and refused, and the process dies after the removal of its file in flight:
the requeueing at the next start does not find it. -/
theorem outbox_loses_message : ¬ ∀ labels, outboxCalls.Admits .initial labels →
      (outboxCalls.exec .initial labels).Keeps ∧
        outboxCalls.Throughout ReturnsPending .initial labels ∧
        ∀ id, (outboxCalls.exec .initial labels).claims id ≤ maxDeliveryAttempts := by
  intro hall
  have hkeeps := (hall
    [.enqueue "m" "hello" none 1, .begin (.claimOutboundMessages ["m"]) 2, .step 2, .step 2, .step 2,
      .begin (.nackOutboundMessage "m" "offline") 3, .step 3, .crash,
      .begin (.requeueInflightMessages []) 4, .step 4] (by decide +kernel)).1
  exact absurd hkeeps (by decide +kernel)

/-- A message is acknowledged, and the process dies after it was recorded as delivered: the requeueing
at the next start queues it again and the next claim returns it. -/
example : ¬ outboxCalls.Throughout ReturnsPending .initial
    [.enqueue "m" "hello" none 1, .begin (.claimOutboundMessages ["m"]) 2, .step 2, .step 2, .step 2,
      .begin (.acknowledgeOutboundMessage "m") 3, .step 3, .crash,
      .begin (.requeueInflightMessages ["m"]) 4, .step 4, .step 4, .step 4, .step 4, .step 4,
      .begin (.claimOutboundMessages ["m"]) 5, .step 5, .step 5, .step 5] := by
  decide +kernel

end Exo.Adapters
