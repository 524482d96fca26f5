import Mathlib.Data.List.AList
import Mathlib.Data.List.Sort
import Exo.Library.System
import Exo.Scheduler.Tasks

/-!
# Wakeups of fired slots

A run that has finished its command writes a pending fire for its task and slot, wakes the
conversation and moves the fire to the delivered ones.  On startup the pending fires are delivered
again; a fire whose agent or conversation is gone is retired.  Runs and redelivery interleave freely
here, each may end between any two of its steps, and a slot may be run again.
-/

namespace Exo.Scheduler

open Library List System

/-- A task and one of its slots. -/
abbrev FireKey := String × ℕ

structure ScheduledFireRecord where
  taskId : String
  taskName : String
  slotMs : ℕ
  runId : ℕ
  agentId : String
  conversationId : String
  prompt : String
  firedAtMs : ℕ
  deriving DecidableEq

def ScheduledFireRecord.key (fire : ScheduledFireRecord) : FireKey := (fire.taskId, fire.slotMs)

/-- One file for each key. -/
abbrev FireFiles := AList (fun _ : FireKey ↦ ScheduledFireRecord)

/-- The directories `fires/pending` and `fires/delivered`. -/
structure Fires where
  pending : FireFiles
  delivered : FireFiles

namespace Fires

section
variable (fires : Fires)

/-- `fire_was_delivered`. -/
def fireWasDelivered (key : FireKey) : Bool := decide (key ∈ fires.delivered)

/-- The write of `put_pending_fire`, once the slot was found undelivered. -/
def writePending (fire : ScheduledFireRecord) : Fires :=
  { fires with pending := fires.pending.insert fire.key fire }

/-- `mark_fire_delivered`: the rename, or nothing if no fire is pending. -/
def markFireDelivered (key : FireKey) : Fires :=
  match fires.pending.lookup key with
  | none => fires
  | some fire =>
    { pending := fires.pending.erase key, delivered := fires.delivered.insert key fire }

/-- `pending_fires`, oldest first. -/
def pendingFires : List ScheduledFireRecord :=
  (fires.pending.entries.map (·.2)).insertionSort fun first second ↦
    first.firedAtMs < second.firedAtMs ∨
      first.firedAtMs = second.firedAtMs ∧ first.slotMs ≤ second.slotMs

theorem lookup_pending_mark (key other : FireKey) :
    (fires.markFireDelivered key).pending.lookup other =
      if other = key then none else fires.pending.lookup other := by
  unfold markFireDelivered
  by_cases hkey : other = key
  · subst hkey
    cases hpending : fires.pending.lookup other <;> simp [hpending]
  · cases hpending : fires.pending.lookup key <;> simp [hkey, AList.lookup_erase_ne hkey]

end

variable {fires : Fires} {key other : FireKey}

theorem mem_pending_mark :
    other ∈ (fires.markFireDelivered key).pending ↔ other ∈ fires.pending ∧ other ≠ key := by
  rw [← AList.lookup_isSome, lookup_pending_mark, ← AList.lookup_isSome]
  by_cases hkey : other = key <;> simp [hkey]

theorem mem_delivered_mark : other ∈ (fires.markFireDelivered key).delivered ↔
      other ∈ fires.delivered ∨ other = key ∧ key ∈ fires.pending := by
  unfold markFireDelivered
  cases hpending : fires.pending.lookup key with
  | none =>
    have habsent : key ∉ fires.pending := AList.lookup_eq_none.1 hpending
    simp [habsent]
  | some fire =>
    have hpresent : key ∈ fires.pending :=
      AList.lookup_isSome.1 (Option.isSome_iff_exists.2 ⟨fire, hpending⟩)
    simp [hpresent, or_comm]

theorem mem_pendingFires {fire : ScheduledFireRecord} :
    fire ∈ fires.pendingFires ↔ ∃ key, fires.pending.lookup key = some fire := by
  simp only [pendingFires, mem_insertionSort, mem_map, Sigma.exists, exists_eq_right]
  exact exists_congr fun key ↦ AList.mem_lookup_iff.symm

end Fires

/-! ## Runs and redelivery -/

/-- Where a run stands that has finished its command: in the check and in the write of
`put_pending_fire`, before its wakeup, before its fire is marked. -/
inductive RunStage where
  | checking
  | writing
  | sending
  | marking
  deriving DecidableEq

/-- What redelivery does next with the first of the fires it listed. -/
inductive RedeliveryStage where
  | looking
  | sending
  | marking
  deriving DecidableEq

/-- The files, what is in flight, and what has happened: the fires for which `put_pending_fire` has
returned, the wakeups sent, and the retired keys. -/
structure Wakeups where
  files : Fires := ⟨∅, ∅⟩
  runs : AList (fun _ : ℕ ↦ ScheduledFireRecord × RunStage) := ∅
  redelivery : Option (List ScheduledFireRecord × RedeliveryStage) := none
  recorded : List ScheduledFireRecord := []
  sent : List ScheduledFireRecord := []
  retired : List FireKey := []

/-- The steps of runs, by their identifier, and of redelivery.  A send may fail, which ends its run
or the redelivery; `found` says whether the owner of the fire still exists. -/
inductive WakeupLabel where
  | reach (fire : ScheduledFireRecord)
  | check (run : ℕ)
  | write (run : ℕ)
  | send (run : ℕ) (succeeds : Bool)
  | mark (run : ℕ)
  | abandon (run : ℕ)
  | redeliver
  | look (found : Bool)
  | resend (succeeds : Bool)
  | remark
  | stop

namespace Wakeups

section
variable (state : Wakeups)

/-- The stage a run must be in for a label, if the label is a run's. -/
def enabled : WakeupLabel → Prop
  | .reach fire => fire.runId ∉ state.runs
  | .check run => ∃ entry ∈ state.runs.lookup run, entry.2 = .checking
  | .write run => ∃ entry ∈ state.runs.lookup run, entry.2 = .writing
  | .send run _ => ∃ entry ∈ state.runs.lookup run, entry.2 = .sending
  | .mark run => ∃ entry ∈ state.runs.lookup run, entry.2 = .marking
  | .abandon _ => True
  | .redeliver => state.redelivery = none
  | .look _ => ∃ entry ∈ state.redelivery, entry.1 ≠ [] ∧ entry.2 = .looking
  | .resend _ => ∃ entry ∈ state.redelivery, entry.1 ≠ [] ∧ entry.2 = .sending
  | .remark => ∃ entry ∈ state.redelivery, entry.1 ≠ [] ∧ entry.2 = .marking
  | .stop => True

/-- A step of a run with this fire. -/
def runNext (run : ℕ) (fire : ScheduledFireRecord) : WakeupLabel → Wakeups
  | .check _ =>
    if state.files.fireWasDelivered fire.key then
      { state with
        runs := state.runs.insert run (fire, .sending)
        recorded := state.recorded ++ [fire] }
    else { state with runs := state.runs.insert run (fire, .writing) }
  | .write _ =>
    { state with
      files := state.files.writePending fire
      runs := state.runs.insert run (fire, .sending)
      recorded := state.recorded ++ [fire] }
  | .send _ succeeds =>
    if succeeds then
      { state with
        runs := state.runs.insert run (fire, .marking)
        sent := state.sent ++ [fire] }
    else { state with runs := state.runs.erase run }
  | .mark _ =>
    { state with
      files := state.files.markFireDelivered fire.key
      runs := state.runs.erase run }
  | _ => state

/-- A step of redelivery at this fire, with the others still to come. -/
def redeliveryNext (fire : ScheduledFireRecord)
    (rest : List ScheduledFireRecord) : WakeupLabel → Wakeups
  | .look found =>
    if found then { state with redelivery := some (fire :: rest, .sending) }
    else
      { state with
        files := state.files.markFireDelivered fire.key
        redelivery := some (rest, .looking)
        retired := state.retired ++ [fire.key] }
  | .resend succeeds =>
    if succeeds then
      { state with
        redelivery := some (fire :: rest, .marking)
        sent := state.sent ++ [fire] }
    else { state with redelivery := none }
  | .remark =>
    { state with
      files := state.files.markFireDelivered fire.key
      redelivery := some (rest, .looking) }
  | _ => state

def next (label : WakeupLabel) : Wakeups :=
  match label with
  | .reach fire =>
    { state with runs := state.runs.insert fire.runId (fire, .checking) }
  | .check run | .write run | .send run _ | .mark run =>
    match state.runs.lookup run with
    | some (fire, _) => state.runNext run fire label
    | none => state
  | .abandon run => { state with runs := state.runs.erase run }
  | .redeliver => { state with redelivery := some (state.files.pendingFires, .looking) }
  | .look _ | .resend _ | .remark =>
    match state.redelivery with
    | some (fire :: rest, _) => state.redeliveryNext fire rest label
    | _ => state
  | .stop => { state with redelivery := none }

/-- Runs, redelivery and crashes in any order. -/
def system : System Wakeups WakeupLabel where
  enabled := enabled
  next := next

instance (state : Wakeups) (label : WakeupLabel) : Decidable (system.enabled state label) :=
  match label with
  | .reach fire => inferInstanceAs (Decidable (fire.runId ∉ state.runs))
  | .check _ | .write _ | .send _ _ | .mark _ | .look _ | .resend _ | .remark =>
    inferInstanceAs (Decidable (∃ _ ∈ _, _))
  | .redeliver => inferInstanceAs (Decidable (state.redelivery = none))
  | .abandon _ | .stop => isTrue trivial

/-- A wakeup for the key has been sent, or its fire was retired. -/
def Settled (key : FireKey) : Prop :=
  (∃ fire ∈ state.sent, fire.key = key) ∨ key ∈ state.retired

/-- The step does not call `send_conversation_wakeup` for a delivered key. -/
def NotRepeated : WakeupLabel → Prop
  | .send run _ => ∀ entry ∈ state.runs.lookup run, entry.1.key ∉ state.files.delivered
  | .resend _ => ∀ entry ∈ state.redelivery, ∀ fire ∈ entry.1.head?,
    fire.key ∉ state.files.delivered
  | _ => True

/-- The listed fires whose wakeup is still to be sent. -/
def unsent : List ScheduledFireRecord :=
  match state.redelivery with
  | none => []
  | some (fires, .marking) => fires.tail
  | some (fires, _) => fires

/-- A run of the slot has still to send its wakeup. -/
def Awaits (key : FireKey) : Prop :=
  ∃ entry ∈ state.runs.entries, entry.2.2 ≠ .marking ∧ entry.2.1.key = key

/-- No run of a delivered slot records its fire, and a slot is marked when no other wakeup of it is
still to be sent. -/
def MarksLast : WakeupLabel → Prop
  | .reach fire => fire.key ∉ state.files.delivered
  | .mark run => ∀ entry ∈ state.runs.lookup run,
    ¬state.Awaits entry.1.key ∧ ∀ fire ∈ state.unsent, fire.key ≠ entry.1.key
  | .look false | .remark => ∀ entry ∈ state.redelivery, ∀ fire ∈ entry.1.head?,
    ¬state.Awaits fire.key
  | _ => True

end

instance (state : Wakeups) (label : WakeupLabel) : Decidable (NotRepeated state label) :=
  match label with
  | .send run _ => inferInstanceAs
    (Decidable (∀ entry ∈ state.runs.lookup run, entry.1.key ∉ state.files.delivered))
  | .resend _ => inferInstanceAs (Decidable (∀ entry ∈ state.redelivery, ∀ fire ∈ entry.1.head?,
    fire.key ∉ state.files.delivered))
  | .reach _ | .check _ | .write _ | .mark _ | .abandon _ | .redeliver | .look _ | .remark
  | .stop => isTrue trivial

instance (state : Wakeups) (key : FireKey) : Decidable (state.Awaits key) :=
  inferInstanceAs (Decidable (∃ _ ∈ _, _))

instance (state : Wakeups) (label : WakeupLabel) : Decidable (MarksLast state label) :=
  match label with
  | .reach fire => inferInstanceAs (Decidable (fire.key ∉ state.files.delivered))
  | .mark run => inferInstanceAs (Decidable (∀ entry ∈ state.runs.lookup run,
    ¬state.Awaits entry.1.key ∧ ∀ fire ∈ state.unsent, fire.key ≠ entry.1.key))
  | .look false | .remark => inferInstanceAs (Decidable (∀ entry ∈ state.redelivery,
    ∀ fire ∈ entry.1.head?, ¬state.Awaits fire.key))
  | .look true | .send _ _ | .resend _ | .check _ | .write _ | .abandon _ | .redeliver
  | .stop => isTrue trivial

end Wakeups

/-! ## One step -/

namespace Wakeups

variable (state : Wakeups) in
/-- Everything a step can do. -/
inductive Steps : WakeupLabel → Wakeups → Prop
  | reach (fire : ScheduledFireRecord) (hfresh : fire.runId ∉ state.runs) :
    Steps (.reach fire) { state with runs := state.runs.insert fire.runId (fire, .checking) }
  | checkDelivered (run : ℕ) (fire : ScheduledFireRecord)
    (hrun : state.runs.lookup run = some (fire, .checking))
    (hdelivered : fire.key ∈ state.files.delivered) :
    Steps (.check run)
      { state with
        runs := state.runs.insert run (fire, .sending)
        recorded := state.recorded ++ [fire] }
  | checkOpen (run : ℕ) (fire : ScheduledFireRecord)
    (hrun : state.runs.lookup run = some (fire, .checking))
    (hopen : fire.key ∉ state.files.delivered) :
    Steps (.check run) { state with runs := state.runs.insert run (fire, .writing) }
  | write (run : ℕ) (fire : ScheduledFireRecord)
    (hrun : state.runs.lookup run = some (fire, .writing)) :
    Steps (.write run)
      { state with
        files := state.files.writePending fire
        runs := state.runs.insert run (fire, .sending)
        recorded := state.recorded ++ [fire] }
  | send (run : ℕ) (fire : ScheduledFireRecord)
    (hrun : state.runs.lookup run = some (fire, .sending)) :
    Steps (.send run true)
      { state with
        runs := state.runs.insert run (fire, .marking)
        sent := state.sent ++ [fire] }
  | sendFailed (run : ℕ) (fire : ScheduledFireRecord)
    (hrun : state.runs.lookup run = some (fire, .sending)) :
    Steps (.send run false) { state with runs := state.runs.erase run }
  | mark (run : ℕ) (fire : ScheduledFireRecord)
    (hrun : state.runs.lookup run = some (fire, .marking)) :
    Steps (.mark run)
      { state with
        files := state.files.markFireDelivered fire.key
        runs := state.runs.erase run }
  | abandon (run : ℕ) : Steps (.abandon run) { state with runs := state.runs.erase run }
  | redeliver (hidle : state.redelivery = none) :
    Steps .redeliver { state with redelivery := some (state.files.pendingFires, .looking) }
  | found (fire : ScheduledFireRecord) (rest : List ScheduledFireRecord)
    (hfires : state.redelivery = some (fire :: rest, .looking)) :
    Steps (.look true) { state with redelivery := some (fire :: rest, .sending) }
  | retire (fire : ScheduledFireRecord) (rest : List ScheduledFireRecord)
    (hfires : state.redelivery = some (fire :: rest, .looking)) :
    Steps (.look false)
      { state with
        files := state.files.markFireDelivered fire.key
        redelivery := some (rest, .looking)
        retired := state.retired ++ [fire.key] }
  | resend (fire : ScheduledFireRecord) (rest : List ScheduledFireRecord)
    (hfires : state.redelivery = some (fire :: rest, .sending)) :
    Steps (.resend true)
      { state with
        redelivery := some (fire :: rest, .marking)
        sent := state.sent ++ [fire] }
  | resendFailed (fire : ScheduledFireRecord) (rest : List ScheduledFireRecord)
    (hfires : state.redelivery = some (fire :: rest, .sending)) :
    Steps (.resend false) { state with redelivery := none }
  | remark (fire : ScheduledFireRecord) (rest : List ScheduledFireRecord)
    (hfires : state.redelivery = some (fire :: rest, .marking)) :
    Steps .remark
      { state with
        files := state.files.markFireDelivered fire.key
        redelivery := some (rest, .looking) }
  | stop : Steps .stop { state with redelivery := none }

variable {state : Wakeups}
  {label : WakeupLabel} {run other : ℕ} {fire : ScheduledFireRecord} {stage : RunStage}
  {after : Wakeups}

theorem steps_of_enabled (henabled : state.enabled label) :
    Steps state label (state.next label) := by
  have hrun : ∀ {run : ℕ} {stage : RunStage},
      (∃ entry ∈ state.runs.lookup run, entry.2 = stage) →
        ∃ fire, state.runs.lookup run = some (fire, stage) := by
    rintro run stage ⟨⟨fire, _⟩, hentry, rfl⟩
    exact ⟨fire, hentry⟩
  have hfires : ∀ {stage : RedeliveryStage},
      (∃ entry ∈ state.redelivery, entry.1 ≠ [] ∧ entry.2 = stage) →
        ∃ fire rest, state.redelivery = some (fire :: rest, stage) := by
    rintro stage ⟨⟨_ | ⟨fire, rest⟩, _⟩, hentry, hne, rfl⟩
    · exact absurd rfl hne
    · exact ⟨fire, rest, hentry⟩
  cases label with
  | reach fire => exact .reach fire henabled
  | check run =>
    obtain ⟨fire, hentry⟩ := hrun henabled
    by_cases hdelivered : fire.key ∈ state.files.delivered
    · simpa [next, hentry, runNext, Fires.fireWasDelivered, hdelivered] using
        Steps.checkDelivered run fire hentry hdelivered
    · simpa [next, hentry, runNext, Fires.fireWasDelivered, hdelivered] using
        Steps.checkOpen run fire hentry hdelivered
  | write run =>
    obtain ⟨fire, hentry⟩ := hrun henabled
    simpa [next, hentry, runNext] using Steps.write run fire hentry
  | send run succeeds =>
    obtain ⟨fire, hentry⟩ := hrun henabled
    cases succeeds with
    | true => simpa [next, hentry, runNext] using Steps.send run fire hentry
    | false => simpa [next, hentry, runNext] using Steps.sendFailed run fire hentry
  | mark run =>
    obtain ⟨fire, hentry⟩ := hrun henabled
    simpa [next, hentry, runNext] using Steps.mark run fire hentry
  | abandon run => exact .abandon run
  | redeliver => exact .redeliver henabled
  | look found =>
    obtain ⟨fire, rest, hentry⟩ := hfires henabled
    cases found with
    | true => simpa [next, hentry, redeliveryNext] using Steps.found fire rest hentry
    | false => simpa [next, hentry, redeliveryNext] using Steps.retire fire rest hentry
  | resend succeeds =>
    obtain ⟨fire, rest, hentry⟩ := hfires henabled
    cases succeeds with
    | true => simpa [next, hentry, redeliveryNext] using Steps.resend fire rest hentry
    | false => simpa [next, hentry, redeliveryNext] using Steps.resendFailed fire rest hentry
  | remark =>
    obtain ⟨fire, rest, hentry⟩ := hfires henabled
    simpa [next, hentry, redeliveryNext] using Steps.remark fire rest hentry
  | stop => exact .stop

/-! ## Nothing is lost -/

theorem lookup_insert_cases {α : Type} {runs : AList (fun _ : ℕ ↦ α)} {entry found : α}
    (hfound : (runs.insert run entry).lookup other = some found) :
    other = run ∧ found = entry ∨ other ≠ run ∧ runs.lookup other = some found := by
  by_cases hother : other = run
  · subst hother
    rw [AList.lookup_insert] at hfound
    exact .inl ⟨rfl, (Option.some.inj hfound).symm⟩
  · rw [AList.lookup_insert_ne hother] at hfound
    exact .inr ⟨hother, hfound⟩

theorem lookup_erase_cases {α : Type} {runs : AList (fun _ : ℕ ↦ α)} {found : α}
    (hfound : (runs.erase run).lookup other = some found) :
    other ≠ run ∧ runs.lookup other = some found := by
  by_cases hother : other = run
  · subst hother
    rw [AList.lookup_erase] at hfound
    cases hfound
  · rw [AList.lookup_erase_ne hother] at hfound
    exact ⟨hother, hfound⟩

/-- Delivered keys are settled, and so is what is about to be marked; a recorded fire is still
pending or settled. -/
structure Settling (state : Wakeups) : Prop where
  delivered : ∀ key ∈ state.files.delivered, state.Settled key
  recorded : ∀ fire ∈ state.recorded, fire.key ∈ state.files.pending ∨ state.Settled fire.key
  marking : ∀ run fire, state.runs.lookup run = some (fire, .marking) → state.Settled fire.key
  remarking : ∀ fire rest, state.redelivery = some (fire :: rest, .marking) → state.Settled fire.key

section
variable (hsettling : Settling state)
include hsettling

/-- Nothing takes a wakeup back: sending and retiring keep what is settled. -/
theorem Settling.grow (sent : List ScheduledFireRecord) (retired : List FireKey) :
    Settling { state with sent := state.sent ++ sent, retired := state.retired ++ retired } := by
  have hkeep : ∀ key, state.Settled key → Settled { state with
      sent := state.sent ++ sent, retired := state.retired ++ retired } key := by
    rintro key (⟨fire, hfire, hkey⟩ | hkey)
    · exact .inl ⟨fire, mem_append_left _ hfire, hkey⟩
    · exact .inr (mem_append_left _ hkey)
  refine ⟨?_, ?_, ?_, ?_⟩
  · exact fun key hkey ↦ hkeep key (hsettling.delivered key hkey)
  · exact fun fire hfire ↦ (hsettling.recorded fire hfire).imp_right (hkeep _)
  · exact fun run fire hrun ↦ hkeep _ (hsettling.marking run fire hrun)
  · exact fun fire rest hfires ↦ hkeep _ (hsettling.remarking fire rest hfires)

variable {id : ℕ}

/-- A run that moves to a stage before the marking adds nothing to mark. -/
theorem Settling.marking_insert (hstage : stage ≠ .marking) {other : ScheduledFireRecord}
    (hother : (state.runs.insert run (fire, stage)).lookup id = some (other, .marking)) :
    state.Settled other.key := by
  rcases lookup_insert_cases hother with ⟨-, heq⟩ | ⟨-, hold⟩
  · exact absurd (congrArg Prod.snd heq).symm hstage
  · exact hsettling.marking id other hold

theorem Settling.marking_erase {other : ScheduledFireRecord}
    (hother : (state.runs.erase run).lookup id = some (other, .marking)) :
    state.Settled other.key :=
  hsettling.marking id other (lookup_erase_cases hother).2

/-- Marking a settled key keeps everything settled. -/
theorem Settling.mark {key : FireKey} (hkey : state.Settled key) :
    (∀ other ∈ (state.files.markFireDelivered key).delivered, state.Settled other) ∧
      ∀ fire ∈ state.recorded, fire.key ∈ (state.files.markFireDelivered key).pending ∨
        state.Settled fire.key := by
  constructor
  · intro other hother
    rcases Fires.mem_delivered_mark.1 hother with hold | ⟨rfl, -⟩
    · exact hsettling.delivered other hold
    · exact hkey
  · intro fire hfire
    rw [Fires.mem_pending_mark]
    by_cases hsame : fire.key = key
    · exact .inr (hsame ▸ hkey)
    · exact (hsettling.recorded fire hfire).imp_left fun hpending ↦ ⟨hpending, hsame⟩

theorem Settling.step (hstep : Steps state label after) : Settling after := by
  cases hstep with
  | reach fire hfresh | checkOpen run fire hrun hopen =>
    exact ⟨hsettling.delivered, hsettling.recorded,
      fun _ _ hother ↦ hsettling.marking_insert (by simp) hother, hsettling.remarking⟩
  | checkDelivered run fire hrun hdelivered =>
    refine ⟨hsettling.delivered, fun other hother ↦ ?_,
      fun _ _ hother ↦ hsettling.marking_insert (by simp) hother, hsettling.remarking⟩
    rcases mem_append.1 hother with hold | hnew
    · exact hsettling.recorded other hold
    · rw [mem_singleton.1 hnew]
      exact .inr (hsettling.delivered fire.key hdelivered)
  | write run fire hrun =>
    have hpending : ∀ key, key ∈ (state.files.writePending fire).pending ↔
        key = fire.key ∨ key ∈ state.files.pending := fun key ↦ AList.mem_insert _
    refine ⟨hsettling.delivered, fun other hother ↦ ?_,
      fun _ _ hother ↦ hsettling.marking_insert (by simp) hother, hsettling.remarking⟩
    rcases mem_append.1 hother with hold | hnew
    · exact (hsettling.recorded other hold).imp_left fun h ↦ (hpending _).2 (.inr h)
    · rw [mem_singleton.1 hnew]
      exact .inl ((hpending _).2 (.inl rfl))
  | send run fire hrun =>
    have hsent := hsettling.grow [fire] []
    simp only [append_nil] at hsent
    refine ⟨hsent.delivered, hsent.recorded, fun id other hother ↦ ?_, hsent.remarking⟩
    rcases lookup_insert_cases hother with ⟨-, heq⟩ | ⟨-, hold⟩
    · obtain ⟨rfl, -⟩ := Prod.mk.inj heq
      exact .inl ⟨other, by simp, rfl⟩
    · exact hsent.marking id other hold
  | sendFailed run fire hrun | abandon run =>
    exact ⟨hsettling.delivered, hsettling.recorded,
      fun _ _ hother ↦ hsettling.marking_erase hother, hsettling.remarking⟩
  | mark run fire hrun =>
    obtain ⟨hdelivered, hrecorded⟩ := hsettling.mark (hsettling.marking run fire hrun)
    exact ⟨hdelivered, hrecorded, fun _ _ hother ↦ hsettling.marking_erase hother,
      hsettling.remarking⟩
  | redeliver hidle | found fire rest hfires | resendFailed fire rest hfires =>
    exact ⟨hsettling.delivered, hsettling.recorded, hsettling.marking, by simp⟩
  | retire fire rest hfires =>
    -- retiring is what settles the key, so it comes before the mark
    have hretired := hsettling.grow [] [fire.key]
    simp only [append_nil] at hretired
    have hkey : Settled { state with retired := state.retired ++ [fire.key] } fire.key :=
      .inr (mem_append_right _ mem_cons_self)
    obtain ⟨hdelivered, hrecorded⟩ := hretired.mark hkey
    exact ⟨hdelivered, hrecorded, hretired.marking, by simp⟩
  | resend fire rest hfires =>
    have hsent := hsettling.grow [fire] []
    simp only [append_nil] at hsent
    refine ⟨hsent.delivered, hsent.recorded, hsent.marking, fun other others heq ↦ ?_⟩
    cases heq
    exact .inl ⟨fire, by simp, rfl⟩
  | remark fire rest hfires =>
    obtain ⟨hdelivered, hrecorded⟩ := hsettling.mark (hsettling.remarking fire rest hfires)
    exact ⟨hdelivered, hrecorded, hsettling.marking, by simp⟩
  | stop => exact ⟨hsettling.delivered, hsettling.recorded, hsettling.marking, by simp⟩

end

theorem Settling.init : Settling {} where
  delivered key hkey := absurd hkey (AList.notMem_empty key)
  recorded := by simp
  marking := by simp
  remarking := by simp

/-! ## What is sent has been recorded -/

/-- Whatever is sent, or can still be without another record, has been recorded. -/
structure Traced (state : Wakeups) : Prop where
  runs : ∀ run fire, state.runs.lookup run = some (fire, .sending) → fire ∈ state.recorded
  pending : ∀ key fire, state.files.pending.lookup key = some fire → fire ∈ state.recorded
  listed : ∀ entry ∈ state.redelivery, ∀ fire ∈ entry.1, fire ∈ state.recorded
  sent : ∀ fire ∈ state.sent, fire ∈ state.recorded

theorem Traced.init : Traced {} := ⟨by simp, by simp, by simp, by simp⟩

section
variable (htraced : Traced state)
include htraced

/-- A run that records its fire, or has done so. -/
theorem Traced.record (files : Fires) (more : List ScheduledFireRecord)
    (hpending : ∀ key other, files.pending.lookup key = some other →
      other = fire ∨ state.files.pending.lookup key = some other)
    (hmore : fire ∈ state.recorded ++ more) :
    Traced { state with
      files := files
      runs := state.runs.insert run (fire, stage)
      recorded := state.recorded ++ more } := by
  refine ⟨fun id other hother ↦ ?_, fun key other hother ↦ ?_, fun entry hentry other hother ↦ ?_,
    fun other hother ↦ mem_append_left _ (htraced.sent other hother)⟩
  · rcases lookup_insert_cases hother with ⟨-, heq⟩ | ⟨-, hold⟩
    · rw [(Prod.mk.inj heq).1]
      exact hmore
    · exact mem_append_left _ (htraced.runs id other hold)
  · rcases hpending key other hother with rfl | hold
    · exact hmore
    · exact mem_append_left _ (htraced.pending key other hold)
  · exact mem_append_left _ (htraced.listed entry hentry other hother)

theorem Traced.runs_insert (hstage : stage ≠ .sending) {id : ℕ} {other : ScheduledFireRecord}
    (hother : (state.runs.insert run (fire, stage)).lookup id = some (other, .sending)) :
    other ∈ state.recorded := by
  rcases lookup_insert_cases hother with ⟨-, heq⟩ | ⟨-, hold⟩
  · exact absurd (congrArg Prod.snd heq).symm hstage
  · exact htraced.runs id other hold

theorem Traced.pending_mark {key other : FireKey}
    (hfire : (state.files.markFireDelivered key).pending.lookup other = some fire) :
    fire ∈ state.recorded := by
  rw [Fires.lookup_pending_mark] at hfire
  split_ifs at hfire
  exact htraced.pending other fire hfire

theorem Traced.sent_append (hfire : fire ∈ state.recorded) :
    ∀ other ∈ state.sent ++ [fire], other ∈ state.recorded := by
  intro other hother
  rcases mem_append.1 hother with hold | hnew
  · exact htraced.sent other hold
  · rwa [mem_singleton.1 hnew]

theorem Traced.step (hstep : Steps state label after) : Traced after := by
  cases hstep with
  | reach fire hfresh | checkOpen run fire hrun hopen =>
    exact ⟨fun _ _ hother ↦ htraced.runs_insert (by simp) hother, htraced.pending, htraced.listed,
      htraced.sent⟩
  | checkDelivered run fire hrun hdelivered =>
    exact htraced.record state.files [fire] (fun _ _ hother ↦ .inr hother) (by simp)
  | write run fire hrun =>
    refine htraced.record _ [fire] (fun key other hother ↦ ?_) (by simp)
    by_cases hkey : key = fire.key
    · subst hkey
      exact .inl (Option.some.inj (hother.symm.trans (AList.lookup_insert _)))
    · exact .inr ((AList.lookup_insert_ne hkey).symm.trans hother)
  | send run fire hrun =>
    exact ⟨fun _ _ hother ↦ htraced.runs_insert (by simp) hother, htraced.pending, htraced.listed,
      htraced.sent_append (htraced.runs run fire hrun)⟩
  | sendFailed run fire hrun | abandon run =>
    exact ⟨fun id other hother ↦ htraced.runs id other (lookup_erase_cases hother).2,
      htraced.pending, htraced.listed, htraced.sent⟩
  | mark run fire hrun =>
    exact ⟨fun id other hother ↦ htraced.runs id other (lookup_erase_cases hother).2,
      fun _ _ hother ↦ htraced.pending_mark hother, htraced.listed, htraced.sent⟩
  | redeliver hidle =>
    refine ⟨htraced.runs, htraced.pending, fun entry hentry fire hfire ↦ ?_, htraced.sent⟩
    obtain rfl := Option.some.inj hentry
    obtain ⟨key, hkey⟩ := Fires.mem_pendingFires.1 hfire
    exact htraced.pending key fire hkey
  | found fire rest hfires =>
    have hlisted := htraced.listed _ hfires
    refine ⟨htraced.runs, htraced.pending, fun entry hentry ↦ ?_, htraced.sent⟩
    obtain rfl := Option.some.inj hentry
    exact hlisted
  | retire fire rest hfires | remark fire rest hfires =>
    refine ⟨htraced.runs, fun _ _ hother ↦ htraced.pending_mark hother, fun entry hentry ↦ ?_,
      htraced.sent⟩
    obtain rfl := Option.some.inj hentry
    exact fun other hother ↦ htraced.listed _ hfires other (mem_cons_of_mem _ hother)
  | resend fire rest hfires =>
    have hlisted := htraced.listed _ hfires
    refine ⟨htraced.runs, htraced.pending, fun entry hentry ↦ ?_,
      htraced.sent_append (hlisted fire mem_cons_self)⟩
    obtain rfl := Option.some.inj hentry
    exact hlisted
  | resendFailed fire rest hfires | stop =>
    exact ⟨htraced.runs, htraced.pending, by simp, htraced.sent⟩

end

/-! ## Nothing is repeated -/

/-- No wakeup that is still to be sent is for a delivered slot. -/
structure Unrepeated (state : Wakeups) : Prop where
  runs : ∀ run fire stage, state.runs.lookup run = some (fire, stage) → stage ≠ .marking →
    fire.key ∉ state.files.delivered
  pending : ∀ key fire, state.files.pending.lookup key = some fire →
    fire.key = key ∧ key ∉ state.files.delivered
  unsent : ∀ fire ∈ state.unsent, fire.key ∉ state.files.delivered
  listed : ∀ entry ∈ state.redelivery, (entry.1.map ScheduledFireRecord.key).Nodup

theorem Unrepeated.init : Unrepeated {} := ⟨by simp, by simp, by simp [Wakeups.unsent], by simp⟩

namespace Unrepeated

section
variable (hstate : Unrepeated state)
include hstate

variable {rest : List ScheduledFireRecord}

theorem runs_insert (hfire : stage ≠ .marking → fire.key ∉ state.files.delivered) :
    ∀ id other later, (state.runs.insert run (fire, stage)).lookup id = some (other, later) →
      later ≠ .marking → other.key ∉ state.files.delivered := by
  intro id other later hother hlater
  rcases lookup_insert_cases hother with ⟨-, heq⟩ | ⟨-, hold⟩
  · obtain ⟨rfl, rfl⟩ := Prod.mk.inj heq
    exact hfire hlater
  · exact hstate.runs id other later hold hlater

theorem runs_erase : ∀ id other later, (state.runs.erase run).lookup id = some (other, later) →
    later ≠ .marking → other.key ∉ state.files.delivered :=
  fun id other later hother ↦ hstate.runs id other later (lookup_erase_cases hother).2

theorem nodup_pendingFires : (state.files.pendingFires.map ScheduledFireRecord.key).Nodup := by
  have hkeys : (state.files.pending.entries.map (·.2)).map ScheduledFireRecord.key =
      state.files.pending.keys := by
    rw [map_map]
    refine map_congr_left fun entry hentry ↦ ?_
    exact (hstate.pending entry.1 entry.2 (AList.mem_lookup_iff.2 hentry)).1
  have hperm := (perm_insertionSort (fun first second : ScheduledFireRecord ↦
    first.firedAtMs < second.firedAtMs ∨
      first.firedAtMs = second.firedAtMs ∧ first.slotMs ≤ second.slotMs)
    (state.files.pending.entries.map (·.2))).map ScheduledFireRecord.key
  exact hperm.nodup_iff.2 (hkeys ▸ state.files.pending.keys_nodup)

theorem mark {key : FireKey} (hruns : ¬state.Awaits key) :
    let files := state.files.markFireDelivered key
    (∀ run fire stage, state.runs.lookup run = some (fire, stage) → stage ≠ .marking →
      fire.key ∉ files.delivered) ∧
    (∀ other fire, files.pending.lookup other = some fire →
      fire.key = other ∧ other ∉ files.delivered) ∧
    ∀ fire ∈ state.unsent, fire.key ≠ key → fire.key ∉ files.delivered := by
  have hapart : ∀ {other : FireKey}, other ≠ key → other ∉ state.files.delivered →
      other ∉ (state.files.markFireDelivered key).delivered := by
    intro other hne hopen hdelivered
    rcases Fires.mem_delivered_mark.1 hdelivered with hold | ⟨hkey, -⟩
    · exact hopen hold
    · exact hne hkey
  refine ⟨fun run fire stage hrun hstage ↦ ?_, fun other fire hfire ↦ ?_, fun fire hfire hne ↦ ?_⟩
  · refine hapart (fun hkey ↦ hruns ?_) (hstate.runs run fire stage hrun hstage)
    exact ⟨⟨run, fire, stage⟩, AList.mem_lookup_iff.1 hrun, hstage, hkey⟩
  · rw [Fires.lookup_pending_mark] at hfire
    split_ifs at hfire with hkey
    obtain ⟨hsame, hopen⟩ := hstate.pending other fire hfire
    exact ⟨hsame, hapart hkey hopen⟩
  · exact hapart hne (hstate.unsent fire hfire)

/-- The first of the listed fires is marked; the others have other keys. -/
theorem markListed {stage : RedeliveryStage}
    (hfires : state.redelivery = some (fire :: rest, stage)) (hruns : ¬state.Awaits fire.key) :
    Unrepeated { state with
      files := state.files.markFireDelivered fire.key
      redelivery := some (rest, .looking) } := by
  obtain ⟨hmarked, hpending, hunsent⟩ := hstate.mark hruns
  have hnodup := hstate.listed _ hfires
  rw [map_cons, nodup_cons] at hnodup
  refine ⟨hmarked, hpending, fun other hother ↦ hunsent other ?_ fun hkey ↦ ?_, ?_⟩
  · rw [Wakeups.unsent, hfires]
    cases stage with
    | looking | sending => exact mem_cons_of_mem _ hother
    | marking => exact hother
  · exact hnodup.1 (hkey ▸ mem_map_of_mem hother)
  · intro entry hentry
    obtain rfl := Option.some.inj hentry
    exact hnodup.2

theorem step (hstep : Steps state label after) (hlabel : MarksLast state label) :
    Unrepeated after := by
  cases hstep with
  | reach fire hfresh =>
    exact ⟨hstate.runs_insert fun _ ↦ hlabel, hstate.pending, hstate.unsent, hstate.listed⟩
  | checkDelivered run fire hrun hdelivered =>
    exact absurd hdelivered (hstate.runs run fire .checking hrun (by simp))
  | checkOpen run fire hrun hopen =>
    exact ⟨hstate.runs_insert fun _ ↦ hopen, hstate.pending, hstate.unsent, hstate.listed⟩
  | write run fire hrun =>
    have hopen := hstate.runs run fire .writing hrun (by simp)
    refine ⟨hstate.runs_insert fun _ ↦ hopen, fun key other hother ↦ ?_, hstate.unsent,
      hstate.listed⟩
    by_cases hkey : key = fire.key
    · subst hkey
      obtain rfl := Option.some.inj (hother.symm.trans (AList.lookup_insert _))
      exact ⟨rfl, hopen⟩
    · exact hstate.pending key other ((AList.lookup_insert_ne hkey).symm.trans hother)
  | send run fire hrun =>
    exact ⟨hstate.runs_insert fun hne ↦ absurd rfl hne, hstate.pending, hstate.unsent,
      hstate.listed⟩
  | sendFailed run fire hrun | abandon run =>
    exact ⟨hstate.runs_erase, hstate.pending, hstate.unsent, hstate.listed⟩
  | mark run fire hrun =>
    obtain ⟨hruns, hlisted⟩ := hlabel _ hrun
    obtain ⟨hmarked, hpending, hunsent⟩ := hstate.mark hruns
    exact ⟨fun id other later hother ↦ hmarked id other later (lookup_erase_cases hother).2,
      hpending, fun other hother ↦ hunsent other hother (hlisted other hother), hstate.listed⟩
  | redeliver hidle =>
    refine ⟨hstate.runs, hstate.pending, fun fire hfire ↦ ?_, fun entry hentry ↦ ?_⟩
    · obtain ⟨key, hkey⟩ := Fires.mem_pendingFires.1 hfire
      obtain ⟨rfl, hopen⟩ := hstate.pending key fire hkey
      exact hopen
    · obtain rfl := Option.some.inj hentry
      exact hstate.nodup_pendingFires
  | found fire rest hfires =>
    have hunsent := hstate.unsent
    rw [Wakeups.unsent, hfires] at hunsent
    have hnodup := hstate.listed _ hfires
    refine ⟨hstate.runs, hstate.pending, hunsent, fun entry hentry ↦ ?_⟩
    obtain rfl := Option.some.inj hentry
    exact hnodup
  | retire fire rest hfires =>
    exact { hstate.markListed hfires (hlabel _ hfires fire rfl) with }
  | resend fire rest hfires =>
    have hunsent := hstate.unsent
    rw [Wakeups.unsent, hfires] at hunsent
    have hnodup := hstate.listed _ hfires
    refine ⟨hstate.runs, hstate.pending, fun other hother ↦ hunsent other ?_, fun entry hentry ↦ ?_⟩
    · exact mem_cons_of_mem _ hother
    · obtain rfl := Option.some.inj hentry
      exact hnodup
  | resendFailed fire rest hfires | stop =>
    exact ⟨hstate.runs, hstate.pending, by simp [Wakeups.unsent], by simp⟩
  | remark fire rest hfires => exact hstate.markListed hfires (hlabel _ hfires fire rfl)

theorem notRepeated (henabled : state.enabled label) : NotRepeated state label := by
  cases label with
  | send run succeeds =>
    obtain ⟨⟨fire, stage⟩, hentry, rfl⟩ := henabled
    intro entry hother
    obtain rfl := Option.some.inj (hentry.symm.trans hother)
    exact hstate.runs run fire .sending hentry (by simp)
  | resend succeeds =>
    obtain ⟨⟨fires, stage⟩, hentry, -, rfl⟩ := henabled
    intro entry hother fire hfire
    obtain rfl := Option.some.inj (hentry.symm.trans hother)
    refine hstate.unsent fire ?_
    rw [Wakeups.unsent, hentry]
    exact mem_of_mem_head? hfire
  | _ => trivial

end

end Unrepeated

/-- The fire of a run of the minutely task. -/
def fireOf (runId slotMs : ℕ) : ScheduledFireRecord :=
  ⟨"task", "check", slotMs, runId, "agent", "conversation", "Scheduled task check completed.",
    slotMs⟩

/-- A run that ends before its wakeup, a later pass that runs its slot again and ends as well, the
redelivery after the restart, and a run of the next slot. -/
def restarted : List WakeupLabel :=
  [.reach (fireOf 1 60000), .check 1, .write 1, .abandon 1, .reach (fireOf 2 60000), .check 2,
    .write 2, .send 2 false, .redeliver, .look true, .resend true, .remark, .stop,
    .reach (fireOf 3 120000), .check 3, .write 3, .send 3 true, .mark 3]

end Wakeups

end Exo.Scheduler
