import Mathlib.Data.Prod.Lex
import Mathlib.Data.String.Basic
import Exo.Adapters.Outbox

/-!
# The order of claimed messages

`claim_outbound_messages` takes the first hundred messages that the listing of the outbox happens
to give, and sorts those by creation time.  A message is in flight before the next entry is asked
for and read, and an error of either gives up all that were moved.  So messages are handed out as
they were enqueued exactly if the listings already have them in that order, up to the sorting within
a batch, and if a call that fails does so at its first message.
-/

namespace Exo.Adapters

open Library List

/-- A file of the outbox.  One that is no message cannot be read or parsed. -/
structure OutboxFile where
  isJson : Bool
  message : Option AdapterOutboundMessageRecord
  deriving DecidableEq

/-- What fails for a message: reading it, writing its file in flight, or removing the other. -/
inductive ClaimFault where
  | read
  | write
  | remove
  deriving DecidableEq

/-- The error of a call: of the listing itself, or for a message. -/
inductive ClaimError where
  | list
  | message (fault : ClaimFault)

/-- What a listing gives next: a file, or an error of its own. -/
structure OutboxEntry where
  file : Option OutboxFile
  fault : Option ClaimFault

def OutboxEntry.isListed (entry : OutboxEntry) : Bool := entry.file.all (·.isJson)

def OutboxEntry.message (entry : OutboxEntry) : Option AdapterOutboundMessageRecord :=
  entry.file.bind (·.message)

/-- What a claim leaves in the outbox, what it has moved, and what it returns. -/
structure ClaimOutcome where
  outbox : List OutboxFile
  moved : List AdapterOutboundMessageRecord
  result : Except ClaimError (List AdapterOutboundMessageRecord)

def AdapterOutboundMessageRecord.claim (message : AdapterOutboundMessageRecord) (nowMs : ℕ) :
    AdapterOutboundMessageRecord :=
  { message with
    status := .inFlight, attempt := nextAttempt message.attempt, updatedAtMs := nowMs }

/-- The loop of `claim_outbound_messages`. -/
def claimLoop (nowMs : ℕ) : List OutboxEntry → List AdapterOutboundMessageRecord → ClaimOutcome
  | [], messages => ⟨[], [], .ok (Outbox.sortMessages messages)⟩
  | entry :: entries, messages =>
    let files := (entry :: entries).filterMap (·.file)
    if messages.length < maxMessagesPerClaim then
      match entry.file with
      | none => ⟨files, [], .error .list⟩
      | some file =>
        if file.isJson = true then
          match file.message, entry.fault with
          | none, _ | _, some .read => ⟨files, [], .error (.message .read)⟩
          | some _, some .write => ⟨files, [], .error (.message .write)⟩
          | some message, some .remove => ⟨files, [message.claim nowMs], .error (.message .remove)⟩
          | some message, none =>
            let rest := claimLoop nowMs entries (messages ++ [message.claim nowMs])
            { rest with moved := message.claim nowMs :: rest.moved }
        else
          let rest := claimLoop nowMs entries messages
          { rest with outbox := file :: rest.outbox }
    else ⟨files, [], .ok (Outbox.sortMessages messages)⟩

/-- One call, with the listing it walks through. -/
structure ClaimCall where
  entries : List OutboxEntry
  nowMs : ℕ

def ClaimCall.files (call : ClaimCall) : List OutboxFile := call.entries.filterMap (·.file)

def ClaimCall.outcome (call : ClaimCall) : ClaimOutcome := claimLoop call.nowMs call.entries []

/-- What a call returns; an error returns no message. -/
def ClaimCall.returned (call : ClaimCall) : List AdapterOutboundMessageRecord :=
  call.outcome.result.toOption.getD []

/-- Claims one after another, each with its own listing of the outbox. -/
def claims : System (List OutboxFile) ClaimCall where
  enabled outbox call := call.files.Perm outbox
  next _ call := call.outcome.outbox

instance (outbox : List OutboxFile) (call : ClaimCall) : Decidable (claims.enabled outbox call) :=
  inferInstanceAs (Decidable (List.Perm _ _))

/-- Messages are enqueued by creation time, and then by their time-ordered ids. -/
def AdapterOutboundMessageRecord.key (message : AdapterOutboundMessageRecord) : ℕ ×ₗ String :=
  toLex (message.createdAtMs, message.id)

section
variable (outbox : List OutboxFile)

def queued : List AdapterOutboundMessageRecord :=
  (outbox.filter (·.isJson)).filterMap (·.message)

def enqueueOrder : List (ℕ ×ₗ String) :=
  ((queued outbox).map (·.key)).insertionSort (· ≤ ·)

/-- A call returns the next messages, all that there are up to a hundred, or moves none. -/
def HandsOut (call : ClaimCall) : Prop :=
  call.returned.map (·.key) ++ enqueueOrder call.outcome.outbox = enqueueOrder outbox ∧
    match call.outcome.result with
    | .ok messages => messages.length = min maxMessagesPerClaim (queued outbox).length
    | .error _ => call.outcome.moved = []

/-- Every call hands out the next messages, and so do all of them together. -/
def ClaimedInOrder (calls : List ClaimCall) : Prop :=
  claims.Throughout HandsOut outbox calls ∧
    (claims.collect (fun _ call ↦ call.returned) outbox calls).map (·.key) ++
      enqueueOrder (claims.exec outbox calls) = enqueueOrder outbox

end

def messagesOf (entries : List OutboxEntry) : List AdapterOutboundMessageRecord :=
  entries.filterMap (·.message)

def OutboxEntry.fails (entry : OutboxEntry) : Bool :=
  entry.message.isNone || entry.fault.isSome

/-- The entry fails before a message is in flight, as an error of the listing does. -/
def OutboxEntry.failsEarly (entry : OutboxEntry) : Bool :=
  entry.message.isNone || entry.fault = some .read || entry.fault = some .write

/-- The listing has the oldest hundred messages first, those of one millisecond by their ids; or
the first entry already fails, and nothing has been moved. -/
def ListsOldest (_ : List OutboxFile) (call : ClaimCall) : Prop :=
  let listed := call.entries.filter (·.isListed)
  let batch := listed.take maxMessagesPerClaim
  if batch.any (·.fails) then batch.head?.any (·.failsEarly) = true
  else
    (messagesOf batch).Pairwise
      (fun first second ↦ first.createdAtMs = second.createdAtMs → first.id ≤ second.id) ∧
    ∀ first ∈ messagesOf batch, ∀ second ∈ messagesOf (listed.drop maxMessagesPerClaim),
      first.key ≤ second.key

instance (outbox : List OutboxFile) (call : ClaimCall) : Decidable (ListsOldest outbox call) :=
  inferInstanceAs (Decidable (ite _ _ _))

theorem key_le_iff {first second : AdapterOutboundMessageRecord} :
    first.key ≤ second.key ↔ first.createdAtMs < second.createdAtMs ∨
      first.createdAtMs = second.createdAtMs ∧ first.id ≤ second.id :=
  Prod.Lex.le_iff

/-- A message goes before those of its millisecond. -/
theorem pairwise_orderedInsert_iff (message : AdapterOutboundMessageRecord)
    {sorted : List AdapterOutboundMessageRecord}
    (hsorted : sorted.Pairwise fun first second ↦ first.key ≤ second.key) :
    (sorted.orderedInsert (fun first second ↦ first.createdAtMs ≤ second.createdAtMs)
        message).Pairwise (fun first second ↦ first.key ≤ second.key) ↔
      ∀ other ∈ sorted, message.createdAtMs = other.createdAtMs → message.id ≤ other.id := by
  induction sorted with
  | nil => simp
  | cons first sorted ih =>
    obtain ⟨hfirst, hrest⟩ := pairwise_cons.1 hsorted
    by_cases hle : message.createdAtMs ≤ first.createdAtMs
    · rw [orderedInsert_cons, if_pos hle, pairwise_cons, and_iff_left hsorted]
      refine forall₂_congr fun other hother ↦ ?_
      have hother' : message.createdAtMs ≤ other.createdAtMs := by
        rcases mem_cons.1 hother with rfl | hother
        · exact hle
        · have hkey := key_le_iff.1 (hfirst other hother)
          omega
      rw [key_le_iff]
      constructor
      · intro hkey heq
        exact (hkey.resolve_left (by omega)).2
      · intro hid
        exact hother'.lt_or_eq.imp_right fun heq ↦ ⟨heq, hid heq⟩
    · rw [orderedInsert_cons, if_neg hle, pairwise_cons, ih hrest]
      constructor
      · intro hall other hother heq
        rcases mem_cons.1 hother with rfl | hother
        · omega
        · exact hall.2 other hother heq
      · intro hall
        refine ⟨fun other hother ↦ ?_, fun other hmem ↦ hall other (mem_cons_of_mem _ hmem)⟩
        rcases (mem_orderedInsert _).1 hother with rfl | hother
        · exact key_le_iff.2 (.inl (by omega))
        · exact hfirst other hother

/-- The sort keeps the order of the listing within a millisecond. -/
theorem pairwise_sortMessages_iff (messages : List AdapterOutboundMessageRecord) :
    (Outbox.sortMessages messages).Pairwise (fun first second ↦ first.key ≤ second.key) ↔
      messages.Pairwise fun first second ↦
        first.createdAtMs = second.createdAtMs → first.id ≤ second.id := by
  induction messages with
  | nil => simp [Outbox.sortMessages]
  | cons message messages ih =>
    rw [pairwise_cons, ← ih]
    have hmem (other : AdapterOutboundMessageRecord) :
        other ∈ Outbox.sortMessages messages ↔ other ∈ messages := mem_insertionSort _
    constructor
    · intro hsorted
      have hrest := hsorted.sublist (sublist_orderedInsert message _)
      exact ⟨fun other hother ↦ (pairwise_orderedInsert_iff message hrest).1 hsorted other
        ((hmem other).2 hother), hrest⟩
    · intro hmessages
      exact (pairwise_orderedInsert_iff message hmessages.2).2 fun other hother ↦
        hmessages.1 other ((hmem other).1 hother)

theorem queued_files (entries : List OutboxEntry) :
    queued (entries.filterMap (·.file)) = messagesOf (entries.filter (·.isListed)) := by
  rw [queued, messagesOf, filter_filterMap, filterMap_filterMap, filterMap_filter]
  refine filterMap_congr fun entry _ ↦ ?_
  obtain ⟨_ | ⟨isJson, message⟩, fault⟩ := entry
  · rfl
  · cases isJson <;> rfl

/-- A loop in which nothing fails takes what there is room for; otherwise it returns an error, with
nothing moved if the first message fails early. -/
theorem claimLoop_spec (nowMs : ℕ) (entries : List OutboxEntry) :
    ∀ messages : List AdapterOutboundMessageRecord, messages.length ≤ maxMessagesPerClaim →
      let listed := entries.filter (·.isListed)
      let batch := listed.take (maxMessagesPerClaim - messages.length)
      let outcome := claimLoop nowMs entries messages
      (batch.any (·.fails) = false →
        outcome.result = .ok (Outbox.sortMessages
          (messages ++ (messagesOf batch).map (·.claim nowMs))) ∧
        queued outcome.outbox =
          messagesOf (listed.drop (maxMessagesPerClaim - messages.length))) ∧
      (batch.any (·.fails) = true → (∃ fault, outcome.result = .error fault) ∧
        (outcome.moved = [] ↔ batch.head?.any (·.failsEarly) = true) ∧
        (outcome.moved = [] → outcome.outbox = entries.filterMap (·.file))) := by
  induction entries with
  | nil => simp [claimLoop, messagesOf, queued]
  | cons entry entries ih =>
    intro messages hlength
    obtain ⟨file, fault⟩ := entry
    by_cases hroom : messages.length < maxMessagesPerClaim
    · obtain ⟨room, hroom'⟩ : ∃ room, maxMessagesPerClaim - messages.length = room + 1 :=
        ⟨maxMessagesPerClaim - messages.length - 1, by omega⟩
      rcases file with _ | ⟨_ | _, message⟩
      · simp [claimLoop, hroom, hroom', OutboxEntry.isListed, OutboxEntry.fails,
          OutboxEntry.failsEarly, OutboxEntry.message]
      · obtain ⟨hok, herror⟩ := ih messages hlength
        simp only [claimLoop, hroom, if_true, Bool.false_eq_true, if_false, OutboxEntry.isListed,
          Option.all_some, filter_cons, filterMap_cons] at hok herror ⊢
        refine ⟨fun hbatch ↦ ⟨(hok hbatch).1, ?_⟩, fun hbatch ↦ ?_⟩
        · simpa [queued] using (hok hbatch).2
        · obtain ⟨hresult, hmoved, hfiles⟩ := herror hbatch
          exact ⟨hresult, hmoved, fun hnone ↦ congrArg (_ :: ·) (hfiles hnone)⟩
      · have hlisted : OutboxEntry.isListed ⟨some ⟨true, message⟩, fault⟩ = true := rfl
        simp only [claimLoop, hroom, if_true, filter_cons, hlisted, hroom', take_succ_cons,
          drop_succ_cons, any_cons, head?_cons, Option.any_some]
        cases message with
        | none => simp [OutboxEntry.fails, OutboxEntry.failsEarly, OutboxEntry.message]
        | some message =>
          cases fault with
          | some fault =>
            cases fault <;>
              simp [OutboxEntry.fails, OutboxEntry.failsEarly, OutboxEntry.message]
          | none =>
            have hlonger : (messages ++ [message.claim nowMs]).length = messages.length + 1 :=
              length_append
            have hrest := ih (messages ++ [message.claim nowMs]) (by omega)
            rw [hlonger, show maxMessagesPerClaim - (messages.length + 1) = room by omega] at hrest
            have hworks : OutboxEntry.fails ⟨some ⟨true, some message⟩, none⟩ = false := rfl
            have hlate : OutboxEntry.failsEarly ⟨some ⟨true, some message⟩, none⟩ = false := rfl
            simp only [hworks, hlate, Bool.false_or]
            refine ⟨fun hbatch ↦ ?_, fun hbatch ↦ ⟨(hrest.2 hbatch).1, by simp, by simp⟩⟩
            obtain ⟨hresult, hqueued⟩ := hrest.1 hbatch
            exact ⟨by simpa [messagesOf, OutboxEntry.message] using hresult, hqueued⟩
    · have hzero : maxMessagesPerClaim - messages.length = 0 := by omega
      simp only [claimLoop, hroom, if_false, hzero, take_zero, drop_zero, any_nil]
      refine ⟨fun _ ↦ ⟨?_, queued_files _⟩, nofun⟩
      simp [messagesOf]

variable {outbox : List OutboxFile} {calls : List ClaimCall}

theorem enqueueOrder_perm {other : List OutboxFile} (hperm : outbox.Perm other) :
    enqueueOrder outbox = enqueueOrder other := by
  have hqueued : (queued outbox).Perm (queued other) := (hperm.filter _).filterMap _
  have hsorted := ((perm_insertionSort (· ≤ ·) _).trans (hqueued.map (·.key))).trans
    (perm_insertionSort (· ≤ ·) _).symm
  exact hsorted.eq_of_pairwise (fun _ _ _ _ ↦ le_antisymm) (pairwise_insertionSort _ _)
    (pairwise_insertionSort _ _)

theorem batch_append_iff (batch rest : List AdapterOutboundMessageRecord) (nowMs : ℕ) :
    (Outbox.sortMessages (batch.map (·.claim nowMs))).map (·.key) ++
        (rest.map (·.key)).insertionSort (· ≤ ·) =
      ((batch ++ rest).map (·.key)).insertionSort (· ≤ ·) ↔
    batch.Pairwise (fun first second ↦
      first.createdAtMs = second.createdAtMs → first.id ≤ second.id) ∧
    ∀ first ∈ batch, ∀ second ∈ rest, first.key ≤ second.key := by
  have hbatch : ((Outbox.sortMessages (batch.map (·.claim nowMs))).map (·.key)).Perm
      (batch.map (·.key)) := by
    have hsort := (perm_insertionSort (fun first second : AdapterOutboundMessageRecord ↦
      first.createdAtMs ≤ second.createdAtMs) (batch.map (·.claim nowMs))).map (·.key)
    rwa [map_map] at hsort
  have hordered : ((Outbox.sortMessages (batch.map (·.claim nowMs))).map (·.key)).Pairwise
      (· ≤ ·) ↔ batch.Pairwise (fun first second ↦
        first.createdAtMs = second.createdAtMs → first.id ≤ second.id) := by
    rw [pairwise_map, pairwise_sortMessages_iff, pairwise_map]
    rfl
  have hrest := perm_insertionSort (· ≤ ·) (rest.map (·.key))
  constructor
  · intro hsorted
    have hpairwise := pairwise_insertionSort (· ≤ ·) ((batch ++ rest).map (·.key))
    rw [← hsorted, pairwise_append] at hpairwise
    exact ⟨hordered.1 hpairwise.1, fun first hfirst second hsecond ↦ hpairwise.2.2 _
      (hbatch.mem_iff.2 (mem_map_of_mem hfirst)) _
      (hrest.mem_iff.2 (mem_map_of_mem hsecond))⟩
  · rintro ⟨hpairwise, hacross⟩
    have hboth := hbatch.append hrest
    rw [← map_append] at hboth
    have hperm := hboth.trans (perm_insertionSort (· ≤ ·) _).symm
    refine hperm.eq_of_pairwise (fun _ _ _ _ ↦ le_antisymm) (pairwise_append.2
      ⟨hordered.2 hpairwise, pairwise_insertionSort _ _, ?_⟩) (pairwise_insertionSort _ _)
    intro key hkey other hother
    obtain ⟨first, hfirst, rfl⟩ := mem_map.1 (hbatch.mem_iff.1 hkey)
    obtain ⟨second, hsecond, rfl⟩ := mem_map.1 (hrest.mem_iff.1 hother)
    exact hacross first hfirst second hsecond

theorem length_messagesOf {entries : List OutboxEntry}
    (hworks : entries.any (·.fails) = false) : (messagesOf entries).length = entries.length := by
  induction entries with
  | nil => rfl
  | cons entry entries ih =>
    rw [any_cons, Bool.or_eq_false_iff] at hworks
    cases hmessage : entry.message with
    | none => simp [OutboxEntry.fails, hmessage] at hworks
    | some message => simpa [messagesOf, hmessage] using ih hworks.2

/-- A call hands out the next messages exactly if its listing has the oldest first. -/
theorem handsOut_iff {call : ClaimCall} (henabled : claims.enabled outbox call) :
    HandsOut outbox call ↔ ListsOldest outbox call := by
  have hspec := claimLoop_spec call.nowMs call.entries [] (Nat.zero_le _)
  have hqueued := ((henabled.symm.filter (·.isJson)).filterMap (·.message)).length_eq
  change (queued outbox).length = (queued (call.entries.filterMap (·.file))).length at hqueued
  simp only [length_nil, Nat.sub_zero, nil_append] at hspec
  unfold HandsOut ListsOldest ClaimCall.returned ClaimCall.outcome
  dsimp only
  rw [← enqueueOrder_perm henabled, ClaimCall.files, hqueued, queued_files]
  split_ifs with hbatch
  · obtain ⟨⟨fault, hresult⟩, hmoved, hfiles⟩ := hspec.2 hbatch
    rw [hresult, ← hmoved]
    exact ⟨fun hcall ↦ hcall.2, fun hnone ↦ ⟨congrArg enqueueOrder (hfiles hnone), hnone⟩⟩
  · rw [Bool.not_eq_true] at hbatch
    obtain ⟨hresult, hrest⟩ := hspec.1 hbatch
    have hlength := length_messagesOf hbatch
    have hsplit : messagesOf (call.entries.filter (·.isListed)) =
        messagesOf ((call.entries.filter (·.isListed)).take maxMessagesPerClaim) ++
          messagesOf ((call.entries.filter (·.isListed)).drop maxMessagesPerClaim) := by
      rw [messagesOf, messagesOf, messagesOf, ← filterMap_append, take_append_drop]
    rw [hresult, enqueueOrder, enqueueOrder, queued_files, hrest, hsplit, ← batch_append_iff _ _
      call.nowMs]
    refine and_iff_left_of_imp fun _ ↦ ?_
    have hsorted (messages : List AdapterOutboundMessageRecord) :
        (Outbox.sortMessages messages).length = messages.length :=
      (perm_insertionSort _ messages).length_eq
    simp only [hsorted, length_map, length_append, hlength, length_take]
    by_cases hmore : maxMessagesPerClaim ≤ (call.entries.filter (·.isListed)).length
    · omega
    · have hnone := drop_of_length_le (Nat.le_of_not_le hmore)
      simp only [hnone, messagesOf, filterMap_nil, length_nil]
      omega

theorem handsOut_run : ∀ {outbox : List OutboxFile},
    claims.Throughout HandsOut outbox calls →
      (claims.collect (fun _ call ↦ call.returned) outbox calls).map (·.key) ++
        enqueueOrder (claims.exec outbox calls) = enqueueOrder outbox := by
  induction calls with
  | nil => exact fun _ ↦ rfl
  | cons call calls ih =>
    intro outbox hrun
    rw [System.collect, map_append, append_assoc, System.exec_cons, ih hrun.2]
    exact hrun.1.1

/-- Successive claims hand out the messages in the order they were enqueued, all or nothing,
exactly if every listing has the oldest messages first and whatever fails does so first. -/
theorem claimed_in_order_iff (hrun : claims.Admits outbox calls) :
    ClaimedInOrder outbox calls ↔ claims.Throughout ListsOldest outbox calls := by
  have hsteps := System.throughout_congr (fun _ : List OutboxFile ↦ True)
    (fun _ _ _ henabled ↦ handsOut_iff henabled) (fun _ _ _ _ _ ↦ trivial) trivial hrun
  exact ⟨fun hclaimed ↦ hsteps.1 hclaimed.1, fun holdest ↦
    ⟨hsteps.2 holdest, handsOut_run (hsteps.2 holdest)⟩⟩

/-- A message of the outbox. -/
def queuedFile (id : String) (createdAtMs : ℕ) : OutboxFile :=
  ⟨true, some (.new id "hello" none createdAtMs)⟩

/-- Three calls, of which the first cannot write in flight and the second cannot list. -/
theorem claimed_in_order_retried : ClaimedInOrder [queuedFile "b" 2, queuedFile "a" 1]
      [⟨[⟨queuedFile "b" 2, some .write⟩, ⟨queuedFile "a" 1, none⟩], 5⟩,
        ⟨[⟨none, none⟩, ⟨queuedFile "a" 1, none⟩, ⟨queuedFile "b" 2, none⟩], 6⟩,
        ⟨[⟨queuedFile "b" 2, none⟩, ⟨queuedFile "a" 1, none⟩], 7⟩] :=
  (claimed_in_order_iff (by decide)).2 (by decide)

/-- A file that is no message, after one that is: the message is in flight and not returned. -/
theorem not_claimed_in_order : claims.Admits [queuedFile "a" 1, ⟨true, none⟩]
        [⟨[⟨queuedFile "a" 1, none⟩, ⟨some ⟨true, none⟩, none⟩], 5⟩] ∧
      ¬ClaimedInOrder [queuedFile "a" 1, ⟨true, none⟩]
        [⟨[⟨queuedFile "a" 1, none⟩, ⟨some ⟨true, none⟩, none⟩], 5⟩] := by
  have hrun : claims.Admits [queuedFile "a" 1, ⟨true, none⟩]
      [⟨[⟨queuedFile "a" 1, none⟩, ⟨some ⟨true, none⟩, none⟩], 5⟩] := by decide
  refine ⟨hrun, fun hclaimed ↦ ?_⟩
  have hmoved := hclaimed.1.1.2
  cases hmoved

end Exo.Adapters
