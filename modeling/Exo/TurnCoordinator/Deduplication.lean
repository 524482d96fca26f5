import Exo.TurnCoordinator.Fifo

/-!
# Deduplication of submissions

A keyed submission leaves a receipt.  Receipts are pruned by the clock of later submissions only,
and at most one unexpired receipt exists for a principal and a key, so a retry within the lifetime
finds the record it was first accepted as, whatever happened to the turn itself.

Without a key, the only memory of a turn id is the queue: a turn is recognised while it is pending
and forgotten when it is removed.  `acknowledge` in turn recognises a repeated acknowledgment by the
last removed id alone.  Both checks are exact as long as ids are not reused; the last section says
what happens, step by step, when they are.
-/

namespace Exo.TurnCoordinator.Deduplication

open Library Coordinator Fifo List System

variable {Work : Type}

/-- Some step of the run accepts `turn` at time `now`. -/
def Accepts (ops : List (Op Work)) (now : ℤ) (turn : TurnSubmission Work) : Prop :=
  ∃ before store after, ops = before ++ .enqueue store now turn :: after ∧
    (((system Work).exec {} before).perform (.enqueue store now turn)).1 =
      .accepted ⟨turn.turn, false⟩

variable {ops : List (Op Work)} {now : ℤ} {turn : TurnSubmission Work} {receipts : List TurnReceipt}
  {receipt : TurnReceipt} {key : String} {pending : List (QueuedTurn Work)} {c : Coordinator Work}

theorem Accepts.append (haccepts : Accepts ops now turn) (more : List (Op Work)) :
    Accepts (ops ++ more) now turn := by
  obtain ⟨before, store, after, rfl, hresponse⟩ := haccepts
  exact ⟨before, store, after ++ more, by simp, hresponse⟩

/-- The times the submissions of a run are made at. -/
def clocks (ops : List (Op Work)) : List ℤ :=
  ops.filterMap (fun op ↦
    match op with
    | .enqueue _ now _ => some now
    | _ => none)

theorem clocks_append (first second : List (Op Work)) :
    clocks (first ++ second) = clocks first ++ clocks second := filterMap_append ..

/-- The scope of a receipt. -/
def scope (receipt : TurnReceipt) : Option String × String := (receipt.principal, receipt.key)

/-- No principal has two receipts for one key. -/
def Scoped (receipts : List TurnReceipt) : Prop := (receipts.map scope).Nodup

/-- The receipt `turn` leaves when it is accepted at `now` with `key`. -/
def receiptFor (now : ℤ) (turn : TurnSubmission Work) (key : String) : TurnReceipt :=
  ⟨turn.principal, key, turn.turn, now + receiptLifetime⟩

theorem mem_retainReceipts :
    receipt ∈ retainReceipts now receipts ↔ receipt ∈ receipts ∧ now < receipt.expiresAt := by
  simp [retainReceipts]

theorem receiptOf_eq (hkey : turn.options.idempotencyKey = some key) :
    receiptOf now turn = [receiptFor now turn key] := by
  simp [receiptOf, hkey, receiptFor]

theorem scope_not_mem_of_duplicateOf (hnew : duplicateOf pending receipts turn = none)
    (hkey : turn.options.idempotencyKey = some key) :
    (turn.principal, key) ∉ receipts.map scope := by
  unfold duplicateOf at hnew
  split at hnew
  · cases hnew
  simp only [hkey, Option.map_eq_none_iff, find?_eq_none] at hnew
  intro hmem
  obtain ⟨receipt, hreceipt, hscope⟩ := mem_map.mp hmem
  simp only [scope, Prod.mk.injEq] at hscope
  exact hnew receipt hreceipt (by simp [hscope.1, hscope.2])

theorem scoped_acceptState (hscoped : Scoped c.stored.receipts)
    (hnew : duplicateOf c.stored.pending (retainReceipts now c.stored.receipts) turn = none) :
    Scoped (c.acceptState now turn).receipts := by
  have hretained : Scoped (retainReceipts now c.stored.receipts) :=
    hscoped.sublist (List.Sublist.map _ filter_sublist)
  cases hkey : turn.options.idempotencyKey with
  | none => simpa [acceptState, receiptOf, hkey] using hretained
  | some key =>
    simp only [Scoped, acceptState, receiptOf_eq hkey, map_append, map_cons, map_nil]
    exact concat_eq_append ▸ hretained.concat (scope_not_mem_of_duplicateOf hnew hkey)

/-- Receipts change only when a submission is accepted. -/
theorem receipts_cases (c : Coordinator Work) (op : Op Work) :
    (c.perform op).2.stored.receipts = c.stored.receipts ∨
      ∃ now turn, op = .enqueue .ok now turn ∧ (c.perform op).1 = .accepted ⟨turn.turn, false⟩ ∧
        duplicateOf c.stored.pending (retainReceipts now c.stored.receipts) turn = none ∧
        (c.perform op).2.stored = c.acceptState now turn := by
  have heffect := perform_effect c op
  generalize (c.perform op).1 = response at heffect
  generalize (c.perform op).2.stored = after at heffect
  cases heffect with
  | admitted hop hnew => exact .inr ⟨_, _, hop, rfl, hnew, rfl⟩
  | _ => exact .inl rfl

theorem mem_receipts_step {op : Op Work} (hmem : receipt ∈ c.stored.receipts)
    (hclock : ∀ now ∈ clocks [op], now < receipt.expiresAt) :
    receipt ∈ (c.perform op).2.stored.receipts := by
  rcases receipts_cases c op with heq | ⟨now, turn, hop, _, _, hafter⟩
  · rwa [heq]
  · rw [hafter]
    apply mem_append_left
    rw [mem_retainReceipts]
    exact ⟨hmem, hclock now (by simp [clocks, hop])⟩

theorem mem_receipts_exec (ops : List (Op Work)) (hmem : receipt ∈ c.stored.receipts)
    (hclock : ∀ now ∈ clocks ops, now < receipt.expiresAt) :
    receipt ∈ ((system Work).exec c ops).stored.receipts := by
  induction ops generalizing c with
  | nil => exact hmem
  | cons op ops ih =>
    rw [show op :: ops = [op] ++ ops from rfl, clocks_append] at hclock
    apply ih (mem_receipts_step hmem fun now hnow ↦ hclock now (mem_append_left _ hnow))
    exact fun now hnow ↦ hclock now (mem_append_right _ hnow)

/-- What a run knows about its receipts: each scope has one, and each was issued by a step that
accepted a submission of that principal under that key. -/
structure Issued (ops : List (Op Work)) (receipts : List TurnReceipt) : Prop where
  unique : Scoped receipts
  issued : ∀ receipt ∈ receipts, ∃ now turn, Accepts ops now turn ∧
    turn.options.idempotencyKey = some receipt.key ∧ receipt = receiptFor now turn receipt.key

theorem issued_of_admits (hrun : (system Work).Admits {} ops) :
    Issued ops ((system Work).exec {} ops).stored.receipts := by
  refine traceInvariant
    (fun ops (c : Coordinator Work) ↦ Issued ops c.stored.receipts) {} ?_ ?_ hrun
  · exact ⟨nodup_nil, by simp⟩
  intro ops op _ ih _
  have hold (receipt : TurnReceipt) (hmem : receipt ∈ ((system Work).exec {} ops).stored.receipts) :
      ∃ now turn, Accepts (ops ++ [op]) now turn ∧
        turn.options.idempotencyKey = some receipt.key ∧
        receipt = receiptFor now turn receipt.key := by
    obtain ⟨now, turn, haccepts, hkey, hreceipt⟩ := ih.issued receipt hmem
    exact ⟨now, turn, haccepts.append [op], hkey, hreceipt⟩
  rw [system_next]
  rcases receipts_cases ((system Work).exec {} ops) op with
    heq | ⟨now, turn, hop, hresponse, hnew, hafter⟩
  · rw [heq]
    exact ⟨ih.unique, hold⟩
  · rw [hafter]
    refine ⟨scoped_acceptState ih.unique hnew, ?_⟩
    intro receipt hmem
    rcases mem_append.mp hmem with hmem | hmem
    · exact hold receipt (mem_retainReceipts.mp hmem).1
    · cases hkey : turn.options.idempotencyKey with
      | none => simp [receiptOf, hkey] at hmem
      | some key =>
        rw [receiptOf_eq hkey, mem_singleton] at hmem
        subst hmem
        refine ⟨now, turn, ⟨ops, .ok, [], by rw [hop], ?_⟩, hkey, rfl⟩
        rw [← hop]
        exact hresponse

/-- With one receipt for each scope, the lookup finds the receipt that is there. -/
theorem find_receipt (hscoped : Scoped receipts) (hmem : receipt ∈ receipts) :
    receipts.find? (fun other ↦ other.key = receipt.key ∧ other.principal = receipt.principal) =
      some receipt := by
  cases hfind : receipts.find?
      (fun other ↦ other.key = receipt.key ∧ other.principal = receipt.principal) with
  | none =>
    rw [find?_eq_none] at hfind
    exact absurd (by simp) (hfind receipt hmem)
  | some other =>
    have hother := find?_some hfind
    simp only [decide_eq_true_eq] at hother
    have hscope : scope other = scope receipt := by simp [scope, hother.1, hother.2]
    rw [inj_on_of_nodup_map hscoped (mem_of_find?_eq_some hfind) hmem hscope]

/-- A keyed submission that is a duplicate without its id being pending repeats a submission that
its own principal had accepted under the same key. -/
theorem accepts_of_duplicateOf {record : TurnRecord} (hissued : Issued ops receipts)
    (hkey : turn.options.idempotencyKey = some key) (now : ℤ) (hid : turn.turn.id ∉ ids pending)
    (hduplicate : duplicateOf pending (retainReceipts now receipts) turn = some record) :
    ∃ earlier original, Accepts ops earlier original ∧ original.turn = record ∧
      original.options.idempotencyKey = some key ∧ original.principal = turn.principal := by
  unfold duplicateOf at hduplicate
  split at hduplicate
  · rename_i entry hfind
    have hentry := find?_some hfind
    simp only [decide_eq_true_eq] at hentry
    exact absurd (hentry ▸ mem_map_of_mem (mem_of_find?_eq_some hfind)) hid
  · simp only [hkey, Option.map_eq_some_iff] at hduplicate
    obtain ⟨receipt, hfind, hrecord⟩ := hduplicate
    have hmatch := find?_some hfind
    simp only [decide_eq_true_eq] at hmatch
    obtain ⟨earlier, original, haccepts, horiginal, hreceipt⟩ :=
      hissued.issued receipt (mem_retainReceipts.mp (mem_of_find?_eq_some hfind)).1
    rw [hmatch.1] at horiginal hreceipt
    have hturn : original.turn = receipt.turn := by rw [hreceipt]; rfl
    have hprincipal : original.principal = receipt.principal := by rw [hreceipt]; rfl
    exact ⟨earlier, original, haccepts, hturn.trans hrecord, horiginal, hprincipal.trans hmatch.2⟩

/-- The receipt of an accepted keyed submission is stored by that very step. -/
theorem mem_receipts_of_accepted {store : StoreOutcome} {record : TurnRecord}
    (haccepted : (c.perform (.enqueue store now turn)).1 = .accepted ⟨record, false⟩)
    (hkey : turn.options.idempotencyKey = some key) :
    record = turn.turn ∧
      receiptFor now turn key ∈ (c.perform (.enqueue store now turn)).2.stored.receipts := by
  have heffect := perform_effect c (.enqueue store now turn)
  rw [haccepted] at heffect
  generalize (c.perform (.enqueue store now turn)).2.stored = after at heffect
  cases heffect with
  | unchanged hresponse => exact absurd rfl (hresponse record)
  | admitted hop hnew =>
    cases hop
    refine ⟨rfl, mem_append_right _ ?_⟩
    rw [receiptOf_eq hkey]
    exact mem_singleton_self _

/-- The submission repeats its own receipt, unless another pending turn has its id. -/
theorem duplicateOf_of_receipt (hscoped : Scoped receipts) (hmem : receipt ∈ receipts)
    (hclock : now < receipt.expiresAt) (hkey : turn.options.idempotencyKey = some receipt.key)
    (hprincipal : turn.principal = receipt.principal)
    (hid : ∀ entry ∈ pending, entry.turn.id = turn.turn.id → entry.turn = receipt.turn) :
    duplicateOf pending (retainReceipts now receipts) turn = some receipt.turn := by
  unfold duplicateOf
  split
  · rename_i entry hfind
    have hentry := find?_some hfind
    simp only [decide_eq_true_eq] at hentry
    rw [hid entry (mem_of_find?_eq_some hfind) hentry]
  · have hretained : Scoped (retainReceipts now receipts) :=
      hscoped.sublist (List.Sublist.map _ filter_sublist)
    have hfind := find_receipt hretained (mem_retainReceipts.mpr ⟨hmem, hclock⟩)
    simp only [hkey, hprincipal, hfind, Option.map_some]

/-- **Idempotency keys are honoured for 24 hours.**  In every run with a non-decreasing clock, once
a submission is accepted under a key at time `accepted`, a later one of the same principal under
the same key made before `accepted + 24 h` is answered with the original record, whatever happened
in between, and changes nothing at all, not even as an interruption.  A different principal is
never answered from that receipt: it only repeats its own accepted submissions. -/
theorem idempotency_keys_are_honoured (before between : List (Op Work))
    (store retryStore : StoreOutcome) (accepted now : ℤ) (turn retry : TurnSubmission Work)
    (key : String) (record : TurnRecord)
    (hrun : (system Work).Admits {}
      ((before ++ [.enqueue store accepted turn] ++ between) ++ [.enqueue retryStore now retry]))
    (hclock : (clocks ((before ++ [.enqueue store accepted turn] ++ between) ++
      [.enqueue retryStore now retry])).Pairwise (· ≤ ·))
    (haccepted : (((system Work).exec {} before).perform (.enqueue store accepted turn)).1 =
      .accepted ⟨record, false⟩)
    (hkey : turn.options.idempotencyKey = some key)
    (hretry : retry.options.idempotencyKey = some key) (hload : retryStore ≠ .loadFails) :
    let c := (system Work).exec {} (before ++ [.enqueue store accepted turn] ++ between)
    (retry.principal = turn.principal → now < accepted + 24 * 60 * 60 →
      (∀ entry ∈ c.stored.pending, entry.turn.id = retry.turn.id → entry.turn = record) →
      c.perform (.enqueue retryStore now retry) = (.accepted ⟨record, true⟩, c)) ∧
    (retry.principal ≠ turn.principal → retry.turn.id ∉ ids c.stored.pending →
      ∀ other, (c.perform (.enqueue retryStore now retry)).1 = .accepted ⟨other, true⟩ →
      ∃ earlier original,
        Accepts (before ++ [.enqueue store accepted turn] ++ between) earlier original ∧
        original.turn = other ∧ original.options.idempotencyKey = some key ∧
        original.principal = retry.principal ∧ original.principal ≠ turn.principal) := by
  intro c
  have hissued := issued_of_admits ((admits_append _ _ _ _).mp hrun).1
  obtain ⟨hrecord, hmem⟩ := mem_receipts_of_accepted haccepted hkey
  constructor
  · intro hprincipal hnow hid
    have hbetween : ∀ time ∈ clocks between, time < (receiptFor accepted turn key).expiresAt := by
      intro time htime
      rw [clocks_append, clocks_append, pairwise_append] at hclock
      have hle : time ≤ now :=
        hclock.2.2 time (mem_append_right _ htime) now (by simp [clocks])
      have hexpires : (receiptFor accepted turn key).expiresAt = accepted + 24 * 60 * 60 := rfl
      omega
    have hstored : receiptFor accepted turn key ∈ c.stored.receipts := by
      have hexec := mem_receipts_exec between hmem hbetween
      simpa only [c, exec_append, exec_cons, exec_nil, system_next] using hexec
    have hduplicate := duplicateOf_of_receipt hissued.unique hstored hnow hretry hprincipal
      (by rw [hrecord] at hid; exact hid)
    have hrecord' : (receiptFor accepted turn key).turn = record := hrecord.symm
    rw [hrecord'] at hduplicate
    simp only [perform, enqueue, hload, if_false]
    rw [hduplicate]
    rfl
  · intro hprincipal hid other hother
    have hduplicate : duplicateOf c.stored.pending (retainReceipts now c.stored.receipts) retry =
        some other := by
      simp only [perform, enqueue, hload, if_false] at hother
      split at hother
      · rename_i found hfound
        cases hother
        exact hfound
      · split at hother <;> cases hother
    obtain ⟨earlier, original, haccepts, hturn, horiginal, hsame⟩ :=
      accepts_of_duplicateOf hissued hretry now hid hduplicate
    exact ⟨earlier, original, haccepts, hturn, horiginal, hsame, hsame ▸ hprincipal⟩

/-- The retry of an acknowledged turn, one second before its receipt expires, as an interruption
under a new turn id; another principal under the same key gets its own turn back. -/
theorem idempotency_keys_are_honoured_after_acknowledgment :
    let keyed : TurnOptions := { idempotencyKey := some "request-1" }
    let between : List (Op String) := [.claim 7, .acknowledge .ok 7 1,
      .enqueue .ok 100 ⟨⟨2, 8⟩, "b", some "bob", keyed⟩]
    let retry : TurnSubmission String := ⟨⟨3, 9⟩, "a", some "alice",
      { idempotencyKey := some "request-1", attention := .interrupt }⟩
    let c := (system String).exec {}
      ([] ++ [.enqueue .ok 0 ⟨⟨1, 9⟩, "a", some "alice", keyed⟩] ++ between)
    c.perform (.enqueue .ok 86399 retry) = (.accepted ⟨⟨1, 9⟩, true⟩, c) := by
  intro keyed between retry c
  exact (idempotency_keys_are_honoured [] between .ok .ok 0 86399
    ⟨⟨1, 9⟩, "a", some "alice", keyed⟩ retry "request-1" ⟨1, 9⟩ (by decide) (by decide) (by decide)
    rfl rfl (by decide)).1 rfl (by decide) (by decide)

/-- A step carries no idempotency key. -/
def Keyless (op : Op Work) : Prop :=
  ∀ store now turn, op = .enqueue store now turn → turn.options.idempotencyKey = none

section
variable (before : List (Op Work)) (op : Op Work)

/-- The submission `op` repeats an id accepted less than 24 hours ago. -/
def Resubmits (turn : TurnSubmission Work) : Prop :=
  ∃ now earlier original, op = .enqueue .ok now turn ∧ Accepts before earlier original ∧
    original.turn.id = turn.turn.id ∧ now < earlier + 24 * 60 * 60

/-- The owner acknowledges the stored head. -/
def AcknowledgesHead (c : Coordinator Work) (op : Op Work) (head : QueuedTurn Work)
    (rest : List (QueuedTurn Work)) : Prop :=
  ∃ lease, op = .acknowledge .ok lease head.turn.id ∧ c.mutation.check c.live lease = true ∧
    c.stored.pending = head :: rest

/-- Turn ids are single-use at the step `op` of a run: a resubmission is answered as a duplicate,
and acknowledging the head removes it. -/
def SingleUseAt : Prop :=
  let c := (system Work).exec {} before
  (∀ turn, Resubmits before op turn → ∃ record, (c.perform op).1 = .accepted ⟨record, true⟩) ∧
    ∀ head rest, AcknowledgesHead c op head rest → (c.perform op).2.stored.pending = rest

/-- What the step must find for that: the resubmitted id still pending, and a head other than the
turn acknowledged last. -/
def NotReusedAt : Prop :=
  let c := (system Work).exec {} before
  (∀ turn, Resubmits before op turn → turn.turn.id ∈ ids c.stored.pending) ∧
    ∀ head rest, AcknowledgesHead c op head rest → c.stored.acknowledged ≠ some head.turn.id

end

/-- `P` holds at every step of the run. -/
def AtEveryStep (P : List (Op Work) → Op Work → Prop) (ops : List (Op Work)) : Prop :=
  ∀ before op after, ops = before ++ op :: after → P before op

/-- A keyless submission is answered as a duplicate exactly while its id is pending. -/
theorem enqueue_duplicate_iff (hkeyless : turn.options.idempotencyKey = none) :
    (∃ record, (c.perform (.enqueue .ok now turn)).1 = .accepted ⟨record, true⟩) ↔
      turn.turn.id ∈ ids c.stored.pending := by
  constructor
  · rintro ⟨record, hresponse⟩
    by_contra hid
    have hnew :
        duplicateOf c.stored.pending (retainReceipts now c.stored.receipts) turn = none := by
      unfold duplicateOf
      split
      · rename_i entry hfind
        have hentry := find?_some hfind
        simp only [decide_eq_true_eq] at hentry
        exact absurd (hentry ▸ mem_map_of_mem (mem_of_find?_eq_some hfind)) hid
      · simp [hkeyless]
    simp [perform, enqueue, hnew, Response.ofExcept] at hresponse
  · intro hid
    cases hduplicate : duplicateOf c.stored.pending (retainReceipts now c.stored.receipts) turn with
    | none => exact absurd hid (not_mem_ids_of_duplicateOf hduplicate)
    | some record =>
      exact ⟨record, by simp [perform, enqueue, hduplicate, Response.ofExcept]⟩

/-- Acknowledging the head removes it exactly if it is not the turn acknowledged last. -/
theorem acknowledge_removes_iff {lease : LeaseIdentity} {head : QueuedTurn Work}
    {rest : List (QueuedTurn Work)} (hcheck : c.mutation.check c.live lease = true)
    (hpending : c.stored.pending = head :: rest) :
    (c.perform (.acknowledge .ok lease head.turn.id)).2.stored.pending = rest ↔
      c.stored.acknowledged ≠ some head.turn.id := by
  by_cases hlast : c.stored.acknowledged = some head.turn.id
  · simp [perform, acknowledge, hcheck, hlast, hpending]
  · simp [perform, acknowledge, hcheck, hlast, hpending]

/-- The ids of the turns removed along a run. -/
def removedIds (ops : List (Op Work)) : List TurnId := (popped ops).map contentId

/-- The step does not submit the id of a turn removed earlier in the run. -/
def FreshIdAt (before : List (Op Work)) (op : Op Work) : Prop :=
  ∀ store now turn, op = .enqueue store now turn → turn.turn.id ∉ removedIds before

theorem AtEveryStep.of_append {P : List (Op Work) → Op Work → Prop} {op : Op Work}
    (hrun : AtEveryStep P (ops ++ [op])) : AtEveryStep P ops ∧ P ops op := by
  constructor
  · intro before step after hops
    exact hrun before step (after ++ [op]) (by simp [hops])
  · exact hrun ops op [] rfl

theorem removedIds_disjoint (hrun : (system Work).Admits {} ops)
    (hfresh : AtEveryStep FreshIdAt ops) :
    ∀ id ∈ removedIds ops, id ∉ ids ((system Work).exec {} ops).stored.pending := by
  refine traceInvariant (fun ops (c : Coordinator Work) ↦ AtEveryStep FreshIdAt ops →
    ∀ id ∈ removedIds ops, id ∉ ids c.stored.pending) {} ?_ ?_ hrun hfresh
  · simp [removedIds, popped]
  intro ops op hadmits ih _ hfresh
  obtain ⟨hbefore, hop⟩ := hfresh.of_append
  have hnodup := (balanced_of_admits hadmits).nodup
  intro id hid
  rw [removedIds, popped_snoc, map_append] at hid
  rcases perform_contentEffect ((system Work).exec {} ops) op with
    ⟨hcontent, _, _⟩ | ⟨turn, henqueue, _, hcontent, _, _⟩ |
    ⟨head, rest, _, _, hpending, _, _, hafter⟩
  · rw [removedBy_eq_nil (hcontent.trans (append_nil _).symm), map_nil, append_nil] at hid
    rw [system_next, ids_eq_map_content, hcontent, ← ids_eq_map_content]
    exact ih hbefore id hid
  · rw [removedBy_eq_nil hcontent, map_nil, append_nil] at hid
    rw [system_next, ids_eq_map_content, hcontent, map_append, ← ids_eq_map_content]
    intro hmem
    rcases mem_append.mp hmem with hmem | hmem
    · exact ih hbefore id hid hmem
    · rw [map_cons, map_nil, mem_singleton] at hmem
      rw [hmem] at hid
      exact hop _ _ turn henqueue hid
  · have hrest : (((system Work).exec {} ops).perform op).2.stored.pending = rest := by rw [hafter]
    rw [removedBy_pop hnodup hpending hrest] at hid
    rw [system_next, hrest]
    rw [hpending] at hnodup
    rcases mem_append.mp hid with hid | hid
    · have hold := ih hbefore id hid
      rw [hpending] at hold
      exact fun hmem ↦ hold (mem_cons_of_mem _ hmem)
    · rw [map_cons, map_nil, mem_singleton] at hid
      rw [hid]
      exact (nodup_cons.mp hnodup).1

theorem Accepts.mem_accepted (haccepts : Accepts ops now turn) : submitted turn ∈ accepted ops := by
  obtain ⟨before, store, after, rfl, hresponse⟩ := haccepts
  unfold accepted
  rw [collect_append]
  apply mem_append_right
  apply mem_append_left
  simp [acceptedBy, hresponse]

theorem notReusedAt_of_freshIds (hrun : (system Work).Admits {} ops)
    (hfresh : AtEveryStep FreshIdAt ops) : AtEveryStep NotReusedAt ops := by
  intro before op after hops
  have hadmits : (system Work).Admits {} before := by
    rw [hops, admits_append] at hrun
    exact hrun.1
  have hprefix : AtEveryStep FreshIdAt before := by
    intro first step rest hbefore
    exact hfresh first step (rest ++ op :: after) (by simp [hops, hbefore])
  have hbalanced := balanced_of_admits hadmits
  have hdisjoint := removedIds_disjoint hadmits hprefix
  constructor
  · rintro turn ⟨now, earlier, original, henqueue, haccepts, hid, _⟩
    have hmem : turn.turn.id ∈ (accepted before).map contentId :=
      hid ▸ mem_map_of_mem haccepts.mem_accepted
    rw [← hbalanced.balance, map_append, ← ids_eq_map_content] at hmem
    exact (mem_append.mp hmem).resolve_left (hfresh before op after hops _ now turn henqueue)
  · rintro head rest ⟨lease, _, _, hpending⟩ hlast
    have hremoved : head.turn.id ∈ removedIds before := by
      rw [hbalanced.acknowledged] at hlast
      obtain ⟨last, hgetLast, hid⟩ := Option.map_eq_some_iff.mp hlast
      exact hid ▸ mem_map_of_mem (mem_of_getLast? hgetLast)
    exact hdisjoint _ hremoved (by simp [hpending, ids])

/-- **Exactly when turn ids are single-use.**  In a run without keys, every resubmission of an
accepted id within 24 hours is answered as a duplicate and every acknowledgment of the head removes
it, if and only if ids are resubmitted only while they are pending and no head acknowledged has
the id acknowledged last.  Runs that never submit the id of a removed turn are of this kind. -/
theorem turn_ids_single_use_iff_not_reused (ops : List (Op Work))
    (hrun : (system Work).Admits {} ops) (hkeyless : ∀ op ∈ ops, Keyless op) :
    (AtEveryStep SingleUseAt ops ↔ AtEveryStep NotReusedAt ops) ∧
      (AtEveryStep FreshIdAt ops → AtEveryStep SingleUseAt ops) := by
  have hstep (before : List (Op Work)) (op : Op Work) (after : List (Op Work))
      (hops : ops = before ++ op :: after) : SingleUseAt before op ↔ NotReusedAt before op := by
    have hop : Keyless op := hkeyless op (by simp [hops])
    apply and_congr
    · refine forall_congr' fun turn ↦ imp_congr_right fun hresubmits ↦ ?_
      obtain ⟨now, _, _, rfl, _⟩ := hresubmits
      exact enqueue_duplicate_iff (hop _ _ _ rfl)
    · refine forall₂_congr fun head rest ↦ imp_congr_right fun hacknowledges ↦ ?_
      obtain ⟨lease, rfl, hcheck, hpending⟩ := hacknowledges
      exact acknowledge_removes_iff hcheck hpending
  have hiff : AtEveryStep SingleUseAt ops ↔ AtEveryStep NotReusedAt ops :=
    forall₄_congr hstep
  exact ⟨hiff, fun hfresh ↦ hiff.mpr (notReusedAt_of_freshIds hrun hfresh)⟩

/-- A turn that is resubmitted while it is pending, and then acknowledged. -/
theorem turn_ids_single_use_iff_not_reused_pending : let ops : List (Op String) := [
      .enqueue .ok 0 ⟨⟨1, 9⟩, "work", some "alice", {}⟩,
      .enqueue .ok 60 ⟨⟨1, 9⟩, "work", some "alice", {}⟩,
      .claim 7,
      .acknowledge .ok 7 1]
    AtEveryStep SingleUseAt ops ↔ AtEveryStep NotReusedAt ops := by
  intro ops
  refine (turn_ids_single_use_iff_not_reused ops (by decide) ?_).1
  intro op hmem store now turn hop
  subst hop
  simp only [ops, mem_cons, not_mem_nil, or_false, reduceCtorEq, Op.enqueue.injEq] at hmem
  rcases hmem with ⟨-, -, rfl⟩ | ⟨-, -, rfl⟩ <;> rfl

/-- A turn acknowledged and submitted again, both within a minute. -/
def reusedTurn : List (Op String) := [
  .enqueue .ok 0 ⟨⟨1, 9⟩, "work", some "alice", {}⟩,
  .claim 7,
  .acknowledge .ok 7 1,
  .enqueue .ok 60 ⟨⟨1, 9⟩, "work", some "alice", {}⟩,
  .acknowledge .ok 7 1]

/-- The resubmission is accepted as a new turn, and acknowledging it leaves it at the head. -/
theorem turn_ids_not_single_use :
    (system String).Admits {} reusedTurn ∧ (∀ op ∈ reusedTurn, Keyless op) ∧
      ¬ AtEveryStep SingleUseAt reusedTurn ∧
      ((system String).exec {} (reusedTurn.take 4)).stored.pending =
        ((system String).exec {} reusedTurn).stored.pending ∧
      ids ((system String).exec {} reusedTurn).stored.pending = [1] := by
  have hkeyless : ∀ op ∈ reusedTurn, Keyless op := by
    intro op hmem store now turn hop
    subst hop
    simp only [reusedTurn, mem_cons, not_mem_nil, or_false, reduceCtorEq, false_or,
      Op.enqueue.injEq] at hmem
    rcases hmem with ⟨-, -, rfl⟩ | ⟨-, -, rfl⟩ <;> rfl
  refine ⟨by decide, hkeyless, ?_, by decide, by decide⟩
  intro hsingle
  have hresubmits : Resubmits (reusedTurn.take 3)
      (.enqueue .ok 60 ⟨⟨1, 9⟩, "work", some "alice", {}⟩) ⟨⟨1, 9⟩, "work", some "alice", {}⟩ :=
    ⟨60, 0, ⟨⟨1, 9⟩, "work", some "alice", {}⟩, rfl,
      ⟨[], .ok, [.claim 7, .acknowledge .ok 7 1], rfl, by decide⟩, rfl, by decide⟩
  obtain ⟨record, hrecord⟩ :=
    (hsingle (reusedTurn.take 3) _ [.acknowledge .ok 7 1] rfl).1 _ hresubmits
  cases hrecord

end Exo.TurnCoordinator.Deduplication
