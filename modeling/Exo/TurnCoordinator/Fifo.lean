import Exo.TurnCoordinator.Operations

/-!
# First in, first out, without loss or duplication

The pending list is a suffix of the list of accepted submissions, and the turns removed so far are
the matching prefix.  Operations may fail at the store, interrupt the head, suspend and resume
entries, or repeat an acknowledgment; none of this reorders, drops, duplicates or rewrites an
accepted turn.

An entry's content is what its submitter supplied: the turn, the work and the principal.  Its
`started` and `control` fields belong to the coordinator and do change.
-/

namespace Exo.TurnCoordinator.Fifo

open Library Coordinator List System

variable {Work : Type}

/-- The submitter's part of a queue entry or of a submission. -/
abbrev Content (Work : Type) := TurnRecord × Work × Option String

def content (entry : QueuedTurn Work) : Content Work := (entry.turn, entry.work, entry.principal)

def submitted (turn : TurnSubmission Work) : Content Work := (turn.turn, turn.work, turn.principal)

def contentId (content : Content Work) : TurnId := content.1.id

def ids (pending : List (QueuedTurn Work)) : List TurnId := pending.map (·.turn.id)

theorem ids_eq_map_content (pending : List (QueuedTurn Work)) :
    ids pending = (pending.map content).map contentId := by
  simp [ids, content, contentId]

section
variable (c : Coordinator Work) (op : Op Work)

/-- The submission this step answers with `duplicate = false`. -/
def acceptedBy : List (Content Work) :=
  match op, (c.perform op).1 with
  | .enqueue _ _ turn, .accepted ⟨_, false⟩ => [submitted turn]
  | _, _ => []

/-- The entries of `before` whose id is not pending any more. -/
def departures (before after : List (QueuedTurn Work)) : List (QueuedTurn Work) :=
  before.filter (fun entry ↦ entry.turn.id ∉ ids after)

/-- The entries this step takes out of the queue. -/
def removedBy : List (Content Work) :=
  (departures c.stored.pending (c.perform op).2.stored.pending).map content

end

section
variable (ops : List (Op Work))

/-- All submissions accepted along a run from the empty queue. -/
def accepted : List (Content Work) :=
  (system Work).collect acceptedBy {} ops

/-- All turns removed along a run from the empty queue. -/
def popped : List (Content Work) :=
  (system Work).collect removedBy {} ops

/-- The turn ids the submissions of a run carry. -/
def submissionIds : List TurnId :=
  ops.filterMap (fun op ↦
    match op with
    | .enqueue _ _ turn => some turn.turn.id
    | _ => none)

end

/-- The contents of the queue stay, grow by the accepted submission, or lose their head. -/
inductive ContentEffect (c : Coordinator Work) (op : Op Work) (response : Response Work)
    (after : TurnQueueState Work) : Prop where
  | same (hcontent : after.pending.map content = c.stored.pending.map content)
      (hacknowledged : after.acknowledged = c.stored.acknowledged)
      (hresponse : ∀ turn, response ≠ .accepted ⟨turn, false⟩)
  | append {now : ℤ} (turn : TurnSubmission Work) (hop : op = .enqueue .ok now turn)
      (hresponse : response = .accepted ⟨turn.turn, false⟩)
      (hcontent : after.pending.map content = c.stored.pending.map content ++ [submitted turn])
      (hacknowledged : after.acknowledged = c.stored.acknowledged)
      (hnew : turn.turn.id ∉ ids c.stored.pending)
  | pop {store : StoreOutcome} {lease : LeaseIdentity} (head : QueuedTurn Work)
      (rest : List (QueuedTurn Work)) (hop : op = .acknowledge store lease head.turn.id)
      (hcheck : c.mutation.check c.live lease = true)
      (hpending : c.stored.pending = head :: rest)
      (hnew : c.stored.acknowledged ≠ some head.turn.id)
      (hresponse : response = .entry rest.head?)
      (hafter : after = { c.stored with pending := rest, acknowledged := some head.turn.id })

section
variable (turn : TurnId) (control : TurnControl) (pending : List (QueuedTurn Work))

theorem map_content_setControl :
    (setControl turn control pending).map content = pending.map content := by
  unfold setControl
  rw [map_updateFirst]
  exact fun _ ↦ rfl

theorem map_content_cancelHead (c : Coordinator Work) (turn : TurnSubmission Work) :
    (c.cancelHead turn).map content = c.stored.pending.map content := by
  unfold cancelHead
  split
  · cases c.stored.pending with
    | nil => rfl
    | cons head rest => rfl
  · rfl

@[simp]
theorem content_startedHead (head : QueuedTurn Work) :
    content (startedHead head) = content head := by
  unfold startedHead
  split <;> rfl

@[simp]
theorem ids_setControl : ids (setControl turn control pending) = ids pending := by
  rw [ids_eq_map_content, map_content_setControl, ← ids_eq_map_content]

end

theorem not_mem_ids_of_duplicateOf {pending : List (QueuedTurn Work)}
    {receipts : List TurnReceipt} {turn : TurnSubmission Work}
    (hnew : duplicateOf pending receipts turn = none) : turn.turn.id ∉ ids pending := by
  unfold duplicateOf at hnew
  split at hnew
  · cases hnew
  · rename_i hfind
    rw [find?_eq_none] at hfind
    intro hmem
    obtain ⟨entry, hentry, hid⟩ := mem_map.mp hmem
    exact hfind entry hentry (by simpa using hid)

variable {c : Coordinator Work} {op : Op Work}

theorem contentEffect_of_queueEffect {response : Response Work} {after : TurnQueueState Work}
    (heffect : QueueEffect c op response after) : ContentEffect c op response after := by
  cases heffect with
  | unchanged hresponse => exact .same rfl rfl hresponse
  | @admitted now turn hop hnew =>
    refine .append turn hop rfl ?_ rfl (not_mem_ids_of_duplicateOf hnew)
    simp only [acceptState, map_append, map_content_cancelHead]
    rfl
  | controlled => exact .same (map_content_setControl _ _ _) rfl (by simp)
  | started _ _ hpending => exact .same (by simp [hpending]) rfl (by simp)
  | removed hop hcheck hpending hnew => exact .pop _ _ hop hcheck hpending hnew rfl rfl

theorem perform_contentEffect (c : Coordinator Work) (op : Op Work) :
    ContentEffect c op (c.perform op).1 (c.perform op).2.stored :=
  contentEffect_of_queueEffect (perform_effect c op)

theorem departures_eq_nil {before after : List (QueuedTurn Work)}
    (hids : ∀ entry ∈ before, entry.turn.id ∈ ids after) : departures before after = [] := by
  unfold departures
  rw [filter_eq_nil_iff]
  intro entry hentry
  simpa using hids entry hentry

variable {head : QueuedTurn Work} {rest : List (QueuedTurn Work)}

theorem departures_pop (hnodup : (ids (head :: rest)).Nodup) :
    departures (head :: rest) rest = [head] := by
  have hhead : head.turn.id ∉ ids rest := by
    simp only [ids, map_cons, nodup_cons] at hnodup
    exact hnodup.1
  have hrest : departures rest rest = [] :=
    departures_eq_nil fun entry hentry ↦ mem_map_of_mem hentry
  unfold departures at hrest ⊢
  rw [filter_cons_of_pos (by simpa using hhead), hrest]

theorem removedBy_eq_nil {extra : List (Content Work)}
    (hcontent : (c.perform op).2.stored.pending.map content =
      c.stored.pending.map content ++ extra) : removedBy c op = [] := by
  unfold removedBy
  rw [departures_eq_nil, map_nil]
  intro entry hentry
  rw [ids_eq_map_content, hcontent, map_append, ← ids_eq_map_content]
  exact mem_append_left _ (mem_map_of_mem hentry)

theorem removedBy_pop (hnodup : (ids c.stored.pending).Nodup)
    (hpending : c.stored.pending = head :: rest) (hafter : (c.perform op).2.stored.pending = rest) :
    removedBy c op = [content head] := by
  unfold removedBy
  rw [hafter, hpending, departures_pop (hpending ▸ hnodup)]
  rfl

/-- The content removed and the content accepted by a step account for the change of the queue. -/
theorem step_balance (hnodup : (ids c.stored.pending).Nodup) (op : Op Work) :
    removedBy c op ++ (c.perform op).2.stored.pending.map content =
      c.stored.pending.map content ++ acceptedBy c op := by
  rcases perform_contentEffect c op with
    ⟨hcontent, _, hresponse⟩ | ⟨turn, hop, hresponse, hcontent, _, _⟩ |
    ⟨head, rest, hop, _, hpending, _, hresponse, hafter⟩
  · have haccepted : acceptedBy c op = [] := by
      unfold acceptedBy
      split
      · rename_i heq
        exact absurd heq (hresponse _)
      · rfl
    have hremoved : removedBy c op = [] :=
      removedBy_eq_nil (hcontent.trans (append_nil _).symm)
    rw [haccepted, hremoved, hcontent, append_nil, nil_append]
  · have haccepted : acceptedBy c op = [submitted turn] := by
      subst hop
      simp only [acceptedBy, hresponse]
    rw [haccepted, removedBy_eq_nil hcontent, hcontent, nil_append]
  · have haccepted : acceptedBy c op = [] := by simp [acceptedBy, hop]
    rw [haccepted, removedBy_pop hnodup hpending (by rw [hafter]), hafter, hpending, append_nil]
    rfl

/-- An accepted submission is the one the step carries. -/
theorem acceptedBy_sublist (c : Coordinator Work) (op : Op Work) :
    ((acceptedBy c op).map contentId).Sublist (submissionIds [op]) := by
  unfold acceptedBy
  split
  · simp [submissionIds, submitted, contentId]
  · simp

/-- The last turn removed is the one the record calls acknowledged. -/
theorem step_acknowledged (hnodup : (ids c.stored.pending).Nodup) (op : Op Work) :
    (c.perform op).2.stored.acknowledged =
      ((removedBy c op).getLast?.map contentId).or c.stored.acknowledged := by
  rcases perform_contentEffect c op with
    ⟨hcontent, hacknowledged, _⟩ | ⟨turn, _, _, hcontent, hacknowledged, _⟩ |
    ⟨head, rest, _, _, hpending, _, _, hafter⟩
  · rw [removedBy_eq_nil (hcontent.trans (append_nil _).symm), hacknowledged]
    rfl
  · rw [removedBy_eq_nil hcontent, hacknowledged]
    rfl
  · rw [removedBy_pop hnodup hpending (by rw [hafter]), hafter]
    rfl

theorem submissionIds_append (first second : List (Op Work)) :
    submissionIds (first ++ second) = submissionIds first ++ submissionIds second :=
  filterMap_append ..

theorem nodup_ids_step (hnodup : (ids c.stored.pending).Nodup) (op : Op Work) :
    (ids (c.perform op).2.stored.pending).Nodup := by
  rcases perform_contentEffect c op with
    ⟨hcontent, _, _⟩ | ⟨turn, _, _, hcontent, _, hnew⟩ | ⟨head, rest, _, _, hpending, _, _, hafter⟩
  · rwa [ids_eq_map_content, hcontent, ← ids_eq_map_content]
  · rw [ids_eq_map_content, hcontent, map_append, ← ids_eq_map_content]
    exact concat_eq_append ▸ hnodup.concat hnew
  · rw [hpending] at hnodup
    rw [hafter]
    exact hnodup.of_cons

/-- The invariant of a run: removals and the queue make up the acceptances. -/
structure Balanced (ops : List (Op Work)) (c : Coordinator Work) : Prop where
  nodup : (ids c.stored.pending).Nodup
  balance : popped ops ++ c.stored.pending.map content = accepted ops
  submitted : ((accepted ops).map contentId).Sublist (submissionIds ops)
  acknowledged : c.stored.acknowledged = (popped ops).getLast?.map contentId

section
variable (ops : List (Op Work))

theorem popped_snoc (op : Op Work) :
    popped (ops ++ [op]) = popped ops ++ removedBy ((system Work).exec {} ops) op :=
  collect_snoc ..

theorem accepted_snoc (op : Op Work) :
    accepted (ops ++ [op]) = accepted ops ++ acceptedBy ((system Work).exec {} ops) op :=
  collect_snoc ..

theorem balanced_of_admits {ops : List (Op Work)} (hrun : (system Work).Admits {} ops) :
    Balanced ops ((system Work).exec {} ops) := by
  refine traceInvariant Balanced {} ?_ ?_ hrun
  · exact ⟨nodup_nil, rfl, List.Sublist.refl _, rfl⟩
  intro ops op _ ih _
  constructor
  · exact nodup_ids_step ih.nodup op
  · calc
      popped (ops ++ [op]) ++ _ =
          popped ops ++ (removedBy ((system Work).exec {} ops) op ++
            (((system Work).exec {} ops).perform op).2.stored.pending.map content) := by
        rw [popped_snoc, append_assoc]
        rfl
      _ = popped ops ++ (((system Work).exec {} ops).stored.pending.map content ++
            acceptedBy ((system Work).exec {} ops) op) := by rw [step_balance ih.nodup op]
      _ = accepted (ops ++ [op]) := by
        rw [← append_assoc, ih.balance, accepted_snoc]
  · rw [accepted_snoc, map_append, submissionIds_append]
    exact ih.submitted.append (acceptedBy_sublist _ op)
  · rw [system_next, step_acknowledged ih.nodup op, popped_snoc, getLast?_append, ih.acknowledged]
    cases (removedBy ((system Work).exec {} ops) op).getLast? <;> rfl

/-- The entry with a given content id is unique in a queue with distinct ids. -/
theorem content_eq_of_id_eq {contents : List (Content Work)}
    (hnodup : (contents.map contentId).Nodup) {first second : Content Work}
    (hfirst : first ∈ contents) (hsecond : second ∈ contents)
    (hid : contentId second = contentId first) : second = first :=
  inj_on_of_nodup_map hnodup hsecond hfirst hid

/-- **First in, first out.**  Along every run from the empty queue whose submissions carry distinct
turn ids, with store calls failing anywhere, the removed turns followed by the pending ones are the
accepted submissions in order, without repetition.  A step removes at most the head, and only for
the owner; repeating the last acknowledgment changes nothing; no step rewrites an entry. -/
theorem turns_are_first_in_first_out (op : Op Work)
    (hrun : (system Work).Admits {} (ops ++ [op])) (hids : (submissionIds (ops ++ [op])).Nodup) :
    let c := (system Work).exec {} ops
    popped ops ++ c.stored.pending.map content = accepted ops ∧
      ((accepted ops).map contentId).Nodup ∧
      (removedBy c op ≠ [] → ∃ store lease head rest, op = .acknowledge store lease head.turn.id ∧
        c.mutation.check c.live lease = true ∧ c.stored.pending = head :: rest ∧
        removedBy c op = [content head] ∧ (c.perform op).2.stored.pending = rest) ∧
      (∀ store lease turn, op = .acknowledge store lease turn →
        (popped ops).getLast?.map contentId = some turn → (c.perform op).2 = c) ∧
      ∀ entry ∈ c.stored.pending, ∀ entry' ∈ (c.perform op).2.stored.pending,
        entry'.turn.id = entry.turn.id → content entry' = content entry := by
  intro c
  have hbefore := balanced_of_admits ((admits_append _ _ _ _).mp hrun).1
  have hafter : Balanced (ops ++ [op]) (c.perform op).2 := by
    have hbalanced := balanced_of_admits hrun
    rwa [exec_append] at hbalanced
  have haccepted := hids.sublist hafter.submitted
  refine ⟨hbefore.balance, ?_, ?_, ?_, ?_⟩
  · rw [accepted_snoc, map_append] at haccepted
    exact haccepted.of_append_left
  · intro hremoved
    rcases perform_contentEffect c op with
      ⟨hcontent, _, _⟩ | ⟨turn, _, _, hcontent, _, _⟩ |
      ⟨head, rest, hop, hcheck, hpending, _, _, heq⟩
    · exact absurd (removedBy_eq_nil (hcontent.trans (append_nil _).symm)) hremoved
    · exact absurd (removedBy_eq_nil hcontent) hremoved
    · have hrest : (c.perform op).2.stored.pending = rest := by rw [heq]
      exact ⟨_, _, head, rest, hop, hcheck, hpending,
        removedBy_pop hbefore.nodup hpending hrest, hrest⟩
  · intro store lease turn hop hlast
    have hacknowledged : c.stored.acknowledged = some turn := hbefore.acknowledged.trans hlast
    subst hop
    simp only [perform, acknowledge, hacknowledged, if_true]
    split
    · rfl
    split <;> rfl
  · intro entry hentry entry' hentry' hid
    refine content_eq_of_id_eq haccepted ?_ ?_ hid
    · rw [accepted_snoc, ← hbefore.balance]
      exact mem_append_left _ (mem_append_right _ (mem_map_of_mem hentry))
    · rw [← hafter.balance]
      exact mem_append_right _ (mem_map_of_mem hentry')

end

/-- A run with an interrupted head, a failed store call and a repeated acknowledgment. -/
theorem turns_are_first_in_first_out_interrupted : let ops : List (Op String) := [
      .enqueue .ok 0 ⟨⟨1, 9⟩, "first", some "alice", {}⟩,
      .claim 7,
      .enqueue .saveFails 0 ⟨⟨2, 9⟩, "lost", some "alice", {}⟩,
      .enqueue .ok 0 ⟨⟨3, 9⟩, "second", some "alice", { attention := .interrupt }⟩,
      .start .ok 7 1,
      .acknowledge .ok 7 1]
    let op : Op String := .acknowledge .ok 7 1
    (popped ops).map contentId = [1] ∧ popped ops ++
      ((system String).exec {} ops).stored.pending.map content = accepted ops ∧
      (((system String).exec {} ops).perform op).2 = (system String).exec {} ops := by
  intro ops op
  have hfifo := turns_are_first_in_first_out ops op (by decide) (by decide)
  exact ⟨by decide, hfifo.1, hfifo.2.2.2.1 .ok 7 1 rfl (by decide)⟩

end Exo.TurnCoordinator.Fifo
