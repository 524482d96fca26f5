import Exo.BasicExecutor.Executor

/-!
# The cached prompt history

The cache holds the history of the log up to its cursor, with the calls that were pending there
already answered by a cancellation.  What the cache returns is therefore the history of the whole
log as long as nothing tells the two apart: no call was pending at the cursor, or the first entry
after it is a message that would have flushed the pending calls.
-/

namespace Exo.BasicExecutor.PromptHistory

open Library TurnCoordinator List

/-- The id of an event is its position. -/
def Numbered (log : Log) : Prop := log.map (·.id) = List.range log.length

variable {log : Log} {event : Event} {n : ℕ} {s : Conversation}

section
variable (hnumbered : Numbered log)
include hnumbered

theorem Numbered.append (turn : Option TurnRecord) (batch : List EventData) :
    Numbered (append log turn batch) := by
  unfold Numbered at hnumbered ⊢
  unfold BasicExecutor.append
  rw [map_append, hnumbered, length_append, length_mapIdx, range_add]
  congr 1
  apply ext_getElem <;> simp

theorem Numbered.id_eq {index : ℕ} (hevent : log[index]? = some event) : event.id = index := by
  have hid : (log.map (·.id))[index]? = some event.id := by
    rw [List.getElem?_map, hevent]
    rfl
  obtain ⟨hlt, -⟩ := List.getElem?_eq_some_iff.mp hevent
  rw [hnumbered, List.getElem?_range hlt] at hid
  exact (Option.some.inj hid).symm

theorem Numbered.lt_of_mem_take (hevent : event ∈ log.take n) : event.id < n := by
  obtain ⟨index, hindex⟩ := mem_iff_getElem?.mp hevent
  rw [getElem?_take] at hindex
  split at hindex
  · rename_i hlt
    rw [hnumbered.id_eq hindex]
    exact hlt
  · cases hindex

theorem Numbered.le_of_mem_drop (hevent : event ∈ log.drop n) : n ≤ event.id := by
  obtain ⟨index, hindex⟩ := mem_iff_getElem?.mp hevent
  rw [getElem?_drop] at hindex
  rw [hnumbered.id_eq hindex]
  omega

theorem Numbered.mem_drop (hevent : event ∈ log) (hle : n ≤ event.id) : event ∈ log.drop n := by
  rw [← take_append_drop n log, mem_append] at hevent
  refine hevent.resolve_left (fun htake ↦ ?_)
  have hlt := hnumbered.lt_of_mem_take htake
  omega

theorem Numbered.id_lt_length (hevent : event ∈ log) : event.id < log.length := by
  rw [← take_length (l := log)] at hevent
  exact hnumbered.lt_of_mem_take hevent

theorem Numbered.sorted : log.Pairwise (fun first second ↦ first.id < second.id) := by
  rw [← pairwise_map (f := fun event : Event ↦ event.id), hnumbered]
  exact pairwise_lt_range

end

/-- The number of events up to a cursor. -/
def cutLength : Option ℕ → ℕ
  | none => 0
  | some cursor => cursor + 1

theorem cutLength_some (cursor : ℕ) : cutLength (some cursor) = cursor + 1 := rfl

def isHistory (event : Event) : Bool := historyKinds.contains event.data.kind

theorem historyEvents_eq (hnumbered : Numbered log) (cursor : Option ℕ) :
    (historyEvents log cursor).1 = (log.drop (cutLength cursor)).filter isHistory := by
  let query : EventQuery := { cursor, types := some historyKinds }
  have haccepts (event : Event) :
      query.accepts event = (isHistory event && cursor.all (fun cursor ↦ cursor < event.id)) := by
    simp [query, EventQuery.accepts, isHistory]
  have htake : (log.take (cutLength cursor)).filter query.accepts = [] := by
    apply filter_eq_nil_iff.mpr
    intro event hevent
    have hlt := hnumbered.lt_of_mem_take hevent
    rw [haccepts]
    cases cursor with
    | none => exact absurd hlt (Nat.not_lt_zero _)
    | some cursor =>
      have hnot : ¬ cursor < event.id := by
        rw [cutLength_some] at hlt
        omega
      simp [hnot]
  have hdrop : (log.drop (cutLength cursor)).filter query.accepts =
      (log.drop (cutLength cursor)).filter isHistory := by
    apply filter_congr
    intro event hevent
    have hle := hnumbered.le_of_mem_drop hevent
    rw [haccepts]
    cases cursor with
    | none => simp
    | some cursor =>
      have hlt : cursor < event.id := by
        rw [cutLength_some] at hle
        omega
      simp [hlt]
  calc
    (historyEvents log cursor).1 = log.filter query.accepts := rfl
    _ = (log.take (cutLength cursor) ++ log.drop (cutLength cursor)).filter query.accepts := by
      rw [take_append_drop]
    _ = (log.drop (cutLength cursor)).filter isHistory := by
      rw [filter_append, htake, hdrop, nil_append]

/-- The cursor a read leaves. -/
def cursorAfter (log : Log) (cursor : Option ℕ) : Option ℕ :=
  (historyEvents log cursor).2.or cursor

/-- Behind the cursor a read leaves there is no history event. -/
theorem cursorAfter_spec (hnumbered : Numbered log) {cursor : Option ℕ}
    (hle : cutLength cursor ≤ log.length) :
    cutLength (cursorAfter log cursor) ≤ log.length ∧
      ∀ event ∈ log.drop (cutLength (cursorAfter log cursor)), isHistory event = false := by
  have hevents := historyEvents_eq hnumbered cursor
  have hlast : (historyEvents log cursor).2 =
      ((log.drop (cutLength cursor)).filter isHistory).getLast?.map (·.id) := by
    rw [← hevents]
    rfl
  unfold cursorAfter
  rw [hlast]
  rcases eq_nil_or_concat ((log.drop (cutLength cursor)).filter isHistory) with
    hnil | ⟨init, last, hconcat⟩
  · rw [hnil]
    refine ⟨hle, ?_⟩
    intro event hevent
    exact Bool.not_eq_true _ ▸ filter_eq_nil_iff.mp hnil event hevent
  · rw [concat_eq_append] at hconcat
    have hmem : last ∈ (log.drop (cutLength cursor)).filter isHistory := by simp [hconcat]
    have hlog := mem_of_mem_drop (mem_filter.mp hmem).1
    have hbound := hnumbered.le_of_mem_drop (mem_filter.mp hmem).1
    rw [hconcat, getLast?_concat]
    refine ⟨hnumbered.id_lt_length hlog, ?_⟩
    intro event hevent
    by_contra hhistory
    have hlt := hnumbered.le_of_mem_drop hevent
    -- A later history event would itself have been read, and read before the last one.
    have hdrop : event ∈ log.drop (cutLength cursor) := by
      apply hnumbered.mem_drop (mem_of_mem_drop hevent)
      simp only [Option.map_some, Option.some_or, cutLength_some] at hlt
      omega
    have hread : event ∈ init ++ [last] := by
      rw [← hconcat]
      exact mem_filter.mpr ⟨hdrop, by simpa using hhistory⟩
    have hsorted : (init ++ [last]).Pairwise (fun first second ↦ first.id < second.id) := by
      rw [← hconcat]
      exact (hnumbered.sorted.drop).filter _
    simp only [Option.map_some, Option.some_or, cutLength_some] at hlt
    rcases mem_append.mp hread with hinit | hlast
    · have hbefore := (pairwise_append.mp hsorted).2.2 event hinit last (by simp)
      omega
    · rw [mem_singleton.mp hlast] at hlt
      omega

/-- The history of the first events of the log, before its pending calls are flushed. -/
def historyAt (log : Log) (n : ℕ) : History := History.extend {} ((log.take n).map (·.data))

theorem extend_of_no_history (h : History) {events : List Event}
    (hnone : ∀ event ∈ events, isHistory event = false) : h.extend (events.map (·.data)) = h := by
  rw [← History.extend_filter, filter_map]
  have hnil : events.filter isHistory = [] := by
    apply filter_eq_nil_iff.mpr
    intro event hevent
    simp [hnone event hevent]
  change h.extend ((events.filter isHistory).map (·.data)) = h
  rw [hnil]
  rfl

theorem historyAt_of_no_history (hnone : ∀ event ∈ log.drop n, isHistory event = false) :
    historyAt log n = History.extend {} (log.map (·.data)) := by
  calc
    historyAt log n = (historyAt log n).extend ((log.drop n).map (·.data)) :=
      (extend_of_no_history _ hnone).symm
    _ = History.extend {} ((log.take n ++ log.drop n).map (·.data)) := by
      rw [map_append, History.extend_append]
      rfl
    _ = History.extend {} (log.map (·.data)) := by rw [take_append_drop]

theorem historyAt_append (hle : n ≤ log.length) (turn : Option TurnRecord)
    (batch : List EventData) : historyAt (append log turn batch) n = historyAt log n := by
  unfold historyAt
  rw [take_append_log log turn batch hle]

theorem materializeConversationMessages_eq (log : Log) : materializeConversationMessages log =
      (History.extend {} (log.map (·.data))).flushDanglingToolResults.messages := by
  have hall : (getEvents log {}).1 = log := by
    apply filter_eq_self.mpr
    intro event _
    rfl
  unfold materializeConversationMessages extendMessageHistory
  rw [hall]

/-- No call was pending at the cursor, or what follows opens with a message that flushes it. -/
def undisturbed (log : Log) (cursor : Option ℕ) : Bool :=
  let h := historyAt log (cutLength cursor)
  h.pending = [] || h.opensWithMessage ((log.drop (cutLength cursor)).map (·.data))

/-- The entry is the flushed history at its cursor. -/
structure Caches (log : Log) (entry : HistoryCacheEntry) : Prop where
  bound : cutLength entry.cursor ≤ log.length
  messages : entry.messages =
    (historyAt log (cutLength entry.cursor)).flushDanglingToolResults.messages
  toolCallNames : entry.toolCallNames = (historyAt log (cutLength entry.cursor)).toolCallNames

/-- An undisturbed read extends the cache to the history of the whole log. -/
theorem Caches.extended (hnumbered : Numbered log) {entry : HistoryCacheEntry}
    (hcaches : Caches log entry) (hundisturbed : undisturbed log entry.cursor = true) :
    extendMessageHistory entry.messages entry.toolCallNames
        ((historyEvents log entry.cursor).1.map (·.data)) =
      (History.extend {} (log.map (·.data))).flushDanglingToolResults := by
  let n := cutLength entry.cursor
  let h := historyAt log n
  have hentry : (⟨entry.messages, entry.toolCallNames, []⟩ : History) =
      h.flushDanglingToolResults := by
    rw [hcaches.messages, hcaches.toolCallNames]
    rfl
  have hevents : (historyEvents log entry.cursor).1.map (·.data) =
      ((log.drop n).map (·.data)).filter (fun event ↦ historyKinds.contains event.kind) := by
    rw [historyEvents_eq hnumbered, filter_map]
    rfl
  have hcut :
      (h.flushDanglingToolResults.extend ((log.drop n).map (·.data))).flushDanglingToolResults
      = (h.extend ((log.drop n).map (·.data))).flushDanglingToolResults := by
    simp only [undisturbed, Bool.or_eq_true, decide_eq_true_eq] at hundisturbed
    rcases hundisturbed with hnil | hopens
    · rw [History.flush_of_pending_nil hnil]
    · exact History.flush_extend_of_opensWithMessage h _ hopens
  calc
    extendMessageHistory entry.messages entry.toolCallNames
        ((historyEvents log entry.cursor).1.map (·.data))
        = (h.flushDanglingToolResults.extend
            ((log.drop n).map (·.data))).flushDanglingToolResults := by
      unfold extendMessageHistory
      rw [hevents, History.extend_filter, hentry]
    _ = (h.extend ((log.drop n).map (·.data))).flushDanglingToolResults := hcut
    _ = (History.extend {} ((log.take n ++ log.drop n).map (·.data))).flushDanglingToolResults := by
      rw [map_append, History.extend_append]
      rfl
    _ = (History.extend {} (log.map (·.data))).flushDanglingToolResults := by
      rw [take_append_drop]

/-- The cache entry, if there is one, is the history at its cursor. -/
structure Cached (s : Conversation) : Prop where
  numbered : Numbered s.log
  caches : ∀ entry, s.cache = some entry → Caches s.log entry

/-- Whether the next step of the execution reads the history. -/
def reads (execution : Execution) : Bool :=
  match execution.stage with
  | .round round => !execution.config.maxToolRoundTrips.any (fun limit ↦ limit < round)
  | _ => false

/-- Every read of the history is undisturbed. -/
def Undisturbed (s : Conversation) : Label → Prop
  | .step .proceed => ∀ execution ∈ s.execution, reads execution = true →
      ∀ entry ∈ s.cache, undisturbed s.log entry.cursor = true
  | _ => True

instance (s : Conversation) (label : Label) : Decidable (Undisturbed s label) :=
  match label with
  | .step .proceed => inferInstanceAs (Decidable (∀ execution ∈ s.execution, _))
  | .step (.complete _) | .step (.fail _) | .step (.ask _) | .step (.output _) | .begin _ _ _
  | .recover _ _ | .stop | .suspend | .crash | .respond _ _ | .deliver _ | .conclude _ _
  | .note _ _ => isTrue trivial

theorem Caches.append {entry : HistoryCacheEntry} (hcaches : Caches log entry)
    (turn : Option TurnRecord) (batch : List EventData) : Caches (append log turn batch) entry := by
  refine ⟨Nat.le_trans hcaches.bound (length_le_append log turn batch), ?_, ?_⟩
  · rw [historyAt_append hcaches.bound]
    exact hcaches.messages
  · rw [historyAt_append hcaches.bound]
    exact hcaches.toolCallNames

/-- Appends leave the cached history where it is. -/
theorem Cached.of_append {s' : Conversation} (hs : Cached s) {turn : Option TurnRecord}
    {batch : List EventData} (hlog : s'.log = append s.log turn batch)
    (hcache : ∀ entry, s'.cache = some entry → s.cache = some entry) : Cached s' := by
  constructor
  · rw [hlog]
    exact hs.numbered.append turn batch
  · intro entry hentry
    rw [hlog]
    exact (hs.caches entry (hcache entry hentry)).append turn batch

/-- What an undisturbed read returns and leaves. -/
theorem Cached.read (hs : Cached s) (instructions : List Message)
    (hundisturbed : ∀ entry ∈ s.cache, undisturbed s.log entry.cursor = true) :
    (materializePromptHistory s.cache s.log instructions).1 =
        instructions ++ materializeConversationMessages s.log ∧
      Caches s.log (materializePromptHistory s.cache s.log instructions).2 := by
  -- Without an entry the read starts from an empty history, which is one too.
  have hcaches : Caches s.log (s.cache.getD {}) := by
    cases hcache : s.cache with
    | none => exact ⟨Nat.zero_le _, rfl, rfl⟩
    | some entry => exact hs.caches entry hcache
  have hcut : undisturbed s.log (s.cache.getD {}).cursor = true := by
    cases hcache : s.cache with
    | none => rfl
    | some entry => exact hundisturbed entry hcache
  have hextended := hcaches.extended hs.numbered hcut
  obtain ⟨hbound, hnone⟩ := cursorAfter_spec hs.numbered hcaches.bound
  have hafter := historyAt_of_no_history hnone
  constructor
  · simp only [materializePromptHistory]
    rw [hextended, materializeConversationMessages_eq]
  · refine ⟨hbound, ?_, ?_⟩
    · simp only [materializePromptHistory]
      rw [hextended]
      exact congrArg (fun h : History ↦ h.flushDanglingToolResults.messages) hafter.symm
    · simp only [materializePromptHistory]
      rw [hextended]
      exact congrArg (fun h : History ↦ h.flushDanglingToolResults.toolCallNames) hafter.symm

/-- Only a read writes the cache. -/
theorem advance_cache (log : Log) (cache : Option HistoryCacheEntry) (execution : Execution)
    (choice : Choice) :
    (advance log cache execution choice).cache = none ∨
      (choice = .proceed ∧ reads execution = true ∧
        (advance log cache execution choice).batch = [] ∧
        (advance log cache execution choice).cache =
          some (materializePromptHistory cache log execution.config.instructions).2) := by
  unfold advance
  split
  · split <;> exact .inl rfl
  · split <;> exact .inl rfl
  · split <;> exact .inl rfl
  · rename_i round hstage
    split
    · exact .inl rfl
    · rename_i hlimit
      exact .inr ⟨rfl, by simpa [reads, hstage] using hlimit, rfl, rfl⟩
  · dsimp only
    split <;> exact .inl rfl
  · refine .inl ?_
    unfold advanceTool
    split <;> rfl
  · exact .inl rfl

theorem Cached.step (hs : Cached s) {label : Label} (hlabel : Undisturbed s label) :
    Cached (s.next label) := by
  cases label with
  | begin turn input config | conclude turn data | note turn kind =>
    exact hs.of_append rfl (fun _ ↦ id)
  | recover turn config | stop | suspend => exact ⟨hs.numbered, hs.caches⟩
  | step choice =>
    simp only [Conversation.next]
    split
    · rename_i execution hexecution
      rcases advance_cache s.log s.cache execution choice with
        hnone | ⟨rfl, hreads, hbatch, hcache⟩
      · apply hs.of_append rfl
        intro entry hentry
        simpa [Conversation.apply, hnone] using hentry
      · obtain ⟨-, hcaches⟩ := hs.read execution.config.instructions
          (hlabel execution hexecution hreads)
        have hlog : append s.log (some execution.turn)
            (advance s.log s.cache execution .proceed).batch = s.log := by
          rw [hbatch]
          simp [append]
        constructor
        · simp only [Conversation.apply]
          rw [hlog]
          exact hs.numbered
        · intro entry hentry
          simp only [Conversation.apply, hcache, Option.some_or] at hentry
          cases hentry
          simp only [Conversation.apply]
          rw [hlog]
          exact hcaches
    · exact hs
  | crash => exact ⟨hs.numbered, by simp [Conversation.next]⟩
  | respond turn body =>
    simp only [Conversation.next]
    split
    · exact ⟨hs.numbered, hs.caches⟩
    · exact hs
  | deliver index =>
    simp only [Conversation.next]
    split
    · exact hs.of_append rfl (fun _ ↦ id)
    · exact hs

/-- **The incremental history is the full rebuild.**  In every run in which each read of the history
is undisturbed, with any turns, crashes and recoveries: wherever `run_turn_loop` reads the history,
the cache gives the messages of the whole log in one pass. -/
theorem prompt_history_is_full_rebuild (labels : List Label)
    (hrun : (Conversation.system.restrict Undisturbed).Admits {} labels) :
    let s := Conversation.system.exec {} labels
    ∀ execution, s.execution = some execution → reads execution = true →
      Undisturbed s (.step .proceed) →
        (materializePromptHistory s.cache s.log execution.config.instructions).1 =
          execution.config.instructions ++ materializeConversationMessages s.log := by
  intro s execution hexecution hreads hundisturbed
  have hinit : Cached {} := ⟨rfl, by simp⟩
  have hcached : Cached s := by
    refine System.invariant_of_restrict Cached ?_ hinit hrun
    exact fun state label hstate _ hlabel ↦ hstate.step hlabel
  exact (hcached.read execution.config.instructions (hundisturbed execution hexecution hreads)).1

/-- The model calls `x` with arguments that cannot be parsed, so `x` is pending when the history is
read again; the next response opens with a message. -/
theorem prompt_history_is_full_rebuild_after_invalid_call : let labels : List Label := [
      .begin ⟨1, 9⟩ [.user "go"] {},
      .step .proceed,
      .step (.complete ⟨[.assistant (.array [.toolCall "x" "read" (.invalid "["),
        .toolCall "y" "read" (.valid "")]) none], [⟨"y", ⟨"read", "", none⟩⟩], true⟩),
      .step .proceed,
      .step .proceed,
      .step (.output (.ok (.json "1"))),
      .step .proceed,
      .step .proceed,
      .step (.complete ⟨[.assistant (.string "once more") none],
        [⟨"z", ⟨"write", "", none⟩⟩], true⟩),
      .step .proceed,
      .step .proceed,
      .step (.output (.error "disk full")),
      .step .proceed]
    let s := Conversation.system.exec {} labels
    (materializePromptHistory s.cache s.log []).1 = materializeConversationMessages s.log := by
  intro labels s
  have hread : s.execution.map (fun execution ↦ (execution.config.instructions, reads execution)) =
      some ([], true) := by decide +kernel
  obtain ⟨execution, hexecution, heq⟩ := Option.map_eq_some_iff.mp hread
  obtain ⟨hinstructions, hreads⟩ := Prod.mk.inj heq
  have hsame := prompt_history_is_full_rebuild labels (by decide +kernel) execution hexecution
    hreads (by decide +kernel)
  rw [hinstructions] at hsame
  exact hsame

/-- If the next response has calls only, its first call comes before the cancellation of `x` in one
pass over the log and behind it in the cache. -/
theorem prompt_history_is_not_full_rebuild : ¬ ∀ labels, Conversation.system.Admits {} labels →
      let s := Conversation.system.exec {} labels
      ∀ execution, s.execution = some execution → reads execution = true →
        (materializePromptHistory s.cache s.log execution.config.instructions).1 =
          execution.config.instructions ++ materializeConversationMessages s.log := by
  intro hall
  let labels : List Label := [
    .begin ⟨1, 9⟩ [.user "go"] {},
    .step .proceed,
    .step (.complete ⟨[.assistant (.array [.toolCall "x" "read" (.invalid "["),
      .toolCall "y" "read" (.valid "")]) none], [⟨"y", ⟨"read", "", none⟩⟩], true⟩),
    .step .proceed,
    .step .proceed,
    .step (.output (.ok (.json "1"))),
    .step .proceed,
    .step .proceed,
    .step (.complete ⟨[], [⟨"z", ⟨"write", "", none⟩⟩], true⟩),
    .step .proceed,
    .step .proceed,
    .step (.output (.ok (.json "2"))),
    .step .proceed]
  have hread : (Conversation.system.exec {} labels).execution.map (fun execution ↦
      (execution.config.instructions, reads execution)) = some ([], true) := by decide +kernel
  obtain ⟨execution, hexecution, heq⟩ := Option.map_eq_some_iff.mp hread
  obtain ⟨hinstructions, hreads⟩ := Prod.mk.inj heq
  have hsame := hall labels (by decide +kernel) execution hexecution hreads
  rw [hinstructions] at hsame
  exact absurd hsame (by decide +kernel)

end Exo.BasicExecutor.PromptHistory
