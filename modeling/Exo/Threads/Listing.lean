import Mathlib.Data.List.Sort
import Mathlib.Data.List.SplitLengths
import Exo.Library.Checks
import Exo.Storage.Paths

/-!
# Listing conversations

The listing is sorted by recency, newest first, and given out in pages.  The cursor of a page is the
recency key of its last record and is looked up in the listing that the next request computes.  When
the keys are distinct the pages from the first one on are a partition of the listing, and the
cursors fall, so the loop that collects the handles never meets one that did not advance.
-/

namespace Exo.Threads

open Library List Option Storage

/-- The fields of a `ConversationRecord` that the listing reads; identifiers are time-ordered. -/
structure ListedConversation where
  id : ℕ
  latestEventId : Option ℕ

/-- `conversation_recency_key`. -/
def conversationRecencyKey (record : ListedConversation) : ℕ := record.latestEventId.getD record.id

/-- A `Uuid` as text. -/
def uuidText (id : ℕ) : String :=
  "-".intercalate (([8, 4, 4, 4, 12].splitLengths (paddedHex 32 id)).map String.ofList)

structure ListConversationsRequest where
  cursor : Option ℕ
  limit : Option ℕ

structure ListConversationsResult where
  conversations : List ListedConversation
  nextCursor : Option ℕ

section
variable (conversations : List ListedConversation)

/-- Where a page starts. -/
def pageStart : Option ℕ → Except String ℕ
  | none => .ok 0
  | some cursor =>
    match conversations.findIdx? fun record ↦ conversationRecencyKey record = cursor with
    | some index => .ok (index + 1)
    | none => .error s!"conversation cursor not found: {uuidText cursor}"

/-- `paginate_conversation_records`. -/
def paginateConversationRecords
    (request : ListConversationsRequest) : Except String ListConversationsResult := do
  let start ← pageStart conversations request.cursor
  match request.limit.filter (0 < ·) with
  | none => .ok ⟨conversations.drop start, none⟩
  | some limit =>
    let page := (conversations.drop start).take limit
    .ok ⟨page, if limit < conversations.length - start then
      page.getLast?.map conversationRecencyKey else none⟩

/-- `list_conversation_records` on the records that were read. -/
def listConversationRecords (records : List ListedConversation)
    (request : ListConversationsRequest) : Except String ListConversationsResult :=
  paginateConversationRecords (records.mergeSort fun first second ↦
      conversationRecencyKey first ≤ conversationRecencyKey second).reverse request

/-- Following `next_cursor` until it is `None`, for as many pages as there is fuel. -/
def followCursors (conversations : List ListedConversation) (limit : Option ℕ) :
    ℕ → Option ℕ → Except String (List ListConversationsResult)
  | 0, _ => .error "more pages"
  | fuel + 1, cursor => do
    let page ← paginateConversationRecords conversations ⟨cursor, limit⟩
    match page.nextCursor with
    | none => .ok [page]
    | some next => return page :: (← followCursors conversations limit fuel (some next))

/-- `list_conversation_handles`, which passes no limit. -/
def listConversationHandles (conversations : List ListedConversation) (limit : Option ℕ) :
    ℕ → Option ℕ → Except String (List ListedConversation)
  | 0, _ => .error "more pages"
  | fuel + 1, cursor => do
    let page ← paginateConversationRecords conversations ⟨cursor, limit⟩
    match page.nextCursor with
    | none => .ok page.conversations
    | some next =>
      ensure (cursor.all (next < ·)) "thread listing cursor did not advance"
      return page.conversations ++ (← listConversationHandles conversations limit fuel (some next))

/-- The recency keys are distinct and the newest record comes first. -/
def NewestFirst : Prop :=
  conversations.Pairwise fun first second ↦
    conversationRecencyKey second < conversationRecencyKey first

end

instance (conversations : List ListedConversation) : Decidable (NewestFirst conversations) :=
  inferInstanceAs (Decidable (List.Pairwise _ _))

/-- What the pages of a listing should be. -/
structure PagesPartition (conversations : List ListedConversation) : Prop where
  /-- The pages end, they concatenate to the listing, and their cursors fall. -/
  pages : ∀ limit, 0 < limit → ∃ pages : List ListConversationsResult,
    (∀ fuel, conversations.length < fuel →
      followCursors conversations (some limit) fuel none = .ok pages) ∧
    pages.flatMap (·.conversations) = conversations ∧
    (pages.filterMap (·.nextCursor)).Pairwise (· > ·)
  handles : ∀ limit fuel, conversations.length < fuel →
    listConversationHandles conversations limit fuel none = .ok conversations
  /-- Without a limit, or with limit 0, the page is all that follows the cursor. -/
  remainder : ∀ limit, limit = none ∨ limit = some 0 →
    paginateConversationRecords conversations ⟨none, limit⟩ = .ok ⟨conversations, none⟩ ∧
      ∀ before record after, conversations = before ++ record :: after →
        paginateConversationRecords conversations ⟨some (conversationRecencyKey record), limit⟩ =
          .ok ⟨after, none⟩

section Page
variable {conversations before after : List ListedConversation} {limit : ℕ}

/-- The cursor is the one after some first records. -/
def CursorAfter (before : List ListedConversation) (cursor : Option ℕ) : Prop :=
  cursor = before.getLast?.map conversationRecencyKey

variable {cursor : Option ℕ}

section
variable (hsorted : NewestFirst (before ++ after)) (hcursor : CursorAfter before cursor)
include hsorted hcursor

theorem pageStart_eq : pageStart (before ++ after) cursor = .ok before.length := by
  subst hcursor
  obtain rfl | ⟨first, record, rfl⟩ := before.eq_nil_or_concat'
  · rfl
  · have hindex : (first ++ [record] ++ after).findIdx?
        (fun other ↦ conversationRecencyKey other = conversationRecencyKey record) =
          some first.length := by
      have hfirst : first.findIdx?
          (fun other ↦ decide (conversationRecencyKey other = conversationRecencyKey record)) =
            none := by
        rw [findIdx?_eq_none_iff]
        intro other hother
        have hlt := pairwise_append.1 (pairwise_append.1 hsorted).1
        exact decide_eq_false (hlt.2.2 other hother record (mem_singleton_self record)).ne'
      rw [append_assoc, findIdx?_append, hfirst]
      simp [findIdx?_cons]
    simp only [pageStart, getLast?_concat, map_some, hindex, length_append, length_singleton]

theorem paginate_eq (hlimit : 0 < limit) :
    paginateConversationRecords (before ++ after) ⟨cursor, some limit⟩ =
      .ok ⟨after.take limit, if limit < after.length then
        (after.take limit).getLast?.map conversationRecencyKey else none⟩ := by
  simp [paginateConversationRecords, pageStart_eq hsorted hcursor, hlimit, Option.filter, Bind.bind,
    Except.bind]

theorem paginate_unlimited {limit : Option ℕ} (hlimit : limit = none ∨ limit = some 0) :
    paginateConversationRecords (before ++ after) ⟨cursor, limit⟩ = .ok ⟨after, none⟩ := by
  obtain rfl | rfl := hlimit <;>
    simp [paginateConversationRecords, pageStart_eq hsorted hcursor, Option.filter, Bind.bind,
      Except.bind]

/-- The keys in a listing fall from its parts to the next ones. -/
theorem NewestFirst.lt {record : ListedConversation} (hrecord : record ∈ after) :
    cursor.all (conversationRecencyKey record < ·) = true := by
  subst hcursor
  cases hlast : before.getLast? with
  | none => rfl
  | some last =>
    have hlt := (pairwise_append.1 hsorted).2.2
    exact decide_eq_true (hlt last (mem_of_getLast? hlast) record hrecord)

end

/-- From any cursor on the pages are a partition of what follows it. -/
theorem follow_pages (hlimit : 0 < limit) (n : ℕ) : ∀ before after : List ListedConversation,
    after.length = n → NewestFirst (before ++ after) → ∀ cursor, CursorAfter before cursor →
      (∃ pages : List ListConversationsResult,
        (∀ fuel, after.length < fuel →
          followCursors (before ++ after) (some limit) fuel cursor = .ok pages) ∧
        pages.flatMap (·.conversations) = after ∧
        (pages.filterMap (·.nextCursor)).Pairwise (· > ·) ∧
        ∀ next ∈ pages.filterMap (·.nextCursor), ∃ record ∈ after,
          next = conversationRecencyKey record) ∧
      ∀ fuel, after.length < fuel →
        listConversationHandles (before ++ after) (some limit) fuel cursor = .ok after := by
  induction n using Nat.strong_induction_on with
  | _ n ih =>
    intro before after hlength hsorted cursor hcursor
    have hpage := paginate_eq hsorted hcursor hlimit
    by_cases hmore : limit < after.length
    · have hne : after.take limit ≠ [] := by
        rw [← length_pos_iff, length_take]
        omega
      obtain ⟨first, record, hfirst⟩ := (eq_nil_or_concat' (after.take limit)).resolve_left hne
      have hrecord : record ∈ after := by
        refine mem_of_mem_take (i := limit) ?_
        rw [hfirst]
        exact mem_append_right _ (mem_singleton_self record)
      have hsplit : before ++ after = (before ++ after.take limit) ++ after.drop limit := by
        rw [append_assoc, take_append_drop]
      have hnext : CursorAfter (before ++ after.take limit)
          (some (conversationRecencyKey record)) := by
        simp [CursorAfter, hfirst]
      have hshorter : (after.drop limit).length < n := by
        rw [length_drop]
        omega
      obtain ⟨⟨pages, hpages, hconcat, hfall, hkeys⟩, hhandles⟩ := ih _ hshorter _ _ rfl
        (hsplit ▸ hsorted) _ hnext
      rw [← hsplit] at hpages hhandles
      rw [if_pos hmore, hfirst, getLast?_concat, map_some, ← hfirst] at hpage
      have hlater : ∀ other ∈ after.drop limit,
          conversationRecencyKey other < conversationRecencyKey record := by
        intro other hother
        exact of_decide_eq_true ((hsplit ▸ hsorted : NewestFirst _).lt hnext hother)
      refine ⟨⟨⟨after.take limit, some (conversationRecencyKey record)⟩ :: pages,
        ?_, ?_, ?_, ?_⟩, ?_⟩
      · intro fuel hfuel
        obtain ⟨fuel, rfl⟩ := Nat.exists_eq_succ_of_ne_zero (Nat.ne_zero_of_lt hfuel)
        have hrest := hpages fuel (by omega)
        simp [followCursors, hpage, hrest, Bind.bind, Except.bind, pure, Except.pure]
      · rw [flatMap_cons, hconcat, take_append_drop]
      · rw [filterMap_cons, pairwise_cons]
        refine ⟨fun next hmem ↦ ?_, hfall⟩
        obtain ⟨other, hother, rfl⟩ := hkeys next hmem
        exact hlater other hother
      · intro next hmem
        rw [filterMap_cons, mem_cons] at hmem
        obtain rfl | hmem := hmem
        · exact ⟨record, hrecord, rfl⟩
        · obtain ⟨other, hother, rfl⟩ := hkeys next hmem
          exact ⟨other, mem_of_mem_drop hother, rfl⟩
      · intro fuel hfuel
        obtain ⟨fuel, rfl⟩ := Nat.exists_eq_succ_of_ne_zero (Nat.ne_zero_of_lt hfuel)
        have hrest := hhandles fuel (by omega)
        have hfalls := hsorted.lt hcursor hrecord
        simp [listConversationHandles, hpage, hrest, hfalls, ensure, Bind.bind, Except.bind, pure,
          Except.pure]
    · rw [if_neg hmore, take_of_length_le (Nat.le_of_not_lt hmore)] at hpage
      refine ⟨⟨[⟨after, none⟩], ?_, by simp, by simp, by simp⟩, ?_⟩
      · intro fuel hfuel
        obtain ⟨fuel, rfl⟩ := Nat.exists_eq_succ_of_ne_zero (Nat.ne_zero_of_lt hfuel)
        simp [followCursors, hpage, Bind.bind, Except.bind]
      · intro fuel hfuel
        obtain ⟨fuel, rfl⟩ := Nat.exists_eq_succ_of_ne_zero (Nat.ne_zero_of_lt hfuel)
        simp [listConversationHandles, hpage, Bind.bind, Except.bind]

end Page

/-- The pages of a listing with distinct keys, newest first, are a partition of it. -/
theorem pages_partition {conversations : List ListedConversation}
    (hsorted : NewestFirst conversations) : PagesPartition conversations := by
  have hstart : CursorAfter [] none := rfl
  have hwhole : NewestFirst ([] ++ conversations) := hsorted
  refine ⟨fun limit hlimit ↦ ?_, fun limit fuel hfuel ↦ ?_, fun limit hlimit ↦ ⟨?_, ?_⟩⟩
  · obtain ⟨⟨pages, hpages, hconcat, hfall, -⟩, -⟩ :=
      follow_pages hlimit _ [] conversations rfl hsorted none hstart
    exact ⟨pages, hpages, hconcat, hfall⟩
  · by_cases hlimit : limit = none ∨ limit = some 0
    · obtain ⟨fuel, rfl⟩ := Nat.exists_eq_succ_of_ne_zero (Nat.ne_zero_of_lt hfuel)
      have hpage : paginateConversationRecords ([] ++ conversations) ⟨none, limit⟩ = _ :=
        paginate_unlimited hwhole hstart hlimit
      rw [nil_append] at hpage
      simp [listConversationHandles, hpage, Bind.bind, Except.bind]
    · obtain ⟨limit, rfl⟩ := ne_none_iff_exists'.1 fun hnone ↦ hlimit (.inl hnone)
      have hpos : 0 < limit := Nat.pos_of_ne_zero fun hzero ↦ hlimit (.inr (hzero ▸ rfl))
      exact (follow_pages hpos _ [] conversations rfl hsorted none hstart).2 fuel hfuel
  · exact (paginate_unlimited hwhole hstart hlimit :
      paginateConversationRecords ([] ++ conversations) _ = _)
  · rintro before record after rfl
    have hsplit : before ++ record :: after = before ++ [record] ++ after := by simp
    rw [hsplit]
    exact paginate_unlimited (hsplit ▸ hsorted) (by simp [CursorAfter]) hlimit

/-- Three threads, of which the second has not been written to. -/
def threeThreads : List ListedConversation := [⟨1, some 9⟩, ⟨7, none⟩, ⟨2, some 5⟩]

theorem pages_partition_threeThreads : NewestFirst threeThreads ∧ PagesPartition threeThreads :=
  ⟨by decide, pages_partition (by decide)⟩

/-- What `list_conversation_records` gives out is such a listing. -/
theorem newestFirst_listing {records : List ListedConversation}
    (hdistinct : (records.map conversationRecencyKey).Nodup) :
    NewestFirst (records.mergeSort fun first second ↦
      conversationRecencyKey first ≤ conversationRecencyKey second).reverse := by
  let le := fun first second : ListedConversation ↦
    decide (conversationRecencyKey first ≤ conversationRecencyKey second)
  have htrans : ∀ a b c, le a b = true → le b c = true → le a c = true := fun a b c hab hbc ↦
    decide_eq_true ((of_decide_eq_true hab).trans (of_decide_eq_true hbc))
  have htotal : ∀ a b, (le a b || le b a) = true := by
    intro a b
    simpa [le] using Nat.le_total _ _
  have hle := pairwise_mergeSort htrans htotal records
  have hne := pairwise_map.1 (((mergeSort_perm records le).map _).nodup_iff.2 hdistinct)
  rw [NewestFirst, pairwise_reverse]
  exact (hle.and hne).imp fun hboth ↦ Nat.lt_of_le_of_ne (of_decide_eq_true hboth.1) hboth.2

theorem paginate_after {listing : List ListedConversation} (hsorted : NewestFirst listing)
    {cursor limit : ℕ} (hlimit : 0 < limit) :
    (paginateConversationRecords listing ⟨some cursor, some limit⟩).map (·.conversations) =
      if cursor ∈ listing.map conversationRecencyKey then
        .ok ((listing.filter (conversationRecencyKey · < cursor)).take limit)
      else .error s!"conversation cursor not found: {uuidText cursor}" := by
  split
  case isTrue hmem =>
    obtain ⟨record, hrecord, rfl⟩ := mem_map.1 hmem
    obtain ⟨before, after, rfl⟩ := append_of_mem hrecord
    rw [append_cons] at hsorted ⊢
    rw [paginate_eq hsorted (by simp [CursorAfter]) hlimit]
    obtain ⟨hbefore, -, hafter⟩ := pairwise_append.1 hsorted
    rw [filter_append, filter_eq_nil_iff.2, filter_eq_self.2]
    · rfl
    · exact fun other hother ↦ decide_eq_true (hafter _ (by simp) other hother)
    · intro other hother
      rcases mem_append.1 hother with hother | hother
      · have hlt := (pairwise_append.1 hbefore).2.2 other hother record (mem_singleton_self record)
        simpa using hlt.le
      · simp [mem_singleton.1 hother]
  case isFalse hmem =>
    have hindex : listing.findIdx? (fun record ↦ conversationRecencyKey record = cursor) = none := by
      simpa using hmem
    simp [paginateConversationRecords, pageStart, hindex]
    rfl

/-- The page after a cursor has the newest of the older records, whatever has changed since the
cursor was given out; there is none if no record has its key any more. -/
theorem page_after_cursor {records : List ListedConversation}
    (hdistinct : (records.map conversationRecencyKey).Nodup) :
    ∃ listing, listing.Perm records ∧ NewestFirst listing ∧ ∀ cursor limit, 0 < limit →
      (listConversationRecords records ⟨some cursor, some limit⟩).map (·.conversations) =
        if cursor ∈ records.map conversationRecencyKey then
          .ok ((listing.filter (conversationRecencyKey · < cursor)).take limit)
        else .error s!"conversation cursor not found: {uuidText cursor}" := by
  have hperm := (reverse_perm _).trans (mergeSort_perm records fun first second ↦
    decide (conversationRecencyKey first ≤ conversationRecencyKey second))
  have hsorted := newestFirst_listing hdistinct
  refine ⟨_, hperm, hsorted, fun cursor limit hlimit ↦ ?_⟩
  simp only [← (hperm.map _).mem_iff]
  exact paginate_after hsorted hlimit

theorem page_after_cursor_threeThreads : ∃ listing, Perm listing threeThreads ∧
    (listConversationRecords threeThreads ⟨some 7, some 1⟩).map (·.conversations) =
      .ok ((listing.filter (conversationRecencyKey · < 7)).take 1) :=
  (page_after_cursor (by decide)).imp fun _ hpages ↦ ⟨hpages.1, hpages.2.2 7 1 Nat.one_pos⟩

end Exo.Threads
