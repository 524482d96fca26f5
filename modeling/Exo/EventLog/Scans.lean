import Exo.EventLog.Paging

/-!
# Scanning the log

A reader that calls `get_events` with the cursor of the page before, until a page is empty, reads
what the filters of its query keep, each event once and in the direction of the query.  Downwards
this is so for a log that stays.  Upwards events may be appended between any two pages, and those
that were there before the last page are read.
-/

namespace Exo.EventLog

open Storage List

variable {Id Data : Type} [LinearOrder Id]

section Definitions
variable (ids : IdText Id) (conversationDir : Key) (kind : Data → String)

/-- `get_events` with the cursor of the page before, until a page is empty.  The store may be
another one at every page, and without fuel there is no answer. -/
def scanEvents (history : ℕ → EventStore Id Data) :
    ℕ → ℕ → EventQuery Id → Except StorageError (Option (List (List (Event Id Data))))
  | 0, _, _ => .ok none
  | fuel + 1, n, query => do
    let page ← getEvents ids conversationDir kind (history n) (some query)
    match page.cursor with
    | none => return some []
    | some cursor =>
      let pages ← scanEvents history fuel (n + 1) { query with cursor := some cursor }
      return pages.map (page.events :: ·)

section
variable (query : EventQuery Id)

/-- The query of `approval_events`. -/
def approvalQuery : EventQuery Id :=
  { query with
    direction := some .asc
    types := some ["agent_runtime.approval_requested", "agent_runtime.approval_response",
      "turn_ended"]
    limit := some 100 }

/-- `approval_events`. -/
def approvalEvents (history : ℕ → EventStore Id Data) (fuel : ℕ) (query : EventQuery Id) :
    Except StorageError (Option (List (Event Id Data))) := do
  let pages ← scanEvents ids conversationDir kind history fuel 0 (approvalQuery query)
  return pages.map List.flatten

/-- What a query asks of a log, in its direction. -/
def EventQuery.asked (log : List (Event Id Data)) : List (Event Id Data) :=
  match query.direction.getD .asc with
  | .asc => log.filter (query.keeps kind)
  | .desc => (log.filter (query.keeps kind)).reverse

/-- The direction of a query, from one id to a later one. -/
def EventQuery.follows (cursor id : Id) : Bool :=
  match query.direction.getD .asc with
  | .asc => cursor < id
  | .desc => id < cursor

end

/-- The stores hold a log that only grows. -/
structure Grows (history : ℕ → EventStore Id Data) (logs : ℕ → List (Event Id Data)) : Prop where
  logged : ∀ n, Logged ids conversationDir (history n) (logs n)
  appended : ∀ n, logs n <+: logs (n + 1)

/-- What the scans with a query read. -/
structure ScansAll (query : EventQuery Id) : Prop where
  still : ∀ {store log}, Logged ids conversationDir store log → ∀ fuel, log.length < fuel →
    ∃ pages, scanEvents ids conversationDir kind (fun _ ↦ store) fuel 0 query = .ok (some pages) ∧
      pages.flatten = query.asked kind log
  /-- Page `pages.length` is the last one, which is empty. -/
  growing : query.direction.getD .asc = .asc → ∀ {history logs},
    Grows ids conversationDir history logs →
      (∀ fuel pages, scanEvents ids conversationDir kind history fuel 0 query = .ok (some pages) →
        pages.flatten = query.asked kind (logs pages.length)) ∧
      ∀ last, (∀ n, last ≤ n → logs n = logs last) → ∀ fuel, last + (logs last).length < fuel →
        ∃ pages, scanEvents ids conversationDir kind history fuel 0 query = .ok (some pages)
  approvals : ∀ {store log}, Logged ids conversationDir store log → ∀ fuel, log.length < fuel →
    approvalEvents ids conversationDir kind (fun _ ↦ store) fuel query =
      .ok (some (log.filter ((approvalQuery query).keeps kind)))

end Definitions

section Page
variable {ids : IdText Id} {conversationDir : Key} {kind : Data → String} {query : EventQuery Id}
  {log before : List (Event Id Data)}

namespace EventQuery

section
variable (query : EventQuery Id)

theorem follows_asymm {id other : Id}
    (hfollows : query.follows id other = true) : query.follows other id = false := by
  unfold follows at hfollows ⊢
  cases hdirection : query.direction.getD .asc <;> simp_all [le_of_lt]

theorem page_eq (kind : Data → String)
    (log : List (Event Id Data)) :
    query.page kind log = query.limit.elim id List.take
      ((query.asked kind log).filter fun event ↦ query.cursor.all (query.follows · event.id)) := by
  unfold page resume asked follows
  cases query.direction.getD .asc <;> cases query.limit <;> rfl

theorem pairwise_asked (kind : Data → String)
    (hlog : Increasing log) :
    (query.asked kind log).Pairwise fun event other ↦ query.follows event.id other.id = true := by
  have hkept := List.Pairwise.filter (query.keeps kind) hlog
  unfold asked follows
  cases query.direction.getD .asc with
  | asc => exact hkept.imp decide_eq_true
  | desc => exact pairwise_reverse.2 (hkept.imp decide_eq_true)

/-- What has not been read yet is what lies after the cursor. -/
theorem unread (hlog : Increasing log)
    (hbefore : before <+: query.asked kind log) :
    before ++ (query.asked kind log).filter (fun event ↦
      (before.getLast?.map Event.id).all (query.follows · event.id)) = query.asked kind log := by
  obtain ⟨rest, hrest⟩ := hbefore
  have hpairwise := query.pairwise_asked kind hlog
  rw [← hrest] at hpairwise ⊢
  obtain rfl | ⟨first, event, rfl⟩ := before.eq_nil_or_concat'
  · simp
  · rw [append_assoc, singleton_append] at hpairwise ⊢
    have hafter := filter_after (fun _ _ ↦ query.follows_asymm) hpairwise
    simp [hafter]

end

end EventQuery

/-- A page is what comes next, and it is empty when nothing does. -/
theorem getEvents_page {store : EventStore Id Data} (hlogged : Logged ids conversationDir store log)
    (hlimit : query.limit ≠ some 0) (hbefore : before <+: query.asked kind log) :
    ∃ page, getEvents ids conversationDir kind store
        (some { query with cursor := before.getLast?.map Event.id }) =
          .ok ⟨page, page.getLast?.map Event.id⟩ ∧
      before ++ page <+: query.asked kind log ∧ (page = [] → before = query.asked kind log) := by
  have hunread := query.unread hlogged.increasing hbefore
  have hpage : ({ query with cursor := before.getLast?.map Event.id }).page kind log =
      query.limit.elim id take ((query.asked kind log).filter fun event ↦
        (before.getLast?.map Event.id).all (query.follows · event.id)) :=
    EventQuery.page_eq _ kind log
  generalize (query.asked kind log).filter _ = rest at hunread hpage
  refine ⟨query.limit.elim id take rest, ?_, ?_, fun hempty ↦ ?_⟩
  · rw [← hpage, getEvents, hlogged.loadEvents_eq]
    rfl
  · rw [← hunread, prefix_append_right_inj]
    cases query.limit with
    | none => exact prefix_refl _
    | some limit => exact take_prefix _ _
  · have hrest : rest = [] := by
      cases hsome : query.limit with
      | none => rwa [hsome] at hempty
      | some limit =>
        rw [hsome, Option.elim_some, take_eq_nil_iff] at hempty
        exact hempty.resolve_left fun hzero ↦ hlimit (hsome.trans (congrArg some hzero))
    rw [← hunread, hrest, append_nil]

end Page

section Pages
variable {ids : IdText Id} {conversationDir : Key} {kind : Data → String} {query : EventQuery Id}
  {history : ℕ → EventStore Id Data} {logs : ℕ → List (Event Id Data)}

/-- A scan that ends has read what was asked of the log at its last page, and it ends once the log
no longer grows. -/
theorem scanEvents_spec (hlogged : ∀ n, Logged ids conversationDir (history n) (logs n))
    (hlimit : query.limit ≠ some 0)
    (hmore : ∀ n, query.asked kind (logs n) <+: query.asked kind (logs (n + 1))) :
    ∀ fuel n before, before <+: query.asked kind (logs n) →
      let scan := scanEvents ids conversationDir kind history fuel n
        { query with cursor := before.getLast?.map Event.id }
      (∀ pages, scan = .ok (some pages) →
        before ++ pages.flatten = query.asked kind (logs (n + pages.length))) ∧
      ∀ last, (∀ m, last ≤ m → logs m = logs last) →
        (last - n) + ((query.asked kind (logs last)).length - before.length) < fuel →
        ∃ pages, scan = .ok (some pages) := by
  intro fuel
  induction fuel with
  | zero =>
    intro n before _
    exact ⟨fun _ hpages ↦ by simp [scanEvents] at hpages, fun _ _ hfuel ↦ by omega⟩
  | succ fuel ih =>
    intro n before hbefore
    obtain ⟨page, hpage, hnext, hempty⟩ := getEvents_page (hlogged n) hlimit hbefore
    simp only [scanEvents, hpage, Bind.bind, Except.bind]
    obtain rfl | ⟨first, event, hconcat⟩ := page.eq_nil_or_concat'
    · refine ⟨fun pages hpages ↦ ?_, fun _ _ _ ↦ ⟨[], rfl⟩⟩
      cases hpages
      simpa using hempty rfl
    · have hcursor : page.getLast?.map Event.id = some event.id := by simp [hconcat]
      have hlast : (before ++ page).getLast?.map Event.id = some event.id := by simp [hconcat]
      obtain ⟨hread, hends⟩ := ih (n + 1) (before ++ page) (hnext.trans (hmore n))
      rw [hlast] at hread hends
      simp only [hcursor]
      constructor
      · intro pages hpages
        cases hrest : scanEvents ids conversationDir kind history fuel (n + 1)
            { query with cursor := some event.id } with
        | error error => simp [hrest] at hpages
        | ok rest =>
          cases rest with
          | none => simp [hrest, pure, Except.pure] at hpages
          | some rest =>
            simp only [hrest, pure, Except.pure, Option.map_some, Except.ok.injEq,
              Option.some.injEq] at hpages
            subst hpages
            rw [flatten_cons, ← append_assoc, hread rest hrest, length_cons]
            congr 2
            omega
      · intro last hstays hfuel
        have hlength : before.length + page.length ≤ (query.asked kind (logs n)).length := by
          simpa using hnext.length_le
        have hpositive : 0 < page.length := by simp [hconcat]
        obtain ⟨rest, hrest⟩ := hends last hstays (by
          rw [length_append]
          by_cases hn : last ≤ n
          · rw [hstays n hn] at hlength
            omega
          · omega)
        exact ⟨page :: rest, by simp [hrest, pure, Except.pure]⟩

theorem asked_prefix (hdirection : query.direction.getD .asc = .asc)
    {log next : List (Event Id Data)} (happended : log <+: next) :
    query.asked kind log <+: query.asked kind next := by
  unfold EventQuery.asked
  rw [hdirection]
  exact happended.filter _

theorem EventQuery.length_asked_le (query : EventQuery Id) (kind : Data → String)
    (log : List (Event Id Data)) : (query.asked kind log).length ≤ log.length := by
  unfold EventQuery.asked
  split
  · exact length_filter_le _ _
  · simpa using length_filter_le _ _

variable (kind) in
theorem scanEvents_start (hlogged : ∀ n, Logged ids conversationDir (history n) (logs n))
    (hlimit : query.limit ≠ some 0) (hcursor : query.cursor = none)
    (hmore : ∀ n, query.asked kind (logs n) <+: query.asked kind (logs (n + 1))) (fuel : ℕ) :
    (∀ pages, scanEvents ids conversationDir kind history fuel 0 query = .ok (some pages) →
      pages.flatten = query.asked kind (logs pages.length)) ∧
    ∀ last, (∀ n, last ≤ n → logs n = logs last) → last + (logs last).length < fuel →
      ∃ pages, scanEvents ids conversationDir kind history fuel 0 query = .ok (some pages) := by
  have hstart : { query with cursor := ([] : List (Event Id Data)).getLast?.map Event.id } =
      query := by simp [← hcursor]
  obtain ⟨hread, hends⟩ := scanEvents_spec hlogged hlimit hmore fuel 0 [] nil_prefix
  rw [hstart] at hread hends
  refine ⟨fun pages hpages ↦ by simpa using hread pages hpages, fun last hstays hfuel ↦ ?_⟩
  have hle := query.length_asked_le kind (logs last)
  exact hends last hstays (by simp only [length_nil]; omega)

theorem scanEvents_still {store : EventStore Id Data} {log : List (Event Id Data)}
    (hlogged : Logged ids conversationDir store log) (hlimit : query.limit ≠ some 0)
    (hcursor : query.cursor = none) {fuel : ℕ} (hfuel : log.length < fuel) :
    ∃ pages, scanEvents ids conversationDir kind (fun _ ↦ store) fuel 0 query = .ok (some pages) ∧
      pages.flatten = query.asked kind log := by
  obtain ⟨hread, hends⟩ := scanEvents_start kind (fun _ : ℕ ↦ hlogged) hlimit hcursor
    (fun _ ↦ prefix_refl _) fuel
  obtain ⟨pages, hpages⟩ := hends 0 (fun _ _ ↦ rfl) (by omega)
  exact ⟨pages, hpages, hread pages hpages⟩

end Pages

/-- Paging with a limit that is not zero reads everything that is asked, in either direction, and
upwards also what is appended meanwhile. -/
theorem scans_all {ids : IdText Id} {conversationDir : Key} {kind : Data → String}
    {query : EventQuery Id} (hlimit : query.limit ≠ some 0) (hcursor : query.cursor = none) :
    ScansAll ids conversationDir kind query where
  still hlogged fuel hfuel := scanEvents_still hlogged hlimit hcursor hfuel
  growing hdirection history logs hgrows := by
    have hspec := scanEvents_start kind hgrows.logged hlimit hcursor fun n ↦
      asked_prefix hdirection (hgrows.appended n)
    exact ⟨fun fuel ↦ (hspec fuel).1, fun last hstays fuel ↦ (hspec fuel).2 last hstays⟩
  approvals hlogged fuel hfuel := by
    have happroval : (approvalQuery query).limit ≠ some 0 := by simp [approvalQuery]
    obtain ⟨pages, hpages, hread⟩ := scanEvents_still hlogged happroval hcursor hfuel
    rw [approvalEvents, hpages]
    exact congrArg (Except.ok ∘ some) hread

/-- Pages of two events, newest first. -/
theorem scans_all_newest : ScansAll uuidText "events".toList (fun kind : String ↦ kind)
    { direction := some .desc, limit := some 2 } :=
  scans_all (by decide) rfl

end Exo.EventLog
