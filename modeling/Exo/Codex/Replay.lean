import Mathlib.Data.Finset.Basic
import Mathlib.Data.Rat.Cast.Order

/-!
# Codex history replay

The items of a history are sent in chunks, each with the output of every call in it.
-/

namespace Exo.Codex

open List

/-- An item of a history; the payload is what else it holds. -/
inductive ReplayItem (α : Type)
  | functionCall (callId : String) (payload : α)
  | functionCallOutput (callId : String) (payload : α)
  | other (payload : α)

abbrev ReplayItems (α : Type) := List (ReplayItem α)

variable {α : Type} (json : ReplayItem α → List UInt16)

/-- `JSON.stringify` of a list, in UTF-16 code units. -/
def stringify (items : ReplayItems α) : List UInt16 :=
  91 :: [44].intercalate (items.map json) ++ [93]

def pendingAfter (pendingCalls : Finset String) : ReplayItem α → Finset String
  | .functionCall callId _ => insert callId pendingCalls
  | .functionCallOutput callId _ => pendingCalls.erase callId
  | .other _ => pendingCalls

/-- The first loop of `codexReplayChunks`, from the unit and the calls it has collected. -/
def unitsFrom (unit : ReplayItems α) (pendingCalls : Finset String) :
    ReplayItems α → List (ReplayItems α)
  | [] => if unit.length > 0 then [unit] else []
  | item :: items =>
    let pendingCalls := pendingAfter pendingCalls item
    let unit := unit ++ [item]
    if pendingCalls = ∅ then unit :: unitsFrom [] pendingCalls items
    else unitsFrom unit pendingCalls items

/-- The second loop, from the chunk and the size it has collected. -/
def chunksFrom (maxChars : ℚ) (chunk : ReplayItems α) (size : ℕ) :
    List (ReplayItems α) → List (ReplayItems α)
  | [] => if chunk.length > 0 then [chunk] else []
  | unit :: units =>
    let unitSize := (stringify json unit).length
    if chunk.length > 0 ∧ (size + unitSize : ℕ) > maxChars then
      chunk :: chunksFrom maxChars unit unitSize units
    else chunksFrom maxChars (chunk ++ unit) (size + unitSize) units

section
variable (items : ReplayItems α)

def codexReplayChunks (maxChars : ℚ) : List (ReplayItems α) :=
  chunksFrom json maxChars [] 0 (unitsFrom [] ∅ items)

/-- A call with the id has no output after it. -/
def Unanswered (callId : String) (items : ReplayItems α) : Prop :=
  ∃ call later, .functionCall callId call :: later <:+ items ∧
    ∀ output, .functionCallOutput callId output ∉ later

/-- A call stands on the left and its output, the first with its id, on the right. -/
def Separates (left right : ReplayItems α) : Prop :=
  ∃ callId output, Unanswered callId left ∧ .functionCallOutput callId output ∈ right

def Unsplittable : Prop :=
  ∀ left right, left ≠ [] → right ≠ [] → items = left ++ right → Separates left right

/-- The calls that are pending after the items. -/
def pendingOf : Finset String := items.foldl pendingAfter ∅

def Whole : Prop := items ≠ [] ∧ pendingOf items = ∅

theorem mem_foldl_pendingAfter (callId : String) (items : ReplayItems α)
    (pendingCalls : Finset String) :
    callId ∈ items.foldl pendingAfter pendingCalls ↔
      (callId ∈ pendingCalls ∧ ∀ output, .functionCallOutput callId output ∉ items) ∨
        Unanswered callId items := by
  induction items generalizing pendingCalls with
  | nil => simp [Unanswered]
  | cons item items ih =>
    rw [foldl_cons, ih]
    simp only [Unanswered, suffix_cons_iff, or_and_right, exists_or]
    cases item <;> simp [pendingAfter] <;> grind

theorem mem_pendingOf {callId : String} {items : ReplayItems α} :
    callId ∈ pendingOf items ↔ Unanswered callId items := by
  simp [pendingOf, mem_foldl_pendingAfter]

theorem pendingOf_append {left : ReplayItems α} (hleft : pendingOf left = ∅)
    (right : ReplayItems α) : pendingOf (left ++ right) = pendingOf right :=
  foldl_append.trans (congrArg (right.foldl pendingAfter) hleft)

theorem pendingOf_flatten {chunks : List (ReplayItems α)}
    (hchunks : ∀ chunk ∈ chunks, pendingOf chunk = ∅) : pendingOf chunks.flatten = ∅ := by
  induction chunks with
  | nil => rfl
  | cons chunk chunks ih =>
    rw [forall_mem_cons] at hchunks
    exact (pendingOf_append hchunks.1 _).trans (ih hchunks.2)

/-- A call that is pending in between has its output on the right if nothing is pending after. -/
theorem separates_of_pending {left right : ReplayItems α} (hleft : pendingOf left ≠ ∅)
    (hsettled : pendingOf (left ++ right) = ∅) : Separates left right := by
  obtain ⟨callId, hpending⟩ := Finset.nonempty_of_ne_empty hleft
  by_contra hnone
  have hopen : callId ∈ pendingOf (left ++ right) := by
    rw [pendingOf, foldl_append, mem_foldl_pendingAfter]
    exact .inl ⟨hpending, fun output houtput ↦
      hnone ⟨callId, output, mem_pendingOf.mp hpending, houtput⟩⟩
  simp [hsettled] at hopen

theorem unitsFrom_spec (unit items : ReplayItems α)
    (hunit : ∀ left right, left ≠ [] → unit = left ++ right → pendingOf left ≠ ∅)
    (hitems : pendingOf (unit ++ items) = ∅) :
    (unitsFrom unit (pendingOf unit) items).flatten = unit ++ items ∧
      ∀ unit' ∈ unitsFrom unit (pendingOf unit) items, Whole unit' ∧ Unsplittable unit' := by
  induction items generalizing unit with
  | nil =>
    rw [append_nil] at hitems
    have hempty : unit = [] := by_contra fun hne ↦ hunit unit [] hne (append_nil unit).symm hitems
    simp [unitsFrom, hempty]
  | cons item items ih =>
    have hnext : pendingAfter (pendingOf unit) item = pendingOf (unit ++ [item]) := by
      simp [pendingOf]
    have hwithin (left right) (hleft : left ≠ []) (hright : right ≠ [])
        (heq : unit ++ [item] = left ++ right) : pendingOf left ≠ ∅ := by
      obtain ⟨right, last, rfl⟩ := (eq_nil_or_concat' right).resolve_left hright
      rw [← append_assoc] at heq
      exact hunit left right hleft (append_inj_left' heq rfl)
    rw [append_cons] at hitems ⊢
    rw [unitsFrom, hnext]
    split_ifs with hsettled
    · rw [pendingOf_append hsettled] at hitems
      obtain ⟨hflat, hunits⟩ := ih [] (by simp_all) hitems
      rw [hsettled]
      refine ⟨congrArg (_ ++ ·) hflat, forall_mem_cons.mpr ⟨⟨⟨by simp, hsettled⟩, ?_⟩, hunits⟩⟩
      intro left right hleft hright heq
      exact separates_of_pending (hwithin left right hleft hright heq) (heq ▸ hsettled)
    · refine ih _ (fun left right hleft heq ↦ ?_) hitems
      rcases eq_or_ne right [] with rfl | hright
      · rwa [← append_nil left, ← heq]
      · exact hwithin left right hleft hright heq

theorem length_stringify_append (items unit : ReplayItems α) :
    (stringify json (items ++ unit)).length ≤
      (stringify json items).length + (stringify json unit).length := by
  simp only [stringify, length_append, length_cons]
  induction items with
  | nil => simp
  | cons item items ih => cases items <;> cases unit <;> simp_all <;> omega

/-- The size of a chunk is never less than the length of its text. -/
theorem chunksFrom_spec (maxChars : ℚ) (chunk : ReplayItems α) (size : ℕ)
    (units : List (ReplayItems α)) (hunits : ∀ unit ∈ units, Whole unit ∧ Unsplittable unit)
    (hchunk : chunk ≠ [] → Whole chunk ∧
      ((stringify json chunk).length ≤ maxChars ∨ Unsplittable chunk))
    (hsize : chunk ≠ [] → (stringify json chunk).length ≤ size) :
    (chunksFrom json maxChars chunk size units).flatten = chunk ++ units.flatten ∧
      ∀ chunk' ∈ chunksFrom json maxChars chunk size units, Whole chunk' ∧
        ((stringify json chunk').length ≤ maxChars ∨ Unsplittable chunk') := by
  induction units generalizing chunk size with
  | nil => by_cases hne : chunk = [] <;> simp_all [chunksFrom, length_pos_iff]
  | cons unit units ih =>
    obtain ⟨⟨hunit, hcut⟩, hunits⟩ := forall_mem_cons.mp hunits
    rw [chunksFrom]
    split_ifs with hfull
    · obtain ⟨hflat, hchunks⟩ :=
        ih unit _ hunits (fun _ ↦ ⟨hunit, .inr hcut⟩) (fun _ ↦ le_rfl)
      exact ⟨congrArg (chunk ++ ·) hflat,
        forall_mem_cons.mpr ⟨hchunk (length_pos_iff.mp hfull.1), hchunks⟩⟩
    · rw [flatten_cons, ← append_assoc]
      rcases eq_or_ne chunk [] with rfl | hne
      · exact ih unit _ hunits (fun _ ↦ ⟨hunit, .inr hcut⟩) (fun _ ↦ Nat.le_add_left ..)
      · have hlength : (stringify json (chunk ++ unit)).length ≤
            size + (stringify json unit).length :=
          (length_stringify_append json chunk unit).trans (Nat.add_le_add_right (hsize hne) _)
        have hroom := le_of_not_gt fun hover ↦ hfull ⟨length_pos_iff.mpr hne, hover⟩
        exact ih _ _ hunits (fun _ ↦ ⟨⟨by simp [hne], (pendingOf_append (hchunk hne).1.2 unit).trans
          hunit.2⟩, .inl ((Nat.cast_le.mpr hlength).trans hroom)⟩) fun _ ↦ hlength

/-- Each chunk has the output of every call in it and no output of an earlier chunk's call; over
the limit it cannot be cut. -/
theorem codex_replay_keeps_calls (maxChars : ℚ)
    (hanswered : ∀ callId, ¬Unanswered callId items) :
    let chunks := codexReplayChunks json items maxChars
    [] ∉ chunks ∧ chunks.flatten = items ∧
      (∀ sent rest, chunks = sent ++ rest → ¬Separates sent.flatten rest.flatten) ∧
      ∀ chunk ∈ chunks, (∀ callId, ¬Unanswered callId chunk) ∧
        ((stringify json chunk).length ≤ maxChars ∨ Unsplittable chunk) := by
  simp only [← mem_pendingOf, ← Finset.eq_empty_iff_forall_notMem] at hanswered ⊢
  obtain ⟨hitems, hunits⟩ := unitsFrom_spec [] items (by simp_all) hanswered
  obtain ⟨hflat, hchunks⟩ := chunksFrom_spec json maxChars [] 0 _ hunits (absurd rfl) (absurd rfl)
  refine ⟨fun hnil ↦ (hchunks [] hnil).1.1 rfl, hflat.trans hitems, ?_,
    fun chunk hchunk ↦ ⟨(hchunks chunk hchunk).1.2, (hchunks chunk hchunk).2⟩⟩
  rintro sent rest hsplit ⟨callId, output, hopen, -⟩
  have hsent : pendingOf sent.flatten = ∅ := pendingOf_flatten fun chunk hchunk ↦
    (hchunks chunk (hsplit ▸ mem_append_left rest hchunk : chunk ∈ codexReplayChunks ..)).1.2
  simp [← mem_pendingOf, hsent] at hopen

end

theorem codex_replay_keeps_parallel_calls :
    let items : ReplayItems ℕ := [.functionCall "a" 0, .functionCall "b" 1,
      .functionCallOutput "a" 2, .functionCallOutput "b" 3, .other 4]
    let chunks := codexReplayChunks (fun _ ↦ [48]) items 7
    chunks.flatten = items ∧ ∀ chunk ∈ chunks, ∀ callId, ¬Unanswered callId chunk := by
  intro items chunks
  have hanswered (callId) : ¬Unanswered callId items := by
    rw [← mem_pendingOf]
    exact Finset.notMem_empty callId
  obtain ⟨-, hflat, -, hchunks⟩ := codex_replay_keeps_calls (fun _ ↦ [48]) items 7 hanswered
  exact ⟨hflat, fun chunk hchunk ↦ (hchunks chunk hchunk).1⟩

end Exo.Codex
