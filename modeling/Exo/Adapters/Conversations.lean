import Exo.Adapters.Keys
import Exo.Library.System
import Exo.Library.UpdateFirst
import Exo.Scheduler.Schedule

/-!
# Conversations of targets

An adapter may keep a conversation for each of its targets.  A target without one gets a new
conversation, under a slug made of the first twelve letters and digits of the adapter's id and the
digest of the target; if the slug is taken, the conversation that has it is adopted.  The twelve
digits are the millisecond in which the adapter was made, so two adapters of one millisecond share
the conversations of the targets that they share.
-/

namespace Exo.Adapters

open Library Storage List

/-! ## Resolving a target -/

abbrev ConversationId := Fin (2 ^ 128)

/-- An adapter and one of its targets. -/
abbrev TargetPair := String × String

def shortSlugPart (value : String) : List Char := (value.toList.filter Char.isAlphanum).take 12

def targetConversationSlug (pair : TargetPair) : String :=
  .ofList ("adapter-".toList ++ (shortSlugPart pair.1 ++ '-' :: stableTargetKey pair.2))

def idString (id : ConversationId) : String := .ofList (uuidText.text id)

structure ConversationRecord where
  id : ConversationId
  slug : String

def AdapterTargetConversationRecord.new (adapterId target conversationId : String) (nowMs : ℕ) :
    Option AdapterTargetConversationRecord :=
  if [adapterId, target, conversationId].any (·.toList.all Scheduler.isWhitespace) then none
  else some ⟨adapterId, target, conversationId, nowMs, nowMs⟩

/-- The conversations of an agent, the files of its adapters, and what was resolved. -/
structure Conversations where
  records : List ConversationRecord
  files : KeyedFiles
  resolved : List (TargetPair × ConversationId)

/-- Which calls succeed, whether a creation that fails leaves its conversation, and the id and the
time that a call is given. -/
structure ResolveOutcome where
  reads : Bool
  creates : Bool
  leaves : Bool
  stores : Bool
  id : ConversationId
  nowMs : ℕ

/-- By id, and then by slug. -/
def getConversation (records : List ConversationRecord) (reference : String) :
    Option ConversationRecord :=
  ((uuidText.parse reference.toList).bind fun id ↦ records.find? (·.id = id)).or
    (records.find? (·.slug = reference))

def KeyedFiles.mapping (files : KeyedFiles) (pair : TargetPair) :
    Option AdapterTargetConversationRecord :=
  files.getTargetConversation pair.1 pair.2

/-- The conversation that the mapping of the pair points to, if it is there. -/
def lookup (files : KeyedFiles) (records : List ConversationRecord) (pair : TargetPair) :
    Option ConversationRecord :=
  (files.mapping pair).bind (getConversation records ·.conversationId)

namespace Conversations

variable (state : Conversations)

def add (record : ConversationRecord) : Conversations :=
  { state with records := record :: state.records }

def createConversation (slug : String) (outcome : ResolveOutcome) :
    Option ConversationRecord × Conversations :=
  let record : ConversationRecord := ⟨outcome.id, slug⟩
  if slug ∈ state.records.map (·.slug) then (none, state)
  else if outcome.creates then (some record, state.add record)
  else (none, if outcome.leaves then state.add record else state)

def resolveMessageConversation (pair : TargetPair) (outcome : ResolveOutcome) :
    Option ConversationId × Conversations :=
  if !outcome.reads then (none, state)
  else
    match lookup state.files state.records pair with
    | some record => (some record.id, state)
    | none =>
      let slug := targetConversationSlug pair
      let (created, after) := state.createConversation slug outcome
      match created.or (getConversation after.records slug) with
      | none => (none, after)
      | some record =>
        match (AdapterTargetConversationRecord.new pair.1 pair.2 (idString record.id)
          outcome.nowMs).filter fun _ ↦ outcome.stores with
        | none => (none, after)
        | some mapping =>
          (some record.id, { after with files := after.files.putTargetConversation mapping })

end Conversations

inductive ConversationCall where
  | resolve (pair : TargetPair) (outcome : ResolveOutcome)
  | delete (id : ConversationId)

namespace Conversations

section
variable (state : Conversations)

/-- No other target that was resolved has the digest. -/
def Distinguished (target : String) : Prop :=
  ∀ entry ∈ state.resolved, stableTargetKey entry.1.2 = stableTargetKey target → entry.1.2 = target

/-- A `Uuid7` is not given twice, and the digests of the targets do not collide. -/
def enabled : ConversationCall → Prop
  | .resolve pair outcome =>
    (outcome.id ∉ state.records.map (·.id) ∧ outcome.id ∉ state.resolved.map (·.2)) ∧
      state.Distinguished pair.2
  | .delete _ => True

def next : ConversationCall → Conversations
  | .resolve pair outcome =>
    let (found, after) := state.resolveMessageConversation pair outcome
    { after with resolved := found.toList.map (pair, ·) ++ after.resolved }
  | .delete id => { state with records := state.records.filter (·.id ≠ id) }

/-- Two pairs were not resolved to one conversation. -/
def Isolated : Prop :=
  ∀ entry ∈ state.resolved, ∀ other ∈ state.resolved, entry.2 = other.2 → entry.1 = other.1

/-- A pair is resolved to the same conversation as before, if that is there. -/
def Stable : ConversationCall → Prop
  | .resolve pair outcome => outcome.reads → ∀ id, (pair, id) ∈ state.resolved →
      id ∈ state.records.map (·.id) → (state.resolveMessageConversation pair outcome).1 = some id
  | .delete _ => True

/-- A pair whose own conversation is gone does not find that of another under its slug. -/
def Unclaimed : ConversationCall → Prop
  | .resolve pair _ => (lookup state.files state.records pair).isNone →
      ∀ entry ∈ state.resolved, ∀ record ∈ state.records, record.id = entry.2 →
        record.slug = targetConversationSlug pair → entry.1 = pair
  | .delete _ => True

end

instance (state : Conversations) (call : ConversationCall) : Decidable (state.Unclaimed call) :=
  match call with
  | .resolve _ _ => inferInstanceAs (Decidable (_ → ∀ entry ∈ state.resolved, _))
  | .delete _ => isTrue trivial

end Conversations

/-- The adapters of one agent. -/
def conversationSystem : System Conversations ConversationCall where
  enabled := Conversations.enabled
  next := Conversations.next

instance (state : Conversations) (call : ConversationCall) :
    Decidable (conversationSystem.enabled state call) :=
  match call with
  | .resolve _ _ => inferInstanceAs (Decidable (_ ∧ ∀ entry ∈ state.resolved, _))
  | .delete _ => isTrue trivial

/-! ## References -/

variable {state : Conversations} {pair : TargetPair} {record : ConversationRecord}
  {id other : ConversationId} {records : List ConversationRecord} {files : KeyedFiles}
  {outcome : ResolveOutcome}

theorem parse_adapter (rest : List Char) : uuidText.parse ("adapter-".toList ++ rest) = none := by
  have hstuck (digits : List Char) : digits.foldl
      (fun read digit ↦ do return (← read) * 16 + (← hexValue digit)) (none : Option ℕ) = none := by
    induction digits with
    | nil => rfl
    | cons digit digits ih => exact ih
  have hread (digits : List Char) : readHex ('a' :: 'd' :: 'a' :: 'p' :: digits) = none :=
    hstuck digits
  have hdigits : ("adapter-".toList ++ rest).filter (· ≠ '-') =
      'a' :: 'd' :: 'a' :: 'p' :: ("ter".toList ++ rest.filter (· ≠ '-')) := by
    rw [filter_append]
    rfl
  simp only [uuidText, parseHyphenated, hdigits, hread]
  simp

theorem parse_slug (pair : TargetPair) :
    uuidText.parse (targetConversationSlug pair).toList = none := by
  have htext : (targetConversationSlug pair).toList =
      "adapter-".toList ++ (shortSlugPart pair.1 ++ '-' :: stableTargetKey pair.2) :=
    String.toList_ofList
  have hparse := parse_adapter (shortSlugPart pair.1 ++ '-' :: stableTargetKey pair.2)
  rw [← htext] at hparse
  exact hparse

theorem parse_idString (id : ConversationId) : uuidText.parse (idString id).toList = some id := by
  simp only [idString, String.toList_ofList, uuidText.parse_text]

theorem idString_inj (heq : idString id = idString other) : id = other :=
  uuidText.text_injective (String.ofList_inj.1 heq)

theorem idString_ne_slug (id : ConversationId) (pair : TargetPair) :
    idString id ≠ targetConversationSlug pair := by
  intro heq
  have hparse := parse_idString id
  rw [heq, parse_slug] at hparse
  cases hparse

theorem get_idString (hids : (records.map (·.id)).Nodup) (hslugs : (records.map (·.slug)).Nodup) :
    getConversation records (idString id) = some record ↔ record ∈ records ∧
      (record.id = id ∨ (∀ found ∈ records, found.id ≠ id) ∧ record.slug = idString id) := by
  simp only [getConversation, parse_idString, Option.bind_some, Option.or_eq_some_iff,
    find?_key_iff _ hids, find?_key_iff _ hslugs, find?_eq_none, decide_eq_true_eq]
  tauto

namespace Conversations

theorem getConversation_slug (hslugs : (records.map (·.slug)).Nodup) :
    getConversation records (targetConversationSlug pair) = some record ↔
      record ∈ records ∧ record.slug = targetConversationSlug pair := by
  rw [getConversation, parse_slug, Option.bind_none, Option.none_or]
  exact find?_key_iff _ hslugs

structure Sound (state : Conversations) : Prop where
  ids : (state.records.map (·.id)).Nodup
  slugs : (state.records.map (·.slug)).Nodup
  apart : ∀ entry ∈ state.resolved, state.Distinguished entry.1.2
  mapped : ∀ pair mapping, state.files.mapping pair = some mapping →
    ∃ id, mapping.conversationId = idString id ∧ ((pair.1, mapping.target), id) ∈ state.resolved ∧
      stableTargetKey mapping.target = stableTargetKey pair.2
  slugged : ∀ pair mapping, state.files.mapping pair = some mapping → ∀ record ∈ state.records,
    mapping.conversationId = idString record.id → record.slug = targetConversationSlug pair
  isolated : state.Isolated
  current : ∀ entry ∈ state.resolved, ∀ record ∈ state.records, record.id = entry.2 →
    lookup state.files state.records entry.1 = some record

section
variable (hsound : Sound state) (hpair : state.Distinguished pair.2)
include hsound

namespace Sound

theorem eq_of_id {found : ConversationRecord} (hfound : found ∈ state.records)
    (hrecord : record ∈ state.records) (heq : found.id = record.id) : found = record :=
  inj_on_of_nodup_map hsound.ids hfound hrecord heq

include hpair

theorem mapping (hlookup : lookup state.files state.records pair = some record) :
    record ∈ state.records ∧ ∃ id mapping, state.files.mapping pair = some mapping ∧
      mapping.conversationId = idString id ∧ (pair, id) ∈ state.resolved ∧
      (record.id = id ∨ (∀ found ∈ state.records, found.id ≠ id) ∧ record.slug = idString id) := by
  obtain ⟨mapping, hmapping, hget⟩ := Option.bind_eq_some_iff.1 hlookup
  obtain ⟨id, hid, hresolved, hkey⟩ := hsound.mapped pair mapping hmapping
  rw [show mapping.target = pair.2 from hpair _ hresolved hkey] at hresolved
  rw [hid] at hget
  obtain ⟨hrecord, hfound⟩ := (get_idString hsound.ids hsound.slugs).1 hget
  exact ⟨hrecord, id, mapping, hmapping, hid, hresolved, hfound⟩

/-- Two pairs do not point to one conversation. -/
theorem lookup_inj {second : TargetPair} (hsecond : state.Distinguished second.2)
    (hlookup : lookup state.files state.records pair = some record)
    (hother : lookup state.files state.records second = some record) : pair = second := by
  obtain ⟨hrecord, id, mapping, hmapping, hid, hresolved, hfound⟩ := hsound.mapping hpair hlookup
  obtain ⟨-, other, mapping', hmapping', hother, hresolved', hfound'⟩ :=
    hsound.mapping hsecond hother
  have hsame (heq : id = other) : pair = second := hsound.isolated _ hresolved _ hresolved' heq
  rcases hfound with rfl | ⟨-, hslug⟩ <;> rcases hfound' with rfl | ⟨-, hslug'⟩
  · exact hsame rfl
  · exact absurd (hslug'.symm.trans (hsound.slugged _ _ hmapping _ hrecord hid))
      (idString_ne_slug _ _)
  · exact absurd (hslug.symm.trans (hsound.slugged _ _ hmapping' _ hrecord hother))
      (idString_ne_slug _ _)
  · exact hsame (idString_inj (hslug.symm.trans hslug'))

/-- The conversation is found among others too, if none of these has the id in its mapping. -/
theorem lookup_kept (hlookup : lookup state.files state.records pair = some record)
    (hids : (records.map (·.id)).Nodup) (hslugs : (records.map (·.slug)).Nodup)
    (hrecord : record ∈ records) (hnone : ∀ entry ∈ state.resolved, ∀ found ∈ records,
      found ∈ state.records ∨ found.id ≠ entry.2) :
    lookup state.files records pair = some record := by
  obtain ⟨-, id, mapping, hmapping, hid, hresolved, hfound⟩ := hsound.mapping hpair hlookup
  have hget := (get_idString hids hslugs).2 ⟨hrecord, hfound.imp_right fun hslug ↦
    ⟨fun found hmem ↦ (hnone _ hresolved found hmem).elim (hslug.1 found) fun hne ↦ hne, hslug.2⟩⟩
  exact Option.bind_eq_some_iff.2 ⟨mapping, hmapping, hid ▸ hget⟩

/-! ## Steps -/

/-- The pair is resolved to a conversation; its mapping is the old one or points to it. -/
theorem resolve (hrecord : record ∈ state.records)
    (hisolated : ∀ entry ∈ state.resolved, entry.2 = record.id → entry.1 = pair)
    (hmapped : ∀ (other : TargetPair) mapping, files.mapping other = some mapping →
      state.files.mapping other = some mapping ∨
        mapping.target = pair.2 ∧ mapping.conversationId = idString record.id ∧
          record.slug = targetConversationSlug pair ∧ other.1 = pair.1 ∧
          stableTargetKey other.2 = stableTargetKey pair.2)
    (hself : lookup files state.records pair = some record)
    (hcurrent : ∀ entry ∈ state.resolved, ∀ found ∈ state.records, found.id = entry.2 →
      lookup files state.records entry.1 = some found) :
    Sound { state with files, resolved := (pair, record.id) :: state.resolved } where
  ids := hsound.ids
  slugs := hsound.slugs
  apart := by
    intro entry hentry other hother hkey
    rcases mem_cons.1 hentry with rfl | hentry <;> rcases mem_cons.1 hother with rfl | hother
    · rfl
    · exact hpair other hother hkey
    · exact (hpair entry hentry hkey.symm).symm
    · exact hsound.apart entry hentry other hother hkey
  mapped := by
    intro other mapping hmapping
    rcases hmapped other mapping hmapping with hold | ⟨htarget, hid, -, hadapter, hkey⟩
    · obtain ⟨id, hid, hresolved, hkey⟩ := hsound.mapped other mapping hold
      exact ⟨id, hid, mem_cons_of_mem _ hresolved, hkey⟩
    · exact ⟨record.id, hid, by simp [hadapter, htarget], by rw [htarget, hkey]⟩
  slugged := by
    intro other mapping hmapping found hfound hid
    rcases hmapped other mapping hmapping with hold | ⟨-, hnew, hslug, hadapter, hkey⟩
    · exact hsound.slugged other mapping hold found hfound hid
    · rw [hsound.eq_of_id hfound hrecord (idString_inj (hid.symm.trans hnew)), hslug]
      exact congrArg₂ (fun adapterId key ↦ String.ofList
        ("adapter-".toList ++ (shortSlugPart adapterId ++ '-' :: key))) hadapter.symm hkey.symm
  isolated := by
    intro entry hentry other hother heq
    rcases mem_cons.1 hentry with rfl | hentry <;> rcases mem_cons.1 hother with rfl | hother
    · rfl
    · exact (hisolated other hother heq.symm).symm
    · exact hisolated entry hentry heq
    · exact hsound.isolated entry hentry other hother heq
  current := by
    intro entry hentry found hfound heq
    rcases mem_cons.1 hentry with rfl | hentry
    · rw [hsound.eq_of_id hfound hrecord heq]
      exact hself
    · exact hcurrent entry hentry found hfound heq

theorem look (hlookup : lookup state.files state.records pair = some record) :
    Sound { state with resolved := (pair, record.id) :: state.resolved } := by
  have hrecord := (hsound.mapping hpair hlookup).1
  refine hsound.resolve hpair hrecord ?_ (fun _ _ ↦ .inl) hlookup hsound.current
  intro entry hentry heq
  exact hsound.lookup_inj (hsound.apart entry hentry) hpair
    (hsound.current entry hentry record hrecord heq.symm) hlookup

theorem put {entry : AdapterTargetConversationRecord} {nowMs : ℕ}
    (hentry : AdapterTargetConversationRecord.new pair.1 pair.2 (idString record.id) nowMs =
      some entry) (hrecord : record ∈ state.records)
    (hslug : record.slug = targetConversationSlug pair)
    (hisolated : ∀ entry ∈ state.resolved, entry.2 = record.id → entry.1 = pair)
    (hgone : ∀ entry ∈ state.resolved, ∀ found ∈ state.records, found.id = entry.2 →
      entry.1 ≠ pair) :
    Sound { state with
      files := state.files.putTargetConversation entry
      resolved := (pair, record.id) :: state.resolved } := by
  unfold AdapterTargetConversationRecord.new at hentry
  split_ifs at hentry
  have hput (other : TargetPair) : (state.files.putTargetConversation entry).mapping other =
      if other.1 = pair.1 ∧ stableTargetKey other.2 = stableTargetKey pair.2 then some entry
      else state.files.mapping other := by
    cases hentry
    rfl
  refine hsound.resolve hpair hrecord hisolated ?_ ?_ ?_
  · intro other mapping hmapping
    rw [hput] at hmapping
    split_ifs at hmapping with hsame
    · cases hmapping
      cases hentry
      exact .inr ⟨rfl, rfl, hslug, hsame⟩
    · exact .inl hmapping
  · rw [lookup, hput, if_pos ⟨rfl, rfl⟩, ← hentry, Option.bind_some]
    exact (get_idString hsound.ids hsound.slugs).2 ⟨hrecord, .inl rfl⟩
  · intro other hother found hfound heq
    have hne : ¬(other.1.1 = pair.1 ∧ stableTargetKey other.1.2 = stableTargetKey pair.2) :=
      fun ⟨hadapter, hkey⟩ ↦ hgone other hother found hfound heq
        (Prod.ext hadapter (hpair other hother hkey))
    rw [lookup, hput, if_neg hne]
    exact hsound.current other hother found hfound heq

omit hpair

theorem add (hid : id ∉ state.records.map (·.id)) (hnew : id ∉ state.resolved.map (·.2))
    (hslug : targetConversationSlug pair ∉ state.records.map (·.slug)) :
    Sound (state.add ⟨id, targetConversationSlug pair⟩) where
  ids := nodup_cons.2 ⟨hid, hsound.ids⟩
  slugs := nodup_cons.2 ⟨hslug, hsound.slugs⟩
  apart := hsound.apart
  mapped := hsound.mapped
  slugged := by
    intro other mapping hmapping record hrecord heq
    rcases mem_cons.1 hrecord with rfl | hrecord
    · obtain ⟨found, hfound, hresolved, -⟩ := hsound.mapped other mapping hmapping
      rw [← idString_inj (heq.symm.trans hfound)] at hresolved
      exact absurd (mem_map_of_mem hresolved) hnew
    · exact hsound.slugged other mapping hmapping record hrecord heq
  isolated := hsound.isolated
  current := by
    intro entry hentry record hrecord heq
    have hne (entry) (hentry : entry ∈ state.resolved) : id ≠ entry.2 :=
      fun hsame ↦ hnew (hsame ▸ mem_map_of_mem hentry)
    rcases mem_cons.1 hrecord with rfl | hrecord
    · exact absurd heq (hne entry hentry)
    refine hsound.lookup_kept (hsound.apart entry hentry)
      (hsound.current entry hentry record hrecord heq) (nodup_cons.2 ⟨hid, hsound.ids⟩)
      (nodup_cons.2 ⟨hslug, hsound.slugs⟩) (mem_cons_of_mem _ hrecord) ?_
    intro entry hentry found hfound
    rcases mem_cons.1 hfound with rfl | hfound
    · exact .inr (hne entry hentry)
    · exact .inl hfound

theorem delete (id : ConversationId) : Sound (state.next (.delete id)) := by
  have hsublist : state.records.filter (·.id ≠ id) <+ state.records := filter_sublist
  have hids := hsound.ids.sublist (hsublist.map (·.id))
  have hslugs := hsound.slugs.sublist (hsublist.map (·.slug))
  refine ⟨hids, hslugs, hsound.apart, hsound.mapped, ?_, hsound.isolated, ?_⟩
  · exact fun pair mapping hmapping record hrecord ↦
      hsound.slugged pair mapping hmapping record (hsublist.subset hrecord)
  · intro entry hentry record hrecord heq
    exact hsound.lookup_kept (hsound.apart entry hentry)
      (hsound.current entry hentry record (hsublist.subset hrecord) heq) hids hslugs hrecord
      fun _ _ _ hfound ↦ .inl (hsublist.subset hfound)

/-- One more conversation, with the slug, or the same. -/
theorem create (pair : TargetPair) (hid : outcome.id ∉ state.records.map (·.id))
    (hnew : outcome.id ∉ state.resolved.map (·.2)) :
    let created := state.createConversation (targetConversationSlug pair) outcome
    Sound created.2 ∧ created.2.resolved = state.resolved ∧
      (∀ found ∈ created.2.records, found ∈ state.records ∨ found.id = outcome.id) ∧
      ∀ record, created.1 = some record →
        record ∈ created.2.records ∧ record.slug = targetConversationSlug pair := by
  have hgrows (found : ConversationRecord)
      (hfound : found ∈ ⟨outcome.id, targetConversationSlug pair⟩ :: state.records) :
      found ∈ state.records ∨ found.id = outcome.id :=
    (mem_cons.1 hfound).symm.imp_right (congrArg ConversationRecord.id)
  unfold createConversation
  split_ifs with htaken hcreates hleaves
  · exact ⟨hsound, rfl, fun _ ↦ .inl, nofun⟩
  · refine ⟨hsound.add hid hnew htaken, rfl, hgrows, ?_⟩
    rintro _ ⟨⟩
    exact ⟨mem_cons_self, rfl⟩
  · exact ⟨hsound.add hid hnew htaken, rfl, hgrows, nofun⟩
  · exact ⟨hsound, rfl, fun _ ↦ .inl, nofun⟩

theorem next {call : ConversationCall} (henabled : state.enabled call)
    (hunclaimed : state.Unclaimed call) : Sound (state.next call) := by
  cases call with
  | delete id => exact hsound.delete id
  | resolve pair outcome =>
    obtain ⟨⟨hid, hnew⟩, hpair⟩ := henabled
    have hcreate := hsound.create pair hid hnew
    simp only [Conversations.next, resolveMessageConversation]
    split_ifs
    · exact hsound
    cases hlookup : lookup state.files state.records pair with
    | some record => exact hsound.look hpair hlookup
    | none =>
      dsimp only
      generalize state.createConversation (targetConversationSlug pair) outcome = created at *
      obtain ⟨created, after⟩ := created
      obtain ⟨hafter, hresolved, hgrows, hcreated⟩ := hcreate
      dsimp only at *
      cases hrecord : created.or (getConversation after.records (targetConversationSlug pair)) with
      | none => exact hafter
      | some record =>
        dsimp only
        split
        · exact hafter
        · rename_i mapping hmapping
          have hfound : record ∈ after.records ∧ record.slug = targetConversationSlug pair :=
            (Option.or_eq_some_iff.1 hrecord).elim (hcreated record) fun hget ↦
              (getConversation_slug hafter.slugs).1 hget.2
          -- the new conversation was not resolved, and the others were there before
          have hthere : ∀ entry ∈ after.resolved, ∀ found ∈ after.records, found.id = entry.2 →
              found ∈ state.records := by
            intro entry hentry found hmem heq
            refine (hgrows found hmem).resolve_right fun hsame ↦ hnew ?_
            rw [← hsame, heq, ← hresolved]
            exact mem_map_of_mem hentry
          refine hafter.put ?_ (Option.filter_eq_some_iff.1 hmapping).1 hfound.1 hfound.2 ?_ ?_
          · rwa [Distinguished, hresolved]
          · intro entry hentry heq
            exact hunclaimed (by simp [hlookup]) entry (hresolved ▸ hentry) record
              (hthere entry hentry record hfound.1 heq.symm) heq.symm hfound.2
          · rintro entry hentry found hmem heq rfl
            have hold := hsound.current entry (hresolved ▸ hentry) found
              (hthere entry hentry found hmem heq) heq
            cases hlookup.symm.trans hold

theorem stable (call : ConversationCall) : state.Stable call := by
  cases call with
  | delete id => trivial
  | resolve pair outcome =>
    intro hreads id hresolved hid
    obtain ⟨record, hrecord, rfl⟩ := mem_map.1 hid
    simp [resolveMessageConversation, hreads, hsound.current _ hresolved record hrecord rfl]

end Sound

end

/-- The ids and the slugs of the conversations differ, and no adapter has a target yet. -/
structure Begins (state : Conversations) : Prop where
  ids : (state.records.map (·.id)).Nodup
  slugs : (state.records.map (·.slug)).Nodup
  files : state.files = .empty
  resolved : state.resolved = []

theorem Begins.sound (hbegins : Begins state) : Sound state := by
  obtain ⟨hids, hslugs, hfiles, hresolved⟩ := hbegins
  refine ⟨hids, hslugs, ?_, ?_, ?_, ?_, ?_⟩ <;>
    simp [hfiles, hresolved, Isolated, KeyedFiles.mapping, KeyedFiles.getTargetConversation,
      KeyedFiles.empty]

/-- Whatever fails, as long as no pair finds the conversation of another under its slug. -/
theorem targets_keep_conversations {start : Conversations} (hbegins : Begins start)
    {calls : List ConversationCall}
    (hrun : (conversationSystem.restrict Unclaimed).Admits start calls) :
    (conversationSystem.exec start calls).Isolated ∧
      conversationSystem.Throughout Stable start calls := by
  have hstep (state : Conversations) (call : ConversationCall) (hsound : Sound state)
      (henabled : (conversationSystem.restrict Unclaimed).enabled state call) :
      Sound ((conversationSystem.restrict Unclaimed).next state call) :=
    hsound.next henabled.1 henabled.2
  constructor
  · rw [← System.exec_restrict Unclaimed]
    exact (System.invariant Sound hstep hbegins.sound hrun).isolated
  · rw [← System.throughout_restrict Unclaimed]
    exact System.throughout_of_invariant Sound hstep (fun _ _ hsound _ ↦ hsound.stable _)
      hbegins.sound hrun

/-- An adapter made in the given millisecond, and one of its chats. -/
def chat (random : String) : TargetPair := ("0192f0c1-a2b3-7cde-8f90-" ++ random, "42")

def succeeds (id : ConversationId) : ResolveOutcome := ⟨true, true, false, true, id, 0⟩

def noConversations : Conversations := ⟨[], .empty, []⟩

theorem begins_noConversations : Begins noConversations := ⟨nodup_nil, nodup_nil, rfl, rfl⟩

/-- Two chats of one adapter; the conversation of the first is deleted. -/
theorem targets_keep_conversations_deleted :
    let first := chat "123456789abc"
    let second : TargetPair := (first.1, "43")
    let calls := [.resolve first (succeeds 1), .resolve second (succeeds 2), .delete 1,
      .resolve second (succeeds 3), .resolve first (succeeds 4), .resolve first (succeeds 5)]
    (conversationSystem.exec noConversations calls).Isolated ∧
      conversationSystem.Throughout Stable noConversations calls :=
  targets_keep_conversations begins_noConversations (by decide +kernel)

/-- Two adapters of one millisecond hear from chats with one name. -/
theorem not_targets_keep_conversations :
    ¬∀ (start : Conversations) (calls : List ConversationCall), Begins start →
      conversationSystem.Admits start calls → (conversationSystem.exec start calls).Isolated := by
  intro hall
  have hisolated := hall noConversations
    [.resolve (chat "123456789abc") (succeeds 1), .resolve (chat "000000000000") (succeeds 2)]
    begins_noConversations (by decide +kernel)
  exact absurd (hisolated (chat "123456789abc", 1) (by decide +kernel)
    (chat "000000000000", 1) (by decide +kernel) rfl) (by decide +kernel)

end Conversations

end Exo.Adapters
