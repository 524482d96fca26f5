import Mathlib.Data.List.Induction
import Exo.Storage.Paths

/-!
# Keys of targets and inbound messages

An adapter keeps one file for each chat target and one marker for each inbound message it has seen.
The files are named by an FNV-1a digest of 64 bits; what the digest was taken of is written into the
file, but a lookup never compares it.  So a lookup answers for the digest and not for the string, and
it answers rightly exactly when no other string with the same digest got in its way.
-/

namespace Exo.Adapters

open Storage List

/-- One round of FNV-1a: `hash ^= byte; hash = hash.wrapping_mul(0x100000001b3)`. -/
def fnvStep (hash : UInt64) (byte : UInt8) : UInt64 :=
  (hash ^^^ byte.toUInt64) * 0x100000001b3

/-- FNV-1a over a sequence of bytes. -/
def fnv1a (bytes : List UInt8) : UInt64 := bytes.foldl fnvStep 0xcbf29ce484222325

/-- The bytes of a string. -/
def utf8 (text : String) : List UInt8 := text.toUTF8.toList

/-- `format!("{hash:016x}")`. -/
def formatHash (hash : UInt64) : List Char := paddedHex 16 hash.toNat

/-- What is hashed for a message: `target.bytes().chain([0]).chain(message_id.bytes())`. -/
def messageBytes (target messageId : String) : List UInt8 := utf8 target ++ 0 :: utf8 messageId

def stableTargetKey (target : String) : List Char := formatHash (fnv1a (utf8 target))

def stableMessageKey (target messageId : String) : List Char :=
  formatHash (fnv1a (messageBytes target messageId))

theorem formatHash_injective : Function.Injective formatHash := by
  intro first second heq
  have hread : readHex (formatHash first) = readHex (formatHash second) := by rw [heq]
  simp only [formatHash, readHex_paddedHex, Option.some.injEq] at hread
  have hfirst : first.toNat % 16 ^ 16 = first.toNat := Nat.mod_eq_of_lt first.toNat_lt
  have hsecond : second.toNat % 16 ^ 16 = second.toNat := Nat.mod_eq_of_lt second.toNat_lt
  rw [hfirst, hsecond] at hread
  exact UInt64.toNat_inj.1 hread

theorem stableTargetKey_eq_iff {target other : String} :
    stableTargetKey target = stableTargetKey other ↔ fnv1a (utf8 target) = fnv1a (utf8 other) :=
  formatHash_injective.eq_iff

theorem stableMessageKey_eq_iff {target messageId otherTarget otherId : String} :
    stableMessageKey target messageId = stableMessageKey otherTarget otherId ↔
      fnv1a (messageBytes target messageId) = fnv1a (messageBytes otherTarget otherId) :=
  formatHash_injective.eq_iff

structure AdapterTargetConversationRecord where
  adapterId : String
  target : String
  conversationId : String
  createdAtMs : ℕ
  updatedAtMs : ℕ
  deriving DecidableEq

structure AdapterInboundMessageRecord where
  adapterId : String
  target : String
  messageId : String
  firstSeenAtMs : ℕ

/-- The files under `target-conversations` and `inbound-seen`, by adapter and file stem. -/
structure KeyedFiles where
  targetConversations : String → List Char → Option AdapterTargetConversationRecord
  inboundSeen : String → List Char → Option AdapterInboundMessageRecord

namespace KeyedFiles

variable (files : KeyedFiles)

/-- No file yet. -/
def empty : KeyedFiles := ⟨fun _ _ ↦ none, fun _ _ ↦ none⟩

/-- `put_target_conversation` replaces the file of the record's digest. -/
def putTargetConversation (record : AdapterTargetConversationRecord) : KeyedFiles :=
  { files with
    targetConversations := fun adapterId key ↦
      if adapterId = record.adapterId ∧ key = stableTargetKey record.target then some record
      else files.targetConversations adapterId key }

/-- `get_target_conversation` reads the file of the target's digest. -/
def getTargetConversation (adapterId target : String) : Option AdapterTargetConversationRecord :=
  files.targetConversations adapterId (stableTargetKey target)

/-- `record_inbound_message_once`: `create_new` fails when there is a marker with the digest. -/
def recordInboundMessageOnce (adapterId target messageId : String) (nowMs : ℕ) :
    Bool × KeyedFiles :=
  let record : AdapterInboundMessageRecord := ⟨adapterId, target, messageId, nowMs⟩
  let path := stableMessageKey target messageId
  match files.inboundSeen adapterId path with
  | some _ => (false, files)
  | none =>
    (true, { files with
      inboundSeen := fun other key ↦
        if other = adapterId ∧ key = path then some record else files.inboundSeen other key })

end KeyedFiles

/-- The calls that change the two maps. -/
inductive KeyedCall where
  | put (record : AdapterTargetConversationRecord)
  | inbound (adapterId target messageId : String) (nowMs : ℕ)

def KeyedFiles.apply (files : KeyedFiles) : KeyedCall → KeyedFiles
  | .put record => files.putTargetConversation record
  | .inbound adapterId target messageId nowMs =>
    (files.recordInboundMessageOnce adapterId target messageId nowMs).2

/-- The files after a sequence of calls on any adapters. -/
def filesAfter (calls : List KeyedCall) : KeyedFiles := calls.foldl KeyedFiles.apply .empty

theorem filesAfter_append (calls : List KeyedCall) (call : KeyedCall) :
    filesAfter (calls ++ [call]) = (filesAfter calls).apply call := by
  simp [filesAfter]

section
variable (calls : List KeyedCall)

/-- The records put for an adapter, oldest first. -/
def putsOf (adapterId : String) : List AdapterTargetConversationRecord :=
  calls.filterMap fun
    | .put record => if record.adapterId = adapterId then some record else none
    | .inbound .. => none

/-- The messages an adapter was asked about, by target and message id. -/
def inboundOf (adapterId : String) : List (String × String) :=
  calls.filterMap fun
    | .put _ => none
    | .inbound other target messageId _ =>
      if other = adapterId then some (target, messageId) else none

/-- A lookup of the target returns the last record put for exactly this target, if there is one. -/
def RoutesExactly (adapterId target : String) : Prop :=
  (filesAfter calls).getTargetConversation adapterId target =
    ((putsOf calls adapterId).filter (·.target = target)).getLast?

/-- The message is reported as new if and only if it is new. -/
def DeduplicatesExactly (adapterId target messageId : String) (nowMs : ℕ) : Prop :=
  ((filesAfter calls).recordInboundMessageOnce adapterId target messageId nowMs).1 =
    decide ((target, messageId) ∉ inboundOf calls adapterId)

end

/-- Every record of another target with the same digest was followed by one of the target itself. -/
def Unshadowed (target : String) : List AdapterTargetConversationRecord → Prop
  | [] => True
  | record :: records =>
    (record.target ≠ target → fnv1a (utf8 record.target) = fnv1a (utf8 target) →
      ∃ later ∈ records, later.target = target) ∧ Unshadowed target records

/-- The message was seen itself, or no other message with its digest was. -/
def Unmasked (target messageId : String) (seen : List (String × String)) : Prop :=
  (target, messageId) ∈ seen ∨ ∀ other ∈ seen,
    fnv1a (messageBytes other.1 other.2) ≠ fnv1a (messageBytes target messageId)

section Files
variable {calls : List KeyedCall} {adapterId target messageId : String} {nowMs : ℕ}

section
variable (calls : List KeyedCall)

section
variable (call : KeyedCall) (adapterId : String)

theorem putsOf_append :
    putsOf (calls ++ [call]) adapterId = putsOf calls adapterId ++ putsOf [call] adapterId := by
  simp [putsOf, filterMap_append]

theorem inboundOf_append : inboundOf (calls ++ [call]) adapterId =
      inboundOf calls adapterId ++ inboundOf [call] adapterId := by
  simp [inboundOf, filterMap_append]

end

section
variable (adapterId : String) (key : List Char)

/-- A file under `target-conversations` holds the last record put under its digest. -/
theorem targetConversations_filesAfter : (filesAfter calls).targetConversations adapterId key =
      ((putsOf calls adapterId).filter (stableTargetKey ·.target = key)).getLast? := by
  induction calls using reverseRecOn with
  | nil => rfl
  | append_singleton calls call ih =>
    rw [filesAfter_append, putsOf_append, filter_append, getLast?_append]
    cases call with
    | put record =>
      by_cases hadapter : record.adapterId = adapterId
      · subst hadapter
        by_cases hkey : stableTargetKey record.target = key
        · simp [KeyedFiles.apply, KeyedFiles.putTargetConversation, putsOf, hkey]
        · have hkey' : key ≠ stableTargetKey record.target := fun h ↦ hkey h.symm
          simp [KeyedFiles.apply, KeyedFiles.putTargetConversation, putsOf, hkey, hkey', ih]
      · have hadapter' : adapterId ≠ record.adapterId := fun h ↦ hadapter h.symm
        simp [KeyedFiles.apply, KeyedFiles.putTargetConversation, putsOf, hadapter, hadapter', ih]
    | inbound other target messageId nowMs =>
      have hkeep : ((filesAfter calls).apply (.inbound other target messageId nowMs)
          ).targetConversations = (filesAfter calls).targetConversations := by
        simp only [KeyedFiles.apply, KeyedFiles.recordInboundMessageOnce]
        split <;> rfl
      simp [hkeep, putsOf, ih]

/-- There is a marker under a digest once a message with the digest was seen. -/
theorem inboundSeen_filesAfter : ((filesAfter calls).inboundSeen adapterId key).isSome = true ↔
      ∃ seen ∈ inboundOf calls adapterId, stableMessageKey seen.1 seen.2 = key := by
  induction calls using reverseRecOn with
  | nil => simp [filesAfter, KeyedFiles.empty, inboundOf]
  | append_singleton calls call ih =>
    rw [filesAfter_append, inboundOf_append]
    simp only [mem_append, or_and_right, exists_or, ← ih]
    cases call with
    | put record => simp [KeyedFiles.apply, KeyedFiles.putTargetConversation, inboundOf]
    | inbound other target messageId nowMs =>
      simp only [KeyedFiles.apply, KeyedFiles.recordInboundMessageOnce]
      split
      case h_1 marker hmarker =>
        -- nothing is written, because the digest has its marker already
        constructor
        · exact .inl
        · rintro (hold | ⟨seen, hseen, rfl⟩)
          · exact hold
          · by_cases hadapter : other = adapterId
            · subst hadapter
              obtain rfl : seen = (target, messageId) := by simpa [inboundOf] using hseen
              simp [hmarker]
            · simp [inboundOf, hadapter] at hseen
      case h_2 hmarker =>
        by_cases hadapter : other = adapterId
        · subst hadapter
          by_cases hkey : key = stableMessageKey target messageId
          · simp [inboundOf, hkey]
          · have hkey' : stableMessageKey target messageId ≠ key := fun h ↦ hkey h.symm
            simp [inboundOf, hkey, hkey']
        · have hadapter' : adapterId ≠ other := fun h ↦ hadapter h.symm
          simp [inboundOf, hadapter, hadapter']

end

end

end Files

theorem getLast?_cons_of_exists {α : Type*} {p : α → Prop} [DecidablePred p] {value : α}
    {values : List α} (hexists : ∃ later ∈ values, p later) :
    (value :: values.filter p).getLast? = (values.filter p).getLast? := by
  obtain ⟨later, hlater, hp⟩ := hexists
  have hne : values.filter p ≠ [] := ne_nil_of_mem (mem_filter.2 ⟨hlater, by simpa⟩)
  rw [getLast?_cons, getLast?_eq_some_getLast hne, Option.getD_some]

/-- The last record under the digest of a target is the last one of the target itself exactly when
no other target with the digest was put after it. -/
theorem getLast?_digest_iff (target : String) (records : List AdapterTargetConversationRecord) :
    (records.filter (stableTargetKey ·.target = stableTargetKey target)).getLast? =
        (records.filter (·.target = target)).getLast? ↔
      Unshadowed target records := by
  induction records with
  | nil => simp [Unshadowed]
  | cons record records ih =>
    rw [Unshadowed]
    by_cases hlater : ∃ later ∈ records, later.target = target
    · -- a later record of the target decides on both sides
      have hdigest : ∃ later ∈ records, stableTargetKey later.target = stableTargetKey target := by
        obtain ⟨later, hmem, htarget⟩ := hlater
        exact ⟨later, hmem, by rw [htarget]⟩
      have hfirst : (record.target ≠ target →
          fnv1a (utf8 record.target) = fnv1a (utf8 target) →
            ∃ later ∈ records, later.target = target) ↔ True :=
        iff_true_intro fun _ _ ↦ hlater
      rw [hfirst, true_and, ← ih, filter_cons, filter_cons]
      split_ifs
      · rw [getLast?_cons_of_exists hdigest, getLast?_cons_of_exists hlater]
      · rw [getLast?_cons_of_exists hdigest]
      · rw [getLast?_cons_of_exists hlater]
      · exact Iff.rfl
    · -- no record of the target is left, so none with its digest may be left either
      have hnone : records.filter (·.target = target) = [] := by
        simpa using hlater
      rw [hnone, getLast?_nil, getLast?_eq_none_iff] at ih
      rw [← ih, filter_cons, filter_cons, hnone]
      by_cases hempty : records.filter (stableTargetKey ·.target = stableTargetKey target) = []
      · rw [hempty]
        by_cases htarget : record.target = target
        · simp [htarget]
        · simp [htarget, hlater, stableTargetKey_eq_iff]
      · have hlast : (getLast _ hempty).target ≠ target := fun htarget ↦
          hlater ⟨_, (mem_filter.1 (getLast_mem hempty)).1, htarget⟩
        refine iff_of_false (fun heq ↦ ?_) fun h ↦ hempty h.2
        have hleft : (if decide (stableTargetKey record.target = stableTargetKey target) = true
            then record :: records.filter (stableTargetKey ·.target = stableTargetKey target)
            else records.filter (stableTargetKey ·.target = stableTargetKey target)).getLast? =
              some (getLast _ hempty) := by
          split
          · rw [getLast?_cons, getLast?_eq_some_getLast hempty, Option.getD_some]
          · exact getLast?_eq_some_getLast hempty
        rw [hleft] at heq
        split_ifs at heq with htarget
        · rw [getLast?_singleton, Option.some.injEq] at heq
          rw [heq] at hlast
          exact hlast (by simpa using htarget)
        · cases heq

section
variable (calls : List KeyedCall)

theorem routesExactly_iff (adapterId target : String) :
    RoutesExactly calls adapterId target ↔ Unshadowed target (putsOf calls adapterId) := by
  rw [RoutesExactly, KeyedFiles.getTargetConversation, targetConversations_filesAfter]
  exact getLast?_digest_iff target _

section
variable (adapterId target messageId : String) (nowMs : ℕ)

theorem deduplicatesExactly_iff : DeduplicatesExactly calls adapterId target messageId nowMs ↔
      Unmasked target messageId (inboundOf calls adapterId) := by
  have hmarker := inboundSeen_filesAfter calls adapterId (stableMessageKey target messageId)
  have hnew : ((filesAfter calls).recordInboundMessageOnce adapterId target messageId nowMs).1 =
      true ↔ ∀ seen ∈ inboundOf calls adapterId,
        fnv1a (messageBytes seen.1 seen.2) ≠ fnv1a (messageBytes target messageId) := by
    rw [KeyedFiles.recordInboundMessageOnce]
    split
    case h_1 marker hsome =>
      rw [hsome] at hmarker
      obtain ⟨seen, hseen, hdigest⟩ := hmarker.1 rfl
      exact iff_of_false (by simp) fun h ↦ h seen hseen (stableMessageKey_eq_iff.1 hdigest)
    case h_2 hnone =>
      rw [hnone] at hmarker
      refine iff_of_true rfl fun seen hseen hdigest ↦ ?_
      exact absurd (hmarker.2 ⟨seen, hseen, stableMessageKey_eq_iff.2 hdigest⟩) (by simp)
  rw [DeduplicatesExactly, Bool.eq_iff_iff, hnew, decide_eq_true_iff, Unmasked]
  constructor
  · intro h
    by_cases hseen : (target, messageId) ∈ inboundOf calls adapterId
    · exact .inl hseen
    · exact .inr (h.2 hseen)
  · rintro (hseen | hclear)
    · exact iff_of_false (fun h ↦ h _ hseen rfl) (not_not_intro hseen)
    · exact iff_of_true hclear fun hseen ↦ hclear _ hseen rfl

/-- **Adapter keys.**  After any sequence of calls a lookup of a target returns the last record put
for it, and a message is reported as new exactly when it is, if and only if no other target with the
same digest was put since and no other message with the same digest was seen. -/
theorem keys_exact_iff : RoutesExactly calls adapterId target ∧
        DeduplicatesExactly calls adapterId target messageId nowMs ↔
      Unshadowed target (putsOf calls adapterId) ∧
        Unmasked target messageId (inboundOf calls adapterId) :=
  and_congr (routesExactly_iff calls adapterId target)
    (deduplicatesExactly_iff calls adapterId target messageId nowMs)

end

end

/-- Two targets with one digest: the second chat is sent into the conversation of the first, and its
message is dropped as one already seen. -/
theorem keys_confused : ¬ RoutesExactly
        [.put ⟨"telegram", "8yn0iYCKYHlIj4-BwPqk", "conversation-1", 0, 0⟩,
          .inbound "telegram" "8yn0iYCKYHlIj4-BwPqk" "7" 0]
        "telegram" "GReLUrM4wMqfg9yzV3KQ" ∧
      ¬ DeduplicatesExactly
        [.put ⟨"telegram", "8yn0iYCKYHlIj4-BwPqk", "conversation-1", 0, 0⟩,
          .inbound "telegram" "8yn0iYCKYHlIj4-BwPqk" "7" 0]
        "telegram" "GReLUrM4wMqfg9yzV3KQ" "7" 1 := by
  rw [RoutesExactly, DeduplicatesExactly]
  decide +kernel

end Exo.Adapters
