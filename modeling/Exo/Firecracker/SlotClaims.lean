import Exo.Firecracker.Capacity
import Exo.Firecracker.Slots

/-!
# The slot files of a state root

A machine claims a slot by creating its file, writes its id into it, and publishes its manifest
afterwards; a cleanup removes the manifest first and the slot file last.  Any file operation may
fail, and the controller may crash between any two.

Whatever fails, no two manifests name one slot.  A file without a manifest is never removed, though:
only the operation that is interrupted knows of it.  In the runs in which no operation is
interrupted there, every claimed slot has a manifest or an operation on its way.
-/

namespace Exo.Firecracker

open Library Finset Function System

/-! ## Operations -/

inductive SlotFile where
  /-- Created, and nothing written. -/
  | empty
  | owner (machineId : MachineId)
  deriving DecidableEq

/-- Where the operation on a machine is. -/
inductive SlotPhase where
  | idle
  /-- `allocate_resource_slot_from` tries the slot at the offset next. -/
  | scanning (first offset : ℕ)
  /-- The slot file is created. -/
  | claimed (slot : ℕ)
  /-- The id is written, and `write_manifest` is next. -/
  | written (slot : ℕ)
  /-- `cleanup_machine` has read the manifest. -/
  | cleaning (slot : ℕ)
  /-- The manifest is removed, and the lease is next. -/
  | unlisted (slot : ℕ)
  /-- `release_resource_slot` is next. -/
  | releasing (slot : ℕ)
  deriving DecidableEq

/-- The slot whose file the operation alone knows of. -/
def SlotPhase.slot? : SlotPhase → Option ℕ
  | claimed slot | written slot | unlisted slot | releasing slot => some slot
  | idle | scanning _ _ | cleaning _ => none

/-- The slot files, the slots in the manifests, and the operation on each machine. -/
structure StateRoot where
  slots : ℕ → Option SlotFile
  manifests : MachineId → Option ℕ
  phases : MachineId → SlotPhase

inductive SlotLabel where
  /-- `new_machine_record`; a machine's own hash or a restore gives the first slot. -/
  | allocate (machineId : MachineId) (first : ℕ)
  /-- One round of the allocation loop. -/
  | attempt (machineId : MachineId)
  | write (machineId : MachineId)
  /-- `write_manifest` links the manifest, unless there is one. -/
  | publish (machineId : MachineId)
  /-- `write_manifest` fails before. -/
  | refuse (machineId : MachineId)
  /-- `cleanup_machine` reads the manifest. -/
  | clean (machineId : MachineId)
  | removeManifest (machineId : MachineId)
  | removeLease (machineId : MachineId)
  | release (machineId : MachineId)
  /-- A file operation fails, and the operation on the machine ends. -/
  | fail (machineId : MachineId)
  /-- The controller crashes, and another one goes on. -/
  | crash

namespace StateRoot

variable (root : StateRoot)

def move (machineId : MachineId) (phase : SlotPhase) : StateRoot :=
  { root with phases := Function.update root.phases machineId phase }

def setSlot (slot : ℕ) (file : Option SlotFile) : StateRoot :=
  { root with slots := Function.update root.slots slot file }

def setManifest (machineId : MachineId) (slot : Option ℕ) : StateRoot :=
  { root with manifests := Function.update root.manifests machineId slot }

section Updates
variable (machineId other : MachineId) (phase : SlotPhase) (slot read : ℕ) (file : Option SlotFile)
  (listed : Option ℕ)

@[simp, grind =] theorem move_slots :
    (root.move machineId phase).slots slot = root.slots slot := rfl

@[simp, grind =] theorem move_manifests :
    (root.move machineId phase).manifests other = root.manifests other := rfl

@[simp, grind =] theorem move_phases : (root.move machineId phase).phases other =
    if other = machineId then phase else root.phases other :=
  update_apply root.phases machineId phase other

@[simp, grind =] theorem setSlot_slots : (root.setSlot slot file).slots read =
    if read = slot then file else root.slots read :=
  update_apply root.slots slot file read

@[simp, grind =] theorem setSlot_manifests :
    (root.setSlot slot file).manifests other = root.manifests other := rfl

@[simp, grind =] theorem setSlot_phases :
    (root.setSlot slot file).phases other = root.phases other := rfl

@[simp, grind =] theorem setManifest_slots :
    (root.setManifest machineId listed).slots slot = root.slots slot := rfl

@[simp, grind =] theorem setManifest_manifests :
    (root.setManifest machineId listed).manifests other =
      if other = machineId then listed else root.manifests other :=
  update_apply root.manifests machineId listed other

@[simp, grind =] theorem setManifest_phases :
    (root.setManifest machineId listed).phases other = root.phases other := rfl

end Updates

/-- One step, if it can be taken.  The lifecycle lock of a machine lets one operation at a time work
on it. -/
def step : SlotLabel → Option StateRoot
  | .allocate machineId first =>
    if root.phases machineId = .idle ∧ first < maxResourceSlots then
      some (root.move machineId (.scanning first 0))
    else none
  | .attempt machineId =>
    match root.phases machineId with
    | .scanning first offset =>
      if offset < maxResourceSlots then
        let slot := (first + offset) % maxResourceSlots
        match root.slots slot with
        | none => some ((root.setSlot slot (some .empty)).move machineId (.claimed slot))
        | some _ => some (root.move machineId (.scanning first (offset + 1)))
      else some (root.move machineId .idle)
    | _ => none
  | .write machineId =>
    match root.phases machineId with
    | .claimed slot =>
      some ((root.setSlot slot (some (.owner machineId))).move machineId (.written slot))
    | _ => none
  | .publish machineId =>
    match root.phases machineId with
    | .written slot =>
      match root.manifests machineId with
      | none => some ((root.setManifest machineId (some slot)).move machineId .idle)
      | some _ => some (root.move machineId (.releasing slot))
    | _ => none
  | .refuse machineId =>
    match root.phases machineId with
    | .written slot => some (root.move machineId (.releasing slot))
    | _ => none
  | .clean machineId =>
    match root.phases machineId, root.manifests machineId with
    | .idle, some slot => some (root.move machineId (.cleaning slot))
    | .idle, none => some root
    | _, _ => none
  | .removeManifest machineId =>
    match root.phases machineId with
    | .cleaning slot => some ((root.setManifest machineId none).move machineId (.unlisted slot))
    | _ => none
  | .removeLease machineId =>
    match root.phases machineId with
    | .unlisted slot => some (root.move machineId (.releasing slot))
    | _ => none
  | .release machineId =>
    match root.phases machineId with
    | .releasing slot =>
      -- A file with another content is refused.
      if root.slots slot = some (.owner machineId) then
        some ((root.setSlot slot none).move machineId .idle)
      else some (root.move machineId .idle)
    | _ => none
  | .fail machineId =>
    if root.phases machineId = .idle then none else some (root.move machineId .idle)
  | .crash => some { root with phases := fun _ ↦ .idle }

end StateRoot

/-- Any allocations and cleanups of any machines in one state root. -/
def slotClaims : System StateRoot SlotLabel where
  enabled root label := (root.step label).isSome
  next root label := (root.step label).getD root

instance (root : StateRoot) (label : SlotLabel) : Decidable (slotClaims.enabled root label) :=
  inferInstanceAs (Decidable ((root.step label).isSome = true))

/-- A state root in which nothing was claimed. -/
def StateRoot.fresh : StateRoot := ⟨fun _ ↦ none, fun _ ↦ none, fun _ ↦ .idle⟩

/-- No operation ends while it alone knows of a slot file. -/
def Uninterrupted (root : StateRoot) : SlotLabel → Prop
  | .fail machineId => (root.phases machineId).slot? = none
  | .crash => ∀ machineId, (root.phases machineId).slot? = none
  | _ => True

/-- No two manifests name one slot and each slot file names its machine; a claimed slot has a
manifest or an operation on its way, and with fewer of these than slots one is free. -/
structure StateRoot.Exclusive (root : StateRoot) : Prop where
  exclusive : ∀ machineId other slot, root.manifests machineId = some slot →
    root.manifests other = some slot → machineId = other
  named : ∀ machineId slot, root.manifests machineId = some slot →
    slot < maxResourceSlots ∧ root.slots slot = some (.owner machineId)
  reclaimed : ∀ slot, root.slots slot ≠ none →
    (∃ machineId, root.manifests machineId = some slot) ∨
      ∃ machineId, (root.phases machineId).slot? = some slot
  allocatable : ∀ machines operations : Finset MachineId,
    (∀ machineId, root.manifests machineId ≠ none → machineId ∈ machines) →
    (∀ machineId, (root.phases machineId).slot? ≠ none → machineId ∈ operations) →
    machines.card + operations.card < maxResourceSlots →
    ∃ slot < maxResourceSlots, root.slots slot = none

/-! ## What a step does -/

variable (root : StateRoot) in
/-- A step with what it found. -/
inductive SlotSteps : SlotLabel → StateRoot → Prop where
  | allocate {machineId : MachineId} {first : ℕ} (hidle : root.phases machineId = .idle)
      (hfirst : first < maxResourceSlots) :
    SlotSteps (.allocate machineId first) (root.move machineId (.scanning first 0))
  | create {machineId : MachineId} {first offset : ℕ}
      (hphase : root.phases machineId = .scanning first offset)
      (hfree : root.slots ((first + offset) % maxResourceSlots) = none) :
    SlotSteps (.attempt machineId)
      ((root.setSlot ((first + offset) % maxResourceSlots) (some .empty)).move machineId
        (.claimed ((first + offset) % maxResourceSlots)))
  | busy {machineId : MachineId} {first offset : ℕ}
      (hphase : root.phases machineId = .scanning first offset) :
    SlotSteps (.attempt machineId) (root.move machineId (.scanning first (offset + 1)))
  | exhausted {machineId : MachineId} {first offset : ℕ}
      (hphase : root.phases machineId = .scanning first offset) :
    SlotSteps (.attempt machineId) (root.move machineId .idle)
  | write {machineId : MachineId} {slot : ℕ} (hphase : root.phases machineId = .claimed slot) :
    SlotSteps (.write machineId)
      ((root.setSlot slot (some (.owner machineId))).move machineId (.written slot))
  | publish {machineId : MachineId} {slot : ℕ} (hphase : root.phases machineId = .written slot)
      (hnone : root.manifests machineId = none) :
    SlotSteps (.publish machineId) ((root.setManifest machineId (some slot)).move machineId .idle)
  | taken {machineId : MachineId} {slot : ℕ} (hphase : root.phases machineId = .written slot) :
    SlotSteps (.publish machineId) (root.move machineId (.releasing slot))
  | refuse {machineId : MachineId} {slot : ℕ} (hphase : root.phases machineId = .written slot) :
    SlotSteps (.refuse machineId) (root.move machineId (.releasing slot))
  | clean {machineId : MachineId} {slot : ℕ} (hidle : root.phases machineId = .idle)
      (hmanifest : root.manifests machineId = some slot) :
    SlotSteps (.clean machineId) (root.move machineId (.cleaning slot))
  | nothing {machineId : MachineId} : SlotSteps (.clean machineId) root
  | removeManifest {machineId : MachineId} {slot : ℕ}
      (hphase : root.phases machineId = .cleaning slot) :
    SlotSteps (.removeManifest machineId)
      ((root.setManifest machineId none).move machineId (.unlisted slot))
  | removeLease {machineId : MachineId} {slot : ℕ}
      (hphase : root.phases machineId = .unlisted slot) :
    SlotSteps (.removeLease machineId) (root.move machineId (.releasing slot))
  | release {machineId : MachineId} {slot : ℕ} (hphase : root.phases machineId = .releasing slot)
      (hfile : root.slots slot = some (.owner machineId)) :
    SlotSteps (.release machineId) ((root.setSlot slot none).move machineId .idle)
  | kept {machineId : MachineId} {slot : ℕ} (hphase : root.phases machineId = .releasing slot)
      (hfile : root.slots slot ≠ some (.owner machineId)) :
    SlotSteps (.release machineId) (root.move machineId .idle)
  | fail {machineId : MachineId} : SlotSteps (.fail machineId) (root.move machineId .idle)
  | crash : SlotSteps .crash { root with phases := fun _ ↦ .idle }

section SlotRuns
variable {root root' : StateRoot} {label : SlotLabel}

theorem slotSteps_of_step (hstep : root.step label = some root') : SlotSteps root label root' := by
  revert hstep
  fun_cases StateRoot.step root label <;> rintro ⟨⟩
  · rename_i hguard
    exact .allocate hguard.1 hguard.2
  · exact .create ‹_› ‹_›
  · exact .busy ‹_›
  · exact .exhausted ‹_›
  · exact .write ‹_›
  · exact .publish ‹_› ‹_›
  · exact .taken ‹_›
  · exact .refuse ‹_›
  · exact .clean ‹_› ‹_›
  · exact .nothing
  · exact .removeManifest ‹_›
  · exact .removeLease ‹_›
  · exact .release ‹_› ‹_›
  · exact .kept ‹_› ‹_›
  · exact .fail
  · exact .crash

theorem slotSteps_of_enabled (henabled : slotClaims.enabled root label) :
    SlotSteps root label (slotClaims.next root label) :=
  slotSteps_of_step (Option.getD_of_ne_none (Option.isSome_iff_ne_none.1 henabled) _).symm

/-! ## Exclusion -/

/-- What the file of an operation's own slot holds. -/
def SlotPhase.content (machineId : MachineId) : SlotPhase → SlotFile
  | claimed _ => .empty
  | idle | scanning _ _ | written _ | cleaning _ | unlisted _ | releasing _ => .owner machineId

namespace StateRoot

/-- Every manifest has its slot file, and so has every operation that is between the two. -/
structure Safe (root : StateRoot) : Prop where
  listed : ∀ machineId slot, root.manifests machineId = some slot →
    slot < maxResourceSlots ∧ root.slots slot = some (.owner machineId)
  files : ∀ machineId slot, (root.phases machineId).slot? = some slot →
    slot < maxResourceSlots ∧
      root.slots slot = some ((root.phases machineId).content machineId) ∧
      root.manifests machineId ≠ some slot
  once : ∀ machineId other slot, (root.phases machineId).slot? = some slot →
    (root.phases other).slot? = some slot → machineId = other
  cleaning : ∀ machineId slot, root.phases machineId = .cleaning slot →
    root.manifests machineId = some slot

variable {machineId : MachineId} {slot : ℕ} {phase : SlotPhase} {labels : List SlotLabel}

section
variable (hsafe : root.Safe)
include hsafe

/-- No operation holds the slot of a manifest. -/
theorem Safe.not_held {other : MachineId}
    (hlisted : root.manifests machineId = some slot) : (root.phases other).slot? ≠ some slot := by
  intro hheld
  obtain ⟨-, hfile, hdifferent⟩ := hsafe.files other slot hheld
  rw [(hsafe.listed machineId slot hlisted).2] at hfile
  have howner : SlotFile.owner machineId = .owner other := by
    cases hphase : root.phases other <;>
      simp [hphase, SlotPhase.content, SlotPhase.slot?] at hfile hheld ⊢ <;> exact hfile
  cases howner
  exact hdifferent hlisted

/-- An operation that goes on with the slot it has, or without one, keeps the files. -/
theorem Safe.move
    (hslot : ∀ slot, phase.slot? = some slot → (root.phases machineId).slot? = some slot ∧
      (root.phases machineId).content machineId = phase.content machineId)
    (hcleaning : ∀ slot, phase = .cleaning slot → root.manifests machineId = some slot) :
    (root.move machineId phase).Safe where
  listed := hsafe.listed
  files other slot hother := by
    rw [move_phases] at hother ⊢
    split_ifs at hother ⊢ with heq
    · obtain ⟨hslot, hcontent⟩ := hslot slot hother
      rw [heq, ← hcontent]
      exact hsafe.files machineId slot hslot
    · exact hsafe.files other slot hother
  once first second slot hfirst hsecond := by
    have hheld (other : MachineId)
        (hother : ((root.move machineId phase).phases other).slot? = some slot) :
        (root.phases other).slot? = some slot := by
      rw [move_phases] at hother
      split_ifs at hother with heq
      · exact heq ▸ (hslot slot hother).1
      · exact hother
    exact hsafe.once first second slot (hheld first hfirst) (hheld second hsecond)
  cleaning other slot hother := by
    rw [move_phases] at hother
    split_ifs at hother with heq
    · exact heq ▸ hcleaning slot hother
    · exact hsafe.cleaning other slot hother

theorem Safe.move_of_none (hslot : phase.slot? = none)
    (hcleaning : ∀ slot, phase = .cleaning slot → root.manifests machineId = some slot) :
    (root.move machineId phase).Safe :=
  hsafe.move (fun slot hsome ↦ by rw [hslot] at hsome; cases hsome) hcleaning

theorem Safe.steps (hstep : SlotSteps root label root') : root'.Safe := by
  cases hstep with
  | allocate hidle hfirst | busy hphase | exhausted hphase | kept hphase hfile | fail =>
    exact hsafe.move_of_none rfl (by simp)
  | taken hphase | refuse hphase | removeLease hphase =>
    exact hsafe.move (by simp [hphase, SlotPhase.slot?, SlotPhase.content]) (by simp)
  | clean hidle hmanifest => exact hsafe.move_of_none rfl (by simp [hmanifest])
  | nothing => exact hsafe
  | crash => exact ⟨hsafe.listed, by simp [SlotPhase.slot?], by simp [SlotPhase.slot?], by simp⟩
  | @create machineId first offset hphase hfree =>
    have hlt : (first + offset) % maxResourceSlots < maxResourceSlots :=
      Nat.mod_lt _ (by decide)
    generalize (first + offset) % maxResourceSlots = created at *
    obtain ⟨hlisted, hfiles, honce, hcleaning⟩ := hsafe
    constructor <;> grind [SlotPhase.slot?, SlotPhase.content]
  | write hphase | publish hphase hnone | release hphase hfile =>
    obtain ⟨hlisted, hfiles, honce, hcleaning⟩ := hsafe
    constructor <;> grind [SlotPhase.slot?, SlotPhase.content]
  | @removeManifest machineId slot hphase =>
    have hfree (other : MachineId) : (root.phases other).slot? ≠ some slot :=
      hsafe.not_held (hsafe.cleaning machineId slot hphase)
    obtain ⟨hlisted, hfiles, honce, hcleaning⟩ := hsafe
    constructor <;> grind [SlotPhase.slot?, SlotPhase.content]

end

/-! ## Reclaiming -/

/-- Every slot file has a manifest, or an operation that knows of it. -/
def Reclaimed (root : StateRoot) : Prop :=
  ∀ slot, root.slots slot ≠ none → (∃ machineId, root.manifests machineId = some slot) ∨
    ∃ machineId, (root.phases machineId).slot? = some slot

section
variable (hreclaimed : root.Reclaimed)
include hreclaimed

/-- An operation that keeps the slot it has keeps every file reachable. -/
theorem Reclaimed.move (hslot : ∀ slot, (root.phases machineId).slot? = some slot →
      phase.slot? = some slot ∨ root.slots slot = none ∨ root.manifests machineId = some slot) :
    (root.move machineId phase).Reclaimed := by
  intro slot hslots
  rcases hreclaimed slot hslots with hlisted | ⟨other, hother⟩
  · exact .inl hlisted
  · by_cases heq : other = machineId
    · rcases hslot slot (heq ▸ hother) with hkept | hnone | hlisted
      · exact .inr ⟨machineId, by simpa using hkept⟩
      · exact absurd hnone hslots
      · exact .inl ⟨machineId, hlisted⟩
    · exact .inr ⟨other, by simpa [heq] using hother⟩

theorem Reclaimed.steps (hsafe : root.Safe)
    (huninterrupted : Uninterrupted root label) (hstep : SlotSteps root label root') :
    root'.Reclaimed := by
  cases hstep with
  | allocate hidle hfirst | clean hidle hmanifest =>
    exact hreclaimed.move (by simp [hidle, SlotPhase.slot?])
  | busy hphase | exhausted hphase | taken hphase | refuse hphase | removeLease hphase =>
    exact hreclaimed.move (by simp [hphase, SlotPhase.slot?])
  | nothing => exact hreclaimed
  | @kept machineId slot hphase hfile =>
    -- The file of a held slot names the machine.
    have hheld := hsafe.files machineId slot (by rw [hphase]; rfl)
    rw [hphase] at hheld
    exact absurd hheld.2.1 hfile
  | @fail machineId =>
    have hnone : (root.phases machineId).slot? = none := huninterrupted
    exact hreclaimed.move (by simp [hnone])
  | crash =>
    intro slot hslots
    have hnone : ∀ machineId, (root.phases machineId).slot? = none := huninterrupted
    rcases hreclaimed slot hslots with hlisted | ⟨machineId, hheld⟩
    · exact .inl hlisted
    · rw [hnone machineId] at hheld
      cases hheld
  | @create machineId first offset hphase hfree =>
    generalize (first + offset) % maxResourceSlots = created at *
    intro slot hslots
    by_cases heq : slot = created
    · exact .inr ⟨machineId, by simp [heq, SlotPhase.slot?]⟩
    · have hkept : (root.move machineId (.claimed created)).Reclaimed :=
        hreclaimed.move (by simp [hphase, SlotPhase.slot?])
      exact hkept slot (by simpa [heq] using hslots)
  | @write machineId written hphase =>
    intro slot hslots
    by_cases heq : slot = written
    · exact .inr ⟨machineId, by simp [heq, SlotPhase.slot?]⟩
    · have hkept : (root.move machineId (.written written)).Reclaimed :=
        hreclaimed.move (by simp [hphase, SlotPhase.slot?])
      exact hkept slot (by simpa [heq] using hslots)
  | @publish machineId published hphase hnone =>
    intro slot hslots
    by_cases heq : slot = published
    · exact .inl ⟨machineId, by simp [heq]⟩
    · rcases hreclaimed slot hslots with ⟨other, hother⟩ | ⟨other, hother⟩
      · have hne : other ≠ machineId := by
          intro heq
          rw [heq, hnone] at hother
          cases hother
        exact .inl ⟨other, by simpa [hne] using hother⟩
      · have hne : other ≠ machineId := by
          intro hsame
          rw [hsame, hphase] at hother
          cases hother
          exact heq rfl
        exact .inr ⟨other, by simpa [hne] using hother⟩
  | @removeManifest machineId removed hphase =>
    have hlisted := hsafe.cleaning machineId removed hphase
    intro slot hslots
    rcases hreclaimed slot hslots with ⟨other, hother⟩ | ⟨other, hother⟩
    · by_cases heq : other = machineId
      · rw [heq, hlisted] at hother
        exact .inr ⟨machineId, by simpa [SlotPhase.slot?] using hother⟩
      · exact .inl ⟨other, by simpa [heq] using hother⟩
    · have hne : other ≠ machineId := by
        intro heq
        rw [heq, hphase] at hother
        cases hother
      exact .inr ⟨other, by simpa [hne] using hother⟩
  | @release machineId released hphase hfile =>
    intro slot hslots
    have hne : slot ≠ released := by
      intro heq
      simp [heq] at hslots
    rcases hreclaimed slot (by simpa [hne] using hslots) with hlisted | ⟨other, hother⟩
    · exact .inl hlisted
    · have hdifferent : other ≠ machineId := by
        intro heq
        rw [heq, hphase] at hother
        cases hother
        exact hne rfl
      exact .inr ⟨other, by simpa [hdifferent] using hother⟩

/-- With fewer manifests and operations than slots, a slot is free. -/
theorem Reclaimed.allocatable (machines operations : Finset MachineId)
    (hmachines : ∀ machineId, root.manifests machineId ≠ none → machineId ∈ machines)
    (hoperations : ∀ machineId, (root.phases machineId).slot? ≠ none → machineId ∈ operations)
    (hfewer : machines.card + operations.card < maxResourceSlots) :
    ∃ slot < maxResourceSlots, root.slots slot = none := by
  by_contra hfull
  push Not at hfull
  let named : Finset ℕ := machines.image fun machineId ↦ (root.manifests machineId).getD 0
  let held : Finset ℕ :=
    operations.image fun machineId ↦ (root.phases machineId).slot?.getD 0
  have hcovered : range maxResourceSlots ⊆ named ∪ held := by
    intro slot hslot
    rcases hreclaimed slot (hfull slot (mem_range.1 hslot)) with
      ⟨machineId, hlisted⟩ | ⟨machineId, hlisted⟩
    · apply mem_union_left
      refine mem_image.2 ⟨machineId, ?_, ?_⟩
      · exact hmachines machineId (by simp [hlisted])
      · simp [hlisted]
    · apply mem_union_right
      refine mem_image.2 ⟨machineId, ?_, ?_⟩
      · exact hoperations machineId (by simp [hlisted])
      · simp [hlisted]
  have hcard : maxResourceSlots ≤ machines.card + operations.card := by
    calc maxResourceSlots = (range maxResourceSlots).card := (card_range _).symm
      _ ≤ (named ∪ held).card := card_le_card hcovered
      _ ≤ named.card + held.card := card_union_le _ _
      _ ≤ machines.card + operations.card :=
          Nat.add_le_add card_image_le card_image_le
  omega

end

/-! ## Runs -/

theorem Safe.fresh : fresh.Safe where
  listed := nofun
  files := nofun
  once := nofun
  cleaning := nofun

end StateRoot

/-- After every run from a fresh state root, whatever failed in it. -/
theorem safe_exec (hadmits : slotClaims.Admits .fresh labels) :
    (slotClaims.exec .fresh labels).Safe :=
  invariant StateRoot.Safe
    (fun _ _ hsafe henabled ↦ hsafe.steps (slotSteps_of_enabled henabled)) .fresh hadmits

/-- A slot file with nothing in it that no operation knows of. -/
def StateRoot.Orphaned (root : StateRoot) (slot : ℕ) : Prop :=
  root.slots slot = some .empty ∧ ∀ machineId, (root.phases machineId).slot? ≠ some slot

theorem StateRoot.Orphaned.steps (horphaned : root.Orphaned slot) (hsafe : root.Safe)
    (hstep : SlotSteps root label root') : root'.Orphaned slot := by
  obtain ⟨hempty, hheld⟩ := horphaned
  cases hstep with
  | @removeManifest machineId removed hphase =>
    -- The file of the manifest's slot names the machine.
    have hfile := (hsafe.listed machineId removed (hsafe.cleaning machineId removed hphase)).2
    constructor <;> grind [SlotPhase.slot?]
  | @create machineId first offset hphase hfree =>
    generalize (first + offset) % maxResourceSlots = created at *
    constructor <;> grind [SlotPhase.slot?]
  | crash => exact ⟨hempty, by simp [SlotPhase.slot?]⟩
  | _ => constructor <;> grind [SlotPhase.slot?]

theorem StateRoot.Orphaned.exec (horphaned : root.Orphaned slot) (hsafe : root.Safe)
    (hadmits : slotClaims.Admits root labels) : (slotClaims.exec root labels).Orphaned slot := by
  refine (invariant (fun root ↦ root.Orphaned slot ∧ root.Safe) ?_ ⟨horphaned, hsafe⟩ hadmits).1
  intro root label hroot henabled
  have hsteps := slotSteps_of_enabled henabled
  exact ⟨hroot.1.steps hroot.2 hsteps, hroot.2.steps hsteps⟩

/-- In the runs in which no operation ends while it alone knows of a slot file. -/
theorem reclaimed_exec (hadmits : slotClaims.Admits .fresh labels)
    (huninterrupted : slotClaims.Throughout Uninterrupted .fresh labels) :
    (slotClaims.exec .fresh labels).Safe ∧ (slotClaims.exec .fresh labels).Reclaimed := by
  have hrun := (admits_restrict_iff Uninterrupted .fresh labels).2 ⟨hadmits, huninterrupted⟩
  refine invariant_of_restrict (fun root ↦ root.Safe ∧ root.Reclaimed) ?_
    ⟨.fresh, fun slot hslots ↦ absurd rfl hslots⟩ hrun
  intro root label hroot henabled hlabel
  have hsteps := slotSteps_of_enabled henabled
  exact ⟨hroot.1.steps hsteps, hroot.2.steps hroot.1 hlabel hsteps⟩

/-- The slots of a state root are exclusive, and none is lost in the runs in which no operation is
interrupted while it alone knows of a slot file. -/
theorem slots_exclusive {labels : List SlotLabel} {jailerUidBase : ℕ}
    (hadmits : slotClaims.Admits .fresh labels)
    (huninterrupted : slotClaims.Throughout Uninterrupted .fresh labels)
    (hbase : validateJailerUidBase jailerUidBase = .ok ()) :
    (slotClaims.exec .fresh labels).Exclusive ∧ SlotNetworks jailerUidBase := by
  obtain ⟨hsafe, hreclaimed⟩ := reclaimed_exec hadmits huninterrupted
  refine ⟨?_, slotNetworks hbase⟩
  constructor
  case exclusive =>
    intro machineId other slot hlisted hother
    have hfile := (hsafe.listed machineId slot hlisted).2
    rw [(hsafe.listed other slot hother).2] at hfile
    cases hfile
    rfl
  case named => exact hsafe.listed
  case reclaimed => exact hreclaimed
  case allocatable => exact hreclaimed.allocatable

/-- One machine scans past another's slot and is removed again, and an acquire that has no slot yet
fails. -/
def scanningRun : List SlotLabel :=
  [.allocate "a" 0, .attempt "a", .write "a", .publish "a", .allocate "b" 0, .attempt "b",
    .attempt "b", .write "b", .publish "b", .allocate "c" 0, .fail "c", .clean "b",
    .removeManifest "b", .removeLease "b", .release "b"]

theorem slots_exclusive_scanningRun :
    (slotClaims.exec .fresh scanningRun).Exclusive ∧ SlotNetworks 65536 :=
  slots_exclusive (by decide +kernel)
    ⟨trivial, trivial, trivial, trivial, trivial, trivial, trivial, trivial, trivial, trivial, rfl,
      trivial, trivial, trivial, trivial, trivial⟩ (by decide)

/-- The controller crashes right after it created a slot file. -/
def orphaningRun : List SlotLabel := [.allocate "a" 0, .attempt "a", .crash]

/-- The slot is claimed for good, without a manifest or an operation. -/
theorem orphaned_orphaningRun : slotClaims.Admits .fresh orphaningRun ∧
      ¬(slotClaims.exec .fresh orphaningRun).Exclusive ∧
      ∀ labels, slotClaims.Admits (slotClaims.exec .fresh orphaningRun) labels →
        (slotClaims.exec (slotClaims.exec .fresh orphaningRun) labels).slots 0 = some .empty := by
  have hempty : (slotClaims.exec .fresh orphaningRun).slots 0 = some .empty := by decide +kernel
  have hidle (machineId : MachineId) :
      ((slotClaims.exec .fresh orphaningRun).phases machineId).slot? ≠ some 0 := by
    show SlotPhase.slot? .idle ≠ some 0
    decide
  have hrun : slotClaims.Admits .fresh orphaningRun := by decide +kernel
  refine ⟨hrun, ?_, ?_⟩
  · intro hexclusive
    rcases hexclusive.reclaimed 0 (by rw [hempty]; simp) with ⟨machineId, hlisted⟩ | ⟨_, hheld⟩
    · cases hlisted
    · exact hidle _ hheld
  · intro labels hadmits
    exact (StateRoot.Orphaned.exec ⟨hempty, hidle⟩ (safe_exec hrun) hadmits).1

end SlotRuns

end Exo.Firecracker
