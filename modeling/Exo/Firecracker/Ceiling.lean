import Exo.Firecracker.Capacity

/-!
# When the ceiling holds

While a call holds the gate nothing becomes occupied, so whatever it counts was occupied together
when it entered; that settles the refusals.  For the ceiling every running machine must be starting,
found by the scan, or still to be read, and only a dropped reservation, a lost manifest or an untrue
look can break that.
-/

namespace Exo.Firecracker

open Library List System

variable {maxMachines : ℕ} {host host' : Host} {label : Label}

/-! ## The calls and the set agree -/

/-- One call at a time works on a machine and one scans; the starting machines are those of the
reservations. -/
structure Host.Sound (host : Host) : Prop where
  unique : ∀ (i j : ℕ) (call other : Call), host.calls[i]? = some call →
    host.calls[j]? = some other → call.machineId = other.machineId →
    call.phase.inProgress = true → other.phase.inProgress = true → i = j
  gate : ∀ (i j : ℕ) (call other : Call), host.calls[i]? = some call →
    host.calls[j]? = some other → call.phase.isScanning = true →
    other.phase.isScanning = true → i = j
  starting : ∀ machineId, machineId ∈ host.starting ↔
    ∃ (i : ℕ) (call : Call), host.calls[i]? = some call ∧ call.machineId = machineId ∧
      call.phase.isReserved = true

variable {phase old : Phase} {i : ℕ} {machineId : MachineId}
  {starting due : Finset MachineId} {live : List MachineId} {after : Host}

theorem inProgress_of_isReserved (hreserved : phase.isReserved = true) :
    phase.inProgress = true := by
  cases phase <;> first | rfl | cases hreserved

theorem Host.Idle.sound (hidle : host.Idle) : host.Sound where
  unique := by simp [hidle.calls]
  gate := by simp [hidle.calls]
  starting := by simp [hidle.calls, hidle.starting]

/-- The machine of a call in progress is starting exactly if the call has the reservation. -/
theorem Host.Sound.mem_starting (hsound : host.Sound)
    (hcall : host.calls[i]? = some ⟨machineId, phase⟩) (hprogress : phase.inProgress = true) :
    machineId ∈ host.starting ↔ phase.isReserved = true := by
  rw [hsound.starting]
  constructor
  · rintro ⟨j, other, hother, hmachine, hreserved⟩
    obtain rfl := hsound.unique i j _ _ hcall hother hmachine.symm hprogress
      (inProgress_of_isReserved hreserved)
    rw [hcall] at hother
    cases hother
    exact hreserved
  · exact fun hreserved ↦ ⟨i, _, hcall, rfl, hreserved⟩

/-- A call in progress moves on; the sets may change with it. -/
theorem Host.Sound.move (hsound : host.Sound)
    (hcall : host.calls[i]? = some ⟨machineId, old⟩) (hold : old.inProgress = true)
    (hcalls : after.calls = (host.move i phase).calls)
    (hscan : phase.isScanning = true → old.isScanning = true ∨
      ∀ call ∈ host.calls, call.phase.isScanning = false) (hstarting : ∀ x, x ∈ after.starting ↔
      if x = machineId then phase.isReserved = true else x ∈ host.starting) : after.Sound := by
  have hget : ∀ j, after.calls[j]? =
      if j = i then some ⟨machineId, phase⟩ else host.calls[j]? := by
    rw [hcalls]
    exact getElem?_move hcall
  refine ⟨?_, ?_, ?_⟩
  · intro j k call other hj hk hmachine hprogress hother
    rw [hget] at hj hk
    split_ifs at hj hk with hji hki hki
    · rw [hji, hki]
    · cases hj
      exact hji.trans (hsound.unique i k _ _ hcall hk hmachine hold hother)
    · cases hk
      exact (hsound.unique j i _ _ hj hcall hmachine hprogress hold).trans hki.symm
    · exact hsound.unique j k _ _ hj hk hmachine hprogress hother
  · intro j k call other hj hk hscanning hother
    rw [hget] at hj hk
    split_ifs at hj hk with hji hki hki
    · rw [hji, hki]
    · cases hj
      rcases hscan hscanning with hwas | hnone
      · exact hji.trans (hsound.gate i k _ _ hcall hk hwas hother)
      · rw [hnone _ (mem_of_getElem? hk)] at hother
        cases hother
    · cases hk
      rcases hscan hother with hwas | hnone
      · exact (hsound.gate j i _ _ hj hcall hscanning hwas).trans hki.symm
      · rw [hnone _ (mem_of_getElem? hj)] at hscanning
        cases hscanning
    · exact hsound.gate j k _ _ hj hk hscanning hother
  · intro x
    rw [hstarting]
    split_ifs with hx
    · subst hx
      constructor
      · exact fun hreserved ↦ ⟨i, _, (hget i).trans (if_pos rfl), rfl, hreserved⟩
      · rintro ⟨j, call, hj, hmachine, hreserved⟩
        rw [hget] at hj
        split_ifs at hj with hji
        · cases hj
          exact hreserved
        · have hsame := hsound.unique j i _ _ hj hcall hmachine
            (inProgress_of_isReserved hreserved) hold
          exact absurd hsame hji
    · rw [hsound.starting]
      constructor
      · rintro ⟨j, call, hj, hmachine, hreserved⟩
        have hji : j ≠ i := by
          rintro rfl
          rw [hcall] at hj
          cases hj
          exact hx hmachine.symm
        exact ⟨j, call, (hget j).trans ((if_neg hji).trans hj), hmachine, hreserved⟩
      · rintro ⟨j, call, hj, hmachine, hreserved⟩
        rw [hget] at hj
        split_ifs at hj with hji
        · cases hj
          exact absurd hmachine.symm hx
        · exact ⟨j, call, hj, hmachine, hreserved⟩

/-- A call that keeps what it has of a reservation leaves the set as it is. -/
theorem Host.Sound.starting_same (hsound : host.Sound)
    (hcall : host.calls[i]? = some ⟨machineId, old⟩) (hold : old.inProgress = true)
    (hsame : phase.isReserved = old.isReserved) (x : MachineId) :
    x ∈ host.starting ↔ if x = machineId then phase.isReserved = true else x ∈ host.starting := by
  split_ifs with hx
  · rw [hx, hsame]
    exact hsound.mem_starting hcall hold
  · exact Iff.rfl

/-- What the admission decides: an exception for a machine that is counted already. -/
theorem admit_cases (maxMachines : ℕ) (live : List MachineId) (starting : Finset MachineId)
    (machineId : MachineId) :
    machineId ∈ starting ∧
        (∃ message, admitMachineCapacity maxMachines live starting machineId = .error message) ∨
      machineId ∉ starting ∧
        (machineId ∈ live ∨ (live.toFinset ∪ starting).card < maxMachines) ∧
        admitMachineCapacity maxMachines live starting machineId =
          .ok (insert machineId starting) ∨
      machineId ∉ starting ∧ machineId ∉ live ∧ maxMachines ≤ (live.toFinset ∪ starting).card ∧
        ∃ message, admitMachineCapacity maxMachines live starting machineId = .error message := by
  by_cases hstarting : machineId ∈ starting
  · exact .inl ⟨hstarting, _, by rw [admitMachineCapacity, if_pos hstarting]⟩
  right
  by_cases hcapacity : machineId ∈ live ∨ (live.toFinset ∪ starting).card < maxMachines
  · left
    refine ⟨hstarting, hcapacity, ?_⟩
    have hcheck : (decide (machineId ∈ live.toFinset ∪ starting) ||
        decide ((live.toFinset ∪ starting).card < maxMachines)) = true := by
      simpa [hstarting] using hcapacity
    simp only [admitMachineCapacity, if_neg hstarting, ensureMachineCapacity, if_pos hcheck]
  · right
    have hcheck : ¬ (decide (machineId ∈ live.toFinset ∪ starting) ||
        decide ((live.toFinset ∪ starting).card < maxMachines)) = true := by
      simpa [hstarting] using hcapacity
    rw [not_or, not_lt] at hcapacity
    refine ⟨hstarting, hcapacity.1, hcapacity.2, ?_⟩
    simp only [admitMachineCapacity, if_neg hstarting, ensureMachineCapacity, if_neg hcheck]
    exact ⟨_, rfl⟩

theorem admit_eq_ok {starting' : Finset MachineId}
    (hadmission : admitMachineCapacity maxMachines live starting machineId = .ok starting') :
    starting' = insert machineId starting ∧ machineId ∉ starting ∧
      (machineId ∈ live ∨ (live.toFinset ∪ starting).card < maxMachines) := by
  rcases admit_cases maxMachines live starting machineId with
    ⟨-, message, herror⟩ | ⟨hnot, hcapacity, hok⟩ | ⟨-, -, -, message, herror⟩
  · rw [herror] at hadmission
    cases hadmission
  · rw [hok] at hadmission
    cases hadmission
    exact ⟨rfl, hnot, hcapacity⟩
  · rw [herror] at hadmission
    cases hadmission

theorem admit_eq_error {message : String} (hnot : machineId ∉ starting)
    (hadmission : admitMachineCapacity maxMachines live starting machineId = .error message) :
    machineId ∉ live ∧ maxMachines ≤ (live.toFinset ∪ starting).card := by
  rcases admit_cases maxMachines live starting machineId with
    ⟨hstarting, -⟩ | ⟨-, -, hok⟩ | ⟨-, hlive, hcard, -⟩
  · exact absurd hstarting hnot
  · rw [hok] at hadmission
    cases hadmission
  · exact ⟨hlive, hcard⟩

theorem getElem?_append_cases {calls : List Call} {new call : Call}
    (hcall : (calls ++ [new])[i]? = some call) :
    calls[i]? = some call ∨ i = calls.length ∧ call = new := by
  rcases lt_trichotomy i calls.length with hlt | rfl | hgt
  · exact .inl (by rwa [getElem?_append_left hlt] at hcall)
  · right
    simpa [eq_comm] using hcall
  · rw [getElem?_eq_none (by simp; omega)] at hcall
    cases hcall

theorem Host.Sound.call (hsound : host.Sound)
    (hfree : ∀ call ∈ host.calls, call.machineId = machineId → call.phase.inProgress = false) :
    ({ host with calls := host.calls ++ [⟨machineId, .waiting⟩] } : Host).Sound where
  unique i j call other hi hj hmachine hprogress hother := by
    rcases getElem?_append_cases hi with hi | ⟨rfl, rfl⟩
    · rcases getElem?_append_cases hj with hj | ⟨rfl, rfl⟩
      · exact hsound.unique i j call other hi hj hmachine hprogress hother
      · rw [hfree call (List.mem_of_getElem? hi) hmachine] at hprogress
        cases hprogress
    · rcases getElem?_append_cases hj with hj | ⟨rfl, rfl⟩
      · rw [hfree other (List.mem_of_getElem? hj) hmachine.symm] at hother
        cases hother
      · rfl
  gate i j call other hi hj hscanning hother := by
    rcases getElem?_append_cases hi with hi | ⟨rfl, rfl⟩
    · rcases getElem?_append_cases hj with hj | ⟨rfl, rfl⟩
      · exact hsound.gate i j call other hi hj hscanning hother
      · cases hother
    · cases hscanning
  starting x := by
    rw [hsound.starting]
    constructor
    · rintro ⟨i, call, hi, hmachine, hreserved⟩
      have hlt := (List.getElem?_eq_some_iff.1 hi).1
      exact ⟨i, call, (List.getElem?_append_left hlt).trans hi, hmachine, hreserved⟩
    · rintro ⟨i, call, hi, hmachine, hreserved⟩
      rcases getElem?_append_cases hi with hi | ⟨rfl, rfl⟩
      · exact ⟨i, call, hi, hmachine, hreserved⟩
      · cases hreserved

theorem Host.Sound.step (hsound : host.Sound) (hstep : Steps maxMachines host label host') :
    host'.Sound := by
  cases hstep with
  | call hfree => exact hsound.call hfree
  | enter hcall hgate =>
    exact hsound.move hcall rfl rfl (fun _ ↦ .inr hgate) (hsound.starting_same hcall rfl rfl)
  | found hcall | missed hcall =>
    exact hsound.move hcall rfl rfl (fun _ ↦ .inl rfl) (hsound.starting_same hcall rfl rfl)
  | fail hcall hphase =>
    exact hsound.move hcall hphase.1 rfl (by simp [Phase.isScanning])
      (hsound.starting_same hcall hphase.1 hphase.2.symm)
  | refused hcall | launch hcall | launched hcall | cleaned hcall =>
    exact hsound.move hcall rfl rfl (by simp [Phase.isScanning])
      (hsound.starting_same hcall rfl rfl)
  | @admitted index machineId live starting hcall hadmission =>
    obtain ⟨rfl, -⟩ := admit_eq_ok hadmission
    refine hsound.move hcall rfl rfl (by simp [Phase.isScanning]) (fun x ↦ ?_)
    simp only [Host.move, Finset.mem_insert, Phase.isReserved]
    split_ifs with hx <;> simp [hx]
  | @drop index machineId launching hcall =>
    refine hsound.move hcall rfl rfl (by simp [Phase.isScanning]) (fun x ↦ ?_)
    simp only [Host.move, Finset.mem_erase, Phase.isReserved]
    split_ifs with hx <;> simp [hx]
  | record | land | exit | process | remove =>
    exact ⟨hsound.unique, hsound.gate, hsound.starting⟩

/-! ## Nothing becomes occupied under the gate -/

/-- A call that moves on but does not scan leaves the scans where they were. -/
theorem scanning_of_move {index : ℕ} (hcall : host.calls[index]? = some ⟨machineId, old⟩)
    (hphase : phase.isScanning = false) {other : MachineId}
    (hscan : (host.move index phase).calls[i]? = some ⟨other, .scanning due live⟩) :
    i ≠ index ∧ host.calls[i]? = some ⟨other, .scanning due live⟩ := by
  rw [getElem?_move hcall] at hscan
  split_ifs at hscan with hi
  · cases hscan
    cases hphase
  · exact ⟨hi, hscan⟩

/-- Only an admission adds to the machines that are occupied. -/
theorem Host.Sound.occupied_of_step (hsound : host.Sound)
    (hstep : Steps maxMachines host label host') :
    host'.occupied ⊆ host.occupied ∨
      ∃ (index : ℕ) (machineId : MachineId) (live : List MachineId) (starting : Finset MachineId),
        host.calls[index]? = some ⟨machineId, .scanning ∅ live⟩ ∧
        admitMachineCapacity maxMachines live host.starting machineId = .ok starting ∧
        host' = { host with starting }.move index (.reserved false) := by
  have hmem : ∀ {x}, x ∈ host.occupied ↔
      x ∈ host.running ∨ x ∈ host.orphans ∨ x ∈ host.starting := by
    simp [Host.occupied]
  cases hstep with
  | @admitted index machineId live starting hcall hadmission =>
    exact .inr ⟨index, machineId, live, starting, hcall, hadmission, rfl⟩
  | launched hcall =>
    left
    have hstarting := (hsound.mem_starting hcall rfl).2 rfl
    intro x hx
    simp only [Host.occupied, Host.move, Finset.mem_union, Finset.mem_insert] at hx
    grind
  | drop hcall =>
    left
    have hstarting := (hsound.mem_starting hcall rfl).2 rfl
    intro x hx
    simp only [Host.occupied, Host.move, Finset.mem_union, Finset.mem_erase] at hx
    grind
  | land horphan =>
    left
    intro x hx
    simp only [Host.occupied, Finset.mem_union, Finset.mem_erase] at hx
    grind
  | exit =>
    left
    intro x hx
    simp only [Host.occupied, Finset.mem_union, Finset.mem_erase] at hx
    grind
  | _ => exact .inl (Finset.Subset.refl _)

/-- While a call scans nothing becomes occupied. -/
theorem Host.Sound.occupied_of_scanning (hsound : host.Sound)
    (hstep : Steps maxMachines host label host')
    (hscan : host'.calls[i]? = some ⟨machineId, .scanning due live⟩) :
    host'.occupied ⊆ host.occupied := by
  rcases hsound.occupied_of_step hstep with hless | ⟨index, other, found, starting, hcall, -, rfl⟩
  · exact hless
  · obtain ⟨hi, hold⟩ := scanning_of_move hcall rfl hscan
    exact absurd (hsound.gate _ _ _ _ hold hcall rfl rfl) hi

/-- What a scan may be from one step to the next: it was entered just now, or it has gone on and has
found at most a machine that is occupied, and no machine that runs without a reservation got lost
between `due` and `live`. -/
def Scanned (host host' : Host) (i : ℕ) (machineId : MachineId) (due : Finset MachineId)
    (live : List MachineId) : Prop :=
  due = host.manifests ∧ live = [] ∨
    ∃ due' live', host.calls[i]? = some ⟨machineId, .scanning due' live'⟩ ∧
      (∀ x ∈ live, x ∈ live' ∨ x ∈ host.occupied) ∧
      ∀ x ∈ host.running, x ∈ host.starting ∨ x ∈ host.manifests → x ∈ due' ∨ x ∈ live' →
        x ∈ host'.starting ∨ x ∈ due ∨ x ∈ live

theorem scanned_same (hscan : host.calls[i]? = some ⟨machineId, .scanning due live⟩) :
    Scanned host host' i machineId due live :=
  .inr ⟨due, live, hscan, fun _ hx ↦ .inl hx, fun _ _ _ ↦ .inr⟩

theorem scanned_of_step (hstep : Steps maxMachines host label host')
    (hlooks : LooksTruly host label)
    (hscan : host'.calls[i]? = some ⟨machineId, .scanning due live⟩) :
    Scanned host host' i machineId due live := by
  cases hstep with
  | call hfree =>
    rcases getElem?_append_cases hscan with hi | ⟨-, hnew⟩
    · exact scanned_same hi
    · cases hnew
  | enter hcall hgate =>
    rw [getElem?_move hcall] at hscan
    split_ifs at hscan with hi
    · cases hscan
      exact .inl ⟨rfl, rfl⟩
    · exact scanned_same hscan
  | @found index machine seen due' live' hcall hprocess =>
    rw [getElem?_move hcall] at hscan
    split_ifs at hscan with hi
    · cases hscan
      subst hi
      refine .inr ⟨due', live', hcall, fun x hx ↦ ?_, fun x _ _ hx ↦ .inr ?_⟩
      · rcases mem_append.1 hx with hold | hnew
        · exact .inl hold
        · obtain rfl := mem_singleton.1 hnew
          exact .inr ((hlooks hprocess.1).1 hprocess.2)
      · by_cases hseen : x = seen
        · exact .inr (mem_append_right _ (mem_singleton.2 hseen))
        · exact hx.imp (fun hdue ↦ Finset.mem_erase.2 ⟨hseen, hdue⟩)
            fun hlive ↦ mem_append_left _ hlive
    · exact scanned_same hscan
  | @missed index machine seen due' live' hcall hdead =>
    rw [getElem?_move hcall] at hscan
    split_ifs at hscan with hi
    · cases hscan
      subst hi
      refine .inr ⟨due', live, hcall, fun x hx ↦ .inl hx, fun x hrunning hrecorded hx ↦ ?_⟩
      by_cases hstarting : x ∈ host.starting
      · exact .inl hstarting
      have hmanifest := hrecorded.resolve_left hstarting
      refine .inr (hx.imp_left fun hdue ↦ Finset.mem_erase.2 ⟨?_, hdue⟩)
      rintro rfl
      exact hdead hmanifest ((hlooks hmanifest).2 hrunning hstarting)
    · exact scanned_same hscan
  | fail hcall | refused hcall | admitted hcall | launch hcall | launched hcall | cleaned hcall
  | drop hcall => exact scanned_same (scanning_of_move hcall rfl hscan).2
  | record | land | exit | process | remove => exact scanned_same hscan

/-! ## Runs -/

variable {start : Host} {labels : List Label}

theorem sound_exec (hidle : start.Idle) (hrun : (firecracker maxMachines).Admits start labels) :
    ((firecracker maxMachines).exec start labels).Sound :=
  invariant Host.Sound
    (fun _ _ hsound henabled ↦ hsound.step (steps_of_enabled henabled)) hidle.sound hrun

/-- At some moment of the call, with these machines all occupied. -/
def Moment (maxMachines : ℕ) (start : Host) (labels : List Label) (i : ℕ) (machineId : MachineId)
    (P : Host → Prop) : Prop :=
  ∃ first phase, first <+: labels ∧
    ((firecracker maxMachines).exec start first).calls[i]? = some ⟨machineId, phase⟩ ∧
    phase.inProgress = true ∧ P ((firecracker maxMachines).exec start first)

theorem Moment.snoc {P Q : Host → Prop} (hmoment : Moment maxMachines start labels i machineId P)
    (label : Label) (himp : ∀ host, P host → Q host) :
    Moment maxMachines start (labels ++ [label]) i machineId Q := by
  obtain ⟨first, phase, hfirst, hcall, hprogress, hP⟩ := hmoment
  exact ⟨first, phase, hfirst.trans (prefix_append labels [label]), hcall, hprogress, himp _ hP⟩

/-- What a scan has found and what is occupied now was occupied together during the call. -/
def FoundTogether (maxMachines : ℕ) (start : Host) (labels : List Label) (host : Host) : Prop :=
  ∀ (i : ℕ) (machineId : MachineId) (due : Finset MachineId) (live : List MachineId),
    host.calls[i]? = some ⟨machineId, .scanning due live⟩ →
    Moment maxMachines start labels i machineId fun before ↦
      ∀ x, x ∈ live ∨ x ∈ host.occupied → x ∈ before.occupied

theorem exec_snoc (label : Label) : (firecracker maxMachines).exec start (labels ++ [label]) =
      (firecracker maxMachines).next ((firecracker maxMachines).exec start labels) label := by
  rw [exec_append]
  rfl

theorem foundTogether_exec (hidle : start.Idle)
    (hrun : (firecracker maxMachines).Admits start labels)
    (hlooks : (firecracker maxMachines).Throughout LooksTruly start labels) :
    FoundTogether maxMachines start labels ((firecracker maxMachines).exec start labels) := by
  refine traceInvariant (fun labels host ↦ (firecracker maxMachines).Throughout LooksTruly start
    labels → FoundTogether maxMachines start labels host) start ?_ ?_ hrun hlooks
  · intro _ i machineId due live hscan
    rw [hidle.calls] at hscan
    cases hscan
  · intro labels label hadmits hfound henabled hlooks i machineId due live hscan
    obtain ⟨hbefore, hlook, -⟩ := (throughout_append _ _ _ _ _).1 hlooks
    have hstep := steps_of_enabled henabled
    have hless := (sound_exec hidle hadmits).occupied_of_scanning hstep hscan
    obtain ⟨-, rfl⟩ | ⟨due', live', hscanned, hlive, -⟩ := scanned_of_step hstep hlook hscan
    · refine ⟨labels ++ [label], .scanning due [], prefix_refl _, ?_, rfl, ?_⟩
      · rw [exec_snoc]
        exact hscan
      · rw [exec_snoc]
        simp
    · refine (hfound hbefore i machineId due' live' hscanned).snoc label fun before hsame x hx ↦ ?_
      rcases hx with hx | hx
      · exact hsame x (hlive x hx)
      · exact hsame x (.inr (hless hx))

/-! ## Refusals -/

/-- A refused call was refused before, or is refused now after its scan. -/
theorem refused_of_step (hstep : Steps maxMachines host label host') {message : String}
    (hrefused : host'.calls[i]? = some ⟨machineId, .refused message⟩) :
    host.calls[i]? = some ⟨machineId, .refused message⟩ ∨
      ∃ live : List MachineId, host.calls[i]? = some ⟨machineId, .scanning ∅ live⟩ ∧
        admitMachineCapacity maxMachines live host.starting machineId = .error message := by
  have hmove : ∀ {index : ℕ} {machine : MachineId} {old phase : Phase},
      host.calls[index]? = some ⟨machine, old⟩ → phase ≠ .refused message →
      (host.move index phase).calls[i]? = some ⟨machineId, .refused message⟩ →
      host.calls[i]? = some ⟨machineId, .refused message⟩ := by
    intro index machine old phase hcall hphase hnext
    rw [getElem?_move hcall] at hnext
    split_ifs at hnext with hi
    · cases hnext
      exact absurd rfl hphase
    · exact hnext
  cases hstep with
  | call hfree =>
    rcases getElem?_append_cases hrefused with hi | ⟨-, hnew⟩
    · exact .inl hi
    · cases hnew
  | refused hcall hadmission =>
    rw [getElem?_move hcall] at hrefused
    split_ifs at hrefused with hi
    · cases hrefused
      subst hi
      exact .inr ⟨_, hcall, hadmission⟩
    · exact .inl hrefused
  | enter hcall | found hcall | missed hcall | fail hcall | admitted hcall | launch hcall
  | launched hcall | cleaned hcall | drop hcall =>
    exact .inl (hmove hcall (by simp) hrefused)
  | record | land | exit | process | remove => exact .inl hrefused

theorem refused_exec (hidle : start.Idle) (hrun : (firecracker maxMachines).Admits start labels)
    (hlooks : (firecracker maxMachines).Throughout LooksTruly start labels) :
    ∀ (i : ℕ) (machineId : MachineId) (message : String),
      ((firecracker maxMachines).exec start labels).calls[i]? =
        some ⟨machineId, .refused message⟩ →
      Moment maxMachines start labels i machineId fun before ↦
        maxMachines ≤ (before.occupied.erase machineId).card := by
  refine traceInvariant (fun labels host ↦ (firecracker maxMachines).Throughout LooksTruly start
    labels → ∀ (i : ℕ) (machineId : MachineId) (message : String),
      host.calls[i]? = some ⟨machineId, .refused message⟩ →
      Moment maxMachines start labels i machineId fun before ↦
        maxMachines ≤ (before.occupied.erase machineId).card) start ?_ ?_ hrun hlooks
  · intro _ i machineId message hrefused
    rw [hidle.calls] at hrefused
    cases hrefused
  · intro labels label hadmits hold henabled hlooks i machineId message hrefused
    have hbefore := ((throughout_append _ _ _ _ _).1 hlooks).1
    rcases refused_of_step (steps_of_enabled henabled) hrefused with hwas | ⟨live, hscan, hadmission⟩
    · exact (hold hbefore i machineId message hwas).snoc label fun _ ↦ id
    · have hnot : machineId ∉ ((firecracker maxMachines).exec start labels).starting := by
        rw [(sound_exec hidle hadmits).mem_starting hscan rfl]
        exact Bool.false_ne_true
      obtain ⟨hlive, hcard⟩ := admit_eq_error hnot hadmission
      refine (foundTogether_exec hidle hadmits hbefore i machineId ∅ live hscan).snoc label
        fun before hsame ↦ hcard.trans (Finset.card_le_card fun x hx ↦ ?_)
      rcases Finset.mem_union.1 hx with hx | hx
      · rw [mem_toFinset] at hx
        exact Finset.mem_erase.2 ⟨ne_of_mem_of_not_mem hx hlive, hsame x (.inl hx)⟩
      · refine Finset.mem_erase.2 ⟨ne_of_mem_of_not_mem hx hnot, hsame x (.inr ?_)⟩
        exact Finset.mem_union_right _ hx

/-! ## The ceiling -/

/-- Every machine that runs is starting, or has its manifest and is still to be read by the scan or
found by it; and every launch has its call. -/
structure Accounted (host : Host) : Prop where
  recorded : ∀ x ∈ host.running, x ∈ host.starting ∨ x ∈ host.manifests
  scanned : ∀ (i : ℕ) (machineId : MachineId) (due : Finset MachineId) (live : List MachineId),
    host.calls[i]? = some ⟨machineId, .scanning due live⟩ →
    ∀ x ∈ host.running, x ∈ host.starting ∨ x ∈ due ∨ x ∈ live
  orphans : host.orphans = ∅

theorem Host.Sound.running_of_step (hsound : host.Sound)
    (hstep : Steps maxMachines host label host') (horphans : host.orphans = ∅) {x : MachineId}
    (hx : x ∈ host'.running) : x ∈ host.running ∨ x ∈ host'.starting := by
  cases hstep with
  | launched hcall =>
    rcases Finset.mem_insert.1 hx with rfl | hold
    · exact .inr ((hsound.mem_starting hcall rfl).2 rfl)
    · exact .inl hold
  | land horphan =>
    rw [horphans] at horphan
    cases horphan
  | exit => exact .inl (Finset.mem_of_mem_erase hx)
  | _ => exact .inl hx

/-- A machine stops to be starting only when its reservation is dropped, which leaves the manifests. -/
theorem starting_of_step (hstep : Steps maxMachines host label host') {x : MachineId}
    (hx : x ∈ host.starting) : x ∈ host'.starting ∨ host'.manifests = host.manifests ∧
      ∃ (index : ℕ) (call : Call), label = .drop index ∧ call ∈ host.calls[index]? ∧
        call.machineId = x := by
  cases hstep with
  | admitted hcall hadmission =>
    obtain ⟨rfl, -⟩ := admit_eq_ok hadmission
    exact .inl (Finset.mem_insert_of_mem hx)
  | @drop index machineId launching hcall =>
    by_cases hmachine : x = machineId
    · exact .inr ⟨rfl, index, _, rfl, hcall, hmachine.symm⟩
    · exact .inl (Finset.mem_erase.2 ⟨hmachine, hx⟩)
  | _ => exact .inl hx

theorem manifests_of_step (hstep : Steps maxMachines host label host') {x : MachineId}
    (hx : x ∈ host.manifests) : x ∈ host'.manifests ∨ label = .remove x := by
  cases hstep with
  | record => exact .inl (Finset.mem_insert_of_mem hx)
  | @remove machineId =>
    by_cases hmachine : x = machineId
    · exact .inr (congrArg _ hmachine.symm)
    · exact .inl (Finset.mem_erase.2 ⟨hmachine, hx⟩)
  | _ => exact .inl hx

theorem orphans_of_step (hstep : Steps maxMachines host label host') (hstays : StaysSeen host label)
    (horphans : host.orphans = ∅) : host'.orphans = ∅ := by
  cases hstep with
  | @drop index machineId launching hcall =>
    cases launching with
    | true => exact absurd rfl (hstays _ hcall).1
    | false => exact horphans
  | land => exact (congrArg (Finset.erase · _) horphans).trans (Finset.erase_empty _)
  | _ => exact horphans

theorem Accounted.step (haccounted : Accounted host) (hsound : host.Sound)
    (hstep : Steps maxMachines host label host') (hlooks : LooksTruly host label)
    (hstays : StaysSeen host label) : Accounted host' := by
  -- a machine whose reservation is dropped has its manifest and is seen
  have hdropped : ∀ x ∈ host.running, x ∈ host.starting → x ∈ host'.starting ∨
      x ∈ host.manifests ∧ x ∈ host'.manifests ∧ ∀ other ∈ host.calls, other.phase.Sees x := by
    intro x hrunning hstarting
    rcases starting_of_step hstep hstarting with hstill | ⟨hmanifests, index, call, rfl, hcall, rfl⟩
    · exact .inl hstill
    · obtain ⟨hmanifest, hsees⟩ := (hstays call hcall).2 hrunning
      exact .inr ⟨hmanifest, hmanifests ▸ hmanifest, hsees⟩
  refine ⟨fun x hx ↦ ?_, fun i machineId due live hscan x hx ↦ ?_,
    orphans_of_step hstep hstays haccounted.orphans⟩
  · rcases hsound.running_of_step hstep haccounted.orphans hx with hrunning | hstarting
    swap
    · exact .inl hstarting
    rcases haccounted.recorded x hrunning with hstarting | hmanifest
    · exact (hdropped x hrunning hstarting).imp_right fun hdrop ↦ hdrop.2.1
    · rcases manifests_of_step hstep hmanifest with hstill | rfl
      · exact .inr hstill
      · exact (hdropped x hrunning (hstays hrunning)).imp_right fun hdrop ↦ hdrop.2.1
  · rcases hsound.running_of_step hstep haccounted.orphans hx with hrunning | hstarting
    swap
    · exact .inl hstarting
    have hrecorded := haccounted.recorded x hrunning
    obtain ⟨rfl, -⟩ | ⟨due', live', hbefore, -, hkept⟩ := scanned_of_step hstep hlooks hscan
    · rcases hrecorded with hstarting | hmanifest
      · exact (hdropped x hrunning hstarting).imp_right fun hdrop ↦ .inl hdrop.1
      · exact .inr (.inl hmanifest)
    · rcases haccounted.scanned i machineId due' live' hbefore x hrunning with hstarting | hseen
      · rcases hdropped x hrunning hstarting with hstill | ⟨-, -, hsees⟩
        · exact .inl hstill
        · exact hkept x hrunning hrecorded (hsees _ (mem_of_getElem? hbefore))
      · exact hkept x hrunning hrecorded hseen

/-- What is occupied at the end of a scan was found running or is starting. -/
theorem Accounted.occupied_subset (haccounted : Accounted host) {live : List MachineId}
    (hscan : host.calls[i]? = some ⟨machineId, .scanning ∅ live⟩) :
    host.occupied ⊆ live.toFinset ∪ host.starting := by
  intro x hx
  rw [Host.occupied, haccounted.orphans, Finset.union_empty, Finset.mem_union] at hx
  rw [Finset.mem_union, mem_toFinset]
  rcases hx with hrunning | hstarting
  · rcases haccounted.scanned i machineId ∅ live hscan x hrunning with hx | hx | hx
    · exact .inr hx
    · cases hx
    · exact .inl hx
  · exact .inr hstarting

/-- In the runs whose looks are true and whose running machines stay seen, the ceiling holds at every
moment so far. -/
theorem ceiling_exec (hidle : start.Idle) (hfew : start.running.card ≤ maxMachines)
    (hrun : (firecracker maxMachines).Admits start labels)
    (hlooks : (firecracker maxMachines).Throughout LooksTruly start labels)
    (hstays : (firecracker maxMachines).Throughout StaysSeen start labels) :
    (∀ first, first <+: labels →
      ((firecracker maxMachines).exec start first).occupied.card ≤ maxMachines) ∧
    Accounted ((firecracker maxMachines).exec start labels) := by
  refine traceInvariant (fun labels host ↦ (firecracker maxMachines).Throughout LooksTruly start
    labels → (firecracker maxMachines).Throughout StaysSeen start labels →
    (∀ first, first <+: labels →
      ((firecracker maxMachines).exec start first).occupied.card ≤ maxMachines) ∧ Accounted host)
    start ?_ ?_ hrun hlooks hstays
  · refine fun _ _ ↦ ⟨fun first hfirst ↦ ?_, fun x hx ↦ .inr (hidle.running hx),
      fun i machineId due live hscan ↦ ?_, hidle.orphans⟩
    · rw [prefix_nil.1 hfirst, exec_nil, Host.occupied, hidle.starting, hidle.orphans]
      simpa using hfew
    · rw [hidle.calls] at hscan
      cases hscan
  · intro labels label hadmits hinv henabled hlooks hstays
    obtain ⟨hlooked, hlook, -⟩ := (throughout_append _ _ _ _ _).1 hlooks
    obtain ⟨hstayed, hstay, -⟩ := (throughout_append _ _ _ _ _).1 hstays
    obtain ⟨hbound, haccounted⟩ := hinv hlooked hstayed
    have hsound := sound_exec hidle hadmits
    have hstep := steps_of_enabled henabled
    refine ⟨fun first hfirst ↦ ?_, haccounted.step hsound hstep hlook hstay⟩
    rcases prefix_concat_iff.1 hfirst with rfl | hfirst
    swap
    · exact hbound first hfirst
    rw [exec_snoc]
    have hnow := hbound labels (prefix_refl _)
    rcases hsound.occupied_of_step hstep with
      hless | ⟨index, machineId, live, starting, hscan, hadmission, hafter⟩
    · exact (Finset.card_le_card hless).trans hnow
    obtain ⟨rfl, -, hcapacity⟩ := admit_eq_ok hadmission
    have hoccupied : ((firecracker maxMachines).next ((firecracker maxMachines).exec start labels)
        label).occupied = insert machineId ((firecracker maxMachines).exec start labels).occupied := by
      rw [hafter]
      exact Finset.union_insert _ _ _
    rw [hoccupied]
    rcases hcapacity with hlive | hcapacity
    -- a machine that was found running was counted at a moment at which the ceiling held
    · obtain ⟨before, phase, hbefore, -, -, hsame⟩ :=
        foundTogether_exec hidle hadmits hlooked index machineId ∅ live hscan
      refine (Finset.card_le_card fun x hx ↦ ?_).trans (hbound before hbefore)
      rcases Finset.mem_insert.1 hx with rfl | hx
      · exact hsame x (.inl hlive)
      · exact hsame x (.inr hx)
    -- otherwise every occupied machine is among those that were counted
    · have hcard := Finset.card_le_card (haccounted.occupied_subset hscan)
      have hinsert := Finset.card_insert_le machineId
        ((firecracker maxMachines).exec start labels).occupied
      omega

/-! ## Reservations are released once -/

/-- The call at an index has released its reservation. -/
def Host.Released (host : Host) (i : ℕ) : Prop :=
  host.calls[i]?.map Call.phase = some .released

instance (host : Host) (i : ℕ) : Decidable (host.Released i) :=
  inferInstanceAs (Decidable (_ = _))

theorem released_move {index : ℕ} (hcall : host.calls[index]? = some ⟨machineId, old⟩)
    (hold : old ≠ .released) (hcalls : after.calls = (host.move index phase).calls) (i : ℕ) :
    after.Released i ↔ host.Released i ∨ i = index ∧ phase = .released := by
  simp only [Host.Released, hcalls, getElem?_move hcall]
  by_cases hi : i = index
  · subst hi
    simp [hcall, hold]
  · simp [hi]

/-- A reservation is released by the drop of its call. -/
theorem released_of_step (hstep : Steps maxMachines host label host') (i : ℕ) :
    host'.Released i ↔ host.Released i ∨ label = .drop i := by
  cases hstep with
  | call hfree =>
    simp only [reduceCtorEq, or_false, Host.Released]
    rcases lt_trichotomy i host.calls.length with hlt | rfl | hgt
    · rw [getElem?_append_left hlt]
    · simp
    · rw [getElem?_eq_none (by simp; omega), getElem?_eq_none hgt.le]
  | drop hcall =>
    refine (released_move hcall (by simp) rfl i).trans ?_
    simp [eq_comm]
  | fail hcall hphase =>
    refine (released_move hcall (by rintro rfl; cases hphase.1) rfl i).trans ?_
    simp
  | enter hcall | found hcall | missed hcall | admitted hcall | refused hcall | launch hcall
  | launched hcall | cleaned hcall =>
    refine (released_move hcall (by simp) rfl i).trans ?_
    simp
  | record | land | exit | process | remove => simp [Host.Released]

/-- A reservation that is dropped was held until then, and its machine was in the set. -/
theorem Host.Sound.of_drop (hsound : host.Sound) (hstep : Steps maxMachines host (.drop i) host') :
    ¬ host.Released i ∧ ∀ call ∈ host.calls[i]?, call.machineId ∈ host.starting := by
  cases hstep with
  | drop hcall =>
    constructor
    · simp [Host.Released, hcall]
    · rintro call hmem
      rw [hcall] at hmem
      cases hmem
      exact (hsound.mem_starting hcall rfl).2 rfl

/-- Whenever a reservation is dropped its machine is in the set. -/
def DropsHeld (host : Host) : Label → Prop
  | .drop index => ∀ call ∈ host.calls[index]?, call.machineId ∈ host.starting
  | _ => True

section
variable (hidle : start.Idle) (hrun : (firecracker maxMachines).Admits start labels)
include hidle hrun

theorem dropsHeld_throughout : (firecracker maxMachines).Throughout DropsHeld start labels := by
  refine throughout_of_invariant Host.Sound
    (fun _ _ hsound henabled ↦ hsound.step (steps_of_enabled henabled))
    (fun host label hsound henabled ↦ ?_) hidle.sound hrun
  cases label with
  | drop index => exact (hsound.of_drop (steps_of_enabled henabled)).2
  | _ => trivial

theorem count_drop_exec (i : ℕ) : labels.count (.drop i) =
      if ((firecracker maxMachines).exec start labels).Released i then 1 else 0 := by
  refine traceInvariant (fun labels host ↦ labels.count (.drop i) =
    if host.Released i then 1 else 0) start ?_ ?_ hrun
  · simp [Host.Released, hidle.calls]
  · intro labels label hadmits hcount henabled
    have hstep := steps_of_enabled henabled
    rw [count_append, hcount]
    simp only [released_of_step hstep i]
    by_cases hdrop : label = .drop i
    · subst hdrop
      obtain ⟨hheld, -⟩ := (sound_exec hidle hadmits).of_drop hstep
      simp [hheld]
    · simp [hdrop]

end

/-! ## The ceiling on machines -/

/-- In every run: if every look is true, and no machine that runs is lost from sight, at most
`maxMachines` VMMs run or are being launched; if every look is true, a call was refused only when as
many other machines were live or starting at one moment of the call; and the starting machines are those
whose reservation is held, every reservation is in the set when it is dropped, and it is dropped exactly
once. -/
theorem machine_ceiling (maxMachines : ℕ) {start : Host} {labels : List Label}
    (hidle : start.Idle) (hfew : start.running.card ≤ maxMachines)
    (hrun : (firecracker maxMachines).Admits start labels) :
    ((firecracker maxMachines).Throughout LooksTruly start labels →
      ((firecracker maxMachines).Throughout StaysSeen start labels →
        ((firecracker maxMachines).exec start labels).occupied.card ≤ maxMachines) ∧
      ∀ (i : ℕ) (machineId : MachineId) (message : String),
        ((firecracker maxMachines).exec start labels).calls[i]? =
          some ⟨machineId, .refused message⟩ →
        Moment maxMachines start labels i machineId fun before ↦
          maxMachines ≤ (before.occupied.erase machineId).card) ∧
    (∀ machineId, machineId ∈ ((firecracker maxMachines).exec start labels).starting ↔
      ∃ (i : ℕ) (call : Call), ((firecracker maxMachines).exec start labels).calls[i]? =
        some call ∧ call.machineId = machineId ∧ call.phase.isReserved = true) ∧
    (firecracker maxMachines).Throughout DropsHeld start labels ∧
    ∀ i, labels.count (.drop i) =
      if ((firecracker maxMachines).exec start labels).Released i then 1 else 0 := by
  refine ⟨fun hlooks ↦ ⟨fun hstays ↦ ?_, refused_exec hidle hrun hlooks⟩,
    (sound_exec hidle hrun).starting, dropsHeld_throughout hidle hrun, count_drop_exec hidle hrun⟩
  exact (ceiling_exec hidle hfew hrun hlooks hstays).1 labels (prefix_refl labels)

def emptyHost : Host := ⟨∅, ∅, ∅, ∅, ∅, []⟩

theorem emptyHost_idle : emptyHost.Idle := ⟨rfl, rfl, rfl, by simp [emptyHost]⟩

/-- A machine is launched, and a second one is refused. -/
def refusedRun : List Label :=
  [.call "fc-a", .enter 0, .admitCapacity 0, .record 0, .launch 0, .launched 0,
    .process "fc-a" true, .call "fc-b", .drop 0, .enter 1, .look 1 "fc-a", .admitCapacity 1]

theorem machine_ceiling_refused : ((firecracker 1).exec emptyHost refusedRun).occupied.card ≤ 1 ∧
      Moment 1 emptyHost refusedRun 1 "fc-b"
        fun before ↦ 1 ≤ (before.occupied.erase "fc-b").card := by
  have hrun : (firecracker 1).Admits emptyHost refusedRun := by decide
  obtain ⟨hbound, hrefused⟩ :=
    (machine_ceiling 1 emptyHost_idle (by decide) hrun).1 (by decide)
  refine ⟨hbound (by decide), hrefused 1 "fc-b"
    "Firecracker host VM capacity exhausted: 1 live, limit 1; stop a VM or raise the host limit" ?_⟩
  decide +kernel

/-- The second scan reads the first machine's manifest before its VMM runs and the set after its
reservation is gone. -/
def missedRun : List Label :=
  [.call "fc-a", .enter 0, .admitCapacity 0, .record 0, .launch 0, .call "fc-b", .enter 1, .look 1 "fc-a",
    .launched 0, .drop 0, .admitCapacity 1, .record 1, .launch 1, .launched 1]

theorem two_machines_run : (firecracker 1).Admits emptyHost missedRun ∧
      ((firecracker 1).exec emptyHost missedRun).running.card = 2 := by
  decide

end Exo.Firecracker
