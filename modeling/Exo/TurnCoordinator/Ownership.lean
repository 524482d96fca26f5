import Exo.TurnCoordinator.Locks

/-!
# Exclusive ownership of a queue

At most one lease identity passes the ownership check, on whatever `ThreadState` it is made; an
operation that needs a lease succeeds only for that identity; a lease that was released or that a
later claim superseded never succeeds again; and every operation in flight and every lease hold the
same `ThreadState`.

The invariant behind it: a state with a strong pointer is the one the map entry points to, and a
live lease whose identity some owner pointer names was made by the latest claim, on that state.
-/

namespace Exo.TurnCoordinator.Ownership

open Library Coordinator Locks List Function Option

variable {Work : Type}

/-! ## The owner pointer under one critical section -/

/-- Everything an operation under the lock can do to the owner pointer. -/
inductive OwnerEffect (c : Coordinator Work) (op : Op Work) (response : Response Work) :
    Option LeaseIdentity → Prop where
  | same (hclaim : ∀ identity, response ≠ .claimed (some identity))
      (hrelease : response ≠ .released true) : OwnerEffect c op response c.mutation.owner
  | claimed {identity : LeaseIdentity} (hop : op = .claim identity)
      (hdead : c.mutation.ownerAlive c.live = false)
      (hresponse : response = .claimed (some identity)) : OwnerEffect c op response (some identity)
  | released {store : StoreOutcome} {lease : LeaseIdentity} (hop : op = .releaseIfIdle store lease)
      (hresponse : response = .released true) : OwnerEffect c op response none

variable {op : Op Work} {lease : Lease} {mutation : ThreadMutation} {s : Locks Work}
  {operations : List (InFlight Work)} {state : Address} {index : ℕ} {leases : List Lease}
  {identity : LeaseIdentity} {result : Coordinator Work}

theorem perform_ownerEffect (c : Coordinator Work) (hlocks : op.locks = true) :
    OwnerEffect c op (c.perform op).1 (c.perform op).2.mutation.owner := by
  have hupdate (op : Op Work) (store : StoreOutcome) (turn : TurnId) (authority : TurnAuthority)
      (control : TurnControl) :
      OwnerEffect c op (.ofExcept .outcome (c.updateControl store turn authority control).1)
        (c.updateControl store turn authority control).2.mutation.owner := by
    have howner : (c.updateControl store turn authority control).2.mutation.owner =
        c.mutation.owner := by
      unfold updateControl
      repeat' split
      all_goals simp
    rw [howner]
    exact .same (fun _ ↦ Response.ofExcept_ne (by simp) (by simp) _)
      (Response.ofExcept_ne (by simp) (by simp) _)
  cases op with
  | cancel store turn authority => exact hupdate _ store turn authority .cancel
  | setSuspended store turn authority suspended => exact hupdate _ store turn authority _
  | enqueue store now turn =>
    have howner : (c.enqueue store now turn).2.mutation.owner = c.mutation.owner := by
      unfold enqueue
      repeat' split
      all_goals simp
    simp only [perform, howner]
    exact .same (fun _ ↦ Response.ofExcept_ne (by simp) (by simp) _)
      (Response.ofExcept_ne (by simp) (by simp) _)
  | claim identity =>
    simp only [perform, claim]
    split
    · exact .same (by simp) (by simp)
    · exact .claimed rfl (by rename_i halive; simpa using halive) rfl
  | get | peek =>
    exact .same (fun _ ↦ Response.ofExcept_ne (by simp) (by simp) _)
      (Response.ofExcept_ne (by simp) (by simp) _)
  | start store lease turn =>
    have howner : (c.start store lease turn).2.mutation.owner = c.mutation.owner := by
      unfold start
      repeat' split
      all_goals rfl
    simp only [perform, howner]
    exact .same (fun _ ↦ Response.ofExcept_ne (by simp) (by simp) _)
      (Response.ofExcept_ne (by simp) (by simp) _)
  | acknowledge store lease turn =>
    have howner : (c.acknowledge store lease turn).2.mutation.owner = c.mutation.owner := by
      unfold acknowledge
      repeat' split
      all_goals simp
    simp only [perform, howner]
    exact .same (fun _ ↦ Response.ofExcept_ne (by simp) (by simp) _)
      (Response.ofExcept_ne (by simp) (by simp) _)
  | releaseIfIdle store lease =>
    simp only [perform, releaseIfIdle]
    split
    · exact .same (by simp [Response.ofExcept]) (by simp [Response.ofExcept])
    split
    · exact .same (by simp [Response.ofExcept]) (by simp [Response.ofExcept])
    split
    · exact .same (by simp [Response.ofExcept]) (by simp [Response.ofExcept])
    · exact .released rfl rfl
  | poll | dropLease | dropThreadState => cases hlocks

theorem check_of_success {c : Coordinator Work} {lease : LeaseIdentity}
    (hlease : op.lease = some lease) (hsuccess : ∀ error, (c.perform op).1 ≠ .failed error) :
    c.mutation.check c.live lease = true := by
  by_contra hcheck
  rw [Bool.not_eq_true] at hcheck
  apply hsuccess .ownershipLost
  cases op with
  | peek | start | acknowledge | releaseIfIdle =>
    cases hlease
    simp [perform, peek, start, acknowledge, releaseIfIdle, hcheck, Response.ofExcept]
  | _ =>
    cases hlease

theorem check_iff {live : List LeaseIdentity} {lease : LeaseIdentity} :
    mutation.check live lease = true ↔ mutation.owner = some lease ∧ lease ∈ live := by
  unfold ThreadMutation.check
  cases mutation.owner with
  | none => simp
  | some owner =>
    simp only [Bool.and_eq_true, decide_eq_true_eq, some.injEq]
    constructor
    · rintro ⟨hlive, rfl⟩
      exact ⟨rfl, hlive⟩
    · rintro ⟨rfl, hlive⟩
      exact ⟨hlive, rfl⟩

/-! ## The invariant -/

/-- The owner pointer of a state in use upgrades to the identity of this lease. -/
def Owns (s : Locks Work) (lease : Lease) : Prop :=
  lease ∈ s.leases ∧ ∃ state mutation, s.Alive state ∧ s.states state = some mutation ∧
    mutation.owner.isSome = true ∧ mutation.owner = lease.identity

structure Consistent (s : Locks Work) : Prop where
  registered : ∀ state, s.Alive state → s.threads = some state ∧ (s.states state).isSome = true
  latest : ∀ lease, Owns s lease → lease.claim = s.claims
  numbered : ∀ lease ∈ s.leases, lease.claim ≤ s.claims
  locks : ∀ operation ∈ s.operations, operation.op.locks = true
  issued : ∀ operation ∈ s.operations,
    operation.borrowed.map (·.identity) = operation.op.lease.map some
  borrowed : ∀ operation ∈ s.operations, ∀ lease ∈ operation.borrowed, lease ∈ s.leases
  exclusive : s.operations.countP (·.stage.holds) ≤ 1

theorem Consistent.state_unique (hs : Consistent s) {first second : Address}
    (hfirst : s.Alive first) (hsecond : s.Alive second) : first = second := by
  apply some.inj
  rw [← (hs.registered first hfirst).1, (hs.registered second hsecond).1]

/-! ### Operations that move on or end -/

/-- Every operation of `operations` is one of `s`, up to its stage. -/
def Moved (s : Locks Work) (operations : List (InFlight Work)) : Prop :=
  ∀ operation ∈ operations, ∃ original ∈ s.operations, operation.op = original.op ∧
    operation.state = original.state ∧ operation.borrowed = original.borrowed

section
variable (hmoved : Moved s operations)
include hmoved

theorem Moved.alive (halive : Alive { s with operations := operations } state) : s.Alive state := by
  rcases halive with ⟨operation, hoperation, rfl⟩ | hlease
  · obtain ⟨original, horiginal, -, hstate, -⟩ := hmoved operation hoperation
    exact .inl ⟨original, horiginal, hstate.symm⟩
  · exact .inr hlease

theorem Moved.owns (howns : Owns { s with operations := operations } lease) : Owns s lease := by
  obtain ⟨hlease, state, mutation, halive, hstate⟩ := howns
  exact ⟨hlease, state, mutation, hmoved.alive halive, hstate⟩

theorem Moved.consistent (hs : Consistent s)
    (hexclusive : operations.countP (·.stage.holds) ≤ 1) :
    Consistent { s with operations := operations } where
  registered state halive := hs.registered state (hmoved.alive halive)
  latest lease howns := hs.latest lease (hmoved.owns howns)
  numbered := hs.numbered
  locks operation hoperation := by
    obtain ⟨original, horiginal, hop, -, -⟩ := hmoved operation hoperation
    rw [hop]
    exact hs.locks original horiginal
  issued operation hoperation := by
    obtain ⟨original, horiginal, hop, -, hborrowed⟩ := hmoved operation hoperation
    rw [hop, hborrowed]
    exact hs.issued original horiginal
  borrowed operation hoperation := by
    obtain ⟨original, horiginal, -, -, hborrowed⟩ := hmoved operation hoperation
    rw [hborrowed]
    exact hs.borrowed original horiginal
  exclusive := hexclusive

end

theorem moved_eraseIdx (s : Locks Work) (index : ℕ) : Moved s (s.operations.eraseIdx index) :=
  fun operation hoperation ↦ ⟨operation, mem_of_mem_eraseIdx hoperation, rfl, rfl, rfl⟩

theorem moved_moveTo (s : Locks Work) (stage : Stage) (index : ℕ) :
    Moved s (moveTo stage index s.operations) := by
  intro operation hmem
  obtain ⟨position, hposition⟩ := mem_iff_getElem?.mp hmem
  rw [moveTo, getElem?_modify] at hposition
  obtain ⟨original, horiginal, rfl⟩ := map_eq_some_iff.mp hposition
  refine ⟨original, mem_of_getElem? horiginal, ?_⟩
  split <;> exact ⟨rfl, rfl, rfl⟩

variable {stage : Stage} {other : Address} {operation : InFlight Work} {s' : Locks Work}

/-- Moving an operation does not add a lock holder, unless it takes the lock. -/
theorem countP_moveTo_le
    (hstage : ∀ operation ∈ operations[index]?, stage.holds = true → operation.stage.holds = true) :
    (moveTo stage index operations).countP (·.stage.holds) ≤ operations.countP (·.stage.holds) := by
  unfold moveTo
  induction operations generalizing index with
  | nil => simp
  | cons operation operations ih =>
    cases index with
    | zero =>
      have hhead := hstage operation (by simp)
      simp only [modify_zero_cons, countP_cons]
      cases hholds : stage.holds with
      | false => simp
      | true => simp [hhead hholds]
    | succ index =>
      have htail := @ih index (by simpa using hstage)
      simp only [modify_succ_cons, countP_cons]
      omega

/-- One operation takes a lock nobody holds. -/
theorem countP_moveTo_le_one (hfree : ∀ operation ∈ operations, operation.stage.holds = false) :
    (moveTo stage index operations).countP (·.stage.holds) ≤ 1 := by
  unfold moveTo
  induction operations generalizing index with
  | nil => simp
  | cons operation operations ih =>
    have hrest : operations.countP (·.stage.holds) = 0 := by
      rw [countP_eq_zero]
      intro other hother
      simp [hfree other (mem_cons_of_mem _ hother)]
    cases index with
    | zero =>
      simp only [modify_zero_cons, countP_cons, hrest]
      split <;> omega
    | succ index =>
      have htail := @ih index (fun other hother ↦ hfree other (mem_cons_of_mem _ hother))
      simp only [modify_succ_cons, countP_cons, hfree operation mem_cons_self]
      simpa using htail

/-! ### Leases that are cloned and dropped -/

/-- Every lease of `leases` is a clone of one of `s`, possibly without its identity. -/
def Cloned (s : Locks Work) (leases : List Lease) : Prop :=
  ∀ lease ∈ leases, ∃ original ∈ s.leases, lease.guard = original.guard ∧
    lease.claim = original.claim ∧ ∀ identity ∈ lease.identity, original.identity = some identity

section
variable (hcloned : Cloned s leases)
include hcloned

theorem Cloned.alive (halive : Alive { s with leases := leases } state) : s.Alive state := by
  rcases halive with hoperation | ⟨lease, hlease, rfl⟩
  · exact .inl hoperation
  · obtain ⟨original, horiginal, hguard, -, -⟩ := hcloned lease hlease
    exact .inr ⟨original, horiginal, hguard.symm⟩

theorem Cloned.owns (howns : Owns { s with leases := leases } lease) : Owns s lease := by
  obtain ⟨hlease, state, mutation, halive, hstate, hsome, howner⟩ := howns
  obtain ⟨original, horiginal, hguard, hclaim, hidentity⟩ := hcloned lease hlease
  obtain ⟨identity, howner'⟩ := isSome_iff_exists.mp hsome
  have hlease' : lease.identity = some identity := howner.symm.trans howner'
  have hsame : lease = original := by
    cases lease
    cases original
    simp_all
  exact ⟨hsame ▸ horiginal, state, mutation, hcloned.alive halive, hstate, hsome, howner⟩

theorem Cloned.consistent (hs : Consistent s)
    (hborrowed : ∀ operation ∈ s.operations, ∀ lease ∈ operation.borrowed, lease ∈ leases) :
    Consistent { s with leases := leases } where
  registered state halive := hs.registered state (hcloned.alive halive)
  latest lease howns := hs.latest lease (hcloned.owns howns)
  numbered lease hlease := by
    obtain ⟨original, horiginal, -, hclaim, -⟩ := hcloned lease hlease
    rw [hclaim]
    exact hs.numbered original horiginal
  locks := hs.locks
  issued := hs.issued
  borrowed := hborrowed
  exclusive := hs.exclusive

end

/-! ### Operations that begin -/

/-- If the map entry does not upgrade, nothing is in flight and no lease exists. -/
theorem Consistent.nothing_of_upgrade (hs : Consistent s) (hupgrade : s.upgrade = none) :
    s.operations = [] ∧ s.leases = [] := by
  have hdead (state : Address) : ¬ s.Alive state := by
    intro halive
    have hthreads := (hs.registered state halive).1
    simp [upgrade, hthreads, halive] at hupgrade
  constructor
  · rw [eq_nil_iff_forall_not_mem]
    exact fun operation hoperation ↦ hdead operation.state (.inl ⟨operation, hoperation, rfl⟩)
  · rw [eq_nil_iff_forall_not_mem]
    exact fun lease hlease ↦ hdead lease.guard (.inr ⟨lease, hlease, rfl⟩)

theorem Consistent.begin (hs : Consistent s) {borrowed : Option Lease} {fresh : Address}
    (henabled : s.enabled (.begin op borrowed fresh)) :
    Consistent (s.next (.begin op borrowed fresh)) ∧
      (s.next (.begin op borrowed fresh)).claims = s.claims ∧
      ∀ lease, Owns (s.next (.begin op borrowed fresh)) lease → Owns s lease := by
  obtain ⟨hlocks, hissued, hborrowed, -⟩ := henabled
  unfold Locks.next thread
  cases hupgrade : s.upgrade with
  | some state =>
    have halive : s.Alive state := by
      unfold upgrade at hupgrade
      split at hupgrade
      · split at hupgrade <;> cases hupgrade
        assumption
      · cases hupgrade
    have hold (other : Address) (halive' : Alive { s with
        operations := ⟨op, state, borrowed, .waiting⟩ :: s.operations } other) :
        s.Alive other := by
      rcases halive' with ⟨operation, hoperation, rfl⟩ | hlease
      · rcases mem_cons.mp hoperation with rfl | hoperation
        · exact halive
        · exact .inl ⟨operation, hoperation, rfl⟩
      · exact .inr hlease
    have howns (lease : Lease) (howns : Owns { s with
        operations := ⟨op, state, borrowed, .waiting⟩ :: s.operations } lease) : Owns s lease := by
      obtain ⟨hlease, other, mutation, halive', hother⟩ := howns
      exact ⟨hlease, other, mutation, hold other halive', hother⟩
    refine ⟨?_, rfl, howns⟩
    constructor
    · exact fun other halive' ↦ hs.registered other (hold other halive')
    · exact fun lease hlease ↦ hs.latest lease (howns lease hlease)
    · exact hs.numbered
    · exact forall_mem_cons.mpr ⟨hlocks, hs.locks⟩
    · exact forall_mem_cons.mpr ⟨hissued, hs.issued⟩
    · exact forall_mem_cons.mpr ⟨hborrowed, hs.borrowed⟩
    · simpa [Stage.holds] using hs.exclusive
  | none =>
    obtain ⟨hoperations, hleases⟩ := hs.nothing_of_upgrade hupgrade
    have hnone (lease : Lease) : lease ∉ s.leases := by simp [hleases]
    refine ⟨?_, rfl, fun lease howns ↦ absurd howns.1 (hnone lease)⟩
    dsimp only
    rw [hoperations]
    constructor
    · rintro other (⟨operation, hoperation, rfl⟩ | ⟨lease, hlease, -⟩)
      · rw [mem_singleton.mp hoperation]
        simp
      · exact absurd hlease (hnone lease)
    · exact fun lease howns ↦ absurd howns.1 (hnone lease)
    · exact hs.numbered
    · simpa using hlocks
    · simpa using hissued
    · simpa using hborrowed
    · simp [Stage.holds]

/-! ### Critical sections -/

theorem mem_live : identity ∈ s.live ↔ ∃ lease ∈ s.leases, lease.identity = some identity := by
  simp [Locks.live]

theorem created_eq {response : Response Work}
    (hclaim : ∀ identity, response ≠ .claimed (some identity)) : s.created state response = [] := by
  unfold created
  split
  · exact absurd rfl (hclaim _)
  · rfl

theorem isSome_update {states : Address → Option ThreadMutation}
    (hother : (states other).isSome = true) :
    (Function.update states state (some mutation) other).isSome = true := by
  by_cases heq : other = state
  · simp [heq]
  · rwa [update_of_ne heq]

/-- After a critical section that keeps or clears the owner pointer, the owners were owners
before. -/
theorem owns_of_save (hstate : s.states state = some mutation)
    (howner : ∀ identity ∈ result.mutation.owner, mutation.owner = some identity)
    (howns : Owns (s.save state result []) lease) : Owns s lease := by
  obtain ⟨hlease, other, current, halive, hcurrent, hsome, hsame⟩ := howns
  refine ⟨hlease, other, ?_⟩
  by_cases heq : other = state
  · subst heq
    simp only [Locks.save, update_self, some.injEq] at hcurrent
    subst hcurrent
    obtain ⟨identity, hidentity⟩ := isSome_iff_exists.mp hsome
    have hbefore := howner identity hidentity
    exact ⟨mutation, halive, hstate, by simp [hbefore], hbefore.trans (hidentity.symm.trans hsame)⟩
  · simp only [Locks.save, update_of_ne heq] at hcurrent
    exact ⟨current, halive, hcurrent, hsome, hsame⟩

theorem Consistent.save (hs : Consistent s) (hstate : s.states state = some mutation)
    (howner : ∀ identity ∈ result.mutation.owner, mutation.owner = some identity) :
    Consistent (s.save state result []) where
  registered other halive :=
    ⟨(hs.registered other halive).1, isSome_update (hs.registered other halive).2⟩
  latest lease howns := hs.latest lease (owns_of_save hstate howner howns)
  numbered := hs.numbered
  locks := hs.locks
  issued := hs.issued
  borrowed := hs.borrowed
  exclusive := hs.exclusive

theorem alive_of_claim (halive : s.Alive state) {claim : ℕ}
    (hother : (s.save state result [⟨some identity, state, claim⟩]).Alive other) :
    s.Alive other := by
  rcases hother with hoperation | ⟨lease, hlease, rfl⟩
  · exact .inl hoperation
  · rcases mem_cons.mp hlease with rfl | hlease
    · exact halive
    · exact .inr ⟨lease, hlease, rfl⟩

section
variable (hs : Consistent s) (halive : s.Alive state) (hfresh : identity ∉ s.live)
  (howner : result.mutation.owner = some identity)
include hs halive hfresh howner

theorem Consistent.owns_of_claim
    (howns : Owns (s.save state result [⟨some identity, state, s.claims + 1⟩]) lease) :
    lease = ⟨some identity, state, s.claims + 1⟩ := by
  obtain ⟨hlease, other, current, halive', hcurrent, hsome, hsame⟩ := howns
  have heq := hs.state_unique (alive_of_claim halive halive') halive
  subst heq
  simp only [Locks.save, update_self, some.injEq] at hcurrent
  subst hcurrent
  rcases mem_cons.mp hlease with rfl | hlease
  · rfl
  · exact absurd (mem_live.mpr ⟨lease, hlease, hsame.symm.trans howner⟩) hfresh

theorem Consistent.claim :
    Consistent (s.save state result [⟨some identity, state, s.claims + 1⟩]) where
  registered other halive' := by
    have hold := hs.registered other (alive_of_claim halive halive')
    exact ⟨hold.1, isSome_update hold.2⟩
  latest lease howns := by
    rw [hs.owns_of_claim halive hfresh howner howns]
    rfl
  numbered := by
    rintro lease hlease
    rcases mem_cons.mp hlease with rfl | hlease
    · exact Nat.le_refl _
    · exact Nat.le_succ_of_le (hs.numbered lease hlease)
  locks := hs.locks
  issued := hs.issued
  borrowed operation hoperation lease hlease :=
    mem_cons_of_mem _ (hs.borrowed operation hoperation lease hlease)
  exclusive := hs.exclusive

end

theorem Consistent.no_owner_of_save (hs : Consistent s) (halive : s.Alive state)
    (howner : result.mutation.owner = none) (lease : Lease) :
    ¬ Owns (s.save state result []) lease := by
  rintro ⟨-, other, current, hother, hcurrent, hsome, -⟩
  have heq := hs.state_unique hother halive
  subst heq
  simp only [Locks.save, update_self, some.injEq] at hcurrent
  subst hcurrent
  simp [howner] at hsome

/-- What a critical section can do to the ownership of the queue. -/
inductive CriticalEffect (s : Locks Work) (response : Response Work) (s' : Locks Work) : Prop where
  | kept (hresponse : ∀ identity, response ≠ .claimed (some identity))
      (hclaims : s'.claims = s.claims) (howns : ∀ lease, Owns s' lease → Owns s lease)
      (hreleased : response = .released true → ∀ lease, ¬ Owns s' lease)
  | claimed {identity : LeaseIdentity} (hresponse : response = .claimed (some identity))
      (hclaims : s'.claims = s.claims + 1)
      (howns : ∀ lease, Owns s' lease → lease.claim = s.claims + 1)

theorem Consistent.critical (hs : Consistent s) (hindex : s.operations[index]? = some operation)
    (hstage : operation.stage = .locked) (hstate : s.states operation.state = some mutation)
    (henabled : (s.view mutation).enabled operation.op) :
    Consistent (s.critical index operation mutation) ∧
      CriticalEffect s ((s.view mutation).perform operation.op).1
        (s.critical index operation mutation) := by
  have hoperation := mem_of_getElem? hindex
  have halive : s.Alive operation.state := .inl ⟨operation, hoperation, rfl⟩
  have heffect := perform_ownerEffect (s.view mutation) (hs.locks operation hoperation)
  unfold Locks.critical
  dsimp only
  generalize (s.view mutation).perform operation.op = result at heffect ⊢
  have hmoved (leases : List Lease) :
      Moved (s.save operation.state result.2 leases) (moveTo .returned index s.operations) :=
    moved_moveTo (s.save operation.state result.2 leases) .returned index
  have hexclusive : (moveTo .returned index s.operations).countP (·.stage.holds) ≤ 1 := by
    refine Nat.le_trans (countP_moveTo_le ?_) hs.exclusive
    intro original horiginal _
    rw [hindex] at horiginal
    cases horiginal
    simp [hstage, Stage.holds]
  generalize howner : result.2.mutation.owner = owner at heffect
  cases heffect with
  | same hclaim hrelease =>
    rw [created_eq hclaim]
    have hkeeps : ∀ identity ∈ result.2.mutation.owner, mutation.owner = some identity := by
      rw [howner]
      exact fun _ ↦ id
    exact ⟨(hmoved []).consistent (hs.save hstate hkeeps) hexclusive,
      .kept hclaim rfl (fun lease howns ↦ owns_of_save hstate hkeeps ((hmoved []).owns howns))
        (fun hreleased ↦ absurd hreleased hrelease)⟩
  | @claimed identity hop hdead hresponse =>
    rw [hresponse]
    have hfresh : identity ∉ s.live := by
      rw [hop] at henabled
      exact henabled.1
    refine ⟨(hmoved _).consistent (hs.claim halive hfresh howner) hexclusive, .claimed rfl rfl ?_⟩
    intro lease howns
    rw [hs.owns_of_claim halive hfresh howner ((hmoved _).owns howns)]
  | released hop hresponse =>
    rw [created_eq (by simp [hresponse])]
    have hkeeps : ∀ identity ∈ result.2.mutation.owner, mutation.owner = some identity := by
      simp [howner]
    exact ⟨(hmoved []).consistent (hs.save hstate hkeeps) hexclusive,
      .kept (by simp [hresponse]) rfl
        (fun lease howns ↦ owns_of_save hstate hkeeps ((hmoved []).owns howns))
        (fun _ lease howns ↦ hs.no_owner_of_save halive howner lease ((hmoved []).owns howns))⟩

/-! ### States that are dropped -/

theorem Consistent.dropState (hs : Consistent s) (hdead : ¬ s.Alive state)
    (mutation : ThreadMutation) :
    Consistent (s.dropState state mutation) ∧
      ∀ lease, Owns (s.dropState state mutation) lease → Owns s lease := by
  have hne {other : Address} (halive : s.Alive other) : other ≠ state := by
    rintro rfl
    exact hdead halive
  have howns (lease : Lease) (howns : Owns (s.dropState state mutation) lease) : Owns s lease := by
    obtain ⟨hlease, other, current, halive, hcurrent, howner⟩ := howns
    refine ⟨hlease, other, current, halive, ?_, howner⟩
    simpa only [Locks.dropState, update_of_ne (hne halive)] using hcurrent
  refine ⟨⟨?_, ?_, hs.numbered, hs.locks, hs.issued, hs.borrowed, hs.exclusive⟩, howns⟩
  · intro other halive
    have hregistered := hs.registered other halive
    have hother : s.threads ≠ some state := by
      rw [hregistered.1]
      simpa using hne halive
    simp only [Locks.dropState, if_neg hother, update_of_ne (hne halive)]
    exact hregistered
  · exact fun lease hlease ↦ hs.latest lease (howns lease hlease)

/-! ## Steps and runs -/

/-- What a leased operation, a claim or a release tells about the lease of a claim. -/
inductive LeaseEvent where
  | claimed (claim : ℕ)
  | succeeded (claim : ℕ)
  | released (claim : ℕ)
  deriving DecidableEq

/-- The event releases the lease of this claim, or supersedes it by a later claim. -/
def LeaseEvent.Retires : LeaseEvent → ℕ → Prop
  | .claimed later, claim => claim < later
  | .released retired, claim => claim = retired
  | .succeeded _, _ => False

/-- The events of a critical section that answers `response`. -/
def eventsOf (s : Locks Work) (operation : InFlight Work) (response : Response Work) :
    List LeaseEvent :=
  match response, operation.borrowed with
  | .claimed (some _), _ => [.claimed (s.claims + 1)]
  | .failed _, _ => []
  | .released true, some lease => [.succeeded lease.claim, .released lease.claim]
  | _, some lease => [.succeeded lease.claim]
  | _, none => []

def events (s : Locks Work) : Step Work → List LeaseEvent
  | .critical index =>
    match s.operations[index]? with
    | some operation =>
      match s.states operation.state with
      | some mutation => eventsOf s operation ((s.view mutation).perform operation.op).1
      | none => []
    | none => []
  | _ => []

/-- What a step can do to the ownership of the queue, with its events. -/
inductive StepEffect (s s' : Locks Work) : List LeaseEvent → Prop where
  | quiet (hclaims : s'.claims = s.claims) (howns : ∀ lease, Owns s' lease → Owns s lease) :
      StepEffect s s' []
  | claimed (hclaims : s'.claims = s.claims + 1)
      (howns : ∀ lease, Owns s' lease → lease.claim = s.claims + 1) :
      StepEffect s s' [.claimed (s.claims + 1)]
  | succeeded {lease : Lease} (hlease : Owns s lease) (hclaims : s'.claims = s.claims)
      (howns : ∀ lease, Owns s' lease → Owns s lease) : StepEffect s s' [.succeeded lease.claim]
  | released {lease : Lease} (hlease : Owns s lease) (hclaims : s'.claims = s.claims)
      (howns : ∀ lease, ¬ Owns s' lease) :
      StepEffect s s' [.succeeded lease.claim, .released lease.claim]

/-- The lease an operation in flight borrows has the identity the operation is issued with. -/
theorem Consistent.lease_of_borrowed (hs : Consistent s) (hoperation : operation ∈ s.operations)
    (hborrowed : operation.borrowed = some lease) :
    lease ∈ s.leases ∧ ∃ identity, operation.op.lease = some identity ∧
      lease.identity = some identity := by
  have hissued := hs.issued operation hoperation
  rw [hborrowed] at hissued
  refine ⟨hs.borrowed operation hoperation lease hborrowed, ?_⟩
  cases hlease : operation.op.lease with
  | none => simp [hlease] at hissued
  | some identity => exact ⟨identity, rfl, by simpa [hlease] using hissued⟩

/-- A leased operation that succeeds is issued with a lease that owns the queue. -/
theorem Consistent.owns_of_success {s : Locks Work} (hs : Consistent s)
    {operation : InFlight Work} (hoperation : operation ∈ s.operations)
    {mutation : ThreadMutation} (hstate : s.states operation.state = some mutation) {lease : Lease}
    (hborrowed : operation.borrowed = some lease)
    (hsuccess : ∀ error, ((s.view mutation).perform operation.op).1 ≠ .failed error) :
    Owns s lease := by
  obtain ⟨hlease, identity, hop, hidentity⟩ := hs.lease_of_borrowed hoperation hborrowed
  have howner := (check_iff.mp (check_of_success hop hsuccess)).1
  have hmutation : mutation.owner = some identity := howner
  exact ⟨hlease, operation.state, mutation, .inl ⟨operation, hoperation, rfl⟩, hstate,
    by simp [hmutation], by rw [hmutation, hidentity]⟩

section Step
variable {s : Locks Work} (hs : Consistent s)
include hs

/-- The events of an operation are those of its critical section. -/
theorem Consistent.critical_step (henabled : s.enabled (.critical index)) :
    Consistent (s.next (.critical index)) ∧
      StepEffect s (s.next (.critical index)) (events s (.critical index)) := by
  obtain ⟨operation, hindex, hstage, hfresh⟩ := henabled
  have hoperation := mem_of_getElem? hindex
  have hsome := (hs.registered operation.state (.inl ⟨operation, hoperation, rfl⟩)).2
  obtain ⟨mutation, hstate⟩ := isSome_iff_exists.mp hsome
  have hindex' : s.operations[index]? = some operation := hindex
  obtain ⟨hconsistent, heffect⟩ := hs.critical hindex hstage hstate (hfresh mutation hstate)
  simp only [Locks.next, events, hindex', hstate]
  refine ⟨hconsistent, ?_⟩
  have howns {lease : Lease} := @Consistent.owns_of_success _ _ hs _ hoperation _ hstate lease
  generalize ((s.view mutation).perform operation.op).1 = response at heffect howns ⊢
  cases heffect with
  | claimed hresponse hclaims howns' =>
    subst hresponse
    exact .claimed hclaims howns'
  | kept hresponse hclaims howns' hreleased =>
    unfold eventsOf
    split
    · exact absurd rfl (hresponse _)
    · exact .quiet hclaims howns'
    · rename_i hborrowed
      exact .released (howns hborrowed (by simp)) hclaims (hreleased rfl)
    · rename_i hfailed _ hborrowed
      exact .succeeded (howns hborrowed hfailed) hclaims howns'
    · exact .quiet hclaims howns'

variable {lease : Lease}

theorem Consistent.cloneLease (henabled : s.enabled (.cloneLease lease)) :
    Consistent (s.next (.cloneLease lease)) ∧
      StepEffect s (s.next (.cloneLease lease)) (events s (.cloneLease lease)) := by
  have hcloned : Cloned s (lease :: s.leases) := by
    intro clone hclone
    rcases mem_cons.mp hclone with rfl | hold
    · exact ⟨clone, henabled.1, rfl, rfl, fun _ ↦ id⟩
    · exact ⟨clone, hold, rfl, rfl, fun _ ↦ id⟩
  refine ⟨hcloned.consistent hs ?_, .quiet rfl (fun _ ↦ hcloned.owns)⟩
  exact fun operation hoperation borrowed hborrowed ↦
    mem_cons_of_mem _ (hs.borrowed operation hoperation borrowed hborrowed)

/-- A clone gives up its identity before its guard. -/
theorem Consistent.dropIdentity (henabled : s.enabled (.dropIdentity lease)) :
    Consistent (s.next (.dropIdentity lease)) ∧
      StepEffect s (s.next (.dropIdentity lease)) (events s (.dropIdentity lease)) := by
  obtain ⟨hlease, -, hkept⟩ := henabled
  have hcloned : Cloned s ({ lease with identity := none } :: s.leases.erase lease) := by
    intro clone hclone
    rcases mem_cons.mp hclone with rfl | hclone
    · exact ⟨lease, hlease, rfl, rfl, by simp⟩
    · exact ⟨clone, mem_of_mem_erase hclone, rfl, rfl, fun _ ↦ id⟩
  refine ⟨hcloned.consistent hs ?_, .quiet rfl (fun _ ↦ hcloned.owns)⟩
  intro operation hoperation held hheld
  apply mem_cons_of_mem
  by_cases heq : held = lease
  · subst heq
    exact hkept operation hoperation hheld
  · exact (mem_erase_of_ne heq).mpr (hs.borrowed operation hoperation held hheld)

theorem Consistent.dropGuard (henabled : s.enabled (.dropGuard lease)) :
    Consistent (s.next (.dropGuard lease)) ∧
      StepEffect s (s.next (.dropGuard lease)) (events s (.dropGuard lease)) := by
  have hcloned : Cloned s (s.leases.erase lease) := fun clone hclone ↦
    ⟨clone, mem_of_mem_erase hclone, rfl, rfl, fun _ ↦ id⟩
  refine ⟨hcloned.consistent hs ?_, .quiet rfl (fun _ ↦ hcloned.owns)⟩
  intro operation hoperation held hheld
  obtain ⟨hmem, identity, -, hidentity⟩ := hs.lease_of_borrowed hoperation hheld
  have hne : held ≠ lease := by
    rintro rfl
    simp [henabled.2] at hidentity
  exact (mem_erase_of_ne hne).mpr hmem

theorem Consistent.step {step : Step Work} (henabled : s.enabled step) :
    Consistent (s.next step) ∧ StepEffect s (s.next step) (events s step) := by
  cases step with
  | begin op borrowed fresh =>
    have hbegin := hs.begin henabled
    exact ⟨hbegin.1, .quiet hbegin.2.1 hbegin.2.2⟩
  | lock index =>
    obtain ⟨operation, hindex, -, hfree⟩ := henabled
    have hmoved := moved_moveTo s .locked index
    refine ⟨hmoved.consistent hs (countP_moveTo_le_one ?_), .quiet rfl (fun _ ↦ hmoved.owns)⟩
    intro other hother
    apply hfree other hother
    exact hs.state_unique (.inl ⟨other, hother, rfl⟩)
      (.inl ⟨operation, mem_of_getElem? hindex, rfl⟩)
  | critical index => exact hs.critical_step henabled
  | unlock index =>
    have hmoved := moved_moveTo s .unlocked index
    refine ⟨hmoved.consistent hs ?_, .quiet rfl (fun _ ↦ hmoved.owns)⟩
    exact Nat.le_trans (countP_moveTo_le (by simp [Stage.holds])) hs.exclusive
  | finish index =>
    have hmoved := moved_eraseIdx s index
    refine ⟨hmoved.consistent hs ?_, .quiet rfl (fun _ ↦ hmoved.owns)⟩
    exact Nat.le_trans (List.Sublist.countP_le (eraseIdx_sublist ..)) hs.exclusive
  | cloneLease lease => exact hs.cloneLease henabled
  | dropIdentity lease => exact hs.dropIdentity henabled
  | dropGuard lease => exact hs.dropGuard henabled
  | dropState state =>
    obtain ⟨hsome, hdead⟩ := henabled
    obtain ⟨mutation, hstate⟩ := isSome_iff_exists.mp hsome
    simp only [Locks.next, hstate]
    have hdrop := hs.dropState hdead mutation
    exact ⟨hdrop.1, .quiet rfl hdrop.2⟩

end Step

/-- The invariant of a run: no owner is retired, and nothing retired succeeds later. -/
structure Exclusive (log : List LeaseEvent) (s : Locks Work) : Prop where
  consistent : Consistent s
  bounded : ∀ event ∈ log, ∀ claim, event.Retires claim → claim ≤ s.claims
  retired : ∀ event ∈ log, ∀ claim, event.Retires claim → ∀ lease, Owns s lease →
    lease.claim ≠ claim
  ordered : log.Pairwise (fun earlier later ↦
    ∀ claim, earlier.Retires claim → later ≠ .succeeded claim)

variable {log new : List LeaseEvent}

/-- New events extend the log if they respect what the log retired and what they retire is gone. -/
theorem Exclusive.extend (hs : Exclusive log s) (hconsistent : Consistent s')
    (hclaims : s.claims ≤ s'.claims)
    (hold : ∀ event ∈ log, ∀ claim, event.Retires claim → ∀ lease, Owns s' lease →
      lease.claim ≠ claim) (hnew : ∀ event ∈ new, ∀ claim, event.Retires claim →
      claim ≤ s'.claims ∧ ∀ lease, Owns s' lease → lease.claim ≠ claim)
    (hcross : ∀ event ∈ log, ∀ later ∈ new, ∀ claim, event.Retires claim → later ≠ .succeeded claim)
    (hordered : new.Pairwise (fun earlier later ↦
      ∀ claim, earlier.Retires claim → later ≠ .succeeded claim)) : Exclusive (log ++ new) s' where
  consistent := hconsistent
  bounded event hevent claim hretires := by
    rcases mem_append.mp hevent with hevent | hevent
    · exact Nat.le_trans (hs.bounded event hevent claim hretires) hclaims
    · exact (hnew event hevent claim hretires).1
  retired event hevent claim hretires := by
    rcases mem_append.mp hevent with hevent | hevent
    · exact hold event hevent claim hretires
    · exact (hnew event hevent claim hretires).2
  ordered := pairwise_append.mpr ⟨hs.ordered, hordered, hcross⟩

theorem Exclusive.step (hs : Exclusive log s) (hconsistent : Consistent s')
    (heffect : StepEffect s s' new) : Exclusive (log ++ new) s' := by
  have hsucceeded {lease : Lease} (howns : Owns s lease) (event : LeaseEvent) (hevent : event ∈ log)
      (claim : ℕ) (hretires : event.Retires claim) :
      LeaseEvent.succeeded lease.claim ≠ .succeeded claim := by
    intro heq
    exact hs.retired event hevent claim hretires lease howns (LeaseEvent.succeeded.inj heq)
  have hold (howns : ∀ lease, Owns s' lease → Owns s lease) (event : LeaseEvent)
      (hevent : event ∈ log) (claim : ℕ) (hretires : event.Retires claim) (lease : Lease)
      (hlease : Owns s' lease) : lease.claim ≠ claim :=
    hs.retired event hevent claim hretires lease (howns lease hlease)
  cases heffect with
  | quiet hclaims howns =>
    apply hs.extend hconsistent (by omega) (hold howns) <;> simp
  | claimed hclaims howns =>
    apply hs.extend hconsistent (by omega)
    · intro event hevent claim hretires lease hlease
      have hbound := hs.bounded event hevent claim hretires
      have hlatest := howns lease hlease
      omega
    · intro event hevent claim hretires
      rw [mem_singleton.mp hevent] at hretires
      have hlt : claim < s.claims + 1 := hretires
      refine ⟨by omega, ?_⟩
      intro lease hlease
      have hlatest := howns lease hlease
      omega
    · simp
    · simp
  | @succeeded lease hlease hclaims howns =>
    apply hs.extend hconsistent (by omega) (hold howns)
    · simp [LeaseEvent.Retires]
    · intro event hevent later hlater claim hretires
      rw [mem_singleton.mp hlater]
      exact hsucceeded hlease event hevent claim hretires
    · simp
  | @released lease hlease hclaims howns =>
    apply hs.extend hconsistent (by omega)
    · exact fun _ _ _ _ other hother ↦ absurd hother (howns other)
    · intro event hevent claim hretires
      refine ⟨?_, fun other hother ↦ absurd hother (howns other)⟩
      have hnumbered := hs.consistent.numbered lease hlease.1
      have hclaim : claim = lease.claim := by
        simp only [mem_cons, not_mem_nil, or_false] at hevent
        rcases hevent with rfl | rfl
        · exact absurd hretires (by simp [LeaseEvent.Retires])
        · exact hretires
      omega
    · intro event hevent later hlater claim hretires
      simp only [mem_cons, not_mem_nil, or_false] at hlater
      rcases hlater with rfl | rfl
      · exact hsucceeded hlease event hevent claim hretires
      · simp
    · simp [LeaseEvent.Retires]

/-- The lease events of a run from the empty state. -/
def leaseEvents (steps : List (Step Work)) : List LeaseEvent :=
  (Locks.system Work).collect events {} steps

theorem exclusive_of_admits {steps : List (Step Work)}
    (hrun : (Locks.system Work).Admits {} steps) :
    Exclusive (leaseEvents steps) ((Locks.system Work).exec {} steps) := by
  refine System.traceInvariant (fun steps s ↦ Exclusive (leaseEvents steps) s) {} ?_ ?_ hrun
  · refine ⟨⟨?_, ?_, ?_, ?_, ?_, ?_, ?_⟩, ?_, ?_, List.Pairwise.nil⟩ <;>
      simp [Alive, Owns, leaseEvents]
  · intro steps step _ ih henabled
    have hstep := ih.consistent.step henabled
    rw [leaseEvents, System.collect_snoc]
    exact ih.step hstep.1 hstep.2

/-- **Exclusive ownership.**  In every run of operations, clones, drops and state destructions: at
most one identity passes the check on a state in use, a leased operation succeeds only for an
identity that passes it, a released or superseded lease never succeeds again, and whatever holds a
`ThreadState` holds the same one, the one in the map, with at most one operation in its lock. -/
theorem ownership_is_exclusive (steps : List (Step Work))
    (hrun : (Locks.system Work).Admits {} steps) :
    let s := (Locks.system Work).exec {} steps
    (∀ state mutation state' mutation' identity identity', s.Alive state → s.Alive state' →
      s.states state = some mutation → s.states state' = some mutation' →
      mutation.check s.live identity = true → mutation'.check s.live identity' = true →
      identity = identity') ∧
    (∀ operation ∈ s.operations, ∃ mutation, s.states operation.state = some mutation ∧
      ∀ identity, operation.op.lease = some identity →
        (∀ error, ((s.view mutation).perform operation.op).1 ≠ .failed error) →
        mutation.check s.live identity = true) ∧
    (leaseEvents steps).Pairwise (fun earlier later ↦
      ∀ claim, earlier.Retires claim → later ≠ .succeeded claim) ∧
    (∀ state, s.Alive state → s.threads = some state) ∧
    (∀ state state', s.Alive state → s.Alive state' → state = state') ∧
    s.operations.countP (·.stage.holds) ≤ 1 := by
  intro s
  have hexclusive := exclusive_of_admits hrun
  have hs : Consistent s := hexclusive.consistent
  refine ⟨?_, ?_, hexclusive.ordered, fun state halive ↦ (hs.registered state halive).1,
    fun _ _ ↦ hs.state_unique, hs.exclusive⟩
  · intro state mutation state' mutation' identity identity' halive halive' hstate hstate'
      hcheck hcheck'
    have heq := hs.state_unique halive halive'
    subst heq
    have hsame : mutation = mutation' := some.inj (hstate.symm.trans hstate')
    subst hsame
    exact some.inj ((check_iff.mp hcheck).1.symm.trans (check_iff.mp hcheck').1)
  · intro operation hoperation
    have hsome := (hs.registered operation.state (.inl ⟨operation, hoperation, rfl⟩)).2
    obtain ⟨mutation, hstate⟩ := isSome_iff_exists.mp hsome
    exact ⟨mutation, hstate, fun identity hlease hsuccess ↦ check_of_success hlease hsuccess⟩

/-- A lease is released while a clone of it lives, a second claim takes the queue on the same state,
and the stale clone fails. -/
theorem ownership_is_exclusive_after_release : let first : Lease := ⟨some 7, 100, 1⟩
    let steps : List (Step String) := [
      .begin (.claim 7) none 100, .lock 0, .critical 0, .unlock 0, .finish 0,
      .cloneLease first,
      .begin (.releaseIfIdle .ok 7) (some first) 200, .lock 0, .critical 0, .unlock 0, .finish 0,
      .begin (.claim 8) none 200, .lock 0, .critical 0, .unlock 0, .finish 0,
      .begin (.peek .ok 7) (some first) 200, .lock 0, .critical 0,
      .begin (.peek .ok 8) (some ⟨some 8, 100, 2⟩) 200, .unlock 1, .lock 0, .critical 0]
    leaseEvents steps = [.claimed 1, .succeeded 1, .released 1, .claimed 2, .succeeded 2] ∧
      ∀ state, ((Locks.system String).exec {} steps).Alive state →
        ((Locks.system String).exec {} steps).threads = some state := by
  intro first steps
  have hownership := ownership_is_exclusive steps (by decide)
  exact ⟨by decide, hownership.2.2.2.1⟩

end Exo.TurnCoordinator.Ownership
