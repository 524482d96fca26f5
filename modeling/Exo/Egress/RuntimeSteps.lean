import Exo.Egress.Runtime

/-!
# What a task of the egress runtime does

For a task that holds the lock of its sandbox, every step is described once: what it changes in the map
and in the proxies, and what is so at the stage that it comes to.
-/

namespace Exo.Egress.Runtime

open Library List

variable {Rest : Type} {s s' : Shared Rest} {id other : String} {cached : CachedSandbox Rest}
  {p q : ProxyId}

namespace Shared

@[simp]
theorem cached_insert_self : (s.insert id cached).cached id = some cached := by
  simp [insert, Shared.cached]

theorem lookup_filter {β : Type} (entries : List (String × β)) (hne : other ≠ id) :
    (entries.filter (·.1 ≠ id)).lookup other = entries.lookup other := by
  induction entries with
  | nil => rfl
  | cons entry entries ih =>
    obtain ⟨key, value⟩ := entry
    by_cases hkey : key = id
    · subst hkey
      rw [filter_cons_of_neg (by simp), lookup_cons, beq_eq_false_iff_ne.2 hne]
      exact ih
    · rw [filter_cons_of_pos (by simpa using hkey), lookup_cons, lookup_cons, ih]

theorem cached_insert_of_ne (hne : other ≠ id) :
    (s.insert id cached).cached other = s.cached other := by
  rw [insert, Shared.cached, lookup_cons, beq_eq_false_iff_ne.2 hne]
  exact lookup_filter _ hne

@[simp]
theorem cached_remove_self : (s.remove id).cached id = none := by
  rw [remove, Shared.cached, lookup_eq_none_iff]
  intro entry hentry
  have hne : entry.1 ≠ id := by simpa using (mem_filter.1 hentry).2
  simpa using hne.symm

theorem cached_remove_of_ne (hne : other ≠ id) : (s.remove id).cached other = s.cached other :=
  lookup_filter _ hne

@[simp]
theorem isOpen_remove : (s.remove id).isOpen p = s.isOpen p := rfl

theorem isOpen_close : (s.close q).isOpen p = (s.isOpen p && decide (p ≠ q)) := by
  unfold isOpen close
  by_cases heq : p = q
  · subst heq
    by_cases hlt : p < s.proxies.length
    · simp [hlt]
    · have hle := Nat.le_of_not_lt hlt
      simp [set_eq_of_length_le hle, getElem?_eq_none_iff.2 hle]
  · rw [getElem?_set_ne (Ne.symm heq)]
    simp [heq]

theorem isOpen_start_of_ne (hne : p ≠ s.proxies.length) : s.start.isOpen p = s.isOpen p := by
  unfold isOpen start
  rcases Nat.lt_or_gt_of_ne hne with hlt | hgt
  · rw [getElem?_append_left hlt]
  · rw [getElem?_eq_none_iff.2 (by simp; omega), getElem?_eq_none_iff.2 (by omega)]

theorem isOpen_of_closed (hclosed : s.closed = true) : s.isOpen p = false := by
  simp [isOpen, hclosed]

/-- A proxy that was created and is not open; it stays so. -/
def Shut (s : Shared Rest) (egress : ProxyId) : Prop :=
  egress < s.proxies.length ∧ s.isOpen egress = false

end Shared

/-- An entry of the map has the proxy. -/
def Listed (s : Shared Rest) (egress : ProxyId) : Prop :=
  ∃ id cached, s.cached id = some cached ∧ cached.egress = egress

section
variable (s : Shared Rest)

/-- The entry of the sandbox, at the stages of an operation on it. -/
def Stage.MapOk (id : String) : Stage Rest → Prop
  | closing _ | draining _ | removed | creating | created _ | inserting _ => s.cached id = none
  | building (some egress) | built egress _ | failed egress _ =>
    s.closed = true ∨ ∃ cached, s.cached id = some cached ∧ cached.egress = egress
  | registering egress _ => ∃ cached, s.cached id = some cached ∧ cached.egress = egress
  | panicked => False
  | _ => True

/-- The calls of an operation that has its outcome. -/
def Settled (calls : List Call) : Outcome → Prop
  | .ok _ => calls = [] ∨ calls = [.build none] ∨
    ∃ egress, calls = [.create egress, .build (some egress)]
  | .error _ => calls = [] ∨ calls = [.build none] ∨ ∃ egress, s.Shut egress ∧
    ((s.closed = true ∧ calls = [.create egress]) ∨
      calls = [.create egress, .build (some egress), .shutdown egress, .terminate])

/-- The calls of an operation at each stage. -/
def Stage.CallsOk (calls : List Call) : Stage Rest → Prop
  | created egress | inserting egress => calls = [.create egress] ∧ egress < s.proxies.length
  | building none => calls = [.build none]
  | building (some egress) | built egress _ | registering egress _ | failed egress _
  | failedRemoved egress _ =>
    calls = [.create egress, .build (some egress)] ∧ egress < s.proxies.length
  | failedClosed egress _ => calls = [.create egress, .build (some egress)] ∧ s.Shut egress
  | cleaning egress _ =>
    calls = [.create egress, .build (some egress), .shutdown egress] ∧ s.Shut egress
  | unlocking outcome | dropping outcome | finished outcome => Settled s calls outcome
  | _ => calls = []

end

/-- A step of an operation on a sandbox: what it may change, and what is so after it. -/
structure Moved (id : String) (s s' : Shared Rest) (stage stage' : Stage Rest)
    (calls calls' : List Call) : Prop where
  holds : stage.holds = true
  closed : s'.closed = s.closed
  length : s.proxies.length ≤ s'.proxies.length
  shut : ∀ egress, s.Shut egress → s'.Shut egress
  others : ∀ other, other ≠ id → s'.cached other = s.cached other
  open_or : ∀ egress, s'.isOpen egress = true →
    (s.isOpen egress = true → Listed s egress ∨ stage.owned = some egress) →
    Listed s' egress ∨ stage'.owned = some egress
  in_map : stage'.inMap = true → s.closed = false
  empty : stage.inMap = false → s.sandboxes = [] → s'.sandboxes = []
  map_ok : stage'.MapOk s' id
  calls_ok : stage'.CallsOk s' calls'

variable {stage stage' : Stage Rest} {calls calls' new : List Call}

theorem Listed.of_remove (hlisted : Listed s q) :
    Listed (s.remove id) q ∨ ∃ cached, s.cached id = some cached ∧ cached.egress = q := by
  obtain ⟨other, cached, hcached, hegress⟩ := hlisted
  by_cases heq : other = id
  · exact .inr ⟨cached, heq ▸ hcached, hegress⟩
  · exact .inl ⟨other, cached, by rwa [Shared.cached_remove_of_ne heq], hegress⟩

theorem Listed.of_insert {entry : CachedSandbox Rest} (hlisted : Listed s q) :
    Listed (s.insert id entry) q ∨ ∃ cached, s.cached id = some cached ∧ cached.egress = q := by
  obtain ⟨other, cached, hcached, hegress⟩ := hlisted
  by_cases heq : other = id
  · exact .inr ⟨cached, heq ▸ hcached, hegress⟩
  · exact .inl ⟨other, cached, by rwa [Shared.cached_insert_of_ne heq], hegress⟩

theorem listed_insert (id : String) (cached : CachedSandbox Rest) :
    Listed (s.insert id cached) cached.egress := ⟨id, cached, Shared.cached_insert_self, rfl⟩

theorem Shared.Shut.close (hshut : s.Shut p) : (s.close q).Shut p :=
  ⟨by simpa [Shared.close] using hshut.1, by simp [Shared.isOpen_close, hshut.2]⟩

theorem Shared.Shut.start (hshut : s.Shut p) : s.start.Shut p := by
  refine ⟨Nat.lt_of_lt_of_le hshut.1 (by simp [Shared.start]), ?_⟩
  rw [Shared.isOpen_start_of_ne (Nat.ne_of_lt hshut.1)]
  exact hshut.2

theorem Shared.shut_close (hlt : p < s.proxies.length) : (s.close p).Shut p :=
  ⟨by simpa [Shared.close] using hlt, by simp [Shared.isOpen_close]⟩

section
variable (hholds : stage.holds = true)
include hholds

/-- A step that changes nothing shared, and leaves its task with the proxy that it had. -/
theorem Moved.same (howned : stage.owned = none ∨ stage'.owned = stage.owned ∨ s.closed = true)
    (hinMap : stage'.inMap = true → s.closed = false) (hmap : stage'.MapOk s id)
    (hcalls : stage'.CallsOk s calls') : Moved id s s stage stage' calls calls' where
  holds := hholds
  closed := rfl
  length := Nat.le_refl _
  shut := fun _ hshut ↦ hshut
  others := fun _ _ ↦ rfl
  open_or := by
    intro egress hopen hbefore
    rcases howned with hnone | hsame | hclosed
    · exact .inl ((hbefore hopen).resolve_right (by simp [hnone]))
    · exact hsame ▸ hbefore hopen
    · rw [Shared.isOpen_of_closed hclosed] at hopen
      cases hopen
  in_map := hinMap
  empty := fun _ hempty ↦ hempty
  map_ok := hmap
  calls_ok := hcalls

/-- A step that changes nothing shared, of a task without a proxy. -/
theorem Moved.stay (howned : stage.owned = none)
    (hinMap : stage'.inMap = false) (hmap : stage'.MapOk s id) (hcalls : stage'.CallsOk s calls') :
    Moved id s s stage stage' calls calls' :=
  .same hholds (.inl howned) (by simp [hinMap]) hmap hcalls

theorem Moved.close (howned : stage.owned = some p)
    (hmap : stage'.MapOk (s.close p) id) (hcalls : stage'.CallsOk (s.close p) calls')
    (hinMap : stage'.inMap = false) :
    Moved id s (s.close p) stage stage' calls calls' where
  holds := hholds
  closed := rfl
  length := by simp [Shared.close]
  shut := fun _ hshut ↦ hshut.close
  others := fun _ _ ↦ rfl
  open_or := by
    intro egress hopen hbefore
    rw [Shared.isOpen_close, Bool.and_eq_true, decide_eq_true_eq] at hopen
    refine .inl ((hbefore hopen.1).resolve_right fun hsame ↦ hopen.2 ?_)
    rw [howned, Option.some.injEq] at hsame
    exact hsame.symm
  in_map := fun htrue ↦ by simp [hinMap] at htrue
  empty := fun _ hempty ↦ hempty
  map_ok := hmap
  calls_ok := hcalls

/-- The entry of the sandbox is removed; the task has its proxy. -/
theorem Moved.remove (howned : stage.owned = none ∨ stage'.owned = stage.owned)
    (hentry : s.closed = true ∨ ∀ cached, s.cached id = some cached →
      stage'.owned = some cached.egress)
    (hmap : stage'.MapOk (s.remove id) id) (hcalls : stage'.CallsOk (s.remove id) calls')
    (hinMap : stage'.inMap = false) :
    Moved id s (s.remove id) stage stage' calls calls' where
  holds := hholds
  closed := rfl
  length := Nat.le_refl _
  shut := fun _ hshut ↦ hshut
  others := fun _ hne ↦ Shared.cached_remove_of_ne hne
  open_or := by
    intro egress hopen hbefore
    rw [Shared.isOpen_remove] at hopen
    rcases hbefore hopen with hlisted | hsame
    · rcases hlisted.of_remove with hlisted | ⟨cached, hcached, rfl⟩
      · exact .inl hlisted
      · rcases hentry with hclosed | hentry
        · rw [Shared.isOpen_of_closed hclosed] at hopen
          cases hopen
        · exact .inr (hentry cached hcached)
    · rcases howned with hnone | heq
      · simp [hnone] at hsame
      · exact .inr (heq ▸ hsame)
  in_map := fun htrue ↦ by simp [hinMap] at htrue
  empty := by
    intro _ hempty
    simp [Shared.remove, hempty]
  map_ok := hmap
  calls_ok := hcalls

/-- The entry of the sandbox is written; it has the proxy of the task. -/
theorem Moved.insert (hstage : stage.inMap = true)
    (howned : stage.owned = some cached.egress)
    (hentry : ∀ old, s.cached id = some old → old.egress = cached.egress)
    (hmap : stage'.MapOk (s.insert id cached) id)
    (hcalls : stage'.CallsOk (s.insert id cached) calls') (hinMap : stage'.inMap = false) :
    Moved id s (s.insert id cached) stage stage' calls calls' where
  holds := hholds
  closed := rfl
  length := Nat.le_refl _
  shut := fun _ hshut ↦ hshut
  others := fun _ hne ↦ Shared.cached_insert_of_ne hne
  open_or := by
    intro egress hopen hbefore
    refine .inl ?_
    rcases hbefore hopen with hlisted | hsame
    · rcases hlisted.of_insert with hlisted | ⟨old, hold, rfl⟩
      · exact hlisted
      · exact hentry old hold ▸ listed_insert id cached
    · rw [howned, Option.some.injEq] at hsame
      exact hsame ▸ listed_insert id cached
  in_map := fun htrue ↦ by simp [hinMap] at htrue
  empty := fun hnot ↦ by simp [hstage] at hnot
  map_ok := hmap
  calls_ok := hcalls

theorem Moved.start (howned : stage.owned = none)
    (howned' : stage'.owned = some s.proxies.length) (hmap : stage'.MapOk s.start id)
    (hcalls : stage'.CallsOk s.start calls') (hinMap : stage'.inMap = false) :
    Moved id s s.start stage stage' calls calls' where
  holds := hholds
  closed := rfl
  length := by simp [Shared.start]
  shut := fun _ hshut ↦ hshut.start
  others := fun _ _ ↦ rfl
  open_or := by
    intro egress hopen hbefore
    by_cases heq : egress = s.proxies.length
    · exact .inr (heq ▸ howned')
    · rw [Shared.isOpen_start_of_ne heq] at hopen
      exact .inl ((hbefore hopen).resolve_right (by simp [howned]))
  in_map := fun htrue ↦ by simp [hinMap] at htrue
  empty := fun _ hempty ↦ hempty
  map_ok := hmap
  calls_ok := hcalls

end

variable {free : Bool} {env : Env}

theorem moved_remove (hadvance : advanceRemove s free env id stage = some (s', stage', new))
    (hmap : stage.MapOk s id) (hcalls : stage.CallsOk s calls) :
    Moved id s s' stage stage' calls (calls ++ new) := by
  revert hadvance
  fun_cases advanceRemove s free env id stage <;> rintro ⟨⟩ <;> cases hcalls
  · rename_i cached hcached
    refine .remove rfl (.inl rfl) (.inr fun other hother ↦ ?_) Shared.cached_remove_self rfl rfl
    cases hcached.symm.trans hother
    rfl
  · rename_i hnone
    exact .stay rfl rfl rfl hnone rfl
  · exact .close rfl rfl hmap rfl rfl
  · exact .stay rfl rfl rfl hmap rfl
  · exact .stay rfl rfl rfl trivial (.inl rfl)

theorem moved_terminate (hadvance : advanceTerminate s free env id stage = some (s', stage', new))
    (hmap : stage.MapOk s id) (hcalls : stage.CallsOk s calls) :
    Moved id s s' stage stage' calls (calls ++ new) := by
  revert hadvance
  fun_cases advanceTerminate s free env id stage <;>
    first
    | exact fun hadvance ↦ moved_remove hadvance hmap hcalls
    | (rintro ⟨⟩; cases hcalls)
  · exact .stay rfl rfl rfl trivial rfl
  · exact .stay rfl rfl rfl trivial rfl
  · refine .stay rfl rfl rfl trivial ?_
    show Settled s [] (if env.ok then .ok none else .error env.message)
    split <;> exact .inl rfl

variable [DecidableEq Rest]

theorem moved_acquire {request : SandboxRequest Rest} {externalProxy : Option ExternalProxyConfig}
    (hadvance : advanceAcquire s free env request externalProxy stage = some (s', stage', new))
    (hmap : stage.MapOk s request.sandboxId) (hcalls : stage.CallsOk s calls) :
    Moved request.sandboxId s s' stage stage' calls (calls ++ new) := by
  revert hadvance
  fun_cases advanceAcquire s free env request externalProxy stage <;>
    first
    | exact fun hadvance ↦ moved_remove hadvance hmap hcalls
    | rintro ⟨⟩ <;> try
        obtain rfl : calls = [] := hcalls
        first
        | exact .stay rfl rfl rfl trivial rfl
        | exact .stay rfl rfl rfl trivial (.inl rfl)
        | exact .stay rfl rfl rfl hmap rfl
  -- `locked`
  · rename_i hnone
    obtain rfl : calls = [] := hcalls
    exact .stay rfl rfl rfl hnone rfl
  -- `creating`
  · obtain rfl : calls = [] := hcalls
    exact .start rfl rfl rfl hmap ⟨rfl, by simp [Shared.start]⟩ rfl
  -- `created`
  · rename_i egress _ hclosed
    obtain ⟨rfl, hlt⟩ := hcalls
    refine .same rfl (.inr (.inr hclosed)) (by simp [Stage.inMap]) trivial ?_
    exact .inr (.inr ⟨egress, ⟨hlt, Shared.isOpen_of_closed hclosed⟩, .inl ⟨hclosed, rfl⟩⟩)
  · rename_i hopen
    obtain ⟨rfl, hlt⟩ := hcalls
    exact .same rfl (.inr (.inl rfl)) (fun _ ↦ by simpa using hopen) hmap ⟨rfl, hlt⟩
  -- `inserting`
  · obtain ⟨rfl, hlt⟩ := hcalls
    refine .insert rfl rfl rfl (fun old hold ↦ ?_) (.inr ⟨_, Shared.cached_insert_self, rfl⟩)
      ⟨rfl, hlt⟩ rfl
    cases hmap.symm.trans hold
  -- `building none`
  iterate 2
    · obtain rfl : calls = [.build none] := hcalls
      exact .stay rfl rfl rfl trivial (.inr (.inl rfl))
  -- `building (some egress)`, and `built` after the shutdown
  iterate 3
    · obtain ⟨rfl, hlt⟩ := hcalls
      exact .same rfl (.inr (.inl rfl)) (by simp [Stage.inMap]) hmap ⟨rfl, hlt⟩
  -- `built`
  · rename_i hopen
    obtain ⟨rfl, hlt⟩ := hcalls
    exact .same rfl (.inr (.inl rfl)) (fun _ ↦ by simpa using hopen) (hmap.resolve_left hopen)
      ⟨rfl, hlt⟩
  -- `registering`
  · rename_i egress handle cached hcached
    obtain ⟨rfl, hlt⟩ := hcalls
    obtain ⟨own, hown, hegress⟩ := hmap
    cases hcached.symm.trans hown
    refine .insert rfl rfl (by simp [Stage.owned, hegress]) (fun old hold ↦ ?_) trivial
      (.inr (.inr ⟨egress, rfl⟩)) rfl
    cases hcached.symm.trans hold
    rfl
  · rename_i hnone
    obtain ⟨own, hown, -⟩ := hmap
    cases hnone.symm.trans hown
  -- `failed`
  · obtain ⟨rfl, hlt⟩ := hcalls
    refine .remove rfl (.inr rfl) ?_ trivial ⟨rfl, hlt⟩ rfl
    refine hmap.imp id fun hentry cached hcached ↦ ?_
    obtain ⟨own, hown, hegress⟩ := hentry
    cases hown.symm.trans hcached
    simp [Stage.owned, hegress]
  -- `failedRemoved`
  · obtain ⟨rfl, hlt⟩ := hcalls
    exact .close rfl rfl trivial ⟨rfl, Shared.shut_close hlt⟩ rfl
  -- `failedClosed`
  · obtain ⟨rfl, hshut⟩ := hcalls
    exact .stay rfl rfl rfl trivial ⟨rfl, hshut⟩
  -- `cleaning`
  · rename_i egress message
    obtain ⟨rfl, hshut⟩ := hcalls
    exact .stay rfl rfl rfl trivial (.inr (.inr ⟨egress, hshut, .inr rfl⟩))

end Exo.Egress.Runtime
