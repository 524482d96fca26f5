import Mathlib.Data.Finset.Insert
import Mathlib.Data.Finset.Max
import Mathlib.Order.WithBot

/-!
# Locks by key

A map from keys to weak references of locks.  A task asks for a key: the entries whose lock nobody
owns any more are dropped, and the task becomes an owner of the key's lock, a new one if there is
no entry.  It waits until no task holds the lock, and gives up all its locks at once.

While a lock has an owner, its key keeps the entry, so that all the tasks of a key meet at one lock.
Tasks that ask for their keys in order never wait in a circle.
-/

namespace Exo.Library

open Function Finset Option

/-- The weak map, and what every task owns of it. -/
structure WeakLocks (Key Task : Type*) where
  entries : Key → Option ℕ
  /-- The next lock. -/
  fresh : ℕ
  /-- The tasks with a strong reference. -/
  owners : ℕ → Finset Task
  holder : ℕ → Option Task
  waits : Task → Option (Key × ℕ)
  holds : Task → List (Key × ℕ)

namespace WeakLocks

variable {Key Task : Type*}

def empty : WeakLocks Key Task :=
  ⟨fun _ ↦ none, 0, fun _ ↦ ∅, fun _ ↦ none, fun _ ↦ none, fun _ ↦ []⟩

section Operations
variable [DecidableEq Key] [DecidableEq Task] (locks : WeakLocks Key Task) (task : Task) (key : Key)

/-- The entries whose lock has an owner. -/
def pruned (key : Key) : Option ℕ :=
  (locks.entries key).filter fun lock ↦ locks.owners lock ≠ ∅

/-- The lock of the key, or a new one. -/
def lockFor : ℕ := (locks.pruned key).getD locks.fresh

def request : WeakLocks Key Task where
  entries := Function.update locks.pruned key (some (locks.lockFor key))
  fresh := max locks.fresh (locks.lockFor key + 1)
  owners := Function.update locks.owners (locks.lockFor key)
    (insert task (locks.owners (locks.lockFor key)))
  holder := locks.holder
  waits := Function.update locks.waits task (some (key, locks.lockFor key))
  holds := locks.holds

/-- The task waits for a lock that nobody holds. -/
def Grantable : Prop :=
  ∃ wait ∈ locks.waits task, locks.holder wait.2 = none

instance : Decidable (locks.Grantable task) :=
  match hwaits : locks.waits task with
  | none => isFalse fun hgrantable ↦ by simp [Grantable, hwaits] at hgrantable
  | some wait => decidable_of_iff (locks.holder wait.2 = none) (by simp [Grantable, hwaits])

def grant : WeakLocks Key Task :=
  match locks.waits task with
  | some (key, lock) =>
    { locks with
      holder := Function.update locks.holder lock (some task)
      waits := Function.update locks.waits task none
      holds := Function.update locks.holds task ((key, lock) :: locks.holds task) }
  | none => locks

/-- The task drops all its guards. -/
def release : WeakLocks Key Task where
  entries := locks.entries
  fresh := locks.fresh
  owners lock := if lock ∈ (locks.holds task).map Prod.snd then (locks.owners lock).erase task
    else locks.owners lock
  holder lock := if lock ∈ (locks.holds task).map Prod.snd then none else locks.holder lock
  waits := locks.waits
  holds := Function.update locks.holds task []

end Operations

section
variable (locks : WeakLocks Key Task)

/-- Each owner finds its lock under its key, and each held lock has one holder. -/
structure Sound : Prop where
  waiting : ∀ task key lock, locks.waits task = some (key, lock) →
    locks.entries key = some lock ∧ task ∈ locks.owners lock
  holding : ∀ task key lock, (key, lock) ∈ locks.holds task →
    locks.entries key = some lock ∧ task ∈ locks.owners lock ∧ locks.holder lock = some task
  held : ∀ task lock, locks.holder lock = some task → ∃ key, (key, lock) ∈ locks.holds task
  below : ∀ key lock, locks.entries key = some lock → lock < locks.fresh
  owned : ∀ task lock, task ∈ locks.owners lock → lock < locks.fresh
  once : ∀ key other lock, locks.entries key = some lock → locks.entries other = some lock →
    key = other

/-- Every task waits for a key above those that it holds. -/
def Ordered [LT Key] (locks : WeakLocks Key Task) : Prop :=
  ∀ task key lock, locks.waits task = some (key, lock) →
    ∀ other held, (other, held) ∈ locks.holds task → other < key

/-- The key that the task waits for, below all keys if it does not wait. -/
def waitsFor (task : Task) : WithBot Key :=
  (locks.waits task).map Prod.fst

/-- Every one of the tasks waits for a lock that one of them holds. -/
def Deadlocked (tasks : Finset Task) : Prop :=
  tasks.Nonempty ∧ ∀ task ∈ tasks, ∃ key lock, locks.waits task = some (key, lock) ∧
    ∃ other ∈ tasks, locks.holder lock = some other

end

variable {locks : WeakLocks Key Task} {task : Task} {key : Key}

theorem sound_empty : (empty : WeakLocks Key Task).Sound where
  waiting := nofun
  holding := nofun
  held := nofun
  below := nofun
  owned := nofun
  once := nofun

variable [DecidableEq Task] {lock : ℕ}

theorem pruned_eq_some :
    locks.pruned key = some lock ↔ locks.entries key = some lock ∧ locks.owners lock ≠ ∅ := by
  simp [pruned, filter_eq_some_iff]

theorem pruned_of_owner (hentry : locks.entries key = some lock)
    (howner : task ∈ locks.owners lock) : locks.pruned key = some lock :=
  pruned_eq_some.2 ⟨hentry, ne_empty_of_mem howner⟩

theorem lockFor_of_pruned (hpruned : locks.pruned key = some lock) : locks.lockFor key = lock := by
  rw [lockFor, hpruned, getD_some]

/-- The lock is the entry's, or no entry has it. -/
theorem lockFor_cases (locks : WeakLocks Key Task) (key : Key) :
    locks.pruned key = some (locks.lockFor key) ∨
      locks.pruned key = none ∧ locks.lockFor key = locks.fresh := by
  cases hpruned : locks.pruned key with
  | none => exact .inr ⟨rfl, by rw [lockFor, hpruned, getD_none]⟩
  | some lock => exact .inl (by rw [lockFor_of_pruned hpruned])

section Steps
variable [DecidableEq Key]

/-- What an owner has survives a request. -/
theorem request_entries {other : Task} {key' : Key} {lock : ℕ}
    (hentry : locks.entries key' = some lock) (howner : other ∈ locks.owners lock) :
    (locks.request task key).entries key' = some lock ∧
      other ∈ (locks.request task key).owners lock := by
  have hpruned := pruned_of_owner hentry howner
  constructor
  · show update locks.pruned key (some (locks.lockFor key)) key' = some lock
    rw [update_apply]
    split_ifs with heq
    · rw [lockFor_of_pruned (heq ▸ hpruned)]
    · exact hpruned
  · show other ∈ update locks.owners _ _ lock
    rw [update_apply]
    split_ifs with heq
    · exact mem_insert_of_mem (heq ▸ howner)
    · exact howner

theorem request_waits (other : Task) : (locks.request task key).waits other =
    if other = task then some (key, locks.lockFor key) else locks.waits other :=
  update_apply locks.waits task _ other

theorem Sound.request (hsound : locks.Sound) : (locks.request task key).Sound where
  waiting other key' lock hwaits := by
    have hwaits' : update locks.waits task (some (key, locks.lockFor key)) other =
        some (key', lock) := hwaits
    rw [update_apply] at hwaits'
    split_ifs at hwaits' with heq
    · cases hwaits'
      constructor
      · exact update_self _ _ _
      · show other ∈ update locks.owners _ _ _
        rw [update_self, heq]
        exact mem_insert_self _ _
    · obtain ⟨hentry, howner⟩ := hsound.waiting other key' lock hwaits'
      exact request_entries hentry howner
  holding other key' lock hholds := by
    obtain ⟨hentry, howner, hholder⟩ := hsound.holding other key' lock hholds
    obtain ⟨hentry', howner'⟩ := request_entries hentry howner
    exact ⟨hentry', howner', hholder⟩
  held := hsound.held
  below key' lock hentry := by
    have hentry' : update locks.pruned key (some (locks.lockFor key)) key' = some lock :=
      hentry
    show lock < max locks.fresh (locks.lockFor key + 1)
    rw [update_apply] at hentry'
    split_ifs at hentry'
    · cases hentry'
      omega
    · have hbelow := hsound.below key' lock (pruned_eq_some.1 hentry').1
      omega
  owned other lock howner := by
    have howner' : other ∈ update locks.owners (locks.lockFor key)
        (insert task (locks.owners (locks.lockFor key))) lock := howner
    show lock < max locks.fresh (locks.lockFor key + 1)
    rw [update_apply] at howner'
    split_ifs at howner' with heq
    · omega
    · have hbelow := hsound.owned other lock howner'
      omega
  once first second lock hfirst hsecond := by
    have hentry (key' : Key) (hkey : (locks.request task key).entries key' = some lock) :
        key' = key ∧ locks.lockFor key = lock ∨ key' ≠ key ∧ locks.pruned key' = some lock := by
      have hkey' : update locks.pruned key (some (locks.lockFor key)) key' = some lock :=
        hkey
      rw [update_apply] at hkey'
      split_ifs at hkey' with heq
      · exact .inl ⟨heq, some.inj hkey'⟩
      · exact .inr ⟨heq, hkey'⟩
    have hdifferent (key' : Key) (hne : key' ≠ key) (hpruned : locks.pruned key' = some lock)
        (hlock : locks.lockFor key = lock) : False := by
      have hentry' := (pruned_eq_some.1 hpruned).1
      rcases locks.lockFor_cases key with hsame | ⟨-, hfresh⟩
      · rw [hlock] at hsame
        exact hne (hsound.once key' key lock hentry' (pruned_eq_some.1 hsame).1)
      · have hbelow := hsound.below key' lock hentry'
        omega
    rcases hentry first hfirst with ⟨hf, hlock⟩ | ⟨hf, hpruned⟩
    · rcases hentry second hsecond with ⟨hs, -⟩ | ⟨hs, hpruned'⟩
      · rw [hf, hs]
      · exact (hdifferent second hs hpruned' hlock).elim
    · rcases hentry second hsecond with ⟨hs, hlock⟩ | ⟨hs, hpruned'⟩
      · exact (hdifferent first hf hpruned hlock).elim
      · exact hsound.once first second lock (pruned_eq_some.1 hpruned).1
          (pruned_eq_some.1 hpruned').1

end Steps

section
variable (hwaits : locks.waits task = some (key, lock))
include hwaits

theorem grant_eq : locks.grant task =
      { locks with
        holder := Function.update locks.holder lock (some task)
        waits := Function.update locks.waits task none
        holds := Function.update locks.holds task ((key, lock) :: locks.holds task) } := by
  rw [grant, hwaits]

theorem grant_waits (other : Task) :
    (locks.grant task).waits other = if other = task then none else locks.waits other := by
  rw [grant_eq hwaits]
  exact update_apply locks.waits task none other

theorem grant_holds (other : Task) : (locks.grant task).holds other =
      if other = task then (key, lock) :: locks.holds task else locks.holds other := by
  rw [grant_eq hwaits]
  exact update_apply locks.holds task _ other

end

theorem release_holds (other : Task) :
    (locks.release task).holds other = if other = task then [] else locks.holds other :=
  update_apply locks.holds task [] other

theorem Sound.grant (hsound : locks.Sound) (hgrantable : locks.Grantable task) :
    (locks.grant task).Sound := by
  obtain ⟨⟨key, lock⟩, hwaits, hfree⟩ := hgrantable
  obtain ⟨hentry, howner⟩ := hsound.waiting task key lock hwaits
  rw [grant_eq hwaits]
  refine ⟨?_, ?_, ?_, hsound.below, hsound.owned, hsound.once⟩
  · intro other key' lock' hwaits'
    simp only [update_apply] at hwaits'
    split_ifs at hwaits'
    exact hsound.waiting other key' lock' hwaits'
  · intro other key' lock' hholds
    simp only [update_apply] at hholds ⊢
    have hother (hold : (key', lock') ∈ locks.holds other) :
        locks.entries key' = some lock' ∧ other ∈ locks.owners lock' ∧
          (if lock' = lock then some task else locks.holder lock') = some other := by
      obtain ⟨hentry', howner', hholder'⟩ := hsound.holding other key' lock' hold
      refine ⟨hentry', howner', ?_⟩
      rw [if_neg]
      · exact hholder'
      · intro heq
        rw [heq, hfree] at hholder'
        cases hholder'
    split_ifs at hholds with htask
    · rcases List.mem_cons.1 hholds with hnew | hold
      · cases hnew
        exact ⟨hentry, htask ▸ howner, by rw [if_pos rfl, htask]⟩
      · exact hother (htask ▸ hold)
    · exact hother hholds
  · intro other lock' hholder
    simp only [update_apply] at hholder ⊢
    split_ifs at hholder with heq
    · cases hholder
      exact ⟨key, by rw [if_pos rfl, heq]; exact List.mem_cons_self⟩
    · obtain ⟨key', hholds⟩ := hsound.held other lock' hholder
      refine ⟨key', ?_⟩
      split_ifs with htask
      · exact List.mem_cons_of_mem _ (htask ▸ hholds)
      · exact hholds

omit [DecidableEq Task] in
theorem Sound.mem_holds (hsound : locks.Sound) (hmem : lock ∈ (locks.holds task).map Prod.snd) :
    locks.holder lock = some task := by
  obtain ⟨⟨key, lock'⟩, hholds, rfl⟩ := List.mem_map.1 hmem
  exact (hsound.holding task key lock' hholds).2.2

theorem Sound.release (hsound : locks.Sound) (hwaits : locks.waits task = none) :
    (locks.release task).Sound where
  waiting other key lock hother := by
    obtain ⟨hentry, howner⟩ := hsound.waiting other key lock hother
    refine ⟨hentry, ?_⟩
    have hne : other ≠ task := by
      intro heq
      have hother' : locks.waits other = some (key, lock) := hother
      rw [heq, hwaits] at hother'
      cases hother'
    show other ∈ if _ then _ else _
    split_ifs
    · exact mem_erase.2 ⟨hne, howner⟩
    · exact howner
  holding other key lock hholds := by
    have hholds' : (key, lock) ∈ update locks.holds task [] other := hholds
    rw [update_apply] at hholds'
    split_ifs at hholds' with heq
    · cases hholds'
    · obtain ⟨hentry, howner, hholder⟩ := hsound.holding other key lock hholds'
      have hnot : lock ∉ (locks.holds task).map Prod.snd := by
        intro hmem
        rw [hsound.mem_holds hmem] at hholder
        exact heq (some.inj hholder).symm
      refine ⟨hentry, ?_, ?_⟩
      · show other ∈ if _ then _ else _
        rw [if_neg hnot]
        exact howner
      · show (if _ then _ else _) = some other
        rw [if_neg hnot]
        exact hholder
  held other lock hholder := by
    have hholder' : (if lock ∈ (locks.holds task).map Prod.snd then none else locks.holder lock) =
        some other := hholder
    split_ifs at hholder' with hmem
    obtain ⟨key, hholds⟩ := hsound.held other lock hholder'
    refine ⟨key, ?_⟩
    show (key, lock) ∈ update locks.holds task [] other
    rw [update_of_ne]
    · exact hholds
    · intro heq
      rw [heq] at hholds
      exact hmem (List.mem_map.2 ⟨(key, lock), hholds, rfl⟩)
  below := hsound.below
  owned other lock howner := by
    have howner' : other ∈ (if lock ∈ (locks.holds task).map Prod.snd then
        (locks.owners lock).erase task else locks.owners lock) := howner
    split_ifs at howner'
    · exact hsound.owned other lock (mem_of_mem_erase howner')
    · exact hsound.owned other lock howner'
  once := hsound.once

omit [DecidableEq Task] in
/-- One task holds a key at a time, whatever was pruned in between. -/
theorem Sound.exclusive (hsound : locks.Sound) {other : Task} {lock' : ℕ}
    (htask : (key, lock) ∈ locks.holds task) (hother : (key, lock') ∈ locks.holds other) :
    task = other := by
  obtain ⟨hentry, -, hholder⟩ := hsound.holding task key lock htask
  obtain ⟨hentry', -, hholder'⟩ := hsound.holding other key lock' hother
  rw [hentry] at hentry'
  cases hentry'
  rw [hholder] at hholder'
  exact some.inj hholder'

omit [DecidableEq Task] in
/-- The task that waits for the greatest key waits for nobody who waits. -/
theorem Sound.not_deadlocked [LinearOrder Key] (hsound : locks.Sound) (hordered : locks.Ordered)
    (tasks : Finset Task) : ¬locks.Deadlocked tasks := by
  intro hdeadlocked
  obtain ⟨hnonempty, hwaiting⟩ := hdeadlocked
  obtain ⟨task, htask, hmax⟩ := exists_max_image tasks locks.waitsFor hnonempty
  obtain ⟨key, lock, hwaits, other, hother, hholder⟩ := hwaiting task htask
  obtain ⟨key', lock', hwaits', -⟩ := hwaiting other hother
  obtain ⟨held, hholds⟩ := hsound.held other lock hholder
  have hsame : held = key :=
    hsound.once held key lock (hsound.holding other held lock hholds).1
      (hsound.waiting task key lock hwaits).1
  have hless : key < key' := hsame ▸ hordered other key' lock' hwaits' held lock hholds
  have hle := hmax other hother
  rw [waitsFor, waitsFor, hwaits, hwaits'] at hle
  exact absurd (WithBot.coe_le_coe.1 hle) (not_le_of_gt hless)

end WeakLocks

end Exo.Library
