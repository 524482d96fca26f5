import Mathlib.Data.List.Basic

/-!
# A single-value watch channel and its stream

A watch channel holds one value.  The sender overwrites it and bumps a version; the receiving
stream yields the value current at its first poll, then the current value each time a version it
has not seen is there, and ends once the sender is gone and nothing is unseen.  Intermediate values
are conflated by design: a stream that is polled late sees only the latest one.

`yielded` records what the stream has produced so far.  It is read by no operation.
-/

namespace Exo.Library

/-- A watch channel together with the one stream reading it. -/
structure Watch (α : Type*) where
  value : α
  version : ℕ
  closed : Bool
  seen : Option ℕ
  yielded : List α
  deriving DecidableEq

/-- The answer of one poll of the stream. -/
inductive Poll (α : Type*) where
  | ready (value : α)
  | pending
  | ended
  deriving DecidableEq

namespace Watch

variable {α : Type*}

/-- A fresh channel with its initial value. -/
def channel (value : α) : Watch α := ⟨value, 0, false, none, []⟩

section
variable (watch : Watch α)

/-- Overwrite the value; receivers are notified even if it is the same. -/
def sendReplace (value : α) : Watch α :=
  { watch with value := value, version := watch.version + 1 }

/-- Drop the sender. -/
def close : Watch α := { watch with closed := true }

/-- Poll the stream once. -/
def poll : Poll α × Watch α :=
  if watch.seen = some watch.version then
    (if watch.closed then .ended else .pending, watch)
  else
    (.ready watch.value,
      { watch with seen := some watch.version, yielded := watch.yielded ++ [watch.value] })

@[simp]
theorem poll_value : watch.poll.2.value = watch.value := by
  unfold poll
  split <;> rfl

@[simp]
theorem poll_closed : watch.poll.2.closed = watch.closed := by
  unfold poll
  split <;> rfl

end

variable {watch : Watch α}

theorem value_of_poll_ready {value : α} (hpoll : watch.poll.1 = .ready value) :
    value = watch.value := by
  unfold poll at hpoll
  split at hpoll
  · split at hpoll <;> cases hpoll
  · cases hpoll
    rfl

/-- A stream that has seen the current version has yielded the current value last. -/
def Fresh (watch : Watch α) : Prop :=
  (∀ version, watch.seen = some version → version ≤ watch.version) ∧
    (watch.seen = some watch.version → watch.yielded.getLast? = some watch.value)

theorem fresh_channel (value : α) : (channel value).Fresh := by
  constructor <;> intro <;> simp_all [channel]

theorem Fresh.sendReplace (hfresh : watch.Fresh) (value : α) : (watch.sendReplace value).Fresh := by
  constructor
  · intro version hseen
    exact Nat.le_succ_of_le (hfresh.1 version hseen)
  · intro hseen
    have hle : watch.version + 1 ≤ watch.version := hfresh.1 _ hseen
    omega

theorem Fresh.close (hfresh : watch.Fresh) : watch.close.Fresh := hfresh

theorem Fresh.poll {watch : Watch α} (hfresh : watch.Fresh) : watch.poll.2.Fresh := by
  unfold Watch.poll
  split
  · exact hfresh
  · constructor
    · intro version hseen
      cases hseen
      exact Nat.le_refl _
    · intro _
      simp

theorem poll_of_unseen (hunseen : watch.seen = none) : watch.poll.1 = .ready watch.value := by
  simp [poll, hunseen]

/-- A stream with nothing left to yield has last yielded the value the channel holds: no update
was missed. -/
theorem last_yielded_of_not_ready (hfresh : watch.Fresh)
    (hpoll : ∀ value, watch.poll.1 ≠ .ready value) : watch.yielded.getLast? = some watch.value := by
  by_cases hseen : watch.seen = some watch.version
  · exact hfresh.2 hseen
  · exact absurd (by simp [poll, hseen]) (hpoll watch.value)

end Watch

end Exo.Library
