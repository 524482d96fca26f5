import Mathlib.Data.List.Basic

/-!
# Waiting on a notification

A waiter arms itself, then looks at the published value, and waits only if there is none yet; whoever
publishes a value wakes the waiters afterwards.  Because a waiter is armed before it looks, a
notification that comes between the look and the wait is not lost.
-/

namespace Exo.Library

/-- Where a waiter stands; the flag says that it was notified since it was armed. -/
inductive Waiter (Value : Type*) where
  | armed (notified : Bool)
  | waiting (notified : Bool)
  | returned (value : Value)

namespace Waiter

variable {Value : Type*}

/-- `notify_waiters` reaches every waiter that is armed or waits. -/
def notify : Waiter Value → Waiter Value
  | .armed _ => .armed true
  | .waiting _ => .waiting true
  | .returned value => .returned value

/-- An armed waiter looks at the published value. -/
def look (published : Option Value) : Waiter Value → Waiter Value
  | .armed notified =>
    match published with
    | some value => .returned value
    | none => .waiting notified
  | other => other

/-- A notified waiter goes round its loop. -/
def wake : Waiter Value → Waiter Value
  | .waiting true => .armed false
  | other => other

/-- A waiter returns only what is published, and once the publisher has notified, nobody is left
waiting without a notification. -/
def Sound (published : Option Value) (told : Bool) : Waiter Value → Prop
  | .armed _ => True
  | .waiting notified => told = true → notified = true
  | .returned value => published = some value

variable {published later : Option Value} {told : Bool} {waiter : Waiter Value}

section
variable (hwaiter : waiter.Sound published told)
include hwaiter

theorem Sound.notify : waiter.notify.Sound published true := by
  cases waiter with
  | armed notified => trivial
  | waiting notified => exact fun _ ↦ rfl
  | returned value => exact hwaiter

/-- Who tells has published before. -/
theorem Sound.look (htold : told = true → published.isSome = true) :
    (waiter.look published).Sound published told := by
  cases waiter with
  | waiting notified => exact hwaiter
  | returned value => exact hwaiter
  | armed notified =>
    cases published with
    | some value => rfl
    | none =>
      intro h
      cases htold h

theorem Sound.wake : waiter.wake.Sound published told := by
  match waiter, hwaiter with
  | .waiting true, _ => trivial
  | .waiting false, hwaiter => exact hwaiter
  | .armed _, _ => trivial
  | .returned _, hwaiter => exact hwaiter

theorem Sound.publish (hlater : ∀ value, published = some value → later = some value) :
    waiter.Sound later told := by
  cases waiter with
  | armed notified => trivial
  | waiting notified => exact hwaiter
  | returned value => exact hlater value hwaiter

end

end Waiter

end Exo.Library
