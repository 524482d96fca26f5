import Mathlib.Data.List.Forall2

/-!
# Checks that fail with a message

Code that stops at its first failed check.  The lemmas say what is known when it got to the end.
-/

namespace Exo.Library

variable {α β : Type}

/-- `ensure!`. -/
def ensure (condition : Bool) (message : String) : Except String Unit :=
  if condition then .ok () else .error message

/-- `Option::context`. -/
def context (value : Option α) (message : String) : Except String α :=
  match value with
  | some value => .ok value
  | none => .error message

/-- `if let Some(value) = value { check(value)?; }`. -/
def checkSome (value : Option α) (check : α → Except String Unit) : Except String Unit :=
  match value with
  | some value => check value
  | none => .ok ()

theorem bind_eq_ok {first : Except String α} {next : α → Except String β} {result : β} :
    (first >>= next) = .ok result ↔ ∃ value, first = .ok value ∧ next value = .ok result := by
  cases first with
  | error message => simp [bind, Except.bind]
  | ok value => simp [bind, Except.bind]

variable {result : α} {message : String} {value : Option α} {check : α → Except String Unit}
  {items : List α}

theorem ensure_eq_ok {condition : Bool} {result : Unit} :
    ensure condition message = .ok result ↔ condition = true := by
  cases condition <;> simp [ensure]

theorem context_eq_ok : context value message = .ok result ↔ value = some result := by
  cases value <;> simp [context]

theorem checkSome_eq_ok {result : Unit} :
    checkSome value check = .ok result ↔ ∀ item ∈ value, check item = .ok () := by
  cases value <;> simp [checkSome]

theorem pure_eq_ok {value : α} : (pure value : Except String α) = .ok result ↔ value = result := by
  simp [pure, Except.pure]

theorem eq_ok_of_toOption {value : Except String α} (hsome : value.toOption = some result) :
    value = .ok result := by
  cases value with
  | error message => cases hsome
  | ok value =>
    cases hsome
    rfl

theorem forM_eq_ok : items.forM check = .ok () ↔ ∀ item ∈ items, check item = .ok () := by
  induction items with
  | nil => simp [List.forM, pure, Except.pure]
  | cons item items ih =>
    have hrounds : (item :: items).forM check = check item >>= fun _ ↦ items.forM check := rfl
    rw [hrounds, bind_eq_ok, List.forall_mem_cons, ← ih]
    constructor
    · rintro ⟨_, hitem, hrest⟩
      exact ⟨hitem, hrest⟩
    · rintro ⟨hitem, hrest⟩
      exact ⟨(), hitem, hrest⟩

/-- A loop that collects results got to its end when every round gave its result. -/
theorem mapM_eq_ok {convert : α → Except String β} {results : List β} :
    items.mapM convert = .ok results ↔
      List.Forall₂ (fun item result ↦ convert item = .ok result) items results := by
  induction items generalizing results with
  | nil =>
    rw [List.mapM_nil, pure_eq_ok, List.forall₂_nil_left_iff, eq_comm]
  | cons item items ih =>
    simp only [List.mapM_cons, bind_eq_ok, pure_eq_ok]
    constructor
    · rintro ⟨result, hresult, rest, hrest, rfl⟩
      exact .cons hresult (ih.1 hrest)
    · rintro (_ | ⟨hresult, hrest⟩)
      exact ⟨_, hresult, _, ih.2 hrest, rfl⟩

end Exo.Library
