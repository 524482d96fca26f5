import Mathlib.Data.List.Nodup

/-!
# Updating the first match of a list

`updateFirst p f l` applies `f` to the first element of `l` that satisfies `p` and leaves every
other element alone: the list counterpart of finding an element through a mutable iterator and
writing to it in place.  `List.modify` is the update at a position.
-/

namespace Exo.Library

open List

variable {α β : Type*}

/-- Apply `f` to the first element satisfying `p`. -/
def updateFirst (p : α → Bool) (f : α → α) : List α → List α
  | [] => []
  | x :: xs => if p x then f x :: xs else x :: updateFirst p f xs

theorem updateFirst_cons (p : α → Bool) (f : α → α) (x : α) (xs : List α) :
    updateFirst p f (x :: xs) = if p x then f x :: xs else x :: updateFirst p f xs := rfl

theorem map_updateFirst (p : α → Bool) (f : α → α) (g : α → β) (hg : ∀ x, g (f x) = g x)
    (xs : List α) : (updateFirst p f xs).map g = xs.map g := by
  induction xs with
  | nil => rfl
  | cons x xs ih =>
    rw [updateFirst_cons]
    split
    · simp [hg]
    · simp [ih]

variable {xs : List α} {p : α → Bool} {f : α → α}

/-- When keys are distinct, updating the first element with a key is updating all of them. -/
theorem updateFirst_eq_map [DecidableEq β] (key : α → β) (k : β) (f : α → α)
    (hnodup : (xs.map key).Nodup) :
    updateFirst (fun x ↦ key x = k) f xs = xs.map (fun x ↦ if key x = k then f x else x) := by
  induction xs with
  | nil => rfl
  | cons x xs ih =>
    obtain ⟨hhead, htail⟩ := nodup_cons.mp hnodup
    by_cases hkey : key x = k
    · have hrest : xs.map (fun x ↦ if key x = k then f x else x) = xs.map id := by
        apply map_congr_left
        intro y hy
        have hne : key y ≠ k := fun heq ↦ hhead (hkey ▸ heq ▸ mem_map_of_mem hy)
        simp [hne]
      simp [updateFirst_cons, hkey, hrest]
    · simp [updateFirst_cons, hkey, ih htail]

/-- When keys are distinct, the first element with a key is the only one. -/
theorem find?_key_iff [DecidableEq β] (key : α → β) {k : β} {x : α} (hnodup : (xs.map key).Nodup) :
    xs.find? (fun x ↦ key x = k) = some x ↔ x ∈ xs ∧ key x = k := by
  constructor
  · exact fun hfind ↦ ⟨mem_of_find?_eq_some hfind, by simpa using find?_some hfind⟩
  · rintro ⟨hx, hkey⟩
    obtain ⟨y, hfind⟩ : ∃ y, xs.find? (fun x ↦ key x = k) = some y :=
      Option.isSome_iff_exists.1 (find?_isSome.2 ⟨x, hx, decide_eq_true hkey⟩)
    have hy : key y = k := by simpa using find?_some hfind
    rw [hfind, inj_on_of_nodup_map hnodup hx (mem_of_find?_eq_some hfind) (hkey.trans hy.symm)]

theorem mem_updateFirst [DecidableEq β] (key : α → β) (k : β) (f : α → α)
    (hnodup : (xs.map key).Nodup) {y : α} :
    y ∈ updateFirst (fun x ↦ key x = k) f xs ↔
      (y ∈ xs ∧ key y ≠ k) ∨ ∃ x, xs.find? (fun x ↦ key x = k) = some x ∧ y = f x := by
  simp only [updateFirst_eq_map key k f hnodup, mem_map, find?_key_iff key hnodup]
  constructor
  · rintro ⟨x, hx, rfl⟩
    by_cases hkey : key x = k
    · exact .inr ⟨x, ⟨hx, hkey⟩, if_pos hkey⟩
    · rw [if_neg hkey]
      exact .inl ⟨hx, hkey⟩
  · rintro (⟨hy, hkey⟩ | ⟨x, ⟨hx, hkey⟩, rfl⟩)
    · exact ⟨y, hy, if_neg hkey⟩
    · exact ⟨x, hx, if_pos hkey⟩

theorem find?_updateFirst (hf : ∀ x, p x → p (f x)) (xs : List α) :
    (updateFirst p f xs).find? p = (xs.find? p).map f := by
  induction xs with
  | nil => rfl
  | cons x xs ih =>
    rw [updateFirst_cons]
    split
    · rename_i hx
      simp [hx, hf x hx]
    · rename_i hx
      simp [hx, ih]

theorem forall₂_updateFirst (p : α → Bool) (f : α → α) (xs : List α) :
    List.Forall₂ (fun x y ↦ y = x ∨ (xs.find? p = some x ∧ y = f x)) xs (updateFirst p f xs) := by
  induction xs with
  | nil => exact .nil
  | cons x xs ih =>
    rw [updateFirst_cons]
    split
    · rename_i hx
      exact .cons (.inr ⟨by simp [hx], rfl⟩) (forall₂_same.2 fun _ _ ↦ .inl rfl)
    · rename_i hx
      exact .cons (.inl rfl) (by simpa [hx] using ih)

theorem mem_updateFirst_of_not {x : α} (hx : x ∈ xs) (hp : ¬ p x) : x ∈ updateFirst p f xs := by
  induction xs with
  | nil => exact hx
  | cons y ys ih =>
    rw [updateFirst_cons]
    rcases mem_cons.1 hx with rfl | hx
    · simp [hp]
    · split
      · exact mem_cons_of_mem _ hx
      · exact mem_cons_of_mem _ (ih hx)

theorem updateFirst_of_not (hxs : ∀ x ∈ xs, ¬ p x) : updateFirst p f xs = xs := by
  induction xs with
  | nil => rfl
  | cons x xs ih =>
    obtain ⟨hx, hrest⟩ := forall_mem_cons.1 hxs
    rw [updateFirst_cons, if_neg hx, ih hrest]

theorem updateFirst_append_of_not {ys : List α} (hys : ∀ y ∈ ys, ¬ p y) (xs : List α) :
    updateFirst p f (xs ++ ys) = updateFirst p f xs ++ ys := by
  induction xs with
  | nil => exact updateFirst_of_not hys
  | cons x xs ih =>
    rw [cons_append, updateFirst_cons, updateFirst_cons]
    split
    · rfl
    · rw [ih, cons_append]

theorem forall_getElem?_modify {P : α → Prop} {items : List α} {index : ℕ}
    (hitems : ∀ item ∈ items[index]?, P item) (position : ℕ)
    (hf : position = index → ∀ item, items[position]? = some item → P item → P (f item)) :
    ∀ item ∈ (items.modify position f)[index]?, P item := by
  intro item hitem
  rw [Option.mem_def, getElem?_modify] at hitem
  obtain ⟨original, horiginal, heq⟩ := Option.map_eq_some_iff.1 hitem
  have hbefore := hitems original horiginal
  split at heq
  · rename_i hposition
    rw [← hposition] at horiginal
    exact heq ▸ hf hposition original horiginal hbefore
  · exact heq ▸ hbefore

theorem forall_mem_modify {P : α → Prop} {items : List α} (hitems : ∀ item ∈ items, P item)
    (position : ℕ) (hf : ∀ item, items[position]? = some item → P item → P (f item)) :
    ∀ item ∈ items.modify position f, P item := by
  intro item hitem
  obtain ⟨index, hindex⟩ := mem_iff_getElem?.1 hitem
  exact forall_getElem?_modify (fun original horiginal ↦ hitems original (mem_of_getElem? horiginal))
    position (fun _ ↦ hf) item hindex

end Exo.Library
