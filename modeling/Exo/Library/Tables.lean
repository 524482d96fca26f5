import Mathlib.Data.List.Basic

/-!
# Tables

The values of an ordered map, in the order of their keys, and what an insertion makes of them.
-/

namespace Exo.Library

variable {κ α : Type} [Ord κ] [Std.TransOrd κ] [Std.LawfulEqOrd κ] {table : Std.TreeMap κ α}

/-- The values of a map, in the order of the keys. -/
def values (table : Std.TreeMap κ α) : List α := table.toList.map Prod.snd

variable {value : α} {key other : κ}

theorem mem_values : value ∈ values table ↔ ∃ key : κ, table[key]? = some value := by
  rw [values, List.mem_map]
  constructor
  · intro hmem
    obtain ⟨⟨key, other⟩, hentry, rfl⟩ := hmem
    exact ⟨key, Std.TreeMap.mem_toList_iff_getElem?_eq_some.1 hentry⟩
  · intro hmem
    obtain ⟨key, hentry⟩ := hmem
    exact ⟨(key, value), Std.TreeMap.mem_toList_iff_getElem?_eq_some.2 hentry, rfl⟩

theorem mem_values_of_getElem? (hentry : table[key]? = some value) :
    value ∈ values table := mem_values.2 ⟨key, hentry⟩

theorem mem_values_insert_self (key : κ) (value : α) : value ∈ values (table.insert key value) :=
  mem_values_of_getElem? Std.TreeMap.getElem?_insert_self

theorem mem_of_mem_values_insert {other : α} (hmem : other ∈ values (table.insert key value)) :
    other = value ∨ other ∈ values table := by
  obtain ⟨key', hentry⟩ := mem_values.1 hmem
  rw [Std.TreeMap.getElem?_insert] at hentry
  split at hentry
  · exact .inl (Option.some.inj hentry).symm
  · exact .inr (mem_values_of_getElem? hentry)

theorem mem_values_insert_of_mem {other : α} (hnew : table[key]? = none)
    (hmem : other ∈ values table) : other ∈ values (table.insert key value) := by
  obtain ⟨key', hentry⟩ := mem_values.1 hmem
  have hne : compare key key' ≠ .eq := by
    intro heq
    rw [Std.LawfulEqOrd.eq_of_compare heq, hentry] at hnew
    cases hnew
  refine mem_values.2 ⟨key', ?_⟩
  rw [Std.TreeMap.getElem?_insert, if_neg hne, hentry]

/-- `BTreeMap::retain`. -/
theorem getElem?_filter_eq_some {keep : κ → α → Bool} :
    (table.filter keep)[key]? = some value ↔ table[key]? = some value ∧ keep key value = true := by
  rw [Std.TreeMap.getElem?_filter', Option.filter_eq_some_iff]

theorem getElem?_insert_eq_some {value' : α}
    (hentry : (table.insert key value)[other]? = some value') :
    other = key ∧ value' = value ∨ other ≠ key ∧ table[other]? = some value' := by
  rw [Std.TreeMap.getElem?_insert] at hentry
  split at hentry
  case isTrue heq =>
    exact .inl ⟨(Std.LawfulEqOrd.eq_of_compare heq).symm, (Option.some.inj hentry).symm⟩
  case isFalse hne =>
    refine .inr ⟨fun heq ↦ hne ?_, hentry⟩
    rw [heq]
    exact Std.ReflOrd.compare_self

theorem getElem?_insert_of_ne (hne : other ≠ key) :
    (table.insert key value)[other]? = table[other]? := by
  have hcompare : compare key other ≠ .eq :=
    fun heq ↦ hne (Std.LawfulEqOrd.eq_of_compare heq).symm
  rw [Std.TreeMap.getElem?_insert, if_neg hcompare]

/-- `entry(..).or_insert` for each of the items. -/
def insertAll {ι : Type} (key : ι → κ) (value : ι → α) (items : List ι)
    (table : Std.TreeMap κ α) : Std.TreeMap κ α :=
  items.foldl (fun table item ↦ table.insertIfNew (key item) (value item)) table

theorem getElem?_insertAll_of_some {ι : Type} {name : ι → κ} {value : ι → α} {items : List ι}
    {found : α} (hentry : table[key]? = some found) :
    (insertAll name value items table)[key]? = some found := by
  induction items generalizing table with
  | nil => exact hentry
  | cons item items ih =>
    apply ih
    have hmem : key ∈ table := Std.TreeMap.mem_iff_isSome_getElem?.2 (by rw [hentry]; rfl)
    rw [Std.TreeMap.getElem?_insertIfNew, if_neg, hentry]
    intro hnew
    rw [Std.LawfulEqOrd.eq_of_compare hnew.1] at hnew
    exact hnew.2 hmem

/-- What is there afterwards was there before or is that of an item. -/
theorem getElem?_insertAll_eq_some {ι : Type} {name : ι → κ} {value : ι → α} {items : List ι}
    {found : α} (hentry : (insertAll name value items table)[key]? = some found) :
    table[key]? = some found ∨ ∃ item ∈ items, name item = key ∧ found = value item := by
  induction items generalizing table with
  | nil => exact .inl hentry
  | cons item items ih =>
    rcases ih hentry with hnow | hlater
    · rw [Std.TreeMap.getElem?_insertIfNew] at hnow
      split at hnow
      case isTrue hnew =>
        have hname := Std.LawfulEqOrd.eq_of_compare hnew.1
        exact .inr ⟨item, List.mem_cons_self, hname, (Option.some.inj hnow).symm⟩
      case isFalse => exact .inl hnow
    · obtain ⟨other, hother, hitem⟩ := hlater
      exact .inr ⟨other, List.mem_cons_of_mem _ hother, hitem⟩

theorem getElem?_erase_eq_some (hentry : (table.erase key)[other]? = some value) :
    other ≠ key ∧ table[other]? = some value := by
  rw [Std.TreeMap.getElem?_erase] at hentry
  split at hentry
  case isTrue => cases hentry
  case isFalse hne =>
    refine ⟨fun heq ↦ hne ?_, hentry⟩
    rw [heq]
    exact Std.ReflOrd.compare_self

end Exo.Library
