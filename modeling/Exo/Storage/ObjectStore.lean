import Mathlib.Data.Char
import Mathlib.Data.List.AList
import Mathlib.Data.List.Lex
import Mathlib.Data.List.Sort
import Exo.Storage.Paths

/-!
# The object store

`BasicObjectStore` keeps one object for each key; puts and deletes of one object are atomic and
reads see the last write.  Listings are sorted by key and list what lies strictly below a
directory.  A JSON read of an absent key is `None`, a JSON read of an object of another shape is a
decoding error that names the key.
-/

namespace Exo.Storage

open List Option

/-- The objects by their keys. -/
abbrev ObjectStore (Object : Type*) := AList (fun _ : Key ↦ Object)

/-- What reads and writes can fail with. -/
inductive StorageError where
  | failedToDecode (key : Key)
  | failedToGet (key : Key)
  | failedToPut (key : Key)
  | failedToDelete (key : Key)
  deriving DecidableEq

/-- The key lies below the directory: `list` never reports an object at exactly the prefix. -/
def Under (directory key : Key) : Prop := directory ++ ['/'] <+: key

instance (directory key : Key) : Decidable (Under directory key) :=
  inferInstanceAs (Decidable (_ <+: _))

/-- Run a read over the keys in order and concatenate; the first error ends it. -/
def gather {α ε : Type*} (read : Key → Except ε (List α)) : List Key → Except ε (List α)
  | [] => .ok []
  | key :: keys => do
    let values ← read key
    let rest ← gather read keys
    return values ++ rest

namespace ObjectStore

variable {Object : Type*} (store : ObjectStore Object)

/-- `list_keys`: the keys below a directory, sorted. -/
def listKeys (directory : Key) : List Key :=
  (store.keys.filter (Under directory ·)).insertionSort (· ≤ ·)

/-- `get_json_if_exists`, for objects that `decode` may refuse. -/
def getJsonIfExists {α : Type*} (decode : Object → Option α) (key : Key) :
    Except StorageError (Option α) :=
  match store.lookup key with
  | none => .ok none
  | some object =>
    match decode object with
    | some value => .ok (some value)
    | none => .error (.failedToDecode key)

/-- `list_json_matching_suffix`. -/
def listJsonMatchingSuffix {α : Type*} (decode : Object → Option α) (directory : Key)
    (suffix : List Char) : Except StorageError (List α) :=
  gather (fun key ↦ (store.getJsonIfExists decode key).map Option.toList)
    ((store.listKeys directory).filter (suffix <:+ ·))

variable {store} {directory key : Key}

theorem mem_listKeys : key ∈ store.listKeys directory ↔ key ∈ store ∧ Under directory key := by
  simp [listKeys, AList.mem_keys]

theorem filter_erase_of_not {α : Type*} [DecidableEq α] {p : α → Prop} [DecidablePred p]
    {values : List α} {value : α} (hvalue : ¬ p value) :
    (values.erase value).filter p = values.filter p := by
  rw [← erase_filter]
  exact erase_of_not_mem (by simp [hvalue])

theorem listKeys_erase (hkey : ¬ Under directory key) :
    ObjectStore.listKeys (store.erase key) directory = store.listKeys directory := by
  rw [listKeys, AList.keys_erase, filter_erase_of_not hkey]
  rfl

theorem listKeys_perm (hunder : ∀ key ∈ store, Under directory key) :
    (store.listKeys directory).Perm store.keys := by
  have hall : store.keys.filter (Under directory ·) = store.keys :=
    filter_eq_self.2 fun key hkey ↦ decide_eq_true (hunder key (AList.mem_keys.2 hkey))
  rw [listKeys, hall]
  exact perm_insertionSort _ _

theorem getJsonIfExists_eq {α : Type*} {decode : Object → Option α} {object : Object} {value : α}
    (hobject : store.lookup key = some object) (hdecode : decode object = some value) :
    store.getJsonIfExists decode key = .ok (some value) := by
  simp [getJsonIfExists, hobject, hdecode]

theorem getJsonIfExists_absent {α : Type*} (decode : Object → Option α)
    (habsent : store.lookup key = none) : store.getJsonIfExists decode key = .ok none := by
  simp [getJsonIfExists, habsent]

/-- What the objects of a store hold together. -/
def contents {α : Type*} (values : Object → List α) (store : ObjectStore Object) : List α :=
  store.entries.flatMap (fun entry ↦ values entry.2)

theorem mem_contents {α : Type*} {values : Object → List α} {value : α} :
    value ∈ store.contents values ↔
      ∃ key object, store.lookup key = some object ∧ value ∈ values object := by
  simp only [contents, mem_flatMap, Sigma.exists]
  constructor
  · rintro ⟨key, object, hentry, hvalue⟩
    exact ⟨key, object, AList.mem_lookup_iff.2 hentry, hvalue⟩
  · rintro ⟨key, object, hlookup, hvalue⟩
    exact ⟨key, object, AList.mem_lookup_iff.1 hlookup, hvalue⟩

theorem contents_insert {α : Type*} (values : Object → List α) (hkey : key ∉ store)
    (object : Object) :
    ObjectStore.contents values (store.insert key object) =
      values object ++ store.contents values := by
  rw [AList.insert_of_notMem hkey]
  rfl

theorem flatMap_keys {α : Type*} (values : Object → List α) (store : ObjectStore Object) :
    store.keys.flatMap (fun key ↦ ((store.lookup key).map values).getD []) =
      store.contents values := by
  have hentry : ∀ entry ∈ store.entries,
      ((store.lookup entry.1).map values).getD [] = values entry.2 := by
    intro entry hentry
    have hlookup : store.lookup entry.1 = some entry.2 := AList.mem_lookup_iff.2 hentry
    rw [hlookup]
    rfl
  calc store.keys.flatMap (fun key ↦ ((store.lookup key).map values).getD [])
      = store.entries.flatMap (fun entry ↦ ((store.lookup entry.1).map values).getD []) := by
        simp [AList.keys, keys, flatMap_map]
    _ = store.contents values := flatMap_congr hentry

end ObjectStore

theorem gather_eq_ok {α ε : Type*} {read : Key → Except ε (List α)} {values : Key → List α}
    {keys : List Key} (hread : ∀ key ∈ keys, read key = .ok (values key)) :
    gather read keys = .ok (keys.flatMap values) := by
  induction keys with
  | nil => rfl
  | cons key keys ih =>
    have hhead := hread key mem_cons_self
    have hrest := ih fun other hother ↦ hread other (mem_cons_of_mem _ hother)
    rw [gather, hhead, hrest]
    rfl

/-- A listing whose objects all decode returns exactly their values. -/
theorem ObjectStore.listJsonMatchingSuffix_eq_ok {Object α : Type*} {store : ObjectStore Object}
    {decode : Object → Option α} {directory : Key} {suffix : List Char}
    (hdecode : ∀ key object, store.lookup key = some object → Under directory key →
      suffix <:+ key → (decode object).isSome = true) :
    ∃ values, store.listJsonMatchingSuffix decode directory suffix = .ok values ∧
      ∀ value, value ∈ values ↔ ∃ key object, store.lookup key = some object ∧
        Under directory key ∧ suffix <:+ key ∧ decode object = some value := by
  have hlisted : ∀ key, key ∈ (store.listKeys directory).filter (suffix <:+ ·) ↔
      (∃ object, store.lookup key = some object) ∧ Under directory key ∧ suffix <:+ key := by
    intro key
    rw [mem_filter, ObjectStore.mem_listKeys, ← AList.lookup_isSome, isSome_iff_exists]
    simp [and_assoc]
  have hread : ∀ key ∈ (store.listKeys directory).filter (suffix <:+ ·),
      (store.getJsonIfExists decode key).map toList =
        .ok (((store.lookup key).bind decode).toList) := by
    intro key hkey
    obtain ⟨⟨object, hobject⟩, hunder, hsuffix⟩ := (hlisted key).1 hkey
    obtain ⟨value, hvalue⟩ := isSome_iff_exists.1 (hdecode key object hobject hunder hsuffix)
    rw [ObjectStore.getJsonIfExists_eq hobject hvalue, hobject, bind_some, hvalue]
    rfl
  refine ⟨_, gather_eq_ok hread, fun value ↦ ?_⟩
  simp only [mem_flatMap, hlisted, mem_toList, bind_eq_some_iff]
  constructor
  · rintro ⟨key, ⟨-, hunder, hsuffix⟩, object, hobject, hvalue⟩
    exact ⟨key, object, hobject, hunder, hsuffix, hvalue⟩
  · rintro ⟨key, object, hobject, hunder, hsuffix, hvalue⟩
    exact ⟨key, ⟨⟨object, hobject⟩, hunder, hsuffix⟩, object, hobject, hvalue⟩

end Exo.Storage
