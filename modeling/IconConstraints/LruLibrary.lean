/-!
# Libraries of maps that forget

A map of limited size forgets the entry that was not used for the longest when it has
no room for a new one.  Such maps are a library's; the program works with any library
that has these operations.
-/

namespace IconConstraints

structure LruLibrary (κ ν : Type) where
  Map : Type
  /-- A map without entries that has room for the given number of them. -/
  new : (capacity : Nat) → Map
  /-- The value of a key, and the map after the key has been used. -/
  get : Map → κ → Option ν × Map
  put : Map → κ → ν → Map
  clear : Map → Map
  capacity : Map → Nat
  size : Map → Nat
  /-- The entries, the one used last first. -/
  entries : Map → List (κ × ν)

namespace LruLibrary

variable {κ ν : Type} [BEq κ]

/-- The entries after one of them has been used or added. -/
def used (entries : List (κ × ν)) (key : κ) (value : ν) : List (κ × ν) :=
  (key, value) :: entries.filter (·.1 != key)

/-- What a library of such maps documents: an entry that is asked for or put becomes the first, the last
entries give way where there are more than the map has room for, and a key that is not there changes nothing. -/
structure Standard (lru : LruLibrary κ ν) : Prop where
  entries_new : ∀ capacity, 0 < capacity → lru.entries (lru.new capacity) = []
  capacity_new : ∀ capacity, 0 < capacity → lru.capacity (lru.new capacity) = capacity
  get_value : ∀ m key, (lru.get m key).1 = (lru.entries m).lookup key
  get_missing : ∀ m key, (lru.get m key).1 = none → (lru.get m key).2 = m
  entries_get : ∀ m key value, (lru.get m key).1 = some value →
    lru.entries (lru.get m key).2 = used (lru.entries m) key value
  capacity_get : ∀ m key, lru.capacity (lru.get m key).2 = lru.capacity m
  entries_put : ∀ m key value,
    lru.entries (lru.put m key value) = (used (lru.entries m) key value).take (lru.capacity m)
  capacity_put : ∀ m key value, lru.capacity (lru.put m key value) = lru.capacity m
  entries_clear : ∀ m, lru.entries (lru.clear m) = []
  capacity_clear : ∀ m, lru.capacity (lru.clear m) = lru.capacity m
  size_eq : ∀ m, lru.size m = (lru.entries m).length

end LruLibrary

/-! ## Lists in the order of use -/

/-- A map that is kept as the list of its entries. -/
structure RecencyList (κ ν : Type) where
  capacity : Nat
  entries : List (κ × ν)

namespace RecencyList

variable {κ ν : Type} [BEq κ]

/-- The map after a key has been asked for. -/
def touch (m : RecencyList κ ν) (key : κ) : RecencyList κ ν :=
  match m.entries.lookup key with
  | some value => { m with entries := LruLibrary.used m.entries key value }
  | none => m

/-- The library whose maps are such lists. -/
def library : LruLibrary κ ν where
  Map := RecencyList κ ν
  new capacity := ⟨capacity, []⟩
  get m key := (m.entries.lookup key, m.touch key)
  put m key value := { m with entries := (LruLibrary.used m.entries key value).take m.capacity }
  clear m := { m with entries := [] }
  capacity m := m.capacity
  size m := m.entries.length
  entries m := m.entries

theorem touch_of_lookup {m : RecencyList κ ν} {key : κ} {value : ν}
    (h : m.entries.lookup key = some value) :
    m.touch key = { m with entries := LruLibrary.used m.entries key value } := by
  simp only [touch, h]

theorem touch_of_missing {m : RecencyList κ ν} {key : κ} (h : m.entries.lookup key = none) :
    m.touch key = m := by
  simp only [touch, h]

theorem library_standard : (library (κ := κ) (ν := ν)).Standard where
  entries_new _ _ := rfl
  capacity_new _ _ := rfl
  get_value _ _ := rfl
  get_missing _ _ h := touch_of_missing h
  entries_get _ _ _ h := congrArg RecencyList.entries (touch_of_lookup h)
  capacity_get m key := by
    change (m.touch key).capacity = m.capacity
    cases h : m.entries.lookup key with
    | some value => rw [touch_of_lookup h]
    | none => rw [touch_of_missing h]
  entries_put _ _ _ := rfl
  capacity_put _ _ _ := rfl
  entries_clear _ := rfl
  capacity_clear _ := rfl
  size_eq _ := rfl

end RecencyList

end IconConstraints
