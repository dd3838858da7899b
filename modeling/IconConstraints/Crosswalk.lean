import IconConstraints.Codepoint

/-!
# Crosswalks

The crosswalk of a patch set says for each origin codepoint that it takes where
this lands in the destination font.  It is a table of pairs in ascending order of
their origins: the pairs that it is made from are sorted, of neighbours with one
origin the first stays, and an origin is searched for by halving the table.
-/

namespace IconConstraints

/-- An origin and its destination. -/
abbrev CodepointPair := Codepoint × Codepoint

namespace CodepointPair

/-! ## Sorting -/

/-- Pairs are compared by their origins, and by their destinations where these are equal. -/
def Precedes (a b : CodepointPair) : Prop :=
  a.1 < b.1 ∨ a.1 = b.1 ∧ a.2 ≤ b.2

instance (a b : CodepointPair) : Decidable (a.Precedes b) :=
  inferInstanceAs (Decidable (_ ∨ _))

/-- Puts a pair into a sorted list. -/
def insert (pair : CodepointPair) : List CodepointPair → List CodepointPair
  | [] => [pair]
  | next :: rest => if pair.Precedes next then pair :: next :: rest else next :: insert pair rest

def sort (pairs : List CodepointPair) : List CodepointPair :=
  pairs.foldr insert []

theorem Precedes.trans {a b c : CodepointPair} (h : a.Precedes b) (h' : b.Precedes c) : a.Precedes c := by
  unfold Precedes at *
  lia

theorem precedes_of_not {a b : CodepointPair} (h : ¬ a.Precedes b) : b.Precedes a := by
  unfold Precedes at *
  lia

theorem mem_insert {pair other : CodepointPair} {pairs : List CodepointPair} :
    other ∈ insert pair pairs ↔ other = pair ∨ other ∈ pairs := by
  induction pairs with
  | nil => simp [insert]
  | cons next rest ih =>
      unfold insert
      split
      · simp
      · rw [List.mem_cons, ih, List.mem_cons]
        exact or_left_comm

theorem mem_sort {pair : CodepointPair} {pairs : List CodepointPair} : pair ∈ sort pairs ↔ pair ∈ pairs := by
  induction pairs with
  | nil => rfl
  | cons first pairs ih =>
      change pair ∈ insert first (sort pairs) ↔ _
      rw [mem_insert, ih, List.mem_cons]

theorem insert_sorted {pair : CodepointPair} {pairs : List CodepointPair} (h : pairs.Pairwise Precedes) :
    (insert pair pairs).Pairwise Precedes := by
  induction pairs with
  | nil => simp [insert]
  | cons next rest ih =>
      obtain ⟨hnext, hrest⟩ := List.pairwise_cons.mp h
      unfold insert
      split
      case isTrue hbefore =>
        refine List.pairwise_cons.mpr ⟨fun other hother => ?_, h⟩
        rcases List.mem_cons.mp hother with rfl | hother
        · exact hbefore
        · exact hbefore.trans (hnext other hother)
      case isFalse hbehind =>
        refine List.pairwise_cons.mpr ⟨fun other hother => ?_, ih hrest⟩
        rcases mem_insert.mp hother with rfl | hother
        · exact precedes_of_not hbehind
        · exact hnext other hother

theorem sort_sorted (pairs : List CodepointPair) : (sort pairs).Pairwise Precedes := by
  induction pairs with
  | nil => exact .nil
  | cons pair pairs ih => exact insert_sorted ih

/-! ## Neighbours with one origin -/

/-- Puts a pair before others, in place of the first one if this has the same origin. -/
def keepFirst (pair : CodepointPair) : List CodepointPair → List CodepointPair
  | [] => [pair]
  | next :: rest => if pair.1 = next.1 then pair :: rest else pair :: next :: rest

/-- Of neighbours with one origin the first stays. -/
def firsts (pairs : List CodepointPair) : List CodepointPair :=
  pairs.foldr keepFirst []

theorem mem_of_mem_keepFirst {pair other : CodepointPair} {pairs : List CodepointPair}
    (h : other ∈ keepFirst pair pairs) : other = pair ∨ other ∈ pairs := by
  unfold keepFirst at h
  split at h
  · exact .inl (List.mem_singleton.mp h)
  · split at h
    · exact (List.mem_cons.mp h).imp_right (List.mem_cons_of_mem _)
    · exact List.mem_cons.mp h

theorem mem_of_mem_firsts {pair : CodepointPair} {pairs : List CodepointPair} (h : pair ∈ firsts pairs) :
    pair ∈ pairs := by
  induction pairs with
  | nil => exact h
  | cons first pairs ih =>
      rcases mem_of_mem_keepFirst h with rfl | h
      · exact List.mem_cons_self
      · exact List.mem_cons_of_mem _ (ih h)

theorem keepFirst_ascending {pair : CodepointPair} {pairs : List CodepointPair}
    (hpair : ∀ other ∈ pairs, pair.1 ≤ other.1) (h : pairs.Pairwise fun a b => a.1 < b.1) :
    (keepFirst pair pairs).Pairwise fun a b => a.1 < b.1 := by
  unfold keepFirst
  split
  case h_1 => simp
  case h_2 next rest =>
    obtain ⟨hnext, hrest⟩ := List.pairwise_cons.mp h
    split
    case isTrue hsame => exact List.pairwise_cons.mpr ⟨fun other hother => hsame ▸ hnext other hother, hrest⟩
    case isFalse hother =>
      have hfirst : pair.1 < next.1 := Nat.lt_of_le_of_ne (hpair next List.mem_cons_self) hother
      refine List.pairwise_cons.mpr ⟨fun other hmem => ?_, h⟩
      rcases List.mem_cons.mp hmem with rfl | hmem
      · exact hfirst
      · exact Nat.lt_trans hfirst (hnext other hmem)

theorem firsts_ascending {pairs : List CodepointPair} (h : pairs.Pairwise Precedes) :
    (firsts pairs).Pairwise fun a b => a.1 < b.1 := by
  induction pairs with
  | nil => exact .nil
  | cons pair pairs ih =>
      obtain ⟨hpair, hpairs⟩ := List.pairwise_cons.mp h
      refine keepFirst_ascending (fun other hother => ?_) (ih hpairs)
      exact (hpair other (mem_of_mem_firsts hother)).elim Nat.le_of_lt fun hsame => Nat.le_of_eq hsame.1

/-! ## Searching -/

/-- The place where the search for an origin ends.  While there are several places from `base` on, the later
half of them is kept unless it begins behind the origin; `fuel` bounds the number of steps. -/
def searchFrom (table : Array CodepointPair) (origin : Codepoint) : (fuel size base : Nat) → Nat
  | 0, _, base => base
  | fuel + 1, size, base =>
    if size ≤ 1 then base
    else
      let half := size / 2
      let middle := base + half
      let isBehind := table[middle]?.any fun pair => decide (origin < pair.1)
      searchFrom table origin fuel (size - half) (if isBehind then base else middle)

def search (table : Array CodepointPair) (origin : Codepoint) : Option CodepointPair :=
  table[searchFrom table origin table.size table.size 0]?.filter (·.1 == origin)

end CodepointPair

structure Crosswalk where
  patchSet : String
  /-- The place of the patch set in the table. -/
  index : Nat
  exact : Bool
  table : Array CodepointPair
  ascending : table.toList.Pairwise fun a b => a.1 < b.1

namespace Crosswalk

def ofPairs (patchSet : String) (index : Nat) (exact : Bool) (pairs : List CodepointPair) : Crosswalk where
  patchSet := patchSet
  index := index
  exact := exact
  table := (CodepointPair.firsts (CodepointPair.sort pairs)).toArray
  ascending := CodepointPair.firsts_ascending (CodepointPair.sort_sorted pairs)

/-- Origins with their destinations, by ascending origin. -/
def pairs (c : Crosswalk) : List CodepointPair :=
  c.table.toList

def size (c : Crosswalk) : Nat :=
  c.table.size

def isEmpty (c : Crosswalk) : Bool :=
  c.table.isEmpty

def destination? (c : Crosswalk) (origin : Codepoint) : Option Codepoint :=
  (CodepointPair.search c.table origin).map (·.2)

end Crosswalk

end IconConstraints
