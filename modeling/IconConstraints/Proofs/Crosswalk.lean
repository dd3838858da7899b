import IconConstraints.Snapshot

/-!
# Crosswalks from their own pairs

The search in an ascending table finds the pair of an origin whenever there is one.  A
stored crosswalk is a list of pairs.  Read back, the pairs of a crosswalk give the crosswalk
itself, so storing one loses nothing.
-/

namespace IconConstraints

namespace CodepointPair

variable {table : Array CodepointPair} {origin : Codepoint} {pair : CodepointPair}
  {pairs : List CodepointPair}

/-! ## Searching -/

theorem origin_lt (h : table.toList.Pairwise fun a b => a.1 < b.1) {i j : Nat} (hij : i < j)
    (hj : j < table.size) : table[i].1 < table[j].1 := by
  have hlt := List.pairwise_iff_getElem.mp h i j (by simp; omega) (by simpa using hj) hij
  simpa using hlt

/-- The place of an origin stays among those that are searched. -/
theorem searchFrom_eq (h : table.toList.Pairwise fun a b => a.1 < b.1) {i : Nat}
    (hi : i < table.size) (hfound : table[i].1 = origin) {fuel size base : Nat}
    (hfuel : size ≤ fuel + 1) (hbound : base + size ≤ table.size) (hbase : base ≤ i)
    (hsize : i < base + size) : searchFrom table origin fuel size base = i := by
  induction fuel generalizing size base with
  | zero =>
      rw [searchFrom]
      omega
  | succ fuel ih =>
      rw [searchFrom]
      split
      case isTrue hsmall => omega
      case isFalse hlarge =>
        have hmiddle : base + size / 2 < table.size := by omega
        have hpair : table[base + size / 2]? = some table[base + size / 2] :=
          Array.getElem?_eq_getElem hmiddle
        dsimp only
        rw [hpair, Option.any_some]
        by_cases hbefore : i < base + size / 2
        · have hlt : origin < table[base + size / 2].1 := hfound ▸ origin_lt h hbefore hmiddle
          rw [if_pos (decide_eq_true hlt)]
          exact ih (by omega) (by omega) hbase (by omega)
        · have hle : ¬ origin < table[base + size / 2].1 := by
            rcases Nat.lt_or_eq_of_le (Nat.le_of_not_lt hbefore) with hlt | heq
            · have hearlier := origin_lt h hlt hi
              lia
            · simp only [heq, hfound]
              lia
          rw [if_neg (by simpa using hle)]
          exact ih (by omega) (by omega) (by omega) (by omega)

theorem search_eq_some_iff (h : table.toList.Pairwise fun a b => a.1 < b.1) :
    search table origin = some pair ↔ pair ∈ table ∧ pair.1 = origin := by
  constructor
  · intro hfound
    obtain ⟨hplace, horigin⟩ := Option.filter_eq_some_iff.mp hfound
    exact ⟨Array.mem_of_getElem? hplace, by simpa using horigin⟩
  · rintro ⟨hmem, horigin⟩
    obtain ⟨i, hi, rfl⟩ := Array.getElem_of_mem hmem
    have hplace : searchFrom table origin table.size table.size 0 = i :=
      searchFrom_eq h hi horigin (by omega) (by omega) (by omega) (by omega)
    rw [search, hplace, Array.getElem?_eq_getElem hi]
    simp [horigin]

/-! ## Ascending lists -/

theorem insert_of_ascending (h : ∀ other ∈ pairs, pair.1 < other.1) :
    insert pair pairs = pair :: pairs := by
  cases pairs with
  | nil => rfl
  | cons next rest =>
      have hprecedes : pair.Precedes next := .inl (h next List.mem_cons_self)
      rw [insert, if_pos hprecedes]

theorem keepFirst_of_ascending (h : ∀ other ∈ pairs, pair.1 < other.1) :
    keepFirst pair pairs = pair :: pairs := by
  cases pairs with
  | nil => rfl
  | cons next rest => rw [keepFirst, if_neg (Nat.ne_of_lt (h next List.mem_cons_self))]

theorem firsts_sort_of_ascending (h : pairs.Pairwise fun a b => a.1 < b.1) :
    firsts (sort pairs) = pairs := by
  have hsort : sort pairs = pairs := by
    induction pairs with
    | nil => rfl
    | cons pair pairs ih =>
        obtain ⟨hpair, hpairs⟩ := List.pairwise_cons.mp h
        change insert pair (sort pairs) = pair :: pairs
        rw [ih hpairs, insert_of_ascending hpair]
  rw [hsort]
  clear hsort
  induction pairs with
  | nil => rfl
  | cons pair pairs ih =>
      obtain ⟨hpair, hpairs⟩ := List.pairwise_cons.mp h
      change keepFirst pair (firsts pairs) = pair :: pairs
      rw [ih hpairs, keepFirst_of_ascending hpair]

end CodepointPair

namespace Crosswalk

theorem pairs_ordered (c : Crosswalk) : c.pairs.Pairwise fun a b => a.1 < b.1 :=
  c.ascending

theorem mem_pairs {c : Crosswalk} {origin cp : Codepoint} :
    (origin, cp) ∈ c.pairs ↔ c.destination? origin = some cp := by
  have hsearch {pair : CodepointPair} : CodepointPair.search c.table origin = some pair ↔
      pair ∈ c.table ∧ pair.1 = origin :=
    CodepointPair.search_eq_some_iff c.ascending
  have hmem : (origin, cp) ∈ c.pairs ↔ (origin, cp) ∈ c.table := Array.mem_toList_iff
  rw [hmem, destination?, Option.map_eq_some_iff]
  constructor
  · intro h
    exact ⟨(origin, cp), hsearch.mpr ⟨h, rfl⟩, rfl⟩
  · rintro ⟨pair, hfound, rfl⟩
    obtain ⟨hpair, rfl⟩ := hsearch.mp hfound
    exact hpair

theorem ext_pairs {c d : Crosswalk} (hname : c.patchSet = d.patchSet) (hindex : c.index = d.index)
    (hexact : c.exact = d.exact) (hpairs : c.pairs = d.pairs) : c = d := by
  obtain ⟨patchSet, index, exact, table, ascending⟩ := c
  obtain ⟨patchSet', index', exact', table', ascending'⟩ := d
  obtain rfl : table = table' := Array.toList_inj.mp hpairs
  dsimp only at hname hindex hexact
  subst hname hindex hexact
  rfl

theorem pairs_ofPairs (patchSet : String) (index : Nat) (exact : Bool) (pairs : List CodepointPair) :
    (ofPairs patchSet index exact pairs).pairs = CodepointPair.firsts (CodepointPair.sort pairs) :=
  rfl

theorem ofPairs_pairs (c : Crosswalk) :
    ofPairs c.patchSet c.index c.exact c.pairs = c :=
  ext_pairs rfl rfl rfl (CodepointPair.firsts_sort_of_ascending c.ascending)

end Crosswalk

namespace SnapshotEntry

@[simp] theorem toCrosswalk_ofCrosswalk (c : Crosswalk) : (ofCrosswalk c).toCrosswalk = c :=
  c.ofPairs_pairs

end SnapshotEntry

end IconConstraints
