import IconConstraints.Proofs.ValueEquality

/-!
# Bindings of a dict display

A display binds its keys from left to right, and a mapping that is unpacked in it binds its own
keys where it stands.  Insertion replaces the value of the first key that is equal to the new
one, while a lookup searches from the end.  Both meet the same pair because the keys of a dict
are apart and their equality is symmetric and transitive: the dict answers with what was bound
last, and it shows its keys in the order in which they were bound first.
-/

namespace IconConstraints

open Outcome
open List (Forall₂)

/-! ## Pairs of a display -/

theorem evalPairs_eq_ok_iff {switches : Switches} {items : List DictItem}
    {pairs : List (Value × Value)} :
    evalPairs switches items = .ok pairs ↔
      ∃ parts, Forall₂ (fun item part => evalPair switches item = .ok part) items parts ∧
        parts.flatten = pairs := by
  induction items generalizing pairs with
  | nil => simp [evalPairs]
  | cons item rest ih =>
      simp only [evalPairs, bind_eq_ok, ih, List.forall₂_cons_left_iff]
      constructor
      · rintro ⟨here, hhere, _, ⟨parts, hparts, rfl⟩, hpairs⟩
        cases hpairs
        exact ⟨here :: parts, ⟨here, parts, hhere, hparts, rfl⟩, rfl⟩
      · rintro ⟨_, ⟨here, parts, hhere, hparts, rfl⟩, rfl⟩
        exact ⟨here, hhere, _, ⟨parts, hparts, rfl⟩, rfl⟩

namespace Value

variable {k v w key : Value} {ks earlier found : List Value} {pairs bound : List (Value × Value)}

/-! ## Lookups -/

theorem get?_cons (pair : Value × Value) (rest : List (Value × Value)) (k : Value) :
    get? (.dict (pair :: rest)) k =
      (get? (.dict rest) k).or (if eqv pair.1 k then some pair.2 else none) := by
  unfold get?
  by_cases h : eqv pair.1 k = true <;> simp [List.find?_append, h]

/-- A pair binds the key to the value, and no later pair binds it. -/
def LastBinds (pairs : List (Value × Value)) (k v : Value) : Prop :=
  ∃ before k' after, pairs = before ++ (k', v) :: after ∧ eqv k' k = true ∧
    ∀ p ∈ after, eqv p.1 k = false

theorem get?_eq_some_iff : get? (.dict pairs) k = some v ↔ LastBinds pairs k v := by
  unfold get? LastBinds
  simp only [Option.map_eq_some_iff, List.find?_eq_some_iff_append, List.reverse_eq_iff,
    List.reverse_append, List.reverse_cons, List.append_assoc, List.singleton_append,
    Bool.not_eq_true']
  constructor
  · rintro ⟨⟨k', _⟩, ⟨hk, after, before, rfl, hafter⟩, rfl⟩
    exact ⟨before.reverse, k', after.reverse, rfl, hk, by simpa using hafter⟩
  · rintro ⟨before, k', after, rfl, hk, hafter⟩
    exact ⟨(k', v), ⟨hk, after.reverse, before.reverse, by simp, by simpa using hafter⟩, rfl⟩

theorem get?_eq_none_iff : get? (.dict pairs) k = none ↔ ∀ p ∈ pairs, eqv p.1 k = false := by
  unfold get?
  simp

/-! ## Insertion -/

/-- The keys of a dict: none has a repetition in it, and no two of them are equal. -/
structure KeysApart (pairs : List (Value × Value)) : Prop where
  distinct : ∀ k ∈ pairs.map Prod.fst, k.Distinct
  apart : (pairs.map Prod.fst).Pairwise Apart

theorem Distinct.keysApart (h : Distinct (.dict pairs)) : KeysApart pairs := by
  cases h with
  | dict hkeys _ hapart => exact ⟨List.forall_mem_map.mpr hkeys, hapart⟩

theorem KeysApart.insertPair (h : KeysApart pairs) (hkey : key.Distinct) (v : Value) :
    KeysApart (insertPair key v pairs) where
  distinct := by
    rw [keys_insertPair]
    exact forall_foldl_insertItem (List.forall_mem_singleton.mpr hkey) h.distinct
  apart := by
    rw [keys_insertPair]
    exact insertItem_apart hkey h.apart

theorem get?_insertPair (h : KeysApart pairs) (hkey : key.Distinct) (v k : Value) :
    get? (.dict (insertPair key v pairs)) k =
      if eqv key k then some v else get? (.dict pairs) k := by
  induction pairs with
  | nil => simp [Value.insertPair, get?]
  | cons pair rest ih =>
      obtain ⟨k', v'⟩ := pair
      obtain ⟨hfirst, hrest⟩ := List.forall_mem_cons.mp h.distinct
      obtain ⟨hothers, hapart⟩ := List.pairwise_cons.mp h.apart
      unfold Value.insertPair
      split
      case isTrue hsame =>
        rw [get?_cons, get?_cons, ← eqv_congr_left hfirst hkey hsame k]
        by_cases hk : eqv k' k = true
        · -- The other keys are apart from the one whose value is replaced.
          have hnone : get? (.dict rest) k = none := get?_eq_none_iff.mpr fun p hp => by
            have hp := List.mem_map_of_mem (f := Prod.fst) hp
            rw [← eqv_congr_right (hrest _ hp) hfirst hk]
            exact (hothers _ hp).2
          simp [hnone, hk]
        · simp [hk]
      case isFalse =>
        rw [get?_cons, get?_cons, ih ⟨hrest, hapart⟩]
        by_cases hk : eqv key k = true <;> simp [hk]

/-- What is bound later hides what is bound already. -/
theorem get?_foldl_insertPair (hpairs : ∀ p ∈ pairs, p.1.Distinct) (hbound : KeysApart bound)
    (k : Value) :
    get? (.dict (pairs.foldl (fun found p => insertPair p.1 p.2 found) bound)) k =
      (get? (.dict pairs) k).or (get? (.dict bound) k) := by
  induction pairs generalizing bound with
  | nil => rfl
  | cons pair rest ih =>
      obtain ⟨hpair, hrest⟩ := List.forall_mem_cons.mp hpairs
      rw [List.foldl_cons, ih hrest (hbound.insertPair hpair pair.2),
        get?_insertPair hbound hpair, get?_cons]
      by_cases hk : eqv pair.1 k = true <;> simp [hk]

theorem keysApart_nil : KeysApart [] :=
  ⟨List.forall_mem_nil _, .nil⟩

/-- A dict answers as the pairs do from which it is built, repetitions included. -/
theorem get?_dictOfPairs (hpairs : ∀ p ∈ pairs, p.1.Distinct) (k : Value) :
    get? (dictOfPairs pairs) k = get? (.dict pairs) k := by
  have h := get?_foldl_insertPair hpairs keysApart_nil k
  rwa [show get? (.dict []) k = none from rfl, Option.or_none] at h

/-! ## Order of the keys -/

/-- The values that are equal to none before them, in their order. -/
def firstOccurrences (earlier : List Value) : List Value → List Value
  | [] => []
  | k :: ks =>
    if earlier.any (eqv · k) then firstOccurrences (k :: earlier) ks
    else k :: firstOccurrences (k :: earlier) ks

/-- It is enough to compare with the values that were kept. -/
theorem foldl_insertItem_eq (hks : ∀ k ∈ ks, k.Distinct) (hfound : ∀ k ∈ found, k.Distinct)
    (hseen : ∀ k, earlier.any (eqv · k) = found.any (eqv · k)) :
    ks.foldl insertItem found = found ++ firstOccurrences earlier ks := by
  induction ks generalizing earlier found with
  | nil => simp [firstOccurrences]
  | cons k ks ih =>
      obtain ⟨hk, hks⟩ := List.forall_mem_cons.mp hks
      unfold firstOccurrences
      rw [List.foldl_cons, hseen k, insertItem]
      split
      case isTrue hknown =>
        refine ih hks hfound fun q => ?_
        -- What is equal to a repeated value is equal to the kept one.
        obtain ⟨first, hfirst, hsame⟩ := List.any_eq_true.mp hknown
        have hkept : eqv k q = true → found.any (eqv · q) = true := fun hq =>
          List.any_eq_true.mpr ⟨first, hfirst, eqv_trans (hfound first hfirst) hsame hq⟩
        rw [List.any_cons, hseen q, Bool.or_eq_right_iff_imp]
        exact hkept
      case isFalse =>
        have hmore : ∀ w ∈ found ++ [k], w.Distinct :=
          List.forall_mem_append.mpr ⟨hfound, List.forall_mem_singleton.mpr hk⟩
        have hseen' : ∀ q, (k :: earlier).any (eqv · q) = (found ++ [k]).any (eqv · q) := by
          simp [hseen, Bool.or_comm]
        rw [ih hks hmore hseen']
        simp

theorem keys_dictOfPairs (hpairs : ∀ p ∈ pairs, p.1.Distinct) :
    (pairs.foldl (fun found p => insertPair p.1 p.2 found) []).map Prod.fst =
      firstOccurrences [] (pairs.map Prod.fst) := by
  rw [keys_foldl_insertPair]
  simpa using foldl_insertItem_eq (List.forall_mem_map.mpr hpairs) (List.forall_mem_nil _)
    fun _ => rfl

/-! ## Rebuilding -/

theorem insertPair_of_new (h : ∀ p ∈ bound, eqv p.1 key = false) (v : Value) :
    insertPair key v bound = bound ++ [(key, v)] := by
  induction bound with
  | nil => rfl
  | cons pair rest ih =>
      obtain ⟨hpair, hrest⟩ := List.forall_mem_cons.mp h
      simp [insertPair, hpair, ih hrest]

theorem foldl_insertPair_of_apart (h : ((bound ++ pairs).map Prod.fst).Pairwise Apart) :
    pairs.foldl (fun found p => insertPair p.1 p.2 found) bound = bound ++ pairs := by
  induction pairs generalizing bound with
  | nil => simp
  | cons pair rest ih =>
      have hnew : ∀ p ∈ bound, eqv p.1 pair.1 = false := by
        intro p hp
        rw [List.map_append, List.pairwise_append] at h
        exact (h.2.2 p.1 (List.mem_map_of_mem hp) pair.1 (by simp)).1
      rw [List.foldl_cons, insertPair_of_new hnew, ih (by simpa using h)]
      simp

theorem dictOfPairs_self (h : KeysApart pairs) : dictOfPairs pairs = .dict pairs :=
  congrArg dict (@foldl_insertPair_of_apart pairs [] h.apart)

/-! ## Displays -/

/-- The dict that is left when the pairs are bound one after another. -/
structure Binds (pairs bound : List (Value × Value)) : Prop where
  found : ∀ k v, get? (.dict bound) k = some v ↔ LastBinds pairs k v
  missing : ∀ k, get? (.dict bound) k = none ↔ ∀ p ∈ pairs, eqv p.1 k = false
  keys : bound.map Prod.fst = firstOccurrences [] (pairs.map Prod.fst)
  once : (bound.map Prod.fst).Pairwise Apart
  rebuilt : dictOfPairs bound = .dict bound

theorem dictOfPairs_binds (hpairs : ∀ p ∈ pairs, p.1.Distinct) :
    ∃ bound, dictOfPairs pairs = .dict bound ∧ Binds pairs bound := by
  have hkeys := keys_dictOfPairs hpairs
  have hlookup := get?_dictOfPairs hpairs
  have hdistinct : ∀ k ∈ pairs.map Prod.fst, k.Distinct := List.forall_mem_map.mpr hpairs
  have hapart : KeysApart (pairs.foldl (fun found p => insertPair p.1 p.2 found) []) := by
    constructor <;> rw [keys_foldl_insertPair]
    · exact forall_foldl_insertItem hdistinct (List.forall_mem_nil _)
    · exact foldl_insertItem_apart hdistinct .nil
  refine ⟨_, rfl, ?_, ?_, hkeys, hapart.apart, dictOfPairs_self hapart⟩
  · intro k v
    rw [← get?_eq_some_iff, ← hlookup k]
    rfl
  · intro k
    rw [← get?_eq_none_iff, ← hlookup k]
    rfl

/-- The display of a dict binds the pairs of its items in turn, those of unpacked mappings
among them.  Whatever the pairs are, as long as expressions evaluate to their keys, every key
has the value that was bound last and the place where it was bound first. -/
theorem last_binding_wins :
    (∀ (switches : Switches) (e : Expr) (v : Value), e.eval switches = .ok v → v.Distinct) ∧
    (∀ (switches : Switches) (items : List DictItem) (v : Value),
      (Expr.dict items).eval switches = .ok v ↔
        ∃ parts, Forall₂ (fun item part => evalPair switches item = .ok part) items parts ∧
          dictOfPairs parts.flatten = v) ∧
    (∀ pairs : List (Value × Value), (∀ p ∈ pairs, p.1.Distinct) →
      ∃ bound, dictOfPairs pairs = .dict bound ∧ Binds pairs bound) ∧
    ∀ pairs : List (Value × Value), Distinct (.dict pairs) → dictOfPairs pairs = .dict pairs := by
  refine ⟨fun _ e _ h => distinct_kept.eval e h, fun switches items v => ?_,
    fun _ => dictOfPairs_binds, fun _ h => dictOfPairs_self h.keysApart⟩
  change (evalPairs switches items).map dictOfPairs = .ok v ↔ _
  simp only [map_eq_ok, evalPairs_eq_ok_iff]
  constructor
  · rintro ⟨_, ⟨parts, hparts, rfl⟩, hv⟩
    exact ⟨parts, hparts, hv⟩
  · rintro ⟨parts, hparts, hv⟩
    exact ⟨_, ⟨parts, hparts, rfl⟩, hv⟩

/-- One key in three spellings, the second of them in an unpacked mapping. -/
def respelledItems : List DictItem :=
  [.pair (.int 1) (.str "a"),
    .unpack (.dict [.pair (.bool true) (.str "b"), .pair (.int 2) (.str "c")]),
    .pair (.float 1.0) (.str "d")]

def respelledParts : List (List (Value × Value)) :=
  [[(.int 1, .str "a")], [(.bool true, .str "b"), (.int 2, .str "c")], [(.float 1.0, .str "d")]]

theorem respelled_last_binding_wins :
    ∃ bound, (Expr.dict respelledItems).eval .none = .ok (.dict bound) ∧
      bound.map Prod.fst = [.int 1, .int 2] ∧
      get? (.dict bound) (.bool true) = some (.str "d") ∧ dictOfPairs bound = .dict bound := by
  obtain ⟨hdistinct, hdisplay, hbinds, hrebuilt⟩ := last_binding_wins
  have hparts : Forall₂ (fun item part => evalPair .none item = .ok part)
      respelledItems respelledParts := .cons rfl (.cons rfl (.cons rfl .nil))
  have hkeys : ∀ p ∈ respelledParts.flatten, p.1.Distinct := by
    simp [respelledParts, Distinct.int, Distinct.bool, Distinct.float]
  obtain ⟨bound, hbound, hbinds⟩ := hbinds _ hkeys
  have heval := (hdisplay .none respelledItems _).mpr ⟨_, hparts, hbound⟩
  have hlast : LastBinds respelledParts.flatten (.bool true) (.str "d") :=
    ⟨respelledParts.flatten.dropLast, .float 1.0, [], rfl, by decide +kernel, nofun⟩
  refine ⟨bound, heval, ?_, (hbinds.found _ _).mpr hlast, hrebuilt _ (hdistinct _ _ _ heval)⟩
  rw [hbinds.keys]
  rfl

end Value

end IconConstraints
