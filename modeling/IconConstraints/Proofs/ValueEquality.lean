import Mathlib.Data.List.Forall2
import IconConstraints.Proofs.EvaluatedValues
import IconConstraints.Proofs.NumberComparison

/-!
# Equality of values

Whether two sets are equal is decided by their sizes and by looking for the elements of the
first one in the second, and dicts are compared in the same way.  This is symmetric only
because no set has an element twice: different elements have different partners, so that as
many elements leave no partner out.  Displays see to it that elements and keys are
different.

Equality of evaluated values is a partial equivalence.  It is reflexive on those that have
no NaN in them, and only there.
-/

namespace IconConstraints

open List (Forall₂)

namespace Value

variable {u v w a b key item : Value} {as bs items found : List Value}
  {ps qs pairs : List (Value × Value)} {p : Extended}

/-! ## One step of a comparison -/

theorem eqvAll_iff : eqvAll as bs = true ↔ Forall₂ (fun a b => eqv a b = true) as bs := by
  induction as generalizing bs with
  | nil =>
      cases bs with
      | nil => exact iff_of_true rfl .nil
      | cons => exact iff_of_false Bool.false_ne_true nofun
  | cons a as ih =>
      cases bs with
      | nil => exact iff_of_false Bool.false_ne_true nofun
      | cons b bs =>
          change (eqv a b && eqvAll as bs) = true ↔ _
          rw [Bool.and_eq_true, ih, List.forall₂_cons]

theorem eqvEachIn_iff : eqvEachIn as bs = true ↔ ∀ a ∈ as, ∃ b ∈ bs, eqv a b = true := by
  induction as with
  | nil => exact iff_of_true rfl (List.forall_mem_nil _)
  | cons a as ih =>
      change ((bs.any fun b => eqv a b) && eqvEachIn as bs) = true ↔ _
      rw [Bool.and_eq_true, ih, List.any_eq_true, List.forall_mem_cons]

theorem eqvPairEachIn_iff :
    eqvPairEachIn ps qs = true ↔
      ∀ p ∈ ps, ∃ q ∈ qs, eqv p.1 q.1 = true ∧ eqv p.2 q.2 = true := by
  induction ps with
  | nil => exact iff_of_true rfl (List.forall_mem_nil _)
  | cons p ps ih =>
      change ((qs.any fun q => eqv p.1 q.1 && eqv p.2 q.2) && eqvPairEachIn ps qs) = true ↔ _
      rw [Bool.and_eq_true, ih, List.any_eq_true, List.forall_mem_cons]
      simp only [Bool.and_eq_true]

theorem eqv_nothing_iff : eqv .nothing v = true ↔ v = .nothing := by
  cases v with
  | nothing => exact iff_of_true rfl rfl
  | _ => exact iff_of_false Bool.false_ne_true nofun

theorem eqv_str_iff {s : String} : eqv (.str s) v = true ↔ v = .str s := by
  cases v with
  | str t =>
      change (s == t) = true ↔ _
      rw [beq_iff_eq, str.injEq, eq_comm]
  | _ => exact iff_of_false Bool.false_ne_true nofun

theorem eqv_list_iff :
    eqv (.list as) v = true ↔ ∃ bs, v = .list bs ∧ Forall₂ (fun a b => eqv a b = true) as bs := by
  cases v with
  | list bs =>
      change eqvAll as bs = true ↔ _
      simp only [eqvAll_iff, list.injEq, exists_eq_left']
  | _ => exact iff_of_false Bool.false_ne_true nofun

theorem eqv_tuple_iff :
    eqv (.tuple as) v = true ↔ ∃ bs, v = .tuple bs ∧ Forall₂ (fun a b => eqv a b = true) as bs := by
  cases v with
  | tuple bs =>
      change eqvAll as bs = true ↔ _
      simp only [eqvAll_iff, tuple.injEq, exists_eq_left']
  | _ => exact iff_of_false Bool.false_ne_true nofun

theorem eqv_set_iff :
    eqv (.set as) v = true ↔
      ∃ bs, v = .set bs ∧ as.length = bs.length ∧ ∀ a ∈ as, ∃ b ∈ bs, eqv a b = true := by
  cases v with
  | set bs =>
      change (as.length == bs.length && eqvEachIn as bs) = true ↔ _
      simp only [Bool.and_eq_true, beq_iff_eq, eqvEachIn_iff, set.injEq, exists_eq_left']
  | _ => exact iff_of_false Bool.false_ne_true nofun

theorem eqv_dict_iff :
    eqv (.dict ps) v = true ↔
      ∃ qs, v = .dict qs ∧ ps.length = qs.length ∧
        ∀ p ∈ ps, ∃ q ∈ qs, eqv p.1 q.1 = true ∧ eqv p.2 q.2 = true := by
  cases v with
  | dict qs =>
      change (ps.length == qs.length && eqvPairEachIn ps qs) = true ↔ _
      simp only [Bool.and_eq_true, beq_iff_eq, eqvPairEachIn_iff, dict.injEq, exists_eq_left']
  | _ => exact iff_of_false Bool.false_ne_true nofun

theorem eqv_range_iff {start stop step : Int64} :
    eqv (.range start stop step) v = true ↔
      ∃ start' stop' step', v = .range start' stop' step' ∧
        rangeItems start stop step = rangeItems start' stop' step' := by
  cases v with
  | range start' stop' step' =>
      change (rangeItems start stop step == rangeItems start' stop' step') = true ↔ _
      rw [beq_iff_eq]
      refine ⟨fun h => ⟨_, _, _, rfl, h⟩, ?_⟩
      rintro ⟨_, _, _, hsame, h⟩
      cases hsame
      exact h
  | _ => exact iff_of_false Bool.false_ne_true nofun

/-! ## Values without repetitions -/

/-- Not equal, whichever is the first one. -/
def Apart (a b : Value) : Prop :=
  eqv a b = false ∧ eqv b a = false

/-- No set in the value has an element twice, and no dict a key. -/
inductive Distinct : Value → Prop
  | nothing : Distinct .nothing
  | bool (b : Bool) : Distinct (.bool b)
  | int (n : Int64) : Distinct (.int n)
  | float (x : Float) : Distinct (.float x)
  | str (s : String) : Distinct (.str s)
  | list {items : List Value} : (∀ v ∈ items, Distinct v) → Distinct (.list items)
  | tuple {items : List Value} : (∀ v ∈ items, Distinct v) → Distinct (.tuple items)
  | set {items : List Value} :
      (∀ v ∈ items, Distinct v) → items.Pairwise Apart → Distinct (.set items)
  | dict {pairs : List (Value × Value)} :
      (∀ p ∈ pairs, Distinct p.1) → (∀ p ∈ pairs, Distinct p.2) →
      (pairs.map Prod.fst).Pairwise Apart → Distinct (.dict pairs)
  | range (start stop step : Int64) : Distinct (.range start stop step)

/-! ## Transitivity -/

theorem forall₂_comp {α : Type} {R : α → α → Prop} {xs ys zs : List α}
    (h : ∀ x ∈ xs, ∀ y z, R x y → R y z → R x z) (hxy : Forall₂ R xs ys)
    (hyz : Forall₂ R ys zs) : Forall₂ R xs zs := by
  induction hxy generalizing zs with
  | nil => exact hyz
  | cons hhead _ ih =>
      cases hyz with
      | cons hhead' htail =>
          obtain ⟨hx, hxs⟩ := List.forall_mem_cons.mp h
          exact .cons (hx _ _ hhead hhead') (ih hxs htail)

theorem eqv_trans (hu : u.Distinct) (huv : eqv u v = true) (hvw : eqv v w = true) :
    eqv u w = true := by
  induction hu generalizing v w with
  | nothing => obtain rfl := eqv_nothing_iff.mp huv; exact hvw
  | str => obtain rfl := eqv_str_iff.mp huv; exact hvw
  | bool | int | float =>
      obtain ⟨p, hu, hv⟩ := (eqv_iff_of_toFloat? rfl).mp huv
      exact (eqv_iff_of_rounded? hu).mpr ((eqv_iff_of_rounded? hv).mp hvw)
  | list _ ih =>
      obtain ⟨bs, rfl, hbs⟩ := eqv_list_iff.mp huv
      obtain ⟨cs, rfl, hcs⟩ := eqv_list_iff.mp hvw
      exact eqv_list_iff.mpr ⟨cs, rfl, forall₂_comp (fun a ha _ _ => ih a ha) hbs hcs⟩
  | tuple _ ih =>
      obtain ⟨bs, rfl, hbs⟩ := eqv_tuple_iff.mp huv
      obtain ⟨cs, rfl, hcs⟩ := eqv_tuple_iff.mp hvw
      exact eqv_tuple_iff.mpr ⟨cs, rfl, forall₂_comp (fun a ha _ _ => ih a ha) hbs hcs⟩
  | set _ _ ih =>
      obtain ⟨bs, rfl, hlength, hbs⟩ := eqv_set_iff.mp huv
      obtain ⟨cs, rfl, hlength', hcs⟩ := eqv_set_iff.mp hvw
      refine eqv_set_iff.mpr ⟨cs, rfl, hlength.trans hlength', fun a ha => ?_⟩
      obtain ⟨b, hb, hab⟩ := hbs a ha
      obtain ⟨c, hc, hbc⟩ := hcs b hb
      exact ⟨c, hc, ih a ha hab hbc⟩
  | dict _ _ _ ihkeys ihvalues =>
      obtain ⟨qs, rfl, hlength, hqs⟩ := eqv_dict_iff.mp huv
      obtain ⟨rs, rfl, hlength', hrs⟩ := eqv_dict_iff.mp hvw
      refine eqv_dict_iff.mpr ⟨rs, rfl, hlength.trans hlength', fun p hp => ?_⟩
      obtain ⟨q, hq, hkeys, hvalues⟩ := hqs p hp
      obtain ⟨r, hr, hkeys', hvalues'⟩ := hrs q hq
      exact ⟨r, hr, ihkeys p hp hkeys hkeys', ihvalues p hp hvalues hvalues'⟩
  | range =>
      obtain ⟨_, _, _, rfl, hitems⟩ := eqv_range_iff.mp huv
      obtain ⟨_, _, _, rfl, hitems'⟩ := eqv_range_iff.mp hvw
      exact eqv_range_iff.mpr ⟨_, _, _, rfl, hitems.trans hitems'⟩

/-! ## Symmetry -/

/-- If no two elements have the same partner, and there are as many possible partners as
elements, every one of these is a partner. -/
theorem exists_partner {α β : Type} {R : α → β → Prop} {xs : List α} {ys : List β}
    (hlength : xs.length = ys.length) (hpartner : ∀ x ∈ xs, ∃ y ∈ ys, R x y)
    (hapart : xs.Pairwise fun x x' => ∀ y, R x y → ¬ R x' y) :
    ∀ y ∈ ys, ∃ x ∈ xs, R x y := by
  -- The partner of the first element is taken out, and nobody else needs it.
  induction xs generalizing ys with
  | nil => simp [List.length_eq_zero_iff.mp hlength.symm]
  | cons x xs ih =>
      obtain ⟨⟨partner, hmem, hx⟩, hrest⟩ := List.forall_mem_cons.mp hpartner
      obtain ⟨hfirst, hapart⟩ := List.pairwise_cons.mp hapart
      obtain ⟨before, after, rfl⟩ := List.append_of_mem hmem
      have hothers : ∀ x' ∈ xs, ∃ y ∈ before ++ after, R x' y := by
        intro x' hx'
        obtain ⟨y, hy, hR⟩ := hrest x' hx'
        have hne : y ≠ partner := fun h => hfirst x' hx' partner hx (h ▸ hR)
        refine ⟨y, ?_, hR⟩
        simpa [hne] using hy
      have hfound := ih (by simpa [← Nat.add_assoc] using hlength) hothers hapart
      intro y hy
      by_cases hsame : y = partner
      · exact ⟨x, List.mem_cons_self, hsame ▸ hx⟩
      · obtain ⟨x', hx', hR⟩ := hfound y (by simpa [hsame] using hy)
        exact ⟨x', List.mem_cons_of_mem x hx', hR⟩

theorem forall₂_symm {α : Type} {R : α → α → Prop} {xs ys : List α}
    (h : ∀ x ∈ xs, ∀ y, R x y → R y x) (hxy : Forall₂ R xs ys) : Forall₂ R ys xs := by
  induction hxy with
  | nil => exact .nil
  | cons hhead _ ih =>
      obtain ⟨hx, hxs⟩ := List.forall_mem_cons.mp h
      exact .cons (hx _ hhead) (ih hxs)

theorem Apart.no_common_partner (h : Apart a b) (ha : a.Distinct)
    (hsymm : ∀ {v}, eqv b v = true → eqv v b = true) (hav : eqv a v = true) :
    ¬ eqv b v = true := by
  intro hbv
  have hab := eqv_trans ha hav (hsymm hbv)
  rw [h.1] at hab
  cases hab

theorem eqv_symm (hu : u.Distinct) (h : eqv u v = true) : eqv v u = true := by
  induction hu generalizing v with
  | nothing => obtain rfl := eqv_nothing_iff.mp h; exact h
  | str => obtain rfl := eqv_str_iff.mp h; exact h
  | bool | int | float =>
      obtain ⟨p, hu, hv⟩ := (eqv_iff_of_toFloat? rfl).mp h
      exact (eqv_iff_of_rounded? hv).mpr hu
  | list _ ih =>
      obtain ⟨bs, rfl, hbs⟩ := eqv_list_iff.mp h
      exact eqv_list_iff.mpr ⟨_, rfl, forall₂_symm (fun a ha _ => ih a ha) hbs⟩
  | tuple _ ih =>
      obtain ⟨bs, rfl, hbs⟩ := eqv_tuple_iff.mp h
      exact eqv_tuple_iff.mpr ⟨_, rfl, forall₂_symm (fun a ha _ => ih a ha) hbs⟩
  | set hitems hapart ih =>
      obtain ⟨bs, rfl, hlength, hbs⟩ := eqv_set_iff.mp h
      have hpartner := exists_partner hlength hbs <|
        hapart.imp_of_mem fun ha ha' hab _ => hab.no_common_partner (hitems _ ha) (ih _ ha')
      refine eqv_set_iff.mpr ⟨_, rfl, hlength.symm, fun b hb => ?_⟩
      obtain ⟨a, ha, hab⟩ := hpartner b hb
      exact ⟨a, ha, ih a ha hab⟩
  | dict hkeys _ hapart ihkeys ihvalues =>
      obtain ⟨qs, rfl, hlength, hqs⟩ := eqv_dict_iff.mp h
      have hpartner := exists_partner hlength hqs <|
        (List.pairwise_map.mp hapart).imp_of_mem fun hp hp' hab _ hq hq' =>
          hab.no_common_partner (hkeys _ hp) (ihkeys _ hp') hq.1 hq'.1
      refine eqv_dict_iff.mpr ⟨_, rfl, hlength.symm, fun q hq => ?_⟩
      obtain ⟨p, hp, hkey, hvalue⟩ := hpartner q hq
      exact ⟨p, hp, ihkeys p hp hkey, ihvalues p hp hvalue⟩
  | range =>
      obtain ⟨_, _, _, rfl, hitems⟩ := eqv_range_iff.mp h
      exact eqv_range_iff.mpr ⟨_, _, _, rfl, hitems.symm⟩

theorem eqv_comm (hu : u.Distinct) (hv : v.Distinct) : eqv u v = eqv v u :=
  Bool.eq_iff_iff.mpr ⟨eqv_symm hu, eqv_symm hv⟩

theorem eqv_congr_left (hu : u.Distinct) (hv : v.Distinct) (h : eqv u v = true) (w : Value) :
    eqv u w = eqv v w :=
  Bool.eq_iff_iff.mpr ⟨eqv_trans hv (eqv_symm hu h), eqv_trans hu h⟩

theorem eqv_congr_right (hu : u.Distinct) (hv : v.Distinct) (h : eqv v w = true) :
    eqv u v = eqv u w :=
  Bool.eq_iff_iff.mpr ⟨fun huv => eqv_trans hu huv h, fun huw => eqv_trans hu huw (eqv_symm hv h)⟩

/-! ## Reflexivity -/

/-- A NaN stands somewhere in the value. -/
inductive HasNaN : Value → Prop
  | float {x : Float} : x.isNaN = true → HasNaN (.float x)
  | list {items : List Value} {v : Value} : v ∈ items → HasNaN v → HasNaN (.list items)
  | tuple {items : List Value} {v : Value} : v ∈ items → HasNaN v → HasNaN (.tuple items)
  | set {items : List Value} {v : Value} : v ∈ items → HasNaN v → HasNaN (.set items)
  | key {pairs : List (Value × Value)} {p : Value × Value} :
      p ∈ pairs → HasNaN p.1 → HasNaN (.dict pairs)
  | value {pairs : List (Value × Value)} {p : Value × Value} :
      p ∈ pairs → HasNaN p.2 → HasNaN (.dict pairs)

theorem hasNaN_list_iff : HasNaN (.list items) ↔ ∃ v ∈ items, v.HasNaN :=
  ⟨fun h => by cases h with | list hv h => exact ⟨_, hv, h⟩, fun ⟨_, hv, h⟩ => .list hv h⟩

theorem hasNaN_tuple_iff : HasNaN (.tuple items) ↔ ∃ v ∈ items, v.HasNaN :=
  ⟨fun h => by cases h with | tuple hv h => exact ⟨_, hv, h⟩, fun ⟨_, hv, h⟩ => .tuple hv h⟩

theorem hasNaN_set_iff : HasNaN (.set items) ↔ ∃ v ∈ items, v.HasNaN :=
  ⟨fun h => by cases h with | set hv h => exact ⟨_, hv, h⟩, fun ⟨_, hv, h⟩ => .set hv h⟩

theorem hasNaN_dict_iff : HasNaN (.dict pairs) ↔ ∃ p ∈ pairs, p.1.HasNaN ∨ p.2.HasNaN := by
  constructor
  · intro h
    cases h with
    | key hp h => exact ⟨_, hp, .inl h⟩
    | value hp h => exact ⟨_, hp, .inr h⟩
  · rintro ⟨p, hp, h | h⟩
    · exact .key hp h
    · exact .value hp h

/-- What has a partner at all is equal to itself. -/
theorem eqv_self_of_eqv (hu : u.Distinct) (h : eqv u v = true) : eqv u u = true :=
  eqv_trans hu h (eqv_symm hu h)

theorem forall_self_iff (h : ∀ v ∈ items, (eqv v v = true ↔ ¬ v.HasNaN)) :
    (∀ v ∈ items, eqv v v = true) ↔ ¬ ∃ v ∈ items, v.HasNaN := by
  simp only [not_exists, not_and]
  exact forall₂_congr h

theorem eqv_set_self_iff (hitems : ∀ v ∈ items, v.Distinct) :
    eqv (.set items) (.set items) = true ↔ ∀ v ∈ items, eqv v v = true := by
  rw [eqv_set_iff]
  constructor
  · rintro ⟨_, hsame, -, h⟩ v hv
    cases hsame
    obtain ⟨w, -, hvw⟩ := h v hv
    exact eqv_self_of_eqv (hitems v hv) hvw
  · exact fun h => ⟨_, rfl, rfl, fun v hv => ⟨v, hv, h v hv⟩⟩

theorem eqv_dict_self_iff (hkeys : ∀ p ∈ pairs, p.1.Distinct)
    (hvalues : ∀ p ∈ pairs, p.2.Distinct) :
    eqv (.dict pairs) (.dict pairs) = true ↔
      ∀ p ∈ pairs, eqv p.1 p.1 = true ∧ eqv p.2 p.2 = true := by
  rw [eqv_dict_iff]
  constructor
  · rintro ⟨_, hsame, -, h⟩ p hp
    cases hsame
    obtain ⟨q, -, hkey, hvalue⟩ := h p hp
    exact ⟨eqv_self_of_eqv (hkeys p hp) hkey, eqv_self_of_eqv (hvalues p hp) hvalue⟩
  · exact fun h => ⟨_, rfl, rfl, fun p hp => ⟨p, hp, h p hp⟩⟩

theorem eqv_self_iff (hv : v.Distinct) : eqv v v = true ↔ ¬ v.HasNaN := by
  induction hv with
  | nothing => exact iff_of_true rfl nofun
  | str => exact iff_of_true (eqv_str_iff.mpr rfl) nofun
  | bool b => exact iff_of_true ((eqv_iff_of_rounded? rfl).mpr rfl) nofun
  | int n => exact iff_of_true ((eqv_iff_of_rounded? rfl).mpr rfl) nofun
  | float x =>
      have hnan : HasNaN (.float x) ↔ x.isNaN = true :=
        ⟨fun h => by cases h with | float h => exact h, .float⟩
      rw [eqv_of_toFloat? rfl rfl, hnan, beq_self_iff_not_nan]
  | list _ ih =>
      rw [hasNaN_list_iff, ← forall_self_iff ih]
      exact eqvAll_iff.trans List.forall₂_same
  | tuple _ ih =>
      rw [hasNaN_tuple_iff, ← forall_self_iff ih]
      exact eqvAll_iff.trans List.forall₂_same
  | set hitems _ ih => rw [hasNaN_set_iff, ← forall_self_iff ih, eqv_set_self_iff hitems]
  | dict hkeys hvalues _ ihkeys ihvalues =>
      rw [hasNaN_dict_iff, eqv_dict_self_iff hkeys hvalues]
      simp only [not_exists, not_and, not_or]
      exact forall₂_congr fun p hp => and_congr (ihkeys p hp) (ihvalues p hp)
  | range => exact iff_of_true (eqv_range_iff.mpr ⟨_, _, _, rfl, rfl⟩) nofun

/-! ## Displays -/

theorem insertItem_apart (hitem : item.Distinct) (h : items.Pairwise Apart) :
    (insertItem items item).Pairwise Apart := by
  unfold insertItem
  split
  case isTrue => exact h
  case isFalse hnew =>
    refine List.pairwise_append.mpr ⟨h, List.pairwise_singleton _ _, fun a ha b hb => ?_⟩
    obtain rfl := List.mem_singleton.mp hb
    have hab : ¬ eqv a b = true := fun hab => hnew (List.any_eq_true.mpr ⟨a, ha, hab⟩)
    exact ⟨Bool.eq_false_iff.mpr hab, Bool.eq_false_iff.mpr fun hba => hab (eqv_symm hitem hba)⟩

theorem foldl_insertItem_apart (hitems : ∀ v ∈ items, v.Distinct) (hfound : found.Pairwise Apart) :
    (items.foldl insertItem found).Pairwise Apart := by
  induction items generalizing found with
  | nil => exact hfound
  | cons item rest ih =>
      obtain ⟨hitem, hrest⟩ := List.forall_mem_cons.mp hitems
      exact ih hrest (insertItem_apart hitem hfound)

/-- The keys of a dict are added as the elements of a set are. -/
theorem keys_insertPair (key value : Value) (pairs : List (Value × Value)) :
    (insertPair key value pairs).map Prod.fst = insertItem (pairs.map Prod.fst) key := by
  induction pairs with
  | nil => rfl
  | cons pair rest ih =>
      unfold insertItem at ih ⊢
      by_cases hsame : eqv pair.1 key = true
      · simp [insertPair, hsame]
      · simp only [insertPair, hsame, Bool.false_eq_true, if_false, List.map_cons, ih,
          List.any_cons, Bool.false_or]
        split <;> rfl

theorem keys_foldl_insertPair (pairs found : List (Value × Value)) :
    (pairs.foldl (fun found p => insertPair p.1 p.2 found) found).map Prod.fst =
      (pairs.map Prod.fst).foldl insertItem (found.map Prod.fst) := by
  induction pairs generalizing found with
  | nil => rfl
  | cons pair rest ih =>
      rw [List.foldl_cons, ih, keys_insertPair]
      rfl

theorem distinct_kept : Kept Distinct where
  nothing := .nothing
  bool := .bool
  int := .int
  float := .float
  str := .str
  list := ⟨fun h => by cases h with | list hitems => exact hitems, .list⟩
  tuple := ⟨fun h => by cases h with | tuple hitems => exact hitems, .tuple⟩
  set h := .set (forall_foldl_insertItem h (List.forall_mem_nil _))
    (foldl_insertItem_apart h .nil)
  of_set h := by cases h with | set hitems => exact hitems
  dict h := by
    have hall := forall_foldl_insertPair h (List.forall_mem_nil _)
    refine .dict (fun p hp => (hall p hp).1) (fun p hp => (hall p hp).2) ?_
    rw [keys_foldl_insertPair]
    exact foldl_insertItem_apart (List.forall_mem_map.mpr fun p hp => (h p hp).1) .nil
  of_dict h := by
    cases h with | dict hkeys hvalues => exact fun p hp => ⟨hkeys p hp, hvalues p hp⟩
  range _ := .range _ _ _

/-- No set that an expression evaluates to has an element twice, and no dict a key, at any
depth.  Equality of such values is a partial equivalence, reflexive without a NaN. -/
theorem evaluated_equality :
    (∀ (switches : Switches) (e : Expr) (v : Value), e.eval switches = .ok v → v.Distinct) ∧
    (∀ u v : Value, u.Distinct → v.Distinct → eqv u v = eqv v u) ∧
    (∀ u v w : Value, u.Distinct → v.Distinct → w.Distinct →
      eqv u v = true → eqv v w = true → eqv u w = true) ∧
    ∀ v : Value, v.Distinct → (eqv v v = true ↔ ¬ v.HasNaN) :=
  ⟨fun _ e _ h => distinct_kept.eval e h, fun _ _ => eqv_comm,
    fun _ _ _ hu _ _ => eqv_trans hu, fun _ => eqv_self_iff⟩

/-- The element that comes twice is dropped, and the order is not looked at. -/
theorem evaluated_equality_of_mixed :
    (Expr.set [.int 1, .bool true, .float 2.0]).eval .none = .ok (.set [.int 1, .float 2.0]) ∧
    (Expr.set [.int 2, .float 1.0]).eval .none = .ok (.set [.int 2, .float 1.0]) ∧
    Distinct (.set [.int 1, .float 2.0]) ∧
    eqv (.set [.int 1, .float 2.0]) (.set [.int 2, .float 1.0]) = true ∧
    eqv (.set [.int 2, .float 1.0]) (.set [.int 1, .float 2.0]) = true := by
  obtain ⟨hdistinct, hcomm, -, -⟩ := evaluated_equality
  have hu := hdistinct .none (.set [.int 1, .bool true, .float 2.0]) _ rfl
  have hv := hdistinct .none (.set [.int 2, .float 1.0]) _ rfl
  have huv : eqv (.set [.int 1, .float 2.0]) (.set [.int 2, .float 1.0]) = true := by
    decide +kernel
  exact ⟨rfl, rfl, hu, huv, (hcomm _ _ hv hu).trans huv⟩

end Value

end IconConstraints
