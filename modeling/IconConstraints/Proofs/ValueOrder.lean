import IconConstraints.Proofs.ValueEquality

/-!
# Order of values

Two lists are ordered by the first elements that are not equal, and elements are equal across
types: which elements decide is settled by one relation, and how they decide by another.  The
two fit together.  What is equal is ordered alike against everything else, and an order is
only found to be equal where the values are.  So the order is antisymmetric and transitive as
far as it is defined; it is not defined for a NaN, for values of different kinds, and for sets,
dicts and ranges.
-/

namespace IconConstraints

open Float.Model (UnpackedFloat)

/-! ## Floats -/

section Floats

variable {x y : Float} {o : Ordering}

theorem compareFloats_of_nan (h : floatNumber? x = none ∨ floatNumber? y = none) :
    Value.compareFloats x y = .error .notANumber := by
  have hnone : x.toModel.unpack.compare y.toModel.unpack = none ∧
      y.toModel.unpack.compare x.toModel.unpack = none := by
    obtain h | h := h
    · rw [unpack_of_floatNumber?_eq_none h]
      exact (compare_notANumber _).symm
    · rw [unpack_of_floatNumber?_eq_none h]
      exact compare_notANumber _
  have heq : (x == y) = (x.toModel.unpack.compare y.toModel.unpack == some .eq) := rfl
  simp [Value.compareFloats, lt_iff_compare, heq, hnone]

theorem compareFloats_eq_ok_iff :
    Value.compareFloats x y = .ok o ↔
      ∃ p q, floatNumber? x = some p ∧ floatNumber? y = some q ∧ compare p q = o := by
  cases hx : floatNumber? x with
  | none => simp [compareFloats_of_nan (.inl hx)]
  | some p =>
      cases hy : floatNumber? y with
      | none => simp [compareFloats_of_nan (.inr hy)]
      | some q => simp [compareFloats_eq hx hy]

end Floats

namespace Value

variable {a b c v : Value} {as bs cs : List Value} {o : Ordering} {s : String}

/-! ## One step of a comparison -/

theorem order_number_iff {x : Float} (ha : a.toFloat? = some x) :
    order a b = .ok o ↔
      ∃ p q, a.rounded? = some p ∧ b.rounded? = some q ∧ compare p q = o := by
  cases hb : b.toFloat? with
  | none =>
      have hnumeric : order a b = numericOrder a b := by
        cases a <;> cases ha <;> cases b <;> rfl
      simp [hnumeric, numericOrder, ha, hb, rounded?_eq]
  | some y => simp [order_of_toFloat? ha hb, compareFloats_eq_ok_iff, rounded?_eq, ha, hb]

theorem order_rounded_iff {p : Extended} (ha : a.rounded? = some p) :
    order a b = .ok o ↔ ∃ q, b.rounded? = some q ∧ compare p q = o := by
  obtain ⟨x, hx, -⟩ := Option.bind_eq_some_iff.mp (rounded?_eq a ▸ ha)
  simp [order_number_iff hx, ha]

theorem order_str_iff : order (.str s) v = .ok o ↔ ∃ t, v = .str t ∧ compare s t = o := by
  cases v <;> simp [order, numericOrder, toFloat?]

theorem order_list_iff :
    order (.list as) v = .ok o ↔ ∃ bs, v = .list bs ∧ orderItems as bs = .ok o := by
  cases v <;> simp [order, numericOrder, toFloat?]

theorem order_tuple_iff :
    order (.tuple as) v = .ok o ↔ ∃ bs, v = .tuple bs ∧ orderItems as bs = .ok o := by
  cases v <;> simp [order, numericOrder, toFloat?]

theorem orderItems_cons :
    orderItems (a :: as) (b :: bs) = if eqv a b then orderItems as bs else order a b := by
  rw [orderItems]

/-- Values of the other kinds are not ordered at all. -/
theorem order_ne_ok_of_unordered (hfloat : a.toFloat? = none) (hstr : ∀ s, a ≠ .str s)
    (hlist : ∀ as, a ≠ .list as) (htuple : ∀ as, a ≠ .tuple as) : order a b ≠ .ok o := by
  cases a <;> simp_all [order, numericOrder, toFloat?]

/-! ## Antisymmetry -/

theorem orderItems_swap (has : ∀ a ∈ as, a.Distinct) (hbs : ∀ b ∈ bs, b.Distinct)
    (hswap : ∀ a ∈ as, ∀ b ∈ bs, ∀ o, order a b = .ok o → order b a = .ok o.swap)
    (h : orderItems as bs = .ok o) : orderItems bs as = .ok o.swap := by
  induction as generalizing bs with
  | nil => cases bs <;> cases h <;> rfl
  | cons a as ih =>
      cases bs with
      | nil => cases h; rfl
      | cons b bs =>
          obtain ⟨ha, has⟩ := List.forall_mem_cons.mp has
          obtain ⟨hb, hbs⟩ := List.forall_mem_cons.mp hbs
          rw [orderItems_cons] at h ⊢
          rw [eqv_comm hb ha]
          split at h
          case isTrue hsame =>
            rw [if_pos hsame]
            refine ih has hbs (fun a ha b hb => ?_) h
            exact hswap a (List.mem_cons_of_mem _ ha) b (List.mem_cons_of_mem _ hb)
          case isFalse hdiffer =>
            rw [if_neg hdiffer]
            exact hswap a List.mem_cons_self b List.mem_cons_self o h

theorem order_swap (ha : a.Distinct) (hb : b.Distinct) (h : order a b = .ok o) :
    order b a = .ok o.swap := by
  induction ha generalizing b o with
  | bool | int | float =>
      obtain ⟨p, q, hp, hq, rfl⟩ := (order_number_iff rfl).mp h
      rw [(compared_rounded hq hp).2, ← Std.OrientedCmp.eq_swap]
  | str s =>
      obtain ⟨t, rfl, rfl⟩ := order_str_iff.mp h
      exact order_str_iff.mpr ⟨s, rfl, Std.OrientedCmp.eq_swap⟩
  | list hitems ih =>
      obtain ⟨bs, rfl, h⟩ := order_list_iff.mp h
      cases hb with
      | list hbs =>
          exact orderItems_swap hitems hbs (fun a ha b hb _ => ih a ha (hbs b hb)) h
  | tuple hitems ih =>
      obtain ⟨bs, rfl, h⟩ := order_tuple_iff.mp h
      cases hb with
      | tuple hbs =>
          exact orderItems_swap hitems hbs (fun a ha b hb _ => ih a ha (hbs b hb)) h
  | nothing | set | dict | range =>
      exact absurd h (order_ne_ok_of_unordered rfl nofun nofun nofun)

/-! ## Equality -/

theorem orderItems_eq_iff (has : ∀ a ∈ as, ∀ b o, order a b = .ok o → (o = .eq ↔ eqv a b = true))
    (h : orderItems as bs = .ok o) : o = .eq ↔ eqvAll as bs = true := by
  induction as generalizing bs with
  | nil => cases bs <;> cases h <;> simp [eqvAll]
  | cons a as ih =>
      cases bs with
      | nil => cases h; simp [eqvAll]
      | cons b bs =>
          obtain ⟨ha, has⟩ := List.forall_mem_cons.mp has
          rw [orderItems_cons] at h
          rw [eqvAll, Bool.and_eq_true]
          split at h
          case isTrue hsame => rw [ih has h, and_iff_right hsame]
          case isFalse hdiffer => simp [ha b o h, hdiffer]

/-- Values are ordered as equal if and only if they are. -/
theorem order_eq_iff (ha : a.Distinct) (h : order a b = .ok o) : o = .eq ↔ eqv a b = true := by
  induction ha generalizing b o with
  | bool | int | float =>
      obtain ⟨p, q, hp, hq, rfl⟩ := (order_number_iff rfl).mp h
      rw [(compared_rounded hp hq).1, beq_iff_eq]
  | str s =>
      obtain ⟨t, rfl, rfl⟩ := order_str_iff.mp h
      rw [Std.LawfulEqCmp.compare_eq_iff_eq, eqv_str_iff, str.injEq, eq_comm]
  | list _ ih =>
      obtain ⟨bs, rfl, h⟩ := order_list_iff.mp h
      exact orderItems_eq_iff (fun a ha _ _ => ih a ha) h
  | tuple _ ih =>
      obtain ⟨bs, rfl, h⟩ := order_tuple_iff.mp h
      exact orderItems_eq_iff (fun a ha _ _ => ih a ha) h
  | nothing | set | dict | range =>
      exact absurd h (order_ne_ok_of_unordered rfl nofun nofun nofun)

/-! ## Congruence -/

theorem orderItems_congr_right (has : ∀ a ∈ as, a.Distinct) (hbs : ∀ b ∈ bs, b.Distinct)
    (hcongr : ∀ a ∈ as, ∀ b ∈ bs, ∀ c, eqv b c = true → order a b = .ok o → order a c = .ok o)
    (hbc : List.Forall₂ (fun b c => eqv b c = true) bs cs) (h : orderItems as bs = .ok o) :
    orderItems as cs = .ok o := by
  induction hbc generalizing as with
  | nil => exact h
  | @cons b c bs cs hbc _ ih =>
      cases as with
      | nil => cases h; rfl
      | cons a as =>
          obtain ⟨ha, has⟩ := List.forall_mem_cons.mp has
          obtain ⟨hb, hbs⟩ := List.forall_mem_cons.mp hbs
          rw [orderItems_cons] at h ⊢
          rw [← eqv_congr_right ha hb hbc]
          split at h
          case isTrue hsame =>
            rw [if_pos hsame]
            refine ih has hbs (fun a ha b hb => ?_) h
            exact hcongr a (List.mem_cons_of_mem _ ha) b (List.mem_cons_of_mem _ hb)
          case isFalse hdiffer =>
            rw [if_neg hdiffer]
            exact hcongr a List.mem_cons_self b List.mem_cons_self c hbc h

theorem order_congr_right (ha : a.Distinct) (hb : b.Distinct) (hbc : eqv b c = true)
    (h : order a b = .ok o) : order a c = .ok o := by
  induction ha generalizing b c o with
  | bool | int | float =>
      obtain ⟨p, q, hp, hq, rfl⟩ := (order_number_iff rfl).mp h
      exact (compared_rounded hp ((eqv_iff_of_rounded? hq).mp hbc)).2
  | str s =>
      obtain ⟨t, rfl, rfl⟩ := order_str_iff.mp h
      obtain rfl := eqv_str_iff.mp hbc
      exact h
  | list hitems ih =>
      obtain ⟨bs, rfl, h⟩ := order_list_iff.mp h
      obtain ⟨cs, rfl, hcs⟩ := eqv_list_iff.mp hbc
      cases hb with
      | list hbs =>
          exact orderItems_congr_right hitems hbs (fun a ha b hb _ => ih a ha (hbs b hb)) hcs h
  | tuple hitems ih =>
      obtain ⟨bs, rfl, h⟩ := order_tuple_iff.mp h
      obtain ⟨cs, rfl, hcs⟩ := eqv_tuple_iff.mp hbc
      cases hb with
      | tuple hbs =>
          exact orderItems_congr_right hitems hbs (fun a ha b hb _ => ih a ha (hbs b hb)) hcs h
  | nothing | set | dict | range =>
      exact absurd h (order_ne_ok_of_unordered rfl nofun nofun nofun)

theorem order_congr_left (ha : a.Distinct) (hb : b.Distinct) (hc : c.Distinct)
    (hab : eqv a b = true) (h : order b c = .ok o) : order a c = .ok o := by
  have hcb := order_swap hb hc h
  have hca := order_congr_right hc hb (eqv_symm ha hab) hcb
  simpa using order_swap hc ha hca

/-! ## Transitivity -/

theorem orderItems_trans (has : ∀ a ∈ as, a.Distinct) (hbs : ∀ b ∈ bs, b.Distinct)
    (hcs : ∀ c ∈ cs, c.Distinct)
    (htrans : ∀ a ∈ as, ∀ b ∈ bs, ∀ c ∈ cs, order a b = .ok .lt → order b c = .ok .lt →
      order a c = .ok .lt)
    (hab : orderItems as bs = .ok .lt) (hbc : orderItems bs cs = .ok .lt) :
    orderItems as cs = .ok .lt := by
  induction as generalizing bs cs with
  | nil =>
      cases cs with
      | nil => cases bs <;> cases hbc
      | cons => rfl
  | cons a as ih =>
      cases bs with
      | nil => cases hab
      | cons b bs =>
          cases cs with
          | nil => cases hbc
          | cons c cs =>
              obtain ⟨ha, has⟩ := List.forall_mem_cons.mp has
              obtain ⟨hb, hbs⟩ := List.forall_mem_cons.mp hbs
              obtain ⟨hc, hcs⟩ := List.forall_mem_cons.mp hcs
              rw [orderItems_cons] at hab hbc ⊢
              -- Which of the three pairs differ, and so which elements decide.
              by_cases hfirst : eqv a b = true
              · rw [if_pos hfirst] at hab
                rw [eqv_congr_left ha hb hfirst c]
                split at hbc
                case isTrue hsecond =>
                  rw [if_pos hsecond]
                  refine ih has hbs hcs (fun a ha b hb c hc => ?_) hab hbc
                  exact htrans a (List.mem_cons_of_mem _ ha) b (List.mem_cons_of_mem _ hb) c
                    (List.mem_cons_of_mem _ hc)
                case isFalse hsecond =>
                  rw [if_neg hsecond]
                  exact order_congr_left ha hb hc hfirst hbc
              · rw [if_neg hfirst] at hab
                split at hbc
                case isTrue hsecond =>
                  rw [← eqv_congr_right ha hb hsecond, if_neg hfirst]
                  exact order_congr_right ha hb hsecond hab
                case isFalse =>
                  have hac := htrans a List.mem_cons_self b List.mem_cons_self c
                    List.mem_cons_self hab hbc
                  rw [if_neg fun hsame => nomatch (order_eq_iff ha hac).mpr hsame]
                  exact hac

theorem order_trans (ha : a.Distinct) (hb : b.Distinct) (hc : c.Distinct)
    (hab : order a b = .ok .lt) (hbc : order b c = .ok .lt) : order a c = .ok .lt := by
  induction ha generalizing b c with
  | bool | int | float =>
      obtain ⟨p, q, hp, hq, hpq⟩ := (order_number_iff rfl).mp hab
      obtain ⟨r, hr, hqr⟩ := (order_rounded_iff hq).mp hbc
      exact (order_rounded_iff hp).mpr ⟨r, hr, Std.TransCmp.lt_trans hpq hqr⟩
  | str s =>
      obtain ⟨t, rfl, hst⟩ := order_str_iff.mp hab
      obtain ⟨u, rfl, htu⟩ := order_str_iff.mp hbc
      exact order_str_iff.mpr ⟨u, rfl, Std.TransCmp.lt_trans hst htu⟩
  | list hitems ih =>
      obtain ⟨bs, rfl, hab⟩ := order_list_iff.mp hab
      obtain ⟨cs, rfl, hbc⟩ := order_list_iff.mp hbc
      cases hb with
      | list hbs =>
          cases hc with
          | list hcs =>
              exact orderItems_trans hitems hbs hcs
                (fun a ha b hb c hc => ih a ha (hbs b hb) (hcs c hc)) hab hbc
  | tuple hitems ih =>
      obtain ⟨bs, rfl, hab⟩ := order_tuple_iff.mp hab
      obtain ⟨cs, rfl, hbc⟩ := order_tuple_iff.mp hbc
      cases hb with
      | tuple hbs =>
          cases hc with
          | tuple hcs =>
              exact orderItems_trans hitems hbs hcs
                (fun a ha b hb c hc => ih a ha (hbs b hb) (hcs c hc)) hab hbc
  | nothing | set | dict | range =>
      exact absurd hab (order_ne_ok_of_unordered rfl nofun nofun nofun)

/-! ## Comparisons -/

/-- All comparisons have an answer, exactly one of less, equal and greater is true, and the
other two are the alternatives with equality. -/
def Trichotomous (a b : Value) : Prop :=
  ∃ less equal greater,
    compareBy .lt a b = .ok less ∧ compareBy .eq a b = .ok equal ∧
    compareBy .gt a b = .ok greater ∧ [less, equal, greater].count true = 1 ∧
    compareBy .ltE a b = .ok (less || equal) ∧ compareBy .gtE a b = .ok (greater || equal)

theorem trichotomous_of_order (ha : a.Distinct) (h : order a b = .ok o) : Trichotomous a b := by
  have heq : eqv a b = (o == .eq) := by
    rw [Bool.eq_iff_iff, beq_iff_eq, order_eq_iff ha h]
  refine ⟨o == .lt, o == .eq, o == .gt, ?_⟩
  cases o <;> simp [compareBy, h, heq, Except.map]

/-- The order of values that expressions evaluate to, wherever it is defined, fits to their
equality, is antisymmetric and transitive. -/
theorem order_consistent :
    (∀ (switches : Switches) (e : Expr) (v : Value), e.eval switches = .ok v → v.Distinct) ∧
    (∀ (a b : Value) (o : Ordering), a.Distinct → b.Distinct → order a b = .ok o →
      order b a = .ok o.swap ∧ (o = .eq ↔ eqv a b = true) ∧ Trichotomous a b) ∧
    ∀ a b c : Value, a.Distinct → b.Distinct → c.Distinct →
      order a b = .ok .lt → order b c = .ok .lt → order a c = .ok .lt :=
  ⟨fun _ e _ h => distinct_kept.eval e h,
    fun _ _ _ ha hb h => ⟨order_swap ha hb h, order_eq_iff ha h, trichotomous_of_order ha h⟩,
    fun _ _ _ => order_trans⟩

/-- The first elements are equal although their types differ, and the tuples behind them
decide. -/
theorem order_consistent_of_mixed :
    ∃ a b c : Value,
      (Expr.list [.int 1, .tuple [.float 0.5, .str "a"]]).eval .none = .ok a ∧
      (Expr.list [.bool true, .tuple [.float 0.5, .str "b"]]).eval .none = .ok b ∧
      (Expr.list [.float 1.0, .tuple [.int 1]]).eval .none = .ok c ∧
      order a b = .ok .lt ∧ order b a = .ok .gt ∧ eqv a b = false ∧ Trichotomous a b ∧
      order b c = .ok .lt ∧ order a c = .ok .lt := by
  obtain ⟨hdistinct, hpair, htrans⟩ := order_consistent
  have ha := hdistinct .none (.list [.int 1, .tuple [.float 0.5, .str "a"]]) _ rfl
  have hb := hdistinct .none (.list [.bool true, .tuple [.float 0.5, .str "b"]]) _ rfl
  have hc := hdistinct .none (.list [.float 1.0, .tuple [.int 1]]) _ rfl
  have hab : order (.list [.int 1, .tuple [.float 0.5, .str "a"]])
      (.list [.bool true, .tuple [.float 0.5, .str "b"]]) = .ok .lt := rfl
  have hbc : order (.list [.bool true, .tuple [.float 0.5, .str "b"]])
      (.list [.float 1.0, .tuple [.int 1]]) = .ok .lt := rfl
  obtain ⟨hswap, hequal, htrichotomous⟩ := hpair _ _ _ ha hb hab
  refine ⟨_, _, _, rfl, rfl, rfl, hab, hswap, ?_, htrichotomous, hbc, htrans _ _ _ ha hb hc hab hbc⟩
  exact Bool.eq_false_iff.mpr fun h => nomatch hequal.mpr h

end Value

end IconConstraints
