import IconConstraints.Evaluation
import IconConstraints.Proofs.Outcomes

/-!
# Properties of evaluated values

Ranges come only from calls that refuse a step of zero, sets and dicts only from displays
that drop what is repeated, and every other operation hands on what it was given.  So a
property that displays and such calls give, and that a value has if and only if its parts
have it, is a property of whatever an expression evaluates to.  That every range has a step
other than zero, even deep inside of a list or a dict, is such a property.
-/

namespace IconConstraints

open Outcome

/-- What evaluation asks of a property so that all values get it. -/
structure Value.Kept (P : Value → Prop) : Prop where
  nothing : P .nothing
  bool : ∀ b, P (.bool b)
  int : ∀ n, P (.int n)
  float : ∀ x, P (.float x)
  str : ∀ s, P (.str s)
  list : ∀ {items}, P (.list items) ↔ ∀ v ∈ items, P v
  tuple : ∀ {items}, P (.tuple items) ↔ ∀ v ∈ items, P v
  set : ∀ {items}, (∀ v ∈ items, P v) → P (setOfItems items)
  of_set : ∀ {items}, P (.set items) → ∀ v ∈ items, P v
  dict : ∀ {pairs}, (∀ p ∈ pairs, P p.1 ∧ P p.2) → P (dictOfPairs pairs)
  of_dict : ∀ {pairs}, P (.dict pairs) → ∀ p ∈ pairs, P p.1 ∧ P p.2
  range : ∀ {start stop step}, step ≠ 0 → P (.range start stop step)

namespace Value

variable {P : Value → Prop} {v w key : Value} {items : List Value}
  {pairs : List (Value × Value)}

/-! ## Displays -/

theorem forall_insertPair (hkey : P key) (hv : P v) (hpairs : ∀ p ∈ pairs, P p.1 ∧ P p.2) :
    ∀ p ∈ insertPair key v pairs, P p.1 ∧ P p.2 := by
  induction pairs with
  | nil => exact List.forall_mem_singleton.mpr ⟨hkey, hv⟩
  | cons pair rest ih =>
      obtain ⟨k, w⟩ := pair
      obtain ⟨hpair, hrest⟩ := List.forall_mem_cons.mp hpairs
      unfold insertPair
      split
      case isTrue => exact List.forall_mem_cons.mpr ⟨⟨hpair.1, hv⟩, hrest⟩
      case isFalse => exact List.forall_mem_cons.mpr ⟨hpair, ih hrest⟩

theorem forall_foldl_insertPair {found : List (Value × Value)}
    (hpairs : ∀ p ∈ pairs, P p.1 ∧ P p.2) (hfound : ∀ p ∈ found, P p.1 ∧ P p.2) :
    ∀ p ∈ pairs.foldl (fun found p => insertPair p.1 p.2 found) found, P p.1 ∧ P p.2 := by
  induction pairs generalizing found with
  | nil => exact hfound
  | cons pair rest ih =>
      obtain ⟨hpair, hrest⟩ := List.forall_mem_cons.mp hpairs
      exact ih hrest (forall_insertPair hpair.1 hpair.2 hfound)

theorem forall_foldl_insertItem {found : List Value} (hitems : ∀ v ∈ items, P v)
    (hfound : ∀ v ∈ found, P v) : ∀ v ∈ items.foldl insertItem found, P v := by
  induction items generalizing found with
  | nil => exact hfound
  | cons item rest ih =>
      obtain ⟨hitem, hrest⟩ := List.forall_mem_cons.mp hitems
      refine ih hrest ?_
      unfold insertItem
      split
      case isTrue => exact hfound
      case isFalse =>
        exact List.forall_mem_append.mpr ⟨hfound, List.forall_mem_singleton.mpr hitem⟩

/-! ## Parts of a value -/

section Kept

variable (hP : Kept P)
include hP

theorem Kept.of_items (hv : P v) (h : v.items? = some items) : ∀ w ∈ items, P w := by
  cases v with
  | list => cases h; exact hP.list.mp hv
  | tuple => cases h; exact hP.tuple.mp hv
  | set => cases h; exact hP.of_set hv
  | dict =>
      cases h
      intro k hk
      obtain ⟨p, hp, rfl⟩ := List.mem_map.mp hk
      exact (hP.of_dict hv p hp).1
  | str =>
      cases h
      intro c hc
      obtain ⟨_, -, rfl⟩ := List.mem_map.mp hc
      exact hP.str _
  | range =>
      cases h
      intro n hn
      obtain ⟨_, -, rfl⟩ := List.mem_map.mp hn
      exact hP.int _
  | _ => cases h

theorem Kept.of_get (hv : P v) (h : v.get? key = some w) : P w := by
  cases v with
  | dict =>
      unfold get? at h
      obtain ⟨p, hp, rfl⟩ := Option.map_eq_some_iff.mp h
      exact (hP.of_dict hv p (List.mem_reverse.mp (List.mem_of_find?_eq_some hp))).2
  | _ => cases h

omit hP in
theorem mem_of_itemAt {index : Int} (h : itemAt? items index = some v) : v ∈ items := by
  unfold itemAt? at h
  dsimp only at h
  generalize (if index < 0 then index + items.length else index) = position at h
  split at h
  case isTrue => cases h
  case isFalse => exact List.mem_of_getElem? h

theorem Kept.subscript {index : Value} (hv : P v) (h : subscript v index = .ok w) : P w := by
  unfold Value.subscript at h
  split at h
  · split at h
    case h_1 hget => cases h; exact hP.of_get hv hget
    case h_2 => cases h
  · split at h
    case h_1 => cases h
    case h_2 hitems =>
      split at h
      case h_1 => cases h
      case h_2 =>
        split at h
        case h_2 => cases h
        case h_1 hitem =>
          cases h
          exact hP.of_items hv hitems _ (mem_of_itemAt hitem)

/-! ## Operators -/

theorem Kept.exactly {n : Int} (h : exactly n = .ok v) : P v := by
  unfold Value.exactly at h
  split at h
  case isTrue => cases h; exact hP.int _
  case isFalse => cases h

theorem Kept.intBinary {op : BinaryOp} {a b : Int64} (h : intBinary op a b = .ok v) : P v := by
  unfold Value.intBinary power at h
  dsimp only at h
  cases op <;> dsimp only at h
  all_goals repeat' split at h
  all_goals first
    | exact hP.exactly h
    | (obtain ⟨_, -, h⟩ := bind_eq_ok.mp h; exact hP.exactly h)
    | (cases h; first | exact hP.int _ | exact hP.float _)
    | cases h

theorem Kept.floatBinary {op : BinaryOp} {a b : Float} {outcome : Except EvalFault Value}
    (hop : floatBinary? op a b = some outcome) (h : outcome = .ok v) : P v := by
  subst h
  unfold floatBinary? at hop
  split at hop
  case h_8 => cases hop
  all_goals first
    | (cases hop; exact hP.float _)
    | (split at hop <;> cases hop; exact hP.float _)

theorem Kept.numericBinary {op : BinaryOp} {a b : Value} (h : numericBinary op a b = .ok v) :
    P v := by
  unfold Value.numericBinary at h
  split at h
  case h_1 => exact hP.intBinary h
  case h_2 =>
    split at h
    case h_2 => cases h
    case h_1 x y _ _ =>
      cases hop : floatBinary? op x y with
      | none => rw [hop] at h; cases h
      | some outcome =>
          rw [hop] at h
          exact hP.floatBinary hop h

theorem Kept.repeatString {s : String} {times : Int64} (h : repeatString s times = .ok v) :
    P v := by
  unfold Value.repeatString at h
  dsimp only at h
  split at h
  case isTrue => cases h
  case isFalse => cases h; exact hP.str _

theorem Kept.repeatItems {times : Int64} (hitems : ∀ v ∈ items, P v)
    (h : repeatItems items times = .ok v) : P v := by
  unfold Value.repeatItems at h
  dsimp only at h
  split at h
  case isTrue => cases h
  case isFalse =>
    cases h
    refine hP.list.mpr fun w hw => ?_
    split at hw
    case isTrue => cases hw
    case isFalse =>
      obtain ⟨_, hcopy, hw⟩ := List.mem_flatten.mp hw
      exact hitems w (List.eq_of_mem_replicate hcopy ▸ hw)

/-- Only the elements of lists and tuples are handed on. -/
theorem Kept.binary {op : BinaryOp} {a b : Value} (ha : P a) (hb : P b)
    (h : binary op a b = .ok v) : P v := by
  unfold Value.binary at h
  split at h
  case h_1 => cases h; exact hP.str _
  case h_2 =>
    cases h
    exact hP.list.mpr (List.forall_mem_append.mpr ⟨hP.list.mp ha, hP.list.mp hb⟩)
  case h_3 =>
    cases h
    exact hP.tuple.mpr (List.forall_mem_append.mpr ⟨hP.tuple.mp ha, hP.tuple.mp hb⟩)
  case h_8 => exact hP.numericBinary h
  all_goals split at h
  all_goals first
    | cases h
    | exact hP.repeatString h
    | exact hP.repeatItems (hP.list.mp ha) h
    | exact hP.repeatItems (hP.list.mp hb) h

theorem Kept.unary {op : UnaryOp} {a : Value} (h : unary op a = .ok v) : P v := by
  unfold Value.unary at h
  split at h
  case h_1 => cases h; exact hP.bool _
  case h_2 => cases h; exact hP.float _
  case h_3 => cases h; exact hP.float _
  case h_4 =>
    split at h
    case h_1 => cases h
    case h_2 =>
      split at h
      case h_1 => exact hP.exactly h
      all_goals cases h; exact hP.int _

/-! ## Expressions -/

variable {switches : Switches}

theorem Kept.boundedRange {start stop step : Int64} (h : boundedRange start stop step = .ok v) :
    P v := by
  unfold IconConstraints.boundedRange at h
  split at h
  case isTrue => cases h
  case isFalse hstep =>
    split at h
    case isTrue => cases h
    case isFalse => cases h; exact hP.range hstep

theorem Kept.makeRange {bounds : List Int64} (h : makeRange bounds = .ok v) : P v := by
  unfold IconConstraints.makeRange at h
  split at h
  case h_4 => cases h
  all_goals exact hP.boundedRange h

theorem Kept.evalName {n : String} (h : evalName switches n = .ok v) : P v := by
  unfold IconConstraints.evalName at h
  split at h
  case h_1 => cases h; exact hP.bool _
  case h_2 => cases h

theorem Kept.evalAttribute {e : Expr} (h : evalAttribute switches e = .ok v) : P v := by
  unfold IconConstraints.evalAttribute at h
  repeat' split at h
  all_goals cases h
  exact hP.bool _

omit hP in
theorem evalComparisons_bool (rest : List (CompareOp × Expr)) {left v : Value}
    (h : evalComparisons switches left rest = .ok v) : ∃ b, v = .bool b := by
  induction rest generalizing left with
  | nil => cases h; exact ⟨true, rfl⟩
  | cons comparison rest ih =>
      obtain ⟨op, operand⟩ := comparison
      obtain ⟨right, -, h⟩ := bind_eq_ok.mp h
      obtain ⟨holds, -, h⟩ := bind_eq_ok.mp h
      split at h
      case isTrue => exact ih h
      case isFalse => cases h; exact ⟨false, rfl⟩

end Kept

-- One theorem for each function of the evaluator that returns values, by its recursion.
mutual

theorem Kept.eval (hP : Kept P) :
    (e : Expr) → {v : Value} → e.eval switches = .ok v → P v
  | .name _, _, h => hP.evalName h
  | .int _, _, h => by cases h; exact hP.int _
  | .float _, _, h => by cases h; exact hP.float _
  | .str _, _, h => by cases h; exact hP.str _
  | .bool _, _, h => by cases h; exact hP.bool _
  | .nothing, _, h => by cases h; exact hP.nothing
  | .ellipsis, _, h => by cases h
  | .list items, v, h => by
      obtain ⟨vs, hvs, rfl⟩ := map_eq_ok.mp h
      exact hP.list.mpr (hP.evalItems items hvs)
  | .tuple items, v, h => by
      obtain ⟨vs, hvs, rfl⟩ := map_eq_ok.mp h
      exact hP.tuple.mpr (hP.evalItems items hvs)
  | .set items, v, h => by
      obtain ⟨vs, hvs, rfl⟩ := map_eq_ok.mp h
      exact hP.set (hP.evalItems items hvs)
  | .dict items, v, h => by
      obtain ⟨pairs, hpairs, rfl⟩ := map_eq_ok.mp h
      exact hP.dict (hP.evalPairs items hpairs)
  | .unary op operand, v, h => by
      obtain ⟨a, -, h⟩ := bind_eq_ok.mp h
      exact hP.unary h
  | .binary op left right, v, h => by
      obtain ⟨a, ha, h⟩ := bind_eq_ok.mp h
      obtain ⟨b, hb, h⟩ := bind_eq_ok.mp h
      exact hP.binary (hP.eval left ha) (hP.eval right hb) h
  | .chain op operands, v, h => hP.evalChain operands .nothing h hP.nothing
  | .compare left rest, v, h => by
      obtain ⟨a, -, h⟩ := bind_eq_ok.mp h
      obtain ⟨b, rfl⟩ := evalComparisons_bool rest h
      exact hP.bool b
  | .conditional body test orelse, v, h => by
      obtain ⟨t, -, h⟩ := bind_eq_ok.mp h
      split at h
      case isTrue => exact hP.eval body h
      case isFalse => exact hP.eval orelse h
  | .attribute base n, _, h => hP.evalAttribute h
  | .call callee arguments, v, h => by
      unfold Expr.eval at h
      split at h
      case h_1 =>
        obtain ⟨bounds, -, h⟩ := bind_eq_ok.mp h
        exact hP.makeRange h
      case h_2 => cases h
  | .subscript base index, v, h => by
      obtain ⟨b, hb, h⟩ := bind_eq_ok.mp h
      obtain ⟨i, -, h⟩ := bind_eq_ok.mp h
      exact hP.subscript (hP.eval base hb) h

theorem Kept.evalItems (hP : Kept P) :
    (items : List Expr) → {vs : List Value} → evalItems switches items = .ok vs → ∀ v ∈ vs, P v
  | [], _, h => by cases h; exact List.forall_mem_nil _
  | item :: rest, vs, h => by
      obtain ⟨v, hv, h⟩ := bind_eq_ok.mp h
      obtain ⟨later, hlater, h⟩ := bind_eq_ok.mp h
      cases h
      exact List.forall_mem_cons.mpr ⟨hP.eval item hv, hP.evalItems rest hlater⟩

theorem Kept.evalPair (hP : Kept P) :
    (item : DictItem) → {pairs : List (Value × Value)} → evalPair switches item = .ok pairs →
      ∀ p ∈ pairs, P p.1 ∧ P p.2
  | .pair key value, pairs, h => by
      obtain ⟨k, hk, h⟩ := bind_eq_ok.mp h
      obtain ⟨v, hv, h⟩ := bind_eq_ok.mp h
      cases h
      exact List.forall_mem_singleton.mpr ⟨hP.eval key hk, hP.eval value hv⟩
  | .unpack mapping, pairs, h => by
      obtain ⟨v, hv, h⟩ := bind_eq_ok.mp h
      split at h
      case h_1 =>
        cases h
        exact hP.of_dict (hP.eval mapping hv)
      case h_2 => cases h

theorem Kept.evalPairs (hP : Kept P) :
    (items : List DictItem) → {pairs : List (Value × Value)} →
      evalPairs switches items = .ok pairs → ∀ p ∈ pairs, P p.1 ∧ P p.2
  | [], _, h => by cases h; exact List.forall_mem_nil _
  | item :: rest, pairs, h => by
      obtain ⟨here, hhere, h⟩ := bind_eq_ok.mp h
      obtain ⟨later, hlater, h⟩ := bind_eq_ok.mp h
      cases h
      exact List.forall_mem_append.mpr ⟨hP.evalPair item hhere, hP.evalPairs rest hlater⟩

theorem Kept.evalChain (hP : Kept P) {op : Connective} :
    (operands : List Expr) → (last : Value) → {v : Value} →
      evalChain switches op last operands = .ok v → P last → P v
  | [], _, _, h => by cases h; exact id
  | operand :: rest, last, v, h => by
      obtain ⟨w, hw, h⟩ := bind_eq_ok.mp h
      have hoperand := hP.eval operand hw
      split at h
      case isTrue => cases h; exact fun _ => hoperand
      case isFalse => exact fun _ => hP.evalChain rest w h hoperand

end

/-! ## Steps of ranges -/

/-- Every range in the value has a step other than zero. -/
inductive Stepped : Value → Prop
  | nothing : Stepped .nothing
  | bool (b : Bool) : Stepped (.bool b)
  | int (n : Int64) : Stepped (.int n)
  | float (x : Float) : Stepped (.float x)
  | str (s : String) : Stepped (.str s)
  | list {items : List Value} : (∀ v ∈ items, Stepped v) → Stepped (.list items)
  | tuple {items : List Value} : (∀ v ∈ items, Stepped v) → Stepped (.tuple items)
  | set {items : List Value} : (∀ v ∈ items, Stepped v) → Stepped (.set items)
  | dict {pairs : List (Value × Value)} :
      (∀ p ∈ pairs, Stepped p.1) → (∀ p ∈ pairs, Stepped p.2) → Stepped (.dict pairs)
  | range {start stop step : Int64} : step ≠ 0 → Stepped (.range start stop step)

theorem stepped_kept : Kept Stepped where
  nothing := .nothing
  bool := .bool
  int := .int
  float := .float
  str := .str
  list := ⟨fun h => by cases h with | list hitems => exact hitems, .list⟩
  tuple := ⟨fun h => by cases h with | tuple hitems => exact hitems, .tuple⟩
  set h := .set (forall_foldl_insertItem h (List.forall_mem_nil _))
  of_set h := by cases h with | set hitems => exact hitems
  dict h := by
    have hall := forall_foldl_insertPair h (List.forall_mem_nil _)
    exact .dict (fun p hp => (hall p hp).1) fun p hp => (hall p hp).2
  of_dict h := by
    cases h with | dict hkeys hvalues => exact fun p hp => ⟨hkeys p hp, hvalues p hp⟩
  range := .range

end Value

theorem Expr.eval_stepped {switches : Switches} (e : Expr) {v : Value}
    (h : e.eval switches = .ok v) : v.Stepped :=
  Value.stepped_kept.eval e h

end IconConstraints
