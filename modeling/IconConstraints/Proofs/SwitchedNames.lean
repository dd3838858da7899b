import IconConstraints.Evaluation
import IconConstraints.Proofs.ExpressionReading

/-!
# Names that evaluation looks up

An expression is evaluated with a table of switches, but it asks the table only for the
names that it contains.  These names are tokens of the text that it was read from, so two
tables that agree on the tokens give the same value or the same error.
-/

namespace IconConstraints

open Source Grammar

/-! ## Names of expressions -/

namespace Expr

/-- The name at the top of an expression, also that of an attribute. -/
def ownName? : Expr → Option String
  | .name n | .attribute _ n => some n
  | _ => none

inductive NamesIn (N : String → Prop) : Expr → Prop
  | of {e : Expr} : (∀ n, e.ownName? = some n → N n) → (∀ x ∈ e.parts, x.NamesIn N) → e.NamesIn N

variable {N N' : String → Prop} {e : Expr}

theorem NamesIn.of_parts (hown : e.ownName? = none) (hparts : ∀ x ∈ e.parts, x.NamesIn N) :
    e.NamesIn N := by
  refine .of (fun n hn => ?_) hparts
  rw [hown] at hn
  cases hn

theorem NamesIn.mono (h : e.NamesIn N) (hN : ∀ n, N n → N' n) : e.NamesIn N' := by
  induction h with
  | of hown _ ih => exact .of (fun n hn => hN n (hown n hn)) ih

theorem NamesIn.own (h : e.NamesIn N) {n : String} (hn : e.ownName? = some n) : N n := by
  cases h with
  | of hown _ => exact hown n hn

theorem NamesIn.parts (h : e.NamesIn N) : ∀ x ∈ e.parts, x.NamesIn N := by
  cases h with
  | of _ hparts => exact hparts

end Expr

def Source.Occurs (ts : List Token) (n : String) : Prop :=
  ∃ t ∈ ts, t.kind = .name n

theorem Source.Occurs.mono {ts us : List Token} {n : String} (h : Occurs us n) (hsub : us ⊆ ts) :
    Occurs ts n := by
  obtain ⟨t, ht, hkind⟩ := h
  exact ⟨t, hsub ht, hkind⟩

/-! ## Names of renderings -/

namespace Grammar

variable {ts us : List Token} {l : Level} {e x : Expr}

abbrev NamedPart : Level → List Token → Expr → Prop :=
  RendersAnd fun _ ts e => e.NamesIn (Occurs ts)

theorem namesIn_of_part (h : NamedPart l us x) (hsub : us ⊆ ts) : x.NamesIn (Occurs ts) :=
  h.2.mono fun _ hn => hn.mono hsub

theorem namesIn_of_exists (h : ∃ vs ⊆ us, NamedPart l vs x) (hsub : us ⊆ ts) :
    x.NamesIn (Occurs ts) := by
  obtain ⟨vs, hvs, hpart⟩ := h
  exact namesIn_of_part hpart (List.Subset.trans hvs hsub)

theorem namesIn_items {items : List Expr} {comma : Bool}
    (h : Listed (NamedPart .conditional) us items comma) (hsub : us ⊆ ts) :
    ∀ x ∈ items, x.NamesIn (Occurs ts) :=
  fun x hx => namesIn_of_exists (h.item x hx) hsub

theorem namesIn_arguments {arguments : List Argument} {comma : Bool}
    (h : Listed (ArgumentForm NamedPart) us arguments comma) (hsub : us ⊆ ts) :
    ∀ x ∈ arguments.map Argument.value, x.NamesIn (Occurs ts) := by
  intro x hx
  obtain ⟨a, ha, rfl⟩ := List.mem_map.mp hx
  obtain ⟨vs, hvs, hform⟩ := h.item a ha
  have hall : vs ⊆ ts := List.Subset.trans hvs hsub
  cases hform with
  | positional he => exact namesIn_of_part he hall
  | keyword he => exact namesIn_of_part he (by grind)

theorem namesIn_entries {items : List DictItem} {comma : Bool}
    (h : Listed (EntryForm NamedPart) us items comma) (hsub : us ⊆ ts) :
    ∀ x ∈ items.flatMap DictItem.parts, x.NamesIn (Occurs ts) := by
  intro x hx
  obtain ⟨item, hitem, hpart⟩ := List.mem_flatMap.mp hx
  obtain ⟨vs, hvs, hform⟩ := h.item item hitem
  have hall : vs ⊆ ts := List.Subset.trans hvs hsub
  cases hform with
  | pair hkey hvalue =>
      obtain rfl | rfl : x = _ ∨ x = _ := by simpa [DictItem.parts] using hpart
      · exact namesIn_of_part hkey (by grind)
      · exact namesIn_of_part hvalue (by grind)
  | unpack hmapping =>
      obtain rfl : x = _ := by simpa [DictItem.parts] using hpart
      exact namesIn_of_part hmapping (by grind)

theorem namesIn_hereditary : Hereditary fun _ ts e => e.NamesIn (Occurs ts) := by
  intro l ts e h
  -- The tokens of a part are among those of the whole; only names and members add one of their own.
  cases h with
  | tighter _ h => exact h.2
  | group h => exact namesIn_of_part h (by simp)
  | bare h => exact .of_parts rfl (namesIn_items h (List.Subset.refl _))
  | conditional hb ht ho =>
      refine .of_parts rfl ?_
      simp only [Expr.parts, List.forall_mem_cons]
      exact ⟨namesIn_of_part hb (by simp), namesIn_of_part ht (by grind),
        namesIn_of_part ho (by grind), List.forall_mem_nil _⟩
  | or h hs | and h hs =>
      refine .of_parts rfl (List.forall_mem_cons.mpr ⟨namesIn_of_part h (by simp), fun x hx => ?_⟩)
      exact namesIn_of_exists (hs.item x hx) (by simp)
  | not h | sign _ h =>
      exact .of_parts rfl (List.forall_mem_singleton.mpr (namesIn_of_part h (by simp)))
  | compare h hs =>
      refine .of_parts rfl (List.forall_mem_cons.mpr ⟨namesIn_of_part h (by simp), fun x hx => ?_⟩)
      exact namesIn_of_exists (hs.item x hx) (by simp)
  | binary _ hl hr | power hl hr | subscript hl hr =>
      refine .of_parts rfl ?_
      simp only [Expr.parts, List.forall_mem_cons]
      exact ⟨namesIn_of_part hl (by simp), namesIn_of_part hr (by grind), List.forall_mem_nil _⟩
  | @member ts base w n m h =>
      refine .of ?_ (List.forall_mem_singleton.mpr (namesIn_of_part h (by simp)))
      rintro _ ⟨rfl⟩
      exact ⟨⟨.name w, m⟩, by simp, rfl⟩
  | call h hs =>
      refine .of_parts rfl (List.forall_mem_cons.mpr ⟨namesIn_of_part h (by simp), ?_⟩)
      exact namesIn_arguments hs (by grind)
  | @name w n _ =>
      refine .of ?_ (List.forall_mem_nil _)
      rintro _ ⟨rfl⟩
      exact ⟨⟨.name w, n⟩, by simp, rfl⟩
  | int | float | true | false | nothing | ellipsis | str =>
      exact .of_parts rfl (List.forall_mem_nil _)
  | tuple h | list h => exact .of_parts rfl (namesIn_items h (by simp))
  | set h => exact .of_parts rfl (namesIn_items h (by simp))
  | dict h => exact .of_parts rfl (namesIn_entries h (by simp))

end Grammar

theorem Expr.namesIn_of_ofTokens {ts : List Token} {e : Expr} (h : Expr.ofTokens ts = .ok e) :
    e.NamesIn (Occurs ts) :=
  (renders_of_ofTokens h).induction namesIn_hereditary

/-! ## Tables that agree -/

/-- The tables give the same answers for the names with the property. -/
structure Switches.AgreeOn (a b : Switches) (N : String → Prop) : Prop where
  arg : ∀ n, N n → a.arg? n = b.arg? n
  global : ∀ n, N n → a.global? n = b.global? n

theorem Switches.agreeOn_withArg (a : Switches) {N : String → Prop} {name : String} (value : Bool)
    (hname : ¬ N name) : a.AgreeOn (a.withArg name value) N where
  arg n hn := by
    have hne : (n == name) = false := beq_false_of_ne fun h => hname (h ▸ hn)
    simp only [Switches.arg?, Switches.withArg, List.lookup_cons, hne]
  global _ _ := rfl

theorem afterLastDot_unique {before before' cs cs' : List Char} (hcs : '.' ∉ cs)
    (hcs' : '.' ∉ cs') (h : before ++ '.' :: cs = before' ++ '.' :: cs') : cs = cs' := by
  rcases List.append_eq_append_iff.mp h with ⟨between, -, hrest⟩ | ⟨between, -, hrest⟩
  · cases between with
    | nil => simpa using hrest
    | cons c between =>
        obtain ⟨-, rfl⟩ := List.cons.inj hrest
        simp at hcs
  · cases between with
    | nil => simpa using hrest.symm
    | cons c between =>
        obtain ⟨-, rfl⟩ := List.cons.inj hrest
        simp at hcs'

theorem switchName?_eq_some {path n name : String} (hn : '.' ∉ n.toList)
    (h : switchName? (path ++ "." ++ n) = some name) : name = n := by
  unfold switchName? at h
  dsimp only at h
  split at h
  case isFalse => cases h
  case isTrue hprefix =>
    split at h
    case isTrue => cases h
    case isFalse hdot =>
      obtain ⟨rest, hrest⟩ := List.isPrefixOf_iff_prefix.mp hprefix
      rw [← hrest, List.drop_left] at h hdot
      -- The path is split at its last dot in two ways.
      have hsame : "self.args".toList ++ '.' :: rest = path.toList ++ '.' :: n.toList := by
        simpa using hrest
      have hlast := afterLastDot_unique (by simpa using hdot) hn hsame
      rw [← Option.some.inj h, hlast, String.ofList_toList]

/-- Evaluation of the name, and of it as an attribute, does not tell the tables apart. -/
structure LookupsAgree (a b : Switches) (n : String) : Prop where
  name : evalName a n = evalName b n
  path : ∀ base, evalAttribute a (.attribute base n) = evalAttribute b (.attribute base n)

section Evaluation

variable {a b : Switches} {N : String → Prop}

theorem Switches.AgreeOn.lookups (h : a.AgreeOn b N) {n : String} (hn : N n)
    (hdot : '.' ∉ n.toList) : LookupsAgree a b n where
  name := by
    unfold evalName
    rw [h.global n hn]
  path base := by
    unfold evalAttribute
    cases hpath : (Expr.attribute base n).dottedPath? with
    | none => rfl
    | some path =>
        obtain ⟨before, -, rfl⟩ := Option.map_eq_some_iff.mp hpath
        dsimp only
        cases hname : switchName? (before ++ "." ++ n) with
        | none => rfl
        | some name =>
            obtain rfl := switchName?_eq_some hdot hname
            dsimp only
            rw [h.arg name hn]

-- One theorem for each function of the evaluator, by its recursion.
mutual

theorem Expr.eval_agree : (e : Expr) → e.NamesIn (LookupsAgree a b) → e.eval a = e.eval b
  | .name _, h => (h.own rfl).name
  | .attribute base _, h => (h.own rfl).path base
  | .int _, _ | .float _, _ | .str _, _ | .bool _, _ | .nothing, _ | .ellipsis, _ => rfl
  | .list items, h | .tuple items, h | .set items, h => by
      simp only [Expr.eval, evalItems_agree items h.parts]
  | .dict items, h => by simp only [Expr.eval, evalPairs_agree items h.parts]
  | .unary op operand, h => by
      simp only [Expr.eval, Expr.eval_agree operand (h.parts _ (by simp [Expr.parts]))]
  | .binary op left right, h => by
      simp only [Expr.eval, Expr.eval_agree left (h.parts _ (by simp [Expr.parts])),
        Expr.eval_agree right (h.parts _ (by simp [Expr.parts]))]
  | .chain op operands, h => by simp only [Expr.eval, evalChain_agree op operands _ h.parts]
  | .compare left rest, h => by
      have hrest : ∀ x ∈ rest.map Prod.snd, x.NamesIn (LookupsAgree a b) :=
        fun x hx => h.parts x (List.mem_cons_of_mem left hx)
      simp only [Expr.eval, Expr.eval_agree left (h.parts _ (by simp [Expr.parts])),
        evalComparisons_agree rest _ hrest]
  | .conditional body test orelse, h => by
      simp only [Expr.eval, Expr.eval_agree body (h.parts _ (by simp [Expr.parts])),
        Expr.eval_agree test (h.parts _ (by simp [Expr.parts])),
        Expr.eval_agree orelse (h.parts _ (by simp [Expr.parts]))]
  | .call callee arguments, h => by
      have harguments : ∀ x ∈ arguments.map Argument.value, x.NamesIn (LookupsAgree a b) :=
        fun x hx => h.parts x (List.mem_cons_of_mem callee hx)
      simp only [Expr.eval, evalBounds_agree arguments harguments]
  | .subscript base index, h => by
      simp only [Expr.eval, Expr.eval_agree base (h.parts _ (by simp [Expr.parts])),
        Expr.eval_agree index (h.parts _ (by simp [Expr.parts]))]

theorem evalItems_agree : (items : List Expr) → (∀ x ∈ items, x.NamesIn (LookupsAgree a b)) →
    evalItems a items = evalItems b items
  | [], _ => rfl
  | item :: rest, h => by
      obtain ⟨hitem, hrest⟩ := List.forall_mem_cons.mp h
      simp only [evalItems, Expr.eval_agree item hitem, evalItems_agree rest hrest]

theorem evalPair_agree : (item : DictItem) → (∀ x ∈ item.parts, x.NamesIn (LookupsAgree a b)) →
    evalPair a item = evalPair b item
  | .pair key value, h => by
      simp only [evalPair, Expr.eval_agree key (h _ (by simp [DictItem.parts])),
        Expr.eval_agree value (h _ (by simp [DictItem.parts]))]
  | .unpack mapping, h => by
      simp only [evalPair, Expr.eval_agree mapping (h _ (by simp [DictItem.parts]))]

theorem evalPairs_agree : (items : List DictItem) →
    (∀ x ∈ items.flatMap DictItem.parts, x.NamesIn (LookupsAgree a b)) →
    evalPairs a items = evalPairs b items
  | [], _ => rfl
  | item :: rest, h => by
      obtain ⟨hitem, hrest⟩ := List.forall_mem_append.mp h
      simp only [evalPairs, evalPair_agree item hitem, evalPairs_agree rest hrest]

theorem evalChain_agree (op : Connective) : (operands : List Expr) → (last : Value) →
    (∀ x ∈ operands, x.NamesIn (LookupsAgree a b)) →
    evalChain a op last operands = evalChain b op last operands
  | [], _, _ => rfl
  | operand :: rest, last, h => by
      obtain ⟨hoperand, hrest⟩ := List.forall_mem_cons.mp h
      simp only [evalChain, Expr.eval_agree operand hoperand,
        fun v => evalChain_agree op rest v hrest]

theorem evalComparisons_agree : (rest : List (CompareOp × Expr)) → (left : Value) →
    (∀ x ∈ rest.map Prod.snd, x.NamesIn (LookupsAgree a b)) →
    evalComparisons a left rest = evalComparisons b left rest
  | [], _, _ => rfl
  | (op, operand) :: rest, left, h => by
      obtain ⟨hoperand, hrest⟩ := List.forall_mem_cons.mp h
      simp only [evalComparisons, Expr.eval_agree operand hoperand,
        fun v => evalComparisons_agree rest v hrest]

theorem evalBound_agree : (argument : Argument) → argument.value.NamesIn (LookupsAgree a b) →
    evalBound a argument = evalBound b argument
  | .positional value, h => by simp only [evalBound, Expr.eval_agree value h]
  | .keyword _ _, _ => rfl

theorem evalBounds_agree : (arguments : List Argument) →
    (∀ x ∈ arguments.map Argument.value, x.NamesIn (LookupsAgree a b)) →
    evalBounds a arguments = evalBounds b arguments
  | [], _ => rfl
  | argument :: rest, h => by
      obtain ⟨hargument, hrest⟩ := List.forall_mem_cons.mp h
      simp only [evalBounds, evalBound_agree argument hargument, evalBounds_agree rest hrest]

end

end Evaluation

end IconConstraints
