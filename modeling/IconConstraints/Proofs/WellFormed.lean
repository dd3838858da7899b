import IconConstraints.Proofs.Grammar

/-!
# Which expressions can be written

The trees of expressions have more values than the language: a name that is a
reserved word, a chain of one operand, a comparison with nothing, an empty set.
The other trees are the well-formed ones, and each of them has a rendering, with
brackets around every part.
-/

namespace IconConstraints

open Source Grammar

def DictItem.parts : DictItem → List Expr
  | .pair key value => [key, value]
  | .unpack mapping => [mapping]

def Argument.value : Argument → Expr
  | .positional value => value
  | .keyword _ value => value

namespace Expr

/-- The expressions directly inside an expression. -/
def parts : Expr → List Expr
  | .list items | .tuple items | .set items | .chain _ items => items
  | .dict items => items.flatMap DictItem.parts
  | .unary _ operand => [operand]
  | .binary _ left right => [left, right]
  | .compare left rest => left :: rest.map Prod.snd
  | .conditional body test orelse => [body, test, orelse]
  | .attribute base _ => [base]
  | .call callee arguments => callee :: arguments.map Argument.value
  | .subscript base index => [base, index]
  | .name _ | .int _ | .float _ | .str _ | .bool _ | .nothing | .ellipsis => []

/-- Whether an expression is of a shape that can be written, its parts apart. -/
def Shaped : Expr → Prop
  | .name w => Nameable w
  | .set items => items ≠ []
  | .chain _ operands => 2 ≤ operands.length
  | .compare _ rest => rest ≠ []
  | _ => True

inductive WellFormed : Expr → Prop
  | of {e : Expr} : e.Shaped → (∀ x ∈ e.parts, x.WellFormed) → e.WellFormed

end Expr

namespace Grammar

/-! ## Renderings are of well-formed expressions -/

variable {α : Type} {ts : List Token} {M : Level → List Token → Expr → Prop}

theorem Listed.item {Item : List Token → α → Prop} {xs : List α} {comma : Bool}
    (h : Listed Item ts xs comma) : ∀ x ∈ xs, ∃ us ⊆ ts, Item us x := by
  induction h with
  | none => simp
  | last hx => simpa using ⟨_, List.Subset.refl _, hx⟩
  | more hx _ ih =>
      refine List.forall_mem_cons.mpr ⟨⟨_, by simp, hx⟩, fun x hx => ?_⟩
      obtain ⟨us, hus, hitem⟩ := ih x hx
      exact ⟨us, List.Subset.trans hus (by simp), hitem⟩

theorem Operands.item {op : Connective} {es : List Expr} (h : Operands M op ts es) :
    ∀ x ∈ es, ∃ us ⊆ ts, M (connectiveOperand op) us x := by
  induction h with
  | none => simp
  | more he _ ih =>
      refine List.forall_mem_cons.mpr ⟨⟨_, by simp, he⟩, fun x hx => ?_⟩
      obtain ⟨us, hus, hitem⟩ := ih x hx
      exact ⟨us, List.Subset.trans hus (by simp), hitem⟩

theorem Comparands.item {es : List (CompareOp × Expr)} (h : Comparands M ts es) :
    ∀ x ∈ es.map Prod.snd, ∃ us ⊆ ts, M (.tier .bitOr) us x := by
  induction h with
  | none => simp
  | more _ he _ ih =>
      rw [List.map_cons, List.forall_mem_cons]
      refine ⟨⟨_, by simp, he⟩, fun x hx => ?_⟩
      obtain ⟨us, hus, hitem⟩ := ih x hx
      exact ⟨us, List.Subset.trans hus (by simp), hitem⟩

abbrev WellFormedPart : Level → List Token → Expr → Prop :=
  RendersAnd fun _ _ e => e.WellFormed

theorem wellFormed_of_exists {l : Level} {x : Expr} (h : ∃ us ⊆ ts, WellFormedPart l us x) :
    x.WellFormed := by
  obtain ⟨us, -, -, hx⟩ := h
  exact hx

theorem wellFormed_items {items : List Expr} {comma : Bool}
    (h : Listed (WellFormedPart .conditional) ts items comma) : ∀ x ∈ items, x.WellFormed :=
  fun x hx => wellFormed_of_exists (h.item x hx)

theorem wellFormed_arguments {arguments : List Argument} {comma : Bool}
    (h : Listed (ArgumentForm WellFormedPart) ts arguments comma) :
    ∀ x ∈ arguments.map Argument.value, x.WellFormed := by
  intro x hx
  obtain ⟨a, ha, rfl⟩ := List.mem_map.mp hx
  obtain ⟨us, -, hform⟩ := h.item a ha
  cases hform with
  | positional he | keyword he => exact he.2

theorem wellFormed_entries {items : List DictItem} {comma : Bool}
    (h : Listed (EntryForm WellFormedPart) ts items comma) :
    ∀ x ∈ items.flatMap DictItem.parts, x.WellFormed := by
  intro x hx
  obtain ⟨item, hitem, hpart⟩ := List.mem_flatMap.mp hx
  obtain ⟨us, -, hform⟩ := h.item item hitem
  cases hform with
  | pair hkey hvalue =>
      obtain rfl | rfl : x = _ ∨ x = _ := by simpa [DictItem.parts] using hpart
      · exact hkey.2
      · exact hvalue.2
  | unpack hmapping =>
      obtain rfl : x = _ := by simpa [DictItem.parts] using hpart
      exact hmapping.2

theorem wellFormed_chain {op : Connective} {first second : Expr} {more : List Expr}
    (hfirst : first.WellFormed) (h : Operands WellFormedPart op ts (second :: more)) :
    (Expr.chain op (first :: second :: more)).WellFormed := by
  refine .of (by simp [Expr.Shaped]) (List.forall_mem_cons.mpr ⟨hfirst, fun x hx => ?_⟩)
  exact wellFormed_of_exists (h.item x hx)

theorem wellFormed_hereditary : Hereditary fun _ _ e => e.WellFormed := by
  intro l ts e h
  cases h with
  | tighter _ h | group h => exact h.2
  | bare h | tuple h | list h => exact .of trivial (wellFormed_items h)
  | conditional hb ht ho => exact .of trivial (by simpa [Expr.parts] using ⟨hb.2, ht.2, ho.2⟩)
  | or h hs => exact wellFormed_chain h.2 hs
  | and h hs => exact wellFormed_chain h.2 hs
  | not h | sign _ h | member h => exact .of trivial (by simpa [Expr.parts] using h.2)
  | compare h hs =>
      refine .of (by simp [Expr.Shaped]) (List.forall_mem_cons.mpr ⟨h.2, fun x hx => ?_⟩)
      exact wellFormed_of_exists (hs.item x hx)
  | binary _ hl hr | power hl hr | subscript hl hr =>
      exact .of trivial (by simpa [Expr.parts] using ⟨hl.2, hr.2⟩)
  | call h hs =>
      exact .of trivial (List.forall_mem_cons.mpr ⟨h.2, wellFormed_arguments hs⟩)
  | int | float | true | false | nothing | ellipsis | str => exact .of trivial (by nofun)
  | name h => exact .of h (by nofun)
  | set h => exact .of (by simp [Expr.Shaped]) (wellFormed_items h)
  | dict h => exact .of trivial (wellFormed_entries h)

theorem Renders.wellFormed {l : Level} {e : Expr} (h : Renders l ts e) : e.WellFormed :=
  h.induction wellFormed_hereditary

/-! ## Well-formed expressions have renderings -/

/-- The expression has a rendering that can stand anywhere. -/
def Written (e : Expr) : Prop :=
  ∃ ts, Renders .atom ts e

theorem Written.at {e : Expr} (h : Written e) (l : Level) : ∃ ts, Renders l ts e := by
  obtain ⟨ts, h⟩ := h
  exact ⟨ts, h.loosen l.height_pos⟩

theorem Written.group {l : Level} {e : Expr} (h : Production Renders l ts e)
    (hl : l.height ≤ Level.conditional.height) : Written e :=
  ⟨⟨.op .openParen, 0⟩ :: (ts ++ [⟨.op .closeParen, 0⟩]), .of (.group ((Renders.of h).loosen hl))⟩

theorem Listed.exists {Item : List Token → α → Prop} {xs : List α}
    (h : ∀ x ∈ xs, ∃ ts, Item ts x) :
    ∃ ts comma, Listed Item ts xs comma ∧ (comma = true ∨ xs = []) := by
  induction xs with
  | nil => exact ⟨[], false, .none, .inr rfl⟩
  | cons x xs ih =>
      obtain ⟨⟨ts, hx⟩, hxs⟩ := List.forall_mem_cons.mp h
      obtain ⟨rest, comma, hrest, -⟩ := ih hxs
      exact ⟨ts ++ ⟨.op .comma, 0⟩ :: rest, true, .more hx hrest, .inl rfl⟩

theorem Operands.exists (op : Connective) {es : List Expr} (h : ∀ x ∈ es, Written x) :
    ∃ ts, Operands Renders op ts es := by
  induction es with
  | nil => exact ⟨[], .none⟩
  | cons e es ih =>
      obtain ⟨he, hes⟩ := List.forall_mem_cons.mp h
      obtain ⟨ts, hts⟩ := he.at (connectiveOperand op)
      obtain ⟨rest, hrest⟩ := ih hes
      exact ⟨⟨.name (word op), 0⟩ :: (ts ++ rest), .more hts hrest⟩

theorem Comparands.exists {es : List (CompareOp × Expr)}
    (h : ∀ x ∈ es.map Prod.snd, Written x) : ∃ ts, Comparands Renders ts es := by
  induction es with
  | nil => exact ⟨[], .none⟩
  | cons pair es ih =>
      obtain ⟨op, e⟩ := pair
      rw [List.map_cons, List.forall_mem_cons] at h
      obtain ⟨ts, hts⟩ := h.1.at (.tier .bitOr)
      obtain ⟨rest, hrest⟩ := ih h.2
      have hws : ((comparisonWords op).map (Token.mk · 0)).map Token.kind = comparisonWords op := by
        rw [List.map_map]
        exact List.map_id _
      exact ⟨(comparisonWords op).map (Token.mk · 0) ++ (ts ++ rest), .more hws hts hrest⟩

theorem written_unary {op : UnaryOp} {operand : Expr} (h : Written operand) :
    Written (.unary op operand) := by
  cases hop : prefixSign op with
  | some o =>
      obtain ⟨ts, hts⟩ := h.at .signed
      exact .group (.sign (n := 0) hop hts) (by decide)
  | none =>
      obtain ⟨ts, hts⟩ := h.at .negation
      cases op with
      | not => exact .group (.not (n := 0) hts) (by decide)
      | _ => cases hop

theorem written_binary {op : BinaryOp} {left right : Expr} (hleft : Written left)
    (hright : Written right) : Written (.binary op left right) := by
  cases hop : infixSign op with
  | some found =>
      obtain ⟨t, o⟩ := found
      obtain ⟨ls, hls⟩ := hleft.at (.tier t)
      obtain ⟨rs, hrs⟩ := hright.at (tierOperand t)
      exact .group (.binary (n := 0) hop hls hrs) (by cases t <;> decide)
  | none =>
      obtain ⟨ls, hls⟩ := hleft.at .primary
      obtain ⟨rs, hrs⟩ := hright.at .signed
      cases op with
      | pow => exact .group (.power (n := 0) hls hrs) (by decide)
      | _ => cases hop

theorem written_chain {op : Connective} {operands : List Expr} (hlength : 2 ≤ operands.length)
    (h : ∀ x ∈ operands, Written x) : Written (.chain op operands) := by
  obtain ⟨first, second, more, rfl⟩ : ∃ first second more, operands = first :: second :: more := by
    match operands, hlength with
    | first :: second :: more, _ => exact ⟨first, second, more, rfl⟩
  obtain ⟨hfirst, hmore⟩ := List.forall_mem_cons.mp h
  obtain ⟨ts, hts⟩ := hfirst.at (connectiveOperand op)
  obtain ⟨rest, hrest⟩ := Operands.exists op hmore
  cases op with
  | or => exact .group (.or hts hrest) (by decide)
  | and => exact .group (.and hts hrest) (by decide)

theorem argument_exists {a : Argument} (h : Written a.value) :
    ∃ ts, ArgumentForm Renders ts a := by
  obtain ⟨ts, hts⟩ := h.at .conditional
  cases a with
  | positional value => exact ⟨ts, .positional hts⟩
  | keyword w value => exact ⟨⟨.name w, 0⟩ :: ⟨.op .assign, 0⟩ :: ts, .keyword hts⟩

theorem entry_exists {item : DictItem} (h : ∀ x ∈ item.parts, Written x) :
    ∃ ts, EntryForm Renders ts item := by
  cases item with
  | pair key value =>
      obtain ⟨hkey, hvalue⟩ : Written key ∧ Written value := by simpa [DictItem.parts] using h
      obtain ⟨ks, hks⟩ := hkey.at .conditional
      obtain ⟨vs, hvs⟩ := hvalue.at .conditional
      exact ⟨ks ++ ⟨.op .colon, 0⟩ :: vs, .pair hks hvs⟩
  | unpack mapping =>
      obtain ⟨ts, hts⟩ := (h mapping (by simp [DictItem.parts])).at (.tier .bitOr)
      exact ⟨⟨.op .power, 0⟩ :: ts, .unpack hts⟩

theorem written_of_parts {e : Expr} (hshape : e.Shaped) (h : ∀ x ∈ e.parts, Written x) :
    Written e := by
  cases e with
  | name w => exact ⟨[⟨.name w, 0⟩], .of (.name hshape)⟩
  | int k => exact ⟨[⟨.int k, 0⟩], .of .int⟩
  | float x => exact ⟨[⟨.float x, 0⟩], .of .float⟩
  | str s => exact ⟨[⟨.str s, 0⟩], .of (.str .one)⟩
  | bool b =>
      cases b with
      | true => exact ⟨[⟨.name "True", 0⟩], .of .true⟩
      | false => exact ⟨[⟨.name "False", 0⟩], .of .false⟩
  | nothing => exact ⟨[⟨.name "None", 0⟩], .of .nothing⟩
  | ellipsis => exact ⟨[⟨.op .ellipsis, 0⟩], .of .ellipsis⟩
  | list items =>
      obtain ⟨ts, comma, hts, -⟩ := Listed.exists fun x hx => (h x hx).at .conditional
      exact ⟨⟨.op .openBracket, 0⟩ :: (ts ++ [⟨.op .closeBracket, 0⟩]), .of (.list hts)⟩
  | tuple items =>
      obtain ⟨ts, comma, hts, hcomma⟩ := Listed.exists fun x hx => (h x hx).at .conditional
      exact ⟨⟨.op .openParen, 0⟩ :: (ts ++ [⟨.op .closeParen, 0⟩]), .of (.tuple hts hcomma)⟩
  | set items =>
      obtain ⟨ts, comma, hts, -⟩ := Listed.exists fun x hx => (h x hx).at .conditional
      obtain ⟨first, more, rfl⟩ := List.exists_cons_of_ne_nil hshape
      exact ⟨⟨.op .openBrace, 0⟩ :: (ts ++ [⟨.op .closeBrace, 0⟩]), .of (.set hts)⟩
  | dict items =>
      obtain ⟨ts, comma, hts, -⟩ := Listed.exists fun item hitem =>
        entry_exists fun x hx => h x (List.mem_flatMap.mpr ⟨item, hitem, hx⟩)
      exact ⟨⟨.op .openBrace, 0⟩ :: (ts ++ [⟨.op .closeBrace, 0⟩]), .of (.dict hts)⟩
  | unary op operand => exact written_unary (h operand (by simp [Expr.parts]))
  | binary op left right =>
      exact written_binary (h left (by simp [Expr.parts])) (h right (by simp [Expr.parts]))
  | chain op operands => exact written_chain hshape h
  | compare left rest =>
      obtain ⟨hleft, hrest⟩ := List.forall_mem_cons.mp h
      obtain ⟨first, more, rfl⟩ := List.exists_cons_of_ne_nil hshape
      obtain ⟨ts, hts⟩ := hleft.at (.tier .bitOr)
      obtain ⟨cs, hcs⟩ := Comparands.exists hrest
      exact .group (.compare hts hcs) (by decide)
  | conditional body test orelse =>
      obtain ⟨bs, hbs⟩ := (h body (by simp [Expr.parts])).at (.chain .or)
      obtain ⟨ts, hts⟩ := (h test (by simp [Expr.parts])).at (.chain .or)
      obtain ⟨os, hos⟩ := (h orelse (by simp [Expr.parts])).at .conditional
      exact .group (.conditional (n := 0) (m := 0) hbs hts hos) (by decide)
  | «attribute» base w =>
      obtain ⟨ts, hts⟩ := (h base (by simp [Expr.parts])).at .primary
      exact .group (.member (n := 0) (m := 0) hts) (by decide)
  | call callee arguments =>
      obtain ⟨hcallee, harguments⟩ := List.forall_mem_cons.mp h
      obtain ⟨ts, hts⟩ := hcallee.at .primary
      have hforms : ∀ a ∈ arguments, ∃ ts, ArgumentForm Renders ts a := fun a ha =>
        argument_exists (harguments a.value (List.mem_map_of_mem ha))
      obtain ⟨args, comma, hargs, -⟩ := Listed.exists hforms
      exact .group (.call (n := 0) (m := 0) hts hargs) (by decide)
  | subscript base index =>
      obtain ⟨ts, hts⟩ := (h base (by simp [Expr.parts])).at .primary
      obtain ⟨is, his⟩ := (h index (by simp [Expr.parts])).at .list
      exact .group (.subscript (n := 0) (m := 0) hts his) (by decide)

/-- Every well-formed expression has a rendering, which can stand anywhere. -/
theorem written_of_wellFormed {e : Expr} (h : e.WellFormed) : Written e := by
  induction h with
  | of hshape _ ih => exact written_of_parts hshape ih

end Grammar

end IconConstraints
