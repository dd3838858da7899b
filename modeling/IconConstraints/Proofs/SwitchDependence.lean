import Mathlib.Data.List.Basic
import Mathlib.Data.List.TakeWhile
import IconConstraints.Extraction
import IconConstraints.Proofs.Lexemes
import IconConstraints.Proofs.LineRuns
import IconConstraints.Proofs.Scripts
import IconConstraints.Proofs.Session
import IconConstraints.Proofs.SwitchedNames

/-!
# What extraction asks its switches

The names that extraction looks up in a table of switches are tokens of the script:
neither the values of the table of patch sets nor the expressions that the routine binds
names to have others.  Tables that agree on the tokens are not told apart, whether
extraction succeeds or not.
-/

namespace IconConstraints

open Source

/-! ## Tokens of a script -/

namespace Source

variable {c : Char} {cs rest : List Char} {n : String} {lines : List LogicalLine}

theorem integerLiteral_ne_name (base : Nat) (digits : List Char) :
    integerLiteral base digits ≠ .ok (.name n) := by
  intro h
  unfold integerLiteral at h
  split at h
  · cases h
  · split at h <;> cases h

theorem map_ne_name {kind : Except LexFault TokenKind} (hkind : kind ≠ .ok (.name n))
    (after : List Char) : kind.map (·, after) ≠ .ok (.name n, rest) := by
  intro h
  obtain ⟨k, rfl, hk⟩ := Outcome.map_eq_ok.mp h
  cases hk
  exact hkind rfl

theorem numberLiteral_ne_name : numberLiteral cs ≠ .ok (.name n, rest) := by
  intro h
  unfold numberLiteral at h
  split at h
  · exact map_ne_name (integerLiteral_ne_name _ _) _ h
  · simp only [decimalLiteral] at h
    split at h
    · cases h
    · split at h
      · exact map_ne_name (integerLiteral_ne_name _ _) _ h
      · cases h

theorem plainLexeme_name {lineEnds : Nat}
    (h : plainLexeme c cs = .ok ⟨.token (.name n), rest, lineEnds⟩) :
    ∀ d ∈ n.toList, continuesName d = true := by
  unfold plainLexeme at h
  split at h
  case isTrue => cases h
  split at h
  case isTrue =>
    unfold numberLexeme at h
    split at h
    case h_1 hread =>
      cases h
      exact absurd hread numberLiteral_ne_name
    case h_2 => cases h
  split at h
  case isTrue =>
    cases h
    simpa using fun d hd => List.mem_takeWhile_imp hd
  case isFalse =>
    unfold operatorLexeme at h
    split at h <;> cases h

theorem lexeme_name {lineEnds : Nat}
    (h : lexeme c cs = .ok ⟨.token (.name n), rest, lineEnds⟩) :
    ∀ d ∈ n.toList, continuesName d = true := by
  cases lexeme_case h with
  | string _ _ hread =>
      obtain ⟨_, -, hs⟩ := Outcome.map_eq_ok.mp hread
      cases hs
  | plain _ _ _ _ hread => exact plainLexeme_name hread

/-- The name is a token of the text. -/
def Mentions (text n : String) : Prop :=
  ∃ lines, logicalLines text = .ok lines ∧ Occurs (lines.flatMap LogicalLine.tokens) n

theorem dot_not_mem_of_mentions {text : String} (h : Mentions text n) : '.' ∉ n.toList := by
  obtain ⟨lines, hlines, t, ht, hkind⟩ := h
  -- By induction on the run of the reader: each token that it adds is a lexeme.
  have hnames : ∀ t ∈ lines.flatMap LogicalLine.tokens, ∀ n, t.kind = .name n →
      ∀ d ∈ n.toList, continuesName d = true := by
    refine linesFrom_tokens (I := fun ts => ∀ t ∈ ts, ∀ n, t.kind = .name n →
      ∀ d ∈ n.toList, continuesName d = true) 1 none [] text.toList ?_ nofun hlines
    intro ts c after kind rest lineEnds line hts hread t ht
    obtain ht | ht := List.mem_append.mp ht
    · exact hts t ht
    · obtain rfl := List.mem_singleton.mp ht
      rintro n rfl
      exact lexeme_name hread
  intro hdot
  have hcontinues := hnames t ht n hkind '.' hdot
  revert hcontinues
  decide

end Source

/-! ## Expressions of a line -/

theorem subset_of_mem_assignmentParts {depth : Nat} {ts part : List Token}
    (h : part ∈ assignmentParts depth ts) : part ⊆ ts := by
  induction ts generalizing depth part with
  | nil => simp_all [assignmentParts]
  | cons t ts ih =>
      rw [assignmentParts] at h
      split at h
      case isTrue =>
        obtain rfl | h := List.mem_cons.mp h
        · exact List.nil_subset _
        · exact List.subset_cons_of_subset t (ih h)
      case isFalse =>
        split at h
        case h_1 first parts hparts =>
          obtain rfl | h := List.mem_cons.mp h
          · exact List.cons_subset_cons t (ih (hparts ▸ List.mem_cons_self))
          · exact List.subset_cons_of_subset t (ih (hparts ▸ List.mem_cons_of_mem first h))
        case h_2 =>
          obtain rfl := List.mem_singleton.mp h
          exact List.cons_subset_cons t (List.nil_subset _)

theorem Assignment.value_subset {l : LogicalLine} {a : Assignment}
    (h : Assignment.ofLine? l = some a) : a.value ⊆ l.tokens := by
  unfold Assignment.ofLine? at h
  split at h
  case isTrue => cases h
  case isFalse =>
    dsimp only at h
    split at h
    case h_1 hlast =>
      cases h
      exact subset_of_mem_assignmentParts (List.mem_of_getLast? hlast)
    case h_2 => cases h

def Source.LogicalLine.NamesIn (N : String → Prop) (l : LogicalLine) : Prop :=
  ∀ n, Occurs l.tokens n → N n

section Extraction

variable {N : String → Prop} {a b : Switches} {ignored : List String} {l : LogicalLine}

theorem namesIn_assigned (hl : l.NamesIn N) {assignment : Assignment} {e : Expr}
    (hline : Assignment.ofLine? l = some assignment)
    (he : Expr.ofTokens assignment.value = .ok e) : e.NamesIn N :=
  (Expr.namesIn_of_ofTokens he).mono fun n hn => hl n (hn.mono (Assignment.value_subset hline))

theorem Extraction.namesIn_binding (hl : l.NamesIn N) {n : String} {e : Expr}
    (h : binding? l = some (n, e)) : e.NamesIn N := by
  unfold binding? at h
  split at h
  case h_1 hline =>
    split at h
    case h_1 he =>
      cases h
      exact namesIn_assigned hl hline he
    case h_2 => cases h
  case h_2 => cases h

def Symbols.NamesIn (N : String → Prop) (symbols : Symbols) : Prop :=
  ∀ bound ∈ symbols, bound.2.NamesIn N

theorem Symbols.NamesIn.bind {symbols : Symbols} (h : symbols.NamesIn N) {n : String} {e : Expr}
    (he : e.NamesIn N) : (symbols.bind n e).NamesIn N :=
  List.forall_mem_cons.mpr ⟨he, fun bound hbound => h bound (List.mem_of_mem_filter hbound)⟩

theorem Extraction.namesIn_symbols {body : List LogicalLine} (h : ∀ l ∈ body, l.NamesIn N) :
    (symbols body).NamesIn N := by
  have hbound : ∀ bound ∈ body.filterMap binding?, bound.2.NamesIn N := by
    intro bound hbound
    obtain ⟨l, hl, hbinding⟩ := List.mem_filterMap.mp hbound
    exact namesIn_binding (h l hl) hbinding
  refine List.foldlRecOn _ _ nofun fun found hfound bound hmem => ?_
  exact hfound.bind (hbound bound hmem)

theorem PatchSet.namesIn_substitute {symbols : Symbols} (hsymbols : symbols.NamesIn N) {e : Expr}
    (he : e.NamesIn N) : (substitute symbols e).NamesIn N := by
  unfold substitute
  split
  case h_1 n =>
    cases hfound : symbols.lookup n with
    | none => exact he
    | some bound =>
        obtain ⟨before, after, rfl, -⟩ := List.lookup_eq_some_iff.mp hfound
        exact hsymbols _ (List.mem_append_right _ List.mem_cons_self)
  case h_2 => exact he

/-! ## Two tables -/

namespace PatchSet

theorem evaluate_agree {e : Expr} (he : e.NamesIn (LookupsAgree a b)) :
    evaluate a e = evaluate b e := by
  unfold evaluate
  rw [e.eval_agree he]

theorem mem_parts_of_key? {options : ExtractOptions} {item : DictItem} {key : String} {value : Expr}
    (h : key? options item = some (key, value)) : value ∈ item.parts := by
  unfold key? at h
  split at h
  case h_1 =>
    split at h
    · cases h
    · cases h
      simp [DictItem.parts]
  case h_2 => cases h

variable {symbols : Symbols} (hsymbols : symbols.NamesIn (LookupsAgree a b))

include hsymbols

theorem readItems_agree (label : String) (fields : Fields) (items : List DictItem)
    (h : ∀ x ∈ items.flatMap DictItem.parts, x.NamesIn (LookupsAgree a b)) :
    readItems symbols ⟨a, ignored⟩ label fields items =
      readItems symbols ⟨b, ignored⟩ label fields items := by
  induction items generalizing fields with
  | nil => rfl
  | cons item rest ih =>
      obtain ⟨hitem, hrest⟩ := List.forall_mem_append.mp h
      have hnext (fields : Fields) := ih fields hrest
      cases item with
      | unpack mapping => simp only [readItems, hnext]
      | pair key value =>
          have hkey : key? ⟨a, ignored⟩ (.pair key value) = key? ⟨b, ignored⟩ (.pair key value) :=
            rfl
          simp only [readItems, hkey, hnext]
          split
          case h_1 => rfl
          case h_2 key value hfound =>
            -- All values but that of the key Enabled are evaluated after substitution.
            have hvalue := hitem _ (mem_parts_of_key? hfound)
            have hevaluate :
                evaluate a (if key = "Enabled" then value else substitute symbols value) =
                  evaluate b (if key = "Enabled" then value else substitute symbols value) := by
              split
              · exact evaluate_agree hvalue
              · exact evaluate_agree (namesIn_substitute hsymbols hvalue)
            rw [hevaluate]

theorem read_agree (index : Nat) (items : List DictItem)
    (h : ∀ x ∈ items.flatMap DictItem.parts, x.NamesIn (LookupsAgree a b)) :
    read symbols ⟨a, ignored⟩ index items = read symbols ⟨b, ignored⟩ index items := by
  unfold read
  dsimp only
  rw [readItems_agree hsymbols _ _ _ h]

end PatchSet

namespace Extraction

variable {symbols : Symbols}

theorem addElement_agree (hsymbols : symbols.NamesIn (LookupsAgree a b)) (found : Found)
    {element : Expr} (h : element.NamesIn (LookupsAgree a b)) :
    addElement symbols ⟨a, ignored⟩ found element =
      addElement symbols ⟨b, ignored⟩ found element := by
  cases element with
  | dict items =>
      unfold addElement
      dsimp only
      rw [PatchSet.read_agree hsymbols _ _ h.parts]
  | _ => rfl

theorem foldlM_agree {α β : Type} {f g : β → α → Report β} {l : List α}
    (h : ∀ x ∈ l, ∀ y, f y x = g y x) (y : β) : l.foldlM f y = l.foldlM g y := by
  induction l generalizing y with
  | nil => rfl
  | cons x l ih =>
      obtain ⟨hx, hl⟩ := List.forall_mem_cons.mp h
      simp only [List.foldlM_cons, hx, ih hl]

theorem addStatement_agree (hsymbols : symbols.NamesIn (LookupsAgree a b)) (found : Found)
    (hl : l.NamesIn (LookupsAgree a b)) :
    addStatement symbols ⟨a, ignored⟩ found l = addStatement symbols ⟨b, ignored⟩ found l := by
  unfold addStatement
  split
  case h_1 => rfl
  case h_2 hline =>
    split
    case isFalse => rfl
    case isTrue =>
      split
      case h_1 => rfl
      case h_2 elements hlist =>
        have helements := (namesIn_assigned hl hline hlist).parts
        exact foldlM_agree (fun x hx y => addElement_agree hsymbols y (helements x hx)) found
      case h_3 => rfl

theorem blockBody_subset (header : Nat) (lines : List LogicalLine) :
    blockBody header lines ⊆ lines := by
  have hblock : blockLines header lines ⊆ lines := by
    unfold blockLines
    split
    case h_1 head rest hdrop =>
      intro l hl
      exact List.mem_of_mem_drop (hdrop ▸ List.mem_cons_of_mem head ((List.takeWhile_subset _) hl))
    case h_2 => exact List.nil_subset _
  unfold blockBody
  split
  case h_1 => exact List.nil_subset _
  case h_2 first rest hlines => exact fun l hl => hblock (hlines ▸ List.mem_of_mem_filter hl)

/-- Tables of switches that give the same answers for the names among the tokens of a script
give the same extraction from it, or the same error, and tell the same events. -/
theorem ofSource_agree (source : String) (ignored : List String) (a b : Switches)
    (h : a.AgreeOn b (Mentions source)) :
    ofSource source ⟨a, ignored⟩ = ofSource source ⟨b, ignored⟩ := by
  unfold ofSource
  cases hlines : logicalLines source with
  | error e => simp only [Except.mapError, Report.ofExcept_error_bind]
  | ok lines =>
      -- What holds of the tokens of the script holds of the names in all that is evaluated.
      have hnames : ∀ l ∈ lines, l.NamesIn (LookupsAgree a b) := by
        intro l hl n hn
        have hmentions : Mentions source n :=
          ⟨lines, hlines, hn.mono fun t ht => List.mem_flatMap.mpr ⟨l, hl, ht⟩⟩
        exact h.lookups hmentions (dot_not_mem_of_mentions hmentions)
      have hbody (routine : Nat) : ∀ l ∈ blockBody routine lines, l.NamesIn (LookupsAgree a b) :=
        fun l hl => hnames l (blockBody_subset routine lines hl)
      have hstatements (routine : Nat) (found : Found) :
          (blockBody routine lines).foldlM
              (addStatement (Extraction.symbols (blockBody routine lines)) ⟨a, ignored⟩) found =
            (blockBody routine lines).foldlM
              (addStatement (Extraction.symbols (blockBody routine lines)) ⟨b, ignored⟩) found :=
        foldlM_agree (fun l hl found =>
          addStatement_agree (namesIn_symbols (hbody routine)) found (hbody routine l hl)) found
      simp only [Except.mapError, Report.ofExcept_ok_bind, hstatements]

section SwitchedScript

open Source.Word

/-- A patch set that is enabled by a switch. -/
def switchedTable : List Word :=
  braced (field "Enabled" [ofName "self", ofOperator .dot, ofName "args", ofOperator .dot,
      ofName "octicons"] ++
    field "Name" [ofText "A"] ++ field "Filename" [ofText "a"] ++
    field "SymStart" [⟨'1', [], .int 1⟩] ++ field "SymEnd" [⟨'1', [], .int 1⟩] ++
    field "Attributes" (braced (field "default" (braced []))))

def switchedExtraction : Extraction :=
  ⟨"1", [⟨"A", "a", true, 1, 1, none, none, ⟨.unset, ∅⟩⟩]⟩

theorem switchedTable_lines :
    logicalLines (scriptText "1" switchedTable) = .ok (lines 1 (script "1" switchedTable)) := by
  have hself : (ofName "self").Reads := fun _ => rfl
  have hargs : (ofName "args").Reads := fun _ => rfl
  have hname : (ofName "octicons").Reads := fun _ => rfl
  have hreads : ∀ w ∈ switchedTable, w.Reads := by
    unfold switchedTable
    simp (disch := decide) only [braced_reads, field_reads, List.forall_mem_append,
      List.forall_mem_cons, ofText_reads, digit_one_reads, ofOperator_reads, hself, hargs, hname,
      and_self, true_and]
    simp
  exact logicalLines_scriptText (by decide) hreads (by decide)

theorem switchedTable_extraction :
    (ofSource (scriptText "1" switchedTable) .standard).outcome = .ok switchedExtraction := by
  unfold ofSource
  rw [switchedTable_lines]
  rfl

/-- A switch that the script does not mention can be set otherwise. -/
theorem switched_extraction_careful :
    Switches.standard.AgreeOn (Switches.standard.withArg "careful" true)
        (Mentions (scriptText "1" switchedTable)) ∧
      (ofSource (scriptText "1" switchedTable) .standard).outcome = .ok switchedExtraction ∧
      (ofSource (scriptText "1" switchedTable)
        ⟨Switches.standard.withArg "careful" true, []⟩).outcome = .ok switchedExtraction := by
  have hmentions : ¬ Mentions (scriptText "1" switchedTable) "careful" := by
    rintro ⟨lines, hlines, hoccurs⟩
    cases switchedTable_lines.symm.trans hlines
    revert hoccurs
    unfold Occurs
    decide
  have hagree := Switches.agreeOn_withArg Switches.standard true hmentions
  refine ⟨hagree, switchedTable_extraction, ?_⟩
  rw [← ofSource_agree _ [] _ _ hagree]
  exact switchedTable_extraction

end SwitchedScript

end Extraction

end Extraction

end IconConstraints
