import IconConstraints.Evaluation
import IconConstraints.PatchSet
import IconConstraints.Report

/-!
# Patch sets from dict displays

A table of patch sets is a list of dict displays.  Each value is evaluated; a
bare name first stands for what the routine bound it to, except for `Enabled`,
which names switches.  A display whose `Enabled` is false is no patch set, and
keys after it are not looked at.
-/

namespace IconConstraints

/-- What extraction is told beside the script. -/
structure ExtractOptions where
  switches : Switches
  /-- Keys of patch sets that are not evaluated. -/
  ignoredKeys : List String
  deriving DecidableEq, Repr

def ExtractOptions.standard : ExtractOptions :=
  ⟨.standard, []⟩

/-- The names that a routine binds to expressions. -/
abbrev Symbols := List (String × Expr)

namespace Symbols

/-- A later binding replaces an earlier one. -/
def bind (symbols : Symbols) (name : String) (e : Expr) : Symbols :=
  (name, e) :: symbols.filter (·.1 != name)

end Symbols

namespace PatchSet

/-! ## Evaluation of values -/

/-- The value of a literal, or what the closed evaluator makes of the expression. -/
def evaluate (switches : Switches) (e : Expr) : Except EvalFault Value :=
  match e.literal with
  | .ok v => .ok v
  | .error _ => e.eval switches

/-- The expression that a bound name stands for; any other expression is left as it is. -/
def substitute (symbols : Symbols) (e : Expr) : Expr :=
  match e with
  | .name n => (symbols.lookup n).getD e
  | e => e

/-! ## Fields -/

/-- Keys with their values, the latest first. -/
abbrev Fields := List (String × Value)

abbrev FieldResult := Except PatchSetFault

def required (fields : Fields) (key : String) : FieldResult Value :=
  match fields.lookup key with
  | some v => .ok v
  | none => .error (.missingKey key)

def requiredString (fields : Fields) (key : String) : FieldResult String := do
  match (← required fields key).toStr? with
  | some s => return s
  | none => .error (.notString key)

/-- A bool is no codepoint, although it counts as a number elsewhere. -/
def codepoint (key : String) (v : Value) : FieldResult Codepoint :=
  match v with
  | .int n =>
    if 0 ≤ n.toInt ∧ n.toInt ≤ greatestCodepoint then .ok n.toInt.toNat
    else .error (.notCodepoint key v)
  | v => .error (.notCodepoint key v)

/-- A field that is absent or `None` is left out. -/
def optional {α : Type} (read : Value → FieldResult α) : Option Value → FieldResult (Option α)
  | none => .ok none
  | some .nothing => .ok none
  | some v => (read v).map some

/-! ## Scale rules -/

def scaleGroup (v : Value) : FieldResult ScaleGroup :=
  match v with
  | .range start stop 1 => do
    let first ← codepoint "ScaleGroups" (.int start)
    let last ← codepoint "ScaleGroups" (.int (if stop < start then start else stop))
    return .range first last
  | v =>
    match v.items? with
    | none => .error (.groupNotIterable v)
    | some items => (items.mapM (codepoint "ScaleGroups")).map .list

def shiftMode (v : Value) : FieldResult String :=
  match v with
  | .str mode => .ok mode
  | v => .error (.shiftModeNotString v)

def scaleRulesOf (v : Value) : FieldResult ScaleRules :=
  match v with
  | .dict _ =>
    match v.field? "ScaleGroups" with
    | none => .error (.scaleRulesWithoutGroups v)
    | some groups => do
      let items ← match groups with
        | .list items => .ok items
        | .tuple items => .ok items
        | other => .error (.groupsNotList other)
      let groups ← items.mapM scaleGroup
      let mode ← optional shiftMode (v.field? "ShiftMode")
      return ⟨groups, mode⟩
  | v => .error (.scaleRulesNotDict v)

/-! ## Attributes -/

def stringField (entry : Value) (key : String) : FieldResult String :=
  match entry.field? key with
  | none => .ok ""
  | some .nothing => .ok ""
  | some (.str s) => .ok s
  | some v => .error (.attributeNotString key v)

def numberParam (params : Option Value) (key : String) (default : Float) : FieldResult Float :=
  match params.bind (·.field? key) with
  | none => .ok default
  | some v =>
    match v.toFloat? with
    | some x => .ok x
    | none => .error (.paramNotNumber key v)

def params (entry : Value) : FieldResult (Option Value) :=
  match entry.field? "params" with
  | none => .ok none
  | some (.dict pairs) => .ok (some (.dict pairs))
  | some v => .error (.paramsNotDict v)

def attributeEntry (entry : Value) : FieldResult AttributeEntry :=
  match entry with
  | .dict _ => do
    let params ← params entry
    let overlap ← numberParam params "overlap" 0.0
    let yPadding ← numberParam params "ypadding" 0.0
    if overlap != 0.0 && yPadding != 0.0 then .error (.overlapAndPadding overlap yPadding)
    else
      let align ← stringField entry "align"
      let valign ← stringField entry "valign"
      let stretch ← stringField entry "stretch"
      let xyRatio ← numberParam params "xy-ratio" (-1.0)
      return { AttributeEntry.unset with
        align := Alignment.ofLetter? align
        valign := Alignment.ofLetter? valign
        stretch := stretch
        overlap := .ofFloat overlap
        xyRatio := .ofFloat xyRatio
        yPadding := .ofFloat yPadding }
  | entry => .error (.entryNotDict entry)

/-- The entries read so far; there may be no default yet. -/
structure PartialAttributes where
  default : Option AttributeEntry
  overrides : CodepointMap AttributeEntry

def addAttribute (found : PartialAttributes) (pair : Value × Value) : FieldResult PartialAttributes := do
  let entry ← attributeEntry pair.2
  match pair.1 with
  | .str "default" => return { found with default := some entry }
  | .int n =>
    let cp ← codepoint "Attributes" (.int n)
    return { found with overrides := found.overrides.insert cp entry }
  | key => .error (.attributeKey key)

def attributesOf (v : Value) : FieldResult PatchSetAttributes :=
  match v with
  | .dict pairs => do
    let found ← pairs.foldlM addAttribute ⟨none, ∅⟩
    match found.default with
    | some entry => return ⟨entry, found.overrides⟩
    | none => .error .noDefaultAttributes
  | v => .error (.attributesNotDict v)

/-! ## The whole patch set -/

/-- An exact patch set has no start in the destination font, a packed one needs it. -/
def checkMode (exact : Bool) (srcStart : Option Codepoint) : FieldResult Unit :=
  match exact, srcStart with
  | true, some start => .error (.exactWithStart start)
  | false, none => .error .packedWithoutStart
  | _, _ => .ok ()

def ofFields (fields : Fields) : FieldResult PatchSet := do
  let name ← requiredString fields "Name"
  let filename ← requiredString fields "Filename"
  let symStart ← codepoint "SymStart" (← required fields "SymStart")
  let symEnd ← codepoint "SymEnd" (← required fields "SymEnd")
  if symEnd < symStart then .error (.spanReversed symStart symEnd)
  else
    let srcStart ← optional (codepoint "SrcStart") (fields.lookup "SrcStart")
    let exact := match fields.lookup "Exact" with
      | some v => v.truthy
      | none => srcStart.isNone
    checkMode exact srcStart
    let rules ← optional scaleRulesOf (fields.lookup "ScaleRules")
    let attributes ← attributesOf (← required fields "Attributes")
    return ⟨name, filename, exact, symStart, symEnd, srcStart, rules, attributes⟩

/-- The name by which messages call the `index`-th display of the table. -/
def label (index : Nat) (items : List DictItem) : String :=
  let name? : DictItem → Option String
    | .pair (.str "Name") (.str name) => some name
    | _ => none
  (items.findSome? name?).getD ("#" ++ toString index)

/-- Whether an item is read at all: its key is a string that is not ignored. -/
def key? (options : ExtractOptions) : DictItem → Option (String × Expr)
  | .pair (.str key) value => if options.ignoredKeys.contains key then none else some (key, value)
  | _ => none

/-- The fields of the display, or `none` where it is disabled. -/
def readItems (symbols : Symbols) (options : ExtractOptions) (label : String) (fields : Fields) :
    List DictItem → Report (Option Fields)
  | [] => pure (some fields)
  | .unpack _ :: rest => do
    Report.tell (.unpackSkipped label)
    readItems symbols options label fields rest
  | item :: rest =>
    match key? options item with
    | none => readItems symbols options label fields rest
    | some (key, value) =>
      let e := if key = "Enabled" then value else substitute symbols value
      match evaluate options.switches e with
      | .error cause => Report.fail (.config label (.unevaluable key cause))
      | .ok v =>
        if key = "Enabled" then
          if v.truthy then readItems symbols options label fields rest
          else do
            Report.tell (.patchSetDisabled label)
            return none
        else readItems symbols options label ((key, v) :: fields) rest

/-- Reads the `index`-th display of the table; `none` is a patch set that is disabled. -/
def read (symbols : Symbols) (options : ExtractOptions) (index : Nat) (items : List DictItem) :
    Report (Option PatchSet) := do
  let label := label index items
  match ← readItems symbols options label [] items with
  | none => return none
  | some fields => Report.ofExcept (((ofFields fields).map some).mapError (.config label))

end PatchSet

end IconConstraints
