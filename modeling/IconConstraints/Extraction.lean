import IconConstraints.Expression.Parsing
import IconConstraints.PatchSet.Reading
import IconConstraints.Source.Lines
import IconConstraints.Statement

/-!
# Extraction

The script is read as text.  Its version is the first string assigned to
`version` at the outermost level, and its patch sets are the dict displays that
the routine `setup_patch_set` of the class `font_patcher` assigns to an
attribute named `patch_set`.
-/

namespace IconConstraints

open Source

structure Extraction where
  version : String
  /-- The enabled patch sets in the order of the table. -/
  patchSets : List PatchSet

namespace Extraction

/-! ## Version -/

def bindsName (name : String) (a : Assignment) : Bool :=
  a.targets.any fun
    | .name n => n == name
    | _ => false

def lineVersion? (l : LogicalLine) : Option String :=
  if l.indent = 0 then
    match Assignment.ofLine? l with
    | some a =>
      if bindsName "version" a then
        match Expr.ofTokens a.value with
        | .ok (.str version) => some version
        | _ => none
      else none
    | none => none
  else none

def version? (lines : List LogicalLine) : Option String :=
  lines.findSome? lineVersion?

/-! ## The routine -/

/-- The index of the routine's first line, and the class it belongs to must come first. -/
def setupRoutine (lines : List LogicalLine) : Except Error Nat :=
  match definitionIndex? "class" "font_patcher" 0 lines with
  | none => .error (.parse 0 .noPatcherClass)
  | some c =>
    let inClass := lines.take (c + 1 + (blockLines c lines).length)
    match definitionIndex? "def" "setup_patch_set" (c + 1) inClass with
    | some routine => .ok routine
    | none => .error (.parse ((lines[c]?.map (·.line)).getD 0) .noSetupRoutine)

/-- The name that a statement binds to an expression, if it does nothing else. -/
def binding? (l : LogicalLine) : Option (String × Expr) :=
  match Assignment.ofLine? l with
  | some ⟨[.name n], value, _⟩ =>
    match Expr.ofTokens value with
    | .ok e => some (n, e)
    | .error _ => none
  | _ => none

def symbols (body : List LogicalLine) : Symbols :=
  (body.filterMap binding?).foldl (fun found (n, e) => found.bind n e) []

/-! ## The table -/

/-- Whether the last name of an attribute path is `patch_set`. -/
def isTablePath (path : String) : Bool :=
  (path.toList.reverse.takeWhile (· != '.')).reverse == "patch_set".toList

def bindsTable (a : Assignment) : Bool :=
  a.targets.any fun
    | .attribute path => isTablePath path
    | _ => false

/-- The patch sets found so far, the latest first, and the number of displays looked at. -/
structure Found where
  patchSets : List PatchSet
  candidates : Nat

def addElement (symbols : Symbols) (options : ExtractOptions) (found : Found) (element : Expr) :
    Report Found :=
  match element with
  | .dict items => do
    match ← PatchSet.read symbols options found.candidates items with
    | none => return { found with candidates := found.candidates + 1 }
    | some p =>
      Report.tell (.patchSetRead p.name p.symStart p.symEnd p.exact)
      return ⟨p :: found.patchSets, found.candidates + 1⟩
  | _ => pure found

def addStatement (symbols : Symbols) (options : ExtractOptions) (found : Found) (l : LogicalLine) :
    Report Found :=
  match Assignment.ofLine? l with
  | none => pure found
  | some a =>
    if bindsTable a then
      match Expr.ofTokens a.value with
      | .error e => Report.fail (.ofSyntaxError e)
      | .ok (.list elements) => elements.foldlM (addElement symbols options) found
      | .ok _ => do
        Report.tell (.tableNotList a.line)
        return found
    else pure found

/-! ## Extraction -/

/-- The version and the enabled patch sets of a script. -/
def ofSource (source : String) (options : ExtractOptions) : Report Extraction := do
  let lines ← Report.ofExcept ((logicalLines source).mapError .ofLexError)
  match version? lines with
  | none => Report.fail .missingVersion
  | some version =>
    let routine ← Report.ofExcept (setupRoutine lines)
    let body := blockBody routine lines
    let symbols := symbols body
    Report.tell (.setupRead body.length symbols.length)
    let found ← body.foldlM (addStatement symbols options) ⟨[], 0⟩
    Report.tell (.extracted version found.patchSets.length found.candidates)
    return ⟨version, found.patchSets.reverse⟩

end Extraction

end IconConstraints
