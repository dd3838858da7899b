import IconConstraints.CommandLine.Arguments
import IconConstraints.Project

/-!
# The command line

The arguments, the environment and the working directory make a command.  A
command is executed on a file tree: it ends with a status, and for an error with
a report of its causes.
-/

namespace IconConstraints.CommandLine

/-! ## Commands -/

/-- A run of the program. -/
structure Invocation where
  project : Project
  options : RunOptions
  /-- The least severe events that are shown. -/
  verbosity : Level

inductive Command where
  | inquire (inquiry : Inquiry)
  | run (invocation : Invocation)

def Draft.verbosity (d : Draft) : Level :=
  if d.flags.contains .verbose then .debug else .info

/-- The project is the one named by an option, by the environment, or the working directory. -/
def Draft.invocation (d : Draft) (environmentRoot : Option String) (workingDirectory : String) :
    Except UsageFault Invocation :=
  match d.font with
  | none => .error .missingFont
  | some font =>
    let root := (d.value? .projectRoot).getD (environmentRoot.getD workingDirectory)
    .ok {
      project := ⟨⟨root⟩⟩
      options := {
        font := ⟨font⟩
        output := (d.value? .output).map .mk
        mirror := (d.value? .mirror).map .mk
        mirrorTemplate := some ((d.value? .mirrorTemplate).getD Mirror.standardTemplate)
        useCache := !d.flags.contains .noCache
        extract := .standard }
      verbosity := d.verbosity }

def command (arguments : List String) (environmentRoot : Option String) (workingDirectory : String) :
    Except UsageFault Command :=
  match readAll .empty arguments with
  | .error fault => .error fault
  | .ok (.inquire inquiry) => .ok (.inquire inquiry)
  | .ok (.run d) => (d.invocation environmentRoot workingDirectory).map .run

namespace Invocation

/-- Where the origin font of a patch set may be. -/
def originPaths (i : Invocation) (version filename : String) : List Path :=
  let cached := if i.options.useCache then [OriginCache.cachedPath i.project.fontDirectory version ⟨filename⟩] else []
  cached ++ ((i.options.mirrorOf i.project).location version filename).toOption.toList

/-- The files that a run looks at when the script has the given text. -/
def paths (i : Invocation) (script : String) : List Path :=
  let origins := match (Extraction.ofSource script i.options.extract).outcome with
    | .error _ => []
    | .ok e => e.patchSets.flatMap fun p => i.originPaths e.version p.filename
  i.options.font :: i.project.snapshotFile :: i.options.outputPath i.project :: origins

end Invocation

/-! ## Reports of errors -/

/-- A message after its mark, with the lines after the first one indented. -/
def indented (mark margin message : String) : String :=
  mark ++ ("\n" ++ margin).intercalate ((message.splitOn "\n"))

/-- The causes one below the other, numbered if there are several. -/
def causesText (causes : List String) : String :=
  match causes with
  | [cause] => indented "    " "    " cause
  | causes =>
    "\n".intercalate (causes.zipIdx.map fun (cause, n) => indented ("    " ++ toString n ++ ": ") "       " cause)

def errorText (font : Path) (e : Error) : String :=
  "Error: Failed to generate constraints for " ++ font.text ++ "\n\nCaused by:\n" ++ causesText e.causes ++ "\n"

/-! ## Exits -/

inductive Exit where
  | inquiry (inquiry : Inquiry)
  | usage (fault : UsageFault)
  | finished
  | failed (text : String)
  deriving DecidableEq, Repr

def Exit.status : Exit → Nat
  | .inquiry _ => 0
  | .finished => 0
  | .failed _ => 1
  | .usage _ => 2

/-- How a run on a file tree ends, with the tree and the events that it leaves. -/
structure Ending where
  exit : Exit
  tree : FileTree
  events : List Event

variable (L : Libraries)

def Invocation.execute (i : Invocation) (t : FileTree) : Ending :=
  let step := i.project.run L i.options t
  match step.report.outcome with
  | .error e => ⟨.failed (errorText i.options.font e), step.state, step.report.events⟩
  | .ok _ => ⟨.finished, step.state, step.report.events⟩

/-- The whole program on a file tree. -/
def execute (arguments : List String) (environmentRoot : Option String) (workingDirectory : String)
    (t : FileTree) : Ending :=
  match command arguments environmentRoot workingDirectory with
  | .error fault => ⟨.usage fault, t, []⟩
  | .ok (.inquire inquiry) => ⟨.inquiry inquiry, t, []⟩
  | .ok (.run i) => i.execute L t

end IconConstraints.CommandLine
