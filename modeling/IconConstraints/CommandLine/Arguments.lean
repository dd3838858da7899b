/-!
# Arguments of the command line

The one positional argument is the destination font.  Options may be clustered,
and values may be attached or follow.  An option that is given twice, an unknown
one and a missing value are faults of usage, unless help or the version was asked
for before.
-/

namespace IconConstraints.CommandLine

/-! ## Options -/

inductive ValueOption where
  | projectRoot
  | output
  | mirror
  | mirrorTemplate
  deriving DecidableEq, Repr

inductive Flag where
  | noCache
  | verbose
  deriving DecidableEq, Repr

/-- What is asked for instead of a run. -/
inductive Inquiry where
  | help
  | version
  deriving DecidableEq, Repr

inductive Switch where
  | value (option : ValueOption)
  | flag (flag : Flag)
  | inquiry (inquiry : Inquiry)
  deriving DecidableEq, Repr

def long? : String → Option Switch
  | "project-root" => some (.value .projectRoot)
  | "output" => some (.value .output)
  | "mirror" => some (.value .mirror)
  | "mirror-template" => some (.value .mirrorTemplate)
  | "no-cache" => some (.flag .noCache)
  | "verbose" => some (.flag .verbose)
  | "help" => some (.inquiry .help)
  | "version" => some (.inquiry .version)
  | _ => none

def short? : Char → Option Switch
  | 'o' => some (.value .output)
  | 'v' => some (.flag .verbose)
  | 'h' => some (.inquiry .help)
  | 'V' => some (.inquiry .version)
  | _ => none

inductive UsageFault where
  | unknownOption
  | missingValue
  | unneededValue
  | repeated
  | extraArgument
  | missingFont
  deriving DecidableEq, Repr

/-- What the arguments have said so far. -/
structure Draft where
  font : Option String
  values : List (ValueOption × String)
  flags : List Flag
  deriving DecidableEq, Repr

namespace Draft

def empty : Draft := ⟨none, [], []⟩

def value? (d : Draft) (option : ValueOption) : Option String :=
  d.values.lookup option

def setValue (d : Draft) (option : ValueOption) (value : String) : Except UsageFault Draft :=
  match d.value? option with
  | some _ => .error .repeated
  | none => .ok { d with values := (option, value) :: d.values }

def setFlag (d : Draft) (flag : Flag) : Except UsageFault Draft :=
  if d.flags.contains flag then .error .repeated else .ok { d with flags := flag :: d.flags }

def setFont (d : Draft) (font : String) : Except UsageFault Draft :=
  match d.font with
  | some _ => .error .extraArgument
  | none => .ok { d with font := some font }

end Draft

/-! ## Arguments -/

/-- What one argument comes to. -/
inductive Reading where
  | goOn (d : Draft)
  /-- The next argument is the value of the option. -/
  | valueFor (option : ValueOption) (d : Draft)
  | inquire (inquiry : Inquiry)
  deriving DecidableEq, Repr

def readLong (d : Draft) (body : List Char) : Except UsageFault Reading :=
  let name := String.ofList (body.takeWhile (· != '='))
  let attached := match body.dropWhile (· != '=') with
    | [] => none
    | _ :: value => some (String.ofList value)
  match long? name, attached with
  | none, _ => .error .unknownOption
  | some (.value option), some value => (d.setValue option value).map .goOn
  | some (.value option), none => .ok (.valueFor option d)
  | some _, some _ => .error .unneededValue
  | some (.flag flag), none => (d.setFlag flag).map .goOn
  | some (.inquiry inquiry), none => .ok (.inquire inquiry)

/-- A cluster of short options; the rest of it is the value of the first one that takes a value. -/
def readShort (d : Draft) : List Char → Except UsageFault Reading
  | [] => .ok (.goOn d)
  | c :: rest =>
    match short? c, rest with
    | none, _ => .error .unknownOption
    | some (.value option), [] => .ok (.valueFor option d)
    | some (.value option), '=' :: value => (d.setValue option (String.ofList value)).map .goOn
    | some (.value option), value => (d.setValue option (String.ofList value)).map .goOn
    | some (.inquiry inquiry), _ => .ok (.inquire inquiry)
    | some (.flag flag), rest =>
      match d.setFlag flag with
      | .error fault => .error fault
      | .ok d => readShort d rest

/-- A single dash is a value like any other. -/
def readArgument (d : Draft) (argument : String) : Except UsageFault Reading :=
  match argument.toList with
  | '-' :: '-' :: body => readLong d body
  | '-' :: c :: cluster => readShort d (c :: cluster)
  | _ => (d.setFont argument).map .goOn

def looksLikeOption (argument : String) : Bool :=
  match argument.toList with
  | '-' :: _ :: _ => true
  | _ => false

/-- Arguments after `--`, all of which are positional. -/
def readPositional (d : Draft) (arguments : List String) : Except UsageFault Draft :=
  arguments.foldlM Draft.setFont d

inductive Request where
  | inquire (inquiry : Inquiry)
  | run (d : Draft)
  deriving DecidableEq, Repr

def readAll (d : Draft) : List String → Except UsageFault Request
  | [] => .ok (.run d)
  | "--" :: rest => (readPositional d rest).map .run
  | argument :: rest =>
    match readArgument d argument with
    | .error fault => .error fault
    | .ok (.inquire inquiry) => .ok (.inquire inquiry)
    | .ok (.goOn d) => readAll d rest
    | .ok (.valueFor option d) =>
      match rest with
      | [] => .error .missingValue
      | value :: rest =>
        if looksLikeOption value then .error .missingValue
        else
          match d.setValue option value with
          | .error fault => .error fault
          | .ok d => readAll d rest

end IconConstraints.CommandLine
