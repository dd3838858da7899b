import IconConstraints.Codepoint
import IconConstraints.Evaluation.EvalFault
import IconConstraints.Expression.SyntaxFault
import IconConstraints.Source.LexFault

/-!
# Why a run fails

Every error ends the run.  A condition that only leaves out a codepoint is an
event instead.
-/

namespace IconConstraints

/-! ## Reading the script -/

inductive ParseFault where
  | lexical (fault : Source.LexFault)
  | syntactic (fault : SyntaxFault)
  | noPatcherClass
  | noSetupRoutine
  deriving DecidableEq, Repr

def ParseFault.message : ParseFault → String
  | .lexical fault => fault.message
  | .syntactic fault => fault.message
  | .noPatcherClass => "class font_patcher not found"
  | .noSetupRoutine => "font_patcher has no setup_patch_set routine"

/-- Why a dict of the script is not a patch set. -/
inductive PatchSetFault where
  | unevaluable (key : String) (cause : EvalFault)
  | missingKey (key : String)
  | notString (key : String)
  | notCodepoint (key : String) (v : Value)
  | spanReversed (first last : Codepoint)
  | exactWithStart (start : Codepoint)
  | packedWithoutStart
  | scaleRulesNotDict (v : Value)
  | scaleRulesWithoutGroups (v : Value)
  | groupsNotList (v : Value)
  | groupNotIterable (v : Value)
  | shiftModeNotString (v : Value)
  | attributesNotDict (v : Value)
  | attributeKey (v : Value)
  | noDefaultAttributes
  | entryNotDict (v : Value)
  | paramsNotDict (v : Value)
  | attributeNotString (key : String) (v : Value)
  | paramNotNumber (key : String) (v : Value)
  | overlapAndPadding (overlap padding : Float)

def PatchSetFault.message : PatchSetFault → String
  | .unevaluable key cause => "cannot evaluate key '" ++ key ++ "': " ++ cause.message
  | .missingKey key => "missing key '" ++ key ++ "'"
  | .notString key => "'" ++ key ++ "' must be a string"
  | .notCodepoint key v => "'" ++ key ++ "' must be a codepoint, got " ++ v.text
  | .spanReversed first last =>
    "SymStart " ++ Text.hex first ++ " is after SymEnd " ++ Text.hex last
  | .exactWithStart start => "exact mapping must not set SrcStart (got " ++ Text.hex start ++ ")"
  | .packedWithoutStart => "packed mapping requires SrcStart"
  | .scaleRulesNotDict v => "ScaleRules must be a dict, got " ++ v.text
  | .scaleRulesWithoutGroups v => "scale rule format " ++ v.text ++ " not implemented"
  | .groupsNotList v => "ScaleGroups must be a list, got " ++ v.text
  | .groupNotIterable v => "scale group must be iterable, got " ++ v.text
  | .shiftModeNotString v => "ShiftMode must be a string, got " ++ v.text
  | .attributesNotDict v => "Attributes must be a dict, got " ++ v.text
  | .attributeKey v => "attribute key must be 'default' or a codepoint, got " ++ v.text
  | .noDefaultAttributes => "Attributes has no 'default' entry"
  | .entryNotDict v => "attribute entry must be a dict, got " ++ v.text
  | .paramsNotDict v => "params must be a dict, got " ++ v.text
  | .attributeNotString key v => "attribute '" ++ key ++ "' must be a string, got " ++ v.text
  | .paramNotNumber key v => "param '" ++ key ++ "' must be numeric, got " ++ v.text
  | .overlapAndPadding overlap padding =>
    "overlap (" ++ Decimal.plain overlap ++ ") and ypadding (" ++ Decimal.plain padding ++
      ") are mutually exclusive"

/-! ## Mapping -/

/-- Why a patch set does not fit the destination font. -/
inductive MappingFault where
  | needsCharacterMap (filename : String)
  | destinationMissing (destination origin : Codepoint)
  | alreadyClaimed (destination : Codepoint) (owner : String)
  deriving DecidableEq, Repr

def MappingFault.message : MappingFault → String
  | .needsCharacterMap filename =>
    "packed mapping needs the character map of " ++ filename ++ ", which is not an outline font"
  | .destinationMissing destination origin =>
    "destination codepoint " ++ Text.hex destination ++ " (origin " ++ Text.hex origin ++
      ") is missing from the destination font"
  | .alreadyClaimed destination owner =>
    "destination codepoint " ++ Text.hex destination ++ " is already claimed by '" ++ owner ++ "'"

/-! ## Files and fonts -/

/-- Why a file cannot be read or written. -/
inductive IoFault where
  | notFound
  | notADirectory
  | isADirectory
  | alreadyExists
  | busy
  | nameTooLong
  | nulInName
  | notUnicode
  | located (path : String) (fault : IoFault)
  | other (text : String)
  deriving DecidableEq, Repr

def IoFault.message : IoFault → String
  | .notFound => "No such file or directory (os error 2)"
  | .notADirectory => "Not a directory (os error 20)"
  | .isADirectory => "Is a directory (os error 21)"
  | .alreadyExists => "File exists (os error 17)"
  | .busy => "Device or resource busy (os error 16)"
  | .nameTooLong => "File name too long (os error 36)"
  | .nulInName => "file name contained an unexpected NUL byte"
  | .notUnicode => "stream did not contain valid UTF-8"
  | .located path fault => path ++ ": " ++ fault.message
  | .other text => text

/-- Why a file is not an outline font. -/
inductive FontFault where
  | unparsable (reason : String)
  | noOutlines
  | tooLarge (size limit : Nat)
  | other (text : String)
  deriving DecidableEq, Repr

def FontFault.message : FontFault → String
  | .unparsable reason => "Failed to parse font file: " ++ reason
  | .noOutlines => "font has no outline table"
  | .tooLarge size limit =>
    "Font file too large: " ++ toString size ++ " bytes (max: " ++ toString limit ++ " bytes)"
  | .other text => text

/-- Why an origin font cannot be obtained. -/
inductive FetchFault where
  | unsafeFilename
  | unreadable (location : String) (fault : IoFault)
  | unavailable (text : String)
  deriving DecidableEq, Repr

def FetchFault.message : FetchFault → String
  | .unsafeFilename => "origin font filename must be a plain relative path"
  | .unreadable location fault => location ++ ": " ++ fault.message
  | .unavailable text => text

/-! ## Errors -/

inductive Error where
  | parse (line : Nat) (fault : ParseFault)
  | missingVersion
  | config (patchSet : String) (fault : PatchSetFault)
  | mapping (patchSet : String) (fault : MappingFault)
  /-- A scale group whose box has no width or no height. -/
  | geometry (patchSet : String) (group : Nat) (width height : Float)
  /-- Two claims to a codepoint that no policy settles. -/
  | overlap (patchSet : String) (codepoint : Codepoint)
  | fetch (filename version : String) (fault : FetchFault)
  | fontNotFound (path : String)
  | invalidFont (path : String) (fault : FontFault)
  | io (fault : IoFault)
  | json (reason : String)

namespace Error

def message : Error → String
  | .parse line fault => "Parse error at line " ++ toString line ++ ": " ++ fault.message
  | .missingVersion => "No top-level version declaration found in the patcher source"
  | .config patchSet fault => "Invalid patch set '" ++ patchSet ++ "': " ++ fault.message
  | .mapping patchSet fault => "Mapping error in patch set '" ++ patchSet ++ "': " ++ fault.message
  | .geometry patchSet group width height =>
    "Degenerate scale group #" ++ toString group ++ " in patch set '" ++ patchSet ++
      "': group bounds are " ++ Decimal.plain width ++ " x " ++ Decimal.plain height ++ " font units"
  | .overlap patchSet codepoint =>
    "Unknown case of overlap for codepoint " ++ Text.hex codepoint ++ " in patch set '" ++ patchSet ++ "'"
  | .fetch filename version fault =>
    "Failed to fetch origin font '" ++ filename ++ "' (version " ++ version ++ "): " ++ fault.message
  | .fontNotFound path => "Font file not found: " ++ path
  | .invalidFont path fault => "Invalid font file at " ++ path ++ ": " ++ fault.message
  | .io fault => "I/O error: " ++ fault.message
  | .json reason => "JSON error: " ++ reason

def isFetch : Error → Bool
  | .fetch .. => true
  | _ => false

def isFontNotFound : Error → Bool
  | .fontNotFound _ => true
  | _ => false

/-- The messages from the error down to its cause. -/
def causes (e : Error) : List String :=
  match e with
  | .io fault => [e.message, fault.message]
  | .json reason => [e.message, reason]
  | e => [e.message]

def ofLexError (e : Source.LexError) : Error :=
  .parse e.line (.lexical e.fault)

def ofSyntaxError (e : SyntaxError) : Error :=
  .parse e.line (.syntactic e.fault)

end Error

end IconConstraints
