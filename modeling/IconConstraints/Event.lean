import IconConstraints.Diagnostics
import IconConstraints.Error

/-!
# Events

What a run tells about itself while it goes on.  An event has a level, the part
of the program it comes from, and a text.
-/

namespace IconConstraints

inductive Level where
  | warn | info | debug
  deriving DecidableEq, Repr

def Level.name : Level → String
  | .warn => "WARN"
  | .info => "INFO"
  | .debug => "DEBUG"

/-- Whether events of this level are told at the verbosity `limit`. -/
def Level.within (level limit : Level) : Bool :=
  match level, limit with
  | .warn, _ => true
  | .info, .warn => false
  | .info, _ => true
  | .debug, .debug => true
  | .debug, _ => false

inductive Event where
  | setupRead (statements symbols : Nat)
  | tableNotList (line : Nat)
  | unpackSkipped (label : String)
  | patchSetDisabled (label : String)
  | patchSetRead (name : String) (first last : Codepoint) (exact : Bool)
  | extracted (version : String) (enabled candidates : Nat)
  | compiling (version : String) (patchSets : Nat)
  | snapshotSaved
  | finished (version : String) (counts : Diagnostics)
  | destinationLoaded (path : String) (glyphs : Nat)
  | tableWritten (rules : Nat) (version path : String)
  | crosswalkReused (patchSet : String)
  | crosswalkMade (patchSet : String) (pairs : Nat)
  | leftToStandIn (patchSet : String) (origin : Codepoint)
  | identityWithoutMap (patchSet filename : String)
  | identityAfter (patchSet : String) (cause : Error)
  | codepointSkipped (codepoint : Codepoint)
  | codepointsSkipped (patchSet : String) (count : Nat)
  | claimedAgain (patchSet : String) (destination : Codepoint) (owner : String)
  | snapshotLoaded (version : String) (entries : Nat)
  | snapshotUnreadable (path : String) (reason : String)
  | measuredByStandIn (patchSet : String) (origin : Codepoint)
  | memberUnmapped (patchSet : String) (origin : Codepoint)
  | memberWithoutOutline (patchSet : String) (destination : Codepoint)
  | groupUnresolved (patchSet : String) (group : Nat)
  | patchSetAdded (patchSet : String)
  | keptEarlier (patchSet : String) (codepoint : Codepoint) (owner : String)
  | overwritten (patchSet : String) (codepoint : Codepoint) (owner : String)
  | unknownStretch (stretch : String) (codepoint : Codepoint)
  | tableCompiled (codepoints rules : Nat)
  | fileWritten (bytes : Nat) (path : String)
  | fontLoaded (path : String) (glyphs unitsPerEm : Nat)
  | mirrorRead (bytes : Nat) (path : String)
  | fetching (filename version : String)
  | cacheHit (path : String)
  | unusableFont (filename version : String) (fault : FontFault)

namespace Event

def level : Event → Level
  | .identityAfter .. | .snapshotUnreadable .. | .memberWithoutOutline .. | .unknownStretch ..
  | .unusableFont .. => .warn
  | .extracted .. | .compiling .. | .snapshotSaved | .destinationLoaded .. | .tableWritten ..
  | .identityWithoutMap .. | .codepointsSkipped .. | .patchSetAdded .. | .keptEarlier ..
  | .overwritten .. | .fetching .. => .info
  | _ => .debug

def target : Event → String
  | .setupRead .. | .tableNotList .. | .unpackSkipped .. | .patchSetDisabled .. | .patchSetRead ..
  | .extracted .. => "glyphrules::extract"
  | .compiling .. | .snapshotSaved | .finished .. | .destinationLoaded .. | .tableWritten .. =>
    "glyphrules::pipeline"
  | .crosswalkReused .. | .crosswalkMade .. | .leftToStandIn .. | .identityWithoutMap ..
  | .identityAfter .. | .codepointSkipped .. | .codepointsSkipped .. | .claimedAgain ..
  | .snapshotLoaded .. | .snapshotUnreadable .. => "glyphrules::map"
  | .measuredByStandIn .. | .memberUnmapped .. | .memberWithoutOutline .. | .groupUnresolved .. =>
    "glyphrules::scale"
  | .patchSetAdded .. | .keptEarlier .. | .overwritten .. | .unknownStretch .. | .tableCompiled .. =>
    "glyphrules::compile"
  | .fileWritten .. => "glyphrules::io"
  | .fontLoaded .. => "glyphrules::fonts"
  | .mirrorRead .. | .fetching .. | .cacheHit .. | .unusableFont .. => "glyphrules::fetch"

def countsText (version : String) (d : Diagnostics) : String :=
  "version=" ++ version ++ " patch_sets=" ++ toString d.patchSets ++
    " crosswalks(reused=" ++ toString d.reusedCrosswalks ++
    ", computed=" ++ toString d.computedCrosswalks ++ ") mapped=" ++ toString d.mappedCodepoints ++
    " scale_groups=" ++ toString d.scaleGroups ++ " grouped=" ++ toString d.groupedCodepoints ++
    " codepoints=" ++ toString d.codepoints ++ " rules=" ++ toString d.rules

def text : Event → String
  | .setupRead statements symbols =>
    "setup_patch_set: " ++ toString statements ++ " statements, " ++ toString symbols ++ " bound symbols"
  | .tableNotList line => "line " ++ toString line ++ ": patch_set assignment is not a list display"
  | .unpackSkipped label => label ++ ": skipping mapping unpack"
  | .patchSetDisabled label => label ++ ": disabled"
  | .patchSetRead name first last exact =>
    "patch set '" ++ name ++ "' (" ++ Text.hex first ++ "..=" ++ Text.hex last ++ ", " ++
      (if exact then "exact" else "packed") ++ ")"
  | .extracted version enabled candidates =>
    "font-patcher " ++ version ++ ": " ++ toString enabled ++ " of " ++ toString candidates ++
      " patch sets enabled"
  | .compiling version patchSets =>
    "patcher version " ++ version ++ ", " ++ toString patchSets ++ " enabled patch sets"
  | .snapshotSaved => "crosswalk cache updated"
  | .finished version counts => countsText version counts
  | .destinationLoaded path glyphs => "destination font " ++ path ++ " (" ++ toString glyphs ++ " glyphs)"
  | .tableWritten rules version path =>
    "wrote " ++ toString rules ++ " rules for patcher " ++ version ++ " to " ++ path
  | .crosswalkReused patchSet => "reusing cached crosswalk for '" ++ patchSet ++ "'"
  | .crosswalkMade patchSet pairs => "'" ++ patchSet ++ "': " ++ toString pairs ++ " codepoints mapped"
  | .leftToStandIn patchSet origin =>
    "'" ++ patchSet ++ "': " ++ Text.hex origin ++ " is represented by its stand-in"
  | .identityWithoutMap patchSet filename =>
    "'" ++ patchSet ++ "': " ++ filename ++ " has no outline map, assuming identity"
  | .identityAfter patchSet cause => "'" ++ patchSet ++ "': " ++ cause.message ++ "; assuming identity"
  | .codepointSkipped codepoint => "Skipping missing codepoint " ++ Text.hex codepoint
  | .codepointsSkipped patchSet count =>
    "'" ++ patchSet ++ "': skipped " ++ toString count ++ " codepoints missing from the destination font"
  | .claimedAgain patchSet destination owner =>
    "'" ++ patchSet ++ "': " ++ Text.hex destination ++ " is also claimed by '" ++ owner ++
      "', resolved at merge"
  | .snapshotLoaded version entries =>
    "loaded crosswalk snapshot for version " ++ version ++ " (" ++ toString entries ++ " entries)"
  | .snapshotUnreadable path reason => "ignoring unreadable crosswalk cache " ++ path ++ ": " ++ reason
  | .measuredByStandIn patchSet origin =>
    "'" ++ patchSet ++ "': " ++ Text.hex origin ++ " measured through its stand-in"
  | .memberUnmapped patchSet origin =>
    "'" ++ patchSet ++ "': scale group member " ++ Text.hex origin ++ " is not mapped"
  | .memberWithoutOutline patchSet destination =>
    "'" ++ patchSet ++ "': scale group member " ++ Text.hex destination ++ " has no outline"
  | .groupUnresolved patchSet group =>
    "'" ++ patchSet ++ "': scale group #" ++ toString group ++ " has no resolvable member"
  | .patchSetAdded patchSet => "Extracting rules from patch set '" ++ patchSet ++ "'"
  | .keptEarlier patchSet codepoint owner =>
    "'" ++ patchSet ++ "': not overwriting " ++ Text.hex codepoint ++ " from '" ++ owner ++ "'"
  | .overwritten patchSet codepoint owner =>
    "'" ++ patchSet ++ "': overwriting " ++ Text.hex codepoint ++ " from '" ++ owner ++ "'"
  | .unknownStretch stretch codepoint =>
    "Unknown stretch rule '" ++ stretch ++ "' at " ++ Text.hex codepoint
  | .tableCompiled codepoints rules =>
    toString codepoints ++ " codepoints compiled into " ++ toString rules ++ " rules"
  | .fileWritten bytes path => "wrote " ++ toString bytes ++ " bytes to " ++ path
  | .fontLoaded path glyphs unitsPerEm =>
    "loaded " ++ path ++ " (" ++ toString glyphs ++ " glyphs, " ++ toString unitsPerEm ++ " upem)"
  | .mirrorRead bytes path => "read " ++ toString bytes ++ " bytes from " ++ path
  | .fetching filename version => "fetching " ++ filename ++ " for version " ++ version
  | .cacheHit path => "cache hit " ++ path
  | .unusableFont filename version fault =>
    filename ++ " (version " ++ version ++ ") is not a usable outline font: " ++ fault.message

end Event

end IconConstraints
