import IconConstraints.CommandLine.Arguments
import IconConstraints.Project

/-!
# Texts about the command line

What is shown when help or the version is asked for, and when the arguments are
at fault.
-/

namespace IconConstraints.CommandLine

def version : String := "0.1.0"

def synopsis : String := "Usage: " ++ Project.generator ++ " [OPTIONS] <FONT>"

def ValueOption.summary : ValueOption → String
  | .projectRoot => "    --project-root <DIRECTORY>   the project [environment: GLYPHRULES_PROJECT_ROOT]"
  | .output => "-o, --output <FILE>              where the table is written"
  | .mirror => "    --mirror <DIRECTORY>         where the origin fonts are"
  | .mirrorTemplate =>
    "    --mirror-template <TEMPLATE> where a font is in the mirror [default: " ++ Mirror.standardTemplate ++ "]"

def Flag.summary : Flag → String
  | .noCache => "    --no-cache                   neither read nor write the caches"
  | .verbose => "-v, --verbose                    tell more"

def Inquiry.summary : Inquiry → String
  | .help => "-h, --help                       show this text"
  | .version => "-V, --version                    show the version"

def summaries : List String :=
  [ValueOption.projectRoot, .output, .mirror, .mirrorTemplate].map ValueOption.summary
    ++ [Flag.noCache, .verbose].map Flag.summary ++ [Inquiry.help, .version].map Inquiry.summary

def helpText : String :=
  "Compile Nerd Fonts patch-set rules into a codepoint constraint table\n\n" ++ synopsis ++ "\n\nOptions:\n"
    ++ "\n".intercalate (summaries.map ("  " ++ ·)) ++ "\n"

def versionText : String :=
  Project.generator ++ " " ++ version ++ "\n"

def Inquiry.answer : Inquiry → String
  | .help => helpText
  | .version => versionText

def UsageFault.message : UsageFault → String
  | .unknownOption => "unexpected option"
  | .missingValue => "a value is required for an option"
  | .unneededValue => "a flag takes no value"
  | .repeated => "an option is given more than once"
  | .extraArgument => "more than one font is given"
  | .missingFont => "the font is missing"

def UsageFault.text (fault : UsageFault) : String :=
  "error: " ++ fault.message ++ "\n\n" ++ synopsis ++ "\n"

end IconConstraints.CommandLine
