import Pipework.CommandLine.Words

/-!
# How the program is used

The texts for those who ask for help, and for words that give no command.
-/

namespace Pipework.CommandLine

/-- The name and the version of the program. -/
def versionText : String := "atompipe 0.1.0"

/-- How the program is called. -/
def usageText : String := "\n".intercalate [
  "Parse, validate and execute atom pipelines",
  "",
  "Usage: atompipe [OPTIONS] <COMMAND>",
  "",
  "Commands:",
  "  run         Run a pipeline file (DSL, JSON or YAML)",
  "  exec        Run DSL text given on the command line",
  "  validate    Check that a pipeline parses and every atom is registered",
  "  convert     Convert a pipeline between DSL, JSON and YAML",
  "  list-atoms  List registered atoms",
  "  history     Show run history",
  "  help        Print this message or the help of the given subcommand(s)",
  "",
  "Options:",
  "  -v, --verbose          Enable verbose logging",
  "  -c, --config <CONFIG>  Path to a YAML runtime configuration file",
  "  -h, --help             Print help",
  "  -V, --version          Print version"]

namespace Halt

/-- Is nothing wrong, and only a text asked for? -/
def isWish (h : Halt) : Bool :=
  h == .help || h == .version

/-- What is said to the user. -/
def message : Halt → String
  | .help | .noWords => usageText
  | .version => versionText
  | .missingCommand => "error: 'atompipe' requires a subcommand but one was not provided"
  | .unknownCommand word => "error: unrecognized subcommand '" ++ word ++ "'"
  | .unknownArgument word => "error: unexpected argument '" ++ word ++ "' found"
  | .missingOperand name => "error: the required argument <" ++ name ++ "> was not provided"
  | .missingValue name => "error: a value is required for '" ++ name ++ "' but none was supplied"
  | .refusedValue name value | .malformedValue name value =>
    "error: invalid value '" ++ value ++ "' for '" ++ name ++ "'"
  | .surplusValue name => "error: unexpected value for '" ++ name ++ "' found; no more were expected"
  | .repeated name => "error: the argument '" ++ name ++ "' cannot be used multiple times"
  | .conflict name other => "error: the argument '" ++ name ++ "' cannot be used with '" ++ other ++ "'"

/-- The exit status. -/
def exitStatus (h : Halt) : Nat :=
  if h.isWish then 0 else 2

end Halt

end Pipework.CommandLine
