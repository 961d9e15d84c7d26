import BranchSync.Program.Usage

/-!
# Help texts

What the program says about itself and about a command line that it does not understand.
-/

namespace BranchSync

/-- The name and version of the program. -/
def versionLine : String := "tipsync 0.1.0\n"

/-- The text of a help topic. -/
def HelpTopic.text : HelpTopic → String
  | .program =>
    "tipsync: branch tip synchronization server\n\n" ++
    "Usage: tipsync <COMMAND>\n\n" ++
    "Commands:\n" ++
    "  serve   Start the sync server\n" ++
    "  config  Print the effective configuration as TOML\n" ++
    "  help    Print this message or the help of the given subcommand(s)\n\n" ++
    "Options:\n" ++
    "  -h, --help     Print help\n" ++
    "  -V, --version  Print version\n"
  | .serve =>
    "Start the sync server\n\n" ++
    "Usage: tipsync serve [OPTIONS]\n\n" ++
    "Options:\n" ++
    "  -c, --config <CONFIG>     TOML config file; defaults are used when omitted\n" ++
    "      --bind <BIND>         Override the configured bind address\n" ++
    "      --account <ACCOUNTS>  Register an empty in-memory account (repeatable)\n" ++
    "  -h, --help                Print help\n"
  | .config =>
    "Print the effective configuration as TOML\n\n" ++
    "Usage: tipsync config [OPTIONS]\n\n" ++
    "Options:\n" ++
    "  -c, --config <CONFIG>  Config file to show; prints the defaults when omitted\n" ++
    "  -h, --help             Print help\n"
  | .help =>
    "Print this message or the help of the given subcommand(s)\n\n" ++
    "Usage: tipsync help [COMMAND]...\n"

/-- The name of an option in messages. -/
def ValueOption.name : ValueOption → String
  | .config => "--config"
  | .bind => "--bind"
  | .account => "--account"

/-- What is wrong with a command line, in one sentence. -/
def UsageError.reason : UsageError → String
  | .help _ => "help was asked for"
  | .version => "the version was asked for"
  | .missingCommand => "a command is required"
  | .unknownCommand word => s!"unrecognized subcommand '{word}'"
  | .unknownArgument word => s!"unexpected argument '{word}' found"
  | .unneededValue name => s!"unexpected value for '--{name}' found; no more were expected"
  | .missingValue o => s!"a value is required for '{o.name}' but none was supplied"
  | .badValue o value => s!"invalid value '{value}' for '{o.name}'"
  | .repeatedOption o => s!"the argument '{o.name}' cannot be used multiple times"

end BranchSync
