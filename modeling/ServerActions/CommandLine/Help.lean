import ServerActions.CommandLine.Arguments

namespace ServerActions.CommandLine

def lines (texts : List String) : String :=
  String.join (texts.map (· ++ "\n"))

def HelpTopic.text : HelpTopic → String
  | program =>
    lines
      ["Generate server actions from a troute declaration file",
        "",
        "Usage: troute [OPTIONS] <COMMAND>",
        "",
        "Commands:",
        "  generate  Regenerate actions. Needed whenever troute's queries change",
        "  check     Verify the generated actions are up to date without writing",
        "  help      Print this message or the help of the given subcommand(s)",
        "",
        "Options:",
        "  -v, --verbose          Run with verbose logging",
        "      --config <CONFIG>  Path to the config file [default: troute.toml, if present]",
        "  -h, --help             Print help",
        "  -V, --version          Print version"]
  | generate =>
    lines
      ["Regenerate actions. Needed whenever troute's queries change",
        "",
        "Usage: troute generate [OPTIONS] [PATH]",
        "",
        "Arguments:",
        "  [PATH]  Path to the troute file",
        "",
        "Options:",
        "      --lenient          Allow entry points that have no matching import",
        "      --dry-run          Print the generated module instead of writing it",
        "      --json             Print a JSON report",
        "  -v, --verbose          Run with verbose logging",
        "      --config <CONFIG>  Path to the config file [default: troute.toml, if present]",
        "  -h, --help             Print help"]
  | check =>
    lines
      ["Verify the generated actions are up to date without writing",
        "",
        "Usage: troute check [OPTIONS] [PATH]",
        "",
        "Arguments:",
        "  [PATH]  Path to the troute file",
        "",
        "Options:",
        "      --lenient          Allow entry points that have no matching import",
        "  -v, --verbose          Run with verbose logging",
        "      --config <CONFIG>  Path to the config file [default: troute.toml, if present]",
        "  -h, --help             Print help"]
  | help =>
    lines
      ["Print this message or the help of the given subcommand(s)",
        "",
        "Usage: troute help [COMMAND]...",
        "",
        "Arguments:",
        "  [COMMAND]...  Print help for the subcommand(s)"]

def UsageError.message : UsageError → String
  | unknownArgument => "unexpected argument"
  | invalidCommand => "unrecognized subcommand"
  | missingCommand => "a subcommand is required"
  | noArguments => "a subcommand is required"
  | invalidValue => "a value is required"
  | repeatedOption => "an argument cannot be used multiple times"
  | needlessValue => "unexpected value"

end ServerActions.CommandLine
