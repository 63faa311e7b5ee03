/-! # The texts about the program itself -/
namespace CommittedRegex.CommandLine

def version : String := "0.1.0"

def versionText : String := "Trampex " ++ version ++ "\n"

private def usageLines : List String := [
  "Trampex v" ++ version,
  "",
  "USAGE:",
  "    trampex [OPTIONS] <PATTERN_FILE> [INPUT]...",
  "",
  "OPTIONS:",
  "    -h, --help             Print this help message",
  "    -v, --version          Print version information",
  "    -o, --output <FILE>    Write output to FILE (default: stdout)",
  "    --show                 Print the pattern instead of matching",
  "    --max-steps <N>        Abort a match after N driver steps",
  "    --faithful             Let zero-width repetitions loop (needs a step limit)",
  "    --verbose              Log match summaries to stderr",
  "    --trace                Log every driver step to stderr",
  "    --                     Treat every later argument as a file or input",
  "",
  "ARGUMENTS:",
  "    <PATTERN_FILE>         TOML pattern file",
  "    [INPUT]...             Strings to match (use '-' to read lines from stdin);",
  "                           without inputs the file's [[case]] entries are checked",
  "",
  "ENVIRONMENT:",
  "    TRAMPEX_MAX_STEPS      Default step limit",
  "    TRAMPEX_ZERO_WIDTH     'guard' (default) or 'faithful'",
  "",
  "EXAMPLES:",
  "    trampex scala.toml Scala Scalalala",
  "    trampex --show scala.toml",
  "    cat inputs.txt | trampex scala.toml -",
  "    trampex scala.toml -- -Scala"]

def usage : String := String.join (usageLines.map (· ++ "\n"))

end CommittedRegex.CommandLine
