/-!
# Help texts

What the command line tells about itself when it is asked to.
-/

namespace TokenStream
namespace CommandLine

/-- Name and version. -/
def versionText : String := "lamb 0.1.0\n"

def shortHelpLines : List String := [
  "Lamb expression language - token stream printer",
  "",
  "Usage: lamb [OPTIONS] [FILE]",
  "",
  "Arguments:",
  "  [FILE]  Source file to tokenize (default: stdin)",
  "",
  "Options:",
  "      --config <CONFIG>          Configuration file path (default: ./lamb.json if present)",
  "      --format <FORMAT>          Token output format: \"text\" or \"json\"",
  "      --log-level <LOG_LEVEL>    Log level: \"silent\", \"error\", \"warn\", \"info\", \"debug\", \"trace\"",
  "      --log-format <LOG_FORMAT>  Log output format [default: compact] [possible values: pretty, compact, json]",
  "  -h, --help                     Print help (see more with '--help')",
  "  -V, --version                  Print version"]

def longHelpLines : List String := [
  "Lamb expression language - token stream printer",
  "",
  "Usage: lamb [OPTIONS] [FILE]",
  "",
  "Arguments:",
  "  [FILE]",
  "          Source file to tokenize (default: stdin)",
  "",
  "Options:",
  "      --config <CONFIG>",
  "          Configuration file path (default: ./lamb.json if present)",
  "",
  "      --format <FORMAT>",
  "          Token output format: \"text\" or \"json\"",
  "",
  "      --log-level <LOG_LEVEL>",
  "          Log level: \"silent\", \"error\", \"warn\", \"info\", \"debug\", \"trace\"",
  "",
  "      --log-format <LOG_FORMAT>",
  "          Log output format",
  "",
  "          Possible values:",
  "          - pretty:  彩色格式化（开发使用）",
  "          - compact: 紧凑格式",
  "          - json:    JSON 格式（工具集成）",
  "          ",
  "          [default: compact]",
  "",
  "  -h, --help",
  "          Print help (see a summary with '-h')",
  "",
  "  -V, --version",
  "          Print version"]

/-- Lines as a text, each with its newline. -/
def joinLines (lines : List String) : List Char :=
  lines.flatMap fun line => line.toList ++ ['\n']

end CommandLine
end TokenStream
