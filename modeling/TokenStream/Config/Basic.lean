import TokenStream.Level
import TokenStream.Text.Lowercase

/-!
# Configurations

What a run is told: the format of its output and the levels of its log.

**Phases** the log has two phases, lexing and the command line around it. Lexing may have a
level of its own; the other phase always uses the general level.
-/

namespace TokenStream

inductive Format where
  | text
  | json
deriving DecidableEq, Repr

namespace Format

def all : List Format := [text, json]

def name : Format → List Char
  | text => ['t', 'e', 'x', 't']
  | json => ['j', 's', 'o', 'n']

/-- The name with a capital, as it stands in a description. -/
def capitalized : Format → List Char
  | text => ['T', 'e', 'x', 't']
  | json => ['J', 's', 'o', 'n']

/-- The format with this name in a configuration. -/
def ofName? (w : List Char) : Option Format :=
  all.find? fun format => format.name == w

/-- The format that a word names in any mixture of cases. -/
def ofWord? (w : List Char) : Option Format :=
  ofName? (Text.lowercase w)

end Format

/-- The word that names the level of a run that should say little. -/
def Level.silentName : List Char := ['s', 'i', 'l', 'e', 'n', 't']

/-- The level that a word names in any mixture of cases. -/
def Level.ofWord? (w : List Char) : Option Level :=
  let lower := Text.lowercase w
  if lower = silentName then some error else ofName? lower

/-- The parts of a run that have log levels. -/
inductive Phase where
  | lexer
  | cli
deriving DecidableEq, Repr

def Phase.name : Phase → List Char
  | lexer => ['l', 'e', 'x', 'e', 'r']
  | cli => ['c', 'l', 'i']

/-- The target that the events of a phase start with. -/
def Phase.target (p : Phase) : List Char :=
  "lamb::".toList ++ p.name

structure Config where
  output : Format
  logLevel : Level
  /-- The level of the lexing phase, if it has its own. -/
  lexerLogLevel : Option Level
deriving DecidableEq, Repr

namespace Config

/-- The configuration of a run that is told nothing. -/
def default : Config := ⟨.text, .warn, none⟩

def levelFor (config : Config) : Phase → Level
  | .lexer => config.lexerLogLevel.getD config.logLevel
  | .cli => config.logLevel

def inspect (config : Config) : List Char :=
  let lexerLevel := match config.lexerLogLevel with
    | none => "None".toList
    | some level => "Some(".toList ++ level.capitalized ++ [')']
  "DriverConfig \x7b output: ".toList ++ config.output.capitalized ++
    ", log_level: ".toList ++ config.logLevel.capitalized ++
    ", lexer_log_level: ".toList ++ lexerLevel ++ " \x7d".toList

end Config
end TokenStream
