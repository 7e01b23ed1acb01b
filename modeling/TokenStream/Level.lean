import TokenStream.Decimal.Layout

/-!
# Levels of detail

How severe an event is, and which events a threshold lets through.

**Names** a level is written in lower case in a configuration and in capitals in a log; on a
command line any mixture of cases names it, and `silent` names the least talkative level.

**Results** a threshold lets a level through if the level is at least as severe, so that what
passes one threshold passes every lower one.
-/

namespace TokenStream

inductive Level where
  | trace
  | debug
  | info
  | warn
  | error
deriving DecidableEq, Repr

namespace Level

/-- All levels, from the most detailed to the most severe. -/
def all : List Level := [trace, debug, info, warn, error]

def severity : Level → Nat
  | trace => 0
  | debug => 1
  | info => 2
  | warn => 3
  | error => 4

/-- A threshold lets this level through. -/
def passes (level threshold : Level) : Bool :=
  threshold.severity ≤ level.severity

def name : Level → List Char
  | trace => ['t', 'r', 'a', 'c', 'e']
  | debug => ['d', 'e', 'b', 'u', 'g']
  | info => ['i', 'n', 'f', 'o']
  | warn => ['w', 'a', 'r', 'n']
  | error => ['e', 'r', 'r', 'o', 'r']

def label : Level → List Char
  | trace => ['T', 'R', 'A', 'C', 'E']
  | debug => ['D', 'E', 'B', 'U', 'G']
  | info => ['I', 'N', 'F', 'O']
  | warn => ['W', 'A', 'R', 'N']
  | error => ['E', 'R', 'R', 'O', 'R']

/-- The name with a capital, as it stands in a description. -/
def capitalized : Level → List Char
  | trace => ['T', 'r', 'a', 'c', 'e']
  | debug => ['D', 'e', 'b', 'u', 'g']
  | info => ['I', 'n', 'f', 'o']
  | warn => ['W', 'a', 'r', 'n']
  | error => ['E', 'r', 'r', 'o', 'r']

/-- The level with this name in a configuration. -/
def ofName? (w : List Char) : Option Level :=
  all.find? fun level => level.name == w

theorem passes_iff {level threshold : Level} :
    level.passes threshold = true ↔ threshold.severity ≤ level.severity :=
  decide_eq_true_iff

/-- The lowest threshold lets everything through. -/
theorem passes_trace (level : Level) : level.passes trace = true :=
  passes_iff.mpr (Nat.zero_le level.severity)

theorem passes_trans {a b c : Level} (hab : a.passes b = true) (hbc : b.passes c = true) :
    a.passes c = true :=
  passes_iff.mpr (Nat.le_trans (passes_iff.mp hbc) (passes_iff.mp hab))

end Level
end TokenStream
