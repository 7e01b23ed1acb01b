import TokenStream.Event.Basic

/-!
# Filtering of events

Which events a log shows.

**Input** a general level and levels for targets.

**Algorithm** of the targets that an event's target starts with, the longest decides; if there
is none, the general level does.
-/

namespace TokenStream

/-- A general level and levels for targets. -/
structure Filter where
  general : Level
  targets : List (List Char × Level)
deriving DecidableEq, Repr

namespace Filter

/-- The longer of two targets with their levels; the first if they are equally long. -/
def longer (a b : List Char × Level) : List Char × Level :=
  if a.1.length < b.1.length then b else a

/-- The level that decides on a target. -/
def threshold (f : Filter) (target : List Char) : Level :=
  match f.targets.filter fun entry => entry.1.isPrefixOf target with
  | [] => f.general
  | entry :: entries => (entries.foldl longer entry).2

def enables (f : Filter) (target : List Char) (level : Level) : Bool :=
  level.passes (f.threshold target)

def shows (f : Filter) (e : Event) : Bool :=
  f.enables e.target e.level

end Filter

/-- The filter of a configuration: a level for each phase, and the general level. -/
def Config.filter (config : Config) : Filter where
  general := config.logLevel
  targets :=
    [(Phase.lexer.target, config.levelFor .lexer), (Phase.cli.target, config.levelFor .cli)]

end TokenStream
