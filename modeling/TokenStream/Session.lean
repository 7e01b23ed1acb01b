import TokenStream.CommandLine.Arguments
import TokenStream.Config.Load
import TokenStream.Excerpt
import TokenStream.Listing
import TokenStream.Log.Filter

/-!
# Sessions

A whole run as a function of its arguments and of what it can read.

**Output** an exit code, the bytes of the listing, and the text of the log and of complaints. The
code is zero if all went well, one if the run failed, and two if the arguments were not
understood.
-/

namespace TokenStream

structure Session where
  code : Nat
  stdout : List UInt8
  stderr : List Char
deriving DecidableEq, Repr

namespace Session

def log (config : Config) (layout : Log.Layout) (events : List Event) : List Char :=
  (events.filter config.filter.shows).flatMap layout.line

/-- The complaint about a failure; an error in the source text is shown with its lines. -/
def complaint (source : List Char) (error : RunError) : List Char :=
  match error with
  | .lex e => e.report source
  | other => "Error: ".toList ++ other.message ++ ['\n']

/-- A run on a source text, after the configuration has been settled. -/
def onSource (config : Config) (layout : Log.Layout) (source : List Char) : Session :=
  let listing := list source config.output (Sink.empty none)
  let lines := log config layout (.configured config :: listing.events)
  match listing.outcome with
  | .ok _ => ⟨0, listing.sink.contents, lines⟩
  | .error e => ⟨1, listing.sink.contents, lines ++ complaint source e⟩

/-- The paths of the files that a run may read. -/
def neededFiles (options : CommandLine.Options) : List (List Char) :=
  let config := options.config.getD Config.usualPath
  match options.file with
  | some path => if Path.isDash path then [config] else [config, path]
  | none => [config]

/-- The run may read the stream of input. -/
def needsInput (options : CommandLine.Options) : Bool :=
  match options.file with
  | some path => Path.isDash path
  | none => true

def ofOptions (world : World) (options : CommandLine.Options) : Session :=
  let layout := options.logFormat.getD .compact
  match Config.build world options.config options.format options.logLevel with
  | .error e => ⟨1, [], complaint [] e⟩
  | .ok config =>
    match readSource world options.file with
    | .error e => ⟨1, [], log config layout [.configured config] ++ complaint [] e⟩
    | .ok source => onSource config layout source

def ofArguments (world : World) (arguments : List (List Char)) : Session :=
  match CommandLine.parse arguments with
  | .error e => ⟨2, [], e.message ++ ['\n']⟩
  | .ok (.tell text) => ⟨0, Text.utf8 text, []⟩
  | .ok (.run options) => ofOptions world options

end Session
end TokenStream
