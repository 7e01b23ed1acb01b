import TokenStream.Config.Document
import TokenStream.Files

/-!
# Where configurations come from

**Order** a file that is named must be there; a file with the usual name is used if it is there;
otherwise all settings have their defaults. The command line then overrides the format and the
general level, each on its own.
-/

namespace TokenStream
namespace Config

/-- The usual name of a configuration file. -/
def usualPath : List Char := "lamb.json".toList

/-- The configuration in what was read from a path. -/
def ofFile (path : List Char) (content : Except AccessCause (List Char)) :
    Except RunError Config :=
  match content with
  | .error cause => .error (.io path cause)
  | .ok text => (ofJson text).mapError (RunError.config path)

/-- The configuration of the file that is named, or of the usual file, or the default. -/
def load (world : World) (path : Option (List Char)) : Except RunError Config :=
  match path with
  | some path => ofFile path (world.readText path)
  | none =>
    match world.readText usualPath with
    | .error .notFound => .ok default
    | content => ofFile usualPath content

/-- The format that a word names, if one is given. -/
def overrideFormat (config : Config) (word : Option (List Char)) : Except RunError Config :=
  match word with
  | none => .ok config
  | some w =>
    match Format.ofWord? w with
    | some format => .ok { config with output := format }
    | none => .error (.invalidOption "format".toList w)

/-- The general level that a word names, if one is given. -/
def overrideLevel (config : Config) (word : Option (List Char)) : Except RunError Config :=
  match word with
  | none => .ok config
  | some w =>
    match Level.ofWord? w with
    | some level => .ok { config with logLevel := level }
    | none => .error (.invalidOption "log-level".toList w)

/-- The configuration of a run: from a file, overridden by the words on the command line. -/
def build (world : World) (path format level : Option (List Char)) : Except RunError Config := do
  let fromFile ← load world path
  let withFormat ← fromFile.overrideFormat format
  withFormat.overrideLevel level

end Config

/-- The name under which the stream of input is complained of. -/
def stdinName : List Char := "<stdin>".toList

/-- The source text: of a file, or of the stream of input if there is no path or it is a dash. -/
def readSource (world : World) (path : Option (List Char)) : Except RunError (List Char) :=
  match path with
  | none => (Text.decode world.stdin).mapError (RunError.io stdinName)
  | some path =>
    if Path.isDash path then (Text.decode world.stdin).mapError (RunError.io stdinName)
    else (world.readText path).mapError (RunError.io path)

end TokenStream
