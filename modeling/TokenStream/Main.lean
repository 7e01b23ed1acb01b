import TokenStream.Session

/-!
# The program

Reads the files that a command line asks for, makes the run, and writes what it leaves behind.
-/

namespace TokenStream

/-- What the system says about a file, as far as a run tells it apart. -/
def accessCause : IO.Error → AccessCause
  | .inappropriateType _ _ details =>
    if details.toLower = "is a directory" then .isDirectory else .notDirectory
  | .invalidArgument _ _ details =>
    if details.toLower = "name too long" then .nameTooLong else .notFound
  | .permissionDenied _ _ _ => .notPermitted
  | _ => .notFound

/-- The bytes of a file, or why it cannot be read. -/
def readBytes (path : List Char) : IO (Except AccessCause ByteArray) := do
  match Path.flaw? path with
  | some cause => return .error cause
  | none =>
    try
      return .ok (← IO.FS.readBinFile (String.ofList path))
    catch e => return .error (accessCause e)

/-- The bytes of a stream up to its end. -/
partial def readStream (stream : IO.FS.Stream) (bytes : ByteArray) : IO ByteArray := do
  let more ← stream.read 65536
  if more.isEmpty then return bytes else readStream stream (bytes ++ more)

/-- What the run of a command line can read. -/
def gather (arguments : List (List Char)) : IO World := do
  match CommandLine.parse arguments with
  | .ok (.run options) =>
    let files ← (Session.neededFiles options).mapM fun path => do return (path, ← readBytes path)
    let stdin ← if Session.needsInput options then readStream (← IO.getStdin) ByteArray.empty
      else pure ByteArray.empty
    let readFile (path : List Char) :=
      match files.find? fun file => file.1 == path with
      | some file => file.2
      | none => .error .notFound
    return ⟨readFile, stdin⟩
  | _ => return ⟨fun _ => .error .notFound, ByteArray.empty⟩

end TokenStream

/-- Makes the run that the arguments ask for. -/
def main (arguments : List String) : IO UInt32 := do
  let arguments := arguments.map String.toList
  let session := TokenStream.Session.ofArguments (← TokenStream.gather arguments) arguments
  let stdout ← IO.getStdout
  stdout.write ⟨session.stdout.toArray⟩
  stdout.flush
  IO.eprint (String.ofList session.stderr)
  return UInt32.ofNat session.code
