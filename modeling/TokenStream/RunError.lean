import TokenStream.Config.Fault
import TokenStream.LexError

/-!
# What can go wrong in a run

Files that cannot be read, configurations that are not accepted, options with unknown values,
errors in the source text, and output that cannot be written.
-/

namespace TokenStream

inductive AccessCause where
  | notFound
  /-- The path leads through something that is not a directory. -/
  | notDirectory
  | isDirectory
  /-- The path, or a name in it, has too many bytes. -/
  | nameTooLong
  | zeroInName
  | notPermitted
  | notText
  /-- No more bytes are taken. -/
  | sinkFull
deriving DecidableEq, Repr

def AccessCause.message : AccessCause → List Char
  | notFound => "No such file or directory (os error 2)".toList
  | notDirectory => "Not a directory (os error 20)".toList
  | isDirectory => "Is a directory (os error 21)".toList
  | nameTooLong => "File name too long (os error 36)".toList
  | zeroInName => "file name contained an unexpected NUL byte".toList
  | notPermitted => "Permission denied (os error 13)".toList
  | notText => "stream did not contain valid UTF-8".toList
  | sinkFull => "sink full".toList

inductive RunError where
  /-- A file or stream could not be used. -/
  | io (path : List Char) (cause : AccessCause)
  | config (path : List Char) (fault : Config.Fault)
  | invalidOption (option value : List Char)
  | lex (error : LexError)
  /-- The tokens could not be written as JSON. -/
  | encode (cause : AccessCause)
deriving DecidableEq, Repr

def RunError.message : RunError → List Char
  | io path cause => "Cannot read '".toList ++ path ++ "': ".toList ++ cause.message
  | config path fault => "Invalid config '".toList ++ path ++ "': ".toList ++ fault.message
  | invalidOption option value =>
    "Invalid value '".toList ++ value ++ "' for --".toList ++ option
  | lex error => error.text
  | encode cause => "Failed to encode tokens: ".toList ++ cause.message

end TokenStream
