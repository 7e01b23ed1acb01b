import TokenStream.CommandLine.Help
import TokenStream.Log.Line
import TokenStream.Text.Plain

/-!
# Arguments

What a command line asks for.

**Form** options with a value, written as one argument with an equals sign or as two arguments;
two dashes, behind which everything is a file; and at most one file. Help and version are given
as soon as they are met.

**Order** arguments are taken from left to right. A value that stands in an argument of its own
waits until the next argument that is understood, or the end; only then is it looked at. So an
argument that is not understood is complained of before a value that waits.

**Complaints** what is quoted from the command line is shown without control sequences.
-/

namespace TokenStream
namespace CommandLine

/-- The options with a value. -/
inductive Flag where
  | config
  | format
  | logLevel
  | logFormat
deriving DecidableEq, Repr

namespace Flag

def all : List Flag := [config, format, logLevel, logFormat]

/-- The name of an option, without its dashes. -/
def name : Flag → List Char
  | config => "config".toList
  | format => "format".toList
  | logLevel => "log-level".toList
  | logFormat => "log-format".toList

def valueName : Flag → List Char
  | config => "CONFIG".toList
  | format => "FORMAT".toList
  | logLevel => "LOG_LEVEL".toList
  | logFormat => "LOG_FORMAT".toList

def ofName? (w : List Char) : Option Flag :=
  all.find? fun flag => flag.name == w

end Flag

/-- What a value is given for. -/
inductive Slot where
  | file
  | flag (flag : Flag)
deriving DecidableEq, Repr

/-- The text of a slot in a complaint. -/
def Slot.text : Slot → List Char
  | file => "[FILE]".toList
  | flag f => "--".toList ++ f.name ++ " <".toList ++ f.valueName ++ ['>']

/-- Why a command line is not understood. -/
inductive UsageError where
  | unexpectedArgument (argument : List Char)
  | valueRequired (slot : Slot)
  | invalidValue (value : List Char) (slot : Slot)
  | repeated (slot : Slot)
  /-- A value for an option that has none. -/
  | unexpectedValue (value : List Char) (option : List Char)
deriving DecidableEq, Repr

def UsageError.message : UsageError → List Char
  | unexpectedArgument argument =>
    "error: unexpected argument '".toList ++ Text.plain argument ++ "' found".toList
  | valueRequired slot =>
    "error: a value is required for '".toList ++ slot.text ++
      "' but none was supplied".toList
  | invalidValue value slot =>
    "error: invalid value '".toList ++ Text.plain value ++ "' for '".toList ++ slot.text ++
      "'".toList
  | repeated slot =>
    "error: the argument '".toList ++ slot.text ++ "' cannot be used multiple times".toList
  | unexpectedValue value option =>
    "error: unexpected value '".toList ++ Text.plain value ++ "' for '".toList ++ option ++
      "' found; no more were expected".toList

/-- What a run is asked for. -/
structure Options where
  file : Option (List Char)
  config : Option (List Char)
  format : Option (List Char)
  logLevel : Option (List Char)
  logFormat : Option Log.Layout
deriving DecidableEq, Repr

def Options.none : Options := ⟨Option.none, Option.none, Option.none, Option.none, Option.none⟩

/-- The layouts of a log by their names. -/
def layoutOfName? (w : List Char) : Option Log.Layout :=
  if w = "pretty".toList then some .pretty
  else if w = "compact".toList then some .compact
  else if w = "json".toList then some .json
  else none

inductive Request where
  | run (options : Options)
  | tell (text : List Char)
deriving DecidableEq, Repr

structure Taken where
  options : Options
  /-- A value that has not been looked at, or that has not come yet. -/
  waiting : Option (Slot × Option (List Char))
  named : Bool
  onlyFiles : Bool
deriving DecidableEq, Repr

namespace Taken

def none : Taken := ⟨Options.none, Option.none, false, false⟩

/-- Something has been given for the slot. -/
def has (t : Taken) : Slot → Bool
  | .file => t.options.file.isSome
  | .flag .config => t.options.config.isSome
  | .flag .format => t.options.format.isSome
  | .flag .logLevel => t.options.logLevel.isSome
  | .flag .logFormat => t.options.logFormat.isSome

/-- The options with a value for a slot. An empty text is a value for a format or a level, which
are looked at later, but not for a path or for the layout of the log. -/
def assign (options : Options) (slot : Slot) (value : List Char) : Except UsageError Options :=
  match slot with
  | .flag .format => .ok { options with format := some value }
  | .flag .logLevel => .ok { options with logLevel := some value }
  | .file =>
    if value.isEmpty then .error (.valueRequired slot)
    else .ok { options with file := some value }
  | .flag .config =>
    if value.isEmpty then .error (.valueRequired slot)
    else .ok { options with config := some value }
  | .flag .logFormat =>
    if value.isEmpty then .error (.valueRequired slot)
    else match layoutOfName? value with
      | some layout => .ok { options with logFormat := some layout }
      | Option.none => .error (.invalidValue value slot)

def settle (t : Taken) : Except UsageError Taken :=
  match t.waiting with
  | Option.none => .ok t
  | some (slot, Option.none) => .error (.valueRequired slot)
  | some (slot, some value) =>
    if t.has slot then .error (.repeated slot)
    else (assign t.options slot value).map fun options =>
      { t with options := options, waiting := Option.none }

/-- Lets a slot wait, with its value or for it. -/
def await (t : Taken) (slot : Slot) (value : Option (List Char)) : Except UsageError Taken :=
  t.settle.map fun t => { t with waiting := some (slot, value) }

def takeFile (t : Taken) (argument : List Char) : Except UsageError Taken :=
  if t.named then .error (.unexpectedArgument argument)
  else (t.await .file (some argument)).map fun t => { t with named := true }

/-- Takes an option with its value in the same argument, which does not wait. -/
def takeJoined (t : Taken) (flag : Flag) (value : List Char) : Except UsageError Taken :=
  match t.await (.flag flag) (some value) with
  | .error e => .error e
  | .ok t => t.settle

/-- Takes an argument that is neither an option nor two dashes. -/
def takeWord (t : Taken) (argument : List Char) : Except UsageError Taken :=
  match t.waiting with
  | some (slot, Option.none) => .ok { t with waiting := some (slot, some argument) }
  | _ => t.takeFile argument

end Taken

inductive Progress where
  | taken (taken : Taken)
  | tell (text : List Char)

def shortHelp : List Char := joinLines shortHelpLines

def longHelp : List Char := joinLines longHelpLines

/-- A text that is shown as soon as the value that waits is in order. -/
def tellNow (t : Taken) (text : List Char) : Except UsageError Progress :=
  t.settle.map fun _ => .tell text

/-- The name of an option and its value, if the argument has an equals sign. -/
def splitValue (cs : List Char) : List Char × Option (List Char) :=
  match cs.dropWhile (· ≠ '=') with
  | [] => (cs, none)
  | _ :: value => (cs.takeWhile (· ≠ '='), some value)

/-- Takes an option that shows a text and has no value. -/
def takeTelling (t : Taken) (name : List Char) (value : Option (List Char)) (text : List Char) :
    Except UsageError Progress :=
  match value with
  | some value => .error (.unexpectedValue value ("--".toList ++ name))
  | none => tellNow t text

/-- Takes an argument that starts with two dashes, which are left out here. -/
def takeLong (t : Taken) (argument : List Char) : Except UsageError Progress :=
  let (name, value) := splitValue argument
  if name = "help".toList then takeTelling t name value longHelp
  else if name = "version".toList then takeTelling t name value versionText.toList
  else match Flag.ofName? name, value with
    | some flag, some value => (t.takeJoined flag value).map .taken
    | some flag, none => (t.await (.flag flag) none).map .taken
    | none, _ => .error (.unexpectedArgument ("--".toList ++ name))

/-- Takes an argument that starts with one dash; `c` is the character behind it. -/
def takeShort (t : Taken) (c : Char) : Except UsageError Progress :=
  if c = 'h' then tellNow t shortHelp
  else if c = 'V' then tellNow t versionText.toList
  else .error (.unexpectedArgument ['-', c])

def takeArgument (t : Taken) (argument : List Char) : Except UsageError Progress :=
  if t.onlyFiles then (t.takeFile argument).map .taken
  else match argument with
    | ['-', '-'] => .ok (.taken { t with onlyFiles := true })
    | '-' :: '-' :: rest => takeLong t rest
    | '-' :: c :: _ => takeShort t c
    | _ => (t.takeWord argument).map .taken

/-- What is asked for once more arguments have been taken. -/
def continueWith (t : Taken) : List (List Char) → Except UsageError Request
  | [] => t.settle.map fun t => .run t.options
  | argument :: rest =>
    match takeArgument t argument with
    | .error e => .error e
    | .ok (.tell text) => .ok (.tell text)
    | .ok (.taken t) => continueWith t rest

def parse (arguments : List (List Char)) : Except UsageError Request :=
  continueWith Taken.none arguments

end CommandLine
end TokenStream
