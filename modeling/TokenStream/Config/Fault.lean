import TokenStream.Decimal.Layout
import TokenStream.Json.Numbers
import TokenStream.Text.Inspect

/-!
# Complaints about configurations

A configuration file may be no JSON document, or a document that is no configuration: a name
that nothing has, a setting that is given twice, or a value of the wrong type.
-/

namespace TokenStream
namespace Config

/-- A value that was found where another type was wanted. -/
inductive Found where
  | null
  | boolean (value : Bool)
  | number (value : Json.Number)
  | string (value : List Char)
  | list
  | object
deriving DecidableEq, Repr

/-- A text between grave accents. -/
def graved (cs : List Char) : List Char := '\x60' :: cs ++ ['\x60']

/-- The description of a value of the wrong type. -/
def Found.text : Found → List Char
  | null => "null".toList
  | boolean value => "boolean ".toList ++ graved (if value then "true".toList else "false".toList)
  | number (.integer value) => "integer ".toList ++ graved (Decimal.intText false value)
  | number (.floating value) =>
    "floating point ".toList ++ graved (Decimal.Layout.json.text value)
  | string value => "string ".toList ++ Text.inspect value
  | list => "sequence".toList
  | object => "map".toList

/-- Why a file is not a configuration. -/
inductive Cause where
  | malformed (cause : Json.Cause)
  | unknownVariant (name : List Char) (wanted : List (List Char))
  | duplicateField (name : List Char)
  | invalidType (found : Found) (wanted : List Char)
deriving DecidableEq, Repr

/-- The names of which one is wanted. -/
def alternatives : List (List Char) → List Char
  | [] => []
  | [a] => graved a
  | [a, b] => graved a ++ " or ".toList ++ graved b
  | names => "one of ".toList ++ List.intercalate ", ".toList (names.map graved)

/-- The wording of a cause. -/
def Cause.message : Cause → List Char
  | malformed cause => cause.message
  | unknownVariant name wanted =>
    "unknown variant ".toList ++ graved name ++ ", expected ".toList ++ alternatives wanted
  | duplicateField name => "duplicate field ".toList ++ graved name
  | invalidType found wanted =>
    "invalid type: ".toList ++ found.text ++ ", expected ".toList ++ wanted

/-- The sorts of causes. -/
inductive FaultKind where
  /-- The text ended too early. -/
  | unfinished
  /-- The text is not a JSON document. -/
  | malformed
  /-- The document is not a configuration. -/
  | unfit
deriving DecidableEq, Repr

/-- The sort of a cause. -/
def Cause.kind : Cause → FaultKind
  | malformed (.ended _) => .unfinished
  | malformed _ => .malformed
  | _ => .unfit

/-- A cause and the mark it bears. -/
structure Fault where
  cause : Cause
  mark : Json.Mark
deriving DecidableEq, Repr

/-- The wording of a complaint, with its line and column. -/
def Fault.message (f : Fault) : List Char :=
  f.cause.message ++ " at line ".toList ++ Decimal.natText f.mark.line ++
    " column ".toList ++ Decimal.natText f.mark.column

/-- A complaint about the form of the document. -/
def Fault.ofJson (f : Json.Fault) : Fault := ⟨.malformed f.cause, f.mark⟩

end Config
end TokenStream
