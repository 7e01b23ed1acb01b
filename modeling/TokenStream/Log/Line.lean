import TokenStream.Event.Basic
import TokenStream.Json.Text

/-!
# Lines of a log

**Layouts** a compact line has the level, the message and the fields; a JSON line is an object
with the level, the message among the fields, and the target. The pretty layout, which is meant
for reading on a terminal, puts the level and the target first and sets the line off by a blank
line.

A message on a terminal must not steer it: in the compact and the pretty layout the controls
that terminals obey are written as escapes wherever a message is shown.
-/

namespace TokenStream
namespace Log

inductive Layout where
  | pretty
  | compact
  | json
deriving DecidableEq, Repr

/-- The controls that terminals obey. -/
def isTerminalControl (c : Char) : Bool :=
  c = '\x1b' || c = '\x07' || c = '\x08' || c = '\x0c' || c = '\x7f'

/-- One character of a message. -/
def messageChar (c : Char) : List Char :=
  if isTerminalControl c then
    '\\' :: 'x' :: List.replicate (2 - (Text.hexText c.toNat).length) '0' ++ Text.hexText c.toNat
  else if 0x80 ≤ c.toNat && c.toNat ≤ 0x9f then
    ['\\', 'u', '\x7b'] ++ Text.hexText c.toNat ++ ['\x7d']
  else [c]

/-- A message without the controls that terminals obey. -/
def messageText (cs : List Char) : List Char :=
  cs.flatMap messageChar

/-- The value of a field by itself: words stand between quotes. -/
def valueText : FieldValue → List Char
  | .count n => Decimal.natText n
  | .shown text => text
  | .word text => Text.inspect text

/-- A field of a compact line. A field with the name of the message is shown like a message. -/
def compactField (f : Field) : List Char :=
  if f.name = Event.messageName then ' ' :: messageText f.value.text
  else ' ' :: f.name ++ '=' :: valueText f.value

/-- A compact line, with its newline. -/
def compactLine (e : Event) : List Char :=
  let label := e.level.label
  List.replicate (5 - label.length) ' ' ++ label ++ ' ' :: messageText e.message ++
    e.fields.flatMap compactField ++ ['\n']

def prettyField (f : Field) : List Char :=
  if f.name = Event.messageName then ", ".toList ++ messageText f.value.text
  else ", ".toList ++ f.name ++ ": ".toList ++ valueText f.value

/-- A pretty line, set off by a blank line. -/
def prettyLine (e : Event) : List Char :=
  let label := e.level.label
  "  ".toList ++ List.replicate (5 - label.length) ' ' ++ label ++ ' ' :: e.target ++
    ": ".toList ++ messageText e.message ++ e.fields.flatMap prettyField ++ "\n\n".toList

def jsonValue : FieldValue → List Char
  | .count n => Decimal.natText n
  | .shown text => Json.stringText text
  | .word text => Json.stringText text

/-- A member of an object, with the comma in front of it. -/
def jsonField (f : Field) : List Char :=
  ',' :: Json.stringText f.name ++ ':' :: jsonValue f.value

def jsonLine (e : Event) : List Char :=
  "\x7b\"level\":".toList ++ Json.stringText e.level.label ++
    ",\"fields\":\x7b\"message\":".toList ++ Json.stringText e.message ++
    e.fields.flatMap jsonField ++ "\x7d,\"target\":".toList ++ Json.stringText e.target ++
    "\x7d\n".toList

def Layout.line : Layout → Event → List Char
  | pretty => prettyLine
  | compact => compactLine
  | json => jsonLine

end Log
end TokenStream
