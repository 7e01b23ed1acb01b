import TokenStream.Text.Utf8

/-!
# Texts without control sequences

What is left of a text when it is shown without colours and without anything else that only
steers a terminal.

**Controls** tabs, newlines, form feeds and carriage returns are kept; the other control
characters are left out.

**Sequences** an escape character opens a sequence, whatever was open before. A bracket behind it
opens a command, which ends with its first letter; `P` opens a device control, whose parameters
end with a letter and are followed by a string; `]` opens a title and `X`, `^` and `_` open a
string; any other sequence ends with its first character that is not a blank or a punctuation
mark below the digits. A string ends with the byte 9C, a title with a bell. Two controls cancel
every sequence.

**Pauses** a control that is kept is kept inside an escape or a command as well, where it starts a
pause: what follows is shown, up to the next control that is left out, and there the sequence goes
on. A character beyond ASCII in a pause closes the sequence.

**Results** nothing is added and nothing is moved, and a text without controls stays as it is.
-/

namespace TokenStream
namespace Text

/-- What the next character belongs to. -/
inductive Sequence where
  | closed
  | escape
  /-- Behind an escape character and the marks that follow it. -/
  | escapeMarks
  | command
  /-- Right behind the opening of a device control. -/
  | device
  | deviceParameters
  | deviceMarks
  /-- A string, which may hold anything. -/
  | string
  | title
deriving DecidableEq, Repr

/-- The control characters that lay out a text. -/
def isLayout (c : Char) : Bool :=
  c = '\t' || c = '\n' || c = '\x0c' || c = '\r'

def isAsciiControl (c : Char) : Bool :=
  c.toNat < 0x20 || c.toNat = 0x7f

/-- The characters that are shown where no sequence is open. -/
def isKept (c : Char) : Bool :=
  !isAsciiControl c || isLayout c

/-- A code point in a range, which includes its ends. -/
def isWithin (first last : Nat) (c : Char) : Bool :=
  first ≤ c.toNat && c.toNat ≤ last

namespace Sequence

/-- What a character right behind an escape character leads to. -/
def behindEscape (c : Char) : Sequence :=
  if c = '[' then command
  else if c = ']' then title
  else if c = 'P' then device
  else if c = 'X' || c = '^' || c = '_' then string
  else if isWithin 0x20 0x2f c then escapeMarks
  else if isWithin 0x30 0x7e c then closed
  else escape

/-- Where a character leads to inside a device control, in front of its string. -/
def inDevice (s : Sequence) (c : Char) : Sequence :=
  if isWithin 0x40 0x7e c then string
  else if isWithin 0x20 0x2f c then deviceMarks
  else if isWithin 0x30 0x3f c then
    match s with
    | deviceMarks => string
    | deviceParameters => if isWithin 0x3c 0x3f c then string else deviceParameters
    | _ => deviceParameters
  else s

/-- Where a character leads to; `none` if it is shown. -/
def next? (s : Sequence) (c : Char) : Option Sequence :=
  if c = '\x1b' then some escape
  else if c = '\x18' || c = '\x1a' then some closed
  else match s with
    | closed => if isKept c then none else some closed
    | escape => if isLayout c then none else some (behindEscape c)
    | escapeMarks =>
      if isLayout c then none
      else some (if isWithin 0x30 0x7e c then closed else escapeMarks)
    | command =>
      if isLayout c then none
      else some (if isWithin 0x40 0x7e c then closed else command)
    | string => some (if 0x9c ∈ utf8 [c] then closed else string)
    | title => some (if c = '\x07' then closed else title)
    | device | deviceParameters | deviceMarks => some (s.inDevice c)

/-- The sequence that a shown character of a pause leaves. -/
def inPause (s : Sequence) (c : Char) : Sequence :=
  if c.toNat < 0x80 then s else closed

/-- What is shown of a text that starts inside a sequence, which may be in a pause. -/
def shown (s : Sequence) (paused : Bool) : List Char → List Char
  | [] => []
  | c :: cs =>
    if paused && isKept c then c :: (s.inPause c).shown true cs
    else match s.next? c with
      | some t => t.shown false cs
      | none => c :: s.shown true cs

theorem shown_sublist (s : Sequence) (paused : Bool) (cs : List Char) :
    (s.shown paused cs).Sublist cs := by
  induction cs generalizing s paused with
  | nil => exact List.Sublist.refl _
  | cons c cs ih =>
      simp only [shown]
      split
      · exact (ih _ _).cons_cons c
      · split
        · exact (ih _ _).cons c
        · exact (ih _ _).cons_cons c

theorem shown_closed_cons {c : Char} (h : isAsciiControl c = false) (paused : Bool)
    (cs : List Char) : closed.shown paused (c :: cs) = c :: closed.shown true cs := by
  have hescape : c ≠ '\x1b' := by rintro rfl; revert h; decide
  have hcancel : c ≠ '\x18' := by rintro rfl; revert h; decide
  have hsubstitute : c ≠ '\x1a' := by rintro rfl; revert h; decide
  have hkept : isKept c = true := by simp [isKept, h]
  have hpause : closed.inPause c = closed := by simp [inPause]
  cases paused with
  | true => simp [shown, hkept, hpause]
  | false => simp [shown, next?, hescape, hcancel, hsubstitute, hkept]

theorem shown_closed_eq_self {cs : List Char} (h : ∀ c ∈ cs, isAsciiControl c = false)
    (paused : Bool) : closed.shown paused cs = cs := by
  induction cs generalizing paused with
  | nil => rfl
  | cons c cs ih =>
      rw [shown_closed_cons (h c List.mem_cons_self)]
      rw [ih fun d hd => h d (List.mem_cons_of_mem c hd)]

end Sequence

/-- What is shown of a text without control sequences. -/
def plain (cs : List Char) : List Char := Sequence.closed.shown false cs

theorem plain_sublist (cs : List Char) : (plain cs).Sublist cs :=
  Sequence.shown_sublist _ _ cs

theorem plain_eq_self {cs : List Char} (h : ∀ c ∈ cs, isAsciiControl c = false) :
    plain cs = cs :=
  Sequence.shown_closed_eq_self h false

end Text
end TokenStream
