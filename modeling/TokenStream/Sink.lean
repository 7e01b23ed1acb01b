import TokenStream.Text.Utf8

/-!
# Sinks

Where output goes: a sink takes bytes, all that it is given or only so many in all.

**Algorithm** a sink with room for fewer bytes than it is given takes as many as it has room
for and fails; being given nothing never fails.

**Results** what a sink has taken is what it was given, cut off at its room.
-/

namespace TokenStream

structure Sink where
  /-- The bytes taken, the last one first. -/
  taken : List UInt8
  /-- How many more bytes can be taken, if there is a limit. -/
  room : Option Nat
deriving DecidableEq, Repr

namespace Sink

/-- An empty sink with a limit or without. -/
def empty (limit : Option Nat) : Sink := ⟨[], limit⟩

def contents (s : Sink) : List UInt8 := s.taken.reverse

/-- The sink after it was given some bytes, and whether it took them all. -/
def write (s : Sink) (bytes : List UInt8) : Bool × Sink :=
  match s.room with
  | none => (true, ⟨bytes.reverse ++ s.taken, none⟩)
  | some room =>
    (bytes.length ≤ room, ⟨(bytes.take room).reverse ++ s.taken, some (room - bytes.length)⟩)

def writeText (s : Sink) (cs : List Char) : Bool × Sink :=
  s.write (Text.utf8 cs)

@[simp] theorem contents_empty (limit : Option Nat) : (empty limit).contents = [] := rfl

theorem contents_write_none (taken bytes : List UInt8) :
    ((Sink.mk taken none).write bytes).2.contents = (Sink.mk taken none).contents ++ bytes := by
  simp [write, contents]

theorem contents_write_some (taken bytes : List UInt8) (room : Nat) :
    ((Sink.mk taken (some room)).write bytes).2.contents =
      (Sink.mk taken (some room)).contents ++ bytes.take room := by
  simp [write, contents]

end Sink
end TokenStream
