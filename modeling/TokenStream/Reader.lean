import TokenStream.Scan

/-!
# Reading tokens with one token of lookahead

**State** a cursor and a slot, which holds a token that was looked at but not yet taken.

**Operations** looking at the next token fills the slot; taking the next token empties it, or
searches for a token if there is none in it. Errors and the end leave the slot empty, so that
the search is made again when it is asked for again.

**Results** taking a token makes a reader smaller, so that all tokens can be taken.
-/

namespace TokenStream

structure Reader where
  cursor : Cursor
  /-- A token that was looked at and not taken. -/
  slot : Option Token
deriving DecidableEq, Repr

namespace Reader

/-- What an operation came to, what happened, and the reader afterwards. -/
structure Step (α : Type) where
  result : Except LexError α
  events : List Event
  reader : Reader

def Step.map {α β : Type} (f : α → β) (s : Step α) : Step β :=
  ⟨s.result.map f, s.events, s.reader⟩

/-- A result as an item of an iteration, which stops at the end. -/
def item : Except LexError (Option Token) → Option (Except LexError Token)
  | .ok none => none
  | .ok (some t) => some (.ok t)
  | .error e => some (.error e)

/-- A reader that goes on from a cursor. -/
def ofCursor (c : Cursor) : Reader := ⟨c, none⟩

def ofSource (source : List Char) : Reader := ofCursor (Cursor.ofSource source)

def creation (r : Reader) : Event :=
  .readerCreated (Text.byteLength r.cursor.source)

def position (r : Reader) : Position := r.cursor.position

def source (r : Reader) : List Char := r.cursor.source

/-- An error at the place of the cursor. -/
def fail (r : Reader) (cause : LexCause) : LexError := r.cursor.fail cause

/-- What is reported after the search for a token. -/
def closing (s : Scan) : Event :=
  match s.outcome with
  | .ok (some t) => .tokenProduced t s.cursor.position
  | .ok none => .endReached
  | .error e => .errorMet e

/-- The search for a token behind the cursor, whatever is in the slot. -/
def scan (r : Reader) : Step (Option Token) :=
  let s := r.cursor.scan
  ⟨s.outcome, .tokenRequested :: s.events ++ [closing s], { r with cursor := s.cursor }⟩

/-- The next token, which stays. -/
def peek (r : Reader) : Step (Option Token) :=
  match r.slot with
  | some t => ⟨.ok (some t), [], r⟩
  | none =>
    let s := r.scan
    match s.result with
    | .ok found => { s with reader := { s.reader with slot := found } }
    | .error _ => s

/-- The next token, which is taken. -/
def read (r : Reader) : Step (Option Token) :=
  match r.slot with
  | some t => ⟨.ok (some t), [], { r with slot := none }⟩
  | none => r.scan

def atEnd (r : Reader) : Step Bool :=
  r.peek.map Option.isNone

/-- What a reader still has to give: the characters ahead and the token in its slot. -/
def ahead (r : Reader) : Nat :=
  r.cursor.rest.length + if r.slot.isSome then 1 else 0

/-- Taking a token leaves less to give. -/
theorem ahead_read_lt {r : Reader} {t : Token} (h : r.read.result = .ok (some t)) :
    r.read.reader.ahead < r.ahead := by
  cases hslot : r.slot with
  | some u => simp [read, hslot, ahead]
  | none =>
      have hscan : r.read = r.scan := by simp [read, hslot]
      rw [hscan] at h ⊢
      have hlt : r.cursor.scan.cursor.rest.length < r.cursor.rest.length :=
        Cursor.length_scan_rest_lt h
      simpa [scan, ahead, hslot] using hlt

/-- The next item of an iteration, and the reader afterwards. -/
def next (r : Reader) : Option (Except LexError Token) × Reader :=
  (item r.read.result, r.read.reader)

/-- The first `n` items of an iteration, errors included; the end stops it. -/
def take (r : Reader) : Nat → List (Except LexError Token) × Reader
  | 0 => ([], r)
  | n + 1 =>
    match r.next with
    | (none, last) => ([], last)
    | (some item, behind) =>
      let (items, last) := behind.take n
      (item :: items, last)

end Reader

/-- All that a reader gives, up to the end or the first error. -/
structure Reading where
  /-- The tokens, each with what happened until it was found. -/
  taken : List (Token × List Event)
  /-- The error that ended it; `none` if the text ended. -/
  error : Option LexError
  /-- What happened after the last token. -/
  closing : List Event
  reader : Reader

namespace Reading

def tokens (reading : Reading) : List Token :=
  reading.taken.map Prod.fst

def events (reading : Reading) : List Event :=
  reading.taken.flatMap Prod.snd ++ reading.closing

/-- The tokens if the text ended, or the error. -/
def result (reading : Reading) : Except LexError (List Token) :=
  match reading.error with
  | none => .ok reading.tokens
  | some e => .error e

theorem result_eq_ok_iff {reading : Reading} {tokens : List Token} :
    reading.result = .ok tokens ↔ reading.error = none ∧ reading.tokens = tokens := by
  unfold result
  cases reading.error <;> simp

theorem result_eq_error_iff {reading : Reading} {e : LexError} :
    reading.result = .error e ↔ reading.error = some e := by
  unfold result
  cases reading.error <;> simp

end Reading

namespace Reader

/-- Takes tokens up to the end or the first error. -/
def readAll (r : Reader) : Reading :=
  match _h : r.read.result with
  | .ok (some t) =>
    let tail := r.read.reader.readAll
    { tail with taken := (t, r.read.events) :: tail.taken }
  | .ok none => ⟨[], none, r.read.events, r.read.reader⟩
  | .error e => ⟨[], some e, r.read.events, r.read.reader⟩
termination_by r.ahead
decreasing_by exact ahead_read_lt _h

theorem readAll_of_read_token {r : Reader} {t : Token} (h : r.read.result = .ok (some t)) :
    r.readAll =
      { r.read.reader.readAll with
        taken := (t, r.read.events) :: r.read.reader.readAll.taken } := by
  rw [readAll]
  split <;> simp_all

theorem readAll_of_read_end {r : Reader} (h : r.read.result = .ok none) :
    r.readAll = ⟨[], none, r.read.events, r.read.reader⟩ := by
  rw [readAll]
  split <;> simp_all

theorem readAll_of_read_error {r : Reader} {e : LexError} (h : r.read.result = .error e) :
    r.readAll = ⟨[], some e, r.read.events, r.read.reader⟩ := by
  rw [readAll]
  split <;> simp_all

theorem events_readAll_of_read_token {r : Reader} {t : Token}
    (h : r.read.result = .ok (some t)) :
    r.readAll.events = r.read.events ++ r.read.reader.readAll.events := by
  rw [readAll_of_read_token h]
  simp [Reading.events]

end Reader

/-- All tokens of a text, or its first error. -/
def tokenize (source : List Char) : Except LexError (List Token) :=
  (Reader.ofSource source).readAll.result

end TokenStream
