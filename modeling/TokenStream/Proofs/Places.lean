import Mathlib.Data.List.DropRight
import TokenStream.Proofs.Lookahead

/-!
# Where a cursor stands

A cursor keeps its line, its column and its offset in bytes while it moves. Whatever is done with
it, and with a reader that goes on from it, these three are those of the front part of the source
that it has passed over, and the bytes behind its offset are the UTF-8 form of what is ahead.

**Results** each operation passes over characters one at a time, the three counts are right at
every character on the way, the offset is always between two characters of the source, and what
was passed over is never given back.
-/

namespace TokenStream

namespace Text

theorem utf8_injective : Function.Injective utf8 := by
  intro cs ds h
  have hbytes : cs.utf8Encode = ds.utf8Encode := congrArg List.toByteArray h
  have hdecoded := congrArg ByteArray.utf8Decode? hbytes
  rw [List.utf8Decode?_utf8Encode, List.utf8Decode?_utf8Encode] at hdecoded
  simpa using hdecoded

/-- The place in the bytes is at their end or in front of the first byte of a character. -/
def IsBoundary (bytes : List UInt8) (offset : Nat) : Prop :=
  offset = bytes.length ∨ ∃ b ∈ bytes[offset]?, b.IsUTF8FirstByte

theorem isBoundary_utf8_append (front back : List Char) :
    IsBoundary (utf8 (front ++ back)) (utf8 front).length := by
  rw [utf8_append]
  cases back with
  | nil => exact .inl (by simp)
  | cons c cs =>
      have hpos : 0 < (String.utf8EncodeChar c).length := by
        rw [String.length_utf8EncodeChar]
        exact c.utf8Size_pos
      refine .inr ⟨(String.utf8EncodeChar c)[0], ?_,
        UInt8.isUTF8FirstByte_getElem_zero_utf8EncodeChar⟩
      have hcons : utf8 (c :: cs) = String.utf8EncodeChar c ++ utf8 cs := rfl
      rw [hcons, List.getElem?_append_right le_rfl, Nat.sub_self,
        List.getElem?_append_left hpos, List.getElem?_eq_getElem hpos]
      rfl

end Text

/-- The place behind a front part of a text, from the front part as a whole. -/
def Position.behind (front : List Char) : Position :=
  ⟨1 + front.count '\n', (front.rtakeWhile (· ≠ '\n')).length, (Text.utf8 front).length⟩

theorem Position.start_advanceBy (front : List Char) :
    Position.start.advanceBy front = Position.behind front := by
  induction front using List.reverseRecOn with
  | nil => rfl
  | append_singleton front c ih =>
      rw [advanceBy_append, ih, advanceBy_cons, advanceBy_nil]
      by_cases hc : c = '\n'
      · subst hc
        simp [advance, behind, Text.length_utf8, Text.byteLength_append, Nat.add_assoc,
          List.rtakeWhile_concat_neg]
      · simp [advance, behind, Text.length_utf8, Text.byteLength_append, hc,
          List.rtakeWhile_concat_pos]

namespace Cursor

/-- The cursor is in `source`, behind `front`. -/
structure Behind (c : Cursor) (source front : List Char) : Prop where
  source_eq : c.source = source
  text_eq : source = front ++ c.rest
  position_eq : c.position = Position.behind front

/-- The slice of the bytes behind the offset is in bounds, begins between two characters, and is
the UTF-8 form of what is ahead and of nothing else. -/
structure Readable (c : Cursor) : Prop where
  offset_le : c.position.offset ≤ (Text.utf8 c.source).length
  isBoundary : Text.IsBoundary (Text.utf8 c.source) c.position.offset
  slice_eq_iff : ∀ cs, (Text.utf8 c.source).drop c.position.offset = Text.utf8 cs ↔ cs = c.rest

section Behind

variable {c : Cursor} {source front : List Char}

theorem behind_ofSource (source : List Char) :
    (ofSource source).Behind source [] :=
  ⟨rfl, rfl, rfl⟩

theorem Behind.skip
    (h : c.Behind source front)
    (n : Nat) :
    (c.skip n).Behind source (front ++ c.rest.take n) := by
  refine ⟨h.source_eq, ?_, ?_⟩
  · rw [skip_rest, List.append_assoc, List.take_append_drop]
    exact h.text_eq
  · rw [skip_position, h.position_eq, ← Position.start_advanceBy, ← Position.advanceBy_append,
      Position.start_advanceBy]

theorem Behind.peek_eq
    (h : c.Behind source front) :
    c.peek = source[front.length]? := by
  rw [peek, h.text_eq, List.getElem?_append_right le_rfl, Nat.sub_self, List.head?_eq_getElem?]

theorem Behind.readable
    (h : c.Behind source front) :
    c.Readable := by
  have htext : c.source = front ++ c.rest := h.source_eq.trans h.text_eq
  have hoffset : c.position.offset = (Text.utf8 front).length := by
    rw [h.position_eq]
    rfl
  have hslice : (Text.utf8 c.source).drop c.position.offset = Text.utf8 c.rest := by
    rw [htext, hoffset, Text.utf8_append, List.drop_left]
  constructor
  · rw [htext, hoffset, Text.utf8_append, List.length_append]
    exact Nat.le_add_right _ _
  · rw [htext, hoffset]
    exact Text.isBoundary_utf8_append front c.rest
  · intro cs
    rw [hslice, Text.utf8_injective.eq_iff, eq_comm]

end Behind

theorem advance_iterate (c : Cursor) (n : Nat) :
    advance^[n] c = c.skip n := by
  induction n with
  | zero => simp
  | succ n ih => rw [Function.iterate_succ_apply', ih, advance, skip_skip]

/-- From `c`, which is behind `front`, to `d` the cursor takes one character after the other, and
is right and readable at each of them. -/
def Passes (source front : List Char) (c d : Cursor) : Prop :=
  ∃ n, d = advance^[n] c ∧ ∀ m ≤ n,
    (advance^[m] c).Behind source (front ++ c.rest.take m) ∧ (advance^[m] c).Readable ∧
    (advance^[m] c).peek = source[(front ++ c.rest.take m).length]?

theorem Behind.passes
    {c : Cursor} {source front : List Char}
    (h : c.Behind source front)
    (n : Nat) :
    Passes source front c (c.skip n) := by
  refine ⟨n, (advance_iterate c n).symm, ?_⟩
  intro m _
  rw [advance_iterate]
  exact ⟨h.skip m, (h.skip m).readable, (h.skip m).peek_eq⟩

/-- What may be done with a cursor. -/
inductive Operation where
  | peek
  | advance
  | atEnd
  | fail (cause : LexCause)
  | scan
deriving DecidableEq

inductive Answer where
  | character (found : Option Char)
  | decided (result : Bool)
  | failed (error : LexError)
  | searched (outcome : Except LexError (Option Token))
deriving DecidableEq

def perform (c : Cursor) : Operation → Answer × Cursor
  | .peek => (.character c.peek, c)
  | .advance => (.character c.peek, c.advance)
  | .atEnd => (.decided c.atEnd, c)
  | .fail cause => (.failed (c.fail cause), c)
  | .scan => (.searched c.scan.outcome, c.scan.cursor)

/-- The cursor after a sequence of operations. -/
def after (c : Cursor) (ops : List Operation) : Cursor :=
  ops.foldl (fun c op => (c.perform op).2) c

/-- **One step.** An operation passes over some characters. -/
theorem exists_perform_eq_skip (c : Cursor) (op : Operation) :
    ∃ n : Nat, (c.perform op).2 = c.skip n := by
  cases op with
  | advance => exact ⟨1, rfl⟩
  | scan => exact c.exists_scan_eq_skip
  | _ => exact ⟨0, c.skip_zero.symm⟩

/-- What is done step by step, each step passing over some characters, passes over characters. -/
theorem exists_foldl_eq_skip
    {α σ : Type} (cursor : σ → Cursor) {step : σ → α → σ}
    (hstep : ∀ s a, ∃ n : Nat, cursor (step s a) = (cursor s).skip n)
    (s : σ) (as : List α) :
    ∃ n : Nat, cursor (as.foldl step s) = (cursor s).skip n := by
  induction as generalizing s with
  | nil => exact ⟨0, (cursor s).skip_zero.symm⟩
  | cons a as ih =>
      obtain ⟨m, hm⟩ := hstep s a
      obtain ⟨n, hn⟩ := ih (step s a)
      refine ⟨m + n, ?_⟩
      rw [← skip_skip, ← hm, ← hn, List.foldl_cons]

theorem exists_after_eq_skip (c : Cursor) (ops : List Operation) :
    ∃ n : Nat, c.after ops = c.skip n :=
  exists_foldl_eq_skip id exists_perform_eq_skip c ops

/-- However a cursor was moved, it is behind some front part of its source. -/
theorem exists_behind_after (source : List Char) (ops : List Operation) :
    ∃ front : List Char, ((ofSource source).after ops).Behind source front := by
  obtain ⟨n, hn⟩ := exists_after_eq_skip (ofSource source) ops
  rw [hn]
  exact ⟨_, (behind_ofSource source).skip n⟩

end Cursor

namespace Reader

/-- What may be done with a reader, the report of an error by whoever reads on included. -/
inductive Request where
  | ask (op : Operation)
  | fail (cause : LexCause)
deriving DecidableEq

def serve (r : Reader) : Request → (Answer ⊕ LexError) × Reader
  | .ask op => (.inl (r.perform op).1, (r.perform op).2)
  | .fail cause => (.inr (r.fail cause), r)

/-- The reader after a sequence of requests. -/
def after (r : Reader) (requests : List Request) : Reader :=
  requests.foldl (fun r request => (r.serve request).2) r

theorem exists_peek_cursor_eq_skip (r : Reader) :
    ∃ n : Nat, r.peek.reader.cursor = r.cursor.skip n := by
  cases hslot : r.slot with
  | some t => exact ⟨0, by simp [peek, hslot]⟩
  | none =>
      have hcursor : r.peek.reader.cursor = r.cursor.scan.cursor := by
        simp only [peek, hslot, scan]
        split <;> rfl
      rw [hcursor]
      exact r.cursor.exists_scan_eq_skip

theorem exists_read_cursor_eq_skip (r : Reader) :
    ∃ n : Nat, r.read.reader.cursor = r.cursor.skip n := by
  cases hslot : r.slot with
  | some t => exact ⟨0, by simp [read, hslot]⟩
  | none =>
      have hcursor : r.read.reader.cursor = r.cursor.scan.cursor := by
        simp [read, hslot, scan]
      rw [hcursor]
      exact r.cursor.exists_scan_eq_skip

/-- **One step.** A request passes over some characters. -/
theorem exists_serve_cursor_eq_skip (r : Reader) (request : Request) :
    ∃ n : Nat, (r.serve request).2.cursor = r.cursor.skip n := by
  cases request with
  | fail cause => exact ⟨0, r.cursor.skip_zero.symm⟩
  | ask op =>
      simp only [serve, perform_eq]
      split
      · exact r.exists_read_cursor_eq_skip
      · exact r.exists_peek_cursor_eq_skip

theorem exists_after_cursor_eq_skip (r : Reader) (requests : List Request) :
    ∃ n : Nat, (r.after requests).cursor = r.cursor.skip n :=
  Cursor.exists_foldl_eq_skip Reader.cursor exists_serve_cursor_eq_skip r requests

end Reader

/-- **Places.** After every sequence of operations on a cursor, and of requests to a reader that
goes on from it, the place is that of a front part of the source, and reading there is safe. The
next operation only lengthens the front part, one character after the other, and is right at each
of them. Taking a character gives the one behind the front part; at the end it gives none and
changes nothing. -/
theorem operations_keep_place
    (source : List Char) (ops : List Cursor.Operation) (requests : List Reader.Request) :
    let c := (Cursor.ofSource source).after ops
    let r := (Reader.ofCursor c).after requests
    ∃ front more : List Char,
      (c.Behind source front ∧ c.Readable ∧
        (∀ op, Cursor.Passes source front c (c.perform op).2) ∧
        c.perform .peek = (.character source[front.length]?, c) ∧
        (∀ a back, source = front ++ a :: back → ∃ d : Cursor,
          c.perform .advance = (.character (some a), d) ∧ d.Behind source (front ++ [a])) ∧
        (front = source → c.perform .advance = (.character none, c))) ∧
      r.cursor.Behind source (front ++ more) ∧ r.cursor.Readable ∧
      ∀ request, Cursor.Passes source (front ++ more) r.cursor (r.serve request).2.cursor := by
  intro c r
  obtain ⟨m, hm⟩ := Cursor.exists_after_eq_skip (Cursor.ofSource source) ops
  obtain ⟨n, hn⟩ := Reader.exists_after_cursor_eq_skip (Reader.ofCursor c) requests
  have hc : c.Behind source ([] ++ source.take m) := by
    have hbehind := (Cursor.behind_ofSource source).skip m
    rwa [← hm] at hbehind
  generalize [] ++ source.take m = front at hc
  have hr : r.cursor.Behind source (front ++ c.rest.take n) := by
    have hbehind := hc.skip n
    rwa [show c.skip n = r.cursor from hn.symm] at hbehind
  refine ⟨front, c.rest.take n, ⟨hc, hc.readable, ?_, ?_, ?_, ?_⟩, hr, hr.readable, ?_⟩
  · intro op
    obtain ⟨k, hk⟩ := c.exists_perform_eq_skip op
    rw [hk]
    exact hc.passes k
  · rw [← hc.peek_eq]
    rfl
  · intro a back hsource
    have hrest : c.rest = a :: back :=
      List.append_cancel_left (hc.text_eq.symm.trans hsource)
    have hadvance := hc.skip 1
    rw [hrest] at hadvance
    refine ⟨c.advance, ?_, hadvance⟩
    simp [Cursor.perform, Cursor.peek, hrest]
  · intro hend
    have hrest : c.rest = [] := by
      have htext := hc.text_eq
      rw [hend] at htext
      exact List.self_eq_append_right.mp htext
    simp [Cursor.perform, Cursor.peek, Cursor.advance, Cursor.skip_of_rest_eq_nil, hrest]
  · intro request
    obtain ⟨k, hk⟩ := r.exists_serve_cursor_eq_skip request
    rw [hk]
    exact hr.passes k

end TokenStream
