import TokenStream.Proofs.Places

/-!
# Reading on from the middle of a source

A cursor that was moved into a source, be it into a string, a comment or a numeral, and a fresh
cursor on the text that is still ahead. What was passed over before leaves no trace but the place:
whatever is asked of readers that go on from the two, they answer alike, and each place of the
one is the place of the other, seen from where the text ahead begins.

Columns are counted from the last newline. So they go on from the column of that beginning until
the first newline behind it, and are the same on all later lines.

**Results** moving on and seeing a place from a beginning can be exchanged; one search, one
operation of a reader and a whole run keep two readers alike.
-/

namespace TokenStream

namespace Position

/-- The place that is `p` in a text, if the text begins at `base`. -/
def seenFrom (base p : Position) : Position :=
  if p.line = 1 then ⟨base.line, base.column + p.column, base.offset + p.offset⟩
  else ⟨base.line + p.line - 1, p.column, base.offset + p.offset⟩

theorem seenFrom_advance
    {p : Position}
    (base : Position)
    (hline : 1 ≤ p.line)
    (c : Char) :
    base.seenFrom (p.advance c) = (base.seenFrom p).advance c := by
  simp only [seenFrom, advance]
  split_ifs <;> simp_all <;> omega

theorem line_pos_advanceBy
    {p : Position}
    (hline : 1 ≤ p.line)
    (cs : List Char) :
    1 ≤ (p.advanceBy cs).line := by
  induction cs generalizing p with
  | nil => exact hline
  | cons c cs ih =>
      apply ih
      by_cases hc : c = '\n' <;> simp [advance, hc, hline]

theorem seenFrom_advanceBy
    {p : Position}
    (base : Position)
    (hline : 1 ≤ p.line)
    (cs : List Char) :
    base.seenFrom (p.advanceBy cs) = (base.seenFrom p).advanceBy cs := by
  induction cs generalizing p with
  | nil => rfl
  | cons c cs ih =>
      rw [advanceBy_cons, advanceBy_cons, ← seenFrom_advance base hline c]
      exact ih (line_pos_advanceBy hline [c])

-- columns go on from the column of the beginning on the first line only
example : (Position.mk 2 3 9).seenFrom ⟨1, 2, 2⟩ = ⟨2, 5, 11⟩ ∧
    (Position.mk 2 3 9).seenFrom ⟨3, 2, 8⟩ = ⟨4, 2, 17⟩ := by
  decide

end Position

/-- The error at its place, if the text begins at `base`. -/
def LexError.seenFrom (base : Position) (e : LexError) : LexError :=
  ⟨e.cause, base.seenFrom e.position⟩

/-- The event with its places, if the text begins at `base`. -/
def Event.seenFrom (base : Position) : Event → Event
  | scanStarted place => scanStarted (base.seenFrom place)
  | errorRaised e => errorRaised (e.seenFrom base)
  | tokenProduced t after => tokenProduced t (base.seenFrom after)
  | errorMet e => errorMet (e.seenFrom base)
  | other => other

/-- The answer with its places, if the text begins at `base`. -/
def Reader.Answer.seenFrom (base : Position) : Answer → Answer
  | found outcome => found (outcome.mapError (LexError.seenFrom base))
  | decided result => decided (result.mapError (LexError.seenFrom base))
  | item x => item (x.map (Except.mapError (LexError.seenFrom base)))

namespace Cursor

/-- The cursors have the same text ahead, and the place of `d` is that of `c`, seen from `base`. -/
structure Alike (base : Position) (d c : Cursor) : Prop where
  rest_eq : d.rest = c.rest
  position_eq : d.position = base.seenFrom c.position
  line_pos : 1 ≤ c.position.line

section Alike

variable {base : Position} {d c : Cursor}

theorem alike_ofSource (d : Cursor) :
    d.Alike d.position (ofSource d.rest) :=
  ⟨rfl, rfl, le_rfl⟩

theorem Alike.skip
    (h : d.Alike base c)
    (n : Nat) :
    (d.skip n).Alike base (c.skip n) := by
  refine ⟨?_, ?_, Position.line_pos_advanceBy h.line_pos _⟩
  · simp [h.rest_eq]
  · rw [skip_position, skip_position, h.rest_eq, h.position_eq,
      Position.seenFrom_advanceBy base h.line_pos]

theorem Alike.skipWhile
    (h : d.Alike base c)
    (p : Char → Bool) :
    (d.skipWhile p).Alike base (c.skipWhile p) := by
  rw [Cursor.skipWhile, Cursor.skipWhile, h.rest_eq]
  exact h.skip _

theorem Alike.skipComment
    (h : d.Alike base c) :
    d.skipComment.Alike base c.skipComment :=
  (h.skipWhile _).skip 1

theorem Alike.skipTrivia
    (h : d.Alike base c) :
    d.skipTrivia.1 = c.skipTrivia.1.map base.seenFrom ∧
      d.skipTrivia.2.Alike base c.skipTrivia.2 := by
  -- along the comments that `c` has ahead; `d` has the same ones
  fun_induction Cursor.skipTrivia c generalizing d
  case case1 c b hmark marks last hlast ih =>
    have hb : (d.skipWhile isBlank).Alike base b := h.skipWhile isBlank
    obtain ⟨hmarks, hbehind⟩ := ih hb.skipComment
    have hmark' : (d.skipWhile isBlank).rest.head? = some commentMark := by
      rw [hb.rest_eq, hmark]
    rw [hlast] at hmarks hbehind
    rw [Cursor.skipTrivia]
    simp only [hmark', dif_pos, hmarks, hb.position_eq, List.map_cons, true_and]
    exact hbehind
  case case2 c b hmark =>
    have hb : (d.skipWhile isBlank).Alike base b := h.skipWhile isBlank
    have hmark' : ¬ (d.skipWhile isBlank).rest.head? = some commentMark := by
      rw [hb.rest_eq]
      exact hmark
    rw [Cursor.skipTrivia]
    simp only [hmark', dif_neg, not_false_eq_true, List.map_nil, true_and]
    exact hb

theorem Alike.fail
    (h : d.Alike base c)
    (cause : LexCause) :
    d.fail cause = (c.fail cause).seenFrom base :=
  congrArg (LexError.mk cause) h.position_eq

end Alike

end Cursor

/-- The searches come to the same, with the places of `t` being those of `s`, seen from `base`. -/
structure Scan.Alike (base : Position) (t s : Scan) : Prop where
  outcome_eq : t.outcome = s.outcome.mapError (LexError.seenFrom base)
  events_eq : t.events = s.events.map (Event.seenFrom base)
  cursor : t.cursor.Alike base s.cursor

theorem Cursor.Alike.scanLexeme
    {base : Position} {d c : Cursor}
    (h : d.Alike base c) :
    d.scanLexeme.Alike base c.scanLexeme := by
  cases hrest : c.rest with
  | nil =>
      have hrest' : d.rest = [] := h.rest_eq.trans hrest
      simp only [Cursor.scanLexeme, hrest, hrest']
      exact ⟨rfl, rfl, h⟩
  | cons a r =>
      have hrest' : d.rest = a :: r := h.rest_eq.trans hrest
      cases hread : Lexeme.read? (a :: r) with
      | none =>
          simp only [Cursor.scanLexeme, hrest, hrest', hread]
          refine ⟨?_, ?_, h⟩
          · rw [h.fail]
            rfl
          · rw [h.fail, h.position_eq]
            rfl
      | some x =>
          simp only [Cursor.scanLexeme, hrest, hrest', hread]
          refine ⟨rfl, ?_, h.skip _⟩
          have hevents : x.events.map (Event.seenFrom base) = x.events := by
            unfold Lexeme.events
            split
            · rfl
            · split <;> rfl
            · rfl
          rw [List.map_cons, hevents, h.position_eq]
          rfl

/-- **One search.** -/
theorem Cursor.Alike.scan
    {base : Position} {d c : Cursor}
    (h : d.Alike base c) :
    d.scan.Alike base c.scan := by
  obtain ⟨hmarks, hbehind⟩ := h.skipTrivia
  obtain ⟨houtcome, hevents, hcursor⟩ := hbehind.scanLexeme
  refine ⟨houtcome, ?_, hcursor⟩
  simp only [Cursor.scan, hmarks, hevents, List.map_append, List.map_map]
  rfl

namespace Reader

/-- The readers hold the same token, and their cursors are alike. -/
structure Alike (base : Position) (q r : Reader) : Prop where
  cursor : q.cursor.Alike base r.cursor
  slot_eq : q.slot = r.slot

/-- The steps come to the same and leave readers that are alike. -/
structure Step.Alike {α : Type} (base : Position) (t s : Step α) : Prop where
  result_eq : t.result = s.result.mapError (LexError.seenFrom base)
  events_eq : t.events = s.events.map (Event.seenFrom base)
  reader : t.reader.Alike base s.reader

section Alike

variable {base : Position} {q r : Reader}

theorem alike_ofCursor (d : Cursor) :
    (ofCursor d).Alike d.position (ofSource d.rest) :=
  ⟨d.alike_ofSource, rfl⟩

theorem Alike.position_eq
    (h : q.Alike base r) :
    q.position = base.seenFrom r.position :=
  h.cursor.position_eq

theorem Alike.scan
    (h : q.Alike base r) :
    q.scan.Alike base r.scan := by
  obtain ⟨houtcome, hevents, hcursor⟩ := h.cursor.scan
  refine ⟨houtcome, ?_, hcursor, h.slot_eq⟩
  have hclosing : closing q.cursor.scan = (closing r.cursor.scan).seenFrom base := by
    simp only [closing, houtcome, hcursor.position_eq]
    match r.cursor.scan.outcome with
    | .ok (some t) => rfl
    | .ok none => rfl
    | .error e => rfl
  simp only [Reader.scan, hevents, hclosing, List.map_append, List.map_cons, List.map_nil]
  rfl

theorem Alike.read
    (h : q.Alike base r) :
    q.read.Alike base r.read := by
  cases hslot : r.slot with
  | some t =>
      have hslot' : q.slot = some t := h.slot_eq.trans hslot
      simp only [Reader.read, hslot, hslot']
      exact ⟨rfl, rfl, h.cursor, rfl⟩
  | none =>
      have hslot' : q.slot = none := h.slot_eq.trans hslot
      simp only [Reader.read, hslot, hslot']
      exact h.scan

theorem Alike.peek
    (h : q.Alike base r) :
    q.peek.Alike base r.peek := by
  cases hslot : r.slot with
  | some t =>
      have hslot' : q.slot = some t := h.slot_eq.trans hslot
      simp only [Reader.peek, hslot, hslot']
      exact ⟨rfl, rfl, h⟩
  | none =>
      have hslot' : q.slot = none := h.slot_eq.trans hslot
      obtain ⟨hresult, hevents, hreader⟩ := h.scan
      simp only [Reader.peek, hslot, hslot']
      cases hfound : r.scan.result with
      | ok found =>
          rw [hfound] at hresult
          simp only [hresult]
          exact ⟨rfl, hevents, hreader.cursor, rfl⟩
      | error e =>
          rw [hfound] at hresult
          simp only [hresult]
          exact ⟨by rw [hfound]; exact hresult, hevents, hreader⟩

theorem Step.Alike.map
    {α β : Type} {t s : Step α}
    (h : t.Alike base s)
    (f : α → β) :
    (t.map f).Alike base (s.map f) := by
  refine ⟨?_, h.events_eq, h.reader⟩
  simp only [Step.map, h.result_eq]
  cases s.result <;> rfl

theorem item_mapError
    (f : LexError → LexError)
    (outcome : Except LexError (Option Token)) :
    item (outcome.mapError f) = (item outcome).map (Except.mapError f) := by
  match outcome with
  | .ok (some t) => rfl
  | .ok none => rfl
  | .error e => rfl

/-- **One operation.** -/
theorem Alike.perform
    (h : q.Alike base r)
    (op : Operation) :
    (q.perform op).1 = (r.perform op).1.seenFrom base ∧
      (q.perform op).2.Alike base (r.perform op).2 := by
  cases op with
  | peek => exact ⟨congrArg Answer.found h.peek.result_eq, h.peek.reader⟩
  | atEnd =>
      have hatEnd := h.peek.map Option.isNone
      exact ⟨congrArg Answer.decided hatEnd.result_eq, hatEnd.reader⟩
  | read => exact ⟨congrArg Answer.found h.read.result_eq, h.read.reader⟩
  | next =>
      refine ⟨?_, h.read.reader⟩
      simp only [Reader.perform, next, h.read.result_eq, item_mapError]
      rfl

/-- **A whole run.** -/
theorem Alike.run
    (h : q.Alike base r)
    (ops : List Operation) :
    (q.run ops).1 = (r.run ops).1.map (fun x => (x.1, x.2.seenFrom base)) ∧
      (q.run ops).2.Alike base (r.run ops).2 := by
  induction ops generalizing q r with
  | nil => exact ⟨rfl, h⟩
  | cons op ops ih =>
      obtain ⟨hanswer, hbehind⟩ := h.perform op
      obtain ⟨hhistory, hlast⟩ := ih hbehind
      refine ⟨?_, hlast⟩
      simp only [Reader.run, hanswer, hhistory, List.map_cons]

end Alike

end Reader

/-- The readings give the same tokens and end alike. -/
structure Reading.Alike (base : Position) (y x : Reading) : Prop where
  taken_eq : y.taken = x.taken.map fun z => (z.1, z.2.map (Event.seenFrom base))
  error_eq : y.error = x.error.map (LexError.seenFrom base)
  closing_eq : y.closing = x.closing.map (Event.seenFrom base)
  reader : y.reader.Alike base x.reader

namespace Reading.Alike

variable {base : Position} {y x : Reading}

theorem tokens_eq
    (h : y.Alike base x) :
    y.tokens = x.tokens := by
  simp [tokens, h.taken_eq, Function.comp_def]

theorem events_eq
    (h : y.Alike base x) :
    y.events = x.events.map (Event.seenFrom base) := by
  simp [events, h.taken_eq, h.closing_eq, List.map_flatMap, List.flatMap_map]

theorem result_eq
    (h : y.Alike base x) :
    y.result = x.result.mapError (LexError.seenFrom base) := by
  unfold result
  rw [h.error_eq, h.tokens_eq]
  cases x.error <;> rfl

end Reading.Alike

/-- **Taking all tokens.** -/
theorem Reader.Alike.readAll
    {base : Position} {q r : Reader}
    (h : q.Alike base r) :
    q.readAll.Alike base r.readAll := by
  induction hn : r.ahead using Nat.strong_induction_on generalizing q r with
  | _ n ih =>
      obtain ⟨hresult, hevents, hreader⟩ := h.read
      match hr : r.read.result with
      | .ok (some t) =>
          have hq : q.read.result = .ok (some t) := by rw [hresult, hr]; rfl
          have hlt : r.read.reader.ahead < n := hn ▸ ahead_read_lt hr
          obtain ⟨htaken, herror, hclosing, hlast⟩ := ih _ hlt hreader rfl
          rw [readAll_of_read_token hq, readAll_of_read_token hr]
          refine ⟨?_, herror, hclosing, hlast⟩
          simp only [htaken, hevents, List.map_cons]
      | .ok none =>
          have hq : q.read.result = .ok none := by rw [hresult, hr]; rfl
          rw [readAll_of_read_end hq, readAll_of_read_end hr]
          exact ⟨rfl, rfl, hevents, hreader⟩
      | .error e =>
          have hq : q.read.result = .error (e.seenFrom base) := by rw [hresult, hr]; rfl
          rw [readAll_of_read_error hq, readAll_of_read_error hr]
          exact ⟨rfl, rfl, hevents, hreader⟩

/-- **Restart.** Take a source, advance over some of its characters, and read on from there. The
readers on it and on the text that is ahead answer every operation alike, hold the same token and
report the same events; so all tokens are the same, and reading ends in the same way. Each place,
in an answer, of the reader or in an event, is the place in the text ahead, seen from where the
cursor was. -/
theorem restart_translates (source : List Char) (k : Nat) :
    let c := Cursor.advance^[k] (Cursor.ofSource source)
    let text := source.drop k
    let base := c.position
    Text.utf8 text = (Text.utf8 source).drop base.offset ∧
    (∀ ops : List Reader.Operation,
      let moved := (Reader.ofCursor c).run ops
      let fresh := (Reader.ofSource text).run ops
      moved.1 = fresh.1.map (fun x => (x.1, x.2.seenFrom base)) ∧
      moved.2.slot = fresh.2.slot ∧
      moved.2.position = base.seenFrom fresh.2.position ∧
      (∀ cause, moved.2.fail cause = (fresh.2.fail cause).seenFrom base) ∧
      moved.2.peek.events = fresh.2.peek.events.map (Event.seenFrom base) ∧
      moved.2.read.events = fresh.2.read.events.map (Event.seenFrom base)) ∧
    (Reader.ofCursor c).readAll.tokens = (Reader.ofSource text).readAll.tokens ∧
    (Reader.ofCursor c).readAll.result = (tokenize text).mapError (LexError.seenFrom base) ∧
    (Reader.ofCursor c).readAll.events =
      (Reader.ofSource text).readAll.events.map (Event.seenFrom base) ∧
    (Reader.ofCursor c).readAll.reader.position =
      base.seenFrom (Reader.ofSource text).readAll.reader.position := by
  intro c text base
  have hc : c = (Cursor.ofSource source).skip k := Cursor.advance_iterate _ k
  have hrest : c.rest = text := by rw [hc]; rfl
  have hbehind : c.Behind source ([] ++ source.take k) := by
    rw [hc]
    exact (Cursor.behind_ofSource source).skip k
  have halike : (Reader.ofCursor c).Alike base (Reader.ofSource text) := by
    rw [← hrest]
    exact Reader.alike_ofCursor c
  refine ⟨?_, ?_, halike.readAll.tokens_eq, halike.readAll.result_eq,
    halike.readAll.events_eq, halike.readAll.reader.position_eq⟩
  · rw [← hrest, eq_comm, ← hbehind.source_eq]
    exact (hbehind.readable.slice_eq_iff c.rest).mpr rfl
  · intro ops moved fresh
    obtain ⟨hhistory, hlast⟩ := halike.run ops
    exact ⟨hhistory, hlast.slot_eq, hlast.position_eq, fun cause => hlast.cursor.fail cause,
      hlast.peek.events_eq, hlast.read.events_eq⟩

end TokenStream
