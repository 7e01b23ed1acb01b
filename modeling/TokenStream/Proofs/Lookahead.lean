import TokenStream.Proofs.Division

/-!
# Lookahead is transparent

Searching again and again from a fresh cursor gives a stream: tokens, each with the place behind
its lexeme, and then the end or an error for ever. A reader that is asked in any order to look at
the next token, to decide whether there is one, to take it or to iterate answers from this stream.

The slot of a reader is empty before anything was looked at and also after the end or an error was
met. These two are kept apart here by the answers that were given: `Stands` says where a reader is
in the stream and whether the end or the error has been reported.

**Results** a search from the place where the last one met the end or an error comes to the same
again, one operation goes on by one place in the stream or by none, and a reader answers from the
stream after every sequence of operations.
-/

namespace TokenStream

/-- What one search comes to, and where it stops. -/
inductive Cursor.Finds (c : Cursor) : Except LexError (Option Token) → Cursor → Prop
  | token
      {gap l rest : List Char} {t : Token}
      (hrest : c.rest = gap ++ (l ++ rest))
      (hgap : Separator gap)
      (hl : Spells t l) :
      Finds c (.ok (some t)) (c.skip (gap ++ l).length)
  | openString
      {gap value l : List Char}
      (hrest : c.rest = gap ++ l)
      (hgap : Separator gap)
      (hl : SpellsOpen value l) :
      Finds c (.ok (some (.string value))) (c.skip c.rest.length)
  | nothing
      (h : Trailer c.rest) :
      Finds c (.ok none) (c.skip c.rest.length)
  | stuck
      {gap rest : List Char} {a : Char}
      (hrest : c.rest = gap ++ a :: rest)
      (hgap : Separator gap)
      (htrivia : opensTrivia a = false)
      (ha : startsToken a = false) :
      Finds c (.error ((c.skip gap.length).fail (.unexpected a))) (c.skip gap.length)

namespace Cursor

theorem finds_scan (c : Cursor) :
    c.Finds c.scan.outcome c.scan.cursor := by
  have hbegin := beginning c.rest
  generalize hrest : c.rest = cs at hbegin
  cases hbegin with
  | trailer hw =>
      obtain ⟨houtcome, hcursor⟩ := scan_of_trailer (hrest ▸ hw)
      rw [houtcome, hcursor]
      exact .nothing (hrest ▸ hw)
  | token hgap hl hend =>
      obtain ⟨houtcome, hcursor⟩ := scan_of_spells hrest hgap hl hend
      rw [houtcome, hcursor]
      exact .token hrest hgap hl
  | openString hgap hl =>
      obtain ⟨houtcome, hcursor⟩ := scan_of_spellsOpen hrest hgap hl
      rw [houtcome, hcursor]
      exact .openString hrest hgap hl
  | stuck hgap htrivia ha =>
      obtain ⟨houtcome, hcursor⟩ := scan_of_stuck hrest hgap htrivia ha
      rw [houtcome, hcursor]
      exact .stuck hrest hgap htrivia ha

end Cursor

/-- What search after search comes to, up to the end or the first error. -/
structure Stream where
  /-- The tokens, each with the place behind its lexeme. -/
  found : List (Token × Position)
  error : Option LexError
deriving DecidableEq

def Cursor.stream (c : Cursor) : Stream :=
  match _h : c.scan.outcome with
  | .ok (some t) =>
    let behind := c.scan.cursor.stream
    { behind with found := (t, c.scan.cursor.position) :: behind.found }
  | .ok none => ⟨[], none⟩
  | .error e => ⟨[], some e⟩
termination_by c.rest.length
decreasing_by exact length_scan_rest_lt _h

/-- The place behind all that is ahead. -/
def Cursor.finish (c : Cursor) : Position :=
  c.position.advanceBy c.rest

namespace Stream

def tokens (s : Stream) : List Token :=
  s.found.map Prod.fst

def places (s : Stream) : List Position :=
  s.found.map Prod.snd

/-- The tokens if the text ends behind them, or the error. -/
def result (s : Stream) : Except LexError (List Token) :=
  match s.error with
  | none => .ok s.tokens
  | some e => .error e

/-- What every search behind the last token comes to. -/
def terminal (s : Stream) : Except LexError (Option Token) :=
  match s.error with
  | none => .ok none
  | some e => .error e

/-- What the search behind `k` tokens comes to. -/
def item (s : Stream) (k : Nat) : Except LexError (Option Token) :=
  match s.found[k]? with
  | some x => .ok (some x.1)
  | none => s.terminal

/-- Where every search behind the last token stops, if the text ends at `finish`. -/
def close (s : Stream) (finish : Position) : Position :=
  match s.error with
  | none => finish
  | some e => e.position

def drop (s : Stream) (k : Nat) : Stream :=
  ⟨s.found.drop k, s.error⟩

theorem item_of_found
    {s : Stream} {k : Nat} {t : Token} {p : Position}
    (h : s.found[k]? = some (t, p)) :
    s.item k = .ok (some t) := by
  simp [item, h]

theorem item_of_le
    {s : Stream} {k : Nat}
    (h : s.found.length ≤ k) :
    s.item k = s.terminal := by
  simp [item, List.getElem?_eq_none h]

end Stream

namespace Cursor

variable {c : Cursor}

theorem stream_of_token
    {t : Token}
    (h : c.scan.outcome = .ok (some t)) :
    c.stream =
      ⟨(t, c.scan.cursor.position) :: c.scan.cursor.stream.found, c.scan.cursor.stream.error⟩ := by
  rw [stream]
  split <;> simp_all

theorem stream_of_end
    (h : c.scan.outcome = .ok none) :
    c.stream = ⟨[], none⟩ := by
  rw [stream]
  split <;> simp_all

theorem stream_of_error
    {e : LexError}
    (h : c.scan.outcome = .error e) :
    c.stream = ⟨[], some e⟩ := by
  rw [stream]
  split <;> simp_all

theorem finish_skip (n : Nat) :
    (c.skip n).finish = c.finish := by
  simp only [finish, skip_position, skip_rest]
  rw [← Position.advanceBy_append, List.take_append_drop]

/-- A search passes over a front part of what is ahead. -/
theorem exists_scan_eq_skip (c : Cursor) :
    ∃ n : Nat, c.scan.cursor = c.skip n := by
  have hfinds := c.finds_scan
  generalize c.scan.outcome = outcome, c.scan.cursor = d at hfinds
  cases hfinds <;> exact ⟨_, rfl⟩

theorem finish_scan :
    c.scan.cursor.finish = c.finish := by
  obtain ⟨n, hn⟩ := c.exists_scan_eq_skip
  rw [hn, finish_skip]

/-- The stream of a cursor is not longer than what is ahead. -/
theorem length_stream_found_le (c : Cursor) :
    c.stream.found.length ≤ c.rest.length := by
  fun_induction stream c with
  | case1 c t h behind ih =>
      have hlt := length_scan_rest_lt h
      exact Nat.succ_le_of_lt (Nat.lt_of_le_of_lt ih hlt)
  | case2 c h => exact Nat.zero_le _
  | case3 c e h => exact Nat.zero_le _

/-- If the stream goes on with a token, so does the search. -/
theorem scan_of_stream_eq_cons
    {t : Token} {p : Position} {found : List (Token × Position)} {error : Option LexError}
    (h : c.stream = ⟨(t, p) :: found, error⟩) :
    c.scan.outcome = .ok (some t) ∧ c.scan.cursor.position = p ∧
      c.scan.cursor.stream = ⟨found, error⟩ := by
  match houtcome : c.scan.outcome with
  | .ok (some u) =>
      rw [stream_of_token houtcome] at h
      simp only [Stream.mk.injEq, List.cons.injEq, Prod.mk.injEq] at h
      obtain ⟨⟨⟨rfl, hposition⟩, rfl⟩, rfl⟩ := h
      exact ⟨rfl, hposition, rfl⟩
  | .ok none =>
      rw [stream_of_end houtcome] at h
      simp at h
  | .error e =>
      rw [stream_of_error houtcome] at h
      simp at h

theorem scan_of_stream_eq_drop
    {s : Stream} {k : Nat}
    (h : c.stream = s.drop k)
    (hk : k < s.found.length) :
    ∃ t : Token, c.scan.outcome = .ok (some t) ∧
      s.found[k]? = some (t, c.scan.cursor.position) ∧
      c.scan.cursor.stream = s.drop (k + 1) := by
  have hcons : s.drop k = ⟨(s.found[k].1, s.found[k].2) :: s.found.drop (k + 1), s.error⟩ := by
    rw [Stream.drop, List.drop_eq_getElem_cons hk]
  obtain ⟨houtcome, hposition, hbehind⟩ := scan_of_stream_eq_cons (h.trans hcons)
  refine ⟨s.found[k].1, houtcome, ?_, hbehind⟩
  rw [hposition, List.getElem?_eq_getElem hk]

/-- If the stream has no more tokens, the search comes to what ends it and stops there, and a
search from that place comes to the same. -/
theorem scan_of_stream_eq_nil
    {error : Option LexError}
    (h : c.stream = ⟨[], error⟩) :
    c.scan.outcome = Stream.terminal ⟨[], error⟩ ∧
      c.scan.cursor.position = Stream.close ⟨[], error⟩ c.finish ∧
      c.scan.cursor.stream = ⟨[], error⟩ := by
  have hfinds := c.finds_scan
  generalize houtcome : c.scan.outcome = outcome, hcursor : c.scan.cursor = d at hfinds
  cases hfinds with
  | token hrest hgap hl =>
      rw [stream_of_token houtcome] at h
      simp at h
  | openString hrest hgap hl =>
      rw [stream_of_token houtcome] at h
      simp at h
  | nothing htrailer =>
      rw [stream_of_end houtcome] at h
      obtain ⟨_, rfl⟩ := Stream.mk.inj h
      have hagain : (c.skip c.rest.length).scan.outcome = .ok none := by
        refine (scan_of_trailer ?_).1
        rw [skip_rest, List.drop_length]
        exact .separator .empty
      refine ⟨rfl, ?_, stream_of_end hagain⟩
      simp [Stream.close, finish]
  | @stuck gap rest a hrest hgap htrivia ha =>
      rw [stream_of_error houtcome] at h
      obtain ⟨_, rfl⟩ := Stream.mk.inj h
      have hbehind : (c.skip gap.length).rest = [] ++ a :: rest := by simp [hrest]
      have hagain := (scan_of_stuck hbehind .empty htrivia ha).1
      exact ⟨rfl, rfl, stream_of_error hagain⟩

/-- Every token of the stream stands in the text: its spelling ends at its place, and begins
behind a separator that begins where the token before it ends. -/
theorem exists_spelling_of_stream
    {k : Nat} {t : Token} {p : Position}
    (h : c.stream.found[k]? = some (t, p)) :
    ∃ front gap l : List Char,
      front ++ (gap ++ l) <+: c.rest ∧ Separator gap ∧
      (Spells t l ∨ ∃ value, t = .string value ∧ SpellsOpen value l) ∧
      (c.position :: c.stream.places)[k]? = some (c.position.advanceBy front) ∧
      p = c.position.advanceBy (front ++ (gap ++ l)) := by
  induction k generalizing c with
  | zero =>
      have hfinds := c.finds_scan
      generalize houtcome : c.scan.outcome = outcome, hcursor : c.scan.cursor = d at hfinds
      cases hfinds with
      | @token gap l rest u hrest hgap hl =>
          rw [stream_of_token houtcome] at h
          obtain ⟨rfl, rfl⟩ := Prod.mk.inj (Option.some.inj h)
          have hfront : c.rest = (gap ++ l) ++ rest := by simp [hrest]
          refine ⟨[], gap, l, ⟨rest, hfront.symm⟩, hgap, .inl hl, rfl, ?_⟩
          rw [hcursor, skip_length_append c hfront]
          rfl
      | @openString gap value l hrest hgap hl =>
          rw [stream_of_token houtcome] at h
          obtain ⟨rfl, rfl⟩ := Prod.mk.inj (Option.some.inj h)
          refine ⟨[], gap, l, ⟨[], by simp [hrest]⟩, hgap, .inr ⟨value, rfl, hl⟩, rfl, ?_⟩
          rw [hcursor, skip_position, List.take_length, hrest]
          rfl
      | nothing htrailer =>
          rw [stream_of_end houtcome] at h
          simp at h
      | stuck hrest hgap htrivia ha =>
          rw [stream_of_error houtcome] at h
          simp at h
  | succ k ih =>
      match houtcome : c.scan.outcome with
      | .ok (some u) =>
          obtain ⟨n, hcursor⟩ := c.exists_scan_eq_skip
          rw [stream_of_token houtcome] at h
          obtain ⟨front, gap, l, hfront, hgap, hl, hplace, rfl⟩ := ih (c := c.scan.cursor) h
          refine ⟨c.rest.take n ++ front, gap, l, ?_, hgap, hl, ?_, ?_⟩
          · rw [hcursor, skip_rest] at hfront
            obtain ⟨rest, hrest⟩ := hfront
            refine ⟨rest, ?_⟩
            calc
              c.rest.take n ++ front ++ (gap ++ l) ++ rest
                  = c.rest.take n ++ (front ++ (gap ++ l) ++ rest) := by
                    simp only [List.append_assoc]
              _ = c.rest := by rw [hrest, List.take_append_drop]
          · rw [stream_of_token houtcome]
            simpa [Stream.places, hcursor, Position.advanceBy_append] using hplace
          · rw [hcursor]
            simp [Position.advanceBy_append]
      | .ok none =>
          rw [stream_of_end houtcome] at h
          simp at h
      | .error e =>
          rw [stream_of_error houtcome] at h
          simp at h

end Cursor

namespace Reader

/-- Taking all tokens gives the stream. -/
theorem readAll_eq_stream (c : Cursor) :
    (ofCursor c).readAll.tokens = c.stream.tokens ∧
      (ofCursor c).readAll.error = c.stream.error := by
  fun_induction Cursor.stream c with
  | case1 c t h behind ih =>
      obtain ⟨htokens, herror⟩ := ih
      rw [(readAll_of_token h).1, (readAll_of_token h).2]
      exact ⟨congrArg (t :: ·) htokens, herror⟩
  | case2 c h => exact readAll_of_end h
  | case3 c e h => exact readAll_of_error h

/-- What a reader may be asked. -/
inductive Operation where
  | peek
  | atEnd
  | read
  | next
deriving DecidableEq

inductive Answer where
  | found (result : Except LexError (Option Token))
  | decided (result : Except LexError Bool)
  | item (item : Option (Except LexError Token))
deriving DecidableEq

/-- The operation takes the token that it gives. -/
def Operation.takes : Operation → Bool
  | read => true
  | next => true
  | _ => false

/-- The answer of an operation if the next search comes to `outcome`. -/
def Operation.answer (outcome : Except LexError (Option Token)) : Operation → Answer
  | peek => .found outcome
  | atEnd => .decided (outcome.map Option.isNone)
  | read => .found outcome
  | next => .item (Reader.item outcome)

/-- The answer gives a token. -/
def Answer.isToken : Answer → Bool
  | found (.ok (some _)) => true
  | item (some (.ok _)) => true
  | _ => false

/-- The answer reports the end or an error. -/
def Answer.isTerminal : Answer → Bool
  | found (.ok (some _)) => false
  | decided (.ok false) => false
  | item (some (.ok _)) => false
  | _ => true

def perform (r : Reader) : Operation → Answer × Reader
  | .peek => (.found r.peek.result, r.peek.reader)
  | .atEnd => (.decided r.atEnd.result, r.atEnd.reader)
  | .read => (.found r.read.result, r.read.reader)
  | .next => (.item r.next.1, r.next.2)

/-- The answers to a sequence of operations, and the reader afterwards. -/
def run (r : Reader) : List Operation → List (Operation × Answer) × Reader
  | [] => ([], r)
  | op :: ops =>
    let (answer, behind) := r.perform op
    let (history, last) := behind.run ops
    ((op, answer) :: history, last)

/-- How many tokens were taken. -/
def taken (history : List (Operation × Answer)) : Nat :=
  history.countP fun x => x.1.takes && x.2.isToken

/-- The end or an error has been reported. -/
def reported (history : List (Operation × Answer)) : Bool :=
  history.any fun x => x.2.isTerminal

/-- Where a reader is in a stream that begins at `first` and whose text ends at `finish`: `k` tokens
are taken, and `closed` tells whether the end or the error has been reported. -/
inductive Stands (s : Stream) (first finish : Position) (k : Nat) : Bool → Reader → Prop
  | fresh
      {c : Cursor}
      (hahead : c.stream = s.drop k)
      (hfinish : c.finish = finish)
      (hplace : (first :: s.places)[k]? = some c.position) :
      Stands s first finish k false ⟨c, none⟩
  | held
      {c : Cursor} {t : Token}
      (hahead : c.stream = s.drop (k + 1))
      (hfinish : c.finish = finish)
      (htoken : s.found[k]? = some (t, c.position)) :
      Stands s first finish k false ⟨c, some t⟩
  | spent
      {c : Cursor}
      (hahead : c.stream = s.drop k)
      (hfinish : c.finish = finish)
      (hlength : s.found.length = k)
      (hplace : c.position = s.close finish) :
      Stands s first finish k true ⟨c, none⟩

section Simulation

variable {s : Stream} {first finish : Position} {k : Nat} {closed : Bool} {r : Reader}

theorem stands_ofCursor (c : Cursor) :
    Stands c.stream c.position c.finish 0 false (ofCursor c) :=
  .fresh rfl rfl rfl

/-- The place behind the next token is where the reader is when that token is taken. -/
theorem place_succ
    {t : Token} {p : Position}
    (h : s.found[k]? = some (t, p)) :
    (first :: s.places)[k + 1]? = some p := by
  simp [Stream.places, h]

theorem Stands.le
    (h : Stands s first finish k closed r) :
    k ≤ s.found.length := by
  cases h with
  | fresh hahead hfinish hplace =>
      obtain ⟨hlt, _⟩ := List.getElem?_eq_some_iff.mp hplace
      simpa [Stream.places, Nat.lt_succ_iff] using hlt
  | held hahead hfinish htoken =>
      exact (List.getElem?_eq_some_iff.mp htoken).1.le
  | spent hahead hfinish hlength hplace => exact hlength.ge

theorem Stands.place_of_fresh
    (h : Stands s first finish k false r)
    (hslot : r.slot = none) :
    (first :: s.places)[k]? = some r.position := by
  cases h with
  | fresh hahead hfinish hplace => exact hplace
  | held hahead hfinish htoken => cases hslot

theorem Stands.found_of_slot
    {t : Token}
    (h : Stands s first finish k closed r)
    (hslot : r.slot = some t) :
    s.found[k]? = some (t, r.position) := by
  cases h with
  | held hahead hfinish htoken =>
      obtain rfl := Option.some.inj hslot
      exact htoken
  | fresh | spent => cases hslot

theorem Stands.of_closed
    (h : Stands s first finish k true r) :
    r.slot = none ∧ k = s.found.length ∧ r.position = s.close finish := by
  cases h with
  | spent hahead hfinish hlength hplace => exact ⟨rfl, hlength.symm, hplace⟩

/-- Looking at a token that is there gives it and takes nothing. -/
theorem Stands.peek_of_lt
    (h : Stands s first finish k closed r)
    (hk : k < s.found.length) :
    r.peek.result = s.item k ∧ Stands s first finish k closed r.peek.reader := by
  cases h with
  | @fresh c hahead hfinish hplace =>
      obtain ⟨t, houtcome, htoken, hbehind⟩ := Cursor.scan_of_stream_eq_drop hahead hk
      have hpeek : (⟨c, none⟩ : Reader).peek.result = .ok (some t) ∧
          (⟨c, none⟩ : Reader).peek.reader = ⟨c.scan.cursor, some t⟩ := by
        simp [Reader.peek, Reader.scan, houtcome]
      rw [hpeek.1, hpeek.2, Stream.item_of_found htoken]
      exact ⟨rfl, .held hbehind (Cursor.finish_scan.trans hfinish) htoken⟩
  | held hahead hfinish htoken =>
      exact ⟨(Stream.item_of_found htoken).symm, .held hahead hfinish htoken⟩
  | spent hahead hfinish hlength hplace => exact absurd hlength hk.ne'

/-- Taking a token that is there gives it and goes on by one. -/
theorem Stands.read_of_lt
    (h : Stands s first finish k closed r)
    (hk : k < s.found.length) :
    r.read.result = s.item k ∧ Stands s first finish (k + 1) closed r.read.reader := by
  cases h with
  | fresh hahead hfinish hplace =>
      obtain ⟨t, houtcome, htoken, hbehind⟩ := Cursor.scan_of_stream_eq_drop hahead hk
      rw [Stream.item_of_found htoken]
      exact ⟨houtcome, .fresh hbehind (Cursor.finish_scan.trans hfinish) (place_succ htoken)⟩
  | held hahead hfinish htoken =>
      rw [Stream.item_of_found htoken]
      exact ⟨rfl, .fresh hahead hfinish (place_succ htoken)⟩
  | spent hahead hfinish hlength hplace => exact absurd hlength hk.ne'

/-- Behind the last token the slot is empty, and the search comes to the end or the error again
and again. -/
theorem Stands.exhausted
    (h : Stands s first finish k closed r)
    (hk : s.found.length ≤ k) :
    r.slot = none ∧ r.cursor.scan.outcome = s.item k ∧
      Stands s first finish k true ⟨r.cursor.scan.cursor, none⟩ := by
  have hlength : s.found.length = k := le_antisymm hk h.le
  have hempty : s.drop k = ⟨[], s.error⟩ := by
    rw [Stream.drop, List.drop_eq_nil_of_le hk]
  have hcases : r.slot = none ∧ r.cursor.stream = s.drop k ∧ r.cursor.finish = finish := by
    cases h with
    | fresh hahead hfinish hplace => exact ⟨rfl, hahead, hfinish⟩
    | held hahead hfinish htoken =>
        rw [List.getElem?_eq_none hk] at htoken
        cases htoken
    | spent hahead hfinish hlength hplace => exact ⟨rfl, hahead, hfinish⟩
  obtain ⟨hslot, hahead, hfinish⟩ := hcases
  obtain ⟨houtcome, hposition, hagain⟩ := Cursor.scan_of_stream_eq_nil (hahead.trans hempty)
  refine ⟨hslot, ?_, .spent (hagain.trans hempty.symm) ?_ hlength ?_⟩
  · rw [houtcome, Stream.item_of_le hk]
    rfl
  · exact Cursor.finish_scan.trans hfinish
  · rw [hposition, hfinish]
    rfl

theorem Stands.peek_of_le
    (h : Stands s first finish k closed r)
    (hk : s.found.length ≤ k) :
    r.peek.result = s.item k ∧ Stands s first finish k true r.peek.reader := by
  obtain ⟨hslot, houtcome, hstands⟩ := h.exhausted hk
  obtain ⟨c, slot⟩ := r
  obtain rfl : slot = none := hslot
  rw [Stream.item_of_le hk] at houtcome ⊢
  unfold Stream.terminal at houtcome ⊢
  cases herror : s.error with
  | none =>
      simp only [herror] at houtcome
      simpa [peek, scan, houtcome] using hstands
  | some e =>
      simp only [herror] at houtcome
      simpa [peek, scan, houtcome] using hstands

theorem Stands.read_of_le
    (h : Stands s first finish k closed r)
    (hk : s.found.length ≤ k) :
    r.read.result = s.item k ∧ Stands s first finish k true r.read.reader := by
  obtain ⟨hslot, houtcome, hstands⟩ := h.exhausted hk
  obtain ⟨c, slot⟩ := r
  obtain rfl : slot = none := hslot
  exact ⟨houtcome, hstands⟩

theorem perform_eq (r : Reader) (op : Operation) :
    r.perform op =
      if op.takes then (op.answer r.read.result, r.read.reader)
      else (op.answer r.peek.result, r.peek.reader) := by
  cases op <;> rfl

/-- The answer on a token that is there gives it if it is taken, and reports nothing. -/
theorem answer_of_lt
    (hk : k < s.found.length)
    (op : Operation) :
    (op.takes && (op.answer (s.item k)).isToken) = op.takes ∧
      (op.answer (s.item k)).isTerminal = false := by
  rw [Stream.item_of_found (List.getElem?_eq_getElem hk)]
  cases op <;> exact ⟨rfl, rfl⟩

theorem answer_of_le
    (hk : s.found.length ≤ k)
    (op : Operation) :
    (op.answer (s.item k)).isToken = false ∧ (op.answer (s.item k)).isTerminal = true := by
  rw [Stream.item_of_le hk, Stream.terminal]
  cases s.error <;> cases op <;> exact ⟨rfl, rfl⟩

theorem taken_singleton (op : Operation) (answer : Answer) :
    taken [(op, answer)] = if op.takes && answer.isToken then 1 else 0 :=
  List.countP_singleton

theorem reported_singleton (op : Operation) (answer : Answer) :
    reported [(op, answer)] = answer.isTerminal :=
  Bool.or_false _

/-- **One step.** An operation answers from the stream, and leaves the reader in the stream. -/
theorem Stands.perform
    (h : Stands s first finish k closed r)
    (op : Operation) :
    (r.perform op).1 = op.answer (s.item k) ∧
      Stands s first finish (k + taken [(op, (r.perform op).1)])
        (closed || reported [(op, (r.perform op).1)]) (r.perform op).2 := by
  rw [perform_eq, taken_singleton, reported_singleton]
  rcases lt_or_ge k s.found.length with hk | hk
  · obtain ⟨htoken, hterminal⟩ := answer_of_lt hk op
    cases htakes : op.takes with
    | true =>
        obtain ⟨hresult, hstands⟩ := h.read_of_lt hk
        rw [htakes, Bool.true_and] at htoken
        simpa [hresult, hterminal, htoken] using hstands
    | false =>
        obtain ⟨hresult, hstands⟩ := h.peek_of_lt hk
        simpa [hresult, hterminal, htakes] using hstands
  · obtain ⟨htoken, hterminal⟩ := answer_of_le hk op
    cases htakes : op.takes with
    | true =>
        obtain ⟨hresult, hstands⟩ := h.read_of_le hk
        simpa [hresult, hterminal, htoken] using hstands
    | false =>
        obtain ⟨hresult, hstands⟩ := h.peek_of_le hk
        simpa [hresult, hterminal] using hstands

/-- Only what takes goes on, and only up to the last token. -/
theorem Stands.taken_perform
    (h : Stands s first finish k closed r)
    (op : Operation) :
    k + taken [(op, (r.perform op).1)] =
      if op.takes then min (k + 1) s.found.length else k := by
  rw [taken_singleton, (h.perform op).1]
  rcases lt_or_ge k s.found.length with hk | hk
  · rw [(answer_of_lt hk op).1]
    split <;> omega
  · have hle := h.le
    simp only [(answer_of_le hk op).1, Bool.and_false, Bool.false_eq_true, if_false]
    split <;> omega

/-- **A whole run.** After every sequence of operations the reader is in the stream, behind as
many tokens as were taken. -/
theorem Stands.run
    (h : Stands s first finish k closed r)
    (ops : List Operation) :
    Stands s first finish (k + taken (r.run ops).1) (closed || reported (r.run ops).1)
      (r.run ops).2 := by
  induction ops generalizing k closed r with
  | nil => simpa [Reader.run, taken, reported] using h
  | cons op ops ih =>
      have hbehind := ih (h.perform op).2
      have htaken : ∀ x history, taken (x :: history) = taken [x] + taken history := by
        intro x history
        rw [← List.singleton_append]
        exact List.countP_append
      have hreported : ∀ x history,
          reported (x :: history) = (reported [x] || reported history) := by
        intro x history
        simp [reported]
      simp only [Reader.run]
      rw [htaken, hreported, ← Nat.add_assoc, ← Bool.or_assoc]
      exact hbehind

end Simulation

theorem run_concat (r : Reader) (ops : List Operation) (op : Operation) :
    r.run (ops ++ [op]) =
      ((r.run ops).1 ++ [(op, ((r.run ops).2.perform op).1)], ((r.run ops).2.perform op).2) := by
  induction ops generalizing r with
  | nil => rfl
  | cons first ops ih => simp [run, ih]

end Reader

theorem tokenize_eq_stream (source : List Char) :
    tokenize source = (Cursor.ofSource source).stream.result := by
  obtain ⟨htokens, herror⟩ := Reader.readAll_eq_stream (Cursor.ofSource source)
  unfold tokenize Reading.result Stream.result Reader.ofSource
  cases hstream : (Cursor.ofSource source).stream.error with
  | none => simp only [herror, hstream, htokens]
  | some e => simp only [herror, hstream]

/-- **Transparent lookahead.** Search after search gives all tokens of a source and its error, at
most as many tokens as it has characters, each spelled behind the place of the one before it. After
every sequence of operations the next one answers from this stream, behind the tokens that were
taken. The reader is at the place behind them if nothing was looked at, behind the next token if
that is in the slot, and where the search stops for ever if the end or the error has been
reported. -/
theorem lookahead_transparent (source : List Char) :
    let s := (Cursor.ofSource source).stream
    let places := Position.start :: s.places
    tokenize source = s.result ∧
    s.found.length ≤ source.length ∧
    (∀ (k : Nat) (t : Token) (p : Position), s.found[k]? = some (t, p) → ∃ front gap l : List Char,
      front ++ (gap ++ l) <+: source ∧ Separator gap ∧
      (Spells t l ∨ ∃ value, t = .string value ∧ SpellsOpen value l) ∧
      places[k]? = some (Position.start.advanceBy front) ∧
      p = Position.start.advanceBy (front ++ (gap ++ l))) ∧
    ∀ ops : List Reader.Operation,
      let history := ((Reader.ofSource source).run ops).1
      let r := ((Reader.ofSource source).run ops).2
      let k := Reader.taken history
      (∀ op, (r.perform op).1 = op.answer (s.item k)) ∧
      (∀ op : Reader.Operation, Reader.taken ((Reader.ofSource source).run (ops ++ [op])).1 =
        if op.takes then min (k + 1) s.found.length else k) ∧
      (r.slot = none → Reader.reported history = false → places[k]? = some r.position) ∧
      (∀ t, r.slot = some t → s.found[k]? = some (t, r.position)) ∧
      (Reader.reported history = true →
        r.slot = none ∧ k = s.found.length ∧
          r.position = s.close (Position.start.advanceBy source)) := by
  intro s places
  refine ⟨tokenize_eq_stream source, Cursor.length_stream_found_le _,
    fun k t p => Cursor.exists_spelling_of_stream, ?_⟩
  intro ops history r k
  have hstands : Reader.Stands s Position.start (Position.start.advanceBy source) k
      (Reader.reported history) r := by
    have hrun := (Reader.stands_ofCursor (Cursor.ofSource source)).run ops
    rwa [Nat.zero_add, Bool.false_or] at hrun
  refine ⟨fun op => (hstands.perform op).1, ?_, ?_, ?_, ?_⟩
  · intro op
    rw [Reader.run_concat, ← hstands.taken_perform op]
    exact List.countP_append
  · intro hslot hreported
    rw [hreported] at hstands
    exact hstands.place_of_fresh hslot
  · intro t hslot
    exact hstands.found_of_slot hslot
  · intro hreported
    rw [hreported] at hstands
    exact hstands.of_closed

end TokenStream
