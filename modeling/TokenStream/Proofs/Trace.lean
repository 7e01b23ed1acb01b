import TokenStream.Log.Filter
import TokenStream.Proofs.Places
import TokenStream.Proofs.Writing

/-!
# The events of a listing

What a run reports is a replay of how its text falls into comments and spellings. A course lists
the tokens of a text in order, each with the places of the comments in front of it, the place of
its first character and the place behind it, and says how the text ends: with comments and nothing
else, or in front of a character that starts no token. Every place is that of a front part of the
text and is given by this front part as a whole.

**Results** passing over blanks and comments reports the comments, one search reports one piece
of the course, and a listing reports the course from its first piece to its end, in both formats
and with the same events.
-/

namespace TokenStream

/-- The places of the comments in a separator that stands behind `front`. -/
inductive Commented : List Char → List Char → List Position → Prop
  | empty
      {front : List Char} :
      Commented front [] []
  | blank
      {front : List Char} {c : Char} {w : List Char} {places : List Position}
      (hc : isBlank c = true)
      (hw : Commented (front ++ [c]) w places) :
      Commented front (c :: w) places
  | comment
      {front body w : List Char} {places : List Position}
      (hbody : '\n' ∉ body)
      (hw : Commented (front ++ commentMark :: (body ++ ['\n'])) w places) :
      Commented front (commentMark :: (body ++ '\n' :: w)) (Position.behind front :: places)

/-- The places of the comments in a trailer that stands behind `front`. -/
inductive CommentedEnd : List Char → List Char → List Position → Prop
  | separator
      {front w : List Char} {places : List Position}
      (hw : Commented front w places) :
      CommentedEnd front w places
  | comment
      {front w body : List Char} {places : List Position}
      (hw : Commented front w places)
      (hbody : '\n' ∉ body) :
      CommentedEnd front (w ++ commentMark :: body)
        (places ++ [Position.behind (front ++ w)])

section Comments

variable {front w : List Char} {places : List Position}

theorem Commented.separator
    (h : Commented front w places) :
    Separator w := by
  induction h with
  | empty => exact .empty
  | blank hc _ ih => exact .blank hc ih
  | comment hbody _ ih => exact .comment hbody ih

theorem CommentedEnd.trailer
    (h : CommentedEnd front w places) :
    Trailer w := by
  cases h with
  | separator hw => exact .separator hw.separator
  | comment hw hbody => exact .comment hw.separator hbody

theorem Separator.exists_commented
    (h : Separator w)
    (front : List Char) :
    ∃ places, Commented front w places := by
  induction h generalizing front with
  | empty => exact ⟨[], .empty⟩
  | @blank c w hc _ ih =>
      obtain ⟨places, hplaces⟩ := ih (front ++ [c])
      exact ⟨places, .blank hc hplaces⟩
  | @comment body w hbody _ ih =>
      obtain ⟨places, hplaces⟩ := ih (front ++ commentMark :: (body ++ ['\n']))
      exact ⟨_, .comment hbody hplaces⟩

theorem Trailer.exists_commentedEnd
    (h : Trailer w)
    (front : List Char) :
    ∃ places, CommentedEnd front w places := by
  cases h with
  | separator hw =>
      obtain ⟨places, hplaces⟩ := hw.exists_commented front
      exact ⟨places, .separator hplaces⟩
  | comment hw hbody =>
      obtain ⟨places, hplaces⟩ := hw.exists_commented front
      exact ⟨_, .comment hplaces hbody⟩

end Comments

/-- A token as it stands in a text. -/
structure Found where
  /-- The places of the comments in front of it. -/
  comments : List Position
  /-- The place of its first character. -/
  start : Position
  token : Token
  /-- Not a string that ended with the text. -/
  closed : Bool
  /-- The place behind it. -/
  after : Position

/-- How a text ends behind its last token. -/
structure Finish where
  comments : List Position
  /-- The character that starts no token, if one stands there. -/
  error : Option LexError

/-- The tokens that stand in a text behind `front`, and how the text ends. -/
inductive Course : List Char → List Char → List Found → Finish → Prop
  | token
      {front gap l rest : List Char} {t : Token} {places : List Position} {found : List Found}
      {finish : Finish}
      (hgap : Commented front gap places)
      (hl : Spells t l)
      (hend : EndsBefore t l rest)
      (hrest : Course (front ++ (gap ++ l)) rest found finish) :
      Course front (gap ++ (l ++ rest))
        (⟨places, Position.behind (front ++ gap), t, true,
          Position.behind (front ++ (gap ++ l))⟩ :: found) finish
  | openString
      {front gap value l : List Char} {places : List Position}
      (hgap : Commented front gap places)
      (hl : SpellsOpen value l) :
      Course front (gap ++ l)
        [⟨places, Position.behind (front ++ gap), .string value, false,
          Position.behind (front ++ (gap ++ l))⟩] ⟨[], none⟩
  | ended
      {front w : List Char} {places : List Position}
      (hw : CommentedEnd front w places) :
      Course front w [] ⟨places, none⟩
  | stuck
      {front gap rest : List Char} {a : Char} {places : List Position}
      (hgap : Commented front gap places)
      (htrivia : opensTrivia a = false)
      (ha : startsToken a = false) :
      Course front (gap ++ a :: rest) []
        ⟨places, some ⟨.unexpected a, Position.behind (front ++ gap)⟩⟩

/-- Every text has a course. -/
theorem exists_course (front ahead : List Char) :
    ∃ found finish, Course front ahead found finish := by
  -- by what is ahead, which every token makes shorter
  induction hn : ahead.length using Nat.strong_induction_on generalizing front ahead with
  | _ n ih =>
      subst hn
      have hbegin := beginning ahead
      cases hbegin with
      | trailer hw =>
          obtain ⟨places, hplaces⟩ := hw.exists_commentedEnd front
          exact ⟨_, _, .ended hplaces⟩
      | @token gap l rest t hgap hl hend =>
          obtain ⟨places, hplaces⟩ := hgap.exists_commented front
          obtain ⟨c, cs, rfl, _⟩ := hl.exists_eq_cons
          obtain ⟨found, finish, hrest⟩ := ih rest.length
            (by simp only [List.length_append, List.length_cons]; omega)
            (front ++ (gap ++ c :: cs)) rest rfl
          exact ⟨_, _, .token hplaces hl hend hrest⟩
      | openString hgap hl =>
          obtain ⟨places, hplaces⟩ := hgap.exists_commented front
          exact ⟨_, _, .openString hplaces hl⟩
      | stuck hgap htrivia ha =>
          obtain ⟨places, hplaces⟩ := hgap.exists_commented front
          exact ⟨_, _, .stuck hplaces htrivia ha⟩

namespace Found

/-- What a token has to report besides itself. -/
def remark (x : Found) : List Event :=
  match x.token with
  | .keyword k => [.keywordMatched k]
  | .string value => if x.closed then [] else [.stringUnclosed value]
  | _ => []

/-- A lexeme reports what its token has to report. -/
theorem remark_of_lexeme (x : Lexeme) (comments : List Position) (start after : Position) :
    remark ⟨comments, start, x.token, x.closed, after⟩ = x.events := by
  obtain ⟨token, spelling, closed⟩ := x
  cases token <;> rfl

/-- What is reported until the token is found. -/
def events (x : Found) : List Event :=
  .tokenRequested :: x.comments.map .scanStarted ++
    .scanStarted x.start :: x.remark ++ [.tokenProduced x.token x.after]

end Found

namespace Finish

/-- What is reported behind the last token. -/
def events (x : Finish) : List Event :=
  .tokenRequested :: x.comments.map .scanStarted ++
    match x.error with
    | none => [.endReached]
    | some e => [.scanStarted e.position, .errorRaised e, .errorMet e]

/-- What is reported of a listing with `count` tokens once it is complete. -/
def farewell (x : Finish) (count : Nat) : List Event :=
  match x.error with
  | none => [.finished count]
  | some _ => []

/-- What reading comes to that has found these tokens. -/
def result (x : Finish) (found : List Found) : Except LexError (List Token) :=
  match x.error with
  | none => .ok (found.map Found.token)
  | some e => .error e

end Finish

/-- What a log is given of an event besides its level and target. -/
structure Report where
  message : List Char
  fields : List Field
deriving DecidableEq, Repr

def Event.report (e : Event) : Report :=
  ⟨e.message, e.fields⟩

namespace Report

def place (p : Position) : List Field :=
  [⟨"line".toList, .count p.line⟩, ⟨"column".toList, .count p.column⟩]

def request : Report :=
  ⟨"Requesting next token".toList, []⟩

def start (p : Position) : Report :=
  ⟨"Starting token scan".toList, place p⟩

end Report

/-- What a log is given until the token is found. -/
def Found.reports (x : Found) : List Report :=
  .request :: x.comments.map .start ++ .start x.start ::
    (match x.token with
    | .keyword k => [⟨"Matched keyword".toList, [⟨"keyword".toList, .word k.word⟩]⟩]
    | .string value =>
      if x.closed then []
      else [⟨"String reached end of input before closing quote".toList,
        [⟨"partial".toList, .shown value⟩]⟩]
    | _ => []) ++
    [⟨"Produced token".toList, ⟨"token".toList, .shown x.token.inspect⟩ :: Report.place x.after⟩]

/-- What a log is given behind the last token of a text with `count` tokens. -/
def Finish.reports (x : Finish) (count : Nat) : List Report :=
  .request :: x.comments.map .start ++
    match x.error with
    | none =>
      [⟨"Reached end of input".toList, []⟩,
        ⟨"Tokenization finished".toList, [⟨"count".toList, .count count⟩]⟩]
    | some e =>
      [.start e.position,
        ⟨"Raising lex error".toList,
          Report.place e.position ++ [⟨"message".toList, .shown e.message⟩]⟩,
        ⟨"Lex error encountered".toList, [⟨"error".toList, .shown e.text⟩]⟩]

theorem Report.map_scanStarted (places : List Position) :
    (places.map Event.scanStarted).map Event.report = places.map start := by
  rw [List.map_map]
  rfl

theorem Found.map_report_events (x : Found) :
    x.events.map Event.report = x.reports := by
  obtain ⟨comments, start, token, closed, after⟩ := x
  simp only [events, List.map_append, List.map_cons, Report.map_scanStarted]
  cases token with
  | string value => cases closed <;> rfl
  | _ => rfl

theorem Finish.map_report_events (x : Finish) (count : Nat) :
    (x.events ++ x.farewell count).map Event.report = x.reports count := by
  obtain ⟨comments, error⟩ := x
  simp only [events, List.map_append, List.map_cons, Report.map_scanStarted, reports,
    List.append_assoc, List.cons_append]
  cases error <;> rfl

namespace Cursor

variable {c : Cursor} {source front : List Char}

/-- Passing over a separator reports its comments. -/
theorem skipTrivia_commented
    {w r : List Char} {places : List Position}
    (hc : c.Behind source front)
    (hw : Commented front w places)
    (hrest : c.rest = w ++ r) :
    c.skipTrivia.1 = places ++ (c.skip w.length).skipTrivia.1 := by
  induction hw generalizing c with
  | empty => simp
  | @blank front a w places ha _ ih =>
      have hadvance : c.advance.rest = w ++ r := by simp [advance, hrest]
      have hbehind : c.advance.Behind source (front ++ [a]) := by
        have h := hc.skip 1
        rwa [hrest] at h
      rw [← skipTrivia_advance hrest ha, ih hbehind hadvance, advance, skip_skip,
        List.length_cons, Nat.add_comm]
  | @comment front body w places hbody _ ih =>
      have hline : c.rest = commentMark :: body ++ '\n' :: (w ++ r) := by simp [hrest]
      have hhead : c.rest.head? = some commentMark := by simp [hline]
      have hfront : c.rest = commentMark :: (body ++ ['\n']) ++ (w ++ r) := by simp [hrest]
      have hskip := skipComment_eq_skip hline hbody
      have hbehind : c.skipComment.rest = w ++ r := by
        rw [hskip, skip_rest, hfront, List.drop_left]
      have hplace : c.skipComment.Behind source
          (front ++ commentMark :: (body ++ ['\n'])) := by
        have h := hc.skip (commentMark :: (body ++ ['\n'])).length
        rw [← hskip, hfront, List.take_left] at h
        exact h
      have hlength : (commentMark :: (body ++ '\n' :: w)).length =
          (commentMark :: (body ++ ['\n'])).length + w.length := by
        simp
        omega
      rw [skipTrivia_of_head hhead, ih hplace hbehind, hskip, skip_skip, ← hlength, hc.position_eq,
        List.cons_append]

/-- Passing over a trailer reports its comments. -/
theorem skipTrivia_commentedEnd
    {places : List Position}
    (hc : c.Behind source front)
    (h : CommentedEnd front c.rest places) :
    c.skipTrivia.1 = places := by
  generalize hrest : c.rest = w at h
  cases h with
  | separator hw =>
      have happend : c.rest = w ++ [] := by simp [hrest]
      rw [skipTrivia_commented hc hw happend, skipTrivia_eq_self (by simp [hrest]),
        List.append_nil]
  | @comment w body places hw hbody =>
      have hbehind : (c.skip w.length).rest = commentMark :: body := by simp [hrest]
      have hhead : (c.skip w.length).rest.head? = some commentMark := by rw [hbehind]; rfl
      have hplace : (c.skip w.length).Behind source (front ++ w) := by
        have h := hc.skip w.length
        rwa [hrest, List.take_left] at h
      rw [skipTrivia_commented hc hw hrest, skipTrivia_of_head hhead,
        skipComment_eq_skip_of_end hbehind hbody, hplace.position_eq]
      have hend (d : Cursor) : (d.skip d.rest.length).rest = [] := by
        rw [skip_rest, List.drop_length]
      rw [skipTrivia_eq_self (by rw [hend]; exact nofun)]

/-- The comments, where the search stops, and the place there. -/
theorem skipTrivia_of_commented
    {w r : List Char} {places : List Position}
    (hc : c.Behind source front)
    (hw : Commented front w places)
    (hrest : c.rest = w ++ r)
    (hr : ∀ a ∈ r.head?, opensTrivia a = false) :
    c.skipTrivia = (places, c.skip w.length) ∧
      (c.skip w.length).rest = r ∧ (c.skip w.length).Behind source (front ++ w) := by
  have hbehind : (c.skip w.length).rest = r := by rw [skip_rest, hrest, List.drop_left]
  have hnone : (c.skip w.length).skipTrivia.1 = [] := by
    rw [skipTrivia_eq_self (hbehind ▸ hr)]
  refine ⟨?_, hbehind, ?_⟩
  · rw [← skipTrivia_eq_skip hw.separator hrest hr]
    refine Prod.ext ?_ rfl
    rw [skipTrivia_commented hc hw hrest, hnone, List.append_nil]
  · have h := hc.skip w.length
    rwa [hrest, List.take_left] at h

/-- What a search reports that finds a lexeme behind a separator, and where it stops. -/
theorem scan_of_commented_lexeme
    {gap rest : List Char} {x : Lexeme} {places : List Position}
    (hc : c.Behind source front)
    (hgap : Commented front gap places)
    (hrest : c.rest = gap ++ (x.spelling ++ rest))
    (hstops : ∀ a ∈ (x.spelling ++ rest).head?, opensTrivia a = false)
    (hread : Lexeme.read? (x.spelling ++ rest) = some x) :
    c.scan.outcome = .ok (some x.token) ∧
      c.scan.events = places.map .scanStarted ++
        .scanStarted (Position.behind (front ++ gap)) :: x.events ∧
      c.scan.cursor.Behind source (front ++ (gap ++ x.spelling)) ∧
      c.scan.cursor.rest = rest := by
  obtain ⟨htrivia, hbehind, hplace⟩ := skipTrivia_of_commented hc hgap hrest hstops
  rw [← hbehind] at hread
  have hscan : c.scan = ⟨.ok (some x.token), places.map .scanStarted ++
      .scanStarted (Position.behind (front ++ gap)) :: x.events,
      (c.skip gap.length).skip x.spelling.length⟩ := by
    simp only [scan, htrivia, scanLexeme_of_read? hread, hplace.position_eq]
  rw [hscan]
  refine ⟨rfl, rfl, ?_, ?_⟩
  · have h := hplace.skip x.spelling.length
    rwa [hbehind, List.take_left, List.append_assoc] at h
  · rw [skip_rest, hbehind, List.drop_left]

/-- What a search reports in front of a trailer. -/
theorem scan_of_commentedEnd
    {places : List Position}
    (hc : c.Behind source front)
    (h : CommentedEnd front c.rest places) :
    c.scan.outcome = .ok none ∧ c.scan.events = places.map .scanStarted := by
  obtain ⟨houtcome, -⟩ := scan_of_trailer h.trailer
  have hend : c.skipTrivia.2.rest = [] := by
    rw [skipTrivia_trailer h.trailer, skip_rest, List.drop_length]
  refine ⟨houtcome, ?_⟩
  simp [scan, scanLexeme, hend, skipTrivia_commentedEnd hc h]

/-- What a search reports in front of a character that starts no token. -/
theorem scan_of_commented_stuck
    {gap rest : List Char} {a : Char} {places : List Position}
    (hc : c.Behind source front)
    (hgap : Commented front gap places)
    (hrest : c.rest = gap ++ a :: rest)
    (htrivia : opensTrivia a = false)
    (ha : startsToken a = false) :
    let e : LexError := ⟨.unexpected a, Position.behind (front ++ gap)⟩
    c.scan.outcome = .error e ∧
      c.scan.events = places.map .scanStarted ++ [.scanStarted e.position, .errorRaised e] := by
  have hstops : ∀ b ∈ (a :: rest).head?, opensTrivia b = false := by
    rintro b ⟨⟩
    exact htrivia
  obtain ⟨hskip, hbehind, hplace⟩ := skipTrivia_of_commented hc hgap hrest hstops
  have hscan := scanLexeme_of_startsToken_eq_false hbehind ha
  rw [fail, hplace.position_eq] at hscan
  simp [scan, hskip, hscan]

end Cursor

/-- A reading gives the tokens of a course, ends as the course ends and reports just that. -/
structure Replays (reading : Reading) (found : List Found) (finish : Finish) : Prop where
  tokens_eq : reading.tokens = found.map Found.token
  error_eq : reading.error = finish.error
  events_eq : reading.events = found.flatMap Found.events ++ finish.events

theorem Replays.result_eq
    {reading : Reading} {found : List Found} {finish : Finish}
    (h : Replays reading found finish) :
    reading.result = finish.result found := by
  obtain ⟨comments, error⟩ := finish
  cases error with
  | none => exact Reading.result_eq_ok_iff.mpr ⟨h.error_eq, h.tokens_eq⟩
  | some e => exact Reading.result_eq_error_iff.mpr h.error_eq

theorem Replays.farewell_eq
    {reading : Reading} {found : List Found} {finish : Finish}
    (h : Replays reading found finish) :
    Listing.farewell reading = finish.farewell found.length := by
  obtain ⟨comments, error⟩ := finish
  rw [Listing.farewell, h.result_eq]
  cases error with
  | none => simp [Finish.result, Finish.farewell]
  | some e => rfl

section Replay

variable {c : Cursor} {source front : List Char} {places : List Position}

theorem Reader.events_read_ofCursor (c : Cursor) :
    (Reader.ofCursor c).read.events =
      .tokenRequested :: c.scan.events ++ [Reader.closing c.scan] :=
  rfl

theorem replays_of_commentedEnd
    (hc : c.Behind source front)
    (hw : CommentedEnd front c.rest places) :
    Replays (Reader.ofCursor c).readAll [] ⟨places, none⟩ := by
  obtain ⟨houtcome, hevents⟩ := Cursor.scan_of_commentedEnd hc hw
  have hread : (Reader.ofCursor c).read.result = .ok none := houtcome
  rw [Reader.readAll_of_read_end hread, Reader.events_read_ofCursor, hevents, Reader.closing,
    houtcome]
  exact ⟨rfl, rfl, rfl⟩

theorem replays_of_stuck
    {gap rest : List Char} {a : Char}
    (hc : c.Behind source front)
    (hgap : Commented front gap places)
    (hrest : c.rest = gap ++ a :: rest)
    (htrivia : opensTrivia a = false)
    (ha : startsToken a = false) :
    Replays (Reader.ofCursor c).readAll []
      ⟨places, some ⟨.unexpected a, Position.behind (front ++ gap)⟩⟩ := by
  obtain ⟨houtcome, hevents⟩ := Cursor.scan_of_commented_stuck hc hgap hrest htrivia ha
  have hread : (Reader.ofCursor c).read.result =
      .error ⟨.unexpected a, Position.behind (front ++ gap)⟩ := houtcome
  rw [Reader.readAll_of_read_error hread, Reader.events_read_ofCursor, hevents, Reader.closing,
    houtcome]
  refine ⟨rfl, rfl, ?_⟩
  simp [Reading.events, Finish.events]

/-- **One step.** A search that finds a lexeme replays one piece of the course. -/
theorem replays_of_lexeme
    {gap rest : List Char} {found : List Found} {finish : Finish}
    (x : Lexeme)
    (hc : c.Behind source front)
    (hgap : Commented front gap places)
    (hrest : c.rest = gap ++ (x.spelling ++ rest))
    (hstops : ∀ a ∈ (x.spelling ++ rest).head?, opensTrivia a = false)
    (hread : Lexeme.read? (x.spelling ++ rest) = some x)
    (htail : ∀ d : Cursor, d.Behind source (front ++ (gap ++ x.spelling)) → d.rest = rest →
      Replays (Reader.ofCursor d).readAll found finish) :
    Replays (Reader.ofCursor c).readAll
      (⟨places, Position.behind (front ++ gap), x.token, x.closed,
        Position.behind (front ++ (gap ++ x.spelling))⟩ :: found) finish := by
  obtain ⟨houtcome, hevents, hbehind, hbehindRest⟩ :=
    Cursor.scan_of_commented_lexeme hc hgap hrest hstops hread
  obtain ⟨htokens, herror, htailEvents⟩ := htail c.scan.cursor hbehind hbehindRest
  have hresult : (Reader.ofCursor c).read.result = .ok (some x.token) := houtcome
  obtain ⟨htokensAll, herrorAll⟩ := Reader.readAll_of_token houtcome
  refine ⟨?_, herrorAll.trans herror, ?_⟩
  · rw [htokensAll, htokens, List.map_cons]
  · have hnext : (Reader.ofCursor c).read.reader = Reader.ofCursor c.scan.cursor := rfl
    rw [Reader.events_readAll_of_read_token hresult, hnext, htailEvents,
      Reader.events_read_ofCursor, hevents, Reader.closing, houtcome, hbehind.position_eq]
    rw [List.flatMap_cons, Found.events, Found.remark_of_lexeme]
    simp

/-- **The run.** Reading what is ahead replays its course. -/
theorem Course.replays
    {ahead : List Char} {found : List Found} {finish : Finish}
    (h : Course front ahead found finish)
    (hc : c.Behind source front)
    (hrest : c.rest = ahead) :
    Replays (Reader.ofCursor c).readAll found finish := by
  -- along the course, each piece of which is one search
  induction h generalizing c with
  | @token front gap l rest t places found finish hgap hl hend _ ih =>
      exact replays_of_lexeme ⟨t, l, true⟩ hc hgap hrest hl.opensTrivia_of_head
        (Lexeme.read?_of_spells hl hend) fun d hd hdrest => ih hd hdrest
  | @openString front gap value l places hgap hl =>
      have happend : c.rest = gap ++ (l ++ []) := by rw [hrest, List.append_nil]
      have hread : Lexeme.read? (l ++ []) = some ⟨.string value, l, false⟩ := by
        rw [List.append_nil]
        exact Lexeme.read?_of_spellsOpen hl
      refine replays_of_lexeme ⟨.string value, l, false⟩ hc hgap happend ?_ hread
        fun d hd hdrest => ?_
      · rw [List.append_nil]
        exact hl.opensTrivia_of_head
      · -- behind an open string nothing is left to pass over
        refine replays_of_commentedEnd hd ?_
        rw [hdrest]
        exact .separator .empty
  | ended hw => exact replays_of_commentedEnd hc (hrest ▸ hw)
  | stuck hgap htrivia ha => exact replays_of_stuck hc hgap hrest htrivia ha

end Replay

/-- **The events of a listing.** A text has a course, and a listing of it in either format reports
this course from its first token to its end, between the creation of the reader and, if the text
ends, the number of the tokens. A log at the lowest level shows all of it, in these words. -/
theorem listing_replays_course (source : List Char) (format : Format) :
    let listing := list source format (Sink.empty none)
    let bytes := (Text.utf8 source).length
    (∃ found finish, Course [] source found finish) ∧
    ∀ found finish, Course [] source found finish →
      tokenize source = finish.result found ∧
      listing.events = .readerCreated bytes ::
        (found.flatMap Found.events ++ (finish.events ++ finish.farewell found.length)) ∧
      listing.events.map Event.report =
        ⟨"Creating new TokenReader".toList, [⟨"bytes".toList, .count bytes⟩]⟩ ::
          (found.flatMap Found.reports ++ finish.reports found.length) ∧
      ∀ e ∈ listing.events, (Config.filter ⟨format, .trace, none⟩).shows e = true := by
  intro listing bytes
  refine ⟨exists_course [] source, ?_⟩
  intro found finish hcourse
  have hreplays : Replays (Reader.ofSource source).readAll found finish :=
    hcourse.replays (Cursor.behind_ofSource source) rfl
  have hlisted := Listing.listed_ofReading format (Reader.ofSource source).readAll none
  have hcreation : (Reader.ofSource source).creation = .readerCreated bytes := by
    rw [show bytes = Text.byteLength source from Text.length_utf8 source]
    rfl
  have hevents : listing.events = .readerCreated bytes ::
      (found.flatMap Found.events ++ (finish.events ++ finish.farewell found.length)) := by
    rw [← List.append_assoc, ← hreplays.events_eq, ← hreplays.farewell_eq,
      ← hlisted.events_of_fits (by rintro room ⟨⟩), ← hcreation]
    rfl
  refine ⟨hreplays.result_eq, hevents, ?_, ?_⟩
  · rw [hevents, List.map_cons, List.map_append, List.map_flatMap, Finish.map_report_events]
    simp only [Found.map_report_events]
    rfl
  · intro e _
    cases e <;> rfl

end TokenStream
