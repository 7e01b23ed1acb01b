import TokenStream.Listing
import Mathlib.Tactic

/-!
# Listings in a sink that may fill up

A sink with a limit keeps the first bytes that it is given. A listing is written piece by piece
and stops at the first piece that does not fit, but what the sink has kept is always the front
part of the whole listing, as long as the limit allows.

**Input** a text, a format and a limit.

**Results** one writing keeps a sink exact, so do all lines of a listing; a listing is the whole
one, cut off at the limit, and whether it is cut off decides what is complained of: the end of the
listing comes after every other complaint that the text gives rise to.
-/

namespace TokenStream

namespace Sink

/-- The bytes that a sink with this limit keeps. -/
def cut (limit : Option Nat) (bytes : List UInt8) : List UInt8 :=
  match limit with
  | none => bytes
  | some room => bytes.take room

/-- The bytes are not more than the limit allows. -/
def Fits (limit : Option Nat) (bytes : List UInt8) : Prop :=
  ∀ room ∈ limit, bytes.length ≤ room

/-- The sink has the limit and was given these bytes. -/
structure Given (limit : Option Nat) (bytes : List UInt8) (s : Sink) : Prop where
  contents_eq : s.contents = cut limit bytes
  room_eq : s.room = limit.map (· - bytes.length)

section Given

variable {limit : Option Nat} {bytes more : List UInt8} {s : Sink}

theorem given_empty (limit : Option Nat) :
    Given limit [] (empty limit) := by
  cases limit <;> exact ⟨by simp [cut], rfl⟩

theorem Fits.of_append
    (h : Fits limit (bytes ++ more)) :
    Fits limit bytes := by
  intro room hroom
  have hle := h room hroom
  rw [List.length_append] at hle
  omega

theorem Fits.not_lt
    {room : Nat}
    (h : Fits limit bytes)
    (hroom : room ∈ limit) :
    ¬ room < bytes.length :=
  Nat.not_lt.mpr (h room hroom)

theorem cut_of_fits
    (h : Fits limit bytes) :
    cut limit bytes = bytes := by
  cases limit with
  | none => rfl
  | some room => exact List.take_of_length_le (h room rfl)

/-- What is kept of too many bytes does not depend on how they go on. -/
theorem Given.append_of_not_fits
    (h : Given limit bytes s)
    (hfits : ¬ Fits limit bytes)
    (more : List UInt8) :
    Given limit (bytes ++ more) s := by
  cases limit with
  | none => exact absurd (by rintro room ⟨⟩) hfits
  | some room =>
      have hlt : room < bytes.length := by
        by_contra hle
        apply hfits
        rintro _ ⟨⟩
        omega
      refine ⟨?_, ?_⟩
      · rw [h.contents_eq, cut, cut, List.take_append_of_le_length hlt.le]
      · rw [h.room_eq, Option.map_some, Option.map_some, List.length_append]
        congr 1
        omega

/-- **One writing.** It succeeds if the bytes still fit, and in any case the sink was given them. -/
theorem Given.write
    (h : Given limit bytes s)
    (hfits : Fits limit bytes)
    (more : List UInt8) :
    ((s.write more).1 = true ↔ Fits limit (bytes ++ more)) ∧
      Given limit (bytes ++ more) (s.write more).2 := by
  obtain ⟨taken, room⟩ := s
  obtain ⟨hcontents, hroom⟩ := h
  rw [cut_of_fits hfits] at hcontents
  cases limit with
  | none =>
      obtain rfl : room = none := hroom
      refine ⟨by simp [Sink.write, Fits], ?_, rfl⟩
      rw [contents_write_none, hcontents, cut]
  | some limit =>
      obtain rfl : room = some (limit - bytes.length) := hroom
      have hle : bytes.length ≤ limit := hfits limit rfl
      refine ⟨?_, ?_, ?_⟩
      · simp only [Sink.write, Fits, decide_eq_true_eq, Option.mem_some_iff, forall_eq',
          List.length_append]
        omega
      · rw [contents_write_some, hcontents, cut, List.take_append,
          List.take_of_length_le hle]
      · simp only [Sink.write, Option.map_some, List.length_append]
        congr 1
        omega

theorem Given.writeText
    (h : Given limit bytes s)
    (hfits : Fits limit bytes)
    (cs : List Char) :
    ((s.writeText cs).1 = true ↔ Fits limit (bytes ++ Text.utf8 cs)) ∧
      Given limit (bytes ++ Text.utf8 cs) (s.writeText cs).2 :=
  h.write hfits (Text.utf8 cs)

end Given
end Sink

namespace Listing

/-- The lines of a listing. -/
def lines (tokens : List Token) : List Char :=
  tokens.flatMap fun t => t.line ++ ['\n']

/-- All that is written of a reading if the sink takes it. -/
def whole (reading : Reading) : Format → List Char
  | .text => lines reading.tokens
  | .json =>
    match reading.result with
    | .ok tokens => Token.prettyList tokens ++ ['\n']
    | .error _ => []

/-- What listing a reading comes to if the sink takes all of it. -/
def verdict (reading : Reading) : Except RunError Nat :=
  match reading.result with
  | .ok tokens => .ok tokens.length
  | .error e => .error (.lex e)

/-- What is reported of the listing itself, once it is complete. -/
def farewell (reading : Reading) : List Event :=
  match reading.result with
  | .ok tokens => [.finished tokens.length]
  | .error _ => []

/-- What is complained of if the sink has room for fewer bytes than are written. -/
def overflow (room written : Nat) : Format → RunError
  | .text => .io sinkName .sinkFull
  | .json => if room + 1 < written then .encode .sinkFull else .io sinkName .sinkFull

section Written

variable {limit : Option Nat} {given : List UInt8} {sink : Sink}

/-- **All lines.** They are all written if they fit; what was reported up to then is reported. -/
theorem given_writeLines
    (hsink : Sink.Given limit given sink)
    (hfits : Sink.Fits limit given)
    (taken : List (Token × List Event)) :
    ((writeLines taken sink).1 = true ↔
        Sink.Fits limit (given ++ Text.utf8 (lines (taken.map Prod.fst)))) ∧
      ((writeLines taken sink).1 = true →
        (writeLines taken sink).2.1 = taken.flatMap Prod.snd) ∧
      Sink.Given limit (given ++ Text.utf8 (lines (taken.map Prod.fst)))
        (writeLines taken sink).2.2 := by
  induction taken generalizing given sink with
  | nil => simpa [writeLines, lines] using ⟨hfits, hsink⟩
  | cons x taken ih =>
      obtain ⟨t, events⟩ := x
      have hbytes : given ++ Text.utf8 (lines (((t, events) :: taken).map Prod.fst)) =
          given ++ Text.utf8 (t.line ++ ['\n']) ++ Text.utf8 (lines (taken.map Prod.fst)) := by
        rw [List.append_assoc, ← Text.utf8_append]
        rfl
      obtain ⟨hdone, hline⟩ := hsink.writeText hfits (t.line ++ ['\n'])
      rw [hbytes]
      rcases hwrite : sink.writeText (t.line ++ ['\n']) with ⟨complete, behind⟩
      rw [hwrite] at hdone hline
      cases complete with
      | false =>
          have hnot : ¬ Sink.Fits limit (given ++ Text.utf8 (t.line ++ ['\n'])) :=
            fun h => Bool.false_ne_true (hdone.mpr h)
          simp only [writeLines, hwrite]
          exact ⟨⟨nofun, fun h => absurd h.of_append hnot⟩, nofun,
            hline.append_of_not_fits hnot _⟩
      | true =>
          obtain ⟨hrest, hevents, hlast⟩ := ih hline (hdone.mp rfl)
          simp only [writeLines, hwrite]
          refine ⟨hrest, ?_, hlast⟩
          intro h
          rw [hevents h]
          rfl

/-- The listing of a reading in a sink with this limit: what it leaves there, and what it comes to
if the sink takes all of it and if it does not. -/
structure Listed (reading : Reading) (format : Format) (limit : Option Nat) (x : Listing) :
    Prop where
  contents_eq : x.sink.contents = Sink.cut limit (Text.utf8 (whole reading format))
  outcome_of_fits :
    Sink.Fits limit (Text.utf8 (whole reading format)) → x.outcome = verdict reading
  events_of_fits :
    Sink.Fits limit (Text.utf8 (whole reading format)) →
      x.events = reading.events ++ farewell reading
  outcome_of_lt : ∀ room ∈ limit, room < (Text.utf8 (whole reading format)).length →
    x.outcome = .error (overflow room (Text.utf8 (whole reading format)).length format)

theorem listed_ofReadingText (reading : Reading) (limit : Option Nat) :
    Listed reading .text limit (ofReadingText reading (Sink.empty limit)) := by
  have hlines := given_writeLines (Sink.given_empty limit) (fun _ _ => Nat.zero_le _) reading.taken
  rw [List.nil_append] at hlines
  obtain ⟨hdone, hevents, hlast⟩ := hlines
  rcases hwrite : writeLines reading.taken (Sink.empty limit) with ⟨complete, events, last⟩
  rw [hwrite] at hdone hevents hlast
  have hcontents := hlast.contents_eq
  cases complete with
  | false =>
      have hnot : ¬ Sink.Fits limit (Text.utf8 (whole reading .text)) :=
        fun h => Bool.false_ne_true (hdone.mpr h)
      simp only [ofReadingText, hwrite]
      exact ⟨hcontents, fun h => absurd h hnot, fun h => absurd h hnot, fun _ _ _ => rfl⟩
  | true =>
      obtain rfl : events = reading.taken.flatMap Prod.snd := hevents rfl
      have hwhole : Sink.Fits limit (Text.utf8 (whole reading .text)) := hdone.mp rfl
      have hfull (room : Nat) (hroom : room ∈ limit) := hwhole.not_lt hroom
      cases herror : reading.error with
      | none =>
          simp only [ofReadingText, hwrite, herror]
          refine ⟨hcontents, fun _ => ?_, fun _ => ?_,
            fun room hroom h => absurd h (hfull room hroom)⟩
          · simp [verdict, Reading.result, herror, Reading.tokens]
          · simp [farewell, finish, Reading.result, herror, Reading.events, Reading.tokens]
      | some e =>
          simp only [ofReadingText, hwrite, herror]
          refine ⟨hcontents, fun _ => ?_, fun _ => ?_,
            fun room hroom h => absurd h (hfull room hroom)⟩
          · simp [verdict, Reading.result, herror]
          · simp [farewell, Reading.result, herror, Reading.events]

/-- The newline behind a list is one byte. -/
theorem length_utf8_append_newline (cs : List Char) :
    (Text.utf8 (cs ++ ['\n'])).length = (Text.utf8 cs).length + 1 := by
  rw [Text.utf8_append, List.length_append]
  rfl

/-- A text with an error leaves no list. -/
theorem listed_ofReadingJson_of_error
    {reading : Reading} {e : LexError}
    (herror : reading.error = some e)
    (limit : Option Nat) :
    Listed reading .json limit (ofReadingJson reading (Sink.empty limit)) := by
  have hresult := Reading.result_eq_error_iff.mpr herror
  have hwhole : whole reading .json = [] := by simp [whole, hresult]
  simp only [ofReadingJson, herror]
  refine ⟨?_, fun _ => ?_, fun _ => ?_, ?_⟩
  · rw [hwhole]
    exact (Sink.given_empty limit).contents_eq
  · simp [verdict, hresult]
  · simp [farewell, hresult]
  · simp [hwhole]

/-- The list is written first, the newline behind it second; only the complaint tells which of them
found no room. -/
theorem listed_ofReadingJson_of_done
    {reading : Reading}
    (herror : reading.error = none)
    (limit : Option Nat) :
    Listed reading .json limit (ofReadingJson reading (Sink.empty limit)) := by
  have hresult : reading.result = .ok reading.tokens :=
    Reading.result_eq_ok_iff.mpr ⟨herror, rfl⟩
  have hwhole : whole reading .json = Token.prettyList reading.tokens ++ ['\n'] := by
    simp [whole, hresult]
  have hlength := length_utf8_append_newline (Token.prettyList reading.tokens)
  obtain ⟨hdone, hgiven⟩ := (Sink.given_empty limit).writeText (fun _ _ => Nat.zero_le _)
    (Token.prettyList reading.tokens)
  rw [List.nil_append] at hdone hgiven
  rcases hwrite : (Sink.empty limit).writeText (Token.prettyList reading.tokens) with
    ⟨complete, behind⟩
  rw [hwrite] at hdone hgiven
  cases complete with
  | false =>
      have hnot : ¬ Sink.Fits limit (Text.utf8 (Token.prettyList reading.tokens)) :=
        fun h => Bool.false_ne_true (hdone.mpr h)
      have hcontents := (hgiven.append_of_not_fits hnot (Text.utf8 ['\n'])).contents_eq
      rw [← Text.utf8_append, ← hwhole] at hcontents
      have hwholeNot : ¬ Sink.Fits limit (Text.utf8 (whole reading .json)) := by
        rw [hwhole, Text.utf8_append]
        exact fun h => hnot h.of_append
      simp only [ofReadingJson, herror, hwrite]
      refine ⟨hcontents, fun h => absurd h hwholeNot, fun h => absurd h hwholeNot, ?_⟩
      intro room hroom _
      have hlt : room < (Text.utf8 (Token.prettyList reading.tokens)).length := by
        by_contra hle
        apply hnot
        intro other hother
        obtain rfl : room = other := Option.mem_unique hroom hother
        omega
      rw [hwhole, hlength, overflow, if_pos (by omega)]
  | true =>
      have hfits := hdone.mp rfl
      obtain ⟨hnewline, hlast⟩ := hgiven.writeText hfits ['\n']
      rw [← Text.utf8_append, ← hwhole] at hnewline hlast
      rcases hclose : behind.writeText ['\n'] with ⟨ended, last⟩
      rw [hclose] at hnewline hlast
      cases ended with
      | false =>
          have hnot : ¬ Sink.Fits limit (Text.utf8 (whole reading .json)) :=
            fun h => Bool.false_ne_true (hnewline.mpr h)
          simp only [ofReadingJson, herror, hwrite, hclose]
          refine ⟨hlast.contents_eq, fun h => absurd h hnot, fun h => absurd h hnot, ?_⟩
          intro room hroom _
          have hle := hfits room hroom
          rw [hwhole, hlength, overflow, if_neg (by omega)]
      | true =>
          have hwholeFits := hnewline.mp rfl
          simp only [ofReadingJson, herror, hwrite, hclose]
          refine ⟨hlast.contents_eq, fun _ => ?_, fun _ => ?_,
            fun room hroom h => absurd h (hwholeFits.not_lt hroom)⟩
          · simp [verdict, hresult, Reading.tokens]
          · simp [farewell, finish, hresult, Reading.tokens]

theorem listed_ofReading (format : Format) (reading : Reading) (limit : Option Nat) :
    Listed reading format limit (ofReading format reading (Sink.empty limit)) := by
  cases format with
  | text => exact listed_ofReadingText reading limit
  | json =>
      cases herror : reading.error with
      | some e => exact listed_ofReadingJson_of_error herror limit
      | none => exact listed_ofReadingJson_of_done herror limit

end Written
end Listing

/-- **Listings in a sink with a limit.** A sink takes the front part of the whole listing that it
has room for. If it takes all of it, the listing comes to what reading the text comes to, in both
formats; else the sink is complained of, and in the JSON format the complaint is about the list
unless only the newline behind it has no room. -/
theorem list_into_limited_sink (source : List Char) (format : Format) (limit : Nat) :
    let reading := (Reader.ofSource source).readAll
    let full := Text.utf8 (Listing.whole reading format)
    let listing := list source format (Sink.empty (some limit))
    listing.sink.contents = full.take limit ∧
    listing.outcome =
      if full.length ≤ limit then
        match tokenize source with
        | .ok tokens => .ok tokens.length
        | .error e => .error (.lex e)
      else if format = .json ∧ limit < full.length - 1 then .error (.encode .sinkFull)
      else .error (.io "<stdout>".toList .sinkFull) := by
  intro reading full listing
  have hlisted := Listing.listed_ofReading format reading (some limit)
  refine ⟨hlisted.contents_eq, ?_⟩
  split
  · next hle =>
      refine (hlisted.outcome_of_fits ?_).trans rfl
      rintro _ ⟨⟩
      exact hle
  · next hlt =>
      refine (hlisted.outcome_of_lt limit rfl (Nat.not_le.mp hlt)).trans ?_
      cases format with
      | text => rfl
      | json =>
          have hroom : limit + 1 < full.length ↔ limit < full.length - 1 :=
            Nat.lt_sub_iff_add_lt.symm
          simp only [Listing.overflow, ← hroom, true_and]
          exact apply_ite Except.error _ _ _

end TokenStream
