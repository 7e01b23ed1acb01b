import TokenStream.Config.Basic
import TokenStream.Reader
import TokenStream.RunError
import TokenStream.Sink
import TokenStream.Token.Json

/-!
# Listings

The tokens of a text, written to a sink.

**Formats** the text format has one line a token, each written as soon as its token is found, so
that the tokens in front of an error are written. The JSON format is one list, which is written
only if the whole text has been read.

**Failures** an error in the text, or a sink that is full. A sink that is full stops the reading
in the text format.
-/

namespace TokenStream

structure Listing where
  /-- The number of tokens, or why it failed. -/
  outcome : Except RunError Nat
  events : List Event
  sink : Sink

namespace Listing

/-- The name under which a sink is complained of. -/
def sinkName : List Char := "<stdout>".toList

/-- What is reported when all tokens have been written. -/
def finish (count : Nat) : List Event := [.finished count]

/-- Writes the lines of tokens that have been found. Gives whether all were written, the events
up to the last token that was looked for, and the sink. -/
def writeLines : List (Token × List Event) → Sink → Bool × List Event × Sink
  | [], sink => (true, [], sink)
  | (t, events) :: rest, sink =>
    match sink.writeText (t.line ++ ['\n']) with
    | (false, sink) => (false, events, sink)
    | (true, sink) =>
      let (complete, more, last) := writeLines rest sink
      (complete, events ++ more, last)

/-- The listing of a reading in the text format. -/
def ofReadingText (reading : Reading) (sink : Sink) : Listing :=
  match writeLines reading.taken sink with
  | (false, events, last) => ⟨.error (.io sinkName .sinkFull), events, last⟩
  | (true, events, last) =>
    match reading.error with
    | some e => ⟨.error (.lex e), events ++ reading.closing, last⟩
    | none =>
      let count := reading.taken.length
      ⟨.ok count, events ++ reading.closing ++ finish count, last⟩

/-- The listing of a reading in the JSON format. -/
def ofReadingJson (reading : Reading) (sink : Sink) : Listing :=
  match reading.error with
  | some e => ⟨.error (.lex e), reading.events, sink⟩
  | none =>
    match sink.writeText (Token.prettyList reading.tokens) with
    | (false, last) => ⟨.error (.encode .sinkFull), reading.events, last⟩
    | (true, sink) =>
      match sink.writeText ['\n'] with
      | (false, last) => ⟨.error (.io sinkName .sinkFull), reading.events, last⟩
      | (true, last) =>
        let count := reading.taken.length
        ⟨.ok count, reading.events ++ finish count, last⟩

def ofReading (format : Format) (reading : Reading) (sink : Sink) : Listing :=
  match format with
  | .text => ofReadingText reading sink
  | .json => ofReadingJson reading sink

end Listing

/-- Writes the tokens of a text to a sink. -/
def list (source : List Char) (format : Format) (sink : Sink) : Listing :=
  let reader := Reader.ofSource source
  let listing := Listing.ofReading format reader.readAll sink
  { listing with events := reader.creation :: listing.events }

end TokenStream
