import TokenStream.Session
import TokenStream.Main
import TokenStream.Proofs.Separator
import TokenStream.Proofs.Spelling
import TokenStream.Proofs.Division
import TokenStream.Proofs.ReadBack
import TokenStream.Proofs.RoundTrip
import TokenStream.Proofs.Lookahead
import TokenStream.Proofs.Places
import TokenStream.Proofs.Restart
import TokenStream.Proofs.Joining
import TokenStream.Proofs.Failure
import TokenStream.Proofs.Locality
import TokenStream.Proofs.Writing
import TokenStream.Proofs.Trace
import TokenStream.Proofs.JsonValues
import TokenStream.Proofs.JsonGrammar
import TokenStream.Proofs.JsonStrings
import TokenStream.Proofs.Choices
import TokenStream.Proofs.Configuration
import TokenStream.Proofs.JsonNumbers
import TokenStream.Proofs.JsonListing
import TokenStream.Proofs.Decoding
import TokenStream.Proofs.Nearest
import TokenStream.Proofs.Numbers
import TokenStream.Proofs.Lines
import TokenStream.Proofs.TextListing
import TokenStream.Proofs.Rows
import TokenStream.Proofs.Caret
import TokenStream.Proofs.Sources
import TokenStream.Proofs.Outcome
import TokenStream.Proofs.Thresholds
import TokenStream.Proofs.Words
import TokenStream.Proofs.Overrides
import TokenStream.Proofs.Window
