import TapeLang.C.Meaning
import TapeLang.Host.Session
import TapeLang.Main
import TapeLang.Proofs.Accounts
import TapeLang.Proofs.Runs
import TapeLang.Reference
import TapeLang.Proofs.Straight
import TapeLang.Proofs.ClosedForms
import TapeLang.Proofs.Outcomes
import TapeLang.Proofs.Outlines
import TapeLang.Proofs.Scanning
import TapeLang.Proofs.Calm
import TapeLang.Proofs.CountingLoops
import TapeLang.Proofs.Replacement
import TapeLang.Proofs.Catalogue
import TapeLang.Proofs.Optimization
import TapeLang.Proofs.Bisimulation
import TapeLang.Proofs.Language
import TapeLang.Proofs.TapeFunctions
import TapeLang.Proofs.Templates
import TapeLang.Proofs.Backends
import TapeLang.C.Lexer
import TapeLang.C.Reader
import TapeLang.Proofs.Lexemes
import TapeLang.C.Check
import TapeLang.Proofs.Reading
import TapeLang.Proofs.GeneratedText
import TapeLang.Proofs.Comments
import TapeLang.Proofs.Faults
import TapeLang.Proofs.Sequencing
import TapeLang.Proofs.Ranges
import TapeLang.Proofs.Rejection
import TapeLang.Proofs.Ledger
import TapeLang.Proofs.FlatIdioms
import TapeLang.Proofs.Lowered
import TapeLang.Proofs.WellFormed
import TapeLang.Proofs.Division
import TapeLang.Proofs.Rounds
import TapeLang.Proofs.Summaries
import TapeLang.Proofs.Powers
import TapeLang.Proofs.Exchanges
import TapeLang.Proofs.Pairing
import TapeLang.Proofs.LoopExit
import TapeLang.Proofs.RawTape
import TapeLang.Proofs.Safety
import TapeLang.Proofs.Offsets
import TapeLang.Proofs.TextLines
import TapeLang.Proofs.Listings
import TapeLang.Proofs.Strokes
import TapeLang.Proofs.Indentation
import TapeLang.Proofs.Stages
import TapeLang.Proofs.Sessions
