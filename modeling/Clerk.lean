import Clerk.Builder
import Clerk.Command
import Clerk.Command.Execute
import Clerk.Entry
import Clerk.Error
import Clerk.Files
import Clerk.Fold
import Clerk.Json.Quoted
import Clerk.Json.Shape
import Clerk.Json.Token
import Clerk.Json.Writer
import Clerk.Keyword
import Clerk.Label
import Clerk.Listing.Reader
import Clerk.Listing.Writer
import Clerk.Machine
import Clerk.Main
import Clerk.Memory
import Clerk.Number
import Clerk.Op
import Clerk.Op.Reader
import Clerk.Program
import Clerk.Proofs.AmbiguousLabels
import Clerk.Proofs.BufferedReading
import Clerk.Proofs.Building
import Clerk.Proofs.Countdown
import Clerk.Proofs.DirectRun
import Clerk.Proofs.Endings
import Clerk.Proofs.Faults
import Clerk.Proofs.FoldedForm
import Clerk.Proofs.Folding
import Clerk.Proofs.FoldingInPlace
import Clerk.Proofs.Footprints
import Clerk.Proofs.JoinedListings
import Clerk.Proofs.JsonText
import Clerk.Proofs.Jumps
import Clerk.Proofs.LabelTable
import Clerk.Proofs.Layout
import Clerk.Proofs.ListingText
import Clerk.Proofs.OpText
import Clerk.Proofs.Operations
import Clerk.Proofs.PuzzleFiles
import Clerk.Proofs.PuzzleSources
import Clerk.Proofs.Relabelling
import Clerk.Proofs.Relisting
import Clerk.Proofs.ReportText
import Clerk.Proofs.RoundTrip
import Clerk.Proofs.RunLengths
import Clerk.Proofs.Scoring
import Clerk.Proofs.Spellings
import Clerk.Proofs.Surplus
import Clerk.Proofs.Text
import Clerk.Proofs.Transitions
import Clerk.Proofs.Trays
import Clerk.Proofs.Undoing
import Clerk.Proofs.ValueLists
import Clerk.Proofs.WellFormed
import Clerk.Puzzle
import Clerk.Puzzle.File
import Clerk.Report
import Clerk.Session
import Clerk.Text
import Clerk.Value
import Clerk.Value.Operations
