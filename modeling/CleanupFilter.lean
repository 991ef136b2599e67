import CleanupFilter.Main
import CleanupFilter.Method.Builder
import CleanupFilter.Proofs.Text.Numeral
import CleanupFilter.Proofs.Instruction.Mnemonic
import CleanupFilter.Proofs.Listing.Line
import CleanupFilter.Proofs.Listing.Item
import CleanupFilter.Proofs.Method.Builder
import CleanupFilter.Proofs.Listing.RoundTrip
import CleanupFilter.Proofs.Pattern.Language
import CleanupFilter.Proofs.Pattern.Recognition
import CleanupFilter.Proofs.Cleanup.Ecj
import CleanupFilter.Proofs.Cleanup.Language
import CleanupFilter.Proofs.Cleanup.Word
import CleanupFilter.Proofs.Cleanup.ResourceShape
import CleanupFilter.Proofs.Cleanup.Overlap
import CleanupFilter.Proofs.Cleanup.Finding
import CleanupFilter.Proofs.Cleanup.Renaming
import CleanupFilter.Proofs.Method.Insertion
import CleanupFilter.Proofs.Pattern.Insertion
import CleanupFilter.Proofs.Cleanup.Insertion
import CleanupFilter.Proofs.Listing.Comment
import CleanupFilter.Proofs.Listing.Accepted
import CleanupFilter.Proofs.CommandLine.Disassembly
import CleanupFilter.Proofs.Listing.Reprint
import CleanupFilter.Proofs.Listing.Composition
import CleanupFilter.Proofs.Method.Diagnosis
import CleanupFilter.Proofs.Method.Calls
import CleanupFilter.Proofs.Listing.Correspondence
import CleanupFilter.Proofs.Pattern.Slots
import CleanupFilter.Proofs.Cleanup.Slots
import CleanupFilter.Proofs.Pattern.Template
import CleanupFilter.Proofs.Pattern.Unification
import CleanupFilter.Proofs.Pattern.Exit
import CleanupFilter.Proofs.Cleanup.Javac
import CleanupFilter.Proofs.Cleanup.Chain
import CleanupFilter.Proofs.Cleanup.IgnoredSet
import CleanupFilter.Proofs.Cleanup.Candidate
import CleanupFilter.Proofs.Listing.Quotes
import CleanupFilter.Proofs.Listing.Layout
import CleanupFilter.Proofs.Listing.Literal
import CleanupFilter.Proofs.Cleanup.MonitorRelease
import CleanupFilter.Proofs.Pattern.Progress
import CleanupFilter.Proofs.Pattern.Session
import CleanupFilter.Proofs.Listing.Naming
import CleanupFilter.Proofs.Listing.Placement
import CleanupFilter.Proofs.Cleanup.Layers
