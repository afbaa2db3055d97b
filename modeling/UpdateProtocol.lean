import UpdateProtocol.Main
import UpdateProtocol.Proofs.CommandLine.Inspection
import UpdateProtocol.Proofs.CommandLine.Outcome
import UpdateProtocol.Proofs.Configuration.Locations
import UpdateProtocol.Proofs.Configuration.Schema
import UpdateProtocol.Proofs.Configuration.Selection
import UpdateProtocol.Proofs.Configuration.Writing
import UpdateProtocol.Proofs.Document.Building
import UpdateProtocol.Proofs.Document.Conformance
import UpdateProtocol.Proofs.Document.Continuation
import UpdateProtocol.Proofs.Document.Deletion
import UpdateProtocol.Proofs.Document.Doubling
import UpdateProtocol.Proofs.Document.Extension
import UpdateProtocol.Proofs.Document.Filling
import UpdateProtocol.Proofs.Document.Interleaving
import UpdateProtocol.Proofs.Document.Interruption
import UpdateProtocol.Proofs.Document.Qualification
import UpdateProtocol.Proofs.Document.Root
import UpdateProtocol.Proofs.Document.RoundTrip
import UpdateProtocol.Proofs.Document.Skeleton
import UpdateProtocol.Proofs.Document.Spelling
import UpdateProtocol.Proofs.Document.Truncation
import UpdateProtocol.Proofs.Document.Typing
import UpdateProtocol.Proofs.Message.Blank
