import PathRegistry.Action
import PathRegistry.Address
import PathRegistry.CommandLine
import PathRegistry.Config
import PathRegistry.Connection
import PathRegistry.Decimal.Shortest
import PathRegistry.Disk
import PathRegistry.Failure
import PathRegistry.Hex
import PathRegistry.Identifier
import PathRegistry.Identifier.Document
import PathRegistry.Journal
import PathRegistry.Json.Fault
import PathRegistry.Json.Lexeme
import PathRegistry.Json.Number
import PathRegistry.Json.Quoted
import PathRegistry.Json.Skip
import PathRegistry.Json.Unfit
import PathRegistry.Listing
import PathRegistry.Lowercase
import PathRegistry.Lowercase.Tables
import PathRegistry.Main
import PathRegistry.Opening
import PathRegistry.Path
import PathRegistry.Position
import PathRegistry.Printable
import PathRegistry.Printable.Tables
import PathRegistry.Proofs.Atomicity
import PathRegistry.Proofs.Consistency
import PathRegistry.Proofs.Copying
import PathRegistry.Proofs.CreationOrder
import PathRegistry.Proofs.Deleting
import PathRegistry.Proofs.Departure
import PathRegistry.Proofs.Descendants
import PathRegistry.Proofs.Descent
import PathRegistry.Proofs.Freshness
import PathRegistry.Proofs.Lowercase
import PathRegistry.Proofs.Moving
import PathRegistry.Proofs.NormalForm
import PathRegistry.Proofs.Ordering
import PathRegistry.Proofs.Reachability
import PathRegistry.Proofs.Replacement
import PathRegistry.Proofs.Reporting
import PathRegistry.Proofs.Rerooting
import PathRegistry.Proofs.Retargeting
import PathRegistry.Proofs.Retention
import PathRegistry.Proofs.RoundTrip
import PathRegistry.Proofs.Run
import PathRegistry.Registry
import PathRegistry.Relocation
import PathRegistry.Report
import PathRegistry.StoreFile
import PathRegistry.Subtree
import PathRegistry.Table
import PathRegistry.Text
import PathRegistry.Workspace
import PathRegistry.Proofs.Equivalence
import PathRegistry.Proofs.Canonical
import PathRegistry.Proofs.Failing
import PathRegistry.Proofs.Batching
import PathRegistry.Proofs.Granting
import PathRegistry.Proofs.Places
import PathRegistry.Proofs.Storing
import PathRegistry.Proofs.Handles
import PathRegistry.Proofs.CommandRuns
import PathRegistry.Proofs.Directories
import PathRegistry.Proofs.Transparency
import PathRegistry.Proofs.Joining
import PathRegistry.Proofs.Repeating
import PathRegistry.Proofs.Refusal
import PathRegistry.Proofs.Rewriting
import PathRegistry.Proofs.Isomorphism
import PathRegistry.Proofs.Arguments
import PathRegistry.Proofs.Hexadecimal
import PathRegistry.Proofs.Provenance
import PathRegistry.Proofs.Quoting
import PathRegistry.Proofs.Identifiers
import PathRegistry.Proofs.Grammar
import PathRegistry.Proofs.Listings
import PathRegistry.Proofs.Configuration
import PathRegistry.Proofs.Ancestry
import PathRegistry.Proofs.Ranges
