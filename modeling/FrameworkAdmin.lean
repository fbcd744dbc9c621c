import FrameworkAdmin.Configuration.Management
import FrameworkAdmin.Package.Exports
import FrameworkAdmin.Role.Management
import FrameworkAdmin.Schema
import FrameworkAdmin.Service.Notification
import FrameworkAdmin.Proofs.Number.Decimals
import FrameworkAdmin.Proofs.Number.Floats
import FrameworkAdmin.Proofs.Property.Scalars
import FrameworkAdmin.Proofs.Property.Columns
import FrameworkAdmin.Proofs.Property.RoundTrip
import FrameworkAdmin.Proofs.Filter.Grammar
import FrameworkAdmin.Proofs.Filter.Reading
import FrameworkAdmin.Proofs.Filter.Printing
import FrameworkAdmin.Proofs.Role.Authorization
import FrameworkAdmin.Proofs.Role.Integrity
import FrameworkAdmin.Proofs.Configuration.Atomicity
import FrameworkAdmin.Proofs.Configuration.Identity
import FrameworkAdmin.Proofs.Configuration.Provenance
import FrameworkAdmin.Proofs.Configuration.ReadBack
import FrameworkAdmin.Proofs.Configuration.History
import FrameworkAdmin.Proofs.Configuration.Snapshot
import FrameworkAdmin.Proofs.Configuration.Writes
import FrameworkAdmin.Proofs.Property.Dictionaries
import FrameworkAdmin.Proofs.Role.Answers
import FrameworkAdmin.Proofs.Role.Monotonicity
import FrameworkAdmin.Proofs.Service.Identity
import FrameworkAdmin.Proofs.Record.Conversions
import FrameworkAdmin.Proofs.Package.Listing
import FrameworkAdmin.Proofs.Service.Notifications
import FrameworkAdmin.Proofs.Record.Conformance
import FrameworkAdmin.Proofs.Record.WireForms
import FrameworkAdmin.Proofs.Filter.Wildcards
import FrameworkAdmin.Proofs.Number.Literals
import FrameworkAdmin.Proofs.Version.Grammar
import FrameworkAdmin.Proofs.Filter.Comparisons
import FrameworkAdmin.Proofs.Filter.OwnText
import FrameworkAdmin.Proofs.Property.TagGrammar
import FrameworkAdmin.Proofs.Property.Concatenation
import FrameworkAdmin.Proofs.Filter.Spelling
import FrameworkAdmin.Proofs.Filter.Representation
import FrameworkAdmin.Proofs.Version.Canonical
import FrameworkAdmin.Proofs.Filter.Locality
import FrameworkAdmin.Proofs.Property.Filing
