import InfraAudit.Hcl.Assembly
import InfraAudit.Main
import InfraAudit.Proofs.Hcl.Nesting
import InfraAudit.Proofs.Hcl.Placement
import InfraAudit.Proofs.Hcl.Resolution
import InfraAudit.Proofs.Hcl.Composition
import InfraAudit.Proofs.Hcl.Congruence
import InfraAudit.Proofs.Hcl.Spacing
import InfraAudit.Proofs.Hcl.Templates
import InfraAudit.Proofs.Hcl.Provenance
import InfraAudit.Proofs.Hcl.Grammar
import InfraAudit.Proofs.Hcl.Inversion
import InfraAudit.Proofs.Hcl.Reading
import InfraAudit.Proofs.Hcl.Printing
import InfraAudit.Proofs.Hcl.RoundTrip
import InfraAudit.Proofs.Hcl.Hiding
import InfraAudit.Proofs.Hcl.Delimited
import InfraAudit.Proofs.Hcl.Continuation
import InfraAudit.Proofs.Hcl.Displacement
import InfraAudit.Proofs.Hcl.CarriageReturn
import InfraAudit.Proofs.Hcl.LineEnding
import InfraAudit.Proofs.Ignore.Suppression
import InfraAudit.Proofs.Hcl.Concatenation
import InfraAudit.Proofs.Hcl.Faults
import InfraAudit.Proofs.Hcl.Enclosure
import InfraAudit.Proofs.Hcl.Insertion
import InfraAudit.Proofs.Ignore.Insertion
import InfraAudit.Proofs.Ignore.LineEnding
import InfraAudit.Proofs.Check.Caution
import InfraAudit.Proofs.Hcl.Traversal
import InfraAudit.Proofs.Scan.Grouping
import InfraAudit.Proofs.Check.Reporting
import InfraAudit.Proofs.Check.Pointing
import InfraAudit.Proofs.Report.Marking
import InfraAudit.Proofs.Scan.Selection
import InfraAudit.Proofs.Files.Naming
import InfraAudit.Proofs.Project.Reading
import InfraAudit.Proofs.Project.Independence
import InfraAudit.Proofs.Project.Session
import InfraAudit.Proofs.CommandLine.Gate
import InfraAudit.Proofs.Hcl.Location
import InfraAudit.Proofs.Ignore.CodeList
import InfraAudit.Proofs.Hcl.Embedding
import InfraAudit.Proofs.Hcl.PlainText
import InfraAudit.Proofs.Check.BlockDevices
import InfraAudit.Proofs.Check.Credentials
import InfraAudit.Proofs.Files.Listing
import InfraAudit.Proofs.Files.Relisting
import InfraAudit.Proofs.Hcl.Ancestry
import InfraAudit.Proofs.Hcl.Linking
import InfraAudit.Proofs.Project.Directories
import InfraAudit.Proofs.Report.Rules
import InfraAudit.Proofs.CommandLine.Delivery
import InfraAudit.Proofs.Config.Exclusion
import InfraAudit.Proofs.Hcl.Indentation
import InfraAudit.Proofs.Hcl.Tracking
