import AuditTrail.Auditor
import AuditTrail.Codec.Change
import AuditTrail.Proofs.Auditor
import AuditTrail.Proofs.Capture.Collisions
import AuditTrail.Proofs.Capture.Influence
import AuditTrail.Proofs.Capture.Legibility
import AuditTrail.Proofs.Capture.Relocation
import AuditTrail.Proofs.Capture.Termination
import AuditTrail.Proofs.Codec.RoundTrip
import AuditTrail.Proofs.Diff.Exactness
import AuditTrail.Proofs.Diff.Replay
import AuditTrail.Proofs.Diff.Reversal
import AuditTrail.Proofs.Edit.Rebuilding
import AuditTrail.Proofs.Edit.Undoing
import AuditTrail.Proofs.GlobalId
import AuditTrail.Proofs.Journal.Backends
import AuditTrail.Proofs.Journal.Commuting
import AuditTrail.Proofs.Journal.Idempotence
import AuditTrail.Proofs.Journal.Intact
import AuditTrail.Proofs.Journal.Integrity
import AuditTrail.Proofs.Journal.Options
import AuditTrail.Proofs.Journal.RoundTrip
import AuditTrail.Proofs.Journal.Writers
import AuditTrail.Proofs.Journal.Writes
import AuditTrail.Proofs.Shadow.Shallow
import AuditTrail.Proofs.State.Extensionality
import AuditTrail.Proofs.Store.Keys
import AuditTrail.Proofs.Store.Rows
import AuditTrail.Proofs.Value.Order
import AuditTrail.Store.Backend
