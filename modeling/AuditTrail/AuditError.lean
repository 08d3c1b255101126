import AuditTrail.Capture.Identity
import AuditTrail.Store

/-!
# Failures of the audit trail

Whatever an operation of the audit trail does, it fails for one of a few causes.
-/

namespace AuditTrail

/-- Why an operation of the audit trail fails. -/
inductive AuditError where
  /-- The registered types are at fault, or a class is not among them. -/
  | schema (error : SchemaError)
  /-- A live graph cannot be captured. -/
  | capture (error : CaptureError)
  /-- The store refuses. -/
  | store (error : StoreError)
  /-- A node is not live at the point in question. -/
  | notFound (id : GlobalId)
  /-- A commit that is asked for was never stored. -/
  | unknownCommit (id : CommitId)
  deriving DecidableEq

/-- The wording of an error. -/
def AuditError.message : AuditError → String
  | schema error => error.message
  | capture error => error.message
  | store error => error.message
  | notFound id => "not found: " ++ id.display
  | unknownCommit id => "unknown commit " ++ id.display

end AuditTrail
