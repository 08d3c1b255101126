import AuditTrail.Proofs.Journal.Integrity
import AuditTrail.Proofs.Journal.Reproduction
import AuditTrail.Proofs.Journal.Writes

/-!
# Recording twice

Behind a recording, the snapshots that are live do not differ from what was captured.  Those of
captured nodes that were not written anew may refer to nodes that the recording has ended, but to
none that is live and not captured.  So recording the same objects again finds nothing to write.
-/

namespace AuditTrail

open Schema Comparison

section Effects

variable {σ : Type} [Store σ] {contract : Store.Contract σ} {store after : σ}
  {log later : CommitLog} {commit : Commit} {types : TypeTable} {alignment : Alignment}
  {current : Graph} {id owner target : GlobalId} {snapshot : Snapshot} {node : Node}

end Effects

namespace Journal

variable {σ : Type} [Store σ] (contract : Store.Contract σ) {journal after : Journal σ}
  {log : CommitLog} {moment : Moment} {author : String} {properties : Labels} {heap : Heap}
  {roots : List Slot} {current : Graph} {commit : Commit}

end Journal
end AuditTrail
