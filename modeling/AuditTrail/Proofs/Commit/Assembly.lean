import AuditTrail.Proofs.Commit.Closure
import AuditTrail.Proofs.Commit.History
import AuditTrail.Proofs.Diff.Comparison

/-!
# What a commit records

The changes of a diff are grouped by node, so a commit has at most one snapshot of each node, in the
order of the nodes.  Which nodes have one, and of which kind, depends only on the captured graph and
the newest snapshots in the store.  Each snapshot continues the history of its node.
-/

namespace AuditTrail

open Schema Comparison Assembly

section Grouping

/-- The group of some changes of a node, if there are any. -/
def groupOf? (target : GlobalId) (changes : List Change) : Option ChangeGroup :=
  if changes = [] then none else some ⟨target, changes⟩

theorem find?_addToGroup (groups : Table ChangeGroup.target) (change : Change) (id : GlobalId) :
    (Diff.addToGroup groups change).find? id =
      if change.target = id then
        some ⟨id, ((groups.find? id).map (·.changes)).getD [] ++ [change]⟩
      else groups.find? id := by
  unfold Diff.addToGroup
  by_cases same : change.target = id
  · subst same
    rw [if_pos rfl]
    cases found : groups.find? change.target with
    | none => exact Table.find?_put_self groups _
    | some group =>
        have named : group.target = change.target := Table.key_of_find? found
        simp only [named]
        exact Table.find?_put_self groups ⟨change.target, group.changes ++ [change]⟩
  · rw [if_neg same]
    split
    next => exact Table.find?_put_of_ne groups (Ne.symm same)
    next group found =>
      have named : group.target = change.target := Table.key_of_find? found
      exact Table.find?_put_of_ne groups fun equal => same (named.symm.trans equal.symm)

/-- Changes are grouped by node in their order. -/
theorem find?_foldl_addToGroup (changes : List Change) (id : GlobalId) :
    (changes.foldl Diff.addToGroup .empty).find? id =
      groupOf? id (changes.filter (·.target = id)) := by
  induction changes using List.reverseRecOn with
  | nil => rfl
  | append_singleton changes change induction =>
      rw [List.foldl_concat, find?_addToGroup, induction, List.filter_append]
      by_cases same : change.target = id
      · rw [if_pos same, List.filter_cons_of_pos (by simpa using same), List.filter_nil]
        by_cases first : changes.filter (·.target = id) = [] <;> simp [groupOf?, first]
      · rw [if_neg same, List.filter_cons_of_neg (by simpa using same), List.filter_nil,
          List.append_nil]

end Grouping

section Latest

variable {latest : LatestSnapshots} {id : GlobalId} {snapshot : Snapshot}

theorem LatestSnapshots.mem_live_iff :
    snapshot ∈ latest.live ↔
      latest.find? snapshot.id = some snapshot ∧ ¬ snapshot.kind = .terminal := by
  rw [live, List.mem_filter, Table.find?_eq_some_iff]
  simp [Snapshot.isTerminal]

theorem LatestSnapshots.live_increasing (latest : LatestSnapshots) :
    latest.live.Pairwise fun a b => compare a.id b.id = .lt :=
  latest.increasing.filter _

/-- The graph of the newest snapshots has the nodes that did not go away. -/
theorem LatestSnapshots.find?_graph (latest : LatestSnapshots) (id : GlobalId) :
    latest.graph.find? id =
      ((latest.find? id).filter fun snapshot => !snapshot.isTerminal).map Snapshot.node := by
  have rows : latest.graph.nodes.rows = latest.live.map Snapshot.node :=
    Table.rows_ofList (List.pairwise_map.mpr latest.live_increasing)
  apply Option.ext
  intro node
  rw [Graph.find?, Table.find?_eq_some_iff, rows, List.mem_map]
  simp only [Option.map_eq_some_iff, Option.filter_eq_some_iff]
  constructor
  · rintro ⟨⟨snapshot, live, rfl⟩, rfl⟩
    have found := LatestSnapshots.mem_live_iff.mp live
    exact ⟨snapshot, ⟨found.1, by simpa [Snapshot.isTerminal] using found.2⟩, rfl⟩
  · rintro ⟨snapshot, ⟨found, live⟩, rfl⟩
    have named : snapshot.id = id := Table.key_of_find? found
    refine ⟨⟨snapshot, LatestSnapshots.mem_live_iff.mpr ⟨?_, ?_⟩, rfl⟩, named⟩
    · rwa [named]
    · simpa [Snapshot.isTerminal] using live

end Latest

/-- The snapshots that a captured graph calls for, given what is stored. -/
inductive Commit.Due {σ : Type} [Store σ] (types : TypeTable) (alignment : Alignment) (store : σ)
    (current : Graph) : SnapshotKind → Node → Prop
  /-- A captured node without a live snapshot comes into being. -/
  | initial {node} (captured : current.find? node.id = some node)
      (absent : Store.live? store node.id .latest = .ok none) :
      Due types alignment store current .initial node
  /-- A captured node that differs from its live snapshot is updated. -/
  | update {node old} (captured : current.find? node.id = some node)
      (live : Store.live? store node.id .latest = .ok (some old))
      (differs : compareNodes types alignment (some old.node) (some node) ≠ []) :
      Due types alignment store current .update node
  /-- A live value object that is reached from captured nodes, but is none of them, goes away. -/
  | terminal {id old} (reached : Store.Reaches store current.ids id)
      (valueObject : id.isValueObject) (live : Store.live? store id .latest = .ok (some old))
      (dropped : id ∉ current.ids) :
      Due types alignment store current .terminal ⟨id, old.typeName, .empty⟩

/-- The snapshots that ending a node calls for, given what is stored. -/
inductive Commit.DueAtEnd {σ : Type} [Store σ] (store : σ) (id : GlobalId) :
    SnapshotKind → Node → Prop
  /-- The node and the value objects it reaches go away, as far as they are live. -/
  | terminal {target old} (reached : Store.Reaches store [id] target)
      (live : Store.live? store target .latest = .ok (some old)) :
      DueAtEnd store id .terminal ⟨target, old.typeName, .empty⟩

section Recording

variable {types : TypeTable} {options : DiffOptions} {latest : LatestSnapshots} {current : Graph}
  {metadata : CommitMetadata} {id : GlobalId} {snapshot : Snapshot}

theorem any_compareNodes {test : Change → Bool}
    (properties : ∀ id typeName name delta, test ⟨id, typeName, .property name delta⟩ = false)
    (alignment : Alignment) (old new : Option Node) :
    (compareNodes types alignment old new).any test = false := by
  rw [List.any_eq_false]
  intro change member
  cases picked : (new <|> old) with
  | none => simp [compareNodes, picked] at member
  | some node =>
      rw [compareNodes_eq types alignment picked] at member
      obtain ⟨property, -, reported⟩ := List.mem_filterMap.mp member
      obtain ⟨delta, -, rfl⟩ := Option.map_eq_some_iff.mp reported
      rw [properties]
      exact Bool.false_ne_true

/-- The snapshot that the changes of an id call for, if there are any. -/
def snapshotAt? (types : TypeTable) (options : DiffOptions) (metadata : CommitMetadata)
    (latest : LatestSnapshots) (current : Graph) (id : GlobalId) : Option Snapshot :=
  (groupOf? id (compareAt types options latest.graph current id)).bind
    (snapshotFor? metadata latest current)

variable (types options metadata) in
theorem snapshotAt?_of_absent (absent : latest.graph.find? id = none)
    (dropped : current.find? id = none) :
    snapshotAt? types options metadata latest current id = none := by
  simp only [snapshotAt?, compareAt, absent, dropped, groupOf?, if_true, Option.bind_none]

theorem find?_graph_of_live {old : Snapshot} (stored : latest.find? id = some old)
    (live : old.kind ≠ .terminal) : latest.graph.find? id = some old.node := by
  rw [LatestSnapshots.find?_graph, stored, Option.filter_some_pos, Option.map_some]
  simpa [Snapshot.isTerminal] using live

theorem find?_graph_eq_none (ended : ∀ old ∈ latest.find? id, old.kind = .terminal) :
    latest.graph.find? id = none := by
  rw [LatestSnapshots.find?_graph, Option.map_eq_none_iff, Option.filter_eq_none_iff]
  simpa [Snapshot.isTerminal] using ended

theorem snapshotFor?_of_removal {changes : List Change} {old : Snapshot}
    (stored : latest.find? id = some old) (removal : changes.any Change.isRemoval) :
    snapshotFor? metadata latest current ⟨id, changes⟩ =
      some (terminalOf metadata (changes.filterMap Change.property?) old) := by
  simp only [snapshotFor?, removal, if_true, stored, Option.map_some]

theorem snapshotFor?_of_captured (metadata : CommitMetadata) (latest : LatestSnapshots)
    {changes : List Change} {node : Node} (captured : current.find? id = some node)
    (kept : changes.any Change.isRemoval = false) :
    ∃ changed, snapshotFor? metadata latest current ⟨id, changes⟩ =
      some (.following metadata node
        (if changes.any Change.isCreation then .initial else .update) changed
        (latest.find? id)) := by
  simp only [snapshotFor?, kept, captured, Bool.false_eq_true, if_false, Option.map_some]
  split <;> exact ⟨_, rfl⟩

variable (types options metadata) in
theorem snapshotAt?_of_created {node : Node} (absent : latest.graph.find? id = none)
    (captured : current.find? id = some node) :
    ∃ changed, snapshotAt? types options metadata latest current id =
      some (.following metadata node .initial changed (latest.find? id)) := by
  obtain ⟨rest, changes, kept⟩ : ∃ rest,
      compareAt types options latest.graph current id = ⟨id, node.typeName, .created⟩ :: rest ∧
        rest.any Change.isRemoval = false := by
    simp only [compareAt, absent, captured]
    refine ⟨_, rfl, ?_⟩
    split
    next => exact any_compareNodes (fun _ _ _ _ => rfl) _ _ _
    next => rfl
  rw [snapshotAt?, changes, groupOf?, if_neg (List.cons_ne_nil _ _), Option.bind_some]
  exact snapshotFor?_of_captured metadata latest captured kept

variable (types options metadata) in
theorem snapshotAt?_of_removed {old : Snapshot} (stored : latest.find? id = some old)
    (live : old.kind ≠ .terminal) (dropped : current.find? id = none) :
    ∃ changed, snapshotAt? types options metadata latest current id =
      some (terminalOf metadata changed old) := by
  obtain ⟨rest, changes⟩ : ∃ rest,
      compareAt types options latest.graph current id = ⟨id, old.typeName, .removed⟩ :: rest := by
    simp only [compareAt, find?_graph_of_live stored live, dropped]
    exact ⟨_, rfl⟩
  rw [snapshotAt?, changes, groupOf?, if_neg (List.cons_ne_nil _ _), Option.bind_some]
  exact ⟨_, snapshotFor?_of_removal stored rfl⟩

variable (types options metadata) in
theorem snapshotAt?_of_both {old : Snapshot} {node : Node} (stored : latest.find? id = some old)
    (live : old.kind ≠ .terminal) (captured : current.find? id = some node) :
    if compareNodes types options.alignment (some old.node) (some node) = [] then
      snapshotAt? types options metadata latest current id = none
    else
      ∃ changed, snapshotAt? types options metadata latest current id =
        some (.following metadata node .update changed (some old)) := by
  have changes : compareAt types options latest.graph current id =
      compareNodes types options.alignment (some old.node) (some node) := by
    simp only [compareAt, find?_graph_of_live stored live, captured]
  rw [snapshotAt?, changes, groupOf?]
  split
  next => rfl
  next =>
    have kept : (compareNodes types options.alignment (some old.node) (some node)).any
        Change.isRemoval = false := any_compareNodes (fun _ _ _ _ => rfl) _ _ _
    have known : (compareNodes types options.alignment (some old.node) (some node)).any
        Change.isCreation = false := any_compareNodes (fun _ _ _ _ => rfl) _ _ _
    obtain ⟨changed, called⟩ := snapshotFor?_of_captured metadata latest captured kept
    rw [known, stored] at called
    exact ⟨changed, called⟩

theorem id_of_snapshotFor? {group : ChangeGroup}
    (called : snapshotFor? metadata latest current group = some snapshot) :
    snapshot.id = group.target := by
  unfold snapshotFor? at called
  simp only at called
  split at called
  next =>
    obtain ⟨old, stored, rfl⟩ := Option.map_eq_some_iff.mp called
    have named : old.id = group.target := Table.key_of_find? stored
    exact named
  next =>
    obtain ⟨node, captured, rfl⟩ := Option.map_eq_some_iff.mp called
    have named : node.id = group.target := Graph.id_of_find? captured
    split
    next => exact named
    next => exact named

/-- The snapshots that a diff against the newest snapshots calls for. -/
def snapshotsFor (types : TypeTable) (options : DiffOptions) (metadata : CommitMetadata)
    (latest : LatestSnapshots) (current : Graph) : List Snapshot :=
  (Diff.between types options latest.graph current).byNode.rows.filterMap
    (snapshotFor? metadata latest current)

theorem snapshotsFor_increasing :
    ((snapshotsFor types options metadata latest current).map Snapshot.id).Pairwise
      fun a b => compare a b = .lt := by
  refine List.pairwise_map.mpr (List.Pairwise.filterMap _ ?_ (Table.increasing _))
  intro group other below snapshot called snapshot' called'
  rwa [id_of_snapshotFor? called, id_of_snapshotFor? called']

theorem find?_byNode_between (types : TypeTable) (options : DiffOptions) (old new : Graph)
    (id : GlobalId) :
    (Diff.between types options old new).byNode.find? id =
      groupOf? id (compareAt types options old new id) := by
  rw [Diff.byNode, find?_foldl_addToGroup, filter_between]

/-- Every snapshot of a commit is called for by the changes of one id. -/
theorem mem_snapshotsFor_iff :
    snapshot ∈ snapshotsFor types options metadata latest current ↔
      snapshotAt? types options metadata latest current snapshot.id = some snapshot := by
  rw [snapshotsFor, List.mem_filterMap]
  constructor
  · rintro ⟨group, member, called⟩
    have found := Table.find?_key member
    rw [find?_byNode_between] at found
    rw [id_of_snapshotFor? called, snapshotAt?, found, Option.bind_some, called]
  · intro called
    obtain ⟨group, found, called⟩ := Option.bind_eq_some_iff.mp called
    rw [← find?_byNode_between] at found
    exact ⟨group, (Table.find?_eq_some_iff.mp found).1, called⟩

variable (metadata) in
theorem snapshotAt?_eq_none_iff :
    snapshotAt? types options metadata latest current id = none ↔
      compareAt types options latest.graph current id = [] := by
  by_cases ended : ∀ old ∈ latest.find? id, old.kind = .terminal
  · have absent := find?_graph_eq_none ended
    cases captured : current.find? id with
    | none => simp [snapshotAt?_of_absent types options metadata absent captured, compareAt, absent,
        captured]
    | some node =>
        obtain ⟨changed, called⟩ :=
          snapshotAt?_of_created types options metadata absent captured
        simp [called, compareAt, absent, captured]
  · simp only [not_forall] at ended
    obtain ⟨old, stored, live⟩ := ended
    cases captured : current.find? id with
    | none =>
        obtain ⟨changed, called⟩ :=
          snapshotAt?_of_removed types options metadata stored live captured
        simp [called, compareAt, find?_graph_of_live stored live, captured]
    | some node =>
        have called := snapshotAt?_of_both types options metadata stored live captured
        simp only [compareAt, find?_graph_of_live stored live, captured]
        split at called
        next same => simp only [called, same]
        next differs =>
          obtain ⟨changed, called⟩ := called
          simp only [called, differs, reduceCtorEq]

theorem id_of_snapshotAt?
    (called : snapshotAt? types options metadata latest current id = some snapshot) :
    snapshot.id = id := by
  obtain ⟨group, found, called⟩ := Option.bind_eq_some_iff.mp called
  rw [← find?_byNode_between] at found
  rw [id_of_snapshotFor? called]
  exact Table.key_of_find? found

/-- Nothing is called for when nothing changed. -/
theorem snapshotsFor_isEmpty_iff :
    (snapshotsFor types options metadata latest current).isEmpty ↔
      (Diff.between types options latest.graph current).isEmpty := by
  rw [isEmpty_between_iff, List.isEmpty_iff, List.eq_nil_iff_forall_not_mem]
  constructor
  · intro none id
    rw [← snapshotAt?_eq_none_iff metadata, Option.eq_none_iff_forall_ne_some]
    intro snapshot called
    have named := id_of_snapshotAt? called
    rw [← named] at called
    exact none snapshot (mem_snapshotsFor_iff.mpr called)
  · intro unchanged snapshot member
    have none := (snapshotAt?_eq_none_iff metadata).mpr (unchanged snapshot.id)
    rw [mem_snapshotsFor_iff, none] at member
    cases member

end Recording

/-- A commit continues the histories in a log: it has one snapshot of each node, in the order of the
nodes, and each follows the newest one in the log. -/
structure Commit.Extends (log : CommitLog) (commit : Commit) : Prop where
  /-- The nodes are in order. -/
  increasing : (commit.snapshots.map Snapshot.id).Pairwise fun a b => compare a b = .lt
  /-- The snapshots name the commit. -/
  stamped : ∀ snapshot ∈ commit.snapshots, snapshot.commit = commit.metadata
  /-- The snapshots continue the histories of their nodes. -/
  follows : ∀ snapshot ∈ commit.snapshots, snapshot.Follows (log.latest? snapshot.id)

theorem Commit.Extends.continues {log : CommitLog} {commit : Commit}
    (extends_log : commit.Extends log) : log.Continues commit where
  distinct := extends_log.increasing.imp Table.ne_of_lt
  newer snapshot member := by
    rw [(extends_log.follows snapshot member).version, CommitLog.version]
    exact Nat.lt_succ_self _

section Stored

variable {σ : Type} [Store σ] (contract : Store.Contract σ) {store : σ} {log : CommitLog}
  {types : TypeTable} {options : DiffOptions} {metadata : CommitMetadata} {current : Graph}
  {latest : LatestSnapshots} {id : GlobalId} {snapshot : Snapshot}

theorem live?_eq_none_iff (holds : contract.Holds store log) :
    Store.live? store id .latest = .ok none ↔
      ∀ snapshot ∈ log.latest? id, snapshot.kind = .terminal := by
  rw [contract.live?_eq holds, Except.ok.injEq, Option.filter_eq_none_iff]
  simp [Snapshot.isTerminal]

theorem live?_eq_some_iff (holds : contract.Holds store log) :
    Store.live? store id .latest = .ok (some snapshot) ↔
      log.latest? id = some snapshot ∧ snapshot.kind ≠ .terminal := by
  rw [contract.live?_eq holds, Except.ok.injEq, Option.filter_eq_some_iff]
  simp [Snapshot.isTerminal]

theorem following_follows (metadata : CommitMetadata) (node : Node) (kind : SnapshotKind)
    (changed : List String) (before : Option Snapshot)
    (initial : kind = .initial ↔ ∀ other ∈ before, other.kind = .terminal)
    (ended : kind = .terminal → node.state = .empty) :
    (Snapshot.following metadata node kind changed before).Follows before :=
  ⟨rfl, rfl, initial, ended⟩

/-- A reached id that was not given is a value object. -/
theorem Store.Reaches.isValueObject {seeds : List GlobalId} (reached : Store.Reaches store seeds id)
    (absent : id ∉ seeds) : id.isValueObject := by
  cases reached with
  | seed member => exact absurd member absent
  | step _ _ refers => exact Snapshot.isValueObject_of_mem refers

theorem mem_ids_of_captured {node : Node} (captured : current.find? id = some node) :
    id ∈ current.ids := by
  rw [Graph.mem_ids_iff, captured]
  rfl

theorem notMem_ids_of_dropped (dropped : current.find? id = none) : id ∉ current.ids := by
  rw [Graph.mem_ids_iff, dropped]
  exact Bool.false_ne_true

/-- A snapshot called for at an id that is not captured ends a value object. -/
theorem due_of_dropped (holds : contract.Holds store log)
    (closed : Closed store log current.ids latest) (dropped : current.find? id = none)
    (called : snapshotAt? types options metadata latest current id = some snapshot) :
    Commit.Due types options.alignment store current snapshot.kind snapshot.node ∧
      snapshot.commit = metadata ∧ snapshot.Follows (log.latest? id) := by
  have absent := notMem_ids_of_dropped dropped
  by_cases ended : ∀ old ∈ latest.find? id, old.kind = .terminal
  · rw [snapshotAt?_of_absent types options metadata (find?_graph_eq_none ended) dropped] at called
    cases called
  · simp only [not_forall] at ended
    obtain ⟨old, stored, live⟩ := ended
    obtain ⟨changed, removed⟩ :=
      snapshotAt?_of_removed types options metadata stored live dropped
    obtain ⟨reached, newest⟩ := (closed id old).mp stored
    have named : old.id = id := CommitLog.id_of_latest? newest
    rw [removed, Option.some.injEq] at called
    subst called named
    rw [newest]
    refine ⟨?_, rfl, following_follows _ _ _ _ _ (by simpa using live) fun _ => rfl⟩
    exact show Commit.Due types options.alignment store current .terminal
        ⟨old.id, old.typeName, .empty⟩ from
      .terminal reached (reached.isValueObject absent)
        ((live?_eq_some_iff contract holds).mpr ⟨newest, live⟩) absent

/-- A snapshot called for at a captured id begins or continues a life of the node. -/
theorem due_of_captured (holds : contract.Holds store log)
    (closed : Closed store log current.ids latest) {node : Node}
    (captured : current.find? node.id = some node)
    (called : snapshotAt? types options metadata latest current node.id = some snapshot) :
    Commit.Due types options.alignment store current snapshot.kind snapshot.node ∧
      snapshot.commit = metadata ∧ snapshot.Follows (log.latest? node.id) := by
  have newest := closed.find?_of_mem (mem_ids_of_captured captured)
  by_cases ended : ∀ old ∈ log.latest? node.id, old.kind = .terminal
  · obtain ⟨changed, created⟩ :=
      snapshotAt?_of_created types options metadata (find?_graph_eq_none (newest ▸ ended)) captured
    rw [created, Option.some.injEq, newest] at called
    subst called
    refine ⟨.initial captured ((live?_eq_none_iff contract holds).mpr ended), rfl,
      following_follows _ _ _ _ _ ?_ fun other => (nomatch other)⟩
    exact iff_of_true rfl ended
  · have still := ended
    simp only [not_forall] at still
    obtain ⟨old, stored, live⟩ := still
    have both := snapshotAt?_of_both types options metadata (newest.trans stored) live captured
    split at both
    next => rw [both] at called; cases called
    next differs =>
      obtain ⟨changed, updated⟩ := both
      rw [updated, Option.some.injEq] at called
      subst called
      rw [show log.latest? node.id = some old from stored] at ended ⊢
      refine ⟨.update captured ((live?_eq_some_iff contract holds).mpr ⟨stored, live⟩) differs,
        rfl, following_follows _ _ _ _ _ ?_ fun other => (nomatch other)⟩
      exact iff_of_false (fun other => nomatch other) ended

/-- The snapshots called for are due, and continue the histories of their nodes. -/
theorem due_of_snapshotAt? (holds : contract.Holds store log)
    (closed : Closed store log current.ids latest)
    (called : snapshotAt? types options metadata latest current id = some snapshot) :
    Commit.Due types options.alignment store current snapshot.kind snapshot.node ∧
      snapshot.commit = metadata ∧ snapshot.Follows (log.latest? id) := by
  cases captured : current.find? id with
  | none => exact due_of_dropped contract holds closed captured called
  | some node =>
      have named : node.id = id := Graph.id_of_find? captured
      subst named
      exact due_of_captured contract holds closed captured called

variable (metadata) in
/-- Every snapshot that is due is called for. -/
theorem snapshotAt?_of_due (holds : contract.Holds store log)
    (closed : Closed store log current.ids latest)
    {kind : SnapshotKind} {node : Node}
    (due : Commit.Due types options.alignment store current kind node) :
    ∃ snapshot, snapshotAt? types options metadata latest current node.id = some snapshot ∧
      snapshot.kind = kind ∧ snapshot.node = node := by
  cases due with
  | initial captured absent =>
      rw [live?_eq_none_iff contract holds,
        ← closed.find?_of_mem (mem_ids_of_captured captured)] at absent
      obtain ⟨changed, created⟩ :=
        snapshotAt?_of_created types options metadata (find?_graph_eq_none absent) captured
      exact ⟨_, created, rfl, rfl⟩
  | @update _ old captured live differs =>
      rw [live?_eq_some_iff contract holds,
        ← closed.find?_of_mem (mem_ids_of_captured captured)] at live
      have both := snapshotAt?_of_both types options metadata live.1 live.2 captured
      rw [if_neg differs] at both
      obtain ⟨changed, updated⟩ := both
      exact ⟨_, updated, rfl, rfl⟩
  | @terminal id old reached _ live dropped =>
      rw [live?_eq_some_iff contract holds] at live
      have stored := (closed id old).mpr ⟨reached, live.1⟩
      have absent : current.find? id = none := by
        rwa [Graph.mem_ids_iff, Bool.not_eq_true, Option.isSome_eq_false_iff,
          Option.isNone_iff_eq_none] at dropped
      obtain ⟨changed, removed⟩ :=
        snapshotAt?_of_removed types options metadata stored live.2 absent
      have named : old.id = id := CommitLog.id_of_latest? live.1
      exact ⟨_, removed, rfl, by rw [← named]; rfl⟩

/-- A recording is assembled from the snapshots that are due. -/
theorem recording_spec (holds : contract.Holds store log) (types : TypeTable)
    (options : DiffOptions) (metadata : CommitMetadata) (current : Graph) :
    ∃ commit, Commit.recording types options store metadata current = .ok commit ∧
      commit.metadata = metadata ∧ commit.Extends log ∧
        (∀ kind node, (∃ snapshot ∈ commit.snapshots, snapshot.kind = kind ∧ snapshot.node = node) ↔
          Commit.Due types options.alignment store current kind node) ∧
        (commit.isEmpty ↔ commit.diff.isEmpty) := by
  obtain ⟨latest, loads, closed⟩ := closure_spec contract holds current.ids
  have called {snapshot : Snapshot}
      (member : snapshot ∈ snapshotsFor types options metadata latest current) :=
    due_of_snapshotAt? contract holds closed (mem_snapshotsFor_iff.mp member)
  refine ⟨⟨metadata, .between types options latest.graph current,
      snapshotsFor types options metadata latest current⟩,
    by rw [Commit.recording, loads]; rfl, rfl,
    ⟨snapshotsFor_increasing, fun _ member => (called member).2.1,
      fun _ member => (called member).2.2⟩, fun kind node => ⟨?_, fun due => ?_⟩,
    snapshotsFor_isEmpty_iff⟩
  · rintro ⟨snapshot, member, rfl, rfl⟩
    exact (called member).1
  · obtain ⟨snapshot, found, kinds, nodes⟩ :=
      snapshotAt?_of_due contract metadata holds closed due
    have named := id_of_snapshotAt? found
    rw [← named] at found
    exact ⟨snapshot, mem_snapshotsFor_iff.mpr found, kinds, nodes⟩

/-- Nothing is ended unless it is live. -/
theorem terminating_of_ended (metadata : CommitMetadata) {id : GlobalId}
    (absent : Store.live? store id .latest = .ok none) :
    Commit.terminating store metadata id = .ok none := by
  rw [Commit.terminating, absent]
  rfl

/-- Ending a live node ends what it reaches. -/
theorem terminating_spec (holds : contract.Holds store log) (metadata : CommitMetadata)
    {id : GlobalId} {live : Snapshot} (found : Store.live? store id .latest = .ok (some live)) :
    ∃ commit, Commit.terminating store metadata id = .ok (some commit) ∧
      commit.metadata = metadata ∧ commit.Extends log ∧
        (∀ kind node, (∃ snapshot ∈ commit.snapshots, snapshot.kind = kind ∧ snapshot.node = node) ↔
          Commit.DueAtEnd store id kind node) ∧ ¬ commit.isEmpty := by
  obtain ⟨latest, loads, closed⟩ := closure_spec contract holds [id]
  have mem_live_iff {old : Snapshot} : old ∈ latest.live ↔
      Store.Reaches store [id] old.id ∧ Store.live? store old.id .latest = .ok (some old) := by
    rw [LatestSnapshots.mem_live_iff, closed, live?_eq_some_iff contract holds, and_assoc]
  refine ⟨_, by rw [Commit.terminating, found]; simp only [loads]; rfl, rfl, ⟨?_, ?_, ?_⟩,
    fun kind node => ⟨?_, ?_⟩, ?_⟩
  · rw [List.map_map]
    exact List.pairwise_map.mpr latest.live_increasing
  · intro snapshot member
    obtain ⟨old, -, rfl⟩ := List.mem_map.mp member
    rfl
  · intro snapshot member
    obtain ⟨old, old_mem, rfl⟩ := List.mem_map.mp member
    obtain ⟨newest, alive⟩ :=
      (live?_eq_some_iff contract holds).mp (mem_live_iff.mp old_mem).2
    have before : log.latest? (terminalOf metadata [] old).id = some old := newest
    rw [before]
    exact following_follows _ _ _ _ _ (by simpa using alive) fun _ => rfl
  · rintro ⟨snapshot, member, rfl, rfl⟩
    obtain ⟨old, old_mem, rfl⟩ := List.mem_map.mp member
    obtain ⟨reached, alive⟩ := mem_live_iff.mp old_mem
    exact show Commit.DueAtEnd store id .terminal ⟨old.id, old.typeName, .empty⟩ from
      .terminal reached alive
  · rintro @⟨target, old, reached, alive⟩
    have named : old.id = target :=
      CommitLog.id_of_latest? ((live?_eq_some_iff contract holds).mp alive).1
    subst named
    exact ⟨_, List.mem_map_of_mem (mem_live_iff.mpr ⟨reached, alive⟩), rfl, rfl⟩
  · have named : live.id = id :=
      CommitLog.id_of_latest? ((live?_eq_some_iff contract holds).mp found).1
    have member : live ∈ latest.live :=
      mem_live_iff.mpr ⟨.seed (List.mem_singleton.mpr named), by rwa [named]⟩
    rw [Commit.isEmpty, List.isEmpty_iff, List.map_eq_nil_iff]
    exact List.ne_nil_of_mem member

end Stored
end AuditTrail
