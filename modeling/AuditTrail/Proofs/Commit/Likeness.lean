import AuditTrail.Proofs.Commit.Assembly
import AuditTrail.Proofs.Diff.Exactness
import AuditTrail.Proofs.Store.Likeness

/-!
# Commits that look alike

Over stores that look alike, the same captured graph is recorded in commits that look alike,
whatever the options of the comparison.  The options say how much of a change is reported, but not
which nodes have changed and in which properties.
-/

namespace AuditTrail

open Schema Comparison Assembly

namespace LatestSnapshots

/-- The newest snapshots with the changed names of updates only. -/
def bare (latest : LatestSnapshots) : LatestSnapshots :=
  ⟨latest.rows.map Snapshot.bare, List.pairwise_map.mpr latest.increasing⟩

theorem find?_bare (latest : LatestSnapshots) (id : GlobalId) :
    latest.bare.find? id = (latest.find? id).map Snapshot.bare := by
  rw [Table.find?, bare, List.find?_map]
  rfl

theorem contains_bare (latest : LatestSnapshots) (id : GlobalId) :
    latest.bare.contains id = latest.contains id := by
  rw [Table.contains, bare, List.any_map]
  rfl

theorem bare_put (latest : LatestSnapshots) (snapshot : Snapshot) :
    bare (latest.put snapshot) = latest.bare.put snapshot.bare := by
  have placed (rows : List Snapshot) :
      (Table.place Snapshot.id snapshot rows).map Snapshot.bare =
        Table.place Snapshot.id snapshot.bare (rows.map Snapshot.bare) := by
    induction rows with
    | nil => rfl
    | cons head rows induction =>
        rw [List.map_cons, Table.place, Table.place, Snapshot.bare_id, Snapshot.bare_id,
          ← induction]
        cases compare snapshot.id head.id <;> rfl
  exact Table.ext (placed latest.rows)

theorem live_bare (latest : LatestSnapshots) :
    latest.bare.live = latest.live.map Snapshot.bare := by
  rw [live, live, bare, List.filter_map]
  rfl

theorem graph_bare (latest : LatestSnapshots) : latest.bare.graph = latest.graph := by
  rw [graph, graph, live_bare, List.map_map]
  rfl

end LatestSnapshots

section Closures

variable {σ : Type} [Store σ] (likeness : Store.Likeness σ) {store other : σ}
  (like : likeness.Like store other)

include like

theorem Store.Likeness.first?_eq (id : GlobalId) (query : Query) :
    (Store.first? store id query).map (Option.map Snapshot.bare) =
      (Store.first? other id query).map (Option.map Snapshot.bare) := by
  refine map_bind_congr (likeness.snapshotsOf like id query) fun found found' same => ?_
  rw [Except.map, Except.map, ← List.head?_map, ← List.head?_map, same]

theorem Store.Likeness.live?_eq (id : GlobalId) (query : Query) :
    (Store.live? store id query).map (Option.map Snapshot.bare) =
      (Store.live? other id query).map (Option.map Snapshot.bare) := by
  refine map_bind_congr (likeness.first?_eq like id query) fun found found' same => ?_
  refine congrArg Except.ok ?_
  have kept (found : Option Snapshot) :
      (found.filter fun snapshot => !snapshot.isTerminal).map Snapshot.bare =
        (found.map Snapshot.bare).filter fun snapshot => !snapshot.isTerminal := by
    cases found with
    | none => rfl
    | some snapshot => by_cases ended : snapshot.isTerminal <;> simp [Option.filter, ended]
  rw [kept, kept, same]

theorem firstStored_bare {loaded loaded' : LatestSnapshots} (same : loaded.bare = loaded'.bare)
    (pending : List GlobalId) :
    (firstStored store loaded pending).map (Option.map (Prod.map Snapshot.bare id)) =
      (firstStored other loaded' pending).map (Option.map (Prod.map Snapshot.bare id)) := by
  induction pending with
  | nil => rfl
  | cons head rest induction =>
      have known : loaded.contains head = loaded'.contains head := by
        rw [← LatestSnapshots.contains_bare, same, LatestSnapshots.contains_bare]
      rw [firstStored, firstStored, known]
      split
      next => exact induction
      next =>
        refine map_bind_congr (likeness.first?_eq like head .latest) fun found found' alike => ?_
        cases found with
        | none =>
            rw [Option.map_none, eq_comm, Option.map_eq_none_iff] at alike
            rw [alike]
            exact induction
        | some snapshot =>
            rw [Option.map_some, eq_comm, Option.map_eq_some_iff] at alike
            obtain ⟨snapshot', rfl, alike⟩ := alike
            simp only [Except.map, Option.map_some, Prod.map_apply, alike]

theorem load_bare {loaded loaded' : LatestSnapshots} (same : loaded.bare = loaded'.bare)
    (room : Nat) (pending : List GlobalId) :
    (load store room loaded pending).map LatestSnapshots.bare =
      (load other room loaded' pending).map LatestSnapshots.bare := by
  induction room generalizing loaded loaded' pending with
  | zero =>
      rw [load, load]
      refine map_bind_congr (firstStored_bare likeness like same pending)
        fun found found' alike => ?_
      cases found with
      | none =>
          rw [Option.map_none, eq_comm, Option.map_eq_none_iff] at alike
          rw [alike]
          exact congrArg Except.ok same
      | some first =>
          rw [Option.map_some, eq_comm, Option.map_eq_some_iff] at alike
          obtain ⟨first', rfl, -⟩ := alike
          exact congrArg Except.ok same
  | succ room induction =>
      rw [load, load]
      refine map_bind_congr (firstStored_bare likeness like same pending)
        fun found found' alike => ?_
      cases found with
      | none =>
          rw [Option.map_none, eq_comm, Option.map_eq_none_iff] at alike
          rw [alike]
          exact congrArg Except.ok same
      | some first =>
          rw [Option.map_some, eq_comm, Option.map_eq_some_iff] at alike
          obtain ⟨⟨snapshot', rest'⟩, rfl, alike⟩ := alike
          obtain ⟨snapshot, rest⟩ := first
          simp only [Prod.map_apply, id_eq, Prod.mk.injEq] at alike
          obtain ⟨alike, rfl⟩ := alike
          have followed : snapshot'.bare.valueObjects = snapshot.bare.valueObjects := by rw [alike]
          change (load store room (loaded.put snapshot)
                (snapshot.bare.valueObjects.reverse ++ rest')).map LatestSnapshots.bare =
            (load other room (loaded'.put snapshot')
                (snapshot'.bare.valueObjects.reverse ++ rest')).map LatestSnapshots.bare
          rw [followed]
          refine induction ?_ _
          rw [LatestSnapshots.bare_put, LatestSnapshots.bare_put, same, alike]

/-- The same closures are loaded. -/
theorem closure_bare (ids : List GlobalId) :
    (Assembly.closure store ids).map LatestSnapshots.bare =
      (Assembly.closure other ids).map LatestSnapshots.bare := by
  rw [Assembly.closure, Assembly.closure, likeness.snapshotCount like]
  exact load_bare likeness like rfl _ _

end Closures

section Recording

variable {types : TypeTable} {alignment : Alignment} {options : DiffOptions} {id : GlobalId}
  {metadata : CommitMetadata} {latest latest' : LatestSnapshots} {current : Graph}

/-- Comparing two nodes names the properties that differ. -/
theorem filterMap_compareNodes (types : TypeTable) (alignment : Alignment) (old node : Node) :
    (compareNodes types alignment (some old) (some node)).filterMap Change.property? =
      differing types (some old) (some node) := by
  have names : (compareNodes types alignment (some old) (some node)).map Change.property? =
      (differing types (some old) (some node)).map some := properties_of_compareNodes alignment rfl
  have picked (changes : List Change) : changes.filterMap Change.property? =
      (changes.map Change.property?).filterMap fun name => name := by
    rw [List.filterMap_map]
    rfl
  rw [picked, names, List.filterMap_map]
  exact List.filterMap_some

theorem compareNodes_eq_nil_iff (types : TypeTable) (alignment : Alignment) (old node : Node) :
    compareNodes types alignment (some old) (some node) = [] ↔
      differing types (some old) (some node) = [] := by
  have names : (compareNodes types alignment (some old) (some node)).map Change.property? =
      (differing types (some old) (some node)).map some := properties_of_compareNodes alignment rfl
  have names := congrArg List.length names
  rw [List.length_map, List.length_map] at names
  rw [← List.length_eq_zero_iff, ← List.length_eq_zero_iff, names]

/-- The snapshot of an update names the properties that differ. -/
theorem snapshotAt?_of_update (options : DiffOptions) (metadata : CommitMetadata) {old : Snapshot}
    {node : Node} (stored : latest.find? id = some old) (live : old.kind ≠ .terminal)
    (captured : current.find? id = some node) :
    snapshotAt? types options metadata latest current id =
      if differing types (some old.node) (some node) = [] then none
      else some (.following metadata node .update (differing types (some old.node) (some node))
        (some old)) := by
  have changes : compareAt types options latest.graph current id =
      compareNodes types options.alignment (some old.node) (some node) := by
    simp only [compareAt, find?_graph_of_live stored live, captured]
  have same_iff := compareNodes_eq_nil_iff types options.alignment old.node node
  rw [snapshotAt?, changes, groupOf?]
  split
  next same => rw [if_pos (same_iff.mp same), Option.bind_none]
  next differs =>
    rw [if_neg fun same => differs (same_iff.mpr same)]
    have kept : (compareNodes types options.alignment (some old.node) (some node)).any
        Change.isRemoval = false := any_compareNodes (fun _ _ _ _ => rfl) _ _ _
    have known : (compareNodes types options.alignment (some old.node) (some node)).any
        Change.isCreation = false := any_compareNodes (fun _ _ _ _ => rfl) _ _ _
    simp only [Option.bind_some, snapshotFor?, kept, known, captured, stored, Bool.false_eq_true,
      if_false, Option.map_some, filterMap_compareNodes]

theorem bare_following (metadata : CommitMetadata) (node : Node) (kind : SnapshotKind)
    (changed : List String) (previous : Option Snapshot) :
    (Snapshot.following metadata node kind changed previous).bare =
      .following metadata node kind (if kind = .update then changed else [])
        (previous.map Snapshot.bare) := by
  cases previous <;> rfl

/-- Whatever is reported of the changes of a node, its snapshot looks the same. -/
theorem snapshotAt?_bare (same : latest.bare = latest'.bare) (types : TypeTable)
    (options options' : DiffOptions) (metadata : CommitMetadata) (current : Graph)
    (id : GlobalId) :
    (snapshotAt? types options metadata latest current id).map Snapshot.bare =
      (snapshotAt? types options' metadata latest' current id).map Snapshot.bare := by
  have found : (latest.find? id).map Snapshot.bare = (latest'.find? id).map Snapshot.bare := by
    rw [← LatestSnapshots.find?_bare, same, LatestSnapshots.find?_bare]
  have graphs : latest.graph = latest'.graph := by
    rw [← LatestSnapshots.graph_bare, same, LatestSnapshots.graph_bare]
  by_cases ended : ∀ old ∈ latest.find? id, old.kind = .terminal
  · have absent := find?_graph_eq_none ended
    have absent' : latest'.graph.find? id = none := by rwa [← graphs]
    cases captured : current.find? id with
    | none =>
        rw [snapshotAt?_of_absent types options metadata absent captured,
          snapshotAt?_of_absent types options' metadata absent' captured]
    | some node =>
        obtain ⟨changed, called⟩ :=
          snapshotAt?_of_created types options metadata absent captured
        obtain ⟨changed', called'⟩ :=
          snapshotAt?_of_created types options' metadata absent' captured
        rw [called, called', Option.map_some, Option.map_some, bare_following, bare_following,
          found]
        rfl
  · simp only [not_forall] at ended
    obtain ⟨old, stored, live⟩ := ended
    rw [stored, Option.map_some, eq_comm, Option.map_eq_some_iff] at found
    obtain ⟨old', stored', alike⟩ := found
    have live' : old'.kind ≠ .terminal := by
      rw [← Snapshot.bare_kind, alike, Snapshot.bare_kind]
      exact live
    have nodes : old'.node = old.node := by
      rw [← Snapshot.bare_node, alike, Snapshot.bare_node]
    cases captured : current.find? id with
    | none =>
        obtain ⟨changed, called⟩ :=
          snapshotAt?_of_removed types options metadata stored live captured
        obtain ⟨changed', called'⟩ :=
          snapshotAt?_of_removed types options' metadata stored' live' captured
        rw [called, called', Option.map_some, Option.map_some, terminalOf, terminalOf,
          bare_following, bare_following, Option.map_some, Option.map_some, alike,
          ← Snapshot.bare_id old', ← Snapshot.bare_typeName old', alike]
        rfl
    | some node =>
        rw [snapshotAt?_of_update options metadata stored live captured,
          snapshotAt?_of_update options' metadata stored' live' captured, nodes]
        split
        next => rfl
        next =>
          rw [Option.map_some, Option.map_some, bare_following, bare_following, Option.map_some,
            Option.map_some, alike]

/-- The snapshots of a commit look the same. -/
theorem snapshotsFor_bare (same : latest.bare = latest'.bare) (types : TypeTable)
    (options options' : DiffOptions) (metadata : CommitMetadata) (current : Graph) :
    (snapshotsFor types options metadata latest current).map Snapshot.bare =
      (snapshotsFor types options' metadata latest' current).map Snapshot.bare := by
  -- Both lists are in the order of the nodes, so they can be compared node by node.
  let table (options : DiffOptions) (latest : LatestSnapshots) : LatestSnapshots :=
    ⟨snapshotsFor types options metadata latest current,
      List.pairwise_map.mp snapshotsFor_increasing⟩
  have at_id (options : DiffOptions) (latest : LatestSnapshots) (id : GlobalId) :
      (table options latest).find? id =
        snapshotAt? types options metadata latest current id := by
    apply Option.ext
    intro snapshot
    rw [Table.find?_eq_some_iff, mem_snapshotsFor_iff]
    constructor
    · rintro ⟨called, rfl⟩
      exact called
    · intro called
      have named := id_of_snapshotAt? called
      exact ⟨by rwa [named], named⟩
  have tables : (table options latest).bare = (table options' latest').bare := by
    refine Table.eq_of_find?_eq fun id => ?_
    rw [LatestSnapshots.find?_bare, LatestSnapshots.find?_bare, at_id, at_id]
    exact snapshotAt?_bare same types options options' metadata current id
  exact congrArg Table.rows tables

variable {σ : Type} [Store σ] (likeness : Store.Likeness σ) {store other : σ}
  (like : likeness.Like store other)

include like

/-- The same graph is recorded in commits that look alike. -/
theorem recording_bare (types : TypeTable) (options options' : DiffOptions)
    (metadata : CommitMetadata) (current : Graph) :
    (Commit.recording types options store metadata current).map Commit.bare =
      (Commit.recording types options' other metadata current).map Commit.bare := by
  refine map_bind_congr (closure_bare likeness like current.ids) fun latest latest' same => ?_
  have snapshots := snapshotsFor_bare same types options options' metadata current
  exact congrArg (fun snapshots => Except.ok (Commit.mk metadata ⟨[]⟩ snapshots)) snapshots

/-- The same node is ended by commits that look alike. -/
theorem terminating_bare (metadata : CommitMetadata) (id : GlobalId) :
    (Commit.terminating store metadata id).map (Option.map Commit.bare) =
      (Commit.terminating other metadata id).map (Option.map Commit.bare) := by
  refine map_bind_congr (likeness.live?_eq like id .latest) fun found found' alike => ?_
  cases found with
  | none =>
      rw [Option.map_none, eq_comm, Option.map_eq_none_iff] at alike
      rw [alike]
  | some live =>
      rw [Option.map_some, eq_comm, Option.map_eq_some_iff] at alike
      obtain ⟨live', rfl, -⟩ := alike
      refine map_bind_congr (closure_bare likeness like [id]) fun latest latest' same => ?_
      have ended (latest : LatestSnapshots) :
          (latest.live.map (terminalOf metadata [])).map Snapshot.bare =
            latest.bare.live.map (terminalOf metadata []) := by
        rw [LatestSnapshots.live_bare, List.map_map, List.map_map]
        rfl
      have snapshots : (latest.live.map (terminalOf metadata [])).map Snapshot.bare =
          (latest'.live.map (terminalOf metadata [])).map Snapshot.bare := by
        rw [ended, ended, same]
      exact congrArg (fun snapshots => Except.ok (some (Commit.mk metadata ⟨[]⟩ snapshots)))
        snapshots

end Recording

end AuditTrail
