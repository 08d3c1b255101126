import AuditTrail.Auditor
import AuditTrail.Proofs.Journal.Backends
import AuditTrail.Store.Backend

/-!
# Auditors at their desks

Commands from any number of clients wait in a queue until the auditor takes them up.  Whatever the
order in which commands arrive and are taken up, the answers, the events and the journal are those
of the requests made to the journal directly, in the order of arrival, up to the first command that
shuts the auditor down.
-/

namespace AuditTrail

/-- A client of an auditor. -/
abbrev Client := Nat

/-- The request that a command makes to the journal; shutting down makes none. -/
def Command.request? (moment : Moment) : Command → Option Journal.Request
  | .commit author properties heap roots => some (.commit moment author properties heap roots)
  | .delete author id => some (.delete moment author id)
  | .shadow id selector scope => some (.shadow id selector scope)
  | .snapshots id query => some (.snapshotsOf id query)
  | .shutdown => none

namespace Journal

/-- What an auditor answers when the journal gives a response. -/
def Response.reply : Response → Except AuditorError Answer
  | .commit outcome => (outcome.map .commit).mapError .ofAudit
  | .snapshots found => (found.map .snapshots).mapError .ofAudit
  | .latest found => (found.map fun snapshot => .snapshots snapshot.toList).mapError .ofAudit
  | .shadow rebuilt => (rebuilt.map .shadow).mapError .ofAudit

/-- The error of a response, if it is one. -/
def Response.error? : Response → Option AuditError
  | .commit (.error error) | .snapshots (.error error) | .latest (.error error)
  | .shadow (.error error) => some error
  | .commit (.ok _) | .snapshots (.ok _) | .latest (.ok _) | .shadow (.ok _) => none

/-- What is announced of a request and the response to it: a commit that has snapshots, under the
name of who asked for it, and the end of a node. -/
def announced : Request → Response → List Event
  | .commit _ author _ _ _, .commit (.ok commit) =>
    if commit.snapshots = [] then [] else [.committed commit.id author commit.snapshots.length]
  | .delete _ _ id, .commit (.ok commit) => [.deleted id commit.id]
  | _, _ => []

variable {σ : Type} [Store σ]

theorem answers_append_singleton (journal : Journal σ) (requests : List Request)
    (request : Request) :
    journal.answers (requests ++ [request]) =
      journal.answers requests ++ [((journal.after requests).answer request).1] := by
  induction requests generalizing journal with
  | nil => rfl
  | cons first rest induction => exact congrArg (List.cons _) (induction _)

theorem after_append_singleton (journal : Journal σ) (requests : List Request)
    (request : Request) :
    journal.after (requests ++ [request]) = ((journal.after requests).answer request).2 :=
  List.foldl_append

theorem length_answers (journal : Journal σ) (requests : List Request) :
    (journal.answers requests).length = requests.length := by
  induction requests generalizing journal with
  | nil => rfl
  | cons first rest induction => exact congrArg Nat.succ (induction _)

/-- A store that breaks off is reported as a failed task, and nothing else is. -/
theorem Response.reply_eq_taskFailed_iff (response : Response) :
    response.reply = .error .taskFailed ↔ response.error? = some (.store .brokenOff) := by
  have failed_iff (error : AuditError) :
      AuditorError.ofAudit error = .taskFailed ↔ error = .store .brokenOff := by
    unfold AuditorError.ofAudit
    split <;> simp_all
  cases response with
  | commit outcome | snapshots outcome | latest outcome | shadow outcome =>
      cases outcome <;> simp [reply, error?, Except.map, Except.mapError, failed_iff]

variable {journal : Journal σ} {moment : Moment} {author : String} {properties : Labels}
  {commit : Commit}

theorem metadata_of_recording {types : Schema.TypeTable} {options : DiffOptions} {store : σ}
    {metadata : CommitMetadata} {current : Graph}
    (recorded : Commit.recording types options store metadata current = .ok commit) :
    commit.metadata = metadata := by
  obtain ⟨latest, -, assembled⟩ := bind_eq_ok_iff.mp recorded
  cases assembled
  rfl

/-- A commit carries the name of who asked for it. -/
theorem author_of_commit {heap : Heap} {roots : List Slot}
    (committed : (journal.commit moment author properties heap roots).1 = .ok commit) :
    commit.metadata.author = author := by
  unfold Journal.commit at committed
  split at committed
  next => cases committed
  next =>
    rw [metadata_of_recording (recording_of_commitGraph committed)]
    rfl

end Journal

namespace Auditor

open Journal

variable {σ : Type} [Store σ]

/-- A running auditor passes requests on to its journal. -/
theorem handle_of_request (journal : Journal σ) {moment : Moment} {command : Command}
    {request : Journal.Request} (asked : command.request? moment = some request) :
    (spawn journal).handle moment command =
      ⟨(journal.answer request).1.reply, announced request (journal.answer request).1,
        spawn (journal.answer request).2⟩ := by
  cases command with
  | commit author properties heap roots =>
      cases asked
      have named := @author_of_commit σ _ journal moment author properties
      simp only [handle, spawn, if_true, serve, answer]
      generalize committed : journal.commit moment author properties heap roots = outcome
      obtain ⟨result, next⟩ := outcome
      cases result with
      | error error => rfl
      | ok commit =>
          have same := named (congrArg Prod.fst committed)
          simp only [written, announceCommit, announced, same, Commit.isEmpty, List.isEmpty_iff]
          rfl
  | delete author id =>
      cases asked
      simp only [handle, spawn, if_true, serve, answer]
      generalize journal.delete moment author id = outcome
      obtain ⟨result, next⟩ := outcome
      cases result <;> rfl
  | shadow id selector scope =>
      cases asked
      rfl
  | snapshots id query =>
      cases asked
      rfl
  | shutdown => cases asked

/-- Only shutting down makes no request. -/
theorem handle_of_shutdown (journal : Journal σ) {moment : Moment} {command : Command}
    (asked : command.request? moment = none) :
    (spawn journal).handle moment command = ⟨.ok .stopped, [], ⟨journal, false⟩⟩ := by
  cases command with
  | shutdown => rfl
  | commit | delete | shadow | snapshots => cases asked

end Auditor
/-- What happens at the desk of an auditor. -/
inductive Act where
  /-- A client sends a command. -/
  | send (client : Client) (command : Command)
  /-- The auditor takes up the command that has waited longest. -/
  | turn

/-- The command that a client sends. -/
def Act.sent? : Act → Option (Client × Command)
  | send client command => some (client, command)
  | turn => none

/-- An auditor with the commands that wait for it and everything it has said. -/
structure Desk (σ : Type) where
  /-- The auditor. -/
  auditor : Auditor σ
  /-- The commands that wait, in the order of arrival. -/
  waiting : List (Client × Command)
  /-- The answers that clients have got, in the order of answering. -/
  replies : List (Client × Except AuditorError Answer)
  /-- What was announced, in order. -/
  events : List Event

namespace Desk

open Journal Schema

variable {σ : Type} [Store σ]

/-- The desk of an auditor that owns a journal. -/
def opened (journal : Journal σ) : Desk σ := ⟨.spawn journal, [], [], []⟩

/-- What a client gets from an auditor that has shut down. -/
def closedTo (sent : Client × Command) : Client × Except AuditorError Answer :=
  (sent.1, .error .channelClosed)

/-- One act.  The commands that wait when the auditor shuts down are turned away with it, and so
are those that are sent later.  The n-th command is taken up at the n-th moment. -/
def step (moments : Nat → Moment) (desk : Desk σ) : Act → Desk σ
  | .send client command =>
    if desk.auditor.isRunning then
      { desk with waiting := desk.waiting ++ [(client, command)] }
    else { desk with replies := desk.replies ++ [closedTo (client, command)] }
  | .turn =>
    match desk.waiting with
    | [] => desk
    | (client, command) :: rest =>
      let reply := desk.auditor.handle (moments desk.replies.length) command
      { auditor := reply.auditor
        waiting := if reply.auditor.isRunning then rest else []
        replies := desk.replies ++ (client, reply.result) ::
          if reply.auditor.isRunning then [] else rest.map closedTo
        events := desk.events ++ reply.events }

/-- Acts in order. -/
def run (moments : Nat → Moment) (desk : Desk σ) (acts : List Act) : Desk σ :=
  acts.foldl (step moments) desk

/-- The requests that commands make, up to the first one that shuts the auditor down. -/
def requests (moments : Nat → Moment) (first : Nat) : List Command → List Journal.Request
  | [] => []
  | command :: rest =>
    match command.request? (moments first) with
    | none => []
    | some request => request :: requests moments (first + 1) rest

/-- The requests that the commands of clients make. -/
def asked (moments : Nat → Moment) (commands : List (Client × Command)) : List Journal.Request :=
  requests moments 0 (commands.map Prod.snd)

/-- The answers to a command that shuts the auditor down and to those behind it. -/
def farewell : List (Client × Command) → List (Except AuditorError Answer)
  | [] => []
  | _ :: behind => .ok .stopped :: behind.map fun _ => .error .channelClosed

/-- A desk has answered commands as a journal answers the requests that they make. -/
structure Serves (journal : Journal σ) (moments : Nat → Moment)
    (answered : List (Client × Command)) (desk : Desk σ) : Prop where
  /-- Answers go to the clients that sent the commands. -/
  clients : desk.replies.map Prod.fst = answered.map Prod.fst
  /-- They are those of the journal and, from the end of service on, those of a closed desk. -/
  results : desk.replies.map Prod.snd =
    (journal.answers (asked moments answered)).map Response.reply ++
      farewell (answered.drop (asked moments answered).length)
  /-- The journal is the one that has answered these requests, and no others. -/
  journal_eq : desk.auditor.journal = journal.after (asked moments answered)
  /-- What was announced belongs to these requests. -/
  events_eq : desk.events = (List.zipWith announced (asked moments answered)
    (journal.answers (asked moments answered))).flatten
  /-- The auditor is in service as long as all commands have made requests. -/
  running_iff : desk.auditor.isRunning ↔ (asked moments answered).length = answered.length
  /-- Nobody waits for an auditor that has shut down. -/
  closed : desk.auditor.isRunning = false → desk.waiting = []

theorem length_requests_le (moments : Nat → Moment) (first : Nat) (commands : List Command) :
    (requests moments first commands).length ≤ commands.length := by
  induction commands generalizing first with
  | nil => exact Nat.zero_le _
  | cons command rest induction =>
      rw [requests]
      split
      next => exact Nat.zero_le _
      next => exact Nat.succ_le_succ (induction _)

/-- More commands make more requests unless one before has shut the auditor down. -/
theorem requests_append (moments : Nat → Moment) (first : Nat) (commands more : List Command) :
    requests moments first (commands ++ more) =
      requests moments first commands ++
        if (requests moments first commands).length = commands.length then
          requests moments (first + commands.length) more
        else [] := by
  induction commands generalizing first with
  | nil => rfl
  | cons command rest induction =>
      rw [List.cons_append, requests, requests]
      cases command.request? (moments first) with
      | none => simp
      | some request =>
          simp only [induction, List.cons_append, List.length_cons, Nat.add_right_cancel_iff]
          rw [Nat.add_assoc, Nat.add_comm 1]

theorem length_asked_le (moments : Nat → Moment) (commands : List (Client × Command)) :
    (asked moments commands).length ≤ commands.length := by
  rw [asked]
  simpa using length_requests_le moments 0 (commands.map Prod.snd)

theorem asked_append (moments : Nat → Moment) (commands more : List (Client × Command)) :
    asked moments (commands ++ more) =
      asked moments commands ++
        if (asked moments commands).length = commands.length then
          requests moments commands.length (more.map Prod.snd)
        else [] := by
  simp only [asked, List.map_append, requests_append, List.length_map, Nat.zero_add]
  congr

theorem farewell_append {commands : List (Client × Command)} (left : commands ≠ [])
    (more : List (Client × Command)) :
    farewell (commands ++ more) = farewell commands ++ more.map fun _ => .error .channelClosed := by
  cases commands with
  | nil => exact absurd rfl left
  | cons command behind => simp [farewell]

theorem serves_opened (journal : Journal σ) (moments : Nat → Moment) :
    Serves journal moments [] (opened journal) where
  clients := rfl
  results := rfl
  journal_eq := rfl
  events_eq := rfl
  running_iff := ⟨fun _ => rfl, fun _ => rfl⟩
  closed stopped := nomatch stopped

variable {journal : Journal σ} {moments : Nat → Moment} {answered : List (Client × Command)}
  {desk : Desk σ}

/-- Commands that are sent to a closed desk are answered at once. -/
theorem Serves.turnedAway (serves : Serves journal moments answered desk)
    (stopped : desk.auditor.isRunning = false) (late : List (Client × Command)) :
    Serves journal moments (answered ++ late)
      { desk with replies := desk.replies ++ late.map closedTo } := by
  have fewer : (asked moments answered).length < answered.length := by
    refine lt_of_le_of_ne (length_asked_le moments answered) fun all => ?_
    rw [serves.running_iff.mpr all] at stopped
    cases stopped
  have same : asked moments (answered ++ late) = asked moments answered := by
    rw [asked_append, if_neg fewer.ne, List.append_nil]
  refine ⟨?_, ?_, ?_, ?_, ?_, serves.closed⟩
  · simp [serves.clients, closedTo]
  · have left : answered.drop (asked moments answered).length ≠ [] := by
      simpa using fewer
    rw [same, List.drop_append_of_le_length fewer.le, farewell_append left, List.map_append,
      serves.results, List.append_assoc, List.map_map]
    rfl
  · rw [same]
    exact serves.journal_eq
  · rw [same]
    exact serves.events_eq
  · rw [same, List.length_append, stopped]
    simp only [Bool.false_eq_true, false_iff]
    omega

/-- As long as an auditor is in service, every command has made a request. -/
theorem Serves.asked_snoc (serves : Serves journal moments answered desk)
    (running : desk.auditor.isRunning) (client : Client) (command : Command) :
    asked moments (answered ++ [(client, command)]) =
      asked moments answered ++ (command.request? (moments desk.replies.length)).toList := by
  have count : desk.replies.length = answered.length := by
    simpa using congrArg List.length serves.clients
  rw [asked_append, if_pos (serves.running_iff.mp running), count, List.map_singleton, requests]
  cases command.request? (moments answered.length) <;> rfl

/-- A command that makes a request is answered as the journal answers it. -/
theorem Serves.request (serves : Serves journal moments answered desk)
    (running : desk.auditor.isRunning) {client : Client} {command : Command}
    {request : Journal.Request}
    (makes : command.request? (moments desk.replies.length) = some request)
    (rest : List (Client × Command)) :
    Serves journal moments (answered ++ [(client, command)])
      { auditor := .spawn (desk.auditor.journal.answer request).2
        waiting := rest
        replies := desk.replies ++
          [(client, (desk.auditor.journal.answer request).1.reply)]
        events := desk.events ++
          announced request (desk.auditor.journal.answer request).1 } := by
  have snoc := serves.asked_snoc running client command
  rw [makes, Option.toList_some] at snoc
  have all := serves.running_iff.mp running
  have answers := answers_append_singleton journal (asked moments answered) request
  rw [← serves.journal_eq] at answers
  refine ⟨?_, ?_, ?_, ?_, ?_, fun stopped => nomatch stopped⟩
  · simp [serves.clients]
  · simp [snoc, answers, serves.results, all, farewell]
  · rw [snoc, after_append_singleton, ← serves.journal_eq]
    rfl
  · have together := length_answers journal (asked moments answered)
    rw [snoc, answers, List.zipWith_append together.symm, List.flatten_append, serves.events_eq]
    simp
  · simp [snoc, all, Auditor.spawn]

/-- The command that shuts the auditor down is the last one that it answers. -/
theorem Serves.shutdown (serves : Serves journal moments answered desk)
    (running : desk.auditor.isRunning) {client : Client} {command : Command}
    (makes : command.request? (moments desk.replies.length) = none) :
    Serves journal moments (answered ++ [(client, command)])
      { auditor := ⟨desk.auditor.journal, false⟩
        waiting := []
        replies := desk.replies ++ [(client, .ok .stopped)]
        events := desk.events } := by
  have snoc := serves.asked_snoc running client command
  rw [makes, Option.toList_none, List.append_nil] at snoc
  have all := serves.running_iff.mp running
  refine ⟨?_, ?_, ?_, ?_, ?_, fun _ => rfl⟩
  · simp [serves.clients]
  · simp [snoc, serves.results, all, farewell]
  · rw [snoc]
    exact serves.journal_eq
  · rw [snoc]
    exact serves.events_eq
  · simp [snoc, all]

omit [Store σ] in
theorem eq_spawn_of_isRunning {auditor : Auditor σ} (running : auditor.isRunning) :
    auditor = .spawn auditor.journal := by
  cases auditor
  cases running
  rfl

/-- Every act goes on serving, and keeps the order of arrival. -/
theorem Serves.step (serves : Serves journal moments answered desk) (act : Act) :
    ∃ more, desk.waiting ++ act.sent?.toList = more ++ (desk.step moments act).waiting ∧
      Serves journal moments (answered ++ more) (desk.step moments act) := by
  cases act with
  | send client command =>
      cases running : desk.auditor.isRunning with
      | true =>
          refine ⟨[], ?_, ?_⟩
          · simp [Desk.step, running, Act.sent?]
          · simp only [Desk.step, running, if_true, List.append_nil]
            exact ⟨serves.clients, serves.results, serves.journal_eq, serves.events_eq,
              serves.running_iff, fun stopped => by simp [running] at stopped⟩
      | false =>
          refine ⟨[(client, command)], ?_, ?_⟩
          · simp [Desk.step, running, Act.sent?, serves.closed running]
          · simpa [Desk.step, running] using serves.turnedAway running [(client, command)]
  | turn =>
      cases waits : desk.waiting with
      | nil =>
          refine ⟨[], ?_, ?_⟩
          · simp [Desk.step, waits, Act.sent?]
          · simpa [Desk.step, waits] using serves
      | cons first rest =>
          obtain ⟨client, command⟩ := first
          have running : desk.auditor.isRunning := by
            by_contra stopped
            rw [serves.closed (by simpa using stopped)] at waits
            cases waits
          have spawned := eq_spawn_of_isRunning running
          cases makes : command.request? (moments desk.replies.length) with
          | some request =>
              have handled := Auditor.handle_of_request desk.auditor.journal makes
              rw [← spawned] at handled
              refine ⟨[(client, command)], ?_, ?_⟩
              · simp [Desk.step, waits, handled, Auditor.spawn, Act.sent?]
              · simpa only [Desk.step, waits, handled, Auditor.spawn, if_true] using
                  serves.request running makes rest
          | none =>
              have handled := Auditor.handle_of_shutdown desk.auditor.journal makes
              rw [← spawned] at handled
              refine ⟨(client, command) :: rest, ?_, ?_⟩
              · simp [Desk.step, waits, handled, Act.sent?]
              · have last : Serves journal moments (answered ++ [(client, command)]) _ :=
                  serves.shutdown running makes
                simpa [Desk.step, waits, handled] using last.turnedAway rfl rest

/-- Whatever happens at a desk, it serves its journal. -/
theorem serves_run (journal : Journal σ) (moments : Nat → Moment) (acts : List Act) :
    ∃ answered, acts.filterMap Act.sent? =
        answered ++ ((opened journal).run moments acts).waiting ∧
      Serves journal moments answered ((opened journal).run moments acts) := by
  induction acts using List.reverseRecOn with
  | nil => exact ⟨[], rfl, serves_opened journal moments⟩
  | append_singleton acts act induction =>
      obtain ⟨answered, arrived, serves⟩ := induction
      obtain ⟨more, next, served⟩ := serves.step act
      have runs : (opened journal).run moments (acts ++ [act]) =
          ((opened journal).run moments acts).step moments act := List.foldl_append
      refine ⟨answered ++ more, ?_, by rwa [runs]⟩
      rw [runs, List.filterMap_append, arrived, List.append_assoc, List.append_assoc, ← next]
      cases sent : act.sent? <;> simp [sent]

/-- Every turn takes up a command that waits. -/
theorem waiting_run_turns (moments : Nat → Moment) (desk : Desk σ) {turns : Nat}
    (enough : desk.waiting.length ≤ turns) :
    (desk.run moments (List.replicate turns .turn)).waiting = [] := by
  induction turns generalizing desk with
  | zero => exact List.length_eq_zero_iff.mp (Nat.le_zero.mp enough)
  | succ turns induction =>
      refine induction (desk.step moments .turn) ?_
      cases waits : desk.waiting with
      | nil => simp [Desk.step, waits]
      | cons first rest =>
          rw [waits, List.length_cons, Nat.add_le_add_iff_right] at enough
          simp only [Desk.step, waits]
          split
          next => exact enough
          next => exact Nat.zero_le _

/-- A closed desk turns everybody away and leaves the journal alone. -/
theorem run_of_stopped (moments : Nat → Moment) {desk : Desk σ}
    (stopped : desk.auditor.isRunning = false) (nobody : desk.waiting = []) (acts : List Act) :
    desk.run moments acts =
      { desk with replies := desk.replies ++ (acts.filterMap Act.sent?).map closedTo } := by
  induction acts generalizing desk with
  | nil => simp [run]
  | cons act acts induction =>
      have next : desk.step moments act =
          { desk with replies := desk.replies ++ act.sent?.toList.map closedTo } := by
        cases act with
        | send client command => simp [Desk.step, stopped, Act.sent?]
        | turn =>
            simp only [Desk.step, nobody, Act.sent?, Option.toList_none, List.map_nil,
              List.append_nil]
            cases desk
            cases nobody
            rfl
      have rest := @induction (desk.step moments act) (by rwa [next]) (by rwa [next])
      rw [run, List.foldl_cons]
      rw [run] at rest
      rw [rest, next]
      cases sent : act.sent? <;> simp [sent]

/-- Whatever clients send and whenever it is taken up, an auditor answers and announces what its
journal does when it is asked directly, in the order of arrival.  A store that breaks off fails one
task only; everything that waits is taken up in the end; and once the auditor has shut down, nobody
reaches the journal any more. -/
theorem run_refines (journal : Journal σ) (moments : Nat → Moment) (acts : List Act) :
    let desk := (opened journal).run moments acts
    (∃ answered, acts.filterMap Act.sent? = answered ++ desk.waiting ∧
      Serves journal moments answered desk ∧
      ∀ response ∈ journal.answers (asked moments answered),
        response.reply = .error .taskFailed ↔ response.error? = some (.store .brokenOff)) ∧
    (∀ turns, desk.waiting.length ≤ turns →
      (desk.run moments (List.replicate turns .turn)).waiting = []) ∧
    (desk.auditor.isRunning = false → ∀ later,
      desk.run moments later =
        { desk with replies := desk.replies ++ (later.filterMap Act.sent?).map closedTo }) := by
  intro desk
  obtain ⟨answered, arrived, serves⟩ := serves_run journal moments acts
  refine ⟨⟨answered, arrived, serves, fun response _ => response.reply_eq_taskFailed_iff⟩,
    fun turns enough => waiting_run_turns moments desk enough, fun stopped later => ?_⟩
  exact run_of_stopped moments stopped (serves.closed stopped) later

/-- Over a store that cannot be written to, a commit fails, but its numbers are gone and reading
goes on until the auditor is shut down. -/
example :
    let user : Definition := .entity ⟨"User", none, [⟨"id", .named "int", true, false⟩], []⟩ none
    let heap : Heap := ⟨[.ofList "User" [("id", .scalar (.int 1))]]⟩
    let commit : Command := .commit "ann" .empty heap [0]
    let read : Command := .snapshots (.entity "User" (.int 1)) .all
    let acts : List Act :=
      [.send 0 commit, .send 1 read, .turn, .send 0 .shutdown, .send 0 commit, .turn, .turn,
        .send 1 read]
    ((start ⟨[user], {}⟩ (Backend.unwritable .empty)).toOption.map fun journal =>
      let desk := (opened journal).run (fun n => ⟨n, 0⟩) acts
      (desk.replies.map fun reply => (reply.1, reply.2.map fun _ => ()), desk.events,
        desk.auditor.journal.lastSequence)) =
      some ([(0, .error .taskFailed), (1, .ok ()), (0, .ok ()), (0, .error .channelClosed),
        (1, .error .channelClosed)], [], 1) := by
  decide +kernel

end Desk
end AuditTrail
