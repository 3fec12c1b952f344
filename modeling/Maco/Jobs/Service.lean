import Maco.Jobs.Job
import Maco.Lib.Interleaving

/-! The job service: each operation is a program over single Redis commands, run by any number of
processes against one Redis, where asynq moves its tasks on its own. -/

namespace Maco.Jobs

open Concurrent

inductive TaskState where
  | pending
  | active
  | archived
  deriving DecidableEq, Repr

structure TaskInfo where
  id : String
  state : TaskState
  lastErr : String := ""
  deriving DecidableEq, Repr

inductive TaskError where
  | taskNotFound
  | queueNotFound
  | other (text : String)
  deriving DecidableEq, Repr

/-- The calls of the service.  In a `save`, `was` is the state in which the caller has read or last
written the record, if it has; Redis is not told.  `setNX` waits for the key of the execution lock
to be free. -/
inductive JobCall where
  | newString
  | now
  | save (j : Job) (was : Option State)
  | zadd (score : Nat) (id : String)
  | zrange (start stop : Int)
  | zrevrange (start stop : Int)
  | mget (ids : List String)
  | get (id : String)
  | trim (ids : List String)
  | rpush (id : String) (line : LogLine)
  | lrange (id : String)
  | enqueue (p : Payload)
  | taskInfo (id : String)
  | listTasks (state : TaskState) (page : Nat)
  | setNX (token : String)
  | releaseLock (token : String)
  | startAction (p : Payload)
  | finishAction (p : Payload)
  | outOfRounds

@[reducible] def JobCall.Reply : JobCall → Type
  | .newString => String
  | .now => Time
  | .zrange _ _ | .zrevrange _ _ => Except String (List String)
  | .mget _ => Except String (List (Option Job))
  | .get _ => Except String Job
  | .lrange _ => Except String (List LogLine)
  | .taskInfo _ => Except TaskError TaskInfo
  | .listTasks _ _ => Except TaskError (List TaskInfo)
  | .releaseLock _ | .startAction _ => Unit
  | .finishAction _ => String × Option String
  | .outOfRounds => Empty
  | _ => Except String Unit

abbrev Service := Prog JobCall JobCall.Reply

/-- One call. -/
def jobCall (c : JobCall) : Service c.Reply := .request c

/-- Where the rounds of a loop run out, a run goes no further. -/
def outOfRounds {α : Type} : Service α := .call .outOfRounds nofun

/-! ### The operations -/

def appendLog (id message : String) : Service (Except String Unit) := do
  let now ← jobCall .now
  jobCall (.rpush id ⟨now, message⟩)

/-- A stale entry of the index that may go: its record has ended or is missing. -/
def trimmable : String × Option Job → Bool
  | (_, some job) => job.state.terminal
  | (_, none) => true

def trimHistory : Service Unit := do
  match ← jobCall (.zrange 0 (-(historyLimit + 1))) with
  | .error _ => return ()
  | .ok stale =>
    if stale = [] then return ()
    else
      match ← jobCall (.mget stale) with
      | .error _ => return ()
      | .ok values =>
        let trimmed := ((stale.zip values).filter trimmable).map Prod.fst
        if trimmed = [] then return ()
        else
          let _ ← jobCall (.trim trimmed)
          return ()

/-- `Submit` from the addition to the index to the trim of the history. -/
def addToIndex (j : Job) : Service (Except String Unit) := do
  if j.isPrivate then return .ok ()
  else
    match ← jobCall (.zadd (j.createdAt / 1000000) j.id) with
    | .error e => return .error e
    | .ok () =>
      trimHistory
      return .ok ()

def submit (payload : Payload) : Service (Except String Job) := do
  let id ← jobCall .newString
  let now ← jobCall .now
  let j : Job :=
    { id, action := payload.action, label := labelOf payload.action, target := payload.target,
      state := .pending, createdAt := now }
  match ← jobCall (.save j none) with
  | .error e => return .error e
  | .ok () =>
    match ← addToIndex j with
    | .error e => return .error e
    | .ok () =>
      match ← jobCall (.enqueue { payload with id }) with
      | .error e =>
        let now ← jobCall .now
        let failed :=
          { j with state := .failed, error := "could not enqueue job", finishedAt := some now }
        let _ ← jobCall (.save failed (some j.state))
        return .error e
      | .ok () => return .ok j

/-- `Get` once the record is up to date. -/
def withLogs (id : String) (j : Job) : Service (Except String Job) := do
  match ← jobCall (.lrange id) with
  | .error e => return .error e
  | .ok logs => return .ok { j with logs }

/-- `Get` for a record that has not ended, whose task asynq has archived. -/
def failArchived (id : String) (j : Job) (lastErr : String) : Service (Except String Job) := do
  match ← appendLog j.id ("Failed: " ++ lastErr) with
  | .error e => return .error e
  | .ok () =>
    let now ← jobCall .now
    let failed := { j with state := .failed, error := lastErr, finishedAt := some now }
    match ← jobCall (.save failed (some j.state)) with
    | .error e => return .error e
    | .ok () => withLogs id failed

/-- `Get`. -/
def getJob (id : String) : Service (Except String Job) := do
  match ← jobCall (.get id) with
  | .error e => return .error e
  | .ok stored =>
    let j := { stored with label := labelOf stored.action }
    if j.state.terminal then withLogs id j
    else
      match ← jobCall (.taskInfo id) with
      | .error _ => withLogs id j
      | .ok info =>
        if info.state = .archived then failArchived id j info.lastErr else withLogs id j

def acquireLock : Service (Except String String) := do
  let token ← jobCall .newString
  match ← jobCall (.setNX token) with
  | .error e => return .error e
  | .ok () => return .ok token

/-- `execute`: the engine's operation for the payload's action, from its call to its return. -/
def execute (p : Payload) : Service (String × Option String) := do
  jobCall (.startAction p)
  jobCall (.finishAction p)

/-- `ProcessTask` from the decoded payload to its end; the result is its error. -/
def runJob (payload : Payload) : Service (Option String) := do
  match ← getJob payload.id with
  | .error e => return some e
  | .ok j =>
    if j.state.terminal then return none
    else if j.startedAt.isSome then
      return some "job interrupted; inspect resources before submitting again"
    else
      let now ← jobCall .now
      let started := { j with state := .running, startedAt := some now }
      match ← jobCall (.save started (some j.state)) with
      | .error e => return some e
      | .ok () =>
        match ← appendLog j.id ("Starting " ++ j.action ++ " " ++ j.target) with
        | .error e => return some e
        | .ok () =>
          let (result, actionErr) ← execute payload
          let now ← jobCall .now
          let ended := match actionErr with
            | none => { started with state := .succeeded, finishedAt := some now, result }
            | some e => { started with state := .failed, finishedAt := some now, result, error := e }
          let message := match actionErr with
            | none => "Completed successfully"
            | some e => "Failed: " ++ e
          match ← appendLog j.id message with
          | .error e => return some e
          | .ok () =>
            match ← jobCall (.save ended (some started.state)) with
            | .error e => return some e
            | .ok () => return actionErr

/-- `ProcessTask` under its lock, for the task's payload as it decodes. -/
def runTask : Except String Payload → Service (Option String)
  | .error e => return some ("decode task: " ++ e)
  | .ok payload => runJob payload

def processTask (task : Except String Payload) : Service (Option String) := do
  match ← acquireLock with
  | .error e => return some e
  | .ok token =>
    let result ← runTask task
    jobCall (.releaseLock token)
    return result

/-- The slices of 200 in which a list is read. -/
def slices {α : Type} (l : List α) : List (List α) :=
  (List.range ((l.length + 199) / 200)).map fun k => (l.drop (200 * k)).take 200

/-- A job that has not ended, read again. -/
def refresh (job : Job) : Service Job := do
  if job.state.terminal then return job
  else
    match ← getJob job.id with
    | .ok refreshed => return refreshed
    | .error _ => return job

/-- `PublicPage` over the values of one slice. -/
def refreshAll (rules : TextRules) (options : PageOptions) :
    List (Option Job) → List Job → Service (List Job)
  | [], found => return found
  | none :: values, found => refreshAll rules options values found
  | some job :: values, found => do
    let job ← refresh job
    let job := { job with label := labelOf job.action }
    refreshAll rules options values
      (if matchesPage rules job options then found ++ [{ job with logs := [] }] else found)

def publicSlices (rules : TextRules) (options : PageOptions) :
    List (List String) → List Job → Service (Except String Page)
  | [], found => return .ok (paged found options)
  | ids :: rest, found => do
    match ← jobCall (.mget ids) with
    | .error e => return .error e
    | .ok values => publicSlices rules options rest (← refreshAll rules options values found)

def publicPage (rules : TextRules) (options : PageOptions) : Service (Except String Page) := do
  if options.page < 1 || options.pageSize < 1 || options.pageSize > 100 then
    return .error "invalid pagination options"
  else
    match ← jobCall (.zrevrange 0 (-1)) with
    | .error e => return .error e
    | .ok ids => publicSlices rules options (slices ids) []

/-- The ids that `PublicList` has collected and the jobs it has fetched, the latest first. -/
structure Fetched where
  ids : List String := []
  jobs : List (String × Job) := []

def Fetched.add (f : Fetched) (id : String) (job : Job) : Fetched :=
  ⟨f.ids ++ [id], (id, job) :: f.jobs⟩

/-- `PublicList` over one batch of ids: the public jobs, up to 200 in all. -/
def fetchBatch : List String → Fetched → Service (Except String Fetched)
  | [], fetched => return .ok fetched
  | id :: batch, fetched => do
    match ← getJob id with
    | .error e => return .error e
    | .ok job =>
      if job.isPrivate then fetchBatch batch fetched
      else if (fetched.add id job).ids.length = 200 then return .ok (fetched.add id job)
      else fetchBatch batch (fetched.add id job)

/-- `PublicList` over the index, batch by batch. -/
def fetchIndex : Nat → Nat → Fetched → Service (Except String Fetched)
  | 0, _, _ => outOfRounds
  | rounds + 1, offset, fetched => do
    if 200 ≤ fetched.ids.length then return .ok fetched
    else
      match ← jobCall (.zrevrange offset (offset + 199)) with
      | .error e => return .error e
      | .ok batch =>
        match ← fetchBatch batch fetched with
        | .error e => return .error e
        | .ok fetched =>
          if batch.length < 200 then return .ok fetched
          else fetchIndex rounds (offset + 200) fetched

/-- `includeActive` for the tasks of one state, page by page. -/
def includePages (state : TaskState) : Nat → Nat → List String → Service (Except String (List String))
  | 0, _, _ => outOfRounds
  | rounds + 1, page, ids => do
    match ← jobCall (.listTasks state page) with
    | .error .queueNotFound => return .ok ids
    | .error .taskNotFound => return .error "asynq: task not found"
    | .error (.other e) => return .error e
    | .ok tasks =>
      let ids := tasks.foldl (fun ids task => if task.id ∈ ids then ids else ids ++ [task.id]) ids
      if tasks.length < 100 then return .ok ids
      else includePages state rounds (page + 1) ids

def includeActive (rounds : Nat) (ids : List String) : Service (Except String (List String)) := do
  match ← includePages .active rounds 1 ids with
  | .error e => return .error e
  | .ok ids => includePages .pending rounds 1 ids

/-- `PublicList` over the ids it lists: those fetched before, and the others that are public. -/
def fetchRest (fetched : Fetched) : List String → List Job → Service (Except String (List Job))
  | [], list => return .ok list
  | id :: ids, list => do
    match fetched.jobs.lookup id with
    | some job => fetchRest fetched ids (list ++ [{ job with logs := [] }])
    | none =>
      match ← getJob id with
      | .error e => return .error e
      | .ok job =>
        if job.isPrivate then fetchRest fetched ids list
        else fetchRest fetched ids (list ++ [{ job with logs := [] }])

def publicList (rounds : Nat) : Service (Except String (List Job)) := do
  match ← fetchIndex rounds 0 {} with
  | .error e => return .error e
  | .ok fetched =>
    match ← includeActive rounds fetched.ids with
    | .error e => return .error e
    | .ok ids => fetchRest fetched ids []

/-- `reconcileOrphans` for a record that has not ended, once its task has been looked up. -/
def failOrphan (job : Job) (lastErr : String) : Service Unit := do
  let error := if lastErr = "" then "job was interrupted before it started" else lastErr
  let now ← jobCall .now
  let _ ← appendLog job.id ("Failed: " ++ error)
  let failed := { job with state := .failed, error, finishedAt := some now }
  let _ ← jobCall (.save failed (some job.state))
  return ()

/-- `reconcileOrphans` for one value. -/
def reconcileJob (job : Job) : Service Unit := do
  if job.state.terminal then return ()
  else
    let now ← jobCall .now
    if now < job.createdAt + minute then return ()
    else
      match ← jobCall (.taskInfo job.id) with
      | .ok info => if info.state = .archived then failOrphan job info.lastErr else return ()
      | .error (.other _) => return ()
      | .error _ => failOrphan job job.error

def reconcileValues : List (Option Job) → Service Unit
  | [] => return ()
  | none :: values => reconcileValues values
  | some job :: values => do
    reconcileJob job
    reconcileValues values

def reconcileSlices : List (List String) → Service Unit
  | [] => return ()
  | ids :: rest => do
    match ← jobCall (.mget ids) with
    | .error _ => return ()
    | .ok values =>
      reconcileValues values
      reconcileSlices rest

def reconcileOrphans : Service Unit := do
  match ← jobCall (.zrange 0 (-1)) with
  | .error _ => return ()
  | .ok ids => reconcileSlices (slices ids)

/-! ### Redis and asynq -/

structure Task where
  payload : Payload
  state : TaskState := .pending
  lastErr : String := ""
  deriving DecidableEq, Repr

/-- The key of the execution lock. -/
structure ExecLock where
  token : String
  expires : Time
  deriving DecidableEq, Repr

def lockTTL : Time := 30000000000

/-- Redis, asynq's tasks and the clock.  No process reads the rest: to which process each id was
given, every record that was ever stored, every payload whose execution was ever called, and the
lock's token and the action with which each process is at work. -/
structure JobsState where
  records : String → Option Job := fun _ => none
  logs : String → List LogLine := fun _ => []
  index : List (Nat × String) := []
  tasks : String → Option Task := fun _ => none
  taskIDs : List String := []
  queue : Bool := false
  execlock : Option ExecLock := none
  clock : Time := 0
  issued : String → Option Nat := fun _ => none
  saves : List Job := []
  started : List Payload := []
  held : Nat → Option String := fun _ => none
  acting : Nat → Option Payload := fun _ => none

/-- The choices of the environment: a command takes effect or fails, or it takes effect and its
reply is lost; `fresh` is a new id, and `outcome` is what an action comes to. -/
inductive JobChoice where
  | ok
  | fail (e : String)
  | lost (e : String)
  | fresh (id : String)
  | outcome (result : String) (actionErr : Option String)

/-- Whether a command takes effect. -/
def JobChoice.effect : JobChoice → Bool
  | .ok | .lost _ => true
  | _ => false

/-- The reply and the effect of a command that writes. -/
def JobChoice.command (c : JobChoice) (s t : JobsState) : Option (Except String Unit × JobsState) :=
  match c with
  | .ok => some (.ok (), t)
  | .lost e => some (.error e, t)
  | .fail e => some (.error e, s)
  | _ => none

/-- The reply to a command that reads `x`. -/
def JobChoice.query {α : Type} (c : JobChoice) (x : α) (s : JobsState) :
    Option (Except String α × JobsState) :=
  match c with
  | .ok => some (.ok x, s)
  | .fail e => some (.error e, s)
  | _ => none

/-- `ZADD`: members in the order of their scores, then by name. -/
def insertScore (entry : Nat × String) : List (Nat × String) → List (Nat × String)
  | [] => [entry]
  | e :: index =>
    if e.2 = entry.2 then insertScore entry index
    else if e.1 < entry.1 ∨ e.1 = entry.1 ∧ e.2 < entry.2 then e :: insertScore entry index
    else entry :: e :: index.filter fun e => e.2 ≠ entry.2

/-- The part of a list from `start` to `stop`, both counted from the end where negative. -/
def zslice (start stop : Int) (l : List String) : List String :=
  let place := fun i : Int => if i < 0 then i + l.length else i
  let first := (max 0 (place start)).toNat
  (l.drop first).take (place stop + 1 - first).toNat

def JobsState.info (s : JobsState) (id : String) : Except TaskError TaskInfo :=
  if !s.queue then .error .queueNotFound
  else
    match s.tasks id with
    | none => .error .taskNotFound
    | some task => .ok ⟨id, task.state, task.lastErr⟩

/-- The tasks of a state, by pages of 100. -/
def JobsState.tasksOf (s : JobsState) (state : TaskState) (page : Nat) :
    Except TaskError (List TaskInfo) :=
  if !s.queue then .error .queueNotFound
  else
    let infos := s.taskIDs.filterMap fun id =>
      (s.tasks id).map fun task => TaskInfo.mk id task.state task.lastErr
    .ok (((infos.filter (·.state = state)).drop (100 * (page - 1))).take 100)

/-- The key of the lock is absent or has expired. -/
def JobsState.lockFree (s : JobsState) : Bool := s.execlock.all fun lock => lock.expires ≤ s.clock

/-- The token that the key of the lock holds, even where it has expired. -/
def JobsState.lockToken (s : JobsState) : Option String := s.execlock.map (·.token)

/-- The key of the lock with the token of a process that has just set it. -/
def JobsState.locked (s : JobsState) (token : String) : JobsState :=
  { s with execlock := some ⟨token, s.clock + lockTTL⟩ }

def JobsState.saved (s : JobsState) (j : Job) : JobsState :=
  { s with records := Function.update s.records j.id (some j), saves := j :: s.saves }

/-- asynq lists its tasks in the order in which they came. -/
def JobsState.enqueued (s : JobsState) (p : Payload) : JobsState :=
  { s with
    tasks := Function.update s.tasks p.id (some { payload := p })
    taskIDs := s.taskIDs.filter (· ≠ p.id) ++ [p.id]
    queue := true }

/-- Process `i` holds the lock with a token, or no longer. -/
def JobsState.holding (s : JobsState) (i : Nat) (token : Option String) : JobsState :=
  { s with held := Function.update s.held i token }

/-- Process `i` executes an action, or none any more. -/
def JobsState.doing (s : JobsState) (i : Nat) (p : Option Payload) : JobsState :=
  { s with acting := Function.update s.acting i p }

def JobsState.perform (i : Nat) : Perform JobCall JobCall.Reply JobChoice JobsState
  | .newString, .fresh id, s =>
    if s.issued id = none then some (id, { s with issued := Function.update s.issued id (some i) })
    else none
  | .now, .ok, s => some (s.clock, s)
  | .save j _, c, s => c.command s (s.saved j)
  | .zadd score id, c, s => c.command s { s with index := insertScore (score, id) s.index }
  | .zrange start stop, c, s => c.query (zslice start stop (s.index.map (·.2))) s
  | .zrevrange start stop, c, s => c.query (zslice start stop (s.index.map (·.2)).reverse) s
  | .mget ids, c, s => c.query (ids.map s.records) s
  | .get id, .ok, s =>
    match s.records id with
    | none => some (.error "redis: nil", s)
    | some job => some (.ok job, s)
  | .get _, .fail e, s => some (.error e, s)
  | .trim ids, c, s =>
    c.command s { s with
      records := fun id => if id ∈ ids then none else s.records id
      logs := fun id => if id ∈ ids then [] else s.logs id
      index := s.index.filter fun e => e.2 ∉ ids }
  | .rpush id line, c, s =>
    c.command s { s with logs := Function.update s.logs id (s.logs id ++ [line]) }
  | .lrange id, c, s => c.query (s.logs id) s
  | .enqueue p, c, s =>
    if s.tasks p.id = none ∨ c.effect = false then c.command s (s.enqueued p) else none
  | .taskInfo id, .ok, s => some (s.info id, s)
  | .taskInfo _, .fail e, s => some (.error (.other e), s)
  | .listTasks state page, .ok, s => some (s.tasksOf state page, s)
  | .listTasks _ _, .fail e, s => some (.error (.other e), s)
  | .setNX token, .ok, s =>
    if s.lockFree then some (.ok (), (s.locked token).holding i (some token)) else none
  | .setNX token, .lost e, s => if s.lockFree then some (.error e, s.locked token) else none
  | .setNX _, .fail e, s => some (.error e, s)
  | .releaseLock token, c, s =>
    if c.effect ∧ s.lockToken = some token then
      some ((), { s.holding i none with execlock := none })
    else some ((), s.holding i none)
  | .startAction p, .ok, s => some ((), { s.doing i (some p) with started := p :: s.started })
  | .finishAction _, .outcome result actionErr, s => some ((result, actionErr), s.doing i none)
  | _, _, _ => none

/-- What happens beside the operations: a private record expires, the holder of the lock renews its
key, a task is taken up, ends well and is deleted, or is archived, also while its worker is still
at it, archived tasks are purged, an action logs a line, and time passes. -/
inductive JobsEvent where
  | expire (id : String)
  | renewLock (i : Nat)
  | dequeue (id : String)
  | complete (id : String)
  | archive (id lastErr : String)
  | purge (id : String)
  | logLine (id : String) (line : LogLine)
  | tick (passed : Nat)

def JobsState.setTask (s : JobsState) (id : String) (task : Option Task) : JobsState :=
  { s with tasks := Function.update s.tasks id task }

/-- A step of asynq that takes a task on from one state. -/
def JobsState.advance (s : JobsState) (id : String) (state : TaskState) (next : Task → Option Task) :
    Option JobsState :=
  match s.tasks id with
  | none => none
  | some task => if task.state = state then some (s.setTask id (next task)) else none

/-- `keepAlive` for the process `i`: a renewal, which acts only on a key with the process's token. -/
def JobsState.renewed (s : JobsState) (i : Nat) : JobsState :=
  if s.lockFree = false ∧ s.held i ≠ none ∧ s.lockToken = s.held i then
    { s with execlock := s.execlock.map fun lock => { lock with expires := s.clock + lockTTL } }
  else s

def JobsState.event : JobsEvent → JobsState → Option JobsState
  | .expire id, s =>
    match s.records id with
    | none => none
    | some j =>
      if j.isPrivate then some { s with records := Function.update s.records id none } else none
  | .renewLock i, s => some (s.renewed i)
  | .dequeue id, s => s.advance id .pending fun task => some { task with state := .active }
  | .complete id, s => s.advance id .active fun _ => none
  | .archive id lastErr, s =>
    s.advance id .active fun task => some { task with state := .archived, lastErr }
  | .purge id, s => s.advance id .archived fun _ => none
  | .logLine id line, s =>
    some { s with logs := Function.update s.logs id (s.logs id ++ [line]) }
  | .tick passed, s => some { s with clock := s.clock + passed }

/-- The operations that a process may begin. -/
inductive JobsOp where
  | submit (payload : Payload)
  | processTask (task : Except String Payload)
  | get (id : String)
  | publicPage (rules : TextRules) (options : PageOptions)
  | publicList (rounds : Nat)
  | reconcileOrphans

def codeOf : JobsOp → Service Unit
  | .submit payload => do let _ ← submit payload
  | .processTask task => do let _ ← processTask task
  | .get id => do let _ ← getJob id
  | .publicPage rules options => do let _ ← publicPage rules options
  | .publicList rounds => do let _ ← publicList rounds
  | .reconcileOrphans => reconcileOrphans

/-- Processes that run the operations; one that dies leaves Redis as it is. -/
def jobsSystem : System JobCall JobCall.Reply JobChoice JobsState JobsOp JobsEvent Unit where
  perform := JobsState.perform
  code := codeOf
  die i s := (s.holding i none).doing i none
  env := JobsState.event

end Maco.Jobs
