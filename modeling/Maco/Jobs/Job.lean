import Mathlib.Data.List.Basic
import Mathlib.Data.List.Infix

/-! Jobs as they are stored, and the pages of the job list. -/

namespace Maco.Jobs

inductive State where
  | pending
  | running
  | succeeded
  | failed
  deriving DecidableEq, Repr

def State.text : State → String
  | .pending => "pending"
  | .running => "running"
  | .succeeded => "succeeded"
  | .failed => "failed"

/-- A time in nanoseconds. -/
abbrev Time := Nat

def minute : Time := 60000000000

/-- An entry of a job's log: its time and its text. -/
structure LogLine where
  time : Time
  message : String
  deriving DecidableEq, Repr

structure Job where
  id : String
  action : String
  label : String
  target : String
  state : State
  createdAt : Time
  startedAt : Option Time := none
  finishedAt : Option Time := none
  error : String := ""
  result : String := ""
  logs : List LogLine := []
  deriving DecidableEq, Repr

/-- `Private`. -/
def Job.isPrivate (j : Job) : Bool := j.action = "vm.screenshot"

/-- What a job has come to. -/
structure Outcome where
  state : State
  error : String
  result : String
  finishedAt : Option Time
  deriving DecidableEq, Repr

def Job.outcome (j : Job) : Outcome := ⟨j.state, j.error, j.result, j.finishedAt⟩

def State.terminal : State → Bool
  | .pending | .running => false
  | .succeeded | .failed => true

/-- What a task carries; the parameters of the actions are left out. -/
structure Payload where
  id : String := ""
  action : String
  target : String
  deriving DecidableEq, Repr

def historyLimit : Nat := 2000

def actionLabels : List (String × String) :=
  [("vm.interface.add", "Add VM interface"),
   ("vm.interface.update", "Update VM interface"),
   ("vm.interface.remove", "Remove VM interface"),
   ("vm.create", "Create virtual machine"),
   ("vm.start", "Start virtual machine"),
   ("vm.shutdown", "Guest shutdown"),
   ("vm.stop", "Stop virtual machine"),
   ("vm.delete", "Delete virtual machine"),
   ("vm.hardware", "Update VM hardware"),
   ("vm.disk.add", "Add VM disk"),
   ("vm.disk.grow", "Grow VM disk"),
   ("vm.disk.remove", "Remove VM disk"),
   ("vm.backup", "Back up virtual machine"),
   ("vm.backup.restore", "Restore VM backup"),
   ("vm.backup.delete", "Delete VM backup"),
   ("vm.backup.prune", "Prune VM backups"),
   ("vm.snapshot.create", "Create VM snapshot"),
   ("vm.snapshot.restore", "Restore VM snapshot"),
   ("vm.snapshot.delete", "Delete VM snapshot"),
   ("network.update", "Edit network"),
   ("network.create", "Create network"),
   ("network.apply", "Apply network"),
   ("network.destroy", "Delete network")]

/-- `Label`. -/
def labelOf (action : String) : String := (actionLabels.lookup action).getD action

/-! ### Pages -/

structure PageOptions where
  page : Int
  pageSize : Int
  state : String := ""
  search : String := ""
  focus : String := ""

structure Page where
  items : List Job
  page : Int
  pageSize : Int
  total : Nat
  totalPages : Int

/-- `strings.ToLower` and `strings.TrimSpace`. -/
structure TextRules where
  toLower : String → String
  trimSpace : String → String

def matchesState (job : Job) (wanted : String) : Bool :=
  if wanted = "active" then !job.state.terminal
  else if wanted = "completed" then job.state.terminal
  else if wanted = "" || wanted = "all" then true
  else job.state.text = wanted

def matchesPage (rules : TextRules) (job : Job) (options : PageOptions) : Bool :=
  !job.isPrivate && matchesState job options.state &&
    let text := rules.toLower (job.action ++ " " ++ (actionLabels.lookup job.action).getD "" ++
      " " ++ job.target ++ " " ++ job.id)
    decide ((rules.toLower (rules.trimSpace options.search)).toList <:+: text.toList)

def stateRank : State → Nat
  | .running => 0
  | .pending => 1
  | _ => 2

/-- The order of the jobs of a page: the focus, then by rank, then the newest, then by id. -/
def beforeOnPage (focus : String) (a b : Job) : Bool :=
  if a.id = focus ∨ b.id = focus then a.id = focus
  else if stateRank a.state ≠ stateRank b.state then stateRank a.state < stateRank b.state
  else if a.createdAt ≠ b.createdAt then b.createdAt < a.createdAt
  else a.id < b.id

/-- The page that is asked for, or the last one, of the jobs that match. -/
def paged (found : List Job) (options : PageOptions) : Page :=
  let sorted := found.mergeSort fun a b => !beforeOnPage options.focus b a
  let totalPages := max 1 ((found.length + options.pageSize - 1) / options.pageSize)
  let page := min options.page totalPages
  let start := ((page - 1) * options.pageSize).toNat
  { items := (sorted.drop start).take options.pageSize.toNat
    page
    pageSize := options.pageSize
    total := found.length
    totalPages }

end Maco.Jobs
