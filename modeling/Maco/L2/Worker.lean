import Maco.Lib.Interleaving

/-! The network port of one run directory: `Start` and `Stop`, called by any number of processes,
and the workers that they launch, which coordinate through files of the directory.  Each operation
is a program over single file operations, process operations and waits. -/

namespace Maco.L2

open Concurrent

/-- The files of a run directory that someone removes. -/
inductive RunFile where
  | socket
  | ready
  | stop
  | failed
  | port
  deriving DecidableEq, Repr

/-- What ends one round of the wait in `Start`; `exited` is the end of the launched command. -/
inductive Round where
  | exited (error : Option String)
  | deadline
  | tick
  deriving DecidableEq, Repr

/-- What ends one round of the wait in a worker. -/
inductive Watched where
  | helperExited (error : Option String)
  | signal
  | tick
  deriving DecidableEq, Repr

/-- The calls.  `remove` names the worker that makes it, if one does; `statPort` says whether the
port file has been found before. -/
inductive PortCall where
  | locateHelper
  | statPort (again : Bool)
  | writeStop
  | beforeDeadline
  | remove (by_ : Option Nat) (f : RunFile)
  | executable
  | openLog
  | launch
  | wait (running : Bool)
  | readFailed
  | statReady
  | takeLaunch
  | checkRunDir (w : Nat)
  | isBridge (w : Nat)
  | findHelper (w : Nat)
  | createEndpoint (w : Nat)
  | createPeer (w : Nat)
  | destroyInterface (w : Nat)
  | pair (w : Nat)
  | addMember (w : Nat)
  | up (w : Nat)
  | createPort (w : Nat)
  | chownPort (w : Nat)
  | writePort (w : Nat)
  | startHelper (w : Nat)
  | watch (w : Nat)
  | statStop
  | killHelper (w : Nat)
  | reportFailed (error : String)
  | outOfRounds

inductive Stat where
  | found
  | missing
  | error (e : String)
  deriving DecidableEq, Repr

@[reducible] def PortCall.Reply : PortCall → Type
  | .statPort _ => Stat
  | .beforeDeadline | .statReady | .statStop => Bool
  | .remove _ _ | .destroyInterface _ | .killHelper _ | .reportFailed _ => Unit
  | .wait _ => Round
  | .readFailed => Option String
  | .takeLaunch => Nat
  | .watch _ => Watched
  | .outOfRounds => Empty
  | _ => Except String Unit

abbrev PortProg := Prog PortCall PortCall.Reply

def portCall (c : PortCall) : PortProg c.Reply := .request c

/-- Where the rounds of a loop run out, a run goes no further. -/
def outOfRounds {α : Type} : PortProg α := .call .outOfRounds nofun

/-! ### Start and Stop -/

/-- The wait in `Stop` for the port file to go. -/
def awaitGone : Nat → PortProg (Except String Unit)
  | 0 => outOfRounds
  | rounds + 1 => do
    if ← portCall .beforeDeadline then
      match ← portCall (.statPort true) with
      | .missing => return .ok ()
      | _ => awaitGone rounds
    else return .error "network worker did not clean up"

def stop (rounds : Nat) : PortProg (Except String Unit) := do
  match ← portCall (.statPort false) with
  | .missing => return .ok ()
  | .error e => return .error e
  | .found =>
    match ← portCall .writeStop with
    | .error e => return .error e
    | .ok () => awaitGone rounds

/-- The wait in `Start` for the worker to be ready; `running` while the command has not ended. -/
def awaitReady : Nat → Bool → PortProg (Except String Unit)
  | 0, _ => outOfRounds
  | rounds + 1, running => do
    match ← portCall (.wait running) with
    | .exited none => awaitReady rounds false
    | .exited (some e) => return .error ("network worker exited before readiness: " ++ e)
    | .deadline =>
      let _ ← portCall .writeStop
      return .error "network worker readiness timeout"
    | .tick =>
      match ← portCall .readFailed with
      | some e => return .error ("network worker: " ++ e)
      | none => if ← portCall .statReady then return .ok () else awaitReady rounds running

/-- `Start` once the worker of before is gone. -/
def launchWorker (rounds : Nat) : PortProg (Except String Unit) := do
  portCall (.remove none .socket)
  portCall (.remove none .ready)
  portCall (.remove none .stop)
  portCall (.remove none .failed)
  match ← portCall .executable with
  | .error e => return .error e
  | .ok () =>
    match ← portCall .openLog with
    | .error e => return .error e
    | .ok () =>
      match ← portCall .launch with
      | .error e => return .error e
      | .ok () => awaitReady rounds true

def start (rounds : Nat) : PortProg (Except String Unit) := do
  match ← portCall .locateHelper with
  | .error e => return .error e
  | .ok () =>
    match ← stop rounds with
    | .error e => return .error e
    | .ok () => launchWorker rounds

/-! ### The worker -/

def savePort (w : Nat) : PortProg (Except String Unit) := do
  match ← portCall (.createPort w) with
  | .error e => return .error e
  | .ok () =>
    match ← portCall (.chownPort w) with
    | .error e => return .error e
    | .ok () => portCall (.writePort w)

/-- The wait of a worker, until its helper has ended. -/
def watchHelper (w : Nat) : Nat → PortProg (Except String Unit)
  | 0 => outOfRounds
  | rounds + 1 => do
    match ← portCall (.watch w) with
    | .helperExited none => return .ok ()
    | .helperExited (some e) => return .error e
    | .signal =>
      portCall (.killHelper w)
      return .ok ()
    | .tick =>
      if ← portCall .statStop then
        portCall (.killHelper w)
        return .ok ()
      else watchHelper w rounds

/-- `RunWorker` from the pairing of its interfaces to the end of its helper. -/
def serve (w rounds : Nat) : PortProg (Except String Unit) := do
  match ← portCall (.pair w) with
  | .error e => return .error e
  | .ok () =>
    match ← portCall (.addMember w) with
    | .error e => return .error e
    | .ok () =>
      match ← portCall (.up w) with
      | .error e => return .error e
      | .ok () =>
        match ← portCall (.up w) with
        | .error e => return .error e
        | .ok () =>
          match ← savePort w with
          | .error e => return .error e
          | .ok () =>
            match ← portCall (.startHelper w) with
            | .error e => return .error e
            | .ok () => watchHelper w rounds

def cleanupWorker (w : Nat) : PortProg Unit := do
  portCall (.destroyInterface w)
  portCall (.destroyInterface w)
  portCall (.remove (some w) .socket)
  portCall (.remove (some w) .ready)
  portCall (.remove (some w) .stop)
  portCall (.remove (some w) .port)

/-- `RunWorker` between its checks of the directory and its report. -/
def work (w rounds : Nat) : PortProg (Except String Unit) := do
  match ← portCall (.isBridge w) with
  | .error e => return .error e
  | .ok () =>
    match ← portCall (.findHelper w) with
    | .error e => return .error e
    | .ok () =>
      match ← portCall (.createEndpoint w) with
      | .error e => return .error e
      | .ok () =>
        match ← portCall (.createPeer w) with
        | .error e =>
          portCall (.destroyInterface w)
          return .error e
        | .ok () =>
          let result ← serve w rounds
          cleanupWorker w
          return result

def runWorker (rounds : Nat) : PortProg (Except String Unit) := do
  let w ← portCall .takeLaunch
  match ← portCall (.checkRunDir w) with
  | .error e => return .error e
  | .ok () =>
    match ← work w rounds with
    | .ok () => return .ok ()
    | .error e =>
      portCall (.reportFailed e)
      return .error e

/-! ### The directory -/

/-- How far a worker is: launched, at work before it has a port file, or with one. -/
inductive Progress where
  | none
  | launched
  | starting
  | saved
  | ended
  deriving DecidableEq, Repr

/-- How far a `Start` is before its launch: it waits for the worker of before to go, or it has
found none and is about to launch its own. -/
inductive Stage where
  | idle
  | stopping
  | launching
  deriving DecidableEq, Repr

/-- The files of the directory, by the worker whose they are, and what runs.  The rest says how far
the workers and the processes are: `runs` is the worker that a process is, `quiet` that a `Stop`
has found no port file, on which it returns nil, and no `Start` has begun since, `robbed` that a
file of a serving worker was removed by another one or by a caller. -/
structure PortState where
  port : Option Nat := none
  socket : Option Nat := none
  ready : Option Nat := none
  stop : Bool := false
  failed : Option String := none
  attached : Nat → Bool := fun _ => false
  helper : Nat → Bool := fun _ => false
  next : Nat := 0
  progress : Nat → Progress := fun _ => .none
  runs : Nat → Option Nat := fun _ => none
  stage : Nat → Stage := fun _ => .idle
  quiet : Bool := false
  robbed : Bool := false

namespace PortState

/-- The worker has its endpoint pair attached and its helper serving. -/
def Serving (s : PortState) (w : Nat) : Prop := s.attached w = true ∧ s.helper w = true

instance (s : PortState) (w : Nat) : Decidable (s.Serving w) := inferInstanceAs (Decidable (_ ∧ _))

def at_ (s : PortState) (i : Nat) (stage : Stage) : PortState :=
  { s with stage := Function.update s.stage i stage }

def progressed (s : PortState) (w : Nat) (p : Progress) : PortState :=
  { s with progress := Function.update s.progress w p }

/-- The worker whose file it is, for the files that belong to one. -/
def owner (s : PortState) : RunFile → Option Nat
  | .socket => s.socket
  | .ready => s.ready
  | .port => s.port
  | .stop | .failed => none

/-- A file of a serving worker would be removed by another one, or by a caller. -/
def robs (s : PortState) (by_ : Option Nat) (f : RunFile) : Bool :=
  match s.owner f with
  | none => false
  | some w => decide (s.Serving w) && by_ ≠ some w

/-- The file is gone. -/
def without (s : PortState) : RunFile → PortState
  | .socket => { s with socket := none }
  | .ready => { s with ready := none }
  | .stop => { s with stop := false }
  | .failed => { s with failed := none }
  | .port => { s with port := none }

def removed (s : PortState) (by_ : Option Nat) (f : RunFile) : PortState :=
  { s.without f with robbed := s.robbed || s.robs by_ f }

/-- A worker that has no port file is at its end with the removal of the port file, which is the
last thing it removes. -/
def cleaned (s : PortState) (by_ : Option Nat) : RunFile → PortState
  | .port =>
    match by_ with
    | some w => if s.port = some w then s else s.progressed w .ended
    | none => s
  | _ => s

end PortState

/-- What the environment chooses for a call. -/
inductive PortChoice where
  | ok
  | fails (error : String)
  | late
  | round (r : Round)
  | watched (r : Watched)
  | worker (w : Nat)

open PortState in
/-- One call by process `i`.  A call of a `Start` before its launch that makes it return ends its
stage. -/
def PortState.perform (i : Nat) : Perform PortCall PortCall.Reply PortChoice PortState
  | .locateHelper, c, s =>
    let s := { s with quiet := false }
    match c with
    | .ok => some (.ok (), s.at_ i .stopping)
    | .fails e => some (.error e, s)
    | _ => none
  | .statPort again, c, s =>
    match c with
    | .ok =>
      match s.port, s.stage i with
      | some _, _ => some (.found, s)
      | none, .idle => some (.missing, { s with quiet := true })
      | none, _ => some (.missing, s.at_ i .launching)
    | .fails e => some (.error e, if again then s else s.at_ i .idle)
    | _ => none
  | .writeStop, c, s =>
    match c with
    | .ok => some (.ok (), { s with stop := true })
    | .fails e => some (.error e, s.at_ i .idle)
    | _ => none
  | .beforeDeadline, c, s =>
    match c with
    | .ok => some (true, s)
    | .late => some (false, s.at_ i .idle)
    | _ => none
  | .remove by_ f, c, s =>
    match c with
    | .ok => some ((), (s.removed by_ f).cleaned by_ f)
    | .fails _ => some ((), s.cleaned by_ f)
    | _ => none
  | .executable, c, s | .openLog, c, s =>
    match c with
    | .ok => some (.ok (), s)
    | .fails e => some (.error e, s.at_ i .idle)
    | _ => none
  | .launch, c, s =>
    match c with
    | .ok =>
      some (.ok (), ({ s with next := s.next + 1 }.progressed s.next .launched).at_ i .idle)
    | .fails e => some (.error e, s.at_ i .idle)
    | _ => none
  | .wait running, c, s =>
    match c with
    | .round (.exited e) => if running then some (.exited e, s) else none
    | .round r => some (r, s)
    | _ => none
  | .readFailed, _, s => some (s.failed, s)
  | .statReady, _, s => some (s.ready.isSome, s)
  | .takeLaunch, c, s =>
    match c with
    | .worker w =>
      if s.progress w = .launched then
        some (w, { s.progressed w .starting with runs := Function.update s.runs i (some w) })
      else none
    | _ => none
  | .checkRunDir w, c, s | .isBridge w, c, s | .findHelper w, c, s | .createEndpoint w, c, s
  | .createPeer w, c, s =>
    match c with
    | .ok => some (.ok (), s)
    | .fails e => some (.error e, s.progressed w .ended)
    | _ => none
  | .destroyInterface w, c, s =>
    match c with
    | .ok => some ((), { s with attached := Function.update s.attached w false })
    | .fails _ => some ((), s)
    | _ => none
  | .addMember w, c, s =>
    match c with
    | .ok => some (.ok (), { s with attached := Function.update s.attached w true })
    | .fails e => some (.error e, s)
    | _ => none
  | .pair _, c, s | .up _, c, s | .chownPort _, c, s | .writePort _, c, s =>
    match c with
    | .ok => some (.ok (), s)
    | .fails e => some (.error e, s)
    | _ => none
  | .createPort w, c, s =>
    match c with
    | .ok =>
      match s.port with
      | none => some (.ok (), { s.progressed w .saved with port := some w })
      | some _ => some (.error "file exists", s)
    | .fails e => some (.error e, s)
    | _ => none
  | .startHelper w, c, s =>
    match c with
    | .ok => some (.ok (), { s with helper := Function.update s.helper w true })
    | .fails e => some (.error e, s)
    | _ => none
  | .watch w, c, s =>
    match c with
    | .watched (.helperExited e) => if s.helper w then none else some (.helperExited e, s)
    | .watched r => some (r, s)
    | _ => none
  | .statStop, _, s => some (s.stop, s)
  | .killHelper w, _, s => some ((), { s with helper := Function.update s.helper w false })
  | .reportFailed e, c, s =>
    match c with
    | .ok => some ((), { s with failed := s.failed.or (some e) })
    | .fails _ => some ((), s)
    | _ => none
  | .outOfRounds, _, _ => none

/-- A check of the port's file that finds one. -/
theorem PortState.perform_found {i w : Nat} {again : Bool} {s : PortState} (h : s.port = some w) :
    PortState.perform i (.statPort again) .ok s = some (.found, s) := by
  simp only [PortState.perform, h]

/-- What the helpers do: bind the socket, mark that they are ready, unlink the socket at their end
and exit. -/
inductive HelperEvent where
  | binds (w : Nat)
  | marks (w : Nat)
  | unlinks (w : Nat)
  | exits (w : Nat)

def PortState.event (s : PortState) : HelperEvent → Option PortState
  | .binds w =>
    if s.helper w = true ∧ s.socket = none then some { s with socket := some w } else none
  | .marks w => if s.helper w = true ∧ s.ready = none then some { s with ready := some w } else none
  | .unlinks w => if s.helper w = true then some (s.removed (some w) .socket) else none
  | .exits w => some { s with helper := Function.update s.helper w false }

/-- A process is gone.  A worker that had no port file has ended; the helper of another goes on. -/
def PortState.die (i : Nat) (s : PortState) : PortState :=
  let s := s.at_ i .idle
  match s.runs i with
  | some w => if s.progress w = .starting then s.progressed w .ended else s
  | none => s

inductive PortOp where
  | start (rounds : Nat)
  | stop (rounds : Nat)
  | worker (rounds : Nat)

def PortOp.code : PortOp → PortProg (Except String Unit)
  | .start rounds => Maco.L2.start rounds
  | .stop rounds => Maco.L2.stop rounds
  | .worker rounds => runWorker rounds

def portSystem :
    System PortCall PortCall.Reply PortChoice PortState PortOp HelperEvent (Except String Unit) where
  perform := PortState.perform
  code := PortOp.code
  die := PortState.die
  env e s := s.event e

end Maco.L2
