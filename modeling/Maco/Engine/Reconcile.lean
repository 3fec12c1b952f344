import Maco.Lib.Sweep
import Maco.Lib.Table
import Maco.Network.Reconcile

/-! `Reconcile` of the networks and of the machines, by the functions that the two call.  Both loops
end with the first object that fails. -/

namespace Maco.Engine

open Concurrent Network

/-! ### Networks -/

inductive NetsCall where
  | list
  | ensure (n : NetworkManifest)

abbrev NetsCall.Reply : NetsCall → Type
  | .list => Except Message (List NetworkManifest)
  | .ensure _ => Except Message NetworkManifest

abbrev NetsM := ExceptT Message (Prog NetsCall NetsCall.Reply)

def netsCall (c : NetsCall) : Prog NetsCall NetsCall.Reply c.Reply := .request c

/-- A turn of the loop of `network.Reconcile`. -/
def reconcileNetwork (n : NetworkManifest) : NetsM Unit := do
  match ← ExceptT.lift (netsCall (.ensure n)) with
  | .ok _ => return ()
  | .error e => throw (Message.text ("network " ++ n.name ++ ": ") ++ e)

/-- `network.Reconcile`. -/
def reconcileNetworks : NetsM Unit := do
  (← ExceptT.mk (netsCall .list)).forM reconcileNetwork

/-- Every network has its turn, whatever becomes of the others. -/
def reconcileEachNetwork : NetsM Unit := do
  ExceptT.lift (eachTurn reconcileNetwork (← ExceptT.mk (netsCall .list)))

/-- The programs of the functions that `network.Reconcile` calls. -/
def NetsCall.program (dryRun : Bool) : (c : NetsCall) → Net c.Reply
  | .list => netCall .list
  | .ensure n => (Network.ensure n dryRun).run

theorem expand_reconcileNetwork (dryRun : Bool) (networks : List NetworkManifest) :
    Prog.expand (NetsCall.program dryRun) (networks.forM reconcileNetwork).run =
      (reconcileAll dryRun networks).run := by
  induction networks with
  | nil => rfl
  | cons n networks ih =>
    rw [reconcileAll]
    refine Eq.trans ?_ (Prog.bind_assoc _ _ _).symm
    show (Network.ensure n dryRun).run >>= _ = _
    congr 1
    funext r
    cases r with
    | ok current => exact ih
    | error e => rfl

/-- With the programs of what it calls, this is the program `Reconcile` over the host. -/
theorem expand_reconcileNetworks (dryRun : Bool) :
    Prog.expand (NetsCall.program dryRun) reconcileNetworks.run = (Network.reconcile dryRun).run := by
  show Prog.expand (NetsCall.program dryRun) (.call .list fun r => _) = netCall .list >>= fun r => _
  rw [Prog.expand_call]
  show netCall .list >>= _ = _
  congr 1
  funext r
  cases r with
  | ok networks => exact expand_reconcileNetwork dryRun networks
  | error e => rfl

/-- The network that an answer says is ensured. -/
def ensured : (Σ c : NetsCall, c.Reply) → Option NetworkManifest
  | ⟨.ensure n, .ok _⟩ => some n
  | _ => none

section Networks

variable {S : Type}

/-- Every network that its own `Ensure` would bring up is ensured. -/
def NetworksRecover (answer : (c : NetsCall) → S → c.Reply × S) (s : S) : Prop :=
  (reconcileNetworks.run.trace answer s).filterMap ensured =
    (reconcileEachNetwork.run.trace answer s).filterMap ensured

/-- What becomes of the networks when each has its turn. -/
def networkTurns (answer : (c : NetsCall) → S → c.Reply × S) (s : S) : List (Turn NetworkManifest) :=
  turnsAfter answer (ExceptT.mk (netsCall .list)) id (fun _ => reconcileNetwork) ensured s

end Networks

/-! ### Machines -/

inductive Phase where
  | stopped
  | running
  deriving DecidableEq

def Phase.text : Phase → String
  | .stopped => "stopped"
  | .running => "running"

/-- `vm.Status`. -/
structure Status where
  phase : Phase
  pid : Int

/-- `types.VMState`, a row of the cache. -/
structure VMState where
  id : String
  phase : String
  pid : Int
  bootTime : Int
  seenAt : Int

inductive ReconcileCall where
  | list
  | openDB
  | listVMStates
  | status (id : String)
  | startVM (ref : String)
  | now
  | setVMState (row : VMState)

abbrev ReconcileCall.Reply : ReconcileCall → Type
  | .list => Except Message (List VMManifest)
  | .openDB => Except Message Unit
  | .listVMStates => Except Message (Table VMState)
  | .status _ => Status
  | .startVM _ => Except Message Status
  | .now => Int
  | .setVMState _ => Except Message Unit

abbrev ReconcileM := ExceptT Message (Prog ReconcileCall ReconcileCall.Reply)

def reconcileCall (c : ReconcileCall) : Prog ReconcileCall ReconcileCall.Reply c.Reply := .request c

/-- `Reconcile` up to the loop. -/
def readMachines : ReconcileM (List VMManifest × Table VMState) := do
  let manifests ← ExceptT.mk (reconcileCall .list)
  ExceptT.mk (reconcileCall .openDB)
  let cached ← ExceptT.mk (reconcileCall .listVMStates)
  return (manifests, cached)

/-- The machine is started where it should be and does not run. -/
def autostart (m : VMManifest) (st : Status) : ReconcileM (Status × Int) := do
  if st.phase ≠ .running ∧ m.autostart = true then
    match ← ExceptT.lift (reconcileCall (.startVM m.id)) with
    | .error e => throw (Message.text ("autostart " ++ m.name ++ ": ") ++ e)
    | .ok st => return (st, ← ExceptT.lift (reconcileCall .now))
  else return (st, 0)

/-- The time at which a machine was booted, as far as it is known. -/
def bootTime (cached : Table VMState) (id : String) (st : Status) (startedAt : Int) :
    ReconcileM Int := do
  if st.phase ≠ .running then return startedAt
  else
    let boot := match cached.get id with
      | some prev => if startedAt = 0 ∧ prev.phase = Phase.running.text then prev.bootTime
        else startedAt
      | none => startedAt
    if boot = 0 then ExceptT.lift (reconcileCall .now) else return boot

/-- A turn of the loop of `Reconcile`. -/
def reconcileVM (cached : Table VMState) (m : VMManifest) : ReconcileM Unit := do
  let st ← ExceptT.lift (reconcileCall (.status m.id))
  let (st, startedAt) ← autostart m st
  let bootTime ← bootTime cached m.id st startedAt
  let seenAt ← ExceptT.lift (reconcileCall .now)
  ExceptT.mk (reconcileCall (.setVMState
    { id := m.id, phase := st.phase.text, pid := st.pid, bootTime, seenAt }))

/-- `Engine.Reconcile`. -/
def reconcileMachines : ReconcileM Unit := do
  let (manifests, cached) ← readMachines
  manifests.forM (reconcileVM cached)

/-- Every machine has its turn, whatever becomes of the others. -/
def reconcileEachMachine : ReconcileM Unit := do
  let (manifests, cached) ← readMachines
  ExceptT.lift (eachTurn (reconcileVM cached) manifests)

/-- The machine that an answer says is started. -/
def started : (Σ c : ReconcileCall, c.Reply) → Option String
  | ⟨.startVM id, .ok _⟩ => some id
  | _ => none

section Machines

variable {S : Type}

/-- Every machine that its own start would bring up is started. -/
def MachinesRecover (answer : (c : ReconcileCall) → S → c.Reply × S) (s : S) : Prop :=
  (reconcileMachines.run.trace answer s).filterMap started =
    (reconcileEachMachine.run.trace answer s).filterMap started

/-- What becomes of the machines when each has its turn. -/
def machineTurns (answer : (c : ReconcileCall) → S → c.Reply × S) (s : S) : List (Turn String) :=
  turnsAfter answer readMachines Prod.fst (fun read => reconcileVM read.2) started s

/-- Every network and every machine that can be brought up on its own is, exactly when none of them
comes after one that fails. -/
theorem recover_iff {T : Type} (nets : (c : NetsCall) → T → c.Reply × T) (t : T)
    (machines : (c : ReconcileCall) → S → c.Reply × S) (s : S) :
    (NetworksRecover nets t ↔ NoneLate (networkTurns nets t)) ∧
      (MachinesRecover machines s ↔ NoneLate (machineTurns machines s)) :=
  ⟨sweep_iff_noneLate _ _ _, sweep_iff_noneLate _ _ _⟩

/-- Of two networks, the first fails. -/
def firstNetworkFails : (c : NetsCall) → Unit → c.Reply × Unit
  | .list, _ => (.ok [{ id := "1", name := "lab", mode := .bridged, uplink := "en7" },
      { id := "2", name := "dmz", mode := .bridged, uplink := "en0" }], ())
  | .ensure n, _ => (if n.id = "1" then .error "physical uplink en7 is missing" else .ok n, ())

/-- Of two machines that should run, the first does not start. -/
def firstMachineFails : (c : ReconcileCall) → Unit → c.Reply × Unit
  | .list, _ => (.ok [{ id := "1", name := "a", autostart := true },
      { id := "2", name := "b", autostart := true }], ())
  | .openDB, _ | .setVMState _, _ => (.ok (), ())
  | .listVMStates, _ => (.ok [], ())
  | .status _, _ => (⟨.stopped, 0⟩, ())
  | .startVM id, _ => (if id = "1" then .error "data disk unavailable" else .ok ⟨.running, 2⟩, ())
  | .now, _ => (1700000000, ())

theorem recover_fails :
    ¬NetworksRecover firstNetworkFails () ∧ ¬MachinesRecover firstMachineFails () := by
  unfold NetworksRecover MachinesRecover
  exact ⟨by decide +kernel, by decide +kernel⟩

end Machines

end Maco.Engine
