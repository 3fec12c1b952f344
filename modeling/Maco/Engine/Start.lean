import Maco.Engine.Interfaces
import Maco.Engine.Usb
import Maco.VM.Boot

/-! Starting and stopping machines. -/

namespace Maco.Engine

open Concurrent Network VM

def qemuCall (e : Paths) (id : String) (c : QemuCall) : EngineProg c.Reply :=
  engineCall (.qemu (e.runDir id) c)

/-- A step whose error is put behind a text. -/
def performAs (context : String) (s : Step) : EngineM Unit := do
  match ← query (engineCall (.step s)) with
  | .ok () => return ()
  | .error err => fail (Message.text context ++ err)

/-- The interfaces of the spec. -/
def specInterfaces (e : Paths) : List VMInterface → EngineM (List InterfaceSpec)
  | [] => return []
  | nic :: nics => do
    let spec ← resolveNetwork e nic.network
    let rest ← specInterfaces e nics
    return { spec with id := nic.id, mac := nic.mac } :: rest

/-- The image of a new boot disk. -/
def bootImage (x : Texts) (image : String) : EngineM (Option String) := do
  if image = "" then return none
  else imageBase x image true

def prepareVMDisk (x : Texts) (m : VMManifest) : EngineM Unit := do
  if ← demand (engineCall (.statDisk m.id "disk")) then return ()
  else
    let base ← bootImage x m.image
    perform (.createDisk m.id "disk" base m.diskSizeGiB)

def requireDisk (x : Texts) (id : String) (disk : VMDisk) : EngineM Unit := do
  match x.uuid disk.id with
  | .error err => fail ("invalid data disk ID: " ++ err : String)
  | .ok () =>
    match ← query (engineCall (.statDisk id disk.id)) with
    | .ok true => return ()
    | .ok false =>
      fail ("data disk " ++ disk.name ++ " unavailable: no such file or directory" : String)
    | .error err => fail (Message.text ("data disk " ++ disk.name ++ " unavailable: ") ++ err)

def prepareSpec (x : Texts) (e : Paths) (m : VMManifest) : EngineM Spec := do
  let interfaces ← normalizedInterfaces x m
  let nics ← specInterfaces e interfaces
  perform .ensureFirmware
  prepareVMDisk x m
  onlyThen (m.image ≠ "") (perform (.buildSeed m.id))
  m.disks.forM (requireDisk x m.id)
  m.isos.forM fun id => do let _ ← getMedia x id
  return {
    id := m.id
    name := m.name
    cpus := m.cpus
    memoryMiB := m.memoryMiB
    seed := m.image ≠ ""
    disks := m.disks.map (·.id)
    isos := m.isos
    bootOrder := effectiveBootOrder m
    interfaces := nics }

/-- The spec with the helper sockets of its bridge interfaces. -/
def Spec.withSockets (spec : Spec) (runDir : String) : Spec :=
  { spec with interfaces := spec.interfaces.map fun nic =>
      if nic.network = .bridge then
        { nic with socket := runDir ++ "/interfaces/" ++ nic.id ++ "/network.sock" }
      else nic }

/-- The error of `buildArgs`, if there is one. -/
def Spec.checkArgs (spec : Spec) (mac : String → String) : Except Message Unit :=
  spec.interfaces.forM fun nic => do
    let _ ← networkArgs
      { nic with mac := if nic.mac = "" then interfaceMAC mac spec.id nic.id else nic.mac }
    return ()

/-- The helpers of the bridge interfaces; all are stopped where one does not start. -/
def startHelpers (e : Paths) (id : String) : List InterfaceSpec → EngineM Unit
  | [] => return ()
  | nic :: nics => do
    if nic.network = .bridge then
      match ← query (qemuCall e id (.startHelper nic.id nic.bridge)) with
      | .ok () => startHelpers e id nics
      | .error err =>
        let _ ← query (qemuCall e id .stopHelpers)
        fail err
    else startHelpers e id nics

/-- `StartPreparedContext` from the start of QEMU on. -/
def launchQEMU (e : Paths) (spec : Spec) : EngineM Nat := do
  match ← query (qemuCall e spec.id (.spawn spec)) with
  | .error err =>
    let _ ← query (qemuCall e spec.id .stopHelpers)
    fail (Message.text "start qemu: " ++ err)
  | .ok pid =>
    match ← query (qemuCall e spec.id (.writePID pid)) with
    | .error err =>
      query (qemuCall e spec.id (.kill pid))
      let _ ← query (qemuCall e spec.id .stopHelpers)
      fail err
    | .ok () =>
      if ← query (qemuCall e spec.id (.alive pid)) then return pid
      else
        query (qemuCall e spec.id .clearPID)
        let _ ← query (qemuCall e spec.id .stopHelpers)
        fail ("qemu exited immediately; see " ++ e.runDir spec.id ++ "/qemu.log" : String)

/-- `StartPreparedContext` once the spec is prepared. -/
def startSpec (x : Texts) (e : Paths) (spec : Spec) : EngineM Nat := do
  performAs "mkdir run dir: " (.makeRunDir spec.id)
  demand (qemuCall e spec.id .stopHelpers)
  demand (qemuCall e spec.id .removeJournal)
  perform .locateQEMU
  let spec := spec.withSockets (e.runDir spec.id)
  demand (return spec.checkArgs x.mac)
  performAs "create qemu log: " (.createLog spec.id)
  startHelpers e spec.id spec.interfaces
  launchQEMU e spec

/-- `StartPreparedContext` as `StartVM` uses it, with the manifest that was loaded under the lock;
there is none where QEMU was found to run. -/
def startPrepared (x : Texts) (e : Paths) (id : String) : EngineM (Nat × Option VMManifest) :=
  lockedVM e id do
    match ← query (qemuCall e id .status) with
    | some pid => return (pid, none)
    | none =>
      let m ← loadVM id
      checkUSBAssignments m
      let spec ← prepareSpec x e m
      ensureThat (spec.id = id) "prepared VM ID changed"
      let pid ← startSpec x e spec
      return (pid, some m)

/-- `cacheState`, of which the error is dropped. -/
def cacheState (e : Paths) (id : String) : EngineM Unit := do
  let _ ← query (do openDB e; perform (.setVMState id) : EngineM Unit).run
  return ()

/-- `stop` once QEMU has exited. -/
def afterExit (e : Paths) (id : String) : EngineM Unit := do
  query (qemuCall e id .clearPID)
  demand (qemuCall e id .stopHelpers)

/-- The guest is asked to shut down; the answer says whether QEMU has exited in time. -/
def shutDown (e : Paths) (id : String) (pid : Nat) : EngineM Bool := do
  if ← query (qemuCall e id .powerdown) then query (qemuCall e id (.waitExit pid))
  else return false

/-- `stop` where QEMU has to be signalled. -/
def terminate (e : Paths) (id : String) (pid : Nat) : EngineM Unit := do
  demand (qemuCall e id (.signal pid "SIGTERM"))
  if ← query (qemuCall e id (.waitExit pid)) then afterExit e id
  else
    match ← query (qemuCall e id (.signal pid "SIGKILL")) with
    | .error err => fail (Message.text ("kill qemu " ++ toString pid ++ ": ") ++ err)
    | .ok () =>
      if ← query (qemuCall e id (.waitExit pid)) then afterExit e id
      else fail ("qemu " ++ toString pid ++ " did not exit after SIGKILL" : String)

/-- `Driver.stop`. -/
def stopMachine (e : Paths) (id : String) (guestShutdown : Bool) : EngineM Unit :=
  lockedVM e id do
    match ← query (qemuCall e id .status) with
    | none => afterExit e id
    | some pid =>
      if guestShutdown then
        if ← shutDown e id pid then afterExit e id else terminate e id pid
      else terminate e id pid

/-- `ScreenshotVM`. -/
def screenshotVM (e : Paths) (ref : String) : EngineM Unit := do
  let m ← resolveVM ref
  lockedVM e m.id do
    ensureThat (← isRunning e m.id) "VM is not running"
    perform (.capturePreview m.id)

/-- `ShutdownVM`. -/
def shutdownVM (e : Paths) (ref : String) : EngineM Unit := do
  let m ← resolveVM ref
  lockedVM e m.id do
    if ← isRunning e m.id then
      let _ ← query (qemuCall e m.id .powerdown)
      return ()
    else return ()

/-- The preview is taken a second later, and not at all where it fails. -/
def startVM (x : Texts) (inv : Inventory) (e : Paths) (ref : String) : EngineM Nat := do
  let m ← resolveVM ref
  match ← query (qemuCall e m.id .status) with
  | some pid => return pid
  | none =>
    let (pid, current) ← startPrepared x e m.id
    match ← query (attachAssignedUSB inv e (current.getD m)).run with
    | .ok () =>
      cacheState e m.id
      let _ ← query (screenshotVM e m.id).run
      return pid
    | .error err =>
      let _ ← query (stopMachine e m.id true).run
      cacheState e m.id
      fail err

/-- `StopVM` and `ForceStopVM`. -/
def stopVM (e : Paths) (ref : String) (guestShutdown : Bool) : EngineM Unit := do
  let m ← resolveVM ref
  stopMachine e m.id guestShutdown
  cacheState e m.id

end Maco.Engine
