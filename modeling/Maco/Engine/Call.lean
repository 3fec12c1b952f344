import Maco.Engine.Network
import Maco.Engine.Backup
import Maco.VM.Hotplug

/-! The calls that the operations of the engine make: locks, the stores of machines and networks,
QEMU and its files, the USB registry, and steps outside of maco of which only the outcome matters. -/

namespace Maco.Engine

open Concurrent Network VM

/-- The lock files, each of them by the directory that it stands in, and the mutex that guards the
database of one operating-system process. -/
inductive LockName where
  | vm (runDir : String)
  | nets
  | media
  | registry
  | sharedMu (proc : Nat)
  | initDB
  deriving DecidableEq, Repr

/-- `engine.Media`; the path is that of its id. -/
structure Media where
  id : String
  name : String
  kind : String
  sizeGiB : Int
  deriving DecidableEq, Repr

/-- `types.BackupSchedule`, the row of a machine in the database. -/
structure BackupSchedule where
  vmID : String
  enabled : Bool := false
  intervalHours : Int
  keepLast : Int := 0
  maxAgeDays : Int := 0
  lastRunAt : Int := 0
  deriving DecidableEq, Repr

/-- `usb.Device`, as far as the engine reads it. -/
structure Device where
  id : String
  fingerprint : String
  serial : String := ""
  product : String := ""
  vendorID : UInt16
  productID : UInt16
  bus : Int
  address : Int
  port : String
  state : String
  reason : String := ""
  deriving DecidableEq, Repr

structure USBAttachment where
  id : String
  vmID : String
  vmName : String
  device : Device
  state : String
  reason : String := ""
  deriving DecidableEq, Repr

structure USBClaim where
  attachment : USBAttachment
  qemuID : String
  runDir : String
  pid : Nat
  generation : String
  deriving DecidableEq, Repr

/-- What `usbGeneration` comes to. -/
inductive Generation where
  | found (generation : String)
  | missing
  | error (e : String)
  deriving DecidableEq, Repr

structure USBObservation where
  exists_ : Bool
  attached : Bool
  deriving DecidableEq, Repr

/-- `vm.Spec`. -/
structure Spec where
  id : String
  name : String
  cpus : Int
  memoryMiB : Int
  seed : Bool
  disks : List String
  isos : List String
  bootOrder : List String
  interfaces : List InterfaceSpec
  deriving DecidableEq

/-- The manifest store of the machines; `entries` is the reading of its directory alone. -/
inductive StoreCall where
  | resolve (ref : String)
  | load (id : String)
  | list
  | entries
  | save (m : VMManifest)
  | delete (id : String)
  | uniqueVMName (base : String)

/-- The driver's calls for one run directory. -/
inductive QemuCall where
  | status
  | pendingReferences
  | removeJournal
  | stopHelpers
  | startHelper (nic bridge : String)
  | spawn (spec : Spec)
  | writePID (pid : Nat)
  | clearPID
  | alive (pid : Nat)
  | kill (pid : Nat)
  | powerdown
  | waitExit (pid : Nat)
  | signal (pid : Nat) (name : String)

/-- The USB registry, the devices of the host and those of QEMU. -/
inductive USBCall where
  | readClaims
  | saveClaims (claims : List USBClaim)
  | generation (runDir : String)
  | noProcess (pid : Nat)
  | observe (runDir qemuID : String)
  | hostDevices
  | attach (runDir qemuID : String) (device : Device)
  | detach (runDir qemuID : String)
  | support

/-- Steps of which only the outcome matters: the files of disks, images and media, the database and
the tools that are run. -/
inductive Step where
  | removeDisks (id : String)
  | removePreview (id : String)
  | openDB
  | setBackupSchedule (row : BackupSchedule)
  | markBackupScheduleRun (id : String) (now : Int)
  | deleteBackupSchedule (id : String)
  | deleteVMState (id : String)
  | setVMState (id : String)
  | capturePreview (id : String)
  | lookupImage (image : String)
  | pullImage (image : String)
  | createDisk (id disk : String) (base : Option String) (sizeGiB : Int)
  | resizeDisk (live : Bool) (id disk : String) (sizeGiB : Int)
  | removeDisk (id disk : String)
  | setDiskAside (id disk : String)
  | bringDiskBack (id disk : String)
  | removeAside (id disk : String)
  | ensureFirmware
  | buildSeed (id : String)
  | makeRunDir (id : String)
  | locateQEMU
  | createLog (id : String)
  | saveMedia (m : Media)
  | makeMedia (m : Media)
  | receiveUpload (id : String)
  | convertUpload (id : String)
  | removeMedia (id : String)
  | backUp (id : String)
  | snapshot (id action tag : String)

/-- A failed attachment of a disk; `backendOpen` is `ErrDiskBackendOpen`. -/
structure DiskError where
  backendOpen : Bool
  text : Message

/-- What `$EDITOR` and the prompt after it come to. -/
inductive Edited where
  | failed (e : String)
  | text (content : Content)

inductive EngineCall where
  | lock (l : LockName)
  | unlock (l : LockName)
  | vms (c : StoreCall)
  | nets (c : NetCall)
  | newString
  | qemu (runDir : String) (c : QemuCall)
  | hotplug (runDir : String) (c : HotplugCall)
  | usb (c : USBCall)
  | restore (c : RestoreCall)
  | step (s : Step)
  | databaseOpen (proc : Nat)
  | getBackupSchedule (id : String)
  | getMedia (id : String)
  | backingMedia (id disk : String)
  | inspectUpload (id : String)
  | statDisk (id disk : String)
  | attachDisk (runDir disk : String)
  | readManifest (id : String)
  | readNetwork (id : String)
  | editor
  | promptReedit

@[reducible] def StoreCall.Reply : StoreCall → Type
  | .resolve _ | .load _ => Except Message VMManifest
  | .list => Except Message (List VMManifest)
  | .entries => Except Message (List String)
  | .save _ => Except String Unit
  | .delete _ => Except Message Unit
  | .uniqueVMName _ => String

@[reducible] def QemuCall.Reply : QemuCall → Type
  | .status => Option Nat
  | .pendingReferences => Except Message (List String)
  | .spawn _ => Except Message Nat
  | .clearPID | .kill _ => Unit
  | .alive _ | .powerdown | .waitExit _ => Bool
  | _ => Except Message Unit

@[reducible] def USBCall.Reply : USBCall → Type
  | .readClaims => Except Message (List USBClaim)
  | .generation _ => Generation
  | .noProcess _ => Bool
  | .observe _ _ => Except Message USBObservation
  | .hostDevices => Except Message (List Device)
  | _ => Except Message Unit

@[reducible] def EngineCall.Reply : EngineCall → Type
  | .unlock _ => Unit
  | .vms c => c.Reply
  | .nets c => c.Reply
  | .newString => String
  | .qemu _ c => c.Reply
  | .hotplug _ c => c.Reply
  | .usb c => c.Reply
  | .restore c => c.Reply
  | .databaseOpen _ | .promptReedit => Bool
  | .getBackupSchedule _ => Except Message (Option BackupSchedule)
  | .getMedia _ => Except Message Media
  | .backingMedia _ _ => Option String
  | .inspectUpload _ => Except Message Int
  | .statDisk _ _ => Except Message Bool
  | .attachDisk _ _ => Except DiskError Unit
  | .readManifest _ | .readNetwork _ => Except Message Content
  | .editor => Edited
  | _ => Except Message Unit

abbrev EngineProg := Prog EngineCall EngineCall.Reply

/-- Programs over the engine's calls that can fail. -/
abbrev EngineM := ExceptT Message EngineProg

def engineCall (c : EngineCall) : EngineProg c.Reply := .request c

/-- A program whose result says whether it failed. -/
def demand {α : Type} (p : EngineProg (Except Message α)) : EngineM α := ExceptT.mk p

/-- A program that does not fail. -/
def query {α : Type} (p : EngineProg α) : EngineM α := ExceptT.lift p

def fail {α : Type} (e : Message) : EngineM α := ExceptT.mk (return .error e)

/-- Refuse unless a condition holds. -/
def ensureThat (c : Bool) (e : Message) : EngineM Unit := if c then return () else fail e

/-- A step under a condition. -/
def onlyThen (c : Bool) (p : EngineM Unit) : EngineM Unit := if c then p else return ()

/-- A step for a value that is given. -/
def onlyFor {α : Type} (x : Option α) (f : α → EngineM Unit) : EngineM Unit :=
  match x with
  | none => return ()
  | some x => f x

/-- A step whose error is dropped. -/
def ignore (s : Step) : EngineM Unit := do
  let _ ← query (engineCall (.step s))

def perform (s : Step) : EngineM Unit := demand (engineCall (.step s))

def save (m : VMManifest) : EngineM Unit := do
  match ← query (engineCall (.vms (.save m))) with
  | .ok () => return ()
  | .error e => fail e

/-- A lock, what is done under it, and the deferred `Close`. -/
def locked {α : Type} (l : LockName) (body : EngineM α) : EngineM α := do
  demand (engineCall (.lock l))
  let result ← query body.run
  query (engineCall (.unlock l))
  ExceptT.mk (return result)

/-! ### Programs of the parts -/

/-- The engine's paths and its operating-system process. -/
structure Paths where
  runDir : String → String
  proc : Nat

/-- The call of a network program as the engine makes it. -/
def ofNet (e : Paths) : NetCall → EngineCall
  | .lock => .lock .nets
  | .unlock => .unlock .nets
  | .newString => .newString
  | .listVMs => .vms .list
  | .running id => .qemu (e.runDir id) .status
  | .pendingReferences id => .qemu (e.runDir id) .pendingReferences
  | c => .nets c

def fromNet (e : Paths) : (c : NetCall) → (ofNet e c).Reply → c.Reply
  | .running _, r => Option.isSome r
  | .lock, r | .unlock, r | .newString, r | .listVMs, r | .pendingReferences _, r
  | .save _, r | .load _, r | .resolve _, r | .list, r | .delete _, r | .interfaceExists _, r
  | .isBridge _, r | .bridgeMembers _, r | .createBridge _, r | .createVLAN _, r
  | .destroy _ _, r | .addMember _ _, r | .removeMember _ _, r | .configureVLAN _ _ _, r
  | .findVLAN _ _, r | .hasAddress _ _, r | .setAddress _ _, r | .removeAlias _ _, r
  | .up _, r => r

/-- A network program among the engine's. -/
def network {α : Type} (e : Paths) (p : NetM α) : EngineM α :=
  ExceptT.mk (p.run.lift (ofNet e) (fromNet e))

/-- The call of an interface change; its `commit` saves a manifest. -/
def ofHotplug (runDir : String) (m : VMManifest) : HotplugCall → EngineCall
  | .commit => .vms (.save m)
  | c => .hotplug runDir c

def fromHotplug (runDir : String) (m : VMManifest) :
    (c : HotplugCall) → (ofHotplug runDir m c).Reply → c.Reply
  | .commit, r | .statJournal, r | .dial, r | .writeJournal _, r | .removeJournal, r
  | .mkdirAll _, r | .startHelper _ _, r | .stopHelper _, r | .clock, r | .send _, r => r

def ofRestore : RestoreCall → EngineCall
  | .save m => .vms (.save m)
  | c => .restore c

def fromRestore : (c : RestoreCall) → (ofRestore c).Reply → c.Reply
  | .save _, r => Except.mapError Message.text r
  | .resolve _, r | .lock _, r | .running _, r | .readDir _ _, r | .readManifest _ _, r
  | .mkdirTemp, r | .copyFile _ _ _, r | .removeDisks _, r | .renameStaging _, r
  | .removeStaging, r => r

end Maco.Engine
