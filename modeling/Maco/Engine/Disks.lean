import Mathlib.Algebra.Group.Nat.Defs
import Mathlib.Algebra.Group.Int.Defs
import Maco.Engine.Machine
import Maco.Engine.World

/-! What the operations on disks do in a machine's disk directory and in QEMU: the making of a disk
image, the growth of one, and the attachment of a new one to a running machine.  The steps of the
engine that stand for them are replaced by these programs. -/

namespace Maco.Engine

open Concurrent VM

/-- An image that QEMU has open: its node, its file, and the virtual size that it reports. -/
structure BlockDevice where
  node : String
  file : String
  size : Int
  deriving DecidableEq

/-- The monitor commands that change QEMU's disks. -/
inductive BlockCommand where
  | blockdevAdd (node file : String)
  | deviceAdd (disk node : String)
  | blockdevDel (node : String)
  | blockResize (node : String) (capacity : Int)

/-- The calls on the disk directory of a machine, with its files by name, the runs of `qemu-img`, and
the monitor.  `queryBlock` leaves out the devices without an image. -/
inductive DiskCall where
  | stat (file : String)
  | lookPath
  | inspect (base : String)
  | mkdirAll
  | createTemp
  | closeTemp (file : String)
  | imgCreate (file : String) (sizeGiB : Int)
  | imgConvert (base file : String)
  | imgResize (file : String) (sizeGiB : Int)
  | imgInfo (file : String)
  | chmod (file : String)
  | rename (old new : String)
  | remove (file : String)
  | dial
  | queryBlock
  | command (c : BlockCommand)
  | engine (c : EngineCall)

@[reducible] def DiskCall.Reply : DiskCall → Type
  | .stat _ => Except Message Bool
  | .inspect _ | .imgInfo _ => Except Message Int
  | .createTemp => Except Message String
  | .queryBlock => Except Message (List BlockDevice)
  | .command _ => Outcome
  | .engine c => c.Reply
  | _ => Except Message Unit

abbrev DiskProg := Prog DiskCall DiskCall.Reply

/-- Programs over these calls that can fail. -/
abbrev DiskM := ExceptT Message DiskProg

def diskCall (c : DiskCall) : DiskProg c.Reply := .request c

/-- A call whose error ends the program. -/
def try_ {α : Type} (p : DiskProg (Except Message α)) : DiskM α := ExceptT.mk p

def refuse {α : Type} (e : Message) : DiskM α := ExceptT.mk (return .error e)

/-- A call whose error is put behind a text. -/
def tryAs {α : Type} (context : String) (p : DiskProg (Except Message α)) : DiskM α := ExceptT.mk do
  match ← p with
  | .ok x => return .ok x
  | .error e => return .error (Message.text context ++ e)

/-- The text of a command that did not succeed. -/
def outcomeText : Outcome → String
  | .ok => ""
  | .rejected cls desc => qmpText cls desc
  | .lost text => text

def tryCommand (c : BlockCommand) : DiskM Unit := ExceptT.mk do
  match ← diskCall (.command c) with
  | .ok => return .ok ()
  | o => return .error (outcomeText o)

/-- The file of a disk. -/
def diskFile (disk : String) : String := disk ++ ".qcow2"

/-- `image.MaxDiskSizeGiB`. -/
def maxDiskSizeGiB : Int := 65536

/-- `int64(size)*(1<<30)`. -/
def capacity (size : Int) : Int := (size * 2 ^ 30).bmod (2 ^ 64)

/-! ### Images -/

/-- The image is made in the temporary file. -/
def fillImage (base : Option String) (temp : String) (sizeGiB : Int) : DiskM Unit :=
  match base with
  | none => tryAs "create disk: " (diskCall (.imgCreate temp sizeGiB))
  | some base => do
    tryAs "copy image: " (diskCall (.imgConvert base temp))
    tryAs "expand image: " (diskCall (.imgResize temp sizeGiB))

/-- `CreateVMDisk` with its temporary file, which is removed at the end. -/
def createFrom (base : Option String) (temp dst : String) (sizeGiB : Int) : DiskM Unit :=
  ExceptT.mk do
    let result ← (do
      try_ (diskCall (.closeTemp temp))
      fillImage base temp sizeGiB
      try_ (diskCall (.chmod temp))
      try_ (diskCall (.rename temp dst)) : DiskM Unit).run
    let _ ← diskCall (.remove temp)
    return result

/-- The image that a disk is made from is not too large for it. -/
def checkBase (base : Option String) (sizeGiB : Int) : DiskM Unit :=
  match base with
  | none => return ()
  | some base => do
    let size ← try_ (diskCall (.inspect base))
    if capacity sizeGiB < size then
      refuse ("disk size is smaller than the image; use at least " ++
        toString ((size + 2 ^ 30 - 1) / 2 ^ 30) ++ " GiB" : String)
    else return ()

def createVMDisk (base : Option String) (dst : String) (sizeGiB : Int) : DiskM Unit := do
  if ← try_ (diskCall (.stat dst)) then return ()
  else if sizeGiB < 1 ∨ maxDiskSizeGiB < sizeGiB then
    refuse ("disk capacity must be between 1 and " ++ toString maxDiskSizeGiB ++ " GiB" : String)
  else
    try_ (diskCall .lookPath)
    checkBase base sizeGiB
    try_ (diskCall .mkdirAll)
    let temp ← try_ (diskCall .createTemp)
    createFrom base temp dst sizeGiB

/-! ### Growth -/

/-- `Driver.GrowDisk`. -/
def growDiskLive (file : String) (size : Int) : DiskM Unit := do
  try_ (diskCall .dial)
  let devices ← try_ (diskCall .queryBlock)
  match devices.find? (·.file = file) with
  | none => refuse "attached disk not found"
  | some device =>
    if size < 1 ∨ capacity size < device.size then refuse "disk shrinking is not supported"
    else tryCommand (.blockResize device.node (capacity size))

def resizeVMDisk (file : String) (size : Int) : DiskM Unit := do
  let old ← tryAs "inspect disk: " (diskCall (.imgInfo file))
  if capacity size < old then refuse "disk shrinking is not supported"
  else tryAs "resize disk: " (diskCall (.imgResize file size))

/-! ### Attachment -/

def errDiskBackendOpen : String := "disk backend remains open"

/-- `Driver.AttachDisk`; `nodeName` is `diskNodeName`. -/
def attachDisk (nodeName : String → String) (disk : String) : DiskProg (Except DiskError Unit) := do
  match ← diskCall .dial with
  | .error e => return .error ⟨false, e⟩
  | .ok () =>
    match ← diskCall (.command (.blockdevAdd (nodeName disk) (diskFile disk))) with
    | .lost e =>
      return .error ⟨true, (errDiskBackendOpen ++ ": blockdev-add outcome unknown: " ++ e : String)⟩
    | .rejected cls desc => return .error ⟨false, ("attach disk: " ++ qmpText cls desc : String)⟩
    | .ok =>
      match ← diskCall (.command (.deviceAdd disk (nodeName disk))) with
      | .lost e =>
        return .error ⟨true, (errDiskBackendOpen ++ ": device_add outcome unknown: " ++ e : String)⟩
      | .ok => return .ok ()
      | .rejected cls desc =>
        match ← diskCall (.command (.blockdevDel (nodeName disk))) with
        | .ok =>
          return .error ⟨false, ("attach disk (restart older VMs to enable the SCSI controller): " ++
            qmpText cls desc : String)⟩
        | o =>
          return .error ⟨true, (errDiskBackendOpen ++ ": attach disk: " ++ qmpText cls desc ++
            "; close backend: " ++ outcomeText o : String)⟩

/-- What stands for each call of the engine. -/
def diskProgram (nodeName : String → String) : (c : EngineCall) → DiskProg c.Reply
  | .statDisk _ disk => diskCall (.stat (diskFile disk))
  | .attachDisk _ disk => attachDisk nodeName disk
  | .step (.createDisk _ disk base sizeGiB) => (createVMDisk base (diskFile disk) sizeGiB).run
  | .step (.resizeDisk live _ disk sizeGiB) =>
    if live then (growDiskLive (diskFile disk) sizeGiB).run
    else (resizeVMDisk (diskFile disk) sizeGiB).run
  | .step (.removeDisk _ disk) => diskCall (.remove (diskFile disk))
  | .step (.setDiskAside _ disk) => diskCall (.rename (diskFile disk) (diskFile disk ++ ".removed"))
  | .step (.bringDiskBack _ disk) => diskCall (.rename (diskFile disk ++ ".removed") (diskFile disk))
  | .step (.removeAside _ disk) => diskCall (.remove (diskFile disk ++ ".removed"))
  | c => diskCall (.engine c)

/-- An operation of the engine down to its file operations and monitor commands. -/
def onDisks {α : Type} (nodeName : String → String) (p : EngineM α) : DiskM α :=
  ExceptT.mk (p.run.expand (diskProgram nodeName))

section OnDisks

variable {α β : Type} {nodeName : String → String}

theorem onDisks_bind (p : EngineM α) (f : α → EngineM β) :
    onDisks nodeName (p >>= f) = onDisks nodeName p >>= fun x => onDisks nodeName (f x) :=
  Prog.expand_andThen p f

@[simp] theorem onDisks_pure (x : α) : onDisks nodeName (pure x : EngineM α) = pure x := rfl

@[simp] theorem onDisks_fail (e : Message) : onDisks nodeName (fail e : EngineM α) = refuse e := rfl

@[simp] theorem onDisks_demand (p : EngineProg (Except Message α)) :
    onDisks nodeName (demand p) = try_ (p.expand (diskProgram nodeName)) := rfl

@[simp] theorem onDisks_query (p : EngineProg α) :
    onDisks nodeName (query p) = ExceptT.lift (p.expand (diskProgram nodeName)) := by
  show ExceptT.mk ((p >>= _).expand (diskProgram nodeName)) = _
  rw [Prog.expand_bind]
  rfl

@[simp] theorem expand_engineCall (c : EngineCall) :
    (engineCall c).expand (diskProgram nodeName) = diskProgram nodeName c :=
  Prog.expand_request c

end OnDisks

end Maco.Engine
