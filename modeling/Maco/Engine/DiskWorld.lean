import Maco.Engine.Disks

/-! A machine, its manifest, its disk directory and the images that QEMU has open.  Each call is
answered and takes effect in one step; the environment chooses the answer among those that the state
admits, and what a call whose reply is lost has done. -/

namespace Maco.Engine

open Concurrent VM

/-- `files` gives the virtual size of each image in the directory, `nodes` the images that QEMU has
open, by node. -/
structure DiskWorld where
  stored : VMManifest
  files : String → Option Int
  running : Bool
  nodes : List (String × String) := []

/-- The choices of the environment: the answer, whether a command whose reply is lost was executed,
whether a manifest that could not be saved was, and the size of a converted image. -/
structure DiskChoice where
  answer : (c : DiskCall) → c.Reply
  took : Bool := false
  converted : Int := 0

/-- The answers where everything fails. -/
def DiskCall.failure : (c : DiskCall) → c.Reply
  | .stat _ | .inspect _ | .imgInfo _ => .error ""
  | .createTemp => .error ""
  | .queryBlock => .error ""
  | .command _ => .lost ""
  | .engine c => c.failure
  | .lookPath | .mkdirAll | .closeTemp _ | .imgCreate _ _ | .imgConvert _ _ | .imgResize _ _
  | .chmod _ | .rename _ _ | .remove _ | .dial => .error ""

namespace DiskChoice

variable (c : DiskChoice)

/-- A command is executed. -/
def executes (command : BlockCommand) : Bool :=
  match c.answer (.command command) with
  | .ok => true
  | .rejected _ _ => false
  | .lost _ => c.took

/-- The manifest is written. -/
def saves (m : VMManifest) : Bool := (c.answer (.engine (.vms (.save m)))).isOk || c.took

end DiskChoice

/-- The texts that `uuid.NewString` makes. -/
def uuidText (id : String) : Bool :=
  id.toList.length = 36 && id.toList.all fun c => isHexDigit c || c = '-'

/-- The names of the temporary files of `CreateVMDisk`. -/
def isTempDisk (file : String) : Bool :=
  ".vm-disk-".toList.isPrefixOf file.toList && isDisk file

namespace DiskWorld

variable (x : Texts) (s : DiskWorld) (c : DiskChoice)

/-- What QEMU reports of the images that it has open. -/
def reports (device : BlockDevice) : Bool :=
  decide ((device.node, device.file) ∈ s.nodes ∧ s.files device.file = some device.size)

/-- The answer of the engine's own calls is one that the state admits. -/
def acceptsEngine : EngineCall → Bool
  | .vms (.resolve ref) => granted (c.answer (.engine (.vms (.resolve ref)))) fun m =>
    decide (m.id = s.stored.id)
  | .vms (.load id) => granted (c.answer (.engine (.vms (.load id)))) fun m =>
    decide (m = s.stored) && x.manifest.valid m
  | .vms (.save m) => !c.saves m || (x.manifest.valid m && m.id = s.stored.id)
  | .qemu runDir .status =>
    decide ((c.answer (.engine (.qemu runDir .status))).isSome = s.running)
  | .newString =>
    let id := c.answer (.engine .newString)
    uuidText id && decide (s.files (diskFile id) = none ∧ ∀ disk ∈ s.stored.disks, disk.id ≠ id)
  | _ => true

/-- The answer is one that the state admits. -/
def accepts : DiskCall → Bool
  | .stat file => granted (c.answer (.stat file)) fun there => decide (there = (s.files file).isSome)
  | .inspect base => granted (c.answer (.inspect base)) fun size =>
    decide (0 < size ∧ size ≤ maxDiskSizeGiB * 2 ^ 30)
  | .createTemp => granted (c.answer .createTemp) fun temp =>
    isTempDisk temp && decide (s.files temp = none)
  | .imgCreate file size => granted (c.answer (.imgCreate file size)) fun _ => (s.files file).isSome
  | .imgConvert base file => granted (c.answer (.imgConvert base file)) fun _ =>
    (s.files file).isSome
  | .imgResize file size => granted (c.answer (.imgResize file size)) fun _ => (s.files file).isSome
  | .imgInfo file => granted (c.answer (.imgInfo file)) fun size => decide (s.files file = some size)
  | .chmod file => granted (c.answer (.chmod file)) fun _ => (s.files file).isSome
  | .rename old new => granted (c.answer (.rename old new)) fun _ => (s.files old).isSome
  | .remove file => granted (c.answer (.remove file)) fun _ => (s.files file).isSome
  | .dial => granted (c.answer .dial) fun _ => s.running
  | .queryBlock => granted (c.answer .queryBlock) fun devices => devices.all s.reports
  | .engine a => s.acceptsEngine x c a
  | _ => true

/-! ### What a call changes -/

def put (file : String) (size : Option Int) : String → Option Int :=
  Function.update s.files file size

def filesAfter : DiskCall → String → Option Int
  | .createTemp =>
    match c.answer .createTemp with
    | .ok temp => s.put temp (some 0)
    | .error _ => s.files
  | .imgCreate file size =>
    if (c.answer (.imgCreate file size)).isOk then s.put file (some (size * 2 ^ 30)) else s.files
  | .imgConvert base file =>
    if (c.answer (.imgConvert base file)).isOk then s.put file (some c.converted) else s.files
  | .imgResize file size =>
    if (c.answer (.imgResize file size)).isOk then s.put file (some (size * 2 ^ 30)) else s.files
  | .rename old new =>
    if (c.answer (.rename old new)).isOk then
      Function.update (s.put old none) new (s.files old)
    else s.files
  | .remove file => if (c.answer (.remove file)).isOk then s.put file none else s.files
  | .command (.blockResize node size) =>
    if c.executes (.blockResize node size) then
      fun file => if (node, file) ∈ s.nodes then (s.files file).map fun _ => size else s.files file
    else s.files
  | _ => s.files

def nodesAfter : DiskCall → List (String × String)
  | .command (.blockdevAdd node file) =>
    if c.executes (.blockdevAdd node file) then (node, file) :: s.nodes else s.nodes
  | .command (.blockdevDel node) =>
    if c.executes (.blockdevDel node) then s.nodes.filter (·.1 ≠ node) else s.nodes
  | _ => s.nodes

def storedAfter : DiskCall → VMManifest
  | .engine (.vms (.save m)) => if c.saves m then m else s.stored
  | _ => s.stored

/-- The state after a call. -/
def after (a : DiskCall) : DiskWorld where
  stored := s.storedAfter c a
  files := s.filesAfter c a
  running := s.running
  nodes := s.nodesAfter c a

def perform (x : Texts) : Perform DiskCall DiskCall.Reply DiskChoice DiskWorld :=
  fun a c s => if s.accepts x c a then some (c.answer a, s.after c a) else none

variable {x s c} {a : DiskCall} {r : a.Reply} {t : DiskWorld}

/-- A call of the engine that saves no manifest changes nothing. -/
theorem after_engine {a : EngineCall} (h : ∀ m, a ≠ .vms (.save m)) : s.after c (.engine a) = s := by
  have hstored : s.storedAfter c (.engine a) = s.stored := by
    unfold storedAfter
    split
    · rename_i m heq
      cases heq
      exact absurd rfl (h m)
    · rfl
  rw [after, hstored]
  rfl

theorem perform_cases (h : perform x a c s = some (r, t)) :
    s.accepts x c a = true ∧ c.answer a = r ∧ s.after c a = t := by
  rw [perform] at h
  split at h
  · rename_i haccepts
    simp only [Option.some.injEq, Prod.mk.injEq] at h
    exact ⟨haccepts, h⟩
  · contradiction

end DiskWorld

end Maco.Engine
