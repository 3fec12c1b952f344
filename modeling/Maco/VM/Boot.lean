import Maco.VM.Qemu
import Maco.Lib.Distinct

/-! The boot order of a machine: `EffectiveBootOrder`, the `bootOrder` of the web client, and the
`bootindex` that `buildArgs` gives each device. -/

namespace Maco.VM

/-- The boot disk, the data disks and the ISOs. -/
def bootDevices (m : VMManifest) : List String :=
  "disk" :: m.disks.map ("disk:" ++ ·.id) ++ m.isos.map ("iso:" ++ ·)

/-- The stored order, or the ISOs before the boot disk where there is none. -/
def preferredOrder (m : VMManifest) : List String :=
  if m.bootOrder = [] then m.isos.map ("iso:" ++ ·) ++ ["disk"] else m.bootOrder

/-- `EffectiveBootOrder`: the preferred devices first, then the others, each of them once. -/
def effectiveBootOrder (m : VMManifest) : List String :=
  (preferredOrder m ++ bootDevices m).foldl
    (fun order id => if id ∈ bootDevices m && id ∉ order then order ++ [id] else order) []

/-! ### The web client -/

/-- The fields of the manifest's JSON that the client reads; an empty list is left out. -/
structure ManifestJSON where
  disks : Option (List VMDisk)
  isos : Option (List String)
  bootOrder : Option (List String)

/-- `omitempty`. -/
def omitEmpty {α : Type} (l : List α) : Option (List α) := if l.isEmpty then none else some l

def manifestJSON (m : VMManifest) : ManifestJSON where
  disks := omitEmpty m.disks
  isos := omitEmpty m.isos
  bootOrder := omitEmpty m.bootOrder

/-- `bootOrder` of `bootOrder.ts`; `new Set` keeps the first of equal entries. -/
def bootOrder (manifest : ManifestJSON) (isos : List String) : List String :=
  let devices := "disk" :: (manifest.disks.getD []).map ("disk:" ++ ·.id) ++
    isos.map ("iso:" ++ ·)
  let preferred :=
    match manifest.bootOrder with
    | some (first :: rest) => first :: rest
    | _ => isos.map ("iso:" ++ ·) ++ ["disk"]
  (preferred ++ devices).eraseDups.filter (· ∈ devices)

/-- The list of ISOs that `bootOrder` takes where none is given. -/
def ManifestJSON.defaultISOs (manifest : ManifestJSON) : List String := manifest.isos.getD []

/-! ### The arguments of QEMU -/

structure DiskSpec where
  id : String
  path : String
  deriving DecidableEq, Repr

/-- `vm.Spec`. -/
structure Spec where
  interfaces : List InterfaceSpec := []
  isos : List DiskSpec := []
  bootOrder : List String := []
  disks : List DiskSpec := []
  id : String
  name : String
  cpus : Int := 1
  memoryMiB : Int := 64
  diskPath : String
  seedPath : String := ""
  firmware : String

/-- Functions of texts: `MAC`, `diskNodeName` and `filepath.Join`. -/
structure DriverTexts where
  mac : String → String
  diskNodeName : String → String
  join : String → String → String

/-- The order that `bootIndex` goes by. -/
def Spec.order (s : Spec) : List String :=
  if s.bootOrder = [] then
    s.isos.map ("iso:" ++ ·.id) ++ ["disk"] ++ s.disks.map ("disk:" ++ ·.id)
  else s.bootOrder

def Spec.bootIndex (s : Spec) (id : String) : String :=
  match s.order.idxOf? id with
  | some i => ",bootindex=" ++ toString (i + 1)
  | none => ""

/-- The device of the boot disk, before its index. -/
def bootDevice : String := "virtio-blk-pci,drive=bootdisk"

/-- The device of an ISO, before its index. -/
def isoDevice (q : DriverTexts) (iso : DiskSpec) : String :=
  "scsi-cd,bus=scsi.0,drive=" ++ q.diskNodeName iso.id

/-- The device of a data disk, before its index. -/
def diskDevice (q : DriverTexts) (disk : DiskSpec) : String :=
  "scsi-hd,bus=scsi.0,id=device-" ++ disk.id ++ ",drive=" ++ q.diskNodeName disk.id ++
    ",serial=" ++ disk.id ++ ",device_id=" ++
    String.ofList ((q.diskNodeName disk.id).toList.take 20)

def isoArgs (q : DriverTexts) (s : Spec) (iso : DiskSpec) : List String :=
  ["-drive", "if=none,id=" ++ q.diskNodeName iso.id ++ ",format=raw,readonly=on,file=" ++ iso.path,
    "-device", isoDevice q iso ++ s.bootIndex ("iso:" ++ iso.id)]

def diskArgs (q : DriverTexts) (s : Spec) (disk : DiskSpec) : List String :=
  ["-drive", "if=none,id=" ++ q.diskNodeName disk.id ++ ",format=qcow2,file=" ++ disk.path,
    "-device", diskDevice q disk ++ s.bootIndex ("disk:" ++ disk.id)]

/-- `networkPortArgs`. -/
def networkPortArgs : List String :=
  (List.range 32).flatMap fun i =>
    let n := toString (i + 1)
    ["-device", "pcie-root-port,id=" ++ networkBus ("net" ++ toString i) ++ ",bus=pcie.0,addr=0x" ++
      String.ofList (Nat.toDigits 16 (16 + i / 8)) ++ "." ++ toString (i % 8) ++ ",chassis=" ++ n ++
      ",slot=" ++ n ++ ",port=" ++ n ++ ",io-reserve=0" ++
      if i % 8 = 0 then ",multifunction=on" else ""]

/-- The arguments of the interfaces. -/
def interfaceArgs (q : DriverTexts) (s : Spec) : Except Message (List String) := do
  let args ← s.interfaces.mapM fun nic => networkArgs
    { nic with mac := if nic.mac = "" then interfaceMAC q.mac s.id nic.id else nic.mac }
  return args.flatten

/-- The arguments before those of the disks. -/
def machineArgs (s : Spec) : List String :=
  ["-name", s.name,
    "-machine", "virt,highmem=on,gic-version=3",
    "-accel", "hvf",
    "-cpu", "host",
    "-smp", toString (if s.cpus ≤ 0 then 1 else s.cpus),
    "-m", toString (if s.memoryMiB ≤ 0 then 1024 else s.memoryMiB),
    "-drive", "if=pflash,format=raw,readonly=on,file=" ++ s.firmware,
    "-drive", "if=none,id=bootdisk,format=qcow2,file=" ++ s.diskPath]

/-- The arguments after those of the interfaces. -/
def consoleArgs (q : DriverTexts) (runDir : String) : List String :=
  ["-display", "none",
    "-vnc", "unix:" ++ q.join runDir "vnc.sock",
    "-device", "virtio-gpu-pci",
    "-device", "qemu-xhci,id=maco-usb",
    "-device", "usb-kbd",
    "-device", "usb-tablet",
    "-chardev", "socket,id=serial0,path=" ++ q.join runDir "console.sock" ++
      ",server=on,wait=off,logfile=" ++ q.join runDir "serial.log",
    "-serial", "chardev:serial0",
    "-qmp", "unix:" ++ q.join runDir "qmp.sock" ++ ",server,nowait",
    "-chardev", "socket,path=" ++ q.join runDir "guest-agent.sock" ++
      ",server=on,wait=off,id=qga0",
    "-device", "virtio-serial-pci,id=maco-qga-serial",
    "-device", "virtserialport,chardev=qga0,name=org.qemu.guest_agent.0",
    "-device", "virtio-rng-pci"]

def buildArgs (q : DriverTexts) (runDir : String) (s : Spec) : Except Message (List String) :=
  if s.firmware = "" then .error ("spec " ++ s.id ++ ": firmware is required" : String)
  else if s.diskPath = "" then .error ("spec " ++ s.id ++ ": disk path is required" : String)
  else
    match interfaceArgs q s with
    | .error e => .error e
    | .ok nics => .ok (machineArgs s ++ ["-device", bootDevice ++ s.bootIndex "disk"] ++
        (if s.seedPath = "" then [] else ["-drive", "if=virtio,format=raw,file=" ++ s.seedPath]) ++
        ["-device", "virtio-scsi-pci,id=scsi"] ++ s.isos.flatMap (isoArgs q s) ++
        s.disks.flatMap (diskArgs q s) ++ networkPortArgs ++ nics ++ consoleArgs q runDir)

/-- What can be booted from, with the device of each before its index. -/
def Spec.bootables (q : DriverTexts) (s : Spec) : List (String × String) :=
  ("disk", bootDevice) :: s.disks.map (fun disk => ("disk:" ++ disk.id, diskDevice q disk)) ++
    s.isos.map fun iso => ("iso:" ++ iso.id, isoDevice q iso)

/-- The spec's disks, ISOs and boot order are those of the manifest. -/
structure Spec.Boots (s : Spec) (m : VMManifest) : Prop where
  order : s.bootOrder = effectiveBootOrder m
  disks : s.disks.map (·.id) = m.disks.map (·.id)
  isos : s.isos.map (·.id) = m.isos

/-! ### The order -/

theorem effectiveBootOrder_eq (m : VMManifest) :
    effectiveBootOrder m =
      ((preferredOrder m ++ bootDevices m).filter (· ∈ bootDevices m)).eraseDups := by
  rw [effectiveBootOrder, List.foldl_append_new]
  simp [List.removeAll]

theorem omitEmpty_getD {α : Type} (l : List α) : (omitEmpty l).getD [] = l := by
  cases l <;> rfl

/-- The client comes to the same list. -/
theorem bootOrder_eq (m : VMManifest) :
    bootOrder (manifestJSON m) (manifestJSON m).defaultISOs = effectiveBootOrder m := by
  have hisos : (manifestJSON m).defaultISOs = m.isos := omitEmpty_getD m.isos
  have hdisks : (manifestJSON m).disks.getD [] = m.disks := omitEmpty_getD m.disks
  rw [effectiveBootOrder_eq, bootOrder, hisos, hdisks, List.filter_eraseDups]
  unfold preferredOrder
  cases hstored : m.bootOrder <;> simp [manifestJSON, omitEmpty, hstored, bootDevices]

theorem nodup_effectiveBootOrder (m : VMManifest) : (effectiveBootOrder m).Nodup := by
  rw [effectiveBootOrder_eq]
  exact List.nodup_eraseDups _

theorem mem_effectiveBootOrder (m : VMManifest) (device : String) :
    device ∈ effectiveBootOrder m ↔ device ∈ bootDevices m := by
  rw [effectiveBootOrder_eq, List.mem_eraseDups, List.mem_filter, List.mem_append]
  simp only [decide_eq_true_eq, and_iff_right_iff_imp]
  exact fun h => .inr h

/-- The order is a permutation of the devices without repetitions. -/
theorem effectiveBootOrder_perm (m : VMManifest) :
    (effectiveBootOrder m).Perm (bootDevices m).eraseDups := by
  rw [List.perm_ext_iff_of_nodup (nodup_effectiveBootOrder m) (List.nodup_eraseDups _)]
  intro device
  rw [mem_effectiveBootOrder, List.mem_eraseDups]

/-- The preferred devices that exist come first, in the order in which they are first named. -/
theorem preferred_prefix (m : VMManifest) :
    ((preferredOrder m).filter (· ∈ bootDevices m)).eraseDups <+: effectiveBootOrder m := by
  rw [effectiveBootOrder_eq, List.filter_append, List.eraseDups_append]
  exact List.prefix_append _ _

/-! ### The indexes -/

section Indexes

variable {q : DriverTexts} {runDir : String} {s : Spec} {m : VMManifest} {args : List String}

theorem Spec.Boots.bootables (h : s.Boots m) :
    (s.bootables q).map Prod.fst = bootDevices m := by
  have hdisks : s.disks.map (fun disk => "disk:" ++ disk.id) = m.disks.map ("disk:" ++ ·.id) := by
    have := congrArg (List.map ("disk:" ++ ·)) h.disks
    simpa [Function.comp_def] using this
  have hisos : s.isos.map (fun iso => "iso:" ++ iso.id) = m.isos.map ("iso:" ++ ·) := by
    have := congrArg (List.map ("iso:" ++ ·)) h.isos
    simpa [Function.comp_def] using this
  simp [Spec.bootables, bootDevices, Function.comp_def, hdisks, hisos]

/-- A device of the order has the index of its place. -/
theorem Spec.Boots.bootIndex (h : s.Boots m) {k : Nat} {device : String}
    (hk : (effectiveBootOrder m)[k]? = some device) :
    s.bootIndex device = ",bootindex=" ++ toString (k + 1) := by
  have hne : effectiveBootOrder m ≠ [] := by
    intro hnil
    rw [hnil] at hk
    simp at hk
  have horder : s.order = effectiveBootOrder m := by
    rw [Spec.order, h.order, if_neg hne]
  obtain ⟨hlt, hget⟩ := List.getElem?_eq_some_iff.mp hk
  have hidx : (effectiveBootOrder m).idxOf? device = some k := by
    rw [List.idxOf?_eq_some_iff]
    refine ⟨hlt, hget, fun j hj heq => ?_⟩
    have hjk := (nodup_effectiveBootOrder m).getElem_inj_iff.mp (heq.trans hget.symm)
    omega
  rw [Spec.bootIndex, horder, hidx]

/-- The parts of the arguments that have to do with booting. -/
theorem buildArgs_parts (hargs : buildArgs q runDir s = .ok args) :
    ∃ seed rest, args = machineArgs s ++ ["-device", bootDevice ++ s.bootIndex "disk"] ++ seed ++
      s.isos.flatMap (isoArgs q s) ++ s.disks.flatMap (diskArgs q s) ++ rest := by
  unfold buildArgs at hargs
  by_cases hfirmware : s.firmware = ""
  · rw [if_pos hfirmware] at hargs
    contradiction
  rw [if_neg hfirmware] at hargs
  by_cases hdisk : s.diskPath = ""
  · rw [if_pos hdisk] at hargs
    contradiction
  rw [if_neg hdisk] at hargs
  split at hargs
  · contradiction
  · rename_i nics _
    cases hargs
    exact ⟨(if s.seedPath = "" then [] else ["-drive", "if=virtio,format=raw,file=" ++ s.seedPath]) ++
      ["-device", "virtio-scsi-pci,id=scsi"], networkPortArgs ++ nics ++ consoleArgs q runDir,
      by simp only [List.append_assoc]⟩

/-- The arguments have the device of everything that can be booted from, with its index. -/
theorem bootables_infix (hargs : buildArgs q runDir s = .ok args) {device start : String}
    (hmem : (device, start) ∈ s.bootables q) :
    ["-device", start ++ s.bootIndex device] <:+: args := by
  obtain ⟨seed, rest, rfl⟩ := buildArgs_parts hargs
  rw [Spec.bootables, List.cons_append, List.mem_cons, List.mem_append, List.mem_map,
    List.mem_map] at hmem
  rcases hmem with hboot | ⟨disk, hdisk, heq⟩ | ⟨iso, hiso, heq⟩
  · cases hboot
    apply List.infix_append_of_infix_left
    apply List.infix_append_of_infix_left
    apply List.infix_append_of_infix_left
    apply List.infix_append_of_infix_left
    exact List.infix_append_right
  · cases heq
    have hown : ["-device", diskDevice q disk ++ s.bootIndex ("disk:" ++ disk.id)] <:+:
        diskArgs q s disk := ⟨["-drive", _], [], rfl⟩
    apply List.infix_append_of_infix_left
    apply List.infix_append_of_infix_right
    exact hown.trans (List.infix_of_mem_flatten (List.mem_map_of_mem hdisk))
  · cases heq
    have hown : ["-device", isoDevice q iso ++ s.bootIndex ("iso:" ++ iso.id)] <:+:
        isoArgs q s iso := ⟨["-drive", _], [], rfl⟩
    apply List.infix_append_of_infix_left
    apply List.infix_append_of_infix_left
    apply List.infix_append_of_infix_right
    exact hown.trans (List.infix_of_mem_flatten (List.mem_map_of_mem hiso))

end Indexes

/-- The two boot orders are one list: the devices of the machine, each of them once, the preferred
ones first.  Where QEMU is given it, every device that can be booted from has its place in the list
as its index. -/
theorem bootOrder_agrees (q : DriverTexts) (runDir : String) (s : Spec) (m : VMManifest)
    (args : List String) (hs : s.Boots m) (hargs : buildArgs q runDir s = .ok args) :
    bootOrder (manifestJSON m) (manifestJSON m).defaultISOs = effectiveBootOrder m ∧
      (effectiveBootOrder m).Nodup ∧
      (effectiveBootOrder m).Perm (bootDevices m).eraseDups ∧
      ((preferredOrder m).filter (· ∈ bootDevices m)).eraseDups <+: effectiveBootOrder m ∧
      (∀ device start, (device, start) ∈ s.bootables q → ∃ k : Nat,
        (effectiveBootOrder m)[k]? = some device ∧
          ["-device", start ++ ",bootindex=" ++ toString (k + 1)] <:+: args) ∧
      ∀ device ∈ effectiveBootOrder m, ∃ start, (device, start) ∈ s.bootables q := by
  refine ⟨bootOrder_eq m, nodup_effectiveBootOrder m, effectiveBootOrder_perm m, preferred_prefix m,
    fun device start hmem => ?_, fun device hdevice => ?_⟩
  · have hfst : device ∈ (s.bootables q).map Prod.fst := List.mem_map_of_mem hmem
    rw [hs.bootables, ← mem_effectiveBootOrder] at hfst
    obtain ⟨k, hk⟩ := List.getElem?_of_mem hfst
    refine ⟨k, hk, ?_⟩
    have hinfix := bootables_infix hargs hmem
    rwa [hs.bootIndex hk, ← String.append_assoc] at hinfix
  · rw [mem_effectiveBootOrder, ← hs.bootables (q := q), List.mem_map] at hdevice
    obtain ⟨⟨_, start⟩, hmem, rfl⟩ := hdevice
    exact ⟨start, hmem⟩

/-- A machine with a data disk and an ISO, of which the boot order names the disk and one that is
gone. -/
def installed : VMManifest where
  id := "vm"
  name := "vm"
  disks := [{ id := "second", name := "second", sizeGiB := 1 }]
  isos := ["installer"]
  bootOrder := ["disk:second", "disk:removed", "disk:second"]

def installedSpec : Spec where
  id := "vm"
  name := "vm"
  diskPath := "disk.qcow2"
  firmware := "edk2"
  disks := [{ id := "second", path := "second.qcow2" }]
  isos := [{ id := "installer", path := "installer.iso" }]
  bootOrder := ["disk:second", "disk", "iso:installer"]

def plainTexts : DriverTexts := ⟨id, id, fun dir name => dir ++ "/" ++ name⟩

theorem bootOrder_agrees_installed :
    bootOrder (manifestJSON installed) (manifestJSON installed).defaultISOs =
      effectiveBootOrder installed := by
  have hboots : installedSpec.Boots installed := ⟨by decide, rfl, rfl⟩
  have hargs : ∃ args, buildArgs plainTexts "run" installedSpec = .ok args := ⟨_, rfl⟩
  obtain ⟨args, hargs⟩ := hargs
  exact (bootOrder_agrees plainTexts "run" installedSpec installed args hboots hargs).1

end Maco.VM
