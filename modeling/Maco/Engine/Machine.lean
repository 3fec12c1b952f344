import Maco.Engine.Call

/-! The operations on virtual machines, except for those that start and stop them. -/

namespace Maco.Engine

open Concurrent Network VM

/-- The functions of texts that the engine takes from libraries: `net.ParseCIDR`, `uuid.Parse` with
its error, `MAC`, and `net.ParseMAC` with the canonical text of a unicast Ethernet address. -/
structure Texts where
  cidr : String → Bool
  uuid : String → Except String Unit
  mac : String → String
  unicastMAC : String → Option String
  manifest : ManifestFormat

/-- `^[A-Za-z0-9][A-Za-z0-9._-]{0,n}$`. -/
def nameUpTo (n : Nat) (name : String) : Bool :=
  match name.toList with
  | [] => false
  | c :: cs => (isLetter c || isDigit c) && cs.length ≤ n &&
    cs.all fun d => isLetter d || isDigit d || d = '.' || d = '_' || d = '-'

def vmName (name : String) : Bool := nameUpTo 62 name

def snapshotTag (tag : String) : Bool := nameUpTo 127 tag

/-- White space of `strings.TrimSpace`. -/
def isSpace (c : Char) : Bool :=
  c ∈ ['\t', '\n', '\x0b', '\x0c', '\r', ' ', '\x85', '\xa0', '\u1680', '\u2028', '\u2029',
    '\u202f', '\u205f', '\u3000'] || ('\u2000' ≤ c && c ≤ '\u200a')

def trimSpace (s : String) : String :=
  String.ofList ((s.toList.dropWhile isSpace).reverse.dropWhile isSpace).reverse

/-- The networks that are no manifests. -/
def builtin (ref : String) : Bool := ref = "user" || ref = "vmnet-shared" || ref = "vmnet-host"

/-- `Status(id).Phase == PhaseRunning`. -/
def isRunning (e : Paths) (id : String) : EngineM Bool := do
  return (← query (engineCall (.qemu (e.runDir id) .status))).isSome

def resolveVM (ref : String) : EngineM VMManifest := demand (engineCall (.vms (.resolve ref)))

def loadVM (id : String) : EngineM VMManifest := demand (engineCall (.vms (.load id)))

def resolveNet (ref : String) : EngineM NetworkManifest := demand (engineCall (.nets (.resolve ref)))

/-- The lifecycle lock of a machine. -/
def lockedVM {α : Type} (e : Paths) (id : String) (body : EngineM α) : EngineM α :=
  locked (.vm (e.runDir id)) body

/-- `OpenDB`. -/
def openDB (e : Paths) : EngineM Unit :=
  locked (.sharedMu e.proc) do
    if ← query (engineCall (.databaseOpen e.proc)) then return ()
    else locked .initDB (perform .openDB)

/-! ### Media -/

def getMedia (x : Texts) (id : String) : EngineM Media := do
  match x.uuid id with
  | .error _ => fail "invalid media ID"
  | .ok () => demand (engineCall (.getMedia id))

def validateISOs (x : Texts) : List String → List String → EngineM Unit
  | [], _ => return ()
  | id :: isos, seen => do
    let m ← getMedia x id
    ensureThat (m.kind = "iso" && id ∉ seen) "invalid or duplicate ISO"
    validateISOs x isos (id :: seen)

def validateMedia (x : Texts) (isos order : List String) (disks : List VMDisk) : EngineM Unit := do
  validateISOs x isos []
  let valid := "disk" :: isos.map ("iso:" ++ ·) ++ disks.map ("disk:" ++ ·.id)
  ensureThat (order.all (· ∈ valid) && decide order.Nodup) "invalid or duplicate boot device"

/-- `imageBase`: the image that a disk is made from, if there is one. -/
def imageBase (x : Texts) (ref : String) (pull : Bool) : EngineM (Option String) := do
  if "media:".toList.isPrefixOf ref.toList then
    let id := String.ofList (ref.toList.drop "media:".length)
    let m ← getMedia x id
    ensureThat (m.kind = "image") "boot image must be a disk image"
    return some id
  else
    perform (.lookupImage ref)
    if pull then
      perform (.pullImage ref)
      return some ref
    else return none

/-- `CreateMedia` of an empty image or of an ISO. -/
def createMedia (name : String) (size : Int) (iso : Bool) : EngineM Media := do
  let id ← query (engineCall .newString)
  ensureThat (trimSpace name ≠ "") "name is required"
  ensureThat (iso || (1 ≤ size && size ≤ 65536)) "size must be between 1 and 65536 GiB"
  let m : Media := { id := id, name := trimSpace name,
                     kind := if iso then "iso" else "image", sizeGiB := if iso then 0 else size }
  perform (.makeMedia m)
  perform (.saveMedia m)
  return m

/-- `UploadImage`; the size is the virtual one of the image, where there is room to convert it. -/
def uploadImage (name : String) : EngineM Media := do
  let id ← query (engineCall .newString)
  ensureThat (trimSpace name ≠ "") "name is required"
  perform (.receiveUpload id)
  let size ← demand (engineCall (.inspectUpload id))
  perform (.convertUpload id)
  let m : Media := { id := id, name := trimSpace name, kind := "image", sizeGiB := size }
  perform (.saveMedia m)
  return m

/-- The media that a manifest refers to: a `media:` image and the ISOs. -/
def mediaRefs (m : VMManifest) : List String :=
  if "media:".toList.isPrefixOf m.image.toList then
    String.ofList (m.image.toList.drop "media:".length) :: m.isos
  else m.isos

/-- `Store.List`, with the directory read before the manifests. -/
def loadEntries : List String → EngineM (List VMManifest)
  | [] => return []
  | id :: ids => do
    let m ← loadVM id
    let rest ← loadEntries ids
    return m :: rest

/-- The media that disks of a machine are backed by. -/
def backings (id : String) : List VMDisk → EngineM (List String)
  | [] => return []
  | disk :: disks => do
    let backing ← query (engineCall (.backingMedia id disk.id))
    let rest ← backings id disks
    return backing.toList ++ rest

/-- `usedMedia` over the machines. -/
def mediaUsedBy : List VMManifest → EngineM (List String)
  | [] => return []
  | m :: vms => do
    let backing ← backings m.id m.disks
    let rest ← mediaUsedBy vms
    return mediaRefs m ++ backing ++ rest

def usedMedia : EngineM (List String) := do
  let ids ← demand (engineCall (.vms .entries))
  let vms ← loadEntries ids
  mediaUsedBy vms

def deleteMedia (x : Texts) (id : String) : EngineM Unit :=
  locked .media do
    let _ ← getMedia x id
    let used ← usedMedia
    ensureThat (id ∉ used) "media is in use by a virtual machine"
    perform (.removeMedia id)

structure MediaSettings where
  isos : List String
  bootOrder : List String

def updateMedia (x : Texts) (e : Paths) (ref : String) (settings : MediaSettings) : EngineM Unit := do
  let m ← resolveVM ref
  lockedVM e m.id do
    ensureThat (!(← isRunning e m.id)) "stop the VM before changing media"
    let m ← loadVM m.id
    locked .media do
      validateMedia x settings.isos settings.bootOrder m.disks
      save { m with isos := settings.isos, bootOrder := settings.bootOrder }

/-! ### Creation and deletion -/

structure CreateVMParams where
  name : String
  image : String := ""
  cpus : Int := 1
  memoryMiB : Int := 64
  diskSizeGiB : Int := 1
  network : String := ""
  addresses : List String := []
  isos : List String := []
  bootOrder : List String := []
  username : String := ""
  password : String := ""
  sshKey : String := ""
  autostart : Bool := false

/-- The id of a network that a machine refers to. -/
def networkRef (ref : String) : EngineM String := do
  if ref = "" || builtin ref then return ref
  else
    match ← query (resolveNet ref).run with
    | .ok n => return n.id
    | .error e => fail (.quoted "resolve network " ref ++ ": " ++ e)

/-- The manifest of a new machine. -/
def newMachine (params : CreateVMParams) (id network : String) : VMManifest where
  isos := params.isos
  bootOrder := params.bootOrder
  id := id
  name := params.name
  image := params.image
  cpus := params.cpus
  memoryMiB := params.memoryMiB
  diskSizeGiB := params.diskSizeGiB
  network := network
  addresses := params.addresses
  username := params.username
  password := params.password
  sshKey := params.sshKey
  autostart := params.autostart

def createVM (x : Texts) (params : CreateVMParams) : EngineM VMManifest := do
  ensureThat (vmName params.name)
    "name must be 1 to 63 characters of letters, digits, dot, dash or underscore"
  params.addresses.forM fun address =>
    ensureThat (x.cidr address) (.quoted "address " address ++ " must use CIDR notation")
  ensureThat (if params.image = "" then params.isos.length = 1 else params.isos.length = 0)
    "select either one image or one installation ISO"
  locked .media do
    onlyThen (params.image ≠ "") (do let _ ← imageBase x params.image false)
    let network ← networkRef params.network
    validateMedia x params.isos params.bootOrder []
    let id ← query (engineCall .newString)
    let m := exposeInterfaces x.mac (newMachine params id network)
    save m
    return m

def deleteVM (e : Paths) (ref : String) : EngineM Unit := do
  let m ← resolveVM ref
  lockedVM e m.id do
    let m ← loadVM m.id
    ensureThat (!(← isRunning e m.id)) ("vm " ++ m.name ++ " is running; stop it first" : String)
    perform (.removeDisks m.id)
    perform (.removePreview m.id)
    demand (engineCall (.vms (.delete m.id)))
    openDB e
    perform (.deleteBackupSchedule m.id)
    perform (.deleteVMState m.id)

/-! ### Schedules -/

structure ScheduleParams where
  enabled : Bool := false
  intervalHours : Int := 0
  keepLast : Int := 0
  maxAgeDays : Int := 0

def getSchedule (e : Paths) (ref : String) : EngineM BackupSchedule := do
  let m ← resolveVM ref
  openDB e
  match ← demand (engineCall (.getBackupSchedule m.id)) with
  | none => return { vmID := m.id, intervalHours := 24 }
  | some schedule => return schedule

def setSchedule (e : Paths) (ref : String) (params : ScheduleParams) : EngineM BackupSchedule := do
  ensureThat (!params.enabled || 1 ≤ params.intervalHours) "interval must be at least 1 hour"
  ensureThat (0 ≤ params.keepLast && 0 ≤ params.maxAgeDays) "retention limits cannot be negative"
  let m ← resolveVM ref
  openDB e
  perform (.setBackupSchedule {
    vmID := m.id
    enabled := params.enabled
    intervalHours := if params.intervalHours < 1 then 24 else params.intervalHours
    keepLast := params.keepLast
    maxAgeDays := params.maxAgeDays })
  getSchedule e m.id

def markScheduleRun (e : Paths) (id : String) (now : Int) : EngineM Unit := do
  openDB e
  perform (.markBackupScheduleRun id now)

/-! ### Hardware and disks -/

structure UpdateHardwareParams where
  autostart : Option Bool := none
  cpus : Option Int := none
  memoryMiB : Option Int := none
  diskSizeGiB : Option Int := none

/-- `resizeDisk`: a running machine's disk is grown by QEMU. -/
def resizeDisk (e : Paths) (id disk : String) (size : Int) : EngineM Unit := do
  perform (.resizeDisk (← isRunning e id) id disk size)

/-- `UpdateHardware` where the boot disk is to be resized. -/
def resizeBootDisk (e : Paths) (m : VMManifest) (size : Int) : EngineM Unit := do
  ensureThat (m.diskSizeGiB ≤ size) "disk shrinking is not supported"
  if ← demand (engineCall (.statDisk m.id "disk")) then resizeDisk e m.id "disk" size
  else return ()

def updateHardware (e : Paths) (ref : String) (params : UpdateHardwareParams) : EngineM Unit := do
  let m ← resolveVM ref
  lockedVM e m.id do
    let m ← loadVM m.id
    onlyThen (params.cpus.isSome || params.memoryMiB.isSome) do
      ensureThat (!(← isRunning e m.id)) "stop the VM before changing CPU or memory"
    ensureThat (params.cpus.all (1 ≤ ·)) "CPUs must be at least 1"
    ensureThat (params.memoryMiB.all (64 ≤ ·)) "memory must be at least 64 MiB"
    onlyFor params.diskSizeGiB (resizeBootDisk e m)
    save { m with
      cpus := params.cpus.getD m.cpus
      memoryMiB := params.memoryMiB.getD m.memoryMiB
      diskSizeGiB := params.diskSizeGiB.getD m.diskSizeGiB
      autostart := params.autostart.getD m.autostart }

structure DiskParams where
  imageID : String := ""
  id : String := ""
  name : String := ""
  sizeGiB : Int := 0

/-- The first disk of an id has the size. -/
def growFirst (id : String) (size : Int) : List VMDisk → List VMDisk
  | [] => []
  | disk :: disks =>
    if disk.id = id then { disk with sizeGiB := size } :: disks
    else disk :: growFirst id size disks

/-- `addDataDisk` where QEMU does not take the new disk. -/
def undoDisk (m : VMManifest) (disk : String) (e : DiskError) : EngineM Unit := do
  match ← query (save m).run with
  | .error saveErr => fail (Message.text "attach disk: " ++ e.text ++ "; restore manifest: " ++ saveErr)
  | .ok () =>
    onlyThen (!e.backendOpen) (ignore (.removeDisk m.id disk))
    fail e.text

/-- `addDataDisk` once the image is known. -/
def addDiskFrom (e : Paths) (m : VMManifest) (base : Option String) (params : DiskParams)
    (id : String) : EngineM Unit := do
  match ← query (engineCall (.step (.createDisk m.id id base params.sizeGiB))) with
  | .error err =>
    ignore (.removeDisk m.id id)
    fail (Message.text "create data disk: " ++ err)
  | .ok () =>
    let disk : VMDisk := { id := id, name := trimSpace params.name, sizeGiB := params.sizeGiB }
    match ← query (save { m with disks := m.disks ++ [disk] }).run with
    | .error err =>
      ignore (.removeDisk m.id id)
      fail err
    | .ok () =>
      if ← isRunning e m.id then
        match ← query (engineCall (.attachDisk (e.runDir m.id) id)) with
        | .error err => undoDisk m id err
        | .ok () => return ()
      else return ()

def addDataDisk (x : Texts) (e : Paths) (m : VMManifest) (params : DiskParams) : EngineM Unit := do
  ensureThat (1 ≤ params.sizeGiB && trimSpace params.name ≠ "")
    "disk name and capacity of at least 1 GiB are required"
  let id ← query (engineCall .newString)
  if params.imageID = "" then addDiskFrom e m none params id
  else
    locked .media do
      let media ← getMedia x params.imageID
      ensureThat (media.kind = "image" && media.sizeGiB ≤ params.sizeGiB)
        "select a disk image and sufficient capacity"
      addDiskFrom e m (some params.imageID) params id

def growDisk (e : Paths) (m : VMManifest) (disk : VMDisk) (size : Int) : EngineM Unit := do
  ensureThat (disk.sizeGiB < size)
    ("new capacity must be larger than " ++ toString disk.sizeGiB ++ " GiB" : String)
  resizeDisk e m.id disk.id size
  save { m with disks := growFirst disk.id size m.disks }

def removeDataDisk (e : Paths) (m : VMManifest) (disk : VMDisk) : EngineM Unit := do
  ensureThat (!(← isRunning e m.id)) "stop the VM before removing disks"
  perform (.setDiskAside m.id disk.id)
  let removed := { m with
    disks := m.disks.eraseP (·.id = disk.id)
    bootOrder := m.bootOrder.filter (· ≠ "disk:" ++ disk.id) }
  match ← query (save removed).run with
  | .ok () => perform (.removeAside m.id disk.id)
  | .error err =>
    match ← query (engineCall (.step (.bringDiskBack m.id disk.id))) with
    | .error restoreErr =>
      fail (Message.text "save disk removal: " ++ err ++ "; restore disk: " ++ restoreErr)
    | .ok () => fail err

def manageDisk (x : Texts) (e : Paths) (ref action : String) (params : DiskParams) :
    EngineM Unit := do
  let m ← resolveVM ref
  lockedVM e m.id do
    let m ← loadVM m.id
    if action = "vm.disk.add" then addDataDisk x e m params
    else
      match m.disks.find? (·.id = params.id) with
      | none => fail "data disk not found; the boot disk cannot be removed"
      | some disk =>
        match x.uuid disk.id with
        | .error err => fail ("invalid disk ID: " ++ err : String)
        | .ok () =>
          if action = "vm.disk.grow" then growDisk e m disk params.sizeGiB
          else if action = "vm.disk.remove" then removeDataDisk e m disk
          else fail "unknown disk action"

end Maco.Engine
