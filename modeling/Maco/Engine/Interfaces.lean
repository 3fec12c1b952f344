import Maco.Engine.Machine

/-! `ManageInterface`, restores, backups and snapshots. -/

namespace Maco.Engine

open Concurrent Network VM

structure InterfaceParams where
  id : String := ""
  network : String := ""
  mac : String := ""

/-- The network of an interface as the manifest is to have it. -/
def normalizedNetwork (ref : String) : EngineM String := do
  if ref = "" then return "user"
  else if builtin ref then return ref
  else
    let n ← resolveNet ref
    ensureThat (n.mode ≠ .vlan) "connect to a bridge containing the VLAN"
    return n.id

/-- The loop of `normalizedInterfaces`, with the ids and addresses seen so far. -/
def normalizeAll (x : Texts) (vmID : String) :
    List String → List String → List VMInterface → EngineM (List VMInterface)
  | _, _, [] => return []
  | ids, macs, nic :: nics => do
    ensureThat (validNetworkID nic.id && nic.id ∉ ids) "invalid or duplicate interface ID"
    let given := if nic.mac = "" then interfaceMAC x.mac vmID nic.id else nic.mac
    match x.unicastMAC given with
    | none => fail "interface MAC must be a unicast Ethernet address"
    | some mac =>
      ensureThat (mac ∉ macs) "duplicate interface MAC"
      let network ← normalizedNetwork nic.network
      let rest ← normalizeAll x vmID (nic.id :: ids) (mac :: macs) nics
      return { nic with mac, network } :: rest

def normalizedInterfaces (x : Texts) (m : VMManifest) : EngineM (List VMInterface) := do
  ensureThat (m.effectiveInterfaces.length ≤ 32) "at most 32 interfaces are supported"
  normalizeAll x m.id [] [] m.effectiveInterfaces

def resolveNetwork (e : Paths) (ref : String) : EngineM InterfaceSpec := do
  if ref = "" || ref = "user" then return { network := .user }
  else if ref = "vmnet-host" then return { network := .vmnetHost }
  else if ref = "vmnet-shared" then return { network := .vmnetShared }
  else
    match ← query (resolveNet ref).run with
    | .error err => fail (.quoted "resolve network " ref ++ ": " ++ err)
    | .ok n =>
      let n ← if n.mode = .bridge then network e (ensure n false) else pure n
      demand (return specOf n)

/-- The first name `netN` that is free. -/
def freeInterfaceID (interfaces : List VMInterface) : Option String :=
  ((List.range 32).map fun i => "net" ++ toString i).find? fun id =>
    interfaces.all (·.id ≠ id)

/-- The interfaces after an update of the first one of an id. -/
def updateFirst (p : InterfaceParams) : List VMInterface → List VMInterface
  | [] => []
  | nic :: nics =>
    if nic.id = p.id then
      { nic with network := p.network, mac := if p.mac = "" then nic.mac else p.mac } :: nics
    else nic :: updateFirst p nics

/-- The interfaces that an action asks for, and the id that it changes. -/
def changedInterfaces (action : String) (p : InterfaceParams) (interfaces : List VMInterface) :
    Except Message (String × List VMInterface) :=
  if action = "vm.interface.add" then
    match freeInterfaceID interfaces with
    | none => .error "at most 32 interfaces are supported"
    | some id => .ok (id, interfaces ++ [{ id := id, network := p.network, mac := p.mac }])
  else if action = "vm.interface.update" || action = "vm.interface.remove" then
    if interfaces.all (·.id ≠ p.id) then .error "interface not found"
    else if action = "vm.interface.remove" then .ok (p.id, interfaces.eraseP (·.id = p.id))
    else .ok (p.id, updateFirst p interfaces)
  else .error "unknown interface action"

/-- The manifest with the interfaces, and with the older fields for the first of them. -/
def withInterfaces (m : VMManifest) (interfaces : List VMInterface) : VMManifest :=
  { m with
    interfaces := some interfaces
    network := (interfaces.head?.map (·.network)).getD ""
    addresses := (interfaces.head?.map (·.addresses)).getD [] }

/-- The spec of the interface that changes, among the given ones. -/
def resolveChanged (e : Paths) (id : String) (interfaces : List VMInterface) :
    EngineM (Option InterfaceSpec) := do
  match interfaces.find? (·.id = id) with
  | none => return none
  | some nic =>
    let spec ← resolveNetwork e nic.network
    return some { spec with id := nic.id, mac := nic.mac, reference := nic.network }

/-- The network of a changed interface is still there. -/
def checkReference (nic : Option InterfaceSpec) : EngineM Unit := do
  match nic with
  | none => return ()
  | some nic =>
    if builtin nic.reference then return ()
    else
      match ← query (resolveNet nic.reference).run with
      | .ok _ => return ()
      | .error err => fail (Message.text "network changed before hotplug: " ++ err)

/-- A change of a running machine's interface, with the manifest that goes with it. -/
def hotplugInterface (x : Texts) (e : Paths) (m : VMManifest) (before after : Option InterfaceSpec) :
    EngineM Unit := do
  let site : Site := { runDir := e.runDir m.id, vmID := m.id, mac := x.mac }
  match ← query ((changeInterface site before after).lift (ofHotplug (e.runDir m.id) m)
      (fromHotplug (e.runDir m.id) m)) with
  | .ok () => return ()
  | .error err => fail err.text

/-- `ManageInterfaceContext` once the changed interfaces are known to be in order. -/
def commitInterfaces (x : Texts) (e : Paths) (changed : String) (previous : List VMInterface)
    (m : VMManifest) : EngineM Unit := do
  if ← isRunning e m.id then
    let before ← resolveChanged e changed previous
    let after ← resolveChanged e changed m.effectiveInterfaces
    locked .nets do
      checkReference before
      checkReference after
      if before.isSome && before = after then save m
      else hotplugInterface x e m before after
  else save m

/-- Refuse while a running machine has a change of its interfaces that has not finished. -/
def requireSettled (e : Paths) (id : String) : EngineM Unit := do
  if ← isRunning e id then
    let refs ← demand (engineCall (.qemu (e.runDir id) .pendingReferences))
    ensureThat (refs = []) (errNetworkStateUncertain : String)
  else return ()

/-- `ManageInterfaceContext` under the lock; the reference is resolved again. -/
def changeInterfaces (x : Texts) (e : Paths) (ref action : String) (p : InterfaceParams) :
    EngineM Unit := do
  let m ← resolveVM ref
  requireSettled e m.id
  let previous := (exposeInterfaces x.mac m).effectiveInterfaces
  match changedInterfaces action p previous with
  | .error err => fail err
  | .ok (changed, interfaces) =>
    let normalized ← normalizedInterfaces x { m with interfaces := some interfaces }
    commitInterfaces x e changed previous (withInterfaces m normalized)

def manageInterface (x : Texts) (e : Paths) (ref action : String) (p : InterfaceParams) :
    EngineM Unit := do
  let m ← resolveVM ref
  lockedVM e m.id (changeInterfaces x e ref action p)

/-! ### Restores, backups and snapshots -/

def restoreStep (c : RestoreCall) : EngineProg c.Reply :=
  (restoreCall c).lift ofRestore fromRestore

/-- `restoreInPlace`, under the lock. -/
def replaceVM (x : Texts) (e : Paths) (id timestamp : String) (restored : VMManifest)
    (disks : List String) : EngineM VMManifest :=
  lockedVM e id do
    ensureThat (!(← isRunning e id)) "vm is running; stop it before restoring"
    demand (restoreStep .mkdirTemp)
    let result ← query ((replaceDisks id timestamp restored disks).lift ofRestore fromRestore)
    query (restoreStep .removeStaging)
    demand (return result)
    return exposeInterfaces x.mac { restored with id := id }

/-- The manifest of a restored copy before its interfaces are filled in. -/
def copyOf (m : VMManifest) (id name : String) : VMManifest :=
  { m with
    id := id
    name := name
    autostart := false
    interfaces := m.interfaces.map (·.map fun nic => { nic with mac := "" }) }

/-- `restoreAsNew`. -/
def restoreCopy (x : Texts) (id timestamp : String) (restored : VMManifest) (disks : List String) :
    EngineM VMManifest := do
  let fresh ← query (engineCall .newString)
  let name ← query (engineCall (.vms (.uniqueVMName (restored.name ++ "-restored"))))
  demand (restoreStep .mkdirTemp)
  let copy := exposeInterfaces x.mac (copyOf restored fresh name)
  match ← query ((copyDisks id timestamp disks).lift ofRestore fromRestore) with
  | .error err =>
    query (restoreStep .removeStaging)
    fail err
  | .ok () =>
    match ← query (save copy).run with
    | .error err =>
      query (restoreStep .removeStaging)
      fail err
    | .ok () =>
      match ← query (restoreStep (.renameStaging fresh)) with
      | .ok () => return copy
      | .error err =>
        let _ ← query (engineCall (.vms (.delete fresh)))
        query (restoreStep .removeStaging)
        fail err

/-- `RestoreVM`. -/
def restoreMachine (x : Texts) (e : Paths) (ref timestamp : String) (asNew : Bool) :
    EngineM VMManifest := do
  ensureThat (backupTimestamp timestamp) "invalid backup id"
  let m ← resolveVM ref
  match ← demand (restoreStep (.readDir m.id timestamp)) with
  | none => fail ("backup " ++ timestamp ++ " not found" : String)
  | some names =>
    let disks := names.filter isDisk
    ensureThat (disks ≠ []) ("backup " ++ timestamp ++ " has no disks" : String)
    let data ← demand (restoreStep (.readManifest m.id timestamp))
    match x.manifest.parse data with
    | .error err => fail ("parse backup manifest: " ++ err : String)
    | .ok restored =>
      if asNew then restoreCopy x m.id timestamp restored disks
      else replaceVM x e m.id timestamp restored disks

def backupVM (e : Paths) (ref : String) : EngineM Unit := do
  let m ← resolveVM ref
  lockedVM e m.id do
    let m ← loadVM m.id
    let _ ← isRunning e m.id
    perform (.backUp m.id)

/-- `CreateSnapshot`, `RestoreSnapshot` and `DeleteSnapshot`. -/
def changeSnapshot (e : Paths) (ref action tag : String) : EngineM Unit := do
  ensureThat (snapshotTag tag) (if action = "create" then
    "snapshot name must be 1 to 128 characters of letters, digits, dot, dash or underscore"
    else "invalid snapshot name")
  let m ← resolveVM ref
  lockedVM e m.id (perform (.snapshot m.id action tag))

end Maco.Engine
