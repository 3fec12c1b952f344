import Maco.Engine.Machine
import Mathlib.Algebra.Group.Nat.Defs

/-! USB devices of the host: the registry of claims, attachments to running machines and the
assignments of a manifest. -/

namespace Maco.Engine

open Concurrent

def usbCall (c : USBCall) : EngineProg c.Reply := engineCall (.usb c)

def sameUSBPort (a b : Device) : Bool := a.bus = b.bus && a.port = b.port

/-- `USBDeviceID`. -/
def usbDeviceID (id : String) : String := "maco-usb-" ++ id

/-- The registry under its lock, with the claims that are stored. -/
def withRegistry {α : Type} (body : List USBClaim → EngineM α) : EngineM α :=
  locked .registry do
    body (← demand (usbCall .readClaims))

def saveClaims (claims : List USBClaim) : EngineM Unit := demand (usbCall (.saveClaims claims))

def USBClaim.withState (claim : USBClaim) (state reason : String) : USBClaim :=
  { claim with attachment := { claim.attachment with state := state, reason := reason } }

/-- The claim as `reconcile` keeps it, from what was seen of its device. -/
def USBClaim.seen (claim : USBClaim) (known : Bool) (observed : Except Message USBObservation) :
    Option USBClaim :=
  match known, observed with
  | true, .ok o =>
    if !o.exists_ then none
    else if o.attached then some (claim.withState "attached" "")
    else some (claim.withState "missing"
      "Host device is disconnected or unavailable; detach to release the assignment")
  | _, _ => some (claim.withState "unknown"
      "Could not verify QEMU attachment; ownership is retained")

/-- `reconcile` for one claim. -/
def reconcileClaim (claim : USBClaim) : EngineProg (Option USBClaim) := do
  match ← usbCall (.generation claim.runDir) with
  | .missing => return none
  | .error _ =>
    let observed ← usbCall (.observe claim.runDir claim.qemuID)
    return claim.seen false observed
  | .found generation =>
    if generation ≠ claim.generation then return none
    else if ← usbCall (.noProcess claim.pid) then return none
    else
      let observed ← usbCall (.observe claim.runDir claim.qemuID)
      return claim.seen true observed

def reconcileClaims : List USBClaim → EngineProg (List USBClaim)
  | [] => return []
  | claim :: claims => do
    let kept ← reconcileClaim claim
    let rest ← reconcileClaims claims
    return kept.toList ++ rest

/-! ### Selection -/

/-- How the device of an attachment is chosen. -/
abbrev Selector := List Device → Except Message Device

/-- The library functions on devices: `usb.Resolve` and `usb.VerifyConnection`. -/
structure Inventory where
  resolve : List Device → String → String → Except Message Device
  verifyConnection : List Device → Device → Except Message Unit

structure USBParams where
  deviceID : String := ""
  fingerprint : String := ""
  attachmentID : String := ""
  assignmentKey : String := ""

def USBParams.valid (p : USBParams) : Bool :=
  p.deviceID.utf8ByteSize = 24 && p.fingerprint.utf8ByteSize = 64 && p.attachmentID = "" &&
    p.assignmentKey = ""

/-- `%04x`. -/
def hex4 (n : UInt16) : String :=
  String.ofList (((List.range 4).reverse.map fun i => Nat.digitChar (n.toNat / 16 ^ i % 16)))

/-- `AssignmentKey`. -/
def assignmentKey (a : VMUSBAssignment) : String :=
  hex4 a.vendorID ++ ":" ++ hex4 a.productID ++ if a.serial = "" then "" else ":" ++ a.serial

def assignmentLabel (a : VMUSBAssignment) : String :=
  let label := hex4 a.vendorID ++ ":" ++ hex4 a.productID
  (if a.product = "" then label else a.product ++ " (" ++ label ++ ")") ++
    if a.serial = "" then "" else " serial " ++ a.serial

def assignmentMatchesDevice (a : VMUSBAssignment) (d : Device) : Bool :=
  a.vendorID = d.vendorID && a.productID = d.productID && (a.serial = "" || a.serial = d.serial)

def matchUSBAssignment (devices : List Device) (a : VMUSBAssignment) : Except Message Device :=
  match devices.filter (assignmentMatchesDevice a) with
  | [] => .error ("assigned USB device " ++ assignmentLabel a ++ " is not connected" : String)
  | [device] =>
    if device.state = "available" then .ok device
    else
      .error ("assigned USB device " ++ assignmentLabel a ++ " is unavailable: " ++ device.reason :
        String)
  | _ => .error ("assigned USB device " ++ assignmentLabel a ++
      " matches multiple connected devices; set a serial or connect only one" : String)

/-! ### Attachment -/

/-- `errors.Join` of an error and of what may have failed after it. -/
def joined (e : Message) : List (Except Message Unit) → Message
  | [] => e
  | .ok () :: rest => joined e rest
  | .error other :: rest => joined (e ++ (Message.text "\n" ++ other)) rest

/-- The claim with another state. -/
def USBClaim.become (claim : USBClaim) (state : String) : USBClaim :=
  { claim with attachment := { claim.attachment with state := state } }

/-- `attachUSBDevice` where the device has not been captured; where the cleanup fails as well the
claim is kept, in the given state. -/
def undoAttach (claims : List USBClaim) (claim : USBClaim) (e : Message) (state : String) :
    EngineM String := do
  let cleanup ← query (usbCall (.detach claim.runDir claim.qemuID))
  let kept := if cleanup.isOk then claims else claims ++ [claim.become state]
  let saved ← query (usbCall (.saveClaims kept))
  fail (joined e [cleanup, saved])

/-- The device is still the one that was chosen. -/
def verifyCapture (inv : Inventory) (device : Device) : EngineM Unit := do
  let fresh ← demand (usbCall .hostDevices)
  demand (return inv.verifyConnection fresh device)

/-- `attachUSBDevice` once the device is chosen and its claim is stored. -/
def captureDevice (inv : Inventory) (claims : List USBClaim) (claim : USBClaim) : EngineM String := do
  match ← query (usbCall (.attach claim.runDir claim.qemuID claim.attachment.device)) with
  | .error err => undoAttach claims claim err "unknown"
  | .ok () =>
    match ← query (verifyCapture inv claim.attachment.device).run with
    | .error err =>
      undoAttach claims claim
        (Message.text "USB identity could not be confirmed after capture: " ++ err)
        claim.attachment.state
    | .ok () =>
      saveClaims (claims ++ [claim.become "attached"])
      return claim.attachment.id

/-- `attachUSBDevice`, with the registry open. -/
def claimDevice (inv : Inventory) (e : Paths) (m : VMManifest) (select : Selector)
    (stored : List USBClaim) : EngineM String := do
  match ← query (engineCall (.qemu (e.runDir m.id) .status)) with
  | none => fail "start the VM before attaching USB devices"
  | some pid =>
    let claims ← query (reconcileClaims stored)
    let devices ← demand (usbCall .hostDevices)
    match select devices with
    | .error err => fail err
    | .ok device =>
      match claims.find? fun claim => sameUSBPort device claim.attachment.device with
      | some claim =>
        fail ("USB device is already assigned to " ++ claim.attachment.vmName : String)
      | none =>
        match ← query (usbCall (.generation (e.runDir m.id))) with
        | .missing =>
          fail ("stat " ++ e.runDir m.id ++ "/qemu.pid: no such file or directory" : String)
        | .error err => fail err
        | .found generation =>
          let id ← query (engineCall .newString)
          let claim : USBClaim := {
            attachment := { id := id, vmID := m.id, vmName := m.name, device := device,
                            state := "attaching" }
            qemuID := usbDeviceID id
            runDir := e.runDir m.id
            pid := pid
            generation := generation }
          saveClaims (claims ++ [claim])
          captureDevice inv claims claim

def attachUSBDevice (inv : Inventory) (e : Paths) (m : VMManifest) (select : Selector) :
    EngineM String :=
  lockedVM e m.id (withRegistry (claimDevice inv e m select))

def attachUSB (inv : Inventory) (e : Paths) (ref : String) (p : USBParams) : EngineM String := do
  ensureThat p.valid "select a USB device from the current inventory"
  let m ← resolveVM ref
  attachUSBDevice inv e m fun devices => inv.resolve devices p.deviceID p.fingerprint

/-- The device of a claim is detached, where the QEMU that it was attached to still runs. -/
def detachClaimed (e : Paths) (m : VMManifest) (claim : USBClaim) (generation : String) :
    EngineM Unit :=
  if generation = claim.generation then do
    onlyThen (← isRunning e m.id) (demand (usbCall (.detach (e.runDir m.id) claim.qemuID)))
  else return ()

/-- `DetachUSB`, with the registry open. -/
def releaseClaim (e : Paths) (m : VMManifest) (id : String) (claims : List USBClaim) :
    EngineM Unit := do
  match claims.find? (·.attachment.id = id) with
  | none => fail "USB attachment not found; refresh the device list"
  | some claim =>
    ensureThat (claim.attachment.vmID = m.id && claim.runDir = e.runDir m.id)
      "USB attachment does not belong to this VM"
    match ← query (usbCall (.generation claim.runDir)) with
    | .error err => fail err
    | .missing => saveClaims (claims.eraseP (·.attachment.id = id))
    | .found generation =>
      detachClaimed e m claim generation
      saveClaims (claims.eraseP (·.attachment.id = id))

def detachUSB (x : Texts) (e : Paths) (ref id : String) : EngineM Unit := do
  match x.uuid id with
  | .error _ => fail "invalid USB attachment ID"
  | .ok () =>
    let m ← resolveVM ref
    lockedVM e m.id (withRegistry (releaseClaim e m id))

/-- `ListUSBDevices` up to its view of the devices. -/
def listUSBDevices : EngineM (List Device × List USBClaim) := do
  match ← query (usbCall .hostDevices) with
  | .error _ => return ([], [])
  | .ok devices =>
    withRegistry fun stored => do
      let claims ← query (reconcileClaims stored)
      saveClaims claims
      let _ ← query (usbCall .support)
      return (devices, claims)

/-- `ListVMUSB` up to its view of the assignments. -/
def listVMUSB (e : Paths) (ref : String) : EngineM (List USBAttachment) := do
  let m ← resolveVM ref
  withRegistry fun stored => do
    let claims ← query (reconcileClaims stored)
    saveClaims claims
    return (claims.filter fun claim =>
      claim.attachment.vmID = m.id && claim.runDir = e.runDir m.id).map (·.attachment)

/-! ### Assignments -/

/-- The loop of `checkUSBAssignments`. -/
def checkAssignments (devices : List Device) (claims : List USBClaim) :
    List VMUSBAssignment → Except Message Unit
  | [] => .ok ()
  | assignment :: rest =>
    match matchUSBAssignment devices assignment with
    | .error err => .error err
    | .ok device =>
      match claims.find? fun claim => sameUSBPort device claim.attachment.device with
      | some claim =>
        .error ("assigned USB device " ++ assignmentLabel assignment ++
          " is already attached to " ++ claim.attachment.vmName : String)
      | none => checkAssignments devices claims rest

def checkUSBAssignments (m : VMManifest) : EngineM Unit := do
  if m.usb = [] then return ()
  else
    withRegistry fun stored => do
      let claims ← query (reconcileClaims stored)
      saveClaims claims
      let devices ← demand (usbCall .hostDevices)
      demand (return checkAssignments devices claims m.usb)

def attachAssignedUSB (inv : Inventory) (e : Paths) (m : VMManifest) : EngineM Unit :=
  m.usb.forM fun assignment => do
    match ← query (attachUSBDevice inv e m fun devices =>
        matchUSBAssignment devices assignment).run with
    | .ok _ => return ()
    | .error err =>
      fail (Message.text ("attach assigned USB device " ++ assignmentLabel assignment ++ ": ") ++
        err)

/-- The assignment that stands for a device. -/
def assignmentOf (device : Device) : VMUSBAssignment where
  vendorID := device.vendorID
  productID := device.productID
  serial := device.serial
  product := device.product

/-- The fingerprint of a selected device: the one given, or that of the last device of the id. -/
def selectedFingerprint (devices : List Device) (deviceID fingerprint : String) : String :=
  if fingerprint = "" then
    ((devices.filter (·.id = deviceID)).getLast?.map (·.fingerprint)).getD ""
  else fingerprint

/-- `assignUSB`, with the registry open. -/
def addAssignment (inv : Inventory) (e : Paths) (id deviceID fingerprint : String)
    (stored : List USBClaim) : EngineM VMUSBAssignment := do
  let m ← loadVM id
  let devices ← demand (usbCall .hostDevices)
  match inv.resolve devices deviceID (selectedFingerprint devices deviceID fingerprint) with
  | .error err => fail err
  | .ok device =>
    let assignment := assignmentOf device
    match matchUSBAssignment devices assignment with
    | .error err => fail err
    | .ok _ =>
      let claims ← query (reconcileClaims stored)
      match claims.find? fun claim => sameUSBPort device claim.attachment.device &&
          (claim.attachment.vmID ≠ m.id || claim.runDir ≠ e.runDir m.id) with
      | some claim =>
        fail ("USB device is already assigned to " ++ claim.attachment.vmName : String)
      | none =>
        if m.usb.any fun existing => assignmentKey existing = assignmentKey assignment then
          return assignment
        else
          save { m with usb := m.usb ++ [assignment] }
          return assignment

def assignUSB (inv : Inventory) (e : Paths) (ref deviceID fingerprint : String) :
    EngineM VMUSBAssignment := do
  let m ← resolveVM ref
  lockedVM e m.id (withRegistry (addAssignment inv e m.id deviceID fingerprint))

/-- The key names the assignment, with its serial or without. -/
def keyed (key : String) (a : VMUSBAssignment) : Bool :=
  assignmentKey a = key || hex4 a.vendorID ++ ":" ++ hex4 a.productID = key

/-- The loop of `UnassignUSB` that detaches the devices of an assignment; the rest is retained. -/
def detachMatching (e : Paths) (m : VMManifest) (a : VMUSBAssignment) :
    List USBClaim → EngineM (List USBClaim)
  | [] => return []
  | claim :: claims => do
    if claim.attachment.vmID = m.id && claim.runDir = e.runDir m.id &&
        assignmentMatchesDevice a claim.attachment.device then
      demand (usbCall (.detach (e.runDir m.id) claim.qemuID))
      detachMatching e m a claims
    else
      let rest ← detachMatching e m a claims
      return claim :: rest

/-- `UnassignUSB`, with the registry open. -/
def removeAssignment (e : Paths) (id key : String) (stored : List USBClaim) : EngineM Unit := do
  let m ← loadVM id
  match m.usb.filter (keyed key) with
  | [] => fail (.quoted "no USB assignment matches " key)
  | [matched] =>
    let claims ← query (reconcileClaims stored)
    let retained ← detachMatching e m matched claims
    saveClaims retained
    save { m with usb := m.usb.filter fun a => !keyed key a }
  | _ => fail (.quoted "ambiguous USB assignment " key ++ "; include its serial")

def unassignUSB (e : Paths) (ref key : String) : EngineM Unit := do
  let m ← resolveVM ref
  lockedVM e m.id (withRegistry (removeAssignment e m.id key))

end Maco.Engine
