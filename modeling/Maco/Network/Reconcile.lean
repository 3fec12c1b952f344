import Maco.Network.Host

/-! `Ensure`, `Reconcile` and `Destroy`: a network's manifest is applied to the host by single
commands, and what was created or attached is recorded in the manifest on the way. -/

namespace Maco.Network

open Concurrent

/-- Programs over the network calls that can fail. -/
abbrev NetM := ExceptT Message Net

/-- A program whose result says whether it failed. -/
def attempt {α : Type} (p : Net (Except Message α)) : NetM α := ExceptT.mk p

/-- A program that does not fail. -/
def ask {α : Type} (p : Net α) : NetM α := ExceptT.lift p

def refuse {α : Type} (e : Message) : NetM α := ExceptT.mk (return .error e)

/-- A call whose error is dropped. -/
def discard (c : NetCall) : Net Unit := do
  let _ ← netCall c

/-- A step that is taken under a condition. -/
def onlyIf (c : Prop) [Decidable c] (p : NetM Unit) : NetM Unit := if c then p else return ()

/-- A step that is taken when a question is answered with yes. -/
def onlyWhen (c : Net Bool) (p : NetM Unit) : NetM Unit := do
  onlyIf ((← ask c) = true) p

/-- `device != "" && Exists(device)`. -/
def existing (device : String) : Net Bool := do
  if device = "" then return false
  else netCall (.interfaceExists device)

/-- Refuse unless the interface exists. -/
def requireInterface (what name : String) : NetM Unit := do
  if ← ask (netCall (.interfaceExists name)) then return ()
  else refuse (what ++ name ++ " is missing" : String)

/-- Save a manifest, and undo what it would have recorded when that fails. -/
def saveOr (n : NetworkManifest) (undo : Net Unit) : NetM Unit := do
  match ← ask (netCall (.save n)) with
  | .ok () => return ()
  | .error e =>
    ask undo
    refuse e

/-! ### `resolveVLAN` -/

/-- The interface that has the VLAN already, if it is another than `device`; else `orElse`. -/
def borrowMatching (device parent : String) (tag : Int) (orElse : NetM (String × Bool)) :
    NetM (String × Bool) := do
  let matching ← attempt (netCall (.findVLAN parent tag))
  if matching ≠ "" ∧ matching ≠ device then return (matching, false)
  else orElse

def createConfigured (network parent : String) (tag : Int) : NetM (String × Bool) := do
  let device ← attempt (netCall (.createVLAN network))
  match ← ask (netCall (.configureVLAN device parent tag)) with
  | .ok () => return (device, true)
  | .error e =>
    ask (discard (.destroy network device))
    borrowMatching "" parent tag (refuse e)

/-- `resolveVLAN`, for a network. -/
def resolveVLAN (network device : String) (owned : Bool) (parent : String) (tag : Int) :
    NetM (String × Bool) := do
  if ← ask (existing device) then
    match ← ask (netCall (.configureVLAN device parent tag)) with
    | .ok () => return (device, owned)
    | .error e => borrowMatching device parent tag (refuse e)
  else borrowMatching "" parent tag (createConfigured network parent tag)

/-! ### `Ensure` -/

def requireBridge (device : String) : NetM Unit := do
  if ← ask (netCall (.isBridge device)) then return ()
  else refuse (device ++ " is not a native bridge" : String)

/-- `Ensure` from the checks of the device to the creation of a bridge. -/
def ensureDevice (n : NetworkManifest) : NetM NetworkManifest := do
  onlyWhen (existing n.device) (requireBridge n.device)
  if ← ask (existing n.device) then return n
  else if n.device ≠ "" ∧ n.owned = false then
    refuse ("existing bridge " ++ n.device ++ " is missing" : String)
  else
    let device ← attempt (netCall (.createBridge n.id))
    let created := { n with device, owned := true, appliedMembers := [] }
    saveOr created (discard (.destroy n.id device))
    return created

def VLAN.sameKey (v w : VLAN) : Bool := v.parent = w.parent && v.tag = w.tag

/-- The VLAN under the device that it was last applied with. -/
def lastApplied (applied : List VLAN) (vlan : VLAN) : VLAN :=
  applied.foldl (fun v a =>
    if VLAN.sameKey a v then { v with device := a.device, borrowed := a.borrowed } else v) vlan

/-- The manifest with the VLAN applied. -/
def withVLAN (n : NetworkManifest) (before : List VLAN) (vlan : VLAN) (rest : List VLAN) :
    NetworkManifest :=
  { n with
    vlans := before ++ vlan :: rest
    appliedVLANs := (n.appliedVLANs.filter fun a => !VLAN.sameKey a vlan) ++ [vlan] }

/-- The loop over the VLANs; it collects their devices after the members. -/
def ensureVLANs : List VLAN → List VLAN → List String → NetworkManifest →
    NetM (NetworkManifest × List String)
  | _, [], desired, n => return (n, desired)
  | done, vlan :: rest, desired, n => do
    let vlan := lastApplied n.appliedVLANs vlan
    requireInterface "VLAN parent " vlan.parent
    let (device, owned) ←
      resolveVLAN n.id vlan.device (!vlan.borrowed) vlan.parent vlan.tag
    let applied := { vlan with device, borrowed := !owned }
    let n := withVLAN n done applied rest
    saveOr n
      (if owned = true ∧ device ≠ vlan.device then discard (.destroy n.id device) else return ())
    attempt (netCall (.up applied.parent))
    ensureVLANs (done ++ [applied]) rest (desired ++ [device]) n

/-- The loop over the members that were applied before. -/
def detachOld (desired members : List String) : List String → NetworkManifest →
    NetM NetworkManifest
  | [], n => return n
  | previous :: rest, n => do
    if previous ∈ desired then detachOld desired members rest n
    else
      onlyIf (previous ∈ members) (attempt (netCall (.removeMember n.device previous)))
      detachOld desired members rest
        { n with appliedMembers := n.appliedMembers.filter (· ≠ previous) }

def attachMember (members : List String) (member : String) (n : NetworkManifest) :
    NetM NetworkManifest := do
  if member ∈ members then return n
  else
    attempt (netCall (.addMember n.device member))
    if member ∈ n.appliedMembers then return n
    else
      let attached := { n with appliedMembers := n.appliedMembers ++ [member] }
      saveOr attached (discard (.removeMember n.device member))
      return attached

/-- The loop over the members that are wanted. -/
def attachDesired (members : List String) : List String → NetworkManifest → NetM NetworkManifest
  | [], n => return n
  | member :: rest, n => do
    requireInterface "bridge member " member
    let n ← attachMember members member n
    attempt (netCall (.up member))
    attachDesired members rest n

/-- Destroy a VLAN interface that was created, if it is there. -/
def destroyVLAN (network : String) (applied : VLAN) : NetM Unit :=
  onlyIf (applied.borrowed = false) <|
    onlyWhen (netCall (.interfaceExists applied.device))
      (attempt (netCall (.destroy network applied.device)))

/-- The loop over the VLANs that were applied and are no longer wanted. -/
def dropVLANs (desired : List String) : List VLAN → NetworkManifest → NetM NetworkManifest
  | [], n => return n
  | applied :: rest, n => do
    if applied.device ∈ desired then dropVLANs desired rest n
    else
      destroyVLAN n.id applied
      let n := { n with appliedVLANs := n.appliedVLANs.filter fun v => v.device ≠ applied.device }
      attempt (netCall (.save n))
      dropVLANs desired rest n

def dropAddress (n : NetworkManifest) : NetM NetworkManifest := do
  if n.appliedAddress ≠ "" ∧ n.appliedAddress ≠ n.address then
    attempt (removeAddress n.device n.appliedAddress)
    return { n with appliedAddress := "" }
  else return n

def ensureAddress (n : NetworkManifest) : NetM NetworkManifest := do
  if n.address = "" then return n
  else if ← ask (netCall (.hasAddress n.device n.address)) then return n
  else
    attempt (netCall (.setAddress n.device n.address))
    return { n with appliedAddress := n.address }

/-- `Ensure` for a bridge, under the lock. -/
def applyBridge (n : NetworkManifest) : NetM NetworkManifest := do
  n.members.forM (requireInterface "bridge member ")
  n.vlans.forM fun vlan => requireInterface "VLAN parent " vlan.parent
  let n ← ensureDevice n
  let (n, desired) ← ensureVLANs [] n.vlans n.members n
  let members ← attempt (netCall (.bridgeMembers n.device))
  let n ← detachOld desired members n.appliedMembers n
  let n ← attachDesired members desired n
  let n ← dropVLANs desired n.appliedVLANs n
  let n ← dropAddress n
  let n ← ensureAddress n
  attempt (netCall (.up n.device))
  attempt (netCall (.save n))
  return n

/-- `ensureVLAN`, under the lock. -/
def applyVLAN (n : NetworkManifest) : NetM NetworkManifest := do
  requireInterface "VLAN parent " n.parent
  let (device, owned) ← resolveVLAN n.id n.device n.owned n.parent n.tag
  let applied := { n with device, owned }
  saveOr applied
    (if owned = true ∧ device ≠ n.device then discard (.destroy n.id device) else return ())
  attempt (netCall (.up n.parent))
  attempt (netCall (.up device))
  attempt (netCall (.save applied))
  return applied

def underLock {α : Type} (body : NetM α) : NetM α := do
  attempt (netCall .lock)
  let result ← ask body.run
  ask (netCall .unlock)
  ExceptT.mk (return result)

/-- The manifest as it is stored, read again under the lock. -/
def reload (id : String) (mode : NetworkMode) : NetM NetworkManifest := do
  let current ← attempt (netCall (.load id))
  if current.mode ≠ mode then refuse ("network mode changed during apply; retry" : String)
  else return current

def ensure (n : NetworkManifest) (dryRun : Bool) : NetM NetworkManifest :=
  match n.mode with
  | .vlan =>
    underLock do
      let n ← reload n.id .vlan
      if dryRun then return n else applyVLAN n
  | .bridged | .vmnetBridged => do
    if ← ask (netCall (.interfaceExists n.uplink)) then return n
    else refuse ("physical uplink " ++ n.uplink ++ " is missing" : String)
  | .bridge =>
    underLock do
      let n ← reload n.id .bridge
      if dryRun then return n else applyBridge n
  | _ => return n

/-- `Reconcile` over the networks of the store. -/
def reconcileAll (dryRun : Bool) : List NetworkManifest → NetM Unit
  | [] => return ()
  | n :: networks => do
    match ← ask (ensure n dryRun).run with
    | .ok _ => reconcileAll dryRun networks
    | .error e => refuse (Message.text ("network " ++ n.name ++ ": ") ++ e)

def reconcile (dryRun : Bool) : NetM Unit := do
  reconcileAll dryRun (← attempt (netCall .list))

/-! ### `Destroy` -/

/-- The bridge has a member that keeps it from being taken apart. -/
def stillUsed (n : NetworkManifest) (member : String) : Bool :=
  member ∉ n.appliedMembers && (n.owned || "feth".toList.isPrefixOf member.toList)

/-- `Destroy` of the members that were applied. -/
def detachApplied (n : NetworkManifest) : NetM Unit := do
  requireBridge n.device
  let members ← attempt (netCall (.bridgeMembers n.device))
  match members.find? (stillUsed n) with
  | some member =>
    refuse ("bridge " ++ n.device ++ " still has unmanaged or active VM member " ++ member : String)
  | none =>
    (n.appliedMembers.filter (· ∈ members)).forM fun member =>
      attempt (netCall (.removeMember n.device member))

/-- `Destroy` for a bridge. -/
def destroyBridge (n : NetworkManifest) : NetM Unit := do
  onlyWhen (netCall (.interfaceExists n.device)) (detachApplied n)
  n.appliedVLANs.forM fun vlan => onlyIf (vlan.device ≠ "") (destroyVLAN n.id vlan)
  onlyIf (n.owned = false ∧ n.appliedAddress ≠ "") <|
    onlyWhen (netCall (.interfaceExists n.device))
      (attempt (removeAddress n.device n.appliedAddress))
  onlyIf (n.owned = true) <|
    onlyWhen (netCall (.interfaceExists n.device)) (attempt (netCall (.destroy n.id n.device)))

def destroy (n : NetworkManifest) : NetM Unit :=
  match n.mode with
  | .vlan =>
    onlyIf (n.owned = true) <| onlyWhen (existing n.device) (attempt (netCall (.destroy n.id n.device)))
  | .bridge => destroyBridge n
  | _ => return ()

end Maco.Network
