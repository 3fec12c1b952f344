import Maco.Network.Rules

/-! The network operations of the engine: create, apply, update and destroy. -/

namespace Maco.Engine

open Concurrent Network

structure CreateNetworkParams where
  name : String := ""
  mode : String := ""
  uplink : String := ""
  parent : String := ""
  tag : Int := 0
  address : String := ""
  device : String := ""
  members : List String := []
  vlans : List VLAN := []
  deriving DecidableEq, Repr

/-- The fields of a new network that depend on its mode; `mcastGroup` is the group of a switch. -/
def withModeFields (mcastGroup : String → String) (params : CreateNetworkParams)
    (n : NetworkManifest) : NetM NetworkManifest :=
  match n.mode with
  | .switch => return { n with group := mcastGroup n.id }
  | .bridged | .vmnetBridged =>
    if params.uplink = "" then
      refuse "vmnet-bridged network requires an uplink (e.g. en0)"
    else return { n with uplink := params.uplink }
  | .vlan =>
    if params.parent = "" ∨ params.tag < 1 ∨ 4094 < params.tag then
      refuse "vlan network requires a parent interface and a tag between 1 and 4094"
    else return n
  | _ => return n

def newNetwork (params : CreateNetworkParams) (mode id : String) : NetworkManifest where
  id := id
  name := params.name
  mode := .ofString mode
  address := params.address
  device := params.device
  members := params.members
  vlans := params.vlans
  parent := params.parent
  tag := params.tag

/-- `CreateNetwork` where the new network could not be applied. -/
def rollBackNetwork (id : String) (e : Message) : NetM NetworkManifest := do
  match ← ask (netCall (.load id)) with
  | .error loadErr =>
    refuse (Message.text "apply network: " ++ e ++ " (reload for rollback: " ++ loadErr ++ ")")
  | .ok current =>
    match ← ask (Network.destroy current).run with
    | .error cleanupErr =>
      refuse (Message.text "apply network: " ++ e ++
        (" (rollback failed; retained manifest " ++ id ++ ": " : String) ++ cleanupErr ++ ")")
    | .ok () =>
      match ← ask (netCall (.delete id)) with
      | .error cleanupErr =>
        refuse (Message.text "apply network: " ++ e ++ " (remove failed manifest: " ++ cleanupErr ++
          ")")
      | .ok () => refuse (Message.text "apply network: " ++ e)

/-- `CreateNetwork` once the name is known to be free. -/
def createWith (mcastGroup : String → String) (params : CreateNetworkParams) (mode : String) :
    NetM NetworkManifest := do
  if mode ≠ "bridged" ∧ mode ≠ "vmnet-bridged" ∧ params.uplink ≠ "" then
    refuse "uplink requires vmnet-bridged mode; use members for a native bridge"
  else
    let id ← ask (netCall .newString)
    let n ← withModeFields mcastGroup params (newNetwork params mode id)
    attempt (netCall (.save n))
    match ← ask (ensure n false).run with
    | .ok n => return n
    | .error e => rollBackNetwork n.id e

def createNetwork (mcastGroup : String → String) (params : CreateNetworkParams) :
    NetM NetworkManifest := do
  if params.name = "user" || "vmnet-".toList.isPrefixOf params.name.toList then
    refuse (Message.quoted "network name " params.name ++ " is reserved")
  else
    match ← ask (netCall (.resolve params.name)) with
    | .ok existing =>
      refuse ("network " ++ params.name ++ " already exists (" ++ existing.id ++ ")" : String)
    | .error _ =>
      createWith mcastGroup params (if params.mode = "" then "bridge" else params.mode)

/-- `ApplyNetwork`. -/
def applyNetwork (ref : String) (dryRun : Bool) : NetM NetworkManifest := do
  ensure (← attempt (netCall (.resolve ref))) dryRun

/-- The reference of an interface names the network. -/
def refersTo (n : NetworkManifest) (ref : String) : Bool := ref = n.id || ref = n.name

/-- Refuse while a change of the machine's interfaces that has not finished involves the network. -/
def requireNotPending (n : NetworkManifest) (m : VMManifest) : NetM Unit := do
  match ← ask (netCall (.pendingReferences m.id)) with
  | .error e => refuse (Message.text "inspect pending VM network change: " ++ e)
  | .ok refs =>
    if n.id ∈ refs ∨ n.name ∈ refs then
      refuse ("network " ++ n.name ++ " is involved in an unfinished change on VM " ++ m.name ++
        "; stop it first" : String)
    else return ()

def usedBy (n : NetworkManifest) (m : VMManifest) : Message :=
  .text ("network " ++ n.name ++ " is used by running VM " ++ m.name ++ "; stop it first")

/-- `DestroyNetwork` over the interfaces of a machine. -/
def requireStopped (n : NetworkManifest) (m : VMManifest) : List VMInterface → NetM Unit
  | [] => return ()
  | nic :: nics => do
    if refersTo n nic.network then
      if ← ask (netCall (.running m.id)) then refuse (usedBy n m) else requireStopped n m nics
    else requireStopped n m nics

/-- `DestroyNetwork` over the machines. -/
def requireUnused (n : NetworkManifest) : List VMManifest → NetM Unit
  | [] => return ()
  | m :: vms => do
    onlyWhen (netCall (.running m.id)) (requireNotPending n m)
    requireStopped n m m.effectiveInterfaces
    requireUnused n vms

/-- `UpdateNetwork` over the machines. -/
def requireUnusedBy (n : NetworkManifest) : List VMManifest → NetM Unit
  | [] => return ()
  | m :: vms => do
    if ← ask (netCall (.running m.id)) then
      requireNotPending n m
      if m.effectiveInterfaces.any fun nic => refersTo n nic.network then refuse (usedBy n m)
      else requireUnusedBy n vms
    else requireUnusedBy n vms

/-- Refuse while a bridge has the VLAN interface as a member. -/
def requireDetached (n : NetworkManifest) : NetM Unit := do
  let networks ← attempt (netCall .list)
  match networks.find? fun other => other.id ≠ n.id &&
      (n.device ∈ other.members || n.device ∈ other.appliedMembers) with
  | some other =>
    refuse ("VLAN " ++ n.name ++ " is attached to bridge " ++ other.name ++
      "; remove it from the bridge first" : String)
  | none => return ()

def destroyNetwork (ref : String) : NetM Unit :=
  underLock do
    let n ← attempt (netCall (.resolve ref))
    requireUnused n (← attempt (netCall .listVMs))
    onlyIf (n.mode = .vlan ∧ n.device ≠ "") (requireDetached n)
    Network.destroy n
    attempt (netCall (.delete n.id))

/-- The manifest with the definition that is asked for. -/
def redefined (n : NetworkManifest) (params : CreateNetworkParams) : NetworkManifest :=
  { n with
    address := params.address
    uplink := params.uplink
    parent := params.parent
    tag := params.tag
    members := params.members
    vlans := params.vlans.map fun v => { parent := v.parent, tag := v.tag } }

/-- `UpdateNetwork` under the lock. -/
def redefineNetwork (ref : String) (params : CreateNetworkParams) : NetM NetworkManifest := do
  let n ← attempt (netCall (.resolve ref))
  if params.name ≠ n.name ∨ NetworkMode.ofString params.mode ≠ n.mode then
    refuse "network name and mode must not change"
  else if params.device ≠ "" ∧ params.device ≠ n.device then
    refuse "applied device must not change"
  else
    requireUnusedBy n (← attempt (netCall .listVMs))
    onlyIf (n.mode = .vlan ∧ (n.parent ≠ params.parent ∨ n.tag ≠ params.tag) ∧ n.device ≠ "")
      (if n.owned = false then refuse "cannot retag a borrowed VLAN interface"
        else requireDetached n)
    attempt (netCall (.save (redefined n params)))
    return redefined n params

def updateNetwork (ref : String) (params : CreateNetworkParams) : NetM NetworkManifest := do
  let n ← underLock (redefineNetwork ref params)
  match ← ask (ensure n false).run with
  | .ok n => return n
  | .error e =>
    refuse (Message.text "apply network (configuration saved; retry to reconcile): " ++ e)

/-! ### Programs that only look -/

section Calls

variable {P : NetCall → Prop} (hP : ∀ c, NetCall.Inspects c → P c)
include hP

theorem calls_requireNotPending (n : NetworkManifest) (m : VMManifest) :
    (requireNotPending n m).run.Calls P := by
  refine .andThen (calls_ask (.request (hP (.pendingReferences m.id) trivial))) fun r => ?_
  cases r with
  | error e => exact .pure _
  | ok refs =>
    show (if _ then _ else _ : NetM Unit).run.Calls P
    split
    · exact .pure _
    · exact .pure _

theorem calls_requireStopped (n : NetworkManifest) (m : VMManifest) (nics : List VMInterface) :
    (requireStopped n m nics).run.Calls P := by
  induction nics with
  | nil => exact .pure _
  | cons nic nics ih =>
    unfold requireStopped
    split
    · refine .andThen (calls_ask (.request (hP (.running m.id) trivial))) fun running => ?_
      split
      · exact .pure _
      · exact ih
    · exact ih

theorem calls_requireUnused (n : NetworkManifest) (vms : List VMManifest) :
    (requireUnused n vms).run.Calls P := by
  induction vms with
  | nil => exact .pure _
  | cons m vms ih =>
    refine .andThen (calls_onlyWhen (.request (hP (.running m.id) trivial))
      (calls_requireNotPending hP n m)) fun _ => ?_
    exact .andThen (calls_requireStopped hP n m _) fun _ => ih

theorem calls_requireUnusedBy (n : NetworkManifest) (vms : List VMManifest) :
    (requireUnusedBy n vms).run.Calls P := by
  induction vms with
  | nil => exact .pure _
  | cons m vms ih =>
    refine .andThen (calls_ask (.request (hP (.running m.id) trivial))) fun running => ?_
    split
    · refine .andThen (calls_requireNotPending hP n m) fun _ => ?_
      split
      · exact .pure _
      · exact ih
    · exact ih

theorem calls_requireDetached (n : NetworkManifest) : (requireDetached n).run.Calls P := by
  refine .andThen (.request (hP .list trivial)) fun networks => ?_
  split
  · exact .pure _
  · exact .pure _

end Calls

theorem looks_requireUnused (n : NetworkManifest) (vms : List VMManifest) :
    OnlyLooks (requireUnused n vms).run := calls_requireUnused NetCall.Inspects.looks n vms

theorem looks_requireUnusedBy (n : NetworkManifest) (vms : List VMManifest) :
    OnlyLooks (requireUnusedBy n vms).run := calls_requireUnusedBy NetCall.Inspects.looks n vms

theorem looks_requireDetached (n : NetworkManifest) : OnlyLooks (requireDetached n).run :=
  calls_requireDetached NetCall.Inspects.looks n

/-- The network operations. -/
inductive NetOp where
  | create (mcastGroup : String → String) (params : CreateNetworkParams)
  | apply (ref : String) (dryRun : Bool)
  | applyAll (dryRun : Bool)
  | update (ref : String) (params : CreateNetworkParams)
  | destroy (ref : String)

def NetOp.program : NetOp → Net Unit
  | .create mcastGroup params => do let _ ← (createNetwork mcastGroup params).run
  | .apply ref dryRun => do let _ ← (applyNetwork ref dryRun).run
  | .applyAll dryRun => do let _ ← (reconcile dryRun).run
  | .update ref params => do let _ ← (updateNetwork ref params).run
  | .destroy ref => do let _ ← (destroyNetwork ref).run

end Maco.Engine
