/-! The manifests that every part of the program reads and writes: the networks and the virtual
machines as their YAML files have them. -/

namespace Maco

/-- The text of an error; `quoted` ends in a value that the format writes with `%q`. -/
inductive Message where
  | text (s : String)
  | quoted (before value : String)
  | append (first second : Message)
  deriving DecidableEq, Repr

instance : Append Message := ⟨Message.append⟩

instance : Coe String Message := ⟨Message.text⟩

/-- `types.NetworkMode`; `other` is a string that names no mode. -/
inductive NetworkMode where
  | user
  | vmnetBridged
  | bridge
  | switch
  | bridged
  | vlan
  | other (name : String)
  deriving DecidableEq, Repr

/-- The mode that a string names. -/
def NetworkMode.ofString (name : String) : NetworkMode :=
  if name = "user" then .user
  else if name = "vmnet-bridged" then .vmnetBridged
  else if name = "bridge" then .bridge
  else if name = "switch" then .switch
  else if name = "bridged" then .bridged
  else if name = "vlan" then .vlan
  else .other name

structure VLAN where
  borrowed : Bool := false
  parent : String
  tag : Int
  device : String := ""
  deriving DecidableEq, Repr

structure NetworkManifest where
  id : String
  name : String
  mode : NetworkMode
  uplink : String := ""
  parent : String := ""
  tag : Int := 0
  group : String := ""
  address : String := ""
  device : String := ""
  members : List String := []
  vlans : List VLAN := []
  owned : Bool := false
  appliedVLANs : List VLAN := []
  appliedAddress : String := ""
  appliedMembers : List String := []
  deriving DecidableEq, Repr

structure VMUSBAssignment where
  vendorID : UInt16
  productID : UInt16
  serial : String := ""
  product : String := ""
  deriving DecidableEq, Repr

structure VMInterface where
  id : String
  network : String
  mac : String := ""
  addresses : List String := []
  deriving DecidableEq, Repr

structure VMDisk where
  id : String
  name : String
  sizeGiB : Int
  deriving DecidableEq, Repr

structure VMManifest where
  interfaces : Option (List VMInterface) := none
  isos : List String := []
  bootOrder : List String := []
  disks : List VMDisk := []
  usb : List VMUSBAssignment := []
  id : String
  name : String
  image : String := ""
  cpus : Int := 1
  memoryMiB : Int := 64
  diskSizeGiB : Int := 1
  network : String := ""
  addresses : List String := []
  username : String := ""
  password : String := ""
  sshKey : String := ""
  autostart : Bool := false
  deriving DecidableEq, Repr

/-- The interfaces of a manifest: the listed ones, or the one of the older single-network form. -/
def VMManifest.effectiveInterfaces (m : VMManifest) : List VMInterface :=
  match m.interfaces with
  | some interfaces => interfaces
  | none => [{ id := "net0", network := m.network, addresses := m.addresses }]

end Maco
