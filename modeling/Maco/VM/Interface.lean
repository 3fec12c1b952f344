import Maco.Network.Check

/-! The network interface of a virtual machine as QEMU is given it: `vm.InterfaceSpec`, the names
that an interface may have, and the part of `resolveNetwork` that turns a manifest into a spec. -/

namespace Maco.VM

/-- `vm.NetworkMode`; `other` is a string that names no mode. -/
inductive NetworkMode where
  | user
  | bridge
  | switch
  | vmnetBridged
  | vmnetHost
  | vmnetShared
  | other (name : String)
  deriving DecidableEq, Repr

/-- The string of a mode. -/
def NetworkMode.name : NetworkMode → String
  | .user => "user"
  | .bridge => "bridge"
  | .switch => "switch"
  | .vmnetBridged => "vmnet-bridged"
  | .vmnetHost => "vmnet-host"
  | .vmnetShared => "vmnet-shared"
  | .other name => name

structure InterfaceSpec where
  reference : String := ""
  id : String := ""
  mac : String := ""
  network : NetworkMode
  uplink : String := ""
  bridge : String := ""
  socket : String := ""
  group : String := ""
  deriving DecidableEq, Repr

/-- `validNetworkID`: `^net([0-9]|[1-2][0-9]|3[0-1])$`. -/
def validNetworkID (id : String) : Bool :=
  match id.toList with
  | ['n', 'e', 't', a] => Network.isDigit a
  | ['n', 'e', 't', a, b] =>
    ((a = '1' || a = '2') && Network.isDigit b) || (a = '3' && (b = '0' || b = '1'))
  | _ => false

/-- A hexadecimal digit as `mac.String()` writes it. -/
def isHexDigit (c : Char) : Bool := Network.isDigit c || ('a' ≤ c && c ≤ 'f')

/-- The text of an Ethernet address: six groups of two hexadecimal digits. -/
def isMAC (mac : String) : Bool :=
  match mac.toList with
  | [a, b, ':', c, d, ':', e, f, ':', g, h, ':', i, j, ':', k, l] =>
    [a, b, c, d, e, f, g, h, i, j, k, l].all isHexDigit
  | _ => false

/-- The PCIe port of an interface. -/
def networkBus (id : String) : String := "maco-" ++ id

/-- `InterfaceMAC`; `mac` is `MAC`, the address that the hash of a text gives. -/
def interfaceMAC (mac : String → String) (vmID id : String) : String :=
  if id = "net0" then mac vmID else mac (vmID ++ ":" ++ id)

/-- The end of `resolveNetwork`: the spec of a stored network. -/
def specOf (n : NetworkManifest) : Except Message InterfaceSpec :=
  match n.mode with
  | .bridge => .ok { network := .bridge, bridge := n.device }
  | .switch => .ok { network := .switch, group := n.group }
  | .user => .ok { network := .user }
  | .bridged | .vmnetBridged => .ok { network := .vmnetBridged, uplink := n.uplink }
  | .vlan => .error (.quoted "unknown network mode " "vlan")
  | .other name => .error (.quoted "unknown network mode " name)

/-- `exposeInterfaces`: the interfaces with their default addresses and networks filled in. -/
def exposeInterfaces (mac : String → String) (m : VMManifest) : VMManifest :=
  { m with interfaces := some (m.effectiveInterfaces.map fun nic =>
    { nic with
      mac := if nic.mac = "" then interfaceMAC mac m.id nic.id else nic.mac
      network := if nic.network = "" then "user" else nic.network }) }

/-- A valid interface name is `net` and one or two digits. -/
theorem validNetworkID_toList {id : String} (h : validNetworkID id = true) :
    ∃ ds, id.toList = 'n' :: 'e' :: 't' :: ds ∧ ds ≠ [] ∧ (∀ d ∈ ds, Network.isDigit d = true) ∧
      (ds.head? = some '0' → ds = ['0']) := by
  rw [validNetworkID] at h
  split at h
  · rename_i a heq
    exact ⟨[a], heq, by simp, by simpa using h, by simp⟩
  · rename_i a b heq
    refine ⟨[a, b], heq, by simp, ?_, ?_⟩
    · simp only [Bool.or_eq_true, Bool.and_eq_true, decide_eq_true_eq] at h
      rcases h with ⟨rfl | rfl, hb⟩ | ⟨rfl, rfl | rfl⟩ <;> simp_all [Network.isDigit]
    · rintro ha
      obtain rfl : a = '0' := by simpa using ha
      simp at h
  · contradiction

/-- No character outside the letters `n`, `e`, `t` and the digits is in a valid name. -/
theorem not_mem_validNetworkID {id : String} (h : validNetworkID id = true) {c : Char}
    (hc : Network.isDigit c = false) (hnet : c ∉ ['n', 'e', 't']) : c ∉ id.toList := by
  obtain ⟨ds, hds, -, hall, -⟩ := validNetworkID_toList h
  intro hmem
  rw [hds] at hmem
  have : c ∈ ds := by simp_all
  simp [hall c this] at hc

/-- No character outside the hexadecimal digits and the colon is in an address. -/
theorem not_mem_isMAC {mac : String} (h : isMAC mac = true) {c : Char}
    (hc : isHexDigit c = false) (hcolon : c ≠ ':') : c ∉ mac.toList := by
  rw [isMAC] at h
  split at h
  · rename_i heq
    intro hmem
    rw [heq] at hmem
    simp only [List.all_cons, List.all_nil, Bool.and_eq_true] at h
    simp only [List.mem_cons, hcolon, List.not_mem_nil, false_or, or_false] at hmem
    rcases hmem with rfl | rfl | rfl | rfl | rfl | rfl | rfl | rfl | rfl | rfl | rfl | rfl <;>
      simp_all
  · contradiction

end Maco.VM
