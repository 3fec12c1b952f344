import Maco.Types

/-! What the network store admits: `Store.check`, with the patterns of the interface names that it
knows.  The formats of the validator package and `net.ParseCIDR` are parameters. -/

namespace Maco.Network

/-- The text formats that are left to the validator package and to `net.ParseCIDR`; `shown` is the
text in which the host lists an address that `SetAddress` has set, where that does not refuse it. -/
structure Formats where
  uuid : String → Bool
  hostname : String → Bool
  cidr : String → Bool
  ipv4CIDR : String → Bool
  shown : String → Option String

/-- Formats that admit every text. -/
def anyFormats : Formats := ⟨fun _ => true, fun _ => true, fun _ => true, fun _ => true, some⟩

/-- A digit of the patterns, `[0-9]`. -/
def isDigit (c : Char) : Bool := '0' ≤ c && c ≤ '9'

/-- A letter of the patterns, `[a-zA-Z]`. -/
def isLetter (c : Char) : Bool := ('a' ≤ c && c ≤ 'z') || ('A' ≤ c && c ≤ 'Z')

/-- `^kind[0-9]+$`. -/
def numbered (kind name : String) : Bool :=
  kind.toList.isPrefixOf name.toList && kind.toList.length < name.toList.length &&
    (name.toList.drop kind.toList.length).all isDigit

/-- `^bridge[0-9]+$`. -/
def bridgeName (name : String) : Bool := numbered "bridge" name

/-- `^vlan[0-9]+$`. -/
def vlanName (name : String) : Bool := numbered "vlan" name

theorem not_vlanName {name : String} (h : bridgeName name = true) : vlanName name = false := by
  rw [bridgeName, numbered, Bool.and_eq_true, Bool.and_eq_true] at h
  have hbridge := h.1.1
  cases hvlan : vlanName name with
  | false => rfl
  | true =>
    rw [vlanName, numbered, Bool.and_eq_true, Bool.and_eq_true] at hvlan
    have hvlan := hvlan.1.1
    generalize name.toList = l at hbridge hvlan
    cases l with
    | nil => cases hbridge
    | cons c l =>
      simp [List.isPrefixOf] at hbridge hvlan
      rw [← hbridge.1] at hvlan
      exact absurd hvlan.1 (by decide)

/-- `^[a-zA-Z][a-zA-Z0-9]{0,14}$`. -/
def interfaceName (name : String) : Bool :=
  match name.toList with
  | [] => false
  | c :: cs => isLetter c && cs.length ≤ 14 && cs.all fun d => isLetter d || isDigit d

/-- Why a manifest is refused: a field whose `validate` tag it does not meet, or a message of
`check` itself. -/
inductive CheckError where
  | field (name : String)
  | message (text : Message)
  deriving DecidableEq, Repr

/-- Refuse unless `ok`. -/
def require (ok : Bool) (e : CheckError) : Except CheckError Unit :=
  if ok then .ok () else .error e

@[simp] theorem require_ok (ok : Bool) (e : CheckError) : require ok e = .ok () ↔ ok = true := by
  cases ok <;> simp [require]

/-- One check after another, the first refusal counts. -/
def allOf : List (Except CheckError Unit) → Except CheckError Unit
  | [] => .ok ()
  | .ok () :: rest => allOf rest
  | .error e :: _ => .error e

@[simp] theorem allOf_ok (checks : List (Except CheckError Unit)) :
    allOf checks = .ok () ↔ ∀ c ∈ checks, c = .ok () := by
  induction checks with
  | nil => simp [allOf]
  | cons c rest ih =>
    cases c with
    | error e => simp [allOf]
    | ok u => simpa [allOf] using ih

section

variable (f : Formats)

/-- The `validate` tags of a `types.VLAN`. -/
def checkVLANTags (v : VLAN) : Except CheckError Unit :=
  allOf [require (v.parent ≠ "") (.field "Parent"),
    require (1 ≤ v.tag ∧ v.tag ≤ 4094) (.field "Tag")]

/-- `validate.Struct`: the `validate` tags of a manifest. -/
def validateStruct (n : NetworkManifest) : Except CheckError Unit :=
  allOf ([require (n.id ≠ "" && f.uuid n.id) (.field "ID"),
    require (n.name ≠ "" && f.hostname n.name) (.field "Name"),
    require (match n.mode with | .other _ => false | _ => true) (.field "Mode"),
    require (n.address = "" || f.cidr n.address) (.field "Address")] ++
    n.vlans.map checkVLANTags ++ n.appliedVLANs.map checkVLANTags ++
    [require (n.appliedAddress = "" || f.cidr n.appliedAddress) (.field "AppliedAddress")])

/-- The members are told apart and none is the bridge itself. -/
def checkMembers (device : String) (seen : List String) : List String → Except CheckError Unit
  | [] => .ok ()
  | m :: rest =>
    if m ∈ seen ∨ m = device then
      .error (.message (.text ("duplicate or self-referencing bridge member " ++ m)))
    else checkMembers device (m :: seen) rest

/-- The key of a VLAN, `parent:tag`. -/
def VLAN.key (v : VLAN) : String := v.parent ++ ":" ++ toString v.tag

/-- The VLANs are told apart by their keys. -/
def checkVLANs (seen : List String) : List VLAN → Except CheckError Unit
  | [] => .ok ()
  | v :: rest =>
    if VLAN.key v ∈ seen then .error (.message (.text ("duplicate VLAN " ++ VLAN.key v)))
    else checkVLANs (VLAN.key v :: seen) rest

/-- Every interface name that a manifest holds. -/
def interfaceNames (n : NetworkManifest) : List String :=
  n.members ++ (if n.uplink ≠ "" then [n.uplink] else []) ++ n.appliedMembers ++
    n.vlans.flatMap (fun v => v.parent :: if v.device ≠ "" then [v.device] else []) ++
    (if n.device ≠ "" then [n.device] else []) ++ if n.parent ≠ "" then [n.parent] else []

/-- The part of `check` that depends on the mode. -/
def checkMode (n : NetworkManifest) : Except CheckError Unit :=
  allOf ([require (!(n.mode = .switch ∧ n.group = ""))
      (.message (.text "switch requires a multicast group")),
    require (!((n.mode = .bridged ∨ n.mode = .vmnetBridged) ∧ n.uplink = ""))
      (.message (.text "bridged requires an uplink")),
    require (!(n.mode ≠ .bridged ∧ n.mode ≠ .vmnetBridged ∧ n.uplink ≠ ""))
      (.message (.text "uplink requires vmnet-bridged mode")),
    require (!(n.mode ≠ .vlan ∧ (n.parent ≠ "" ∨ n.tag ≠ 0)))
      (.message (.text "parent and tag require vlan mode; use vlans for bridge VLAN members"))] ++
    if n.mode = .vlan then
      [require (n.parent ≠ "") (.message (.text "vlan requires a parent interface")),
        require (1 ≤ n.tag ∧ n.tag ≤ 4094) (.message (.text "vlan tag must be between 1 and 4094")),
        require (n.address = "" ∧ n.members = [] ∧ n.vlans = [] ∧ n.uplink = "")
          (.message (.text "vlan mode takes only a parent and tag")),
        require (n.device = "" || vlanName n.device)
          (.message (.text "device must name a native VLAN"))]
    else
      [require (!(n.mode ≠ .bridge ∧
          (n.device ≠ "" ∨ n.address ≠ "" ∨ n.members ≠ [] ∨ n.vlans ≠ [])))
          (.message (.text "device, address, members and vlans require bridge mode")),
        require (n.device = "" || bridgeName n.device)
          (.message (.text "device must name a native bridge"))])

/-- `Store.check`. -/
def check (n : NetworkManifest) : Except CheckError Unit :=
  allOf ([validateStruct f n] ++
    [n.address, n.appliedAddress].map (fun address =>
      require (address = "" || f.ipv4CIDR address)
        (.message (.text "bridge address must be an IPv4 CIDR"))) ++
    [checkMode n] ++
    n.appliedVLANs.map (fun applied => require (vlanName applied.device)
      (.message (.text "applied VLAN device must name a native VLAN"))) ++
    n.vlans.map (fun v => require (v.device = "" || v ∈ n.appliedVLANs)
      (.message (.text "VLAN device is assigned by apply; use members to attach an existing VLAN"))) ++
    [checkMembers n.device [] n.members, checkVLANs [] n.vlans] ++
    (interfaceNames n).map fun device => require (interfaceName device)
      (.message (.quoted "invalid interface " device)))

variable {f} {n : NetworkManifest}

/-- What `check` admits, part by part. -/
theorem check_iff : check f n = .ok () ↔
    validateStruct f n = .ok () ∧
    (∀ address ∈ [n.address, n.appliedAddress], address = "" ∨ f.ipv4CIDR address = true) ∧
    checkMode n = .ok () ∧
    (∀ v ∈ n.appliedVLANs, vlanName v.device = true) ∧
    (∀ v ∈ n.vlans, v.device = "" ∨ v ∈ n.appliedVLANs) ∧
    checkMembers n.device [] n.members = .ok () ∧
    checkVLANs [] n.vlans = .ok () ∧
    ∀ device ∈ interfaceNames n, interfaceName device = true := by
  rw [check, allOf_ok]
  simp only [List.forall_mem_append, List.forall_mem_map, List.forall_mem_singleton,
    List.forall_mem_cons, require_ok, Bool.or_eq_true, decide_eq_true_eq, and_assoc]

theorem check_mode (h : check f n = .ok ()) : checkMode n = .ok () := by
  rw [check, allOf_ok] at h
  exact h _ (by simp)

theorem check_interfaceName (h : check f n = .ok ()) {device : String}
    (hd : device ∈ interfaceNames n) : interfaceName device = true := by
  rw [check, allOf_ok] at h
  have := h _ (List.mem_append_right _ (List.mem_map_of_mem hd))
  simpa using this

/-- An admitted switch has a group. -/
theorem check_group (h : check f n = .ok ()) (hm : n.mode = .switch) : n.group ≠ "" := by
  have := check_mode h
  rw [checkMode, allOf_ok] at this
  simpa [hm] using this _ (List.mem_append_left _ (List.mem_cons_self))

/-- An admitted vmnet bridge has an uplink, whose name is an interface name. -/
theorem check_uplink (h : check f n = .ok ()) (hm : n.mode = .bridged ∨ n.mode = .vmnetBridged) :
    n.uplink ≠ "" ∧ interfaceName n.uplink = true := by
  have hmode := check_mode h
  rw [checkMode, allOf_ok] at hmode
  have hu : n.uplink ≠ "" := by
    simpa [hm] using
      hmode _ (List.mem_append_left _ (List.mem_cons_of_mem _ List.mem_cons_self))
  exact ⟨hu, check_interfaceName h (by simp [interfaceNames, hu])⟩

/-- The device that an admitted bridge records is a native bridge. -/
theorem check_device (h : check f n = .ok ()) (hm : n.mode = .bridge) (hd : n.device ≠ "") :
    bridgeName n.device = true := by
  have hmode := check_mode h
  rw [checkMode, allOf_ok] at hmode
  have := hmode (require (n.device = "" || bridgeName n.device)
    (.message (.text "device must name a native bridge"))) (by simp [hm])
  simpa [hd] using this

/-- The VLANs of an admitted manifest that have a device are applied. -/
theorem check_vlans (h : check f n = .ok ()) {v : VLAN}
    (hv : v ∈ n.vlans) (hd : v.device ≠ "") : v ∈ n.appliedVLANs := by
  rw [check, allOf_ok] at h
  have := h (require (v.device = "" || v ∈ n.appliedVLANs) (.message (.text
    "VLAN device is assigned by apply; use members to attach an existing VLAN")))
    (by simp only [List.mem_append, List.mem_map]; exact .inl (.inl (.inr ⟨v, hv, rfl⟩)))
  simpa [hd] using this

/-- A VLAN network has no members. -/
theorem checkMode_members (h : checkMode n = .ok ()) (hm : n.mode = .vlan) : n.members = [] := by
  rw [checkMode, allOf_ok] at h
  have hvlan := h (require (n.address = "" ∧ n.members = [] ∧ n.vlans = [] ∧ n.uplink = "")
    (.message (.text "vlan mode takes only a parent and tag"))) (by simp [hm])
  rw [require_ok, decide_eq_true_eq] at hvlan
  exact hvlan.2.1

/-- The keys of the VLANs differ. -/
theorem checkVLANs_ok {seen : List String} {vlans : List VLAN} :
    checkVLANs seen vlans = .ok () ↔
      (vlans.map VLAN.key).Nodup ∧ ∀ v ∈ vlans, VLAN.key v ∉ seen := by
  induction vlans generalizing seen with
  | nil => simp [checkVLANs]
  | cons v rest ih =>
    unfold checkVLANs
    by_cases hv : VLAN.key v ∈ seen
    · simp [hv]
    · rw [if_neg hv, ih]
      simp only [List.map_cons, List.nodup_cons, List.mem_map, List.mem_cons]
      grind

/-- The device that an admitted VLAN network records is a VLAN interface. -/
theorem check_vlanNetwork (h : check f n = .ok ()) (hm : n.mode = .vlan) (hd : n.device ≠ "") :
    vlanName n.device = true ∧ interfaceName n.device = true := by
  refine ⟨?_, check_interfaceName h (by simp [interfaceNames, hd])⟩
  have hmode := check_mode h
  rw [checkMode, allOf_ok] at hmode
  have hvlan := hmode (require (n.device = "" || vlanName n.device)
    (.message (.text "device must name a native VLAN"))) (by simp [hm])
  simpa [hd] using hvlan

/-- A VLAN network is admitted with any VLAN interface as its device. -/
theorem check_vlanDevice (h : check f n = .ok ()) (hm : n.mode = .vlan) {device : String}
    (hvlan : vlanName device = true) (hname : interfaceName device = true) (owned : Bool) :
    check f { n with device := device, owned := owned } = .ok () := by
  rw [check_iff] at h ⊢
  obtain ⟨hstruct, haddress, hmode, happlied, hvlans, hmembers, hkeys, hnames⟩ := h
  have hnone := checkMode_members hmode hm
  refine ⟨hstruct, haddress, ?_, happlied, hvlans, ?_, hkeys, ?_⟩
  · rw [checkMode, allOf_ok] at hmode ⊢
    simp only [hm, if_true] at hmode ⊢
    simp [hvlan] at hmode ⊢
    grind
  · dsimp only
    rw [hnone]
    rfl
  · intro d hd
    by_cases heq : d = device
    · rw [heq]
      exact hname
    · refine hnames d ?_
      simp only [interfaceNames, List.mem_append] at hd ⊢
      grind

end

end Maco.Network
