import Maco.VM.Interface
import Maco.Lib.OptionText

/-! One interface written twice for QEMU: `networkArgs` writes the arguments of a boot and
`networkBackend` and `networkDevice` the JSON of a live attachment.  QEMU reads an argument as
options that commas separate, a doubled comma standing for one, and JSON members as options too, so
both mean what each key is set to. -/

namespace Maco.VM

open OptionText

/-- `strings.ReplaceAll`, for an `old` that is not empty. -/
def stringsReplaceAll (s old new : String) : String :=
  String.ofList (replaceAll old.toList new.toList s.toList)

/-- The device argument of a bridge: no offload, since frames go through the helper. -/
def bridgeDevice : String :=
  "virtio-net-pci,netdev=net0,csum=off,guest_csum=off,gso=off,guest_tso4=off,guest_tso6=off,guest_ecn=off"

/-- The two pairs of arguments of `networkArgs` before the interface is named. -/
def templateArgs (nic : InterfaceSpec) : Except Message (List String) :=
  match nic.network with
  | .user => .ok ["-netdev", "user,id=net0", "-device", "virtio-net-pci,netdev=net0"]
  | .bridge =>
    if nic.bridge = "" ∨ nic.socket = "" then
      .error (.text ("spec " ++ nic.id ++ ": bridge network requires a bridge and helper socket"))
    else .ok ["-netdev",
      "stream,id=net0,server=off,addr.type=unix,addr.path=" ++ nic.socket, "-device",
      bridgeDevice]
  | .switch =>
    if nic.group = "" then
      .error (.text ("spec " ++ nic.id ++ ": switch nic.Network requires a multicast group"))
    else .ok ["-netdev", "socket,id=net0,mcast=" ++ nic.group, "-device",
      "virtio-net-pci,netdev=net0"]
  | .vmnetHost => .ok ["-netdev", "vmnet-host,id=net0", "-device", "virtio-net-pci,netdev=net0"]
  | .vmnetShared =>
    .ok ["-netdev", "vmnet-shared,id=net0", "-device", "virtio-net-pci,netdev=net0"]
  | .vmnetBridged =>
    if nic.uplink = "" then
      .error (.text ("spec " ++ nic.id ++ ": vmnet-bridged requires an uplink interface"))
    else .ok ["-netdev", "vmnet-bridged,id=net0,ifname=" ++ nic.uplink, "-device",
      "virtio-net-pci,netdev=net0"]
  | .other name => .error (.quoted ("spec " ++ nic.id ++ ": unknown network mode ") name)

/-- The loop of `networkArgs`: every argument has `net0` replaced by the interface's name, and the
one after `-device` the properties of the interface added. -/
def nameArgs (nic : InterfaceSpec) : Option String → List String → List String
  | _, [] => []
  | previous, arg :: args =>
    let renamed := stringsReplaceAll arg "net0" nic.id
    let named :=
      if previous = some "-device" then
        renamed ++ ",id=" ++ nic.id ++ ",mac=" ++ nic.mac ++ ",bus=" ++ networkBus nic.id ++
          ",addr=0,disable-legacy=on"
      else renamed
    named :: nameArgs nic (some named) args

def networkArgs (nic : InterfaceSpec) : Except Message (List String) :=
  match templateArgs nic with
  | .ok args => .ok (nameArgs nic none args)
  | .error e => .error e

/-- A member of the JSON that QEMU is sent: a text, a boolean or an object of texts. -/
inductive Value where
  | text (s : String)
  | flag (b : Bool)
  | object (fields : List (String × String))
  deriving DecidableEq, Repr

def networkBackend (nic : InterfaceSpec) : Except Message (List (String × Value)) :=
  if !validNetworkID nic.id then .error (.text "invalid network interface ID")
  else
    match nic.network with
    | .user => .ok [("id", .text nic.id), ("type", .text "user")]
    | .switch =>
      if nic.group = "" then .error (.text "switch requires a multicast group")
      else .ok [("id", .text nic.id), ("type", .text "socket"), ("mcast", .text nic.group)]
    | .bridge =>
      if nic.bridge = "" ∨ nic.socket = "" then
        .error (.text "bridge requires a bridge and helper socket")
      else .ok [("id", .text nic.id), ("type", .text "stream"), ("server", .flag false),
        ("addr", .object [("type", "unix"), ("path", nic.socket)])]
    | .vmnetHost | .vmnetShared =>
      .ok [("id", .text nic.id), ("type", .text nic.network.name)]
    | .vmnetBridged =>
      if nic.uplink = "" then .error (.text "vmnet-bridged requires an uplink")
      else .ok [("id", .text nic.id), ("type", .text "vmnet-bridged"), ("ifname", .text nic.uplink)]
    | .other name => .error (.quoted "unknown network mode " name)

def networkDevice (nic : InterfaceSpec) : List (String × Value) :=
  [("driver", .text "virtio-net-pci"), ("id", .text nic.id), ("netdev", .text nic.id),
    ("mac", .text nic.mac), ("bus", .text (networkBus nic.id)), ("addr", .text "0"),
    ("disable-legacy", .text "on")] ++
  if nic.network = .bridge then
    ["csum", "guest_csum", "gso", "guest_tso4", "guest_tso6", "guest_ecn"].map
      fun property => (property, .flag false)
  else []

/-! ### What QEMU reads -/

/-- The options of an argument; a first piece without a value is the value of `implied`. -/
def decodeArg (implied arg : String) : List (String × Option String) :=
  match (options ',' '=' arg.toList).map fun o => (String.ofList o.1, o.2.map String.ofList) with
  | (first, none) :: rest => (implied, some first) :: rest
  | os => os

/-- The options that a JSON member sets, a member of an object under its path. -/
def Value.options (key : String) : Value → List (String × Option String)
  | .text s => [(key, some s)]
  | .flag b => [(key, some (if b then "on" else "off"))]
  | .object fields => fields.map fun field => (key ++ "." ++ field.1, some field.2)

def decodeJSON (fields : List (String × Value)) : List (String × Option String) :=
  fields.flatMap fun field => field.2.options field.1

/-- An argument and JSON members set every key alike. -/
def SameOptions (implied arg : String) (fields : List (String × Value)) : Prop :=
  ∀ key, valueOf (decodeArg implied arg) key = valueOf (decodeJSON fields) key

/-- Boot and live attachment make the same interface of a spec, or both refuse it. -/
def ColdMatchesLive (nic : InterfaceSpec) : Prop :=
  match networkArgs nic, networkBackend nic with
  | .ok args, .ok backend => ∃ netdev device, args = ["-netdev", netdev, "-device", device] ∧
      SameOptions "type" netdev backend ∧ SameOptions "driver" device (networkDevice nic)
  | .error _, .error _ => True
  | _, _ => False

/-- The text that the backend of a spec takes from outside. -/
def InterfaceSpec.outside (nic : InterfaceSpec) : String :=
  match nic.network with
  | .bridge => nic.socket
  | .switch => nic.group
  | .vmnetBridged => nic.uplink
  | _ => ""

/-- The data of a spec as they reach the driver: a name and an address that are well formed, and a
backend that needs no network or comes from a network that the store admits. -/
structure Admitted (f : Network.Formats) (nic : InterfaceSpec) : Prop where
  id : validNetworkID nic.id = true
  mac : isMAC nic.mac = true
  network : nic.network ∈ [.user, .vmnetHost, .vmnetShared] ∨
    ∃ n spec, Network.check f n = .ok () ∧ (n.mode = .bridge → n.device ≠ "") ∧
      specOf n = .ok spec ∧ nic.network = spec.network ∧ nic.bridge = spec.bridge ∧
      nic.group = spec.group ∧ nic.uplink = spec.uplink

/-! ### The interface's name in the arguments -/

variable {nic : InterfaceSpec} {id : String}

/-- A name other than `net0` does not start with `net0`. -/
theorem not_prefix_of_ne (h : validNetworkID id = true) (hne : "net0".toList ≠ id.toList) :
    ¬ "net0".toList <+: id.toList := by
  obtain ⟨ds, hds, -, -, hzero⟩ := validNetworkID_toList h
  rw [hds] at hne ⊢
  change ¬ ['n', 'e', 't', '0'] <+: _
  simp only [List.cons_prefix_cons, true_and]
  intro hpre
  obtain ⟨rest, hrest⟩ := hpre
  have hhead : ds.head? = some '0' := by rw [← hrest]; rfl
  exact hne (by rw [hzero hhead]; rfl)

/-- A value that the named argument still carries in one of its pieces was neither renamed nor
cut. -/
theorem value_unchanged (h : validNetworkID id = true) {v q : List Char}
    (hq : q ∈ pieces ',' (replaceAll "net0".toList id.toList v)) (hv : v <:+: q) :
    (id = "net0" ∨ ¬ "net0".toList <:+: v) ∧ ',' ∉ v := by
  have hpre := not_prefix_of_ne h
  obtain ⟨ds, hds, hne, hall, -⟩ := validNetworkID_toList h
  have hn : 'n' ∉ ds := fun hmem => by simpa [Network.isDigit] using hall _ hmem
  have hlen : 1 ≤ ds.length := List.length_pos_iff.mpr hne
  rw [hds] at hq hpre
  have := unchanged_of_infix (x := 'n') (t := ['e', 't', '0']) (u := 'e' :: 't' :: ds) (by decide)
    (by decide) (by simp [hn]) (by simp; omega) hpre hq hv
  refine ⟨this.1.imp_left fun heq => ?_, this.2⟩
  rw [← String.toList_inj, hds]
  exact heq.symm

/-- A value without the template's name or with the template's own name stays as it is. -/
theorem replace_value {v : List Char} (h : id = "net0" ∨ ¬ "net0".toList <:+: v) :
    replaceAll "net0".toList id.toList v = v := by
  rcases h with rfl | h
  · exact replaceAll_self v (by decide)
  · exact replaceAll_of_not_infix h

/-! ### Arguments as options -/

/-- Options as the characters of their texts. -/
def texts (os : List (String × String)) : List (List Char × List Char) :=
  os.map fun o => (o.1.toList, o.2.toList)

theorem plain_field {key value : String}
    (hkey : (key.toList.all fun c => c ≠ ',' && c ≠ '=') = true) (hv : ',' ∉ value.toList) :
    Plain ',' '=' (key.toList, value.toList) := by
  rw [List.all_eq_true] at hkey
  refine ⟨fun h => ?_, hv, fun h => ?_⟩
  · simpa using hkey _ h
  · simpa using hkey _ h

/-- An argument that starts with a kind and options written as they are. -/
theorem decodeArg_before (implied : String) {arg kind : String} {os : List (String × String)}
    {last : List Char} (harg : arg.toList = kind.toList ++ ',' :: before ',' '=' (texts os) last)
    (hkind : ',' ∉ kind.toList ∧ '=' ∉ kind.toList) (hos : ∀ o ∈ texts os, Plain ',' '=' o)
    (hl : last.head? ≠ some ',') :
    decodeArg implied arg = (implied, some kind) :: (os.map fun o => (o.1, some o.2)) ++
      (options ',' '=' last).map fun o => (String.ofList o.1, o.2.map String.ofList) := by
  have hne : (',' : Char) ≠ '=' := by decide
  rw [decodeArg, harg, options_append hkind.1 (before_head hos hne hl), keyValue_plain hkind.2,
    options_before hos hne hl]
  simp [texts, Function.comp_def]

/-- An argument whose options are all written as they are. -/
theorem decodeArg_fields (os : List (String × String)) {implied arg kind key value : String}
    (harg : arg.toList =
      kind.toList ++ ',' :: before ',' '=' (texts os) (key.toList ++ '=' :: value.toList))
    (hkind : ',' ∉ kind.toList ∧ '=' ∉ kind.toList)
    (hos : ∀ o ∈ texts (os ++ [(key, value)]), Plain ',' '=' o)
    (hkey : key.toList ≠ []) :
    decodeArg implied arg =
      (implied, some kind) :: (os ++ [(key, value)]).map fun o => (o.1, some o.2) := by
  have hlast : Plain ',' '=' (key.toList, value.toList) := hos _ (by simp [texts])
  have hos' : ∀ o ∈ texts os, Plain ',' '=' o := fun o ho =>
    hos o (by rw [texts, List.map_append]; exact List.mem_append_left _ ho)
  rw [decodeArg_before implied harg hkind hos' (append_head hlast.key hkey),
    options_plain (by simp [hlast.key, hlast.value]), keyValue_append hlast.ends]
  simp

/-- The two forms of a backend that has a value from outside set every key alike exactly where the
value is neither renamed nor cut. -/
theorem sameOptions_iff (hid : validNetworkID id = true) (kind key : String)
    (os : List (String × String)) {arg v : String} {fields : List (String × Value)}
    (harg : arg.toList = kind.toList ++ ',' :: before ',' '=' (texts os)
      (key.toList ++ '=' :: replaceAll "net0".toList id.toList v.toList))
    (hkind : ',' ∉ kind.toList ∧ '=' ∉ kind.toList) (hos : ∀ o ∈ texts os, Plain ',' '=' o)
    (hkey : ',' ∉ key.toList ∧ '=' ∉ key.toList ∧ key.toList ≠ [])
    (hkeys : ("type" :: os.map Prod.fst ++ [key]).Nodup)
    (hjson : ((("type", some kind) :: os.map fun o => (o.1, some o.2)) ++ [(key, some v)]).Perm
      (decodeJSON fields)) :
    SameOptions "type" arg fields ↔
      (id = "net0" ∨ ¬ "net0".toList <:+: v.toList) ∧ ',' ∉ v.toList := by
  obtain ⟨p, ps, hps⟩ := List.exists_cons_of_ne_nil
    (pieces_ne_nil ',' (replaceAll "net0".toList id.toList v.toList))
  have harg' := decodeArg_before "type" harg hkind hos (append_head hkey.1 hkey.2.2)
  rw [options_value hkey.1 hkey.2.1 (by decide) hps] at harg'
  constructor
  · intro hsame
    -- the value of the JSON is the value of one of the argument's pieces
    have hnd : ((("type", some kind) :: os.map fun o => (o.1, some o.2)) ++
        [(key, some v)]).map Prod.fst |>.Nodup := by simpa [Function.comp_def] using hkeys
    have hval : valueOf (decodeJSON fields) key = some (some v) := by
      rw [← valueOf_perm hjson hnd key, valueOf]
      simp
    have hmem := mem_of_valueOf ((hsame key).trans hval)
    rw [harg'] at hmem
    have hpiece : ∃ q ∈ p :: ps, v.toList <:+: q := by
      rw [List.mem_append] at hmem
      rcases hmem with hmem | hmem
      · have : key ∈ "type" :: os.map Prod.fst := by
          have := List.mem_map_of_mem (f := Prod.fst) hmem
          simpa [Function.comp_def] using this
        rw [List.nodup_append] at hkeys
        exact absurd rfl (hkeys.2.2 key this key (by simp))
      · simp only [List.map_cons, String.ofList_toList, Option.map_some, List.mem_cons,
          List.mem_map, Prod.mk.injEq, Option.some.injEq, true_and] at hmem
        rcases hmem with rfl | ⟨o, ⟨q, hq, rfl⟩, -, hov⟩
        · exact ⟨p, by simp, by simp⟩
        · rw [Option.map_eq_some_iff] at hov
          obtain ⟨w, hw, rfl⟩ := hov
          exact ⟨q, by simp [hq], by simpa using (suffix_of_keyValue hw).isInfix⟩
    obtain ⟨q, hq, hv⟩ := hpiece
    exact value_unchanged hid (hps ▸ hq) hv
  · rintro ⟨hword, hcomma⟩ k
    rw [replace_value hword, pieces_plain hcomma, List.cons.injEq] at hps
    obtain ⟨rfl, rfl⟩ := hps
    rw [harg']
    simp only [List.map_cons, List.map_nil, String.ofList_toList, Option.map_some]
    exact valueOf_perm hjson (by simpa [Function.comp_def] using hkeys) k

/-! ### The two forms of each mode -/

/-- The arguments of an interface: both texts are renamed, and the device gets its properties. -/
theorem nameArgs_pair {netdev device : String} (hcomma : ',' ∈ netdev.toList) :
    nameArgs nic none ["-netdev", netdev, "-device", device] =
      ["-netdev", stringsReplaceAll netdev "net0" nic.id, "-device",
        stringsReplaceAll device "net0" nic.id ++ ",id=" ++ nic.id ++ ",mac=" ++ nic.mac ++
          ",bus=" ++ networkBus nic.id ++ ",addr=0,disable-legacy=on"] := by
  have hflag : ∀ flag : String, ¬ "net0".toList <:+: flag.toList →
      stringsReplaceAll flag "net0" nic.id = flag := fun flag h => by
    rw [stringsReplaceAll, replaceAll_of_not_infix h, String.ofList_toList]
  have hne : stringsReplaceAll netdev "net0" nic.id ≠ "-device" := by
    intro heq
    have : ',' ∈ replaceAll "net0".toList nic.id.toList netdev.toList :=
      mem_replaceAll (by decide) (by decide) hcomma
    rw [← String.toList_ofList (l := replaceAll _ _ _)] at this
    rw [stringsReplaceAll] at heq
    rw [heq] at this
    exact absurd this (by decide)
  have hnetdev := hflag "-netdev" (by decide)
  have hdevice := hflag "-device" (by decide)
  simp [nameArgs, hnetdev, hdevice, hne]

theorem plain_id (h : validNetworkID id = true) : ',' ∉ id.toList :=
  not_mem_validNetworkID h (by decide) (by decide)

/-- The offload flags as the argument of a bridge has them. -/
def offloadOptions (nic : InterfaceSpec) : List (String × String) :=
  if nic.network = .bridge then
    ["csum", "guest_csum", "gso", "guest_tso4", "guest_tso6", "guest_ecn"].map fun p => (p, "off")
  else []

/-- The properties of an interface in the order of its argument, less the last one. -/
def deviceOptions (nic : InterfaceSpec) : List (String × String) :=
  ("netdev", nic.id) :: offloadOptions nic ++ [("id", nic.id), ("mac", nic.mac),
    ("bus", networkBus nic.id), ("addr", "0")]

theorem plain_deviceOptions (hid : validNetworkID nic.id = true) (hmac : isMAC nic.mac = true) :
    ∀ o ∈ texts (deviceOptions nic ++ [("disable-legacy", "on")]), Plain ',' '=' o := by
  have h1 := plain_id hid
  have h2 : ',' ∉ nic.mac.toList := not_mem_isMAC hmac (by decide) (by decide)
  have h3 : ',' ∉ (networkBus nic.id).toList := by simp [networkBus, h1]
  have hoff : ∀ o ∈ texts (offloadOptions nic), Plain ',' '=' o := by
    rw [offloadOptions]
    split
    · simp only [texts, List.map_cons, List.map_nil, List.mem_cons, List.not_mem_nil, or_false]
      rintro o (rfl | rfl | rfl | rfl | rfl | rfl) <;> exact plain_field (by decide) (by decide)
    · simp [texts]
  intro o ho
  simp only [texts, deviceOptions, List.map_cons, List.map_append, List.map_nil, List.cons_append,
    List.mem_cons, List.mem_append, List.not_mem_nil, or_false] at ho
  rcases ho with rfl | (ho | rfl | rfl | rfl | rfl) | rfl
  · exact plain_field (by decide) h1
  · exact hoff o ho
  · exact plain_field (by decide) h1
  · exact plain_field (by decide) h2
  · exact plain_field (by decide) h3
  · exact plain_field (by decide) (by decide)
  · exact plain_field (by decide) (by decide)

/-- The device argument and the device members set every property alike. -/
theorem device_sameOptions (hid : validNetworkID nic.id = true) (hmac : isMAC nic.mac = true)
    {arg : String} (harg : arg.toList = "virtio-net-pci".toList ++ ',' ::
      before ',' '=' (texts (deviceOptions nic)) ("disable-legacy".toList ++ '=' :: "on".toList)) :
    SameOptions "driver" arg (networkDevice nic) := by
  intro key
  have hjson : decodeJSON (networkDevice nic) = [("driver", some "virtio-net-pci"),
      ("id", some nic.id), ("netdev", some nic.id), ("mac", some nic.mac),
      ("bus", some (networkBus nic.id)), ("addr", some "0"), ("disable-legacy", some "on")] ++
      (offloadOptions nic).map fun o => (o.1, some o.2) := by
    rw [networkDevice, offloadOptions, decodeJSON]
    split <;> rfl
  rw [decodeArg_fields (deviceOptions nic) harg (by decide) (plain_deviceOptions hid hmac) (by decide), hjson]
  refine valueOf_perm ?_ ?_ key
  · -- the name stands before the backend in one form and after the flags in the other
    simp only [deviceOptions, List.cons_append, List.map_cons, List.map_append, List.map_nil,
      List.append_assoc, List.nil_append]
    exact .cons _ ((List.perm_append_comm.cons _).trans (.swap _ _ _))
  · rw [deviceOptions, offloadOptions]
    split <;> simp

/-- A backend with nothing from outside is the same in both forms. -/
theorem backend_sameOptions (hid : validNetworkID nic.id = true) {arg kind : String}
    (harg : arg.toList = kind.toList ++ ',' :: ("id".toList ++ '=' :: nic.id.toList))
    (hkind : ',' ∉ kind.toList ∧ '=' ∉ kind.toList) :
    SameOptions "type" arg [("id", .text nic.id), ("type", .text kind)] := by
  intro key
  rw [decodeArg_fields [] harg hkind ?_ (by decide)]
  · exact valueOf_perm (.swap _ _ _) (by simp) key
  · simp only [texts, List.nil_append, List.map_cons, List.map_nil, List.mem_singleton]
    rintro o rfl
    exact plain_field (by decide) (plain_id hid)

/-- Where both forms are written, only the backends can differ. -/
theorem coldMatchesLive_iff_backend (hid : validNetworkID nic.id = true)
    (hmac : isMAC nic.mac = true) (netdev : String) (backend : List (String × Value))
    (hargs : templateArgs nic = .ok ["-netdev", netdev, "-device",
      if nic.network = .bridge then bridgeDevice else "virtio-net-pci,netdev=net0"])
    (hcomma : ',' ∈ netdev.toList) (hbackend : networkBackend nic = .ok backend) :
    ColdMatchesLive nic ↔ SameOptions "type" (stringsReplaceAll netdev "net0" nic.id) backend := by
  rw [ColdMatchesLive, networkArgs, hargs, hbackend]
  simp only [nameArgs_pair hcomma]
  constructor
  · rintro ⟨netdev', device, heq, hsame, -⟩
    simp only [List.cons.injEq] at heq
    obtain ⟨-, rfl, -⟩ := heq
    exact hsame
  · intro hsame
    refine ⟨_, _, rfl, hsame, device_sameOptions hid hmac ?_⟩
    rw [deviceOptions, offloadOptions]
    split <;>
      simp [stringsReplaceAll, bridgeDevice, replaceAll, replaceFrom, texts, before, networkBus]

/-- An admitted bridge has a device, and an admitted mode is one that `specOf` gives. -/
theorem Admitted.mode {f : Network.Formats} (h : Admitted f nic) :
    (nic.network = .bridge → nic.bridge ≠ "") ∧ ∀ name, nic.network ≠ .other name := by
  rcases h.network with hmem | ⟨n, spec, -, hdev, hspec, hnet, hbridge, -, -⟩
  · simp only [List.mem_cons, List.not_mem_nil, or_false] at hmem
    rcases hmem with hm | hm | hm <;> simp [hm]
  · rw [hnet, hbridge]
    cases hm : n.mode <;> simp only [specOf, hm, Except.ok.injEq, reduceCtorEq] at hspec <;>
      subst hspec <;> simp [hdev, hm]

/-- Modes whose backend takes nothing from outside. -/
theorem coldMatchesLive_plain (hid : validNetworkID nic.id = true) (hmac : isMAC nic.mac = true)
    (kind : String) (hnet : nic.network ≠ .bridge)
    (hargs : templateArgs nic =
      .ok ["-netdev", kind ++ ",id=net0", "-device", "virtio-net-pci,netdev=net0"])
    (hbackend : networkBackend nic = .ok [("id", .text nic.id), ("type", .text kind)])
    (hkind : ',' ∉ kind.toList ∧ '=' ∉ kind.toList) (hword : ¬ "net0".toList <:+: kind.toList) :
    ColdMatchesLive nic := by
  rw [coldMatchesLive_iff_backend hid hmac (kind ++ ",id=net0") _ (by simpa [hnet] using hargs)
    (by simp) hbackend]
  refine backend_sameOptions hid ?_ hkind
  have hsplit : (kind ++ ",id=net0").toList = kind.toList ++ ',' :: "id=net0".toList := by simp
  rw [stringsReplaceAll, String.toList_ofList, hsplit,
    replaceAll_append_cons (by decide) (by decide), replaceAll_of_not_infix hword]
  simp [replaceAll, replaceFrom]

/-- Boot and live attachment make the same interface exactly where the text that its backend takes
from outside does not hold the template's name, unless that is the interface's own name, and holds
no comma. -/
theorem coldMatchesLive_iff (f : Network.Formats) (nic : InterfaceSpec) (h : Admitted f nic) :
    ColdMatchesLive nic ↔ (nic.id = "net0" ∨ ¬ "net0".toList <:+: nic.outside.toList) ∧
      ',' ∉ nic.outside.toList := by
  have hid := h.id
  have hplain : (nic.id = "net0" ∨ ¬ "net0".toList <:+: "".toList) ∧ ',' ∉ "".toList :=
    ⟨.inr (by decide), by decide⟩
  have hidPlain : ∀ o ∈ texts [("id", nic.id)], Plain ',' '=' o := by
    simp only [texts, List.map_cons, List.map_nil, List.mem_singleton]
    rintro o rfl
    exact plain_field (by decide) (plain_id hid)
  cases hnet : nic.network with
  | user =>
    rw [InterfaceSpec.outside, hnet]
    refine iff_of_true (coldMatchesLive_plain hid h.mac "user" (by simp [hnet]) ?_ ?_
      (by decide) (by decide)) hplain
    · rw [templateArgs, hnet]
      rfl
    · simp [networkBackend, hnet, hid]
  | vmnetHost =>
    rw [InterfaceSpec.outside, hnet]
    refine iff_of_true (coldMatchesLive_plain hid h.mac "vmnet-host" (by simp [hnet]) ?_ ?_
      (by decide) (by decide)) hplain
    · rw [templateArgs, hnet]
      rfl
    · simp [networkBackend, hnet, hid, NetworkMode.name]
  | vmnetShared =>
    rw [InterfaceSpec.outside, hnet]
    refine iff_of_true (coldMatchesLive_plain hid h.mac "vmnet-shared" (by simp [hnet]) ?_
      ?_ (by decide) (by decide)) hplain
    · rw [templateArgs, hnet]
      rfl
    · simp [networkBackend, hnet, hid, NetworkMode.name]
  | switch =>
    rw [InterfaceSpec.outside, hnet]
    by_cases hgroup : nic.group = ""
    · rw [hgroup]
      refine iff_of_true ?_ hplain
      simp [ColdMatchesLive, networkArgs, templateArgs, networkBackend, hnet, hgroup, hid]
    · rw [coldMatchesLive_iff_backend hid h.mac ("socket,id=net0,mcast=" ++ nic.group)
        ([("id", .text nic.id), ("type", .text "socket"), ("mcast", .text nic.group)])
        (by simp [templateArgs, hnet, hgroup]) (by simp)
        (by simp [networkBackend, hnet, hid, hgroup])]
      refine sameOptions_iff hid "socket" "mcast" [("id", nic.id)] ?_
        (by decide) hidPlain (by decide) (by simp) (.swap _ _ _)
      simp [stringsReplaceAll, replaceAll, replaceFrom, texts, before]
  | vmnetBridged =>
    rw [InterfaceSpec.outside, hnet]
    by_cases huplink : nic.uplink = ""
    · rw [huplink]
      refine iff_of_true ?_ hplain
      simp [ColdMatchesLive, networkArgs, templateArgs, networkBackend, hnet, huplink, hid]
    · rw [coldMatchesLive_iff_backend hid h.mac
        ("vmnet-bridged,id=net0,ifname=" ++ nic.uplink)
        ([("id", .text nic.id), ("type", .text "vmnet-bridged"),
          ("ifname", .text nic.uplink)])
        (by simp [templateArgs, hnet, huplink]) (by simp)
        (by simp [networkBackend, hnet, hid, huplink])]
      refine sameOptions_iff hid "vmnet-bridged" "ifname" [("id", nic.id)]
        ?_ (by decide) hidPlain (by decide) (by simp) (.swap _ _ _)
      simp [stringsReplaceAll, replaceAll, replaceFrom, texts, before]
  | bridge =>
    rw [InterfaceSpec.outside, hnet]
    have hbridge := h.mode.1 hnet
    by_cases hsocket : nic.socket = ""
    · rw [hsocket]
      refine iff_of_true ?_ hplain
      simp [ColdMatchesLive, networkArgs, templateArgs, networkBackend, hnet, hsocket, hid]
    · rw [coldMatchesLive_iff_backend hid h.mac
        ("stream,id=net0,server=off,addr.type=unix,addr.path=" ++ nic.socket)
        ([("id", .text nic.id), ("type", .text "stream"), ("server", .flag false),
          ("addr", .object [("type", "unix"), ("path", nic.socket)])])
        (by simp [templateArgs, hnet, hbridge, hsocket]) (by simp)
        (by simp [networkBackend, hnet, hid, hbridge, hsocket])]
      refine sameOptions_iff hid "stream" "addr.path"
        [("id", nic.id), ("server", "off"), ("addr.type", "unix")] ?_ (by decide) ?_
        (by decide) (by simp) (.swap _ _ _)
      · simp [stringsReplaceAll, replaceAll, replaceFrom, texts, before]
      · intro o ho
        rw [texts, List.map_cons, List.mem_cons] at ho
        rcases ho with rfl | ho
        · exact hidPlain _ (by simp [texts])
        · simp only [List.map_cons, List.map_nil, List.mem_cons, List.not_mem_nil, or_false] at ho
          rcases ho with rfl | rfl <;> exact plain_field (by decide) (by decide)
  | other name => exact absurd hnet (h.mode.2 name)

/-- Formats that take one network's identifier and name. -/
def labFormats : Network.Formats where
  uuid s := s = "0b8f6f9e-7c55-4c5c-8d0e-5a8b2f1c9d3e"
  hostname s := s = "lab"
  cidr _ := false
  ipv4CIDR _ := false
  shown _ := none

/-- A bridged network over `uplink`. -/
def bridgedNetwork (uplink : String) : NetworkManifest where
  id := "0b8f6f9e-7c55-4c5c-8d0e-5a8b2f1c9d3e"
  name := "lab"
  mode := .vmnetBridged
  uplink := uplink

/-- The second interface of a machine on a bridged network over `uplink`. -/
def bridgedInterface (uplink : String) : InterfaceSpec where
  id := "net1"
  mac := "02:00:00:00:00:01"
  network := .vmnetBridged
  uplink := uplink

theorem coldMatchesLive_en0 : Admitted labFormats (bridgedInterface "en0") ∧
    (ColdMatchesLive (bridgedInterface "en0") ↔
      ((bridgedInterface "en0").id = "net0" ∨
        ¬ "net0".toList <:+: (bridgedInterface "en0").outside.toList) ∧
      ',' ∉ (bridgedInterface "en0").outside.toList) := by
  have h : Admitted labFormats (bridgedInterface "en0") :=
    ⟨by decide, by decide, .inr ⟨bridgedNetwork "en0", { network := .vmnetBridged, uplink := "en0" },
      by rfl, by decide, by rfl, rfl, rfl, rfl, rfl⟩⟩
  exact ⟨h, coldMatchesLive_iff labFormats _ h⟩

/-- The uplink `vmnet0` holds the template's name: at boot the second interface is put on
`vmnet1`. -/
theorem not_coldMatchesLive_vmnet0 : ¬ ∀ f nic, Admitted f nic → ColdMatchesLive nic := by
  intro hall
  have h : Admitted labFormats (bridgedInterface "vmnet0") :=
    ⟨by decide, by decide, .inr ⟨bridgedNetwork "vmnet0",
      { network := .vmnetBridged, uplink := "vmnet0" },
      by rfl, by decide, by rfl, rfl, rfl, rfl, rfl⟩⟩
  have hboth := hall labFormats _ h
  have hargs : networkArgs (bridgedInterface "vmnet0") =
      .ok ["-netdev", "vmnet-bridged,id=net1,ifname=vmnet1", "-device",
        "virtio-net-pci,netdev=net1,id=net1,mac=02:00:00:00:00:01,bus=maco-net1,addr=0" ++
          ",disable-legacy=on"] := by decide
  have hbackend : networkBackend (bridgedInterface "vmnet0") =
      .ok [("id", .text "net1"), ("type", .text "vmnet-bridged"), ("ifname", .text "vmnet0")] := by
    decide
  rw [ColdMatchesLive, hargs, hbackend] at hboth
  obtain ⟨netdev, device, heq, hsame, -⟩ := hboth
  simp only [List.cons.injEq] at heq
  obtain ⟨-, rfl, -⟩ := heq
  exact absurd (hsame "ifname") (by decide)

end Maco.VM
