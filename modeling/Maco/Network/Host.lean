import Maco.Network.Check
import Maco.Lib.History
import Maco.Lib.Table

/-! The host network and the network store, as the calls that the network operations make see them.
Each interface, bridge member and address carries a mark that says whether maco made it. -/

namespace Maco.Network

open Concurrent

/-- A host interface.  `made` says whether maco created it, and the members and addresses say
whether maco put them there. -/
structure Interface where
  made : Bool
  bridge : Bool := false
  members : List (String × Bool) := []
  addresses : List (String × Bool) := []
  vlan : Option (String × Int) := none
  deriving DecidableEq, Repr

abbrev Host := Table Interface

/-- What a manifest can record as created or applied. -/
inductive Thing where
  | interface (device : String)
  | member (device member : String)
  | address (device address : String)
  deriving DecidableEq, Repr

/-- The marks under which a thing is on the host. -/
def Host.marks (h : Host) : Thing → List Bool
  | .interface device => ((h.get device).map (·.made)).toList
  | .member device member =>
    match h.get device with
    | none => []
    | some i => (i.members.filter (·.1 = member)).map (·.2)
  | .address device address =>
    match h.get device with
    | none => []
    | some i => (i.addresses.filter (·.1 = address)).map (·.2)

def Host.Has (h : Host) (x : Thing) : Prop := h.marks x ≠ []

/-- The thing is on the host, and not by maco's doing. -/
def Host.Foreign (h : Host) (x : Thing) : Prop := false ∈ h.marks x

instance (h : Host) (x : Thing) : Decidable (h.Foreign x) :=
  inferInstanceAs (Decidable (false ∈ h.marks x))

/-! ### Calls -/

/-- The calls.  The creation and the destruction of an interface also say for which network they are
made, which the host does not read. -/
inductive NetCall where
  | lock
  | unlock
  | newString
  | save (n : NetworkManifest)
  | load (id : String)
  | resolve (ref : String)
  | list
  | delete (id : String)
  | interfaceExists (device : String)
  | isBridge (device : String)
  | bridgeMembers (device : String)
  | createBridge (network : String)
  | createVLAN (network : String)
  | destroy (network device : String)
  | addMember (bridge member : String)
  | removeMember (bridge member : String)
  | configureVLAN (device parent : String) (tag : Int)
  | findVLAN (parent : String) (tag : Int)
  | hasAddress (device address : String)
  | setAddress (device cidr : String)
  | removeAlias (device address : String)
  | up (device : String)
  | listVMs
  | running (vmID : String)
  | pendingReferences (vmID : String)

@[reducible] def NetCall.Reply : NetCall → Type
  | .unlock => Unit
  | .newString => String
  | .load _ | .resolve _ => Except Message NetworkManifest
  | .list => Except Message (List NetworkManifest)
  | .interfaceExists _ | .isBridge _ | .hasAddress _ _ | .running _ => Bool
  | .bridgeMembers _ => Except Message (List String)
  | .createBridge _ | .createVLAN _ => Except Message String
  | .findVLAN _ _ => Except Message String
  | .listVMs => Except Message (List VMManifest)
  | .pendingReferences _ => Except Message (List String)
  | _ => Except Message Unit

abbrev Net := Prog NetCall NetCall.Reply

/-- One call. -/
def netCall (c : NetCall) : Net c.Reply := .request c

/-- `RemoveAddress`. -/
def removeAddress (device address : String) : Net (Except Message Unit) := do
  if !(← netCall (.hasAddress device address)) then return .ok ()
  else netCall (.removeAlias device address)

/-! ### What the calls do -/

/-- The host, the store, whether maco has ever removed a thing that it had not put there, and whether
it has destroyed a VLAN interface that another network records. -/
structure NetState where
  host : Host := []
  manifests : Table NetworkManifest := []
  issued : List String := []
  trespass : Bool := false
  severed : Bool := false

/-- The choices of the environment: a call does its work, fails, or fails after its work; a new
name; an address that is there already; and what the machines are doing. -/
inductive NetChoice where
  | ok
  | fail (e : Message)
  | failTook (e : Message)
  | name (device : String)
  | fileExists
  | vms (vms : List VMManifest)
  | running (running : Bool)
  | references (refs : List String)

/-- The manifests as `List` reads them, by their files' names. -/
def NetState.listed (s : NetState) : List NetworkManifest :=
  s.manifests.sorted.map (·.2)

/-- `Load`, which checks what it reads. -/
def NetState.loaded (f : Formats) (s : NetState) (id : String) : Except Message NetworkManifest :=
  match s.manifests.get id with
  | none => .error "network not found"
  | some n =>
    match check f n with
    | .error _ => .error "invalid network"
    | .ok () => if n.id = id then .ok n else .error "network ID does not match filename"

def NetState.allLoaded (f : Formats) (s : NetState) : Except Message (List NetworkManifest) :=
  s.listed.mapM fun n => s.loaded f n.id

/-- `Resolve`: by id, else by name. -/
def NetState.resolved (f : Formats) (s : NetState) (ref : String) :
    Except Message NetworkManifest :=
  match s.loaded f ref with
  | .ok n => .ok n
  | .error _ =>
    match s.allLoaded f with
    | .error e => .error e
    | .ok networks =>
      match networks.find? (·.name = ref) with
      | some n => .ok n
      | none => .error "network not found"

/-- A step that removes a thing from the host. -/
def NetState.remove (s : NetState) (x : Thing) (h : Host) : NetState :=
  { s with host := h, trespass := s.trespass || decide (s.host.Foreign x) }

/-- The host without an interface, which also leaves the bridges. -/
def Host.destroyed (h : Host) (device : String) : Host :=
  (h.without [device]).map fun e =>
    (e.1, { e.2 with members := e.2.members.filter (·.1 ≠ device) })

/-- The manifest records the interface as its own or as a member. -/
def recordsInterface (n : NetworkManifest) (device : String) : Bool :=
  n.device = device || device ∈ n.members || device ∈ n.appliedMembers ||
    n.appliedVLANs.any (·.device = device)

/-- A stored network other than `network` records the VLAN interface. -/
def NetState.shared (s : NetState) (network device : String) : Bool :=
  vlanName device && s.manifests.any fun e =>
    e.1 ≠ network && (s.manifests.get e.1).any (recordsInterface · device)

/-- The state after an interface is destroyed for a network. -/
def NetState.destroyed (s : NetState) (network device : String) : NetState :=
  { s.remove (.interface device) (s.host.destroyed device) with
    severed := s.severed || s.shared network device }

/-- The member is on no bridge. -/
def Host.free (h : Host) (member : String) : Bool :=
  h.all fun e => e.2.members.all (·.1 ≠ member)

/-- `FindVLAN`: the first interface by name with the parent and tag. -/
def Host.findVLAN (h : Host) (parent : String) (tag : Int) : String :=
  let found := h.filter fun e =>
    "vlan".toList.isPrefixOf e.1.toList && (h.get e.1).bind (·.vlan) = some (parent, tag)
  ((Table.sorted found).map (·.1)).headD ""

/-- The reply to a command that may fail. -/
def NetChoice.command (c : NetChoice) (s t : NetState) : Option (Except Message Unit × NetState) :=
  match c with
  | .ok => some (.ok (), t)
  | .fail e => some (.error e, s)
  | _ => none

/-- The reply to a query that may fail. -/
def NetChoice.query {α : Type} (c : NetChoice) (x : Except Message α) (s : NetState) :
    Option (Except Message α × NetState) :=
  match c with
  | .ok => some (x, s)
  | .fail e => some (.error e, s)
  | _ => none

/-- The reply to a question that is answered with no when it fails. -/
def NetChoice.test (c : NetChoice) (x : Bool) (s : NetState) : Option (Bool × NetState) :=
  match c with
  | .ok => some (x, s)
  | .fail _ => some (false, s)
  | _ => none

/-- A new interface of a kind, under a name that is free. -/
def NetState.create (s : NetState) (kind : String) (i : Interface) :
    NetChoice → Option (Except Message String × NetState)
  | .name device =>
    if numbered kind device && (s.host.get device).isNone then
      some (.ok device, { s with host := s.host.put device i })
    else none
  | .fail e => some (.error e, s)
  | _ => none

/-- A command that cannot succeed unless `able`. -/
def NetChoice.attempt (c : NetChoice) (able : Bool) (s t : NetState) :
    Option (Except Message Unit × NetState) :=
  match c with
  | .ok => if able then some (.ok (), t) else none
  | .fail e => some (.error e, s)
  | _ => none

/-- A write of a file, which can also fail once it has taken effect. -/
def NetChoice.write (c : NetChoice) (able : Bool) (s t : NetState) :
    Option (Except Message Unit × NetState) :=
  match c with
  | .failTook e => if able then some (.error e, t) else none
  | c => c.attempt able s t

/-- A setting of an address, which may be found to be set already. -/
def NetChoice.setAlias (c : NetChoice) (able : Bool) (s t : NetState) :
    Option (Except Message Unit × NetState) :=
  match c with
  | .fileExists => some (.ok (), s)
  | c => c.attempt able s t

def NetState.update (s : NetState) (device : String) (change : Interface → Interface) : NetState :=
  match s.host.get device with
  | some i => { s with host := s.host.put device (change i) }
  | none => s

def Interface.hasMember (i : Interface) (member : String) : Bool :=
  i.members.any (·.1 = member)

def Interface.hasAddress (i : Interface) (address : String) : Bool :=
  i.addresses.any (·.1 = address)

/-- The interface is there and passes a test. -/
def Host.test (h : Host) (device : String) (p : Interface → Bool) : Bool :=
  (h.get device).any p

/-- The host without a member of a bridge. -/
def Host.detached (h : Host) (bridge member : String) : Host :=
  match h.get bridge with
  | some i => h.put bridge { i with members := i.members.filter (·.1 ≠ member) }
  | none => h

/-- The host without an address of an interface. -/
def Host.unaddressed (h : Host) (device address : String) : Host :=
  match h.get device with
  | some i => h.put device { i with addresses := i.addresses.filter (·.1 ≠ address) }
  | none => h

def NetState.perform (f : Formats) : Perform NetCall NetCall.Reply NetChoice NetState
  | .lock, c, s => c.command s s
  | .unlock, _, s => some ((), s)
  | .newString, .name id, s =>
    if id ∈ s.issued then none else some (id, { s with issued := id :: s.issued })
  | .save n, c, s =>
    c.write (check f n = .ok ()) s { s with manifests := s.manifests.put n.id n }
  | .load id, c, s => c.query (s.loaded f id) s
  | .resolve ref, c, s => c.query (s.resolved f ref) s
  | .list, c, s => c.query (s.allLoaded f) s
  | .delete id, c, s =>
    c.attempt (s.manifests.get id).isSome s { s with manifests := s.manifests.without [id] }
  | .interfaceExists device, c, s => c.test (s.host.get device).isSome s
  | .isBridge device, c, s =>
    c.test (s.host.test device (·.bridge) && "bridge".toList.isPrefixOf device.toList) s
  | .bridgeMembers device, c, s =>
    match s.host.get device with
    | some i => c.query (.ok (i.members.map (·.1))) s
    | none => c.query (.error "inspect interface") s
  | .createBridge _, c, s => s.create "bridge" { made := true, bridge := true } c
  | .createVLAN _, c, s => s.create "vlan" { made := true } c
  | .destroy network device, c, s =>
    c.attempt (s.host.get device).isSome s (s.destroyed network device)
  | .addMember bridge member, c, s =>
    c.attempt (s.host.test bridge (·.bridge) && (s.host.get member).isSome && s.host.free member) s
      (s.update bridge fun i => { i with members := i.members ++ [(member, true)] })
  | .removeMember bridge member, c, s =>
    c.attempt (s.host.test bridge (·.hasMember member)) s
      (s.remove (.member bridge member) (s.host.detached bridge member))
  | .configureVLAN device parent tag, c, s =>
    match (s.host.get device).map (·.vlan) with
    | none => c.query (.error "inspect interface") s
    | some (some vlan) =>
      c.query (if vlan = (parent, tag) then .ok () else
        .error ("VLAN " ++ device ++
          " already has different configuration; recreate it to change its parent or tag")) s
    | some none => c.command s (s.update device fun i => { i with vlan := some (parent, tag) })
  | .findVLAN parent tag, c, s => c.query (.ok (s.host.findVLAN parent tag)) s
  | .hasAddress device address, c, s =>
    c.test (s.host.test device (·.hasAddress address)) s
  | .setAddress device cidr, c, s =>
    match f.shown cidr with
    | none => c.query (.error (Message.quoted "address " cidr ++ ": only IPv4 is supported")) s
    | some text => c.setAlias (s.host.get device).isSome s (s.update device fun i =>
        if i.hasAddress text then i else { i with addresses := i.addresses ++ [(text, true)] })
  | .removeAlias device address, c, s =>
    c.attempt (s.host.test device (·.hasAddress address)) s
      (s.remove (.address device address) (s.host.unaddressed device address))
  | .up device, c, s => c.attempt (s.host.get device).isSome s s
  | .listVMs, .vms vms, s => some (.ok vms, s)
  | .listVMs, .fail e, s => some (.error e, s)
  | .running _, .running running, s => some (running, s)
  | .pendingReferences _, .references refs, s => some (.ok refs, s)
  | .pendingReferences _, .fail e, s => some (.error e, s)
  | _, _, _ => none

/-- The host after a reboot: what was created by commands is gone. -/
def NetState.reboot (s : NetState) : NetState :=
  { s with
    host := (s.host.filter fun e => !e.2.made).map fun e => (e.1, { e.2 with members := [] }) }

/-! ### What a choice leads to -/

theorem loaded_stored {f : Formats} {s : NetState} {id : String} {n : NetworkManifest}
    (h : s.loaded f id = .ok n) : s.manifests.get id = some n ∧ check f n = .ok () ∧ n.id = id := by
  unfold NetState.loaded at h
  split at h
  · contradiction
  · rename_i n' hn
    split at h
    · contradiction
    · rename_i hcheck
      split at h
      · rename_i hid
        cases h
        exact ⟨hn, hcheck, hid⟩
      · contradiction

theorem mem_allLoaded {f : Formats} {s : NetState} {networks : List NetworkManifest}
    (h : s.allLoaded f = .ok networks) {n : NetworkManifest} (hn : n ∈ networks) :
    ∃ id, s.loaded f id = .ok n := by
  have collect : ∀ (l : List NetworkManifest) (out : List NetworkManifest),
      l.mapM (fun n => s.loaded f n.id) = .ok out → ∀ n ∈ out, ∃ id, s.loaded f id = .ok n := by
    intro l
    induction l with
    | nil =>
      intro out hout
      cases hout
      simp
    | cons m l ih =>
      intro out hout
      rw [List.mapM_cons] at hout
      rcases hm : s.loaded f m.id with e | m'
      · rw [hm] at hout
        cases hout
      · rcases hrest : l.mapM (fun n => s.loaded f n.id) with e | out'
        · rw [hm, hrest] at hout
          cases hout
        · rw [hm, hrest] at hout
          cases hout
          intro n hn
          rcases List.mem_cons.mp hn with rfl | hn
          · exact ⟨m.id, hm⟩
          · exact ih out' hrest n hn
  exact collect _ _ h n hn

/-- A list that is read without error has every stored manifest. -/
theorem allLoaded_mem {f : Formats} {s : NetState} {networks : List NetworkManifest}
    (h : s.allLoaded f = .ok networks) {n : NetworkManifest}
    (hn : s.manifests.get n.id = some n) : n ∈ networks := by
  have collect : ∀ (l : List NetworkManifest) (out : List NetworkManifest),
      l.mapM (fun n => s.loaded f n.id) = .ok out → n ∈ l → n ∈ out := by
    intro l
    induction l with
    | nil => exact fun _ _ hmem => absurd hmem List.not_mem_nil
    | cons m l ih =>
      intro out hout hmem
      rw [List.mapM_cons] at hout
      rcases hm : s.loaded f m.id with e | m'
      · rw [hm] at hout
        cases hout
      · rcases hrest : l.mapM (fun n => s.loaded f n.id) with e | out'
        · rw [hm, hrest] at hout
          cases hout
        · rw [hm, hrest] at hout
          cases hout
          rcases List.mem_cons.mp hmem with rfl | hmem
          · have hstored := (loaded_stored hm).1
            rw [hn] at hstored
            cases hstored
            exact List.mem_cons_self
          · exact List.mem_cons_of_mem m' (ih out' hrest hmem)
  refine collect _ _ h (List.mem_map.mpr ⟨(n.id, n), ?_, rfl⟩)
  exact (Table.mem_sorted _ _).mpr (Table.mem_of_get hn)

theorem resolved_loaded {f : Formats} {s : NetState} {ref : String} {n : NetworkManifest}
    (h : s.resolved f ref = .ok n) : ∃ id, s.loaded f id = .ok n := by
  unfold NetState.resolved at h
  split at h
  · rename_i n' hn
    cases h
    exact ⟨ref, hn⟩
  · split at h
    · contradiction
    · rename_i networks hnetworks
      split at h
      · rename_i n' hfind
        cases h
        exact mem_allLoaded hnetworks (List.mem_of_find?_eq_some hfind)
      · contradiction

theorem NetChoice.attempt_cases {c : NetChoice} {able : Bool} {s u t : NetState}
    {r : Except Message Unit} (h : c.attempt able s u = some (r, t)) :
    (able = true ∧ r = .ok () ∧ t = u) ∨ (t = s ∧ ∃ e, r = .error e) := by
  cases c with
  | ok =>
    rw [attempt] at h
    split at h
    · rename_i hable
      cases h
      exact .inl ⟨hable, rfl, rfl⟩
    · contradiction
  | fail e =>
    cases h
    exact .inr ⟨rfl, e, rfl⟩
  | failTook e | name d | fileExists | vms l | running b | references l => cases h

theorem NetChoice.write_cases {c : NetChoice} {able : Bool} {s u t : NetState}
    {r : Except Message Unit} (h : c.write able s u = some (r, t)) :
    (able = true ∧ t = u) ∨ (t = s ∧ ∃ e, r = .error e) := by
  cases c with
  | failTook e =>
    rw [write] at h
    split at h
    · rename_i hable
      cases h
      exact .inl ⟨hable, rfl⟩
    · contradiction
  | ok | fail e | name d | fileExists | vms l | running b | references l =>
    simp only [write] at h
    exact (NetChoice.attempt_cases h).imp_left fun hu => ⟨hu.1, hu.2.2⟩

theorem NetChoice.setAlias_cases {c : NetChoice} {able : Bool} {s u t : NetState}
    {r : Except Message Unit} (h : c.setAlias able s u = some (r, t)) :
    (r = .ok () ∧ (t = u ∨ t = s) ∧ ∀ e, c ≠ .fail e) ∨ (t = s ∧ ∃ e, r = .error e) := by
  cases c with
  | fileExists =>
    cases h
    exact .inl ⟨rfl, .inr rfl, nofun⟩
  | ok =>
    simp only [setAlias] at h
    exact (NetChoice.attempt_cases h).imp_left fun hu =>
      ⟨hu.2.1, .inl hu.2.2, nofun⟩
  | fail e =>
    cases h
    exact .inr ⟨rfl, e, rfl⟩
  | failTook e | name d | vms l | running b | references l => cases h

theorem NetChoice.command_cases {c : NetChoice} {s u t : NetState} {r : Except Message Unit}
    (h : c.command s u = some (r, t)) :
    (r = .ok () ∧ t = u) ∨ (t = s ∧ ∃ e, r = .error e) := by
  cases c with
  | ok =>
    cases h
    exact .inl ⟨rfl, rfl⟩
  | fail e =>
    cases h
    exact .inr ⟨rfl, e, rfl⟩
  | failTook e | name d | fileExists | vms l | running b | references l => cases h

theorem NetChoice.query_cases {α : Type} {c : NetChoice} {x : Except Message α} {s t : NetState}
    {r : Except Message α} (h : c.query x s = some (r, t)) :
    t = s ∧ (r = x ∨ ∃ e, r = .error e) := by
  cases c with
  | ok =>
    cases h
    exact ⟨rfl, .inl rfl⟩
  | fail e =>
    cases h
    exact ⟨rfl, .inr ⟨e, rfl⟩⟩
  | failTook e | name d | fileExists | vms l | running b | references l => cases h

theorem NetChoice.test_same {c : NetChoice} {x b : Bool} {s t : NetState}
    (h : c.test x s = some (b, t)) : t = s := by
  cases c with
  | ok | fail e =>
    cases h
    rfl
  | failTook e | name d | fileExists | vms l | running b | references l => cases h

/-- A new interface has nothing foreign about it. -/
theorem NetState.create_cases {s t : NetState} {kind : String} {i : Interface} {c : NetChoice}
    {r : Except Message String} (h : s.create kind i c = some (r, t)) :
    (∃ d, r = .ok d ∧ s.host.get d = none ∧ t = { s with host := s.host.put d i }) ∨
      (t = s ∧ ∃ e, r = .error e) := by
  cases c with
  | name d =>
    rw [create] at h
    split at h
    · rename_i hd
      cases h
      simp only [Bool.and_eq_true, Option.isNone_iff_eq_none] at hd
      exact .inl ⟨d, rfl, hd.2, rfl⟩
    · contradiction
  | fail e =>
    cases h
    exact .inr ⟨rfl, e, rfl⟩
  | ok | failTook e | fileExists | vms l | running b | references l => cases h

end Maco.Network
