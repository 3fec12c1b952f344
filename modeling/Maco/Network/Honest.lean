import Maco.Network.Host

/-! What is on the host by maco's doing.  A manifest records what was created and applied for it;
a state is honest when everything recorded that is on the host is maco's, and nothing else was ever
removed.  The module says what a single call does to an honest state. -/

namespace Maco.Network

open Concurrent

/-- What the manifest records as created or applied by maco. -/
def Records (n : NetworkManifest) : Thing → Prop
  | .interface device => (n.owned = true ∧ n.device = device) ∨
    ∃ v ∈ n.appliedVLANs, v.borrowed = false ∧ v.device = device
  | .member device member => n.mode = .bridge ∧ n.device = device ∧ member ∈ n.appliedMembers
  | .address device address =>
    n.mode = .bridge ∧ n.device = device ∧ n.appliedAddress = address ∧ address ≠ ""

/-- What the manifest records and is on the host is maco's. -/
def Rightful (n : NetworkManifest) (h : Host) : Prop := ∀ x, Records n x → ¬ h.Foreign x

/-- The stored manifests are rightful, and maco has removed nothing that was not its own. -/
structure NetState.Honest (s : NetState) : Prop where
  stored : ∀ id n, s.manifests.get id = some n → Rightful n s.host
  clean : s.trespass = false

/-- No address that is not maco's is set again, or found in place, by the command that sets one. -/
def Untaken : NetCall → NetChoice → NetState → Prop
  | .setAddress _ _, .fail _, _ => True
  | .setAddress device cidr, _, s => ¬ s.host.Foreign (.address device cidr)
  | _, _, _ => True

/-- The later state has no foreign things but those that were there. -/
def NoneAdded (s t : NetState) : Prop := ∀ x, t.host.Foreign x → s.host.Foreign x

/-- The network operations, in honesty. -/
def honesty (f : Formats) : Discipline NetCall NetCall.Reply NetChoice NetState where
  perform := NetState.perform f
  allowed := Untaken
  Inv := NetState.Honest
  le := NoneAdded
  refl _ _ h := h
  trans _ _ _ h1 h2 x h := h1 x (h2 x h)

theorem Rightful.mono {n : NetworkManifest} {s t : NetState} (h : Rightful n s.host)
    (hst : NoneAdded s t) : Rightful n t.host :=
  fun x hx hf => h x hx (hst x hf)

/-! ### The host -/

/-- The interface on which a thing is, or which it is. -/
def Thing.device : Thing → String
  | .interface device | .member device _ | .address device _ => device

/-- The thing is part of the interface, and not by maco's doing. -/
def Interface.Alien (i : Interface) : Thing → Prop
  | .interface _ => i.made = false
  | .member _ member => (member, false) ∈ i.members
  | .address _ address => (address, false) ∈ i.addresses

theorem foreign_iff (h : Host) (x : Thing) :
    h.Foreign x ↔ ∃ i, h.get x.device = some i ∧ i.Alien x := by
  unfold Host.Foreign
  cases x with
  | interface d =>
    rcases hd : h.get d with _ | i
    · simp [Host.marks, Thing.device, hd]
    · cases hmade : i.made <;> simp [Host.marks, Thing.device, Interface.Alien, hd, hmade]
  | member d m =>
    rcases hd : h.get d with _ | i
    · simp [Host.marks, Thing.device, hd]
    · simp [Host.marks, Thing.device, Interface.Alien, hd]
  | address d a =>
    rcases hd : h.get d with _ | i
    · simp [Host.marks, Thing.device, hd]
    · simp [Host.marks, Thing.device, Interface.Alien, hd]

/-- Where every interface had what is alien to it before, no foreign thing is new. -/
theorem foreign_of_alien {h h' : Host}
    (hsub : ∀ d j, h'.get d = some j → ∀ x : Thing, x.device = d → j.Alien x →
      ∃ i, h.get d = some i ∧ i.Alien x) {x : Thing} (hx : h'.Foreign x) : h.Foreign x := by
  obtain ⟨j, hj, halien⟩ := (foreign_iff h' x).mp hx
  exact (foreign_iff h x).mpr (hsub x.device j hj x rfl halien)

theorem foreign_put {h : Host} {device : String} {j : Interface}
    (hj : ∀ x : Thing, x.device = device → j.Alien x → h.Foreign x) {x : Thing}
    (hx : Host.Foreign (h.put device j) x) : h.Foreign x := by
  obtain ⟨i, hi, halien⟩ := (foreign_iff _ x).mp hx
  rw [Table.get_put] at hi
  split at hi
  · rename_i hd
    cases hi
    exact hj x hd halien
  · exact (foreign_iff h x).mpr ⟨i, hi, halien⟩

theorem NetState.update_foreign {s : NetState} {device : String} {change : Interface → Interface}
    (hchange : ∀ i x, (change i).Alien x → i.Alien x) : NoneAdded s (s.update device change) := by
  intro x hx
  unfold NetState.update at hx
  split at hx
  · rename_i i hi
    exact foreign_put (fun y hy halien =>
      (foreign_iff _ y).mpr ⟨i, hy ▸ hi, hchange i y halien⟩) hx
  · exact hx

theorem get_destroyed (h : Host) (device d : String) :
    Table.get (h.destroyed device) d = if d = device then none else
      (h.get d).map fun i => { i with members := i.members.filter (·.1 ≠ device) } := by
  have lookup_map : ∀ l : Host, Table.get (l.map fun e =>
      (e.1, { e.2 with members := e.2.members.filter (·.1 ≠ device) })) d =
      (l.get d).map fun i => { i with members := i.members.filter (·.1 ≠ device) } := by
    intro l
    induction l with
    | nil => rfl
    | cons e l ih =>
      obtain ⟨name, i⟩ := e
      by_cases hd : d = name
      · simp [Table.get, hd]
      · have hne : (d == name) = false := by simpa using hd
        simpa [Table.get, List.lookup_cons, hne] using ih
  unfold Host.destroyed
  rw [lookup_map, Table.get_without]
  by_cases hd : d = device <;> simp [hd]

theorem destroyed_foreign {h : Host} {device : String} {x : Thing}
    (hx : (h.destroyed device).Foreign x) : h.Foreign x := by
  refine foreign_of_alien (fun d j hj y hy halien => ?_) hx
  rw [get_destroyed] at hj
  split at hj
  · contradiction
  · obtain ⟨i, hi, rfl⟩ := Option.map_eq_some_iff.mp hj
    refine ⟨i, hi, ?_⟩
    cases y with
    | member d' m => exact List.mem_of_mem_filter halien
    | interface d' | address d' a => exact halien

theorem detached_foreign {h : Host} {bridge member : String} {x : Thing}
    (hx : (h.detached bridge member).Foreign x) : h.Foreign x := by
  unfold Host.detached at hx
  split at hx
  · rename_i i hi
    refine foreign_put (fun y hy halien => (foreign_iff _ y).mpr ⟨i, hy ▸ hi, ?_⟩) hx
    cases y with
    | member d' m => exact List.mem_of_mem_filter halien
    | interface d' | address d' a => exact halien
  · exact hx

theorem unaddressed_foreign {h : Host} {device address : String} {x : Thing}
    (hx : (h.unaddressed device address).Foreign x) : h.Foreign x := by
  unfold Host.unaddressed at hx
  split at hx
  · rename_i i hi
    refine foreign_put (fun y hy halien => (foreign_iff _ y).mpr ⟨i, hy ▸ hi, ?_⟩) hx
    cases y with
    | address d' a => exact List.mem_of_mem_filter halien
    | interface d' | member d' m => exact halien
  · exact hx

/-! ### What one call does -/

/-- The call, made in this state, saves what is rightful and removes nothing that is foreign. -/
def NetCall.Clean : NetCall → NetState → Prop
  | .save n, s => Rightful n s.host
  | .destroy _ device, s => ¬ s.host.Foreign (.interface device)
  | .removeMember bridge member, s => ¬ s.host.Foreign (.member bridge member)
  | .removeAlias device address, s => ¬ s.host.Foreign (.address device address)
  | _, _ => True

/-- The manifest is rightful, and so is each of its VLANs with a device. -/
structure Sound (n : NetworkManifest) (h : Host) : Prop where
  rightful : Rightful n h
  vlans : ∀ v ∈ n.vlans, v.borrowed = false → v.device ≠ "" →
    ¬ h.Foreign (.interface v.device)

/-- What is known after a call that has not failed. -/
def NetCall.After : (a : NetCall) → a.Reply → NetState → Prop
  | .load _, r, t | .resolve _, r, t => ∀ n, r = .ok n → Sound n t.host
  | .list, r, t => ∀ networks, r = .ok networks → ∀ n ∈ networks, Sound n t.host
  | .createBridge _, r, t | .createVLAN _, r, t =>
    ∀ device, r = .ok device → ∀ x : Thing, x.device = device → ¬ t.host.Foreign x
  | .addMember bridge member, r, t => r = .ok () → ¬ t.host.Foreign (.member bridge member)
  | .setAddress device cidr, r, t => r = .ok () → ¬ t.host.Foreign (.address device cidr)
  | _, _, _ => True

theorem NetState.Honest.of_host {s t : NetState} (h : s.Honest) (hst : NoneAdded s t)
    (hmanifests : t.manifests = s.manifests) (htrespass : t.trespass = false) : t.Honest where
  stored id n hn := (h.stored id n (hmanifests ▸ hn)).mono hst
  clean := htrespass

theorem NetState.Honest.sound {f : Formats} {s : NetState} (hs : s.Honest) {id : String}
    {n : NetworkManifest} (h : s.loaded f id = .ok n) : Sound n s.host := by
  obtain ⟨hn, hcheck, -⟩ := loaded_stored h
  have hright := hs.stored id n hn
  exact ⟨hright, fun v hv hb hd =>
    hright _ (.inr ⟨v, check_vlans hcheck hv hd, hb, rfl⟩)⟩

section Step

variable {f : Formats} {s t : NetState}

theorem free_not_member {h : Host} {bridge member : String} {i : Interface} {mark : Bool}
    (hfree : h.free member = true) (hi : h.get bridge = some i) : (member, mark) ∉ i.members := by
  intro hmem
  have hentry : (bridge, i) ∈ h := by
    obtain ⟨l₁, l₂, rfl, -⟩ := List.lookup_eq_some_iff.mp hi
    simp
  have := List.all_eq_true.mp (List.all_eq_true.mp hfree (bridge, i) hentry) (member, mark) hmem
  simp at this

/-- A call that leaves the state as it is. -/
theorem NetState.Honest.same (hs : s.Honest) {P : NetState → Prop} (hP : P s) (h : t = s) :
    t.Honest ∧ NoneAdded s t ∧ P t := by
  subst h
  exact ⟨hs, fun _ hx => hx, hP⟩

theorem NetState.Honest.saved (hs : s.Honest) {n : NetworkManifest} (hn : Rightful n s.host) :
    NetState.Honest { s with manifests := s.manifests.put n.id n } where
  stored id m hm := by
    rw [Table.get_put] at hm
    split at hm
    · cases hm
      exact hn
    · exact hs.stored id m hm
  clean := hs.clean

theorem NetState.Honest.removed (hs : s.Honest) {x : Thing} {h : Host}
    (hx : ¬ s.host.Foreign x) (hsub : ∀ y, h.Foreign y → s.host.Foreign y) :
    (s.remove x h).Honest ∧ NoneAdded s (s.remove x h) := by
  refine ⟨hs.of_host hsub rfl ?_, hsub⟩
  show (s.trespass || decide (s.host.Foreign x)) = false
  simp [hs.clean, hx]

theorem NetState.Honest.updated (hs : s.Honest) (device : String)
    {change : Interface → Interface} (hchange : ∀ i x, (change i).Alien x → i.Alien x) :
    (s.update device change).Honest ∧ NoneAdded s (s.update device change) := by
  have hsub := @NetState.update_foreign s device change hchange
  refine ⟨hs.of_host hsub ?_ ?_, hsub⟩
  · unfold NetState.update
    split <;> rfl
  · unfold NetState.update
    split <;> exact hs.clean

theorem NetState.Honest.created (hs : s.Honest) {d : String} {i : Interface}
    (hi : ∀ x : Thing, x.device = d → ¬ i.Alien x) :
    NetState.Honest { s with host := s.host.put d i } ∧
      NoneAdded s { s with host := s.host.put d i } ∧
      ∀ x : Thing, x.device = d → ¬ Host.Foreign (s.host.put d i) x := by
  have hsub : NoneAdded s { s with host := s.host.put d i } := fun x hx =>
    foreign_put (fun y hy halien => absurd halien (hi y hy)) hx
  refine ⟨hs.of_host hsub rfl hs.clean, hsub, fun x hx hf => ?_⟩
  obtain ⟨j, hj, halien⟩ := (foreign_iff _ x).mp hf
  rw [Table.get_put, if_pos hx] at hj
  cases hj
  exact hi x hx halien

theorem NetState.Honest.mark (hs : s.Honest) {kind : String} {i : Interface} {c : NetChoice}
    {r : Except Message String} (hi : ∀ x : Thing, ¬ i.Alien x)
    (h : s.create kind i c = some (r, t)) :
    t.Honest ∧ NoneAdded s t ∧
      ∀ device, r = .ok device → ∀ x : Thing, x.device = device → ¬ t.host.Foreign x := by
  obtain ⟨d, rfl, -, rfl⟩ | ⟨rfl, e, rfl⟩ := NetState.create_cases h
  · obtain ⟨hhonest, hsub, hfresh⟩ := hs.created (d := d) fun x _ => hi x
    refine ⟨hhonest, hsub, fun device hdevice => ?_⟩
    cases hdevice
    exact hfresh
  · exact ⟨hs, fun _ hx => hx, nofun⟩

/-- What one call does, when it is clean and no foreign address is taken for one of maco's. -/
theorem NetState.perform_honest {a : NetCall} {c : NetChoice} {r : a.Reply} (hs : s.Honest)
    (ha : a.Clean s) (hc : Untaken a c s) (h : NetState.perform f a c s = some (r, t)) :
    t.Honest ∧ NoneAdded s t ∧ a.After r t := by
  have same : ∀ {P : NetState → Prop}, P s → t = s → t.Honest ∧ NoneAdded s t ∧ P t :=
    fun hP => hs.same hP
  cases a with
  | lock =>
    obtain ⟨-, rfl⟩ | ⟨rfl, -⟩ := NetChoice.command_cases h
    · exact same trivial rfl
    · exact same trivial rfl
  | unlock =>
    cases h
    exact same trivial rfl
  | newString =>
    cases c with
    | name id =>
      rw [NetState.perform] at h
      split at h
      · contradiction
      · cases h
        exact ⟨hs.of_host (fun _ hx => hx) rfl hs.clean, fun _ hx => hx, trivial⟩
    | ok | fail e | failTook e | fileExists | vms l | running b | references l => cases h
  | save n =>
    obtain ⟨-, rfl⟩ | ⟨rfl, -⟩ := NetChoice.write_cases h
    · exact ⟨hs.saved ha, fun _ hx => hx, trivial⟩
    · exact same trivial rfl
  | load id =>
    obtain ⟨rfl, rfl | ⟨e, rfl⟩⟩ := NetChoice.query_cases h
    · exact same (P := fun t => NetCall.After (.load id) (t.loaded f id) t)
        (fun n hn => hs.sound hn) rfl
    · exact same (P := fun t => NetCall.After (.load id) (.error e) t) nofun rfl
  | resolve ref =>
    obtain ⟨rfl, rfl | ⟨e, rfl⟩⟩ := NetChoice.query_cases h
    · refine same (P := fun t => NetCall.After (.resolve ref) (t.resolved f ref) t) ?_ rfl
      intro n hn
      obtain ⟨id, hid⟩ := resolved_loaded hn
      exact hs.sound hid
    · exact same (P := fun t => NetCall.After (.resolve ref) (.error e) t) nofun rfl
  | list =>
    obtain ⟨rfl, rfl | ⟨e, rfl⟩⟩ := NetChoice.query_cases h
    · refine same (P := fun t => NetCall.After .list (t.allLoaded f) t) ?_ rfl
      intro networks hnetworks n hn
      obtain ⟨id, hid⟩ := mem_allLoaded hnetworks hn
      exact hs.sound hid
    · exact same (P := fun t => NetCall.After .list (.error e) t) nofun rfl
  | delete id =>
    obtain ⟨-, -, rfl⟩ | ⟨rfl, -⟩ := NetChoice.attempt_cases h
    · refine ⟨⟨fun id' n hn => ?_, hs.clean⟩, fun _ hx => hx, trivial⟩
      rw [Table.get_without] at hn
      split at hn
      · contradiction
      · exact hs.stored id' n hn
    · exact same trivial rfl
  | interfaceExists d | isBridge d | hasAddress d a =>
    exact same trivial (NetChoice.test_same h)
  | bridgeMembers d =>
    rw [NetState.perform] at h
    split at h
    · exact same trivial (NetChoice.query_cases h).1
    · exact same trivial (NetChoice.query_cases h).1
  | findVLAN parent tag => exact same trivial (NetChoice.query_cases h).1
  | createBridge network =>
    refine hs.mark (fun x => ?_) h
    cases x <;> simp [Interface.Alien]
  | createVLAN network =>
    refine hs.mark (fun x => ?_) h
    cases x <;> simp [Interface.Alien]
  | destroy network device =>
    obtain ⟨-, -, rfl⟩ | ⟨rfl, -⟩ := NetChoice.attempt_cases h
    · obtain ⟨hhonest, hsub⟩ := hs.removed (h := s.host.destroyed device) ha
        fun y hy => destroyed_foreign hy
      exact ⟨⟨hhonest.stored, hhonest.clean⟩, hsub, trivial⟩
    · exact same trivial rfl
  | removeMember bridge member =>
    obtain ⟨-, -, rfl⟩ | ⟨rfl, -⟩ := NetChoice.attempt_cases h
    · obtain ⟨hhonest, hsub⟩ := hs.removed (h := s.host.detached bridge member) ha
        fun y hy => detached_foreign hy
      exact ⟨hhonest, hsub, trivial⟩
    · exact same trivial rfl
  | removeAlias device address =>
    obtain ⟨-, -, rfl⟩ | ⟨rfl, -⟩ := NetChoice.attempt_cases h
    · obtain ⟨hhonest, hsub⟩ := hs.removed (h := s.host.unaddressed device address) ha
        fun y hy => unaddressed_foreign hy
      exact ⟨hhonest, hsub, trivial⟩
    · exact same trivial rfl
  | addMember bridge member =>
    obtain ⟨hable, rfl, rfl⟩ | ⟨rfl, e, rfl⟩ := NetChoice.attempt_cases h
    · have hchange : ∀ (i : Interface) (x : Thing),
          Interface.Alien { i with members := i.members ++ [(member, true)] } x → i.Alien x := by
        intro i x hx
        cases x <;> simpa [Interface.Alien] using hx
      obtain ⟨hhonest, hsub⟩ := hs.updated bridge hchange
      refine ⟨hhonest, hsub, fun _ hf => ?_⟩
      have hforeign := hsub _ hf
      simp only [Bool.and_eq_true] at hable
      obtain ⟨i, hi, halien⟩ := (foreign_iff _ _).mp hforeign
      exact absurd halien (free_not_member hable.2 hi)
    · exact same (P := fun t => NetCall.After (.addMember bridge member) (.error e) t) nofun rfl
  | configureVLAN device parent tag =>
    rw [NetState.perform] at h
    split at h
    · exact same trivial (NetChoice.query_cases h).1
    · exact same trivial (NetChoice.query_cases h).1
    · obtain ⟨-, rfl⟩ | ⟨rfl, -⟩ := NetChoice.command_cases h
      · have hchange : ∀ (i : Interface) (x : Thing),
            Interface.Alien { i with vlan := some (parent, tag) } x → i.Alien x := by
          intro i x hx
          cases x <;> exact hx
        obtain ⟨hhonest, hsub⟩ := hs.updated device hchange
        exact ⟨hhonest, hsub, trivial⟩
      · exact same trivial rfl
  | setAddress device cidr =>
    rw [NetState.perform] at h
    split at h
    · rename_i hrefused
      obtain ⟨rfl, hr⟩ := NetChoice.query_cases h
      refine same (P := fun t => NetCall.After (.setAddress device cidr) r t) (fun hok => ?_) rfl
      rcases hr with hr | ⟨e, hr⟩
      · rw [hr] at hok
        cases hok
      · rw [hr] at hok
        cases hok
    rename_i text htext
    obtain ⟨rfl, ht, hnotfail⟩ | ⟨rfl, e, rfl⟩ := NetChoice.setAlias_cases h
    · have hfree : ¬ s.host.Foreign (.address device cidr) := by
        cases c with
        | fail e => exact absurd rfl (hnotfail e)
        | ok | failTook e | name d | fileExists | vms l | running b | references l => exact hc
      obtain rfl | rfl := ht
      · have hchange : ∀ (i : Interface) (x : Thing), (if i.hasAddress text then i else
            { i with addresses := i.addresses ++ [(text, true)] }).Alien x → i.Alien x := by
          intro i x hx
          split at hx
          · exact hx
          · cases x <;> simpa [Interface.Alien] using hx
        obtain ⟨hhonest, hsub⟩ := hs.updated device hchange
        exact ⟨hhonest, hsub, fun _ hf => hfree (hsub _ hf)⟩
      · exact same (P := fun t => NetCall.After (.setAddress device cidr) (.ok ()) t)
          (fun _ => hfree) rfl
    · exact same (P := fun t => NetCall.After (.setAddress device cidr) (.error e) t) nofun rfl
  | up device =>
    obtain ⟨-, -, rfl⟩ | ⟨rfl, -⟩ := NetChoice.attempt_cases h
    · exact same trivial rfl
    · exact same trivial rfl
  | listVMs | running id | pendingReferences id =>
    cases c <;> cases h <;> exact same trivial rfl

end Step

theorem Sound.mono {n : NetworkManifest} {s t : NetState} (h : Sound n s.host)
    (hst : NoneAdded s t) : Sound n t.host :=
  ⟨h.rightful.mono hst, fun v hv hb hd hf => h.vlans v hv hb hd (hst _ hf)⟩

/-- The manifest of a bridge that has just been created. -/
theorem Sound.created {n : NetworkManifest} {h : Host} {device : String} (hn : Sound n h)
    (hfresh : ∀ x : Thing, x.device = device → ¬ h.Foreign x) :
    Sound { n with device, owned := true, appliedMembers := [] } h where
  rightful x hx := by
    cases x with
    | interface d =>
      rcases hx with ⟨-, rfl⟩ | hv
      · exact hfresh _ rfl
      · exact hn.rightful _ (.inr hv)
    | member d m => exact hfresh _ hx.2.1.symm
    | address d a => exact hfresh _ hx.2.1.symm
  vlans := hn.vlans

/-- The rightful manifest of a bridge. -/
structure RightfulBridge (n : NetworkManifest) (h : Host) : Prop where
  mode : n.mode = .bridge
  rightful : Rightful n h

theorem RightfulBridge.mono {n : NetworkManifest} {s t : NetState} (h : RightfulBridge n s.host)
    (hst : NoneAdded s t) : RightfulBridge n t.host :=
  ⟨h.mode, h.rightful.mono hst⟩

/-- A bridge's manifest that records less is still rightful. -/
theorem RightfulBridge.of_records {n m : NetworkManifest} {h : Host} (hn : RightfulBridge n h)
    (hmode : m.mode = n.mode) (hsub : ∀ x, Records m x → Records n x) : RightfulBridge m h :=
  ⟨hmode.trans hn.mode, fun x hx => hn.rightful x (hsub x hx)⟩

theorem RightfulBridge.attached {n : NetworkManifest} {h : Host} {member : String}
    (hn : RightfulBridge n h) (hm : ¬ h.Foreign (.member n.device member)) :
    RightfulBridge { n with appliedMembers := n.appliedMembers ++ [member] } h := by
  refine ⟨hn.mode, fun x hx => ?_⟩
  cases x with
  | member d m =>
    obtain ⟨hmode, rfl, hmem⟩ := hx
    rcases List.mem_append.mp hmem with hmem | hmem
    · exact hn.rightful _ ⟨hmode, rfl, hmem⟩
    · obtain rfl := List.mem_singleton.mp hmem
      exact hm
  | interface d | address d a => exact hn.rightful _ hx

end Maco.Network
