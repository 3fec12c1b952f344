import Maco.Network.Rules

/-! Bridges of their own: a network that owns a bridge knows it by its name, and after a reboot the
names are given out anew.  The module says what keeps the stored networks' bridges different, and
what a single call does to that. -/

namespace Maco.Network

open Concurrent

variable {f : Formats} {s : NetState} {T : String → Prop}

/-- The network has a bridge that maco created for it. -/
def OwnsBridge (n : NetworkManifest) : Prop := n.mode = .bridge ∧ n.owned = true

/-- No other stored network owns a bridge of the same name. -/
def Apart (n : NetworkManifest) (s : NetState) : Prop :=
  ∀ id m, s.manifests.get id = some m → id ≠ n.id → OwnsBridge n → OwnsBridge m →
    m.device ≠ n.device

/-- The stored networks are filed by their ids, and own different bridges. -/
structure NetState.Separate (s : NetState) : Prop where
  named : ∀ id n, s.manifests.get id = some n → n.id = id
  apart : ∀ id n, s.manifests.get id = some n → Apart n s

/-- No bridge is created under the name of one that another stored network owns. -/
def Unclaimed : NetCall → NetChoice → NetState → Prop
  | .createBridge network, .name device, s => ∀ id m, s.manifests.get id = some m →
      id ≠ network → OwnsBridge m → m.device ≠ device
  | _, _, _ => True

/-- The stored networks but for those in `T` are as they were. -/
def OthersKept (T : String → Prop) (s t : NetState) : Prop :=
  ∀ id, ¬ T id → t.manifests.get id = s.manifests.get id

theorem OthersKept.refl (T : String → Prop) (s : NetState) : OthersKept T s s := fun _ _ => rfl

theorem OthersKept.trans {T : String → Prop} (s t u : NetState) (h1 : OthersKept T s t)
    (h2 : OthersKept T t u) : OthersKept T s u :=
  fun id hid => (h2 id hid).trans (h1 id hid)

/-- The network operations that store only networks in `T`, and keep bridges separate. -/
def separation (f : Formats) (T : String → Prop) :
    Discipline NetCall NetCall.Reply NetChoice NetState where
  perform := NetState.perform f
  allowed := Unclaimed
  Inv := NetState.Separate
  le := OthersKept T
  refl := OthersKept.refl T
  trans := OthersKept.trans

theorem Apart.mono {n : NetworkManifest} {t : NetState} (h : Apart n s)
    (hst : OthersKept (· = n.id) s t) : Apart n t :=
  fun id m hm hne => h id m (hst id hne ▸ hm) hne

theorem Apart.congr {n m : NetworkManifest} (h : Apart n s) (hid : m.id = n.id)
    (hmode : m.mode = n.mode) (hdevice : m.device = n.device) (howned : m.owned = n.owned) :
    Apart m s := by
  intro id other hother hne hm ho
  rw [hdevice]
  exact h id other hother (hid ▸ hne) ⟨hmode ▸ hm.1, howned ▸ hm.2⟩ ho

theorem NetState.Separate.of_manifests {t : NetState} (h : s.Separate)
    (ht : t.manifests = s.manifests) : t.Separate where
  named id n hn := h.named id n (ht ▸ hn)
  apart id n hn other m hm := h.apart id n (ht ▸ hn) other m (ht ▸ hm)

theorem NetState.Separate.saved (hs : s.Separate) {n : NetworkManifest} (hn : Apart n s) :
    NetState.Separate { s with manifests := s.manifests.put n.id n } where
  named id m hm := by
    rw [Table.get_put] at hm
    split at hm
    · rename_i hid
      cases hm
      exact hid.symm
    · exact hs.named id m hm
  apart id m hm other k hk hne hom hok := by
    simp only [Table.get_put] at hm hk
    split at hm
    · cases hm
      rw [if_neg hne] at hk
      exact hn other k hk hne hom hok
    · rename_i hid
      split at hk
      · cases hk
        have hmid := hs.named id m hm
        exact (hn id m hm hid hok hom).symm
      · exact hs.apart id m hm other k hk hne hom hok

theorem NetState.Separate.deleted (hs : s.Separate) (id : String) :
    NetState.Separate { s with manifests := s.manifests.without [id] } where
  named other n hn := by
    rw [Table.get_without] at hn
    split at hn
    · contradiction
    · exact hs.named other n hn
  apart other n hn another m hm := by
    simp only [Table.get_without] at hn hm
    split at hn
    · contradiction
    · split at hm
      · contradiction
      · exact hs.apart other n hn another m hm

/-! ### Calls -/

/-- The call stores and deletes no manifest. -/
def NetCall.Neutral : NetCall → Prop
  | .save _ | .delete _ => False
  | _ => True

theorem NetCall.Looks.neutral {a : NetCall} (h : a.Looks) : a.Neutral := by
  cases a with
  | save n | delete id => cases h
  | lock | unlock | newString | load id | resolve ref | list | interfaceExists d | isBridge d
  | bridgeMembers d | createBridge n | createVLAN n | destroy n d | addMember b m
  | removeMember b m | configureVLAN d p t | findVLAN p t | hasAddress d a | setAddress d c
  | removeAlias d a | up d | listVMs | running id | pendingReferences id => trivial

/-- The call stores and deletes no manifest and destroys no interface. -/
def NetCall.Tame : NetCall → Prop
  | .save _ | .delete _ | .destroy _ _ => False
  | _ => True

theorem NetState.update_host (s : NetState) (device : String) (change : Interface → Interface) :
    ∃ host, s.update device change = { s with host } := by
  unfold NetState.update
  split
  · exact ⟨_, rfl⟩
  · exact ⟨s.host, rfl⟩

/-- A tame call changes no more than the host, the ids that are issued and the mark that maco has
removed what was not its own. -/
theorem NetState.perform_tame {t : NetState} {a : NetCall} {c : NetChoice} {r : a.Reply}
    (ha : a.Tame) (h : NetState.perform f a c s = some (r, t)) :
    ∃ host issued trespass, t = { s with host, issued, trespass } := by
  have same : ∃ host issued trespass, s = { s with host, issued, trespass } :=
    ⟨s.host, s.issued, s.trespass, rfl⟩
  have updated : ∀ {device change}, t = s.update device change →
      ∃ host issued trespass, t = { s with host, issued, trespass } := by
    rintro device change rfl
    obtain ⟨host, hhost⟩ := s.update_host device change
    exact ⟨host, s.issued, s.trespass, hhost⟩
  by_cases hlooks : a.Looks
  · rw [NetState.perform_looks hlooks h]
    exact same
  · cases a with
    | save n | delete id | destroy n d => cases ha
    | lock | unlock | load id | resolve ref | list | interfaceExists d | isBridge d
    | bridgeMembers d | findVLAN p t | hasAddress d a | up d | listVMs | running id
    | pendingReferences id => exact absurd trivial hlooks
    | newString =>
      cases c with
      | name id =>
        rw [NetState.perform] at h
        split at h
        · contradiction
        · cases h
          exact ⟨_, _, _, rfl⟩
      | ok | fail e | failTook e | fileExists | vms l | running b | references l => cases h
    | createBridge n | createVLAN n =>
      obtain ⟨d, -, -, rfl⟩ | ⟨rfl, -⟩ := NetState.create_cases h
      · exact ⟨_, _, _, rfl⟩
      · exact same
    | removeMember b m | removeAlias d a =>
      obtain ⟨-, -, rfl⟩ | ⟨rfl, -⟩ := NetChoice.attempt_cases h
      · exact ⟨_, _, _, rfl⟩
      · exact same
    | addMember b m =>
      obtain ⟨-, -, ht⟩ | ⟨rfl, -⟩ := NetChoice.attempt_cases h
      · exact updated ht
      · exact same
    | configureVLAN d p tag =>
      rw [NetState.perform] at h
      split at h
      · rw [(NetChoice.query_cases h).1]
        exact same
      · rw [(NetChoice.query_cases h).1]
        exact same
      · obtain ⟨-, ht⟩ | ⟨rfl, -⟩ := NetChoice.command_cases h
        · exact updated ht
        · exact same
    | setAddress d cidr =>
      rw [NetState.perform] at h
      split at h
      · rw [(NetChoice.query_cases h).1]
        exact same
      · obtain ⟨-, ht | rfl, -⟩ | ⟨rfl, -⟩ := NetChoice.setAlias_cases h
        · exact updated ht
        · exact same
        · exact same

theorem NetCall.Tame.neutral {a : NetCall} (h : a.Tame) : a.Neutral := by
  cases a with
  | save n | delete id | destroy n d => cases h
  | lock | unlock | newString | load id | resolve ref | list | interfaceExists d | isBridge d
  | bridgeMembers d | createBridge n | createVLAN n | addMember b m | removeMember b m
  | configureVLAN d p t | findVLAN p t | hasAddress d a | setAddress d c | removeAlias d a | up d
  | listVMs | running id | pendingReferences id => trivial

theorem NetState.perform_neutral {t : NetState} {a : NetCall} {c : NetChoice} {r : a.Reply}
    (ha : a.Neutral) (h : NetState.perform f a c s = some (r, t)) :
    t.manifests = s.manifests := by
  by_cases htame : a.Tame
  · obtain ⟨host, issued, trespass, rfl⟩ := NetState.perform_tame htame h
    rfl
  · cases a with
    | destroy n d => obtain ⟨-, -, rfl⟩ | ⟨rfl, -⟩ := NetChoice.attempt_cases h <;> rfl
    | save n | delete id => cases ha
    | lock | unlock | newString | load id | resolve ref | list | interfaceExists d | isBridge d
    | bridgeMembers d | createBridge n | createVLAN n | addMember b m | removeMember b m
    | configureVLAN d p t | findVLAN p t | hasAddress d a | setAddress d c | removeAlias d a
    | up d | listVMs | running id | pendingReferences id => exact absurd trivial htame

theorem OthersKept.of_manifests {t : NetState} (h : t.manifests = s.manifests) :
    OthersKept T s t :=
  fun _ _ => by rw [h]

section Calls

theorem keeps_neutral {a : NetCall} (ha : a.Neutral) :
    (separation f T).Keeps (netCall a) (fun _ _ => True) s :=
  Discipline.Keeps.request fun hs _ _ _ _ hp =>
    have ht := NetState.perform_neutral ha hp
    ⟨hs.of_manifests ht, fun _ _ => by rw [ht], trivial⟩

theorem tolerates_neutral : (separation f T).Tolerates NetCall.Neutral :=
  fun _ ha _ => keeps_neutral ha

theorem keeps_save {n : NetworkManifest} (hT : T n.id) (hn : Apart n s) :
    (separation f T).Keeps (netCall (.save n)) (fun _ _ => True) s :=
  Discipline.Keeps.request fun hs c r t _ hp => by
    obtain ⟨-, rfl⟩ | ⟨rfl, -⟩ := NetChoice.write_cases hp
    · refine ⟨hs.saved hn, fun id hid => ?_, trivial⟩
      rw [Table.get_put, if_neg]
      rintro rfl
      exact hid hT
    · exact ⟨hs, fun _ _ => rfl, trivial⟩

theorem keeps_delete {id : String} (hT : T id) :
    (separation f T).Keeps (netCall (.delete id)) (fun _ _ => True) s :=
  Discipline.Keeps.request fun hs c r t _ hp => by
    obtain ⟨-, -, rfl⟩ | ⟨rfl, -⟩ := NetChoice.attempt_cases hp
    · refine ⟨hs.deleted id, fun other hother => ?_, trivial⟩
      rw [Table.get_without, if_neg]
      intro hmem
      exact hother (List.mem_singleton.mp hmem ▸ hT)
    · exact ⟨hs, fun _ _ => rfl, trivial⟩

/-- A manifest that is read is apart from the others. -/
theorem keeps_load {id : String} : (separation f T).Keeps (netCall (.load id))
    (fun r t => ∀ n, r = .ok n → n.id = id ∧ Apart n t) s :=
  Discipline.Keeps.request fun hs c r t _ hp => by
    obtain ⟨rfl, rfl | ⟨e, rfl⟩⟩ := NetChoice.query_cases hp
    · refine ⟨hs, fun _ _ => rfl, fun n hn => ?_⟩
      obtain ⟨hstored, -, hid⟩ := loaded_stored hn
      exact ⟨hid, hs.apart id n hstored⟩
    · exact ⟨hs, fun _ _ => rfl, nofun⟩

theorem keeps_resolve {ref : String} : (separation f T).Keeps (netCall (.resolve ref))
    (fun r t => ∀ n, r = .ok n → Apart n t) s :=
  Discipline.Keeps.request fun hs c r t _ hp => by
    obtain ⟨rfl, rfl | ⟨e, rfl⟩⟩ := NetChoice.query_cases hp
    · refine ⟨hs, fun _ _ => rfl, fun n hn => ?_⟩
      obtain ⟨id, hid⟩ := resolved_loaded hn
      exact hs.apart id n (loaded_stored hid).1
    · exact ⟨hs, fun _ _ => rfl, nofun⟩

/-- A new bridge has no name that another stored network owns. -/
theorem keeps_createBridge {network : String} :
    (separation f T).Keeps (netCall (.createBridge network)) (fun r t => ∀ device, r = .ok device →
      ∀ id m, t.manifests.get id = some m → id ≠ network → OwnsBridge m → m.device ≠ device) s :=
  Discipline.Keeps.request fun hs c r t hc hp => by
    have ht := @NetState.perform_neutral f s t (.createBridge network) c r trivial hp
    refine ⟨hs.of_manifests ht, fun _ _ => by rw [ht], fun device hdevice => ?_⟩
    rw [ht]
    replace hp : s.create "bridge" { made := true, bridge := true } c = some (r, t) := hp
    cases c with
    | name d =>
      rw [NetState.create] at hp
      split at hp
      · cases hp
        cases hdevice
        exact hc
      · contradiction
    | fail e =>
      cases hp
      cases hdevice
    | ok | failTook e | fileExists | vms l | running b | references l => cases hp

end Calls

/-! ### Programs that store nothing -/

/-- Every call of the program is neutral. -/
abbrev OnlyNeutral {α : Type} (p : Net α) : Prop := p.Calls NetCall.Neutral

theorem OnlyLooks.neutral {α : Type} {p : Net α} (h : OnlyLooks p) : OnlyNeutral p :=
  h.mono fun _ => NetCall.Looks.neutral

theorem neutral_call (a : NetCall) (ha : a.Neutral) : OnlyNeutral (netCall a) := .request ha

theorem neutral_ask {α : Type} {p : Net α} (h : OnlyNeutral p) : OnlyNeutral (ask p).run :=
  calls_ask h

theorem neutral_discard {a : NetCall} (ha : a.Neutral) : OnlyNeutral (discard a) :=
  calls_discard ha

theorem neutral_onlyIf {c : Prop} [Decidable c] {p : NetM Unit} (h : OnlyNeutral p.run) :
    OnlyNeutral (onlyIf c p).run := calls_onlyIf h

theorem neutral_onlyWhen {c : Net Bool} {p : NetM Unit} (hc : OnlyLooks c)
    (h : OnlyNeutral p.run) : OnlyNeutral (onlyWhen c p).run :=
  calls_onlyWhen hc.neutral h

theorem NetCall.Commands.neutral (a : NetCall) (h : a.Commands) : a.Neutral := by
  cases a <;> first | exact h | trivial

theorem neutral_removeAddress (device address : String) :
    OnlyNeutral (removeAddress device address) := calls_removeAddress trivial trivial

theorem neutral_resolveVLAN (network device : String) (owned : Bool) (parent : String)
    (tag : Int) : OnlyNeutral (resolveVLAN network device owned parent tag).run :=
  calls_resolveVLAN NetCall.Commands.neutral network device owned parent tag

theorem neutral_destroyVLAN (network : String) (v : VLAN) :
    OnlyNeutral (destroyVLAN network v).run := calls_destroyVLAN NetCall.Commands.neutral network v

theorem neutral_destroy (n : NetworkManifest) : OnlyNeutral (destroy n).run :=
  calls_destroy NetCall.Commands.neutral n

end Maco.Network
