import Maco.Network.Separate

/-! VLAN interfaces that several networks record.  The network that created one destroys it when it
is no longer wanted; the module says under which conditions no other network has it then, and what a
single call does to that. -/

namespace Maco.Network

open Concurrent

variable {f : Formats} {s : NetState} {T : String → Prop}

/-- No stored network other than `id` records the interface. -/
def Unshared (id : String) (s : NetState) (device : String) : Prop :=
  ∀ other m, s.manifests.get other = some m → other ≠ id → recordsInterface m device = false

/-- The VLAN interfaces that the manifest records as created for it. -/
def CreatedVLAN (n : NetworkManifest) (device : String) : Prop :=
  (n.mode = .vlan ∧ n.owned = true ∧ n.device = device) ∨
    (n.mode = .bridge ∧ ∃ v ∈ n.appliedVLANs, v.borrowed = false ∧ v.device = device)

/-- No other stored network records a VLAN interface that was created for this one. -/
def Sole (n : NetworkManifest) (s : NetState) : Prop :=
  ∀ device, CreatedVLAN n device → Unshared n.id s device

/-- The stored networks are filed by their ids, and no VLAN interface was destroyed that another
network records. -/
structure NetState.Whole (s : NetState) : Prop where
  named : ∀ id n, s.manifests.get id = some n → n.id = id
  whole : s.severed = false

/-- The VLANs that were created for the network and that it no longer wants are its own. -/
def UnwantedUnshared (id : String) (n : NetworkManifest) (s : NetState) : Prop :=
  ∀ a ∈ n.appliedVLANs, a.borrowed = false → (∀ v ∈ n.vlans, VLAN.sameKey a v = false) →
    Unshared id s a.device

/-- No VLAN interface is created under a name that another stored network records, and where the
manifest of a bridge is read to be applied, no other stored network records a VLAN that was created
for it and that it no longer wants. -/
def Undisturbed (f : Formats) : NetCall → NetChoice → NetState → Prop
  | .createVLAN network, .name device, s => Unshared network s device
  | .load id, .ok, s => ∀ n, s.loaded f id = .ok n → n.mode = .bridge → UnwantedUnshared id n s
  | _, _, _ => True

/-- The network operations that store only networks in `T`.  Where `sole`, no other network comes to
record a VLAN interface that was created for one of these. -/
def sharing (f : Formats) (T : String → Prop) (sole : Prop) :
    Discipline NetCall NetCall.Reply NetChoice NetState where
  perform := NetState.perform f
  allowed := Undisturbed f
  Inv s := s.Whole ∧ (sole → ∀ id n, T id → s.manifests.get id = some n → Sole n s)
  le := OthersKept T
  refl := OthersKept.refl T
  trans := OthersKept.trans

theorem Unshared.mono {id device : String} {t : NetState} (h : Unshared id s device)
    (hst : OthersKept (· = id) s t) : Unshared id t device :=
  fun other m hm hne => h other m (hst other hne ▸ hm) hne

theorem Sole.mono {n : NetworkManifest} {t : NetState} (h : Sole n s)
    (hst : OthersKept (· = n.id) s t) : Sole n t :=
  fun device hd => (h device hd).mono hst

theorem NetState.Whole.of_same {t : NetState} (hs : s.Whole) (hm : t.manifests = s.manifests)
    (hsevered : t.severed = s.severed) : t.Whole where
  named id n hn := hs.named id n (hm ▸ hn)
  whole := hsevered.trans hs.whole

theorem shared_eq_false {id device : String} (h : vlanName device = true → Unshared id s device) :
    s.shared id device = false := by
  unfold NetState.shared
  by_cases hd : vlanName device = true
  · rw [hd, Bool.true_and, List.any_eq_false]
    intro e he
    simp only [Bool.and_eq_true, decide_eq_true_eq, not_and, Bool.not_eq_true]
    intro hne
    cases hm : s.manifests.get e.1 with
    | none => rfl
    | some m => exact h hd e.1 m hm hne
  · rw [Bool.not_eq_true] at hd
    rw [hd, Bool.false_and]

/-! ### Calls -/

section Calls

variable {sole : Prop}

theorem perform_tame_shared {t : NetState} {a : NetCall} {c : NetChoice} {r : a.Reply}
    (ha : a.Tame) (hs : (sharing f T sole).Inv s) (h : NetState.perform f a c s = some (r, t)) :
    (sharing f T sole).Inv t ∧ t.manifests = s.manifests := by
  obtain ⟨host, issued, trespass, rfl⟩ := NetState.perform_tame ha h
  exact ⟨⟨hs.1.of_same rfl rfl, hs.2⟩, rfl⟩

theorem keeps_tame {a : NetCall} (ha : a.Tame) :
    (sharing f T sole).Keeps (netCall a) (fun _ t => t.manifests = s.manifests) s :=
  Discipline.Keeps.request fun hs _ _ _ _ hp =>
    have ht := perform_tame_shared ha hs hp
    ⟨ht.1, .of_manifests ht.2, ht.2⟩

theorem tolerates_tame : (sharing f T sole).Tolerates NetCall.Tame :=
  fun _ ha _ => (keeps_tame ha).mono fun _ _ _ _ => trivial

theorem keeps_destroyed {id device : String}
    (hd : vlanName device = true → Unshared id s device) :
    (sharing f T sole).Keeps (netCall (.destroy id device)) (fun _ _ => True) s :=
  Discipline.Keeps.request fun hs c r t _ hp => by
    obtain ⟨-, -, rfl⟩ | ⟨rfl, -⟩ := NetChoice.attempt_cases hp
    · have hwhole : (s.destroyed id device).Whole := by
        refine ⟨hs.1.named, ?_⟩
        show (s.severed || s.shared id device) = false
        rw [hs.1.whole, shared_eq_false hd, Bool.or_false]
      exact ⟨⟨hwhole, hs.2⟩, fun _ _ => rfl, trivial⟩
    · exact ⟨hs, fun _ _ => rfl, trivial⟩

/-- What is saved for one network must be its own where that is asked for. -/
theorem keeps_saved {id : String} {n : NetworkManifest} (hid : n.id = id)
    (hn : sole → Sole n s) :
    (sharing f (· = id) sole).Keeps (netCall (.save n))
      (fun r t => r = .ok () → t.manifests.get id = some n) s :=
  Discipline.Keeps.request fun hs c r t _ hp => by
    subst hid
    obtain ⟨-, rfl⟩ | ⟨rfl, e, rfl⟩ := NetChoice.write_cases hp
    · have hothers : OthersKept (· = n.id) s { s with manifests := s.manifests.put n.id n } :=
        fun other hother => by rw [Table.get_put, if_neg hother]
      refine ⟨⟨⟨fun other m hm => ?_, hs.1.whole⟩, fun hsole other m hother hm => ?_⟩, hothers, ?_⟩
      · rw [Table.get_put] at hm
        split at hm
        · rename_i h
          cases hm
          exact h.symm
        · exact hs.1.named other m hm
      · rw [Table.get_put, if_pos hother] at hm
        cases hm
        exact (hn hsole).mono hothers
      · exact fun _ => by rw [Table.get_put, if_pos rfl]
    · exact ⟨hs, fun _ _ => rfl, nofun⟩

theorem keeps_deleted {id : String} (hT : T id) :
    (sharing f T sole).Keeps (netCall (.delete id)) (fun _ _ => True) s :=
  Discipline.Keeps.request fun hs c r t _ hp => by
    obtain ⟨-, -, rfl⟩ | ⟨rfl, -⟩ := NetChoice.attempt_cases hp
    · have hget : ∀ {other n}, (s.manifests.without [id]).get other = some n →
          s.manifests.get other = some n := by
        intro other n hn
        rw [Table.get_without] at hn
        split at hn
        · contradiction
        · exact hn
      refine ⟨⟨⟨fun other n hn => hs.1.named other n (hget hn), hs.1.whole⟩,
        fun hsole other n hother hn device hd another m hm hne => ?_⟩, fun other hother => ?_,
        trivial⟩
      · exact hs.2 hsole other n hother (hget hn) device hd another m (hget hm) hne
      · rw [Table.get_without, if_neg]
        intro hmem
        exact hother (List.mem_singleton.mp hmem ▸ hT)
    · exact ⟨hs, fun _ _ => rfl, trivial⟩

/-- What is known of the manifest of the network where it is read to be applied or taken apart. -/
structure ReadAs (f : Formats) (sole : Prop) (id : String) (n : NetworkManifest) (s : NetState) :
    Prop where
  named : n.id = id
  checked : check f n = .ok ()
  sole : sole → Sole n s
  unwanted : n.mode = .bridge → UnwantedUnshared id n s

theorem keeps_read {id : String} : (sharing f (· = id) sole).Keeps (netCall (.load id))
    (fun r t => ∀ n, r = .ok n → ReadAs f sole id n t) s :=
  Discipline.Keeps.request fun hs c r t hc hp => by
    replace hp : c.query (s.loaded f id) s = some (r, t) := hp
    cases c with
    | ok =>
      cases hp
      refine ⟨hs, fun _ _ => rfl, fun n hn => ?_⟩
      obtain ⟨hstored, hcheck, hid⟩ := loaded_stored hn
      exact ⟨hid, hcheck, fun hsole => hs.2 hsole id n rfl hstored, hc n hn⟩
    | fail e =>
      cases hp
      exact ⟨hs, fun _ _ => rfl, nofun⟩
    | failTook e | name d | fileExists | vms l | running b | references l => cases hp

/-- A new VLAN interface is in no record of another network. -/
theorem keeps_createVLAN {id : String} : (sharing f T sole).Keeps (netCall (.createVLAN id))
    (fun r t => ∀ device, r = .ok device → Unshared id t device) s :=
  Discipline.Keeps.request fun hs c r t hc hp => by
    have ht := @perform_tame_shared f s T sole t (.createVLAN id) c r trivial hs hp
    refine ⟨ht.1, .of_manifests ht.2, fun device hdevice other m hm => ?_⟩
    rw [ht.2] at hm
    replace hp : s.create "vlan" { made := true } c = some (r, t) := hp
    cases c with
    | name d =>
      rw [NetState.create] at hp
      split at hp
      · cases hp
        cases hdevice
        exact hc other m hm
      · contradiction
    | fail e =>
      cases hp
      cases hdevice
    | ok | failTook e | fileExists | vms l | running b | references l => cases hp

/-- A bridge has no name of a VLAN interface. -/
theorem vlanName_of_bridgeName {device : String} (h : bridgeName device = true) :
    vlanName device = false := by
  unfold bridgeName numbered at h
  rw [Bool.and_eq_true, Bool.and_eq_true] at h
  obtain ⟨rest, hrest⟩ := List.isPrefixOf_iff_prefix.mp h.1.1
  unfold vlanName numbered
  rw [← hrest]
  rfl

theorem keeps_newBridge {id : String} : (sharing f T sole).Keeps (netCall (.createBridge id))
    (fun r _ => ∀ device, r = .ok device → vlanName device = false) s :=
  Discipline.Keeps.request fun hs c r t hc hp => by
    have ht := @perform_tame_shared f s T sole t (.createBridge id) c r trivial hs hp
    refine ⟨ht.1, .of_manifests ht.2, fun device hdevice => ?_⟩
    replace hp : s.create "bridge" { made := true, bridge := true } c = some (r, t) := hp
    cases c with
    | name d =>
      rw [NetState.create] at hp
      split at hp
      · rename_i hname
        cases hp
        cases hdevice
        rw [Bool.and_eq_true] at hname
        exact vlanName_of_bridgeName hname.1
      · contradiction
    | fail e =>
      cases hp
      cases hdevice
    | ok | failTook e | fileExists | vms l | running b | references l => cases hp

/-- The list has every stored network. -/
theorem keeps_list {id : String} : (sharing f (· = id) sole).Keeps (netCall .list)
    (fun r t => ∀ networks, r = .ok networks → ∀ other m, t.manifests.get other = some m →
      m ∈ networks ∧ m.id = other) s :=
  Discipline.Keeps.request fun hs c r t hc hp => by
    obtain ⟨rfl, rfl | ⟨e, rfl⟩⟩ := NetChoice.query_cases hp
    · refine ⟨hs, fun _ _ => rfl, fun networks hn other m hm => ?_⟩
      have hid := hs.1.named other m hm
      exact ⟨allLoaded_mem hn (hid.symm ▸ hm), hid⟩
    · exact ⟨hs, fun _ _ => rfl, nofun⟩

theorem resolved_congr {t : NetState} (h : t.manifests = s.manifests) (ref : String) :
    t.resolved f ref = s.resolved f ref := by
  have hloaded : t.loaded f = s.loaded f := by
    funext id
    rw [NetState.loaded, NetState.loaded, h]
  have hall : t.allLoaded f = s.allLoaded f := by
    rw [NetState.allLoaded, NetState.allLoaded, NetState.listed, NetState.listed, h, hloaded]
  rw [NetState.resolved, NetState.resolved, hloaded, hall]

theorem keeps_resolved {ref : String} : (sharing f T sole).Keeps (netCall (.resolve ref))
    (fun r t => ∀ n, r = .ok n → s.resolved f ref = .ok n ∧ check f n = .ok () ∧
      t.manifests = s.manifests) s :=
  Discipline.Keeps.request fun hs c r t hc hp => by
    obtain ⟨rfl, rfl | ⟨e, rfl⟩⟩ := NetChoice.query_cases hp
    · refine ⟨hs, fun _ _ => rfl, fun n hn => ?_⟩
      obtain ⟨id, hid⟩ := resolved_loaded hn
      exact ⟨hn, (loaded_stored hid).2.1, rfl⟩
    · exact ⟨hs, fun _ _ => rfl, nofun⟩

end Calls

end Maco.Network
