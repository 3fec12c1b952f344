import Maco.Network.Smooth

/-! A bridge network that is settled on the host: all that its manifest wants is there, and the
manifest records nothing else as applied.  To apply it again changes neither the host nor the
store. -/

namespace Maco.Network

open Concurrent

/-- The interfaces that the bridge is to have, once its VLANs have their devices. -/
def wanted (n : NetworkManifest) : List String := n.members ++ n.vlans.map (·.device)

/-- The bridge and the interfaces that its manifest names are on the host. -/
structure Wired (n : NetworkManifest) (h : Host) : Prop where
  device : bridgeName n.device = true
  bridge : h.test n.device (·.bridge) = true
  members : ∀ m ∈ n.members, (h.get m).isSome = true
  parents : ∀ v ∈ n.vlans, (h.get v.parent).isSome = true
  vlans : ∀ v ∈ n.vlans, h.HasVLAN v.device v.parent v.tag

/-- No VLAN that was applied apart from the wanted ones has the key of one of them. -/
def Others (others vlans : List VLAN) : Prop := ∀ a ∈ others, ∀ v ∈ vlans, VLAN.sameKey a v = false

/-- What is applied is what is wanted. -/
structure Settled (f : Formats) (n : NetworkManifest) (h : Host) : Prop where
  wired : Wired n h
  mode : n.mode = .bridge
  checked : check f n = .ok ()
  carried : ∀ m ∈ wanted n, h.test n.device (·.hasMember m) = true
  appliedMembers : ∀ m ∈ n.appliedMembers, m ∈ wanted n
  appliedVLANs : ∃ others, n.appliedVLANs = others ++ n.vlans ∧ Others others n.vlans
  appliedDevices : ∀ a ∈ n.appliedVLANs, a.device ∈ wanted n
  appliedAddress : n.appliedAddress = "" ∨ n.appliedAddress = n.address
  address : n.address = "" ∨ h.test n.device (·.hasAddress n.address) = true

theorem test_isSome {h : Host} {device : String} {p : Interface → Bool}
    (ht : h.test device p = true) : (h.get device).isSome = true := by
  unfold Host.test at ht
  cases hget : h.get device with
  | none =>
    rw [hget] at ht
    cases ht
  | some i => rfl

theorem bridgeName_ne {device : String} (h : bridgeName device = true) : device ≠ "" := by
  rintro rfl
  exact absurd h (by decide)

theorem vlanName_ne {device : String} (h : vlanName device = true) : device ≠ "" := by
  rintro rfl
  exact absurd h (by decide)

theorem bridgeName_isPrefix {device : String} (h : bridgeName device = true) :
    "bridge".toList.isPrefixOf device.toList = true := by
  rw [bridgeName, numbered, Bool.and_eq_true, Bool.and_eq_true] at h
  exact h.1.1

/-! ### The keys of VLANs -/

theorem sameKey_iff {a v : VLAN} :
    VLAN.sameKey a v = true ↔ a.parent = v.parent ∧ a.tag = v.tag := by
  rw [VLAN.sameKey, Bool.and_eq_true, decide_eq_true_eq, decide_eq_true_eq]

theorem sameKey_key {a v : VLAN} (h : VLAN.sameKey a v = true) : VLAN.key a = VLAN.key v := by
  obtain ⟨hparent, htag⟩ := sameKey_iff.mp h
  rw [VLAN.key, VLAN.key, hparent, htag]

/-- The VLANs of an admitted manifest differ in their keys. -/
theorem check_keys {f : Formats} {n : NetworkManifest} (h : check f n = .ok ()) :
    n.vlans.Pairwise fun v w => VLAN.sameKey v w = false := by
  obtain ⟨-, -, -, -, -, -, hkeys, -⟩ := check_iff.mp h
  refine (List.pairwise_map.mp (checkVLANs_ok.mp hkeys).1).imp fun {v w} hne => ?_
  cases hsame : VLAN.sameKey v w with
  | false => rfl
  | true => exact absurd (sameKey_key hsame) hne

/-- The order in which the applied VLANs are recorded does not matter. -/
theorem check_appliedVLANs {f : Formats} {n : NetworkManifest} (h : check f n = .ok ())
    {applied : List VLAN} (hsame : ∀ a, a ∈ applied ↔ a ∈ n.appliedVLANs) :
    check f { n with appliedVLANs := applied } = .ok () := by
  rw [check_iff] at h ⊢
  obtain ⟨hstruct, haddress, hmode, happlied, hvlans, hmembers, hkeys, hnames⟩ := h
  refine ⟨?_, haddress, hmode, fun v hv => happlied v ((hsame v).mp hv),
    fun v hv => (hvlans v hv).imp_right (hsame v).mpr, hmembers, hkeys, hnames⟩
  rw [validateStruct, allOf_ok] at hstruct ⊢
  intro c hc
  refine hstruct c ?_
  simp only [List.mem_append, List.mem_map] at hc ⊢
  obtain ((hc | hc) | ⟨a, ha, rfl⟩) | hc := hc
  · exact .inl (.inl (.inl hc))
  · exact .inl (.inl (.inr hc))
  · exact .inl (.inr ⟨a, (hsame a).mp ha, rfl⟩)
  · exact .inr hc

/-- A VLAN that is recorded as it is keeps its device. -/
theorem lastApplied_self {applied : List VLAN} {v : VLAN}
    (h : ∀ a ∈ applied, VLAN.sameKey a v = true → a = v) : lastApplied applied v = v := by
  unfold lastApplied
  induction applied with
  | nil => rfl
  | cons a applied ih =>
    rw [List.foldl_cons]
    have hrest := ih fun b hb => h b (List.mem_cons_of_mem a hb)
    split
    · rename_i hsame
      obtain rfl := h a List.mem_cons_self hsame
      exact hrest
    · exact hrest

/-- What is recorded once a VLAN is applied as it was. -/
theorem rotated {others done rest : List VLAN} {v : VLAN} (hothers : Others others (done ++ v :: rest))
    (hkeys : (done ++ v :: rest).Pairwise fun v w => VLAN.sameKey v w = false) :
    ((others ++ v :: rest ++ done).filter fun a => !VLAN.sameKey a v) ++ [v] =
      others ++ rest ++ (done ++ [v]) := by
  rw [List.pairwise_append, List.pairwise_cons] at hkeys
  have hself : VLAN.sameKey v v = true := sameKey_iff.mpr ⟨rfl, rfl⟩
  have hrest : ∀ a ∈ rest, VLAN.sameKey a v = false := by
    intro a ha
    have hne := hkeys.2.1.1 a ha
    rw [VLAN.sameKey] at hne ⊢
    rw [← hne]
    congr 1 <;> exact decide_eq_decide.mpr eq_comm
  have hkept : ∀ l : List VLAN, (∀ a ∈ l, VLAN.sameKey a v = false) →
      (l.filter fun a => !VLAN.sameKey a v) = l := fun l hl =>
    List.filter_eq_self.mpr fun a ha => by rw [hl a ha]; rfl
  rw [List.filter_append, List.filter_append, List.filter_cons, hself,
    hkept others fun a ha => hothers a ha v (by simp),
    hkept rest hrest, hkept done fun a ha => hkeys.2.2 a ha v List.mem_cons_self]
  simp

/-! ### The second time -/

section Again

variable {f : Formats} {w : Weather} {s : NetState} {n : NetworkManifest}
  {stored : Table NetworkManifest}

/-- The state in which a manifest is stored under the id of the network. -/
def NetState.storing (s : NetState) (stored : Table NetworkManifest) (n : NetworkManifest) :
    NetState :=
  { s with manifests := stored.put n.id n }

theorem smoothly_save_again {k k' : NetworkManifest} {undo : Net Unit} (h : check f k = .ok ())
    (hid : k.id = k'.id) :
    smoothly f w (saveOr k undo) (s.storing stored k') = (.ok (), s.storing stored k) := by
  rw [smoothly_saveOr h]
  unfold NetState.storing
  dsimp only
  rw [hid, Table.put_put]

@[simp] theorem smooth_hasAddress (device address : String) :
    s.smooth f w (.hasAddress device address) =
      (s.host.test device (·.hasAddress address), s) := rfl

theorem smooth_bridgeMembers {device : String} {i : Interface} (h : s.host.get device = some i) :
    s.smooth f w (.bridgeMembers device) = (.ok (i.members.map (·.1)), s) := by
  unfold NetState.smooth NetState.perform Weather.choice
  simp [h, NetChoice.query]

theorem smoothly_up {device : String} (h : (s.host.get device).isSome = true) :
    smoothly f w (attempt (netCall (.up device))) s = (.ok (), s) := by
  rw [smoothly_attempt, eval_netCall, smooth_up h]

theorem smoothly_resolveVLAN_kept {network device parent : String} {owned : Bool} {tag : Int}
    (h : s.host.HasVLAN device parent tag) (hne : device ≠ "") :
    smoothly f w (resolveVLAN network device owned parent tag) s = (.ok (device, owned), s) := by
  obtain ⟨i, hi, hvlan⟩ := h
  rw [resolveVLAN, smoothly_bind, smoothly_existing]
  dsimp only
  rw [if_pos (by simp [hne, hi]), smoothly_bind, smoothly_ask, eval_netCall,
    smooth_configureVLAN_same hi hvlan]
  rfl

theorem smoothly_ensureDevice (h : Wired n s.host) :
    smoothly f w (ensureDevice n) s = (.ok n, s) := by
  have hne := bridgeName_ne h.device
  have hthere := test_isSome h.bridge
  have hexisting : (n.device ≠ "" && (s.host.get n.device).isSome) = true := by
    simp [hne, hthere]
  have hbridge : smoothly f w (requireBridge n.device) s = (.ok (), s) := by
    rw [requireBridge, smoothly_bind, smoothly_ask, eval_netCall, smooth_isBridge, h.bridge,
      bridgeName_isPrefix h.device]
    rfl
  rw [ensureDevice, smoothly_bind, onlyWhen, smoothly_bind, smoothly_existing, hexisting]
  dsimp only
  rw [smoothly_onlyIf, if_pos rfl, hbridge]
  dsimp only
  rw [smoothly_bind, smoothly_existing, hexisting]
  rfl

/-- One turn of the loop over the VLANs, of a VLAN that is there. -/
theorem smoothly_ensureVLANs_cons {k : NetworkManifest} {v : VLAN} {done rest : List VLAN}
    {desired : List String} (hself : lastApplied k.appliedVLANs v = v)
    (hvlan : s.host.HasVLAN v.device v.parent v.tag) (hne : v.device ≠ "")
    (hparent : (s.host.get v.parent).isSome = true)
    (hchecked : check f (withVLAN k done v rest) = .ok ()) :
    smoothly f w (ensureVLANs done (v :: rest) desired k) (s.storing stored k) =
      smoothly f w (ensureVLANs (done ++ [v]) rest (desired ++ [v.device]) (withVLAN k done v rest))
        (s.storing stored (withVLAN k done v rest)) := by
  have hreq : smoothly f w (requireInterface "VLAN parent " v.parent) (s.storing stored k) =
      (.ok (), s.storing stored k) := smoothly_requireInterface hparent
  have hresolve : smoothly f w (resolveVLAN k.id v.device (!v.borrowed) v.parent v.tag)
      (s.storing stored k) = (.ok (v.device, !v.borrowed), s.storing stored k) :=
    smoothly_resolveVLAN_kept hvlan hne
  have hup : smoothly f w (attempt (netCall (.up v.parent)))
      (s.storing stored (withVLAN k done v rest)) =
      (.ok (), s.storing stored (withVLAN k done v rest)) := smoothly_up hparent
  have happlied : ({ v with device := v.device, borrowed := !(!v.borrowed) } : VLAN) = v := by
    rw [Bool.not_not]
  have hid : (withVLAN k done v rest).id = k.id := rfl
  rw [ensureVLANs, hself, smoothly_bind, hreq]
  dsimp only
  rw [smoothly_bind, hresolve]
  dsimp only
  rw [happlied, smoothly_bind, smoothly_save_again hchecked hid]
  dsimp only
  rw [smoothly_bind, hup]

theorem smoothly_ensureVLANs {others done rest : List VLAN} {desired : List String}
    (hwired : Wired n s.host) (hchecked : check f n = .ok ())
    (happlied : n.appliedVLANs = others ++ n.vlans) (hothers : Others others n.vlans)
    (hvlans : n.vlans = done ++ rest) :
    smoothly f w (ensureVLANs done rest desired
        { n with appliedVLANs := others ++ rest ++ done })
      (s.storing stored { n with appliedVLANs := others ++ rest ++ done }) =
      (.ok (n, desired ++ rest.map (·.device)), s.storing stored n) := by
  have hkeys := check_keys hchecked
  induction rest generalizing done desired with
  | nil =>
    have hend : ({ n with appliedVLANs := others ++ [] ++ done } : NetworkManifest) = n := by
      rw [List.append_nil] at hvlans
      rw [List.append_nil, ← hvlans, ← happlied]
    rw [hend, ensureVLANs, List.map_nil, List.append_nil]
    rfl
  | cons v rest ih =>
    have hv : v ∈ n.vlans := by simp [hvlans]
    have hself : lastApplied (others ++ v :: rest ++ done) v = v := by
      refine lastApplied_self fun a ha hsame => ?_
      rw [hvlans, List.pairwise_append, List.pairwise_cons] at hkeys
      have hsame' : VLAN.sameKey v a = true := by
        rw [sameKey_iff] at hsame ⊢
        exact ⟨hsame.1.symm, hsame.2.symm⟩
      simp only [List.mem_append, List.mem_cons] at ha
      obtain (ha | rfl | ha) | ha := ha
      · rw [hothers a ha v hv] at hsame
        cases hsame
      · rfl
      · rw [hkeys.2.1.1 a ha] at hsame'
        cases hsame'
      · rw [hkeys.2.2 a ha v List.mem_cons_self] at hsame
        cases hsame
    have hnext : withVLAN { n with appliedVLANs := others ++ v :: rest ++ done } done v rest =
        { n with appliedVLANs := others ++ rest ++ (done ++ [v]) } := by
      rw [withVLAN]
      dsimp only
      rw [rotated (hvlans ▸ hothers) (hvlans ▸ hkeys), ← hvlans]
    have hchecked' : check f { n with appliedVLANs := others ++ rest ++ (done ++ [v]) } =
        .ok () := by
      refine check_appliedVLANs hchecked fun a => ?_
      rw [happlied, hvlans]
      simp only [List.mem_append, List.mem_cons, List.not_mem_nil, or_false]
      tauto
    have hne : v.device ≠ "" :=
      vlanName_ne ((check_iff.mp hchecked).2.2.2.1 v (by simp [happlied, hv]))
    rw [smoothly_ensureVLANs_cons hself (hwired.vlans v hv) hne (hwired.parents v hv)
      (hnext ▸ hchecked'), hnext, ih (by simp [hvlans]), List.map_cons, List.append_assoc]
    rfl

theorem smoothly_detachOld {desired members olds : List String} (h : ∀ m ∈ olds, m ∈ desired) :
    smoothly f w (detachOld desired members olds n) s = (.ok n, s) := by
  induction olds with
  | nil => rfl
  | cons old olds ih =>
    rw [detachOld, if_pos (h old List.mem_cons_self)]
    exact ih fun m hm => h m (List.mem_cons_of_mem _ hm)

theorem smoothly_attachDesired {members desired : List String} (h : ∀ m ∈ desired, m ∈ members)
    (hthere : ∀ m ∈ desired, (s.host.get m).isSome = true) :
    smoothly f w (attachDesired members desired n) s = (.ok n, s) := by
  induction desired with
  | nil => rfl
  | cons member desired ih =>
    have hmember := hthere member List.mem_cons_self
    have hattach : smoothly f w (attachMember members member n) s = (.ok n, s) := by
      rw [attachMember, if_pos (h member List.mem_cons_self)]
      rfl
    rw [attachDesired, smoothly_bind, smoothly_requireInterface hmember]
    dsimp only
    rw [smoothly_bind, hattach]
    dsimp only
    rw [smoothly_bind, smoothly_up hmember]
    exact ih (fun m hm => h m (List.mem_cons_of_mem _ hm))
      fun m hm => hthere m (List.mem_cons_of_mem _ hm)

theorem smoothly_dropVLANs {desired : List String} {olds : List VLAN}
    (h : ∀ a ∈ olds, a.device ∈ desired) :
    smoothly f w (dropVLANs desired olds n) s = (.ok n, s) := by
  induction olds with
  | nil => rfl
  | cons old olds ih =>
    rw [dropVLANs, if_pos (h old List.mem_cons_self)]
    exact ih fun a ha => h a (List.mem_cons_of_mem _ ha)

theorem Wired.wanted_isSome (h : Wired n s.host) {m : String} (hm : m ∈ wanted n) :
    (s.host.get m).isSome = true := by
  obtain hm | hm := List.mem_append.mp hm
  · exact h.members m hm
  · obtain ⟨v, hv, rfl⟩ := List.mem_map.mp hm
    obtain ⟨i, hi, -⟩ := h.vlans v hv
    rw [hi]
    rfl

theorem smoothly_forM {α : Type} {p : α → NetM Unit} {l : List α}
    (h : ∀ x ∈ l, smoothly f w (p x) s = (.ok (), s)) : smoothly f w (l.forM p) s = (.ok (), s) := by
  induction l with
  | nil => rfl
  | cons x l ih =>
    show smoothly f w (p x >>= fun _ => l.forM p) s = _
    rw [smoothly_bind, h x List.mem_cons_self]
    exact ih fun y hy => h y (List.mem_cons_of_mem _ hy)

/-- A settled network is applied again without a change. -/
theorem smoothly_applyBridge (h : Settled f n s.host) :
    smoothly f w (applyBridge n) (s.storing stored n) = (.ok n, s.storing stored n) := by
  obtain ⟨others, happlied, hothers⟩ := h.appliedVLANs
  have hwired := h.wired
  have hmembers : smoothly f w (n.members.forM (requireInterface "bridge member "))
      (s.storing stored n) = (.ok (), s.storing stored n) :=
    smoothly_forM fun m hm => smoothly_requireInterface (hwired.members m hm)
  have hparents : smoothly f w (n.vlans.forM fun v => requireInterface "VLAN parent " v.parent)
      (s.storing stored n) = (.ok (), s.storing stored n) :=
    smoothly_forM fun v hv => smoothly_requireInterface (hwired.parents v hv)
  have hdevice : smoothly f w (ensureDevice n) (s.storing stored n) = (.ok n, s.storing stored n) :=
    smoothly_ensureDevice hwired
  have hstart : ({ n with appliedVLANs := others ++ n.vlans ++ [] } : NetworkManifest) = n := by
    rw [List.append_nil, ← happlied]
  have hvlans : smoothly f w (ensureVLANs [] n.vlans n.members n) (s.storing stored n) =
      (.ok (n, wanted n), s.storing stored n) := by
    have hloop : smoothly f w (ensureVLANs [] n.vlans n.members
          { n with appliedVLANs := others ++ n.vlans ++ [] })
        (s.storing stored { n with appliedVLANs := others ++ n.vlans ++ [] }) =
        (.ok (n, wanted n), s.storing stored n) :=
      smoothly_ensureVLANs hwired h.checked happlied hothers rfl
    rwa [hstart] at hloop
  obtain ⟨i, hi⟩ := Option.isSome_iff_exists.mp (test_isSome hwired.bridge)
  have hlist : smoothly f w (attempt (netCall (.bridgeMembers n.device))) (s.storing stored n) =
      (.ok (i.members.map (·.1)), s.storing stored n) := by
    rw [smoothly_attempt, eval_netCall]
    exact smooth_bridgeMembers hi
  have hcarried : ∀ m ∈ wanted n, m ∈ i.members.map (·.1) := by
    intro m hm
    have hhas := h.carried m hm
    rw [Host.test, hi] at hhas
    obtain ⟨e, he, hname⟩ := List.any_eq_true.mp hhas
    exact List.mem_map.mpr ⟨e, he, of_decide_eq_true hname⟩
  have hdrop : smoothly f w (dropAddress n) (s.storing stored n) = (.ok n, s.storing stored n) := by
    rw [dropAddress, if_neg]
    · rfl
    · rintro ⟨hset, hne⟩
      exact h.appliedAddress.elim hset hne
  have haddress : smoothly f w (ensureAddress n) (s.storing stored n) =
      (.ok n, s.storing stored n) := by
    rw [ensureAddress]
    split
    · rfl
    · rename_i hset
      have hhas := h.address.resolve_left hset
      rw [smoothly_bind, smoothly_ask, eval_netCall, smooth_hasAddress]
      dsimp only [NetState.storing]
      rw [hhas]
      rfl
  have hattach : smoothly f w (attachDesired (i.members.map (·.1)) (wanted n) n)
      (s.storing stored n) = (.ok n, s.storing stored n) :=
    smoothly_attachDesired hcarried fun m hm => hwired.wanted_isSome hm
  have hup : smoothly f w (attempt (netCall (.up n.device))) (s.storing stored n) =
      (.ok (), s.storing stored n) := smoothly_up (test_isSome hwired.bridge)
  have hsave : smoothly f w (attempt (netCall (.save n))) (s.storing stored n) =
      (.ok (), s.storing stored n) := by
    rw [smoothly_attempt, eval_netCall, smooth_save h.checked]
    unfold NetState.storing
    dsimp only
    rw [Table.put_put]
  rw [applyBridge, smoothly_bind, hmembers]
  dsimp only
  rw [smoothly_bind, hparents]
  dsimp only
  rw [smoothly_bind, hdevice]
  dsimp only
  rw [smoothly_bind, hvlans]
  dsimp only
  rw [smoothly_bind, hlist]
  dsimp only
  rw [smoothly_bind, smoothly_detachOld h.appliedMembers]
  dsimp only
  rw [smoothly_bind, hattach]
  dsimp only
  rw [smoothly_bind, smoothly_dropVLANs h.appliedDevices]
  dsimp only
  rw [smoothly_bind, hdrop]
  dsimp only
  rw [smoothly_bind, haddress]
  dsimp only
  rw [smoothly_bind, hup]
  dsimp only
  rw [smoothly_bind, hsave]
  rfl

theorem loaded_storing (h : check f n = .ok ()) :
    (s.storing stored n).loaded f n.id = .ok n := by
  rw [NetState.loaded, NetState.storing]
  dsimp only
  rw [Table.get_put, if_pos rfl]
  dsimp only
  rw [h]
  dsimp only
  rw [if_pos rfl]

theorem smoothly_underLock {α : Type} {body : NetM α} :
    smoothly f w (underLock body) s = smoothly f w body s := by
  rw [underLock, smoothly_bind, smoothly_attempt, eval_netCall, smooth_lock]
  dsimp only
  rw [smoothly_bind, smoothly_ask]
  dsimp only
  rw [smoothly_bind, smoothly_ask, eval_netCall, smooth_unlock]
  rfl

/-- A settled network is ensured again without a change. -/
theorem smoothly_ensure_settled (h : Settled f n s.host) :
    smoothly f w (ensure n false) (s.storing stored n) = (.ok n, s.storing stored n) := by
  have hload : smoothly f w (reload n.id .bridge) (s.storing stored n) =
      (.ok n, s.storing stored n) := by
    rw [reload, smoothly_bind, smoothly_attempt, eval_netCall, smooth_load, loaded_storing h.checked]
    dsimp only
    rw [if_neg (by simp [h.mode])]
    rfl
  rw [ensure, h.mode]
  dsimp only
  rw [smoothly_underLock, smoothly_bind, hload]
  exact smoothly_applyBridge h

end Again

end Maco.Network
