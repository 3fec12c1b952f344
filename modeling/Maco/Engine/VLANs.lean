import Maco.Network.Smooth
import Maco.Engine.Network

/-! The networks of VLAN mode, on a host that does what it is asked for: each of them is applied to
an interface of its parent and tag, over creations, changes of the tag, applications and reboots, as
long as no change of the tag and no new interface's name leaves a network with an interface of
another configuration. -/

namespace Maco.Engine.VLANs

open Concurrent Network

section Ensure

variable {f : Formats} {w : Weather} {s : NetState} {n : NetworkManifest} {α : Type}

/-- The lock is always given. -/
theorem smoothly_underLock (body : NetM α) :
    smoothly f w (underLock body) s = smoothly f w body s := by
  rw [underLock, smoothly_bind, smoothly_attempt, eval_netCall, smooth_lock]
  dsimp only
  rw [smoothly_bind, smoothly_ask]
  dsimp only
  rw [smoothly_bind, smoothly_ask, eval_netCall, smooth_unlock]
  rfl

/-- The manifest with the interface that it is applied to. -/
def onDevice (n : NetworkManifest) (device : String) (owned : Bool) : NetworkManifest :=
  { n with device := device, owned := owned }

theorem smoothly_applyVLAN (hcheck : check f n = .ok ()) (hmode : n.mode = .vlan)
    (hparent : (s.host.get n.parent).isSome) (hname : Unused w.device s.host)
    (hnamed : s.host.Named) (h : s.host.Resolvable n.device n.parent n.tag) :
    ∃ d o host, smoothly f w (applyVLAN n) s = (.ok (onDevice n d o),
        { s with host := host, manifests := s.manifests.put n.id (onDevice n d o) }) ∧
      Resolved w s.host n.device n.parent n.tag n.owned d o host ∧
      check f (onDevice n d o) = .ok () ∧ host.Named := by
  obtain ⟨d, o, host, hresolve, hresolved⟩ :=
    @smoothly_resolveVLAN f w s n.id n.device n.parent n.owned n.tag hname h
  have hdevice : n.device = "" ∨ vlanName n.device = true ∧ interfaceName n.device = true :=
    or_iff_not_imp_left.mpr (check_vlanNetwork hcheck hmode)
  have hhost := hresolved.named hname hnamed hdevice
  obtain ⟨i, hi, hvlan⟩ := hresolved.hasVLAN
  obtain ⟨hd, hdname⟩ := hhost d i hi (by rw [hvlan]; exact Option.some_ne_none _)
  have hchecked := check_vlanDevice hcheck hmode hd hdname o
  refine ⟨d, o, host, ?_, hresolved, hchecked, hhost⟩
  rw [applyVLAN, smoothly_bind, smoothly_requireInterface hparent]
  dsimp only
  rw [smoothly_bind, hresolve]
  dsimp only
  rw [smoothly_bind, smoothly_saveOr hchecked]
  dsimp only
  rw [smoothly_bind, smoothly_attempt, eval_netCall, smooth_up (hresolved.isSome hname hparent)]
  dsimp only
  rw [smoothly_bind, smoothly_attempt, eval_netCall, smooth_up (by rw [hi]; rfl)]
  dsimp only
  rw [smoothly_bind, smoothly_attempt, eval_netCall, smooth_save hchecked]
  dsimp only
  rw [Table.put_put]
  rfl

theorem smoothly_applyVLAN_refused (hparent : (s.host.get n.parent).isSome)
    (h : ¬ s.host.Resolvable n.device n.parent n.tag) :
    ∃ e, smoothly f w (applyVLAN n) s = (.error e, s) := by
  obtain ⟨e, he⟩ := @smoothly_resolveVLAN_refused f w s n.id n.device n.parent n.owned n.tag h
  refine ⟨e, ?_⟩
  rw [applyVLAN, smoothly_bind, smoothly_requireInterface hparent]
  dsimp only
  rw [smoothly_bind, he]

/-- `Ensure` of a network that is stored so. -/
theorem smoothly_ensure {m : NetworkManifest} (hloaded : s.loaded f n.id = .ok m)
    (hn : n.mode = .vlan) (hm : m.mode = .vlan) :
    smoothly f w (ensure n false) s = smoothly f w (applyVLAN m) s := by
  have hreload : smoothly f w (reload n.id .vlan) s = (.ok m, s) := by
    rw [reload, smoothly_bind, smoothly_attempt, eval_netCall, smooth_load, hloaded]
    dsimp only
    rw [if_neg (by simp [hm])]
    rfl
  rw [ensure, hn]
  dsimp only
  rw [smoothly_underLock, smoothly_bind, hreload]
  rfl

end Ensure

/-! ### Networks -/

/-- The recorded interface is missing, or has the VLAN, or it is maco's and another has the VLAN. -/
def Good (n : NetworkManifest) (h : Host) : Prop :=
  ∀ i, h.get n.device = some i → n.device ≠ "" → i.vlan = some (n.parent, n.tag) ∨
    i.made = true ∧ h.findVLAN n.parent n.tag ≠ ""

theorem Good.resolvable {n : NetworkManifest} {h : Host} (hgood : Good n h) :
    h.Resolvable n.device n.parent n.tag := by
  intro i hi hne
  rcases hgood i hi hne with h | h
  · exact .inr (.inl h)
  · exact .inr (.inr h.2)

/-- No other network is left with a new interface of another VLAN than its own: none records the
name, but for those with this VLAN and those whose VLAN another interface has. -/
def Spared (s : NetState) (name id parent : String) (tag : Int) : Prop :=
  ∀ other m, s.manifests.get other = some m → other ≠ id → m.device = name →
    (m.parent = parent ∧ m.tag = tag) ∨ s.host.findVLAN m.parent m.tag ≠ ""

/-- What the network itself records does not matter. -/
theorem Spared.put {s : NetState} {name id parent : String} {tag : Int} {n : NetworkManifest}
    (h : Spared s name id parent tag) :
    Spared { s with manifests := s.manifests.put id n } name id parent tag := by
  intro other m hm hne hdevice
  dsimp only at hm
  rw [Table.get_put, if_neg hne] at hm
  exact h other m hm hne hdevice

/-- What holds between the operations; in the middle of one, `but` tells which network is not yet
applied. -/
structure Sound (f : Formats) (but : String → Prop) (s : NetState) : Prop where
  stored : ∀ id n, s.manifests.get id = some n →
    n.id = id ∧ check f n = .ok () ∧ n.mode = .vlan ∧ id ∈ s.issued
  parents : ∀ id n, s.manifests.get id = some n → (s.host.get n.parent).isSome
  good : ∀ id n, s.manifests.get id = some n → ¬ but id → Good n s.host
  named : s.host.Named
  distinct : (s.host.map (·.1)).Nodup

/-- The invariant. -/
abbrev Inv (f : Formats) (s : NetState) : Prop := Sound f (fun _ => False) s

section Kept

variable {f : Formats} {w : Weather} {s : NetState} {n m : NetworkManifest} {host : Host}
  {device parent d : String} {tag : Int} {owned o : Bool}

theorem findVLAN_kept (hr : Resolved w s.host device parent tag owned d o host)
    (hname : Unused w.device s.host) (hnamed : s.host.Named) {p : String} {t : Int}
    (hfound : s.host.findVLAN p t ≠ "") : host.findVLAN p t ≠ "" := by
  have hvlan := Host.hasVLAN_findVLAN hfound
  obtain ⟨i, hi, hi'⟩ := hvlan
  have hvlanName := (hnamed _ i hi (by rw [hi']; exact Option.some_ne_none _)).1
  exact Host.findVLAN_ne (hr.keeps hname ⟨i, hi, hi'⟩) hvlanName

/-- Another network stays as good as it was. -/
theorem good_kept (hr : Resolved w s.host device parent tag owned d o host)
    (hname : Unused w.device s.host) (hnamed : s.host.Named) (hgood : Good m s.host)
    (hspared : s.host.Creates device parent tag → m.device = w.device →
      (m.parent = parent ∧ m.tag = tag) ∨ s.host.findVLAN m.parent m.tag ≠ "") : Good m host := by
  intro i hi hne
  cases hold : s.host.get m.device with
  | none =>
    rcases hr.new hold with hnone | ⟨hdevice, -, -, hcreates, hnew⟩
    · rw [hnone] at hi
      cases hi
    · rw [hnew] at hi
      cases hi
      rcases hspared hcreates hdevice with ⟨rfl, rfl⟩ | hfound
      · exact .inl rfl
      · exact .inr ⟨rfl, findVLAN_kept hr hname hnamed hfound⟩
  | some j =>
    rcases hr.get hname hold with hsame | ⟨hnone, -, -, hsame⟩
    · rw [hsame] at hi
      cases hi
      rcases hgood i hold hne with h | ⟨hmade, hfound⟩
      · exact .inl h
      · exact .inr ⟨hmade, findVLAN_kept hr hname hnamed hfound⟩
    · rw [hsame] at hi
      cases hi
      rcases hgood j hold hne with h | ⟨hmade, hfound⟩
      · rw [hnone] at h
        cases h
      · exact .inr ⟨hmade, findVLAN_kept hr hname hnamed hfound⟩

/-- A manifest is stored that is not applied yet. -/
theorem Inv.put {f : Formats} {s : NetState} (h : Inv f s) {n : NetworkManifest}
    (hcheck : check f n = .ok ()) (hmode : n.mode = .vlan) (hissued : n.id ∈ s.issued)
    (hparent : (s.host.get n.parent).isSome) :
    Sound f (· = n.id) { s with manifests := s.manifests.put n.id n } where
  stored id m hm := by
    dsimp only at hm
    rw [Table.get_put] at hm
    split at hm
    · rename_i hid
      cases hm
      exact ⟨hid.symm, hcheck, hmode, hid ▸ hissued⟩
    · exact h.stored id m hm
  parents id m hm := by
    dsimp only at hm
    rw [Table.get_put] at hm
    split at hm
    · cases hm
      exact hparent
    · exact h.parents id m hm
  good id m hm hid := by
    dsimp only at hm
    rw [Table.get_put, if_neg hid] at hm
    exact h.good id m hm not_false
  named := h.named
  distinct := h.distinct

/-- The manifest that is not applied yet is applied. -/
theorem Sound.applied {f : Formats} (h : Sound f (· = n.id) s)
    (hcheck : check f (onDevice n d o) = .ok ()) (hmode : n.mode = .vlan)
    (hissued : n.id ∈ s.issued) (hparent : (s.host.get n.parent).isSome)
    (hname : Unused w.device s.host)
    (hr : Resolved w s.host n.device n.parent n.tag n.owned d o host) (hnamed : host.Named)
    (hspared : s.host.Creates n.device n.parent n.tag →
      Spared s w.device n.id n.parent n.tag) :
    Inv f { s with host := host, manifests := s.manifests.put n.id (onDevice n d o) } where
  stored id m hm := by
    dsimp only at hm
    rw [Table.get_put] at hm
    split at hm
    · rename_i hid
      cases hm
      exact ⟨hid.symm, hcheck, hmode, hid ▸ hissued⟩
    · exact h.stored id m hm
  parents id m hm := by
    dsimp only at hm
    rw [Table.get_put] at hm
    split at hm
    · cases hm
      exact hr.isSome hname hparent
    · exact hr.isSome hname (h.parents id m hm)
  good id m hm _ := by
    dsimp only at hm
    rw [Table.get_put] at hm
    split at hm
    · cases hm
      intro i hi _
      obtain ⟨j, hj, hvlan⟩ := hr.hasVLAN
      have heq : host.get d = some i := hi
      rw [hj] at heq
      cases heq
      exact .inl hvlan
    · rename_i hid
      exact good_kept hr hname h.named (h.good id m hm hid) fun hcreates hdevice =>
        hspared hcreates id m hm hid hdevice
  named := hnamed
  distinct := hr.distinct h.distinct

/-- An id is given out. -/
theorem Inv.issue {f : Formats} (h : Inv f s) (id : String) :
    Inv f { s with issued := id :: s.issued } where
  stored other m hm := by
    obtain ⟨hid, hcheck, hmode, hissued⟩ := h.stored other m hm
    exact ⟨hid, hcheck, hmode, List.mem_cons_of_mem id hissued⟩
  parents := h.parents
  good := h.good
  named := h.named
  distinct := h.distinct

/-- A new manifest is stored and removed. -/
theorem Inv.removed {f : Formats} (h : Inv f s) {id : String} (n : NetworkManifest) :
    Inv f { s with manifests := (s.manifests.put id n).without [id] } := by
  have hold : ∀ other m, ((s.manifests.put id n).without [id]).get other = some m →
      s.manifests.get other = some m := by
    intro other m hm
    rw [Table.get_without, Table.get_put] at hm
    split at hm
    · cases hm
    · rename_i hne
      rwa [if_neg (by simpa using hne)] at hm
  exact {
    stored := fun other m hm => h.stored other m (hold other m hm)
    parents := fun other m hm => h.parents other m (hold other m hm)
    good := fun other m hm => h.good other m (hold other m hm)
    named := h.named
    distinct := h.distinct }

end Kept

/-! ### The operations -/

/-- The operations on VLAN networks, and the reboot of the host, which also loses interfaces that
others created. -/
inductive VLANOp where
  | create (params : CreateNetworkParams)
  | update (ref : String) (params : CreateNetworkParams)
  | apply (ref : String)
  | reboot (lost : List String)

/-- No running machine uses the network. -/
def Unattached (w : Weather) (n : NetworkManifest) (vms : List VMManifest) : Prop :=
  ∀ m ∈ vms, w.running m.id = true →
    n.id ∉ w.references m.id ∧ n.name ∉ w.references m.id ∧
      ∀ nic ∈ m.effectiveInterfaces, refersTo n nic.network = false

/-- What `UpdateNetwork` asks of a change. -/
structure Accepted (f : Formats) (w : Weather) (n : NetworkManifest)
    (params : CreateNetworkParams) : Prop where
  name : params.name = n.name
  mode : NetworkMode.ofString params.mode = n.mode
  device : params.device = "" ∨ params.device = n.device
  unattached : Unattached w n w.vms
  owned : n.parent ≠ params.parent ∨ n.tag ≠ params.tag → n.device ≠ "" → n.owned = true
  valid : check f (redefined n params) = .ok ()

section Operations

variable (f : Formats) (mcastGroup : String → String) (w : Weather)

/-- The state after an operation. -/
def VLANOp.after (s : NetState) : VLANOp → NetState
  | .create params => (smoothly f w (createNetwork mcastGroup { params with mode := "vlan" }) s).2
  | .update ref params => (smoothly f w (updateNetwork ref params) s).2
  | .apply ref => (smoothly f w (applyNetwork ref false) s).2
  | .reboot lost => { s.reboot with host := s.reboot.host.without lost }

/-- The environment keeps to its part: the name of a new interface is not in use, an id is new, and
the parents exist. -/
def VLANOp.Admissible (s : NetState) : VLANOp → Prop
  | .create params =>
    Unused w.device s.host ∧ w.id ∉ s.issued ∧ (s.host.get params.parent).isSome
  | .update _ params => Unused w.device s.host ∧ (s.host.get params.parent).isSome
  | .apply _ => Unused w.device s.host
  | .reboot lost => ∀ id n, s.manifests.get id = some n →
    ((s.reboot.host.without lost).get n.parent).isSome

/-- The operation gives a network a new parent and tag only where its interface can be replaced, and
a new interface has a name that no other network is left with. -/
def VLANOp.Careful (s : NetState) : VLANOp → Prop
  | .create params => s.host.Creates params.device params.parent params.tag →
    Spared s w.device w.id params.parent params.tag
  | .update ref params => ∀ n, s.resolved f ref = .ok n → Accepted f w n params →
    s.host.Resolvable n.device params.parent params.tag ∧
      (s.host.Creates n.device params.parent params.tag →
        Spared s w.device n.id params.parent params.tag)
  | .apply ref => ∀ n, s.resolved f ref = .ok n → s.host.Creates n.device n.parent n.tag →
    Spared s w.device n.id n.parent n.tag
  | .reboot _ => True

variable {f mcastGroup w} {s : NetState}

theorem loaded_of_get {n : NetworkManifest} (hget : s.manifests.get n.id = some n)
    (hcheck : check f n = .ok ()) : s.loaded f n.id = .ok n := by
  unfold NetState.loaded
  simp [hget, hcheck]

/-- `Ensure` under the invariant. -/
theorem Inv.ensured (h : Inv f s) {n : NetworkManifest} (hget : s.manifests.get n.id = some n)
    (hname : Unused w.device s.host) :
    ∃ d o host, smoothly f w (ensure n false) s = (.ok (onDevice n d o),
        { s with host := host, manifests := s.manifests.put n.id (onDevice n d o) }) ∧
      Resolved w s.host n.device n.parent n.tag n.owned d o host ∧
      ((s.host.Creates n.device n.parent n.tag → Spared s w.device n.id n.parent n.tag) →
        Inv f { s with host := host, manifests := s.manifests.put n.id (onDevice n d o) }) := by
  obtain ⟨-, hcheck, hmode, hissued⟩ := h.stored n.id n hget
  have hparent := h.parents n.id n hget
  have hgood := h.good n.id n hget not_false
  obtain ⟨d, o, host, hrun, hr, hchecked, hnamed⟩ := smoothly_applyVLAN hcheck hmode hparent hname
    h.named hgood.resolvable
  refine ⟨d, o, host, ?_, hr, fun hspared => ?_⟩
  · rw [smoothly_ensure (loaded_of_get hget hcheck) hmode hmode, hrun]
  · have hbut : Sound f (· = n.id) s := { h with good := fun id m hm _ => h.good id m hm not_false }
    exact hbut.applied hchecked hmode hissued hparent hname hr hnamed hspared

theorem resolved_get {ref : String} {n : NetworkManifest} (h : s.resolved f ref = .ok n) :
    s.manifests.get n.id = some n ∧ check f n = .ok () := by
  obtain ⟨id, hloaded⟩ := resolved_loaded h
  obtain ⟨hget, hcheck, rfl⟩ := loaded_stored hloaded
  exact ⟨hget, hcheck⟩

theorem Inv.after_apply (h : Inv f s) {ref : String} (hname : Unused w.device s.host)
    (hcareful : VLANOp.Careful f w s (.apply ref)) :
    Inv f (VLANOp.after f mcastGroup w s (.apply ref)) := by
  rw [VLANOp.after, applyNetwork, smoothly_bind, smoothly_attempt, eval_netCall, smooth_resolve]
  cases hresolved : s.resolved f ref with
  | error e => exact h
  | ok n =>
    obtain ⟨d, o, host, hrun, -, hinv⟩ := h.ensured (resolved_get hresolved).1 hname
    dsimp only
    rw [hrun]
    exact hinv (hcareful n hresolved)

theorem smoothly_requireNotPending (n : NetworkManifest) (m : VMManifest) :
    (∃ e, smoothly f w (requireNotPending n m) s = (.error e, s)) ∨
      smoothly f w (requireNotPending n m) s = (.ok (), s) ∧
        n.id ∉ w.references m.id ∧ n.name ∉ w.references m.id := by
  rw [requireNotPending, smoothly_bind, smoothly_ask, eval_netCall,
    show s.smooth f w (.pendingReferences m.id) = (.ok (w.references m.id), s) from rfl]
  dsimp only
  split
  · exact .inl ⟨_, rfl⟩
  · rename_i hrefs
    exact .inr ⟨rfl, not_or.mp hrefs⟩

theorem smoothly_requireUnusedBy (n : NetworkManifest) (vms : List VMManifest) :
    (∃ e, smoothly f w (requireUnusedBy n vms) s = (.error e, s)) ∨
      smoothly f w (requireUnusedBy n vms) s = (.ok (), s) ∧ Unattached w n vms := by
  induction vms with
  | nil => exact .inr ⟨rfl, (by simp [Unattached])⟩
  | cons m vms ih =>
    rw [requireUnusedBy, smoothly_bind, smoothly_ask, eval_netCall,
      show s.smooth f w (.running m.id) = (w.running m.id, s) from rfl]
    dsimp only
    cases hrunning : w.running m.id with
    | false =>
      refine ih.imp_right fun ⟨hrun, hvms⟩ => ⟨hrun, ?_⟩
      rintro m' (_ | ⟨_, hm'⟩) hm
      · rw [hrunning] at hm
        cases hm
      · exact hvms m' hm' hm
    | true =>
      rw [if_pos rfl, smoothly_bind]
      rcases smoothly_requireNotPending (f := f) (w := w) (s := s) n m with ⟨e, he⟩ | ⟨hok, hrefs⟩
      · rw [he]
        exact .inl ⟨e, rfl⟩
      rw [hok]
      dsimp only
      split
      · exact .inl ⟨_, rfl⟩
      · rename_i hnics
        refine ih.imp_right fun ⟨hrun, hvms⟩ => ⟨hrun, ?_⟩
        rintro m' (_ | ⟨_, hm'⟩) hm
        · exact ⟨hrefs.1, hrefs.2, by simpa using hnics⟩
        · exact hvms m' hm' hm

/-- A condition that asks for an interface of maco's. -/
theorem smoothly_onlyOwned {c : Prop} [Decidable c] (n : NetworkManifest) (e : Message) :
    (∃ e', smoothly f w (onlyIf c (if n.owned = false then refuse e else requireDetached n)) s =
        (.error e', s)) ∨
      smoothly f w (onlyIf c (if n.owned = false then refuse e else requireDetached n)) s =
        (.ok (), s) ∧ (c → n.owned = true) := by
  rw [smoothly_onlyIf]
  split
  · split
    · exact .inl ⟨e, rfl⟩
    · rename_i howned
      rw [smoothly_looks (looks_requireDetached n)]
      cases (smoothly f w (requireDetached n) s).1 with
      | error e => exact .inl ⟨e, rfl⟩
      | ok u => exact .inr ⟨rfl, fun _ => by simpa using howned⟩
  · rename_i hc
    exact .inr ⟨rfl, fun h => absurd h hc⟩

/-- A change is refused and changes nothing, or is accepted and saved. -/
theorem smoothly_redefineNetwork (ref : String) (params : CreateNetworkParams) :
    (∃ e, smoothly f w (redefineNetwork ref params) s = (.error e, s)) ∨
    ∃ n, s.resolved f ref = .ok n ∧ (n.mode = .vlan → Accepted f w n params) ∧
      check f (redefined n params) = .ok () ∧
      smoothly f w (redefineNetwork ref params) s = (.ok (redefined n params),
        { s with manifests := s.manifests.put n.id (redefined n params) }) := by
  rw [redefineNetwork, smoothly_bind, smoothly_attempt, eval_netCall, smooth_resolve]
  cases hresolved : s.resolved f ref with
  | error e => exact .inl ⟨e, rfl⟩
  | ok n =>
    dsimp only
    split
    · exact .inl ⟨_, rfl⟩
    rename_i hsame
    split
    · exact .inl ⟨_, rfl⟩
    rename_i hdevice
    rw [smoothly_bind, smoothly_attempt, eval_netCall,
      show s.smooth f w .listVMs = (.ok w.vms, s) from rfl]
    dsimp only
    rw [smoothly_bind]
    rcases smoothly_requireUnusedBy (f := f) (w := w) (s := s) n w.vms with
      ⟨e, he⟩ | ⟨hrun, hunattached⟩
    · rw [he]
      exact .inl ⟨e, rfl⟩
    rw [hrun]
    dsimp only
    rw [smoothly_bind]
    rcases smoothly_onlyOwned (f := f) (w := w) (s := s) (c := n.mode = .vlan ∧
      (n.parent ≠ params.parent ∨ n.tag ≠ params.tag) ∧ n.device ≠ "") n
      "cannot retag a borrowed VLAN interface" with ⟨e, he⟩ | ⟨hrun, howned⟩
    · rw [he]
      exact .inl ⟨e, rfl⟩
    rw [hrun]
    dsimp only
    rw [smoothly_bind, smoothly_attempt, eval_netCall]
    by_cases hcheck : check f (redefined n params) = .ok ()
    · rw [smooth_save hcheck]
      push Not at hsame hdevice
      exact .inr ⟨n, rfl, (fun hmode => {
        name := hsame.1
        mode := hsame.2
        device := or_iff_not_imp_left.mpr hdevice
        unattached := hunattached
        owned := fun h hne => howned ⟨hmode, h, hne⟩
        valid := hcheck }), hcheck, rfl⟩
    · rw [smooth_save_error hcheck]
      exact .inl ⟨_, rfl⟩

theorem Inv.after_update (h : Inv f s) {ref : String} {params : CreateNetworkParams}
    (hname : Unused w.device s.host) (hparent : (s.host.get params.parent).isSome)
    (hcareful : VLANOp.Careful f w s (.update ref params)) :
    Inv f (VLANOp.after f mcastGroup w s (.update ref params)) := by
  rw [VLANOp.after, updateNetwork, smoothly_bind, smoothly_underLock]
  rcases smoothly_redefineNetwork (f := f) (w := w) (s := s) ref params with
    ⟨e, he⟩ | ⟨n, hresolved, haccepted, hcheck, hrun⟩
  · rw [he]
    exact h
  · obtain ⟨hget, -⟩ := resolved_get hresolved
    obtain ⟨-, -, hmode, hissued⟩ := h.stored n.id n hget
    have hgood := hcareful n hresolved (haccepted hmode)
    have hput := h.put hcheck hmode hissued hparent
    let t : NetState := { s with manifests := s.manifests.put n.id (redefined n params) }
    have hstored : t.manifests.get (redefined n params).id = some (redefined n params) := by
      show (s.manifests.put n.id (redefined n params)).get n.id = _
      rw [Table.get_put, if_pos rfl]
    obtain ⟨d, o, host, happly, hr, hchecked, hnamed⟩ := smoothly_applyVLAN (s := t) hcheck hmode
      hparent hname h.named hgood.1
    have hensure := smoothly_ensure (w := w) (loaded_of_get hstored hcheck) hmode hmode
    rw [happly] at hensure
    rw [hrun]
    dsimp only
    rw [smoothly_bind, smoothly_ask,
      show (ensure (redefined n params) false).run.eval (NetState.smooth f w) t = _ from hensure]
    exact hput.applied hchecked hmode hissued hparent hname hr hnamed fun hcreates =>
      (hgood.2 hcreates).put

/-- The new network that could not be applied is removed again; it has made nothing. -/
theorem smoothly_rollBackNetwork {n : NetworkManifest} (hget : s.manifests.get n.id = some n)
    (hcheck : check f n = .ok ()) (hmode : n.mode = .vlan) (howned : n.owned = false)
    (e : Message) :
    smoothly f w (rollBackNetwork n.id e) s =
      (.error (Message.text "apply network: " ++ e),
        { s with manifests := s.manifests.without [n.id] }) := by
  have hdestroy : smoothly f w (Network.destroy n) s = (.ok (), s) := by
    rw [Network.destroy, hmode]
    dsimp only
    rw [smoothly_onlyIf, if_neg (by simp [howned])]
  rw [rollBackNetwork, smoothly_bind, smoothly_ask, eval_netCall, smooth_load,
    loaded_of_get hget hcheck]
  dsimp only
  rw [smoothly_bind, smoothly_ask, show (Network.destroy n).run.eval _ s = _ from hdestroy]
  dsimp only
  rw [smoothly_bind, smoothly_ask, eval_netCall, smooth_delete (by rw [hget]; rfl)]
  rfl

theorem Inv.after_create (h : Inv f s) {params : CreateNetworkParams}
    (hname : Unused w.device s.host) (hid : w.id ∉ s.issued)
    (hparent : (s.host.get params.parent).isSome)
    (hcareful : VLANOp.Careful f w s (.create params)) :
    Inv f (VLANOp.after f mcastGroup w s (.create params)) := by
  rw [VLANOp.after, createNetwork]
  split
  · exact h
  rw [smoothly_bind, smoothly_ask, eval_netCall, smooth_resolve]
  cases s.resolved f params.name with
  | ok existing => exact h
  | error e =>
    dsimp only
    rw [if_neg (by decide), createWith]
    split
    · exact h
    rw [smoothly_bind, smoothly_ask, eval_netCall, smooth_newString hid]
    dsimp only
    have hissue := h.issue w.id
    have hmode : (newNetwork { params with mode := "vlan" } "vlan" w.id).mode = .vlan := by
      simp [newNetwork, NetworkMode.ofString]
    rw [withModeFields, hmode]
    dsimp only
    split
    · exact hissue
    rw [smoothly_bind, smoothly_pure]
    dsimp only
    rw [smoothly_bind, smoothly_attempt, eval_netCall]
    generalize hn : newNetwork { params with mode := "vlan" } "vlan" w.id = n at hmode ⊢
    have hparams : n.id = w.id ∧ n.parent = params.parent ∧ n.tag = params.tag ∧
        n.device = params.device ∧ n.owned = false := by
      subst hn
      exact ⟨rfl, rfl, rfl, rfl, rfl⟩
    obtain ⟨hnid, hnparent, hntag, hndevice, hnowned⟩ := hparams
    by_cases hcheck : check f n = .ok ()
    · rw [smooth_save hcheck]
      dsimp only
      let t : NetState := { s with
        issued := w.id :: s.issued
        manifests := s.manifests.put n.id n }
      have hstored : t.manifests.get n.id = some n := by
        show (s.manifests.put n.id n).get n.id = _
        rw [Table.get_put, if_pos rfl]
      have hnissued : n.id ∈ w.id :: s.issued := hnid ▸ List.mem_cons_self
      rw [← hnparent] at hparent
      have hput : Sound f (· = n.id) t := hissue.put hcheck hmode hnissued hparent
      have hensure := smoothly_ensure (w := w) (loaded_of_get hstored hcheck) hmode hmode
      by_cases hresolvable : s.host.Resolvable n.device n.parent n.tag
      · obtain ⟨d, o, host, happly, hr, hchecked, hnamed⟩ := smoothly_applyVLAN (s := t) hcheck
          hmode hparent hname h.named hresolvable
        rw [happly] at hensure
        rw [smoothly_bind, smoothly_ask,
          show (ensure n false).run.eval (NetState.smooth f w) t = _ from hensure]
        refine hput.applied hchecked hmode hnissued hparent hname hr hnamed fun hcreates => ?_
        have hspared :
            Spared { s with issued := w.id :: s.issued } w.device n.id n.parent n.tag := by
          rw [hnid, hnparent, hntag]
          refine hcareful ?_
          rwa [← hndevice, ← hnparent, ← hntag]
        exact hspared.put
      · obtain ⟨e, he⟩ := smoothly_applyVLAN_refused (f := f) (w := w) (s := t) hparent hresolvable
        rw [he] at hensure
        rw [smoothly_bind, smoothly_ask,
          show (ensure n false).run.eval (NetState.smooth f w) t = _ from hensure]
        dsimp only
        rw [smoothly_rollBackNetwork hstored hcheck hmode hnowned]
        exact hissue.removed n
    · rw [smooth_save_error hcheck]
      exact hissue

/-- What is on the host after a reboot was there before, and is not maco's. -/
theorem get_reboot (hdistinct : (s.host.map (·.1)).Nodup) {lost : List String} {d : String}
    {i : Interface} (hi : Table.get (s.reboot.host.without lost) d = some i) :
    ∃ j, s.host.get d = some j ∧ j.made = false ∧ i.vlan = j.vlan := by
  rw [Table.get_without] at hi
  split at hi
  · cases hi
  · obtain ⟨e, he, heq⟩ := List.mem_map.mp (Table.mem_of_get hi)
    obtain ⟨hmem, hmade⟩ := List.mem_filter.mp he
    cases heq
    exact ⟨e.2, Table.get_of_mem hdistinct hmem, by simpa using hmade, rfl⟩

theorem Inv.after_reboot (h : Inv f s) {lost : List String}
    (hparents : VLANOp.Admissible w s (.reboot lost)) :
    Inv f (VLANOp.after f mcastGroup w s (.reboot lost)) where
  stored := h.stored
  parents := hparents
  good id n hn _ := by
    intro i hi hne
    obtain ⟨j, hj, hmade, hvlan⟩ := get_reboot h.distinct hi
    rcases h.good id n hn not_false j hj hne with hsame | ⟨hmade', -⟩
    · exact .inl (hvlan.trans hsame)
    · rw [hmade] at hmade'
      cases hmade'
  named := by
    intro d i hi hvlan
    obtain ⟨j, hj, -, heq⟩ := get_reboot h.distinct hi
    exact h.named d j hj (heq ▸ hvlan)
  distinct := by
    have hkept : ((s.reboot.host.map (·.1))).Nodup := by
      rw [NetState.reboot, List.map_map]
      exact h.distinct.sublist (List.filter_sublist.map _)
    exact hkept.sublist (List.filter_sublist.map _)

/-- One step. -/
theorem Inv.after (h : Inv f s) {op : VLANOp} (hadmissible : op.Admissible w s)
    (hcareful : op.Careful f w s) : Inv f (op.after f mcastGroup w s) := by
  cases op with
  | create params => exact h.after_create hadmissible.1 hadmissible.2.1 hadmissible.2.2 hcareful
  | update ref params => exact h.after_update hadmissible.1 hadmissible.2 hcareful
  | apply ref => exact h.after_apply hadmissible hcareful
  | reboot lost => exact h.after_reboot hadmissible

end Operations

/-! ### Runs -/

/-- The states that operations lead to from an empty store, each of which meets the condition. -/
inductive Reached (f : Formats) (mcastGroup : String → String)
    (meets : Weather → NetState → VLANOp → Prop) : NetState → Prop
  | start (s : NetState) (hnone : s.manifests = []) (hnamed : s.host.Named)
      (hdistinct : (s.host.map (·.1)).Nodup) : Reached f mcastGroup meets s
  | step {s : NetState} (w : Weather) (op : VLANOp) (h : Reached f mcastGroup meets s)
      (hadmissible : op.Admissible w s) (hmeets : meets w s op) :
      Reached f mcastGroup meets (op.after f mcastGroup w s)

theorem Reached.inv {f : Formats} {mcastGroup : String → String} {s : NetState}
    (h : Reached f mcastGroup (fun w s op => op.Careful f w s) s) : Inv f s := by
  induction h with
  | start s hnone hnamed hdistinct =>
    have hget : ∀ id n, s.manifests.get id ≠ some n := by simp [hnone]
    exact {
      stored := fun id n hn => absurd hn (hget id n)
      parents := fun id n hn => absurd hn (hget id n)
      good := fun id n hn => absurd hn (hget id n)
      named := hnamed
      distinct := hdistinct }
  | step w op h hadmissible hcareful ih => exact ih.after hadmissible hcareful

/-- In every state that careful operations lead to, `Ensure` of a network succeeds, and the
interface that it records, in the store too, has the network's parent and tag. -/
theorem vlans_converge {f : Formats} {mcastGroup : String → String} {s : NetState}
    (h : Reached f mcastGroup (fun w s op => op.Careful f w s) s) {id : String}
    {n : NetworkManifest} (hn : s.manifests.get id = some n) (w : Weather)
    (hname : Unused w.device s.host) :
    ∃ applied t, smoothly f w (ensure n false) s = (.ok applied, t) ∧
      t.manifests.get id = some applied ∧ applied.parent = n.parent ∧ applied.tag = n.tag ∧
      t.host.HasVLAN applied.device n.parent n.tag := by
  obtain ⟨rfl, -⟩ := h.inv.stored id n hn
  obtain ⟨d, o, host, hrun, hr, -⟩ := h.inv.ensured hn hname
  refine ⟨_, _, hrun, ?_, rfl, rfl, hr.hasVLAN⟩
  rw [Table.get_put, if_pos rfl]

/-! ### A change of the tag -/

/-- A host with a physical interface. -/
def wired : NetState := { host := [("en0", { made := false })] }

def weather : Weather := { id := "lab-id", device := "vlan0" }

/-- The next new interface. -/
def laterWeather : Weather := { device := "vlan3" }

def labParams : CreateNetworkParams := { name := "lab", mode := "vlan", parent := "en0", tag := 10 }

def lab : NetworkManifest where
  id := "lab-id"
  name := "lab"
  mode := .vlan
  parent := "en0"
  tag := 10
  device := "vlan0"
  owned := true

/-- The host and the store once the network is created with the tag 10, which it is in `host`, and
has the tag `tag` in the store. -/
def tagged (tag : Int) : NetState where
  host := [("vlan0", { made := true, vlan := some ("en0", 10) }), ("en0", { made := false })]
  manifests := [("lab-id", { lab with tag := tag })]
  issued := ["lab-id"]

theorem wired_named : wired.host.Named := by
  intro d i hi hvlan
  have hmem := Table.mem_of_get hi
  simp only [wired, List.mem_singleton, Prod.mk.injEq] at hmem
  rw [hmem.2] at hvlan
  exact absurd rfl hvlan

/-- The network is created on a host without VLANs. -/
theorem reached_lab {meets : Weather → NetState → VLANOp → Prop}
    (hmeets : meets weather wired (.create labParams)) :
    Reached anyFormats (fun _ => "") meets (tagged 10) := by
  have hcreated : VLANOp.after anyFormats (fun _ => "") weather wired (.create labParams) =
      tagged 10 := rfl
  rw [← hcreated]
  refine .step weather _ (.start wired rfl wired_named (by decide)) ⟨?_, by decide, rfl⟩ hmeets
  exact ⟨by decide, by decide, rfl⟩

theorem vlans_converge_lab :
    ∃ applied t, smoothly anyFormats laterWeather (ensure lab false) (tagged 10) =
        (.ok applied, t) ∧
      t.manifests.get "lab-id" = some applied ∧ applied.parent = "en0" ∧ applied.tag = 10 ∧
      t.host.HasVLAN applied.device "en0" 10 := by
  have hcareful : VLANOp.Careful anyFormats weather wired (.create labParams) :=
    fun _ other m hm => by simp [wired] at hm
  exact vlans_converge (reached_lab hcareful) (n := lab) rfl _ ⟨by decide, by decide, rfl⟩

/-- The change of the tag is accepted and leaves the network with an interface of the old one, which
every `Ensure` refuses. -/
theorem vlans_not_converge :
    Reached anyFormats (fun _ => "") (fun _ _ _ => True) (tagged 20) ∧
      (tagged 20).manifests = [("lab-id", { lab with tag := 20 })] ∧
      ∀ w, ∃ e, smoothly anyFormats w (ensure { lab with tag := 20 } false) (tagged 20) =
        (.error e, tagged 20) := by
  refine ⟨?_, rfl, fun w => ?_⟩
  · have hretagged : VLANOp.after anyFormats (fun _ => "") laterWeather (tagged 10)
        (.update "lab" { labParams with tag := 20 }) = tagged 20 := rfl
    rw [← hretagged]
    exact .step laterWeather _ (reached_lab trivial) ⟨⟨by decide, by decide, rfl⟩, rfl⟩ trivial
  · rw [smoothly_ensure (m := { lab with tag := 20 }) rfl rfl rfl]
    refine smoothly_applyVLAN_refused rfl fun h => ?_
    have hvlan := h { made := true, vlan := some ("en0", 10) } rfl (by decide)
    revert hvlan
    decide

end Maco.Engine.VLANs
