import Maco.Network.Shared
import Maco.Engine.Network

/-! VLAN interfaces that several networks record are destroyed by none of them, as long as none is
shared when the network that it was created for gives it up. -/

namespace Maco.Engine

open Concurrent Network

namespace Sharing

variable {f : Formats} {s : NetState} {id : String} {sole : Prop}

/-- The operations on one network. -/
abbrev only (f : Formats) (id : String) (sole : Prop) :
    Discipline NetCall NetCall.Reply NetChoice NetState :=
  sharing f (· = id) sole

/-- The operations on any network. -/
abbrev every (f : Formats) : Discipline NetCall NetCall.Reply NetChoice NetState :=
  sharing f (fun _ => True) False

theorem tolerates_looks {T : String → Prop} : (sharing f T sole).Tolerates NetCall.Looks :=
  fun a ha _ => (keeps_tame (by cases a <;> first | exact trivial | cases ha)).mono
    fun _ _ _ _ => trivial

theorem tries_looks {α : Type} {T : String → Prop} {p : NetM α} (h : OnlyLooks p.run) :
    (sharing f T sole).Tries p (fun _ _ => True) s :=
  tries_calls tolerates_looks h

theorem tries_tame {α : Type} {T : String → Prop} {p : Net (Except Message α)}
    (h : p.Calls NetCall.Tame) : (sharing f T sole).Tries (attempt p) (fun _ _ => True) s :=
  tries_calls tolerates_tame h

/-- What an operation on one network keeps, it keeps as an operation on any. -/
theorem tries_any {α : Type} (sole : Prop) (id : String) {p : NetM α} {Q : α → NetState → Prop}
    (hsole : sole → ∀ n, s.manifests.get id = some n → Sole n s)
    (h : (only f id sole).Tries p Q s) : (every f).Tries p Q s := by
  intro hs
  have hstart : (only f id sole).Inv s := by
    refine ⟨hs.1, fun hsole' other n hother hn => ?_⟩
    subst hother
    exact hsole hsole' n hn
  have hkeep : ∀ t, (only f id sole).Inv t → (every f).Inv t := fun t ht => ⟨ht.1, nofun⟩
  refine wp_keeping_mono hkeep (wp_mono (h hstart) ?_)
  rintro r t ⟨ht, -, hr⟩
  exact ⟨hkeep t ht, fun _ hother => absurd trivial hother, hr⟩

theorem tries_up {device : String} :
    (only f id sole).Tries (attempt (netCall (.up device))) (fun _ _ => True) s :=
  tries_tame (.request trivial)

theorem tries_saved {n : NetworkManifest} (hid : n.id = id) (hn : sole → Sole n s) :
    (only f id sole).Tries (attempt (netCall (.save n))) (fun _ _ => True) s :=
  tries_plain ((keeps_saved hid hn).mono fun _ _ _ _ => trivial)

theorem tries_saveOr {n : NetworkManifest} {undo : Net Unit} (hid : n.id = id)
    (hn : sole → Sole n s)
    (hundo : ∀ t, OthersKept (· = id) s t → (only f id sole).Keeps undo (fun _ _ => True) t) :
    (only f id sole).Tries (saveOr n undo) (fun _ _ => True) s := by
  refine .bind (tries_ask ((keeps_saved hid hn).mono fun _ _ _ _ => trivial)) fun r t hst _ => ?_
  cases r with
  | ok _ => exact .pure trivial
  | error e => exact .bind (tries_ask (hundo t hst)) fun _ _ _ _ => tries_refuse

theorem keeps_discard {device : String} (hd : vlanName device = true → Unshared id s device) :
    (only f id sole).Keeps (discard (.destroy id device)) (fun _ _ => True) s :=
  .bind (keeps_destroyed hd) fun _ _ _ _ => .pure trivial

/-! ### VLAN interfaces -/

/-- An interface that is reported as owned is the one that was asked for, or no other network
records it. -/
def UnsharedIfSaid (id device : String) (owned : Bool) (r : String × Bool) (t : NetState) : Prop :=
  r.2 = true → (owned = true ∧ device ≠ "" ∧ r.1 = device) ∨ Unshared id t r.1

theorem tries_borrowMatching {wanted device parent : String} {owned : Bool} {tag : Int}
    {orElse : NetM (String × Bool)}
    (h : ∀ t, (only f id sole).Tries orElse (UnsharedIfSaid id wanted owned) t) :
    (only f id sole).Tries (borrowMatching device parent tag orElse)
      (UnsharedIfSaid id wanted owned) s := by
  refine .bind (tries_tame (.request trivial)) fun matching t _ _ => ?_
  split
  · exact .pure nofun
  · exact h t

theorem tries_createConfigured {wanted parent : String} {owned : Bool} {tag : Int} :
    (only f id sole).Tries (createConfigured id parent tag) (UnsharedIfSaid id wanted owned) s := by
  refine .bind (tries_attempt keeps_createVLAN) fun device t _ hd => ?_
  refine .bind (tries_ask (tolerates_tame (.configureVLAN device parent tag) trivial t))
    fun r u htu _ => ?_
  have hd := hd.mono htu
  cases r with
  | ok _ => exact .pure fun _ => .inr hd
  | error e =>
    refine .bind (tries_ask (keeps_discard fun _ => hd)) fun _ v _ _ => ?_
    exact tries_borrowMatching fun _ => tries_refuse

theorem tries_resolveVLAN {device parent : String} {owned : Bool} {tag : Int} :
    (only f id sole).Tries (resolveVLAN id device owned parent tag)
      (UnsharedIfSaid id device owned) s := by
  have hexisting : (only f id sole).Keeps (existing device)
      (fun found _ => found = true → device ≠ "") s := by
    unfold existing
    split
    · exact .pure nofun
    · rename_i hd
      exact (tolerates_tame (.interfaceExists device) trivial s).mono fun _ _ _ _ _ => hd
  refine .bind (tries_ask hexisting) fun found t _ hfound => ?_
  split
  · rename_i hexists
    refine .bind (tries_ask (tolerates_tame (.configureVLAN device parent tag) trivial t))
      fun r u _ _ => ?_
    cases r with
    | ok _ => exact .pure fun ho => .inl ⟨ho, hfound hexists, rfl⟩
    | error e => exact tries_borrowMatching fun _ => tries_refuse
  · exact tries_borrowMatching fun _ => tries_createConfigured

/-! ### Bridges -/

/-- The manifest of a bridge while it is applied. -/
structure Applying (sole : Prop) (id : String) (n : NetworkManifest) (s : NetState) : Prop where
  named : n.id = id
  mode : n.mode = .bridge
  sole : sole → ∀ v ∈ n.appliedVLANs, v.borrowed = false → Unshared id s v.device

theorem Applying.mono {n : NetworkManifest} {t : NetState} (h : Applying sole id n s)
    (hst : OthersKept (· = id) s t) : Applying sole id n t :=
  ⟨h.named, h.mode, fun hsole v hv hb => (h.sole hsole v hv hb).mono hst⟩

theorem Applying.congr {n m : NetworkManifest} (h : Applying sole id n s) (hid : m.id = n.id)
    (hmode : m.mode = n.mode) (hvlans : ∀ v ∈ m.appliedVLANs, v ∈ n.appliedVLANs) :
    Applying sole id m s :=
  ⟨hid.trans h.named, hmode.trans h.mode, fun hsole v hv => h.sole hsole v (hvlans v hv)⟩

theorem Applying.unshared {n : NetworkManifest} (h : Applying sole id n s) (hsole : sole) :
    Sole n s := by
  rintro device (⟨hmode, -⟩ | ⟨-, v, hv, hb, rfl⟩)
  · have := h.mode.symm.trans hmode
    contradiction
  · rw [h.named]
    exact h.sole hsole v hv hb

theorem tries_ensureDevice {n : NetworkManifest} (hn : Applying sole id n s) :
    (only f id sole).Tries (ensureDevice n)
      (fun m t => Applying sole id m t ∧ m.appliedVLANs = n.appliedVLANs ∧ m.vlans = n.vlans)
      s := by
  refine .bind (tries_onlyWhen (tolerates_looks.keeps (looks_existing _))
    fun t _ => tries_looks (looks_requireBridge _)) fun _ t hst _ => ?_
  refine .bind (tries_ask (tolerates_looks.keeps (looks_existing _))) fun found u htu _ => ?_
  have hn := (hn.mono hst).mono htu
  split
  · exact .pure ⟨hn, rfl, rfl⟩
  · split
    · exact tries_refuse
    · refine .bind (tries_attempt keeps_newBridge) fun device v huv hdevice => ?_
      have hcreated : Applying sole id { n with device, owned := true, appliedMembers := [] } v :=
        (hn.mono huv).congr rfl rfl fun _ hv => hv
      have hid : n.id = id := hn.named
      refine .bind (tries_saveOr hcreated.named hcreated.unshared fun w _ => ?_) fun _ w hvw _ => ?_
      · rw [hid]
        exact keeps_discard fun hvlan => by simp [hdevice] at hvlan
      · exact .pure ⟨hcreated.mono hvw, rfl, rfl⟩

/-- Each VLAN that was created for the network has its device among the desired, or is unshared, or
is still to be applied. -/
def Accounted (id : String) (rest : List VLAN) (desired : List String) (n : NetworkManifest)
    (s : NetState) : Prop :=
  ∀ a ∈ n.appliedVLANs, a.borrowed = false →
    a.device ∈ desired ∨ Unshared id s a.device ∨ ∃ v ∈ rest, VLAN.sameKey a v = true

theorem Accounted.mono {rest : List VLAN} {desired : List String} {n : NetworkManifest}
    {t : NetState} (h : Accounted id rest desired n s) (hst : OthersKept (· = id) s t) :
    Accounted id rest desired n t :=
  fun a ha hb => (h a ha hb).imp_right fun h => h.imp_left fun h => h.mono hst

theorem lastApplied_unshared {n : NetworkManifest} {vlan : VLAN}
    (hn : ∀ v ∈ n.appliedVLANs, v.borrowed = false → Unshared id s v.device)
    (hv : vlan.borrowed = false → vlan.device ≠ "" → Unshared id s vlan.device)
    (hb : (lastApplied n.appliedVLANs vlan).borrowed = false)
    (hd : (lastApplied n.appliedVLANs vlan).device ≠ "") :
    Unshared id s (lastApplied n.appliedVLANs vlan).device := by
  rcases lastApplied_cases n.appliedVLANs vlan with ⟨hdev, hbor⟩ | ⟨a, ha, hdev, hbor⟩
  · rw [hdev] at hd ⊢
    exact hv (hbor ▸ hb) hd
  · rw [hdev]
    exact hn a ha (hbor ▸ hb)

theorem Accounted.withVLAN {before rest : List VLAN} {desired : List String} {n : NetworkManifest}
    {vlan applied : VLAN} (h : Accounted id (vlan :: rest) desired n s)
    (hparent : applied.parent = vlan.parent) (htag : applied.tag = vlan.tag) :
    Accounted id rest (desired ++ [applied.device]) (withVLAN n before applied rest) s := by
  intro a ha hb
  rcases List.mem_append.mp ha with ha | ha
  · obtain ⟨ha, hkey⟩ := List.mem_filter.mp ha
    rcases h a ha hb with hd | hu | ⟨v, hv, hsame⟩
    · exact .inl (List.mem_append_left _ hd)
    · exact .inr (.inl hu)
    · rcases List.mem_cons.mp hv with rfl | hv
      · rw [VLAN.sameKey, hparent, htag, ← VLAN.sameKey, hsame] at hkey
        contradiction
      · exact .inr (.inr ⟨v, hv, hsame⟩)
  · obtain rfl := List.mem_singleton.mp ha
    exact .inl (List.mem_append_right _ (List.mem_singleton.mpr rfl))

theorem tries_ensureVLANs {before rest : List VLAN} {desired : List String} {n : NetworkManifest}
    (hn : Applying sole id n s) (haccount : Accounted id rest desired n s)
    (hrest : sole → ∀ v ∈ rest, v.borrowed = false → v.device ≠ "" → Unshared id s v.device) :
    (only f id sole).Tries (ensureVLANs before rest desired n)
      (fun r t => Applying sole id r.1 t ∧ Accounted id [] r.2 r.1 t) s := by
  induction rest generalizing before desired n s with
  | nil => exact .pure ⟨hn, haccount⟩
  | cons vlan rest ih =>
    refine .bind (tries_looks (looks_requireInterface _ _)) fun _ t hst _ => ?_
    have hid : n.id = id := hn.named
    rw [hid]
    refine .bind tries_resolveVLAN fun r u htu howned => ?_
    obtain ⟨device, owned⟩ := r
    have hsu : OthersKept (· = id) s u := .trans s t u hst htu
    obtain ⟨hparent, htag⟩ := lastApplied_key n.appliedVLANs vlan
    have hwith : Applying sole id (withVLAN n before
        { lastApplied n.appliedVLANs vlan with device, borrowed := !owned } rest) u := by
      refine ⟨hid, hn.mode, fun hsole v hv hb => ?_⟩
      rcases List.mem_append.mp hv with hv | hv
      · exact (hn.sole hsole v (List.mem_of_mem_filter hv) hb).mono hsu
      · obtain rfl := List.mem_singleton.mp hv
        rcases howned (by simpa using hb) with ⟨ho, hd, rfl⟩ | hu
        · exact (lastApplied_unshared (hn.sole hsole) (hrest hsole vlan List.mem_cons_self)
            (by simpa using ho) hd).mono hsu
        · exact hu
    have haccount : Accounted id rest (desired ++ [device]) (withVLAN n before
        { lastApplied n.appliedVLANs vlan with device, borrowed := !owned } rest) u :=
      (haccount.mono hsu).withVLAN hparent htag
    refine .bind (tries_saveOr hwith.named hwith.unshared fun v huv => ?_) fun _ v huv _ => ?_
    · split
      · rename_i ho
        rcases howned ho.1 with ⟨-, -, hd⟩ | hu
        · exact absurd hd ho.2
        · rw [show (withVLAN n before _ rest).id = id from hid]
          exact keeps_discard fun _ => hu.mono huv
      · exact .pure trivial
    · refine .bind tries_up fun _ w hvw _ => ?_
      have hsw : OthersKept (· = id) s w := .trans s v w
        (.trans s u v hsu huv) hvw
      refine ih ((hwith.mono huv).mono hvw) ((haccount.mono huv).mono hvw) fun hsole x hx hb hd => ?_
      exact (hrest hsole x (List.mem_cons_of_mem _ hx) hb hd).mono hsw

/-- The manifest of a bridge once its VLANs are applied. -/
def Applied (sole : Prop) (id : String) (desired : List String) (n : NetworkManifest)
    (s : NetState) : Prop :=
  Applying sole id n s ∧ Accounted id [] desired n s

theorem Applied.mono {desired : List String} {n : NetworkManifest} {t : NetState}
    (h : Applied sole id desired n s) (hst : OthersKept (· = id) s t) :
    Applied sole id desired n t :=
  ⟨h.1.mono hst, h.2.mono hst⟩

theorem Applied.congr {desired : List String} {n m : NetworkManifest}
    (h : Applied sole id desired n s) (hid : m.id = n.id) (hmode : m.mode = n.mode)
    (hvlans : ∀ v ∈ m.appliedVLANs, v ∈ n.appliedVLANs) : Applied sole id desired m s :=
  ⟨h.1.congr hid hmode hvlans, fun a ha => h.2 a (hvlans a ha)⟩

theorem tries_detachOld {desired members olds : List String} {n : NetworkManifest}
    (hn : Applied sole id desired n s) :
    (only f id sole).Tries (detachOld desired members olds n) (Applied sole id desired) s := by
  induction olds generalizing n s with
  | nil => exact .pure hn
  | cons old olds ih =>
    unfold detachOld
    split
    · exact ih hn
    · refine .bind (tries_onlyIf fun _ => tries_tame (p := netCall (.removeMember n.device old))
        (.request trivial)) fun _ t hst _ => ?_
      exact ih ((hn.mono hst).congr rfl rfl fun _ hv => hv)

theorem tries_attachMember {desired members : List String} {member : String} {n : NetworkManifest}
    (hn : Applied sole id desired n s) :
    (only f id sole).Tries (attachMember members member n) (Applied sole id desired) s := by
  unfold attachMember
  split
  · exact .pure hn
  · refine .bind (tries_tame (p := netCall (.addMember n.device member)) (.request trivial))
      fun _ t hst _ => ?_
    have hn := hn.mono hst
    split
    · exact .pure hn
    · have hattached : Applied sole id desired
          { n with appliedMembers := n.appliedMembers ++ [member] } t :=
        hn.congr rfl rfl fun _ hv => hv
      refine .bind (tries_saveOr hattached.1.named hattached.1.unshared fun u _ => ?_)
        fun _ u htu _ => ?_
      · exact tolerates_tame.keeps (.bind (.request trivial) fun _ => .pure _)
      · exact .pure (hattached.mono htu)

theorem tries_attachDesired {desired members wanted : List String} {n : NetworkManifest}
    (hn : Applied sole id desired n s) :
    (only f id sole).Tries (attachDesired members wanted n) (Applied sole id desired) s := by
  induction wanted generalizing n s with
  | nil => exact .pure hn
  | cons member wanted ih =>
    refine .bind (tries_looks (looks_requireInterface _ _)) fun _ t hst _ => ?_
    refine .bind (tries_attachMember (hn.mono hst)) fun m u _ hm => ?_
    refine .bind tries_up fun _ v huv _ => ?_
    exact ih (hm.mono huv)

theorem tries_destroyVLAN {v : VLAN} (h : v.borrowed = false → Unshared id s v.device) :
    (only f id sole).Tries (destroyVLAN id v) (fun _ _ => True) s :=
  tries_onlyIf fun hb => tries_onlyWhen (tolerates_looks.keeps (looks_call trivial)) fun _ hst =>
    tries_plain (keeps_destroyed fun _ => (h hb).mono hst)

theorem tries_dropVLANs {desired : List String} {olds : List VLAN} {n : NetworkManifest}
    (hn : Applied sole id desired n s)
    (holds : ∀ a ∈ olds, a.borrowed = false → a.device ∈ desired ∨ Unshared id s a.device) :
    (only f id sole).Tries (dropVLANs desired olds n) (Applied sole id desired) s := by
  induction olds generalizing n s with
  | nil => exact .pure hn
  | cons old olds ih =>
    unfold dropVLANs
    split
    · exact ih hn fun a ha => holds a (List.mem_cons_of_mem old ha)
    · rename_i hdesired
      have hdestroy : (only f id sole).Tries (destroyVLAN n.id old) (fun _ _ => True) s := by
        rw [hn.1.named]
        exact tries_destroyVLAN fun hb =>
          (holds old List.mem_cons_self hb).resolve_left hdesired
      refine .bind hdestroy fun _ t hst _ => ?_
      have hdropped : Applied sole id desired { n with
          appliedVLANs := n.appliedVLANs.filter fun v => v.device ≠ old.device } t :=
        (hn.mono hst).congr rfl rfl fun _ hv => List.mem_of_mem_filter hv
      refine .bind (tries_saved hdropped.1.named hdropped.1.unshared) fun _ u htu _ => ?_
      refine ih (hdropped.mono htu) fun a ha hb => ?_
      exact (holds a (List.mem_cons_of_mem old ha) hb).imp_right fun h => (h.mono hst).mono htu

theorem tame_removeAddress (device address : String) :
    (removeAddress device address).Calls NetCall.Tame := calls_removeAddress trivial trivial

theorem tries_dropAddress {desired : List String} {n : NetworkManifest}
    (hn : Applied sole id desired n s) :
    (only f id sole).Tries (dropAddress n) (Applied sole id desired) s := by
  unfold dropAddress
  split
  · refine .bind (tries_tame (tame_removeAddress _ _)) fun _ t hst _ => ?_
    exact .pure ((hn.mono hst).congr rfl rfl fun _ hv => hv)
  · exact .pure hn

theorem tries_ensureAddress {desired : List String} {n : NetworkManifest}
    (hn : Applied sole id desired n s) :
    (only f id sole).Tries (ensureAddress n) (Applied sole id desired) s := by
  unfold ensureAddress
  split
  · exact .pure hn
  · refine .bind (tries_ask (tolerates_looks (.hasAddress n.device n.address) trivial s))
      fun found t hst _ => ?_
    split
    · exact .pure (hn.mono hst)
    · refine .bind (tries_tame (p := netCall (.setAddress n.device n.address)) (.request trivial))
        fun _ u htu _ => ?_
      exact .pure (((hn.mono hst).mono htu).congr rfl rfl fun _ hv => hv)

theorem accounted_of_read {n : NetworkManifest} (hn : ReadAs f sole id n s)
    (hmode : n.mode = .bridge) (desired : List String) : Accounted id n.vlans desired n s := by
  intro a ha hb
  by_cases hwanted : ∃ v ∈ n.vlans, VLAN.sameKey a v = true
  · exact .inr (.inr hwanted)
  · refine .inr (.inl (hn.unwanted hmode a ha hb fun v hv => ?_))
    rw [← Bool.not_eq_true]
    exact fun h => hwanted ⟨v, hv, h⟩

theorem applying_of_read {n : NetworkManifest} (hn : ReadAs f sole id n s)
    (hmode : n.mode = .bridge) : Applying sole id n s := by
  refine ⟨hn.named, hmode, fun hsole v hv hb => ?_⟩
  have := hn.sole hsole v.device (.inr ⟨hmode, v, hv, hb, rfl⟩)
  rwa [hn.named] at this

theorem tries_applyBridge {n : NetworkManifest} (hn : ReadAs f sole id n s)
    (hmode : n.mode = .bridge) :
    (only f id sole).Tries (applyBridge n) (fun _ _ => True) s := by
  have happlying := applying_of_read hn hmode
  have hvlans : sole → ∀ v ∈ n.vlans, v.borrowed = false → v.device ≠ "" →
      Unshared id s v.device :=
    fun hsole v hv hb hd => happlying.sole hsole v (check_vlans hn.checked hv hd) hb
  refine .bind (tries_looks (.forM fun _ _ => looks_requireInterface _ _)) fun _ t hst _ => ?_
  refine .bind (tries_looks (.forM fun _ _ => looks_requireInterface _ _)) fun _ u htu _ => ?_
  have hsu : OthersKept (· = id) s u := .trans s t u hst htu
  refine .bind (tries_ensureDevice (happlying.mono hsu)) fun m v huv hm => ?_
  obtain ⟨hm, happlied, hwanted⟩ := hm
  have hsv : OthersKept (· = id) s v := .trans s u v hsu huv
  have haccount : Accounted id m.vlans m.members m v := by
    intro a ha hb
    rw [happlied] at ha
    rw [hwanted]
    exact (accounted_of_read hn hmode m.members).mono hsv a ha hb
  refine .bind (tries_ensureVLANs hm haccount fun hsole x hx hb hd => ?_) fun r w _ hr => ?_
  · rw [hwanted] at hx
    exact (hvlans hsole x hx hb hd).mono hsv
  · obtain ⟨n, desired⟩ := r
    refine .bind (tries_tame (p := netCall (.bridgeMembers n.device)) (.request trivial))
      fun members w' hw _ => ?_
    have hr : Applied sole id desired n w' := Applied.mono hr hw
    refine .bind (tries_detachOld hr) fun n a _ hn => ?_
    refine .bind (tries_attachDesired hn) fun n b _ hn => ?_
    refine .bind (tries_dropVLANs hn fun a ha hb => ?_) fun n c _ hn => ?_
    · rcases hn.2 a ha hb with h | h | ⟨v, hv, -⟩
      · exact .inl h
      · exact .inr h
      · contradiction
    · refine .bind (tries_dropAddress hn) fun n d _ hn => ?_
      refine .bind (tries_ensureAddress hn) fun n e _ hn => ?_
      refine .bind tries_up fun _ g heg _ => ?_
      have hn := hn.mono heg
      exact .bind (tries_saved hn.1.named hn.1.unshared) fun _ _ _ _ => .pure trivial

theorem tries_applyVLAN {n : NetworkManifest} (hn : ReadAs f sole id n s) (hmode : n.mode = .vlan) :
    (only f id sole).Tries (applyVLAN n) (fun _ _ => True) s := by
  obtain rfl : n.id = id := hn.named
  refine .bind (tries_looks (looks_requireInterface _ _)) fun _ t hst _ => ?_
  refine .bind tries_resolveVLAN fun r u htu howned => ?_
  obtain ⟨device, owned⟩ := r
  have hsu : OthersKept (· = n.id) s u := .trans s t u hst htu
  have happlied : sole → Sole { n with device, owned } u := by
    rintro hsole d (⟨-, ho, rfl⟩ | ⟨hbridge, -⟩)
    · show Unshared n.id u device
      rcases howned ho with ⟨ho, -, hd⟩ | hu
      · replace hd : device = n.device := hd
        rw [hd]
        exact (hn.sole hsole n.device (.inl ⟨hmode, ho, rfl⟩)).mono hsu
      · exact hu
    · have := hmode.symm.trans hbridge
      contradiction
  refine .bind (tries_saveOr rfl happlied fun v huv => ?_) fun _ v huv _ => ?_
  · split
    · rename_i ho
      rcases howned ho.1 with ⟨-, -, hd⟩ | hu
      · exact absurd hd ho.2
      · exact keeps_discard fun _ => hu.mono huv
    · exact .pure trivial
  · refine .bind tries_up fun _ w hvw _ => ?_
    refine .bind tries_up fun _ x hwx _ => ?_
    have hux : OthersKept (· = n.id) u x := .trans u w x
      (.trans u v w huv hvw) hwx
    exact .bind (tries_saved rfl fun hsole => (happlied hsole).mono hux)
      fun _ _ _ _ => .pure trivial

theorem tries_reload {mode : NetworkMode} :
    (only f id sole).Tries (reload id mode) (fun n t => ReadAs f sole id n t ∧ n.mode = mode)
      s := by
  refine .bind (tries_attempt keeps_read) fun n t _ hn => ?_
  split
  · exact tries_refuse
  · rename_i hmode
    exact .pure ⟨hn, not_not.mp hmode⟩

theorem tries_ensure {n : NetworkManifest} {dryRun : Bool} :
    (only f n.id sole).Tries (ensure n dryRun) (fun _ _ => True) s := by
  have huplink : OnlyLooks (netCall (.interfaceExists n.uplink)) := looks_call trivial
  unfold ensure
  split
  · refine tries_underLock tolerates_looks (fun t _ => .bind tries_reload fun m u _ hm => ?_)
      fun _ _ _ _ _ => trivial
    split
    · exact .pure trivial
    · exact tries_applyVLAN hm.1 hm.2
  · refine .bind (tries_ask (tolerates_looks.keeps huplink)) fun found t _ _ => ?_
    split
    · exact .pure trivial
    · exact tries_refuse
  · refine .bind (tries_ask (tolerates_looks.keeps huplink)) fun found t _ _ => ?_
    split
    · exact .pure trivial
    · exact tries_refuse
  · refine tries_underLock tolerates_looks (fun t _ => .bind tries_reload fun m u _ hm => ?_)
      fun _ _ _ _ _ => trivial
    split
    · exact .pure trivial
    · exact tries_applyBridge hm.1 hm.2
  · exact .pure trivial

theorem tries_ensured {n : NetworkManifest} {dryRun : Bool} :
    (every f).Tries (ensure n dryRun) (fun _ _ => True) s :=
  tries_any False n.id nofun tries_ensure

theorem tries_reconcile {dryRun : Bool} :
    (every f).Tries (reconcile dryRun) (fun _ _ => True) s := by
  have all : ∀ (networks : List NetworkManifest) (t : NetState),
      (every f).Tries (reconcileAll dryRun networks) (fun _ _ => True) t := by
    intro networks
    induction networks with
    | nil => exact fun _ => .pure trivial
    | cons n networks ih =>
      refine fun t => .bind (tries_ask tries_ensured) fun r u _ _ => ?_
      cases r with
      | ok _ => exact ih u
      | error e => exact tries_refuse
  refine .bind (tries_looks (looks_call trivial)) fun networks t _ _ => all networks t

/-! ### Taking networks apart -/

theorem tries_detachApplied {n : NetworkManifest} :
    (only f id sole).Tries (detachApplied n) (fun _ _ => True) s := by
  refine .bind (tries_looks (looks_requireBridge _)) fun _ t _ _ => ?_
  refine .bind (tries_tame (p := netCall (.bridgeMembers n.device)) (.request trivial))
    fun members u _ _ => ?_
  split
  · exact tries_refuse
  · exact tries_calls tolerates_tame (.forM fun member _ =>
      show (netCall (.removeMember n.device member)).Calls NetCall.Tame from .request trivial)

/-- What is needed to take a network apart: the VLAN interfaces that were created for it are its own,
and a bridge that was created for it has no name of a VLAN interface. -/
structure Removable (n : NetworkManifest) (s : NetState) : Prop where
  vlans : n.mode = .bridge → ∀ v ∈ n.appliedVLANs, v.borrowed = false →
    Unshared n.id s v.device
  device : n.mode = .bridge → n.device ≠ "" → vlanName n.device = false
  vlan : n.mode = .vlan → n.owned = true → n.device ≠ "" → Unshared n.id s n.device

theorem Removable.mono {n : NetworkManifest} {t : NetState} (h : Removable n s)
    (hst : OthersKept (· = n.id) s t) : Removable n t where
  vlans hmode v hv hb := (h.vlans hmode v hv hb).mono hst
  device := h.device
  vlan hmode ho hd := (h.vlan hmode ho hd).mono hst

theorem removable_of_read {n : NetworkManifest} (hn : ReadAs f sole id n s) (hsole : sole) :
    Removable n s where
  vlans hmode v hv hb := hn.sole hsole v.device (.inr ⟨hmode, v, hv, hb, rfl⟩)
  device hmode hd := vlanName_of_bridgeName (check_device hn.checked hmode hd)
  vlan hmode ho _ := hn.sole hsole n.device (.inl ⟨hmode, ho, rfl⟩)

theorem tries_destroyBridge {n : NetworkManifest} (hn : Removable n s) (hmode : n.mode = .bridge) :
    (only f n.id sole).Tries (destroyBridge n) (fun _ _ => True) s := by
  refine .bind (tries_onlyWhen (tolerates_looks.keeps (looks_call trivial)) fun t hst =>
    tries_detachApplied) fun _ t hst _ => ?_
  refine .bind (.forM (P := Removable n) (fun _ _ hst h => h.mono hst) (hn.mono hst)
    fun v hv t ht => tries_onlyIf fun _ => tries_destroyVLAN fun hb => ht.vlans hmode v hv hb)
    fun _ u htu hn => ?_
  refine .bind (tries_onlyIf fun ha => tries_onlyWhen (tolerates_looks.keeps (looks_call trivial))
    fun v _ => tries_tame (tame_removeAddress _ _)) fun _ v huv _ => ?_
  refine tries_onlyIf fun ho => tries_onlyWhen (tolerates_looks.keeps (looks_call trivial))
    fun w _ => tries_plain (keeps_destroyed fun hvlan => ?_)
  by_cases hd : n.device = ""
  · rw [hd] at hvlan
    contradiction
  · rw [hn.device hmode hd] at hvlan
    contradiction

theorem tries_destroy {n : NetworkManifest} (hn : Removable n s) :
    (only f n.id sole).Tries (Network.destroy n) (fun _ _ => True) s := by
  unfold Network.destroy
  split
  · rename_i hmode
    have hexisting : (only f n.id sole).Keeps (existing n.device)
        (fun found _ => found = true → n.device ≠ "") s := by
      unfold existing
      split
      · exact .pure nofun
      · rename_i hd
        exact (tolerates_tame (.interfaceExists n.device) trivial s).mono fun _ _ _ _ _ => hd
    refine tries_onlyIf fun ho => .bind (tries_ask hexisting) fun found t hst hfound => ?_
    refine tries_onlyIf fun hexists => tries_plain (keeps_destroyed fun _ => ?_)
    exact (hn.vlan hmode ho (hfound hexists)).mono hst
  · rename_i hmode
    exact tries_destroyBridge hn hmode
  · exact .pure trivial

/-! ### The operations -/

theorem tries_rollBackNetwork (hsole : sole) {e : Message} :
    (only f id sole).Tries (rollBackNetwork id e) (fun _ _ => True) s := by
  refine .bind (tries_ask keeps_read) fun r t _ hr => ?_
  cases r with
  | error loadErr => exact tries_refuse
  | ok current =>
    have hread := hr current rfl
    obtain rfl : current.id = id := hread.named
    refine .bind (tries_ask (tries_destroy (removable_of_read hread hsole))) fun r u _ _ => ?_
    cases r with
    | error cleanupErr => exact tries_refuse
    | ok _ =>
      refine .bind (tries_ask (keeps_deleted rfl)) fun r v _ _ => ?_
      cases r with
      | error cleanupErr => exact tries_refuse
      | ok _ => exact tries_refuse

theorem tries_withModeFields {mcastGroup : String → String} {params : CreateNetworkParams}
    {n : NetworkManifest} (howned : n.owned = false) (hvlans : n.appliedVLANs = []) :
    (every f).Tries (withModeFields mcastGroup params n)
      (fun m _ => m.owned = false ∧ m.appliedVLANs = []) s := by
  unfold withModeFields
  split
  · exact .pure ⟨howned, hvlans⟩
  · split
    · exact tries_refuse
    · exact .pure ⟨howned, hvlans⟩
  · split
    · exact tries_refuse
    · exact .pure ⟨howned, hvlans⟩
  · split
    · exact tries_refuse
    · exact .pure ⟨howned, hvlans⟩
  · exact .pure ⟨howned, hvlans⟩

theorem sole_of_nothing {n : NetworkManifest} (howned : n.owned = false)
    (hvlans : n.appliedVLANs = []) : Sole n s := by
  rintro device (⟨-, ho, -⟩ | ⟨-, v, hv, -⟩)
  · rw [howned] at ho
    contradiction
  · rw [hvlans] at hv
    contradiction

theorem tries_createWith {mcastGroup : String → String} {params : CreateNetworkParams}
    {mode : String} : (every f).Tries (createWith mcastGroup params mode) (fun _ _ => True) s := by
  unfold createWith
  split
  · exact tries_refuse
  · refine .bind (tries_ask (tolerates_tame .newString trivial s)) fun id u _ _ => ?_
    refine .bind (tries_withModeFields rfl rfl) fun n v _ hn => ?_
    have hsaved : (only f n.id False).Tries (attempt (netCall (.save n)))
        (fun _ t => t.manifests.get n.id = some n) v :=
      tries_attempt ((keeps_saved rfl nofun).mono fun r t _ ht x hx =>
        ht (by rw [hx]))
    refine .bind (tries_any False n.id nofun hsaved) fun _ w _ hw => ?_
    refine tries_any True n.id (fun _ m hm => ?_) ?_
    · rw [hw] at hm
      cases hm
      exact sole_of_nothing hn.1 hn.2
    · refine .bind (tries_ask tries_ensure) fun r x _ _ => ?_
      cases r with
      | ok m => exact .pure trivial
      | error e => exact tries_rollBackNetwork trivial

theorem tries_createNetwork {mcastGroup : String → String} {params : CreateNetworkParams} :
    (every f).Tries (createNetwork mcastGroup params) (fun _ _ => True) s := by
  unfold createNetwork
  split
  · exact tries_refuse
  · refine .bind (tries_ask (tolerates_tame (.resolve params.name) trivial s)) fun r t _ _ => ?_
    cases r with
    | ok existing => exact tries_refuse
    | error e => exact tries_createWith

theorem tries_redefineNetwork {ref : String} {params : CreateNetworkParams} :
    (every f).Tries (redefineNetwork ref params) (fun _ _ => True) s := by
  refine .bind (tries_looks (looks_call trivial)) fun n u _ _ => ?_
  split
  · exact tries_refuse
  · split
    · exact tries_refuse
    · refine .bind (tries_looks (looks_call trivial)) fun vms v _ _ => ?_
      refine .bind (tries_looks (looks_requireUnusedBy n vms)) fun _ w _ _ => ?_
      refine .bind (tries_looks (looks_onlyIf ?_)) fun _ x _ _ => ?_
      · split
        · exact .pure _
        · exact looks_requireDetached n
      · refine tries_any False n.id nofun ?_
        exact .bind (tries_saved (n := redefined n params) rfl nofun) fun _ _ _ _ => .pure trivial

/-- Once a network is found to be detached, no other one has its interface as a member. -/
theorem tries_requireDetached {n : NetworkManifest} :
    (only f n.id sole).Tries (requireDetached n) (fun _ t => ∀ other m,
      t.manifests.get other = some m → other ≠ n.id →
        n.device ∉ m.members ∧ n.device ∉ m.appliedMembers) s := by
  refine .bind (tries_attempt keeps_list) fun networks t _ hlist => ?_
  split
  · exact tries_refuse
  · rename_i hnone
    refine .pure fun other m hm hne => ?_
    obtain ⟨hmem, hid⟩ := hlist other m hm
    have := List.find?_eq_none.mp hnone m hmem
    simpa [hid, hne] using this

/-- `DestroyNetwork` from the reading of the machines on. -/
theorem tries_destroyResolved {n : NetworkManifest}
    (hbridge : n.mode = .bridge → ∀ v ∈ n.appliedVLANs, v.borrowed = false →
      Unshared n.id s v.device)
    (hdevice : n.mode = .bridge → n.device ≠ "" → vlanName n.device = false)
    (hvlan : n.mode = .vlan → n.owned = true → ∀ other m, s.manifests.get other = some m →
      other ≠ n.id → m.device ≠ n.device ∧ ∀ v ∈ m.appliedVLANs, v.device ≠ n.device) :
    (only f n.id False).Tries (do
      requireUnused n (← attempt (netCall .listVMs))
      onlyIf (n.mode = .vlan ∧ n.device ≠ "") (requireDetached n)
      Network.destroy n
      attempt (netCall (.delete n.id))) (fun _ _ => True) s := by
  refine .bind (tries_looks (looks_call trivial)) fun vms t hst _ => ?_
  refine .bind (tries_looks (looks_requireUnused n vms)) fun _ u htu _ => ?_
  have hsu : OthersKept (· = n.id) s u := .trans s t u hst htu
  have hdetached : (only f n.id False).Tries
      (onlyIf (n.mode = .vlan ∧ n.device ≠ "") (requireDetached n))
      (fun _ v => n.mode = .vlan → n.device ≠ "" → ∀ other m, v.manifests.get other = some m →
        other ≠ n.id → n.device ∉ m.members ∧ n.device ∉ m.appliedMembers) u := by
    unfold onlyIf
    split
    · exact tries_requireDetached.mono fun _ _ _ h _ _ => h
    · rename_i hno
      exact .pure fun hmode hd => absurd ⟨hmode, hd⟩ hno
  refine .bind hdetached fun _ v huv hmembers => ?_
  have hsv : OthersKept (· = n.id) s v := .trans s u v hsu huv
  have hremovable : Removable n v := by
    refine ⟨fun hmode x hx hb => (hbridge hmode x hx hb).mono hsv, hdevice,
      fun hmode ho hd other m hm hne => ?_⟩
    obtain ⟨hdev, hvlans⟩ := hvlan hmode ho other m (hsv other hne ▸ hm) hne
    obtain ⟨hmem, happ⟩ := hmembers hmode hd other m hm hne
    simp only [recordsInterface, hdev, hmem, happ, decide_false, Bool.or_self, Bool.false_or,
      List.any_eq_false, decide_eq_true_eq]
    exact hvlans
  refine .bind (tries_destroy hremovable) fun _ w _ _ => ?_
  exact tries_plain (keeps_deleted rfl)

end Sharing

/-- When a network is destroyed, no other stored network records a VLAN interface that was created
for it as a bridge, nor, where it is a VLAN itself, its interface as a device or applied VLAN. -/
def GivenUp (f : Formats) : NetOp → NetState → Prop
  | .destroy ref, s => ∀ n, s.resolved f ref = .ok n →
    (n.mode = .bridge → ∀ v ∈ n.appliedVLANs, v.borrowed = false → Unshared n.id s v.device) ∧
    (n.mode = .vlan → n.owned = true → ∀ other m, s.manifests.get other = some m →
      other ≠ n.id → m.device ≠ n.device ∧ ∀ v ∈ m.appliedVLANs, v.device ≠ n.device)
  | _, _ => True

namespace Sharing

variable {f : Formats} {s : NetState}

theorem tries_destroyNetwork {ref : String} (hguard : GivenUp f (.destroy ref) s) :
    (every f).Tries (destroyNetwork ref) (fun _ _ => True) s := by
  refine .bind (tries_attempt (Q := fun _ t => t.manifests = s.manifests)
    ((keeps_tame (a := .lock) trivial).mono fun _ _ _ h _ _ => h)) fun _ t _ hst => ?_
  refine .bind (tries_ask (Q := fun r _ => ∀ x, r = .ok x → True) ?_) fun r u _ _ => ?_
  · refine Discipline.Tries.bind (tries_attempt keeps_resolved) fun n u _ hn => ?_
    obtain ⟨hresolved, hcheck, htu⟩ := hn
    rw [resolved_congr hst] at hresolved
    obtain ⟨hbridge, hvlan⟩ := hguard n hresolved
    have hsu : u.manifests = s.manifests := htu.trans hst
    refine tries_any False n.id nofun (tries_destroyResolved ?_ ?_ ?_)
    · exact fun hmode v hv hb => (hbridge hmode v hv hb).mono (.of_manifests hsu)
    · exact fun hmode hd => vlanName_of_bridgeName (check_device hcheck hmode hd)
    · exact fun hmode ho other m hm => hvlan hmode ho other m (hsu ▸ hm)
  · refine .bind (tries_ask (tolerates_looks .unlock trivial u)) fun _ _ _ _ => ?_
    exact Discipline.Keeps.pure fun _ _ => trivial

theorem keeps_program (op : NetOp) (hguard : GivenUp f op s) :
    (every f).Keeps op.program (fun _ _ => True) s := by
  have drop : ∀ {α : Type} {p : NetM α}, (every f).Tries p (fun _ _ => True) s →
      (every f).Keeps (do let _ ← p.run) (fun _ _ => True) s := fun h =>
    .bind h fun _ _ _ _ => .pure trivial
  cases op with
  | create mcastGroup params => exact drop tries_createNetwork
  | apply ref dryRun =>
    exact drop (.bind (tries_looks (looks_call trivial)) fun _ _ _ _ => tries_ensured)
  | applyAll dryRun => exact drop tries_reconcile
  | update ref params =>
    refine drop (.bind (tries_underLock tolerates_looks (fun _ _ => tries_redefineNetwork)
      fun _ _ _ _ _ => trivial) fun n t _ _ => ?_)
    refine .bind (tries_ask tries_ensured) fun r u _ _ => ?_
    cases r with
    | ok n => exact .pure trivial
    | error e => exact tries_refuse
  | destroy ref => exact drop (tries_destroyNetwork hguard)

end Sharing

/-- Between the operations anything may happen to the host, a reboot included. -/
def HostChanged (s t : NetState) : Prop := ∃ host, t = { s with host }

/-- Whatever the network operations do on a host, in any order and with any failures, none destroys
a VLAN interface that another stored network records, as long as the interface is not shared when
the network that it was created for gives it up, and no VLAN interface is created under a name that
another stored network records. -/
theorem shared_vlans_kept {f : Formats} {host : Host} {t : NetState}
    (h : Guarded (NetState.perform f) NetOp.program (GivenUp f) (Undisturbed f) HostChanged
      { host } t) : t.severed = false := by
  have start : NetState.Whole { host } := ⟨fun id n hn => by simp at hn, rfl⟩
  refine ((Sharing.every f).guarded ⟨start, nofun⟩
    (fun op s hguard => Sharing.keeps_program op hguard) ?_ h).1.whole
  rintro s t ⟨hs, -⟩ ⟨host, rfl⟩
  exact ⟨hs.of_same rfl rfl, nofun⟩

section Lab

def trunkHost : Host := [("en0", { made := false })]

/-- A bridge on a VLAN of `en0`, and the same VLAN as a network. -/
def bridgeOnVLAN : NetOp :=
  .create (fun _ => "") { name := "A", vlans := [{ parent := "en0", tag := 10 }] }

def sameVLAN : NetOp :=
  .create (fun _ => "") { name := "V", mode := "vlan", parent := "en0", tag := 10 }

def bridgeOnVLANCreated : List NetChoice :=
  [.ok, .name "a", .ok, .ok, .ok, .ok, .name "bridge1", .ok, .ok, .ok, .name "vlan0", .ok, .ok, .ok,
    .ok, .ok, .ok, .ok, .ok, .ok, .ok, .ok]

def sameVLANCreated : List NetChoice :=
  [.ok, .name "v", .ok, .ok, .ok, .ok, .ok, .ok, .ok, .ok, .ok, .ok]

def bridgeOnVLANDestroyed : List NetChoice :=
  [.ok, .ok, .vms [], .ok, .ok, .ok, .ok, .ok, .ok, .ok, .ok, .ok, .ok]

def vlanNetwork : NetworkManifest :=
  { id := "v", name := "V", mode := .vlan, parent := "en0", tag := 10, device := "vlan0",
    owned := true }

/-- The state after the VLAN network is created alone. -/
def oneVLAN : NetState where
  host := [("vlan0", { made := true, vlan := some ("en0", 10) }), ("en0", { made := false })]
  manifests := [("v", vlanNetwork)]
  issued := ["v"]

def vlanCreated : List NetChoice :=
  [.ok, .name "v", .ok, .ok, .ok, .ok, .ok, .name "vlan0", .ok, .ok, .ok, .ok, .ok, .ok]

def vlanDestroyed : List NetChoice := [.ok, .ok, .vms [], .ok, .ok, .ok, .ok, .ok]

theorem vlan_created : sameVLAN.program.run (NetState.perform anyFormats) vlanCreated
    { host := trunkHost } = some ((), oneVLAN) := rfl

/-- Only one network is stored. -/
def Lone (id : String) (t : Table NetworkManifest) : Prop :=
  ∀ other m, t.get other = some m → other = id

theorem Lone.put {id : String} {t : Table NetworkManifest} (h : Lone id t) (n : NetworkManifest) :
    Lone id (t.put id n) := by
  intro other m hm
  rw [Table.get_put] at hm
  split at hm
  · assumption
  · exact h other m hm

theorem Lone.unshared {id device : String} {s : NetState} (h : Lone id s.manifests) :
    Unshared id s device :=
  fun other m hm hne => absurd (h other m hm) hne

theorem lone_nil (id : String) : Lone id [] := fun _ _ h => by contradiction

/-- A VLAN interface is created and destroyed by the only network that records it. -/
theorem shared_vlans_kept_own : ∃ t,
    Guarded (NetState.perform anyFormats) NetOp.program (GivenUp anyFormats)
      (Undisturbed anyFormats) HostChanged { host := trunkHost } t ∧
    t.host = trunkHost ∧ t.severed = false := by
  have created : sameVLAN.program.Follows (NetState.perform anyFormats)
      (Undisturbed anyFormats) vlanCreated { host := trunkHost } := by
    refine ⟨trivial, trivial, trivial, trivial, fun n hn _ a ha hb _ => ?_, trivial, trivial, ?_,
      trivial, trivial, trivial, trivial, trivial, trivial, trivial⟩
    · exact Lone.unshared ((lone_nil "v").put _)
    · exact Lone.unshared ((lone_nil "v").put _)
  obtain ⟨t, ht, hhost⟩ : ∃ t, (NetOp.destroy "v").program.run (NetState.perform anyFormats)
      vlanDestroyed oneVLAN = some ((), t) ∧ t.host = trunkHost := ⟨_, rfl, rfl⟩
  have destroyed : (NetOp.destroy "v").program.Follows (NetState.perform anyFormats)
      (Undisturbed anyFormats) vlanDestroyed oneVLAN :=
    ⟨trivial, trivial, trivial, trivial, trivial, trivial, trivial, trivial, trivial⟩
  have lone : Lone "v" oneVLAN.manifests := (lone_nil "v").put vlanNetwork
  have hguard : GivenUp anyFormats (.destroy "v") oneVLAN := by
    intro n hn
    have hread : oneVLAN.resolved anyFormats "v" = .ok vlanNetwork := rfl
    rw [hread] at hn
    cases hn
    exact ⟨nofun, fun _ _ other m hm hne => absurd (lone other m hm) hne⟩
  have h : Guarded (NetState.perform anyFormats) NetOp.program (GivenUp anyFormats)
      (Undisturbed anyFormats) HostChanged { host := trunkHost } t :=
    .op (.destroy "v") (.op sameVLAN .start trivial
      (Prog.reaches_of_run vlan_created created)) hguard (Prog.reaches_of_run ht destroyed)
  exact ⟨t, h, hhost, shared_vlans_kept h⟩

def bridgeNetwork : NetworkManifest :=
  { id := "a", name := "A", mode := .bridge, device := "bridge1", owned := true,
    vlans := [{ parent := "en0", tag := 10, device := "vlan0" }],
    appliedVLANs := [{ parent := "en0", tag := 10, device := "vlan0" }],
    appliedMembers := ["vlan0"] }

/-- The state after the bridge is created. -/
def oneBridge : NetState where
  host := [("bridge1", { made := true, bridge := true, members := [("vlan0", true)] }),
    ("vlan0", { made := true, vlan := some ("en0", 10) }), ("en0", { made := false })]
  manifests := [("a", bridgeNetwork)]
  issued := ["a"]

theorem bridge_created : bridgeOnVLAN.program.run (NetState.perform anyFormats)
    bridgeOnVLANCreated { host := trunkHost } = some ((), oneBridge) := rfl

/-- The VLAN network takes the interface of the bridge, and the destruction of the bridge destroys
it. -/
theorem vlan_destroyed : ∃ s t,
    sameVLAN.program.run (NetState.perform anyFormats) sameVLANCreated oneBridge =
      some ((), s) ∧
    (NetOp.destroy "a").program.run (NetState.perform anyFormats) bridgeOnVLANDestroyed s =
      some ((), t) ∧
    (s.manifests.get "v").map (·.device) = some "vlan0" ∧ t.host = trunkHost ∧
    t.severed = true :=
  ⟨_, _, rfl, rfl, rfl, rfl, rfl⟩

theorem shared_vlans_not_kept :
    ¬ ∀ (f : Formats) (host : Host) (t : NetState),
      History (NetState.perform f) NetOp.program (fun _ _ _ => True)
        (fun s t => t = s.reboot) { host } t → t.severed = false := by
  intro h
  obtain ⟨s, t, hcreate, hdestroy, -, -, ht⟩ := vlan_destroyed
  have := h anyFormats trunkHost t
    (.op (.destroy "a") (.op sameVLAN (.op bridgeOnVLAN .start
      (Prog.reaches_of_run bridge_created (Prog.follows_true _ _ _)))
      (Prog.reaches_of_run hcreate (Prog.follows_true _ _ _)))
      (Prog.reaches_of_run hdestroy (Prog.follows_true _ _ _)))
  rw [ht] at this
  contradiction

end Lab

end Maco.Engine
