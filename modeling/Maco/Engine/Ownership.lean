import Maco.Network.Honest
import Maco.Engine.Network

/-! What maco removes from the host is what maco put there.  Each network operation keeps a state
honest, as long as no address that others have set passes for one that maco sets. -/

namespace Maco.Engine

open Concurrent Network

variable {f : Formats} {s : NetState}

/-! ### Calls -/

theorem keeps_call {a : NetCall} {Q : a.Reply → NetState → Prop} (ha : a.Clean s)
    (hQ : ∀ r t, NoneAdded s t → a.After r t → Q r t) : (honesty f).Keeps (netCall a) Q s :=
  Discipline.Keeps.request fun hs _ r t hc hp => by
    obtain ⟨ht, hst, hafter⟩ := NetState.perform_honest hs ha hc hp
    exact ⟨ht, hst, hQ r t hst hafter⟩

/-- A call after which nothing need be known. -/
theorem keeps_plain {a : NetCall} (ha : a.Clean s) :
    (honesty f).Keeps (netCall a) (fun _ _ => True) s :=
  keeps_call ha fun _ _ _ _ => trivial

theorem tolerates_looks : (honesty f).Tolerates NetCall.Looks := fun a ha _ =>
  keeps_plain (by cases a <;> first | exact trivial | cases ha)

theorem keeps_discard {a : NetCall} (ha : a.Clean s) :
    (honesty f).Keeps (discard a) (fun _ _ => True) s :=
  .bind (keeps_plain ha) fun _ _ _ _ => .pure trivial

theorem keeps_existing {device : String} :
    (honesty f).Keeps (existing device) (fun found _ => found = true → device ≠ "") s := by
  unfold existing
  split
  · exact .pure nofun
  · rename_i hd
    exact keeps_call trivial fun _ _ _ _ _ => hd

theorem tries_saveOr {n : NetworkManifest} {undo : Net Unit} (hn : Rightful n s.host)
    (hundo : ∀ t, NoneAdded s t → (honesty f).Keeps undo (fun _ _ => True) t) :
    (honesty f).Tries (saveOr n undo) (fun _ _ => True) s := by
  refine .bind (tries_ask (keeps_plain hn)) fun r t hst _ => ?_
  cases r with
  | ok _ => exact .pure trivial
  | error e => exact .bind (tries_ask (hundo t hst)) fun _ _ _ _ => tries_refuse

theorem tries_removeAddress {device address : String}
    (h : ¬ s.host.Foreign (.address device address)) :
    (honesty f).Tries (attempt (removeAddress device address)) (fun _ _ => True) s := by
  refine tries_plain (.bind (keeps_plain trivial) fun found t hst _ => ?_)
  split
  · exact .pure trivial
  · exact keeps_plain fun hf => h (hst _ hf)

/-! ### VLAN interfaces -/

/-- An interface that is reported as owned is not foreign. -/
def OwnedIfSaid (r : String × Bool) (t : NetState) : Prop :=
  r.2 = true → ¬ t.host.Foreign (.interface r.1)

theorem tries_borrowMatching {device parent : String} {tag : Int} {orElse : NetM (String × Bool)}
    (h : ∀ t, NoneAdded s t → (honesty f).Tries orElse OwnedIfSaid t) :
    (honesty f).Tries (borrowMatching device parent tag orElse) OwnedIfSaid s := by
  refine .bind (tries_plain (keeps_plain trivial)) fun matching t hst _ => ?_
  split
  · exact .pure nofun
  · exact h t hst

theorem tries_createConfigured {network parent : String} {tag : Int} :
    (honesty f).Tries (createConfigured network parent tag) OwnedIfSaid s := by
  refine .bind (tries_attempt (Q := fun d t => ¬ t.host.Foreign (.interface d))
    (keeps_call trivial fun r t _ hafter d hd => hafter d hd _ rfl)) fun device t hst hd => ?_
  refine .bind (tries_ask (keeps_plain trivial)) fun r u htu _ => ?_
  have hd' : ¬ u.host.Foreign (.interface device) := fun hf => hd (htu _ hf)
  cases r with
  | ok _ => exact .pure fun _ => hd'
  | error e =>
    refine .bind (tries_ask (keeps_discard hd')) fun _ v _ _ => ?_
    exact tries_borrowMatching fun _ _ => tries_refuse

theorem tries_resolveVLAN {network device parent : String} {owned : Bool} {tag : Int}
    (h : owned = true → device ≠ "" → ¬ s.host.Foreign (.interface device)) :
    (honesty f).Tries (resolveVLAN network device owned parent tag) OwnedIfSaid s := by
  refine .bind (tries_ask keeps_existing) fun found t hst hfound => ?_
  split
  · rename_i hexists
    refine .bind (tries_ask (keeps_plain trivial)) fun r u htu _ => ?_
    cases r with
    | ok _ => exact .pure fun ho hf => h ho (hfound hexists) (hst _ (htu _ hf))
    | error e => exact tries_borrowMatching fun _ _ => tries_refuse
  · exact tries_borrowMatching fun _ _ => tries_createConfigured

/-! ### Bridges -/

theorem tries_ensureDevice {n : NetworkManifest} (hn : Sound n s.host) (hmode : n.mode = .bridge) :
    (honesty f).Tries (ensureDevice n) (fun m t => Sound m t.host ∧ m.mode = .bridge) s := by
  refine .bind (tries_onlyWhen (keeps_existing.mono fun _ _ _ _ => trivial)
    fun t _ => (tries_calls tolerates_looks (looks_requireBridge _))) fun _ t hst _ => ?_
  have hn := hn.mono hst
  refine .bind (tries_ask keeps_existing) fun found u htu _ => ?_
  have hn := hn.mono htu
  split
  · exact .pure ⟨hn, hmode⟩
  · split
    · exact tries_refuse
    · refine .bind (tries_attempt (Q := fun d t => ∀ x : Thing, x.device = d →
        ¬ t.host.Foreign x) (keeps_call trivial fun r t _ hafter => hafter))
        fun device v huv hfresh => ?_
      have hcreated := (hn.mono huv).created hfresh
      refine .bind (tries_saveOr hcreated.rightful fun w hvw =>
        keeps_discard fun hf => hfresh _ rfl (hvw _ hf)) fun _ w hvw _ => ?_
      exact .pure ⟨hcreated.mono hvw, hmode⟩

/-- What the VLANs of a manifest must be for them to be applied. -/
def OwnedVLANs (vlans : List VLAN) (h : Host) : Prop :=
  ∀ v ∈ vlans, v.borrowed = false → v.device ≠ "" → ¬ h.Foreign (.interface v.device)

theorem OwnedVLANs.mono {vlans : List VLAN} {t : NetState} (h : OwnedVLANs vlans s.host)
    (hst : NoneAdded s t) : OwnedVLANs vlans t.host :=
  fun v hv hb hd hf => h v hv hb hd (hst _ hf)

theorem lastApplied_owned {n : NetworkManifest} {h : Host} {vlan : VLAN} (hn : Rightful n h)
    (hv : vlan.borrowed = false → vlan.device ≠ "" → ¬ h.Foreign (.interface vlan.device))
    (hb : (lastApplied n.appliedVLANs vlan).borrowed = false)
    (hd : (lastApplied n.appliedVLANs vlan).device ≠ "") :
    ¬ h.Foreign (.interface (lastApplied n.appliedVLANs vlan).device) := by
  rcases lastApplied_cases n.appliedVLANs vlan with ⟨hdev, hbor⟩ | ⟨a, ha, hdev, hbor⟩
  · rw [hdev] at hd ⊢
    exact hv (hbor ▸ hb) hd
  · rw [hdev]
    exact hn _ (.inr ⟨a, ha, hbor ▸ hb, rfl⟩)

theorem rightful_withVLAN {n : NetworkManifest} {h : Host} {done rest : List VLAN} {v : VLAN}
    (hn : RightfulBridge n h) (hv : v.borrowed = false → ¬ h.Foreign (.interface v.device)) :
    RightfulBridge (withVLAN n done v rest) h := by
  refine ⟨hn.mode, fun x hx => ?_⟩
  cases x with
  | interface d =>
    rcases hx with hx | ⟨w, hw, hb, rfl⟩
    · exact hn.rightful _ (.inl hx)
    · rcases List.mem_append.mp hw with hw | hw
      · exact hn.rightful _ (.inr ⟨w, List.mem_of_mem_filter hw, hb, rfl⟩)
      · obtain rfl := List.mem_singleton.mp hw
        exact hv hb
  | member d m | address d a => exact hn.rightful _ hx

theorem tries_ensureVLANs {done rest : List VLAN} {desired : List String} {n : NetworkManifest}
    (hn : RightfulBridge n s.host) (hrest : OwnedVLANs rest s.host) :
    (honesty f).Tries (ensureVLANs done rest desired n)
      (fun r t => RightfulBridge r.1 t.host) s := by
  induction rest generalizing done desired n s with
  | nil => exact .pure hn
  | cons vlan rest ih =>
    refine .bind (tries_calls tolerates_looks (looks_requireInterface _ _)) fun _ t hst _ => ?_
    have hn := hn.mono hst
    have hrest := hrest.mono hst
    refine .bind (tries_resolveVLAN fun ho hd => lastApplied_owned hn.rightful
      (hrest vlan List.mem_cons_self) (by simpa using ho) hd) fun r u htu howned => ?_
    obtain ⟨device, owned⟩ := r
    have hwith : RightfulBridge (withVLAN n done
        { lastApplied n.appliedVLANs vlan with device, borrowed := !owned } rest) u.host :=
      rightful_withVLAN (hn.mono htu) fun hb => howned (by simpa using hb)
    refine .bind (tries_saveOr hwith.rightful fun v huv => ?_) fun _ v huv _ => ?_
    · split
      · rename_i ho
        exact keeps_discard fun hf => howned ho.1 (huv _ hf)
      · exact .pure trivial
    · refine .bind (tries_plain (keeps_plain trivial)) fun _ w hvw _ => ?_
      exact ih ((hwith.mono huv).mono hvw) fun x hx hb hd hf =>
        hrest x (List.mem_cons_of_mem _ hx) hb hd (htu _ (huv _ (hvw _ hf)))

theorem tries_detachOld {desired members olds : List String} {n : NetworkManifest}
    (hn : RightfulBridge n s.host) (holds : ∀ m ∈ olds, ¬ s.host.Foreign (.member n.device m)) :
    (honesty f).Tries (detachOld desired members olds n)
      (fun m t => RightfulBridge m t.host) s := by
  induction olds generalizing n s with
  | nil => exact .pure hn
  | cons old olds ih =>
    unfold detachOld
    split
    · exact ih hn fun m hm => holds m (List.mem_cons_of_mem old hm)
    · refine .bind (tries_onlyIf fun _ => tries_plain (keeps_plain
        (holds old List.mem_cons_self))) fun _ t hst _ => ?_
      refine ih ((hn.mono hst).of_records rfl fun x hx => ?_) fun m hm hf =>
        holds m (List.mem_cons_of_mem old hm) (hst _ hf)
      cases x with
      | member d m => exact ⟨hx.1, hx.2.1, List.mem_of_mem_filter hx.2.2⟩
      | interface d | address d a => exact hx

theorem tries_attachMember {members : List String} {member : String} {n : NetworkManifest}
    (hn : RightfulBridge n s.host) :
    (honesty f).Tries (attachMember members member n) (fun m t => RightfulBridge m t.host) s := by
  unfold attachMember
  split
  · exact .pure hn
  · refine .bind (tries_attempt (Q := fun _ t => ¬ t.host.Foreign (.member n.device member))
      (keeps_call trivial fun r t _ hafter _ hr => hafter hr)) fun _ t hst hm => ?_
    have hn := hn.mono hst
    split
    · exact .pure hn
    · have hattached := hn.attached hm
      refine .bind (tries_saveOr hattached.rightful fun u htu =>
        keeps_discard fun hf => hm (htu _ hf)) fun _ u htu _ => ?_
      exact .pure (hattached.mono htu)

theorem tries_attachDesired {members desired : List String} {n : NetworkManifest}
    (hn : RightfulBridge n s.host) :
    (honesty f).Tries (attachDesired members desired n) (fun m t => RightfulBridge m t.host) s := by
  induction desired generalizing n s with
  | nil => exact .pure hn
  | cons member desired ih =>
    refine .bind (tries_calls tolerates_looks (looks_requireInterface _ _)) fun _ t hst _ => ?_
    refine .bind (tries_attachMember (hn.mono hst)) fun m u _ hm => ?_
    refine .bind (tries_plain (keeps_plain trivial)) fun _ v huv _ => ?_
    exact ih (hm.mono huv)

theorem tries_destroyVLAN {network : String} {v : VLAN}
    (h : v.borrowed = false → ¬ s.host.Foreign (.interface v.device)) :
    (honesty f).Tries (destroyVLAN network v) (fun _ _ => True) s :=
  tries_onlyIf fun hb => tries_onlyWhen (keeps_plain trivial) fun _ hst =>
    tries_plain (keeps_plain fun hf => h hb (hst _ hf))

theorem tries_dropVLANs {desired : List String} {olds : List VLAN} {n : NetworkManifest}
    (hn : RightfulBridge n s.host)
    (holds : ∀ v ∈ olds, v.borrowed = false → ¬ s.host.Foreign (.interface v.device)) :
    (honesty f).Tries (dropVLANs desired olds n) (fun m t => RightfulBridge m t.host) s := by
  induction olds generalizing n s with
  | nil => exact .pure hn
  | cons old olds ih =>
    unfold dropVLANs
    split
    · exact ih hn fun v hv => holds v (List.mem_cons_of_mem old hv)
    · refine .bind (tries_destroyVLAN (holds old List.mem_cons_self)) fun _ t hst _ => ?_
      have hdropped : RightfulBridge { n with
          appliedVLANs := n.appliedVLANs.filter fun v => v.device ≠ old.device } t.host := by
        refine (hn.mono hst).of_records rfl fun x hx => ?_
        cases x with
        | interface d =>
          rcases hx with hx | ⟨v, hv, hb⟩
          · exact .inl hx
          · exact .inr ⟨v, List.mem_of_mem_filter hv, hb⟩
        | member d m | address d a => exact hx
      refine .bind (tries_plain (keeps_plain hdropped.rightful)) fun _ u htu _ => ?_
      exact ih (hdropped.mono htu) fun v hv hb hf =>
        holds v (List.mem_cons_of_mem old hv) hb (hst _ (htu _ hf))

theorem tries_dropAddress {n : NetworkManifest} (hn : RightfulBridge n s.host) :
    (honesty f).Tries (dropAddress n) (fun m t => RightfulBridge m t.host) s := by
  unfold dropAddress
  split
  · rename_i ha
    refine .bind (tries_removeAddress (hn.rightful _ ⟨hn.mode, rfl, rfl, ha.1⟩)) fun _ t hst _ => ?_
    refine .pure ((hn.mono hst).of_records rfl fun x hx => ?_)
    cases x with
    | address d a => exact absurd hx.2.2.1.symm hx.2.2.2
    | interface d | member d m => exact hx
  · exact .pure hn

theorem tries_ensureAddress {n : NetworkManifest} (hn : RightfulBridge n s.host) :
    (honesty f).Tries (ensureAddress n) (fun m t => RightfulBridge m t.host) s := by
  unfold ensureAddress
  split
  · exact .pure hn
  · refine .bind (tries_ask (keeps_plain trivial)) fun found t hst _ => ?_
    have hn := hn.mono hst
    split
    · exact .pure hn
    · refine .bind (tries_attempt (Q := fun _ t => ¬ t.host.Foreign (.address n.device n.address))
        (keeps_call trivial fun r t _ hafter _ hr => hafter hr)) fun _ u htu ha => ?_
      refine .pure ⟨hn.mode, fun x hx => ?_⟩
      cases x with
      | address d a =>
        obtain ⟨-, rfl, rfl, -⟩ := hx
        exact ha
      | interface d | member d m => exact (hn.mono htu).rightful _ hx

theorem tries_applyBridge {n : NetworkManifest} (hn : Sound n s.host) (hmode : n.mode = .bridge) :
    (honesty f).Tries (applyBridge n) (fun _ _ => True) s := by
  refine .bind (.forM (P := fun _ => True) (fun _ _ _ _ => trivial) trivial
    fun _ _ _ _ => (tries_calls tolerates_looks (looks_requireInterface _ _))) fun _ t hst _ => ?_
  refine .bind (.forM (P := fun _ => True) (fun _ _ _ _ => trivial) trivial
    fun _ _ _ _ => (tries_calls tolerates_looks (looks_requireInterface _ _))) fun _ u htu _ => ?_
  refine .bind (tries_ensureDevice ((hn.mono hst).mono htu) hmode) fun n v _ ⟨hn, hmode⟩ => ?_
  refine .bind (tries_ensureVLANs ⟨hmode, hn.rightful⟩ hn.vlans) fun r w _ hn => ?_
  obtain ⟨n, desired⟩ := r
  refine .bind (tries_plain (keeps_plain trivial)) fun members w' hw hn' => ?_
  have hn := hn.mono hw
  refine .bind (tries_detachOld hn fun m hm => hn.rightful _ ⟨hn.mode, rfl, hm⟩) fun n a _ hn => ?_
  refine .bind (tries_attachDesired hn) fun n b _ hn => ?_
  refine .bind (tries_dropVLANs hn fun v hv hb =>
    hn.rightful _ (.inr ⟨v, hv, hb, rfl⟩)) fun n c _ hn => ?_
  refine .bind (tries_dropAddress hn) fun n d _ hn => ?_
  refine .bind (tries_ensureAddress hn) fun n e _ hn => ?_
  refine .bind (tries_plain (keeps_plain trivial)) fun _ g heg _ => ?_
  exact .bind (tries_plain (keeps_plain (hn.mono heg).rightful)) fun _ _ _ _ => .pure trivial

theorem tries_applyVLAN {n : NetworkManifest} (hn : Rightful n s.host) (hmode : n.mode = .vlan) :
    (honesty f).Tries (applyVLAN n) (fun _ _ => True) s := by
  refine .bind (tries_calls tolerates_looks (looks_requireInterface _ _)) fun _ t hst _ => ?_
  have hn := hn.mono hst
  refine .bind (tries_resolveVLAN fun ho _ => hn _ (.inl ⟨ho, rfl⟩)) fun r u htu howned => ?_
  obtain ⟨device, owned⟩ := r
  have happlied : Rightful { n with device, owned } u.host := by
    intro x hx
    cases x with
    | interface d =>
      rcases hx with ⟨ho, rfl⟩ | hv
      · exact howned ho
      · exact hn.mono htu _ (.inr hv)
    | member d m | address d a =>
      have := hmode.symm.trans hx.1
      contradiction
  refine .bind (tries_saveOr happlied fun v huv => ?_) fun _ v huv _ => ?_
  · split
    · rename_i ho
      exact keeps_discard fun hf => howned ho.1 (huv _ hf)
    · exact .pure trivial
  · refine .bind (tries_plain (keeps_plain trivial)) fun _ w hvw _ => ?_
    refine .bind (tries_plain (keeps_plain trivial)) fun _ x hwx _ => ?_
    exact .bind (tries_plain (keeps_plain (((happlied.mono huv).mono hvw).mono hwx)))
      fun _ _ _ _ => .pure trivial

theorem tries_reload {id : String} {mode : NetworkMode} :
    (honesty f).Tries (reload id mode) (fun n t => Sound n t.host ∧ n.mode = mode) s := by
  refine .bind (tries_attempt (Q := fun n t => Sound n t.host)
    (keeps_call trivial fun r t _ hafter => hafter)) fun n t _ hn => ?_
  split
  · exact tries_refuse
  · rename_i hmode
    exact .pure ⟨hn, not_not.mp hmode⟩

theorem tries_ensure {n : NetworkManifest} {dryRun : Bool} :
    (honesty f).Tries (ensure n dryRun) (fun _ _ => True) s := by
  unfold ensure
  split
  · refine tries_underLock tolerates_looks (fun t _ => .bind tries_reload fun n u _ hn => ?_) fun _ _ _ _ _ => trivial
    split
    · exact .pure trivial
    · exact tries_applyVLAN hn.1.rightful hn.2
  · refine .bind (tries_ask (keeps_plain trivial)) fun found t _ _ => ?_
    split
    · exact .pure trivial
    · exact tries_refuse
  · refine .bind (tries_ask (keeps_plain trivial)) fun found t _ _ => ?_
    split
    · exact .pure trivial
    · exact tries_refuse
  · refine tries_underLock tolerates_looks (fun t _ => .bind tries_reload fun n u _ hn => ?_) fun _ _ _ _ _ => trivial
    split
    · exact .pure trivial
    · exact tries_applyBridge hn.1 hn.2
  · exact .pure trivial

theorem tries_reconcile {dryRun : Bool} :
    (honesty f).Tries (reconcile dryRun) (fun _ _ => True) s := by
  have all : ∀ (networks : List NetworkManifest) (t : NetState),
      (honesty f).Tries (reconcileAll dryRun networks) (fun _ _ => True) t := by
    intro networks
    induction networks with
    | nil => exact fun _ => .pure trivial
    | cons n networks ih =>
      refine fun t => .bind (tries_ask tries_ensure) fun r u _ _ => ?_
      cases r with
      | ok _ => exact ih u
      | error e => exact tries_refuse
  exact .bind (tries_plain (keeps_plain trivial)) fun networks t _ _ => all networks t

/-! ### Taking networks apart -/

theorem tries_detachApplied {n : NetworkManifest} (hn : RightfulBridge n s.host) :
    (honesty f).Tries (detachApplied n) (fun _ _ => True) s := by
  refine .bind (tries_calls tolerates_looks (looks_requireBridge _)) fun _ t hst _ => ?_
  refine .bind (tries_plain (keeps_plain trivial)) fun members u htu _ => ?_
  have hn := (hn.mono hst).mono htu
  split
  · exact tries_refuse
  · refine (Discipline.Tries.forM (P := fun t => RightfulBridge n t.host)
      (fun _ _ hst h => h.mono hst) hn fun member hm t ht => ?_).mono fun _ _ _ _ => trivial
    exact tries_plain (keeps_plain
      (ht.rightful _ ⟨ht.mode, rfl, List.mem_of_mem_filter hm⟩))

theorem tries_destroyBridge {n : NetworkManifest} (hn : RightfulBridge n s.host) :
    (honesty f).Tries (destroyBridge n) (fun _ _ => True) s := by
  refine .bind (tries_onlyWhen (keeps_plain trivial) fun t hst =>
    tries_detachApplied (hn.mono hst)) fun _ t hst _ => ?_
  refine .bind (.forM (P := fun t => RightfulBridge n t.host) (fun _ _ hst h => h.mono hst)
    (hn.mono hst) fun v hv t ht => tries_onlyIf fun _ => tries_destroyVLAN fun hb =>
      ht.rightful (.interface v.device) (.inr ⟨v, hv, hb, rfl⟩)) fun _ u _ hn => ?_
  refine .bind (tries_onlyIf fun ha => tries_onlyWhen (keeps_plain trivial) fun v huv =>
    tries_removeAddress ((hn.mono huv).rightful _ ⟨hn.mode, rfl, rfl, ha.2⟩)) fun _ v huv _ => ?_
  exact tries_onlyIf fun ho => tries_onlyWhen (keeps_plain trivial) fun w hvw =>
    tries_plain (keeps_plain (((hn.mono huv).mono hvw).rightful _ (.inl ⟨ho, rfl⟩)))

theorem tries_destroy {n : NetworkManifest} (hn : Rightful n s.host) :
    (honesty f).Tries (Network.destroy n) (fun _ _ => True) s := by
  unfold Network.destroy
  split
  · exact tries_onlyIf fun ho => tries_onlyWhen (keeps_existing.mono fun _ _ _ _ => trivial)
      fun t hst => tries_plain (keeps_plain (hn.mono hst _ (.inl ⟨ho, rfl⟩)))
  · rename_i hmode
    exact tries_destroyBridge ⟨hmode, hn⟩
  · exact .pure trivial

/-! ### The operations -/

theorem tries_rollBackNetwork {id : String} {e : Message} :
    (honesty f).Tries (rollBackNetwork id e) (fun _ _ => True) s := by
  refine .bind (tries_ask (keeps_call (Q := fun (r : Except Message NetworkManifest) t =>
    ∀ n, r = .ok n → Sound n t.host) trivial fun r t _ hafter => hafter)) fun r t _ hn => ?_
  cases r with
  | error loadErr => exact tries_refuse
  | ok current =>
    refine .bind (tries_ask (tries_destroy (hn current rfl).rightful)) fun r u _ _ => ?_
    cases r with
    | error cleanupErr => exact tries_refuse
    | ok _ =>
      refine .bind (tries_ask (keeps_plain trivial)) fun r v _ _ => ?_
      cases r with
      | error cleanupErr => exact tries_refuse
      | ok _ => exact tries_refuse

/-- A network that is new records nothing. -/
theorem tries_withModeFields {mcastGroup : String → String} {params : CreateNetworkParams}
    {mode id : String} : (honesty f).Tries
      (withModeFields mcastGroup params (newNetwork params mode id))
      (fun n t => Rightful n t.host) s := by
  have records : ∀ {n : NetworkManifest}, n.owned = false → n.appliedVLANs = [] →
      n.appliedMembers = [] → n.appliedAddress = "" → ∀ h, Rightful n h := by
    intro n ho hv hm ha h x hx
    cases x with
    | interface d => simp [Records, ho, hv] at hx
    | member d m => simp [Records, hm] at hx
    | address d a =>
      obtain ⟨-, -, rfl, hne⟩ := hx
      exact absurd ha hne
  unfold withModeFields
  split
  · exact .pure (records rfl rfl rfl rfl _)
  · split
    · exact tries_refuse
    · exact .pure (records rfl rfl rfl rfl _)
  · split
    · exact tries_refuse
    · exact .pure (records rfl rfl rfl rfl _)
  · split
    · exact tries_refuse
    · exact .pure (records rfl rfl rfl rfl _)
  · exact .pure (records rfl rfl rfl rfl _)

theorem tries_createWith {mcastGroup : String → String} {params : CreateNetworkParams}
    {mode : String} :
    (honesty f).Tries (createWith mcastGroup params mode) (fun _ _ => True) s := by
  unfold createWith
  split
  · exact tries_refuse
  · refine .bind (tries_ask (keeps_plain trivial)) fun id u _ _ => ?_
    refine .bind tries_withModeFields fun n v _ hn => ?_
    refine .bind (tries_plain (keeps_plain hn)) fun _ w _ _ => ?_
    refine .bind (tries_ask tries_ensure) fun r x _ _ => ?_
    cases r with
    | ok n => exact .pure trivial
    | error e => exact tries_rollBackNetwork

theorem tries_createNetwork {mcastGroup : String → String} {params : CreateNetworkParams} :
    (honesty f).Tries (createNetwork mcastGroup params) (fun _ _ => True) s := by
  unfold createNetwork
  split
  · exact tries_refuse
  · refine .bind (tries_ask (keeps_plain trivial)) fun r t _ _ => ?_
    cases r with
    | ok existing => exact tries_refuse
    | error e => exact tries_createWith

theorem tries_destroyNetwork {ref : String} :
    (honesty f).Tries (destroyNetwork ref) (fun _ _ => True) s := by
  refine tries_underLock tolerates_looks (fun t _ => ?_) fun _ _ _ _ _ => trivial
  refine .bind (tries_attempt (Q := fun n t => Sound n t.host)
    (keeps_call trivial fun r t _ hafter => hafter)) fun n u _ hn => ?_
  refine .bind (tries_plain (keeps_plain trivial)) fun vms v huv _ => ?_
  refine .bind (tries_calls tolerates_looks (looks_requireUnused _ _)) fun _ w hvw _ => ?_
  refine .bind (tries_onlyIf fun _ => (tries_calls tolerates_looks (looks_requireDetached _))) fun _ x hwx _ => ?_
  refine .bind (tries_destroy (((hn.mono huv).mono hvw).mono hwx).rightful) fun _ y _ _ => ?_
  exact tries_plain (keeps_plain trivial)

theorem tries_redefineNetwork {ref : String} {params : CreateNetworkParams} :
    (honesty f).Tries (redefineNetwork ref params) (fun _ _ => True) s := by
  refine .bind (tries_attempt (Q := fun n t => Sound n t.host)
    (keeps_call trivial fun r t _ hafter => hafter)) fun n u _ hn => ?_
  split
  · exact tries_refuse
  · split
    · exact tries_refuse
    · refine .bind (tries_plain (keeps_plain trivial)) fun vms v huv _ => ?_
      refine .bind (tries_calls tolerates_looks (looks_requireUnusedBy _ _)) fun _ w hvw _ => ?_
      refine .bind (tries_onlyIf fun _ => ?_) fun _ x hwx _ => ?_
      · split
        · exact tries_refuse
        · exact (tries_calls tolerates_looks (looks_requireDetached _))
      · have hsame : Rightful (redefined n params) x.host := fun y hy =>
          (((hn.mono huv).mono hvw).mono hwx).rightful y (by cases y <;> exact hy)
        exact .bind (tries_plain (keeps_plain hsame)) fun _ _ _ _ => .pure trivial

theorem keeps_program (op : NetOp) : (honesty f).Keeps op.program (fun _ _ => True) s := by
  have drop : ∀ {α : Type} {p : NetM α}, (honesty f).Tries p (fun _ _ => True) s →
      (honesty f).Keeps (do let _ ← p.run) (fun _ _ => True) s := fun h =>
    .bind h fun _ _ _ _ => .pure trivial
  cases op with
  | create mcastGroup params => exact drop tries_createNetwork
  | apply ref dryRun => exact drop (.bind (tries_plain (keeps_plain trivial)) fun _ _ _ _ => tries_ensure)
  | applyAll dryRun => exact drop tries_reconcile
  | update ref params =>
    refine drop (.bind (tries_underLock tolerates_looks (fun _ _ => tries_redefineNetwork) fun _ _ _ _ _ => trivial)
      fun n t _ _ => ?_)
    refine .bind (tries_ask tries_ensure) fun r u _ _ => ?_
    cases r with
    | ok n => exact .pure trivial
    | error e => exact tries_refuse
  | destroy ref => exact drop tries_destroyNetwork

/-- Others leave alone what a stored manifest records. -/
structure LeavesAlone (s t : NetState) : Prop where
  manifests : t.manifests = s.manifests
  trespass : t.trespass = s.trespass
  recorded : ∀ id n, s.manifests.get id = some n → ∀ x, Records n x →
    t.host.marks x = s.host.marks x

theorem LeavesAlone.honest {t : NetState} (hs : s.Honest) (h : LeavesAlone s t) : t.Honest where
  stored id n hn x hx hf := by
    rw [h.manifests] at hn
    unfold Host.Foreign at hf
    rw [h.recorded id n hn x hx] at hf
    exact hs.stored id n hn x hx hf
  clean := h.trespass.trans hs.clean

section Lab

/-- The choices of a run in which a network creates a bridge. -/
def labCreated : List NetChoice :=
  [.ok, .name "n", .ok, .ok, .ok, .name "bridge1", .ok, .ok, .ok, .ok, .ok]

def labDestroyed : List NetChoice := [.ok, .ok, .vms [], .ok, .ok, .ok, .ok, .ok, .ok, .ok]

theorem lab_runs :
    ∃ s t,
      (NetOp.program (.create (fun _ => "") { name := "lab" })).run (NetState.perform anyFormats)
        labCreated {} = some ((), s) ∧
      (NetOp.program (.destroy "n")).run (NetState.perform anyFormats) labDestroyed s =
        some ((), t) ∧
      s.host = [("bridge1", { made := true, bridge := true })] ∧ t.host = [] ∧
      Prog.Follows (NetState.perform anyFormats) Untaken
        (NetOp.program (.create (fun _ => "") { name := "lab" })) labCreated {} ∧
      Prog.Follows (NetState.perform anyFormats) Untaken (NetOp.program (.destroy "n"))
        labDestroyed s := by
  refine ⟨_, _, rfl, rfl, rfl, rfl, ?_, ?_⟩
  · exact ⟨trivial, trivial, trivial, trivial, trivial, trivial, trivial, trivial, trivial, trivial,
      trivial, trivial⟩
  · exact ⟨trivial, trivial, trivial, trivial, trivial, trivial, trivial, trivial, trivial, trivial,
      trivial⟩

/-- A host with a bridge and an address on it, both by others. -/
def labHost : Host :=
  [("bridge0", { made := false, bridge := true, addresses := [("10.0.0.1/24", false)] })]

def labParams : CreateNetworkParams :=
  { name := "lab", device := "bridge0", address := "10.0.0.1/24" }

/-- A network is created on the bridge with the address that is there.  The query for the address
fails, the command that sets it finds it set, and the destruction of the network removes it. -/
theorem lab_address_removed :
    ∃ s t, (NetOp.program (.create (fun _ => "") labParams)).run (NetState.perform anyFormats)
        [.ok, .name "n", .ok, .ok, .ok, .ok, .ok, .ok, .ok, .fail "query", .fileExists, .ok, .ok,
          .ok] { host := labHost } = some ((), s) ∧
      (NetOp.program (.destroy "n")).run (NetState.perform anyFormats)
        [.ok, .ok, .vms [], .ok, .ok, .ok, .ok, .ok, .ok, .ok, .ok] s = some ((), t) ∧
      t.host = [("bridge0", { made := false, bridge := true })] ∧ t.trespass = true :=
  ⟨_, _, rfl, rfl, rfl, rfl⟩

end Lab

end Maco.Engine
