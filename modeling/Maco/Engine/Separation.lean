import Maco.Network.Separate
import Maco.Engine.Network

/-! Networks that own bridges own different ones, whatever reboots do to the names, as long as no
network is given a bridge under a name that another one still records. -/

namespace Maco.Engine

open Concurrent Network

namespace Separation

variable {f : Formats} {s : NetState} {id : String}

/-- The manifest of the network, which no other network shares a bridge with. -/
def Kept (id : String) (n : NetworkManifest) (s : NetState) : Prop := n.id = id ∧ Apart n s

/-- The operations on one network. -/
abbrev only (f : Formats) (id : String) : Discipline NetCall NetCall.Reply NetChoice NetState :=
  separation f (· = id)

theorem Kept.mono {n : NetworkManifest} {t : NetState} (h : Kept id n s)
    (hst : OthersKept (· = id) s t) : Kept id n t := by
  obtain ⟨rfl, h⟩ := h
  exact ⟨rfl, h.mono hst⟩

theorem Kept.congr {n m : NetworkManifest} (h : Kept id n s) (hid : m.id = n.id)
    (hmode : m.mode = n.mode) (hdevice : m.device = n.device) (howned : m.owned = n.owned) :
    Kept id m s :=
  ⟨hid.trans h.1, h.2.congr hid hmode hdevice howned⟩

/-- A network that does not own a bridge is apart from the others. -/
theorem Kept.of_not_owns {n : NetworkManifest} (hid : n.id = id) (h : ¬ OwnsBridge n) :
    Kept id n s :=
  ⟨hid, fun _ _ _ _ hn => absurd hn h⟩

theorem tolerates_looks {T : String → Prop} : (separation f T).Tolerates NetCall.Looks :=
  fun _ ha _ => keeps_neutral ha.neutral

/-- The operations on any network. -/
abbrev every (f : Formats) : Discipline NetCall NetCall.Reply NetChoice NetState :=
  separation f fun _ => True

/-- What an operation on one network keeps, it keeps as an operation on any. -/
theorem tries_any {α : Type} (id : String) {p : NetM α} {Q : α → NetState → Prop}
    (h : (only f id).Tries p Q s) : (every f).Tries p Q s :=
  fun hs => wp_mono (h hs) fun _ _ ht => ⟨ht.1, fun _ hother => absurd trivial hother, ht.2.2⟩

theorem tries_save {n : NetworkManifest} (hn : Kept id n s) :
    (only f id).Tries (attempt (netCall (.save n))) (fun _ _ => True) s :=
  tries_plain (keeps_save hn.1 hn.2)

theorem tries_neutral {α : Type} {T : String → Prop} {p : NetM α} (h : OnlyNeutral p.run) :
    (separation f T).Tries p (fun _ _ => True) s :=
  tries_calls tolerates_neutral h

theorem tries_up {device : String} :
    (only f id).Tries (attempt (netCall (.up device))) (fun _ _ => True) s :=
  tries_neutral (neutral_call (.up device) trivial)

theorem tries_saveOr {n : NetworkManifest} {undo : Net Unit} (hn : Kept id n s)
    (hundo : OnlyNeutral undo) : (only f id).Tries (saveOr n undo) (fun _ _ => True) s := by
  refine .bind (tries_ask (keeps_save hn.1 hn.2)) fun r t hst _ => ?_
  cases r with
  | ok _ => exact .pure trivial
  | error e => exact .bind (tries_ask (tolerates_neutral.keeps hundo)) fun _ _ _ _ => tries_refuse

/-! ### `Ensure` -/

theorem tries_ensureDevice {n : NetworkManifest} (hn : Kept id n s) :
    (only f id).Tries (ensureDevice n) (Kept id) s := by
  refine .bind (tries_neutral (neutral_onlyWhen (looks_existing _)
    (looks_requireBridge _).neutral)) fun _ t hst _ => ?_
  have hn := hn.mono hst
  refine .bind (tries_ask (tolerates_looks.keeps (looks_existing _))) fun found u htu _ => ?_
  have hn := hn.mono htu
  split
  · exact .pure hn
  · split
    · exact tries_refuse
    · refine .bind (tries_attempt keeps_createBridge) fun device v huv hfree => ?_
      have hcreated : Kept id { n with device, owned := true, appliedMembers := [] } v :=
        ⟨hn.1, fun other m hm hne _ hm' => hfree other m hm hne hm'⟩
      refine .bind (tries_saveOr hcreated (neutral_discard trivial))
        fun _ w hvw _ => ?_
      exact .pure (hcreated.mono hvw)

theorem tries_ensureVLANs {before rest : List VLAN} {desired : List String} {n : NetworkManifest}
    (hn : Kept id n s) :
    (only f id).Tries (ensureVLANs before rest desired n) (fun r t => Kept id r.1 t) s := by
  induction rest generalizing before desired n s with
  | nil => exact .pure hn
  | cons vlan rest ih =>
    refine .bind (tries_neutral (looks_requireInterface _ _).neutral) fun _ t hst _ => ?_
    refine .bind (tries_neutral (neutral_resolveVLAN _ _ _ _ _)) fun r u htu _ => ?_
    obtain ⟨device, owned⟩ := r
    have hwith : Kept id (withVLAN n before
        { lastApplied n.appliedVLANs vlan with device, borrowed := !owned } rest) u :=
      ((hn.mono hst).mono htu).congr rfl rfl rfl rfl
    refine .bind (tries_saveOr hwith ?_) fun _ v huv _ => ?_
    · split
      · exact neutral_discard trivial
      · exact .pure _
    · refine .bind (tries_up) fun _ w hvw _ => ?_
      exact ih ((hwith.mono huv).mono hvw)

theorem tries_detachOld {desired members olds : List String} {n : NetworkManifest}
    (hn : Kept id n s) :
    (only f id).Tries (detachOld desired members olds n) (Kept id) s := by
  induction olds generalizing n s with
  | nil => exact .pure hn
  | cons old olds ih =>
    unfold detachOld
    split
    · exact ih hn
    · refine .bind (tries_neutral (neutral_onlyIf
        (neutral_call (.removeMember n.device old) trivial))) fun _ t hst _ => ?_
      exact ih ((hn.mono hst).congr rfl rfl rfl rfl)

theorem tries_attachMember {members : List String} {member : String} {n : NetworkManifest}
    (hn : Kept id n s) : (only f id).Tries (attachMember members member n) (Kept id) s := by
  unfold attachMember
  split
  · exact .pure hn
  · refine .bind (tries_neutral (neutral_call (.addMember n.device member) trivial))
      fun _ t hst _ => ?_
    have hn := hn.mono hst
    split
    · exact .pure hn
    · have hattached : Kept id { n with appliedMembers := n.appliedMembers ++ [member] } t :=
        hn.congr rfl rfl rfl rfl
      refine .bind (tries_saveOr hattached (neutral_discard trivial)) fun _ u htu _ => ?_
      exact .pure (hattached.mono htu)

theorem tries_attachDesired {members desired : List String} {n : NetworkManifest}
    (hn : Kept id n s) : (only f id).Tries (attachDesired members desired n) (Kept id) s := by
  induction desired generalizing n s with
  | nil => exact .pure hn
  | cons member desired ih =>
    refine .bind (tries_neutral (looks_requireInterface _ _).neutral) fun _ t hst _ => ?_
    refine .bind (tries_attachMember (hn.mono hst)) fun m u _ hm => ?_
    refine .bind (tries_up) fun _ v huv _ => ?_
    exact ih (hm.mono huv)

theorem tries_dropVLANs {desired : List String} {olds : List VLAN} {n : NetworkManifest}
    (hn : Kept id n s) : (only f id).Tries (dropVLANs desired olds n) (Kept id) s := by
  induction olds generalizing n s with
  | nil => exact .pure hn
  | cons old olds ih =>
    unfold dropVLANs
    split
    · exact ih hn
    · refine .bind (tries_neutral (neutral_destroyVLAN _ _)) fun _ t hst _ => ?_
      have hdropped : Kept id { n with
          appliedVLANs := n.appliedVLANs.filter fun v => v.device ≠ old.device } t :=
        (hn.mono hst).congr rfl rfl rfl rfl
      refine .bind (tries_save hdropped) fun _ u htu _ => ?_
      exact ih (hdropped.mono htu)

theorem tries_dropAddress {n : NetworkManifest} (hn : Kept id n s) :
    (only f id).Tries (dropAddress n) (Kept id) s := by
  unfold dropAddress
  split
  · refine .bind (tries_neutral (neutral_removeAddress _ _)) fun _ t hst _ => ?_
    exact .pure ((hn.mono hst).congr rfl rfl rfl rfl)
  · exact .pure hn

theorem tries_ensureAddress {n : NetworkManifest} (hn : Kept id n s) :
    (only f id).Tries (ensureAddress n) (Kept id) s := by
  unfold ensureAddress
  split
  · exact .pure hn
  · refine .bind (tries_ask (keeps_neutral trivial)) fun found t hst _ => ?_
    split
    · exact .pure (hn.mono hst)
    · refine .bind (tries_neutral (neutral_call (.setAddress n.device n.address) trivial)) fun _ u htu _ => ?_
      exact .pure (((hn.mono hst).mono htu).congr rfl rfl rfl rfl)

theorem tries_applyBridge {n : NetworkManifest} (hn : Kept id n s) :
    (only f id).Tries (applyBridge n) (Kept id) s := by
  refine .bind (tries_neutral (.forM fun _ _ => (looks_requireInterface _ _).neutral))
    fun _ t hst _ => ?_
  refine .bind (tries_neutral (.forM fun _ _ => (looks_requireInterface _ _).neutral))
    fun _ u htu _ => ?_
  refine .bind (tries_ensureDevice ((hn.mono hst).mono htu)) fun n v _ hn => ?_
  refine .bind (tries_ensureVLANs hn) fun r w _ hn => ?_
  obtain ⟨n, desired⟩ := r
  refine .bind (tries_neutral (neutral_call (.bridgeMembers n.device) trivial))
    fun members w' hw _ => ?_
  refine .bind (tries_detachOld (hn.mono hw)) fun n a _ hn => ?_
  refine .bind (tries_attachDesired hn) fun n b _ hn => ?_
  refine .bind (tries_dropVLANs hn) fun n c _ hn => ?_
  refine .bind (tries_dropAddress hn) fun n d _ hn => ?_
  refine .bind (tries_ensureAddress hn) fun n e _ hn => ?_
  refine .bind (tries_up) fun _ g heg _ => ?_
  exact .bind (tries_save (hn.mono heg)) fun _ x hgx _ => .pure ((hn.mono heg).mono hgx)

theorem tries_applyVLAN {n : NetworkManifest} (hid : n.id = id) (hmode : n.mode = .vlan) :
    (only f id).Tries (applyVLAN n) (Kept id) s := by
  refine .bind (tries_neutral (looks_requireInterface _ _).neutral) fun _ t _ _ => ?_
  refine .bind (tries_neutral (neutral_resolveVLAN _ _ _ _ _)) fun r u _ _ => ?_
  obtain ⟨device, owned⟩ := r
  have happlied : ∀ t, Kept id { n with device, owned } t := by
    refine fun t => .of_not_owns hid fun h => ?_
    have := hmode.symm.trans h.1
    contradiction
  refine .bind (tries_saveOr (happlied u) ?_) fun _ v _ _ => ?_
  · split
    · exact neutral_discard trivial
    · exact .pure _
  · refine .bind (tries_up) fun _ w _ _ => ?_
    refine .bind (tries_up) fun _ x _ _ => ?_
    exact .bind (tries_save (happlied x)) fun _ y _ _ => .pure (happlied y)

theorem tries_reload {mode : NetworkMode} :
    (only f id).Tries (reload id mode) (fun n t => Kept id n t ∧ n.mode = mode) s := by
  refine .bind (tries_attempt keeps_load) fun n t _ hn => ?_
  split
  · exact tries_refuse
  · rename_i hmode
    exact .pure ⟨hn, not_not.mp hmode⟩

theorem tries_ensure {n : NetworkManifest} {dryRun : Bool} :
    (only f n.id).Tries (ensure n dryRun) (fun _ _ => True) s := by
  unfold ensure
  split
  · refine tries_underLock tolerates_looks (fun t _ => .bind tries_reload fun m u _ hm => ?_)
      fun _ _ _ _ _ => trivial
    split
    · exact .pure trivial
    · exact (tries_applyVLAN hm.1.1 hm.2).mono fun _ _ _ _ => trivial
  · refine .bind (tries_ask (keeps_neutral trivial)) fun found t _ _ => ?_
    split
    · exact .pure trivial
    · exact tries_refuse
  · refine .bind (tries_ask (keeps_neutral trivial)) fun found t _ _ => ?_
    split
    · exact .pure trivial
    · exact tries_refuse
  · refine tries_underLock tolerates_looks (fun t _ => .bind tries_reload fun m u _ hm => ?_)
      fun _ _ _ _ _ => trivial
    split
    · exact .pure trivial
    · exact (tries_applyBridge hm.1).mono fun _ _ _ _ => trivial
  · exact .pure trivial

theorem tries_reconcile {dryRun : Bool} :
    (every f).Tries (reconcile dryRun) (fun _ _ => True) s := by
  have all : ∀ (networks : List NetworkManifest) (t : NetState),
      (every f).Tries (reconcileAll dryRun networks) (fun _ _ => True) t := by
    intro networks
    induction networks with
    | nil => exact fun _ => .pure trivial
    | cons n networks ih =>
      refine fun t => .bind (tries_ask (tries_any _ tries_ensure)) fun r u _ _ => ?_
      cases r with
      | ok _ => exact ih u
      | error e => exact tries_refuse
  refine .bind (tries_neutral (neutral_call .list trivial)) fun networks t _ _ => all networks t

/-! ### The operations -/

theorem tries_rollBackNetwork {e : Message} :
    (only f id).Tries (rollBackNetwork id e) (fun _ _ => True) s := by
  refine .bind (tries_ask (keeps_neutral trivial)) fun r t _ _ => ?_
  cases r with
  | error loadErr => exact tries_refuse
  | ok current =>
    refine .bind (tries_ask (tolerates_neutral.keeps (neutral_destroy current))) fun r u _ _ => ?_
    cases r with
    | error cleanupErr => exact tries_refuse
    | ok _ =>
      refine .bind (tries_ask (keeps_delete rfl)) fun r v _ _ => ?_
      cases r with
      | error cleanupErr => exact tries_refuse
      | ok _ => exact tries_refuse

theorem tries_withModeFields {mcastGroup : String → String} {params : CreateNetworkParams}
    {n : NetworkManifest} (hid : n.id = id) (howned : n.owned = false) :
    (only f id).Tries (withModeFields mcastGroup params n)
      (fun m _ => m.id = id ∧ m.owned = false) s := by
  unfold withModeFields
  split
  · exact .pure ⟨hid, howned⟩
  · split
    · exact tries_refuse
    · exact .pure ⟨hid, howned⟩
  · split
    · exact tries_refuse
    · exact .pure ⟨hid, howned⟩
  · split
    · exact tries_refuse
    · exact .pure ⟨hid, howned⟩
  · exact .pure ⟨hid, howned⟩

theorem tries_createWith {mcastGroup : String → String} {params : CreateNetworkParams}
    {mode : String} : (every f).Tries (createWith mcastGroup params mode) (fun _ _ => True) s := by
  unfold createWith
  split
  · exact tries_refuse
  · refine .bind (tries_ask (keeps_neutral trivial)) fun id u _ _ => ?_
    refine tries_any id ?_
    refine .bind (tries_withModeFields rfl rfl) fun n v _ hn => ?_
    have hkept : Kept id n v := .of_not_owns hn.1 fun h => by
      have := hn.2.symm.trans h.2
      contradiction
    refine .bind (tries_save hkept) fun _ w _ _ => ?_
    obtain ⟨rfl, -⟩ := hn
    refine .bind (tries_ask tries_ensure) fun r x _ _ => ?_
    cases r with
    | ok m => exact .pure trivial
    | error e => exact tries_rollBackNetwork

theorem tries_createNetwork {mcastGroup : String → String} {params : CreateNetworkParams} :
    (every f).Tries (createNetwork mcastGroup params) (fun _ _ => True) s := by
  unfold createNetwork
  split
  · exact tries_refuse
  · refine .bind (tries_ask (keeps_neutral trivial)) fun r t _ _ => ?_
    cases r with
    | ok existing => exact tries_refuse
    | error e => exact tries_createWith

theorem tries_destroyNetwork {ref : String} :
    (every f).Tries (destroyNetwork ref) (fun _ _ => True) s := by
  refine tries_underLock tolerates_looks (fun t _ => ?_) fun _ _ _ _ _ => trivial
  refine .bind (tries_neutral (neutral_call (.resolve ref) trivial)) fun n u _ _ => ?_
  refine .bind (tries_neutral (neutral_call .listVMs trivial)) fun vms v _ _ => ?_
  refine .bind (tries_neutral (looks_requireUnused n vms).neutral) fun _ w _ _ => ?_
  refine .bind (tries_neutral (neutral_onlyIf (looks_requireDetached n).neutral)) fun _ x _ _ => ?_
  refine .bind (tries_neutral (neutral_destroy n)) fun _ y _ _ => ?_
  exact tries_plain (keeps_delete trivial)

theorem tries_redefineNetwork {ref : String} {params : CreateNetworkParams} :
    (every f).Tries (redefineNetwork ref params) (fun _ _ => True) s := by
  refine .bind (tries_attempt keeps_resolve) fun n u _ hn => ?_
  split
  · exact tries_refuse
  · split
    · exact tries_refuse
    · refine tries_any n.id ?_
      refine .bind (tries_neutral (neutral_call .listVMs trivial)) fun vms v huv _ => ?_
      refine .bind (tries_neutral (looks_requireUnusedBy n vms).neutral) fun _ w hvw _ => ?_
      refine .bind (tries_neutral (neutral_onlyIf ?_)) fun _ x hwx _ => ?_
      · split
        · exact .pure _
        · exact (looks_requireDetached n).neutral
      · have hsame : Kept n.id (redefined n params) x :=
          ⟨rfl, (((hn.mono huv).mono hvw).mono hwx).congr rfl rfl rfl rfl⟩
        exact .bind (tries_save hsame) fun _ _ _ _ => .pure trivial

theorem keeps_program (op : NetOp) : (every f).Keeps op.program (fun _ _ => True) s := by
  have drop : ∀ {α : Type} {p : NetM α}, (every f).Tries p (fun _ _ => True) s →
      (every f).Keeps (do let _ ← p.run) (fun _ _ => True) s := fun h =>
    .bind h fun _ _ _ _ => .pure trivial
  cases op with
  | create mcastGroup params => exact drop tries_createNetwork
  | apply ref dryRun =>
    exact drop (.bind (tries_neutral (neutral_call (.resolve ref) trivial))
      fun _ _ _ _ => tries_any _ tries_ensure)
  | applyAll dryRun => exact drop tries_reconcile
  | update ref params =>
    refine drop (.bind (tries_underLock tolerates_looks (fun _ _ => tries_redefineNetwork)
      fun _ _ _ _ _ => trivial) fun n t _ _ => ?_)
    refine .bind (tries_ask (tries_any _ tries_ensure)) fun r u _ _ => ?_
    cases r with
    | ok n => exact .pure trivial
    | error e => exact tries_refuse
  | destroy ref => exact drop tries_destroyNetwork

end Separation

/-- Between the operations anything may happen to the host, a reboot included; the store is maco's. -/
def StoreKept (s t : NetState) : Prop := t.manifests = s.manifests

/-- Whatever the network operations do on a host, in any order and with any failures, and whatever
happens to the host between them, stored networks that own bridges own different ones. -/
theorem networks_separate {f : Formats} {host : Host} {t : NetState}
    (h : History (NetState.perform f) NetOp.program Unclaimed StoreKept { host } t)
    {id id' : String} {n m : NetworkManifest} (hn : t.manifests.get id = some n)
    (hm : t.manifests.get id' = some m) (hne : id ≠ id') (hon : OwnsBridge n)
    (hom : OwnsBridge m) : n.device ≠ m.device := by
  have start : NetState.Separate { host } :=
    ⟨fun id n hn => by simp at hn, fun id n hn => by simp at hn⟩
  have hsep : t.Separate := (Separation.every f).invariant start
    (fun op s => Separation.keeps_program op) (fun _ _ hs hst => hs.of_manifests hst) h
  obtain rfl := hsep.named id n hn
  exact (hsep.apart n.id n hn id' m hm hne.symm hon hom).symm

section Lab

/-- The choices of a run that creates a network with a bridge of its own. -/
def bridgeCreated (id device : String) : List NetChoice :=
  [.ok, .name id, .ok, .ok, .ok, .name device, .ok, .ok, .ok, .ok, .ok]

def labNetwork (name : String) : NetOp := .create (fun _ => "") { name }

def ownBridge (id name device : String) : NetworkManifest :=
  { id, name, mode := .bridge, device, owned := true }

def oneNetwork : NetState where
  host := [("bridge1", { made := true, bridge := true })]
  manifests := [("a", ownBridge "a" "A" "bridge1")]
  issued := ["a"]

def twoNetworks : NetState where
  host := [("bridge2", { made := true, bridge := true }),
    ("bridge1", { made := true, bridge := true })]
  manifests := [("b", ownBridge "b" "B" "bridge2"), ("a", ownBridge "a" "A" "bridge1")]
  issued := ["b", "a"]

theorem first_created : (labNetwork "A").program.run (NetState.perform anyFormats)
    (bridgeCreated "a" "bridge1") {} = some ((), oneNetwork) := rfl

theorem second_created : (labNetwork "B").program.run (NetState.perform anyFormats)
    (bridgeCreated "b" "bridge2") oneNetwork = some ((), twoNetworks) := rfl

/-- Two networks are created, each with a bridge of its own. -/
theorem networks_separate_two :
    History (NetState.perform anyFormats) NetOp.program Unclaimed StoreKept {} twoNetworks ∧
      "bridge1" ≠ "bridge2" := by
  have h : History (NetState.perform anyFormats) NetOp.program Unclaimed StoreKept {}
      twoNetworks := by
    refine .op _ (.op _ .start (Prog.reaches_of_run first_created ?_))
      (Prog.reaches_of_run second_created ?_)
    · refine ⟨trivial, trivial, trivial, trivial, trivial, fun id k hk hne _ => ?_, trivial,
        trivial, trivial, trivial, trivial, trivial⟩
      replace hne : id ≠ "a" := hne
      have hk : (Table.put [] "a" _).get id = some k := hk
      rw [Table.get_put, if_neg hne] at hk
      contradiction
    · refine ⟨trivial, trivial, trivial, trivial, trivial, fun id k hk hne _ => ?_, trivial,
        trivial, trivial, trivial, trivial, trivial⟩
      replace hne : id ≠ "b" := hne
      have hk : (oneNetwork.manifests.put "b" _).get id = some k := hk
      rw [Table.get_put, if_neg hne] at hk
      have ha : id = "a" := by
        by_contra ha
        have hnone := (Table.get_eq_none oneNetwork.manifests id).mpr (by simpa [oneNetwork])
        rw [hnone] at hk
        contradiction
      subst ha
      cases hk
      decide
  have hn : twoNetworks.manifests.get "a" = some (ownBridge "a" "A" "bridge1") := rfl
  have hm : twoNetworks.manifests.get "b" = some (ownBridge "b" "B" "bridge2") := rfl
  have hne := networks_separate h hn hm (by decide) ⟨rfl, rfl⟩ ⟨rfl, rfl⟩
  exact ⟨h, hne⟩

/-- The choices of a run that applies a network whose bridge is gone. -/
def bridgeCreatedAgain (device : String) : List NetChoice :=
  [.ok, .ok, .ok, .ok, .ok, .name device, .ok, .ok, .ok, .ok, .ok]

/-- The choices of a run that applies a network whose bridge is there. -/
def bridgeKept : List NetChoice := [.ok, .ok, .ok, .ok, .ok, .ok, .ok, .ok, .ok, .ok]

/-- After a reboot the second network gets the bridge name of the first one, and the first one then
finds its bridge there. -/
theorem bridge_given_twice : ∃ t u,
    Prog.run (NetState.perform anyFormats) (applyNetwork "b" false).run
      (bridgeCreatedAgain "bridge1") twoNetworks.reboot =
        some (.ok (ownBridge "b" "B" "bridge1"), t) ∧
    Prog.run (NetState.perform anyFormats) (applyNetwork "a" false).run bridgeKept t =
      some (.ok (ownBridge "a" "A" "bridge1"), u) ∧
    u.manifests.get "a" = some (ownBridge "a" "A" "bridge1") ∧
    u.manifests.get "b" = some (ownBridge "b" "B" "bridge1") :=
  ⟨_, _, rfl, rfl, rfl, rfl⟩

/-- Two networks that are applied after a reboot need not have different bridges. -/
theorem networks_not_separate :
    ¬ ∀ (f : Formats) (s t u : NetState) (n m : NetworkManifest) (cs cs' : List NetChoice),
      History (NetState.perform f) NetOp.program (fun _ _ _ => True) (fun _ _ => False) {} s →
      Prog.run (NetState.perform f) (applyNetwork m.id false).run cs s.reboot = some (.ok m, t) →
      Prog.run (NetState.perform f) (applyNetwork n.id false).run cs' t = some (.ok n, u) →
      n.id ≠ m.id → u.manifests.get n.id = some n → u.manifests.get m.id = some m →
      OwnsBridge n → OwnsBridge m → n.device ≠ m.device := by
  intro h
  obtain ⟨t, u, hb, ha, hn, hm⟩ := bridge_given_twice
  have hs : History (NetState.perform anyFormats) NetOp.program (fun _ _ _ => True)
      (fun _ _ => False) {} twoNetworks :=
    .op _ (.op _ .start (Prog.reaches_of_run first_created (Prog.follows_true _ _ _)))
      (Prog.reaches_of_run second_created (Prog.follows_true _ _ _))
  exact h anyFormats twoNetworks t u (ownBridge "a" "A" "bridge1") (ownBridge "b" "B" "bridge1")
    _ _ hs hb ha (by decide) hn hm ⟨rfl, rfl⟩ ⟨rfl, rfl⟩ rfl

end Lab

end Maco.Engine
