import Maco.Network.Honest
import Maco.Network.Settled
import Maco.Network.Shared

/-! A bridge network that `Ensure` has applied is settled.  What its steps do to the host is kept as
two relations: an interface lasts if it stays what it was, and the bridges shed members if none has
a new one. -/

namespace Maco.Network

open Concurrent

/-! ### The host -/

/-- The interface is still there, a bridge if it was one and with the VLAN that it had. -/
def Lasts (h h' : Host) (x : String) : Prop :=
  ∀ i, h.get x = some i → ∃ j, h'.get x = some j ∧ (i.bridge = true → j.bridge = true) ∧
    ∀ v, i.vlan = some v → j.vlan = some v

/-- The member is on the bridge. -/
def Host.Carries (h : Host) (bridge member : String) : Prop :=
  h.test bridge (·.hasMember member) = true

/-- No bridge has a new member. -/
def Sheds (h h' : Host) : Prop := ∀ bridge member, h'.Carries bridge member → h.Carries bridge member

/-- All interfaces last, and no bridge has a new member. -/
structure Grows (h h' : Host) : Prop where
  lasts : ∀ x, Lasts h h' x
  sheds : Sheds h h'

section Relations

variable {h h' h'' : Host} {d m x : String}

theorem Lasts.refl (h : Host) (x : String) : Lasts h h x := fun i hi =>
  ⟨i, hi, id, fun _ => id⟩

theorem Lasts.trans (h1 : Lasts h h' x) (h2 : Lasts h' h'' x) : Lasts h h'' x := by
  intro i hi
  obtain ⟨j, hj, hbridge, hvlan⟩ := h1 i hi
  obtain ⟨k, hk, hbridge', hvlan'⟩ := h2 j hj
  exact ⟨k, hk, fun hb => hbridge' (hbridge hb), fun v hv => hvlan' v (hvlan v hv)⟩

theorem Lasts.isSome (hl : Lasts h h' x) (hx : (h.get x).isSome = true) :
    (h'.get x).isSome = true := by
  obtain ⟨i, hi⟩ := Option.isSome_iff_exists.mp hx
  obtain ⟨j, hj, -⟩ := hl i hi
  rw [hj]
  rfl

theorem Lasts.bridge (hl : Lasts h h' x) (hx : h.test x (·.bridge) = true) :
    h'.test x (·.bridge) = true := by
  obtain ⟨i, hi⟩ := Option.isSome_iff_exists.mp (test_isSome hx)
  obtain ⟨j, hj, hbridge, -⟩ := hl i hi
  rw [Host.test, hi] at hx
  rw [Host.test, hj]
  exact hbridge hx

theorem Lasts.hasVLAN {parent : String} {tag : Int} (hl : Lasts h h' x)
    (hx : h.HasVLAN x parent tag) : h'.HasVLAN x parent tag := by
  obtain ⟨i, hi, hvlan⟩ := hx
  obtain ⟨j, hj, -, hkept⟩ := hl i hi
  exact ⟨j, hj, hkept _ hvlan⟩

/-- An interface that was not there has nothing to keep. -/
theorem Lasts.of_none (hx : h.get x = none) : Lasts h h' x := by
  intro i hi
  rw [hx] at hi
  cases hi

theorem Sheds.trans (h1 : Sheds h h') (h2 : Sheds h' h'') : Sheds h h'' :=
  fun b m hm => h1 b m (h2 b m hm)

theorem Grows.refl (h : Host) : Grows h h := ⟨Lasts.refl h, fun _ _ => id⟩

theorem Grows.trans (h1 : Grows h h') (h2 : Grows h' h'') : Grows h h'' :=
  ⟨fun x => (h1.lasts x).trans (h2.lasts x), h1.sheds.trans h2.sheds⟩

theorem carries_iff : h.Carries d m ↔ ∃ i, h.get d = some i ∧ m ∈ i.members.map (·.1) := by
  unfold Host.Carries Host.test Interface.hasMember
  cases h.get d with
  | none => simp
  | some i => simp

theorem carries_congr (hget : (h'.get d).map (·.members) = (h.get d).map (·.members)) :
    h'.Carries d m ↔ h.Carries d m := by
  rw [carries_iff, carries_iff]
  constructor
  · rintro ⟨j, hj, hm⟩
    rw [hj] at hget
    obtain ⟨i, hi, hmembers⟩ := Option.map_eq_some_iff.mp hget.symm
    exact ⟨i, hi, hmembers ▸ hm⟩
  · rintro ⟨i, hi, hm⟩
    rw [hi] at hget
    obtain ⟨j, hj, hmembers⟩ := Option.map_eq_some_iff.mp hget
    exact ⟨j, hj, hmembers ▸ hm⟩

/-! ### What the calls make of it -/

theorem grows_put {i : Interface} (hfree : h.get d = none) (hmembers : i.members = []) :
    Grows h (h.put d i) := by
  refine ⟨fun x => ?_, fun b m hm => ?_⟩
  · by_cases hx : x = d
    · subst hx
      exact .of_none hfree
    · intro j hj
      exact ⟨j, by rwa [Table.get_put, if_neg hx], id, fun _ => id⟩
  · by_cases hb : b = d
    · subst hb
      obtain ⟨j, hj, hm⟩ := carries_iff.mp hm
      rw [Table.get_put, if_pos rfl] at hj
      cases hj
      rw [hmembers] at hm
      cases hm
    · exact (carries_congr (by rw [Table.get_put, if_neg hb])).mp hm

theorem get_update {s : NetState} {change : Interface → Interface} :
    (s.update d change).host.get x = if x = d then (s.host.get d).map change else s.host.get x := by
  unfold NetState.update
  split
  · rename_i i hi
    rw [hi]
    exact Table.get_put ..
  · rename_i hnone
    split
    · rename_i hx
      rw [hx, hnone]
      rfl
    · rfl

theorem lasts_update {s : NetState} {change : Interface → Interface}
    (hchange : ∀ i, s.host.get d = some i → (i.bridge = true → (change i).bridge = true) ∧
      ∀ v, i.vlan = some v → (change i).vlan = some v) :
    Lasts s.host (s.update d change).host x := by
  intro i hi
  rw [get_update]
  split
  · rename_i hx
    subst hx
    exact ⟨change i, by rw [hi]; rfl, hchange i hi⟩
  · exact ⟨i, hi, id, fun _ => id⟩

theorem carries_update {s : NetState} {change : Interface → Interface}
    (hchange : ∀ i, (change i).members = i.members) {b : String} :
    (s.update d change).host.Carries b m ↔ s.host.Carries b m := by
  refine carries_congr ?_
  rw [get_update]
  split
  · rename_i hb
    subst hb
    cases s.host.get b with
    | none => rfl
    | some i => simp [hchange]
  · rfl

theorem detached_eq {s : NetState} : s.host.detached d m =
    (s.update d fun i => { i with members := i.members.filter (·.1 ≠ m) }).host := by
  unfold Host.detached NetState.update
  split
  · rfl
  · rfl

theorem unaddressed_eq {s : NetState} : s.host.unaddressed d m =
    (s.update d fun i => { i with addresses := i.addresses.filter (·.1 ≠ m) }).host := by
  unfold Host.unaddressed NetState.update
  split
  · rfl
  · rfl

/-- A member that is taken off a bridge is off it, and all others stay. -/
theorem carries_detached {s : NetState} {b y : String} :
    (s.host.detached d m).Carries b y ↔ s.host.Carries b y ∧ ¬ (b = d ∧ y = m) := by
  rw [detached_eq, carries_iff, carries_iff]
  simp only [get_update]
  split
  · rename_i hb
    subst hb
    cases s.host.get b with
    | none => simp
    | some i =>
      simp only [Option.map_some, Option.some.injEq, exists_eq_left', List.mem_map, List.mem_filter,
        decide_eq_true_eq, true_and]
      constructor
      · rintro ⟨e, ⟨he, hne⟩, rfl⟩
        exact ⟨⟨e, he, rfl⟩, hne⟩
      · rintro ⟨⟨e, he, rfl⟩, hne⟩
        exact ⟨e, ⟨he, hne⟩, rfl⟩
  · rename_i hb
    simp [hb]

theorem grows_detached {s : NetState} : Grows s.host (s.host.detached d m) := by
  refine ⟨fun x => ?_, fun b y hy => (carries_detached.mp hy).1⟩
  rw [detached_eq]
  exact lasts_update fun i _ => ⟨id, fun _ => id⟩

theorem lasts_destroyed (hx : x ≠ d) : Lasts h (h.destroyed d) x := by
  intro i hi
  rw [get_destroyed, if_neg hx, hi]
  exact ⟨_, rfl, id, fun _ => id⟩

theorem carries_destroyed {b : String} :
    (h.destroyed d).Carries b m ↔ h.Carries b m ∧ b ≠ d ∧ m ≠ d := by
  rw [carries_iff, carries_iff]
  simp only [get_destroyed]
  split
  · rename_i hb
    simp [hb]
  · rename_i hb
    cases h.get b with
    | none => simp
    | some i =>
      simp only [Option.map_some, Option.some.injEq, exists_eq_left', List.mem_map, List.mem_filter,
        decide_eq_true_eq]
      constructor
      · rintro ⟨e, ⟨he, hne⟩, rfl⟩
        exact ⟨⟨e, he, rfl⟩, hb, hne⟩
      · rintro ⟨⟨e, he, rfl⟩, -, hne⟩
        exact ⟨e, ⟨he, hne⟩, rfl⟩

end Relations

/-! ### Calls -/

/-- The questions that are answered with yes or no are answered truthfully, and an address that is
set is not found to be there. -/
def Truthful : NetCall → NetChoice → NetState → Prop
  | .interfaceExists _, c, _ | .isBridge _, c, _ | .hasAddress _ _, c, _ => c = .ok
  | .setAddress _ _, c, _ => c ≠ .fileExists
  | _, _, _ => True

/-- The program runs alone, and is answered truthfully. -/
abbrev truthfully (f : Formats) : Setting NetCall NetCall.Reply NetChoice NetState :=
  Setting.alone (NetState.perform f) Truthful

section Calls

variable {f : Formats} {s : NetState} {α β : Type}

theorem wp_netCall {a : NetCall} {Q : a.Reply → NetState → Prop}
    (h : ∀ c r t, Truthful a c s → NetState.perform f a c s = some (r, t) → Q r t) :
    wp (truthfully f) (netCall a) Q s := wp_alone_call h

theorem wp_whatever (p : Net α) : wp (truthfully f) p (fun _ _ => True) s :=
  wp_of_calls (I := fun _ => True) (Prog.Calls.any p) trivial (fun _ _ _ _ => trivial)
    fun _ _ _ _ _ _ _ _ _ => ⟨trivial, trivial⟩

theorem wpOk_then {p : NetM α} {k : α → NetM β} {Q : β → NetState → Prop}
    (h : wpOk (truthfully f) p (fun x t => wpOk (truthfully f) (k x) Q t) s) :
    wpOk (truthfully f) (p >>= k) Q s := wpOk_bind h fun _ _ hx => hx

theorem wpOk_refused {e : Message} {Q : α → NetState → Prop} :
    wpOk (truthfully f) (refuse e) Q s := wpOk_fail

theorem wpOk_ask {p : Net α} {Q : α → NetState → Prop} (h : wp (truthfully f) p Q s) :
    wpOk (truthfully f) (ask p) Q s := wpOk_lift h

theorem wp_exists {device : String} {Q : Bool → NetState → Prop}
    (h : Q (s.host.get device).isSome s) :
    wp (truthfully f) (netCall (.interfaceExists device)) Q s := by
  refine wp_netCall fun c r t hc hp => ?_
  cases hc
  cases hp
  exact h

theorem wp_existing {device : String} {Q : Bool → NetState → Prop}
    (h : Q (device ≠ "" && (s.host.get device).isSome) s) :
    wp (truthfully f) (existing device) Q s := by
  rw [existing]
  split
  · rename_i hd
    subst hd
    exact h
  · rename_i hd
    refine wp_exists ?_
    rwa [decide_eq_true hd, Bool.true_and] at h

theorem wpOk_requireInterface {what name : String} {Q : Unit → NetState → Prop}
    (h : (s.host.get name).isSome = true → Q () s) :
    wpOk (truthfully f) (requireInterface what name) Q s := by
  refine wpOk_then (wpOk_ask (wp_exists ?_))
  split
  · rename_i hthere
    exact wpOk_pure (h hthere)
  · exact wpOk_refused

theorem wpOk_onlyIf {c : Prop} [Decidable c] {p : NetM Unit} {Q : Unit → NetState → Prop}
    (hyes : c → wpOk (truthfully f) p Q s) (hno : ¬ c → Q () s) :
    wpOk (truthfully f) (onlyIf c p) Q s := by
  unfold onlyIf
  split
  · rename_i hc
    exact hyes hc
  · rename_i hc
    exact wpOk_pure (hno hc)

theorem wpOk_save {n : NetworkManifest} {Q : Unit → NetState → Prop}
    (h : check f n = .ok () → Q () { s with manifests := s.manifests.put n.id n }) :
    wpOk (truthfully f) (attempt (netCall (.save n))) Q s := by
  refine wp_netCall fun c r t _ hp x hx => ?_
  subst hx
  obtain ⟨hable, rfl⟩ | ⟨-, e, he⟩ := NetChoice.write_cases hp
  · exact h (of_decide_eq_true hable)
  · cases he

theorem wpOk_saveOr {n : NetworkManifest} {undo : Net Unit} {Q : Unit → NetState → Prop}
    (h : check f n = .ok () → Q () { s with manifests := s.manifests.put n.id n }) :
    wpOk (truthfully f) (saveOr n undo) Q s := by
  have hsave : wpOk (truthfully f) (attempt (netCall (.save n))) Q s := wpOk_save h
  refine wpOk_then (wpOk_ask (wp_mono hsave fun r t hr => ?_))
  cases r with
  | ok u => exact wpOk_pure (hr u rfl)
  | error e => exact wpOk_then (wpOk_ask (wp_mono (wp_whatever undo) fun _ _ _ => wpOk_refused))

theorem wpOk_up {device : String} {Q : Unit → NetState → Prop} (h : Q () s) :
    wpOk (truthfully f) (attempt (netCall (.up device))) Q s := by
  refine wp_netCall fun c r t _ hp x hx => ?_
  subst hx
  obtain ⟨-, -, rfl⟩ | ⟨-, e, he⟩ := NetChoice.attempt_cases hp
  · exact h
  · cases he

theorem created_name {kind device : String} {i : Interface} {c : NetChoice} {t : NetState}
    (h : s.create kind i c = some (.ok device, t)) : numbered kind device = true := by
  cases c with
  | name d =>
    rw [NetState.create] at h
    split at h
    · rename_i hd
      cases h
      exact (Bool.and_eq_true_iff.mp hd).1
    · cases h
  | ok | fail e | failTook e | fileExists | vms l | running b | references l => cases h

/-! ### The device -/

/-- The bridge of a manifest is on the host, and what was applied to it before the manifest was
changed to `k` is recorded there or not on it. -/
structure Devised (n k : NetworkManifest) (h : Host) : Prop where
  device : bridgeName k.device = true
  bridge : h.test k.device (·.bridge) = true
  members : ∀ m ∈ n.appliedMembers, m ∈ k.appliedMembers ∨ ¬ h.Carries k.device m

theorem wpOk_requireBridge {device : String} {Q : Unit → NetState → Prop}
    (h : s.host.test device (·.bridge) = true → Q () s) :
    wpOk (truthfully f) (requireBridge device) Q s := by
  refine wpOk_then (wpOk_ask (wp_netCall fun c r t hc hp => ?_))
  cases hc
  cases hp
  split
  · rename_i hbridge
    exact wpOk_pure (h (Bool.and_eq_true_iff.mp hbridge).1)
  · exact wpOk_refused

theorem wpOk_ensureDevice {n : NetworkManifest} (hmode : n.mode = .bridge)
    (hchecked : check f n = .ok ()) :
    wpOk (truthfully f) (ensureDevice n) (fun k t =>
      (∃ device owned applied,
        k = { n with device := device, owned := owned, appliedMembers := applied }) ∧
      Grows s.host t.host ∧ Devised n k t.host) s := by
  refine wpOk_then (wpOk_then (wpOk_ask (wp_existing ?_)))
  by_cases hthere : (n.device ≠ "" && (s.host.get n.device).isSome) = true
  · refine wpOk_onlyIf (fun _ => wpOk_requireBridge fun hbridge => ?_) fun hno => absurd hthere hno
    refine wpOk_then (wpOk_ask (wp_existing ?_))
    rw [if_pos hthere]
    refine wpOk_pure ⟨⟨n.device, n.owned, n.appliedMembers, rfl⟩, .refl _, ?_, hbridge,
      fun m hm => .inl hm⟩
    exact check_device hchecked hmode (of_decide_eq_true (Bool.and_eq_true_iff.mp hthere).1)
  · refine wpOk_onlyIf (fun hyes => absurd hyes hthere) fun _ => ?_
    refine wpOk_then (wpOk_ask (wp_existing ?_))
    rw [if_neg hthere]
    split
    · exact wpOk_refused
    · refine wpOk_then (wp_netCall fun c r t _ hp device hr => ?_)
      subst hr
      obtain ⟨d, hd, hfree, rfl⟩ | ⟨-, e, he⟩ := NetState.create_cases hp
      · cases hd
        refine wpOk_then (wpOk_saveOr fun hsaved => wpOk_pure ?_)
        have hget : (s.host.put device { made := true, bridge := true }).get device =
            some { made := true, bridge := true } := by
          rw [Table.get_put, if_pos rfl]
        refine ⟨⟨device, true, [], rfl⟩, grows_put hfree rfl, ?_, ?_, fun m _ => .inr ?_⟩
        · exact created_name hp
        · show Host.test _ device _ = true
          rw [Host.test, hget]
          rfl
        · intro hcarries
          obtain ⟨i, hi, hm⟩ := carries_iff.mp hcarries
          rw [hget] at hi
          cases hi
          cases hm
      · cases he

/-! ### The VLANs -/

theorem grows_configured {device parent : String} {tag : Int} {c : NetChoice} {t : NetState}
    (hp : NetState.perform f (.configureVLAN device parent tag) c s = some (.ok (), t)) :
    Grows s.host t.host ∧ t.host.HasVLAN device parent tag := by
  rw [NetState.perform] at hp
  cases hget : s.host.get device with
  | none =>
    rw [hget] at hp
    obtain ⟨-, h | ⟨e, h⟩⟩ := NetChoice.query_cases hp
    · cases h
    · cases h
  | some i =>
    rw [hget] at hp
    cases hvlan : i.vlan with
    | none =>
      rw [Option.map_some, hvlan] at hp
      obtain ⟨-, rfl⟩ | ⟨-, e, h⟩ := NetChoice.command_cases hp
      · refine ⟨⟨fun x => lasts_update fun j hj => ⟨id, fun v hv => ?_⟩,
          fun b m hm => (carries_update (by intro j; rfl)).mp hm⟩, { i with vlan := some (parent, tag) }, ?_, rfl⟩
        · rw [hget] at hj
          cases hj
          rw [hvlan] at hv
          cases hv
        · rw [get_update, if_pos rfl, hget]
          rfl
      · cases h
    | some vlan =>
      rw [Option.map_some, hvlan] at hp
      obtain ⟨rfl, h | ⟨e, h⟩⟩ := NetChoice.query_cases hp
      · split at h
        · rename_i hsame
          subst hsame
          exact ⟨.refl _, i, hget, hvlan⟩
        · cases h
      · cases h

theorem configureVLAN_failed {device parent : String} {tag : Int} {c : NetChoice} {t : NetState}
    {e : Message}
    (hp : NetState.perform f (.configureVLAN device parent tag) c s = some (.error e, t)) :
    t = s := by
  rw [NetState.perform] at hp
  split at hp
  · exact (NetChoice.query_cases hp).1
  · exact (NetChoice.query_cases hp).1
  · obtain ⟨h, -⟩ | ⟨rfl, -⟩ := NetChoice.command_cases hp
    · cases h
    · rfl

/-- The VLAN that is looked for is on an interface of the host. -/
abbrev Has (parent : String) (tag : Int) (s : NetState) (r : String × Bool) (t : NetState) : Prop :=
  Grows s.host t.host ∧ t.host.HasVLAN r.1 parent tag

theorem wpOk_borrowMatching {device parent : String} {tag : Int} {orElse : NetM (String × Bool)}
    (h : wpOk (truthfully f) orElse (Has parent tag s) s) :
    wpOk (truthfully f) (borrowMatching device parent tag orElse) (Has parent tag s) s := by
  refine wpOk_then (wp_netCall fun c r t _ hp matching hr => ?_)
  obtain ⟨rfl, hfound | ⟨e, he⟩⟩ := NetChoice.query_cases hp
  · rw [hr] at hfound
    cases hfound
    split
    · rename_i hne
      exact wpOk_pure ⟨.refl _, Host.hasVLAN_findVLAN hne.1⟩
    · exact h
  · rw [hr] at he
    cases he

/-- A new interface that is given up again leaves the others as they were. -/
theorem grows_discarded {network device : String} {u : NetState} (hfree : s.host.get device = none)
    (hu : Grows s.host u.host) :
    wp (truthfully f) (discard (.destroy network device)) (fun _ t => Grows s.host t.host) u := by
  refine wp_seq (P := fun _ t => Grows s.host t.host) (wp_netCall fun c r t _ hp => ?_)
    fun _ _ => id
  obtain ⟨-, -, rfl⟩ | ⟨rfl, -⟩ := NetChoice.attempt_cases hp
  · refine ⟨fun x => ?_, fun b m hm => hu.sheds b m (carries_destroyed.mp hm).1⟩
    by_cases hx : x = device
    · rw [hx]
      exact .of_none hfree
    · exact (hu.lasts x).trans (lasts_destroyed hx)
  · exact hu

theorem wpOk_createConfigured {network parent : String} {tag : Int} :
    wpOk (truthfully f) (createConfigured network parent tag) (Has parent tag s) s := by
  refine wpOk_then (wp_netCall fun c r t _ hp device hr => ?_)
  subst hr
  obtain ⟨d, hd, hfree, rfl⟩ | ⟨-, e, he⟩ := NetState.create_cases hp
  · cases hd
    have hput : Grows s.host (s.host.put device { made := true }) := grows_put hfree rfl
    refine wpOk_then (wpOk_ask (wp_netCall fun c r t _ hp => ?_))
    cases r with
    | ok u =>
      obtain ⟨hgrows, hvlan⟩ := grows_configured hp
      exact wpOk_pure ⟨hput.trans hgrows, hvlan⟩
    | error e =>
      obtain rfl := configureVLAN_failed hp
      refine wpOk_then (wpOk_ask (wp_mono (grows_discarded hfree hput) fun _ t ht => ?_))
      exact wpOk_mono (wpOk_borrowMatching wpOk_refused) fun r u hu => ⟨ht.trans hu.1, hu.2⟩
  · cases he

theorem wpOk_resolveVLAN {network device parent : String} {owned : Bool} {tag : Int} :
    wpOk (truthfully f) (resolveVLAN network device owned parent tag) (Has parent tag s) s := by
  refine wpOk_then (wpOk_ask (wp_existing ?_))
  split
  · refine wpOk_then (wpOk_ask (wp_netCall fun c r t _ hp => ?_))
    cases r with
    | ok u => exact wpOk_pure (grows_configured hp)
    | error e =>
      obtain rfl := configureVLAN_failed hp
      exact wpOk_borrowMatching wpOk_refused
  · exact wpOk_borrowMatching wpOk_createConfigured

/-- The VLANs of a manifest once they are applied: each has the interface that is in its place, and
is recorded in place of what was recorded under its key. -/
structure Applied (k : NetworkManifest) (rest applied : List VLAN) (recorded : List VLAN)
    (h : Host) : Prop where
  keys : applied.map (fun v => (v.parent, v.tag)) = rest.map fun v => (v.parent, v.tag)
  vlans : ∀ v ∈ applied, h.HasVLAN v.device v.parent v.tag
  record : recorded = (k.appliedVLANs.filter fun a => !rest.any (VLAN.sameKey a)) ++ applied
  names : ∀ a ∈ recorded, vlanName a.device = true

/-- A VLAN is recorded in place of what was recorded under its key. -/
theorem recorded_cons {old rest : List VLAN} {v a : VLAN} (hparent : a.parent = v.parent)
    (htag : a.tag = v.tag) (hrest : ∀ w ∈ rest, VLAN.sameKey v w = false) :
    ((old.filter fun b => !VLAN.sameKey b a) ++ [a]).filter (fun b => !rest.any (VLAN.sameKey b)) =
      (old.filter fun b => !(v :: rest).any (VLAN.sameKey b)) ++ [a] := by
  have hsame : ∀ b, VLAN.sameKey b a = VLAN.sameKey b v := fun b => by
    rw [VLAN.sameKey, VLAN.sameKey, hparent, htag]
  have hkept : rest.any (VLAN.sameKey a) = false := by
    refine List.any_eq_false.mpr fun w hw hkey => ?_
    have hother := hrest w hw
    rw [VLAN.sameKey] at hkey hother
    rw [hparent, htag, hother] at hkey
    cases hkey
  rw [List.filter_append, List.filter_filter, List.filter_cons, hkept]
  congr 1
  refine List.filter_congr fun b _ => ?_
  rw [hsame, List.any_cons, Bool.not_or, Bool.and_comm]

theorem wpOk_ensureVLANs {done rest : List VLAN} {desired : List String} {k : NetworkManifest}
    (hvlans : k.vlans = done ++ rest) (hnames : ∀ a ∈ k.appliedVLANs, vlanName a.device = true)
    (hkeys : rest.Pairwise fun v w => VLAN.sameKey v w = false) :
    wpOk (truthfully f) (ensureVLANs done rest desired k) (fun r t =>
      ∃ applied recorded,
        r = ({ k with vlans := done ++ applied, appliedVLANs := recorded },
          desired ++ applied.map (·.device)) ∧
        Grows s.host t.host ∧ Applied k rest applied recorded t.host) s := by
  induction rest generalizing done desired k s with
  | nil =>
    refine wpOk_pure ⟨[], k.appliedVLANs, ?_, .refl _, rfl, nofun, by simp, hnames⟩
    rw [← hvlans, List.map_nil, List.append_nil]
  | cons v rest ih =>
    rw [List.pairwise_cons] at hkeys
    have hkey := lastApplied_key k.appliedVLANs v
    refine wpOk_then (wpOk_requireInterface fun _ => ?_)
    refine wpOk_bind wpOk_resolveVLAN fun (device, owned) t ht => ?_
    refine wpOk_then (wpOk_saveOr fun hsaved => ?_)
    refine wpOk_then (wpOk_up ?_)
    refine wpOk_mono (ih (by rw [List.append_assoc]; rfl) (check_iff.mp hsaved).2.2.2.1 hkeys.2) ?_
    rintro r u ⟨applied, recorded, rfl, hgrows, happlied⟩
    refine ⟨_ :: applied, recorded, by rw [List.append_assoc, List.append_assoc]; rfl,
      ht.1.trans hgrows, ?_, ?_, ?_, happlied.names⟩
    · rw [List.map_cons, List.map_cons, happlied.keys]
      dsimp only
      rw [hkey.1, hkey.2]
    · intro a ha
      obtain rfl | ha := List.mem_cons.mp ha
      · exact (hgrows.lasts _).hasVLAN ht.2
      · exact happlied.vlans a ha
    · rw [happlied.record]
      refine (congrArg (· ++ applied) (recorded_cons ?_ ?_ hkeys.1)).trans ?_
      · exact hkey.1
      · exact hkey.2
      · rw [List.append_assoc]
        rfl

/-! ### The members -/

theorem wpOk_bridgeMembers {bridge : String} {Q : List String → NetState → Prop}
    (h : ∀ members, (∀ m, s.host.Carries bridge m ↔ m ∈ members) → Q members s) :
    wpOk (truthfully f) (attempt (netCall (.bridgeMembers bridge))) Q s := by
  refine wp_netCall fun c r t _ hp members hr => ?_
  subst hr
  rw [NetState.perform] at hp
  cases hget : s.host.get bridge with
  | none =>
    rw [hget] at hp
    obtain ⟨-, he | ⟨e, he⟩⟩ := NetChoice.query_cases hp
    · cases he
    · cases he
  | some i =>
    rw [hget] at hp
    obtain ⟨rfl, he | ⟨e, he⟩⟩ := NetChoice.query_cases hp
    · cases he
      exact h _ fun m => by simp [carries_iff, hget]
    · cases he

theorem wpOk_removeMember {bridge member : String} {Q : Unit → NetState → Prop}
    (h : ∀ t, t.host = s.host.detached bridge member → Q () t) :
    wpOk (truthfully f) (attempt (netCall (.removeMember bridge member))) Q s := by
  refine wp_netCall fun c r t _ hp x hx => ?_
  subst hx
  obtain ⟨-, -, rfl⟩ | ⟨-, e, he⟩ := NetChoice.attempt_cases hp
  · exact h _ rfl
  · cases he

/-- Of the members `olds` only the wanted ones are left on the bridge. -/
structure Detached (desired olds : List String) (bridge : String) (h h' : Host) : Prop where
  grows : Grows h h'
  wanted : ∀ m ∈ desired, h.Carries bridge m → h'.Carries bridge m
  gone : ∀ m ∈ olds, m ∉ desired → ¬ h'.Carries bridge m

theorem wpOk_detachOld {desired members olds : List String} {k : NetworkManifest}
    (hmembers : ∀ m, s.host.Carries k.device m → m ∈ members) :
    wpOk (truthfully f) (detachOld desired members olds k) (fun r t =>
      ∃ kept, r = { k with appliedMembers := kept } ∧
        (∀ m ∈ kept, m ∈ k.appliedMembers ∧ (m ∈ olds → m ∈ desired)) ∧
        Detached desired olds k.device s.host t.host) s := by
  induction olds generalizing k s with
  | nil =>
    exact wpOk_pure ⟨k.appliedMembers, rfl, fun m hm => ⟨hm, nofun⟩, .refl _, fun _ _ => id, nofun⟩
  | cons old olds ih =>
    rw [detachOld]
    split
    · rename_i hold
      refine wpOk_mono (ih hmembers) ?_
      rintro r t ⟨kept, rfl, hkept, hd⟩
      refine ⟨kept, rfl, fun m hm => ⟨(hkept m hm).1, fun hmem => ?_⟩, hd.grows, hd.wanted,
        fun m hm hnot => ?_⟩
      · obtain rfl | hmem := List.mem_cons.mp hmem
        · exact hold
        · exact (hkept m hm).2 hmem
      · obtain rfl | hm := List.mem_cons.mp hm
        · exact absurd hold hnot
        · exact hd.gone m hm hnot
    · rename_i hold
      have hstep : wpOk (truthfully f)
          (onlyIf (old ∈ members) (attempt (netCall (.removeMember k.device old))))
          (fun _ t => Detached desired [old] k.device s.host t.host) s := by
        refine wpOk_onlyIf (fun _ => wpOk_removeMember fun t ht => ?_) fun hnot => ?_
        · rw [ht]
          refine ⟨grows_detached, fun m hm hc => carries_detached.mpr ⟨hc, fun h => ?_⟩,
            fun m hm _ hc => (carries_detached.mp hc).2 ⟨rfl, List.mem_singleton.mp hm⟩⟩
          exact hold (h.2 ▸ hm)
        · refine ⟨.refl _, fun _ _ => id, fun m hm _ hc => hnot ?_⟩
          rw [← List.mem_singleton.mp hm]
          exact hmembers m hc
      refine wpOk_bind hstep fun _ t ht => ?_
      refine wpOk_mono (ih fun m hm => hmembers m (ht.grows.sheds _ _ hm)) ?_
      rintro r u ⟨kept, rfl, hkept, hd⟩
      refine ⟨kept, rfl, fun m hm => ?_, ht.grows.trans hd.grows,
        fun m hm hc => hd.wanted m hm (ht.wanted m hm hc), fun m hm hnot => ?_⟩
      · obtain ⟨hmem, hwanted⟩ := hkept m hm
        obtain ⟨hmem, hne⟩ := List.mem_filter.mp hmem
        refine ⟨hmem, fun hcons => ?_⟩
        obtain rfl | hcons := List.mem_cons.mp hcons
        · exact absurd rfl (of_decide_eq_true hne)
        · exact hwanted hcons
      · obtain rfl | hm := List.mem_cons.mp hm
        · exact fun hc => ht.gone m List.mem_cons_self hnot (hd.grows.sheds _ _ hc)
        · exact hd.gone m hm hnot

/-- The wanted members are on the bridge, beside those that were on it before. -/
structure Attached (desired : List String) (bridge : String) (h h' : Host) : Prop where
  lasts : ∀ x, Lasts h h' x
  before : ∀ b m, h.Carries b m → h'.Carries b m
  wanted : ∀ m ∈ desired, h'.Carries bridge m
  only : ∀ m, h'.Carries bridge m → h.Carries bridge m ∨ m ∈ desired

theorem carries_added {bridge member : String} (hbridge : s.host.test bridge (·.bridge) = true)
    {b m : String} :
    (s.update bridge fun i => { i with members := i.members ++ [(member, true)] }).host.Carries b m ↔
      s.host.Carries b m ∨ b = bridge ∧ m = member := by
  rw [carries_iff, carries_iff]
  simp only [get_update]
  split
  · rename_i hb
    subst hb
    obtain ⟨i, hi⟩ := Option.isSome_iff_exists.mp (test_isSome hbridge)
    simp [hi, or_assoc]
  · rename_i hb
    simp [hb]

theorem wpOk_attachMember {members : List String} {member : String} {k : NetworkManifest}
    (hmembers : member ∈ members → s.host.Carries k.device member) :
    wpOk (truthfully f) (attachMember members member k) (fun r t =>
      ∃ applied, r = { k with appliedMembers := applied } ∧
        (∀ m ∈ applied, m ∈ k.appliedMembers ∨ m = member) ∧
        Attached [member] k.device s.host t.host) s := by
  rw [attachMember]
  split
  · rename_i hmem
    refine wpOk_pure ⟨k.appliedMembers, rfl, fun m => .inl, Lasts.refl _, fun _ _ => id, fun m hm => ?_,
      fun m => .inl⟩
    rw [List.mem_singleton.mp hm]
    exact hmembers hmem
  · have hadd : wpOk (truthfully f) (attempt (netCall (.addMember k.device member)))
        (fun _ t => Attached [member] k.device s.host t.host) s := by
      refine wp_netCall fun c r t _ hp x hx => ?_
      subst hx
      obtain ⟨hable, -, rfl⟩ | ⟨-, e, he⟩ := NetChoice.attempt_cases hp
      · rw [Bool.and_eq_true, Bool.and_eq_true] at hable
        refine ⟨fun x => lasts_update fun _ _ => ⟨id, fun _ => id⟩,
          fun b m hc => (carries_added hable.1.1).mpr (.inl hc),
          fun m hm => (carries_added hable.1.1).mpr (.inr ⟨rfl, List.mem_singleton.mp hm⟩),
          fun m hc => ((carries_added hable.1.1).mp hc).imp_right fun h => ?_⟩
        exact List.mem_singleton.mpr h.2
      · cases he
    refine wpOk_bind hadd fun _ t ht => ?_
    split
    · exact wpOk_pure ⟨k.appliedMembers, rfl, fun m => .inl, ht⟩
    · refine wpOk_then (wpOk_saveOr fun _ => wpOk_pure ⟨_, rfl, fun m hm => ?_, ht⟩)
      exact (List.mem_append.mp hm).imp_right List.mem_singleton.mp

theorem wpOk_attachDesired {members desired : List String} {k : NetworkManifest}
    (hmembers : ∀ m ∈ desired, m ∈ members → s.host.Carries k.device m) :
    wpOk (truthfully f) (attachDesired members desired k) (fun r t =>
      ∃ applied, r = { k with appliedMembers := applied } ∧
        (∀ m ∈ applied, m ∈ k.appliedMembers ∨ m ∈ desired) ∧
        Attached desired k.device s.host t.host) s := by
  induction desired generalizing k s with
  | nil =>
    exact wpOk_pure ⟨k.appliedMembers, rfl, fun m => .inl, Lasts.refl _, fun _ _ => id, nofun,
      fun m => .inl⟩
  | cons member desired ih =>
    refine wpOk_then (wpOk_requireInterface fun _ => ?_)
    refine wpOk_bind (wpOk_attachMember (hmembers member List.mem_cons_self)) ?_
    rintro r t ⟨applied, rfl, happlied, ht⟩
    refine wpOk_then (wpOk_up ?_)
    refine wpOk_mono (ih fun m hm hmem =>
      ht.before _ _ (hmembers m (List.mem_cons_of_mem _ hm) hmem)) ?_
    rintro r u ⟨recorded, rfl, hrecorded, hu⟩
    refine ⟨recorded, rfl, fun m hm => ?_, fun x => (ht.lasts x).trans (hu.lasts x),
      fun b m hc => hu.before b m (ht.before b m hc), fun m hm => ?_, fun m hc => ?_⟩
    · obtain hm | hm := hrecorded m hm
      · obtain hm | rfl := happlied m hm
        · exact .inl hm
        · exact .inr List.mem_cons_self
      · exact .inr (List.mem_cons_of_mem _ hm)
    · obtain rfl | hm := List.mem_cons.mp hm
      · exact hu.before _ _ (ht.wanted m List.mem_cons_self)
      · exact hu.wanted m hm
    · obtain hc | hm := hu.only m hc
      · exact (ht.only m hc).imp_right fun hm => List.mem_cons.mpr (.inl (List.mem_singleton.mp hm))
      · exact .inr (List.mem_cons_of_mem _ hm)

/-! ### VLANs that are no longer wanted -/

/-- The VLAN is no longer wanted, so that its interface goes. -/
def Unwanted (desired : List String) (olds : List VLAN) (device : String) : Prop :=
  ∃ a ∈ olds, a.device ∉ desired ∧ a.device = device

/-- The interfaces of the VLANs that are no longer wanted may be gone, and those that were created
for them are; nothing else has changed. -/
structure Dropped (desired : List String) (olds : List VLAN) (h h' : Host) : Prop where
  lasts : ∀ x, ¬ Unwanted desired olds x → Lasts h h' x
  absent : ∀ x, h.get x = none → h'.get x = none
  sheds : Sheds h h'
  carries : ∀ b m, ¬ Unwanted desired olds b → ¬ Unwanted desired olds m → h.Carries b m →
    h'.Carries b m
  gone : ∀ a ∈ olds, a.device ∉ desired → a.borrowed = false → h'.get a.device = none

theorem Dropped.refl_cons {desired : List String} {a : VLAN} {olds : List VLAN} {h h' : Host}
    (hd : Dropped desired olds h h')
    (ha : a.device ∉ desired → a.borrowed = false → h.get a.device = none) :
    Dropped desired (a :: olds) h h' where
  lasts x hx := hd.lasts x fun ⟨b, hb, hnot, heq⟩ => hx ⟨b, List.mem_cons_of_mem _ hb, hnot, heq⟩
  absent := hd.absent
  sheds := hd.sheds
  carries b m hb hm := hd.carries b m
    (fun ⟨v, hv, hnot, heq⟩ => hb ⟨v, List.mem_cons_of_mem _ hv, hnot, heq⟩)
    fun ⟨v, hv, hnot, heq⟩ => hm ⟨v, List.mem_cons_of_mem _ hv, hnot, heq⟩
  gone v hv hnot hborrowed := by
    obtain rfl | hv := List.mem_cons.mp hv
    · exact hd.absent _ (ha hnot hborrowed)
    · exact hd.gone v hv hnot hborrowed

theorem Dropped.destroyed_cons {desired : List String} {a : VLAN} {olds : List VLAN} {h h' : Host}
    (hd : Dropped desired olds (h.destroyed a.device) h') (ha : a.device ∉ desired) :
    Dropped desired (a :: olds) h h' where
  lasts x hx := (lasts_destroyed fun heq => hx ⟨a, List.mem_cons_self, ha, heq.symm⟩).trans
    (hd.lasts x fun ⟨v, hv, hnot, heq⟩ => hx ⟨v, List.mem_cons_of_mem _ hv, hnot, heq⟩)
  absent x hx := hd.absent x (by rw [get_destroyed, hx]; split <;> rfl)
  sheds b m hm := (carries_destroyed.mp (hd.sheds b m hm)).1
  carries b m hb hm hc := hd.carries b m
    (fun ⟨v, hv, hnot, heq⟩ => hb ⟨v, List.mem_cons_of_mem _ hv, hnot, heq⟩)
    (fun ⟨v, hv, hnot, heq⟩ => hm ⟨v, List.mem_cons_of_mem _ hv, hnot, heq⟩)
    (carries_destroyed.mpr ⟨hc, fun heq => hb ⟨a, List.mem_cons_self, ha, heq.symm⟩,
      fun heq => hm ⟨a, List.mem_cons_self, ha, heq.symm⟩⟩)
  gone v hv hnot hborrowed := by
    obtain rfl | hv := List.mem_cons.mp hv
    · exact hd.absent _ (by rw [get_destroyed, if_pos rfl])
    · exact hd.gone v hv hnot hborrowed

theorem wpOk_destroyVLAN {network : String} {v : VLAN} {Q : Unit → NetState → Prop}
    (hkept : (v.borrowed = false → s.host.get v.device = none) → Q () s)
    (hgone : ∀ t, t.host = s.host.destroyed v.device → Q () t) :
    wpOk (truthfully f) (destroyVLAN network v) Q s := by
  refine wpOk_onlyIf (fun hborrowed => ?_) fun hno => hkept fun h => absurd h hno
  refine wpOk_then (wpOk_ask (wp_exists ?_))
  refine wpOk_onlyIf (fun _ => ?_) fun hno => hkept fun _ => Option.not_isSome_iff_eq_none.mp hno
  refine wp_netCall fun c r t _ hp x hx => ?_
  subst hx
  obtain ⟨-, -, rfl⟩ | ⟨-, e, he⟩ := NetChoice.attempt_cases hp
  · exact hgone _ rfl
  · cases he

theorem wpOk_dropVLANs {desired : List String} {olds : List VLAN} {k : NetworkManifest} :
    wpOk (truthfully f) (dropVLANs desired olds k) (fun r t =>
      ∃ kept : VLAN → Bool, r = { k with appliedVLANs := k.appliedVLANs.filter kept } ∧
        (∀ a, a.device ∈ desired → kept a = true) ∧
        (∀ a ∈ olds, a.device ∉ desired → kept a = false) ∧
        Dropped desired olds s.host t.host) s := by
  induction olds generalizing k s with
  | nil =>
    refine wpOk_pure ⟨fun _ => true, ?_, fun _ _ => rfl, nofun, fun _ _ => Lasts.refl _ _,
      fun _ => id, fun _ _ => id, fun _ _ _ _ => id, nofun⟩
    rw [List.filter_true]
  | cons old olds ih =>
    rw [dropVLANs]
    split
    · rename_i hold
      refine wpOk_mono ih ?_
      rintro r t ⟨kept, rfl, hyes, hno, hd⟩
      refine ⟨kept, rfl, hyes, fun a ha hnot => ?_, hd.refl_cons fun hnot => absurd hold hnot⟩
      obtain rfl | ha := List.mem_cons.mp ha
      · exact absurd hold hnot
      · exact hno a ha hnot
    · rename_i hold
      have hnext : ∀ t : NetState, wpOk (truthfully f)
          (attempt (netCall (.save { k with
            appliedVLANs := k.appliedVLANs.filter fun v => v.device ≠ old.device })) >>= fun _ =>
            dropVLANs desired olds { k with
              appliedVLANs := k.appliedVLANs.filter fun v => v.device ≠ old.device })
          (fun r u => ∃ kept : VLAN → Bool,
            r = { k with appliedVLANs := k.appliedVLANs.filter kept } ∧
            (∀ a, a.device ∈ desired → kept a = true) ∧
            (∀ a ∈ old :: olds, a.device ∉ desired → kept a = false) ∧
            Dropped desired olds t.host u.host) t := by
        intro t
        refine wpOk_then (wpOk_save fun _ => wpOk_mono ih ?_)
        rintro r u ⟨kept, rfl, hyes, hno, hd⟩
        refine ⟨fun a => kept a && decide (a.device ≠ old.device), ?_, fun a ha => ?_,
          fun a ha hnot => ?_, hd⟩
        · rw [← List.filter_filter]
        · have hne : a.device ≠ old.device := fun heq => hold (heq ▸ ha)
          exact Bool.and_eq_true_iff.mpr ⟨hyes a ha, decide_eq_true hne⟩
        · obtain rfl | ha := List.mem_cons.mp ha
          · simp
          · exact Bool.and_eq_false_iff.mpr (.inl (hno a ha hnot))
      refine wpOk_then (wpOk_destroyVLAN (fun hnone => ?_) fun t ht => ?_)
      · refine wpOk_mono (hnext s) ?_
        rintro r u ⟨kept, rfl, hyes, hno, hd⟩
        exact ⟨kept, rfl, hyes, hno, hd.refl_cons fun _ => hnone⟩
      · refine wpOk_mono (hnext t) ?_
        rintro r u ⟨kept, rfl, hyes, hno, hd⟩
        rw [ht] at hd
        exact ⟨kept, rfl, hyes, hno, hd.destroyed_cons hold⟩

/-! ### The address -/

/-- The interfaces differ in their addresses alone. -/
def Readdressed (h h' : Host) : Prop :=
  ∀ x, (h'.get x).map (fun i => { i with addresses := [] }) =
    (h.get x).map fun i => { i with addresses := [] }

theorem Readdressed.lasts {h h' : Host} (hr : Readdressed h h') (x : String) : Lasts h h' x := by
  intro i hi
  have hsame := hr x
  rw [hi] at hsame
  obtain ⟨j, hj, heq⟩ := Option.map_eq_some_iff.mp hsame
  have hbridge : j.bridge = i.bridge := (congrArg Interface.bridge heq :)
  have hvlan : j.vlan = i.vlan := (congrArg Interface.vlan heq :)
  exact ⟨j, hj, fun hb => hbridge ▸ hb, fun v hv => hvlan ▸ hv⟩

theorem Readdressed.carries {h h' : Host} (hr : Readdressed h h') (b m : String) :
    h'.Carries b m ↔ h.Carries b m := by
  refine carries_congr ?_
  have hsame := congrArg (Option.map Interface.members) (hr b)
  rwa [Option.map_map, Option.map_map] at hsame

theorem Readdressed.absent {h h' : Host} (hr : Readdressed h h') {x : String}
    (hx : h.get x = none) : h'.get x = none := by
  have hsame := hr x
  rw [hx] at hsame
  exact Option.map_eq_none_iff.mp hsame

theorem readdressed_update {device : String} {change : Interface → Interface}
    (hchange : ∀ i : Interface, { change i with addresses := [] } = { i with addresses := [] }) :
    Readdressed s.host (s.update device change).host := by
  intro x
  rw [get_update]
  split
  · rename_i hx
    subst hx
    cases s.host.get x with
    | none => rfl
    | some i => exact congrArg some (hchange i)
  · rfl

theorem wpOk_dropAddress {k : NetworkManifest} :
    wpOk (truthfully f) (dropAddress k) (fun r t =>
      ∃ applied, r = { k with appliedAddress := applied } ∧
        (applied = "" ∨ applied = k.address) ∧ Readdressed s.host t.host ∧
        (k.appliedAddress ≠ "" → k.appliedAddress ≠ k.address →
          t.host.test k.device (·.hasAddress k.appliedAddress) = false)) s := by
  rw [dropAddress]
  split
  · refine wpOk_bind (P := fun _ t => Readdressed s.host t.host ∧
      t.host.test k.device (·.hasAddress k.appliedAddress) = false) ?_ fun _ t ht =>
        wpOk_pure ⟨"", rfl, .inl rfl, ht.1, fun _ _ => ht.2⟩
    refine wp_seq (wp_netCall fun c r t hc hp => ?_) fun _ _ h => h
    cases hc
    cases hp
    split
    · rename_i hnot
      intro x _
      exact ⟨fun _ => rfl, by simpa using hnot⟩
    · refine wp_netCall fun c r t _ hp x hx => ?_
      subst hx
      obtain ⟨-, -, rfl⟩ | ⟨-, e, he⟩ := NetChoice.attempt_cases hp
      · refine ⟨?_, ?_⟩
        · show Readdressed s.host (s.host.unaddressed _ _)
          rw [unaddressed_eq]
          exact readdressed_update fun _ => rfl
        · show Host.test (s.host.unaddressed _ _) _ _ = false
          rw [unaddressed_eq, Host.test, get_update, if_pos rfl]
          cases s.host.get k.device with
          | none => rfl
          | some i => simp [Interface.hasAddress]
      · cases he
  · rename_i hnot
    refine wpOk_pure ⟨k.appliedAddress, rfl, ?_, fun _ => rfl, fun hset hne => absurd ⟨hset, hne⟩ hnot⟩
    by_cases hset : k.appliedAddress = ""
    · exact .inl hset
    · exact .inr (by_contra fun hne => hnot ⟨hset, hne⟩)

theorem setAlias_attempt {c : NetChoice} {able : Bool} {u : NetState} (hc : c ≠ .fileExists) :
    c.setAlias able s u = c.attempt able s u := by
  cases c with
  | fileExists => exact absurd rfl hc
  | ok | fail e | failTook e | name d | vms l | running b | references l => rfl

theorem hasAddress_set {i : Interface} {address other : String} :
    (if i.hasAddress address = true then i
      else { i with addresses := i.addresses ++ [(address, true)] }).hasAddress other = true ↔
      i.hasAddress other = true ∨ other = address := by
  split
  · rename_i hhas
    exact ⟨.inl, fun h => h.elim id fun heq => heq ▸ hhas⟩
  · simp [Interface.hasAddress, @eq_comm _ other address]

theorem wpOk_ensureAddress {k : NetworkManifest}
    (hshown : k.address = "" ∨ f.shown k.address = some k.address) :
    wpOk (truthfully f) (ensureAddress k) (fun r t =>
      ∃ applied, r = { k with appliedAddress := applied } ∧
        (applied = k.appliedAddress ∨ applied = k.address) ∧ Readdressed s.host t.host ∧
        (k.address = "" ∨ t.host.test k.device (·.hasAddress k.address) = true) ∧
        ∀ other, other ≠ k.address → s.host.test k.device (·.hasAddress other) = false →
          t.host.test k.device (·.hasAddress other) = false) s := by
  rw [ensureAddress]
  split
  · rename_i hnone
    exact wpOk_pure ⟨k.appliedAddress, rfl, .inl rfl, fun _ => rfl, .inl hnone, fun _ _ => id⟩
  · rename_i hset
    refine wpOk_then (wpOk_ask (wp_netCall fun c r t hc hp => ?_))
    cases hc
    cases hp
    split
    · rename_i hhas
      exact wpOk_pure ⟨k.appliedAddress, rfl, .inl rfl, fun _ => rfl, .inr hhas, fun _ _ => id⟩
    · refine wpOk_then (wp_netCall fun c r t hc hp x hx => ?_)
      subst hx
      rw [NetState.perform, hshown.resolve_left hset] at hp
      dsimp only at hp
      rw [setAlias_attempt hc] at hp
      obtain ⟨hable, -, rfl⟩ | ⟨-, e, he⟩ := NetChoice.attempt_cases hp
      · obtain ⟨i, hi⟩ := Option.isSome_iff_exists.mp hable
        refine wpOk_pure ⟨k.address, rfl, .inr rfl, readdressed_update fun i => ?_, .inr ?_,
          fun other hne hnot => ?_⟩
        · split
          · rfl
          · rfl
        · rw [Host.test, get_update, if_pos rfl, hi]
          exact hasAddress_set.mpr (.inr rfl)
        · rw [Host.test, hi] at hnot
          rw [Host.test, get_update, if_pos rfl, hi]
          refine Bool.eq_false_iff.mpr fun hhas => ?_
          obtain hold | hnew := hasAddress_set.mp hhas
          · rw [Option.any_some, hold] at hnot
            cases hnot
          · exact hne hnew
      · cases he

/-! ### The network -/

/-- The manifest is of the same network, and wants the same. -/
structure Alike (n k : NetworkManifest) : Prop where
  id : k.id = n.id
  mode : k.mode = n.mode
  address : k.address = n.address
  members : k.members = n.members
  vlans : k.vlans.map (fun v => (v.parent, v.tag)) = n.vlans.map fun v => (v.parent, v.tag)

/-- What was applied before and is no longer wanted is gone. -/
structure Cleared (n k : NetworkManifest) (h : Host) : Prop where
  members : ∀ m ∈ n.appliedMembers, m ∉ wanted k → ¬ h.Carries k.device m
  vlans : ∀ a ∈ n.appliedVLANs, a.borrowed = false → (∀ v ∈ n.vlans, VLAN.sameKey a v = false) →
    a.device ∉ wanted k → h.get a.device = none
  address : n.appliedAddress ≠ "" → n.appliedAddress ≠ k.address →
    h.test k.device (·.hasAddress n.appliedAddress) = false

/-- The manifest is one that can be settled: no VLAN hangs on an interface that a VLAN was given,
and the host shows the address as it is written. -/
structure Settleable (f : Formats) (n : NetworkManifest) : Prop where
  parents : ∀ v ∈ n.vlans, ∀ a ∈ n.appliedVLANs, a.device ≠ v.parent
  shown : n.address = "" ∨ f.shown n.address = some n.address

/-- The network is settled, under the manifest that is stored. -/
structure Converged (f : Formats) (n k : NetworkManifest) (t : NetState) : Prop where
  settled : Settled f k t.host
  cleared : Cleared n k t.host
  alike : Alike n k
  stored : ∃ (u : NetState) (stored : Table NetworkManifest), t = u.storing stored k

theorem wpOk_requireAll {l : List α} {what : String} {name : α → String}
    {Q : Unit → NetState → Prop} (h : (∀ x ∈ l, (s.host.get (name x)).isSome = true) → Q () s) :
    wpOk (truthfully f) (l.forM fun x => requireInterface what (name x)) Q s := by
  induction l with
  | nil => exact wpOk_pure (h nofun)
  | cons x l ih =>
    refine wpOk_then (wpOk_requireInterface fun hx => ih fun hl => h fun y hy => ?_)
    obtain rfl | hy := List.mem_cons.mp hy
    · exact hx
    · exact hl y hy

/-- The key of each applied VLAN is wanted. -/
theorem Applied.key {n : NetworkManifest} {rest applied recorded : List VLAN} {h : Host}
    (ha : Applied n rest applied recorded h) {v : VLAN} (hv : v ∈ applied) :
    ∃ w ∈ rest, VLAN.sameKey w v = true := by
  have hmem : (v.parent, v.tag) ∈ rest.map fun v => (v.parent, v.tag) := by
    rw [← ha.keys]
    exact List.mem_map_of_mem hv
  obtain ⟨w, hw, heq⟩ := List.mem_map.mp hmem
  exact ⟨w, hw, sameKey_iff.mpr (Prod.mk.inj heq)⟩

/-- No wanted interface, parent or bridge goes with the VLANs that are no longer wanted. -/
theorem Applied.not_unwanted {n : NetworkManifest} {applied recorded : List VLAN} {h : Host}
    {members : List String} (ha : Applied n n.vlans applied recorded h) (hn : Settleable f n)
    {x : String} (hx : x ∈ members ++ applied.map (·.device) ∨ bridgeName x = true ∨
      ∃ v ∈ n.vlans, x = v.parent) :
    ¬ Unwanted (members ++ applied.map (·.device)) recorded x := by
  rintro ⟨a, harecord, hnot, rfl⟩
  obtain hx | hx | ⟨v, hv, hparent⟩ := hx
  · exact hnot hx
  · have hname := ha.names a harecord
    rw [not_vlanName hx] at hname
    cases hname
  · rw [ha.record] at harecord
    obtain hold | hnew := List.mem_append.mp harecord
    · exact hn.parents v hv a (List.mem_of_mem_filter hold) hparent
    · exact hnot (List.mem_append_right _ (List.mem_map_of_mem hnew))

/-- Of the recorded VLANs those stay that are applied, and some of the others. -/
theorem Applied.filter {n : NetworkManifest} {applied recorded : List VLAN} {h : Host}
    (ha : Applied n n.vlans applied recorded h) {keep : VLAN → Bool}
    (hkeep : ∀ v ∈ applied, keep v = true) :
    ∃ others, recorded.filter keep = others ++ applied ∧ Others others applied := by
  refine ⟨(n.appliedVLANs.filter fun a => !n.vlans.any (VLAN.sameKey a)).filter keep, ?_, ?_⟩
  · rw [ha.record, List.filter_append]
    congr 1
    exact List.filter_eq_self.mpr hkeep
  · intro a hold v hv
    have hnone := (List.mem_filter.mp (List.mem_of_mem_filter hold)).2
    obtain ⟨w, hw, hkey⟩ := ha.key hv
    refine Bool.eq_false_iff.mpr fun hsame => ?_
    have hany : n.vlans.any (VLAN.sameKey a) = true := List.any_eq_true.mpr ⟨w, hw, ?_⟩
    · rw [hany] at hnone
      cases hnone
    · rw [sameKey_iff] at hsame hkey ⊢
      exact ⟨hsame.1.trans hkey.1.symm, hsame.2.trans hkey.2.symm⟩

/-- A VLAN under a key that is not wanted stays recorded. -/
theorem Applied.stays {n : NetworkManifest} {applied recorded : List VLAN} {h : Host}
    (ha : Applied n n.vlans applied recorded h) {a : VLAN} (hold : a ∈ n.appliedVLANs)
    (hkey : ∀ v ∈ n.vlans, VLAN.sameKey a v = false) : a ∈ recorded := by
  rw [ha.record]
  refine List.mem_append_left _ (List.mem_filter.mpr ⟨hold, ?_⟩)
  rw [Bool.not_eq_true', List.any_eq_false]
  intro v hv hsame
  rw [hkey v hv] at hsame
  cases hsame

theorem wpOk_applyBridge {n : NetworkManifest} (hmode : n.mode = .bridge)
    (hchecked : check f n = .ok ()) (hn : Settleable f n) :
    wpOk (truthfully f) (applyBridge n) (Converged f n) s := by
  have hkeys := check_keys hchecked
  have hnames := (check_iff.mp hchecked).2.2.2.1
  refine wpOk_then (wpOk_requireAll fun hmembers => ?_)
  refine wpOk_then (wpOk_requireAll fun hparents => ?_)
  refine wpOk_bind (wpOk_ensureDevice hmode hchecked) ?_
  rintro k1 t1 ⟨⟨device, owned, applied1, rfl⟩, hgrows1, hdevised⟩
  dsimp only at hdevised ⊢
  refine wpOk_bind (wpOk_ensureVLANs rfl hnames hkeys) ?_
  rintro r2 t2 ⟨vlans, recorded, rfl, hgrows2, happlied⟩
  dsimp only
  refine wpOk_then (wpOk_bridgeMembers fun listed hlisted => ?_)
  refine wpOk_bind (wpOk_detachOld fun m hm => (hlisted m).mp hm) ?_
  rintro k3 t3 ⟨kept, rfl, hkept, hdetached⟩
  dsimp only at hdetached ⊢
  refine wpOk_bind (wpOk_attachDesired fun m hm hmem =>
    hdetached.wanted m hm ((hlisted m).mpr hmem)) ?_
  rintro k4 t4 ⟨applied4, rfl, happlied4, hattached⟩
  dsimp only at hattached ⊢
  refine wpOk_bind wpOk_dropVLANs ?_
  rintro k5 t5 ⟨keep, rfl, hkeep, hdrop, hdropped⟩
  dsimp only at hdropped ⊢
  refine wpOk_bind wpOk_dropAddress ?_
  rintro k6 t6 ⟨address6, rfl, haddress6, hread6, hgone⟩
  dsimp only at hgone ⊢
  refine wpOk_bind (wpOk_ensureAddress hn.shown) ?_
  rintro k7 t7 ⟨address7, rfl, haddress7, hread7, hhas, hothers⟩
  dsimp only at hhas hothers ⊢
  refine wpOk_then (wpOk_up ?_)
  refine wpOk_then (wpOk_save fun hsaved => wpOk_pure ?_)
  have hkeeps : ∀ {x}, (x ∈ n.members ++ vlans.map (·.device) ∨ bridgeName x = true ∨
      ∃ v ∈ n.vlans, x = v.parent) → ¬ Unwanted (n.members ++ vlans.map (·.device)) recorded x :=
    happlied.not_unwanted ⟨hn.parents, hn.shown⟩
  have hlasts : ∀ x, ¬ Unwanted (n.members ++ vlans.map (·.device)) recorded x →
      Lasts t2.host t7.host x := fun x hx =>
    (hdetached.grows.lasts x).trans <| (hattached.lasts x).trans <| (hdropped.lasts x hx).trans <|
      (hread6.lasts x).trans (hread7.lasts x)
  have hstart : ∀ x, ¬ Unwanted (n.members ++ vlans.map (·.device)) recorded x →
      Lasts s.host t7.host x := fun x hx =>
    (hgrows1.lasts x).trans <| (hgrows2.lasts x).trans (hlasts x hx)
  have hbridge := hkeeps (.inr (.inl hdevised.device))
  have hcarried : ∀ m ∈ n.members ++ vlans.map (·.device), t7.host.Carries device m := fun m hm =>
    (hread7.carries _ _).mpr <| (hread6.carries _ _).mpr <|
      hdropped.carries _ _ hbridge (hkeeps (.inl hm)) (hattached.wanted m hm)
  have hshed : ∀ m, m ∉ n.members ++ vlans.map (·.device) → t7.host.Carries device m →
      t3.host.Carries device m := fun m hnot hc =>
    (hattached.only m (hdropped.sheds _ _ ((hread6.carries _ _).mp ((hread7.carries _ _).mp hc)))).resolve_right
      hnot
  have hparent : ∀ v ∈ vlans, ∃ w ∈ n.vlans, v.parent = w.parent := fun v hv =>
    have ⟨w, hw, hkey⟩ := happlied.key hv
    ⟨w, hw, (sameKey_iff.mp hkey).1.symm⟩
  refine ⟨⟨⟨hdevised.device, ?_, fun m hm => ?_, fun v hv => ?_, fun v hv => ?_⟩, hmode, hsaved,
    hcarried, fun m hm => ?_, ?_, fun a ha => ?_, ?_, hhas⟩,
    ⟨fun m hm hnot => ?_, fun a ha hborrowed hkey hnot => ?_, fun hset hne => ?_⟩,
    ⟨rfl, rfl, rfl, rfl, happlied.keys⟩, t7, t7.manifests, rfl⟩
  · exact ((hgrows2.lasts _).trans (hlasts _ hbridge)).bridge hdevised.bridge
  · exact (hstart m (hkeeps (.inl (List.mem_append_left _ hm)))).isSome (hmembers m hm)
  · obtain ⟨w, hw, hsame⟩ := hparent v hv
    rw [hsame]
    exact (hstart _ (hkeeps (.inr (.inr ⟨w, hw, rfl⟩)))).isSome (hparents w hw)
  · exact (hlasts _ (hkeeps (.inl (List.mem_append_right _ (List.mem_map_of_mem hv))))).hasVLAN
      (happlied.vlans v hv)
  · obtain hm | hm := happlied4 m hm
    · exact (hkept m hm).2 (hkept m hm).1
    · exact hm
  · exact happlied.filter fun v hv =>
      hkeep v (List.mem_append_right _ (List.mem_map_of_mem hv))
  · obtain ⟨hrecorded, hkeepa⟩ := List.mem_filter.mp ha
    refine by_contra fun hnot => ?_
    rw [hdrop a hrecorded hnot] at hkeepa
    cases hkeepa
  · obtain rfl | rfl := haddress7
    · exact haddress6
    · exact .inr rfl
  · intro hc
    have hold := hshed m hnot hc
    obtain hm | hm := hdevised.members m hm
    · exact hdetached.gone m hm hnot hold
    · exact hm (hgrows2.sheds _ _ (hdetached.grows.sheds _ _ hold))
  · have hgone := hdropped.gone a (happlied.stays ha hkey) hnot hborrowed
    exact hread7.absent (hread6.absent hgone)
  · exact hothers _ hne (hgone hset hne)

theorem wpOk_underLock {body : NetM α} {Q : α → NetState → Prop}
    (h : wpOk (truthfully f) body Q s) : wpOk (truthfully f) (underLock body) Q s := by
  refine wpOk_then (wp_netCall fun c r t _ hp x hx => ?_)
  subst hx
  obtain ⟨-, rfl⟩ | ⟨-, e, he⟩ := NetChoice.command_cases hp
  · refine wpOk_then (wpOk_ask (wp_mono h fun result t ht => ?_))
    refine wpOk_then (wpOk_ask (wp_netCall fun c r u _ hp => ?_))
    cases hp
    exact ht
  · cases he

theorem wpOk_ensure {asked n : NetworkManifest} (hmode : asked.mode = .bridge)
    (hload : s.loaded f asked.id = .ok n) (hn : Settleable f n) :
    wpOk (truthfully f) (ensure asked false) (Converged f n) s := by
  rw [ensure, hmode]
  refine wpOk_underLock (wpOk_then (wpOk_then (wp_netCall fun c r t _ hp m hm => ?_)))
  subst hm
  obtain ⟨rfl, he | ⟨e, he⟩⟩ := NetChoice.query_cases hp
  · rw [hload] at he
    cases he
    split
    · exact wpOk_refused
    · rename_i hbridge
      exact wpOk_pure (wpOk_applyBridge (not_not.mp hbridge) (loaded_stored hload).2.1 hn)
  · cases he

end Calls

/-! ### Every run -/

/-- A bridge that lost the member `en1`, a VLAN and an address in its manifest, and gained others. -/
def labBridge : NetworkManifest where
  id := "lab-id"
  name := "lab"
  mode := .bridge
  device := "bridge5"
  owned := true
  address := "10.0.0.1/24"
  members := ["en0"]
  vlans := [{ parent := "en0", tag := 10 }]
  appliedVLANs := [{ parent := "en0", tag := 30, device := "vlan3" }]
  appliedMembers := ["en1"]
  appliedAddress := "10.0.0.2/24"

def labHost : NetState where
  host := [("en0", { made := false }), ("en1", { made := false }),
    ("bridge5",
      { made := true, bridge := true, members := [("en1", true)],
        addresses := [("10.0.0.2/24", true)] }),
    ("vlan3", { made := true, vlan := some ("en0", 30) })]
  manifests := [("lab-id", labBridge)]

def appliedBridge : NetworkManifest :=
  { labBridge with
    vlans := [{ parent := "en0", tag := 10, device := "vlan4" }]
    appliedVLANs := [{ parent := "en0", tag := 10, device := "vlan4" }]
    appliedMembers := ["en0", "vlan4"]
    appliedAddress := "10.0.0.1/24" }

end Maco.Network
