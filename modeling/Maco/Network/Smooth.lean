import Maco.Network.Rules

/-! The host on which everything succeeds that can: each call does its work where the state admits
it and fails where it does not.  The programs of the network operations have one end there, which
the lemmas below give for the calls and for `resolveVLAN`. -/

namespace Maco.Network

open Concurrent

/-- What is left to the environment: the id and the interface name that it gives out next, and what
the machines are doing. -/
structure Weather where
  id : String := ""
  device : String := ""
  vms : List VMManifest := []
  running : String → Bool := fun _ => false
  references : String → List String := fun _ => []

def Weather.choice (w : Weather) : NetCall → NetChoice
  | .newString => .name w.id
  | .createBridge _ | .createVLAN _ => .name w.device
  | .listVMs => .vms w.vms
  | .running id => .running (w.running id)
  | .pendingReferences id => .references (w.references id)
  | _ => .ok

/-- The answer to a call that the state does not admit. -/
def NetCall.failure : (a : NetCall) → a.Reply
  | .unlock => ()
  | .newString => ""
  | .interfaceExists _ | .isBridge _ | .hasAddress _ _ | .running _ => false
  | .load _ | .resolve _ => .error "failed"
  | .list => .error "failed"
  | .bridgeMembers _ => .error "failed"
  | .createBridge _ | .createVLAN _ | .findVLAN _ _ => .error "failed"
  | .listVMs => .error "failed"
  | .pendingReferences _ => .error "failed"
  | .lock | .save _ | .delete _ | .destroy _ _ | .addMember _ _ | .removeMember _ _
  | .configureVLAN _ _ _ | .setAddress _ _ | .removeAlias _ _ | .up _ => .error "failed"

/-- The answer to a call and the state after it. -/
def NetState.smooth (f : Formats) (w : Weather) (a : NetCall) (s : NetState) : a.Reply × NetState :=
  match s.perform f a (w.choice a) with
  | some x => x
  | none => (a.failure, s)

/-- The end of a program. -/
def smoothly {α : Type} (f : Formats) (w : Weather) (p : NetM α) (s : NetState) :
    Except Message α × NetState :=
  p.run.eval (NetState.smooth f w) s

section Calls

variable {f : Formats} {w : Weather} {s : NetState} {α β : Type}

theorem smoothly_bind (p : NetM α) (k : α → NetM β) :
    smoothly f w (p >>= k) s =
      match smoothly f w p s with
      | (.error e, t) => (.error e, t)
      | (.ok x, t) => smoothly f w (k x) t := by
  unfold smoothly
  rw [Prog.eval_andThen]
  match p.run.eval (NetState.smooth f w) s with
  | (.error e, t) => rfl
  | (.ok x, t) => rfl

theorem smoothly_pure (x : α) : smoothly f w (pure x : NetM α) s = (.ok x, s) := rfl

theorem smoothly_refuse (e : Message) : smoothly f w (refuse e : NetM α) s = (.error e, s) := rfl

theorem smoothly_attempt (p : Net (Except Message α)) :
    smoothly f w (attempt p) s = p.eval (NetState.smooth f w) s := rfl

theorem smoothly_ask (p : Net α) :
    smoothly f w (ask p) s =
      (.ok (p.eval (NetState.smooth f w) s).1, (p.eval (NetState.smooth f w) s).2) := by
  show Prog.eval (NetState.smooth f w) (p >>= _) s = _
  rw [Prog.eval_bind]
  rfl

theorem eval_netCall (a : NetCall) :
    (netCall a).eval (NetState.smooth f w) s = s.smooth f w a := rfl

/-- A call that looks changes nothing, and so does a program that only looks. -/
theorem smooth_looks {a : NetCall} (ha : a.Looks) : (s.smooth f w a).2 = s := by
  unfold NetState.smooth
  split
  · rename_i x hx
    exact NetState.perform_looks ha hx
  · rfl

theorem eval_looks {p : Net α} (h : OnlyLooks p) : (p.eval (NetState.smooth f w) s).2 = s := by
  induction p with
  | ret x => rfl
  | call a next ih =>
    rw [Prog.eval_call, smooth_looks h.1]
    exact ih _ (h.2 _)

theorem smoothly_looks {p : NetM α} (h : OnlyLooks p.run) :
    smoothly f w p s = ((smoothly f w p s).1, s) := by
  have hend : (smoothly f w p s).2 = s := eval_looks h
  rw [Prod.ext_iff]
  exact ⟨rfl, hend⟩

/-- What is done after a program that only looks. -/
theorem smoothly_looks_bind {p : NetM α} (h : OnlyLooks p.run) (k : α → NetM β) :
    (∃ e, smoothly f w (p >>= k) s = (.error e, s)) ∨
      ∃ x, smoothly f w (p >>= k) s = smoothly f w (k x) s := by
  rw [smoothly_bind, smoothly_looks h]
  cases (smoothly f w p s).1 with
  | error e => exact .inl ⟨e, rfl⟩
  | ok x => exact .inr ⟨x, rfl⟩

/-! ### Calls that do their work -/

@[simp] theorem smooth_interfaceExists (device : String) :
    s.smooth f w (.interfaceExists device) = ((s.host.get device).isSome, s) := rfl

@[simp] theorem smooth_isBridge (device : String) :
    s.smooth f w (.isBridge device) =
      (s.host.test device (·.bridge) && "bridge".toList.isPrefixOf device.toList, s) := rfl

@[simp] theorem smooth_load (id : String) : s.smooth f w (.load id) = (s.loaded f id, s) := rfl

@[simp] theorem smooth_resolve (ref : String) :
    s.smooth f w (.resolve ref) = (s.resolved f ref, s) := rfl

@[simp] theorem smooth_findVLAN (parent : String) (tag : Int) :
    s.smooth f w (.findVLAN parent tag) = (.ok (s.host.findVLAN parent tag), s) := rfl

theorem smooth_newString (h : w.id ∉ s.issued) :
    s.smooth f w .newString = (w.id, { s with issued := w.id :: s.issued }) := by
  unfold NetState.smooth NetState.perform Weather.choice
  simp [h]

theorem smooth_delete {id : String} (h : (s.manifests.get id).isSome) :
    s.smooth f w (.delete id) = (.ok (), { s with manifests := s.manifests.without [id] }) := by
  unfold NetState.smooth NetState.perform Weather.choice NetChoice.attempt
  simp [h]

@[simp] theorem smooth_lock : s.smooth f w .lock = (.ok (), s) := rfl

@[simp] theorem smooth_unlock : s.smooth f w .unlock = ((), s) := rfl

theorem smooth_save {n : NetworkManifest} (h : check f n = .ok ()) :
    s.smooth f w (.save n) = (.ok (), { s with manifests := s.manifests.put n.id n }) := by
  unfold NetState.smooth NetState.perform Weather.choice NetChoice.write NetChoice.attempt
  simp [h]

theorem smooth_save_error {n : NetworkManifest} (h : check f n ≠ .ok ()) :
    s.smooth f w (.save n) = (.error "failed", s) := by
  unfold NetState.smooth NetState.perform Weather.choice NetChoice.write NetChoice.attempt
  simp [h, NetCall.failure]

theorem smooth_up {device : String} (h : (s.host.get device).isSome) :
    s.smooth f w (.up device) = (.ok (), s) := by
  unfold NetState.smooth NetState.perform Weather.choice NetChoice.attempt
  simp [h]

theorem smooth_createVLAN {network : String} (hname : numbered "vlan" w.device = true)
    (hfree : s.host.get w.device = none) :
    s.smooth f w (.createVLAN network) =
      (.ok w.device, { s with host := s.host.put w.device { made := true } }) := by
  unfold NetState.smooth NetState.perform Weather.choice NetState.create
  simp [hname, hfree]

/-- An interface without a configuration takes it. -/
theorem smooth_configureVLAN {device parent : String} {tag : Int} {i : Interface}
    (h : s.host.get device = some i) (hvlan : i.vlan = none) :
    s.smooth f w (.configureVLAN device parent tag) =
      (.ok (), { s with host := s.host.put device { i with vlan := some (parent, tag) } }) := by
  unfold NetState.smooth NetState.perform Weather.choice NetState.update
  simp [h, hvlan, NetChoice.command]

/-- One that has the configuration keeps it. -/
theorem smooth_configureVLAN_same {device parent : String} {tag : Int} {i : Interface}
    (h : s.host.get device = some i) (hvlan : i.vlan = some (parent, tag)) :
    s.smooth f w (.configureVLAN device parent tag) = (.ok (), s) := by
  unfold NetState.smooth NetState.perform Weather.choice
  simp [h, hvlan, NetChoice.query]

/-- One with another configuration refuses. -/
theorem smooth_configureVLAN_other {device parent : String} {tag : Int} {i : Interface}
    {vlan : String × Int} (h : s.host.get device = some i) (hvlan : i.vlan = some vlan)
    (hne : vlan ≠ (parent, tag)) :
    ∃ e, s.smooth f w (.configureVLAN device parent tag) = (.error e, s) := by
  unfold NetState.smooth NetState.perform Weather.choice
  simp [h, hvlan, NetChoice.query, hne]

/-! ### Programs -/

theorem smoothly_onlyIf {c : Prop} [Decidable c] (p : NetM Unit) :
    smoothly f w (onlyIf c p) s = if c then smoothly f w p s else (.ok (), s) := by
  unfold onlyIf
  split
  · rfl
  · rfl

theorem smoothly_requireInterface {what name : String} (h : (s.host.get name).isSome) :
    smoothly f w (requireInterface what name) s = (.ok (), s) := by
  rw [requireInterface, smoothly_bind, smoothly_ask, eval_netCall, smooth_interfaceExists, h]
  rfl

/-- A save of a manifest that is admitted. -/
theorem smoothly_saveOr {n : NetworkManifest} {undo : Net Unit} (h : check f n = .ok ()) :
    smoothly f w (saveOr n undo) s = (.ok (), { s with manifests := s.manifests.put n.id n }) := by
  rw [saveOr, smoothly_bind, smoothly_ask, eval_netCall, smooth_save h]
  rfl

theorem smoothly_existing (device : String) :
    smoothly f w (ask (existing device)) s =
      (.ok (device ≠ "" && (s.host.get device).isSome), s) := by
  rw [smoothly_ask, existing]
  split
  · rename_i h
    simp [h]
  · rename_i h
    rw [eval_netCall, smooth_interfaceExists]
    simp [h]

theorem smoothly_borrowMatching (device parent : String) (tag : Int)
    (orElse : NetM (String × Bool)) :
    smoothly f w (borrowMatching device parent tag orElse) s =
      if s.host.findVLAN parent tag ≠ "" ∧ s.host.findVLAN parent tag ≠ device then
        (.ok (s.host.findVLAN parent tag, false), s)
      else smoothly f w orElse s := by
  rw [borrowMatching, smoothly_bind, smoothly_attempt, eval_netCall, smooth_findVLAN]
  dsimp only
  split
  · rfl
  · rfl

end Calls

/-! ### VLAN interfaces -/

/-- The interface is there with this VLAN. -/
def Host.HasVLAN (h : Host) (device parent : String) (tag : Int) : Prop :=
  ∃ i, h.get device = some i ∧ i.vlan = some (parent, tag)

/-- The interfaces that `FindVLAN` chooses the first of. -/
def Host.matching (h : Host) (parent : String) (tag : Int) : List String :=
  (Table.sorted (h.filter fun e =>
    "vlan".toList.isPrefixOf e.1.toList &&
      (h.get e.1).bind (·.vlan) = some (parent, tag))).map (·.1)

theorem Host.mem_matching {h : Host} {device parent : String} {tag : Int} :
    device ∈ h.matching parent tag ↔
      "vlan".toList.isPrefixOf device.toList = true ∧ h.HasVLAN device parent tag := by
  unfold matching HasVLAN
  simp only [List.mem_map, Table.mem_sorted, List.mem_filter, Bool.and_eq_true, decide_eq_true_eq,
    Option.bind_eq_some_iff]
  constructor
  · rintro ⟨e, ⟨-, hname, hvlan⟩, rfl⟩
    exact ⟨hname, hvlan⟩
  · rintro ⟨hname, i, hi, hvlan⟩
    exact ⟨(device, i), ⟨Table.mem_of_get hi, hname, i, hi, hvlan⟩, rfl⟩

/-- `FindVLAN` finds an interface that has the VLAN. -/
theorem Host.findVLAN_mem {h : Host} {parent : String} {tag : Int}
    (hfound : h.findVLAN parent tag ≠ "") : h.findVLAN parent tag ∈ h.matching parent tag := by
  have hhead : h.findVLAN parent tag = (h.matching parent tag).headD "" := rfl
  rw [hhead] at hfound ⊢
  cases hlist : h.matching parent tag with
  | nil => simp [hlist] at hfound
  | cons device rest => exact List.mem_cons_self

theorem Host.hasVLAN_findVLAN {h : Host} {parent : String} {tag : Int}
    (hfound : h.findVLAN parent tag ≠ "") : h.HasVLAN (h.findVLAN parent tag) parent tag :=
  (mem_matching.mp (findVLAN_mem hfound)).2

/-- It finds one if there is one whose name begins so. -/
theorem Host.findVLAN_ne {h : Host} {device parent : String} {tag : Int}
    (hvlan : h.HasVLAN device parent tag) (hname : vlanName device = true) :
    h.findVLAN parent tag ≠ "" := by
  rw [vlanName, numbered, Bool.and_eq_true, Bool.and_eq_true] at hname
  have hmem : device ∈ h.matching parent tag := mem_matching.mpr ⟨hname.1.1, hvlan⟩
  have hhead : h.findVLAN parent tag = (h.matching parent tag).headD "" := rfl
  rw [hhead]
  cases hlist : h.matching parent tag with
  | nil =>
    rw [hlist] at hmem
    contradiction
  | cons other rest =>
    have hother : other ∈ h.matching parent tag := by
      rw [hlist]
      exact List.mem_cons_self
    rintro rfl
    have hempty := (mem_matching.mp hother).1
    contradiction

/-- `resolveVLAN` can do without an interface of another configuration: the recorded one is missing,
or has no VLAN or the wanted one, or another has the wanted one. -/
def Host.Resolvable (h : Host) (device parent : String) (tag : Int) : Prop :=
  ∀ i, h.get device = some i → device ≠ "" → i.vlan = none ∨ i.vlan = some (parent, tag) ∨
    h.findVLAN parent tag ≠ ""

/-- A new interface is created. -/
def Host.Creates (h : Host) (device parent : String) (tag : Int) : Prop :=
  (device = "" ∨ h.get device = none) ∧ h.findVLAN parent tag = ""

/-- The name of a new VLAN interface is not in use. -/
structure Unused (name : String) (h : Host) : Prop where
  vlan : vlanName name = true
  interface : interfaceName name = true
  free : h.get name = none

/-- What `resolveVLAN` makes of the host: an interface has the VLAN, be it as before, newly
configured, or new. -/
inductive Resolved (w : Weather) (h : Host) (device parent : String) (tag : Int) (owned : Bool) :
    String → Bool → Host → Prop
  | kept (hvlan : h.HasVLAN device parent tag) (hne : device ≠ "") :
      Resolved w h device parent tag owned device owned h
  | configured (i : Interface) (hget : h.get device = some i) (hvlan : i.vlan = none)
      (hne : device ≠ "") :
      Resolved w h device parent tag owned device owned
        (h.put device { i with vlan := some (parent, tag) })
  | found (hfound : h.findVLAN parent tag ≠ "")
      (hother : device = "" ∨ ¬ h.HasVLAN device parent tag) :
      Resolved w h device parent tag owned (h.findVLAN parent tag) false h
  | created (hcreates : h.Creates device parent tag) :
      Resolved w h device parent tag owned w.device true
        (h.put w.device { made := true, vlan := some (parent, tag) })

section Resolve

variable {f : Formats} {w : Weather} {s : NetState}

theorem smoothly_createConfigured (network parent : String) (tag : Int)
    (hname : Unused w.device s.host) :
    smoothly f w (createConfigured network parent tag) s =
      (.ok (w.device, true),
        { s with host := s.host.put w.device { made := true, vlan := some (parent, tag) } }) := by
  rw [createConfigured, smoothly_bind, smoothly_attempt, eval_netCall,
    smooth_createVLAN hname.vlan hname.free]
  dsimp only
  have hget : (s.host.put w.device { made := true }).get w.device = some { made := true } := by
    rw [Table.get_put, if_pos rfl]
  rw [smoothly_bind, smoothly_ask, eval_netCall, smooth_configureVLAN hget rfl]
  dsimp only
  rw [Table.put_put]
  rfl

/-- `resolveVLAN` succeeds where it can do without an interface of another configuration. -/
theorem smoothly_resolveVLAN {network device parent : String} {owned : Bool} {tag : Int}
    (hname : Unused w.device s.host) (h : s.host.Resolvable device parent tag) :
    ∃ d o host, smoothly f w (resolveVLAN network device owned parent tag) s =
        (.ok (d, o), { s with host := host }) ∧
      Resolved w s.host device parent tag owned d o host := by
  rw [resolveVLAN, smoothly_bind, smoothly_existing]
  dsimp only
  by_cases hthere : device ≠ "" ∧ (s.host.get device).isSome = true
  · obtain ⟨hne, hsome⟩ := hthere
    obtain ⟨i, hi⟩ := Option.isSome_iff_exists.mp hsome
    rw [if_pos (by simp [hne, hsome]), smoothly_bind, smoothly_ask, eval_netCall]
    cases hvlan : i.vlan with
    | none =>
      rw [smooth_configureVLAN hi hvlan]
      exact ⟨_, _, _, rfl, .configured i hi hvlan hne⟩
    | some vlan =>
      by_cases hsame : vlan = (parent, tag)
      · subst hsame
        rw [smooth_configureVLAN_same hi hvlan]
        exact ⟨_, _, _, rfl, .kept ⟨i, hi, hvlan⟩ hne⟩
      · obtain ⟨e, he⟩ := smooth_configureVLAN_other (f := f) (w := w) hi hvlan hsame
        have hfound : s.host.findVLAN parent tag ≠ "" := by
          rcases h i hi hne with h | h | h
          · rw [hvlan] at h
            cases h
          · rw [hvlan] at h
            cases h
            exact absurd rfl hsame
          · exact h
        have hother : ¬ s.host.HasVLAN device parent tag := by
          rintro ⟨j, hj, hjvlan⟩
          rw [hi] at hj
          cases hj
          rw [hvlan] at hjvlan
          cases hjvlan
          exact hsame rfl
        have hne' : s.host.findVLAN parent tag ≠ device := fun heq =>
          hother (heq ▸ Host.hasVLAN_findVLAN hfound)
        rw [he]
        dsimp only
        rw [smoothly_borrowMatching, if_pos ⟨hfound, hne'⟩]
        exact ⟨_, _, _, rfl, .found hfound (.inr hother)⟩
  · have hmissing : device = "" ∨ s.host.get device = none := by
      by_cases hd : device = ""
      · exact .inl hd
      · exact .inr (by simpa [hd] using hthere)
    rw [if_neg (by simpa using hthere), smoothly_borrowMatching]
    by_cases hfound : s.host.findVLAN parent tag = ""
    · rw [if_neg (by simp [hfound]), smoothly_createConfigured network parent tag hname]
      exact ⟨_, _, _, rfl, .created ⟨hmissing, hfound⟩⟩
    · rw [if_pos ⟨hfound, hfound⟩]
      refine ⟨_, _, _, rfl, .found hfound (hmissing.imp_right fun hnone => ?_)⟩
      rintro ⟨i, hi, -⟩
      rw [hnone] at hi
      cases hi

/-- Elsewhere it refuses, and changes nothing. -/
theorem smoothly_resolveVLAN_refused {network device parent : String} {owned : Bool} {tag : Int}
    (h : ¬ s.host.Resolvable device parent tag) :
    ∃ e, smoothly f w (resolveVLAN network device owned parent tag) s = (.error e, s) := by
  unfold Host.Resolvable at h
  push Not at h
  obtain ⟨i, hi, hne, hvlan, hother, hfound⟩ := h
  obtain ⟨vlan, hvlan⟩ := Option.ne_none_iff_exists'.mp hvlan
  rw [hvlan, ne_eq, Option.some.injEq] at hother
  obtain ⟨e, he⟩ := smooth_configureVLAN_other (f := f) (w := w) hi hvlan hother
  refine ⟨e, ?_⟩
  rw [resolveVLAN, smoothly_bind, smoothly_existing]
  dsimp only
  rw [if_pos (by simp [hne, hi]), smoothly_bind, smoothly_ask, eval_netCall, he]
  dsimp only
  rw [smoothly_borrowMatching, if_neg (by simp [hfound])]
  rfl

/-! ### What becomes of the other interfaces -/

/-- An interface with a VLAN has the name of a VLAN interface. -/
def Host.Named (h : Host) : Prop :=
  ∀ device i, h.get device = some i → i.vlan ≠ none →
    vlanName device = true ∧ interfaceName device = true

variable {h host : Host} {device parent : String} {tag : Int} {owned o : Bool} {d : String}

theorem Host.hasVLAN_put {i : Interface} (hvlan : i.vlan = some (parent, tag)) :
    Host.HasVLAN (h.put device i) device parent tag :=
  ⟨i, by rw [Table.get_put, if_pos rfl], hvlan⟩

theorem Resolved.hasVLAN (hr : Resolved w h device parent tag owned d o host) :
    host.HasVLAN d parent tag := by
  cases hr with
  | kept hvlan hne => exact hvlan
  | configured i hget hvlan hne => exact Host.hasVLAN_put rfl
  | found hfound hother => exact Host.hasVLAN_findVLAN hfound
  | created hcreates => exact Host.hasVLAN_put rfl

/-- An interface stays as it is, or takes the VLAN that it lacked. -/
theorem Resolved.get (hr : Resolved w h device parent tag owned d o host)
    (hname : Unused w.device h) {x : String} {i : Interface} (hi : h.get x = some i) :
    host.get x = some i ∨
      i.vlan = none ∧ x = device ∧ device ≠ "" ∧
        host.get x = some { i with vlan := some (parent, tag) } := by
  cases hr with
  | kept hvlan hne => exact .inl hi
  | found hfound hother => exact .inl hi
  | configured j hget hvlan hne =>
    rw [Table.get_put]
    split
    · rename_i hx
      subst hx
      rw [hget] at hi
      cases hi
      exact .inr ⟨hvlan, rfl, hne, rfl⟩
    · exact .inl hi
  | created hcreates =>
    rw [Table.get_put]
    split
    · rename_i hx
      rw [hx, hname.free] at hi
      cases hi
    · exact .inl hi

/-- The only new interface is the created one. -/
theorem Resolved.new (hr : Resolved w h device parent tag owned d o host) {x : String}
    (hx : h.get x = none) :
    host.get x = none ∨
      x = w.device ∧ d = w.device ∧ o = true ∧ h.Creates device parent tag ∧
        host.get x = some { made := true, vlan := some (parent, tag) } := by
  cases hr with
  | kept hvlan hne => exact .inl hx
  | found hfound hother => exact .inl hx
  | configured j hget hvlan hne =>
    rw [Table.get_put]
    split
    · rename_i hxd
      rw [hxd, hget] at hx
      cases hx
    · exact .inl hx
  | created hcreates =>
    rw [Table.get_put]
    split
    · rename_i hxd
      exact .inr ⟨hxd, rfl, rfl, hcreates, rfl⟩
    · exact .inl hx

theorem Resolved.isSome (hr : Resolved w h device parent tag owned d o host)
    (hname : Unused w.device h) {x : String} (hx : (h.get x).isSome) : (host.get x).isSome := by
  obtain ⟨i, hi⟩ := Option.isSome_iff_exists.mp hx
  rcases hr.get hname hi with h | ⟨-, -, -, h⟩
  · rw [h]
    rfl
  · rw [h]
    rfl

/-- A VLAN that an interface has stays. -/
theorem Resolved.keeps (hr : Resolved w h device parent tag owned d o host)
    (hname : Unused w.device h) {x p : String} {t : Int} (hx : h.HasVLAN x p t) :
    host.HasVLAN x p t := by
  obtain ⟨i, hi, hvlan⟩ := hx
  rcases hr.get hname hi with h | ⟨hnone, -⟩
  · exact ⟨i, h, hvlan⟩
  · rw [hnone] at hvlan
    cases hvlan

theorem Resolved.named (hr : Resolved w h device parent tag owned d o host)
    (hname : Unused w.device h) (hnamed : h.Named)
    (hdevice : device = "" ∨ vlanName device = true ∧ interfaceName device = true) :
    host.Named := by
  intro x i hi hvlan
  cases hold : h.get x with
  | none =>
    rcases hr.new hold with hnone | ⟨rfl, -⟩
    · rw [hnone] at hi
      cases hi
    · exact ⟨hname.vlan, hname.interface⟩
  | some j =>
    rcases hr.get hname hold with hsame | ⟨-, rfl, hne, -⟩
    · rw [hsame] at hi
      cases hi
      exact hnamed x i hold hvlan
    · exact hdevice.resolve_left hne

theorem Resolved.distinct (hr : Resolved w h device parent tag owned d o host)
    (hd : (h.map (·.1)).Nodup) : (host.map (·.1)).Nodup := by
  cases hr with
  | kept hvlan hne => exact hd
  | found hfound hother => exact hd
  | configured i hget hvlan hne => exact Table.nodup_put hd _ _
  | created hcreates => exact Table.nodup_put hd _ _

end Resolve

end Maco.Network
