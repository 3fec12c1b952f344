import Maco.Network.Undo
import Maco.Engine.Network

/-! What a failed `CreateNetwork` leaves behind.  The host is watched through a call of which one
command or save fails while the new network is applied: what was made by then is recorded in the
manifest that the rollback reads, but for an address of a bridge that was there before, and for a
new VLAN interface whose name the request had given. -/

namespace Maco.Engine.Residue

open Concurrent Network

/-- Where a call of `CreateNetwork` is: the network is applied under the lock. -/
inductive Phase where
  | before
  | applying
  | after
  deriving DecidableEq, Repr

/-- The call of the apply that failed, how it did, and the host and the store that it found. -/
structure Failure where
  call : NetCall
  choice : NetChoice
  state : NetState

structure Attempt where
  net : NetState
  phase : Phase := .before
  failure : Option Failure := none

/-- The call fails, be it once it has taken effect. -/
def fails : NetChoice → Bool
  | .fail _ | .failTook _ => true
  | _ => false

def took : NetChoice → Bool
  | .failTook _ => true
  | _ => false

def locks : NetCall → Bool
  | .lock | .unlock => true
  | _ => false

/-- The call is a question whose failure reads as a no. -/
def asks : NetCall → Bool
  | .interfaceExists _ | .isBridge _ | .hasAddress _ _ => true
  | _ => false

/-- At most one call of the apply fails, the lock is given and given back, and after the apply no
failure is silent. -/
def Attempt.allows (x : Attempt) (a : NetCall) (c : NetChoice) : Bool :=
  !fails c || !locks a && match x.phase with
    | .before => !took c
    | .applying => x.failure.isNone
    | .after => !asks a

def Phase.next : Phase → NetCall → Phase
  | _, .lock => .applying
  | _, .unlock => .after
  | phase, _ => phase

def Attempt.next (x : Attempt) (a : NetCall) (c : NetChoice) (t : NetState) : Attempt where
  net := t
  phase := x.phase.next a
  failure := if x.phase = .applying ∧ fails c = true then some ⟨a, c, x.net⟩ else x.failure

def Attempt.perform (f : Formats) : Perform NetCall NetCall.Reply NetChoice Attempt := fun a c x =>
  if x.allows a c then
    match NetState.perform f a c x.net with
    | some (r, t) => some (r, x.next a c t)
    | none => none
  else none

abbrev trial (f : Formats) : Setting NetCall NetCall.Reply NetChoice Attempt :=
  Setting.alone (Attempt.perform f) fun _ _ _ => True

/-! ### Rules -/

section Rules

variable {f : Formats} {x : Attempt} {α β : Type}

theorem perform_cases {a : NetCall} {c : NetChoice} {r : a.Reply} {y : Attempt}
    (h : Attempt.perform f a c x = some (r, y)) :
    ∃ t, x.allows a c = true ∧ NetState.perform f a c x.net = some (r, t) ∧ y = x.next a c t := by
  unfold Attempt.perform at h
  split at h
  · rename_i hallows
    split at h
    · rename_i r' t ht
      cases h
      exact ⟨t, hallows, ht, rfl⟩
    · cases h
  · cases h

theorem wp_netCall {a : NetCall} {Q : a.Reply → Attempt → Prop}
    (h : ∀ c r t, x.allows a c = true → NetState.perform f a c x.net = some (r, t) →
      Q r (x.next a c t)) : wp (trial f) (netCall a) Q x := by
  apply wp_alone_call
  intro c r y _ hp
  obtain ⟨t, hallows, ht, rfl⟩ := perform_cases hp
  exact h c r t hallows ht

theorem attempt_outcome {c : NetChoice} {able : Bool} {s u t : NetState} {r : Except Message Unit}
    (h : c.attempt able s u = some (r, t)) :
    (fails c = false ∧ able = true ∧ r = .ok () ∧ t = u) ∨
      ∃ e, c = .fail e ∧ r = .error e ∧ t = s := by
  cases c with
  | ok =>
    obtain ⟨hable, hr, ht⟩ | ⟨-, e, hr⟩ := NetChoice.attempt_cases h
    · exact .inl ⟨rfl, hable, hr, ht⟩
    · rw [NetChoice.attempt] at h
      split at h
      · rw [hr] at h
        cases h
      · cases h
  | fail e =>
    cases h
    exact .inr ⟨e, rfl, rfl, rfl⟩
  | failTook e | name d | fileExists | vms l | running b | references l => cases h

theorem write_outcome {c : NetChoice} {able : Bool} {s u t : NetState} {r : Except Message Unit}
    (h : c.write able s u = some (r, t)) :
    (fails c = false ∧ able = true ∧ r = .ok () ∧ t = u) ∨
      (∃ e, c = .fail e ∧ r = .error e ∧ t = s) ∨
      ∃ e, c = .failTook e ∧ able = true ∧ r = .error e ∧ t = u := by
  cases c with
  | failTook e =>
    rw [NetChoice.write] at h
    split at h
    · rename_i hable
      cases h
      exact .inr (.inr ⟨e, rfl, hable, rfl, rfl⟩)
    · cases h
  | ok | fail e | name d | fileExists | vms l | running b | references l =>
    simp only [NetChoice.write] at h
    exact (attempt_outcome h).imp_right .inl

theorem wpOk_ask {p : Net α} {Q : α → Attempt → Prop} (h : wp (trial f) p Q x) :
    wpOk (trial f) (ask p) Q x :=
  wpOk_lift h

theorem wpOk_onlyIf {c : Prop} [Decidable c] {p : NetM Unit} {Q : Unit → Attempt → Prop}
    (h : c → wpOk (trial f) p Q x) (hnot : ¬ c → Q () x) : wpOk (trial f) (onlyIf c p) Q x := by
  unfold onlyIf
  split
  · rename_i hc
    exact h hc
  · rename_i hc
    exact wpOk_pure (hnot hc)

theorem wpOk_refuse {e : Message} {Q : α → Attempt → Prop} : wpOk (trial f) (refuse e) Q x :=
  wpOk_fail

end Rules

/-! ### The rollback -/

/-- The rollback has not touched the store, and the host looks like `v`. -/
structure Rolled (x : Attempt) (v : View) (y : Attempt) : Prop where
  phase : y.phase = .after
  manifests : y.net.manifests = x.net.manifests
  failure : y.failure = x.failure
  view : y.net.host.view = v
  closed : v.Closed

section Rollback

variable {f : Formats} {x y : Attempt} {v : View} {n : NetworkManifest}

theorem Rolled.next (h : Rolled x v y) {a : NetCall} (ha : y.phase.next a = .after) {c : NetChoice}
    {t : NetState} {u : View} (hmanifests : t.manifests = y.net.manifests) (hview : t.host.view = u)
    (hu : u.Closed) : Rolled x u (y.next a c t) where
  phase := ha
  manifests := hmanifests.trans h.manifests
  failure := by
    show (if y.phase = .applying ∧ fails c = true then some ⟨a, c, y.net⟩ else y.failure) = _
    rw [h.phase, if_neg (by simp)]
    exact h.failure
  view := hview
  closed := hu

/-- A question is answered truly. -/
theorem Rolled.wp_asks (h : Rolled x v y) {a : NetCall} (ha : asks a = true)
    {Q : a.Reply → Attempt → Prop} (hphase : y.phase.next a = .after)
    (hQ : ∀ r z, NetState.perform f a .ok y.net = some (r, y.net) → Rolled x v z →
      z.net = y.net → Q r z) : wp (trial f) (netCall a) Q y := by
  refine wp_netCall fun c r t hallows hp => ?_
  have hfails : fails c = false := by
    rw [Attempt.allows, h.phase] at hallows
    simpa [ha] using hallows
  have hok : NetState.perform f a .ok y.net = some (r, y.net) ∧ t = y.net := by
    cases a with
    | interfaceExists d | isBridge d | hasAddress d a =>
      cases c with
      | ok =>
        cases hp
        exact ⟨rfl, rfl⟩
      | fail e | failTook e => cases hfails
      | name d | fileExists | vms l | running b | references l => cases hp
    | lock | unlock | newString | save n | load id | resolve ref | list | delete id
    | bridgeMembers d | createBridge n | createVLAN n | destroy n d | addMember b m
    | removeMember b m | configureVLAN d p t | findVLAN p t | setAddress d c | removeAlias d a
    | up d | listVMs | running id | pendingReferences id => cases ha
  rw [hok.2]
  exact hQ r _ hok.1 (h.next hphase rfl h.view h.closed) rfl

theorem Rolled.wp_exists (h : Rolled x v y) {d : String} {Q : Bool → Attempt → Prop}
    (hQ : ∀ z, Rolled x v z → z.net = y.net → Q (y.net.host.get d).isSome z) :
    wp (trial f) (netCall (.interfaceExists d)) Q y := by
  refine h.wp_asks rfl h.phase fun r z hr hz hnet => ?_
  cases hr
  exact hQ z hz hnet

theorem Rolled.wpOk_destroy (h : Rolled x v y) (network d : String) :
    wpOk (trial f) (attempt (netCall (.destroy network d))) (fun _ z => Rolled x (v.drop [d]) z)
      y := by
  refine wp_netCall fun c r t _ hp => ?_
  intro _ hr
  obtain ⟨-, -, rfl⟩ | ⟨-, e, he⟩ := NetChoice.attempt_cases hp
  · exact h.next (a := .destroy network d) h.phase rfl
      (by rw [← h.view]; exact view_destroyed _ d) (h.closed.drop [d])
  · rw [he] at hr
    cases hr

theorem Rolled.wpOk_removeMember (h : Rolled x v y) (d m : String) :
    wpOk (trial f) (attempt (netCall (.removeMember d m))) (fun _ z => Rolled x (v.detach d [m]) z)
      y := by
  refine wp_netCall fun c r t _ hp => ?_
  intro _ hr
  obtain ⟨-, -, rfl⟩ | ⟨-, e, he⟩ := NetChoice.attempt_cases hp
  · exact h.next (a := .removeMember d m) h.phase rfl
      (by rw [← h.view]; exact view_detached _ d m) (h.closed.detach [m])
  · rw [he] at hr
    cases hr

theorem Rolled.wpOk_removeAlias (h : Rolled x v y) (d a : String) :
    wpOk (trial f) (attempt (netCall (.removeAlias d a))) (fun _ z => Rolled x (v.unassign d a) z)
      y := by
  refine wp_netCall fun c r t _ hp => ?_
  intro _ hr
  obtain ⟨-, -, rfl⟩ | ⟨-, e, he⟩ := NetChoice.attempt_cases hp
  · exact h.next (a := .removeAlias d a) h.phase rfl
      (by rw [← h.view]; exact view_unaddressed _ d a) (h.closed.unassign a)
  · rw [he] at hr
    cases hr

/-- What is done to an interface if it is there, where it is nothing to an interface that is not. -/
theorem Rolled.wpOk_onlyExisting (h : Rolled x v y) {d : String} {p : NetM Unit} {u : View}
    (hnone : v d = none → u = v) (hp : ∀ z, Rolled x v z → wpOk (trial f) p
      (fun _ z => Rolled x u z) z) :
    wpOk (trial f) (onlyWhen (netCall (.interfaceExists d)) p) (fun _ z => Rolled x u z) y := by
  refine wpOk_bind (wpOk_ask (h.wp_exists (Q := fun b z => Rolled x v z ∧
    b = (y.net.host.get d).isSome) fun z hz _ => ⟨hz, rfl⟩)) ?_
  rintro b z ⟨hz, rfl⟩
  refine wpOk_onlyIf (fun _ => hp z hz) fun hmissing => ?_
  have hv : v d = none := by
    rw [← h.view]
    exact view_none.mpr (by simpa using hmissing)
  rwa [hnone hv]

/-- An interface is destroyed if it is there. -/
theorem Rolled.wpOk_destroyExisting (h : Rolled x v y) (network d : String) :
    wpOk (trial f) (onlyWhen (netCall (.interfaceExists d))
        (attempt (netCall (.destroy network d)))) (fun _ z => Rolled x (v.drop [d]) z) y := by
  exact h.wpOk_onlyExisting (fun hnone => h.closed.drop_none hnone) fun z hz =>
    hz.wpOk_destroy network d

theorem Rolled.wpOk_destroyVLANs (h : Rolled x v y) (network : String) (vlans : List VLAN)
    (hnamed : ∀ a ∈ vlans, a.device ≠ "") :
    wpOk (trial f) (vlans.forM fun a => onlyIf (a.device ≠ "") (destroyVLAN network a))
      (fun _ z => Rolled x (v.drop ((vlans.filter (·.borrowed = false)).map (·.device))) z) y := by
  induction vlans generalizing v y with
  | nil =>
    refine wpOk_pure ?_
    rwa [List.filter_nil, List.map_nil, View.drop_nil]
  | cons a vlans ih =>
    have hrest := fun b hb => hnamed b (List.mem_cons_of_mem a hb)
    refine wpOk_bind (P := fun _ z => Rolled x (if a.borrowed = false then v.drop [a.device]
      else v) z) (wpOk_onlyIf (fun _ => wpOk_onlyIf (fun hmade => ?_) fun hborrowed => ?_)
        fun hunnamed => absurd (hnamed a List.mem_cons_self) hunnamed) fun _ z hz => ?_
    · rw [if_pos hmade]
      exact h.wpOk_destroyExisting network a.device
    · rwa [if_neg hborrowed]
    · by_cases hmade : a.borrowed = false
      · rw [if_pos hmade] at hz
        rw [List.filter_cons_of_pos (by simpa using hmade), List.map_cons, ← List.singleton_append,
          ← View.drop_drop]
        exact ih hz hrest
      · rw [if_neg hmade] at hz
        rw [List.filter_cons_of_neg (by simpa using hmade)]
        exact ih hz hrest

theorem Rolled.wpOk_removeMembers (h : Rolled x v y) (d : String) (members : List String) :
    wpOk (trial f) (members.forM fun m => attempt (netCall (.removeMember d m)))
      (fun _ z => Rolled x (v.detach d members) z) y := by
  induction members generalizing v y with
  | nil =>
    refine wpOk_pure ?_
    rwa [View.detach_nil]
  | cons m members ih =>
    refine wpOk_bind (h.wpOk_removeMember d m) fun _ z hz => ?_
    rw [← List.singleton_append, ← View.detach_detach]
    exact ih hz

/-- The members that were applied go. -/
theorem Rolled.wpOk_detachApplied (h : Rolled x v y) (n : NetworkManifest) :
    wpOk (trial f) (detachApplied n) (fun _ z => Rolled x (v.detach n.device n.appliedMembers) z)
      y := by
  refine wpOk_bind (P := fun _ z => Rolled x v z) ?_ fun _ z hz => ?_
  · refine wpOk_bind (P := fun _ z => Rolled x v z) (wpOk_ask (h.wp_asks rfl h.phase
      fun _ z _ hz _ => hz)) fun found z hz => ?_
    split
    · exact wpOk_pure hz
    · exact wpOk_refuse
  · refine wpOk_bind (P := fun members w => Rolled x v w ∧
      ∀ p, v n.device = some p → p.1 = members) ?_ ?_
    · refine wp_netCall fun c r t _ hp => ?_
      intro members hr
      rw [NetState.perform] at hp
      split at hp
      · rename_i i hi
        obtain ⟨rfl, hr' | ⟨e, hr'⟩⟩ := NetChoice.query_cases hp
        · rw [hr] at hr'
          cases hr'
          refine ⟨hz.next (a := .bridgeMembers n.device) hz.phase rfl hz.view hz.closed, ?_⟩
          intro p hv
          rw [← hz.view, Host.view, hi] at hv
          cases hv
          rfl
        · rw [hr] at hr'
          cases hr'
      · obtain ⟨rfl, hr' | ⟨e, hr'⟩⟩ := NetChoice.query_cases hp
        · rw [hr] at hr'
          cases hr'
        · rw [hr] at hr'
          cases hr'
    · rintro members w ⟨hw, hmembers⟩
      split
      · exact wpOk_refuse
      · refine wpOk_mono (hw.wpOk_removeMembers n.device _) fun _ u hu => ?_
        have hsame : v.detach n.device (n.appliedMembers.filter (· ∈ members)) =
            v.detach n.device n.appliedMembers := by
          funext d
          unfold View.detach View.change
          split
          · rename_i hd
            subst hd
            cases hp : v n.device with
            | none => rfl
            | some p =>
              rw [Option.map_some, Option.map_some, hmembers p hp]
              have hkept : members.filter (· ∉ n.appliedMembers.filter (· ∈ members)) =
                  members.filter (· ∉ n.appliedMembers) :=
                List.filter_congr fun m hm => by simp [hm]
              rw [hkept]
          · rfl
        rwa [hsame] at hu

theorem Rolled.wpOk_removeAddress (h : Rolled x v y) (d a : String) :
    wpOk (trial f) (attempt (removeAddress d a)) (fun _ z => Rolled x (v.unassign d a) z) y := by
  refine wp_seq (h.wp_asks (Q := fun b z => Rolled x v z ∧
    b = y.net.host.test d (·.hasAddress a)) rfl h.phase fun r z hr hz _ => ⟨hz, ?_⟩) ?_
  · cases hr
    rfl
  · rintro b z ⟨hz, rfl⟩
    split
    · rename_i habsent
      intro _ hr
      have hsame : v.unassign d a = v := by
        refine View.change_same fun p hp => ?_
        rw [← h.view] at hp
        obtain ⟨i, hi, rfl⟩ := Option.map_eq_some_iff.mp hp
        have hkept : (i.addresses.map (·.1)).filter (· ≠ a) = i.addresses.map (·.1) := by
          refine List.filter_eq_self.mpr fun b hb => ?_
          simp only [Host.test, hi, Option.any_some, Interface.hasAddress] at habsent
          rw [decide_eq_true_eq]
          rintro rfl
          obtain ⟨e, he, rfl⟩ := List.mem_map.mp hb
          simp only [Bool.not_eq_true', List.any_eq_false, decide_eq_true_eq] at habsent
          exact habsent e he rfl
        rw [hkept]
      rwa [hsame]
    · exact hz.wpOk_removeAlias d a

theorem Rolled.wpOk_destroyBridge (h : Rolled x v y)
    (hnamed : ∀ a ∈ n.appliedVLANs, a.device ≠ "") :
    wpOk (trial f) (destroyBridge n) (fun _ z => Rolled x (undoneBridge n v) z) y := by
  refine wpOk_bind (h.wpOk_onlyExisting (u := v.detach n.device n.appliedMembers)
    (fun hnone => View.change_none hnone) fun z hz => hz.wpOk_detachApplied n) fun _ z hz => ?_
  refine wpOk_bind (hz.wpOk_destroyVLANs n.id n.appliedVLANs hnamed) fun _ z hz => ?_
  rw [undoneBridge, madeVLANs]
  generalize (v.detach n.device n.appliedMembers).drop
    ((n.appliedVLANs.filter (·.borrowed = false)).map (·.device)) = rest at hz
  refine wpOk_bind (P := fun _ w => Rolled x (if n.owned = false ∧ n.appliedAddress ≠ "" then
    rest.unassign n.device n.appliedAddress else rest) w) (wpOk_onlyIf (fun hc => ?_) fun hc => ?_)
    fun _ w hw => ?_
  · rw [if_pos hc]
    exact hz.wpOk_onlyExisting (fun hnone => View.change_none hnone) fun w hw =>
      hw.wpOk_removeAddress n.device n.appliedAddress
  · rwa [if_neg hc]
  · refine wpOk_onlyIf (fun howned => ?_) fun howned => ?_
    · rw [if_neg (by simp [howned])] at hw
      rw [if_pos howned]
      exact hw.wpOk_onlyExisting (fun hnone => hw.closed.drop_none hnone) fun u hu =>
        hu.wpOk_destroy n.id n.device
    · rw [if_neg howned]
      simpa [howned] using hw

/-- `Destroy` takes back what the manifest records. -/
theorem Rolled.wpOk_networkDestroy (h : Rolled x v y) (hcheck : check f n = .ok ()) :
    wpOk (trial f) (Network.destroy n) (fun _ z => Rolled x (undone n v) z) y := by
  have hnamed : ∀ a ∈ n.appliedVLANs, a.device ≠ "" := by
    intro a ha hempty
    have hvlan := (check_iff.mp hcheck).2.2.2.1 a ha
    rw [hempty] at hvlan
    cases hvlan
  cases hmode : n.mode with
  | vlan =>
    simp only [Network.destroy, undone, hmode]
    refine wpOk_onlyIf (fun howned => ?_) fun howned => ?_
    · unfold existing
      by_cases hdevice : n.device = ""
      · simp only [hdevice, howned, if_true, ne_eq, not_true_eq_false, and_false, if_false]
        exact wpOk_bind (wpOk_ask (p := pure false) (Q := fun b z => b = false ∧ Rolled x v z)
          ⟨rfl, h⟩) fun b z hz =>
            wpOk_onlyIf (fun hb => absurd (hz.1 ▸ hb) (by simp)) fun _ => hz.2
      · simp only [hdevice, howned, ne_eq, not_false_eq_true, and_self, if_true, if_false]
        exact h.wpOk_destroyExisting n.id n.device
    · rwa [if_neg fun h => howned h.1]
  | bridge =>
    simp only [Network.destroy, undone, hmode]
    exact h.wpOk_destroyBridge hnamed
  | user | vmnetBridged | switch | bridged | other name =>
    simp only [Network.destroy, undone, hmode]
    exact wpOk_pure h

end Rollback

/-! ### What is recorded -/

/-- A call of `CreateNetwork`, with the host and the store that it finds. -/
structure Request where
  formats : Formats
  start : NetState
  params : CreateNetworkParams

/-- The call has given the new network its id. -/
structure Creation extends Request where
  id : String

/-- The bridge that was asked for has an address that it had not, which the manifest does not
record, or not in the text that the host has. -/
def Failure.Unassigned (q : Request) (p : Failure) : Prop :=
  ∃ old new text, q.start.host.view q.params.device = some old ∧
    p.state.host.view q.params.device = some new ∧ q.formats.shown q.params.address = some text ∧
    text ∉ old.2 ∧ text ∈ new.2 ∧ (took p.choice = true → text ≠ q.params.address)

/-- A VLAN interface was made under the name that the request gives, and the save that would record
it fails. -/
def Failure.Unowned (q : Request) (p : Failure) : Prop :=
  NetworkMode.ofString q.params.mode = .vlan ∧ q.start.host.view q.params.device = none ∧
    p.state.host.view q.params.device ≠ none ∧ took p.choice = false ∧
    ∃ m stored, p.call = .save m ∧ p.state.manifests.get m.id = some stored ∧ stored.owned = false

/-- The failure leaves something behind. -/
def Request.Leaves (q : Request) (failure : Option Failure) : Prop :=
  ∃ p, failure = some p ∧ (p.Unassigned q ∨ p.Unowned q)

/-- What is made is recorded in the stored manifest `n`, but for what `back` takes back. -/
structure Recorded (q : Creation) (n : NetworkManifest) (back : View → View) (x : Attempt) :
    Prop where
  phase : x.phase = .applying
  ident : n.id = q.id
  stored : x.net.manifests.get q.id = some n
  others : ∀ id, id ≠ q.id → x.net.manifests.get id = q.start.manifests.get id
  check : check q.formats n = .ok ()
  unassigned : n.appliedAddress = ""
  closed : x.net.host.view.Closed
  reverts : undone n (back x.net.host.view) = q.start.host.view
  untouched : ∀ d p, q.start.host.view d = some p → ∃ p', x.net.host.view d = some p' ∧ p'.2 = p.2
  clear : ¬ q.Leaves x.failure

/-- The apply has failed, and the rollback finds the manifest `n`. -/
structure Ended (q : Creation) (n : NetworkManifest) (x : Attempt) : Prop where
  phase : x.phase = .applying
  ident : n.id = q.id
  stored : x.net.manifests.get q.id = some n
  others : ∀ id, id ≠ q.id → x.net.manifests.get id = q.start.manifests.get id
  check : check q.formats n = .ok ()
  closed : x.net.host.view.Closed
  exactly : undone n x.net.host.view = q.start.host.view ↔ ¬ q.Leaves x.failure

/-- A part of the apply: where it fails, the rollback knows what to do. -/
def Stage {α : Type} (q : Creation) (p : NetM α) (Q : α → Attempt → Prop) (x : Attempt) : Prop :=
  wp (trial q.formats) p.run (fun r y =>
    match r with
    | .ok a => Q a y
    | .error _ => ∃ n, Ended q n y) x

section Stages

variable {q : Creation} {n m : NetworkManifest} {back : View → View} {x y : Attempt} {α β : Type}
  {mode : NetworkMode}

theorem Recorded.ended (h : Recorded q n id x) : Ended q n x where
  phase := h.phase
  ident := h.ident
  stored := h.stored
  others := h.others
  check := h.check
  closed := h.closed
  exactly := iff_of_true h.reverts h.clear

theorem stage_pure {a : α} {Q : α → Attempt → Prop} (h : Q a x) : Stage q (pure a) Q x := h

theorem stage_refuse {e : Message} {Q : α → Attempt → Prop} (h : Recorded q n id x) :
    Stage q (refuse e) Q x := ⟨n, h.ended⟩

theorem stage_mono {p : NetM α} {P Q : α → Attempt → Prop} (h : Stage q p P x)
    (hQ : ∀ a y, P a y → Q a y) : Stage q p Q x := by
  refine wp_mono h fun r y hr => ?_
  cases r with
  | error e => exact hr
  | ok a => exact hQ a y hr

theorem stage_bind {p : NetM α} {k : α → NetM β} {P : α → Attempt → Prop} {Q : β → Attempt → Prop}
    (h : Stage q p P x) (hk : ∀ a y, P a y → Stage q (k a) Q y) : Stage q (p >>= k) Q x := by
  refine wp_andThen (wp_mono h fun r y hr => ?_)
  cases r with
  | error e => exact hr
  | ok a => exact hk a y hr

theorem stage_pure_bind {a : α} {k : α → NetM β} {Q : β → Attempt → Prop} (h : Stage q (k a) Q x) :
    Stage q (pure a >>= k) Q x := h

theorem stage_ask {p : Net α} {Q : α → Attempt → Prop} (h : wp (trial q.formats) p Q x) :
    Stage q (ask p) Q x :=
  wp_seq h fun _ _ hr => hr

theorem stage_onlyIf {c : Prop} [Decidable c] {p : NetM Unit} {Q : Unit → Attempt → Prop}
    (h : c → Stage q p Q x) (hnot : ¬ c → Q () x) : Stage q (onlyIf c p) Q x := by
  unfold onlyIf
  split
  · rename_i hc
    exact h hc
  · rename_i hc
    exact hnot hc

/-- A failure is one of which nothing is left, where the save of a new VLAN interface is not in
question. -/
theorem Recorded.innocent (h : Recorded q n back x) {a : NetCall} {c : NetChoice}
    (hunowned : ¬ Failure.Unowned q.toRequest ⟨a, c, x.net⟩) : ¬ q.Leaves (some ⟨a, c, x.net⟩) := by
  rintro ⟨p, hp, hleft⟩
  cases hp
  rcases hleft with ⟨old, new, text, hold, hnew, -, habsent, hpresent, -⟩ | hleft
  · obtain ⟨p, hp, hsame⟩ := h.untouched _ old hold
    rw [hnew] at hp
    cases hp
    exact habsent (hsame ▸ hpresent)
  · exact hunowned hleft

/-- A call that leaves the host and the store as they are. -/
theorem Recorded.next_same (h : Recorded q n back x) {a : NetCall} {c : NetChoice}
    (hphase : x.phase.next a = .applying)
    (hunowned : fails c = true → ¬ Failure.Unowned q.toRequest ⟨a, c, x.net⟩) :
    Recorded q n back (x.next a c x.net) where
  phase := hphase
  ident := h.ident
  stored := h.stored
  others := h.others
  check := h.check
  unassigned := h.unassigned
  closed := h.closed
  reverts := h.reverts
  untouched := h.untouched
  clear := by
    show ¬ q.Leaves (if x.phase = .applying ∧ fails c = true then some ⟨a, c, x.net⟩ else x.failure)
    split
    · rename_i hc
      exact h.innocent (hunowned hc.2)
    · exact h.clear

/-- The call looks, and neither takes nor gives back the lock. -/
def Inquires (a : NetCall) : Prop := a.Looks ∧ ∀ phase : Phase, phase.next a = phase

theorem Recorded.inquires (h : Recorded q n back x) {p : Net α} (hp : p.Calls Inquires) :
    wp (trial q.formats) p (fun _ y => Recorded q n back y) x := by
  refine wp_of_calls hp h ?_ ?_
  · rintro y z hy rfl
    exact hy
  · intro y a c r z ha hy _ hstep
    obtain ⟨t, -, ht, rfl⟩ := perform_cases hstep
    rw [NetState.perform_looks ha.1 ht]
    refine ⟨trivial, hy.next_same ((ha.2 _).trans hy.phase) ?_⟩
    rintro - ⟨-, -, -, -, m, stored, hsave, -⟩
    rw [show a = .save m from hsave] at ha
    exact ha.1

theorem Recorded.stage_inquires (h : Recorded q n id x) {p : NetM α} (hp : p.run.Calls Inquires) :
    Stage q p (fun _ y => Recorded q n id y) x := by
  refine wp_mono (h.inquires hp) fun r y hy => ?_
  cases r with
  | error e => exact ⟨n, hy.ended⟩
  | ok a => exact hy

/-- A step that leaves the store as it is. -/
theorem Recorded.next (h : Recorded q n back x) {a : NetCall} {c : NetChoice} {t : NetState}
    {back' : View → View} (hphase : x.phase.next a = .applying)
    (hmanifests : t.manifests = x.net.manifests) (hclosed : t.host.view.Closed)
    (hundone : undone n (back' t.host.view) = undone n (back x.net.host.view))
    (huntouched : ∀ d p, x.net.host.view d = some p → ∃ p', t.host.view d = some p' ∧ p'.2 = p.2)
    (hunowned : fails c = true → ¬ Failure.Unowned q.toRequest ⟨a, c, x.net⟩) :
    Recorded q n back' (x.next a c t) where
  phase := hphase
  ident := h.ident
  stored := by
    show t.manifests.get q.id = some n
    rw [hmanifests]
    exact h.stored
  others := by
    show ∀ id, id ≠ q.id → t.manifests.get id = _
    rw [hmanifests]
    exact h.others
  check := h.check
  unassigned := h.unassigned
  closed := hclosed
  reverts := hundone.trans h.reverts
  untouched d p hp := by
    obtain ⟨p1, h1, heq1⟩ := h.untouched d p hp
    obtain ⟨p2, h2, heq2⟩ := huntouched d p1 h1
    exact ⟨p2, h2, heq2.trans heq1⟩
  clear := (h.next_same hphase hunowned).clear

theorem next_failure {a : NetCall} {c : NetChoice} {t : NetState} (hc : fails c = false) :
    (x.next a c t).failure = x.failure := by
  show (if x.phase = .applying ∧ fails c = true then some ⟨a, c, x.net⟩ else x.failure) = _
  rw [hc, if_neg (by simp)]

/-! ### What is taken back at once -/

/-- Something is taken back from the host. -/
structure TakenBack (back : View → View) (y z : Attempt) : Prop where
  phase : z.phase = y.phase
  manifests : z.net.manifests = y.net.manifests
  failure : z.failure = y.failure
  view : z.net.host.view = back y.net.host.view

theorem wp_discard {a : NetCall} {Q : Unit → Attempt → Prop}
    (h : wp (trial q.formats) (netCall a) (fun _ z => Q () z) x) :
    wp (trial q.formats) (discard a) Q x :=
  wp_seq h fun _ _ hz => hz

/-- Once a call has failed no other does. -/
theorem sure {a : NetCall} {c : NetChoice} (hphase : y.phase = .applying)
    (hfailed : y.failure ≠ none) (hallows : y.allows a c = true) : fails c = false := by
  rw [Attempt.allows, hphase] at hallows
  simpa [hfailed] using hallows

theorem takenBack_next {a : NetCall} {c : NetChoice} {t : NetState} (hphase : y.phase = .applying)
    (ha : y.phase.next a = .applying) (hc : fails c = false)
    (hmanifests : t.manifests = y.net.manifests) (hview : t.host.view = back y.net.host.view) :
    TakenBack back y (y.next a c t) where
  phase := ha.trans hphase.symm
  manifests := hmanifests
  failure := next_failure hc
  view := hview

theorem wp_destroyNow (network d : String) (hphase : y.phase = .applying)
    (hfailed : y.failure ≠ none) :
    wp (trial q.formats) (discard (.destroy network d))
      (fun _ z => TakenBack (·.drop [d]) y z) y := by
  refine wp_discard (wp_netCall fun c r t hallows hp => ?_)
  have hc := sure hphase hfailed hallows
  obtain ⟨-, -, -, rfl⟩ | ⟨e, rfl, -⟩ := attempt_outcome hp
  · exact takenBack_next hphase hphase hc rfl (view_destroyed _ d)
  · cases hc

theorem wp_removeNow (bridge m : String) (hphase : y.phase = .applying)
    (hfailed : y.failure ≠ none) :
    wp (trial q.formats) (discard (.removeMember bridge m))
      (fun _ z => TakenBack (·.detach bridge [m]) y z) y := by
  refine wp_discard (wp_netCall fun c r t hallows hp => ?_)
  have hc := sure hphase hfailed hallows
  obtain ⟨-, -, -, rfl⟩ | ⟨e, rfl, -⟩ := attempt_outcome hp
  · exact takenBack_next hphase hphase hc rfl (view_detached _ bridge m)
  · cases hc

/-- Once it is taken back, all is recorded. -/
theorem Recorded.takenBack (h : Recorded q n back x) (hclosed : (back x.net.host.view).Closed)
    {z : Attempt} (hz : TakenBack back x z) : Recorded q n id z where
  phase := hz.phase.trans h.phase
  ident := h.ident
  stored := hz.manifests ▸ h.stored
  others := hz.manifests ▸ h.others
  check := h.check
  unassigned := h.unassigned
  closed := hz.view ▸ hclosed
  reverts := by
    rw [hz.view]
    exact h.reverts
  untouched d p hp := by
    rw [hz.view]
    rw [← h.reverts] at hp
    exact undone_some h.unassigned hp
  clear := hz.failure ▸ h.clear

/-! ### Saves -/

/-- The manifest `n'` records what `back` takes back, and what is taken back of `n`. -/
structure Records (n n' : NetworkManifest) (back : View → View) : Prop where
  ident : n'.id = n.id
  unassigned : n'.appliedAddress = ""
  reverts : ∀ v, undone n' v = undone n (back v)
  twice : ∀ v, back (back v) = back v
  closed : ∀ v : View, v.Closed → (back v).Closed

variable {n' : NetworkManifest}

/-- A manifest is stored that records what was made. -/
theorem Recorded.saved (h : Recorded q n back x) (hn : Records n n' back)
    (hcheck : Network.check q.formats n' = .ok ()) {c : NetChoice} {t : NetState}
    (ht : t = { x.net with manifests := x.net.manifests.put n'.id n' })
    (hunowned : fails c = true → ¬ Failure.Unowned q.toRequest ⟨.save n', c, x.net⟩) :
    Recorded q n' id (x.next (.save n') c t) where
  phase := h.phase
  ident := hn.ident.trans h.ident
  stored := by
    subst ht
    show (x.net.manifests.put n'.id n').get q.id = some n'
    rw [Table.get_put, if_pos (hn.ident.trans h.ident).symm]
  others id hid := by
    subst ht
    show (x.net.manifests.put n'.id n').get id = _
    rw [Table.get_put, if_neg (by rwa [hn.ident, h.ident])]
    exact h.others id hid
  check := hcheck
  unassigned := hn.unassigned
  closed := by
    subst ht
    exact h.closed
  reverts := by
    subst ht
    exact (hn.reverts _).trans h.reverts
  untouched := by
    subst ht
    exact h.untouched
  clear := (h.next_same (a := .save n') h.phase hunowned).clear

/-- What is made and not recorded yet is taken back when the save fails. -/
abbrev AfterSave (saved failed : Attempt → Prop) : Except Message Unit → Attempt → Prop
  | .ok _, y => saved y
  | .error _, y => failed y

theorem Recorded.stage_saveOr (h : Recorded q n back x) (hn : Records n n' back) {undo : Net Unit}
    (hundo : ∀ y, y.phase = .applying → y.failure ≠ none →
      wp (trial q.formats) undo (fun _ z => TakenBack back y z) y)
    (hunowned : ∀ c, ¬ Failure.Unowned q.toRequest ⟨.save n', c, x.net⟩) :
    Stage q (saveOr n' undo) (fun _ y => Recorded q n' id y) x := by
  refine stage_bind (P := AfterSave (Recorded q n' id)
    fun y => y.failure ≠ none ∧ ∃ m, Recorded q m back y) (stage_ask ?_) fun r y hr => ?_
  · refine wp_netCall fun c r t hallows hp => ?_
    obtain ⟨hc, hable, rfl, ht⟩ | ⟨e, rfl, rfl, rfl⟩ | ⟨e, rfl, hable, rfl, ht⟩ := write_outcome hp
    · exact h.saved hn (by simpa using hable) ht fun _ => hunowned c
    · have hfailure : (x.next (.save n') (.fail e) x.net).failure ≠ none := by
        simp [Attempt.next, h.phase, fails]
      exact ⟨hfailure, n, h.next_same h.phase fun _ => hunowned _⟩
    · have hfailure : (x.next (.save n') (.failTook e) t).failure ≠ none := by
        simp [Attempt.next, h.phase, fails]
      have hsaved := h.saved hn (c := .failTook e) (by simpa using hable) ht fun _ => hunowned _
      refine ⟨hfailure, n', { hsaved with reverts := ?_ }⟩
      have hview : (x.next (.save n') (.failTook e) t).net.host.view = x.net.host.view := by
        rw [ht]
        rfl
      rw [hview, hn.reverts, hn.twice]
      exact h.reverts
  · cases r with
    | ok u => exact stage_pure hr
    | error e =>
      obtain ⟨hfailure, m, hm⟩ := hr
      refine stage_bind (stage_ask (hundo y hm.phase hfailure)) fun _ z hz => ?_
      exact stage_refuse (hm.takenBack (hn.closed _ hm.closed) hz)

/-! ### New interfaces -/

/-- An interface is made, and is not recorded yet. -/
theorem Recorded.made (h : Recorded q n id x) {a : NetCall} {d : String} {i : Interface}
    (hphase : x.phase.next a = .applying) (hfree : x.net.host.get d = none) (hm : i.members = [])
    (ha : i.addresses = []) :
    Recorded q n (·.drop [d]) (x.next a (.name d) { x.net with host := x.net.host.put d i }) := by
  have hview : Host.view (x.net.host.put d i) = x.net.host.view.add d := view_added hm ha
  have hnone : x.net.host.view d = none := view_none.mpr hfree
  refine h.next hphase rfl ?_ ?_ (fun e p hp => ?_) (fun hfails => by cases hfails)
  · show (Host.view (x.net.host.put d i)).Closed
    rw [hview]
    exact h.closed.add d
  · show undone n ((Host.view (x.net.host.put d i)).drop [d]) = _
    rw [hview, h.closed.drop_add hnone]
    rfl
  · refine ⟨p, ?_, rfl⟩
    show Host.view (x.net.host.put d i) e = some p
    rw [hview, View.add, if_neg]
    · exact hp
    · rintro rfl
      rw [hnone] at hp
      cases hp

/-- The creation of an interface. -/
theorem Recorded.created (h : Recorded q n id x) {a : NetCall} {kind : String} {i : Interface}
    {c : NetChoice} {r : Except Message String} {t : NetState}
    (hcreate : x.net.create kind i c = some (r, t)) (hphase : x.phase.next a = .applying)
    (hsave : ∀ m, a ≠ .save m) (hm : i.members = []) (ha : i.addresses = []) :
    (∃ e, r = .error e ∧ Recorded q n id (x.next a c t)) ∨
      ∃ d, r = .ok d ∧ numbered kind d = true ∧ t.host.get d = some i ∧
        Recorded q n (·.drop [d]) (x.next a c t) := by
  cases c with
  | name d =>
    rw [NetState.create] at hcreate
    split at hcreate
    · rename_i hd
      cases hcreate
      simp only [Bool.and_eq_true, Option.isNone_iff_eq_none] at hd
      refine .inr ⟨d, rfl, hd.1, ?_, h.made hphase hd.2 hm ha⟩
      rw [Table.get_put, if_pos rfl]
    · cases hcreate
  | fail e =>
    cases hcreate
    refine .inl ⟨e, rfl, h.next_same hphase fun _ hleft => ?_⟩
    obtain ⟨-, -, -, -, m, -, hm, -⟩ := hleft
    exact hsave m hm
  | ok | failTook e | fileExists | vms l | running b | references l => cases hcreate

theorem Recorded.wp_configureVLAN (h : Recorded q n back x) (d parent : String) (tag : Int) :
    wp (trial q.formats) (netCall (.configureVLAN d parent tag)) (fun r y => Recorded q n back y ∧
      y.net.host.view = x.net.host.view ∧
      ((x.net.host.get d).map (·.vlan) = some none → ∀ e, r = .error e → y.failure ≠ none)) x := by
  have hunowned : ∀ c, ¬ Failure.Unowned q.toRequest ⟨.configureVLAN d parent tag, c, x.net⟩ := by
    rintro c ⟨-, -, -, -, m, -, hm, -⟩
    cases hm
  refine wp_netCall fun c r t _ hp => ?_
  rw [NetState.perform] at hp
  split at hp
  · rename_i hnone
    obtain ⟨rfl, -⟩ := NetChoice.query_cases hp
    exact ⟨h.next_same h.phase fun _ => hunowned c, rfl, fun hsome => by
      rw [hnone] at hsome
      cases hsome⟩
  · rename_i vlan hvlan
    obtain ⟨rfl, -⟩ := NetChoice.query_cases hp
    exact ⟨h.next_same h.phase fun _ => hunowned c, rfl, fun hsome => by
      rw [hvlan] at hsome
      cases hsome⟩
  · cases c with
    | ok =>
      cases hp
      have hview : (x.net.update d fun i => { i with vlan := some (parent, tag) }).host.view =
          x.net.host.view := by
        refine Eq.trans (view_update (f := id) ?_) View.change_id
        intro i
        rfl
      refine ⟨h.next h.phase ?_ ?_ ?_ ?_ fun _ => hunowned _, hview, fun _ e he => by cases he⟩
      · unfold NetState.update
        split
        · rfl
        · rfl
      · rw [hview]
        exact h.closed
      · rw [hview]
      · rw [hview]
        exact fun e p hp => ⟨p, hp, rfl⟩
    | fail e =>
      cases hp
      refine ⟨h.next_same h.phase fun _ => hunowned _, rfl, fun _ _ _ => ?_⟩
      simp [Attempt.next, h.phase, fails]
    | failTook e | name d | fileExists | vms l | running b | references l => cases hp

/-- What `resolveVLAN` gives: an interface that it made, which is not recorded, or another. -/
def Resolves (q : Creation) (n : NetworkManifest) (r : Except Message (String × Bool))
    (y : Attempt) : Prop :=
  match r with
  | .error _ => Recorded q n id y
  | .ok (d, o) => if o = true then
      vlanName d = true ∧ y.net.host.view d ≠ none ∧ Recorded q n (·.drop [d]) y
    else Recorded q n id y

theorem Recorded.wp_borrowMatching (h : Recorded q n id x) (device parent : String) (tag : Int)
    {orElse : NetM (String × Bool)}
    (horElse : ∀ y, Recorded q n id y → wp (trial q.formats) orElse.run (Resolves q n) y) :
    wp (trial q.formats) (borrowMatching device parent tag orElse).run (Resolves q n) x := by
  refine wp_andThen (wp_mono (h.inquires (.request ⟨trivial, fun _ => rfl⟩)) fun r y hy => ?_)
  cases r with
  | error e => exact hy
  | ok found =>
    dsimp only
    split
    · exact hy
    · exact horElse y hy

theorem Recorded.wp_createConfigured (h : Recorded q n id x) (network parent : String) (tag : Int) :
    wp (trial q.formats) (createConfigured network parent tag).run (Resolves q n) x := by
  refine wp_andThen (wp_netCall fun c r t _ hp => ?_)
  rcases h.created (a := .createVLAN network) hp h.phase (fun m hm => by cases hm) rfl rfl with
    ⟨e, rfl, hy⟩ | ⟨d, rfl, hname, hget, hy⟩
  · exact hy
  refine wp_liftThen (wp_mono (hy.wp_configureVLAN d parent tag) fun r z hz => ?_)
  cases r with
  | ok u =>
    refine ⟨hname, ?_, hz.1⟩
    rw [hz.2.1, ne_eq, view_none]
    simp [Attempt.next, hget]
  | error e =>
    have hfailed := hz.2.2 (by simp [Attempt.next, hget]) e rfl
    refine wp_liftThen (wp_mono (wp_destroyNow network d hz.1.phase hfailed) fun _ w hw => ?_)
    have hback := hz.1.takenBack (hz.1.closed.drop [d]) hw
    exact hback.wp_borrowMatching "" parent tag fun v hv => hv

/-- `resolveVLAN` for a network that owns no interface yet. -/
theorem Recorded.wp_resolveVLAN (h : Recorded q n id x) (network device : String) (owned : Bool)
    (parent : String) (tag : Int) (hdevice : device = "" ∨ owned = false) :
    wp (trial q.formats) (resolveVLAN network device owned parent tag).run (Resolves q n) x := by
  refine wp_liftThen (wp_mono (Q := fun found y => Recorded q n id y ∧
    (found = true → device ≠ "")) ?_ fun found y hy => ?_)
  · unfold existing
    split
    · exact ⟨h, nofun⟩
    · rename_i hne
      exact wp_mono (h.inquires (.request ⟨trivial, fun _ => rfl⟩)) fun _ y hy => ⟨hy, fun _ => hne⟩
  · split
    · rename_i hfound
      refine wp_liftThen (wp_mono (hy.1.wp_configureVLAN device parent tag) fun r z hz => ?_)
      cases r with
      | ok u =>
        rw [hdevice.resolve_left (hy.2 hfound)]
        exact hz.1
      | error e => exact hz.1.wp_borrowMatching device parent tag fun v hv => hv
    · exact hy.1.wp_borrowMatching "" parent tag fun v hv =>
        hv.wp_createConfigured network parent tag

/-! ### The parts of the apply of a bridge -/

theorem inquires_exists (d : String) : Inquires (.interfaceExists d) := ⟨trivial, fun _ => rfl⟩

theorem inquires_isBridge (d : String) : Inquires (.isBridge d) := ⟨trivial, fun _ => rfl⟩

theorem inquires_up (d : String) : Inquires (.up d) := ⟨trivial, fun _ => rfl⟩

/-- The bridge is the one that was asked for, or was made. -/
structure Bridged (q : Creation) (n : NetworkManifest) : Prop where
  mode : n.mode = .bridge
  address : n.address = q.params.address
  device : n.owned = false ∧ n.device = q.params.device ∨
    n.owned = true ∧ q.start.host.view n.device = none

/-- Nothing is applied yet. -/
structure Unapplied (n : NetworkManifest) : Prop where
  owned : n.owned = false
  members : n.appliedMembers = []
  vlans : n.appliedVLANs = []
  address : n.appliedAddress = ""

theorem Unapplied.undone (h : Unapplied n) (v : View) : undone n v = v :=
  undone_nothing h.owned h.members h.vlans h.address

/-- Neither a bridge that is asked for nor one that is made is saved as a new VLAN network. -/
theorem not_unowned (hrequest : NetworkMode.ofString q.params.mode ≠ .vlan) (p : Failure) :
    ¬ p.Unowned q.toRequest := fun h => hrequest h.1

theorem stage_ensureDevice (hrequest : NetworkMode.ofString q.params.mode ≠ .vlan)
    (h : Recorded q n id x) (hb : Bridged q n) (hu : Unapplied n) :
    Stage q (ensureDevice n) (fun n' y => Recorded q n' id y ∧ Bridged q n' ∧
      n'.appliedMembers = [] ∧ n'.appliedVLANs = [] ∧ n'.vlans = n.vlans) x := by
  refine stage_bind (h.stage_inquires (calls_onlyWhen (calls_existing (inquires_exists _))
    (calls_requireBridge (inquires_isBridge _)))) fun _ y hy => ?_
  refine stage_bind (stage_ask (hy.inquires (calls_existing (inquires_exists _))))
    fun found z hz => ?_
  split
  · exact stage_pure ⟨hz, hb, hu.members, hu.vlans, rfl⟩
  split
  · exact stage_refuse hz
  refine stage_bind (P := fun d w => w.net.host.get d = some { made := true, bridge := true } ∧
    Recorded q n (·.drop [d]) w) (wp_netCall fun c r t _ hp => ?_) fun d w hw => ?_
  · rcases hz.created (a := .createBridge n.id) hp hz.phase (fun m hm => by cases hm) rfl rfl with
      ⟨e, rfl, hw⟩ | ⟨d, rfl, -, hget, hw⟩
    · exact ⟨n, hw.ended⟩
    · exact ⟨hget, hw⟩
  · have hrecords : Records n { n with device := d, owned := true, appliedMembers := [] }
        (·.drop [d]) :=
      { ident := rfl
        unassigned := hu.address
        reverts := fun v => by
          rw [hu.undone]
          exact Eq.trans (undone_bridge (by exact hb.mode) v) (undoneBridge_created hu.vlans)
        twice := fun v => View.drop_twice [d]
        closed := fun v hv => hv.drop [d] }
    refine stage_bind (hw.2.stage_saveOr hrecords (fun v => wp_destroyNow n.id d) fun c =>
      not_unowned hrequest _) fun _ v hv => stage_pure ⟨hv, ⟨hb.mode, hb.address, .inr ⟨rfl, ?_⟩⟩,
        rfl, hu.vlans, rfl⟩
    have hreverts := hw.2.reverts
    rw [hu.undone] at hreverts
    rw [← hreverts]
    simp [View.drop]

theorem lastApplied_same {applied : List VLAN} {vlan : VLAN}
    (h : ∀ a ∈ applied, VLAN.sameKey a vlan = false) : lastApplied applied vlan = vlan := by
  unfold lastApplied
  induction applied with
  | nil => rfl
  | cons a applied ih =>
    rw [List.foldl_cons, if_neg (by simp [h a List.mem_cons_self])]
    exact ih fun b hb => h b (List.mem_cons_of_mem a hb)

/-- The VLANs of a manifest that come later are not applied. -/
theorem sameKey_false {done rest : List VLAN} {vlan : VLAN} (hcheck : check q.formats n = .ok ())
    (hvlans : n.vlans = done ++ vlan :: rest) : ∀ a ∈ done, VLAN.sameKey a vlan = false := by
  have hnodup := (checkVLANs_ok.mp (check_iff.mp hcheck).2.2.2.2.2.2.1).1
  rw [hvlans, List.map_append, List.nodup_append] at hnodup
  intro a ha
  by_contra hsame
  rw [Bool.not_eq_false, VLAN.sameKey, Bool.and_eq_true, decide_eq_true_eq,
    decide_eq_true_eq] at hsame
  refine hnodup.2.2 _ (List.mem_map_of_mem ha) _ (List.mem_map_of_mem List.mem_cons_self) ?_
  rw [VLAN.key, VLAN.key, hsame.1, hsame.2]

/-- A VLAN is recorded with the interface that was made for it. -/
theorem records_vlan (hmode : n.mode = .bridge) (hu : n.appliedAddress = "") (vlans : List VLAN)
    {a : VLAN} (ha : a.borrowed = false) :
    Records n { n with vlans := vlans, appliedVLANs := n.appliedVLANs ++ [a] }
      (·.drop [a.device]) where
  ident := rfl
  unassigned := hu
  reverts v := by
    rw [undone_bridge hmode]
    exact Eq.trans (undone_bridge (by exact hmode) v) (undoneBridge_vlan ha)
  twice v := View.drop_twice _
  closed v hv := hv.drop _

theorem records_borrowed (hmode : n.mode = .bridge) (hu : n.appliedAddress = "") (vlans : List VLAN)
    {a : VLAN} (ha : a.borrowed = true) :
    Records n { n with vlans := vlans, appliedVLANs := n.appliedVLANs ++ [a] } id where
  ident := rfl
  unassigned := hu
  reverts v := by
    rw [undone_bridge hmode]
    exact Eq.trans (undone_bridge (by exact hmode) v) (undoneBridge_borrowed ha)
  twice v := rfl
  closed v hv := hv

theorem wp_nothing : wp (trial q.formats) (pure ()) (fun _ z => TakenBack id y z) y :=
  ⟨rfl, rfl, rfl, rfl⟩

/-- The VLANs, each with an interface that is recorded. -/
theorem stage_ensureVLANs (hrequest : NetworkMode.ofString q.params.mode ≠ .vlan)
    (rest : List VLAN) {done : List VLAN} {desired : List String} (h : Recorded q n id x)
    (hb : Bridged q n) (hmembers : n.appliedMembers = []) (hvlans : n.vlans = done ++ rest)
    (happlied : n.appliedVLANs = done) (hnew : ∀ v ∈ rest, v.device = "")
    (hdesired : ∀ a ∈ done, a.device ∈ desired) :
    Stage q (ensureVLANs done rest desired n) (fun r y => Recorded q r.1 id y ∧ Bridged q r.1 ∧
      r.1.appliedMembers = [] ∧ ∀ a ∈ r.1.appliedVLANs, a.device ∈ r.2) x := by
  induction rest generalizing done desired n x with
  | nil =>
    refine stage_pure ⟨h, hb, hmembers, ?_⟩
    rw [happlied]
    exact hdesired
  | cons vlan rest ih =>
    have hother : ∀ a ∈ n.appliedVLANs, VLAN.sameKey a vlan = false := by
      rw [happlied]
      exact sameKey_false h.check hvlans
    rw [ensureVLANs, lastApplied_same hother]
    refine stage_bind (h.stage_inquires (calls_requireInterface (inquires_exists _)))
      fun _ y hy => ?_
    refine stage_bind (P := fun r z => if r.2 = true then
        vlanName r.1 = true ∧ z.net.host.view r.1 ≠ none ∧ Recorded q n (·.drop [r.1]) z
      else Recorded q n id z)
      (wp_mono (hy.wp_resolveVLAN n.id vlan.device (!vlan.borrowed) vlan.parent vlan.tag
        (.inl (hnew vlan List.mem_cons_self))) fun r z hr => ?_) ?_
    · cases r with
      | error e => exact ⟨n, hr.ended⟩
      | ok r => exact hr
    rintro ⟨d, o⟩ z hz
    have hkept : n.appliedVLANs.filter (fun a => !VLAN.sameKey a
        { vlan with device := d, borrowed := !o }) = n.appliedVLANs :=
      List.filter_eq_self.mpr fun a ha => by
        have hne : VLAN.sameKey a { vlan with device := d, borrowed := !o } = false := hother a ha
        rw [hne]
        rfl
    dsimp only
    generalize ha : ({ vlan with device := d, borrowed := !o } : VLAN) = a at hkept ⊢
    have hadevice : a.device = d := by rw [← ha]
    have haborrowed : a.borrowed = !o := by rw [← ha]
    have hwith : withVLAN n done a rest =
        { n with vlans := done ++ a :: rest, appliedVLANs := n.appliedVLANs ++ [a] } := by
      rw [withVLAN, hkept]
    rw [hwith]
    refine stage_bind (P := fun _ w => Recorded q { n with
      vlans := done ++ a :: rest, appliedVLANs := n.appliedVLANs ++ [a] } id w) ?_ fun _ w hw => ?_
    · cases o with
      | true =>
        obtain ⟨hname, -, hmade⟩ := hz
        have hne : d ≠ vlan.device := by
          rw [hnew vlan List.mem_cons_self]
          rintro rfl
          cases hname
        rw [if_pos ⟨rfl, hne⟩]
        have hrecords := records_vlan hb.mode h.unassigned (done ++ a :: rest) haborrowed
        rw [hadevice] at hrecords
        exact Recorded.stage_saveOr hmade hrecords (fun v => wp_destroyNow n.id d) fun c =>
          not_unowned hrequest _
      | false =>
        rw [if_neg (by simp)]
        exact Recorded.stage_saveOr hz (records_borrowed hb.mode h.unassigned _ haborrowed)
          (fun v _ _ => wp_nothing) fun c => not_unowned hrequest _
    · refine stage_bind (hw.stage_inquires (.request (inquires_up _))) fun _ v hv => ?_
      refine ih hv ⟨hb.mode, hb.address, hb.device⟩ hmembers (by simp) (by rw [happlied])
        (fun b hb => hnew b (List.mem_cons_of_mem vlan hb)) fun b hb => ?_
      rcases List.mem_append.mp hb with hb | hb
      · exact List.mem_append_left _ (hdesired b hb)
      · rw [List.mem_singleton.mp hb, hadevice]
        exact List.mem_append_right _ List.mem_cons_self

/-- What is on no bridge is no member of this one. -/
theorem view_free {h : Host} {member : String} (hfree : h.free member = true) {d : String}
    {p : List String × List String} (hp : h.view d = some p) : member ∉ p.1 := by
  obtain ⟨i, hi, rfl⟩ := Option.map_eq_some_iff.mp hp
  intro hmem
  obtain ⟨e, he, rfl⟩ := List.mem_map.mp hmem
  have hall := List.all_eq_true.mp hfree _ (Table.mem_of_get hi)
  have hne := List.all_eq_true.mp hall e he
  simp at hne

theorem records_member (hmode : n.mode = .bridge) (hu : n.appliedAddress = "") (member : String) :
    Records n { n with appliedMembers := n.appliedMembers ++ [member] }
      (·.detach n.device [member]) where
  ident := rfl
  unassigned := hu
  reverts v := by
    rw [undone_bridge hmode]
    exact Eq.trans (undone_bridge (by exact hmode) v) undoneBridge_member
  twice v := View.detach_twice _
  closed v hv := hv.detach _

/-- A member is attached; it is recorded already, or is still to be. -/
theorem stage_addMember (h : Recorded q n id x) (hmode : n.mode = .bridge) (member : String) :
    Stage q (attempt (netCall (.addMember n.device member))) (fun _ y =>
      Recorded q n (·.detach n.device [member]) y ∧
        (member ∈ n.appliedMembers → Recorded q n id y)) x := by
  have hunowned : ∀ c, ¬ Failure.Unowned q.toRequest ⟨.addMember n.device member, c, x.net⟩ := by
    rintro c ⟨-, -, -, -, m, -, hm, -⟩
    cases hm
  refine wp_netCall fun c r t _ hp => ?_
  obtain ⟨-, hable, rfl, rfl⟩ | ⟨e, rfl, rfl, rfl⟩ := attempt_outcome hp
  · rw [Bool.and_eq_true, Bool.and_eq_true] at hable
    obtain ⟨⟨-, hexists⟩, hfree⟩ := hable
    have hview : (x.net.update n.device fun i =>
        { i with members := i.members ++ [(member, true)] }).host.view =
          x.net.host.view.attach n.device member := by
      refine view_update fun i => ?_
      simp
    have hmanifests : (x.net.update n.device fun i =>
        { i with members := i.members ++ [(member, true)] }).manifests = x.net.manifests := by
      unfold NetState.update
      split
      · rfl
      · rfl
    have hnone : x.net.host.view member ≠ none := by
      rw [ne_eq, view_none]
      intro hnone
      rw [hnone] at hexists
      cases hexists
    have huntouched : ∀ d p, x.net.host.view d = some p → ∃ p',
        x.net.host.view.attach n.device member d = some p' ∧ p'.2 = p.2 := by
      intro d p hp
      unfold View.attach View.change
      split
      · rw [hp]
        exact ⟨_, rfl, rfl⟩
      · exact ⟨p, hp, rfl⟩
    have hclosed := h.closed.attach (d := n.device) hnone
    refine ⟨h.next (a := .addMember n.device member) h.phase hmanifests (hview ▸ hclosed) ?_
      (hview ▸ huntouched) fun _ => hunowned c, fun hmem => h.next (a := .addMember n.device member)
      h.phase hmanifests (hview ▸ hclosed) ?_ (hview ▸ huntouched) fun _ => hunowned c⟩
    · rw [hview, View.detach_attach fun p hp => view_free hfree hp]
      rfl
    · rw [hview, undone_bridge hmode, undone_bridge hmode]
      exact undoneBridge_attached hmem
  · exact ⟨n, (h.next_same (a := .addMember n.device member) h.phase fun _ => hunowned _).ended⟩

theorem stage_attachMember (hrequest : NetworkMode.ofString q.params.mode ≠ .vlan)
    (h : Recorded q n id x) (hb : Bridged q n) (members : List String) (member : String) :
    Stage q (attachMember members member n) (fun n' y => Recorded q n' id y ∧ Bridged q n' ∧
      n'.appliedVLANs = n.appliedVLANs) x := by
  unfold attachMember
  split
  · exact stage_pure ⟨h, hb, rfl⟩
  · refine stage_bind (stage_addMember h hb.mode member) fun _ y hy => ?_
    split
    · rename_i hmem
      exact stage_pure ⟨hy.2 hmem, hb, rfl⟩
    · refine stage_bind (hy.1.stage_saveOr (records_member hb.mode h.unassigned member)
        (fun v => wp_removeNow n.device member) fun c => not_unowned hrequest _) fun _ z hz => ?_
      exact stage_pure ⟨hz, ⟨hb.mode, hb.address, hb.device⟩, rfl⟩

theorem stage_attachDesired (hrequest : NetworkMode.ofString q.params.mode ≠ .vlan)
    (members desired : List String) (h : Recorded q n id x) (hb : Bridged q n) :
    Stage q (attachDesired members desired n) (fun n' y => Recorded q n' id y ∧ Bridged q n' ∧
      n'.appliedVLANs = n.appliedVLANs) x := by
  induction desired generalizing n x with
  | nil => exact stage_pure ⟨h, hb, rfl⟩
  | cons member desired ih =>
    refine stage_bind (h.stage_inquires (calls_requireInterface (inquires_exists _)))
      fun _ y hy => ?_
    refine stage_bind (stage_attachMember hrequest hy hb members member) fun n' z hz => ?_
    refine stage_bind (hz.1.stage_inquires (.request (inquires_up _))) fun _ w hw => ?_
    refine stage_mono (ih hw hz.2.1) fun m v hv => ⟨hv.1, hv.2.1, hv.2.2.trans hz.2.2⟩

/-- No VLAN is dropped that is wanted. -/
theorem dropVLANs_none (desired : List String) (vlans : List VLAN)
    (h : ∀ a ∈ vlans, a.device ∈ desired) : dropVLANs desired vlans n = return n := by
  induction vlans with
  | nil => rfl
  | cons a vlans ih =>
    rw [dropVLANs, if_pos (h a List.mem_cons_self)]
    exact ih fun b hb => h b (List.mem_cons_of_mem a hb)

/-! ### The address -/

/-- An address was set that the interface had not, and is not recorded. -/
def Addressed (q : Creation) (n : NetworkManifest) (y : Attempt) : Prop :=
  ∃ z text p, Recorded q n id z ∧ TakenBack (·.assign n.device text) z y ∧
    q.formats.shown n.address = some text ∧ z.net.host.view n.device = some p ∧ text ∉ p.2

/-- No address was set, and the interface has none in the manifest's text. -/
def Unaddressed (q : Creation) (n : NetworkManifest) (y : Attempt) : Prop :=
  Recorded q n id y ∧
    (y.failure = none → ∀ p, y.net.host.view n.device = some p → n.address ∉ p.2)

theorem stage_setAddress (h : Unaddressed q n x) :
    Stage q (attempt (netCall (.setAddress n.device n.address)))
      (fun _ y => Addressed q n y ∨ Unaddressed q n y) x := by
  have hunowned : ∀ c,
      ¬ Failure.Unowned q.toRequest ⟨.setAddress n.device n.address, c, x.net⟩ := by
    rintro c ⟨-, -, -, -, m, -, hm, -⟩
    cases hm
  have hsame : ∀ c, Recorded q n id (x.next (.setAddress n.device n.address) c x.net) := fun c =>
    h.1.next_same h.1.phase fun _ => hunowned c
  refine wp_netCall fun c r t _ hp => ?_
  rw [NetState.perform] at hp
  split at hp
  · obtain ⟨rfl, rfl | ⟨e, rfl⟩⟩ := NetChoice.query_cases hp
    · exact ⟨n, (hsame c).ended⟩
    · exact ⟨n, (hsame c).ended⟩
  rename_i text htext
  cases c with
  | fileExists =>
    cases hp
    refine .inr ⟨hsame .fileExists, fun hnone => h.2 ?_⟩
    rwa [next_failure rfl] at hnone
  | fail e =>
    cases hp
    exact ⟨n, (hsame _).ended⟩
  | ok =>
    simp only [NetChoice.setAlias] at hp
    obtain ⟨-, hable, rfl, rfl⟩ | ⟨e, he, -⟩ := attempt_outcome hp
    · obtain ⟨i, hi⟩ := Option.isSome_iff_exists.mp hable
      let p := (i.members.map (·.1), i.addresses.map (·.1))
      have hp : x.net.host.view n.device = some p := by
        rw [Host.view, hi]
        rfl
      have hview := @view_aliased x.net n.device text
      have hmanifests : (x.net.update n.device fun i => if i.hasAddress text = true then i else
          { i with addresses := i.addresses ++ [(text, true)] }).manifests = x.net.manifests := by
        unfold NetState.update
        split
        · rfl
        · rfl
      by_cases hhas : text ∈ p.2
      · rw [View.change_same fun p' hp' => by rw [hp] at hp'; cases hp'; exact if_pos hhas] at hview
        refine .inr ⟨h.1.next (a := .setAddress n.device n.address) h.1.phase hmanifests
          (hview ▸ h.1.closed) (by rw [hview]) (by rw [hview]; exact fun d p hp => ⟨p, hp, rfl⟩)
          fun _ => hunowned _, fun hnone p' hp' => h.2 ?_ p' ?_⟩
        · rwa [next_failure rfl] at hnone
        · exact (congrFun hview n.device).symm.trans hp'
      · refine .inl ⟨x, text, p, h.1, ⟨rfl, hmanifests, next_failure rfl, ?_⟩, htext, hp, hhas⟩
        refine hview.trans ?_
        funext d
        unfold View.change View.assign View.change
        split
        · rename_i hd
          rw [hd, hp]
          simp [hhas]
        · rfl
    · cases he
  | failTook e | name d | vms l | running b | references l => cases hp

theorem failed_next {a : NetCall} {c : NetChoice} {t : NetState} (hphase : x.phase = .applying)
    (hc : fails c = true) : (x.next a c t).failure = some ⟨a, c, x.net⟩ := by
  show (if x.phase = .applying ∧ fails c = true then some ⟨a, c, x.net⟩ else x.failure) = _
  rw [if_pos ⟨hphase, hc⟩]

/-- The bridge's own name is none of the VLAN interfaces that were made. -/
theorem device_not_made (hcheck : check q.formats n = .ok ()) (hmode : n.mode = .bridge) :
    n.device ∉ madeVLANs n := by
  intro hmem
  obtain ⟨a, ha, hdevice⟩ := List.mem_map.mp hmem
  have hvlan := (check_iff.mp hcheck).2.2.2.1 a (List.mem_of_mem_filter ha)
  rw [hdevice] at hvlan
  by_cases hempty : n.device = ""
  · rw [hempty] at hvlan
    cases hvlan
  · rw [not_vlanName (check_device hcheck hmode hempty)] at hvlan
    cases hvlan

/-- What the failure leaves of the address of a bridge that was there. -/
theorem Addressed.left (h : Addressed q n y) (hb : Bridged q n) (howned : n.owned = false) :
    ∃ old new text, n.device = q.params.device ∧ q.start.host.view q.params.device = some old ∧
      y.net.host.view q.params.device = some new ∧ q.formats.shown q.params.address = some text ∧
      text ∉ old.2 ∧ text ∈ new.2 ∧
      undoneBridge n y.net.host.view = q.start.host.view.assign n.device text := by
  obtain ⟨z, text, p, hz, hback, htext, hp, habsent⟩ := h
  have hdevice : n.device = q.params.device := by
    rcases hb.device with ⟨-, hd⟩ | ⟨ho, -⟩
    · exact hd
    · rw [howned] at ho
      cases ho
  have hmade := device_not_made hz.check hb.mode
  have hreverts : undoneBridge n z.net.host.view = q.start.host.view := by
    rw [← undone_bridge hb.mode]
    exact hz.reverts
  have hold : ∃ old, q.start.host.view q.params.device = some old ∧ old.2 = p.2 := by
    rw [← hreverts, ← hdevice]
    simp [undoneBridge, howned, hz.unassigned, View.drop, hmade, View.detach, View.change, hp]
  obtain ⟨old, hold, heq⟩ := hold
  refine ⟨old, (p.1, p.2 ++ [text]), text, hdevice, hold, ?_, ?_, ?_, ?_, ?_⟩
  · rw [hback.view, ← hdevice]
    simp [View.assign, View.change, hp]
  · rw [← hb.address]
    exact htext
  · rw [heq]
    exact habsent
  · exact List.mem_append_right _ List.mem_cons_self
  · rw [hback.view, undoneBridge_assign howned hz.unassigned hmade, hreverts]

/-- A bridge that was made goes with the address, and the one that was asked for has not got it. -/
theorem Addressed.owned (h : Addressed q n y) (hb : Bridged q n) (howned : n.owned = true)
    (a : String) :
    undoneBridge { n with appliedAddress := a } y.net.host.view = q.start.host.view ∧
      ∀ call c, ¬ Failure.Unassigned q.toRequest ⟨call, c, y.net⟩ := by
  obtain ⟨z, text, p, hz, hback, -⟩ := h
  constructor
  · rw [hback.view, undoneBridge_owned howned, ← undone_bridge hb.mode]
    exact hz.reverts
  · rintro call c ⟨old, new, text', hold, hnew, -, habsent, hpresent, -⟩
    have hne : q.params.device ≠ n.device := by
      rcases hb.device with ⟨ho, -⟩ | ⟨-, hnone⟩
      · rw [howned] at ho
        cases ho
      · intro heq
        rw [← heq, hold] at hnone
        cases hnone
    have hnew : y.net.host.view q.params.device = some new := hnew
    rw [hback.view, View.assign, View.change, if_neg hne] at hnew
    obtain ⟨p', hp', hsame⟩ := hz.untouched _ old hold
    rw [hnew] at hp'
    cases hp'
    exact habsent (hsame ▸ hpresent)

theorem leaves_iff (hrequest : NetworkMode.ofString q.params.mode ≠ .vlan) (p : Failure) :
    q.Leaves (some p) ↔ p.Unassigned q.toRequest := by
  constructor
  · rintro ⟨p', hp', hleft⟩
    cases hp'
    exact hleft.resolve_right (not_unowned hrequest p)
  · exact fun h => ⟨p, rfl, .inl h⟩

/-- An address that is added makes a difference. -/
theorem assign_ne {v : View} {d text : String} {p : List String × List String} (hp : v d = some p) :
    v.assign d text ≠ v := by
  intro heq
  have hd := congrFun heq d
  rw [View.assign, View.change, if_pos rfl, hp, Option.map_some, Option.some.injEq] at hd
  have hlength := congrArg (fun p => p.2.length) hd
  simp at hlength

/-- The store after an address was set is the one before. -/
theorem Addressed.stored (h : Addressed q n y) : ∃ z, Recorded q n id z ∧
    y.net.manifests = z.net.manifests ∧ y.phase = .applying ∧ y.net.host.view.Closed := by
  obtain ⟨z, text, p, hz, hback, -⟩ := h
  exact ⟨z, hz, hback.manifests, hback.phase.trans hz.phase, hback.view ▸ hz.closed.assign text⟩

/-- A failure once an address was set, in which no manifest is stored. -/
theorem Addressed.ended (hrequest : NetworkMode.ofString q.params.mode ≠ .vlan)
    (h : Addressed q n y) (hb : Bridged q n) {a : NetCall} {c : NetChoice}
    (ha : y.phase.next a = .applying) (hc : fails c = true) (htook : took c = false) :
    Ended q n (y.next a c y.net) := by
  obtain ⟨z, hz, hmanifests, hphase, hclosed⟩ := h.stored
  refine ⟨ha, hz.ident, hmanifests ▸ hz.stored, hmanifests ▸ hz.others, hz.check, hclosed, ?_⟩
  rw [failed_next hphase hc, leaves_iff hrequest, undone_bridge hb.mode]
  cases howned : n.owned with
  | true =>
    obtain ⟨hsame, hnot⟩ := h.owned hb howned n.appliedAddress
    exact iff_of_true hsame (hnot a c)
  | false =>
    obtain ⟨old, new, text, hdevice, hold, hnew, htext, habsent, hpresent, hundone⟩ :=
      h.left hb howned
    refine iff_of_false ?_ fun hnot =>
      hnot ⟨old, new, text, hold, hnew, htext, habsent, hpresent, ?_⟩
    · show undoneBridge n y.net.host.view ≠ _
      rw [hundone]
      exact assign_ne (hdevice ▸ hold)
    · intro htook'
      rw [htook] at htook'
      cases htook'

/-- The last save fails once it has taken effect. -/
theorem Addressed.endedTook (hrequest : NetworkMode.ofString q.params.mode ≠ .vlan)
    (h : Addressed q n y) (hb : Bridged q n) (haddress : n.address ≠ "")
    (hcheck : check q.formats { n with appliedAddress := n.address } = .ok ()) {e : Message}
    {t : NetState} (ht : t = { y.net with
      manifests := y.net.manifests.put n.id { n with appliedAddress := n.address } }) :
    Ended q { n with appliedAddress := n.address }
      (y.next (.save { n with appliedAddress := n.address }) (.failTook e) t) := by
  subst ht
  obtain ⟨z, hz, hmanifests, hphase, hclosed⟩ := h.stored
  refine ⟨hphase, hz.ident, ?_, fun id hid => ?_, hcheck, hclosed, ?_⟩
  · show (y.net.manifests.put n.id _).get q.id = _
    rw [Table.get_put, if_pos hz.ident.symm]
  · show (y.net.manifests.put n.id _).get id = _
    rw [Table.get_put, if_neg (by rwa [hz.ident]), hmanifests]
    exact hz.others id hid
  rw [failed_next hphase rfl, leaves_iff hrequest,
    undone_bridge (n := { n with appliedAddress := n.address }) hb.mode]
  show undoneBridge { n with appliedAddress := n.address } y.net.host.view = _ ↔ _
  rcases Bool.eq_false_or_eq_true n.owned with howned | howned
  · obtain ⟨hsame, hnot⟩ := h.owned hb howned n.address
    exact iff_of_true hsame (hnot _ _)
  · obtain ⟨old, new, text, hdevice, hold, hnew, htext, habsent, hpresent, hundone⟩ :=
      h.left hb howned
    rw [undoneBridge_address howned hz.unassigned haddress, hundone]
    by_cases hsame : text = n.address
    · refine iff_of_true ?_ ?_
      · rw [View.assign, View.unassign, View.change_change]
        refine View.change_same fun p hp => ?_
        rw [hdevice, hold] at hp
        cases hp
        have hlast : [text].filter (· ≠ n.address) = [] := by simp [hsame]
        have hkept : old.2.filter (· ≠ n.address) = old.2 :=
          List.filter_eq_self.mpr fun b hb => by
            rw [decide_eq_true_eq, ← hsame]
            rintro rfl
            exact habsent hb
        simp only [List.filter_append, hlast, hkept, List.append_nil]
      · rintro ⟨-, -, text', -, -, htext', -, -, htook⟩
        rw [htext] at htext'
        cases htext'
        exact htook rfl (hsame.trans hb.address)
    · refine iff_of_false ?_ fun hnot => hnot ⟨old, new, text, hold, hnew, htext, habsent, hpresent,
        fun _ heq => hsame (heq.trans hb.address.symm)⟩
      intro heq
      have hd := congrFun heq n.device
      rw [View.unassign, View.assign, View.change_change, View.change, if_pos rfl, hdevice, hold,
        Option.map_some, Option.some.injEq] at hd
      have hmem : text ∈ (old.2 ++ [text]).filter (· ≠ n.address) :=
        List.mem_filter.mpr ⟨List.mem_append_right _ List.mem_cons_self, by simpa using hsame⟩
      rw [show (old.2 ++ [text]).filter (· ≠ n.address) = old.2 from congrArg (·.2) hd] at hmem
      exact habsent hmem

/-- A failure where no address was set, in which the manifest is stored with one. -/
theorem Unaddressed.endedTook (hrequest : NetworkMode.ofString q.params.mode ≠ .vlan)
    (h : Unaddressed q n y) (hb : Bridged q n) (haddress : n.address ≠ "")
    (hnone : y.failure = none)
    (hcheck : check q.formats { n with appliedAddress := n.address } = .ok ()) {e : Message}
    {t : NetState} (ht : t = { y.net with
      manifests := y.net.manifests.put n.id { n with appliedAddress := n.address } }) :
    Ended q { n with appliedAddress := n.address }
      (y.next (.save { n with appliedAddress := n.address }) (.failTook e) t) := by
  subst ht
  obtain ⟨hrecorded, habsent⟩ := h
  refine ⟨hrecorded.phase, hrecorded.ident, ?_, fun id hid => ?_, hcheck, hrecorded.closed,
    iff_of_true ?_ ?_⟩
  · show (y.net.manifests.put n.id _).get q.id = _
    rw [Table.get_put, if_pos hrecorded.ident.symm]
  · show (y.net.manifests.put n.id _).get id = _
    rw [Table.get_put, if_neg (by rwa [hrecorded.ident])]
    exact hrecorded.others id hid
  · rw [undone_bridge (n := { n with appliedAddress := n.address }) hb.mode]
    have hreverts : undoneBridge n y.net.host.view = q.start.host.view := by
      rw [← undone_bridge hb.mode]
      exact hrecorded.reverts
    show undoneBridge { n with appliedAddress := n.address } y.net.host.view = _
    rcases Bool.eq_false_or_eq_true n.owned with howned | howned
    · rw [← hreverts]
      simp [undoneBridge, madeVLANs, howned]
    · rw [undoneBridge_address howned hrecorded.unassigned haddress, hreverts]
      refine View.change_same fun p hp => ?_
      obtain ⟨p', hp', hsame⟩ := hrecorded.untouched _ p hp
      have hmem := hsame ▸ habsent hnone p' hp'
      have hkept : p.2.filter (· ≠ n.address) = p.2 :=
        List.filter_eq_self.mpr fun b hb => by
          rw [decide_eq_true_eq]
          rintro rfl
          exact hmem hb
      rw [hkept]
  · rw [failed_next hrecorded.phase rfl]
    exact hrecorded.innocent (not_unowned hrequest _)

theorem next_self {a : NetCall} {c : NetChoice} (hc : fails c = false)
    (ha : y.phase.next a = y.phase) : y.next a c y.net = y := by
  unfold Attempt.next
  rw [ha, hc, if_neg (by simp)]

/-- What `ensureAddress` makes of the manifest and the host. -/
def Final (q : Creation) (n n' : NetworkManifest) (y : Attempt) : Prop :=
  n' = n ∧ Recorded q n id y ∨ n' = { n with appliedAddress := n.address } ∧ n.address ≠ "" ∧
    (Addressed q n y ∨ Unaddressed q n y)

theorem stage_ensureAddress (h : Recorded q n id x) :
    Stage q (ensureAddress n) (Final q n) x := by
  unfold ensureAddress
  split
  · exact stage_pure (.inl ⟨rfl, h⟩)
  rename_i haddress
  refine stage_bind (P := fun found y => Recorded q n id y ∧ (found = false → Unaddressed q n y))
    (stage_ask (wp_netCall fun c found t _ hp => ?_)) fun found y hy => ?_
  · have hnext : Recorded q n id (x.next (.hasAddress n.device n.address) c x.net) := by
      refine h.next_same h.phase fun _ => ?_
      rintro ⟨-, -, -, -, m, -, hm, -⟩
      cases hm
    cases c with
    | ok =>
      cases hp
      refine ⟨hnext, fun hfound => ⟨hnext, fun _ p hp hmem => ?_⟩⟩
      obtain ⟨i, hi, rfl⟩ := Option.map_eq_some_iff.mp hp
      have hhas := hasAddress_iff.mpr hmem
      have hi : x.net.host.get n.device = some i := hi
      rw [Host.test, hi, Option.any_some, hhas] at hfound
      cases hfound
    | fail e =>
      cases hp
      refine ⟨hnext, fun _ => ⟨hnext, fun hnone => ?_⟩⟩
      rw [failed_next h.phase rfl] at hnone
      cases hnone
    | failTook e | name d | fileExists | vms l | running b | references l => cases hp
  · cases found with
    | true => exact stage_pure (.inl ⟨rfl, hy.1⟩)
    | false =>
      exact stage_bind (stage_setAddress (hy.2 rfl)) fun _ z hz =>
        stage_pure (.inr ⟨rfl, haddress, hz⟩)

theorem stage_lastUp (hrequest : NetworkMode.ofString q.params.mode ≠ .vlan) (hb : Bridged q n)
    {n' : NetworkManifest} (h : Final q n n' x) :
    Stage q (attempt (netCall (.up n'.device))) (fun _ y => Final q n n' y) x := by
  have hphase : x.phase = .applying := by
    rcases h with ⟨-, h⟩ | ⟨-, -, h | h⟩
    · exact h.phase
    · exact h.stored.choose_spec.2.2.1
    · exact h.1.phase
  refine wp_netCall fun c r t _ hp => ?_
  obtain ⟨hc, -, rfl, rfl⟩ | ⟨e, rfl, rfl, rfl⟩ := attempt_outcome hp
  · have hself : x.next (.up n'.device) c x.net = x := next_self hc rfl
    rw [hself]
    exact h
  · have hsame : ∀ m, Recorded q m id x →
        Recorded q m id (x.next (.up n'.device) (.fail e) x.net) := fun m hm =>
      hm.next_same hphase fun _ => by
        rintro ⟨-, -, -, -, m, -, hm, -⟩
        cases hm
    rcases h with ⟨-, h⟩ | ⟨-, -, h | h⟩
    · exact ⟨n, (hsame n h).ended⟩
    · exact ⟨n, h.ended hrequest hb hphase rfl rfl⟩
    · exact ⟨n, (hsame n h.1).ended⟩

theorem stage_lastSave (hrequest : NetworkMode.ofString q.params.mode ≠ .vlan) (hb : Bridged q n)
    {n' : NetworkManifest} (h : Final q n n' x) :
    Stage q (attempt (netCall (.save n'))) (fun _ _ => True) x := by
  refine wp_netCall fun c r t hallows hp => ?_
  have hrecords : Recorded q n id x → Records n n id := fun h =>
    ⟨rfl, h.unassigned, fun _ => rfl, fun _ => rfl, fun _ h => h⟩
  have hfail : ∀ m e, Recorded q m id x → Recorded q m id (x.next (.save n') (.fail e) x.net) :=
    fun m e hm => hm.next_same hm.phase fun _ => not_unowned hrequest _
  obtain ⟨-, -, rfl, -⟩ | ⟨e, rfl, rfl, rfl⟩ | ⟨e, rfl, hable, rfl, ht⟩ := write_outcome hp
  · exact trivial
  · rcases h with ⟨-, h⟩ | ⟨-, -, h | h⟩
    · exact ⟨n, (hfail n e h).ended⟩
    · exact ⟨n, h.ended hrequest hb h.stored.choose_spec.2.2.1 rfl rfl⟩
    · exact ⟨n, (hfail n e h.1).ended⟩
  · rcases h with ⟨rfl, h⟩ | ⟨rfl, haddress, h | h⟩
    · exact ⟨n', (h.saved (hrecords h) (by simpa using hable) ht fun _ =>
        not_unowned hrequest _).ended⟩
    · exact ⟨_, h.endedTook hrequest hb haddress (by simpa using hable) ht⟩
    · have hnone : x.failure = none := by
        rw [Attempt.allows, h.1.phase] at hallows
        simpa [fails, locks] using hallows
      exact ⟨_, h.endedTook hrequest hb haddress hnone (by simpa using hable) ht⟩

/-- `Ensure` of a new bridge, under the lock. -/
theorem stage_applyBridge (hrequest : NetworkMode.ofString q.params.mode ≠ .vlan)
    (h : Recorded q n id x) (hb : Bridged q n) (hu : Unapplied n) :
    Stage q (applyBridge n) (fun _ _ => True) x := by
  have hnew : ∀ v ∈ n.vlans, v.device = "" := by
    intro v hv
    rcases (check_iff.mp h.check).2.2.2.2.1 v hv with hempty | hmem
    · exact hempty
    · rw [hu.vlans] at hmem
      cases hmem
  refine stage_bind (h.stage_inquires (.forM fun member _ =>
    calls_requireInterface (inquires_exists _))) fun _ y hy => ?_
  refine stage_bind (hy.stage_inquires (.forM fun vlan _ =>
    calls_requireInterface (inquires_exists _))) fun _ y hy => ?_
  refine stage_bind (stage_ensureDevice hrequest hy hb hu) ?_
  rintro n1 y ⟨hy, hb, hmembers, hvlans, hsame⟩
  refine stage_bind (stage_ensureVLANs hrequest n1.vlans hy hb hmembers rfl hvlans
    (hsame ▸ hnew) (by simp)) ?_
  rintro ⟨n2, desired⟩ y ⟨hy, hb, hmembers, hdevices⟩
  dsimp only at hy hb hmembers hdevices ⊢
  refine stage_bind (hy.stage_inquires (.request ⟨trivial, fun _ => rfl⟩)) fun members y hy => ?_
  rw [hmembers, detachOld]
  refine stage_pure_bind ?_
  refine stage_bind (stage_attachDesired hrequest members desired hy hb) ?_
  rintro n3 y ⟨hy, hb, happlied⟩
  rw [dropVLANs_none desired n3.appliedVLANs (happlied ▸ hdevices)]
  refine stage_pure_bind ?_
  rw [dropAddress, if_neg (by simp [hy.unassigned])]
  refine stage_pure_bind ?_
  refine stage_bind (stage_ensureAddress hy) fun n4 y hy => ?_
  refine stage_bind (stage_lastUp hrequest hb hy) fun _ y hy => ?_
  exact stage_bind (stage_lastSave hrequest hb hy) fun _ _ _ => stage_pure trivial

/-! ### The apply of a VLAN network -/

theorem undone_vlan (hmode : n.mode = .vlan) (v : View) :
    undone n v = if n.owned = true ∧ n.device ≠ "" then v.drop [n.device] else v := by
  unfold undone
  rw [hmode]

theorem Recorded.view_eq (h : Recorded q n id x) (hmode : n.mode = .vlan)
    (howned : n.owned = false) :
    x.net.host.view = q.start.host.view := by
  have hreverts := h.reverts
  rw [undone_vlan hmode, if_neg (by simp [howned])] at hreverts
  exact hreverts

/-- An interface that maco did not make is recorded. -/
theorem stage_saveBorrowed (h : Recorded q n id x) (hmode : n.mode = .vlan)
    (howned : n.owned = false) (d : String) :
    Stage q (saveOr { n with device := d, owned := false } (pure ())) (fun _ y =>
      Recorded q { n with device := d, owned := false } id y) x := by
  have hrecords : Records n { n with device := d, owned := false } id := {
    ident := rfl
    unassigned := h.unassigned
    reverts := fun v => by
      rw [undone_vlan hmode, if_neg (by simp [howned])]
      exact Eq.trans (undone_vlan (by exact hmode) v) (if_neg (by simp))
    twice := fun v => rfl
    closed := fun v hv => hv }
  refine h.stage_saveOr hrecords (fun y _ _ => wp_nothing) fun c hunowned => ?_
  obtain ⟨-, hnone, hsome, -⟩ := hunowned
  exact hsome ((congrFun (h.view_eq hmode howned) _).trans hnone)

theorem records_made (hmode : n.mode = .vlan) (hu : Unapplied n) {d : String}
    (hname : vlanName d = true) :
    Records n { n with device := d, owned := true } (·.drop [d]) where
  ident := rfl
  unassigned := hu.address
  reverts v := by
    have hne : d ≠ "" := by
      rintro rfl
      cases hname
    rw [hu.undone]
    exact Eq.trans (undone_vlan (by exact hmode) v) (if_pos ⟨rfl, hne⟩)
  twice v := View.drop_twice _
  closed v hv := hv.drop _

/-- An interface that was made is recorded, and destroyed where that fails, unless the request gave
its name. -/
theorem stage_saveMade (hrequest : NetworkMode.ofString q.params.mode = .vlan) {d : String}
    (hname : vlanName d = true) (hthere : x.net.host.view d ≠ none)
    (h : Recorded q n (·.drop [d]) x) (hmode : n.mode = .vlan) (hu : Unapplied n)
    (hdevice : n.device = q.params.device) :
    Stage q (saveOr { n with device := d, owned := true }
        (if d ≠ n.device then discard (.destroy n.id d) else pure ()))
      (fun _ y => Recorded q { n with device := d, owned := true } id y) x := by
  have hdrop : x.net.host.view.drop [d] = q.start.host.view := by
    rw [← h.reverts, hu.undone]
  have hgone : q.start.host.view d = none := by
    rw [← hdrop]
    simp [View.drop]
  by_cases hd : d = n.device
  · rw [if_neg (by simpa using hd)]
    refine stage_bind (P := AfterSave (Recorded q { n with device := d, owned := true } id)
      fun y => ∃ m, Ended q m y) (stage_ask (wp_netCall fun c r t hallows hp => ?_))
        fun r y hr => ?_
    · obtain ⟨hc, hable, rfl, ht⟩ | ⟨e, rfl, rfl, rfl⟩ | ⟨e, rfl, hable, rfl, ht⟩ :=
        write_outcome hp
      · refine h.saved (records_made hmode hu hname) (by simpa using hable) ht fun hfails => ?_
        rw [hc] at hfails
        cases hfails
      · refine ⟨n, h.phase, h.ident, h.stored, h.others, h.check, h.closed, iff_of_false ?_ ?_⟩
        · rw [hu.undone]
          intro heq
          exact hthere ((congrFun heq d).trans hgone)
        · rw [failed_next h.phase rfl]
          refine fun hnot => hnot ⟨_, rfl, .inr ⟨hrequest, ?_, ?_, rfl, _, n, rfl, ?_, hu.owned⟩⟩
          · rw [← hdevice, ← hd]
            exact hgone
          · rw [← hdevice, ← hd]
            exact hthere
          · show x.net.manifests.get n.id = some n
            rw [h.ident]
            exact h.stored
      · refine ⟨_, (h.saved (records_made hmode hu hname) (c := .failTook e)
          (by simpa using hable) ht fun _ hunowned => ?_).ended⟩
        have htook := hunowned.2.2.2.1
        cases htook
    · cases r with
      | ok u => exact stage_pure hr
      | error e => exact hr
  · rw [if_pos hd]
    refine h.stage_saveOr (records_made hmode hu hname) (fun y => wp_destroyNow n.id d)
      fun c hunowned => ?_
    obtain ⟨-, hnone, hsome, -⟩ := hunowned
    rw [← hdrop, ← hdevice] at hnone
    rw [← hdevice] at hsome
    have hne : n.device ∉ [d] := fun hmem => hd (List.mem_singleton.mp hmem).symm
    rw [View.drop, if_neg hne, Option.map_eq_none_iff] at hnone
    exact hsome hnone

/-- `Ensure` of a new VLAN network, under the lock. -/
theorem stage_applyVLAN (hrequest : NetworkMode.ofString q.params.mode = .vlan)
    (h : Recorded q n id x) (hmode : n.mode = .vlan) (hu : Unapplied n)
    (hdevice : n.device = q.params.device) : Stage q (applyVLAN n) (fun _ _ => True) x := by
  refine stage_bind (h.stage_inquires (calls_requireInterface (inquires_exists _))) fun _ y hy => ?_
  refine stage_bind (P := fun r z => if r.2 = true then
      vlanName r.1 = true ∧ z.net.host.view r.1 ≠ none ∧ Recorded q n (·.drop [r.1]) z
      else Recorded q n id z) (wp_mono (hy.wp_resolveVLAN n.id n.device n.owned n.parent n.tag
        (.inr hu.owned)) fun r z hr => ?_) ?_
  · cases r with
    | error e => exact ⟨n, hr.ended⟩
    | ok r => exact hr
  rintro ⟨d, o⟩ z hz
  dsimp only at hz ⊢
  refine stage_bind (P := fun _ w => Recorded q { n with device := d, owned := o } id w) ?_
    fun _ w hw => ?_
  · cases o with
    | true =>
      obtain ⟨hname, hthere, hmade⟩ := hz
      have hstage := stage_saveMade hrequest hname hthere hmade hmode hu hdevice
      by_cases hd : d ≠ n.device
      · rw [if_pos hd] at hstage
        rw [if_pos ⟨rfl, hd⟩]
        exact hstage
      · rw [if_neg hd] at hstage
        rw [if_neg fun h => hd h.2]
        exact hstage
    | false =>
      rw [if_neg (by simp)]
      exact stage_saveBorrowed hz hmode hu.owned d
  · refine stage_bind (hw.stage_inquires (.request (inquires_up _))) fun _ v hv => ?_
    refine stage_bind (hv.stage_inquires (.request (inquires_up _))) fun _ v hv => ?_
    refine stage_bind (P := fun _ _ => True) (wp_netCall fun c r t _ hp => ?_)
      fun _ _ _ => stage_pure trivial
    have hunowned : ¬ Failure.Unowned q.toRequest
        ⟨.save { n with device := d, owned := o }, c, v.net⟩ := by
      rintro ⟨-, hnone, hsome, -, m, stored, hm, hstored, howned⟩
      cases hm
      have heq : v.net.manifests.get q.id = some stored := hv.ident ▸ hstored
      rw [hv.stored] at heq
      cases heq
      exact hsome ((congrFun (hv.view_eq hmode howned) _).trans hnone)
    obtain ⟨-, -, rfl, -⟩ | ⟨e, rfl, rfl, rfl⟩ | ⟨e, rfl, hable, rfl, ht⟩ := write_outcome hp
    · exact trivial
    · exact ⟨_, (hv.next_same (a := .save { n with device := d, owned := o }) hv.phase fun _ =>
        hunowned).ended⟩
    · exact ⟨_, (hv.saved ⟨rfl, hv.unassigned, fun _ => rfl, fun _ => rfl, fun _ h => h⟩
        (by simpa using hable) ht fun _ => hunowned).ended⟩

/-! ### The end of the apply -/

/-- `Ensure` of the new network has failed, and what the rollback can do is known. -/
structure Failed (q : Creation) (m : NetworkManifest) (y : Attempt) : Prop where
  idle : y.phase ≠ .applying
  ident : m.id = q.id
  stored : y.net.manifests.get q.id = some m
  others : ∀ id, id ≠ q.id → y.net.manifests.get id = q.start.manifests.get id
  destroys : wpOk (trial q.formats) (Network.destroy m) (fun _ z => z.phase ≠ .applying ∧
    z.net.manifests = y.net.manifests ∧ z.failure = y.failure ∧
      z.net.host.view = undone m y.net.host.view) y
  exactly : undone m y.net.host.view = q.start.host.view ↔ ¬ q.Leaves y.failure

/-- The new network is stored, and nothing else is done. -/
structure New (q : Creation) (n : NetworkManifest) (x : Attempt) : Prop where
  phase : x.phase = .before
  failure : x.failure = none
  ident : n.id = q.id
  stored : x.net.manifests.get q.id = some n
  others : ∀ id, id ≠ q.id → x.net.manifests.get id = q.start.manifests.get id
  host : x.net.host = q.start.host
  check : check q.formats n = .ok ()
  unapplied : Unapplied n
  closed : q.start.host.view.Closed

theorem clear_none : ¬ q.Leaves none := by
  rintro ⟨p, hp, -⟩
  cases hp

theorem New.recorded (h : New q n x) (hy : y.net = x.net) (hphase : y.phase = .applying)
    (hfailure : y.failure = x.failure) : Recorded q n id y where
  phase := hphase
  ident := h.ident
  stored := hy ▸ h.stored
  others := hy ▸ h.others
  check := h.check
  unassigned := h.unapplied.address
  closed := by
    rw [hy, h.host]
    exact h.closed
  reverts := by
    rw [h.unapplied.undone, hy, h.host]
    rfl
  untouched d p hp := by
    rw [hy, h.host]
    exact ⟨p, hp, rfl⟩
  clear := by
    rw [hfailure, h.failure]
    exact clear_none

/-- The rollback after the apply. -/
theorem Ended.failed (h : Ended q n y) {t : Attempt} (hnet : t.net = y.net)
    (hphase : t.phase = .after) (hfailure : t.failure = y.failure) : Failed q n t where
  idle := by
    rw [hphase]
    decide
  ident := h.ident
  stored := hnet ▸ h.stored
  others := hnet ▸ h.others
  destroys := by
    have hrolled : Rolled t t.net.host.view t := ⟨hphase, rfl, rfl, rfl, hnet ▸ h.closed⟩
    refine wpOk_mono (hrolled.wpOk_networkDestroy h.check) fun _ z hz => ?_
    exact ⟨by rw [hz.phase]; decide, hz.manifests, hz.failure, hz.view⟩
  exactly := by
    rw [hnet, hfailure]
    exact h.exactly

/-- The manifest that is read again under the lock is the new one. -/
theorem stage_reload (h : Recorded q n id x) (hmode : n.mode = mode) :
    Stage q (reload n.id mode) (fun m y => m = n ∧ Recorded q n id y) x := by
  refine stage_bind (P := fun m y => m = n ∧ Recorded q n id y) (wp_netCall fun c r t _ hp => ?_) ?_
  · obtain ⟨rfl, hr⟩ := NetChoice.query_cases hp
    have hnext : Recorded q n id (x.next (.load n.id) c x.net) := by
      refine h.next_same h.phase fun _ => ?_
      rintro ⟨-, -, -, -, m, -, hm, -⟩
      cases hm
    have hloaded : x.net.loaded q.formats n.id = .ok n := by
      unfold NetState.loaded
      simp [h.ident, h.stored, h.check]
    rcases hr with rfl | ⟨e, rfl⟩
    · rw [hloaded]
      exact ⟨rfl, hnext⟩
    · exact ⟨n, hnext.ended⟩
  · rintro m y ⟨rfl, hy⟩
    rw [if_neg (by simpa using hmode)]
    exact stage_pure ⟨rfl, hy⟩

/-- What is done under the lock. -/
theorem New.wp_underLock (h : New q n x) {body : NetM NetworkManifest}
    (hbody : ∀ y, Recorded q n id y → Stage q body (fun _ _ => True) y) :
    wp (trial q.formats) (underLock body).run
      (fun r y => ∀ e, r = .error e → ∃ m, Failed q m y) x := by
  refine wp_andThen (wp_netCall fun c r t hallows hp => ?_)
  have hc : fails c = false := by
    rw [Attempt.allows, h.phase] at hallows
    simpa [locks] using hallows
  cases c with
  | fail e | failTook e => cases hc
  | name d | fileExists | vms l | running b | references l => cases hp
  | ok =>
    cases hp
    have hrecorded := h.recorded (y := x.next .lock .ok x.net) rfl rfl (next_failure rfl)
    refine wp_liftThen (wp_mono (hbody _ hrecorded) fun r y hr => ?_)
    refine wp_liftThen (wp_netCall fun c u t hallows hp => ?_)
    cases hp
    intro e he
    cases r with
    | ok m => cases he
    | error e =>
      obtain ⟨m, hm⟩ := hr
      have hc : fails c = false := by
        rw [Attempt.allows] at hallows
        simpa [locks] using hallows
      exact ⟨m, hm.failed rfl rfl (next_failure hc)⟩

/-- `Ensure` of the new network. -/
theorem New.wp_ensure (h : New q n x) (hdevice : n.device = q.params.device)
    (haddress : n.address = q.params.address)
    (hbridge : n.mode = .bridge → NetworkMode.ofString q.params.mode ≠ .vlan)
    (hvlan : n.mode = .vlan → NetworkMode.ofString q.params.mode = .vlan) :
    wp (trial q.formats) (ensure n false).run
      (fun r y => ∀ e, r = .error e → ∃ m, Failed q m y) x := by
  unfold ensure
  cases hmode : n.mode with
  | bridge =>
    refine h.wp_underLock fun y hy => ?_
    refine stage_bind (stage_reload hy hmode) ?_
    rintro m z ⟨rfl, hz⟩
    exact stage_applyBridge (hbridge hmode) hz ⟨hmode, haddress, .inl ⟨h.unapplied.owned, hdevice⟩⟩
      h.unapplied
  | vlan =>
    refine h.wp_underLock fun y hy => ?_
    refine stage_bind (stage_reload hy hmode) ?_
    rintro m z ⟨rfl, hz⟩
    exact stage_applyVLAN (hvlan hmode) hz hmode h.unapplied hdevice
  | bridged | vmnetBridged =>
    refine wp_liftThen (wp_netCall fun c found t _ hp => ?_)
    obtain rfl := NetChoice.test_same hp
    have hidle : (x.next (.interfaceExists n.uplink) c x.net).phase ≠ .applying := by
      show (x.phase.next (.interfaceExists n.uplink)) ≠ .applying
      rw [h.phase]
      intro heq
      cases heq
    have hfailure : (x.next (.interfaceExists n.uplink) c x.net).failure = none := by
      simp [Attempt.next, h.phase, h.failure]
    split
    · exact fun e he => by cases he
    · rintro e -
      refine ⟨n, hidle, h.ident, h.stored, h.others, ?_, ?_⟩
      · rw [Network.destroy, hmode]
        refine wpOk_pure ⟨hidle, rfl, rfl, ?_⟩
        rw [h.unapplied.undone]
      · rw [h.unapplied.undone, hfailure]
        refine iff_of_true ?_ clear_none
        show x.net.host.view = _
        rw [h.host]
  | user | switch | other name =>
    exact fun e he => by cases he

/-! ### `CreateNetwork` -/

/-- The error says that the rollback failed. -/
inductive ReportsRollback : Message → Prop
  | reload (cause cleanup : Message) :
      ReportsRollback (Message.text "apply network: " ++ cause ++ " (reload for rollback: " ++
        cleanup ++ ")")
  | destroy (cause cleanup : Message) (id : String) :
      ReportsRollback (Message.text "apply network: " ++ cause ++
        (" (rollback failed; retained manifest " ++ id ++ ": " : String) ++ cleanup ++ ")")
  | remove (cause cleanup : Message) :
      ReportsRollback (Message.text "apply network: " ++ cause ++ " (remove failed manifest: " ++
        cleanup ++ ")")

/-- The host looks as it did, and the store is as it was. -/
def Clean (s t : NetState) : Prop :=
  t.host.view = s.host.view ∧ ∀ id, t.manifests.get id = s.manifests.get id

theorem next_idle {a : NetCall} {c : NetChoice} {t : NetState} (hy : y.phase ≠ .applying) :
    (y.next a c t).failure = y.failure := by
  show (if y.phase = .applying ∧ fails c = true then some ⟨a, c, y.net⟩ else y.failure) = _
  rw [if_neg fun h => hy h.1]

/-- The rollback reports that it failed, or leaves what the failure leaves. -/
theorem Failed.wp_rollBack (h : Failed q m y) (hnew : q.start.manifests.get q.id = none)
    (e : Message) :
    wp (trial q.formats) (rollBackNetwork m.id e).run (fun r t => ∀ e, r = .error e →
      ReportsRollback e ∨ (Clean q.start t.net ↔ ¬ q.Leaves t.failure)) y := by
  refine wp_liftThen (wp_netCall fun c r t _ hp => ?_)
  obtain ⟨rfl, hr⟩ := NetChoice.query_cases hp
  have hself : y.next (.load m.id) c y.net = y := by
    have hfailure := next_idle (a := .load m.id) (c := c) (t := y.net) h.idle
    exact congrArg (fun failure => { y with failure := failure }) hfailure
  rw [hself]
  cases r with
  | error loadErr =>
    intro e he
    cases he
    exact .inl (.reload _ _)
  | ok current =>
    have hcurrent : current = m := by
      rcases hr with hr | ⟨e, hr⟩
      · have hget := (loaded_stored hr.symm).1
        rw [h.ident, h.stored] at hget
        cases hget
        rfl
      · cases hr
    subst hcurrent
    refine wp_liftThen (wp_mono h.destroys fun r z hz => ?_)
    cases r with
    | error cleanupErr =>
      intro e he
      cases he
      exact .inl (.destroy _ _ _)
    | ok u =>
      obtain ⟨hidle, hmanifests, hfailure, hview⟩ := hz () rfl
      refine wp_liftThen (wp_netCall fun c r t _ hp => ?_)
      obtain ⟨-, -, rfl, rfl⟩ | ⟨e', rfl, rfl, rfl⟩ := attempt_outcome hp
      · intro e he
        right
        rw [next_idle hidle, hfailure, ← h.exactly, ← hview]
        refine ⟨fun hclean => hclean.1, fun hsame => ⟨hsame, fun id => ?_⟩⟩
        show (z.net.manifests.without [current.id]).get id = _
        rw [Table.get_without, hmanifests, h.ident]
        by_cases hid : id = q.id
        · rw [if_pos (by simpa using hid), hid, hnew]
        · rw [if_neg (by simpa using hid), h.others id hid]
      · intro e he
        cases he
        exact .inl (.remove _ _)

end Stages

/-! ### Every run -/

section Runs

variable {f : Formats} {s : NetState} {params : CreateNetworkParams} {x : Attempt}

/-- Nothing is done yet. -/
structure Idle (s : NetState) (x : Attempt) : Prop where
  phase : x.phase = .before
  failure : x.failure = none
  host : x.net.host = s.host
  manifests : x.net.manifests = s.manifests

theorem Idle.clean (h : Idle s x) : Clean s x.net ↔ ¬ Request.Leaves ⟨f, s, params⟩ x.failure := by
  refine iff_of_true ⟨by rw [h.host], fun id => by rw [h.manifests]⟩ ?_
  rw [h.failure]
  rintro ⟨p, hp, -⟩
  cases hp

theorem Idle.next (h : Idle s x) {a : NetCall} {c : NetChoice} {t : NetState}
    (ha : x.phase.next a = .before) (hhost : t.host = x.net.host)
    (hmanifests : t.manifests = x.net.manifests) : Idle s (x.next a c t) where
  phase := ha
  failure := by
    rw [next_idle (by rw [h.phase]; decide)]
    exact h.failure
  host := hhost.trans h.host
  manifests := hmanifests.trans h.manifests

/-- The fields that depend on the mode are not those that the apply reads. -/
theorem withModeFields_cases (params : CreateNetworkParams) (mcastGroup : String → String)
    (n : NetworkManifest) :
    (∃ e, withModeFields mcastGroup params n = refuse e) ∨
      ∃ group uplink, withModeFields mcastGroup params n =
        pure { n with group := group, uplink := uplink } := by
  unfold withModeFields
  split
  · exact .inr ⟨_, _, rfl⟩
  · split
    · exact .inl ⟨_, rfl⟩
    · exact .inr ⟨_, _, rfl⟩
  · split
    · exact .inl ⟨_, rfl⟩
    · exact .inr ⟨_, _, rfl⟩
  · split
    · exact .inl ⟨_, rfl⟩
    · exact .inr ⟨_, _, rfl⟩
  · exact .inr ⟨_, _, rfl⟩

/-- What `CreateNetwork` promises of an error that does not report a failed rollback. -/
def Promise (f : Formats) (s : NetState) (params : CreateNetworkParams)
    (r : Except Message NetworkManifest) (t : Attempt) : Prop :=
  ∀ e, r = .error e → ReportsRollback e ∨
    (Clean s t.net ↔ ¬ Request.Leaves ⟨f, s, params⟩ t.failure)

theorem Idle.wp_createWith (h : Idle s x) (mcastGroup : String → String)
    (hstored : ∀ id, s.manifests.get id ≠ none → id ∈ x.net.issued) (hclosed : s.host.view.Closed)
    {mode : String} (hmode : mode = if params.mode = "" then "bridge" else params.mode) :
    wp (trial f) (createWith mcastGroup params mode).run (Promise f s params) x := by
  unfold createWith
  split
  · exact fun e _ => .inr h.clean
  refine wp_liftThen (wp_netCall fun c id t _ hp => ?_)
  cases c with
  | name id' =>
    rw [NetState.perform] at hp
    split at hp
    · cases hp
    rename_i hfresh
    cases hp
    have hidle := h.next (a := .newString) (c := .name id) (t := { x.net with
      issued := id :: x.net.issued }) h.phase rfl rfl
    have hnew : s.manifests.get id = none := by
      by_contra hsome
      exact hfresh (hstored id hsome)
    rcases withModeFields_cases params mcastGroup (newNetwork params mode id) with
      ⟨e, he⟩ | ⟨group, uplink, hn⟩
    · rw [he]
      exact fun e _ => .inr hidle.clean
    rw [hn]
    generalize hn : ({ newNetwork params mode id with group := group, uplink := uplink } :
      NetworkManifest) = n
    have hident : n.id = id := by
      subst hn
      rfl
    refine wp_andThen (wp_netCall fun c r t hallows hp => ?_)
    obtain ⟨-, hable, rfl, rfl⟩ | ⟨e, rfl, rfl, rfl⟩ | ⟨e, rfl, -⟩ := write_outcome hp
    · let q : Creation := { formats := f, start := s, params := params, id := id }
      have hstart : New q n ((x.next .newString (.name id) { x.net with
          issued := id :: x.net.issued }).next (.save n) c { x.net with
            issued := id :: x.net.issued, manifests := x.net.manifests.put n.id n }) := {
        phase := hidle.phase
        failure := (next_idle (by rw [hidle.phase]; decide)).trans hidle.failure
        ident := hident
        stored := by
          show (x.net.manifests.put n.id n).get id = some n
          rw [Table.get_put, if_pos hident.symm]
        others := fun other hother => by
          show (x.net.manifests.put n.id n).get other = _
          rw [Table.get_put, if_neg (by rwa [hident]), h.manifests]
        host := h.host
        check := by simpa using hable
        unapplied := by
          subst hn
          exact ⟨rfl, rfl, rfl, rfl⟩
        closed := hclosed }
      have hof : n.mode = .ofString mode := by
        subst hn
        rfl
      have hbridge : n.mode = .bridge → NetworkMode.ofString params.mode ≠ .vlan := by
        rw [hof, hmode]
        split
        · rename_i hempty
          rw [hempty]
          decide
        · intro hb hv
          rw [hb] at hv
          cases hv
      have hvlan : n.mode = .vlan → NetworkMode.ofString params.mode = .vlan := by
        rw [hof, hmode]
        split
        · intro hv
          cases hv
        · exact fun hv => hv
      refine wp_liftThen (wp_mono (hstart.wp_ensure (by subst hn; rfl) (by subst hn; rfl) hbridge
        hvlan) fun r y hr => ?_)
      cases r with
      | ok m => exact fun e he => by cases he
      | error e =>
        obtain ⟨m, hm⟩ := hr e rfl
        rw [hident.trans hm.ident.symm]
        exact hm.wp_rollBack hnew e
    · exact fun e _ => .inr (hidle.next (a := .save n) hidle.phase rfl rfl).clean
    · rw [Attempt.allows, hidle.phase] at hallows
      simp [fails, took] at hallows
  | ok | fail e | failTook e | fileExists | vms l | running b | references l => cases hp

theorem wp_createNetwork (mcastGroup : String → String) (f : Formats) (s : NetState)
    (params : CreateNetworkParams) (hstored : ∀ id, s.manifests.get id ≠ none → id ∈ s.issued)
    (hclosed : s.host.view.Closed) :
    wp (trial f) (createNetwork mcastGroup params).run (Promise f s params) { net := s } := by
  have hidle : Idle s { net := s } := ⟨rfl, rfl, rfl, rfl⟩
  unfold createNetwork
  split
  · exact fun e _ => .inr hidle.clean
  refine wp_liftThen (wp_netCall fun c r t _ hp => ?_)
  obtain ⟨rfl, -⟩ := NetChoice.query_cases hp
  have hnext := hidle.next (a := .resolve params.name) (c := c) rfl rfl rfl
  cases r with
  | ok existing => exact fun e _ => .inr hnext.clean
  | error e => exact hnext.wp_createWith mcastGroup hstored hclosed rfl

/-- A call of `CreateNetwork` of which one command or save fails under the lock, and which does not
report a failed rollback, leaves the host and the store as they were, unless the failure is one that
leaves an address or an interface. -/
theorem createNetwork_clean_iff {f : Formats} {mcastGroup : String → String} {s : NetState}
    {params : CreateNetworkParams} (hstored : ∀ id, s.manifests.get id ≠ none → id ∈ s.issued)
    (hclosed : s.host.view.Closed) {cs : List NetChoice} {e : Message} {t : Attempt}
    (hrun : Prog.run (Attempt.perform f) (createNetwork mcastGroup params).run cs { net := s } =
      some (.error e, t)) (hreport : ¬ ReportsRollback e) :
    Clean s t.net ↔ ¬ Request.Leaves ⟨f, s, params⟩ t.failure := by
  have hend := wp_alone_runs (wp_createNetwork mcastGroup f s params hstored hclosed)
    (Prog.runs_of_run hrun)
  exact (hend e rfl).resolve_left hreport

end Runs

/-! ### An address that stays -/

def labParams : CreateNetworkParams := { name := "lab", mode := "bridge" }

def lab : NetworkManifest := { id := "lab-id", name := "lab", mode := .bridge }

/-- No bridge can be created. -/
def unbridged : Attempt where
  net := { issued := ["lab-id"] }
  phase := .after
  failure := some {
    call := .createBridge "lab-id"
    choice := .fail "ifconfig"
    state := { manifests := [("lab-id", lab)], issued := ["lab-id"] } }

theorem createNetwork_clean_unbridged :
    Clean {} unbridged.net ↔ ¬ Request.Leaves ⟨anyFormats, {}, labParams⟩ unbridged.failure := by
  have hrun : Prog.run (Attempt.perform anyFormats) (createNetwork (fun _ => "") labParams).run
      [.ok, .name "lab-id", .ok, .ok, .ok, .fail "ifconfig", .ok, .ok, .ok, .ok] { net := {} } =
        some (.error (Message.text "apply network: " ++ "ifconfig"), unbridged) := rfl
  exact createNetwork_clean_iff (fun id h => absurd rfl h) (fun d p h => by cases h) hrun
    (fun h => by cases h)

/-- A host with a bridge that the request names. -/
def bridged : NetState := { host := [("bridge0", { made := false, bridge := true })] }

def bridgedParams : CreateNetworkParams :=
  { name := "lab", mode := "bridge", device := "bridge0", address := "10.0.0.1/24" }

/-- The address stays on the bridge when the bridge cannot be brought up. -/
theorem createNetwork_not_clean : ∃ t,
    Prog.run (Attempt.perform anyFormats) (createNetwork (fun _ => "") bridgedParams).run
      [.ok, .name "lab-id", .ok, .ok, .ok, .ok, .ok, .ok, .ok, .ok, .ok, .fail "ifconfig", .ok, .ok,
        .ok, .ok, .ok, .ok] { net := bridged } =
        some (.error (Message.text "apply network: " ++ "ifconfig"), t) ∧
      ¬ ReportsRollback (Message.text "apply network: " ++ "ifconfig") ∧
      bridged.host.view "bridge0" = some ([], []) ∧
      t.net.host.view "bridge0" = some ([], ["10.0.0.1/24"]) ∧ ¬ Clean bridged t.net := by
  refine ⟨_, rfl, (fun h => by cases h), rfl, rfl, fun h => ?_⟩
  have hsame := congrFun h.1 "bridge0"
  revert hsame
  decide

end Maco.Engine.Residue
