import Maco.Network.Honest

/-! What is seen of a host, which is its interfaces with their members and addresses, what the
commands do to it, and what `Destroy` of a manifest makes of it.  `undone` takes back what the
manifest records, so it is the same before and after a command whose work is recorded. -/

namespace Maco.Network

open Concurrent

/-- The interfaces, with their members and their addresses. -/
abbrev View := String → Option (List String × List String)

def Host.view (h : Host) : View := fun d =>
  (h.get d).map fun i => (i.members.map (·.1), i.addresses.map (·.1))

/-- What is not in a list cannot be taken out of it. -/
theorem filter_absent {d : String} {l : List String} (h : d ∉ l) : l.filter (· ∉ [d]) = l := by
  refine List.filter_eq_self.mpr fun y hy => ?_
  rw [decide_eq_true_eq, List.mem_singleton]
  rintro rfl
  exact h hy

namespace View

/-- The members of the bridges are interfaces. -/
def Closed (v : View) : Prop := ∀ d p, v d = some p → ∀ x ∈ p.1, v x ≠ none

/-- A new interface. -/
def add (v : View) (d : String) : View := fun x => if x = d then some ([], []) else v x

/-- Interfaces go, also from the bridges. -/
def drop (v : View) (gone : List String) : View := fun x =>
  if x ∈ gone then none else (v x).map fun p => (p.1.filter (· ∉ gone), p.2)

/-- A change of the members and addresses of an interface. -/
def change (v : View) (d : String) (f : List String × List String → List String × List String) :
    View := fun x => if x = d then (v x).map f else v x

def attach (v : View) (bridge member : String) : View :=
  v.change bridge fun p => (p.1 ++ [member], p.2)

def detach (v : View) (bridge : String) (members : List String) : View :=
  v.change bridge fun p => (p.1.filter (· ∉ members), p.2)

def assign (v : View) (device text : String) : View :=
  v.change device fun p => (p.1, p.2 ++ [text])

def unassign (v : View) (device text : String) : View :=
  v.change device fun p => (p.1, p.2.filter (· ≠ text))

variable {v : View} {d e : String}

theorem change_id : v.change d id = v := by
  funext x
  unfold change
  simp

theorem change_none {f : List String × List String → List String × List String} (h : v d = none) :
    v.change d f = v := by
  funext x
  unfold change
  split
  · rename_i hx
    rw [hx, h]
    rfl
  · rfl

theorem change_change {f g : List String × List String → List String × List String} :
    (v.change d f).change d g = v.change d fun p => g (f p) := by
  funext x
  unfold change
  split
  · rw [Option.map_map]
    rfl
  · rfl

/-- A change of an interface that leaves it as it is. -/
theorem change_same {f : List String × List String → List String × List String}
    (h : ∀ p, v d = some p → f p = p) : v.change d f = v := by
  funext x
  unfold change
  split
  · rename_i hx
    subst hx
    cases hv : v x with
    | none => rfl
    | some p => rw [Option.map_some, h p hv]
  · rfl

theorem Closed.not_mem (hv : v.Closed) (hd : v d = none) {x : String}
    {p : List String × List String} (hp : v x = some p) : d ∉ p.1 := fun hmem => hv x p hp d hmem hd

/-- What is not there cannot go. -/
theorem Closed.drop_none (hv : v.Closed) (hd : v d = none) : v.drop [d] = v := by
  funext x
  unfold drop
  split
  · rename_i hx
    rw [List.mem_singleton.mp hx, hd]
  · cases hp : v x with
    | none => rfl
    | some p => rw [Option.map_some, filter_absent (hv.not_mem hd hp)]

theorem drop_drop (l m : List String) : (v.drop l).drop m = v.drop (l ++ m) := by
  funext x
  unfold drop
  by_cases hl : x ∈ l
  · simp [hl]
  · by_cases hm : x ∈ m
    · simp [hl, hm]
    · simp only [hl, hm, List.mem_append, or_self, if_false, Option.map_map]
      congr 1
      funext p
      simp [List.filter_filter, Bool.and_comm]

/-- A new interface that goes again. -/
theorem Closed.drop_add (hv : v.Closed) (hd : v d = none) : (v.add d).drop [d] = v := by
  have hdrop := hv.drop_none hd
  funext x
  rw [← congrFun hdrop x]
  unfold drop add
  by_cases hx : x = d
  · simp [hx]
  · simp [hx]

theorem drop_comm (l m : List String) : v.drop (l ++ m) = v.drop (m ++ l) := by
  funext x
  simp only [drop, List.mem_append, or_comm]

theorem drop_twice (l : List String) : (v.drop l).drop l = v.drop l := by
  rw [drop_drop]
  unfold drop
  simp only [List.mem_append, or_self]

/-- What goes is no member of a bridge any more. -/
theorem drop_detach (gone members : List String) :
    (v.drop gone).detach d members = (v.detach d members).drop gone := by
  funext x
  unfold drop detach change
  by_cases hx : x ∈ gone
  · simp [hx]
  · by_cases hd : x = d
    · subst hd
      simp [hx, List.filter_filter, Function.comp_def, Bool.and_comm]
    · simp [hx, hd]

/-- A member that is attached and detached. -/
theorem detach_attach {member : String} (h : ∀ p, v d = some p → member ∉ p.1) :
    (v.attach d member).detach d [member] = v := by
  rw [attach, detach, change_change]
  refine change_same fun p hp => ?_
  have hlast : [member].filter (· ∉ [member]) = [] := by simp
  simp only [List.filter_append, filter_absent (h p hp), hlast, List.append_nil]

theorem detach_detach (l m : List String) :
    (v.detach d l).detach d m = v.detach d (l ++ m) := by
  unfold detach
  rw [change_change]
  congr 1
  funext p
  simp [List.filter_filter, Bool.and_comm]

theorem detach_twice (l : List String) : (v.detach d l).detach d l = v.detach d l := by
  rw [detach_detach]
  unfold detach
  simp only [List.mem_append, or_self]

theorem detach_absent {member : String} (h : ∀ p, v d = some p → member ∉ p.1) :
    v.detach d [member] = v :=
  change_same fun p hp => by rw [filter_absent (h p hp)]

theorem detach_nil : v.detach d [] = v := change_same fun p _ => by simp

theorem drop_nil : v.drop [] = v := by
  funext x
  simp [drop]

/-! ### The members of the bridges stay interfaces -/

theorem Closed.add (hv : v.Closed) (d : String) : (v.add d).Closed := by
  intro x p hp y hy
  unfold View.add at hp ⊢
  split at hp
  · cases hp
    cases hy
  · have := hv x p hp y hy
    split
    · exact Option.some_ne_none _
    · exact this

theorem change_ne_none {f : List String × List String → List String × List String} {x : String} :
    v.change d f x ≠ none ↔ v x ≠ none := by
  unfold change
  split
  · simp
  · rfl

theorem Closed.change (hv : v.Closed) {f : List String × List String → List String × List String}
    (hf : ∀ p, v d = some p → ∀ x ∈ (f p).1, v x ≠ none) : (v.change d f).Closed := by
  intro x p hp y hy
  rw [change_ne_none]
  unfold View.change at hp
  split at hp
  · rename_i hx
    subst hx
    obtain ⟨q, hq, rfl⟩ := Option.map_eq_some_iff.mp hp
    exact hf q hq y hy
  · exact hv x p hp y hy

theorem Closed.attach (hv : v.Closed) (he : v e ≠ none) : (v.attach d e).Closed := by
  refine hv.change fun p hp x hx => ?_
  rcases List.mem_append.mp hx with hx | hx
  · exact hv d p hp x hx
  · rwa [List.mem_singleton.mp hx]

theorem Closed.detach (hv : v.Closed) (members : List String) : (v.detach d members).Closed :=
  hv.change fun p hp x hx => hv d p hp x (List.mem_of_mem_filter hx)

theorem Closed.assign (hv : v.Closed) (text : String) : (v.assign d text).Closed :=
  hv.change fun p hp => hv d p hp

theorem Closed.unassign (hv : v.Closed) (text : String) : (v.unassign d text).Closed :=
  hv.change fun p hp => hv d p hp

theorem Closed.drop (hv : v.Closed) (gone : List String) : (v.drop gone).Closed := by
  intro x p hp y hy
  unfold View.drop at hp ⊢
  split at hp
  · cases hp
  · obtain ⟨q, hq, rfl⟩ := Option.map_eq_some_iff.mp hp
    obtain ⟨hy, hgone⟩ := List.mem_filter.mp hy
    rw [if_neg (by simpa using hgone), ne_eq, Option.map_eq_none_iff]
    exact hv x q hq y hy

end View

/-! ### The commands -/

theorem view_none {h : Host} {d : String} : h.view d = none ↔ h.get d = none := by
  simp [Host.view]

/-- An interface is replaced. -/
theorem view_put {h : Host} {d : String} {i : Interface} :
    Host.view (h.put d i) = fun x =>
      if x = d then some (i.members.map (·.1), i.addresses.map (·.1)) else h.view x := by
  funext x
  unfold Host.view
  rw [Table.get_put]
  split
  · rfl
  · rfl

theorem view_added {h : Host} {d : String} {i : Interface} (hm : i.members = [])
    (ha : i.addresses = []) : Host.view (h.put d i) = h.view.add d := by
  rw [view_put, hm, ha]
  rfl

/-- A change of an interface that has an effect `f` on its members and addresses. -/
theorem view_update {s : NetState} {d : String} {change : Interface → Interface}
    {f : List String × List String → List String × List String}
    (hf : ∀ i, ((change i).members.map (·.1), (change i).addresses.map (·.1)) =
      f (i.members.map (·.1), i.addresses.map (·.1))) :
    (s.update d change).host.view = s.host.view.change d f := by
  unfold NetState.update
  split
  · rename_i i hi
    rw [view_put]
    funext x
    unfold View.change
    by_cases hx : x = d
    · subst hx
      simp [Host.view, hi, hf]
    · simp [hx]
  · rename_i hnone
    rw [View.change_none (view_none.mpr hnone)]

theorem view_destroyed (h : Host) (d : String) : (h.destroyed d).view = h.view.drop [d] := by
  funext x
  unfold Host.view View.drop
  rw [get_destroyed]
  by_cases hx : x = d
  · simp [hx]
  · simp only [hx, if_false, List.mem_singleton, Option.map_map]
    congr 1
    funext i
    simp [List.filter_map, Function.comp_def]

theorem view_detached (h : Host) (d m : String) : (h.detached d m).view = h.view.detach d [m] := by
  unfold Host.detached
  split
  · rename_i i hi
    rw [view_put]
    funext x
    unfold View.detach View.change
    by_cases hx : x = d
    · subst hx
      simp [Host.view, hi, List.filter_map, Function.comp_def]
    · simp [hx]
  · rename_i hnone
    rw [View.detach, View.change_none (view_none.mpr hnone)]

theorem view_unaddressed (h : Host) (d a : String) :
    (h.unaddressed d a).view = h.view.unassign d a := by
  unfold Host.unaddressed
  split
  · rename_i i hi
    rw [view_put]
    funext x
    unfold View.unassign View.change
    by_cases hx : x = d
    · subst hx
      simp [Host.view, hi, List.filter_map, Function.comp_def]
    · simp [hx]
  · rename_i hnone
    rw [View.unassign, View.change_none (view_none.mpr hnone)]

theorem hasAddress_iff {i : Interface} {text : String} :
    i.hasAddress text = true ↔ text ∈ i.addresses.map (·.1) := by
  simp [Interface.hasAddress]

/-- An address that is set where it is not there. -/
theorem view_aliased {s : NetState} {d text : String} :
    (s.update d fun i => if i.hasAddress text = true then i else
        { i with addresses := i.addresses ++ [(text, true)] }).host.view =
      s.host.view.change d fun p => if text ∈ p.2 then p else (p.1, p.2 ++ [text]) := by
  refine view_update fun i => ?_
  by_cases h : i.hasAddress text = true
  · rw [if_pos h, if_pos (hasAddress_iff.mp h)]
  · rw [if_neg h, if_neg (hasAddress_iff.not.mp h)]
    simp

/-! ### What the manifest records -/

/-- The VLAN interfaces that maco made for the network. -/
def madeVLANs (n : NetworkManifest) : List String :=
  (n.appliedVLANs.filter (·.borrowed = false)).map (·.device)

/-- What `Destroy` of a bridge makes of the host. -/
def undoneBridge (n : NetworkManifest) (v : View) : View :=
  let rest := (v.detach n.device n.appliedMembers).drop (madeVLANs n)
  if n.owned = true then rest.drop [n.device]
  else if n.appliedAddress ≠ "" then rest.unassign n.device n.appliedAddress
  else rest

/-- What `Destroy` makes of the host. -/
def undone (n : NetworkManifest) (v : View) : View :=
  match n.mode with
  | .vlan => if n.owned = true ∧ n.device ≠ "" then v.drop [n.device] else v
  | .bridge => undoneBridge n v
  | _ => v

section Undone

variable {n : NetworkManifest} {v : View} {d : String}

theorem undone_bridge (hmode : n.mode = .bridge) (v : View) : undone n v = undoneBridge n v := by
  unfold undone
  rw [hmode]

/-- Nothing is recorded. -/
theorem undone_nothing (howned : n.owned = false) (hmembers : n.appliedMembers = [])
    (hvlans : n.appliedVLANs = []) (haddress : n.appliedAddress = "") : undone n v = v := by
  unfold undone
  split
  · simp [howned]
  · simp [undoneBridge, howned, haddress, madeVLANs, hvlans, hmembers, View.detach_nil,
      View.drop_nil]
  · rfl

/-- A bridge is recorded as made. -/
theorem undoneBridge_created (hvlans : n.appliedVLANs = []) :
    undoneBridge { n with device := d, owned := true, appliedMembers := [] } v = v.drop [d] := by
  simp [undoneBridge, madeVLANs, hvlans, View.detach_nil, View.drop_nil]

/-- A VLAN is recorded for which an interface was made. -/
theorem undoneBridge_vlan {vlans : List VLAN} {a : VLAN} (hborrowed : a.borrowed = false) :
    undoneBridge { n with vlans := vlans, appliedVLANs := n.appliedVLANs ++ [a] } v =
      undoneBridge n (v.drop [a.device]) := by
  have hmade : madeVLANs { n with vlans := vlans, appliedVLANs := n.appliedVLANs ++ [a] } =
      madeVLANs n ++ [a.device] := by
    simp [madeVLANs, hborrowed]
  have hrest : (v.detach n.device n.appliedMembers).drop (madeVLANs n ++ [a.device]) =
      ((v.drop [a.device]).detach n.device n.appliedMembers).drop (madeVLANs n) := by
    rw [View.drop_detach, View.drop_drop, View.drop_comm]
  simp only [undoneBridge, hmade, hrest]

/-- A VLAN is recorded whose interface was there. -/
theorem undoneBridge_borrowed {vlans : List VLAN} {a : VLAN} (hborrowed : a.borrowed = true) :
    undoneBridge { n with vlans := vlans, appliedVLANs := n.appliedVLANs ++ [a] } v =
      undoneBridge n v := by
  simp [undoneBridge, madeVLANs, hborrowed]

/-- A member is recorded. -/
theorem undoneBridge_member {member : String} :
    undoneBridge { n with appliedMembers := n.appliedMembers ++ [member] } v =
      undoneBridge n (v.detach n.device [member]) := by
  have hdetach : v.detach n.device (n.appliedMembers ++ [member]) =
      (v.detach n.device [member]).detach n.device n.appliedMembers := by
    rw [View.detach_detach]
    unfold View.detach
    simp only [List.mem_append, or_comm]
  simp only [undoneBridge, hdetach]
  rfl

/-- A member is attached that is recorded. -/
theorem undoneBridge_attached {member : String} (h : member ∈ n.appliedMembers) :
    undoneBridge n (v.attach n.device member) = undoneBridge n v := by
  have hdetach : (v.attach n.device member).detach n.device n.appliedMembers =
      v.detach n.device n.appliedMembers := by
    rw [View.attach, View.detach, View.change_change, View.detach]
    congr 1
    funext p
    simp [h]
  simp only [undoneBridge, hdetach]

/-! ### Addresses -/

theorem View.drop_assign {gone : List String} {text : String} (h : d ∉ gone) :
    (v.assign d text).drop gone = (v.drop gone).assign d text := by
  funext x
  unfold View.assign View.drop View.change
  by_cases hx : x = d
  · subst hx
    simp [h, Function.comp_def]
  · simp [hx]

theorem View.detach_assign {members : List String} {text : String} :
    (v.assign d text).detach d members = (v.detach d members).assign d text := by
  rw [View.assign, View.detach, View.detach, View.assign, View.change_change, View.change_change]

/-- An address of a bridge that was there stays. -/
theorem undoneBridge_assign (howned : n.owned = false) (haddress : n.appliedAddress = "")
    (hdevice : n.device ∉ madeVLANs n) (text : String) :
    undoneBridge n (v.assign n.device text) = (undoneBridge n v).assign n.device text := by
  simp [undoneBridge, howned, haddress, View.detach_assign, View.drop_assign hdevice]

/-- A recorded address goes. -/
theorem undoneBridge_address (howned : n.owned = false) (haddress : n.appliedAddress = "")
    {a : String} (ha : a ≠ "") :
    undoneBridge { n with appliedAddress := a } v = (undoneBridge n v).unassign n.device a := by
  simp [undoneBridge, madeVLANs, howned, haddress, ha]

/-- A bridge that was made goes with its addresses. -/
theorem undoneBridge_owned (howned : n.owned = true) (a text : String) :
    undoneBridge { n with appliedAddress := a } (v.assign n.device text) = undoneBridge n v := by
  simp only [undoneBridge, madeVLANs, howned, if_true, View.detach_assign, View.drop_drop]
  funext x
  unfold View.drop View.assign View.change
  by_cases hx : x = n.device
  · simp [hx]
  · simp [hx]

theorem View.drop_some {gone : List String} {p : List String × List String}
    (h : v.drop gone d = some p) : ∃ p', v d = some p' ∧ p'.2 = p.2 := by
  unfold View.drop at h
  split at h
  · cases h
  · obtain ⟨p', hp', rfl⟩ := Option.map_eq_some_iff.mp h
    exact ⟨p', hp', rfl⟩

theorem View.detach_some {bridge : String} {members : List String} {p : List String × List String}
    (h : v.detach bridge members d = some p) : ∃ p', v d = some p' ∧ p'.2 = p.2 := by
  unfold View.detach View.change at h
  split at h
  · obtain ⟨p', hp', rfl⟩ := Option.map_eq_some_iff.mp h
    exact ⟨p', hp', rfl⟩
  · exact ⟨p, h, rfl⟩

/-- Without a recorded address no address is taken back. -/
theorem undone_some {p : List String × List String} (haddress : n.appliedAddress = "")
    (h : undone n v d = some p) : ∃ p', v d = some p' ∧ p'.2 = p.2 := by
  have hbridge : undoneBridge n v d = some p → ∃ p', v d = some p' ∧ p'.2 = p.2 := by
    intro h
    simp only [undoneBridge, haddress, ne_eq, not_true_eq_false, if_false] at h
    have hrest : ∃ p1, (v.detach n.device n.appliedMembers).drop (madeVLANs n) d = some p1 ∧
        p1.2 = p.2 := by
      split at h
      · exact View.drop_some h
      · exact ⟨p, h, rfl⟩
    obtain ⟨p1, h1, heq1⟩ := hrest
    obtain ⟨p2, h2, heq2⟩ := View.drop_some h1
    obtain ⟨p3, h3, heq3⟩ := View.detach_some h2
    exact ⟨p3, h3, heq3.trans (heq2.trans heq1)⟩
  cases hmode : n.mode with
  | vlan =>
    simp only [undone, hmode] at h
    split at h
    · exact View.drop_some h
    · exact ⟨p, h, rfl⟩
  | bridge =>
    simp only [undone, hmode] at h
    exact hbridge h
  | user | vmnetBridged | switch | bridged | other name =>
    simp only [undone, hmode] at h
    exact ⟨p, h, rfl⟩

end Undone

end Maco.Network
