import Maco.Network.Reconcile

/-! Rules for the network programs that hold in every discipline: for the ways in which they are put
together, for the calls that they make, and for the programs that only look. -/

namespace Maco.Network

open Concurrent

/-- The call changes neither the host nor the store. -/
def NetCall.Looks : NetCall → Prop
  | .lock | .unlock | .load _ | .resolve _ | .list | .interfaceExists _ | .isBridge _
  | .bridgeMembers _ | .findVLAN _ _ | .hasAddress _ _ | .up _ | .listVMs | .running _
  | .pendingReferences _ => True
  | _ => False

/-- The call reads a store or asks about a machine. -/
def NetCall.Inspects : NetCall → Prop
  | .load _ | .resolve _ | .list | .listVMs | .running _ | .pendingReferences _ => True
  | _ => False

theorem NetCall.Inspects.looks (a : NetCall) (h : a.Inspects) : a.Looks := by
  cases a <;> first | exact h.elim | exact trivial

theorem NetState.perform_looks {f : Formats} {s t : NetState} {a : NetCall} {c : NetChoice}
    {r : a.Reply} (ha : a.Looks) (h : NetState.perform f a c s = some (r, t)) : t = s := by
  cases a with
  | lock =>
    obtain ⟨-, rfl⟩ | ⟨rfl, -⟩ := NetChoice.command_cases h
    · rfl
    · rfl
  | unlock =>
    cases h
    rfl
  | load id | resolve ref | list | findVLAN parent tag => exact (NetChoice.query_cases h).1
  | interfaceExists d | isBridge d | hasAddress d a => exact NetChoice.test_same h
  | bridgeMembers d =>
    rw [NetState.perform] at h
    split at h
    · exact (NetChoice.query_cases h).1
    · exact (NetChoice.query_cases h).1
  | up d =>
    obtain ⟨-, -, rfl⟩ | ⟨rfl, -⟩ := NetChoice.attempt_cases h
    · rfl
    · rfl
  | listVMs | running id | pendingReferences id =>
    cases c with
    | vms l | fail e | running b | references l =>
      cases h <;> rfl
    | ok | failTook e | name d | fileExists => cases h
  | newString | save n | delete id | createBridge n | createVLAN n | destroy n d | addMember b m
  | removeMember b m | configureVLAN d p t | setAddress d c | removeAlias d a => cases ha

/-! ### Which calls a program makes -/

/-- The call is a command on an interface of the host. -/
def NetCall.Commands : NetCall → Prop
  | .lock | .unlock | .newString | .save _ | .load _ | .resolve _ | .list | .delete _ | .listVMs
  | .running _ | .pendingReferences _ => False
  | _ => True

section Calls

variable {P : NetCall → Prop} {α : Type}

theorem calls_ask {p : Net α} (h : p.Calls P) : (ask p).run.Calls P := .bind h fun _ => .pure _

theorem calls_discard {c : NetCall} (h : P c) : (discard c).Calls P :=
  .bind (.request h) fun _ => .pure _

theorem calls_onlyIf {c : Prop} [Decidable c] {p : NetM Unit} (h : p.run.Calls P) :
    (onlyIf c p).run.Calls P := by
  unfold onlyIf
  split
  · exact h
  · exact .pure _

theorem calls_onlyWhen {c : Net Bool} {p : NetM Unit} (hc : c.Calls P) (h : p.run.Calls P) :
    (onlyWhen c p).run.Calls P :=
  .andThen (calls_ask hc) fun _ => calls_onlyIf h

theorem calls_existing {device : String} (h : P (.interfaceExists device)) :
    (existing device).Calls P := by
  unfold existing
  split
  · exact .pure _
  · exact .request h

theorem calls_requireInterface {what name : String} (h : P (.interfaceExists name)) :
    (requireInterface what name).run.Calls P := by
  refine .andThen (calls_ask (.request h)) fun found => ?_
  split
  · exact .pure _
  · exact .pure _

theorem calls_requireBridge {device : String} (h : P (.isBridge device)) :
    (requireBridge device).run.Calls P := by
  refine .andThen (calls_ask (.request h)) fun bridge => ?_
  split
  · exact .pure _
  · exact .pure _

theorem calls_removeAddress {device address : String} (hhas : P (.hasAddress device address))
    (hremove : P (.removeAlias device address)) : (removeAddress device address).Calls P := by
  refine .bind (.request hhas) fun found => ?_
  split
  · exact .pure _
  · exact .request hremove

variable (hP : ∀ c, NetCall.Commands c → P c)
include hP

theorem calls_borrowMatching {device parent : String} {tag : Int} {orElse : NetM (String × Bool)}
    (h : orElse.run.Calls P) : (borrowMatching device parent tag orElse).run.Calls P := by
  refine .andThen (.request (hP (.findVLAN parent tag) trivial)) fun matching => ?_
  split
  · exact .pure _
  · exact h

theorem calls_createConfigured (network parent : String) (tag : Int) :
    (createConfigured network parent tag).run.Calls P := by
  refine .andThen (.request (hP (.createVLAN network) trivial)) fun device => ?_
  refine .andThen (calls_ask (.request (hP (.configureVLAN device parent tag) trivial))) fun r => ?_
  cases r with
  | ok _ => exact .pure _
  | error e =>
    refine .andThen (calls_ask (calls_discard (hP _ trivial))) fun _ => ?_
    exact calls_borrowMatching hP (.pure _)

theorem calls_resolveVLAN (network device : String) (owned : Bool) (parent : String) (tag : Int) :
    (resolveVLAN network device owned parent tag).run.Calls P := by
  refine .andThen (calls_ask (calls_existing (hP _ trivial))) fun found => ?_
  split
  · refine .andThen (calls_ask (.request (hP (.configureVLAN device parent tag) trivial))) fun r => ?_
    cases r with
    | ok _ => exact .pure _
    | error e => exact calls_borrowMatching hP (.pure _)
  · exact calls_borrowMatching hP (calls_createConfigured hP network parent tag)

theorem calls_destroyVLAN (network : String) (v : VLAN) : (destroyVLAN network v).run.Calls P :=
  calls_onlyIf (calls_onlyWhen (.request (hP (.interfaceExists v.device) trivial))
    (.request (hP (.destroy network v.device) trivial)))

theorem calls_detachApplied (n : NetworkManifest) : (detachApplied n).run.Calls P := by
  refine .andThen (calls_requireBridge (hP _ trivial)) fun _ => ?_
  refine .andThen (.request (hP (.bridgeMembers n.device) trivial)) fun members => ?_
  split
  · exact .pure _
  · exact .forM fun member _ => .request (hP (.removeMember n.device member) trivial)

theorem calls_destroyBridge (n : NetworkManifest) : (destroyBridge n).run.Calls P := by
  have hexists : (netCall (.interfaceExists n.device)).Calls P := .request (hP _ trivial)
  refine .andThen (calls_onlyWhen hexists (calls_detachApplied hP n)) fun _ => ?_
  refine .andThen (.forM fun v _ => calls_onlyIf (calls_destroyVLAN hP n.id v)) fun _ => ?_
  refine .andThen (calls_onlyIf (calls_onlyWhen hexists
    (calls_removeAddress (hP _ trivial) (hP _ trivial)))) fun _ => ?_
  exact calls_onlyIf (calls_onlyWhen hexists (.request (hP (.destroy n.id n.device) trivial)))

theorem calls_destroy (n : NetworkManifest) : (destroy n).run.Calls P := by
  unfold destroy
  split
  · exact calls_onlyIf (calls_onlyWhen (calls_existing (hP _ trivial))
      (.request (hP (.destroy n.id n.device) trivial)))
  · exact calls_destroyBridge hP n
  · exact .pure _

end Calls

/-! ### Programs that only look -/

/-- Every call of the program is one that looks. -/
abbrev OnlyLooks {α : Type} (p : Net α) : Prop := p.Calls NetCall.Looks

theorem looks_call {a : NetCall} (ha : a.Looks) : OnlyLooks (netCall a) := .request ha

theorem looks_attempt {α : Type} {p : Net (Except Message α)} (h : OnlyLooks p) :
    OnlyLooks (attempt p).run := h

theorem looks_ask {α : Type} {p : Net α} (h : OnlyLooks p) : OnlyLooks (ask p).run := calls_ask h

theorem looks_refuse {α : Type} (e : Message) : OnlyLooks (refuse e : NetM α).run := .pure _

theorem looks_onlyIf {c : Prop} [Decidable c] {p : NetM Unit} (h : OnlyLooks p.run) :
    OnlyLooks (onlyIf c p).run := calls_onlyIf h

theorem looks_onlyWhen {c : Net Bool} {p : NetM Unit} (hc : OnlyLooks c) (h : OnlyLooks p.run) :
    OnlyLooks (onlyWhen c p).run := calls_onlyWhen hc h

theorem looks_existing (device : String) : OnlyLooks (existing device) :=
  calls_existing trivial

theorem looks_requireInterface (what name : String) : OnlyLooks (requireInterface what name).run :=
  calls_requireInterface trivial

theorem looks_requireBridge (device : String) : OnlyLooks (requireBridge device).run :=
  calls_requireBridge trivial

/-! ### Rules for every discipline -/

section Discipline

variable {D : Discipline NetCall NetCall.Reply NetChoice NetState} {s : NetState} {α : Type}

theorem tries_attempt {p : Net (Except Message α)} {Q : α → NetState → Prop}
    (h : D.Keeps p (fun r t => ∀ x, r = .ok x → Q x t) s) : D.Tries (attempt p) Q s := h

theorem tries_plain {p : Net (Except Message α)} (h : D.Keeps p (fun _ _ => True) s) :
    D.Tries (attempt p) (fun _ _ => True) s :=
  tries_attempt (h.mono fun _ _ _ _ _ _ => trivial)

theorem tries_ask {p : Net α} {Q : α → NetState → Prop} (h : D.Keeps p Q s) :
    D.Tries (ask p) Q s :=
  .lift h

theorem tries_refuse {e : Message} {Q : α → NetState → Prop} : D.Tries (refuse e) Q s :=
  Discipline.Keeps.pure nofun

theorem tries_onlyIf {c : Prop} [Decidable c] {p : NetM Unit}
    (h : c → D.Tries p (fun _ _ => True) s) : D.Tries (onlyIf c p) (fun _ _ => True) s := by
  unfold onlyIf
  split
  · rename_i hc
    exact h hc
  · exact .pure trivial

theorem tries_onlyWhen {c : Net Bool} {p : NetM Unit} (hc : D.Keeps c (fun _ _ => True) s)
    (h : ∀ t, D.le s t → D.Tries p (fun _ _ => True) t) :
    D.Tries (onlyWhen c p) (fun _ _ => True) s :=
  .bind (tries_ask hc) fun _ t hst _ => tries_onlyIf fun _ => h t hst

/-- A program that can fail keeps to a discipline when each of its calls does. -/
theorem tries_calls {P : NetCall → Prop} {p : NetM α} (hD : D.Tolerates P) (h : p.run.Calls P) :
    D.Tries p (fun _ _ => True) s :=
  (hD.keeps h).mono fun _ _ _ _ _ _ => trivial

theorem tries_underLock (hD : D.Tolerates NetCall.Looks) {body : NetM α}
    {Q : α → NetState → Prop} (h : ∀ t, D.le s t → D.Tries body Q t)
    (hQ : ∀ x t u, D.le t u → Q x t → Q x u) : D.Tries (underLock body) Q s := by
  refine .bind (tries_plain (hD .lock trivial s)) fun _ t hst _ => ?_
  refine .bind (tries_ask (h t hst)) fun result u _ hresult => ?_
  refine .bind (tries_ask (hD .unlock trivial u)) fun _ v huv _ => ?_
  exact Discipline.Keeps.pure fun x hx => hQ x u v huv (hresult x hx)

end Discipline

/-! ### Applied VLANs -/

/-- A VLAN keeps its device or takes that of an applied one. -/
theorem lastApplied_cases (applied : List VLAN) (vlan : VLAN) :
    ((lastApplied applied vlan).device = vlan.device ∧
        (lastApplied applied vlan).borrowed = vlan.borrowed) ∨
      ∃ a ∈ applied, (lastApplied applied vlan).device = a.device ∧
        (lastApplied applied vlan).borrowed = a.borrowed := by
  unfold lastApplied
  induction applied generalizing vlan with
  | nil => exact .inl ⟨rfl, rfl⟩
  | cons a applied ih =>
    rw [List.foldl_cons]
    split
    · rcases ih { vlan with device := a.device, borrowed := a.borrowed } with h | ⟨b, hb, h⟩
      · exact .inr ⟨a, List.mem_cons_self, h⟩
      · exact .inr ⟨b, List.mem_cons_of_mem a hb, h⟩
    · rcases ih vlan with h | ⟨b, hb, h⟩
      · exact .inl h
      · exact .inr ⟨b, List.mem_cons_of_mem a hb, h⟩

/-- A VLAN keeps its parent and its tag. -/
theorem lastApplied_key (applied : List VLAN) (vlan : VLAN) :
    (lastApplied applied vlan).parent = vlan.parent ∧ (lastApplied applied vlan).tag = vlan.tag := by
  unfold lastApplied
  induction applied generalizing vlan with
  | nil => exact ⟨rfl, rfl⟩
  | cons a applied ih =>
    rw [List.foldl_cons]
    split
    · exact ih { vlan with device := a.device, borrowed := a.borrowed }
    · exact ih vlan

end Maco.Network
