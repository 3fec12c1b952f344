import Maco.Lib.Knowledge
import Maco.Network.Rules

/-! What is applied to the host is saved again and again on the way, always under the id and the name
that it was read with. -/

namespace Maco.Network

open Concurrent Prog

/-- The network has the id and the name. -/
def Called (id name : String) (n : NetworkManifest) : Prop := n.id = id ∧ n.name = name

/-- A command, or a save under the id and the name. -/
def NetCall.SavesAs (id name : String) : NetCall → Prop
  | .save n => Called id name n
  | c => c.Commands

section Steady

variable {id name : String} {n : NetworkManifest} {α : Type}

/-- The program saves under the id and the name alone. -/
abbrev Steady (id name : String) (p : NetM α) (Q : α → Prop) : Prop :=
  Yields (NetCall.SavesAs id name) p Q

theorem NetCall.Commands.savesAs (c : NetCall) (h : c.Commands) : c.SavesAs id name := by
  cases c <;> first | exact h.elim | exact h

theorem steady_calls {p : NetM α} (h : p.run.Calls (NetCall.SavesAs id name)) :
    Steady id name p fun _ => True := .of_calls h

theorem steady_refuse {e : Message} {Q : α → Prop} : Steady id name (refuse e) Q := trivial

theorem steady_saveOr {undo : Net Unit} (hn : Called id name n)
    (hundo : undo.Calls (NetCall.SavesAs id name)) :
    Steady id name (saveOr n undo) fun _ => True := by
  refine steady_calls (.andThen (calls_ask (.request hn)) fun r => ?_)
  cases r with
  | ok u => exact .pure _
  | error e => exact .andThen (calls_ask hundo) fun _ => .pure _

theorem steady_ensureDevice (hn : Called id name n) :
    Steady id name (ensureDevice n) (Called id name) := by
  refine .bind (steady_calls (calls_onlyWhen (calls_existing trivial) (calls_requireBridge trivial)))
    fun _ _ => ?_
  refine .bind (steady_calls (calls_ask (calls_existing trivial))) fun found _ => ?_
  refine .ite (fun _ => .pure hn) fun _ => .ite (fun _ => steady_refuse) fun _ => ?_
  refine .bind (steady_calls (.request trivial)) fun device _ => ?_
  exact .bind (steady_saveOr hn (calls_discard trivial)) fun _ _ => .pure hn

theorem steady_ensureVLANs {before rest : List VLAN} {desired : List String} (hn : Called id name n) :
    Steady id name (ensureVLANs before rest desired n) fun r => Called id name r.1 := by
  induction rest generalizing before desired n with
  | nil => exact .pure hn
  | cons vlan rest ih =>
    refine .bind (steady_calls (calls_requireInterface trivial)) fun _ _ => ?_
    refine .bind (steady_calls (calls_resolveVLAN NetCall.Commands.savesAs _ _ _ _ _)) fun r _ => ?_
    refine .bind (steady_saveOr hn ?_) fun _ _ => ?_
    · split
      · exact calls_discard trivial
      · exact .pure _
    exact .bind (steady_calls (.request trivial)) fun _ _ => ih hn

theorem steady_detachOld {desired members olds : List String} (hn : Called id name n) :
    Steady id name (detachOld desired members olds n) (Called id name) := by
  induction olds generalizing n with
  | nil => exact .pure hn
  | cons old olds ih =>
    refine .ite (fun _ => ih hn) fun _ => ?_
    exact .bind (steady_calls (calls_onlyIf (.request trivial))) fun _ _ => ih hn

theorem steady_attachMember {members : List String} {member : String} (hn : Called id name n) :
    Steady id name (attachMember members member n) (Called id name) := by
  refine .ite (fun _ => .pure hn) fun _ => ?_
  refine .bind (steady_calls (.request trivial)) fun _ _ => .ite (fun _ => .pure hn) fun _ => ?_
  exact .bind (steady_saveOr hn (calls_discard trivial)) fun _ _ => .pure hn

theorem steady_attachDesired {members desired : List String} (hn : Called id name n) :
    Steady id name (attachDesired members desired n) (Called id name) := by
  induction desired generalizing n with
  | nil => exact .pure hn
  | cons member desired ih =>
    refine .bind (steady_calls (calls_requireInterface trivial)) fun _ _ => ?_
    refine .bind (steady_attachMember hn) fun n hn => ?_
    exact .bind (steady_calls (.request trivial)) fun _ _ => ih hn

theorem steady_dropVLANs {desired : List String} {olds : List VLAN} (hn : Called id name n) :
    Steady id name (dropVLANs desired olds n) (Called id name) := by
  induction olds generalizing n with
  | nil => exact .pure hn
  | cons old olds ih =>
    refine .ite (fun _ => ih hn) fun _ => ?_
    refine .bind (steady_calls (calls_destroyVLAN NetCall.Commands.savesAs _ _)) fun _ _ => ?_
    exact .bind (steady_calls (.request hn)) fun _ _ => ih hn

theorem steady_dropAddress (hn : Called id name n) :
    Steady id name (dropAddress n) (Called id name) := by
  refine .ite (fun _ => ?_) fun _ => .pure hn
  exact .bind (steady_calls (calls_removeAddress trivial trivial)) fun _ _ => .pure hn

theorem steady_ensureAddress (hn : Called id name n) :
    Steady id name (ensureAddress n) (Called id name) := by
  refine .ite (fun _ => .pure hn) fun _ => ?_
  refine .bind (steady_calls (calls_ask (.request trivial))) fun found _ => ?_
  refine .ite (fun _ => .pure hn) fun _ => ?_
  exact .bind (steady_calls (.request trivial)) fun _ _ => .pure hn

theorem steady_applyBridge (hn : Called id name n) :
    Steady id name (applyBridge n) (Called id name) := by
  refine .bind (steady_calls (.forM fun _ _ => calls_requireInterface trivial)) fun _ _ => ?_
  refine .bind (steady_calls (.forM fun _ _ => calls_requireInterface trivial)) fun _ _ => ?_
  refine .bind (steady_ensureDevice hn) fun n hn => ?_
  refine .bind (steady_ensureVLANs hn) fun (n, desired) hn => ?_
  refine .bind (steady_calls (.request trivial)) fun members _ => ?_
  refine .bind (steady_detachOld hn) fun n hn => ?_
  refine .bind (steady_attachDesired hn) fun n hn => ?_
  refine .bind (steady_dropVLANs hn) fun n hn => ?_
  refine .bind (steady_dropAddress hn) fun n hn => ?_
  refine .bind (steady_ensureAddress hn) fun n hn => ?_
  refine .bind (steady_calls (.request trivial)) fun _ _ => ?_
  exact .bind (steady_calls (.request hn)) fun _ _ => .pure hn

theorem steady_applyVLAN (hn : Called id name n) :
    Steady id name (applyVLAN n) (Called id name) := by
  refine .bind (steady_calls (calls_requireInterface trivial)) fun _ _ => ?_
  refine .bind (steady_calls (calls_resolveVLAN NetCall.Commands.savesAs _ _ _ _ _)) fun r _ => ?_
  refine .bind (steady_saveOr hn ?_) fun _ _ => ?_
  · split
    · exact calls_discard trivial
    · exact .pure _
  refine .bind (steady_calls (.request trivial)) fun _ _ => ?_
  refine .bind (steady_calls (.request trivial)) fun _ _ => ?_
  exact .bind (steady_calls (.request hn)) fun _ _ => .pure hn

end Steady

end Maco.Network
