import Maco.Engine.World

/-! Rules for the engine's programs that hold whatever the processes know: for the ways in which the
programs are put together and for the calls that many of them share. -/

namespace Maco.Engine

open Concurrent Prog

variable {G α β : Type} {K : Learning EngineCall EngineCall.Reply G} {E : G → Prop} {g : G}

/-! ### What is known along a program -/

theorem leads_query {p : EngineProg α} {Q : α → G → Prop} (h : p.Tracks K Q g) :
    Leads K (query p) E Q g := .lift h

theorem leads_fail {e : Message} {Q : α → G → Prop} (h : E g) : Leads K (fail e) E Q g :=
  .fail h

theorem leads_ensureThat {c : Bool} {e : Message} {Q : Unit → G → Prop} (hE : c = false → E g)
    (hQ : c = true → Q () g) : Leads K (ensureThat c e) E Q g := by
  unfold ensureThat
  split
  · rename_i hc
    exact .pure (hQ hc)
  · rename_i hc
    exact leads_fail (hE (by simpa using hc))

theorem leads_onlyThen {c : Bool} {p : EngineM Unit} {Q : Unit → G → Prop}
    (hp : c = true → Leads K p E Q g) (hQ : c = false → Q () g) :
    Leads K (onlyThen c p) E Q g := by
  unfold onlyThen
  split
  · rename_i hc
    exact hp hc
  · rename_i hc
    exact .pure (hQ (by simpa using hc))

theorem leads_onlyFor {v : Option β} {f : β → EngineM Unit} {Q : Unit → G → Prop}
    (hf : ∀ x, v = some x → Leads K (f x) E Q g) (hQ : v = none → Q () g) :
    Leads K (onlyFor v f) E Q g := by
  cases v with
  | none => exact .pure (hQ rfl)
  | some x => exact hf x rfl

theorem leads_perform {s : Step} {Q : Unit → G → Prop} (ha : K.asks g (.step s))
    (hE : ∀ e g', K.learns g (.step s) (.error e) = some g' → E g')
    (hQ : ∀ g', K.learns g (.step s) (.ok ()) = some g' → Q () g') :
    Leads K (perform s) E Q g := by
  refine ⟨ha, fun r g' hg' => ?_⟩
  cases r with
  | error e => exact hE e g' hg'
  | ok u => exact hQ g' hg'

theorem leads_ignore {s : Step} {Q : Unit → G → Prop} (ha : K.asks g (.step s))
    (hQ : ∀ r g', K.learns g (.step s) r = some g' → Q () g') : Leads K (ignore s) E Q g :=
  .bind (P := fun _ => Q ()) (leads_query ⟨ha, fun r g' hg' => hQ r g' hg'⟩) fun _ _ h => .pure h

theorem leads_save {m : VMManifest} {Q : Unit → G → Prop} (ha : K.asks g (.vms (.save m)))
    (hE : ∀ e g', K.learns g (.vms (.save m)) (.error e) = some g' → E g')
    (hQ : ∀ g', K.learns g (.vms (.save m)) (.ok ()) = some g' → Q () g') :
    Leads K (save m) E Q g := by
  refine ⟨ha, fun r g' hg' => ?_⟩
  cases r with
  | error e => exact hE e g' hg'
  | ok u => exact hQ g' hg'

/-- A save whose outcome is looked at. -/
theorem tracks_save {m : VMManifest} {Q : G → Prop} (ha : K.asks g (.vms (.save m)))
    (hQ : ∀ r g', K.learns g (.vms (.save m)) r = some g' → Q g') :
    (save m).run.Tracks K (fun _ g' => Q g') g := by
  refine ⟨ha, fun r g' hg' => ?_⟩
  cases r with
  | error e => exact hQ _ g' hg'
  | ok u => exact hQ _ g' hg'

theorem leads_resolveVM {ref : String} {Q : VMManifest → G → Prop}
    (ha : K.asks g (.vms (.resolve ref)))
    (hE : ∀ e g', K.learns g (.vms (.resolve ref)) (.error e) = some g' → E g')
    (hQ : ∀ m g', K.learns g (.vms (.resolve ref)) (.ok m) = some g' → Q m g') :
    Leads K (resolveVM ref) E Q g := by
  refine ⟨ha, fun r g' hg' => ?_⟩
  cases r with
  | error e => exact hE e g' hg'
  | ok m => exact hQ m g' hg'

theorem leads_loadVM {id : String} {Q : VMManifest → G → Prop} (ha : K.asks g (.vms (.load id)))
    (hE : ∀ e g', K.learns g (.vms (.load id)) (.error e) = some g' → E g')
    (hQ : ∀ m g', K.learns g (.vms (.load id)) (.ok m) = some g' → Q m g') :
    Leads K (loadVM id) E Q g := by
  refine ⟨ha, fun r g' hg' => ?_⟩
  cases r with
  | error e => exact hE e g' hg'
  | ok m => exact hQ m g' hg'

theorem leads_isRunning {e : Paths} {id : String} {Q : Bool → G → Prop}
    (ha : K.asks g (.qemu (e.runDir id) .status))
    (hQ : ∀ r g', K.learns g (.qemu (e.runDir id) .status) r = some g' →
      Q (Option.isSome r) g') : Leads K (isRunning e id) E Q g :=
  ⟨ha, fun r g' hg' => hQ r g' hg'⟩

/-- What is done under a lock, between the call that takes it and the one that frees it. -/
theorem leads_locked {l : LockName} {body : EngineM α} {F : G → Prop} {Q B : α → G → Prop}
    (ha : K.asks g (.lock l))
    (hE : ∀ e g', K.learns g (.lock l) (.error e) = some g' → E g')
    (hbody : ∀ g', K.learns g (.lock l) (.ok ()) = some g' → Leads K body F B g')
    (hfailed : ∀ h, F h → K.asks h (.unlock l) ∧
      ∀ h', K.learns h (.unlock l) () = some h' → E h')
    (hdone : ∀ x h, B x h → K.asks h (.unlock l) ∧
      ∀ h', K.learns h (.unlock l) () = some h' → Q x h') :
    Leads K (locked l body) E Q g := by
  refine .bind (P := fun _ g' => K.learns g (.lock l) (.ok ()) = some g') ⟨ha, ?_⟩ ?_
  · rintro (e | u) g' hg'
    · exact hE e g' hg'
    · exact hg'
  intro _ g' hg'
  refine .bind (leads_query (hbody g' hg').outcome) fun result h hresult => ?_
  obtain ⟨x, rfl, hx⟩ | ⟨⟨e, rfl⟩, he⟩ := hresult
  · obtain ⟨hask, hlearn⟩ := hdone x h hx
    exact .bind (P := fun _ => Q x) (leads_query ⟨hask, fun _ => hlearn⟩) fun _ _ hQ => .pure hQ
  · obtain ⟨hask, hlearn⟩ := hfailed h he
    exact .bind (P := fun _ => E) (leads_query ⟨hask, fun _ => hlearn⟩) fun _ _ hE => .fail hE

/-! ### Which calls a program makes -/

variable {P : EngineCall → Prop}

theorem calls_query {p : EngineProg α} (h : p.Calls P) : (query p).run.Calls P :=
  .bind h fun _ => .pure _

theorem calls_demand {p : EngineProg (Except Message α)} (h : p.Calls P) :
    (demand p).run.Calls P := h

theorem calls_fail {e : Message} : (fail e : EngineM α).run.Calls P := .pure _

theorem calls_ensureThat {c : Bool} {e : Message} : (ensureThat c e).run.Calls P := by
  unfold ensureThat
  split
  · exact .pure _
  · exact calls_fail

theorem calls_locked {l : LockName} {body : EngineM α} (hl : P (.lock l)) (hu : P (.unlock l))
    (h : body.run.Calls P) : (locked l body).run.Calls P :=
  .andThen (calls_demand (.request hl)) fun _ =>
    .andThen (calls_query h) fun _ => .andThen (calls_query (.request hu)) fun _ => .pure _

theorem calls_openDB {e : Paths} (hm : P (.lock (.sharedMu e.proc)) ∧ P (.unlock (.sharedMu e.proc)))
    (hi : P (.lock .initDB) ∧ P (.unlock .initDB)) (hopen : P (.databaseOpen e.proc))
    (hstep : P (.step .openDB)) : (openDB e).run.Calls P := by
  refine calls_locked hm.1 hm.2 (.andThen (calls_query (.request hopen)) fun already => ?_)
  split
  · exact .pure _
  · exact calls_locked hi.1 hi.2 (calls_demand (.request hstep))

end Maco.Engine
