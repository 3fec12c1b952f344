import Maco.Engine.Grip
import Maco.Network.Steady

/-! Names tell machines apart, and networks.  Networks are saved by many steps, of which all but the
first keep the name; the theorem says for runs in which new names are free that every name is that of
one machine, or of one network. -/

namespace Maco.Engine

open Concurrent Network Prog

inductive NameOp where
  | createVM (params : CreateVMParams)
  | restore (ref timestamp : String) (asNew : Bool)
  | deleteVM (ref : String)
  | createNetwork (mcastGroup : String → String) (params : CreateNetworkParams)
  | destroyNetwork (ref : String)

/-- The operation, in an operating-system process. -/
def nameProgram (x : Texts) (e : Paths) : NameOp → EngineM Unit
  | .createVM params => do
    let _ ← createVM x params
  | .restore ref timestamp asNew => do
    let _ ← restoreMachine x e ref timestamp asNew
  | .deleteVM ref => deleteVM e ref
  | .createNetwork mcastGroup params => do
    let _ ← network e (Engine.createNetwork mcastGroup params)
  | .destroyNetwork ref => network e (Engine.destroyNetwork ref)

/-- Any number of processes make and remove machines and networks. -/
def nameSystem (x : Texts) (runDir : String → String) :
    System EngineCall EngineCall.Reply EngineChoice World (Nat × NameOp) Empty
      (Except Message Unit) where
  perform := World.perform x
  code op := (nameProgram x ⟨runDir, op.1⟩ op.2).run
  die i s := s.die i
  env e _ := nomatch e

/-- Every name is that of one machine and the id of no other; so for networks. -/
structure World.Named (s : World) : Prop where
  vms : s.vms.Labelled VMManifest.name
  nets : s.nets.Labelled NetworkManifest.name

/-- A machine that is saved, and a network that is saved for the first time, has a name that is
neither the name nor the id of another, and an id that is the name of no other. -/
def Distinctive (_ : Nat) (a : EngineCall) (c : EngineChoice) (s : World) : Prop :=
  (∀ m, a = .vms (.save m) → c.saves m = true → s.vms.Free VMManifest.name m.id m) ∧
  ∀ n, a = .nets (.save n) → c.savesNet n = true → s.nets.get n.id = none →
    s.nets.Free NetworkManifest.name n.id n

/-- What is stored has an id that is known. -/
structure World.Known (s : World) : Prop where
  vms : ∀ id, s.vms.get id ≠ none → s.ids id = .known
  nets : ∀ id, s.nets.get id ≠ none → s.ids id = .known

/-! ### What a process knows -/

/-- The machine that a reference was resolved to, an id that nobody else has, whether the lock of the
networks is held and, under it, the id and the name of the network that was read. -/
structure NameGrip where
  id : Option String := none
  fresh : Option String := none
  held : Bool := false
  network : Option (String × String) := none

namespace NameGrip

variable (g : NameGrip)

def idAfter : (a : EngineCall) → a.Reply → Option String
  | .vms (.resolve _), .ok m => some m.id
  | _, _ => g.id

def freshAfter : (a : EngineCall) → a.Reply → Option String
  | .newString, r => some r
  | .vms (.save _), _ | .nets (.save _), _ => none
  | _, _ => g.fresh

def heldAfter : (a : EngineCall) → a.Reply → Bool
  | .lock .nets, .ok _ => true
  | .unlock .nets, _ => false
  | _, _ => g.held

def networkAfter : (a : EngineCall) → a.Reply → Option (String × String)
  | .lock .nets, .ok _ | .unlock .nets, _ => none
  | .nets (.load _), .ok n => if g.held then some (n.id, n.name) else g.network
  | _, _ => g.network

/-- What is known after a call. -/
def after (a : EngineCall) (r : a.Reply) : NameGrip where
  id := g.idAfter a r
  fresh := g.freshAfter a r
  held := g.heldAfter a r
  network := g.networkAfter a r

/-- Machines are saved under the id of one that was found or under a new id, networks under a new id
or, under the lock, as they were read. -/
def asks : EngineCall → Prop
  | .vms (.save m) => g.id = some m.id ∨ g.fresh = some m.id
  | .nets (.save n) => g.fresh = some n.id ∨ g.network = some (n.id, n.name)
  | _ => True

/-- What is known holds of the state. -/
structure Holds (i : Nat) (s : World) : Prop where
  known : ∀ id, g.id = some id → s.ids id = .known
  fresh : ∀ id, g.fresh = some id → s.ids id = .given i
  held : g.held = true → s.locks .nets = some i
  network : ∀ id name, g.network = some (id, name) → g.held = true ∧ s.ids id = .known ∧
    ∀ n, s.nets.get id = some n → n.name = name

end NameGrip

section Steps

variable {s : World} {i j : Nat} {c : EngineChoice} {a : EngineCall} {x : Texts} {g h : NameGrip}

theorem World.Known.after (hs : s.Known) (ha : s.accepts i c x a = true) :
    (s.after i c a).Known := by
  refine ⟨fun id hid => ?_, fun id hid => ?_⟩
  · obtain hsame | ⟨m, rfl, rfl, hsaves, -⟩ | ⟨-, -, hgone⟩ := s.vms_after i c a id
    · exact World.ids_known_after (hs.vms id (hsame ▸ hid)) ha
    · simp [World.after, World.idsAfter, hsaves]
    · exact absurd hgone hid
  · obtain hsame | ⟨n, rfl, rfl, hsaves, -⟩ | hgone := s.nets_after i c a id
    · exact World.ids_known_after (hs.nets id (hsame ▸ hid)) ha
    · simp [World.after, World.idsAfter, hsaves]
    · exact absurd hgone hid

/-- A network that is saved keeps its name, or is new. -/
theorem NameGrip.Holds.named {n m : NetworkManifest} (hg : g.Holds i s) (hs : s.Known)
    (hask : g.asks (.nets (.save n))) (hm : s.nets.get n.id = some m) : m.name = n.name := by
  rcases hask with hfresh | hnetwork
  · have hgiven := hg.fresh _ hfresh
    rw [hs.nets n.id (by simp [hm])] at hgiven
    cases hgiven
  · exact (hg.network _ _ hnetwork).2.2 m hm

theorem World.Named.after (hn : s.Named) (hg : g.Holds i s) (hs : s.Known) (hask : g.asks a)
    (hd : Distinctive i a c s) : (s.after i c a).Named := by
  refine ⟨?_, ?_⟩
  · simp only [World.after]
    unfold World.vmsAfter
    split
    · rename_i m
      split
      · rename_i hsaves
        exact hn.vms.put (hd.1 m rfl hsaves)
      · exact hn.vms
    · split
      · exact hn.vms.without _
      · exact hn.vms
    · exact hn.vms
  · simp only [World.after]
    unfold World.netsAfter
    split
    · rename_i n
      split
      · rename_i hsaves
        cases hstored : s.nets.get n.id with
        | none => exact hn.nets.put (hd.2 n rfl hsaves hstored)
        | some m => exact hn.nets.put (hn.nets.free hstored (hg.named hs hask hstored))
      · exact hn.nets
    · split
      · exact hn.nets.without _
      · exact hn.nets
    · exact hn.nets

theorem NameGrip.Holds.others (hk : h.Holds j s) (hj : j ≠ i) (hg : g.Holds i s)
    (hask : g.asks a) (ha : s.accepts i c x a = true) : h.Holds j (s.after i c a) where
  known id hid := World.ids_known_after (hk.known id hid) ha
  fresh id hid := by
    have hgiven := hk.fresh id hid
    rcases World.ids_given_after (i := i) (c := c) (a := a) hgiven ha with
      hkept | ⟨m, rfl, rfl⟩ | ⟨n, rfl, rfl⟩
    · exact hkept
    · exfalso
      rcases hask with hknown | hfresh
      · rw [hg.known _ hknown] at hgiven
        cases hgiven
      · rw [hg.fresh _ hfresh] at hgiven
        cases hgiven
        exact hj rfl
    · exfalso
      rcases hask with hfresh | hnetwork
      · rw [hg.fresh _ hfresh] at hgiven
        cases hgiven
        exact hj rfl
      · rw [(hg.network _ _ hnetwork).2.1] at hgiven
        cases hgiven
  held hheld := World.locks_after (hk.held hheld) hj ha
  network id name hnetwork := by
    obtain ⟨hheld, hknown, hname⟩ := hk.network id name hnetwork
    refine ⟨hheld, World.ids_known_after hknown ha, fun n hn => ?_⟩
    obtain hsame | ⟨n', rfl, rfl, -, -⟩ | hgone := s.nets_after i c a id
    · exact hname n (hsame ▸ hn)
    · exfalso
      rcases hask with hfresh | hnetwork
      · rw [hg.fresh _ hfresh] at hknown
        cases hknown
      · have hlock := hg.held (hg.network _ _ hnetwork).1
        rw [hk.held hheld] at hlock
        exact hj (Option.some.inj hlock)
    · rw [hgone] at hn
      cases hn

theorem NameGrip.Holds.own (hg : g.Holds i s) (hs : s.Known) (hask : g.asks a)
    (ha : s.accepts i c x a = true) : (g.after a (c.answer a)).Holds i (s.after i c a) where
  known id hid := by
    change g.idAfter a (c.answer a) = some id at hid
    generalize hr : c.answer a = r at hid
    unfold NameGrip.idAfter at hid
    split at hid
    · rename_i ref m
      cases hid
      obtain ⟨hget, -⟩ := of_decide_eq_true (granted_ok (x := m) ha hr)
      exact hs.vms m.id (by simp [hget])
    · exact World.ids_known_after (hg.known id hid) ha
  fresh id hid := by
    change g.freshAfter a (c.answer a) = some id at hid
    generalize hr : c.answer a = r at hid
    unfold NameGrip.freshAfter at hid
    split at hid
    · cases hid
      simp [World.after, World.idsAfter, hr]
    · cases hid
    · cases hid
    · rename_i hsave hsaveNet
      rcases World.ids_given_after (i := i) (c := c) (hg.fresh id hid) ha with
        hkept | ⟨m, rfl, -⟩ | ⟨n, rfl, -⟩
      · exact hkept
      · exact (hsave m r rfl HEq.rfl).elim
      · exact (hsaveNet n r rfl HEq.rfl).elim
  held hheld := by
    change g.heldAfter a (c.answer a) = true at hheld
    generalize hr : c.answer a = r at hheld
    unfold NameGrip.heldAfter at hheld
    split at hheld
    · simp [World.after, World.locksAfter, hr, Except.isOk, Except.toBool]
    · cases hheld
    · rename_i hunlock
      refine World.locks_own (hg.held hheld) ?_
      rintro rfl
      exact hunlock () rfl HEq.rfl
  network id name hnetwork := by
    change g.networkAfter a (c.answer a) = some (id, name) at hnetwork
    change g.heldAfter a (c.answer a) = true ∧ _
    generalize hr : c.answer a = r at hnetwork ⊢
    unfold NameGrip.networkAfter at hnetwork
    split at hnetwork
    · cases hnetwork
    · cases hnetwork
    · rename_i id' n
      split at hnetwork
      · rename_i hheld
        cases hnetwork
        obtain ⟨hget, rfl⟩ := of_decide_eq_true (granted_ok (x := n) ha hr)
        refine ⟨hheld, hs.nets n.id (by simp [hget]), fun m hm => ?_⟩
        change s.nets.get n.id = some m at hm
        rw [hget] at hm
        cases hm
        rfl
      · rename_i hheld
        exact absurd (hg.network id name hnetwork).1 hheld
    · rename_i hlock hunlock hload
      obtain ⟨hheld, hknown, hname⟩ := hg.network id name hnetwork
      refine ⟨?_, World.ids_known_after hknown ha, fun n hn => ?_⟩
      · unfold NameGrip.heldAfter
        split
        · rfl
        · exact (hunlock _ rfl HEq.rfl).elim
        · exact hheld
      · obtain hsame | ⟨n', rfl, rfl, -, hsaved⟩ | hgone := s.nets_after i c a id
        · exact hname n (hsame ▸ hn)
        · rw [hsaved] at hn
          cases hn
          rcases hask with hfresh | hnetwork'
          · rw [hg.fresh _ hfresh] at hknown
            cases hknown
          · rw [hnetwork] at hnetwork'
            cases hnetwork'
            rfl
        · rw [hgone] at hn
          cases hn

end Steps

/-! ### The operations -/

/-- What calls teach a process of names. -/
def nameLearning : Learning EngineCall EngineCall.Reply NameGrip where
  asks g a := g.asks a
  learns g a r := some (g.after a r)

/-- What the calls of a network program teach. -/
def netLearning (e : Paths) : Learning NetCall NetCall.Reply NameGrip where
  asks g c := g.asks (ofNet e c)
  learns g c r :=
    match c, r with
    | .newString, r => some (g.after .newString r)
    | .lock, r => some (g.after (.lock .nets) r)
    | .unlock, r => some (g.after (.unlock .nets) r)
    | .load id, r => some (g.after (.nets (.load id)) r)
    | .save n, r => some (g.after (.nets (.save n)) r)
    | _, _ => some g

section Operations

variable {x : Texts} {e : Paths} {g : NameGrip} {a : EngineCall} {α β : Type}

/-- Calls that save nothing. -/
def unsaved : EngineCall → Prop
  | .vms (.save _) | .nets (.save _) => False
  | _ => True

theorem asks_unsaved (ha : unsaved a) : g.asks a := by
  cases a with
  | vms sc => cases sc <;> first | exact trivial | exact ha.elim
  | nets nc => cases nc <;> first | exact trivial | exact ha.elim
  | _ => exact trivial

/-- The program makes only calls that it may make, whatever it knows at the end. -/
abbrev Admitted (p : EngineM α) (g : NameGrip) : Prop :=
  Leads nameLearning p (fun _ => True) (fun _ _ => True) g

theorem admitted_unsaved {p : EngineM α} (h : p.run.Calls unsaved) : Admitted p g :=
  .of_admitted h fun _ _ => asks_unsaved

/-- Nothing is learnt from neutral calls. -/
theorem leads_unmoved {p : EngineM α} (h : p.run.Calls Grip.neutral) :
    Leads nameLearning p (fun _ => True) (fun _ g' => g' = g) g := by
  refine .of_calls h (fun a ha => ⟨asks_unsaved ?_, fun r g' hg' => ?_⟩) trivial fun _ => rfl
  · cases a with
    | vms sc => cases sc <;> first | exact trivial | exact ha.elim
    | nets nc => cases nc <;> first | exact trivial | exact ha.elim
    | _ => exact trivial
  · cases hg'
    cases a with
    | vms sc => cases sc <;> first | rfl | exact ha.elim
    | nets nc => cases nc <;> first | rfl | exact ha.elim
    | lock l => exact ha.elim
    | unlock l => exact ha.elim
    | _ => first | rfl | exact ha.elim

theorem tracks_lesson {Q : a.Reply → NameGrip → Prop} (ha : g.asks a)
    (hQ : ∀ r, Q r (g.after a r)) : (engineCall a).Tracks nameLearning Q g := by
  refine ⟨ha, fun r g' hg' => ?_⟩
  cases hg'
  exact hQ r

theorem admitted_locked {l : LockName} {body : EngineM α}
    (h : ∀ g, Admitted body g) : Admitted (locked l body) g :=
  leads_locked (F := fun _ => True) (B := fun _ _ => True) trivial (fun _ _ _ => trivial)
    (fun g' _ => h g') (fun _ _ => ⟨trivial, fun _ _ => trivial⟩)
    fun _ _ _ => ⟨trivial, fun _ _ => trivial⟩

/-! #### Machines -/

theorem unsaved_of_neutral (ha : Grip.neutral a) : unsaved a := by
  cases a with
  | vms sc => cases sc <;> first | exact trivial | exact ha.elim
  | nets nc => cases nc <;> first | exact trivial | exact ha.elim
  | _ => exact trivial

theorem admitted_fail {e : Message} : Admitted (fail e : EngineM α) g := leads_fail trivial

theorem unsaved_getMedia {id : String} : (getMedia x id).run.Calls unsaved := by
  unfold getMedia
  cases x.uuid id with
  | error e => exact calls_fail
  | ok u => exact calls_demand (.request trivial)

theorem unsaved_validateMedia {isos order : List String} {disks : List VMDisk} :
    (validateMedia x isos order disks).run.Calls unsaved := by
  have hISOs : ∀ isos seen, (validateISOs x isos seen).run.Calls unsaved := by
    intro isos
    induction isos with
    | nil => exact fun _ => .pure _
    | cons id isos ih =>
      exact fun seen => .andThen unsaved_getMedia fun _ => .andThen calls_ensureThat fun _ => ih _
  exact .andThen (hISOs isos []) fun _ => calls_ensureThat

theorem unsaved_imageBase {ref : String} {pull : Bool} :
    (imageBase x ref pull).run.Calls unsaved := by
  unfold imageBase
  split
  · exact .andThen unsaved_getMedia fun _ => .andThen calls_ensureThat fun _ => .pure _
  · refine .andThen (calls_demand (.request trivial)) fun _ => ?_
    split
    · exact .andThen (calls_demand (.request trivial)) fun _ => .pure _
    · exact .pure _

theorem unsaved_onlyThen {c : Bool} {p : EngineM Unit} (h : p.run.Calls unsaved) :
    (onlyThen c p).run.Calls unsaved := by
  unfold onlyThen
  split
  · exact h
  · exact .pure _

theorem admitted_createVM {params : CreateVMParams} : Admitted (createVM x params) g := by
  refine .bind (admitted_unsaved calls_ensureThat) fun _ _ _ => ?_
  refine .bind (admitted_unsaved (.forM fun _ _ => calls_ensureThat)) fun _ _ _ => ?_
  refine .bind (admitted_unsaved calls_ensureThat) fun _ _ _ => admitted_locked fun g => ?_
  refine .bind (admitted_unsaved (unsaved_onlyThen (.andThen unsaved_imageBase fun _ => .pure _)))
    fun _ _ _ => ?_
  refine .bind (admitted_unsaved (neutral_networkRef.mono fun _ => unsaved_of_neutral))
    fun network _ _ => ?_
  refine .bind (admitted_unsaved unsaved_validateMedia) fun _ g _ => ?_
  refine .bind (P := fun id g' => g'.fresh = some id)
    (leads_query (tracks_lesson trivial fun id => rfl)) fun id g hfresh => ?_
  exact .bind (P := fun _ _ => True) (leads_save (.inr hfresh) (fun _ _ _ => trivial)
    fun _ _ => trivial) fun _ _ _ => .pure trivial

theorem admitted_deleteVM {ref : String} : Admitted (deleteVM e ref) g := by
  refine admitted_unsaved (.andThen (calls_demand (.request trivial)) fun m => ?_)
  refine calls_locked trivial trivial (.andThen (calls_demand (.request trivial)) fun m => ?_)
  refine .andThen (neutral_isRunning.mono fun _ => unsaved_of_neutral) fun _ => ?_
  refine .andThen calls_ensureThat fun _ => ?_
  refine .andThen (calls_demand (.request trivial)) fun _ => ?_
  refine .andThen (calls_demand (.request trivial)) fun _ => ?_
  refine .andThen (calls_demand (.request trivial)) fun _ => ?_
  refine .andThen (calls_openDB ⟨trivial, trivial⟩ ⟨trivial, trivial⟩ trivial trivial) fun _ => ?_
  exact .andThen (calls_demand (.request trivial)) fun _ => calls_demand (.request trivial)

theorem tracks_replaced {id : String} {p : Restore α} (h : p.Calls (replaces id))
    (hg : g.id = some id) :
    (p.lift ofRestore fromRestore).Tracks nameLearning (fun _ _ => True) g := by
  induction p generalizing g with
  | ret v => exact trivial
  | call c next ih =>
    obtain ⟨hc, hnext⟩ := h
    refine ⟨?_, fun r g' hg' => ih _ (hnext _) ?_⟩
    · cases c with
      | save m =>
        obtain rfl : m.id = id := hc
        exact .inl hg
      | _ => exact trivial
    · cases hg'
      cases c <;> exact hg

theorem unsaved_restoreStep {c : RestoreCall} (h : unsaved (ofRestore c)) :
    (restoreStep c).Calls unsaved := ⟨h, fun _ => trivial⟩

theorem admitted_replaceVM {id timestamp : String} {restored : VMManifest} {disks : List String}
    (hid : g.id = some id) : Admitted (replaceVM x e id timestamp restored disks) g := by
  refine leads_locked (F := fun _ => True) (B := fun _ _ => True) trivial (fun _ _ _ => trivial)
    (fun g' hg' => ?_) (fun _ _ => ⟨trivial, fun _ _ => trivial⟩)
    fun _ _ _ => ⟨trivial, fun _ _ => trivial⟩
  cases hg'
  refine .bind (leads_unmoved neutral_isRunning) ?_
  rintro running _ rfl
  refine .bind (leads_ensureThat (Q := fun _ g' => g'.id = some id) (fun _ => trivial)
    fun _ => hid) fun _ g1 hid1 => ?_
  refine .bind (leads_unmoved (calls_demand (neutral_restoreStep trivial))) ?_
  rintro _ _ rfl
  refine .bind (leads_query (tracks_replaced calls_replaceDisks hid1)) fun result g2 _ => ?_
  exact admitted_unsaved (.andThen (calls_query (unsaved_restoreStep trivial)) fun _ =>
    .andThen (.pure _) fun _ => .pure _)

theorem admitted_restoreCopy {id timestamp : String} {restored : VMManifest} {disks : List String} :
    Admitted (restoreCopy x id timestamp restored disks) g := by
  have hstaging : (restoreStep .removeStaging).Calls unsaved := unsaved_restoreStep trivial
  refine .bind (P := fun fresh g' => g'.fresh = some fresh)
    (leads_query (tracks_lesson trivial fun fresh => rfl)) fun fresh g1 hfresh => ?_
  refine .bind (leads_unmoved (calls_query (.request trivial))) ?_
  rintro name _ rfl
  refine .bind (leads_unmoved (calls_demand (neutral_restoreStep trivial))) ?_
  rintro _ _ rfl
  refine .bind (leads_unmoved (calls_query (.lift (calls_copyDisks fun _ => trivial)))) ?_
  rintro copied _ rfl
  cases copied with
  | error err => exact admitted_unsaved (.andThen (calls_query hstaging) fun _ => calls_fail)
  | ok u =>
    refine .bind (leads_query (tracks_save (K := nameLearning) (Q := fun _ => True) (.inr hfresh)
      fun _ _ _ => trivial)) fun saved g2 _ => ?_
    cases saved with
    | error err => exact admitted_unsaved (.andThen (calls_query hstaging) fun _ => calls_fail)
    | ok u =>
      refine admitted_unsaved (.andThen (calls_query (unsaved_restoreStep trivial)) fun renamed => ?_)
      cases renamed with
      | ok u => exact .pure _
      | error err =>
        exact .andThen (calls_query (.request trivial)) fun _ =>
          .andThen (calls_query hstaging) fun _ => calls_fail

theorem admitted_restoreMachine {ref timestamp : String} {asNew : Bool} :
    Admitted (restoreMachine x e ref timestamp asNew) g := by
  refine .bind (admitted_unsaved calls_ensureThat) fun _ _ _ => ?_
  refine .bind (P := fun m g' => g'.id = some m.id)
    (leads_resolveVM trivial (fun _ _ _ => trivial) fun m g' hg' => ?_) fun m g1 hid => ?_
  · cases hg'
    rfl
  refine .bind (P := fun _ g' => g'.id = some m.id) ⟨trivial, fun r g' hg' => ?_⟩
    fun names g2 hid => ?_
  · cases hg'
    cases r with
    | error e => exact trivial
    | ok names => exact hid
  cases names with
  | none => exact admitted_fail
  | some names =>
    refine .bind (leads_ensureThat (Q := fun _ g' => g'.id = some m.id) (fun _ => trivial)
      fun _ => hid) fun _ g3 hid => ?_
    refine .bind (leads_unmoved (calls_demand (neutral_restoreStep trivial))) ?_
    rintro data _ rfl
    cases x.manifest.parse data with
    | error err => exact admitted_fail
    | ok restored =>
      exact .ite (fun _ => admitted_restoreCopy) fun _ => admitted_replaceVM hid

/-! #### Networks -/

/-- A network program makes only calls that it may make. -/
abbrev NetAdmitted (e : Paths) (p : NetM α) (g : NameGrip) : Prop :=
  Leads (netLearning e) p (fun _ => True) (fun _ _ => True) g

theorem admitted_network {p : NetM α} (h : NetAdmitted e p g) : Admitted (network e p) g := by
  refine Tracks.lift h (fun _ _ h => h) fun g c r g' hg' => ?_
  cases hg'
  cases c <;> rfl

/-- Network calls that save nothing. -/
def netUnsaved : NetCall → Prop
  | .save _ => False
  | _ => True

theorem netAdmitted_calls {p : NetM α} (h : p.run.Calls netUnsaved) : NetAdmitted e p g := by
  refine .of_admitted h fun c _ hc => ?_
  cases c <;> first | exact trivial | exact hc.elim

theorem netUnsaved_of_commands (c : NetCall) (h : c.Commands) : netUnsaved c := by
  cases c <;> first | exact trivial | exact h.elim

theorem netUnsaved_of_looks {c : NetCall} (h : c.Looks) : netUnsaved c := by
  cases c <;> first | exact trivial | exact h.elim

/-- What is done under the lock of the networks. -/
theorem netAdmitted_underLock {body : NetM α}
    (h : NetAdmitted e body (g.after (.lock .nets) (.ok ()))) : NetAdmitted e (underLock body) g := by
  refine .bind (P := fun _ g' => g' = g.after (.lock .nets) (.ok ())) ⟨trivial, ?_⟩ ?_
  · rintro (err | u) g' hg'
    · exact trivial
    · cases hg'
      rfl
  rintro _ _ rfl
  refine .bind (.lift h.outcome) fun result g1 _ => ?_
  refine .bind (.lift (.request trivial fun _ _ _ => trivial)) fun _ g2 (_ : True) => ?_
  cases result with
  | error err => exact trivial
  | ok v => exact trivial

/-- The network that is read under the lock. -/
theorem leads_reload {id : String} {mode : NetworkMode} (hheld : g.held = true) :
    Leads (netLearning e) (reload id mode) (fun _ => True)
      (fun n g' => g'.network = some (n.id, n.name)) g := by
  refine .bind (P := fun n g' => g'.network = some (n.id, n.name)) ⟨trivial, ?_⟩ fun n g' hg' => ?_
  · rintro (err | n) g' hg'
    · exact trivial
    · cases hg'
      exact if_pos hheld
  · exact .ite (fun _ => trivial) fun _ => .pure hg'

/-- What is applied under the lock keeps the network's name. -/
theorem netAdmitted_steady {p : NetM α} {id name : String} {Q : α → Prop} (h : Steady id name p Q)
    (hg : g.network = some (id, name)) : NetAdmitted e p g := by
  refine (Leads.of_yields (J := fun g => g.network = some (id, name)) h hg ?_).mono
    (fun _ _ => trivial) fun _ _ _ => trivial
  intro c g hc hg
  cases c with
  | save n =>
    obtain ⟨rfl, rfl⟩ := hc
    refine ⟨.inr hg, fun r g' hg' => ?_⟩
    cases hg'
    exact hg
  | lock | unlock | newString | load id | resolve ref | list | delete id | listVMs | running id
  | pendingReferences id => exact hc.elim
  | _ =>
    refine ⟨trivial, fun r g' hg' => ?_⟩
    cases hg'
    exact hg

theorem netAdmitted_ensure {n : NetworkManifest} {dryRun : Bool} :
    NetAdmitted e (ensure n dryRun) g := by
  unfold ensure
  split
  · refine netAdmitted_underLock (.bind (leads_reload rfl) fun n g hg => ?_)
    exact .ite (fun _ => .pure trivial) fun _ => netAdmitted_steady (steady_applyVLAN ⟨rfl, rfl⟩) hg
  · refine netAdmitted_calls (.andThen (calls_ask (.request trivial)) fun found => ?_)
    split
    · exact .pure _
    · exact .pure _
  · refine netAdmitted_calls (.andThen (calls_ask (.request trivial)) fun found => ?_)
    split
    · exact .pure _
    · exact .pure _
  · refine netAdmitted_underLock (.bind (leads_reload rfl) fun n g hg => ?_)
    exact .ite (fun _ => .pure trivial) fun _ =>
      netAdmitted_steady (steady_applyBridge ⟨rfl, rfl⟩) hg
  · exact .pure trivial

theorem netAdmitted_rollBack {id : String} {err : Message} :
    NetAdmitted e (rollBackNetwork id err) g := by
  refine netAdmitted_calls (.andThen (calls_ask (.request trivial)) fun r => ?_)
  cases r with
  | error loadErr => exact .pure _
  | ok current =>
    refine .andThen (calls_ask (calls_destroy netUnsaved_of_commands current)) fun r => ?_
    cases r with
    | error cleanupErr => exact .pure _
    | ok u =>
      refine .andThen (calls_ask (.request trivial)) fun r => ?_
      cases r with
      | error cleanupErr => exact .pure _
      | ok u => exact .pure _

/-- The fields of the mode are filled in without a call. -/
theorem leads_withModeFields {mcastGroup : String → String} {params : CreateNetworkParams}
    {n : NetworkManifest} {id : String} (hid : n.id = id) (hg : g.fresh = some id) :
    Leads (netLearning e) (withModeFields mcastGroup params n) (fun _ => True)
      (fun n' g' => n'.id = id ∧ g'.fresh = some id) g := by
  unfold withModeFields
  split
  · exact .pure ⟨hid, hg⟩
  · exact .ite (fun _ => trivial) fun _ => .pure ⟨hid, hg⟩
  · exact .ite (fun _ => trivial) fun _ => .pure ⟨hid, hg⟩
  · exact .ite (fun _ => trivial) fun _ => .pure ⟨hid, hg⟩
  · exact .pure ⟨hid, hg⟩

theorem netAdmitted_create {mcastGroup : String → String} {params : CreateNetworkParams} :
    NetAdmitted e (Engine.createNetwork mcastGroup params) g := by
  refine .ite (fun _ => trivial) fun _ => ?_
  refine .bind (P := fun _ _ => True) (.lift (.request trivial fun _ _ _ => trivial))
    fun found g1 _ => ?_
  cases found with
  | ok existing => exact trivial
  | error err =>
    refine .ite (fun _ => trivial) fun _ => ?_
    refine .bind (P := fun id g' => g'.fresh = some id) (.lift (.request trivial ?_))
      fun id g2 hfresh => ?_
    · rintro id g' hg'
      cases hg'
      rfl
    refine .bind (leads_withModeFields rfl hfresh) fun n g3 ⟨hid, hfresh⟩ => ?_
    refine .bind (P := fun _ _ => True) ⟨.inl (hid ▸ hfresh), ?_⟩ fun _ g4 _ => ?_
    · rintro (err | u) g' -
      · exact trivial
      · exact trivial
    refine .bind (P := fun _ _ => True)
      (.lift (Tracks.mono netAdmitted_ensure fun _ _ _ => trivial)) fun r g5 _ => ?_
    cases r with
    | ok n => exact .pure trivial
    | error err => exact netAdmitted_rollBack

theorem netAdmitted_destroy {ref : String} : NetAdmitted e (Engine.destroyNetwork ref) g := by
  refine netAdmitted_underLock (netAdmitted_calls (.andThen (.request trivial) fun n => ?_))
  refine .andThen (.request trivial) fun vms => ?_
  refine .andThen ((looks_requireUnused n vms).mono fun _ => netUnsaved_of_looks) fun _ => ?_
  refine .andThen (calls_onlyIf ((looks_requireDetached n).mono fun _ => netUnsaved_of_looks))
    fun _ => ?_
  exact .andThen (calls_destroy netUnsaved_of_commands n) fun _ => .request trivial

theorem admitted_nameProgram (op : NameOp) : Admitted (nameProgram x e op) g := by
  cases op with
  | createVM params => exact .bind admitted_createVM fun _ _ _ => .pure trivial
  | restore ref timestamp asNew => exact .bind admitted_restoreMachine fun _ _ _ => .pure trivial
  | deleteVM ref => exact admitted_deleteVM
  | createNetwork mcastGroup params =>
    exact .bind (admitted_network netAdmitted_create) fun _ _ _ => .pure trivial
  | destroyNetwork ref => exact admitted_network netAdmitted_destroy

end Operations

/-! ### Every run -/

theorem NameGrip.holds_nothing {i : Nat} {s : World} : ({} : NameGrip).Holds i s :=
  ⟨nofun, nofun, nofun, nofun⟩

theorem NameGrip.Holds.die {i j : Nat} {s : World} {h : NameGrip} (hk : h.Holds j s) (hj : j ≠ i) :
    h.Holds j (s.die i) where
  known := hk.known
  fresh := hk.fresh
  held hheld := by
    have hlock := hk.held hheld
    simp [World.die, hlock, hj]
  network := hk.network

def nameInsight (x : Texts) (runDir : String → String) {s0 : World} (hknown : s0.Known)
    (hnamed : s0.Named) : (nameSystem x runDir).Insight Distinctive s0 fun _ => nameLearning where
  Inv s := s.Known ∧ s.Named
  Knows i g s := g.Holds i s
  idle := {}
  rest _ := True
  init := ⟨⟨hknown, hnamed⟩, fun _ => NameGrip.holds_nothing⟩
  code i op := Tracks.mono (admitted_nameProgram (e := ⟨runDir, op.1⟩) op.2) fun _ _ _ => trivial
  atRest _ _ _ _ _ := NameGrip.holds_nothing
  call i g a c s r t hs hg hask hd hperform := by
    obtain ⟨haccepts, rfl, rfl⟩ := World.perform_cases hperform
    exact ⟨⟨hs.1.after haccepts, hs.2.after hg hs.1 hask hd⟩,
      ⟨g.after a (c.answer a), rfl, hg.own hs.1 hask haccepts⟩,
      fun j hj h hh => hh.others hj hg hask haccepts⟩
  die i g s hs hg := ⟨⟨⟨hs.1.vms, hs.1.nets⟩, hs.2.vms, hs.2.nets⟩, NameGrip.holds_nothing,
    fun j hj h hh => hh.die hj⟩
  env e := nomatch e

/-- A stored name is resolved to the one machine, or network, that has it. -/
theorem World.Named.resolved {s : World} (hs : s.Named) (x : Texts) (i : Nat) (c : EngineChoice) :
    (∀ id m m', s.vms.get id = some m → s.accepts i c x (.vms (.resolve m.name)) = true →
      c.answer (.vms (.resolve m.name)) = .ok m' → m' = m) ∧
    ∀ id n n', s.nets.get id = some n → s.accepts i c x (.nets (.resolve n.name)) = true →
      c.answer (.nets (.resolve n.name)) = .ok n' → n' = n := by
  refine ⟨fun id m m' hm ha hr => ?_, fun id n n' hn ha hr => ?_⟩
  · obtain ⟨hget, href⟩ := of_decide_eq_true (granted_ok (x := m') ha hr)
    obtain rfl := hs.vms id m'.id m m' hm hget href.symm
    rw [hm] at hget
    exact (Option.some.inj hget).symm
  · obtain ⟨hget, href⟩ := of_decide_eq_true (granted_ok (x := n') ha hr)
    obtain rfl := hs.nets id n'.id n n' hn hget href.symm
    rw [hn] at hget
    exact (Option.some.inj hget).symm

section OneName

def labMachine : NameOp := .createVM { name := "lab", image := "debian" }

def labSwitch : NameOp := .createNetwork (fun _ => "239.0.0.1:1") { name := "lab", mode := "switch" }

def anyTexts : Texts where
  cidr _ := true
  uuid _ := .ok ()
  mac _ := ""
  unicastMAC _ := none
  manifest := { parse := fun _ => .error "", valid := fun _ => true }

/-- Nothing fails but look-ups, and the id is the next. -/
def issuing (id : String) : EngineChoice where
  answer
    | .lock _ => .ok ()
    | .newString => id
    | .vms (.save _) => .ok ()
    | .nets (.save _) => .ok ()
    | .step _ => .ok ()
    | a => a.failure

/-- A process makes a thing, under the id. -/
def making (i : Nat) (op : NameOp) (id : String) (calls : Nat) :
    List (Move EngineChoice (Nat × NameOp) Empty) :=
  .begin i (i, op) :: List.replicate calls (.call i (issuing id)) ++ [.finish i]

/-- Nothing else that is stored has the name or the id. -/
def alone {α : Type} (label : α → String) (t : Table α) (id : String) (x : α) : Bool :=
  t.all fun e => e.1 = id || (label e.2 ≠ label x && e.1 ≠ label x && label e.2 ≠ id)

theorem free_of_alone {α : Type} {label : α → String} {t : Table α} {id : String} {x : α}
    (h : alone label t id x = true) : t.Free label id x := by
  intro other y hy hne
  have := List.all_eq_true.mp h _ (Table.mem_of_get hy)
  simp only [Bool.or_eq_true, decide_eq_true_eq, hne, false_or, Bool.and_eq_true] at this
  exact ⟨this.1.1, this.1.2, fun _ => this.2⟩

def distinctly (_ : Nat) (a : EngineCall) (_ : EngineChoice) (s : World) : Bool :=
  match a with
  | .vms (.save m) => alone VMManifest.name s.vms m.id m
  | .nets (.save n) => alone NetworkManifest.name s.nets n.id n
  | _ => true

theorem distinctive_of_distinctly {i : Nat} {a : EngineCall} {c : EngineChoice} {s : World}
    (h : distinctly i a c s = true) : Distinctive i a c s := by
  refine ⟨?_, ?_⟩
  · rintro m rfl -
    exact free_of_alone h
  · rintro n rfl - -
    exact free_of_alone h

theorem known_empty : ({} : World).Known := ⟨nofun, nofun⟩

theorem named_empty : ({} : World).Named := ⟨.nil, .nil⟩

end OneName

end Maco.Engine
