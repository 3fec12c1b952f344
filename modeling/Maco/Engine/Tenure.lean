import Maco.Engine.Naming
import Maco.Engine.Usb

/-! Operations write the manifest of the machine whose lock they hold, as they have read it under the
lock.  An interface change looks the machine up again by its name, and a restore does not look whether
the machine is still there; the theorem says for which runs this does no harm. -/

namespace Maco.Engine

open Concurrent Network Prog VM

inductive LifeOp where
  | createVM (params : CreateVMParams)
  | deleteVM (ref : String)
  | restore (ref timestamp : String)
  | manageDisk (ref action : String) (params : DiskParams)
  | manageInterface (ref action : String) (params : InterfaceParams)
  | updateHardware (ref : String) (params : UpdateHardwareParams)
  | updateMedia (ref : String) (settings : MediaSettings)
  | assignUSB (ref deviceID fingerprint : String)
  | unassignUSB (ref key : String)

/-- The operation, in an operating-system process; restores are in place. -/
def lifeProgram (x : Texts) (inv : Inventory) (e : Paths) : LifeOp → EngineM Unit
  | .createVM params => do
    let _ ← createVM x params
  | .deleteVM ref => deleteVM e ref
  | .restore ref timestamp => do
    let _ ← restoreMachine x e ref timestamp false
  | .manageDisk ref action params => manageDisk x e ref action params
  | .manageInterface ref action params => manageInterface x e ref action params
  | .updateHardware ref params => updateHardware e ref params
  | .updateMedia ref settings => updateMedia x e ref settings
  | .assignUSB ref deviceID fingerprint => do
    let _ ← assignUSB inv e ref deviceID fingerprint
  | .unassignUSB ref key => unassignUSB e ref key

/-- Any number of processes change machines. -/
def lifeSystem (x : Texts) (inv : Inventory) (runDir : String → String) :
    System EngineCall EngineCall.Reply EngineChoice World (Nat × LifeOp) Empty
      (Except Message Unit) where
  perform := World.perform x
  code op := (lifeProgram x inv ⟨runDir, op.1⟩ op.2).run
  die i s := s.die i
  env e _ := nomatch e

/-- What one kind of operation makes of a manifest. -/
inductive Edits (m : VMManifest) : VMManifest → Prop where
  | disks (disks : List VMDisk) (bootOrder : List String) :
    Edits m { m with disks := disks, bootOrder := bootOrder }
  | interfaces (interfaces : List VMInterface) : Edits m (withInterfaces m interfaces)
  | hardware (cpus memoryMiB diskSizeGiB : Int) (autostart : Bool) : Edits m
      { m with cpus := cpus, memoryMiB := memoryMiB, diskSizeGiB := diskSizeGiB,
               autostart := autostart }
  | media (isos bootOrder : List String) : Edits m { m with isos := isos, bootOrder := bootOrder }
  | usb (usb : List VMUSBAssignment) : Edits m { m with usb := usb }

theorem Edits.refl (m : VMManifest) : Edits m m := .usb m.usb

theorem Edits.id_eq {m m' : VMManifest} (h : Edits m m') : m'.id = m.id := by
  cases h <;> rfl

/-- The manifest is that of a backup of the machine. -/
def World.BackedUp (x : Texts) (s : World) (m : VMManifest) : Prop :=
  ∃ timestamp data restored, s.backups m.id timestamp = some data ∧
    x.manifest.parse data = .ok restored ∧ m = { restored with id := m.id }

/-- A manifest is written under a new id, or under the lock of the machine: as an edit of what is
stored, or in a restore as a backup has it.  It is deleted under that lock. -/
def Rightful (x : Texts) (runDir : String → String) (s : World) (i : Nat) : EngineCall → Prop
  | .vms (.save m) => s.ids m.id = .given i ∨
      (s.locks (.vm (runDir m.id)) = some i ∧
        ((∃ m0, s.vms.get m.id = some m0 ∧ Edits m0 m) ∨ s.BackedUp x m))
  | .vms (.delete id) => s.locks (.vm (runDir id)) = some i
  | _ => True

/-- A reference that is looked up under the lock of a machine is still to that machine, and a restore
writes the manifest of a machine that is still there. -/
def Loyal (runDir : String → String) (i : Nat) (a : EngineCall) (c : EngineChoice) (s : World) :
    Prop :=
  (∀ ref m d, a = .vms (.resolve ref) → c.answer (.vms (.resolve ref)) = .ok m →
    s.locks (.vm d) = some i → d = runDir m.id) ∧
  ∀ m, a = .vms (.save m) → c.saves m = true → s.doing i = .restoring → s.vms.get m.id ≠ none

/-! ### What a process knows -/

/-- What is known of names and ids, the run directory whose lock is held, the manifests of which one
is stored for the machine, a backup that has been read and whether the process is restoring. -/
structure Tenure where
  names : NameGrip := {}
  dir : Option String := none
  stored : Option (List VMManifest) := none
  backup : Option (String × String × Content) := none
  restoring : Bool := false

namespace Tenure

variable (x : Texts) (runDir : String → String) (g : Tenure)

def dirAfter : (a : EngineCall) → a.Reply → Option String
  | .lock (.vm d), .ok _ => some d
  | .unlock (.vm _), _ => none
  | _, _ => g.dir

/-- A save that fails may have taken effect. -/
def storedAfter : (a : EngineCall) → a.Reply → Option (List VMManifest)
  | .vms (.resolve _), .ok m => if g.dir = some (runDir m.id) then some [m] else none
  | .vms (.load _), .ok m => if g.dir = some (runDir m.id) then some [m] else none
  | .vms (.save m), .ok _ => if g.dir = some (runDir m.id) then some [m] else none
  | .vms (.save m), .error _ => g.stored.map (m :: ·)
  | .vms (.delete _), _ | .lock (.vm _), _ | .unlock (.vm _), _ => none
  | _, _ => g.stored

def backupAfter : (a : EngineCall) → a.Reply → Option (String × String × Content)
  | .restore (.readManifest id timestamp), .ok data => some (id, timestamp, data)
  | _, _ => g.backup

def restoringAfter : EngineCall → Bool
  | .restore (.readDir _ _) => true
  | .getMedia _ | .vms (.delete _) | .vms (.resolve _) | .lock .media | .unlock .media
  | .unlock (.vm _) | .step (.deleteBackupSchedule _) => false
  | _ => g.restoring

/-- What is known after a call. -/
def after (a : EngineCall) (r : a.Reply) : Tenure where
  names := g.names.after a r
  dir := g.dirAfter a r
  stored := g.storedAfter runDir a r
  backup := g.backupAfter a r
  restoring := g.restoringAfter a

/-- The manifest is that of the backup that has been read. -/
def FromBackup (m : VMManifest) : Prop :=
  ∃ timestamp data restored, g.backup = some (m.id, timestamp, data) ∧
    x.manifest.parse data = .ok restored ∧ m = { restored with id := m.id }

/-- The manifest is an edit of whichever one is stored. -/
def Editing (m : VMManifest) : Prop := ∃ l, g.stored = some l ∧ ∀ m0 ∈ l, Edits m0 m

def asks (a : EngineCall) : Prop :=
  g.names.asks a ∧
  match a with
  | .vms (.save m) => g.names.fresh = some m.id ∨
      (g.dir = some (runDir m.id) ∧ (g.Editing m ∨ (g.restoring = true ∧ g.FromBackup x m)))
  | .vms (.delete id) => g.dir = some (runDir id)
  | _ => True

/-- What is known holds of the state. -/
structure Holds (i : Nat) (s : World) : Prop where
  names : g.names.Holds i s
  dir : ∀ d, g.dir = some d → s.locks (.vm d) = some i
  stored : ∀ l, g.stored = some l → ∃ m ∈ l, s.vms.get m.id = some m ∧ g.dir = some (runDir m.id)
  backup : ∀ id timestamp data, g.backup = some (id, timestamp, data) →
    s.backups id timestamp = some data
  restoring : g.restoring = true → s.doing i = .restoring

end Tenure

/-- What is loaded is the manifest of the id, and what a reference leads to under the lock of a machine
is that machine. -/
def Tenure.possible (runDir : String → String) (g : Tenure) : (a : EngineCall) → a.Reply → Bool
  | .vms (.load id), .ok m => decide (m.id = id)
  | .vms (.resolve _), .ok m => g.dir.all (· = runDir m.id)
  | _, _ => true

/-- What calls teach a process of the machine that it holds. -/
def tenureLearning (x : Texts) (runDir : String → String) :
    Learning EngineCall EngineCall.Reply Tenure where
  asks := Tenure.asks x runDir
  learns g a r := if g.possible runDir a r then some (g.after runDir a r) else none

section Steps

variable {x : Texts} {runDir : String → String} {s : World} {i j : Nat} {c : EngineChoice}
  {a : EngineCall} {g h : Tenure}

/-- Two processes do not hold the lock of one machine. -/
theorem Tenure.Holds.apart {id : String} (hg : g.Holds runDir i s) (hk : h.Holds runDir j s)
    (hj : j ≠ i)
    (hdir : g.dir = some (runDir id)) : h.dir ≠ some (runDir id) := by
  intro hsame
  have hlock := hg.dir _ hdir
  rw [hk.dir _ hsame] at hlock
  exact hj (Option.some.inj hlock)

/-- A new id is that of no machine. -/
theorem Tenure.Holds.unstored {id : String} (hg : g.Holds runDir i s) (hs : s.Known)
    (hfresh : g.names.fresh = some id) : s.vms.get id = none := by
  by_contra hget
  have hgiven := hg.names.fresh _ hfresh
  rw [hs.vms id hget] at hgiven
  cases hgiven

/-- A backup stays as it is. -/
theorem World.backups_after {id timestamp : String} {data : Content}
    (h : s.backups id timestamp = some data) (ha : s.accepts i c x a = true) :
    (s.after i c a).backups id timestamp = some data := by
  simp only [after]
  unfold backupsAfter
  split
  · rename_i other
    split
    · rename_i hok
      have hnew : s.backups other c.published.1 = none := by
        cases hr : c.answer (.step (.backUp other)) with
        | error e =>
          rw [hr] at hok
          cases hok
        | ok u => exact (of_decide_eq_true (granted_ok (x := u) ha hr)).2.2
      by_cases hid : id = other
      · subst hid
        rw [Function.update_self, Function.update_of_ne]
        · exact h
        · rintro rfl
          rw [hnew] at h
          cases h
      · rw [Function.update_of_ne hid]
        exact h
    · exact h
  · exact h

/-- What a process knows stays true while another makes a call. -/
theorem Tenure.Holds.others (hk : h.Holds runDir j s) (hj : j ≠ i) (hs : s.Known)
    (hg : g.Holds runDir i s) (hask : g.asks x runDir a) (ha : s.accepts i c x a = true) :
    h.Holds runDir j (s.after i c a) where
  names := hk.names.others hj hg.names hask.1 ha
  dir d hd := World.locks_after (hk.dir d hd) hj ha
  stored l hl := by
    obtain ⟨m, hm, hget, hdir⟩ := hk.stored l hl
    refine ⟨m, hm, ?_, hdir⟩
    obtain hsame | ⟨m', rfl, hm', -⟩ | ⟨rfl, -, -⟩ := s.vms_after i c a m.id
    · rw [hsame, hget]
    · exfalso
      rcases hask.2 with hfresh | ⟨hlocked, -⟩
      · rw [hm'] at hfresh
        rw [hg.unstored hs hfresh] at hget
        cases hget
      · rw [hm'] at hlocked
        exact hg.apart hk hj hlocked hdir
    · exact absurd hdir (hg.apart hk hj hask.2)
  backup id timestamp data hbackup := World.backups_after (hk.backup id timestamp data hbackup) ha
  restoring hrestoring := (World.doing_of_ne hj).trans (hk.restoring hrestoring)

/-- What a process knows after a call of its own. -/
theorem Tenure.Holds.own (hg : g.Holds runDir i s) (hs : s.Known) (hask : g.asks x runDir a)
    (ha : s.accepts i c x a = true) :
    (g.after runDir a (c.answer a)).Holds runDir i (s.after i c a) where
  names := hg.names.own hs hask.1 ha
  dir d hd := by
    change g.dirAfter a (c.answer a) = some d at hd
    generalize hr : c.answer a = r at hd
    unfold dirAfter at hd
    split at hd
    · cases hd
      simp [World.after, World.locksAfter, hr, Except.isOk, Except.toBool]
    · cases hd
    · rename_i hunlock
      refine World.locks_own (hg.dir d hd) ?_
      rintro rfl
      exact hunlock d () rfl HEq.rfl
  stored l hl := by
    change g.storedAfter runDir a (c.answer a) = some l at hl
    change ∃ m ∈ l, _ ∧ g.dirAfter a (c.answer a) = _
    generalize hr : c.answer a = r at hl ⊢
    unfold storedAfter at hl
    split at hl
    · rename_i ref m
      obtain ⟨hget, -⟩ := of_decide_eq_true (granted_ok (x := m) ha hr)
      split at hl
      · rename_i hdir
        cases hl
        exact ⟨m, List.mem_singleton_self m, hget, hdir⟩
      · cases hl
    · rename_i id m
      obtain ⟨hget, rfl⟩ := of_decide_eq_true (granted_ok (x := m) ha hr)
      split at hl
      · rename_i hdir
        cases hl
        exact ⟨m, List.mem_singleton_self m, hget, hdir⟩
      · cases hl
    · rename_i m u
      split at hl
      · rename_i hdir
        cases hl
        refine ⟨m, List.mem_singleton_self m, ?_, hdir⟩
        have hsaves : c.saves m = true := by
          simp [EngineChoice.saves, hr, Except.isOk, Except.toBool]
        simp [World.after, World.vmsAfter, hsaves, Table.get_put]
      · cases hl
    · rename_i m err
      obtain ⟨l', hl', rfl⟩ := Option.map_eq_some_iff.mp hl
      obtain ⟨m0, hm0, hget, hdir⟩ := hg.stored l' hl'
      obtain hsame | ⟨m', hm', hid, -, hsaved⟩ | ⟨hdelete, -⟩ :=
        s.vms_after i c (.vms (.save m)) m0.id
      · exact ⟨m0, List.mem_cons_of_mem m hm0, hsame.trans hget, hdir⟩
      · cases hm'
        exact ⟨m, List.mem_cons_self, hid ▸ hsaved, hid ▸ hdir⟩
      · cases hdelete
    · cases hl
    · cases hl
    · cases hl
    · rename_i hsaved hfailed hdelete hlock hunlock
      obtain ⟨m, hm, hget, hdir⟩ := hg.stored l hl
      refine ⟨m, hm, ?_, ?_⟩
      · obtain hsame | ⟨m', rfl, -, -⟩ | ⟨rfl, -, -⟩ := s.vms_after i c a m.id
        · rw [hsame, hget]
        · cases r with
          | error e => exact (hfailed m' e rfl HEq.rfl).elim
          | ok u => exact (hsaved m' u rfl HEq.rfl).elim
        · exact (hdelete m.id r rfl HEq.rfl).elim
      · unfold dirAfter
        split
        · exact (hlock _ _ rfl HEq.rfl).elim
        · exact (hunlock _ _ rfl HEq.rfl).elim
        · exact hdir
  backup id timestamp data hbackup := by
    change g.backupAfter a (c.answer a) = some (id, timestamp, data) at hbackup
    generalize hr : c.answer a = r at hbackup
    unfold backupAfter at hbackup
    split at hbackup
    · rename_i data'
      cases hbackup
      exact of_decide_eq_true (granted_ok (x := data) ha hr)
    · exact World.backups_after (hg.backup id timestamp data hbackup) ha
  restoring hrestoring := by
    have hdoing : (s.after i c a).doing i = (s.doing i).after a (c.answer a) :=
      Function.update_self ..
    rw [hdoing]
    change g.restoringAfter a = true at hrestoring
    unfold restoringAfter at hrestoring
    split at hrestoring
    · rfl
    all_goals first | cases hrestoring | rw [hg.restoring hrestoring]
    rename_i hmedia hdelete hresolve hlock hunlock hunlockVM hschedule
    cases a with
    | vms sc =>
      cases sc with
      | delete id => exact (hdelete id rfl).elim
      | resolve ref => exact (hresolve ref rfl).elim
      | _ => rfl
    | getMedia id => exact (hmedia id rfl).elim
    | lock l =>
      cases l with
      | media => exact (hlock rfl).elim
      | _ => rfl
    | unlock l =>
      cases l with
      | media => exact (hunlock rfl).elim
      | vm d => exact (hunlockVM d rfl).elim
      | _ => rfl
    | step st =>
      cases st with
      | deleteBackupSchedule id => exact (hschedule id rfl).elim
      | _ => rfl
    | restore rc => cases rc <;> rfl
    | _ => rfl

/-- The calls that a process makes are rightful. -/
theorem Tenure.Holds.rightful (hg : g.Holds runDir i s) (hask : g.asks x runDir a) :
    Rightful x runDir s i a := by
  cases a with
  | vms sc =>
    cases sc with
    | save m =>
      rcases hask.2 with hfresh | ⟨hdir, hedit | ⟨-, hbackup⟩⟩
      · exact .inl (hg.names.fresh _ hfresh)
      · right
        obtain ⟨l, hl, hedits⟩ := hedit
        obtain ⟨m0, hm0, hget, -⟩ := hg.stored l hl
        have hm := hedits m0 hm0
        rw [← hm.id_eq] at hget
        exact ⟨hg.dir _ hdir, .inl ⟨m0, hget, hm⟩⟩
      · right
        obtain ⟨timestamp, data, restored, hread, hparse, hm⟩ := hbackup
        exact ⟨hg.dir _ hdir,
          .inr ⟨timestamp, data, restored, hg.backup _ _ _ hread, hparse, hm⟩⟩
    | delete id => exact hg.dir _ hask.2
    | _ => exact trivial
  | _ => exact trivial

/-- A machine of this id has been, and is no more. -/
def World.Gone (s : World) (id : String) : Prop := s.ids id = .known ∧ s.vms.get id = none

/-- A loyal call brings no machine back. -/
theorem World.Gone.after {id : String} (h : s.Gone id) (hg : g.Holds runDir i s)
    (hask : g.asks x runDir a) (hloyal : Loyal runDir i a c s) (ha : s.accepts i c x a = true) :
    (s.after i c a).Gone id := by
  refine ⟨World.ids_known_after h.1 ha, ?_⟩
  obtain hsame | ⟨m, rfl, rfl, hsaves, -⟩ | ⟨-, -, hgone⟩ := s.vms_after i c a id
  · rw [hsame, h.2]
  · exfalso
    rcases hask.2 with hfresh | ⟨-, ⟨l, hl, hedits⟩ | ⟨hrestoring, -⟩⟩
    · have hgiven := hg.names.fresh _ hfresh
      rw [h.1] at hgiven
      cases hgiven
    · obtain ⟨m0, hm0, hget, -⟩ := hg.stored l hl
      rw [← (hedits m0 hm0).id_eq, h.2] at hget
      cases hget
    · exact hloyal.2 m rfl hsaves (hg.restoring hrestoring) h.2
  · exact hgone

/-- A loyal call is answered as what is known has it. -/
theorem Tenure.Holds.possible (hg : g.Holds runDir i s) (hloyal : Loyal runDir i a c s)
    (ha : s.accepts i c x a = true) : g.possible runDir a (c.answer a) = true := by
  generalize hr : c.answer a = r
  unfold Tenure.possible
  split
  · rename_i id m
    exact decide_eq_true (of_decide_eq_true (granted_ok (x := m) ha hr)).2
  · rename_i ref m
    cases hdir : g.dir with
    | none => rfl
    | some d => exact decide_eq_true (hloyal.1 ref m d rfl hr (hg.dir d hdir))
  · rfl

end Steps

/-! ### The operations -/

section Operations

variable {x : Texts} {inv : Inventory} {e : Paths} {g : Tenure} {a : EngineCall} {α : Type}
  {m : VMManifest}

/-- The program makes only calls that it may make, whatever it knows at the end. -/
abbrev Lawful (x : Texts) (e : Paths) (p : EngineM α) (g : Tenure) : Prop :=
  Leads (tenureLearning x e.runDir) p (fun _ => True) (fun _ _ => True) g

/-- The process holds the lock of the machine, of which this manifest is stored. -/
structure Tenure.Has (runDir : String → String) (m : VMManifest) (g : Tenure) : Prop where
  id : g.names.id = some m.id
  dir : g.dir = some (runDir m.id)
  stored : g.stored = some [m]

/-- Calls that neither save nor delete manifests. -/
def lenient : EngineCall → Prop
  | .vms (.save _) | .vms (.delete _) | .nets (.save _) => False
  | _ => True

theorem asks_lenient (ha : lenient a) : (tenureLearning x e.runDir).asks g a := by
  cases a with
  | vms sc => cases sc <;> first | exact ⟨trivial, trivial⟩ | exact ha.elim
  | nets nc => cases nc <;> first | exact ⟨trivial, trivial⟩ | exact ha.elim
  | _ => exact ⟨trivial, trivial⟩

theorem lawful_lenient {p : EngineM α} (h : p.run.Calls lenient) : Lawful x e p g :=
  .of_admitted h fun _ _ => asks_lenient

/-- Calls that leave a process with the machine that it holds. -/
def placid : EngineCall → Prop
  | .vms (.resolve _) | .vms (.load _) | .vms (.save _) | .vms (.delete _) | .lock (.vm _)
  | .unlock (.vm _) | .nets (.save _) => False
  | _ => True

theorem lenient_of_placid (ha : placid a) : lenient a := by
  cases a with
  | vms sc => cases sc <;> first | exact trivial | exact ha.elim
  | nets nc => cases nc <;> first | exact trivial | exact ha.elim
  | _ => exact trivial

theorem Tenure.Has.placid {runDir : String → String} (hg : g.Has runDir m) (ha : placid a)
    (r : a.Reply) : (g.after runDir a r).Has runDir m := by
  obtain ⟨hid, hdir, hstored⟩ := hg
  cases a with
  | vms sc => cases sc <;> first | exact ⟨hid, hdir, hstored⟩ | exact ha.elim
  | nets nc => cases nc <;> exact ⟨hid, hdir, hstored⟩
  | lock l => cases l <;> first | exact ⟨hid, hdir, hstored⟩ | exact ha.elim
  | unlock l =>
    cases l with
    | vm d => exact ha.elim
    | _ => exact ⟨hid, hdir, hstored⟩
  | _ => exact ⟨hid, hdir, hstored⟩

/-- What is learnt from a call, where its answer is possible. -/
theorem learns_after {r : a.Reply} {g' : Tenure}
    (h : (tenureLearning x e.runDir).learns g a r = some g') :
    g.possible e.runDir a r = true ∧ g' = g.after e.runDir a r := by
  simp only [tenureLearning] at h
  split at h
  · rename_i hpossible
    cases h
    exact ⟨hpossible, rfl⟩
  · cases h

theorem leads_placid {p : EngineM α} (h : p.run.Calls placid) (hg : g.Has e.runDir m) :
    Leads (tenureLearning x e.runDir) p (fun _ => True) (fun _ g' => g'.Has e.runDir m) g := by
  refine (Leads.of_yields (J := fun g => g.Has e.runDir m) (.of_calls h) hg ?_).mono
    (fun _ _ => trivial) fun _ _ hg => hg.2
  intro a g ha hg
  refine ⟨asks_lenient (lenient_of_placid ha), fun r g' hg' => ?_⟩
  obtain ⟨-, rfl⟩ := learns_after hg'
  exact hg.placid ha r

/-- A save of an edit. -/
theorem Tenure.Has.asks {m' : VMManifest} (hg : g.Has e.runDir m) (hm : Edits m m') :
    g.asks x e.runDir (.vms (.save m')) := by
  refine ⟨.inl (hm.id_eq ▸ hg.id), .inr ⟨hm.id_eq ▸ hg.dir, .inl ⟨[m], hg.stored, ?_⟩⟩⟩
  intro m0 hm0
  rw [List.mem_singleton.mp hm0]
  exact hm

theorem Tenure.Has.saved {m' : VMManifest} (hg : g.Has e.runDir m) (hm : Edits m m') :
    (g.after e.runDir (.vms (.save m')) (.ok ())).Has e.runDir m' := by
  have hdir : g.dir = some (e.runDir m'.id) := hm.id_eq ▸ hg.dir
  exact ⟨hm.id_eq ▸ hg.id, hdir, if_pos hdir⟩

theorem lawful_save {m' : VMManifest} (hg : g.Has e.runDir m) (hm : Edits m m') :
    Leads (tenureLearning x e.runDir) (save m') (fun _ => True)
      (fun _ g' => g'.Has e.runDir m') g := by
  refine leads_save (hg.asks hm) (fun _ _ _ => trivial) fun g' hg' => ?_
  obtain ⟨-, rfl⟩ := learns_after hg'
  exact hg.saved hm

theorem lawful_locked {l : LockName} {body : EngineM α}
    (h : Lawful x e body (g.after e.runDir (.lock l) (.ok ()))) :
    Lawful x e (locked l body) g := by
  refine leads_locked (F := fun _ => True) (B := fun _ _ => True) (asks_lenient trivial)
    (fun _ _ _ => trivial) (fun g' hg' => ?_)
    (fun _ _ => ⟨asks_lenient trivial, fun _ _ => trivial⟩)
    fun _ _ _ => ⟨asks_lenient trivial, fun _ _ => trivial⟩
  obtain ⟨-, rfl⟩ := learns_after hg'
  exact h

/-- What is done under the lock of a machine. -/
theorem lawful_lockedVM {id : String} {body : EngineM α} (hid : g.names.id = some id)
    (h : ∀ g, g.names.id = some id → g.dir = some (e.runDir id) → Lawful x e body g) :
    Lawful x e (lockedVM e id body) g := lawful_locked (h _ hid rfl)

/-- The manifest is loaded under the lock. -/
theorem leads_loaded {id : String} (hid : g.names.id = some id)
    (hdir : g.dir = some (e.runDir id)) :
    Leads (tenureLearning x e.runDir) (loadVM id) (fun _ => True)
      (fun m g' => m.id = id ∧ g'.Has e.runDir m) g := by
  refine leads_loadVM (asks_lenient trivial) (fun _ _ _ => trivial) fun m g' hg' => ?_
  obtain ⟨hm, rfl⟩ := learns_after hg'
  obtain rfl : m.id = id := of_decide_eq_true hm
  exact ⟨rfl, hid, hdir, if_pos hdir⟩

/-- Another lock is taken while the machine is held. -/
theorem lawful_lockedWithin {l : LockName} {body : EngineM α} (hg : g.Has e.runDir m)
    (hl : placid (.lock l)) (h : ∀ g, g.Has e.runDir m → Lawful x e body g) :
    Lawful x e (locked l body) g := lawful_locked (h _ (hg.placid hl _))

/-- A reference is resolved before any lock is taken. -/
theorem leads_named {ref : String} :
    Leads (tenureLearning x e.runDir) (resolveVM ref) (fun _ => True)
      (fun m g' => g'.names.id = some m.id) g := by
  refine leads_resolveVM (asks_lenient trivial) (fun _ _ _ => trivial) fun m g' hg' => ?_
  obtain ⟨-, rfl⟩ := learns_after hg'
  rfl

end Operations

end Maco.Engine
