import Maco.Engine.DiskWorld

/-! `ManageDisk` and the steps of it that fail: after which failures every disk of the stored manifest
still has its file, and QEMU every image that it has open. -/

namespace Maco.Engine.DiskChanges

open Concurrent VM

/-- Every disk of the manifest has its file, and so has every image that QEMU has open. -/
structure Intact (s : DiskWorld) : Prop where
  disks : ∀ disk ∈ s.stored.disks, s.files (diskFile disk.id) ≠ none
  opened : ∀ node ∈ s.nodes, s.files node.2 ≠ none

/-- The step does no damage: it removes no file of a disk that the manifest lists, and saves no
manifest with a disk that has no file. -/
def Harmless : DiskCall → DiskChoice → DiskWorld → Prop
  | .remove file, c, s => (c.answer (.remove file)).isOk = true →
    ∀ disk ∈ s.stored.disks, diskFile disk.id ≠ file
  | .engine (.vms (.save m)), c, s => (c.answer (.engine (.vms (.save m)))).isOk = true →
    ∀ disk ∈ m.disks, s.files (diskFile disk.id) ≠ none
  | _, _, _ => True

/-- The error says that undoing the change has failed as well. -/
def UndoFailed (r : Except Message Unit) : Prop :=
  ∃ a b, r = .error (Message.text "attach disk: " ++ a ++ "; restore manifest: " ++ b) ∨
    r = .error (Message.text "save disk removal: " ++ a ++ "; restore disk: " ++ b)

/-- The setting of an operation that is watched. -/
abbrev watching (x : Texts) : Setting DiskCall DiskCall.Reply DiskChoice (DiskWorld × Prop) :=
  Setting.alone (Perform.watch (DiskWorld.perform x) Harmless) fun _ _ _ => True

section Rules

variable {x : Texts} {s : DiskWorld} {ok : Prop}

theorem wp_call (a : DiskCall) {Q : a.Reply → DiskWorld × Prop → Prop}
    (h : ∀ c, s.accepts x c a = true → Q (c.answer a) (s.after c a, ok ∧ Harmless a c s)) :
    wp (watching x) (diskCall a) Q (s, ok) := by
  apply wp_alone_call
  intro c r t _ hp
  rw [Perform.watch] at hp
  split at hp
  · contradiction
  · rename_i r' t' hp'
    obtain ⟨haccepts, rfl, rfl⟩ := DiskWorld.perform_cases hp'
    cases hp
    exact h c haccepts

/-- A call that can do no damage. -/
theorem wp_harmless (a : DiskCall) {Q : a.Reply → DiskWorld × Prop → Prop}
    (ha : ∀ c, s.accepts x c a = true → Harmless a c s)
    (h : ∀ c, s.accepts x c a = true → Q (c.answer a) (s.after c a, ok)) :
    wp (watching x) (diskCall a) Q (s, ok) := by
  apply wp_call
  intro c hc
  rw [propext (and_iff_left (ha c hc))]
  exact h c hc

theorem harmless_engine {a : EngineCall} (ha : ∀ m, a ≠ .vms (.save m)) (c : DiskChoice)
    (s : DiskWorld) : Harmless (.engine a) c s := by
  unfold Harmless
  split
  · contradiction
  · rename_i m heq
    cases heq
    exact absurd rfl (ha m)
  · trivial

/-- A call of the engine that saves no manifest. -/
theorem wp_engine (a : EngineCall) (ha : ∀ m, a ≠ .vms (.save m))
    {Q : a.Reply → DiskWorld × Prop → Prop}
    (h : ∀ c, s.acceptsEngine x c a = true → Q (c.answer (.engine a)) (s, ok)) :
    wp (watching x) (diskCall (.engine a)) Q (s, ok) := by
  refine wp_harmless (.engine a) (fun c _ => harmless_engine ha c s) fun c hc => ?_
  rw [DiskWorld.after_engine ha]
  exact h c hc

end Rules

/-! ### What keeps the files -/

/-- The manifest and QEMU are as before, and no file has gone. -/
structure Steady (s t : DiskWorld) : Prop where
  stored : t.stored = s.stored
  nodes : t.nodes = s.nodes
  running : t.running = s.running
  files : ∀ file, s.files file ≠ none → t.files file ≠ none

theorem Steady.refl (s : DiskWorld) : Steady s s := ⟨rfl, rfl, rfl, fun _ h => h⟩

theorem Steady.trans {s t u : DiskWorld} (h : Steady s t) (h' : Steady t u) : Steady s u :=
  ⟨h'.stored.trans h.stored, h'.nodes.trans h.nodes, h'.running.trans h.running,
    fun file hf => h'.files file (h.files file hf)⟩

theorem Steady.intact {s t : DiskWorld} (h : Steady s t) (hs : Intact s) : Intact t where
  disks := by
    rw [h.stored]
    exact fun disk hd => h.files _ (hs.disks disk hd)
  opened := by
    rw [h.nodes]
    exact fun node hn => h.files _ (hs.opened node hn)

/-- The calls that take no file away and change nothing but files. -/
def keepsFiles : DiskCall → Bool
  | .rename _ _ | .remove _ | .engine _ => false
  | .command c =>
    match c with
    | .blockResize _ _ => true
    | _ => false
  | _ => true

theorem put_keeps {s : DiskWorld} {file name : String} {size : Int} (h : s.files name ≠ none) :
    s.put file (some size) name ≠ none := by
  rw [DiskWorld.put]
  by_cases hn : name = file
  · simp [hn]
  · rwa [Function.update_of_ne hn]

theorem filesAfter_keeps {a : DiskCall} (ha : keepsFiles a = true) (s : DiskWorld) (c : DiskChoice)
    {name : String} (h : s.files name ≠ none) : s.filesAfter c a name ≠ none := by
  cases a with
  | createTemp =>
    rw [DiskWorld.filesAfter]
    cases c.answer .createTemp with
    | error e => exact h
    | ok temp => exact put_keeps h
  | imgCreate file size =>
    rw [DiskWorld.filesAfter]
    split
    · exact put_keeps h
    · exact h
  | imgConvert base file =>
    rw [DiskWorld.filesAfter]
    split
    · exact put_keeps h
    · exact h
  | imgResize file size =>
    rw [DiskWorld.filesAfter]
    split
    · exact put_keeps h
    · exact h
  | command command =>
    cases command with
    | blockResize node size =>
      rw [DiskWorld.filesAfter]
      split
      · dsimp only
        split
        · simpa using h
        · exact h
      · exact h
    | _ => cases ha
  | rename old new => cases ha
  | remove file => cases ha
  | engine a => cases ha
  | _ => exact h

theorem steady_after {a : DiskCall} (ha : keepsFiles a = true) (s : DiskWorld) (c : DiskChoice) :
    Steady s (s.after c a) := by
  have hstored : s.storedAfter c a = s.stored := by
    unfold DiskWorld.storedAfter
    split
    · cases ha
    · rfl
  have hnodes : s.nodesAfter c a = s.nodes := by
    unfold DiskWorld.nodesAfter
    split
    · cases ha
    · cases ha
    · rfl
  exact ⟨hstored, hnodes, rfl, fun file h => filesAfter_keeps ha s c h⟩

theorem harmless_keeps {a : DiskCall} (ha : keepsFiles a = true) (c : DiskChoice) (s : DiskWorld) :
    Harmless a c s := by
  unfold Harmless
  split
  · cases ha
  · cases ha
  · trivial

section Keeping

variable {x : Texts} {s s0 : DiskWorld} {ok : Prop}

/-- A call that keeps the files, by what is known of its answer. -/
theorem wp_keeps (a : DiskCall) (ha : keepsFiles a = true)
    {Q : a.Reply → DiskWorld × Prop → Prop}
    (h : ∀ c t, s.accepts x c a = true → Steady s t → t = s.after c a → Q (c.answer a) (t, ok)) :
    wp (watching x) (diskCall a) Q (s, ok) :=
  wp_harmless a (fun c _ => harmless_keeps ha c s) fun c hc =>
    h c _ hc (steady_after ha s c) rfl

/-- A program that only makes such calls. -/
theorem wp_keeping {α : Type} {p : DiskProg α} (h : p.Calls fun a => keepsFiles a = true)
    (hs : Steady s0 s) : wp (watching x) p (fun _ u => u.2 = ok ∧ Steady s0 u.1) (s, ok) := by
  refine wp_of_calls (I := fun (u : DiskWorld × Prop) => u.2 = ok ∧ Steady s0 u.1) h ⟨rfl, hs⟩ ?_ ?_
  · rintro u v hu rfl
    exact hu
  · rintro ⟨u, ok⟩ a c r v ha ⟨rfl, hu⟩ - hp
    change Perform.watch (DiskWorld.perform x) Harmless a c (u, ok) = some (r, v) at hp
    rw [Perform.watch] at hp
    split at hp
    · contradiction
    · rename_i r' t' hp'
      obtain ⟨-, rfl, rfl⟩ := DiskWorld.perform_cases hp'
      cases hp
      exact ⟨trivial, propext (and_iff_left (harmless_keeps ha c u)),
        hu.trans (steady_after ha u c)⟩

theorem calls_tryAs {α : Type} {P : DiskCall → Prop} {context : String}
    {p : DiskProg (Except Message α)} (h : p.Calls P) : (tryAs context p).run.Calls P :=
  .bind h fun r => by cases r <;> exact .pure _

theorem calls_fillImage (base : Option String) (temp : String) (size : Int) :
    (fillImage base temp size).run.Calls fun a => keepsFiles a = true := by
  cases base with
  | none => exact calls_tryAs (.request rfl)
  | some base => exact .andThen (calls_tryAs (.request rfl)) fun _ => calls_tryAs (.request rfl)

theorem calls_checkBase (base : Option String) (size : Int) :
    (checkBase base size).run.Calls fun a => keepsFiles a = true := by
  cases base with
  | none => exact .pure _
  | some base =>
    refine .andThen (.request rfl) fun found => ?_
    split
    · exact .pure _
    · exact .pure _

/-- `rename` puts a file in the place of another. -/
theorem wp_rename {old new : String} {Q : Except Message Unit → DiskWorld × Prop → Prop}
    (hfail : ∀ e, Q (.error e) (s, ok))
    (hok : s.files old ≠ none →
      Q (.ok ()) ({ s with files := Function.update (s.put old none) new (s.files old) }, ok)) :
    wp (watching x) (diskCall (.rename old new)) Q (s, ok) := by
  refine wp_harmless (.rename old new) (fun _ _ => trivial) fun c hc => ?_
  rw [DiskWorld.accepts] at hc
  cases hr : c.answer (.rename old new) with
  | error e =>
    have hsame : s.after c (.rename old new) = s := by
      rw [DiskWorld.after, DiskWorld.filesAfter, hr]
      rfl
    rw [hsame]
    exact hfail e
  | ok u =>
    have hthere := granted_ok hc hr
    have hdone : s.after c (.rename old new) =
        { s with files := Function.update (s.put old none) new (s.files old) } := by
      rw [DiskWorld.after, DiskWorld.filesAfter, hr]
      rfl
    rw [hdone]
    exact hok (Option.isSome_iff_ne_none.mp hthere)

/-- `remove` takes a file away; what it does if it succeeds counts. -/
theorem wp_remove {file : String} {Q : Except Message Unit → DiskWorld × Prop → Prop}
    (hfail : ∀ e, Q (.error e) (s, ok))
    (hok : s.files file ≠ none → Q (.ok ()) ({ s with files := s.put file none },
      ok ∧ ∀ disk ∈ s.stored.disks, diskFile disk.id ≠ file)) :
    wp (watching x) (diskCall (.remove file)) Q (s, ok) := by
  refine wp_call (.remove file) fun c hc => ?_
  rw [DiskWorld.accepts] at hc
  cases hr : c.answer (.remove file) with
  | error e =>
    have hsame : s.after c (.remove file) = s := by
      rw [DiskWorld.after, DiskWorld.filesAfter, hr]
      rfl
    have hharmless : (ok ∧ Harmless (.remove file) c s) = ok := by
      refine propext (and_iff_left fun h => ?_)
      rw [hr] at h
      cases h
    rw [hsame, hharmless]
    exact hfail e
  | ok u =>
    have hthere := granted_ok hc hr
    have hdone : s.after c (.remove file) = { s with files := s.put file none } := by
      rw [DiskWorld.after, DiskWorld.filesAfter, hr]
      rfl
    have hharmless : Harmless (.remove file) c s =
        ∀ disk ∈ s.stored.disks, diskFile disk.id ≠ file := by
      refine propext ⟨fun h => h (by rw [hr]; rfl), fun h _ => h⟩
    rw [hdone, hharmless]
    exact hok (Option.isSome_iff_ne_none.mp hthere)

/-- A file that was not there before can go. -/
theorem Steady.remove {t : DiskWorld} {file : String} (h : Steady s t) (hnew : s.files file = none) :
    Steady s { t with files := t.put file none } where
  stored := h.stored
  nodes := h.nodes
  running := h.running
  files := by
    intro name hname
    have hne : name ≠ file := by
      rintro rfl
      exact hname hnew
    show t.put file none name ≠ none
    rw [DiskWorld.put, Function.update_of_ne hne]
    exact h.files name hname

/-- The file of a disk is not one that was not there before. -/
theorem Steady.not_listed {t : DiskWorld} {file : String} (h : Steady s t) (hs : Intact s)
    (hnew : s.files file = none) : ∀ disk ∈ t.stored.disks, diskFile disk.id ≠ file := by
  rw [h.stored]
  rintro disk hd rfl
  exact hs.disks disk hd hnew

/-- `CreateVMDisk` from its temporary file on. -/
theorem wp_createFrom {base : Option String} {temp dst : String} {size : Int} (hs0 : Intact s0)
    (hs : Steady s0 s) (hnew : s0.files temp = none) (hne : dst ≠ temp) :
    wp (watching x) (createFrom base temp dst size).run
      (fun r u => u.2 = ok ∧ Steady s0 u.1 ∧ (r = .ok () → u.1.files dst ≠ none)) (s, ok) := by
  refine wp_seq (P := fun r u => u.2 = ok ∧ Steady s0 u.1 ∧ (r = .ok () → u.1.files dst ≠ none))
    ?_ ?_
  · refine wp_andThen (wp_mono (wp_keeping (.request rfl) hs) ?_)
    rintro (e | r) ⟨t, _⟩ ⟨rfl, ht⟩
    · exact ⟨rfl, ht, fun h => by cases h⟩
    refine wp_andThen (wp_mono (wp_keeping (calls_fillImage base temp size) ht) ?_)
    rintro (e | r) ⟨u, _⟩ ⟨rfl, hu⟩
    · exact ⟨rfl, hu, fun h => by cases h⟩
    refine wp_andThen (wp_mono (wp_keeping (.request rfl) hu) ?_)
    rintro (e | r) ⟨v, _⟩ ⟨rfl, hv⟩
    · exact ⟨rfl, hv, fun h => by cases h⟩
    refine wp_rename (fun e => ⟨rfl, hv, fun h => by cases h⟩) fun hthere => ⟨rfl, ?_, fun _ => ?_⟩
    · refine ⟨hv.stored, hv.nodes, hv.running, fun name hname => ?_⟩
      have hold : name ≠ temp := by
        rintro rfl
        exact hname hnew
      show Function.update (v.put temp none) dst (v.files temp) name ≠ none
      by_cases hdst : name = dst
      · rwa [hdst, Function.update_self]
      · rw [Function.update_of_ne hdst, DiskWorld.put, Function.update_of_ne hold]
        exact hv.files name hname
    · show Function.update (v.put temp none) dst (v.files temp) dst ≠ none
      rwa [Function.update_self]
  · rintro r ⟨t, ok⟩ ⟨rfl, ht, hr⟩
    refine wp_seq (P := fun _ (u : DiskWorld × Prop) => u.2 = ok ∧ Steady s0 u.1 ∧
      (r = .ok () → u.1.files dst ≠ none)) ?_ fun _ u hu => hu
    refine wp_remove (fun e => ⟨rfl, ht, hr⟩) fun _ => ⟨?_, ht.remove hnew, fun hok => ?_⟩
    · exact propext (and_iff_left (ht.not_listed hs0 hnew))
    · show t.put temp none dst ≠ none
      rw [DiskWorld.put, Function.update_of_ne hne]
      exact hr hok

/-- A new image keeps the files and is there after success. -/
theorem wp_createVMDisk {base : Option String} {dst : String} {size : Int} (hs : Intact s)
    (hdst : s.files dst = none) (htemp : isTempDisk dst = false) :
    wp (watching x) (createVMDisk base dst size).run
      (fun r u => u.2 = ok ∧ Steady s u.1 ∧ (r = .ok () → u.1.files dst ≠ none)) (s, ok) := by
  refine wp_andThen ?_
  refine wp_keeps (.stat dst) rfl fun c t hc ht heq => ?_
  rw [DiskWorld.accepts] at hc
  cases hr : c.answer (.stat dst) with
  | error e => exact ⟨rfl, ht, fun h => by cases h⟩
  | ok there =>
    have hthere := granted_ok hc hr
    rw [hdst] at hthere
    obtain rfl : there = false := of_decide_eq_true hthere
    dsimp only
    rw [if_neg (by decide)]
    split
    · exact ⟨rfl, ht, fun h => by cases h⟩
    refine wp_andThen (wp_mono (wp_keeping (.request rfl) ht) ?_)
    rintro (e | r) ⟨u, _⟩ ⟨rfl, hu⟩
    · exact ⟨rfl, hu, fun h => by cases h⟩
    refine wp_andThen (wp_mono (wp_keeping (calls_checkBase base size) hu) ?_)
    rintro (e | r) ⟨v, _⟩ ⟨rfl, hv⟩
    · exact ⟨rfl, hv, fun h => by cases h⟩
    refine wp_andThen (wp_mono (wp_keeping (.request rfl) hv) ?_)
    rintro (e | r) ⟨w, _⟩ ⟨rfl, hw⟩
    · exact ⟨rfl, hw, fun h => by cases h⟩
    refine wp_andThen ?_
    refine wp_keeps .createTemp rfl fun c' t' hc' ht' heq' => ?_
    rw [DiskWorld.accepts] at hc'
    cases hr' : c'.answer .createTemp with
    | error e => exact ⟨rfl, hw.trans ht', fun h => by cases h⟩
    | ok temp =>
      have hgranted := granted_ok hc' hr'
      obtain ⟨hname, hfree⟩ := Bool.and_eq_true_iff.mp hgranted
      have hnew : s.files temp = none := by
        by_contra hold
        exact hw.files temp hold (of_decide_eq_true hfree)
      refine wp_createFrom hs (hw.trans ht') hnew ?_
      rintro rfl
      rw [htemp] at hname
      cases hname

end Keeping

/-! ### The parts of the engine -/

/-- What is claimed of an end: where undoing has not failed, the disks are intact exactly if no step
did damage. -/
def Settled (r : Except Message Unit) (u : DiskWorld × Prop) : Prop :=
  ¬ UndoFailed r → (Intact u.1 ↔ u.2)

theorem settled_of_intact {r : Except Message Unit} {s : DiskWorld} {ok : Prop} (hs : Intact s)
    (hok : ok) : Settled r (s, ok) := fun _ => ⟨fun _ => hok, fun _ => hs⟩

section Parts

variable {x : Texts} {s : DiskWorld} {ok : Prop} {nodeName : String → String} {e : Paths}

/-- A manifest is saved, or not, or the save fails after it has taken effect. -/
theorem wp_save {m : VMManifest} {Q : Except Message Unit → DiskWorld × Prop → Prop}
    (hok : Q (.ok ()) ({ s with stored := m },
      ok ∧ ∀ disk ∈ m.disks, s.files (diskFile disk.id) ≠ none))
    (hfail : ∀ err, Q (.error err) (s, ok))
    (htook : ∀ err, Q (.error err) ({ s with stored := m }, ok)) :
    wp (watching x) (onDisks nodeName (save m)).run Q (s, ok) := by
  rw [save, onDisks_bind, onDisks_query, expand_engineCall]
  refine wp_liftThen (wp_call (.engine (.vms (.save m))) fun c _ => ?_)
  cases hr : c.answer (.engine (.vms (.save m))) with
  | ok u =>
    have hsaves : c.saves m = true := by
      rw [DiskChoice.saves, hr]
      rfl
    have hdone : s.after c (.engine (.vms (.save m))) = { s with stored := m } := by
      rw [DiskWorld.after, DiskWorld.storedAfter, if_pos hsaves]
      rfl
    have hharmless : Harmless (.engine (.vms (.save m))) c s =
        ∀ disk ∈ m.disks, s.files (diskFile disk.id) ≠ none :=
      propext ⟨fun h => h (by rw [hr]; rfl), fun h _ => h⟩
    rw [hdone, hharmless]
    exact hok
  | error err =>
    have hharmless : (ok ∧ Harmless (.engine (.vms (.save m))) c s) = ok := by
      refine propext (and_iff_left fun h => ?_)
      rw [hr] at h
      cases h
    have hdone : s.after c (.engine (.vms (.save m))) =
        { s with stored := if c.saves m then m else s.stored } := rfl
    rw [hharmless, hdone]
    by_cases hsaves : c.saves m = true
    · rw [if_pos hsaves]
      exact htook err
    · rw [if_neg hsaves]
      exact hfail err

theorem wp_locked {α : Type} {l : LockName} {body : EngineM α}
    {Q : Except Message α → DiskWorld × Prop → Prop} (hfail : ∀ err, Q (.error err) (s, ok))
    (h : wp (watching x) (onDisks nodeName body).run Q (s, ok)) :
    wp (watching x) (onDisks nodeName (locked l body)).run Q (s, ok) := by
  rw [locked, onDisks_bind, onDisks_demand, expand_engineCall]
  refine wp_andThen (wp_engine (.lock l) (fun m h => by cases h) fun c _ => ?_)
  cases c.answer (.engine (.lock l)) with
  | error err => exact hfail err
  | ok u =>
    dsimp only
    rw [onDisks_bind, onDisks_query]
    refine wp_liftThen (wp_mono h ?_)
    rintro r ⟨t, ok⟩ hr
    rw [onDisks_bind, onDisks_query, expand_engineCall]
    exact wp_liftThen (wp_engine (.unlock l) (fun m h => by cases h) fun c _ => hr)

theorem wp_isRunning {α : Type} {id : String} {f : Bool → EngineM α}
    {Q : Except Message α → DiskWorld × Prop → Prop}
    (h : wp (watching x) (onDisks nodeName (f s.running)).run Q (s, ok)) :
    wp (watching x) (onDisks nodeName (isRunning e id >>= f)).run Q (s, ok) := by
  rw [onDisks_bind, isRunning, onDisks_bind, onDisks_query, expand_engineCall]
  refine wp_andThen (wp_liftThen (wp_engine (.qemu (e.runDir id) .status)
    (fun m h => by cases h) fun c hc => ?_))
  have hrunning : (c.answer (.engine (.qemu (e.runDir id) .status))).isSome = s.running :=
    of_decide_eq_true hc
  show wp _ (onDisks nodeName (f (Option.isSome _))).run Q (s, ok)
  rwa [hrunning]

theorem wp_ensureThat {α : Type} {c : Bool} {err : Message} {f : Unit → EngineM α}
    {Q : Except Message α → DiskWorld × Prop → Prop} (hfail : Q (.error err) (s, ok))
    (h : c = true → wp (watching x) (onDisks nodeName (f ())).run Q (s, ok)) :
    wp (watching x) (onDisks nodeName (ensureThat c err >>= f)).run Q (s, ok) := by
  rw [onDisks_bind]
  cases c with
  | false => exact hfail
  | true => exact h rfl

/-- `os.Remove` whose error is dropped. -/
theorem wp_ignoreRemove {id disk : String} {f : Unit → EngineM Unit}
    {Q : Except Message Unit → DiskWorld × Prop → Prop}
    (hfail : wp (watching x) (onDisks nodeName (f ())).run Q (s, ok))
    (hok : s.files (diskFile disk) ≠ none →
      wp (watching x) (onDisks nodeName (f ())).run Q
        ({ s with files := s.put (diskFile disk) none },
          ok ∧ ∀ other ∈ s.stored.disks, diskFile other.id ≠ diskFile disk)) :
    wp (watching x) (onDisks nodeName (ignore (.removeDisk id disk) >>= f)).run Q (s, ok) := by
  rw [onDisks_bind, ignore, onDisks_bind, onDisks_query, expand_engineCall, diskProgram]
  refine wp_andThen (wp_liftThen (wp_remove (fun err => ?_) fun hthere => ?_))
  · exact hfail
  · exact hok hthere

end Parts

/-! ### Adding a disk -/

/-- An attachment changes no file and no manifest; QEMU has the disk's image open at the most, and it
has not where the error is that of a disk that can be removed. -/
structure Attached (s t : DiskWorld) (file : String) (r : Except DiskError Unit) : Prop where
  stored : t.stored = s.stored
  files : t.files = s.files
  running : t.running = s.running
  nodes : ∀ node ∈ t.nodes, node ∈ s.nodes ∨ node.2 = file
  closed : ∀ err, r = .error err → err.backendOpen = false → ∀ node ∈ t.nodes, node ∈ s.nodes

section Adding

variable {x : Texts} {s : DiskWorld} {ok : Prop} {nodeName : String → String} {e : Paths}

theorem wp_dial {Q : Except Message Unit → DiskWorld × Prop → Prop} (h : ∀ r, Q r (s, ok)) :
    wp (watching x) (diskCall .dial) Q (s, ok) :=
  wp_harmless .dial (fun _ _ => trivial) fun c _ => h (c.answer .dial)

theorem wp_command (command : BlockCommand) {Q : Outcome → DiskWorld × Prop → Prop}
    (h : ∀ c : DiskChoice, Q (c.answer (.command command)) (s.after c (.command command), ok)) :
    wp (watching x) (diskCall (.command command)) Q (s, ok) :=
  wp_harmless (.command command) (fun _ _ => trivial) fun c _ => h c

theorem wp_attachDisk (disk : String) :
    wp (watching x) (attachDisk nodeName disk)
      (fun r u => u.2 = ok ∧ Attached s u.1 (diskFile disk) r) (s, ok) := by
  refine wp_seq (wp_dial (Q := fun _ u => u = (s, ok)) fun _ => rfl) ?_
  rintro (err | r) u rfl
  · exact ⟨rfl, rfl, rfl, rfl, fun node hn => .inl hn, fun _ _ _ node hn => hn⟩
  refine wp_seq (wp_command (.blockdevAdd (nodeName disk) (diskFile disk))
    (Q := fun o u => u.2 = ok ∧ u.1.stored = s.stored ∧ u.1.files = s.files ∧
      u.1.running = s.running ∧
      (u.1.nodes = s.nodes ∨ u.1.nodes = (nodeName disk, diskFile disk) :: s.nodes) ∧
      ((∃ cls desc, o = .rejected cls desc) → u.1.nodes = s.nodes)) fun c => ?_) ?_
  · refine ⟨rfl, rfl, rfl, rfl, ?_, ?_⟩
    · show (if _ then _ else _) = _ ∨ (if _ then _ else _) = _
      split
      · exact .inr rfl
      · exact .inl rfl
    · rintro ⟨cls, desc, ho⟩
      have hexec : c.executes (.blockdevAdd (nodeName disk) (diskFile disk)) = false := by
        rw [DiskChoice.executes, ho]
      show (if _ then _ else _) = _
      rw [if_neg (by rw [hexec]; decide)]
  rintro o ⟨t, ok⟩ ⟨rfl, hstored, hfiles, hrunning, hnodes, hrejected⟩
  have hopen : ∀ node ∈ t.nodes, node ∈ s.nodes ∨ node.2 = diskFile disk := by
    intro node hn
    rcases hnodes with hnodes | hnodes
    · exact .inl (hnodes ▸ hn)
    · rw [hnodes] at hn
      rcases List.mem_cons.mp hn with rfl | hn
      · exact .inr rfl
      · exact .inl hn
  cases o with
  | lost text => exact ⟨rfl, hstored, hfiles, hrunning, hopen, fun _ he hb => by cases he; cases hb⟩
  | rejected cls desc =>
    exact ⟨rfl, hstored, hfiles, hrunning, hopen,
      fun _ _ _ node hn => hrejected ⟨cls, desc, rfl⟩ ▸ hn⟩
  | ok =>
    refine wp_seq (wp_command (.deviceAdd disk (nodeName disk)) (Q := fun _ u => u = (t, _))
      fun c => rfl) ?_
    rintro o u rfl
    cases o with
    | ok => exact ⟨rfl, hstored, hfiles, hrunning, hopen, fun _ he => by cases he⟩
    | lost text =>
      exact ⟨rfl, hstored, hfiles, hrunning, hopen, fun _ he hb => by cases he; cases hb⟩
    | rejected cls desc =>
      refine wp_seq (wp_command (.blockdevDel (nodeName disk)) (Q := fun o u => u.2 = ok ∧
        u.1.stored = t.stored ∧ u.1.files = t.files ∧ u.1.running = t.running ∧
        (∀ node ∈ u.1.nodes, node ∈ t.nodes) ∧
        (o = .ok → ∀ node ∈ u.1.nodes, node.1 ≠ nodeName disk)) fun c => ?_) ?_
      · have hafter : (t.after c (.command (.blockdevDel (nodeName disk)))).nodes =
            if c.executes (.blockdevDel (nodeName disk)) then
              t.nodes.filter (·.1 ≠ nodeName disk)
            else t.nodes := rfl
        refine ⟨rfl, rfl, rfl, rfl, ?_, ?_⟩
        · show ∀ node ∈ (t.after c _).nodes, _
          rw [hafter]
          split
          · exact fun node hn => (List.mem_filter.mp hn).1
          · exact fun node hn => hn
        · intro ho
          have hexec : c.executes (.blockdevDel (nodeName disk)) = true := by
            rw [DiskChoice.executes, ho]
          show ∀ node ∈ (t.after c _).nodes, _
          rw [hafter, if_pos hexec]
          intro node hn
          simpa using (List.mem_filter.mp hn).2
      · rintro o ⟨v, ok⟩ ⟨rfl, hvstored, hvfiles, hvrunning, hvnodes, hclosed⟩
        have hvopen : ∀ node ∈ v.nodes, node ∈ s.nodes ∨ node.2 = diskFile disk :=
          fun node hn => hopen node (hvnodes node hn)
        cases o with
        | ok =>
          refine ⟨rfl, hvstored.trans hstored, hvfiles.trans hfiles, hvrunning.trans hrunning, hvopen,
            fun _ _ _ node hn => ?_⟩
          have hmem := hvnodes node hn
          rcases hnodes with hnodes | hnodes
          · exact hnodes ▸ hmem
          · rw [hnodes] at hmem
            rcases List.mem_cons.mp hmem with rfl | hmem
            · exact absurd rfl (hclosed rfl _ hn)
            · exact hmem
        | rejected cls desc =>
          exact ⟨rfl, hvstored.trans hstored, hvfiles.trans hfiles, hvrunning.trans hrunning, hvopen,
            fun _ he hb => by cases he; cases hb⟩
        | lost text =>
          exact ⟨rfl, hvstored.trans hstored, hvfiles.trans hfiles, hvrunning.trans hrunning, hvopen,
            fun _ he hb => by cases he; cases hb⟩

/-- A new disk's file is none of the temporary ones. -/
theorem uuidText_temp {id : String} (h : uuidText id = true) : isTempDisk (diskFile id) = false := by
  obtain ⟨hlen, hall⟩ := Bool.and_eq_true_iff.mp h
  have hlist : (diskFile id).toList = id.toList ++ ".qcow2".toList := by
    rw [diskFile, String.toList_append]
  rw [isTempDisk, hlist]
  cases hid : id.toList with
  | nil =>
    rw [hid] at hlen
    simp at hlen
  | cons c cs =>
    rw [hid, List.all_cons] at hall
    have hc : (isHexDigit c || c = '-') = true := (Bool.and_eq_true_iff.mp hall).1
    have hne : ('.' == c) = false := by
      rw [beq_eq_false_iff_ne]
      rintro rfl
      revert hc
      decide
    have hdot : ".vm-disk-".toList = '.' :: "vm-disk-".toList := by decide
    rw [hdot, List.cons_append, List.isPrefixOf_cons_cons, hne, Bool.false_and, Bool.false_and]

/-- A new file that is not in the manifest is removed again. -/
theorem wp_removeNew {t : DiskWorld} {id disk : String} {err : Message} (hs : Intact s)
    (ht : Steady s t) (hnew : s.files (diskFile disk) = none) :
    wp (watching x) (onDisks nodeName (ignore (.removeDisk id disk) >>= fun _ => fail err)).run
      Settled (t, True) := by
  refine wp_ignoreRemove (settled_of_intact (ht.intact hs) trivial) fun _ => ?_
  exact settled_of_intact ((ht.remove hnew).intact hs) ⟨trivial, ht.not_listed hs hnew⟩

/-- The new disk is taken out of the manifest again, and its file is removed unless QEMU may have it
open. -/
theorem wp_undoDisk {t u : DiskWorld} {disk : String} {err : DiskError} (hs : Intact s)
    (hnew : s.files (diskFile disk) = none)
    (hfiles : ∀ file, s.files file ≠ none → t.files file ≠ none)
    (hdisk : t.files (diskFile disk) ≠ none) (hnodes : t.nodes = s.nodes)
    (hu : Attached t u (diskFile disk) (.error err)) :
    wp (watching x) (onDisks nodeName (undoDisk s.stored disk err)).run Settled (u, True) := by
  have hkept : ∀ other ∈ s.stored.disks, u.files (diskFile other.id) ≠ none := by
    intro other ho
    rw [hu.files]
    exact hfiles _ (hs.disks other ho)
  have hne : ∀ other ∈ s.stored.disks, diskFile other.id ≠ diskFile disk := by
    intro other ho heq
    exact hs.disks other ho (heq ▸ hnew)
  have hopened : ∀ node ∈ u.nodes, u.files node.2 ≠ none := by
    intro node hn
    rw [hu.files]
    rcases hu.nodes node hn with hn | hn
    · rw [hnodes] at hn
      exact hfiles _ (hs.opened node hn)
    · rwa [hn]
  rw [undoDisk, onDisks_bind, onDisks_query]
  refine wp_liftThen (wp_save ?_ (fun saveErr => ?_) fun saveErr => ?_)
  · show wp _ (onDisks nodeName (onlyThen (!err.backendOpen) _ >>= fun _ => fail err.text)).run
      Settled _
    cases hopen : err.backendOpen with
    | true =>
      have hintact : Intact { u with stored := s.stored } := ⟨hkept, hopened⟩
      exact settled_of_intact hintact ⟨trivial, hkept⟩
    | false =>
      refine wp_ignoreRemove ?_ fun _ => ?_
      · have hintact : Intact { u with stored := s.stored } := ⟨hkept, hopened⟩
        exact settled_of_intact hintact ⟨trivial, hkept⟩
      · refine settled_of_intact ⟨fun other ho => ?_, fun node hn => ?_⟩ ⟨⟨trivial, hkept⟩, hne⟩
        · show u.put (diskFile disk) none (diskFile other.id) ≠ none
          rw [DiskWorld.put, Function.update_of_ne (hne other ho)]
          exact hkept other ho
        · -- QEMU has nothing open that it had not before
          have hold : node ∈ s.nodes := hnodes ▸ hu.closed err rfl hopen node hn
          have hfile : node.2 ≠ diskFile disk := by
            intro heq
            exact hs.opened node hold (heq ▸ hnew)
          show u.put (diskFile disk) none node.2 ≠ none
          rw [DiskWorld.put, Function.update_of_ne hfile]
          exact hopened node hn
  · exact fun h => absurd ⟨_, _, .inl rfl⟩ h
  · exact fun h => absurd ⟨_, _, .inl rfl⟩ h

theorem wp_addDiskFrom {base : Option String} {params : DiskParams} {id : String} (hs : Intact s)
    (hid : uuidText id = true) (hnew : s.files (diskFile id) = none) :
    wp (watching x) (onDisks nodeName (addDiskFrom e s.stored base params id)).run Settled
      (s, True) := by
  rw [addDiskFrom, onDisks_bind, onDisks_query, expand_engineCall, diskProgram]
  refine wp_liftThen (wp_mono (wp_createVMDisk hs hnew (uuidText_temp hid)) ?_)
  rintro (err | r) ⟨t, ok⟩ ⟨rfl, ht, hthere⟩
  · exact wp_removeNew hs ht hnew
  have hdisk : t.files (diskFile id) ≠ none := hthere rfl
  have hold : ∀ disk ∈ s.stored.disks, t.files (diskFile disk.id) ≠ none := fun disk hd =>
    ht.files _ (hs.disks disk hd)
  let disk : VMDisk := { id := id, name := trimSpace params.name, sizeGiB := params.sizeGiB }
  let m : VMManifest := { s.stored with disks := s.stored.disks ++ [disk] }
  have hall : ∀ other ∈ m.disks, t.files (diskFile other.id) ≠ none := by
    intro other ho
    rcases List.mem_append.mp ho with ho | ho
    · exact hold other ho
    · rw [List.mem_singleton.mp ho]
      exact hdisk
  have hopened : ∀ node ∈ t.nodes, t.files node.2 ≠ none := (ht.intact hs).opened
  have hlisted : disk ∈ m.disks := List.mem_append_right _ (List.mem_singleton_self disk)
  show wp _ (onDisks nodeName (query (save m).run >>= _)).run Settled (t, True)
  rw [onDisks_bind, onDisks_query]
  refine wp_liftThen (wp_save ?_ (fun err => ?_) fun err => ?_)
  · -- the manifest lists the disk
    rw [propext (and_iff_left hall)]
    refine wp_isRunning ?_
    split
    · rw [onDisks_bind, onDisks_query, expand_engineCall, diskProgram]
      refine wp_liftThen (wp_mono (wp_attachDisk id) ?_)
      rintro (err | r) ⟨u, ok⟩ ⟨rfl, hu⟩
      · exact wp_undoDisk (t := { t with stored := m }) hs hnew ht.files hdisk ht.nodes hu
      · refine settled_of_intact ⟨fun other ho => ?_, fun node hn => ?_⟩ trivial
        · rw [hu.stored] at ho
          rw [hu.files]
          exact hall other ho
        · rw [hu.files]
          rcases hu.nodes node hn with hn | hn
          · exact hopened node hn
          · rwa [hn]
    · have hintact : Intact { t with stored := m } := ⟨hall, hopened⟩
      exact settled_of_intact hintact trivial
  · exact wp_removeNew hs ht hnew
  · -- the manifest lists the disk although saving it has failed
    refine wp_ignoreRemove ?_ fun _ => ?_
    · have hintact : Intact { t with stored := m } := ⟨hall, hopened⟩
      exact settled_of_intact hintact trivial
    · intro _
      constructor
      · intro hintact
        refine absurd ?_ (hintact.disks disk hlisted)
        show t.put (diskFile id) none (diskFile id) = none
        rw [DiskWorld.put, Function.update_self]
      · rintro ⟨-, hne⟩
        exact absurd rfl (hne disk hlisted)

/-- The other operations end without having changed anything where they are refused. -/
theorem wp_resolveVM {α : Type} {ref : String} {f : VMManifest → EngineM α}
    {Q : Except Message α → DiskWorld × Prop → Prop} (hfail : ∀ err, Q (.error err) (s, ok))
    (h : ∀ m, wp (watching x) (onDisks nodeName (f m)).run Q (s, ok)) :
    wp (watching x) (onDisks nodeName (resolveVM ref >>= f)).run Q (s, ok) := by
  rw [onDisks_bind, resolveVM, onDisks_demand, expand_engineCall]
  refine wp_andThen (wp_engine (.vms (.resolve ref)) (fun m h => by cases h) fun c _ => ?_)
  cases c.answer (.engine (.vms (.resolve ref))) with
  | error err => exact hfail err
  | ok m => exact h m

theorem wp_loadVM {α : Type} {id : String} {f : VMManifest → EngineM α}
    {Q : Except Message α → DiskWorld × Prop → Prop} (hfail : ∀ err, Q (.error err) (s, ok))
    (h : wp (watching x) (onDisks nodeName (f s.stored)).run Q (s, ok)) :
    wp (watching x) (onDisks nodeName (loadVM id >>= f)).run Q (s, ok) := by
  rw [onDisks_bind, loadVM, onDisks_demand, expand_engineCall]
  refine wp_andThen (wp_engine (.vms (.load id)) (fun m h => by cases h) fun c hc => ?_)
  rw [DiskWorld.acceptsEngine] at hc
  cases hr : c.answer (.engine (.vms (.load id))) with
  | error err => exact hfail err
  | ok m =>
    have hload := granted_ok hc hr
    obtain rfl := of_decide_eq_true (Bool.and_eq_true_iff.mp hload).1
    exact h

theorem wp_addDataDisk {params : DiskParams} (hs : Intact s) :
    wp (watching x) (onDisks nodeName (addDataDisk x e s.stored params)).run Settled (s, True) := by
  have hrefused : ∀ err, Settled (.error err) (s, True) := fun err => settled_of_intact hs trivial
  rw [addDataDisk]
  refine wp_ensureThat (hrefused _) fun _ => ?_
  rw [onDisks_bind, onDisks_query, expand_engineCall]
  refine wp_liftThen (wp_engine .newString (fun m h => by cases h) fun c hc => ?_)
  obtain ⟨hid, hfresh⟩ := Bool.and_eq_true_iff.mp hc
  have hnew := (of_decide_eq_true hfresh).1
  generalize c.answer (.engine .newString) = id at hid hnew
  show wp _ (onDisks nodeName (if params.imageID = "" then _ else _)).run Settled (s, True)
  split
  · exact wp_addDiskFrom hs hid hnew
  · refine wp_locked hrefused ?_
    have hmedia : wp (watching x) (onDisks nodeName (getMedia x params.imageID)).run
        (fun _ u => u = (s, True)) (s, True) := by
      rw [getMedia]
      cases x.uuid params.imageID with
      | error err => exact rfl
      | ok u =>
        dsimp only
        rw [onDisks_demand, expand_engineCall]
        exact wp_engine (.getMedia params.imageID) (fun m h => by cases h) fun c _ => rfl
    rw [onDisks_bind]
    refine wp_andThen (wp_mono hmedia ?_)
    rintro (err | media) u rfl
    · exact hrefused err
    · exact wp_ensureThat (hrefused _) fun _ => wp_addDiskFrom hs hid hnew

end Adding

/-! ### Growing and removing a disk -/

section Changing

variable {x : Texts} {s : DiskWorld} {nodeName : String → String} {e : Paths}

theorem calls_growDiskLive (file : String) (size : Int) :
    (growDiskLive file size).run.Calls fun a => keepsFiles a = true := by
  refine .andThen (.request rfl) fun _ => .andThen (.request rfl) fun devices => ?_
  cases devices.find? (·.file = file) with
  | none => exact .pure _
  | some device =>
    dsimp only
    split
    · exact .pure _
    · exact .bind (.request rfl) fun o => by cases o <;> exact .pure _

theorem calls_resizeVMDisk (file : String) (size : Int) :
    (resizeVMDisk file size).run.Calls fun a => keepsFiles a = true := by
  refine .andThen (calls_tryAs (.request rfl)) fun old => ?_
  split
  · exact .pure _
  · exact calls_tryAs (.request rfl)

/-- The ids of the disks do not change by a growth. -/
theorem growFirst_ids (id : String) (size : Int) (disks : List VMDisk) :
    (growFirst id size disks).map (·.id) = disks.map (·.id) := by
  induction disks with
  | nil => rfl
  | cons disk disks ih =>
    rw [growFirst]
    split
    · rfl
    · rw [List.map_cons, List.map_cons, ih]

theorem wp_growDisk {disk : VMDisk} {size : Int} (hs : Intact s) :
    wp (watching x) (onDisks nodeName (growDisk e s.stored disk size)).run Settled (s, True) := by
  rw [growDisk]
  refine wp_ensureThat (settled_of_intact hs trivial) fun _ => ?_
  rw [onDisks_bind, resizeDisk]
  refine wp_andThen (wp_isRunning ?_)
  rw [perform, onDisks_demand, expand_engineCall, diskProgram]
  have hresize : wp (watching x) (if s.running = true then
      (growDiskLive (diskFile disk.id) size).run else (resizeVMDisk (diskFile disk.id) size).run)
      (fun _ u => u.2 = True ∧ Steady s u.1) (s, True) := by
    split
    · exact wp_keeping (calls_growDiskLive _ _) (Steady.refl s)
    · exact wp_keeping (calls_resizeVMDisk _ _) (Steady.refl s)
  refine wp_mono hresize ?_
  rintro (err | r) ⟨t, ok⟩ ⟨rfl, ht⟩
  · exact settled_of_intact (ht.intact hs) trivial
  · let m : VMManifest := { s.stored with disks := growFirst disk.id size s.stored.disks }
    have hall : ∀ other ∈ m.disks, t.files (diskFile other.id) ≠ none := by
      intro other ho
      have hid : other.id ∈ s.stored.disks.map (·.id) := by
        rw [← growFirst_ids disk.id size]
        exact List.mem_map_of_mem ho
      obtain ⟨old, hold, heq⟩ := List.mem_map.mp hid
      rw [← heq]
      exact ht.files _ (hs.disks old hold)
    have hsaved : Intact { t with stored := m } := ⟨hall, (ht.intact hs).opened⟩
    exact wp_save (settled_of_intact hsaved ⟨trivial, hall⟩)
      (fun err => settled_of_intact (ht.intact hs) trivial)
      fun err => settled_of_intact hsaved trivial

/-- A file that is set aside has no disk's name. -/
theorem diskFile_ne_aside (disk other : String) : diskFile other ≠ diskFile disk ++ ".removed" := by
  intro h
  have hlast := congrArg (fun s : String => s.toList.getLast?) h
  simp only [diskFile, String.toList_append] at hlast
  revert hlast
  have h2 : ".qcow2".toList = ".qcow".toList ++ ['2'] := by decide
  have hd : ".removed".toList = ".remove".toList ++ ['d'] := by decide
  rw [h2, hd, ← List.append_assoc, ← List.append_assoc, List.getLast?_concat, List.getLast?_concat]
  decide

/-- The directory with a disk set aside. -/
def aside (s : DiskWorld) (file : String) : DiskWorld :=
  { s with files := Function.update (s.put file none) (file ++ ".removed") (s.files file) }

theorem aside_files {disk other : String} (hne : diskFile other ≠ diskFile disk) :
    (aside s (diskFile disk)).files (diskFile other) = s.files (diskFile other) := by
  show Function.update _ _ _ _ = _
  rw [Function.update_of_ne (diskFile_ne_aside disk other), DiskWorld.put, Function.update_of_ne hne]

/-- The disk that was set aside is back, and so are all the others. -/
theorem brought_back {disk other : String} (hthere : s.files (diskFile disk) ≠ none)
    (h : s.files (diskFile other) ≠ none) :
    Function.update ((aside s (diskFile disk)).put (diskFile disk ++ ".removed") none) (diskFile disk)
      ((aside s (diskFile disk)).files (diskFile disk ++ ".removed")) (diskFile other) ≠ none := by
  have hback : (aside s (diskFile disk)).files (diskFile disk ++ ".removed") =
      s.files (diskFile disk) := Function.update_self _ _ _
  by_cases hne : diskFile other = diskFile disk
  · rwa [hne, Function.update_self, hback]
  · rw [Function.update_of_ne hne, DiskWorld.put,
      Function.update_of_ne (diskFile_ne_aside disk other), aside_files hne]
    exact h

/-- The disk that was set aside is brought back. -/
theorem wp_bringBack {id disk : String} {m : VMManifest} {f : Except Message Unit → EngineM Unit}
    (hs : Intact s) (hnodes : s.nodes = []) (hthere : s.files (diskFile disk) ≠ none)
    (hm : ∀ other ∈ m.disks, other ∈ s.stored.disks)
    (hfail : ∀ err, wp (watching x) (onDisks nodeName (f (.error err))).run Settled
      ({ aside s (diskFile disk) with stored := m }, True))
    (hok : ∀ t, Intact t → wp (watching x) (onDisks nodeName (f (.ok ()))).run Settled (t, True)) :
    wp (watching x)
      (onDisks nodeName (query (engineCall (.step (.bringDiskBack id disk))) >>= f)).run Settled
      ({ aside s (diskFile disk) with stored := m }, True) := by
  rw [onDisks_bind, onDisks_query, expand_engineCall, diskProgram]
  refine wp_liftThen (wp_rename hfail fun _ => hok _ ⟨fun other ho => ?_, fun node hn => ?_⟩)
  · exact brought_back hthere (hs.disks other (hm other ho))
  · exact absurd (hnodes ▸ hn) List.not_mem_nil

theorem wp_removeDataDisk {disk : VMDisk} (hs : Intact s)
    (hstopped : s.running = false → s.nodes = []) :
    wp (watching x) (onDisks nodeName (removeDataDisk e s.stored disk)).run Settled (s, True) := by
  have hrefused : ∀ err, Settled (.error err) (s, True) := fun err => settled_of_intact hs trivial
  rw [removeDataDisk]
  refine wp_isRunning (wp_ensureThat (hrefused _) fun hrunning => ?_)
  have hnodes : s.nodes = [] := hstopped (by simpa using hrunning)
  have hopened : ∀ f : String → Option Int, ∀ node ∈ s.nodes, f node.2 ≠ none := by
    rw [hnodes]
    exact fun f node hn => absurd hn List.not_mem_nil
  rw [onDisks_bind, perform, onDisks_demand, expand_engineCall, diskProgram]
  refine wp_andThen (wp_rename hrefused fun hthere => ?_)
  let removed : VMManifest := { s.stored with
    disks := s.stored.disks.eraseP (·.id = disk.id)
    bootOrder := s.stored.bootOrder.filter (· ≠ "disk:" ++ disk.id) }
  have hfewer : ∀ other ∈ removed.disks, other ∈ s.stored.disks := fun other ho =>
    List.mem_of_mem_eraseP ho
  show wp _ (onDisks nodeName (query (save removed).run >>= _)).run Settled
    (aside s (diskFile disk.id), True)
  rw [onDisks_bind, onDisks_query]
  refine wp_liftThen (wp_save ?_ (fun err => ?_) fun err => ?_)
  rotate_left
  · exact wp_bringBack (m := s.stored) hs hnodes hthere (fun other ho => ho)
      (fun restoreErr h => absurd ⟨_, _, .inr rfl⟩ h) fun t ht => settled_of_intact ht trivial
  · exact wp_bringBack hs hnodes hthere hfewer
      (fun restoreErr h => absurd ⟨_, _, .inr rfl⟩ h) fun t ht => settled_of_intact ht trivial
  rw [perform, onDisks_demand, expand_engineCall, diskProgram]
  have hne : ∀ other ∈ removed.disks, diskFile other.id ≠ diskFile disk.id ++ ".removed" :=
    fun other _ => diskFile_ne_aside disk.id other.id
  refine wp_remove (fun err _ => ?_) fun _ _ => ?_
  · exact ⟨fun h => ⟨trivial, h.disks⟩, fun h => ⟨h.2, hopened _⟩⟩
  · have hput : ∀ other ∈ removed.disks,
        (aside s (diskFile disk.id)).put (diskFile disk.id ++ ".removed") none (diskFile other.id) =
          (aside s (diskFile disk.id)).files (diskFile other.id) := fun other ho => by
      rw [DiskWorld.put, Function.update_of_ne (hne other ho)]
    constructor
    · intro h
      refine ⟨⟨trivial, fun other ho => ?_⟩, hne⟩
      rw [← hput other ho]
      exact h.disks other ho
    · rintro ⟨⟨-, h⟩, -⟩
      refine ⟨fun other ho => ?_, hopened _⟩
      show (aside s (diskFile disk.id)).put _ none (diskFile other.id) ≠ none
      rw [hput other ho]
      exact h other ho

theorem wp_manageDisk {ref action : String} {params : DiskParams} (hs : Intact s)
    (hstopped : s.running = false → s.nodes = []) :
    wp (watching x) (onDisks nodeName (manageDisk x e ref action params)).run Settled (s, True) := by
  have hrefused : ∀ err, Settled (.error err) (s, True) := fun err => settled_of_intact hs trivial
  rw [manageDisk]
  refine wp_resolveVM hrefused fun m => wp_locked hrefused (wp_loadVM hrefused ?_)
  split
  · exact wp_addDataDisk hs
  · cases s.stored.disks.find? (·.id = params.id) with
    | none => exact hrefused _
    | some disk =>
      dsimp only
      cases x.uuid disk.id with
      | error err => exact hrefused _
      | ok u =>
        dsimp only
        split
        · exact wp_growDisk hs
        · split
          · exact wp_removeDataDisk hs hstopped
          · exact hrefused _

end Changing

/-- A stopped machine without disks. -/
def diskless : DiskWorld where
  stored := { id := "vm", name := "lab" }
  files _ := none
  running := false

/-- A new disk is made, and the manifest is saved as `saved` says. -/
def adding (saved : Except String Unit) : DiskChoice where
  answer
    | .engine (.vms (.resolve _)) | .engine (.vms (.load _)) => .ok { id := "vm", name := "lab" }
    | .engine (.vms (.save _)) => saved
    | .engine (.lock _) => .ok ()
    | .engine (.qemu _ .status) => none
    | .engine .newString => "00000000-0000-4000-8000-000000000001"
    | .stat _ => .ok false
    | .createTemp => .ok ".vm-disk-1.qcow2"
    | .lookPath | .mkdirAll | .closeTemp _ | .imgCreate _ _ | .chmod _ | .rename _ _ => .ok ()
    | .remove file => if file = ".vm-disk-1.qcow2" then .error "no such file" else .ok ()
    | c => c.failure
  took := true

def diskTexts : Texts where
  cidr _ := true
  uuid _ := .ok ()
  mac s := s
  unicastMAC _ := none
  manifest := { parse := fun _ => .error "", valid := fun _ => true }

end Maco.Engine.DiskChanges
