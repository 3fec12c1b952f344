import Maco.Engine.Interfaces
import Maco.Engine.World
import Mathlib.Data.List.Nodup
import Mathlib.Data.List.Sort
import Mathlib.Data.List.TakeWhile
import Mathlib.Logic.Function.Basic

/-! Snapshots: what `CreateSnapshot`, `RestoreSnapshot` and `DeleteSnapshot` do to the disks of a
stopped machine.  `qemu-img` is run on one disk after the other, and each of its runs can fail; the
theorem says for which machines an error leaves every disk as it was. -/

namespace Maco.Engine.Snapshots

open Concurrent VM

/-- An entry of `os.ReadDir`. -/
structure DirEntry where
  name : String
  isDir : Bool := false
  deriving DecidableEq

/-- What `os.ReadDir` gives: the names in a directory are distinct. -/
structure Listing where
  entries : List DirEntry
  distinct : (entries.map (·.name)).Nodup

/-- The flags `-c`, `-a` and `-d` of `qemu-img snapshot`. -/
inductive Flag where
  | create
  | apply
  | delete
  deriving DecidableEq

/-- The calls of the engine, the reading of a disk directory, `exec.LookPath` and `qemu-img snapshot`;
`monitor` is all that is done through QEMU for a running machine. -/
inductive SnapshotCall where
  | engine (c : EngineCall)
  | readDir (id : String)
  | lookPath
  | qemuImg (flag : Flag) (tag path : String)
  | monitor (flag : Flag) (tag : String) (paths : List String)

@[reducible] def SnapshotCall.Reply : SnapshotCall → Type
  | .engine c => c.Reply
  | .readDir _ => Except Message Listing
  | _ => Except Message Unit

abbrev SnapshotProg := Prog SnapshotCall SnapshotCall.Reply

abbrev SnapshotM := ExceptT Message SnapshotProg

def snapshotCall (c : SnapshotCall) : SnapshotProg c.Reply := .request c

/-- A call whose error is put behind a text. -/
def tryAs {α : Type} (context : String) (p : SnapshotProg (Except Message α)) : SnapshotM α :=
  ExceptT.mk do
    match ← p with
    | .ok x => return .ok x
    | .error e => return .error (Message.text context ++ e)

/-- `filepath.Join` for a clean directory and the name of an entry. -/
def join (dir name : String) : String := dir ++ "/" ++ name

/-- The images of a directory, with the boot disk first. -/
def diskPaths (dir : String) (entries : List DirEntry) : List String :=
  let disks := entries.filter fun entry => !entry.isDir && isDisk entry.name
  let primary := if disks.any (·.name = "disk.qcow2") then [join dir "disk.qcow2"] else []
  let data := (disks.filter (·.name ≠ "disk.qcow2")).map (join dir ·.name)
  primary ++ data.insertionSort (· ≤ ·)

theorem join_inj {dir a b : String} : join dir a = join dir b ↔ a = b :=
  String.append_right_inj _

theorem diskPaths_nodup (dir : String) (listing : Listing) : (diskPaths dir listing.entries).Nodup := by
  obtain ⟨entries, hdistinct⟩ := listing
  unfold diskPaths
  dsimp only
  have hdata : ((((entries.filter fun entry => !entry.isDir && isDisk entry.name).filter
      (·.name ≠ "disk.qcow2")).map (·.name)).map (join dir)).Nodup := by
    refine List.Nodup.map (fun _ _ => join_inj.mp) (hdistinct.sublist ?_)
    exact (List.filter_sublist.trans List.filter_sublist).map _
  rw [List.map_map] at hdata
  refine List.Nodup.append ?_ ((List.perm_insertionSort _ _).nodup_iff.mpr hdata) ?_
  · split
    · exact List.nodup_singleton _
    · exact List.nodup_nil
  · intro path hprimary hpath
    obtain ⟨entry, hentry, rfl⟩ := List.mem_map.mp ((List.mem_insertionSort _).mp hpath)
    have hname := (List.mem_filter.mp hentry).2
    split at hprimary
    · have hjoin := join_inj.mp (List.mem_singleton.mp hprimary)
      simp [hjoin] at hname
    · contradiction

def vmDiskPaths (dir : String) (entries : List DirEntry) : Except Message (List String) :=
  if diskPaths dir entries = [] then .error "vm has no disks to snapshot"
  else .ok (diskPaths dir entries)

/-- The run of `qemu-img` on one disk. -/
def snapshotDisk (flag : Flag) (tag path : String) : SnapshotM Unit :=
  tryAs ("snapshot " ++ path ++ ": ") (snapshotCall (.qemuImg flag tag path))

def offlineSnapshot (flag : Flag) (tag : String) (paths : List String) : SnapshotM Unit := do
  ExceptT.mk (snapshotCall .lookPath)
  paths.forM (snapshotDisk flag tag)

def flagOf (action : String) : Flag :=
  if action = "create" then .create else if action = "restore" then .apply else .delete

/-- What the three operations do under the lock of the machine; `diskDir` is `VMDiskDir`. -/
def snapshotDisks (e : Paths) (diskDir : String → String) (id action tag : String) :
    SnapshotM Unit := do
  let listing ← tryAs "read vm disks: " (snapshotCall (.readDir id))
  let paths ← ExceptT.mk (pure (vmDiskPaths (diskDir id) listing.entries))
  let pid ← ExceptT.lift (snapshotCall (.engine (.qemu (e.runDir id) .status)))
  if pid.isSome then ExceptT.mk (snapshotCall (.monitor (flagOf action) tag paths))
  else offlineSnapshot (flagOf action) tag paths

/-- What stands for each call of the engine. -/
def snapshotProgram (e : Paths) (diskDir : String → String) : (c : EngineCall) → SnapshotProg c.Reply
  | .step (.snapshot id action tag) => (snapshotDisks e diskDir id action tag).run
  | c => snapshotCall (.engine c)

/-- An operation of the engine down to the runs of `qemu-img`. -/
def onImages (e : Paths) (diskDir : String → String) {α : Type} (p : EngineM α) : SnapshotM α :=
  ExceptT.mk (p.run.expand (snapshotProgram e diskDir))

/-! ### Images -/

/-- An image with its active contents and its snapshots, the oldest first. -/
structure Image (C : Type) where
  active : C
  snapshots : List (String × C) := []

namespace Image

variable {C : Type} (image : Image C)

def tags : List String := image.snapshots.map (·.1)

/-- `qemu-img snapshot`; it fails where there is no snapshot of the name to go back to or to
delete. -/
def perform (flag : Flag) (tag : String) : Option (Image C) :=
  match flag with
  | .create => some { image with snapshots := image.snapshots ++ [(tag, image.active)] }
  | .apply => (image.snapshots.lookup tag).map fun contents => { image with active := contents }
  | .delete =>
    if tag ∈ image.tags then
      some { image with snapshots := image.snapshots.eraseP (·.1 = tag) }
    else none

/-- The active contents are the same, and there are snapshots of the same names. -/
def Same (image other : Image C) : Prop :=
  other.active = image.active ∧ ∀ tag, tag ∈ other.tags ↔ tag ∈ image.tags

/-- The image would not be the same afterwards: a new name, other contents, the only snapshot of
its name. -/
def Touched (flag : Flag) (tag : String) : Prop :=
  match flag with
  | .create => tag ∉ image.tags
  | .apply => image.snapshots.lookup tag ≠ some image.active
  | .delete => image.tags.count tag = 1

end Image
namespace Image

variable {C : Type} {image other : Image C} {flag : Flag} {tag : String}

theorem Same.refl (image : Image C) : image.Same image := ⟨rfl, fun _ => Iff.rfl⟩

theorem same_create (h : image.perform .create tag = some other) :
    image.Same other ↔ tag ∈ image.tags := by
  cases h
  constructor
  · intro h
    exact (h.2 tag).mp (by simp [tags])
  · intro h
    refine ⟨rfl, fun t => ?_⟩
    have hmem : t ∈ image.tags ∨ t = tag ↔ t ∈ image.tags := by
      constructor
      · rintro (ht | rfl)
        · exact ht
        · exact h
      · exact .inl
    simpa [tags] using hmem

theorem same_apply (h : image.perform .apply tag = some other) :
    image.Same other ↔ image.snapshots.lookup tag = some image.active := by
  obtain ⟨contents, hcontents, rfl⟩ := Option.map_eq_some_iff.mp h
  rw [hcontents, Option.some.injEq]
  exact ⟨fun h => h.1, fun h => ⟨h, fun _ => Iff.rfl⟩⟩

/-- The names after a deletion. -/
theorem tags_delete (h : image.perform .delete tag = some other) :
    tag ∈ image.tags ∧ other.active = image.active ∧ other.tags = image.tags.erase tag := by
  rw [perform] at h
  split at h
  · rename_i hmem
    cases h
    refine ⟨hmem, rfl, ?_⟩
    rw [tags, tags, List.erase_eq_eraseP', List.eraseP_map]
    rfl
  · contradiction

theorem same_delete (h : image.perform .delete tag = some other) :
    image.Same other ↔ image.tags.count tag ≠ 1 := by
  obtain ⟨hmem, hactive, htags⟩ := tags_delete h
  have hpos := List.count_pos_iff.mpr hmem
  have hcount := List.count_erase_self (a := tag) (l := image.tags)
  rw [Same, htags]
  constructor
  · intro h
    have hleft := List.count_pos_iff.mpr ((h.2 tag).mpr hmem)
    omega
  · intro h
    refine ⟨hactive, fun t => ?_⟩
    by_cases ht : t = tag
    · subst ht
      exact iff_of_true (List.count_pos_iff.mp (by omega)) hmem
    · exact List.mem_erase_of_ne ht

theorem same_iff (h : image.perform flag tag = some other) :
    image.Same other ↔ ¬ image.Touched flag tag := by
  cases flag with
  | create => exact (same_create h).trans Decidable.not_not.symm
  | apply =>
    refine (same_apply h).trans ?_
    unfold Touched
    exact Classical.not_not.symm
  | delete => exact same_delete h

end Image

/-! ### Runs -/

/-- What the environment decides: the answers to the engine's calls, the directory as it is read,
and for which disks `qemu-img` fails although it could do its work. -/
structure Env where
  engine : (c : EngineCall) → c.Reply
  readDir : String → Except Message Listing
  lookPath : Except Message Unit
  refuses : String → Option Message

section Runs

variable {C : Type} (env : Env)

/-- One run of `qemu-img` on a disk. -/
def Env.attempt (flag : Flag) (tag path : String) (image : Image C) : Option (Image C) :=
  match env.refuses path with
  | some _ => none
  | none => image.perform flag tag

/-- The answers, and the images after a call; a run of `qemu-img` that fails changes nothing. -/
def Env.answer (env : Env) : (c : SnapshotCall) → (String → Image C) →
    c.Reply × (String → Image C)
  | .engine c, s => (env.engine c, s)
  | .readDir id, s => (env.readDir id, s)
  | .lookPath, s => (env.lookPath, s)
  | .qemuImg flag tag path, s =>
    match env.attempt flag tag path (s path) with
    | none => (.error ((env.refuses path).getD "qemu-img: snapshot not found"), s)
    | some image => (.ok (), Function.update s path image)
  | .monitor _ _ _, s => (.error "QEMU is not running", s)

/-- The end of an operation: whether it failed, and the images. -/
def run {α : Type} (p : SnapshotM α) (s : String → Image C) : Except Message α × (String → Image C) :=
  p.run.eval env.answer s

/-- The disks of a machine, where they are found and so is `qemu-img`. -/
def Env.disksOf (diskDir : String → String) (id : String) : Option (List String) :=
  match env.readDir id with
  | .error _ => none
  | .ok listing =>
    match vmDiskPaths (diskDir id) listing.entries, env.lookPath with
    | .ok paths, .ok () => some paths
    | _, _ => none

/-- The disks that `qemu-img` is run on in turn, where the operation gets so far. -/
def Env.reaches (e : Paths) (diskDir : String → String) (ref tag : String) : Option (List String) :=
  if snapshotTag tag then
    match env.engine (.vms (.resolve ref)) with
    | .error _ => none
    | .ok m =>
      match env.engine (.lock (.vm (e.runDir m.id))) with
      | .error _ => none
      | .ok () => env.disksOf diskDir m.id
  else none

/-- `qemu-img` does its work on a disk. -/
def Env.works (flag : Flag) (tag : String) (s : String → Image C) (path : String) : Bool :=
  (env.attempt flag tag path (s path)).isSome

/-- Where `qemu-img` fails on a disk, there is none before it that it changes. -/
def Env.Spares (paths : List String) (flag : Flag) (tag : String) (s : String → Image C) : Prop :=
  (∃ path ∈ paths, env.works flag tag s path = false) →
    ∀ path ∈ paths.takeWhile (env.works flag tag s), ¬ (s path).Touched flag tag

variable {env} {flag : Flag} {tag : String} {s : String → Image C}

theorem run_bind {α β : Type} (p : SnapshotM α) (f : α → SnapshotM β) :
    run env (p >>= f) s =
      match run env p s with
      | (.error e, t) => (.error e, t)
      | (.ok x, t) => run env (f x) t := by
  unfold run
  rw [Prog.eval_andThen]
  match p.run.eval env.answer s with
  | (.error e, t) => rfl
  | (.ok x, t) => rfl

theorem run_tryAs {α : Type} (context : String) (p : SnapshotProg (Except Message α)) :
    run env (tryAs context p) s =
      match p.eval env.answer s with
      | (.error e, t) => (.error (Message.text context ++ e), t)
      | (.ok x, t) => (.ok x, t) := by
  show Prog.eval env.answer (p >>= _) s = _
  rw [Prog.eval_bind]
  match p.eval env.answer s with
  | (.error e, t) => rfl
  | (.ok x, t) => rfl

/-- The work on one disk. -/
theorem run_snapshotDisk (path : String) :
    (∃ e, env.attempt flag tag path (s path) = none ∧
      run env (snapshotDisk flag tag path) s = (.error e, s)) ∨
    ∃ image, env.attempt flag tag path (s path) = some image ∧
      run env (snapshotDisk flag tag path) s = (.ok (), Function.update s path image) := by
  have hcall : (snapshotCall (.qemuImg flag tag path)).eval env.answer s =
      env.answer (.qemuImg flag tag path) s := rfl
  rw [snapshotDisk, run_tryAs, hcall, Env.answer]
  cases env.attempt flag tag path (s path) with
  | none => exact .inl ⟨_, rfl, rfl⟩
  | some image => exact .inr ⟨image, rfl, rfl⟩

/-- The loop over the disks, with the images as they were at the start of it: an error leaves the
disks changed that come before the first on which `qemu-img` fails. -/
theorem run_disks (paths : List String) (hnodup : paths.Nodup) (s0 : String → Image C)
    (hs : ∀ path ∈ paths, s path = s0 path) :
    (∀ path ∈ paths, env.works flag tag s0 path = true) ∧
      (∃ t, run env (paths.forM (snapshotDisk flag tag)) s = (.ok (), t)) ∨
    (∃ path ∈ paths, env.works flag tag s0 path = false) ∧
      ∃ e t, run env (paths.forM (snapshotDisk flag tag)) s = (.error e, t) ∧
        ∀ path, t path = if path ∈ paths.takeWhile (env.works flag tag s0) then
          (env.attempt flag tag path (s0 path)).getD (s0 path) else s path := by
  induction paths generalizing s with
  | nil => exact .inl ⟨by simp, s, rfl⟩
  | cons path paths ih =>
    obtain ⟨hnew, hnodup⟩ := List.nodup_cons.mp hnodup
    have hpath := hs path List.mem_cons_self
    rw [List.forM, run_bind]
    rcases run_snapshotDisk path with ⟨e, hattempt, hrun⟩ | ⟨image, hattempt, hrun⟩
    · rw [hrun]
      rw [hpath] at hattempt
      have hfails : env.works flag tag s0 path = false := by rw [Env.works, hattempt]; rfl
      refine .inr ⟨⟨path, List.mem_cons_self, hfails⟩, e, s, rfl, fun p => ?_⟩
      rw [List.takeWhile_cons_of_neg (by simp [hfails]), if_neg List.not_mem_nil]
    · rw [hrun]
      rw [hpath] at hattempt
      have hworks : env.works flag tag s0 path = true := by rw [Env.works, hattempt]; rfl
      have hrest : ∀ p ∈ paths, Function.update s path image p = s0 p := by
        intro p hp
        rw [Function.update_of_ne (by rintro rfl; exact hnew hp)]
        exact hs p (List.mem_cons_of_mem path hp)
      rcases ih hnodup hrest with ⟨hall, t, hrun⟩ | ⟨⟨p, hp, hfails⟩, e, t, hrun, ht⟩
      · refine .inl ⟨?_, t, hrun⟩
        simpa [hworks] using hall
      · refine .inr ⟨⟨p, List.mem_cons_of_mem path hp, hfails⟩, e, t, hrun, fun q => ?_⟩
        rw [ht q, List.takeWhile_cons_of_pos hworks]
        by_cases hq : q = path
        · subst hq
          have hout : q ∉ paths.takeWhile (env.works flag tag s0) := fun h =>
            hnew (List.takeWhile_subset _ h)
          rw [if_neg hout, if_pos List.mem_cons_self, hattempt, Function.update_self]
          rfl
        · rw [Function.update_of_ne hq]
          simp [List.mem_cons, hq]

/-! ### The operations -/

variable {e : Paths} {diskDir : String → String}

theorem run_onImages_bind {α β : Type} (p : EngineM α) (f : α → EngineM β) :
    run env (onImages e diskDir (p >>= f)) s =
      match run env (onImages e diskDir p) s with
      | (.error e, t) => (.error e, t)
      | (.ok x, t) => run env (onImages e diskDir (f x)) t := by
  have hbind : onImages e diskDir (p >>= f) =
      onImages e diskDir p >>= fun x => onImages e diskDir (f x) := Prog.expand_andThen p f
  rw [hbind, run_bind]

/-- What is done under a lock. -/
theorem run_locked {α : Type} (l : LockName) (body : EngineM α) :
    run env (onImages e diskDir (locked l body)) s =
      match env.engine (.lock l) with
      | .error e => (.error e, s)
      | .ok () => run env (onImages e diskDir body) s := by
  rw [locked, run_onImages_bind]
  have hlock : run env (onImages e diskDir (demand (engineCall (.lock l)))) s =
      (env.engine (.lock l), s) := rfl
  rw [hlock]
  cases env.engine (.lock l) with
  | error e => rfl
  | ok u =>
    dsimp only
    rw [run_onImages_bind]
    have hbody : run env (onImages e diskDir (query body.run)) s =
        (.ok (run env (onImages e diskDir body) s).1, (run env (onImages e diskDir body) s).2) := by
      show Prog.eval env.answer (Prog.expand _ (body.run >>= _)) s = _
      rw [Prog.expand_bind, Prog.eval_bind]
      rfl
    rw [hbody]
    dsimp only
    rw [run_onImages_bind]
    rfl

/-- The part under the lock. -/
theorem run_snapshotDisks (hstopped : ∀ runDir, env.engine (.qemu runDir .status) = none)
    (id action : String) :
    (env.disksOf diskDir id = none ∧
      ∃ err, run env (snapshotDisks e diskDir id action tag) s = (.error err, s)) ∨
    ∃ paths, env.disksOf diskDir id = some paths ∧ paths.Nodup ∧
      run env (snapshotDisks e diskDir id action tag) s =
        run env (paths.forM (snapshotDisk (flagOf action) tag)) s := by
  have hread : (snapshotCall (.readDir id)).eval env.answer s = (env.readDir id, s) := rfl
  rw [snapshotDisks, run_bind, run_tryAs, hread, Env.disksOf]
  cases env.readDir id with
  | error err => exact .inl ⟨rfl, _, rfl⟩
  | ok listing =>
    dsimp only
    have hpaths : run env (ExceptT.mk (pure (vmDiskPaths (diskDir id) listing.entries))) s =
        (vmDiskPaths (diskDir id) listing.entries, s) := rfl
    rw [run_bind, hpaths, vmDiskPaths]
    by_cases hnone : diskPaths (diskDir id) listing.entries = []
    · rw [if_pos hnone]
      exact .inl ⟨rfl, _, rfl⟩
    · rw [if_neg hnone]
      dsimp only
      have hstatus : run env (ExceptT.lift (snapshotCall (.engine (.qemu (e.runDir id) .status)))) s =
          (.ok none, s) := by
        rw [← hstopped (e.runDir id)]
        rfl
      have hlook : run env (ExceptT.mk (snapshotCall .lookPath)) s = (env.lookPath, s) := rfl
      rw [run_bind, hstatus]
      dsimp only
      rw [if_neg (by decide), offlineSnapshot, run_bind, hlook]
      cases env.lookPath with
      | error err => exact .inl ⟨rfl, err, rfl⟩
      | ok u => exact .inr ⟨_, rfl, diskPaths_nodup _ listing, rfl⟩

/-- The operation is the loop over the disks that it reaches, and otherwise changes nothing. -/
theorem run_changeSnapshot (hstopped : ∀ runDir, env.engine (.qemu runDir .status) = none)
    (ref action : String) :
    (env.reaches e diskDir ref tag = none ∧
      ∃ err, run env (onImages e diskDir (changeSnapshot e ref action tag)) s = (.error err, s)) ∨
    ∃ paths, env.reaches e diskDir ref tag = some paths ∧ paths.Nodup ∧
      run env (onImages e diskDir (changeSnapshot e ref action tag)) s =
        run env (paths.forM (snapshotDisk (flagOf action) tag)) s := by
  rw [changeSnapshot, run_onImages_bind, Env.reaches]
  cases snapshotTag tag with
  | false => exact .inl ⟨rfl, _, rfl⟩
  | true =>
    have hensure : ∀ m : Message, run env (onImages e diskDir (ensureThat true m)) s = (.ok (), s) :=
      fun _ => rfl
    have hresolve : run env (onImages e diskDir (resolveVM ref)) s =
        (env.engine (.vms (.resolve ref)), s) := rfl
    rw [hensure, if_pos rfl]
    dsimp only
    rw [run_onImages_bind, hresolve]
    cases env.engine (.vms (.resolve ref)) with
    | error err => exact .inl ⟨rfl, err, rfl⟩
    | ok m =>
      dsimp only
      rw [lockedVM, run_locked]
      cases env.engine (.lock (.vm (e.runDir m.id))) with
      | error err => exact .inl ⟨rfl, err, rfl⟩
      | ok u =>
        have hstep : run env (onImages e diskDir (Engine.perform (.snapshot m.id action tag))) s =
            run env (snapshotDisks e diskDir m.id action tag) s := by
          show Prog.eval env.answer (Prog.expand _ (engineCall _)) s = _
          rw [engineCall, Prog.expand_request]
          rfl
        dsimp only
        rw [hstep]
        exact run_snapshotDisks hstopped m.id action

end Runs

/-- An error of `CreateSnapshot`, `RestoreSnapshot` or `DeleteSnapshot` on a stopped machine leaves the
contents and the snapshot names of all disks as they were, if and only if the operation does not get
to its disks, or there is no disk that `qemu-img` changes before the first on which it fails. -/
theorem changeSnapshot_atomic_iff {C : Type} (env : Env)
    (hstopped : ∀ runDir, env.engine (.qemu runDir .status) = none) (e : Paths)
    (diskDir : String → String) (ref action tag : String) (s : String → Image C) :
    ((run env (onImages e diskDir (changeSnapshot e ref action tag)) s).1.isOk = false →
      ∀ path, (s path).Same ((run env (onImages e diskDir (changeSnapshot e ref action tag)) s).2
        path)) ↔
      ∀ paths, env.reaches e diskDir ref tag = some paths → env.Spares paths (flagOf action) tag s := by
  rcases run_changeSnapshot hstopped ref action with ⟨hnone, err, hrun⟩ | ⟨paths, hsome, hnodup, hrun⟩
  · rw [hrun, hnone]
    exact iff_of_true (fun _ path => .refl (s path)) (fun paths h => by cases h)
  · rw [hrun, hsome]
    simp only [Option.some.injEq, forall_eq']
    rcases run_disks paths hnodup s (fun _ _ => rfl) with ⟨hall, t, hloop⟩ | ⟨hfails, err, t, hloop, ht⟩
    · rw [hloop]
      refine iff_of_true (fun h => by cases h) ?_
      rintro ⟨path, hpath, hfails⟩
      rw [hall path hpath] at hfails
      contradiction
    · rw [hloop, Env.Spares]
      -- a disk that `qemu-img` has worked on is the same exactly when it is not one that it changes
      have hworked : ∀ path ∈ paths.takeWhile (env.works (flagOf action) tag s),
          ((s path).Same (t path) ↔ ¬ (s path).Touched (flagOf action) tag) := by
        intro path hpath
        have hworks : env.works (flagOf action) tag s path = true := List.mem_takeWhile_imp hpath
        obtain ⟨image, himage⟩ := Option.isSome_iff_exists.mp hworks
        rw [ht path, if_pos hpath, himage, Option.getD_some]
        rw [Env.attempt] at himage
        split at himage
        · contradiction
        · exact Image.same_iff himage
      constructor
      · intro h _ path hpath
        exact (hworked path hpath).mp (h rfl path)
      · intro h _ path
        by_cases hpath : path ∈ paths.takeWhile (env.works (flagOf action) tag s)
        · exact (hworked path hpath).mpr (h hfails path hpath)
        · show (s path).Same (t path)
          rw [ht path, if_neg hpath]
          exact .refl (s path)

/-- A machine with a boot disk and one data disk; `qemu-img` fails where it is said so. -/
def twoDisks (refuses : String → Option Message) : Env where
  engine
    | .vms (.resolve _) => .ok { id := "vm", name := "lab" }
    | .lock _ => .ok ()
    | .qemu _ .status => none
    | c => c.failure
  readDir _ := .ok
    { entries := [{ name := "disk.qcow2" }, { name := "data.qcow2" }], distinct := by decide }
  lookPath := .ok ()
  refuses := refuses

/-- The data disk was added after the snapshot was made. -/
def addedLater (path : String) : Image Nat :=
  if path = "disks/disk.qcow2" then { active := 1, snapshots := [("clean", 0)] } else { active := 2 }

/-- A second snapshot of the same name fails on the data disk, and the first disk is as before. -/
theorem changeSnapshot_atomic_again :
    (addedLater "disks/disk.qcow2").Same
      ((run (twoDisks fun path => if path = "disks/data.qcow2" then some "no space" else none)
        (onImages { runDir := id, proc := 0 } (fun _ => "disks")
          (changeSnapshot { runDir := id, proc := 0 } "lab" "create" "clean")) addedLater).2
        "disks/disk.qcow2") := by
  refine (changeSnapshot_atomic_iff (twoDisks fun path => if path = "disks/data.qcow2" then
    some "no space" else none) (fun _ => rfl) { runDir := id, proc := 0 } (fun _ => "disks") "lab"
    "create" "clean" addedLater).mpr ?_ (by decide +kernel) "disks/disk.qcow2"
  intro paths hpaths
  have hreaches : paths = ["disks/disk.qcow2", "disks/data.qcow2"] := by
    revert hpaths
    rw [show Env.reaches _ _ _ "lab" "clean" = some ["disks/disk.qcow2", "disks/data.qcow2"] by
      decide +kernel]
    rintro ⟨⟩
    rfl
  subst hreaches
  rintro - path hpath
  have hboot : path = "disks/disk.qcow2" := by
    revert hpath
    rw [show List.takeWhile _ _ = ["disks/disk.qcow2"] by decide +kernel]
    exact List.mem_singleton.mp
  subst hboot
  exact fun h => h (by decide)

/-- The restore fails on the data disk, after the boot disk went back to the snapshot. -/
theorem changeSnapshot_not_atomic :
    (run (twoDisks fun _ => none) (onImages { runDir := id, proc := 0 } (fun _ => "disks")
      (changeSnapshot { runDir := id, proc := 0 } "lab" "restore" "clean")) addedLater).1.isOk = false ∧
    ¬ (addedLater "disks/disk.qcow2").Same
      ((run (twoDisks fun _ => none) (onImages { runDir := id, proc := 0 } (fun _ => "disks")
        (changeSnapshot { runDir := id, proc := 0 } "lab" "restore" "clean")) addedLater).2
        "disks/disk.qcow2") := by
  refine ⟨by decide +kernel, fun h => ?_⟩
  have hactive := h.1
  revert hactive
  decide +kernel

end Maco.Engine.Snapshots
