import Maco.Engine.Interfaces
import Maco.Lib.Knowledge

/-! What the engines of all processes share: the lock files, the stores of machines, networks and
media, the rows of the database and the backups.  A call is answered and takes effect in one step.
The environment chooses the answer, and `World.accepts` says which ones the state admits: errors may
come at any time, and what is read is what is stored. -/

namespace Maco.Engine

open Concurrent Network

/-- What a process is in the middle of, where that matters to the others. -/
inductive Activity where
  | idle
  /-- It has read the record of a medium. -/
  | looking (media : String)
  /-- It removes a medium, and has yet to look at these machines. -/
  | erasing (media : String) (todo : List String)
  /-- It has read a backup. -/
  | restoring
  /-- It has deleted the manifest of a machine. -/
  | leaving (id : String)
  deriving DecidableEq, Repr

/-- A process that leaves a machine gives up where a call fails. -/
def Activity.goesOn (d : Activity) (ok : Bool) : Activity :=
  match d with
  | .leaving id => if ok then .leaving id else .idle
  | d => d

/-- What an activity becomes by a call and its answer. -/
def Activity.after (d : Activity) : (a : EngineCall) → a.Reply → Activity
  | .getMedia id, _ => .looking id
  | .vms .entries, r =>
    match d, r with
    | .looking media, .ok ids => .erasing media ids
    | d, _ => d
  | .vms (.load id), _ =>
    match d with
    | .erasing media todo => .erasing media (todo.filter (· ≠ id))
    | d => d
  | .restore (.readDir _ _), _ => .restoring
  | .vms (.delete id), r => if Except.isOk r then .leaving id else d
  | .vms (.resolve _), _ | .lock .media, _ | .unlock .media, _ | .unlock (.vm _), _
  | .step (.deleteBackupSchedule _), _ => .idle
  | .lock _, r | .step _, r => d.goesOn (Except.isOk r)
  | _, _ => d

/-- How an id stands: nobody has it, it has been given to a process, or it is that of something that
has been stored. -/
inductive Standing where
  | unused
  | given (i : Nat)
  | known
  deriving DecidableEq, Repr

/-- `abandoned` are the machines that processes were leaving when they died. -/
structure World where
  locks : LockName → Option Nat := fun _ => none
  vms : Table VMManifest := []
  nets : Table NetworkManifest := []
  media : Table Media := []
  schedules : Table BackupSchedule := []
  backups : String → String → Option Content := fun _ _ => none
  ids : String → Standing := fun _ => .unused
  doing : Nat → Activity := fun _ => .idle
  abandoned : List String := []

/-- The choices of the environment: the answer, whether a write that fails has taken effect all the
same, and the timestamp and the manifest of a backup. -/
structure EngineChoice where
  answer : (a : EngineCall) → a.Reply
  took : Bool := false
  published : String × Content := ("", [])

/-- A value that is returned satisfies the condition. -/
def granted {ε α : Type} (r : Except ε α) (p : α → Bool) : Bool :=
  match r with
  | .ok x => p x
  | .error _ => true

theorem granted_ok {ε α : Type} {r : Except ε α} {p : α → Bool} {x : α} (h : granted r p = true)
    (hr : r = .ok x) : p x = true := by
  subst hr
  exact h

/-- The answers of an environment in which everything fails. -/
def EngineCall.failure : (a : EngineCall) → a.Reply
  | .unlock _ => ()
  | .newString => ""
  | .vms (.uniqueVMName base) => base
  | .vms (.save _) => .error ""
  | .vms (.resolve _) | .vms (.load _) => .error ""
  | .vms .list => .error ""
  | .vms .entries => .error ""
  | .vms (.delete _) => .error ""
  | .nets .newString => ""
  | .nets .unlock => ()
  | .nets (.interfaceExists _) | .nets (.isBridge _) | .nets (.hasAddress _ _)
  | .nets (.running _) => false
  | .nets (.load _) | .nets (.resolve _) => .error ""
  | .nets .list => .error ""
  | .nets (.bridgeMembers _) => .error ""
  | .nets (.createBridge _) | .nets (.createVLAN _) | .nets (.findVLAN _ _) => .error ""
  | .nets .listVMs => .error ""
  | .nets (.pendingReferences _) => .error ""
  | .nets .lock | .nets (.save _) | .nets (.delete _) | .nets (.destroy _ _)
  | .nets (.addMember _ _) | .nets (.removeMember _ _) | .nets (.configureVLAN _ _ _)
  | .nets (.setAddress _ _) | .nets (.removeAlias _ _) | .nets (.up _) => .error ""
  | .qemu _ .status => none
  | .qemu _ .pendingReferences => .error ""
  | .qemu _ (.spawn _) => .error ""
  | .qemu _ .clearPID | .qemu _ (.kill _) => ()
  | .qemu _ (.alive _) | .qemu _ .powerdown | .qemu _ (.waitExit _) => false
  | .qemu _ .removeJournal | .qemu _ .stopHelpers | .qemu _ (.startHelper _ _)
  | .qemu _ (.writePID _) | .qemu _ (.signal _ _) => .error ""
  | .hotplug _ .statJournal => .error ""
  | .hotplug _ .dial | .hotplug _ (.send _) => .error ""
  | .hotplug _ .clock => 0
  | .hotplug _ (.writeJournal _) | .hotplug _ .removeJournal | .hotplug _ (.mkdirAll _)
  | .hotplug _ (.startHelper _ _) | .hotplug _ (.stopHelper _) | .hotplug _ .commit => .error ""
  | .usb .readClaims => .error ""
  | .usb (.generation _) => .missing
  | .usb (.noProcess _) => false
  | .usb (.observe _ _) => .error ""
  | .usb .hostDevices => .error ""
  | .usb (.saveClaims _) | .usb (.attach _ _ _) | .usb (.detach _ _) | .usb .support => .error ""
  | .restore (.resolve _) => .error ""
  | .restore (.readDir _ _) => .error ""
  | .restore (.readManifest _ _) => .error ""
  | .restore (.running _) => false
  | .restore .removeStaging => ()
  | .restore (.lock _) | .restore .mkdirTemp | .restore (.copyFile _ _ _)
  | .restore (.removeDisks _) | .restore (.renameStaging _) | .restore (.save _) => .error ""
  | .databaseOpen _ | .promptReedit => false
  | .getBackupSchedule _ => .error ""
  | .getMedia _ => .error ""
  | .backingMedia _ _ => none
  | .inspectUpload _ => .error ""
  | .statDisk _ _ => .error ""
  | .attachDisk _ _ => .error ⟨false, ""⟩
  | .readManifest _ | .readNetwork _ => .error ""
  | .editor => .failed ""
  | .lock _ | .step _ => .error ""

namespace EngineChoice

variable (c : EngineChoice)

/-- The manifest of a machine is written. -/
def saves (m : VMManifest) : Bool := (c.answer (.vms (.save m))).isOk || c.took

/-- The manifest of a network is written. -/
def savesNet (n : NetworkManifest) : Bool := (c.answer (.nets (.save n))).isOk || c.took

/-- A step takes effect. -/
def takes (s : Step) : Bool := (c.answer (.step s)).isOk || c.took

end EngineChoice

namespace World

variable (s : World) (i : Nat) (c : EngineChoice)

/-- The answer is one that the state admits. -/
def accepts (x : Texts) : EngineCall → Bool
  | .lock (.sharedMu proc) =>
    (c.answer (.lock (.sharedMu proc))).isOk && decide (s.locks (.sharedMu proc) = none)
  | .lock l => granted (c.answer (.lock l)) fun _ => decide (s.locks l = none)
  | .unlock l => decide (s.locks l = some i)
  | .newString => decide (s.ids (c.answer .newString) = .unused)
  | .vms (.resolve ref) => granted (c.answer (.vms (.resolve ref))) fun m =>
    decide (s.vms.get m.id = some m ∧ (m.id = ref ∨ m.name = ref))
  | .vms (.load id) => granted (c.answer (.vms (.load id))) fun m =>
    decide (s.vms.get id = some m ∧ m.id = id)
  | .vms .list => granted (c.answer (.vms .list)) fun l => decide (l = s.vms.sorted.map Prod.snd)
  | .vms .entries => granted (c.answer (.vms .entries)) fun l =>
    decide (l = s.vms.sorted.map Prod.fst)
  | .vms (.save m) => !c.saves m || x.manifest.valid m
  | .vms (.delete id) => granted (c.answer (.vms (.delete id))) fun _ =>
    decide (s.vms.get id ≠ none)
  | .nets (.resolve ref) => granted (c.answer (.nets (.resolve ref))) fun n =>
    decide (s.nets.get n.id = some n ∧ (n.id = ref ∨ n.name = ref))
  | .nets (.load id) => granted (c.answer (.nets (.load id))) fun n =>
    decide (s.nets.get id = some n ∧ n.id = id)
  | .nets .list => granted (c.answer (.nets .list)) fun l =>
    decide (l = s.nets.sorted.map Prod.snd)
  | .nets (.delete id) => granted (c.answer (.nets (.delete id))) fun _ =>
    decide (s.nets.get id ≠ none)
  | .getMedia id => granted (c.answer (.getMedia id)) fun m =>
    decide (s.media.get id = some m ∧ m.id = id)
  | .getBackupSchedule id => granted (c.answer (.getBackupSchedule id)) fun row =>
    decide (row = s.schedules.get id)
  | .step (.backUp id) => granted (c.answer (.step (.backUp id))) fun _ =>
    decide ((s.vms.get id).isSome ∧ (x.manifest.parse c.published.2).toOption = s.vms.get id ∧
      s.backups id c.published.1 = none)
  | .restore (.readDir id timestamp) =>
    granted (c.answer (.restore (.readDir id timestamp))) fun names =>
      decide (names.isSome = (s.backups id timestamp).isSome)
  | .restore (.readManifest id timestamp) =>
    granted (c.answer (.restore (.readManifest id timestamp))) fun data =>
      decide (s.backups id timestamp = some data)
  | _ => true

/-! ### What a call changes -/

def locksAfter : EngineCall → LockName → Option Nat
  | .lock l =>
    if (c.answer (.lock l)).isOk then Function.update s.locks l (some i) else s.locks
  | .unlock l => Function.update s.locks l none
  | _ => s.locks

def vmsAfter : EngineCall → Table VMManifest
  | .vms (.save m) => if c.saves m then s.vms.put m.id m else s.vms
  | .vms (.delete id) =>
    if (c.answer (.vms (.delete id))).isOk then s.vms.without [id] else s.vms
  | _ => s.vms

def netsAfter : EngineCall → Table NetworkManifest
  | .nets (.save n) => if c.savesNet n then s.nets.put n.id n else s.nets
  | .nets (.delete id) =>
    if (c.answer (.nets (.delete id))).isOk then s.nets.without [id] else s.nets
  | _ => s.nets

def mediaAfter : EngineCall → Table Media
  | .step (.saveMedia m) => if c.takes (.saveMedia m) then s.media.put m.id m else s.media
  | .step (.removeMedia id) =>
    if (c.answer (.step (.removeMedia id))).isOk then s.media.without [id] else s.media
  | _ => s.media

/-- `UpsertBackupSchedule`, which keeps the time of the last run. -/
def upserted (t : Table BackupSchedule) (row : BackupSchedule) : Table BackupSchedule :=
  match t.get row.vmID with
  | none => t.put row.vmID row
  | some old => t.put row.vmID { row with lastRunAt := old.lastRunAt }

/-- `MarkBackupScheduleRun`. -/
def marked (t : Table BackupSchedule) (id : String) (now : Int) : Table BackupSchedule :=
  match t.get id with
  | none => t
  | some row => t.put id { row with lastRunAt := now }

def schedulesAfter : EngineCall → Table BackupSchedule
  | .step (.setBackupSchedule row) =>
    if c.takes (.setBackupSchedule row) then upserted s.schedules row else s.schedules
  | .step (.markBackupScheduleRun id now) =>
    if c.takes (.markBackupScheduleRun id now) then marked s.schedules id now else s.schedules
  | .step (.deleteBackupSchedule id) =>
    if c.takes (.deleteBackupSchedule id) then s.schedules.without [id] else s.schedules
  | _ => s.schedules

def backupsAfter : EngineCall → String → String → Option Content
  | .step (.backUp id) =>
    if (c.answer (.step (.backUp id))).isOk then
      Function.update s.backups id
        (Function.update (s.backups id) c.published.1 (some c.published.2))
    else s.backups
  | _ => s.backups

def idsAfter : EngineCall → String → Standing
  | .newString => Function.update s.ids (c.answer .newString) (.given i)
  | .vms (.save m) => if c.saves m then Function.update s.ids m.id .known else s.ids
  | .nets (.save n) => if c.savesNet n then Function.update s.ids n.id .known else s.ids
  | _ => s.ids

/-- The state after a call. -/
def after (a : EngineCall) : World where
  locks := s.locksAfter i c a
  vms := s.vmsAfter c a
  nets := s.netsAfter c a
  media := s.mediaAfter c a
  schedules := s.schedulesAfter c a
  backups := s.backupsAfter c a
  ids := s.idsAfter i c a
  doing := Function.update s.doing i ((s.doing i).after a (c.answer a))
  abandoned := s.abandoned

def perform (x : Texts) (i : Nat) : Perform EngineCall EngineCall.Reply EngineChoice World :=
  fun a c s => if s.accepts i c x a then some (c.answer a, s.after i c a) else none

/-- A process dies: its locks are free. -/
def die : World where
  locks l := if s.locks l = some i then none else s.locks l
  vms := s.vms
  nets := s.nets
  media := s.media
  schedules := s.schedules
  backups := s.backups
  ids := s.ids
  doing := Function.update s.doing i .idle
  abandoned :=
    match s.doing i with
    | .leaving id => id :: s.abandoned
    | _ => s.abandoned

variable {s i c} {x : Texts} {a : EngineCall} {r : a.Reply} {t : World}

theorem perform_cases (h : perform x i a c s = some (r, t)) :
    s.accepts i c x a = true ∧ c.answer a = r ∧ s.after i c a = t := by
  rw [perform] at h
  split at h
  · rename_i haccepts
    simp only [Option.some.injEq, Prod.mk.injEq] at h
    exact ⟨haccepts, h⟩
  · contradiction

/-! ### What one call can do -/

theorem doing_of_ne {j : Nat} (hj : j ≠ i) : (s.after i c a).doing j = s.doing j :=
  Function.update_of_ne hj _ _

/-- A manifest is as it was, or the call has saved or deleted it. -/
theorem vms_after (s : World) (i : Nat) (c : EngineChoice) (a : EngineCall) (id : String) :
    (s.after i c a).vms.get id = s.vms.get id ∨
      (∃ m, a = .vms (.save m) ∧ m.id = id ∧ c.saves m = true ∧
        (s.after i c a).vms.get id = some m) ∨
      (a = .vms (.delete id) ∧ (c.answer (.vms (.delete id))).isOk = true ∧
        (s.after i c a).vms.get id = none) := by
  simp only [after]
  unfold vmsAfter
  split
  · rename_i m
    split
    · rename_i hsaves
      obtain hsame | ⟨hid, hput⟩ := s.vms.put_cases m.id id m
      · exact .inl hsame
      · exact .inr (.inl ⟨m, rfl, hid, hsaves, hput⟩)
    · exact .inl rfl
  · rename_i other
    split
    · rename_i hok
      obtain hsame | ⟨rfl, hgone⟩ := s.vms.without_cases other id
      · exact .inl hsame
      · exact .inr (.inr ⟨rfl, hok, hgone⟩)
    · exact .inl rfl
  · exact .inl rfl

/-- The same of a network. -/
theorem nets_after (s : World) (i : Nat) (c : EngineChoice) (a : EngineCall) (id : String) :
    (s.after i c a).nets.get id = s.nets.get id ∨
      (∃ n, a = .nets (.save n) ∧ n.id = id ∧ c.savesNet n = true ∧
        (s.after i c a).nets.get id = some n) ∨
      (s.after i c a).nets.get id = none := by
  simp only [after]
  unfold netsAfter
  split
  · rename_i n
    split
    · rename_i hsaves
      obtain hsame | ⟨hid, hput⟩ := s.nets.put_cases n.id id n
      · exact .inl hsame
      · exact .inr (.inl ⟨n, rfl, hid, hsaves, hput⟩)
    · exact .inl rfl
  · rename_i other
    split
    · obtain hsame | ⟨-, hgone⟩ := s.nets.without_cases other id
      · exact .inl hsame
      · exact .inr (.inr hgone)
    · exact .inl rfl
  · exact .inl rfl

/-- A medium that exists stays, unless the call removes it. -/
theorem media_after {id : String} (h : s.media.get id ≠ none) :
    (s.after i c a).media.get id ≠ none ∨ a = .step (.removeMedia id) := by
  simp only [after]
  unfold mediaAfter
  split
  · left
    split
    · rw [Table.get_put]
      split
      · nofun
      · exact h
    · exact h
  · rename_i other
    split
    · by_cases hid : id = other
      · exact .inr (by rw [hid])
      · left
        simpa [Table.get_without, hid] using h
    · exact .inl h
  · exact .inl h

/-- A lock that is taken was free. -/
theorem lock_free {l : LockName} (ha : s.accepts i c x (.lock l) = true)
    (hok : (c.answer (.lock l)).isOk = true) : s.locks l = none := by
  cases hanswer : c.answer (.lock l) with
  | error e =>
    rw [hanswer] at hok
    cases hok
  | ok u =>
    cases l with
    | sharedMu proc =>
      rw [accepts, Bool.and_eq_true_iff] at ha
      exact of_decide_eq_true ha.2
    | _ =>
      simp only [accepts] at ha
      have hfree := granted_ok ha hanswer
      exact of_decide_eq_true hfree

/-- A lock that is held by another process stays so. -/
theorem locks_after {l : LockName} {j : Nat} (h : s.locks l = some j) (hj : j ≠ i)
    (ha : s.accepts i c x a = true) : (s.after i c a).locks l = some j := by
  simp only [after]
  unfold locksAfter
  split
  · rename_i other
    split
    · rename_i hok
      by_cases hl : l = other
      · subst hl
        have hfree := lock_free ha hok
        rw [hfree] at h
        cases h
      · rw [Function.update_of_ne hl]
        exact h
    · exact h
  · rename_i other
    have hown := of_decide_eq_true ha
    have hl : l ≠ other := by
      rintro rfl
      rw [h] at hown
      exact hj (Option.some.inj hown)
    rw [Function.update_of_ne hl]
    exact h
  · exact h

/-- A lock that the process holds stays so, unless it frees it. -/
theorem locks_own {l : LockName} (h : s.locks l = some i) (ha : a ≠ .unlock l) :
    (s.after i c a).locks l = some i := by
  simp only [after]
  unfold locksAfter
  split
  · split
    · rw [Function.update_apply]
      split
      · rfl
      · exact h
    · exact h
  · rename_i other
    have hl : l ≠ other := by
      rintro rfl
      exact ha rfl
    rw [Function.update_of_ne hl]
    exact h
  · exact h

/-- An id that is known stays known. -/
theorem ids_known_after {id : String} (h : s.ids id = .known) (ha : s.accepts i c x a = true) :
    (s.after i c a).ids id = .known := by
  simp only [after]
  unfold idsAfter
  split
  · have hunused := of_decide_eq_true ha
    rw [Function.update_of_ne]
    · exact h
    · rintro rfl
      rw [h] at hunused
      cases hunused
  · split
    · rw [Function.update_apply]
      split
      · rfl
      · exact h
    · exact h
  · split
    · rw [Function.update_apply]
      split
      · rfl
      · exact h
    · exact h
  · exact h

/-- An id that has been given to a process stays given, unless the call saves something under it. -/
theorem ids_given_after {id : String} {j : Nat} (h : s.ids id = .given j)
    (ha : s.accepts i c x a = true) : (s.after i c a).ids id = .given j ∨
      (∃ m, a = .vms (.save m) ∧ m.id = id) ∨ ∃ n, a = .nets (.save n) ∧ n.id = id := by
  simp only [after]
  unfold idsAfter
  split
  · have hunused := of_decide_eq_true ha
    left
    rw [Function.update_of_ne]
    · exact h
    · rintro rfl
      rw [h] at hunused
      cases hunused
  · rename_i m
    by_cases hid : m.id = id
    · exact .inr (.inl ⟨m, rfl, hid⟩)
    · left
      split
      · rw [Function.update_of_ne (Ne.symm hid)]
        exact h
      · exact h
  · rename_i n
    by_cases hid : n.id = id
    · exact .inr (.inr ⟨n, rfl, hid⟩)
    · left
      split
      · rw [Function.update_of_ne (Ne.symm hid)]
        exact h
      · exact h
  · exact .inl h

end World

end Maco.Engine
