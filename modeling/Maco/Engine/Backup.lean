import Maco.VM.Interface
import Maco.Lib.Program
import Maco.Lib.Table
import Mathlib.Logic.Function.Basic

/-! `RestoreVM` in place: the disks of a backup are copied into a staging directory, which then takes
the place of the machine's disk directory, and last the manifest of the backup is saved.  Each file
operation is a call that can fail; the theorem says for every run that ends in an error when the
machine is as it was. -/

namespace Maco.Engine

open Concurrent

/-- What a file holds. -/
abbrev Content := List UInt8

/-- A directory as the files in it, by name. -/
abbrev Files := Table Content

/-- The manifest's YAML and its validator. -/
structure ManifestFormat where
  parse : Content → Except String VMManifest
  valid : VMManifest → Bool

/-- What a restore works on; `staging` is its temporary directory. -/
structure RestoreState where
  manifests : String → Option VMManifest
  disks : String → Option Files
  backups : String → String → Option Files
  running : String → Bool
  staging : Option Files := none

def RestoreState.setDisks (s : RestoreState) (id : String) (disks : Option Files) : RestoreState :=
  { s with disks := Function.update s.disks id disks }

inductive RestoreCall where
  | resolve (ref : String)
  | readDir (id timestamp : String)
  | readManifest (id timestamp : String)
  | lock (id : String)
  | running (id : String)
  | mkdirTemp
  | copyFile (id timestamp disk : String)
  | removeDisks (id : String)
  | renameStaging (id : String)
  | save (m : VMManifest)
  | removeStaging

@[reducible] def RestoreCall.Reply : RestoreCall → Type
  | .resolve _ => Except Message VMManifest
  | .readDir _ _ => Except Message (Option (List String))
  | .readManifest _ _ => Except Message Content
  | .running _ => Bool
  | .removeStaging => Unit
  | _ => Except Message Unit

abbrev Restore := Prog RestoreCall RestoreCall.Reply

/-- One call. -/
def restoreCall (c : RestoreCall) : Restore c.Reply := .request c

/-! ### The operation -/

/-- The characters of a text are in the given classes, one by one. -/
def inClasses : List (Char → Bool) → List Char → Bool
  | [], [] => true
  | p :: ps, c :: cs => p c && inClasses ps cs
  | _, _ => false

/-- `backupTimestamp`: `^[0-9]{8}-[0-9]{6}\.[0-9]{9}-[0-9a-fA-F-]{36}$`. -/
def backupTimestamp (timestamp : String) : Bool :=
  inClasses (List.replicate 8 Network.isDigit ++ [(· == '-')] ++ List.replicate 6 Network.isDigit ++
    [(· == '.')] ++ List.replicate 9 Network.isDigit ++ [(· == '-')] ++
    List.replicate 36 fun c => VM.isHexDigit c || ('A' ≤ c && c ≤ 'F') || c == '-')
    timestamp.toList

/-- `strings.HasSuffix(name, ".qcow2")`. -/
def isDisk (name : String) : Bool := ".qcow2".toList.isSuffixOf name.toList

/-- The loop that copies the disks. -/
def copyDisks (id timestamp : String) : List String → Restore (Except Message Unit)
  | [] => return .ok ()
  | disk :: disks => do
    match ← restoreCall (.copyFile id timestamp disk) with
    | .error e => return .error (("copy " ++ disk ++ ": " : String) ++ e)
    | .ok () => copyDisks id timestamp disks

/-- `restoreInPlace` between the creation of the staging directory and its deferred removal. -/
def replaceDisks (id timestamp : String) (restored : VMManifest) (disks : List String) :
    Restore (Except Message Unit) := do
  match ← copyDisks id timestamp disks with
  | .error e => return .error e
  | .ok () =>
    match ← restoreCall (.removeDisks id) with
    | .error e => return .error e
    | .ok () =>
      match ← restoreCall (.renameStaging id) with
      | .error e => return .error e
      | .ok () => restoreCall (.save { restored with id := id })

def restoreInPlace (mac : String → String) (id timestamp : String) (restored : VMManifest)
    (disks : List String) : Restore (Except Message VMManifest) := do
  match ← restoreCall (.lock id) with
  | .error e => return .error e
  | .ok () =>
    if ← restoreCall (.running id) then
      return .error "vm is running; stop it before restoring"
    else
      match ← restoreCall .mkdirTemp with
      | .error e => return .error e
      | .ok () =>
        let result ← replaceDisks id timestamp restored disks
        restoreCall .removeStaging
        match result with
        | .error e => return .error e
        | .ok () => return .ok (VM.exposeInterfaces mac { restored with id := id })

/-- `RestoreVM` with `asNew` off. -/
def restoreVM (format : ManifestFormat) (mac : String → String) (ref timestamp : String) :
    Restore (Except Message VMManifest) := do
  if !backupTimestamp timestamp then return .error "invalid backup id"
  else
    match ← restoreCall (.resolve ref) with
    | .error e => return .error e
    | .ok m =>
      match ← restoreCall (.readDir m.id timestamp) with
      | .error e => return .error e
      | .ok none => return .error ("backup " ++ timestamp ++ " not found" : String)
      | .ok (some names) =>
        if names.filter isDisk = [] then
          return .error ("backup " ++ timestamp ++ " has no disks" : String)
        else
          match ← restoreCall (.readManifest m.id timestamp) with
          | .error e => return .error e
          | .ok data =>
            match format.parse data with
            | .error e => return .error ("parse backup manifest: " ++ e : String)
            | .ok restored =>
              restoreInPlace mac m.id timestamp restored (names.filter isDisk)

/-! ### What the calls do -/

/-- The choices of the environment: `found` is the manifest that a reference resolves to, `partly`
fails after some of the work, with what a copy has written or which files a removal has taken, and
`failTook` fails after all of it. -/
inductive RestoreChoice where
  | ok
  | found (m : VMManifest)
  | fail (e : Message)
  | partly (e : Message) (written : Content) (removed : List String)
  | failTook (e : Message)

def RestoreState.perform (format : ManifestFormat) :
    Perform RestoreCall RestoreCall.Reply RestoreChoice RestoreState
  | .resolve ref, .found m, s =>
    if s.manifests m.id = some m ∧ (m.id = ref ∨ s.manifests ref = none ∧ m.name = ref) then
      some (.ok m, s)
    else none
  | .resolve _, .fail e, s => some (.error e, s)
  | .readDir id timestamp, .ok, s =>
    some (.ok ((s.backups id timestamp).map (·.map Prod.fst)), s)
  | .readDir _ _, .fail e, s => some (.error e, s)
  | .readManifest id timestamp, .ok, s =>
    match (s.backups id timestamp).bind (·.get "manifest.yml") with
    | some data => some (.ok data, s)
    | none => none
  | .readManifest _ _, .fail e, s => some (.error e, s)
  | .lock _, .ok, s => some (.ok (), s)
  | .lock _, .fail e, s => some (.error e, s)
  | .running id, .ok, s => some (s.running id, s)
  | .mkdirTemp, .ok, s => some (.ok (), { s with staging := some [] })
  | .mkdirTemp, .fail e, s => some (.error e, s)
  | .copyFile id timestamp disk, .ok, s =>
    match (s.backups id timestamp).bind (·.get disk) with
    | some content => some (.ok (), { s with staging := s.staging.map (·.put disk content) })
    | none => none
  | .copyFile _ _ _, .fail e, s => some (.error e, s)
  | .copyFile _ _ disk, .partly e written _, s =>
    some (.error e, { s with staging := s.staging.map (·.put disk written) })
  | .removeDisks id, .ok, s => some (.ok (), s.setDisks id none)
  | .removeDisks id, .partly e _ removed, s =>
    some (.error e, s.setDisks id ((s.disks id).map (·.without removed)))
  | .renameStaging id, .ok, s =>
    some (.ok (), { s.setDisks id s.staging with staging := none })
  | .renameStaging _, .fail e, s => some (.error e, s)
  | .save m, .ok, s =>
    if format.valid m then
      some (.ok (), { s with manifests := Function.update s.manifests m.id (some m) })
    else none
  | .save _, .fail e, s => some (.error e, s)
  | .save m, .failTook e, s =>
    if format.valid m then
      some (.error e, { s with manifests := Function.update s.manifests m.id (some m) })
    else none
  | .removeStaging, .ok, s => some ((), { s with staging := none })
  | .removeStaging, .fail _, s => some ((), s)
  | _, _, _ => none

/-! ### When an error leaves the machine as it was -/

/-- A file of a machine's disk directory. -/
def RestoreState.file (s : RestoreState) (id name : String) : Option Content :=
  (s.disks id).bind (·.get name)

/-- What a restore of the backup has in the place of a file. -/
def RestoreState.backedUp (s : RestoreState) (id timestamp name : String) : Option Content :=
  if isDisk name then (s.backups id timestamp).bind (·.get name) else none

/-- The same disks, file by file, and the same manifests. -/
structure Unchanged (s t : RestoreState) : Prop where
  files : ∀ id name, t.file id name = s.file id name
  manifests : t.manifests = s.manifests

/-- The step, in a restore begun in `s0`, does no damage: no removal of the disk directory fails
after it has taken a file, no staging directory fails to take the place of a directory with files,
and no save fails where the backup has other disks, or after it has put another manifest in
place. -/
def Harmless (timestamp : String) (s0 : RestoreState) :
    RestoreCall → RestoreChoice → RestoreState → Prop
  | .removeDisks id, .partly _ _ removed, _ => ∀ name ∈ removed, s0.file id name = none
  | .renameStaging id, .fail _, _ => ∀ name, s0.file id name = none
  | .save m, .fail _, _ => ∀ name, s0.backedUp m.id timestamp name = s0.file m.id name
  | .save m, .failTook _, _ =>
    (∀ name, s0.backedUp m.id timestamp name = s0.file m.id name) ∧ s0.manifests m.id = some m
  | _, _, _ => True

/-! A restore runs alone, watched for whether every step so far was harmless. -/

section Outcome

variable {format : ManifestFormat} {timestamp : String} {s0 : RestoreState}

/-- The setting of a restore that is watched. -/
def watched (format : ManifestFormat) (timestamp : String) (s0 : RestoreState) :
    Setting RestoreCall RestoreCall.Reply RestoreChoice (RestoreState × Prop) :=
  Setting.alone (Perform.watch (RestoreState.perform format) (Harmless timestamp s0))
    fun _ _ _ => True

theorem wp_watched {α : Type} {a : RestoreCall} {next : a.Reply → Restore α}
    {Q : α → RestoreState × Prop → Prop} {s : RestoreState} {ok : Prop}
    (h : ∀ c r t, RestoreState.perform format a c s = some (r, t) →
      wp (watched format timestamp s0) (next r) Q (t, ok ∧ Harmless timestamp s0 a c s)) :
    wp (watched format timestamp s0) (.call a next) Q (s, ok) := by
  unfold watched
  apply wp_alone_call
  intro c r t _ hp
  rw [Perform.watch] at hp
  split at hp
  · contradiction
  · rename_i r' t' hp'
    cases hp
    exact h c r t' hp'

/-- The calls that change nothing. -/
def RestoreCall.reads : RestoreCall → Bool
  | .resolve _ | .readDir _ _ | .readManifest _ _ | .lock _ | .running _ => true
  | _ => false

theorem RestoreCall.reads_same {a : RestoreCall} {c : RestoreChoice} {r : a.Reply}
    {s t : RestoreState} (ha : a.reads = true)
    (hp : RestoreState.perform format a c s = some (r, t)) : s = t := by
  cases a <;> simp only [reads, Bool.false_eq_true] at ha <;> cases c <;>
    simp only [RestoreState.perform, Option.some.injEq, Prod.mk.injEq, reduceCtorEq] at hp
  case resolve.found =>
    split at hp
    · cases hp
      rfl
    · contradiction
  case readManifest.ok =>
    split at hp
    · cases hp
      rfl
    · contradiction
  all_goals exact hp.2

/-- The restore has touched nothing but its staging directory, and no step did damage. -/
structure Untouched (s0 s : RestoreState) (ok : Prop) : Prop where
  disks : s.disks = s0.disks
  manifests : s.manifests = s0.manifests
  backups : s.backups = s0.backups
  harmless : ok

theorem Untouched.step {s : RestoreState} {ok : Prop} (h : Untouched s0 s ok) :
    Untouched s0 s (ok ∧ True) :=
  ⟨h.disks, h.manifests, h.backups, h.harmless, trivial⟩

theorem Untouched.unchanged {s : RestoreState} {ok : Prop} (h : Untouched s0 s ok) :
    Unchanged s0 s ↔ ok := by
  refine ⟨fun _ => h.harmless, fun _ => ⟨?_, h.manifests⟩⟩
  intro id name
  rw [RestoreState.file, RestoreState.file, h.disks]

/-- The staging directory has what it had, and the disks of the backup that have been copied. -/
def Staged (s0 : RestoreState) (id timestamp : String) (files : Files) (disks : List String)
    (s : RestoreState) : Prop :=
  ∃ staged, s.staging = some staged ∧ ∀ name, staged.get name =
    if name ∈ disks then (s0.backups id timestamp).bind (·.get name) else files.get name

theorem wp_copyDisks {id : String} {disks : List String} {files : Files} {s : RestoreState}
    {ok : Prop} (h : Untouched s0 s ok) (hs : s.staging = some files) :
    wp (watched format timestamp s0) (copyDisks id timestamp disks)
      (fun x t => Untouched s0 t.1 t.2 ∧
        (x = .ok () → Staged s0 id timestamp files disks t.1)) (s, ok) := by
  induction disks generalizing files s ok with
  | nil => exact ⟨h, fun _ => ⟨files, hs, fun name => by simp⟩⟩
  | cons disk disks ih =>
    apply wp_watched
    intro c r t hp
    cases c with
    | ok =>
      rw [RestoreState.perform] at hp
      split at hp
      · rename_i content hcontent
        cases hp
        have copied : Untouched s0 { s with staging := s.staging.map (·.put disk content) }
            (ok ∧ True) := ⟨h.disks, h.manifests, h.backups, h.harmless, trivial⟩
        have hcopied : s.staging.map (·.put disk content) = some (files.put disk content) := by
          simp [hs]
        refine wp_mono (ih copied hcopied) fun x t hx => ⟨hx.1, fun hok => ?_⟩
        obtain ⟨staged, hstaged, hget⟩ := hx.2 hok
        refine ⟨staged, hstaged, fun name => ?_⟩
        rw [h.backups] at hcontent
        simp only [hget, Table.get_put, List.mem_cons]
        by_cases hname : name = disk
        · simp [hname, hcontent]
        · simp [hname]
      · contradiction
    | found m => simp [RestoreState.perform] at hp
    | fail e =>
      obtain ⟨rfl, rfl⟩ : .error e = r ∧ s = t := by simpa [RestoreState.perform] using hp
      exact ⟨⟨h.disks, h.manifests, h.backups, h.harmless, trivial⟩, by simp⟩
    | partly e written removed =>
      obtain ⟨rfl, rfl⟩ : .error e = r ∧ { s with staging := s.staging.map (·.put disk written) } = t := by
        simpa [RestoreState.perform] using hp
      exact ⟨⟨h.disks, h.manifests, h.backups, h.harmless, trivial⟩, by simp⟩
    | failTook e => simp [RestoreState.perform] at hp

theorem Staged.backedUp {id : String} {names : List String} {s : RestoreState}
    (h : Staged s0 id timestamp [] (names.filter isDisk) s)
    (hnames : (s0.backups id timestamp).map (·.map Prod.fst) = some names) :
    ∃ staged, s.staging = some staged ∧
      ∀ name, staged.get name = s0.backedUp id timestamp name := by
  obtain ⟨staged, hs, hget⟩ := h
  refine ⟨staged, hs, fun name => ?_⟩
  obtain ⟨files, hfiles, rfl⟩ := Option.map_eq_some_iff.mp hnames
  rw [hget, RestoreState.backedUp, hfiles]
  by_cases hd : isDisk name = true
  · by_cases hn : name ∈ files.map Prod.fst
    · rw [if_pos (List.mem_filter.mpr ⟨hn, hd⟩), if_pos hd]
    · rw [if_neg (fun h => hn (List.mem_filter.mp h).1), if_pos hd]
      exact ((Table.get_eq_none files name).mpr hn).symm
  · rw [if_neg (fun h => hd (List.mem_filter.mp h).2), if_neg hd]
    rfl

/-- The disks of the backup are in place, the old manifest still stands, and no step did damage. -/
structure Replaced (s0 : RestoreState) (id timestamp : String) (s : RestoreState) (ok : Prop) :
    Prop where
  files : ∀ name, s.file id name = s0.backedUp id timestamp name
  others : ∀ other name, other ≠ id → s.file other name = s0.file other name
  manifests : s.manifests = s0.manifests
  harmless : ok

theorem Replaced.files_iff {id : String} {s : RestoreState} {ok : Prop}
    (h : Replaced s0 id timestamp s ok) :
    (∀ other name, s.file other name = s0.file other name) ↔
      ∀ name, s0.backedUp id timestamp name = s0.file id name := by
  constructor
  · intro hall name
    rw [← h.files, hall]
  · intro hid other name
    by_cases ho : other = id
    · rw [ho, h.files, hid]
    · exact h.others other name ho

theorem Replaced.save {id : String} {restored : VMManifest} {s t : RestoreState} {ok : Prop}
    {c : RestoreChoice} {e : Message} (h : Replaced s0 id timestamp s ok)
    (hp : RestoreState.perform format (.save { restored with id := id }) c s =
      some (.error e, t)) :
    Unchanged s0 t ↔ ok ∧ Harmless timestamp s0 (.save { restored with id := id }) c s := by
  cases c with
  | fail e' =>
    obtain ⟨-, rfl⟩ : e' = e ∧ s = t := by simpa [RestoreState.perform] using hp
    refine ⟨fun hu => ⟨h.harmless, h.files_iff.mp hu.files⟩, fun hh => ?_⟩
    exact ⟨h.files_iff.mpr hh.2, h.manifests⟩
  | failTook e' =>
    simp only [RestoreState.perform] at hp
    split at hp
    · cases hp
      refine ⟨fun hu => ⟨h.harmless, h.files_iff.mp hu.files, ?_⟩, fun hh => ⟨?_, ?_⟩⟩
      · rw [← hu.manifests]
        exact Function.update_self ..
      · exact h.files_iff.mpr hh.2.1
      · show Function.update s.manifests id _ = s0.manifests
        rw [h.manifests, ← hh.2.2]
        exact Function.update_eq_self ..
    · contradiction
  | ok =>
    simp only [RestoreState.perform] at hp
    split at hp <;> simp at hp
  | found m => simp [RestoreState.perform] at hp
  | partly e' written removed => simp [RestoreState.perform] at hp

theorem RestoreState.file_setDisks (s : RestoreState) (id : String) (disks : Option Files)
    (other name : String) : (s.setDisks id disks).file other name =
      if other = id then disks.bind (·.get name) else s.file other name := by
  by_cases h : other = id
  · simp [setDisks, file, h]
  · simp [setDisks, file, h, Function.update_of_ne]

theorem Untouched.file {s : RestoreState} {ok : Prop} (h : Untouched s0 s ok) (id name : String) :
    s.file id name = s0.file id name := by
  rw [RestoreState.file, RestoreState.file, h.disks]

/-- A removal that fails has done damage exactly when it has taken a file. -/
theorem Untouched.remove {id : String} {s t : RestoreState} {ok : Prop} {c : RestoreChoice}
    {e : Message} (h : Untouched s0 s ok)
    (hp : RestoreState.perform format (.removeDisks id) c s = some (.error e, t)) :
    Unchanged s0 t ↔ ok ∧ Harmless timestamp s0 (.removeDisks id) c s := by
  cases c with
  | partly e' written removed =>
    obtain ⟨-, rfl⟩ : e' = e ∧ s.setDisks id ((s.disks id).map (·.without removed)) = t := by
      simpa [RestoreState.perform] using hp
    have hfile : ∀ name, ((s.disks id).map (·.without removed)).bind (·.get name) =
        if name ∈ removed then none else s0.file id name := by
      intro name
      rw [← h.file, RestoreState.file]
      cases s.disks id with
      | none => simp
      | some files => simp [Table.get_without]
    refine ⟨fun hu => ⟨h.harmless, fun name hn => ?_⟩, fun hh => ⟨fun other name => ?_, ?_⟩⟩
    · rw [← hu.files, RestoreState.file_setDisks, if_pos rfl, hfile, if_pos hn]
    · rw [RestoreState.file_setDisks, hfile, h.file]
      by_cases ho : other = id
      · rw [if_pos ho, ho]
        by_cases hn : name ∈ removed
        · rw [if_pos hn, hh.2 name hn]
        · rw [if_neg hn]
      · rw [if_neg ho]
    · exact h.manifests
  | ok => simp [RestoreState.perform] at hp
  | found m => simp [RestoreState.perform] at hp
  | fail e => simp [RestoreState.perform] at hp
  | failTook e => simp [RestoreState.perform] at hp

/-- A directory that is gone has done damage exactly when there were files in it. -/
theorem Untouched.rename {id : String} {s t : RestoreState} {ok : Prop} {c : RestoreChoice}
    {e : Message} (h : Untouched s0 s ok)
    (hp : RestoreState.perform format (.renameStaging id) c (s.setDisks id none) =
      some (.error e, t)) :
    Unchanged s0 t ↔ ok ∧ Harmless timestamp s0 (.renameStaging id) c (s.setDisks id none) := by
  cases c with
  | fail e' =>
    obtain ⟨-, rfl⟩ : e' = e ∧ s.setDisks id none = t := by
      simpa [RestoreState.perform] using hp
    refine ⟨fun hu => ⟨h.harmless, fun name => ?_⟩, fun hh => ⟨fun other name => ?_, ?_⟩⟩
    · rw [← hu.files, RestoreState.file_setDisks, if_pos rfl]
      rfl
    · rw [RestoreState.file_setDisks, h.file]
      by_cases ho : other = id
      · rw [if_pos ho, ho, hh.2 name]
        rfl
      · rw [if_neg ho]
    · exact h.manifests
  | ok => simp [RestoreState.perform] at hp
  | found m => simp [RestoreState.perform] at hp
  | partly e' written removed => simp [RestoreState.perform] at hp
  | failTook e => simp [RestoreState.perform] at hp

theorem wp_replaceDisks {id : String} {restored : VMManifest} {names : List String}
    {s : RestoreState} {ok : Prop} (h : Untouched s0 s ok) (hs : s.staging = some [])
    (hnames : (s0.backups id timestamp).map (·.map Prod.fst) = some names) :
    wp (watched format timestamp s0) (replaceDisks id timestamp restored (names.filter isDisk))
      (fun x t => ∀ e, x = .error e → (Unchanged s0 t.1 ↔ t.2)) (s, ok) := by
  refine wp_seq (wp_copyDisks h hs) ?_
  rintro x ⟨s, ok⟩ ⟨h, hstaged⟩
  cases x with
  | error e => exact fun _ _ => h.unchanged
  | ok x =>
    obtain ⟨staged, hs, hget⟩ := (hstaged rfl).backedUp hnames
    apply wp_watched
    rintro c (e | _) t hp
    · exact fun _ _ => h.remove hp
    · obtain ⟨rfl, rfl⟩ : c = .ok ∧ s.setDisks id none = t := by
        cases c <;> simp_all [RestoreState.perform]
      apply wp_watched
      rintro c (e | _) t hp
      · exact fun _ _ => h.step.rename hp
      · obtain ⟨rfl, rfl⟩ : c = .ok ∧
            { (s.setDisks id none).setDisks id s.staging with staging := none } = t := by
          cases c <;> simp_all [RestoreState.perform, RestoreState.setDisks]
        have replaced : Replaced s0 id timestamp
            { (s.setDisks id none).setDisks id s.staging with staging := none }
            ((ok ∧ True) ∧ True) := by
          refine ⟨fun name => ?_, fun other name ho => ?_, h.manifests, h.step.step.harmless⟩
          · rw [← hget]
            show RestoreState.file ((s.setDisks id none).setDisks id s.staging) id name = _
            rw [RestoreState.file_setDisks, if_pos rfl, hs]
            rfl
          · show RestoreState.file ((s.setDisks id none).setDisks id s.staging) other name = _
            rw [RestoreState.file_setDisks, if_neg ho, RestoreState.file_setDisks, if_neg ho, h.file]
        apply wp_watched
        rintro c x t hp e rfl
        exact replaced.save hp

theorem wp_restoreInPlace {mac : String → String} {id : String} {restored : VMManifest}
    {names : List String} {s : RestoreState} {ok : Prop} (h : Untouched s0 s ok)
    (hnames : (s0.backups id timestamp).map (·.map Prod.fst) = some names) :
    wp (watched format timestamp s0)
      (restoreInPlace mac id timestamp restored (names.filter isDisk))
      (fun x t => ∀ e, x = .error e → (Unchanged s0 t.1 ↔ t.2)) (s, ok) := by
  apply wp_watched
  rintro c (e | _) t hp
  · obtain rfl := RestoreCall.reads_same rfl hp
    exact fun _ _ => h.step.unchanged
  · obtain rfl := RestoreCall.reads_same rfl hp
    apply wp_watched
    rintro c running t hp
    obtain rfl := RestoreCall.reads_same rfl hp
    cases running with
    | true => exact fun _ _ => h.step.step.unchanged
    | false =>
      apply wp_watched
      rintro c (e | _) t hp
      · obtain rfl : s = t := by
          cases c <;> simp [RestoreState.perform] at hp
          exact hp.2
        exact fun _ _ => h.step.step.step.unchanged
      · obtain rfl : { s with staging := some [] } = t := by
          cases c <;> simp [RestoreState.perform] at hp
          exact hp
        have staged : Untouched s0 { s with staging := some [] } (((ok ∧ True) ∧ True) ∧ True) :=
          ⟨h.disks, h.manifests, h.backups, h.step.step.step.harmless⟩
        show wp _ (replaceDisks id timestamp restored (names.filter isDisk) >>= _) _ _
        refine wp_seq (wp_replaceDisks staged rfl hnames) ?_
        rintro result ⟨s, ok⟩ hend
        apply wp_watched
        rintro c _ t hp
        have kept : t.disks = s.disks ∧ t.manifests = s.manifests := by
          cases c <;> simp [RestoreState.perform] at hp <;> subst hp <;> exact ⟨rfl, rfl⟩
        have same : Unchanged s0 t ↔ Unchanged s0 s := by
          refine ⟨fun hu => ⟨fun other name => ?_, ?_⟩, fun hu => ⟨fun other name => ?_, ?_⟩⟩
          · rw [← hu.files, RestoreState.file, RestoreState.file, kept.1]
          · rw [← hu.manifests, kept.2]
          · rw [← hu.files, RestoreState.file, RestoreState.file, kept.1]
          · rw [← hu.manifests, kept.2]
        cases result with
        | error e => exact fun _ _ => same.trans ((hend e rfl).trans (and_iff_left trivial).symm)
        | ok _ => exact fun _ h => by cases h

theorem wp_restoreVM {mac : String → String} {ref : String} :
    wp (watched format timestamp s0) (restoreVM format mac ref timestamp)
      (fun x t => ∀ e, x = .error e → (Unchanged s0 t.1 ↔ t.2)) (s0, True) := by
  have h : Untouched s0 s0 True := ⟨rfl, rfl, rfl, trivial⟩
  unfold restoreVM
  split
  · exact fun _ _ => h.unchanged
  · apply wp_watched
    rintro c (e | m) t hp
    · obtain rfl := RestoreCall.reads_same rfl hp
      exact fun _ _ => h.step.unchanged
    · obtain rfl := RestoreCall.reads_same rfl hp
      apply wp_watched
      rintro c (e | listing) t hp
      · obtain rfl := RestoreCall.reads_same rfl hp
        exact fun _ _ => h.step.step.unchanged
      · obtain rfl := RestoreCall.reads_same rfl hp
        have hnames : (s0.backups m.id timestamp).map (·.map Prod.fst) = listing := by
          cases c <;> simp [RestoreState.perform] at hp
          exact hp
        cases listing with
        | none => exact fun _ _ => h.step.step.unchanged
        | some names =>
          show wp _ (if names.filter isDisk = [] then _ else _) _ _
          split
          · exact fun _ _ => h.step.step.unchanged
          · apply wp_watched
            rintro c (e | data) t hp
            · obtain rfl := RestoreCall.reads_same rfl hp
              exact fun _ _ => h.step.step.step.unchanged
            · obtain rfl := RestoreCall.reads_same rfl hp
              show wp _ (match format.parse data with | .error e => _ | .ok restored => _) _ _
              cases format.parse data with
              | error e => exact fun _ _ => h.step.step.step.unchanged
              | ok restored => exact wp_restoreInPlace h.step.step.step hnames

end Outcome

/-- A restore in place that ends in an error leaves the machine as it was exactly when each of its
steps is harmless. -/
theorem restoreVM_unchanged_iff {format : ManifestFormat} {mac : String → String}
    {ref timestamp : String} {choices : List RestoreChoice} {s t : RestoreState} {e : Message}
    (h : (restoreVM format mac ref timestamp).run (RestoreState.perform format) choices s =
      some (.error e, t)) :
    Unchanged s t ↔ (restoreVM format mac ref timestamp).Follows (RestoreState.perform format)
      (Harmless timestamp s) choices s :=
  wp_watch_run (Q := fun (x : Except Message VMManifest) u ok =>
    ∀ e, x = .error e → (Unchanged s u ↔ ok)) wp_restoreVM h e rfl

section OneMachine

def oneTimestamp : String := "20250101-120000.000000000-00000000-0000-0000-0000-000000000000"

/-- One machine with one disk, and a backup of an older state of the disk. -/
def oneMachine : RestoreState where
  manifests id := if id = "v" then some { id := "v", name := "v" } else none
  disks id := if id = "v" then some [("boot.qcow2", [1])] else none
  backups id timestamp := if id = "v" ∧ timestamp = oneTimestamp then
    some [("manifest.yml", []), ("boot.qcow2", [0])] else none
  running _ := false

def oneFormat : ManifestFormat where
  parse _ := .ok { id := "v", name := "v" }
  valid _ := true

/-- The choices of a restore of `oneMachine` until its disk is copied. -/
def oneCopied : List RestoreChoice := [.found { id := "v", name := "v" }, .ok, .ok, .ok, .ok, .ok, .ok]

def restoreOne (choices : List RestoreChoice) : Option (Except Message VMManifest × RestoreState) :=
  (restoreVM oneFormat (fun _ => "") "v" oneTimestamp).run (RestoreState.perform oneFormat)
    (oneCopied ++ choices) oneMachine

/-- The directory of the old disks cannot be removed: the restore ends with them in place. -/
theorem restoreVM_unchanged_one :
    ∃ t, restoreOne [.partly "busy" [] [], .ok] = some (.error "busy", t) ∧
      (Unchanged oneMachine t ↔
        (restoreVM oneFormat (fun _ => "") "v" oneTimestamp).Follows
          (RestoreState.perform oneFormat) (Harmless oneTimestamp oneMachine)
          (oneCopied ++ [.partly "busy" [] [], .ok]) oneMachine) :=
  ⟨_, rfl, restoreVM_unchanged_iff rfl⟩

/-- The directory of the old disks is gone when the new one cannot be renamed, and the staging
directory is removed too: the machine has no disk left. -/
theorem restoreVM_loses_disk :
    ∃ t, restoreOne [.ok, .fail "no space", .ok] = some (.error "no space", t) ∧
      oneMachine.file "v" "boot.qcow2" = some [1] ∧ t.file "v" "boot.qcow2" = none ∧
      ¬ Unchanged oneMachine t := by
  refine ⟨_, rfl, rfl, rfl, fun hu => ?_⟩
  have same := hu.files "v" "boot.qcow2"
  exact absurd same (by decide)

end OneMachine

end Maco.Engine
