import Maco.Engine.Interfaces

/-! Whether a restore that succeeds is complete.  The backup may have lost files to a deletion that
was interrupted; the theorem says for which of them a restore, in place or as a new machine, brings
every disk back. -/

namespace Maco.Engine

open Concurrent

/-- The choices of the environment: `found` is what a reference resolves to, `name` a new id or name,
`process` the QEMU that runs, `published` a backup of the disks with the given contents, and
`restore` a choice for a step of a restore. -/
inductive VaultChoice where
  | ok
  | fail (e : String)
  | failTook (e : String)
  | found (m : VMManifest)
  | name (s : String)
  | process (pid : Option Nat)
  | published (timestamp : String) (contents : String → Content) (manifest metadata : Content)
  | restore (c : RestoreChoice)

def RestoreState.setManifest (s : RestoreState) (id : String) (m : Option VMManifest) :
    RestoreState :=
  { s with manifests := Function.update s.manifests id m }

/-- The files of a backup of the machine. -/
def RestoreState.published (s : RestoreState) (id : String) (contents : String → Content)
    (manifest metadata : Content) : Files :=
  (((s.disks id).getD []).map Prod.fst |>.filter isDisk |>.map fun name => (name, contents name)) ++
    [("manifest.yml", manifest), ("metadata.json", metadata)]

/-- The calls of backups and restores; a backup is published by one rename. -/
def RestoreState.performEngine (format : ManifestFormat) :
    Perform EngineCall EngineCall.Reply VaultChoice RestoreState
  | .lock _, .ok, s => some (.ok (), s)
  | .lock _, .fail e, s => some (.error e, s)
  | .unlock _, _, s => some ((), s)
  | .newString, .name id, s =>
    if s.manifests id = none ∧ s.disks id = none then some (id, s) else none
  | .vms (.resolve ref), .found m, s =>
    if s.manifests m.id = some m ∧ (m.id = ref ∨ s.manifests ref = none ∧ m.name = ref) then
      some (.ok m, s)
    else none
  | .vms (.resolve _), .fail e, s => some (.error e, s)
  | .vms (.load id), .found m, s =>
    if s.manifests id = some m ∧ m.id = id then some (.ok m, s) else none
  | .vms (.load _), .fail e, s => some (.error e, s)
  | .vms (.save m), .ok, s => if format.valid m then some (.ok (), s.setManifest m.id m) else none
  | .vms (.save _), .fail e, s => some (.error e, s)
  | .vms (.save m), .failTook e, s =>
    if format.valid m then some (.error e, s.setManifest m.id m) else none
  | .vms (.delete id), .ok, s => some (.ok (), s.setManifest id none)
  | .vms (.delete _), .fail e, s => some (.error e, s)
  | .vms (.uniqueVMName _), .name n, s => some (n, s)
  | .qemu _ .status, .process pid, s => some (pid, s)
  | .step (.backUp id), .published timestamp contents manifest metadata, s =>
    if s.backups id timestamp = none ∧
        (format.parse manifest).toOption = s.manifests id ∧ (s.manifests id).isSome ∧
        ((s.disks id).getD []).any fun e => isDisk e.1 then
      some (.ok (), { s with
        backups := Function.update s.backups id (Function.update (s.backups id) timestamp
          (some (s.published id contents manifest metadata))) })
    else none
  | .step (.backUp _), .fail e, s => some (.error e, s)
  | .restore c, .restore d, s => RestoreState.perform format c d s
  | _, _, _ => none

/-- The removal of a backup, interrupted when it has taken some of the files. -/
def RestoreState.interrupted (s : RestoreState) (id timestamp : String) (removed : List String) :
    RestoreState :=
  { s with
    backups := Function.update s.backups id (Function.update (s.backups id) timestamp
      ((s.backups id timestamp).map (·.without removed))) }

/-- The file of the boot disk and those of the data disks that a manifest lists. -/
def diskFiles (m : VMManifest) : List String :=
  "disk.qcow2" :: m.disks.map fun disk => disk.id ++ ".qcow2"

/-- The machine has each of its disks as it was backed up. -/
def Complete (original : Files) (m : VMManifest) (t : RestoreState) : Prop :=
  ∀ name ∈ diskFiles m, ∃ content, original.get name = some content ∧
    t.file m.id name = some content

/-! ### Runs -/

section Runs

variable {format : ManifestFormat} {s : RestoreState} {id timestamp : String}

/-- A restore runs alone. -/
abbrev vault (format : ManifestFormat) :
    Setting EngineCall EngineCall.Reply VaultChoice RestoreState :=
  Setting.alone (RestoreState.performEngine format) fun _ _ _ => True

theorem wp_engineCall {a : EngineCall} {Q : a.Reply → RestoreState → Prop}
    (h : ∀ c r t, RestoreState.performEngine format a c s = some (r, t) → Q r t) :
    wp (vault format) (engineCall a) Q s :=
  wp_alone_call fun c r t _ hp => h c r t hp

theorem performEngine_restore {a : RestoreCall} {c : VaultChoice} {r : a.Reply} {t : RestoreState}
    (h : RestoreState.performEngine format (.restore a) c s = some (r, t)) :
    ∃ d, RestoreState.perform format a d s = some (r, t) := by
  cases c with
  | restore d => exact ⟨d, h⟩
  | ok | fail e | failTook e | found m | name n | process p | published ts contents m data =>
    cases h

/-- A step of a restore, other than the save of a manifest. -/
theorem wp_restoreStep {a : RestoreCall} {Q : a.Reply → RestoreState → Prop}
    (ha : ∀ m, a ≠ .save m)
    (h : ∀ c r t, RestoreState.perform format a c s = some (r, t) → Q r t) :
    wp (vault format) (restoreStep a) Q s := by
  cases a with
  | save m => exact absurd rfl (ha m)
  | resolve _ | readDir _ _ | readManifest _ _ | lock _ | running _ | mkdirTemp | copyFile _ _ _
  | removeDisks _ | renameStaging _ | removeStaging =>
    apply wp_alone_call
    intro c r t _ hp
    obtain ⟨d, hd⟩ := performEngine_restore hp
    exact h d r t hd

theorem wp_save {m : VMManifest} {Q : Except String Unit → RestoreState → Prop}
    (hok : format.valid m = true → Q (.ok ()) (s.setManifest m.id m))
    (herror : ∀ e t, (t = s ∨ t = s.setManifest m.id m) → Q (.error e) t) :
    wp (vault format) (engineCall (.vms (.save m))) Q s := by
  refine wp_engineCall fun c r t hp => ?_
  cases c with
  | ok =>
    rw [RestoreState.performEngine] at hp
    split at hp
    · rename_i hvalid
      cases hp
      exact hok hvalid
    · contradiction
  | fail e =>
    cases hp
    exact herror e s (.inl rfl)
  | failTook e =>
    rw [RestoreState.performEngine] at hp
    split at hp
    · cases hp
      exact herror e _ (.inr rfl)
    · contradiction
  | found m | name n | process p | published ts contents m data | restore c => cases hp

theorem wpOk_save {m : VMManifest} :
    wpOk (vault format) (save m) (fun _ t => t = s.setManifest m.id m) s := by
  refine wpOk_bind (P := fun (r : Except String Unit) t => r = .ok () → t = s.setManifest m.id m)
    (wpOk_lift (wp_save (fun _ _ => rfl) fun e t _ => nofun)) ?_
  rintro (e | _) t ht
  · exact wpOk_fail
  · exact wpOk_pure (ht rfl)

theorem wpOk_resolveVM {ref : String} : wpOk (vault format) (resolveVM ref) (fun m t => t = s ∧
    s.manifests m.id = some m ∧ (m.id = ref ∨ s.manifests ref = none ∧ m.name = ref)) s := by
  refine wp_engineCall fun c r t hp => ?_
  rintro m rfl
  cases c with
  | found m' =>
    rw [RestoreState.performEngine] at hp
    split at hp
    · rename_i hfound
      cases hp
      exact ⟨rfl, hfound⟩
    · contradiction
  | fail e => cases hp
  | ok | failTook e | name n | process p | published ts contents m data | restore c => cases hp

/-- The lock, and what is done under it. -/
theorem wpOk_locked {α : Type} {l : LockName} {body : EngineM α} {Q : α → RestoreState → Prop}
    (h : wpOk (vault format) body Q s) : wpOk (vault format) (locked l body) Q s := by
  refine wpOk_bind (P := fun _ t => t = s) (wp_engineCall fun c r t hp => ?_) ?_
  · rintro _ rfl
    cases c with
    | ok =>
      cases hp
      rfl
    | fail e | failTook e | found m | name n | process p | published ts contents m data
    | restore c => cases hp
  rintro _ t rfl
  refine wpOk_bind (wpOk_lift h) ?_
  rintro r u hr
  refine wpOk_bind (P := fun _ v => v = u) (wpOk_lift (wp_engineCall fun c r v hp => ?_)) ?_
  · cases hp
    rfl
  rintro _ v rfl
  exact hr

/-! ### The disks -/

/-- A copy of the backup's disks. -/
theorem wp_copyDisks_lift {s0 : RestoreState} {disks : List String} {files : Files}
    (h : Untouched s0 s True) (hs : s.staging = some files) :
    wp (vault format) ((copyDisks id timestamp disks).lift ofRestore fromRestore)
      (fun x t => Untouched s0 t True ∧
        (x = .ok () → Staged s0 id timestamp files disks t)) s := by
  induction disks generalizing files s with
  | nil => exact ⟨h, fun _ => ⟨files, hs, fun name => by simp⟩⟩
  | cons disk disks ih =>
    rw [copyDisks, Prog.lift_bind]
    refine wp_seq (P := fun r t => Untouched s0 t True ∧ (r = .ok () →
      ∃ content, (s0.backups id timestamp).bind (·.get disk) = some content ∧
        t.staging = some (files.put disk content))) (wp_restoreStep (fun _ h => by cases h) fun c r t hp => ?_) ?_
    · cases c with
      | ok =>
        rw [RestoreState.perform] at hp
        split at hp
        · rename_i content hcontent
          cases hp
          rw [h.backups] at hcontent
          exact ⟨⟨h.disks, h.manifests, h.backups, trivial⟩, fun _ => ⟨content, hcontent, by simp [hs]⟩⟩
        · contradiction
      | fail e =>
        cases hp
        exact ⟨h, fun hok => by cases hok⟩
      | partly e written removed =>
        cases hp
        exact ⟨⟨h.disks, h.manifests, h.backups, trivial⟩, fun hok => by cases hok⟩
      | found m | failTook e => cases hp
    · rintro r t ⟨ht, hcopied⟩
      cases r with
      | error e => exact ⟨ht, fun hok => by cases hok⟩
      | ok x =>
        obtain ⟨content, hcontent, hstaging⟩ := hcopied rfl
        refine wp_mono (ih ht hstaging) fun x u hu => ⟨hu.1, fun hok => ?_⟩
        obtain ⟨staged, hstaged, hget⟩ := hu.2 hok
        refine ⟨staged, hstaged, fun name => ?_⟩
        simp only [hget, Table.get_put, List.mem_cons]
        by_cases hname : name = disk
        · simp [hname, hcontent]
        · simp [hname]

/-- The save that ends a restore in place. -/
theorem wp_restoreSave {m : VMManifest} {Q : Except Message Unit → RestoreState → Prop}
    (hok : Q (.ok ()) (s.setManifest m.id m)) (herror : ∀ e t, Q (.error e) t) :
    wp (vault format) (restoreStep (.save m)) Q s :=
  wp_seq (p := engineCall (.vms (.save m))) (f := fun r => .ret (r.mapError Message.text))
    (P := fun r t => Q (r.mapError Message.text) t)
    (wp_save (fun _ => hok) fun e t _ => herror (.text e) t) fun _ _ h => h

/-- Where the disks have been replaced they are those of the backup. -/
theorem wp_replaceDisks_lift {s0 : RestoreState} {restored : VMManifest} {names : List String}
    (h : Untouched s0 s True) (hs : s.staging = some [])
    (hnames : (s0.backups id timestamp).map (·.map Prod.fst) = some names) :
    wp (vault format)
      ((replaceDisks id timestamp restored (names.filter isDisk)).lift ofRestore fromRestore)
      (fun x t => x = .ok () → ∀ name, t.file id name = s0.backedUp id timestamp name) s := by
  rw [replaceDisks, Prog.lift_bind]
  refine wp_seq (wp_copyDisks_lift h hs) ?_
  rintro x t ⟨-, hstaged⟩
  cases x with
  | error e => exact nofun
  | ok x =>
    obtain ⟨staged, hstaging, hget⟩ := (hstaged rfl).backedUp hnames
    rw [Prog.lift_bind]
    refine wp_seq (P := fun r u => r = .ok () → u.staging = some staged)
      (wp_restoreStep nofun fun c r u hp => ?_) ?_
    · rintro rfl
      cases c with
      | ok =>
        cases hp
        exact hstaging
      | found m | fail e | partly e written removed | failTook e => cases hp
    rintro r u hu
    cases r with
    | error e => exact nofun
    | ok _ =>
      rw [Prog.lift_bind]
      refine wp_seq (P := fun r v => r = .ok () → ∀ name, v.file id name = staged.get name)
        (wp_restoreStep nofun fun c r v hp => ?_) ?_
      · rintro rfl name
        cases c with
        | ok =>
          cases hp
          show RestoreState.file (u.setDisks id u.staging) id name = _
          rw [RestoreState.file_setDisks, if_pos rfl, hu rfl]
          rfl
        | found m | fail e | partly e written removed | failTook e => cases hp
      rintro r v hv
      cases r with
      | error e => exact nofun
      | ok _ =>
        refine wp_restoreSave (fun _ name => ?_) fun e t => nofun
        exact (hv rfl name).trans (hget name)

theorem wpOk_mkdirTemp :
    wpOk (vault format) (demand (restoreStep .mkdirTemp))
      (fun _ t => t.staging = some [] ∧ Untouched s t True) s := by
  refine wp_restoreStep nofun fun c r t hp => ?_
  rintro _ rfl
  cases c with
  | ok =>
    cases hp
    exact ⟨rfl, rfl, rfl, rfl, trivial⟩
  | found m | fail e | partly e written removed | failTook e => cases hp

theorem wpOk_ensureThat {c : Bool} {e : Message} :
    wpOk (vault format) (ensureThat c e) (fun _ t => t = s) s := by
  unfold ensureThat
  split
  · exact wpOk_pure rfl
  · exact wpOk_fail

/-- Where a restore in place succeeds the disks are those of the backup. -/
theorem wpOk_replaceVM {x : Texts} {e : Paths} {restored : VMManifest} {names : List String}
    (hnames : (s.backups id timestamp).map (·.map Prod.fst) = some names) :
    wpOk (vault format) (replaceVM x e id timestamp restored (names.filter isDisk))
      (fun m t => ∀ name, t.file m.id name = s.backedUp id timestamp name) s := by
  refine wpOk_locked ?_
  refine wpOk_bind (P := fun _ t => t = s) ?_ ?_
  · refine wpOk_bind (P := fun _ t => t = s) (wpOk_lift (wp_engineCall fun c r t hp => ?_)) ?_
    · cases c with
      | process pid =>
        cases hp
        rfl
      | ok | fail e | failTook e | found m | name n | published ts contents m data | restore c =>
        cases hp
    · rintro pid t rfl
      exact wpOk_pure rfl
  rintro running t rfl
  refine wpOk_bind wpOk_ensureThat ?_
  rintro _ u rfl
  refine wpOk_bind wpOk_mkdirTemp ?_
  rintro _ v ⟨hstaging, huntouched⟩
  refine wpOk_bind (wpOk_lift (wp_replaceDisks_lift huntouched hstaging hnames)) ?_
  rintro result w hresult
  refine wpOk_bind (P := fun _ t => t.disks = w.disks)
    (wpOk_lift (wp_restoreStep nofun fun c r t hp => ?_)) ?_
  · cases c with
    | ok | fail e =>
      cases hp
      rfl
    | found m | partly e written removed | failTook e => cases hp
  rintro _ t hdisks
  cases result with
  | error e =>
    intro m hm
    cases hm
  | ok _ =>
    intro m hm name
    cases hm
    rw [RestoreState.file, hdisks]
    exact hresult rfl name

/-- A program that does something more and then fails. -/
theorem wpOk_abandon {α β : Type} {p : EngineProg β} {f : β → EngineM α}
    {Q : α → RestoreState → Prop} (hf : ∀ x t, wpOk (vault format) (f x) Q t) :
    wpOk (vault format) (query p >>= f) Q s := by
  have hany : wp (vault format) p (fun _ _ => True) s :=
    wp_of_calls (Prog.Calls.any p) trivial (fun _ _ _ _ => trivial)
      fun _ _ _ _ _ _ _ _ _ => ⟨trivial, trivial⟩
  exact wpOk_bind (wpOk_lift hany) fun x t _ => hf x t

/-- Where a copy of the machine has been restored its disks are those of the backup. -/
theorem wpOk_restoreCopy {x : Texts} {restored : VMManifest} {names : List String}
    (hnames : (s.backups id timestamp).map (·.map Prod.fst) = some names) :
    wpOk (vault format) (restoreCopy x id timestamp restored (names.filter isDisk))
      (fun m t => ∀ name, t.file m.id name = s.backedUp id timestamp name) s := by
  refine wpOk_bind (P := fun _ t => t = s) (wpOk_lift (wp_engineCall fun c r t hp => ?_)) ?_
  · cases c with
    | name n =>
      rw [RestoreState.performEngine] at hp
      split at hp
      · cases hp
        rfl
      · contradiction
    | ok | fail e | failTook e | found m | process p | published ts contents m data | restore c =>
      cases hp
  rintro fresh t rfl
  refine wpOk_bind (P := fun _ u => u = t) (wpOk_lift (wp_engineCall fun c r u hp => ?_)) ?_
  · cases c with
    | name n =>
      cases hp
      rfl
    | ok | fail e | failTook e | found m | process p | published ts contents m data | restore c =>
      cases hp
  rintro name u rfl
  refine wpOk_bind wpOk_mkdirTemp ?_
  rintro _ v ⟨hstaging, huntouched⟩
  refine wpOk_bind (wpOk_lift (wp_copyDisks_lift huntouched hstaging)) ?_
  rintro result w ⟨-, hstaged⟩
  cases result with
  | error e => exact wpOk_abandon fun _ _ => wpOk_fail
  | ok _ =>
    obtain ⟨staged, hstaging, hget⟩ := (hstaged rfl).backedUp hnames
    refine wpOk_bind (wpOk_lift wpOk_save) ?_
    rintro r t hsaved
    cases r with
    | error e => exact wpOk_abandon fun _ _ => wpOk_fail
    | ok _ =>
      obtain rfl := hsaved () rfl
      refine wpOk_bind (P := fun r u => r = .ok () → ∀ name, u.file fresh name = staged.get name)
        (wpOk_lift (wp_restoreStep nofun fun c r u hp => ?_)) ?_
      · rintro rfl name
        cases c with
        | ok =>
          cases hp
          show RestoreState.file (w.setDisks fresh w.staging) fresh name = _
          rw [RestoreState.file_setDisks, if_pos rfl, hstaging]
          rfl
        | found m | fail e | partly e written removed | failTook e => cases hp
      rintro r u hu
      cases r with
      | error e => exact wpOk_abandon fun _ _ => wpOk_abandon fun _ _ => wpOk_fail
      | ok _ => exact wpOk_pure fun name => (hu rfl name).trans (hget name)

/-- A restore that succeeds has put the disks of the backup in place. -/
theorem wpOk_restoreMachine {x : Texts} {e : Paths} {ref : String} {asNew : Bool} :
    wpOk (vault format) (restoreMachine x e ref timestamp asNew) (fun m' t => ∃ m files,
      (s.manifests m.id = some m ∧ (m.id = ref ∨ s.manifests ref = none ∧ m.name = ref)) ∧
        s.backups m.id timestamp = some files ∧
        ∀ name, t.file m'.id name = s.backedUp m.id timestamp name) s := by
  refine wpOk_bind wpOk_ensureThat ?_
  rintro _ t rfl
  refine wpOk_bind wpOk_resolveVM ?_
  rintro m u ⟨rfl, hm, href⟩
  refine wpOk_bind (P := fun names v => v = u ∧
    (u.backups m.id timestamp).map (·.map Prod.fst) = names)
    (wp_restoreStep nofun fun c r v hp => ?_) ?_
  · rintro names rfl
    cases c with
    | ok =>
      cases hp
      exact ⟨rfl, rfl⟩
    | found m | fail e | partly e written removed | failTook e => cases hp
  rintro names v ⟨rfl, hnames⟩
  cases names with
  | none => exact wpOk_fail
  | some names =>
    obtain ⟨files, hfiles, -⟩ := Option.map_eq_some_iff.mp hnames
    refine wpOk_bind wpOk_ensureThat ?_
    rintro _ w rfl
    refine wpOk_bind (P := fun _ x => x = w) (wp_restoreStep nofun fun c r x hp => ?_) ?_
    · rintro data rfl
      cases c with
      | ok =>
        rw [RestoreState.perform] at hp
        split at hp
        · cases hp
          rfl
        · contradiction
      | found m | fail e | partly e written removed | failTook e => cases hp
    rintro data _ rfl
    split
    · exact wpOk_fail
    · split
      · refine wpOk_mono (wpOk_restoreCopy hnames) fun m' t ht => ?_
        exact ⟨m, files, ⟨hm, href⟩, hfiles, ht⟩
      · refine wpOk_mono (wpOk_replaceVM hnames) fun m' t ht => ?_
        exact ⟨m, files, ⟨hm, href⟩, hfiles, ht⟩

end Runs

theorem isDisk_diskFiles {m : VMManifest} {name : String} (h : name ∈ diskFiles m) :
    isDisk name = true := by
  rcases List.mem_cons.mp h with rfl | h
  · decide
  · obtain ⟨disk, -, rfl⟩ := List.mem_map.mp h
    rw [isDisk, String.toList_append, List.isSuffixOf_iff_suffix]
    exact List.suffix_append _ _

/-- A restore that succeeds is complete if and only if the backup still has the boot disk and every
data disk of its manifest. -/
theorem restoreMachine_complete_iff (x : Texts) (e : Paths) (ref timestamp : String) (asNew : Bool)
    (s t : RestoreState) (cs : List VaultChoice) (m' : VMManifest)
    (hrun : (restoreMachine x e ref timestamp asNew).run.run
      (RestoreState.performEngine x.manifest) cs s = some (.ok m', t)) :
    ∃ m files, (s.manifests m.id = some m ∧ (m.id = ref ∨ s.manifests ref = none ∧ m.name = ref)) ∧
      s.backups m.id timestamp = some files ∧
      ∀ original : Files, (∀ name content, Table.get files name = some content →
        original.get name = some content) →
        (Complete original m' t ↔ ∀ name ∈ diskFiles m', Table.get files name ≠ none) := by
  obtain ⟨m, files, hm, hfiles, hdisks⟩ :=
    wp_alone_runs wpOk_restoreMachine (Prog.runs_of_run hrun) m' rfl
  refine ⟨m, files, hm, hfiles, fun original hpart => ?_⟩
  have hplace : ∀ name ∈ diskFiles m', t.file m'.id name = Table.get files name := by
    intro name hname
    rw [hdisks, RestoreState.backedUp, if_pos (isDisk_diskFiles hname), hfiles]
    rfl
  constructor
  · intro hcomplete name hname
    obtain ⟨content, -, hfile⟩ := hcomplete name hname
    rw [hplace name hname] at hfile
    simp [hfile]
  · intro hall name hname
    obtain ⟨content, hcontent⟩ := Option.ne_none_iff_exists'.mp (hall name hname)
    exact ⟨content, hpart name content hcontent, (hplace name hname).trans hcontent⟩

/-! ### One machine with two disks -/

section TwoDisks

def twoDisks : VMManifest where
  id := "v"
  name := "v"
  disks := [{ id := "data", name := "data", sizeGiB := 1 }]

def twoDisksState : RestoreState where
  manifests id := if id = "v" then some twoDisks else none
  disks id := if id = "v" then some [("disk.qcow2", [1]), ("data.qcow2", [2])] else none
  backups _ _ := none
  running _ := false

def twoDisksTexts : Texts where
  cidr _ := true
  uuid _ := .ok ()
  mac _ := ""
  unicastMAC _ := none
  manifest := { parse := fun _ => .ok twoDisks, valid := fun _ => true }

def onePaths : Paths := ⟨fun id => "run/" ++ id, 0⟩

/-- The state after a backup of the machine in which nothing fails. -/
def backedUpState : Option (Except Message Unit × RestoreState) :=
  (backupVM onePaths "v").run.run (RestoreState.performEngine twoDisksTexts.manifest)
    [.found twoDisks, .ok, .found twoDisks, .process none,
      .published oneTimestamp (fun name => if name = "disk.qcow2" then [1] else [2]) [] [], .ok]
    twoDisksState

def restoreTwo (asNew : Bool) (choices : List VaultChoice) (s : RestoreState) :
    Option (Except Message VMManifest × RestoreState) :=
  (restoreMachine twoDisksTexts onePaths "v" oneTimestamp asNew).run.run
    (RestoreState.performEngine twoDisksTexts.manifest) choices s

/-- The choices of a restore in place in which nothing fails, for so many disks. -/
def calmRestore (disks : Nat) : List VaultChoice :=
  [.found twoDisks, .restore .ok, .restore .ok, .ok, .process none, .restore .ok] ++
    List.replicate disks (.restore .ok) ++ [.restore .ok, .restore .ok, .ok, .restore .ok, .ok]

/-- A whole backup brings both disks back. -/
theorem restoreMachine_complete_two : ∃ s t, backedUpState = some (.ok (), s) ∧
    ∃ m', restoreTwo false (calmRestore 2) s = some (.ok m', t) ∧ ∃ (m : VMManifest) (files : Files),
      s.backups m.id oneTimestamp = some files ∧
      (Complete files m' t ↔ ∀ name ∈ diskFiles m', Table.get files name ≠ none) := by
  obtain ⟨s, t, m', hs, hrun⟩ : ∃ s t m', backedUpState = some (.ok (), s) ∧
      restoreTwo false (calmRestore 2) s = some (.ok m', t) := ⟨_, _, _, rfl, rfl⟩
  obtain ⟨m, files, -, hfiles, hiff⟩ := restoreMachine_complete_iff twoDisksTexts onePaths "v"
    oneTimestamp false s t (calmRestore 2) m' hrun
  exact ⟨s, t, hs, m', hrun, m, files, hfiles, hiff files fun _ _ h => h⟩

/-- A backup that has lost the boot disk is restored without an error, and the boot disk is gone. -/
theorem restoreMachine_loses_boot_disk : ∃ s t m', backedUpState = some (.ok (), s) ∧
    (s.backups "v" oneTimestamp).bind (·.get "disk.qcow2") = some [1] ∧
    restoreTwo false (calmRestore 1) (s.interrupted "v" oneTimestamp ["disk.qcow2"]) =
      some (.ok m', t) ∧ "disk.qcow2" ∈ diskFiles m' ∧ t.file m'.id "disk.qcow2" = none :=
  ⟨_, _, _, rfl, rfl, rfl, List.mem_cons_self, rfl⟩

end TwoDisks

end Maco.Engine
