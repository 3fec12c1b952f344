import Maco.Engine.Backup
import Maco.Lib.Distinct
import Mathlib.Data.List.Sort
import Mathlib.Algebra.Group.Nat.Defs

/-! `PruneBackups`: the backups of a machine that a retention policy no longer wants are deleted.
Times are nanoseconds after the zero time of Go, and the settings are `int`s of 64 bits. -/

namespace Maco.Engine

open Concurrent

structure BackupInfo where
  timestamp : String
  vmName : String := ""
  disks : List String := []
  live : Bool := false
  consistent : Bool := false
  sizeBytes : Int := 0
  createdAt : String := ""
  deriving DecidableEq, Repr

/-- A directory: its entries by name, and the files of those that are directories. -/
structure Directory where
  entries : List (String × Option Files)
  distinct : (entries.map Prod.fst).Nodup

def Directory.find (d : Directory) (name : String) : Option (Option Files) := d.entries.lookup name

/-- The directory without some of its entries. -/
def Directory.without (d : Directory) (names : List String) : Directory where
  entries := d.entries.filter fun e => e.1 ∉ names
  distinct := d.distinct.sublist (List.filter_sublist.map _)

theorem Directory.find_eq {d : Directory} {name : String} {entry : Option Files} :
    d.find name = some entry ↔ (name, entry) ∈ d.entries := by
  constructor
  · intro h
    obtain ⟨l₁, l₂, heq, -⟩ := List.lookup_eq_some_iff.mp h
    rw [heq]
    simp
  · intro hmem
    obtain ⟨l₁, l₂, heq⟩ := List.append_of_mem hmem
    have hdistinct := d.distinct
    rw [heq, List.map_append, List.nodup_append] at hdistinct
    refine List.lookup_eq_some_iff.mpr ⟨l₁, l₂, heq, fun e he => ?_⟩
    have hne := hdistinct.2.2 e.1 (List.mem_map_of_mem he) name (by simp)
    simpa using hne.symm

theorem Directory.find_without (d : Directory) (names : List String) (name : String) :
    (d.without names).find name = if name ∈ names then none else d.find name :=
  Table.get_without d.entries names name

structure BackupState where
  manifests : String → Option VMManifest
  backups : String → Directory
  now : Int

def BackupState.without (s : BackupState) (id : String) (names : List String) : BackupState :=
  { s with backups := Function.update s.backups id ((s.backups id).without names) }

/-- `time.Parse` of `time.RFC3339` and of `20060102-150405`, and `json.Unmarshal` into an info, with
whether it succeeded. -/
structure BackupFormats where
  rfc3339 : String → Option Int
  compact : Content → Option Int
  unmarshal : Content → BackupInfo → Bool × BackupInfo

inductive PruneCall where
  | resolve (ref : String)
  | readDir (id : String)
  | readMetadata (id name : String)
  | dirSize (id name : String)
  | fileNames (id name : String)
  | now
  | range (timestamps : List String)
  | stat (id name : String)
  | removeAll (id name : String)

@[reducible] def PruneCall.Reply : PruneCall → Type
  | .resolve _ => Except Message VMManifest
  | .readDir _ => Except Message (List (String × Bool))
  | .readMetadata _ _ => Option Content
  | .dirSize _ _ => Option Int
  | .fileNames _ _ => Option (List String)
  | .now => Int
  | .range _ => List String
  | .stat _ _ => Bool
  | .removeAll _ _ => Except Message Unit

abbrev Prune := Prog PruneCall PruneCall.Reply

abbrev PruneM := ExceptT Message Prune

def pruneCall (c : PruneCall) : Prune c.Reply := .request c

/-! ### The operation -/

/-- `readBackupMetadata` where the metadata cannot be read or decoded. -/
def describeBackup (id name : String) (info : BackupInfo) : Prune BackupInfo := do
  let size ← pruneCall (.dirSize id name)
  let files ← pruneCall (.fileNames id name)
  return { info with
    sizeBytes := size.getD info.sizeBytes
    disks := info.disks ++ (files.getD []).filter isDisk }

def readBackupMetadata (f : BackupFormats) (id name : String) : Prune BackupInfo := do
  match ← pruneCall (.readMetadata id name) with
  | none => describeBackup id name { timestamp := name }
  | some data =>
    match f.unmarshal data { timestamp := name } with
    | (true, info) => return { info with timestamp := name }
    | (false, info) => describeBackup id name info

/-- The entry is the directory of a backup. -/
def isBackupEntry (entry : String × Bool) : Bool := entry.2 && !".".toList.isPrefixOf entry.1.toList

def readBackups (f : BackupFormats) (id : String) : List (String × Bool) → Prune (List BackupInfo)
  | [] => return []
  | entry :: entries => do
    if isBackupEntry entry then
      let info ← readBackupMetadata f id entry.1
      return info :: (← readBackups f id entries)
    else readBackups f id entries

/-- The order of `ListBackups`. -/
def Newer (a b : BackupInfo) : Prop := b.timestamp ≤ a.timestamp

instance : DecidableRel Newer := fun a b => inferInstanceAs (Decidable (b.timestamp ≤ a.timestamp))

instance : Std.Total Newer := ⟨fun a b => String.le_total b.timestamp a.timestamp⟩

instance : IsTrans BackupInfo Newer := ⟨fun _ _ _ hab hbc => String.le_trans hbc hab⟩

/-- `ListBackups`: the newest timestamp first. -/
def listBackups (f : BackupFormats) (ref : String) : PruneM (List BackupInfo) := do
  let m ← ExceptT.mk (pruneCall (.resolve ref))
  let entries ← ExceptT.mk (pruneCall (.readDir m.id))
  let backups ← ExceptT.lift (readBackups f m.id entries)
  return backups.insertionSort Newer

/-- The date of a backup, if it can be parsed. -/
def backupDate (f : BackupFormats) (backup : BackupInfo) : Option Int :=
  let byName := if 15 ≤ backup.timestamp.utf8ByteSize then
      f.compact (backup.timestamp.toUTF8.data.toList.take 15) else none
  if backup.createdAt = "" then byName else (f.rfc3339 backup.createdAt).or byName

/-- `backupCreatedAt`, which is the zero time where there is no date. -/
def backupCreatedAt (f : BackupFormats) (backup : BackupInfo) : Int := (backupDate f backup).getD 0

/-- `time.Now().Add(-time.Duration(maxAgeDays) * 24 * time.Hour)`. -/
def ageCutoff (now : Int) (maxAgeDays : Int64) : Int :=
  now + (-maxAgeDays * 24 * 3600000000000).toInt

/-- The keys of `remove`. -/
def staleBackups (f : BackupFormats) (now : Int) (keepLast maxAgeDays : Int64)
    (backups : List BackupInfo) : List String :=
  let byCount := if 0 < keepLast.toInt ∧ keepLast.toInt < backups.length then
      backups.drop keepLast.toInt.toNat else []
  let byAge := if 0 < maxAgeDays.toInt then backups.filter fun backup =>
      backupCreatedAt f backup ≠ 0 && backupCreatedAt f backup < ageCutoff now maxAgeDays else []
  ((byCount ++ byAge).map (·.timestamp)).eraseDups

def deleteBackup (ref timestamp : String) : PruneM Unit := do
  if !backupTimestamp timestamp then ExceptT.mk (return .error "invalid backup id")
  else
    let m ← ExceptT.mk (pruneCall (.resolve ref))
    if ← ExceptT.lift (pruneCall (.stat m.id timestamp)) then
      ExceptT.mk (pruneCall (.removeAll m.id timestamp))
    else ExceptT.mk (return .error ("backup " ++ timestamp ++ " not found" : String))

/-- The loop of `PruneBackups`, with the number of backups deleted before. -/
def deleteBackups (id : String) : Nat → List String → PruneM Nat
  | deleted, [] => return deleted
  | deleted, timestamp :: timestamps => do
    deleteBackup id timestamp
    deleteBackups id (deleted + 1) timestamps

def pruneBackups (f : BackupFormats) (ref : String) (keepLast maxAgeDays : Int64) :
    PruneM Nat := do
  let m ← ExceptT.mk (pruneCall (.resolve ref))
  let backups ← listBackups f m.id
  let now ← ExceptT.lift (pruneCall .now)
  let order ← ExceptT.lift (pruneCall (.range (staleBackups f now keepLast maxAgeDays backups)))
  deleteBackups m.id 0 order

/-! ### What the calls do -/

/-- The choices of the environment: `found` is what a reference resolves to, `size` the size of a
directory, `order` that in which a map is ranged over, and `partly` a removal that fails after it
has taken some of the files. -/
inductive PruneChoice where
  | ok
  | found (m : VMManifest)
  | fail (e : Message)
  | size (n : Int)
  | order (timestamps : List String)
  | partly (e : Message) (removed : List String)

/-- What is left of an entry after some of its files are gone. -/
def Directory.thinned (d : Directory) (name : String) (removed : List String) : Directory where
  entries := d.entries.map fun e =>
    (e.1, if e.1 = name then e.2.map (·.without removed) else e.2)
  distinct := by simpa [Function.comp_def] using d.distinct

def BackupState.perform : Perform PruneCall PruneCall.Reply PruneChoice BackupState
  | .resolve ref, .found m, s =>
    if s.manifests m.id = some m ∧ (m.id = ref ∨ s.manifests ref = none ∧ m.name = ref) then
      some (.ok m, s)
    else none
  | .resolve _, .fail e, s => some (.error e, s)
  | .readDir id, .ok, s => some (.ok ((s.backups id).entries.map fun e => (e.1, e.2.isSome)), s)
  | .readDir _, .fail e, s => some (.error e, s)
  | .readMetadata id name, .ok, s =>
    some ((((s.backups id).find name).bind (·)).bind (·.get "metadata.json"), s)
  | .readMetadata _ _, .fail _, s => some (none, s)
  | .dirSize _ _, .size n, s => some (some n, s)
  | .dirSize _ _, .fail _, s => some (none, s)
  | .fileNames id name, .ok, s =>
    some ((((s.backups id).find name).bind (·)).map (·.map Prod.fst), s)
  | .fileNames _ _, .fail _, s => some (none, s)
  | .now, .ok, s => some (s.now, s)
  | .range timestamps, .order order, s => if order.isPerm timestamps then some (order, s) else none
  | .stat id name, .ok, s => some (((s.backups id).find name).isSome, s)
  | .removeAll id name, .ok, s => some (.ok (), s.without id [name])
  | .removeAll id name, .partly e removed, s =>
    some (.error e, { s with
      backups := Function.update s.backups id ((s.backups id).thinned name removed) })
  | _, _, _ => none

/-! ### The age -/

/-- A day in nanoseconds. -/
def day : Int := 86400000000000

theorem ageCutoff_eq (now : Int) (maxAgeDays : Int64) :
    ageCutoff now maxAgeDays = now + (-(maxAgeDays.toInt * day)).bmod (2 ^ 64) := by
  have hscale : -maxAgeDays.toInt * 24 * 3600000000000 = -(maxAgeDays.toInt * day) := by
    unfold day
    omega
  have h24 : (24 : Int64).toInt = 24 := by decide
  have hhour : (3600000000000 : Int64).toInt = 3600000000000 := by decide
  rw [ageCutoff, Int64.toInt_mul, Int64.toInt_mul, Int64.toInt_neg, h24, hhour,
    Int.bmod_mul_bmod, Int.mul_assoc, Int.bmod_mul_bmod, ← Int.mul_assoc, hscale]

/-- The product has room for its sign up to this many days. -/
theorem ageCutoff_exact {now : Int} {maxAgeDays : Int64} (hpos : 0 ≤ maxAgeDays.toInt)
    (h : maxAgeDays.toInt ≤ 106751) : ageCutoff now maxAgeDays = now - maxAgeDays.toInt * day := by
  rw [ageCutoff_eq, Int.bmod_eq_of_le]
  · unfold day
    omega
  · unfold day
    omega
  · unfold day
    omega

/-- The cutoff never lies before the date that is meant. -/
theorem le_ageCutoff {now : Int} {maxAgeDays : Int64} (hpos : 0 ≤ maxAgeDays.toInt) :
    now - maxAgeDays.toInt * day ≤ ageCutoff now maxAgeDays := by
  by_cases h : maxAgeDays.toInt ≤ 106751
  · rw [ageCutoff_exact hpos h]
  · have hlow := Int.le_bmod (x := -(maxAgeDays.toInt * day)) (m := 2 ^ 64) (by decide)
    rw [ageCutoff_eq]
    unfold day at hlow ⊢
    omega

/-! ### What the policy asks for -/

section Policy

variable (f : BackupFormats) (now : Int) (keepLast maxAgeDays : Int64) (backups : List BackupInfo)

/-- The place is after those of the newest backups that are kept. -/
def Outside (k : Nat) : Prop := 0 < keepLast.toInt ∧ keepLast.toInt ≤ k

/-- The backup was made before the days that are asked for. -/
def TooOld (backup : BackupInfo) : Prop :=
  0 < maxAgeDays.toInt ∧
    ∃ created, backupDate f backup = some created ∧ created < now - maxAgeDays.toInt * day

/-- The policy asks for the removal of a listed backup with this timestamp. -/
def Unwanted (name : String) : Prop :=
  ∃ k backup, backups[k]? = some backup ∧ backup.timestamp = name ∧
    (Outside keepLast k ∨ TooOld f now maxAgeDays backup)

/-- Just the backups that the policy asks for are gone. -/
structure Pruned (id : String) (s t : BackupState) : Prop where
  gone : ∀ name, Unwanted f now keepLast maxAgeDays backups name →
    (t.backups id).find name = none
  kept : ∀ name, ¬Unwanted f now keepLast maxAgeDays backups name →
    (t.backups id).find name = (s.backups id).find name
  others : ∀ other, other ≠ id → t.backups other = s.backups other

/-- None of the newest backups, which are kept by their number, was made between the date that is
meant and the cutoff that the code computes, and none at the zero time where that is too old. -/
def Fair : Prop :=
  0 < maxAgeDays.toInt → ∀ k backup created, backups[k]? = some backup → ¬Outside keepLast k →
    backupDate f backup = some created →
    (created = 0 → now - maxAgeDays.toInt * day ≤ 0) ∧
      (created ≠ 0 → now - maxAgeDays.toInt * day ≤ created → ageCutoff now maxAgeDays ≤ created)

variable {f now keepLast maxAgeDays backups}

theorem mem_drop_iff {α : Type} {l : List α} {n : Nat} {x : α} :
    x ∈ l.drop n ↔ ∃ k : Nat, n ≤ k ∧ l[k]? = some x := by
  rw [List.mem_iff_getElem?]
  constructor
  · rintro ⟨i, hi⟩
    rw [List.getElem?_drop] at hi
    exact ⟨n + i, by omega, hi⟩
  · rintro ⟨k, hk, hget⟩
    refine ⟨k - n, ?_⟩
    rw [List.getElem?_drop, Nat.add_sub_cancel' hk]
    exact hget

theorem mem_staleBackups {name : String} :
    name ∈ staleBackups f now keepLast maxAgeDays backups ↔
      ∃ k backup, backups[k]? = some backup ∧ backup.timestamp = name ∧
        (Outside keepLast k ∨ (0 < maxAgeDays.toInt ∧ backupCreatedAt f backup ≠ 0 ∧
          backupCreatedAt f backup < ageCutoff now maxAgeDays)) := by
  unfold staleBackups
  simp only [List.mem_eraseDups, List.mem_map, List.mem_append]
  constructor
  · rintro ⟨backup, hcount | hage, rfl⟩
    · split at hcount
      · rename_i hlimit
        obtain ⟨k, hk, hget⟩ := mem_drop_iff.mp hcount
        have houtside : Outside keepLast k := ⟨hlimit.1, by omega⟩
        exact ⟨k, backup, hget, rfl, .inl houtside⟩
      · contradiction
    · split at hage
      · rename_i hpos
        obtain ⟨hmem, hold⟩ := List.mem_filter.mp hage
        obtain ⟨k, hget⟩ := List.mem_iff_getElem?.mp hmem
        simp only [Bool.and_eq_true, decide_eq_true_eq] at hold
        exact ⟨k, backup, hget, rfl, .inr ⟨hpos, hold⟩⟩
      · contradiction
  · rintro ⟨k, backup, hget, rfl, ⟨hpos, hk⟩ | ⟨hpos, hold⟩⟩
    · obtain ⟨hlt, -⟩ := List.getElem?_eq_some_iff.mp hget
      have hlimit : 0 < keepLast.toInt ∧ keepLast.toInt < backups.length := ⟨hpos, by omega⟩
      refine ⟨backup, .inl ?_, rfl⟩
      rw [if_pos hlimit]
      exact mem_drop_iff.mpr ⟨k, by omega, hget⟩
    · refine ⟨backup, .inr ?_, rfl⟩
      rw [if_pos hpos, List.mem_filter]
      exact ⟨List.mem_of_getElem? hget, by simpa using hold⟩

/-- A listed backup is known by its timestamp. -/
theorem exists_listed_iff (hdistinct : (backups.map (·.timestamp)).Nodup)
    {P : Nat → BackupInfo → Prop} {k : Nat} {backup : BackupInfo}
    (hget : backups[k]? = some backup) :
    (∃ k' other, backups[k']? = some other ∧ other.timestamp = backup.timestamp ∧ P k' other) ↔
      P k backup := by
  constructor
  · rintro ⟨k', other, hother, hname, hP⟩
    obtain ⟨hlt, rfl⟩ := List.getElem?_eq_some_iff.mp hget
    obtain ⟨hlt', rfl⟩ := List.getElem?_eq_some_iff.mp hother
    have hsame : (backups.map (·.timestamp)).get ⟨k', by simpa using hlt'⟩ =
        (backups.map (·.timestamp)).get ⟨k, by simpa using hlt⟩ := by
      simpa using hname
    obtain rfl := Fin.mk.inj (hdistinct.get_inj_iff.mp hsame)
    exact hP
  · exact fun hP => ⟨k, backup, hget, rfl, hP⟩

/-- The keys of the map are the unwanted backups just where the policy is fair. -/
theorem staleBackups_iff (hdistinct : (backups.map (·.timestamp)).Nodup)
    (hdates : ∀ backup ∈ backups, (backupDate f backup).isSome) :
    (∀ name, name ∈ staleBackups f now keepLast maxAgeDays backups ↔
      Unwanted f now keepLast maxAgeDays backups name) ↔
      Fair f now keepLast maxAgeDays backups := by
  constructor
  · intro hsame hpos k backup created hget hkept hdate
    have hboth := hsame backup.timestamp
    rw [mem_staleBackups, exists_listed_iff hdistinct hget, Unwanted,
      exists_listed_iff hdistinct hget] at hboth
    simp only [hkept, false_or, TooOld, hpos, true_and, backupCreatedAt, hdate, Option.getD_some,
      Option.some.injEq, exists_eq_left'] at hboth
    constructor
    · rintro rfl
      have hnot : ¬(0 : Int) < now - maxAgeDays.toInt * day := by simpa using hboth
      omega
    · intro hzero hyoung
      by_contra hlt
      have hold := hboth.mp ⟨hzero, by omega⟩
      omega
  · intro hfair name
    rw [mem_staleBackups, Unwanted]
    apply exists_congr
    intro k
    apply exists_congr
    intro backup
    apply and_congr_right
    intro hget
    apply and_congr_right
    intro _
    by_cases hkept : Outside keepLast k
    · simp only [hkept, true_or]
    · obtain ⟨created, hdate⟩ :=
        Option.isSome_iff_exists.mp (hdates backup (List.mem_of_getElem? hget))
      simp only [hkept, false_or, TooOld, backupCreatedAt, hdate, Option.getD_some,
        Option.some.injEq, exists_eq_left']
      apply and_congr_right
      intro hpos
      obtain ⟨hzero, hyoung⟩ := hfair hpos k backup created hget hkept hdate
      have hle : now - maxAgeDays.toInt * day ≤ ageCutoff now maxAgeDays :=
        le_ageCutoff (by omega)
      constructor
      · rintro ⟨hne, hlt⟩
        by_contra hnot
        have := hyoung hne (by omega)
        omega
      · intro hlt
        refine ⟨fun h0 => ?_, by omega⟩
        have := hzero h0
        omega

end Policy

/-! ### Runs -/

/-- The backup of a directory, by its metadata or, where these cannot be read, by its name. -/
def DescribedBy (f : BackupFormats) (s : BackupState) (id name : String) (backup : BackupInfo) :
    Prop :=
  backup.timestamp = name ∧ ∃ files, (s.backups id).find name = some (some files) ∧
    (backup.createdAt = "" ∨ ∃ data info, Table.get files "metadata.json" = some data ∧
      f.unmarshal data { timestamp := name } = (true, info) ∧
      backup = { info with timestamp := name })

/-- The list is of the machine's backups, each once, with the newest timestamp first. -/
structure Listed (f : BackupFormats) (s : BackupState) (id : String) (backups : List BackupInfo) :
    Prop where
  distinct : (backups.map (·.timestamp)).Nodup
  ordered : backups.Pairwise Newer
  described : ∀ backup ∈ backups, DescribedBy f s id backup.timestamp backup
  complete : ∀ name files, (s.backups id).find name = some (some files) →
    isBackupEntry (name, true) = true → name ∈ backups.map (·.timestamp)

/-- The metadata of every backup can be decoded. -/
def BackupState.Decodes (f : BackupFormats) (s : BackupState) : Prop :=
  ∀ id name files data, (s.backups id).find name = some (some files) →
    Table.get files "metadata.json" = some data → (f.unmarshal data { timestamp := name }).1 = true

section Runs

variable {f : BackupFormats} {s : BackupState} {id : String}

/-- A prune runs alone. -/
abbrev pruning : Setting PruneCall PruneCall.Reply PruneChoice BackupState :=
  Setting.alone BackupState.perform fun _ _ _ => True

theorem wp_pruneCall {a : PruneCall} {Q : a.Reply → BackupState → Prop}
    (h : ∀ c r t, BackupState.perform a c s = some (r, t) → Q r t) :
    wp pruning (pruneCall a) Q s :=
  wp_alone_call fun c r t _ hp => h c r t hp

theorem wpOk_resolve {ref : String} {Q : VMManifest → BackupState → Prop}
    (h : ∀ m, s.manifests m.id = some m → (m.id = ref ∨ s.manifests ref = none ∧ m.name = ref) →
      Q m s) : wpOk pruning (ExceptT.mk (pruneCall (.resolve ref))) Q s := by
  refine wp_pruneCall fun c r t hp => ?_
  rintro m rfl
  cases c with
  | found m' =>
    rw [BackupState.perform] at hp
    split at hp
    · rename_i hfound
      cases hp
      exact h m hfound.1 hfound.2
    · contradiction
  | ok | fail e | size n | order l | partly e l => cases hp

/-- A machine that is known by its id resolves to itself. -/
theorem wpOk_resolve_id {m : VMManifest} {Q : VMManifest → BackupState → Prop}
    (hm : s.manifests m.id = some m) (h : Q m s) :
    wpOk pruning (ExceptT.mk (pruneCall (.resolve m.id))) Q s := by
  refine wpOk_resolve fun m' hm' href => ?_
  rcases href with hid | ⟨hnone, -⟩
  · rw [hid, hm] at hm'
    cases hm'
    exact h
  · rw [hm] at hnone
    contradiction

theorem wp_describeBackup {name : String} {info : BackupInfo} :
    wp pruning (describeBackup id name info)
      (fun b t => t = s ∧ b.timestamp = info.timestamp ∧ b.createdAt = info.createdAt) s := by
  refine wp_seq (P := fun _ t => t = s) (wp_pruneCall fun c r t hp => ?_) fun size t ht => ?_
  · cases c <;> cases hp <;> rfl
  subst ht
  refine wp_seq (P := fun _ u => u = t) (wp_pruneCall fun c r u hp => ?_) fun files u hu => ?_
  · cases c <;> cases hp <;> rfl
  exact ⟨hu, rfl, rfl⟩

theorem wp_readBackupMetadata {name : String} {files : Files} (hs : s.Decodes f)
    (hname : (s.backups id).find name = some (some files)) :
    wp pruning (readBackupMetadata f id name)
      (fun b t => t = s ∧ DescribedBy f s id name b) s := by
  refine wp_seq (P := fun r t => t = s ∧ ∀ data, r = some data →
    Table.get files "metadata.json" = some data) (wp_pruneCall fun c r t hp => ?_) ?_
  · cases c with
    | ok =>
      cases hp
      refine ⟨rfl, fun data hdata => ?_⟩
      rw [hname] at hdata
      exact hdata
    | fail e =>
      cases hp
      exact ⟨rfl, nofun⟩
    | found m | size n | order l | partly e l => cases hp
  · rintro r t ⟨rfl, hdata⟩
    cases r with
    | none =>
      refine wp_mono wp_describeBackup fun b u hb => ?_
      exact ⟨hb.1, hb.2.1, files, hname, .inl hb.2.2⟩
    | some data =>
      have hread := hdata data rfl
      have hok := hs id name files data hname hread
      rcases hinfo : f.unmarshal data { timestamp := name } with ⟨ok, info⟩
      rw [hinfo] at hok
      change ok = true at hok
      subst hok
      show wp pruning (match f.unmarshal data { timestamp := name } with
        | (true, info) => (return { info with timestamp := name } : Prune BackupInfo)
        | (false, info) => describeBackup id name info) _ t
      rw [hinfo]
      exact ⟨rfl, rfl, files, hname, .inr ⟨data, info, hread, hinfo, rfl⟩⟩

/-- Every directory of a backup is described, in the order of the entries. -/
theorem wp_readBackups {entries : List (String × Bool)} (hs : s.Decodes f)
    (hentries : ∀ e ∈ entries, e.2 = true → ∃ files, (s.backups id).find e.1 = some (some files)) :
    wp pruning (readBackups f id entries) (fun backups t => t = s ∧
      backups.map (·.timestamp) = (entries.filter isBackupEntry).map Prod.fst ∧
      ∀ b ∈ backups, DescribedBy f s id b.timestamp b) s := by
  induction entries with
  | nil => exact ⟨rfl, rfl, by simp⟩
  | cons e entries ih =>
    have hrest := ih fun e' he' => hentries e' (List.mem_cons_of_mem e he')
    unfold readBackups
    split
    · rename_i hbackup
      have hdir : e.2 = true := by
        unfold isBackupEntry at hbackup
        simp only [Bool.and_eq_true] at hbackup
        exact hbackup.1
      obtain ⟨files, hfind⟩ := hentries e List.mem_cons_self hdir
      refine wp_seq (wp_readBackupMetadata hs hfind) ?_
      rintro b t ⟨rfl, hb⟩
      refine wp_seq hrest ?_
      rintro backups u ⟨rfl, hnames, hall⟩
      refine ⟨rfl, ?_, ?_⟩
      · rw [List.filter_cons_of_pos hbackup, List.map_cons, List.map_cons, hnames, hb.1]
      · intro b' hb'
        rcases List.mem_cons.mp hb' with rfl | hb'
        · rw [hb.1]
          exact hb
        · exact hall b' hb'
    · rename_i hbackup
      rw [List.filter_cons_of_neg hbackup]
      exact hrest

theorem wpOk_listBackups {m : VMManifest} (hs : s.Decodes f) (hm : s.manifests m.id = some m) :
    wpOk pruning (listBackups f m.id) (fun backups t => t = s ∧ Listed f s m.id backups) s := by
  refine wpOk_bind (wpOk_resolve_id (Q := fun m' t => t = s ∧ m' = m) hm ⟨rfl, rfl⟩) ?_
  rintro m' t ⟨rfl, rfl⟩
  refine wpOk_bind (P := fun entries u => u = t ∧
    entries = (t.backups m'.id).entries.map fun e => (e.1, e.2.isSome)) ?_ ?_
  · refine wp_pruneCall fun c r u hp => ?_
    rintro entries rfl
    cases c with
    | ok =>
      cases hp
      exact ⟨rfl, rfl⟩
    | found m | fail e | size n | order l | partly e l => cases hp
  rintro entries u ⟨rfl, rfl⟩
  have hentries : ∀ e ∈ (u.backups m'.id).entries.map fun e => (e.1, e.2.isSome), e.2 = true →
      ∃ files, (u.backups m'.id).find e.1 = some (some files) := by
    intro e he hdir
    obtain ⟨⟨name, entry⟩, hmem, rfl⟩ := List.mem_map.mp he
    obtain ⟨files, hfiles⟩ := Option.isSome_iff_exists.mp hdir
    refine ⟨files, Directory.find_eq.mpr ?_⟩
    change entry = some files at hfiles
    rwa [hfiles] at hmem
  refine wpOk_bind (wpOk_lift (wp_readBackups hs hentries)) ?_
  rintro backups v ⟨rfl, hnames, hall⟩
  refine wpOk_pure ⟨rfl, ?_⟩
  have hperm := List.perm_insertionSort Newer backups
  have hsublist : List.Sublist (backups.map (·.timestamp)) ((v.backups m'.id).entries.map Prod.fst) := by
    rw [hnames]
    refine (List.filter_sublist.map Prod.fst).trans ?_
    simp [Function.comp_def]
  refine ⟨?_, ?_, fun b hb => hall b (hperm.mem_iff.mp hb), fun name files hfind hbackup => ?_⟩
  · exact ((hperm.map _).nodup_iff).mpr ((v.backups m'.id).distinct.sublist hsublist)
  · exact List.pairwise_insertionSort Newer backups
  · rw [(hperm.map _).mem_iff, hnames, List.mem_map]
    refine ⟨(name, true), List.mem_filter.mpr ⟨?_, hbackup⟩, rfl⟩
    exact List.mem_map.mpr ⟨(name, some files), Directory.find_eq.mp hfind, rfl⟩

theorem BackupState.without_without (s : BackupState) (id : String) (names more : List String) :
    (s.without id names).without id more = s.without id (names ++ more) := by
  have hentries : ((s.backups id).without names).without more =
      (s.backups id).without (names ++ more) := by
    unfold Directory.without
    congr 1
    rw [List.filter_filter]
    apply List.filter_congr
    intro e _
    by_cases h : e.1 ∈ names <;> simp [h]
  simp only [BackupState.without, Function.update_self, hentries, Function.update_idem]

theorem wpOk_deleteBackup {m : VMManifest} {timestamp : String}
    (hm : s.manifests m.id = some m) :
    wpOk pruning (deleteBackup m.id timestamp) (fun _ t => t = s.without m.id [timestamp]) s := by
  unfold deleteBackup
  split
  · exact wpOk_fail
  · refine wpOk_bind (wpOk_resolve_id (Q := fun m' t => t = s ∧ m' = m) hm ⟨rfl, rfl⟩) ?_
    rintro m' t ⟨rfl, rfl⟩
    refine wpOk_bind (P := fun _ u => u = t) (wpOk_lift (wp_pruneCall fun c r u hp => ?_)) ?_
    · cases c with
      | ok =>
        cases hp
        rfl
      | found m | fail e | size n | order l | partly e l => cases hp
    rintro found u rfl
    split
    · refine wp_pruneCall fun c r v hp => ?_
      rintro ⟨⟩ rfl
      cases c with
      | ok =>
        cases hp
        rfl
      | found m | fail e | size n | order l | partly e l => cases hp
    · exact wpOk_fail

theorem wpOk_deleteBackups {m : VMManifest} {deleted : Nat} {timestamps removed : List String}
    (hm : s.manifests m.id = some m) :
    wpOk pruning (deleteBackups m.id deleted timestamps)
      (fun _ t => t = s.without m.id (removed ++ timestamps)) (s.without m.id removed) := by
  induction timestamps generalizing deleted removed with
  | nil =>
    rw [List.append_nil]
    exact wpOk_pure rfl
  | cons timestamp timestamps ih =>
    unfold deleteBackups
    refine wpOk_bind (wpOk_deleteBackup hm) ?_
    rintro _ t rfl
    rw [BackupState.without_without]
    have hnext : wpOk pruning (deleteBackups m.id (deleted + 1) timestamps)
        (fun _ t => t = s.without m.id ((removed ++ [timestamp]) ++ timestamps))
        (s.without m.id (removed ++ [timestamp])) := ih
    rwa [List.append_assoc] at hnext

/-- A prune that succeeds has listed the backups and removed those that it found to be stale. -/
theorem wpOk_pruneBackups {ref : String} {keepLast maxAgeDays : Int64} (hs : s.Decodes f) :
    wpOk pruning (pruneBackups f ref keepLast maxAgeDays) (fun _ t => ∃ m backups order,
      (s.manifests m.id = some m ∧ (m.id = ref ∨ s.manifests ref = none ∧ m.name = ref)) ∧
        Listed f s m.id backups ∧
        (∀ name, name ∈ order ↔ name ∈ staleBackups f s.now keepLast maxAgeDays backups) ∧
        t = s.without m.id order) s := by
  refine wpOk_bind (wpOk_resolve (Q := fun m t => t = s ∧ s.manifests m.id = some m ∧
    (m.id = ref ∨ s.manifests ref = none ∧ m.name = ref)) fun m hm href => ⟨rfl, hm, href⟩) ?_
  rintro m t ⟨rfl, hm, href⟩
  refine wpOk_bind (wpOk_listBackups hs hm) ?_
  rintro backups u ⟨rfl, hlisted⟩
  refine wpOk_bind (P := fun now v => v = u ∧ now = u.now)
    (wpOk_lift (wp_pruneCall fun c r v hp => ?_)) ?_
  · cases c with
    | ok =>
      cases hp
      exact ⟨rfl, rfl⟩
    | found m | fail e | size n | order l | partly e l => cases hp
  rintro now v ⟨rfl, rfl⟩
  refine wpOk_bind (P := fun order w => w = v ∧
    ∀ name, name ∈ order ↔ name ∈ staleBackups f v.now keepLast maxAgeDays backups)
    (wpOk_lift (wp_pruneCall fun c r w hp => ?_)) ?_
  · cases c with
    | order l =>
      rw [BackupState.perform] at hp
      split at hp
      · rename_i hperm
        cases hp
        exact ⟨rfl, fun name => (List.isPerm_iff.mp hperm).mem_iff⟩
      · contradiction
    | ok | found m | fail e | size n | partly e l => cases hp
  rintro order w ⟨rfl, horder⟩
  have hnone : w.without m.id [] = w := by
    have hentries : (w.backups m.id).without [] = w.backups m.id := by
      unfold Directory.without
      simp
    simp only [BackupState.without, hentries, Function.update_eq_self]
  have hdelete : wpOk pruning (deleteBackups m.id 0 order)
      (fun _ t => t = w.without m.id ([] ++ order)) (w.without m.id []) := wpOk_deleteBackups hm
  rw [hnone] at hdelete
  exact wpOk_mono hdelete fun _ x hx => ⟨m, backups, order, ⟨hm, href⟩, hlisted, horder, hx⟩

end Runs

/-- What is removed is just what the policy asks for where the keys are just the unwanted ones. -/
theorem pruned_iff {f : BackupFormats} {s : BackupState} {id : String} {keepLast maxAgeDays : Int64}
    {backups : List BackupInfo} {order : List String} (hlisted : Listed f s id backups)
    (horder : ∀ name, name ∈ order ↔ name ∈ staleBackups f s.now keepLast maxAgeDays backups) :
    Pruned f s.now keepLast maxAgeDays backups id s (s.without id order) ↔
      ∀ name, name ∈ staleBackups f s.now keepLast maxAgeDays backups ↔
        Unwanted f s.now keepLast maxAgeDays backups name := by
  have hfind : ∀ name, ((s.without id order).backups id).find name =
      if name ∈ order then none else (s.backups id).find name := by
    intro name
    rw [← Directory.find_without]
    simp [BackupState.without]
  -- a stale backup and an unwanted one are both among those listed
  have hthere : ∀ (k : Nat) backup, backups[k]? = some backup →
      (s.backups id).find backup.timestamp ≠ none := by
    intro k backup hget
    obtain ⟨-, files, hfiles, -⟩ := hlisted.described backup (List.mem_of_getElem? hget)
    rw [hfiles]
    exact Option.some_ne_none _
  constructor
  · intro hpruned name
    constructor
    · intro hstale
      by_contra hwanted
      have hkept := hpruned.kept name hwanted
      rw [hfind, if_pos ((horder name).mpr hstale)] at hkept
      obtain ⟨k, backup, hget, rfl, -⟩ := mem_staleBackups.mp hstale
      exact hthere k backup hget hkept.symm
    · rintro hunwanted
      have hgone := hpruned.gone name hunwanted
      rw [hfind] at hgone
      by_contra hstale
      rw [if_neg (mt (horder name).mp hstale)] at hgone
      obtain ⟨k, backup, hget, rfl, -⟩ := hunwanted
      exact hthere k backup hget hgone
  · intro hsame
    refine ⟨fun name hunwanted => ?_, fun name hwanted => ?_, fun other hother => ?_⟩
    · rw [hfind, if_pos ((horder name).mpr ((hsame name).mpr hunwanted))]
    · rw [hfind, if_neg (mt (horder name).mp (mt (hsame name).mp hwanted))]
    · exact Function.update_of_ne hother _ _

/-- A machine with one backup of the first day of 2026, at a time one day later. -/
def labBackups : BackupState where
  manifests id := if id = "vm" then some { id := "vm", name := "vm" } else none
  backups id := if id = "vm" then
      ⟨[("20260101-000000.000000000-00000000-0000-0000-0000-000000000000",
        some [("disk.qcow2", []), ("manifest.yml", [])])], by simp⟩
    else ⟨[], by simp⟩
  now := 63902908800 * 1000000000

/-- The formats, as far as the backup needs them. -/
def labFormats : BackupFormats where
  rfc3339 _ := none
  compact s := if s = "20260101-000000".toUTF8.data.toList then some (63902822400 * 1000000000) else none
  unmarshal _ info := (false, info)

/-- The choices of the environment in which nothing fails. -/
def calmPrune : List PruneChoice :=
  [.found { id := "vm", name := "vm" }, .found { id := "vm", name := "vm" }, .ok, .ok, .size 0, .ok,
    .ok, .order ["20260101-000000.000000000-00000000-0000-0000-0000-000000000000"],
    .found { id := "vm", name := "vm" }, .ok, .ok]

/-- The backup as the prune reads it. -/
def labBackup : BackupInfo where
  timestamp := "20260101-000000.000000000-00000000-0000-0000-0000-000000000000"
  disks := ["disk.qcow2"]

/-- No metadata of a stored backup fail to be decoded, as there are none. -/
theorem labBackups_decodes : labBackups.Decodes labFormats := by
  intro id name files data hfind hdata
  have hmem := Directory.find_eq.mp hfind
  by_cases hid : id = "vm"
  · subst hid
    have hentry : name = labBackup.timestamp ∧
        files = [("disk.qcow2", []), ("manifest.yml", [])] := by
      simpa [labBackups, labBackup] using hmem
    obtain ⟨-, rfl⟩ := hentry
    contradiction
  · simp [labBackups, hid] at hmem

end Maco.Engine
