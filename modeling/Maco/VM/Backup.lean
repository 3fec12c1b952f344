import Maco.Lib.Program
import Mathlib.Data.List.Basic

/-! `BackupDisksContext`: the backup of the disks of a running machine.  The guest's file systems are
frozen, one transaction starts a job for every disk, the guest is thawed, and the jobs are awaited;
on an error they are cancelled.  QEMU and the guest agent take each command at once or not at all,
and any command can fail whether it was executed or not. -/

namespace Maco.VM.Backups

open Concurrent

structure BackupJob where
  source : String
  target : String

/-- An action `drive-backup` of the transaction, with `auto-dismiss` off. -/
structure Action where
  jobID : String
  device : String
  target : String
  deriving DecidableEq

/-- An attached image as `query-block` reports it. -/
structure Inserted where
  node : String
  filename : String

/-- An entry of `query-block-jobs`. -/
structure BlockJob where
  device : String
  status : String
  error : String := ""
  deriving DecidableEq

inductive GuestCommand where
  | freeze
  | thaw
  deriving DecidableEq

/-- The calls: the two sockets, the commands that go over them, and the clock; `ctxErr` and `wait` end
with an error when the context is cancelled, `rounds` says how often a loop is run before its deadline
has passed. -/
inductive BackupCall where
  | dialQMP
  | setDeadline
  | queryBlock
  | newString
  | dialQGA
  | guest (c : GuestCommand)
  | transaction (actions : List Action)
  | queryBlockJobs
  | jobDismiss (id : String)
  | jobCancel (id : String)
  | ctxErr
  | wait
  | rounds
  deriving DecidableEq

@[reducible] def BackupCall.Reply : BackupCall → Type
  | .queryBlock => Except String (List Inserted)
  | .queryBlockJobs => Except String (List BlockJob)
  | .newString => String
  | .rounds => Nat
  | _ => Except String Unit

abbrev BackupProg := Prog BackupCall BackupCall.Reply

/-- A part of an error: one that says that thawing failed, `ErrBackupCleanup`, or any other. -/
inductive Fault where
  | other (text : String)
  | thaw (text : String)
  | recover (text : String)
  | cleanup
  deriving DecidableEq

def Fault.text : Fault → String
  | .other text => text
  | .thaw text => "thaw guest: " ++ text
  | .recover text => "recover uncertain freeze: " ++ text
  | .cleanup => "backup jobs could not be confirmed stopped; staging files retained"

/-- An error, with the parts that `errors.Join` puts together. -/
abbrev Faults := List Fault

abbrev BackupM := ExceptT Faults BackupProg

def backupCall (c : BackupCall) : BackupProg c.Reply := .request c

def refuse {α : Type} (text : String) : BackupM α := ExceptT.mk (return .error [.other text])

/-- A call whose error ends the program. -/
def try_ {α : Type} (p : BackupProg (Except String α)) : BackupM α := ExceptT.mk do
  match ← p with
  | .ok x => return .ok x
  | .error e => return .error [.other e]

/-! ### The guest agent -/

def thawGuest : BackupProg (Except String Unit) := do
  match ← backupCall .dialQGA with
  | .error e => return .error e
  | .ok () => backupCall (.guest .thaw)

def freezeGuest : BackupM Bool := ExceptT.mk do
  match ← backupCall .dialQGA with
  | .error _ => return .ok false
  | .ok () =>
    match ← backupCall (.guest .freeze) with
    | .ok () => return .ok true
    | .error e =>
      match ← thawGuest with
      | .error thawErr => return .error [.other e, .recover thawErr]
      | .ok () => return .error [.other e]

/-! ### The jobs -/

def blockNodeForFile (path : String) : BackupM String := do
  let devices ← try_ (backupCall .queryBlock)
  match devices.find? (·.filename = path) with
  | none => refuse ("no attached disk for " ++ path)
  | some device => return device.node

/-- The actions of the transaction. -/
def planJobs : List BackupJob → BackupM (List Action)
  | [] => return []
  | backup :: backups => do
    let node ← blockNodeForFile backup.source
    let id ← ExceptT.lift (backupCall .newString)
    let actions ← planJobs backups
    return { jobID := "backup-" ++ id, device := node, target := backup.target } :: actions

/-- The loop of `awaitJobStatus`. -/
def awaitJobStatus (jobID : String) (n : Nat) : BackupM Unit := do
  try_ (backupCall .ctxErr)
  try_ (backupCall .setDeadline)
  let jobs ← try_ (backupCall .queryBlockJobs)
  match jobs.find? (·.device = jobID) with
  | none => refuse ("backup job " ++ jobID ++ " vanished before completing")
  | some job =>
    if job.status = "concluded" then
      try_ (backupCall (.jobDismiss jobID))
      if job.error ≠ "" then refuse ("backup job failed: " ++ job.error) else return ()
    else
      match n with
      | 0 => refuse "backup did not finish within 2h0m0s"
      | n + 1 => do
        try_ (backupCall .wait)
        awaitJobStatus jobID n

def awaitBackup (jobID : String) : BackupM Unit := do
  let n ← ExceptT.lift (backupCall .rounds)
  awaitJobStatus jobID n

/-- What `cancelBackups` does with a job that is listed. -/
def stopJob (wanted : List String) (job : BlockJob) : BackupM Unit :=
  if job.device ∉ wanted then return ()
  else if job.status = "concluded" then try_ (backupCall (.jobDismiss job.device))
  else try_ (backupCall (.jobCancel job.device))

/-- The loop of `cancelBackups`. -/
def cancelRounds (wanted : List String) : Nat → BackupM Unit
  | 0 => refuse "backup cancellation timed out"
  | n + 1 => do
    let jobs ← try_ (backupCall .queryBlockJobs)
    jobs.forM (stopJob wanted)
    if jobs.any (·.device ∈ wanted) then cancelRounds wanted n else return ()

def cancelBackups (jobIDs : List String) : BackupM Unit := do
  try_ (backupCall .dialQMP)
  let n ← ExceptT.lift (backupCall .rounds)
  cancelRounds jobIDs n

/-! ### The backup -/

/-- The closure `thaw`, with the variable `thawed` before and after it. -/
def thaw (thawed : Bool) : BackupProg (Except Faults Unit × Bool) :=
  if thawed then return (.ok (), true)
  else do
    match ← thawGuest with
    | .error e => return (.error [.thaw e], false)
    | .ok () => return (.ok (), true)

/-- From the transaction on, with the variable `thawed` at the end. -/
def runJobs (actions : List Action) (froze : Bool) : BackupProg (Except Faults Unit × Bool) := do
  match ← backupCall (.transaction actions) with
  | .error e => return (.error [.other e], !froze)
  | .ok () =>
    match ← thaw !froze with
    | (.error e, thawed) => return (.error e, thawed)
    | (.ok (), thawed) =>
      let result ← (actions.forM fun action => awaitBackup action.jobID).run
      return (result, thawed)

/-- The deferred cleanup. -/
def cleanUp (actions : List Action) (result : Except Faults Unit) : BackupProg (Except Faults Unit) :=
  match result with
  | .ok () => return .ok ()
  | .error e => do
    match ← (cancelBackups (actions.map (·.jobID))).run with
    | .error cancelErr => return .error (e ++ .cleanup :: cancelErr)
    | .ok () => return .error e

/-- The deferred thaw, which comes after the cleanup. -/
def thawAtEnd (thawed : Bool) (result : Except Faults Unit) : BackupProg (Except Faults Unit) := do
  match ← thaw thawed with
  | (.ok (), _) => return result
  | (.error thawErr, _) =>
    match result with
    | .ok () => return .error thawErr
    | .error e => return .error (e ++ thawErr)

def backupDisksContext (backups : List BackupJob) : BackupM Bool := do
  try_ (backupCall .dialQMP)
  try_ (backupCall .setDeadline)
  let actions ← planJobs backups
  let froze ← freezeGuest
  ExceptT.mk do
    let (result, thawed) ← runJobs actions froze
    let result ← cleanUp actions result
    let result ← thawAtEnd thawed result
    return result.map fun _ => froze

/-! ### QEMU and the guest -/

/-- What became of a job; the error of one that succeeded is empty, and a dismissed job is gone. -/
inductive JobState where
  | active
  | concluded (error : String)
  | dismissed (error : String)
  deriving DecidableEq

/-- A job that runs can conclude at any time. -/
def JobState.settled : JobState → Option String → JobState
  | .active, some error => .concluded error
  | st, _ => st

/-- The jobs by their ids, the newest first.  `froze` and `transaction` record what was executed: a
freeze, and the transaction with whether the file systems were frozen then. -/
structure Qemu where
  frozen : Bool := false
  jobs : List (String × JobState) := []
  froze : Bool := false
  transaction : Option (List Action × Bool) := none
  deriving DecidableEq

/-- The choices of the environment before and at a call: the jobs that conclude and their errors, the
answer, and whether a command with a failed answer was executed. -/
structure Choice where
  answer : (c : BackupCall) → c.Reply
  took : Bool := false
  concludes : String → Option String := fun _ => none

namespace Qemu

variable (s : Qemu) (c : Choice)

def status (id : String) : Option JobState := s.jobs.lookup id

/-- QEMU still has the job. -/
def Left (id : String) : Prop := s.status id = some .active ∨ ∃ e, s.status id = some (.concluded e)

def Succeeded (id : String) : Prop :=
  s.status id = some (.concluded "") ∨ s.status id = some (.dismissed "")

def settled : Qemu :=
  { s with jobs := s.jobs.map fun job => (job.1, job.2.settled (c.concludes job.1)) }

/-- An entry of the list says what is so. -/
def reports (job : BlockJob) : Bool :=
  match s.status job.device with
  | some .active => job.status ≠ "concluded"
  | some (.concluded e) => job.status = "concluded" && job.error = e
  | _ => false

/-- A job that QEMU still has is in the list. -/
def listed (jobs : List BlockJob) (id : String) : Bool :=
  match s.status id with
  | some (.dismissed _) => true
  | _ => jobs.any (·.device = id)

/-- The answer is one that the state admits. -/
def accepts : BackupCall → Bool
  | .queryBlockJobs =>
    match c.answer .queryBlockJobs with
    | .error _ => true
    | .ok jobs => jobs.all s.reports && s.jobs.all fun job => s.listed jobs job.1
  | _ => true

def after : BackupCall → Qemu
  | .guest .freeze =>
    if (c.answer (.guest .freeze)).isOk || c.took then { s with frozen := true, froze := true } else s
  | .guest .thaw =>
    if (c.answer (.guest .thaw)).isOk || c.took then { s with frozen := false } else s
  | .transaction actions =>
    if (c.answer (.transaction actions)).isOk || c.took then
      { s with jobs := actions.map (·.jobID, .active) ++ s.jobs,
               transaction := some (actions, s.frozen) }
    else s
  | .jobDismiss id =>
    match s.status id with
    | some (.concluded e) =>
      if (c.answer (.jobDismiss id)).isOk || c.took then
        { s with jobs := (id, .dismissed e) :: s.jobs }
      else s
    | _ => s
  | _ => s

def perform : Perform BackupCall BackupCall.Reply Choice Qemu := fun a c s =>
  if (s.settled c).accepts c a then some (c.answer a, (s.settled c).after c a) else none

theorem perform_cases {s t : Qemu} {c : Choice} {a : BackupCall} {r : a.Reply}
    (h : perform a c s = some (r, t)) :
    (s.settled c).accepts c a = true ∧ c.answer a = r ∧ (s.settled c).after c a = t := by
  rw [perform] at h
  split at h
  · rename_i haccepts
    cases h
    exact ⟨haccepts, rfl, rfl⟩
  · contradiction

/-! ### What stays as it is -/

/-- The calls that neither freeze nor thaw nor start jobs. -/
def Quiet : BackupCall → Prop
  | .guest _ | .transaction _ => False
  | _ => True

/-- Nothing is frozen or started; what is gone stays so, and what succeeded. -/
structure Kept (s t : Qemu) : Prop where
  froze : t.froze = s.froze
  transaction : t.transaction = s.transaction
  gone : ∀ id, ¬ s.Left id → ¬ t.Left id
  succeeded : ∀ id, s.Succeeded id → t.Succeeded id

/-- And nothing is thawed. -/
structure Steady (s t : Qemu) : Prop extends Kept s t where
  frozen : t.frozen = s.frozen

variable {s c} {t u : Qemu}

theorem Kept.trans (h : s.Kept t) (h' : t.Kept u) : s.Kept u where
  froze := h'.froze.trans h.froze
  transaction := h'.transaction.trans h.transaction
  gone id hid := h'.gone id (h.gone id hid)
  succeeded id hid := h'.succeeded id (h.succeeded id hid)

theorem Steady.refl (s : Qemu) : s.Steady s := ⟨⟨rfl, rfl, fun _ h => h, fun _ h => h⟩, rfl⟩

theorem Steady.trans (h : s.Steady t) (h' : t.Steady u) : s.Steady u :=
  ⟨h.toKept.trans h'.toKept, h'.frozen.trans h.frozen⟩

theorem mem_of_status {id : String} {st : JobState} (h : s.status id = some st) :
    (id, st) ∈ s.jobs := by
  obtain ⟨l, r, hjobs, -⟩ := List.lookup_eq_some_iff.mp h
  rw [hjobs]
  exact List.mem_append_right l List.mem_cons_self

theorem lookup_map_settled (f : String → Option String) (jobs : List (String × JobState))
    (id : String) :
    (jobs.map fun job => (job.1, job.2.settled (f job.1))).lookup id =
      (jobs.lookup id).map (·.settled (f id)) := by
  induction jobs with
  | nil => rfl
  | cons job jobs ih =>
    rw [List.map_cons, List.lookup_cons, List.lookup_cons]
    by_cases h : id = job.1
    · subst h
      simp
    · rw [beq_false_of_ne h]
      exact ih

theorem status_settled (id : String) :
    (s.settled c).status id = (s.status id).map (·.settled (c.concludes id)) :=
  lookup_map_settled c.concludes s.jobs id

theorem steady_settled (s : Qemu) (c : Choice) : s.Steady (s.settled c) where
  frozen := rfl
  froze := rfl
  transaction := rfl
  gone id h := by
    rw [Left, status_settled] at *
    cases hst : s.status id with
    | none => simp
    | some st =>
      rw [hst] at h
      cases st with
      | active => exact absurd (.inl rfl) h
      | concluded e => exact absurd (.inr ⟨e, rfl⟩) h
      | dismissed e => simp [JobState.settled]
  succeeded id h := by
    rw [Succeeded, status_settled] at *
    rcases h with h | h
    · exact .inl (by rw [h]; rfl)
    · exact .inr (by rw [h]; rfl)

theorem status_cons (id other : String) (st : JobState) (jobs : List (String × JobState)) :
    ({ s with jobs := (id, st) :: jobs } : Qemu).status other =
      if other = id then some st else ({ s with jobs := jobs } : Qemu).status other := by
  show List.lookup other ((id, st) :: jobs) = _
  rw [List.lookup_cons]
  by_cases h : other = id
  · subst h
    simp
  · rw [beq_false_of_ne h, if_neg h]
    rfl

theorem steady_dismissed {id e : String} (h : s.status id = some (.concluded e)) :
    s.Steady { s with jobs := (id, .dismissed e) :: s.jobs } where
  frozen := rfl
  froze := rfl
  transaction := rfl
  gone other hgone := by
    rw [Left, status_cons]
    split
    · simp
    · exact hgone
  succeeded other hdone := by
    rw [Succeeded, status_cons]
    split
    · rename_i heq
      subst heq
      rw [Succeeded, h] at hdone
      rcases hdone with hdone | hdone
      · cases hdone
        exact .inr rfl
      · cases hdone
    · exact hdone

/-- A quiet call. -/
theorem steady_after {a : BackupCall} (ha : Quiet a) : s.Steady (s.after c a) := by
  cases a with
  | guest g => exact ha.elim
  | transaction actions => exact ha.elim
  | jobDismiss id =>
    rw [after]
    split
    · rename_i e he
      split
      · exact steady_dismissed he
      · exact .refl s
    · exact .refl s
  | dialQMP | setDeadline | queryBlock | newString | dialQGA | queryBlockJobs | jobCancel _ | ctxErr
  | wait | rounds => exact .refl s

theorem kept_thaw : s.Kept (s.after c (.guest .thaw)) := by
  rw [after]
  split
  · exact ⟨rfl, rfl, fun _ h => h, fun _ h => h⟩
  · exact (Steady.refl s).toKept

end Qemu

/-- An error that says that thawing failed. -/
def Reports (e : Faults) : Prop := ∃ text, .thaw text ∈ e ∨ .recover text ∈ e

/-! ### Rules -/

section Rules

open Qemu

/-- The setting of the backup, which holds the machine's lock. -/
abbrev alone : Setting BackupCall BackupCall.Reply Choice Qemu :=
  Setting.alone Qemu.perform fun _ _ _ => True

variable {s : Qemu} {α β : Type}

theorem wp_backupCall (a : BackupCall) {Q : a.Reply → Qemu → Prop}
    (h : ∀ c, (s.settled c).accepts c a = true → Q (c.answer a) ((s.settled c).after c a)) :
    wp alone (backupCall a) Q s := by
  apply wp_alone_call
  intro c r t _ hp
  obtain ⟨haccepts, rfl, rfl⟩ := perform_cases hp
  exact h c haccepts

theorem wp_quiet (a : BackupCall) (ha : Quiet a) {Q : a.Reply → Qemu → Prop}
    (h : ∀ r t, s.Steady t → Q r t) : wp alone (backupCall a) Q s :=
  wp_backupCall a fun c _ => h _ _ ((steady_settled s c).trans (steady_after ha))

/-- A program that makes quiet calls alone. -/
theorem wp_steady {p : BackupProg α} (h : p.Calls Quiet) : wp alone p (fun _ t => s.Steady t) s := by
  refine wp_of_calls h (.refl s) ?_ ?_
  · rintro t u ht rfl
    exact ht
  · intro t a c r u ha ht _ hp
    obtain ⟨-, rfl, rfl⟩ := perform_cases hp
    exact ⟨trivial, ht.trans ((steady_settled t c).trans (steady_after ha))⟩

theorem calls_try {p : BackupProg (Except String α)} (h : p.Calls Quiet) :
    Prog.Calls Quiet (try_ p).run := by
  refine .bind h fun r => ?_
  cases r with
  | error e => exact .pure _
  | ok x => exact .pure _

theorem calls_refuse {e : String} : Prog.Calls Quiet (refuse e : BackupM α).run := .pure _

/-- A quiet call whose error ends the program. -/
theorem wp_try {p : BackupProg (Except String α)} {f : α → BackupM β}
    {Q : Except Faults β → Qemu → Prop} {P : Except String α → Qemu → Prop} (h : wp alone p P s)
    (herror : ∀ e t, P (.error e) t → Q (.error [.other e]) t)
    (hok : ∀ x t, P (.ok x) t → wp alone (f x).run Q t) : wp alone (try_ p >>= f).run Q s := by
  refine wp_andThen (wp_seq h fun r t hr => ?_)
  cases r with
  | error e => exact herror e t hr
  | ok x => exact hok x t hr

theorem wp_quietTry {s0 : Qemu} {p : BackupProg (Except String α)} {f : α → BackupM β}
    {Q : Except Faults β → Qemu → Prop} (hp : p.Calls Quiet) (hs : s0.Steady s)
    (herror : ∀ e t, s0.Steady t → Q (.error [.other e]) t)
    (hok : ∀ x t, s0.Steady t → wp alone (f x).run Q t) : wp alone (try_ p >>= f).run Q s :=
  wp_try (wp_mono (wp_steady hp) fun _ _ ht => hs.trans ht) herror hok

/-- The list of jobs says what is so, and leaves out none that QEMU still has. -/
theorem wp_queryBlockJobs {Q : Except String (List BlockJob) → Qemu → Prop}
    (h : ∀ r t, s.Steady t → (∀ jobs, r = .ok jobs → (∀ job ∈ jobs, t.reports job = true) ∧
      ∀ id, t.Left id → ∃ job ∈ jobs, job.device = id) → Q r t) :
    wp alone (backupCall .queryBlockJobs) Q s := by
  refine wp_backupCall .queryBlockJobs fun c hc => ?_
  refine h _ _ ((steady_settled s c).trans (steady_after trivial)) fun jobs hjobs => ?_
  show (∀ job ∈ jobs, (s.settled c).reports job = true) ∧
    ∀ id, (s.settled c).Left id → ∃ job ∈ jobs, job.device = id
  rw [accepts, hjobs] at hc
  obtain ⟨hreports, hlisted⟩ := Bool.and_eq_true_iff.mp hc
  refine ⟨List.all_eq_true.mp hreports, fun id hleft => ?_⟩
  rcases hleft with hleft | ⟨e, hleft⟩
  · have hany := List.all_eq_true.mp hlisted _ (mem_of_status hleft)
    rw [listed, hleft] at hany
    simpa using hany
  · have hany := List.all_eq_true.mp hlisted _ (mem_of_status hleft)
    rw [listed, hleft] at hany
    simpa using hany

/-- A job that is listed as concluded without an error has succeeded. -/
theorem succeeded_of_reports {job : BlockJob} (h : s.reports job = true)
    (hstatus : job.status = "concluded") (herror : job.error = "") : s.Succeeded job.device := by
  rw [reports] at h
  split at h
  · simp [hstatus] at h
  · rename_i e he
    have heq : job.error = e := by simpa [hstatus] using h
    subst heq
    rw [herror] at he
    exact .inl he
  · contradiction

end Rules

/-! ### The parts of the backup -/

section Parts

open Qemu

variable {s0 s : Qemu}

theorem calls_blockNodeForFile (path : String) : Prog.Calls Quiet (blockNodeForFile path).run := by
  refine .andThen (calls_try (.request trivial)) fun devices => ?_
  cases devices.find? (·.filename = path) with
  | none => exact calls_refuse
  | some device => exact .pure _

theorem calls_planJobs (backups : List BackupJob) : Prog.Calls Quiet (planJobs backups).run := by
  induction backups with
  | nil => exact .pure _
  | cons backup backups ih =>
    exact .andThen (calls_blockNodeForFile backup.source) fun node =>
      .andThen (.request trivial) fun id => .andThen ih fun _ => .pure _

/-- There is an action for each disk. -/
theorem wpOk_planJobs (backups : List BackupJob) :
    wpOk alone (planJobs backups) (fun actions t => s.Steady t ∧
      actions.map (·.target) = backups.map (·.target)) s := by
  induction backups generalizing s with
  | nil => exact wpOk_pure ⟨.refl s, rfl⟩
  | cons backup backups ih =>
    refine wpOk_bind (P := fun _ t => s.Steady t)
      (wp_mono (wp_steady (calls_blockNodeForFile backup.source)) fun _ _ ht _ _ => ht) ?_
    intro node t ht
    refine wpOk_bind (P := fun _ u => s.Steady u)
      (wpOk_lift (wp_quiet .newString trivial fun _ _ hu => ht.trans hu)) ?_
    intro id u hu
    refine wpOk_bind ih ?_
    rintro actions v ⟨hv, htargets⟩
    exact wpOk_pure ⟨hu.trans hv, by rw [List.map_cons, List.map_cons, htargets]⟩

/-- A job that is awaited without an error has succeeded. -/
theorem wp_awaitJobStatus {s0 s : Qemu} (id : String) (n : Nat) (hs : s0.Steady s) :
    wp alone (awaitJobStatus id n).run
      (fun r t => s0.Steady t ∧ (r = .ok () → t.Succeeded id)) s := by
  unfold awaitJobStatus
  refine wp_quietTry (.request trivial) hs (fun e t ht => ⟨ht, fun h => by cases h⟩) fun _ t ht => ?_
  refine wp_quietTry (.request trivial) ht (fun e t ht => ⟨ht, fun h => by cases h⟩) fun _ t ht => ?_
  refine wp_try (P := fun r u => s0.Steady u ∧ ∀ jobs, r = .ok jobs → ∀ job ∈ jobs,
    u.reports job = true) ?_ ?_ ?_
  · exact wp_queryBlockJobs fun r u hu h => ⟨ht.trans hu, fun jobs hjobs => (h jobs hjobs).1⟩
  · rintro e u ⟨hu, -⟩
    exact ⟨hu, fun h => by cases h⟩
  rintro jobs u ⟨hu, hjobs⟩
  cases hfind : jobs.find? (·.device = id) with
  | none => exact ⟨hu, fun h => by cases h⟩
  | some job =>
    have hid : job.device = id := by simpa using List.find?_some hfind
    have hreports := hjobs jobs rfl job (List.mem_of_find?_eq_some hfind)
    dsimp only
    split
    · rename_i hconcluded
      refine wp_quietTry (.request trivial) (Qemu.Steady.refl u) ?_ ?_
      · intro e v hv
        exact ⟨hu.trans hv, fun h => by cases h⟩
      intro _ v hv
      split
      · exact ⟨hu.trans hv, fun h => by cases h⟩
      · rename_i herror
        refine ⟨hu.trans hv, fun _ => hv.succeeded id ?_⟩
        rw [← hid]
        exact succeeded_of_reports hreports hconcluded (by simpa using herror)
    · cases n with
      | zero => exact ⟨hu, fun h => by cases h⟩
      | succ n =>
        exact wp_quietTry (.request trivial) hu (fun e t ht => ⟨ht, fun h => by cases h⟩)
          fun _ t ht => wp_awaitJobStatus id n ht

theorem wp_awaitBackup (id : String) (hs : s0.Steady s) :
    wp alone (awaitBackup id).run (fun r t => s0.Steady t ∧ (r = .ok () → t.Succeeded id)) s :=
  wp_liftThen (wp_quiet .rounds trivial fun n _ ht => wp_awaitJobStatus id n (hs.trans ht))

/-- The jobs are awaited in turn. -/
theorem wp_awaitAll (actions : List Action) (hs : s0.Steady s) :
    wp alone (actions.forM fun action => awaitBackup action.jobID).run
      (fun r t => s0.Steady t ∧ (r = .ok () → ∀ action ∈ actions, t.Succeeded action.jobID)) s := by
  induction actions generalizing s0 s with
  | nil => exact ⟨hs, by simp⟩
  | cons action actions ih =>
    refine wp_andThen (wp_mono (wp_awaitBackup action.jobID hs) ?_)
    rintro r t ⟨ht, hdone⟩
    cases r with
    | error e => exact ⟨ht, fun h => by cases h⟩
    | ok u =>
      refine wp_mono (ih (.refl t)) ?_
      rintro r u ⟨hu, hrest⟩
      refine ⟨ht.trans hu, fun hr => ?_⟩
      simpa using ⟨hu.succeeded _ (hdone rfl), hrest hr⟩

/-! ### The cleanup -/

theorem calls_stopJob (wanted : List String) (job : BlockJob) :
    Prog.Calls Quiet (stopJob wanted job).run := by
  rw [stopJob]
  split
  · exact .pure _
  · split
    · exact calls_try (.request trivial)
    · exact calls_try (.request trivial)

/-- A cleanup without an error has seen a list without the jobs. -/
theorem wp_cancelRounds (wanted : List String) (n : Nat) (hs : s0.Steady s) :
    wp alone (cancelRounds wanted n).run
      (fun r t => s0.Steady t ∧ (r = .ok () → ∀ id ∈ wanted, ¬ t.Left id)) s := by
  induction n generalizing s with
  | zero => exact ⟨hs, fun h => by cases h⟩
  | succ n ih =>
    rw [cancelRounds]
    refine wp_try (P := fun r t => s0.Steady t ∧ ∀ jobs, r = .ok jobs → ∀ id, t.Left id →
      ∃ job ∈ jobs, job.device = id) ?_ ?_ ?_
    · exact wp_queryBlockJobs fun r t ht h => ⟨hs.trans ht, fun jobs hjobs => (h jobs hjobs).2⟩
    · rintro e t ⟨ht, -⟩
      exact ⟨ht, fun h => by cases h⟩
    rintro jobs t ⟨ht, hjobs⟩
    refine wp_andThen (wp_mono (wp_steady (s := t) (.forM fun job _ => calls_stopJob wanted job)) ?_)
    intro r u hu
    cases r with
    | error e => exact ⟨ht.trans hu, fun h => by cases h⟩
    | ok v =>
      dsimp only
      split
      · exact ih (ht.trans hu)
      · rename_i hnone
        refine ⟨ht.trans hu, fun _ id hid => hu.gone id fun hleft => hnone ?_⟩
        obtain ⟨job, hjob, rfl⟩ := hjobs jobs rfl id hleft
        exact List.any_eq_true.mpr ⟨job, hjob, by simpa using hid⟩

theorem wp_cancelBackups (wanted : List String) (hs : s0.Steady s) :
    wp alone (cancelBackups wanted).run
      (fun r t => s0.Steady t ∧ (r = .ok () → ∀ id ∈ wanted, ¬ t.Left id)) s := by
  refine wp_quietTry (.request trivial) hs (fun e t ht => ⟨ht, fun h => by cases h⟩) fun _ t ht => ?_
  exact wp_liftThen (wp_quiet .rounds trivial fun n _ hu => wp_cancelRounds wanted n (ht.trans hu))

/-! ### The guest -/

/-- A thaw without an error has thawed the guest. -/
theorem wp_thawGuest :
    wp alone thawGuest (fun r t => s.Kept t ∧ (r = .ok () → t.frozen = false)) s := by
  refine wp_seq (wp_quiet .dialQGA trivial fun r t ht => ht) fun r t ht => ?_
  cases r with
  | error e => exact ⟨ht.toKept, fun h => by cases h⟩
  | ok u =>
    refine wp_backupCall (.guest .thaw) fun c _ => ?_
    refine ⟨ht.toKept.trans ((steady_settled t c).toKept.trans kept_thaw), fun hok => ?_⟩
    rw [after, hok]
    rfl

/-- The closure, where it has not thawed the guest yet. -/
theorem wp_thaw :
    wp alone (thaw false) (fun r t => s.Kept t ∧ (r = (.ok (), true) ∧ t.frozen = false ∨
      ∃ text, r = (.error [.thaw text], false))) s := by
  refine wp_seq wp_thawGuest ?_
  rintro r t ⟨ht, hthawed⟩
  cases r with
  | error e => exact ⟨ht, .inr ⟨e, rfl⟩⟩
  | ok u => exact ⟨ht, .inl ⟨rfl, hthawed rfl⟩⟩

/-- What a freeze comes to for a guest that was not frozen before. -/
theorem wp_freezeGuest (hfroze : s.froze = false) :
    wp alone freezeGuest.run (fun r t => t.transaction = s.transaction ∧
      match r with
      | .ok froze => t.froze = froze ∧ (froze = true → t.frozen = true)
      | .error e => t.froze = true → t.frozen = false ∨ Reports e) s := by
  refine wp_seq (wp_quiet .dialQGA trivial fun r t ht => ht) fun r t ht => ?_
  cases r with
  | error e => exact ⟨ht.transaction, ht.froze.trans hfroze, fun h => by cases h⟩
  | ok u =>
    refine wp_seq (P := fun r u => u.transaction = s.transaction ∧
      (r = .ok () → u.froze = true ∧ u.frozen = true)) ?_ ?_
    · refine wp_backupCall (.guest .freeze) fun c _ => ?_
      rw [after]
      split
      · exact ⟨ht.transaction, fun _ => ⟨rfl, rfl⟩⟩
      · rename_i hnot
        refine ⟨ht.transaction, fun hok => ?_⟩
        rw [hok] at hnot
        exact absurd rfl hnot
    rintro r u ⟨htransaction, hfrozen⟩
    cases r with
    | ok v => exact ⟨htransaction, (hfrozen rfl).1, fun _ => (hfrozen rfl).2⟩
    | error e =>
      refine wp_seq wp_thawGuest ?_
      rintro r v ⟨hv, hthawed⟩
      cases r with
      | error thawErr =>
        exact ⟨hv.transaction.trans htransaction, fun _ => .inr ⟨thawErr, .inr (by simp)⟩⟩
      | ok w => exact ⟨hv.transaction.trans htransaction, fun _ => .inl (hthawed rfl)⟩

/-! ### The whole backup -/

/-- Where the run from the transaction on stands: the variable `thawed` is right about the guest, and
no other jobs were started. -/
structure Started (actions : List Action) (froze thawed : Bool) (t : Qemu) : Prop where
  flag : t.froze = froze
  guest : thawed = true → froze = true → t.frozen = false
  jobs : ∀ started frozen, t.transaction = some (started, frozen) → started = actions

theorem Started.steady {actions : List Action} {froze thawed : Bool} {t u : Qemu}
    (h : Started actions froze thawed t) (htu : t.Steady u) : Started actions froze thawed u where
  flag := htu.froze.trans h.flag
  guest h1 h2 := htu.frozen.trans (h.guest h1 h2)
  jobs started frozen hu := h.jobs started frozen (htu.transaction ▸ hu)

/-- All jobs were started in one transaction and have succeeded. -/
def Complete (actions : List Action) (frozen : Bool) (t : Qemu) : Prop :=
  t.transaction = some (actions, frozen) ∧ ∀ action ∈ actions, t.Succeeded action.jobID

theorem wp_runJobs (actions : List Action) (froze : Bool) (hfroze : s.froze = froze)
    (hnone : s.transaction = none) :
    wp alone (runJobs actions froze) (fun r t => Started actions froze r.2 t ∧
      (r.1 = .ok () → r.2 = true ∧ Complete actions s.frozen t)) s := by
  refine wp_seq (P := fun r t => t.froze = froze ∧
    (∀ started frozen, t.transaction = some (started, frozen) → started = actions) ∧
    (r = .ok () → t.transaction = some (actions, s.frozen))) ?_ ?_
  · refine wp_backupCall (.transaction actions) fun c _ => ?_
    rw [after]
    split
    · refine ⟨hfroze, ?_, fun _ => rfl⟩
      rintro started frozen ⟨⟩
      rfl
    · rename_i hnot
      refine ⟨hfroze, ?_, ?_⟩
      · intro started frozen h
        rw [show (s.settled c).transaction = none from hnone] at h
        cases h
      · intro hok
        rw [hok] at hnot
        exact absurd rfl hnot
  rintro r t ⟨htfroze, hjobs, hstarted⟩
  cases r with
  | error e =>
    refine ⟨⟨htfroze, ?_, hjobs⟩, fun h => by cases h⟩
    cases froze with
    | false => exact fun _ h => by cases h
    | true => exact fun h => by cases h
  | ok u =>
    -- the jobs are awaited from a state in which the guest is thawed if it was frozen
    have hawait : ∀ v, Started actions froze true v → v.transaction = some (actions, s.frozen) →
        wp alone ((actions.forM fun action => awaitBackup action.jobID).run >>= fun result =>
          return (result, true)) (fun r t => Started actions froze r.2 t ∧
            (r.1 = .ok () → r.2 = true ∧ Complete actions s.frozen t)) v := by
      intro v hv htransaction
      refine wp_seq (wp_awaitAll actions (.refl v)) ?_
      rintro r w ⟨hw, hdone⟩
      exact ⟨hv.steady hw, fun hr => ⟨rfl, hw.transaction.trans htransaction, hdone hr⟩⟩
    cases froze with
    | false =>
      exact hawait t ⟨htfroze, (fun _ h => by cases h), hjobs⟩ (hstarted rfl)
    | true =>
      refine wp_seq wp_thaw ?_
      rintro r v ⟨hv, hr⟩
      have hvjobs : ∀ started frozen, v.transaction = some (started, frozen) → started = actions :=
        fun started frozen h => hjobs started frozen (hv.transaction ▸ h)
      rcases hr with ⟨rfl, hfrozen⟩ | ⟨text, rfl⟩
      · exact hawait v ⟨hv.froze.trans htfroze, fun _ _ => hfrozen, hvjobs⟩
          (hv.transaction.trans (hstarted rfl))
      · exact ⟨⟨hv.froze.trans htfroze, (fun h => by cases h), hvjobs⟩, fun h => by cases h⟩

/-- The cleanup keeps what the run came to; an error without `ErrBackupCleanup` leaves no job. -/
theorem wp_cleanUp (actions : List Action) (result : Except Faults Unit) :
    wp alone (cleanUp actions result) (fun r t => s.Steady t ∧
      (r = .ok () → result = .ok ()) ∧
      ∀ e, r = .error e → result ≠ .ok () ∧
        (.cleanup ∉ e → ∀ action ∈ actions, ¬ t.Left action.jobID)) s := by
  cases result with
  | ok u => exact ⟨.refl s, fun _ => rfl, fun e h => by cases h⟩
  | error e =>
    refine wp_seq (wp_cancelBackups (actions.map (·.jobID)) (.refl s)) ?_
    rintro r t ⟨ht, hgone⟩
    cases r with
    | error cancelErr =>
      refine ⟨ht, (fun h => by cases h), ?_⟩
      rintro e' ⟨⟩
      exact ⟨(fun h => by cases h), fun hnot => absurd (by simp) hnot⟩
    | ok v =>
      refine ⟨ht, (fun h => by cases h), ?_⟩
      rintro e' ⟨⟩
      exact ⟨(fun h => by cases h), fun _ action haction =>
        hgone rfl _ (List.mem_map_of_mem haction)⟩

/-- The deferred thaw changes the result only where the guest is not thawed yet. -/
theorem wp_thawAtEnd (thawed : Bool) (result : Except Faults Unit) :
    wp alone (thawAtEnd thawed result) (fun r t =>
      if thawed then r = result ∧ t = s
      else s.Kept t ∧ (r = result ∧ t.frozen = false ∨
        ∃ e text, r = .error (e ++ [.thaw text]) ∧ (result = .ok () ∨ result = .error e))) s := by
  cases thawed with
  | true => exact ⟨rfl, rfl⟩
  | false =>
    refine wp_seq wp_thaw ?_
    rintro r t ⟨ht, ⟨rfl, hfrozen⟩ | ⟨text, rfl⟩⟩
    · exact ⟨ht, .inl ⟨rfl, hfrozen⟩⟩
    · cases result with
      | ok u => exact ⟨ht, .inr ⟨[], text, rfl, .inl rfl⟩⟩
      | error e => exact ⟨ht, .inr ⟨e, text, rfl, .inr rfl⟩⟩

end Parts

/-- What a backup promises when it returns: a guest that it froze is thawed, or the error says that it
is not; a consistent backup was taken in one transaction while the guest was frozen, and all its jobs
have succeeded; and an error without `ErrBackupCleanup` leaves none of its jobs in QEMU. -/
structure Safe (backups : List BackupJob) (r : Except Faults Bool) (t : Qemu) : Prop where
  thawed : t.froze = true → t.frozen = false ∨ ∃ e, r = .error e ∧ Reports e
  consistent : r = .ok true → t.frozen = false ∧
    ∃ actions, actions.map (·.target) = backups.map (·.target) ∧ Complete actions true t
  cleaned : ∀ e, r = .error e → .cleanup ∉ e → ∀ started frozen,
    t.transaction = some (started, frozen) → ∀ action ∈ started, ¬ t.Left action.jobID

section Whole

open Qemu

variable {s : Qemu} {backups : List BackupJob}

/-- An error before the transaction. -/
theorem safe_error {e : Faults} {t : Qemu} (hfroze : t.froze = true → t.frozen = false ∨ Reports e)
    (hnone : t.transaction = none) : Safe backups (.error e) t where
  thawed h := (hfroze h).imp_right fun hreports => ⟨e, rfl, hreports⟩
  consistent h := by cases h
  cleaned e' he' hnot started frozen h := by
    rw [hnone] at h
    cases h

/-- From the transaction on. -/
theorem wp_copy (actions : List Action) (htargets : actions.map (·.target) = backups.map (·.target))
    (froze : Bool) (hfroze : s.froze = froze) (hfrozen : froze = true → s.frozen = true)
    (hnone : s.transaction = none) :
    wp alone (do
      let (result, thawed) ← runJobs actions froze
      let result ← cleanUp actions result
      let result ← thawAtEnd thawed result
      return result.map fun _ => froze) (Safe backups) s := by
  refine wp_seq (wp_runJobs actions froze hfroze hnone) ?_
  rintro ⟨result, thawed⟩ t ⟨ht, hcomplete⟩
  refine wp_seq (wp_cleanUp actions result) ?_
  rintro result' u ⟨hu, hok, herror⟩
  have hstarted := ht.steady hu
  refine wp_seq (wp_thawAtEnd thawed result') ?_
  intro r v hv
  cases thawed with
  | true =>
    obtain ⟨rfl, rfl⟩ := hv
    refine ⟨fun h => .inl (hstarted.guest rfl (hstarted.flag.symm.trans h)), ?_, ?_⟩
    · intro hr
      cases r with
      | error e => cases hr
      | ok w =>
        cases hr
        obtain ⟨-, htransaction, hdone⟩ := hcomplete (hok rfl)
        refine ⟨hstarted.guest rfl rfl, actions, htargets, ?_, fun action haction =>
          hu.succeeded _ (hdone action haction)⟩
        rw [hu.transaction, htransaction, hfrozen rfl]
    · intro e he hnot started frozen htransaction
      cases r with
      | ok w => cases he
      | error e' =>
        cases he
        obtain rfl := hstarted.jobs started frozen htransaction
        exact (herror e rfl).2 hnot
  | false =>
    obtain ⟨hkept, hv⟩ := hv
    -- a guest that is not thawed means that the run has failed
    have hfailed : result' ≠ .ok () := fun h => by
      have hthawed := (hcomplete (hok h)).1
      cases hthawed
    cases result' with
    | ok w => exact absurd rfl hfailed
    | error e =>
      have hgone : .cleanup ∉ e → ∀ started frozen, v.transaction = some (started, frozen) →
          ∀ action ∈ started, ¬ v.Left action.jobID := by
        intro hnot started frozen htransaction action haction
        obtain rfl := hstarted.jobs started frozen (hkept.transaction ▸ htransaction)
        exact hkept.gone _ ((herror e rfl).2 hnot action haction)
      rcases hv with ⟨rfl, hthawed⟩ | ⟨e', text, rfl, hresult⟩
      · refine ⟨fun _ => .inl hthawed, (fun h => by cases h), ?_⟩
        rintro e' ⟨⟩
        exact hgone
      · refine ⟨fun _ => .inr ⟨_, rfl, text, .inl (by simp)⟩, (fun h => by cases h), ?_⟩
        rintro e'' ⟨⟩ hnot
        rcases hresult with h | h
        · cases h
        · cases h
          exact hgone fun hmem => hnot (List.mem_append_left _ hmem)

theorem wp_backupDisksContext (hfroze : s.froze = false) (hnone : s.transaction = none) :
    wp alone (backupDisksContext backups).run (Safe backups) s := by
  have hquiet : ∀ {e : Faults} {t : Qemu}, s.Steady t → Safe backups (.error e) t := fun ht =>
    safe_error (fun h => by rw [ht.froze, hfroze] at h; cases h) (ht.transaction.trans hnone)
  refine wp_quietTry (.request trivial) (.refl s) (fun e t ht => hquiet ht) fun _ t ht => ?_
  refine wp_quietTry (.request trivial) ht (fun e t ht => hquiet ht) fun _ t ht => ?_
  refine wp_andThen (wp_mono (wp_and (wp_steady (calls_planJobs backups)) (wpOk_planJobs backups)) ?_)
  rintro r u ⟨hu, htargets⟩
  have hsu := ht.trans hu
  cases r with
  | error e => exact hquiet hsu
  | ok actions =>
    obtain ⟨-, htargets⟩ := htargets actions rfl
    refine wp_andThen (wp_mono (wp_freezeGuest (hsu.froze.trans hfroze)) ?_)
    rintro r v ⟨hv, hfreeze⟩
    have hvnone := hv.trans (hsu.transaction.trans hnone)
    cases r with
    | error e => exact safe_error hfreeze hvnone
    | ok froze => exact wp_copy actions htargets froze hfreeze.1 hfreeze.2 hvnone

end Whole

/-- The state in which a backup begins, with nothing recorded of it. -/
def Qemu.start (frozen : Bool) (jobs : List (String × JobState)) : Qemu :=
  { frozen := frozen, jobs := jobs }

/-- Whatever fails, is cancelled or loses its reply, executed or not: every run of
`BackupDisksContext` returns as `Safe` says. -/
theorem backupDisksContext_safe (backups : List BackupJob) (frozen : Bool)
    (jobs : List (String × JobState)) (cs : List Choice) (r : Except Faults Bool) (t : Qemu)
    (h : (backupDisksContext backups).run.run Qemu.perform cs (.start frozen jobs) = some (r, t)) :
    Safe backups r t :=
  wp_alone_runs (wp_backupDisksContext rfl rfl) (Prog.runs_of_run h)

/-- Every call succeeds, and a job concludes at once. -/
def smoothly : Choice where
  answer
    | .queryBlock => .ok [{ node := "node", filename := "disk.qcow2" }]
    | .newString => "id"
    | .queryBlockJobs => .ok [{ device := "backup-id", status := "concluded" }]
    | .rounds => 1
    | .dialQMP | .setDeadline | .dialQGA | .guest _ | .transaction _ | .jobDismiss _ | .jobCancel _
    | .ctxErr | .wait => .ok ()
  concludes _ := some ""

/-- The end of a consistent backup of one disk. -/
def backedUp : Qemu where
  jobs := [("backup-id", .dismissed ""), ("backup-id", .concluded "")]
  froze := true
  transaction := some ([{ jobID := "backup-id", device := "node", target := "copy.qcow2" }], true)

theorem backupDisksContext_one :
    (backupDisksContext [{ source := "disk.qcow2", target := "copy.qcow2" }]).run.run
        Qemu.perform (List.replicate 14 smoothly) (.start false []) = some (.ok true, backedUp) ∧
      ∃ actions, actions.map (·.target) = ["copy.qcow2"] ∧ Complete actions true backedUp := by
  have hrun : (backupDisksContext [{ source := "disk.qcow2", target := "copy.qcow2" }]).run.run
      Qemu.perform (List.replicate 14 smoothly) (.start false []) = some (.ok true, backedUp) := by
    decide +kernel
  exact ⟨hrun, ((backupDisksContext_safe [{ source := "disk.qcow2", target := "copy.qcow2" }] false []
    (List.replicate 14 smoothly) (.ok true) backedUp hrun).consistent rfl).2⟩

end Maco.VM.Backups
