import Maco.Engine.Rules

/-! Schedules belong to machines.  The manifest of a machine and its row in the database are changed
by separate steps without a common lock; the theorem says for runs of which steps every row is left
with its machine. -/

namespace Maco.Engine

open Concurrent Prog

inductive ScheduleOp where
  | set (e : Paths) (ref : String) (params : ScheduleParams)
  | mark (e : Paths) (id : String) (now : Int)
  | delete (e : Paths) (ref : String)

def ScheduleOp.program : ScheduleOp → EngineProg Unit
  | .set e ref params => do
    let _ ← (setSchedule e ref params).run
    return ()
  | .mark e id now => do
    let _ ← (markScheduleRun e id now).run
    return ()
  | .delete e ref => do
    let _ ← (deleteVM e ref).run
    return ()

/-- Any number of processes set schedules, mark their runs and delete machines. -/
def scheduleSystem (x : Texts) :
    System EngineCall EngineCall.Reply EngineChoice World ScheduleOp Empty Unit where
  perform := World.perform x
  code := ScheduleOp.program
  die i s := s.die i
  env e _ := nomatch e

/-- A `DeleteVM` that is tried again, with whatever reference, can remove the row. -/
def Recoverable (x : Texts) (s : World) (id : String) : Prop :=
  ∃ i e ref cs t, (deleteVM e ref).run.run (World.perform x i) cs s = some (.ok (), t) ∧
    t.schedules.get id = none

/-- Each row belongs to a machine with a manifest, or its removal can be tried again. -/
def RowsBelong (x : Texts) (s : World) : Prop :=
  ∀ id, s.schedules.get id ≠ none → s.vms.get id ≠ none ∨ Recoverable x s id

/-- The lock or the step of the call fails. -/
def EngineChoice.fails (c : EngineChoice) : EngineCall → Bool
  | .lock l => !(c.answer (.lock l)).isOk
  | .step (.deleteBackupSchedule id) => !c.takes (.deleteBackupSchedule id)
  | .step s => !(c.answer (.step s)).isOk
  | _ => false

/-- Where a machine has a row, nothing fails in a `DeleteVM` between the removal of the manifest and
that of the row, and a schedule is set only while the manifest is there or a `DeleteVM` has yet to
remove the row. -/
def Timely (i : Nat) (a : EngineCall) (c : EngineChoice) (s : World) : Prop :=
  (∀ id, s.doing i = .leaving id → s.schedules.get id ≠ none → c.fails a = false) ∧
  ∀ row, a = .step (.setBackupSchedule row) → c.takes (.setBackupSchedule row) = true →
    s.vms.get row.vmID ≠ none ∨ ∃ j, s.doing j = .leaving row.vmID

/-! ### What a call does to rows and machines -/

section Calls

variable {s : World} {i : Nat} {c : EngineChoice} {a : EngineCall} {id : String}

theorem World.get_upserted (t : Table BackupSchedule) (row : BackupSchedule) (id : String)
    (h : (World.upserted t row).get id ≠ none) : t.get id ≠ none ∨ row.vmID = id := by
  by_cases hid : id = row.vmID
  · exact .inr hid.symm
  · left
    unfold World.upserted at h
    split at h
    · simpa [Table.get_put, hid] using h
    · simpa [Table.get_put, hid] using h

theorem World.get_marked (t : Table BackupSchedule) (marked id : String) (now : Int)
    (h : (World.marked t marked now).get id ≠ none) : t.get id ≠ none := by
  unfold World.marked at h
  split at h
  · exact h
  · rename_i row hrow
    rw [Table.get_put] at h
    split at h
    · rename_i hid
      rw [hid, hrow]
      nofun
    · exact h

/-- A row that is there after a call was there before, or the call has set it. -/
theorem World.row_after (h : (s.after i c a).schedules.get id ≠ none) :
    s.schedules.get id ≠ none ∨ ∃ row, row.vmID = id ∧ a = .step (.setBackupSchedule row) ∧
      c.takes (.setBackupSchedule row) = true := by
  simp only [after] at h
  unfold schedulesAfter at h
  split at h
  · rename_i row
    split at h
    · rename_i htakes
      exact (get_upserted _ _ _ h).imp_right fun hid => ⟨row, hid, rfl, htakes⟩
    · exact .inl h
  · split at h
    · exact .inl (get_marked _ _ _ _ h)
    · exact .inl h
  · left
    split at h
    · rw [Table.get_without] at h
      split at h
      · exact absurd rfl h
      · exact h
    · exact h
  · exact .inl h

/-- A machine that is there before a call is there after it, or the call has deleted it. -/
theorem World.machine_after (h : s.vms.get id ≠ none) :
    (s.after i c a).vms.get id ≠ none ∨
      (a = .vms (.delete id) ∧ (s.after i c a).doing i = .leaving id) := by
  obtain hsame | ⟨m, -, -, -, hsaved⟩ | ⟨rfl, hok, -⟩ := s.vms_after i c a id
  · exact .inl (hsame ▸ h)
  · left
    rw [hsaved]
    nofun
  · exact .inr ⟨rfl, by simp [after, Activity.after, hok]⟩

end Calls

/-! ### What a process knows -/

/-- What a `DeleteVM` may call between the removal of the manifest and that of the row. -/
def finishing (id : String) : EngineCall → Prop
  | .lock (.sharedMu _) | .unlock (.sharedMu _) | .lock .initDB | .unlock .initDB
  | .databaseOpen _ | .step .openDB => True
  | .step (.deleteBackupSchedule other) => other = id
  | _ => False

/-- A process knows which machine it is leaving. -/
def leavingLearning : Learning EngineCall EngineCall.Reply (Option String) where
  asks
    | none, _ => True
    | some id, a => finishing id a
  learns
    | none, .vms (.delete id), r => some (if Except.isOk r then some id else none)
    | none, _, _ => some none
    | some _, .step (.deleteBackupSchedule _), _ => some none
    | some id, .step .openDB, r => some (if Except.isOk r then some id else none)
    | some id, .lock _, r => some (if Except.isOk r then some id else none)
    | some id, _, _ => some (some id)

/-- The machine that a process is leaving. -/
def Leaves (i : Nat) (g : Option String) (s : World) : Prop :=
  match g with
  | none => ∀ id, s.doing i ≠ .leaving id
  | some id => s.doing i = .leaving id

/-- Each row has its machine, or one that is being left or was abandoned. -/
def Accounted (s : World) : Prop :=
  ∀ id, s.schedules.get id ≠ none →
    s.vms.get id ≠ none ∨ (∃ j, s.doing j = .leaving id) ∨ id ∈ s.abandoned

section Steps

variable {s : World} {i : Nat} {c : EngineChoice} {a : EngineCall} {id : String}

theorem Activity.goesOn_leaving {d : Activity} {ok : Bool} (h : d.goesOn ok = .leaving id) :
    d = .leaving id := by
  unfold goesOn at h
  split at h
  · split at h
    · exact h
    · cases h
  · exact h

/-- A process that is leaving a machine was so before the call, or has deleted its manifest. -/
theorem Activity.after_leaving {d : Activity} {r : a.Reply} (h : d.after a r = .leaving id) :
    d = .leaving id ∨ a = .vms (.delete id) := by
  unfold after at h
  split at h
  · cases h
  · split at h
    · cases h
    · exact .inl h
  · split at h
    · cases h
    · exact .inl h
  · cases h
  · split at h
    · cases h
      exact .inr rfl
    · exact .inl h
  all_goals first | exact .inl h | exact .inl (goesOn_leaving h) | cases h

theorem learns_calm (h : ∀ id, a ≠ .vms (.delete id)) (r : a.Reply) :
    leavingLearning.learns none a r = some none := by
  cases a with
  | vms sc =>
    cases sc with
    | delete id => exact absurd rfl (h id)
    | _ => rfl
  | _ => rfl

/-- A process that leaves no machine. -/
theorem Leaves.call_calm (hg : Leaves i none s) :
    ∃ g, leavingLearning.learns none a (c.answer a) = some g ∧ Leaves i g (s.after i c a) := by
  have hdoing : (s.after i c a).doing i = (s.doing i).after a (c.answer a) :=
    Function.update_self ..
  by_cases hdel : ∃ id, a = .vms (.delete id)
  · obtain ⟨id, rfl⟩ := hdel
    refine ⟨_, rfl, ?_⟩
    split
    · rename_i hok
      exact hdoing.trans (if_pos hok)
    · rename_i hfailed
      rw [Leaves, hdoing, Activity.after, if_neg hfailed]
      exact hg
  · refine ⟨none, learns_calm (fun id h => hdel ⟨id, h⟩) _, fun id hid => ?_⟩
    rw [hdoing] at hid
    rcases Activity.after_leaving hid with hbefore | ha
    · exact hg id hbefore
    · exact hdel ⟨id, ha⟩

/-- A process that leaves a machine goes on, or gives up where there is no row. -/
theorem Leaves.call_leaving (hg : Leaves i (some id) s) (ha : finishing id a)
    (hok : s.schedules.get id ≠ none → c.fails a = false) :
    ∃ g, leavingLearning.learns (some id) a (c.answer a) = some g ∧ Leaves i g (s.after i c a) ∧
      (g = some id ∨ (s.after i c a).schedules.get id = none) := by
  have hdoing : (s.after i c a).doing i = (s.doing i).after a (c.answer a) :=
    Function.update_self ..
  rw [Leaves] at hg
  -- the calls of `OpenDB` leave the rows alone
  have hopen : ∀ ok : Bool, (s.doing i).after a (c.answer a) = (s.doing i).goesOn ok →
      c.fails a = !ok →
      (s.after i c a).schedules = s.schedules →
      Leaves i (if ok then some id else none) (s.after i c a) ∧
        ((if ok then some id else none) = some id ∨ (s.after i c a).schedules.get id = none) := by
    intro ok hafter hfails hrows
    replace hafter := hafter.trans (congrArg (Activity.goesOn · ok) hg)
    cases ok with
    | true => exact ⟨hdoing.trans hafter, .inl rfl⟩
    | false =>
      refine ⟨fun other h => ?_, .inr ?_⟩
      · rw [hdoing, hafter] at h
        cases h
      · rw [hrows]
        by_contra hrow
        rw [hok hrow] at hfails
        cases hfails
  cases a with
  | lock l =>
    refine ⟨_, rfl, hopen _ ?_ rfl rfl⟩
    cases l <;> first | rfl | exact ha.elim
  | unlock l =>
    refine ⟨some id, rfl, hdoing.trans (.trans ?_ hg), .inl rfl⟩
    cases l <;> first | rfl | exact ha.elim
  | databaseOpen proc => exact ⟨some id, rfl, hdoing.trans hg, .inl rfl⟩
  | step st =>
    cases st with
    | openDB => exact ⟨_, rfl, hopen _ rfl rfl rfl⟩
    | deleteBackupSchedule other =>
      obtain rfl : other = id := ha
      refine ⟨none, rfl, fun other' h => ?_, .inr ?_⟩
      · rw [hdoing] at h
        cases h
      · simp only [World.after, World.schedulesAfter]
        split
        · rw [Table.get_without, if_pos List.mem_cons_self]
        · rename_i htakes
          by_contra hrow
          exact htakes (by simpa [EngineChoice.fails] using hok hrow)
    | _ => exact ha.elim
  | _ => exact ha.elim

/-- What a timely call does to the rows. -/
theorem Accounted.call {x : Texts} {g : Option String} {r : a.Reply} {t : World} (hs : Accounted s)
    (hg : Leaves i g s) (ha : leavingLearning.asks g a) (ht : Timely i a c s)
    (hstep : World.perform x i a c s = some (r, t)) :
    Accounted t ∧ ∃ g', leavingLearning.learns g a r = some g' ∧ Leaves i g' t := by
  obtain ⟨-, rfl, rfl⟩ := World.perform_cases hstep
  have hothers : ∀ id, ∀ j ≠ i, s.doing j = .leaving id → (s.after i c a).doing j = .leaving id :=
    fun id j hj h => (World.doing_of_ne hj).trans h
  cases g with
  | none =>
    refine ⟨fun id hrow => ?_, Leaves.call_calm hg⟩
    have hbefore : s.vms.get id ≠ none ∨ (∃ j, s.doing j = .leaving id) ∨ id ∈ s.abandoned := by
      obtain hrow | ⟨row, rfl, rfl, htakes⟩ := World.row_after hrow
      · exact hs id hrow
      · exact (ht.2 row rfl htakes).imp_right .inl
    rcases hbefore with hvm | ⟨j, hj⟩ | habandoned
    · exact (World.machine_after hvm).imp_right fun h => .inl ⟨i, h.2⟩
    · refine .inr (.inl ⟨j, hothers id j ?_ hj⟩)
      rintro rfl
      exact hg id hj
    · exact .inr (.inr habandoned)
  | some own =>
    obtain ⟨g', hlearn, hknown, hgone⟩ := Leaves.call_leaving hg ha (ht.1 own hg)
    refine ⟨fun id hrow => ?_, g', hlearn, hknown⟩
    have hnew : ∀ row, a ≠ .step (.setBackupSchedule row) := by
      rintro row rfl
      exact ha
    have hbefore := hs id ((World.row_after hrow).resolve_right
      fun ⟨row, _, h, _⟩ => hnew row h)
    rcases hbefore with hvm | ⟨j, hj⟩ | habandoned
    · exact (World.machine_after hvm).imp_right fun h => .inl ⟨i, h.2⟩
    · by_cases hji : j = i
      · subst hji
        obtain rfl : own = id := by
          rw [Leaves, hj] at hg
          cases hg
          rfl
        obtain rfl | hgone := hgone
        · exact .inr (.inl ⟨j, hknown⟩)
        · exact absurd hgone hrow
      · exact .inr (.inl ⟨j, hothers id j hji hj⟩)
    · exact .inr (.inr habandoned)

/-- A process that dies while it leaves a machine abandons it. -/
theorem Accounted.die (hs : Accounted s) : Accounted (s.die i) := by
  intro id hrow
  rcases hs id hrow with hvm | ⟨j, hj⟩ | habandoned
  · exact .inl hvm
  · by_cases hji : j = i
    · subst hji
      exact .inr (.inr (by simp [World.die, hj]))
    · exact .inr (.inl ⟨j, (Function.update_of_ne hji _ _).trans hj⟩)
  · refine .inr (.inr ?_)
    simp only [World.die]
    split
    · exact List.mem_cons_of_mem _ habandoned
    · exact habandoned

end Steps

/-! ### The operations -/

section Operations

/-- The calls other than the removal of a manifest. -/
def keepsManifests : EngineCall → Prop
  | .vms (.delete _) => False
  | _ => True

theorem learns_of_keeps {a : EngineCall} (ha : keepsManifests a) :
    leavingLearning.asks none a ∧
      ∀ r g, leavingLearning.learns none a r = some g → g = none := by
  refine ⟨trivial, fun r g hg => ?_⟩
  rw [learns_calm (by rintro id rfl; exact ha) r] at hg
  exact (Option.some.inj hg).symm

/-- A program that removes no manifest, in a process that leaves no machine. -/
theorem leads_calm {α : Type} {p : EngineM α} (h : p.run.Calls keepsManifests) :
    Leads leavingLearning p (· = none) (fun _ g => g = none) none :=
  .of_calls h (fun _ => learns_of_keeps) rfl fun _ => rfl

theorem keeps_resolveVM {ref : String} : (resolveVM ref).run.Calls keepsManifests :=
  calls_demand (.request trivial)

theorem keeps_loadVM {id : String} : (loadVM id).run.Calls keepsManifests :=
  calls_demand (.request trivial)

theorem keeps_isRunning {e : Paths} {id : String} : (isRunning e id).run.Calls keepsManifests :=
  .andThen (calls_query (.request trivial)) fun _ => .pure _

theorem keeps_openDB {e : Paths} : (openDB e).run.Calls keepsManifests :=
  calls_openDB ⟨trivial, trivial⟩ ⟨trivial, trivial⟩ trivial trivial

theorem keeps_perform {st : Step} : (perform st).run.Calls keepsManifests :=
  calls_demand (.request trivial)

theorem keeps_getSchedule {e : Paths} {ref : String} :
    (getSchedule e ref).run.Calls keepsManifests := by
  refine .andThen keeps_resolveVM fun m => .andThen keeps_openDB fun _ => ?_
  refine .andThen (calls_demand (.request trivial)) fun row => ?_
  cases row with
  | none => exact .pure _
  | some row => exact .pure _

theorem keeps_setSchedule {e : Paths} {ref : String} {params : ScheduleParams} :
    (setSchedule e ref params).run.Calls keepsManifests := by
  refine .andThen calls_ensureThat fun _ => .andThen calls_ensureThat fun _ => ?_
  refine .andThen keeps_resolveVM fun m => .andThen keeps_openDB fun _ => ?_
  exact .andThen keeps_perform fun _ => keeps_getSchedule

theorem keeps_markScheduleRun {e : Paths} {id : String} {now : Int} :
    (markScheduleRun e id now).run.Calls keepsManifests :=
  .andThen keeps_openDB fun _ => keeps_perform

/-- The database is opened with the machine still being left. -/
theorem leads_openDB {e : Paths} {id : String} :
    Leads leavingLearning (openDB e) (· = none) (fun _ g => g = some id) (some id) := by
  have hunlock : ∀ (l : LockName), finishing id (.unlock l) → ∀ g, g = some id →
      leavingLearning.asks g (.unlock l) ∧
        ∀ g', leavingLearning.learns g (.unlock l) () = some g' → g' = some id := by
    rintro l hl g rfl
    exact ⟨hl, fun g' hg' => (Option.some.inj hg').symm⟩
  have hfailed : ∀ (l : LockName) g, g = none → leavingLearning.asks g (.unlock l) ∧
      ∀ g', leavingLearning.learns g (.unlock l) () = some g' → g' = none := by
    rintro l g rfl
    exact ⟨trivial, fun g' hg' => (Option.some.inj hg').symm⟩
  refine leads_locked (B := fun _ g => g = some id) trivial (fun _ _ h => ?_) ?_ (hfailed _)
    fun _ => hunlock _ trivial
  · exact (Option.some.inj h).symm
  intro g hg
  obtain rfl : some id = g := Option.some.inj hg
  refine .bind (P := fun _ g => g = some id) (leads_query ⟨trivial, fun r g hg => ?_⟩) ?_
  · exact (Option.some.inj hg).symm
  rintro already g rfl
  refine .ite (fun _ => .pure rfl) fun _ => ?_
  refine leads_locked (B := fun _ g => g = some id) trivial (fun _ _ h => ?_) ?_ (hfailed _)
    fun _ => hunlock _ trivial
  · exact (Option.some.inj h).symm
  intro g hg
  obtain rfl : some id = g := Option.some.inj hg
  exact leads_perform trivial (fun _ _ h => (Option.some.inj h).symm)
    fun _ h => (Option.some.inj h).symm

/-- `DeleteVM` leaves the machine when the manifest is gone, and is done with it when the row is. -/
theorem leads_deleteVM {e : Paths} {ref : String} :
    Leads leavingLearning (deleteVM e ref) (· = none) (fun _ g => g = none) none := by
  have hcalm : ∀ {a : EngineCall} {r : a.Reply} {g : Option String},
      leavingLearning.learns none a r = some g → keepsManifests a → g = none :=
    fun h ha => (learns_of_keeps ha).2 _ _ h
  have hunlock : ∀ (l : LockName) g, g = none → leavingLearning.asks g (.unlock l) ∧
      ∀ g', leavingLearning.learns g (.unlock l) () = some g' → g' = none := by
    rintro l g rfl
    exact ⟨trivial, fun g' hg' => hcalm hg' trivial⟩
  refine .bind (leads_calm keeps_resolveVM) ?_
  rintro m _ rfl
  refine leads_locked (F := (· = none)) (B := fun _ g => g = none) trivial
    (fun _ _ h => hcalm h trivial) ?_ (hunlock _) fun _ => hunlock _
  intro g hg
  obtain rfl := hcalm hg trivial
  refine .bind (leads_calm keeps_loadVM) ?_
  rintro m _ rfl
  refine .bind (leads_calm keeps_isRunning) ?_
  rintro running _ rfl
  refine .bind (leads_calm calls_ensureThat) ?_
  rintro _ _ rfl
  refine .bind (leads_calm keeps_perform) ?_
  rintro _ _ rfl
  refine .bind (leads_calm keeps_perform) ?_
  rintro _ _ rfl
  refine .bind (P := fun _ g => g = some m.id) ⟨trivial, fun r g hg => ?_⟩ ?_
  · obtain rfl := Option.some.inj hg
    cases r with
    | error e => rfl
    | ok _ => rfl
  rintro _ _ rfl
  refine .bind leads_openDB ?_
  rintro _ _ rfl
  refine .bind (leads_perform (Q := fun _ g => g = none) rfl
    (fun _ _ h => (Option.some.inj h).symm) fun _ h => (Option.some.inj h).symm) ?_
  rintro _ _ rfl
  exact leads_calm keeps_perform

theorem ScheduleOp.tracks (op : ScheduleOp) :
    op.program.Tracks leavingLearning (fun _ g => g = none) none := by
  have hdrop : ∀ {α : Type} {p : EngineM α},
      Leads leavingLearning p (· = none) (fun _ g => g = none) none →
      Tracks leavingLearning (do let _ ← p.run; return ()) (fun _ g => g = none) none := by
    intro α p hp
    refine .bind hp.outcome ?_
    rintro r g (⟨x, -, rfl⟩ | ⟨-, rfl⟩)
    · exact rfl
    · exact rfl
  cases op with
  | set e ref params =>
    exact hdrop (leads_calm keeps_setSchedule)
  | mark e id now =>
    exact hdrop (leads_calm keeps_markScheduleRun)
  | delete e ref => exact hdrop leads_deleteVM

end Operations

/-- What the processes know of the machines that they are leaving. -/
def leavingInsight (x : Texts) {s0 : World} (h0 : Accounted s0) (hidle : ∀ i, Leaves i none s0) :
    (scheduleSystem x).Insight Timely s0 fun _ => leavingLearning where
  Inv := Accounted
  Knows := Leaves
  idle := none
  rest g := g = none
  init := ⟨h0, hidle⟩
  code _ op := op.tracks
  atRest := by
    rintro i g s rfl hg
    exact hg
  call := by
    intro i g a c s r t hs hg ha ht hstep
    obtain ⟨hinv, hknown⟩ := hs.call hg ha ht hstep
    refine ⟨hinv, hknown, fun j hj k hk => ?_⟩
    obtain ⟨-, -, rfl⟩ := World.perform_cases hstep
    cases k with
    | none => exact fun id => by rw [World.doing_of_ne hj]; exact hk id
    | some id => exact (World.doing_of_ne hj).trans hk
  die := by
    intro i g s hs _
    refine ⟨hs.die, fun id h => ?_, fun j hj k hk => ?_⟩
    · simp [scheduleSystem, World.die] at h
    · have hdoing : (s.die i).doing j = s.doing j := Function.update_of_ne hj _ _
      cases k with
      | none => exact fun id => by rw [scheduleSystem, hdoing]; exact hk id
      | some id => exact hdoing.trans hk
  env e := nomatch e

/-- When every call is timely and no process dies while it leaves a machine, each row is left with its
machine whenever no operation is in progress. -/
theorem rows_belong {x : Texts} {s0 : World}
    {g : Config EngineCall EngineCall.Reply World Unit}
    (hrows : ∀ id, s0.schedules.get id ≠ none → s0.vms.get id ≠ none)
    (hidle : ∀ i, s0.doing i = .idle) (hg : (scheduleSystem x).Reach Timely s0 g)
    (hdone : ∀ i, g.procs i = none) (halive : g.shared.abandoned = []) :
    RowsBelong x g.shared := by
  have h0 : Accounted s0 := fun id h => .inl (hrows id h)
  have hcalm : ∀ i, Leaves i none s0 := fun i id h => by
    rw [hidle] at h
    cases h
  obtain ⟨hinv, hstands⟩ := (leavingInsight x h0 hcalm).holds hg
  intro id hrow
  rcases hinv id hrow with hvm | ⟨j, hj⟩ | habandoned
  · exact .inl hvm
  · have hleaves := hstands j
    rw [hdone j] at hleaves
    exact absurd hj (hleaves id)
  · rw [halive] at habandoned
    cases habandoned

/-- Where there are no machines, a `DeleteVM` fails. -/
theorem deleteVM_fails {x : Texts} {i : Nat} {e : Paths} {ref : String} {cs : List EngineChoice}
    {s t : World} {r : Except Message Unit} (hs : s.vms = [])
    (hrun : (deleteVM e ref).run.run (World.perform x i) cs s = some (r, t)) :
    ∃ err, r = .error err := by
  obtain ⟨c, cs, answer, s', rfl, hstep, hrest⟩ := Prog.run_call hrun
  obtain ⟨haccepts, rfl, rfl⟩ := World.perform_cases hstep
  cases hanswer : c.answer (.vms (.resolve ref)) with
  | ok m =>
    have := granted_ok haccepts hanswer
    simp [hs] at this
  | error err =>
    rw [hanswer] at hrest
    cases cs with
    | nil =>
      cases hrest
      exact ⟨err, rfl⟩
    | cons c cs => cases hrest

/-! ### One machine with a schedule -/

section OneSchedule

def labVM : VMManifest := { id := "v", name := "lab" }

def labTexts : Texts where
  cidr _ := true
  uuid _ := .ok ()
  mac _ := ""
  unicastMAC _ := none
  manifest := { parse := fun _ => .ok labVM, valid := fun _ => true }

def labPaths : Paths := ⟨fun id => "run/" ++ id, 0⟩

def labScheduled : World where
  vms := [("v", labVM)]
  schedules := [("v", { vmID := "v", enabled := true, intervalHours := 24 })]

/-- Nothing fails but the removal of a row, where `row` says so. -/
def calmButRow (row : Except Message Unit) : EngineChoice where
  answer
    | .lock _ => .ok ()
    | .vms (.resolve _) => .ok labVM
    | .vms (.load _) => .ok labVM
    | .vms (.delete _) => .ok ()
    | .step (.deleteBackupSchedule _) => row
    | .step _ => .ok ()
    | .databaseOpen _ => true
    | a => a.failure

/-- Process 0 deletes the machine, up to the end of the operation. -/
def deleting (row : Except Message Unit) (calls : Nat) :
    List (Move EngineChoice ScheduleOp Empty) :=
  .begin 0 (.delete labPaths "lab") :: List.replicate calls (.call 0 (calmButRow row)) ++
    [.finish 0]

/-- Nothing fails, and schedules are set for machines with a manifest. -/
def calmly (_ : Nat) (a : EngineCall) (c : EngineChoice) (s : World) : Bool :=
  !c.fails a && match a with
    | .step (.setBackupSchedule row) => decide (s.vms.get row.vmID ≠ none)
    | _ => true

theorem timely_of_calmly {i : Nat} {a : EngineCall} {c : EngineChoice} {s : World}
    (h : calmly i a c s = true) : Timely i a c s := by
  obtain ⟨hfails, hset⟩ := Bool.and_eq_true_iff.mp h
  refine ⟨fun _ _ _ => by simpa using hfails, ?_⟩
  rintro row rfl -
  exact .inl (of_decide_eq_true hset)

/-- Process 1 sets a schedule, while the machine is there. -/
def setting : List (Move EngineChoice ScheduleOp Empty) :=
  .begin 1 (.set labPaths "lab" {}) :: List.replicate 10 (.call 1 (calmButRow (.ok ()))) ++
    [.finish 1]

theorem rows_belong_set : ∃ g, (scheduleSystem labTexts).movesChecked calmly
      ⟨labScheduled, fun _ => none⟩ setting = some g ∧
    g.shared.schedules.get "v" ≠ none ∧ RowsBelong labTexts g.shared := by
  obtain ⟨g, hg, hprocs, habandoned, hrow⟩ : ∃ g, (scheduleSystem labTexts).movesChecked calmly
      ⟨labScheduled, fun _ => none⟩ setting = some g ∧
      g.procs = Function.update (Function.update (fun _ => none) 1 none) 1 none ∧
      g.shared.abandoned = [] ∧ g.shared.schedules.get "v" ≠ none :=
    ⟨_, rfl, by simp, rfl, by decide⟩
  have hreach := (scheduleSystem labTexts).reach_movesChecked
    (fun _ _ _ _ => timely_of_calmly) .start hg
  have hrows : ∀ id, labScheduled.schedules.get id ≠ none → labScheduled.vms.get id ≠ none := by
    intro id hrow
    rw [Ne, Table.get_eq_none] at hrow ⊢
    exact hrow
  refine ⟨g, hg, hrow, rows_belong hrows (fun _ => rfl) hreach (fun i => ?_) habandoned⟩
  simp [hprocs]

/-- The row cannot be removed once the manifest is gone: it stays, and the machine that it belongs to
is not found again. -/
theorem rows_left_behind : ∃ g,
    (scheduleSystem labTexts).Reach (fun _ _ _ _ => True) labScheduled g ∧
      (∀ i, g.procs i = none) ∧ g.shared.abandoned = [] ∧ ¬ RowsBelong labTexts g.shared := by
  obtain ⟨g, hg, hprocs, habandoned, hrow, hvms⟩ : ∃ g, (scheduleSystem labTexts).moves
      ⟨labScheduled, fun _ => none⟩ (deleting (.error "database is locked") 12) = some g ∧
      g.procs = Function.update (Function.update (fun _ => none) 0 none) 0 none ∧
      g.shared.abandoned = [] ∧ g.shared.schedules.get "v" ≠ none ∧ g.shared.vms = [] :=
    ⟨_, rfl, by simp, rfl, by decide, rfl⟩
  refine ⟨g, (scheduleSystem labTexts).reach_moves .start hg, fun i => by simp [hprocs],
    habandoned, fun hbelong => ?_⟩
  rcases hbelong "v" hrow with hvm | ⟨i, e, ref, cs, t, hrun, -⟩
  · simp [hvms] at hvm
  · obtain ⟨err, herr⟩ := deleteVM_fails hvms hrun
    cases herr

end OneSchedule

end Maco.Engine
