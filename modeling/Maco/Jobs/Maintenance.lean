import Mathlib.Algebra.Group.Nat.Defs
import Maco.Engine.World
import Maco.Lib.Lease

/-! The scheduled backups.  Any number of instances tick, each on its own, over one database and one
Redis; a lease of a leaseTime for each machine keeps them apart, and a tick stops after half of that. -/

namespace Maco.Jobs.Maintenance

open Concurrent Leases
open Maco.Engine (BackupSchedule World)

/-! Times are in nanoseconds. -/

def second : Nat := 1000000000

def hour : Nat := 3600000000000

/-- How long a tick may take. -/
def tickTimeout : Nat := 30000000000

/-- How long a machine is left alone after a tick has taken it up. -/
def leaseTime : Nat := 60000000000

/-! ### The tick -/

/-- The calls of a tick; a call under a context that has expired fails.  The scheduler tells
`submitBackup` neither the time that it read nor the interval. -/
inductive TickCall where
  | withTimeout
  | listSchedules (deadline : Nat)
  | now
  | setNX (deadline : Nat) (id : String)
  | submitBackup (deadline : Nat) (id : String) (now : Nat) (hours : Int)
  | markScheduleRun (deadline : Nat) (id : String) (unix : Int)
  | submitPrune (deadline : Nat) (id : String) (keepLast maxAgeDays : Int)

@[reducible] def TickCall.Reply : TickCall → Type
  | .withTimeout | .now => Nat
  | .listSchedules _ => Except String (List BackupSchedule)
  | .setNX _ _ => Except String Bool
  | _ => Except String Unit

abbrev Tick := Prog TickCall TickCall.Reply

/-- One call. -/
def tickCall (c : TickCall) : Tick c.Reply := .request c

/-- `time.Duration(hours) * time.Hour`. -/
def interval (hours : Int) : Int := (hours * hour).bmod (2 ^ 64)

/-- The time at which a schedule that has run is due again. -/
def due (schedule : BackupSchedule) : Int :=
  schedule.lastRunAt * second + interval schedule.intervalHours

/-- `enqueueScheduledBackups` for a schedule that is due and whose lease it has taken. -/
def runSchedule (deadline now : Nat) (schedule : BackupSchedule) : Tick Unit := do
  match ← tickCall (.submitBackup deadline schedule.vmID now schedule.intervalHours) with
  | .error _ => return ()
  | .ok () =>
    let _ ← tickCall (.markScheduleRun deadline schedule.vmID (now / second : Nat))
    if 0 < schedule.keepLast || 0 < schedule.maxAgeDays then
      let _ ← tickCall (.submitPrune deadline schedule.vmID schedule.keepLast schedule.maxAgeDays)
      return ()
    else return ()

/-- `enqueueScheduledBackups` for one schedule. -/
def enqueueSchedule (deadline now : Nat) (schedule : BackupSchedule) : Tick Unit := do
  if !schedule.enabled || schedule.intervalHours < 1 then return ()
  else if schedule.lastRunAt ≠ 0 && (now : Int) < due schedule then return ()
  else
    match ← tickCall (.setNX deadline schedule.vmID) with
    | .ok true => runSchedule deadline now schedule
    | _ => return ()

def enqueueSchedules (deadline now : Nat) : List BackupSchedule → Tick Unit
  | [] => return ()
  | schedule :: schedules => do
    enqueueSchedule deadline now schedule
    enqueueSchedules deadline now schedules

def enqueueScheduledBackups : Tick Unit := do
  let deadline ← tickCall .withTimeout
  match ← tickCall (.listSchedules deadline) with
  | .error _ => return ()
  | .ok schedules =>
    let now ← tickCall .now
    enqueueSchedules deadline now schedules

/-! ### The instances -/

/-- A backup that a tick has submitted: by which instance and for which machine, the time that the
tick read, the interval that it went by, and when the backup was submitted. -/
structure Run where
  instanceID : Nat
  id : String
  now : Nat
  hours : Int
  time : Nat
  deriving DecidableEq, Repr

/-- A run that `MarkScheduleRun` recorded: by which instance, for which machine and at which second. -/
structure Mark where
  instanceID : Nat
  id : String
  unix : Int
  deriving DecidableEq, Repr

def Run.mark (r : Run) : Mark := ⟨r.instanceID, r.id, (r.now / second : Nat)⟩

/-- The schedules in the database, the leases in Redis, and the clock.  No instance reads the rest:
who has a lease, the backups submitted so far, the latest first, and the runs recorded since their
schedule was made. -/
structure Scheduler where
  rows : Table BackupSchedule := []
  leases : Book String Nat := fun _ => none
  clock : Nat
  runs : List Run := []
  marks : List Mark := []

/-- A call takes effect or fails, or it takes effect and its reply is lost. -/
inductive TickChoice where
  | ok
  | fail (e : String)
  | lost (e : String)

/-- The reply and the effect of a call under a context. -/
def TickChoice.command (c : TickChoice) (deadline : Nat) (s t : Scheduler) :
    Option (Except String Unit × Scheduler) :=
  match c with
  | .ok => if s.clock < deadline then some (.ok (), t) else none
  | .lost e => if s.clock < deadline then some (.error e, t) else none
  | .fail e => some (.error e, s)

def Scheduler.leased (s : Scheduler) (i : Nat) (id : String) : Scheduler :=
  { s with leases := take s.leases i id (s.clock + leaseTime) }

def Scheduler.submitted (s : Scheduler) (i : Nat) (id : String) (now : Nat) (hours : Int) :
    Scheduler :=
  { s with runs := ⟨i, id, now, hours, s.clock⟩ :: s.runs }

def Scheduler.marked (s : Scheduler) (i : Nat) (id : String) (unix : Int) : Scheduler :=
  match s.rows.get id with
  | none => s
  | some _ => { s with rows := World.marked s.rows id unix, marks := ⟨i, id, unix⟩ :: s.marks }

def Scheduler.perform (i : Nat) : Perform TickCall TickCall.Reply TickChoice Scheduler
  | .withTimeout, .ok, s => some (s.clock + tickTimeout, s)
  | .now, .ok, s => some (s.clock, s)
  | .listSchedules deadline, .ok, s =>
    if s.clock < deadline then some (.ok (s.rows.map Prod.snd), s) else none
  | .listSchedules _, .fail e, s => some (.error e, s)
  | .setNX deadline id, .ok, s =>
    if s.clock < deadline then
      if Free s.leases s.clock id then some (.ok true, s.leased i id) else some (.ok false, s)
    else none
  | .setNX deadline id, .lost e, s =>
    if s.clock < deadline ∧ Free s.leases s.clock id then some (.error e, s.leased i id) else none
  | .setNX _ _, .fail e, s => some (.error e, s)
  | .submitBackup deadline id now hours, c, s => c.command deadline s (s.submitted i id now hours)
  | .markScheduleRun deadline id unix, c, s => c.command deadline s (s.marked i id unix)
  | .submitPrune deadline _ _ _, c, s => c.command deadline s s
  | _, _, _ => none

/-- What happens beside the ticks: time passes, a schedule is set, and a machine is deleted with its
schedule. -/
inductive SchedulerEvent where
  | tick (passed : Nat)
  | setSchedule (row : BackupSchedule)
  | deleteSchedule (id : String)

def Scheduler.event : SchedulerEvent → Scheduler → Option Scheduler
  | .tick passed, s => some { s with clock := s.clock + passed }
  | .setSchedule row, s => some { s with rows := World.upserted s.rows row }
  | .deleteSchedule id, s =>
    some { s with rows := s.rows.without [id], marks := s.marks.filter (·.id ≠ id) }

/-- The instances, each of which ticks as often as it likes. -/
def system : System TickCall TickCall.Reply TickChoice Scheduler Unit SchedulerEvent Unit where
  perform := Scheduler.perform
  code _ := enqueueScheduledBackups
  die _ s := s
  env := Scheduler.event

/-! ### The invariant and what the instances count on -/

/-- Two runs of one machine, the second by a tick that has seen the first where it was recorded. -/
def Spaced (marks : List Mark) (a b : Run) : Prop :=
  a.id = b.id → a.now + leaseTime ≤ b.time ∧
    (a.mark ∈ marks → ((a.now / second : Nat) : Int) * second + interval b.hours ≤ b.now)

/-- A run falls into its tick. -/
structure Run.Timely (r : Run) : Prop where
  hours : 1 ≤ r.hours
  began : second ≤ r.now
  after : r.now ≤ r.time
  before : r.time < r.now + tickTimeout

structure Inv (s : Scheduler) : Prop where
  began : second ≤ s.clock
  keyed : ∀ id row, s.rows.get id = some row → row.vmID = id
  distinct : (s.rows.map Prod.fst).Nodup
  timely : ∀ r ∈ s.runs, r.Timely ∧ r.time ≤ s.clock
  covered : ∀ r ∈ s.runs, ∃ g, s.leases r.id = some g ∧ r.now + leaseTime ≤ g.expires
  marked : ∀ m ∈ s.marks, ∃ r ∈ s.runs, r.mark = m
  known : ∀ m ∈ s.marks, ∃ row, s.rows.get m.id = some row ∧ m.unix ≤ row.lastRunAt
  spaced : s.runs.Pairwise fun b a => Spaced s.marks a b

/-- Up to its deadline the instance has the lease of the machine, and for half a leaseTime after. -/
abbrev Owns (s : Scheduler) (i : Nat) (id : String) (deadline : Nat) : Prop :=
  Held s.leases s.clock tickTimeout i id deadline

/-- Nat passes, and a run is recorded under a lease that outlasts every tick begun before. -/
structure Later (s t : Scheduler) : Prop where
  onward : Onward s.leases s.clock t.leases t.clock
  marks : ∀ m ∈ t.marks, m ∈ s.marks ∨
    ∃ g, t.leases m.id = some g ∧ s.clock + tickTimeout < g.expires

/-- What instance `i` may count on: only it submits and records runs of a machine whose lease it has. -/
structure Rely (i : Nat) (s t : Scheduler) : Prop where
  later : Later s t
  runs : ∃ new, t.runs = new ++ s.runs ∧
    ∀ id deadline, Owns s i id deadline → t.clock < deadline → ∀ r ∈ new, r.id ≠ id
  marks : ∀ id deadline, Owns s i id deadline → t.clock < deadline →
    ∀ m ∈ t.marks, m.id = id → m ∈ s.marks

theorem Later.refl (s : Scheduler) : Later s s :=
  ⟨.tick s.leases (Nat.le_refl _), fun _ h => .inl h⟩

theorem Later.trans {s t u : Scheduler} (h : Later s t) (h' : Later t u) : Later s u := by
  refine ⟨h.onward.trans h'.onward, fun m hm => ?_⟩
  obtain hm | ⟨g, hg, hlate⟩ := h'.marks m hm
  · obtain hm | ⟨g, hg, hlate⟩ := h.marks m hm
    · exact .inl hm
    · obtain ⟨g', hg', hle⟩ := h'.onward.expires hg
      exact .inr ⟨g', hg', Nat.lt_of_lt_of_le hlate hle⟩
  · have := h.onward.time
    exact .inr ⟨g, hg, by omega⟩

theorem Rely.refl (i : Nat) (s : Scheduler) : Rely i s s :=
  ⟨.refl s, ⟨[], rfl, fun _ _ _ _ => nofun⟩, fun _ _ _ _ _ h _ => h⟩

theorem Rely.trans (i : Nat) (s t u : Scheduler) (h : Rely i s t) (h' : Rely i t u) :
    Rely i s u := by
  refine ⟨h.later.trans h'.later, ?_, fun id deadline hown hlive m hm hid => ?_⟩
  · obtain ⟨new, hnew, hothers⟩ := h.runs
    obtain ⟨new', hnew', hothers'⟩ := h'.runs
    refine ⟨new' ++ new, by rw [hnew', hnew, List.append_assoc], ?_⟩
    intro id deadline hown hlive r hr
    obtain hr | hr := List.mem_append.mp hr
    · exact hothers' id deadline (hown.onward h.later.onward) hlive r hr
    · exact hothers id deadline hown (Nat.lt_of_le_of_lt h'.later.onward.time hlive) r hr
  · have hlive' := Nat.lt_of_le_of_lt h'.later.onward.time hlive
    have hm' := h'.marks id deadline (hown.onward h.later.onward) hlive m hm hid
    exact h.marks id deadline hown hlive' m hm' hid

/-- What changes neither the leases nor the runs, and records none. -/
theorem rely_of_same {s t : Scheduler} (htime : s.clock ≤ t.clock) (hleases : t.leases = s.leases)
    (hruns : t.runs = s.runs) (hmarks : ∀ m ∈ t.marks, m ∈ s.marks) (i : Nat) : Rely i s t where
  later := ⟨hleases ▸ .tick s.leases htime, fun m hm => .inl (hmarks m hm)⟩
  runs := ⟨[], hruns, fun _ _ _ _ => nofun⟩
  marks _ _ _ _ m hm _ := hmarks m hm

/-! ### The steps -/

/-- A step keeps the invariant and what the others count on. -/
structure Step (i : Nat) (s t : Scheduler) : Prop where
  inv : Inv t
  others : ∀ j, j ≠ i → Rely j s t
  later : Later s t

section Steps

variable {i : Nat} {s t : Scheduler} {id : String} {deadline now : Nat} {row : BackupSchedule}

theorem Step.refl (hs : Inv s) : Step i s s := ⟨hs, fun j _ => .refl j s, .refl s⟩

theorem Inv.lease (hs : Inv s) (hfree : Free s.leases s.clock id) : Step i s (s.leased i id) := by
  have honward : Onward s.leases s.clock (s.leased i id).leases s.clock :=
    onward_take hfree (Nat.le_add_right _ _)
  have hlater : Later s (s.leased i id) := ⟨honward, fun _ h => .inl h⟩
  refine ⟨{ hs with covered := fun r hr => ?_ }, fun j _ =>
    ⟨hlater, ⟨[], rfl, fun _ _ _ _ => nofun⟩, fun _ _ _ _ _ h _ => h⟩, hlater⟩
  obtain ⟨g, hg, hle⟩ := hs.covered r hr
  obtain ⟨g', hg', hle'⟩ := honward.expires hg
  exact ⟨g', hg', Nat.le_trans hle hle'⟩

/-- What a tick knows of a schedule that it has read: it lacks only runs that have been recorded
under a lease which is still there at its end. -/
structure Listed (ending : Nat) (row : BackupSchedule) (s : Scheduler) : Prop where
  deadline : ending ≤ s.clock + tickTimeout
  read : ∀ m ∈ s.marks, m.id = row.vmID → m.unix ≤ row.lastRunAt ∨
    ∃ g, s.leases m.id = some g ∧ ending < g.expires

theorem Listed.mono (h : Listed deadline row s) (hst : Later s t) : Listed deadline row t where
  deadline := Nat.le_trans h.deadline (Nat.add_le_add_right hst.onward.time _)
  read m hm hid := by
    obtain hm | ⟨g, hg, hlate⟩ := hst.marks m hm
    · obtain hle | ⟨g, hg, hlate⟩ := h.read m hm hid
      · exact .inl hle
      · obtain ⟨g', hg', hle⟩ := hst.onward.expires hg
        exact .inr ⟨g', hg', Nat.lt_of_lt_of_le hlate hle⟩
    · exact .inr ⟨g, hg, Nat.lt_of_le_of_lt h.deadline hlate⟩

/-- The tick has read the time, too. -/
structure Ready (ending now : Nat) (row : BackupSchedule) (s : Scheduler) : Prop where
  listed : Listed ending row s
  deadline : ending ≤ now + tickTimeout
  began : second ≤ now
  past : now ≤ s.clock

theorem Ready.mono (h : Ready deadline now row s) (hst : Later s t) : Ready deadline now row t :=
  ⟨h.listed.mono hst, h.deadline, h.began, Nat.le_trans h.past hst.onward.time⟩

/-- A schedule that is on and due. -/
structure Due (now : Nat) (row : BackupSchedule) : Prop where
  hours : 1 ≤ row.intervalHours
  due : row.lastRunAt ≠ 0 → due row ≤ now

/-- The instance has taken the lease of the machine, and up to its deadline it knows of all of the
machine's runs. -/
structure Turn (i : Nat) (deadline now : Nat) (row : BackupSchedule) (s : Scheduler) : Prop where
  ready : Ready deadline now row s
  owns : Owns s i row.vmID deadline
  covers : ∃ g, s.leases row.vmID = some g ∧ now + leaseTime ≤ g.expires
  runs : s.clock < deadline → ∀ r ∈ s.runs, r.id = row.vmID → r.now + leaseTime ≤ s.clock
  marks : s.clock < deadline → ∀ m ∈ s.marks, m.id = row.vmID → m.unix ≤ row.lastRunAt

theorem Turn.mono (h : Turn i deadline now row s) (hst : Rely i s t) : Turn i deadline now row t where
  ready := h.ready.mono hst.later
  owns := h.owns.onward hst.later.onward
  covers := by
    obtain ⟨g, hg, hle⟩ := h.covers
    obtain ⟨g', hg', hle'⟩ := hst.later.onward.expires hg
    exact ⟨g', hg', Nat.le_trans hle hle'⟩
  runs hlive r hr hid := by
    obtain ⟨new, hnew, hothers⟩ := hst.runs
    rw [hnew] at hr
    obtain hr | hr := List.mem_append.mp hr
    · exact absurd hid (hothers _ _ h.owns hlive r hr)
    · have htime := hst.later.onward.time
      exact Nat.le_trans (h.runs (Nat.lt_of_le_of_lt htime hlive) r hr hid) htime
  marks hlive m hm hid := by
    have hlive' := Nat.lt_of_le_of_lt hst.later.onward.time hlive
    exact h.marks hlive' m (hst.marks _ _ h.owns hlive m hm hid) hid

/-- A lease is taken: what was recorded since the schedule was read is out of the question, since
its lease would not have run out. -/
theorem Ready.turn (h : Ready deadline now row s) (hs : Inv s)
    (hfree : Free s.leases s.clock row.vmID) (hlive : s.clock < deadline) :
    Turn i deadline now row (s.leased i row.vmID) where
  ready := h.mono (hs.lease (i := i) hfree).later
  owns := by
    refine held_take ?_
    have hpast := h.past
    have hdeadline := h.deadline
    have htwice : leaseTime = 2 * tickTimeout := rfl
    omega
  covers := ⟨⟨i, s.clock + leaseTime⟩, Function.update_self ..,
    Nat.add_le_add_right h.past leaseTime⟩
  runs _ r hr hid := by
    obtain ⟨g, hg, hle⟩ := hs.covered r hr
    exact Nat.le_trans hle (hfree g (hid ▸ hg))
  marks _ m hm hid := by
    obtain hle | ⟨g, hg, hlate⟩ := h.listed.read m hm hid
    · exact hle
    · have hend := hfree g (hid ▸ hg)
      omega

/-- The instance has submitted a backup of the machine. -/
structure Ran (i : Nat) (deadline now : Nat) (row : BackupSchedule) (s : Scheduler) : Prop where
  owns : Owns s i row.vmID deadline
  own : ∃ r ∈ s.runs, r.mark = ⟨i, row.vmID, (now / second : Nat)⟩
  runs : s.clock < deadline → ∀ r ∈ s.runs, r.id = row.vmID → r.now ≤ now
  last : s.clock < deadline → s.runs.Pairwise fun b a =>
    a.id = row.vmID → b.id = row.vmID → a.now / second ≠ now / second

theorem Ran.mono (h : Ran i deadline now row s) (hst : Rely i s t) : Ran i deadline now row t where
  owns := h.owns.onward hst.later.onward
  own := by
    obtain ⟨new, hnew, -⟩ := hst.runs
    obtain ⟨r, hr, hmark⟩ := h.own
    exact ⟨r, by rw [hnew]; exact List.mem_append_right _ hr, hmark⟩
  runs hlive r hr hid := by
    obtain ⟨new, hnew, hothers⟩ := hst.runs
    rw [hnew] at hr
    obtain hr | hr := List.mem_append.mp hr
    · exact absurd hid (hothers _ _ h.owns hlive r hr)
    · exact h.runs (Nat.lt_of_le_of_lt hst.later.onward.time hlive) r hr hid
  last hlive := by
    obtain ⟨new, hnew, hothers⟩ := hst.runs
    have hothers := hothers _ _ h.owns hlive
    rw [hnew, List.pairwise_append]
    refine ⟨?_, h.last (Nat.lt_of_le_of_lt hst.later.onward.time hlive), ?_⟩
    · exact List.pairwise_of_forall_mem_list fun b hb a ha haid => absurd haid (hothers a ha)
    · exact fun b hb a ha _ hbid => absurd hbid (hothers b hb)

/-- The runs of the machine that an instance with its lease finds were read well before. -/
theorem Turn.early (h : Turn i deadline now row s) (hlive : s.clock < deadline) {r : Run}
    (hr : r ∈ s.runs) (hid : r.id = row.vmID) : r.now + tickTimeout < now := by
  have hcleared := h.runs hlive r hr hid
  have hdeadline := h.ready.deadline
  have htwice : leaseTime = 2 * tickTimeout := rfl
  omega

theorem Inv.submit (hs : Inv s) (hturn : Turn i deadline now row s) (hdue : Due now row)
    (hlive : s.clock < deadline) :
    Step i s (s.submitted i row.vmID now row.intervalHours) := by
  have hready := hturn.ready
  have hlater : Later s (s.submitted i row.vmID now row.intervalHours) :=
    ⟨.tick s.leases (Nat.le_refl _), fun _ h => .inl h⟩
  refine ⟨{ hs with timely := ?_, covered := ?_, marked := ?_, spaced := ?_ }, fun j hj =>
    ⟨hlater, ⟨[_], rfl, ?_⟩, fun _ _ _ _ _ h _ => h⟩, hlater⟩
  · intro r hr
    obtain rfl | hr := List.mem_cons.mp hr
    · exact ⟨⟨hdue.hours, hready.began, hready.past, Nat.lt_of_lt_of_le hlive hready.deadline⟩,
        Nat.le_refl _⟩
    · exact hs.timely r hr
  · intro r hr
    obtain rfl | hr := List.mem_cons.mp hr
    · exact hturn.covers
    · exact hs.covered r hr
  · intro m hm
    obtain ⟨r, hr, hmark⟩ := hs.marked m hm
    exact ⟨r, List.mem_cons_of_mem _ hr, hmark⟩
  · refine List.pairwise_cons.mpr ⟨fun a ha hid => ⟨hturn.runs hlive a ha hid, fun hmark => ?_⟩,
      hs.spaced⟩
    have hknown : ((a.now / second : Nat) : Int) ≤ row.lastRunAt :=
      hturn.marks hlive a.mark hmark hid
    have hbegan : 0 < a.now / second := Nat.div_pos (hs.timely a ha).1.began (by decide)
    have hpast : due row ≤ now := hdue.due (by omega)
    have hscale : ((a.now / second : Nat) : Int) * second ≤ row.lastRunAt * second :=
      Int.mul_le_mul_of_nonneg_right hknown (by decide)
    rw [due] at hpast
    show _ + interval row.intervalHours ≤ (now : Int)
    omega
  · intro id d hown hlive' r hr hid
    obtain rfl := List.mem_singleton.mp hr
    have hid : row.vmID = id := hid
    subst hid
    exact hj (hown.unique hturn.owns hlive' hlive)

theorem Turn.ran (h : Turn i deadline now row s) (hlive : s.clock < deadline) :
    Ran i deadline now row (s.submitted i row.vmID now row.intervalHours) where
  owns := h.owns
  own := ⟨_, List.mem_cons_self, rfl⟩
  runs _ r hr hid := by
    obtain rfl | hr := List.mem_cons.mp hr
    · exact Nat.le_refl _
    · have := h.early hlive hr hid
      omega
  last _ := by
    have hbefore : ∀ a ∈ s.runs, a.id = row.vmID → a.now / second ≠ now / second := by
      intro a ha hid hsame
      have hearly := h.early hlive ha hid
      have hnext : (a.now + second) / second = a.now / second + 1 :=
        Nat.add_div_right _ (by decide)
      have hle : (a.now + second) / second ≤ now / second := by
        refine Nat.div_le_div_right ?_
        have hsecond : second ≤ tickTimeout := by decide
        omega
      omega
    exact List.pairwise_cons.mpr ⟨fun a ha haid _ => hbefore a ha haid,
      List.pairwise_of_forall_mem_list fun b _ a ha haid _ => hbefore a ha haid⟩

theorem Inv.mark (hs : Inv s) (hran : Ran i deadline now row s) (hlive : s.clock < deadline) :
    Step i s (s.marked i row.vmID (now / second : Nat)) := by
  unfold Scheduler.marked
  split
  · exact .refl hs
  · rename_i old hold
    obtain ⟨g, hg, -, hlasts⟩ := hran.owns hlive
    have hlater : Later s { s with
        rows := World.marked s.rows row.vmID (now / second : Nat)
        marks := ⟨i, row.vmID, (now / second : Nat)⟩ :: s.marks } := by
      refine ⟨.tick s.leases (Nat.le_refl _), fun m hm => ?_⟩
      obtain rfl | hm := List.mem_cons.mp hm
      · exact .inr ⟨g, hg, by omega⟩
      · exact .inl hm
    have hget : ∀ id, (World.marked s.rows row.vmID (now / second : Nat)).get id =
        if id = row.vmID then some { old with lastRunAt := (now / second : Nat) }
        else s.rows.get id := by
      intro id
      rw [World.marked, hold]
      exact Table.get_put ..
    refine ⟨{ hs with keyed := ?_, distinct := ?_, marked := ?_, known := ?_, spaced := ?_ },
      fun j hj => ⟨hlater, ⟨[], rfl, fun _ _ _ _ => nofun⟩, ?_⟩, hlater⟩
    · intro id row' hrow'
      rw [hget] at hrow'
      split at hrow'
      · rename_i hid
        cases hrow'
        exact (hs.keyed _ old hold).trans hid.symm
      · exact hs.keyed id row' hrow'
    · rw [World.marked, hold]
      exact Table.nodup_put hs.distinct _ _
    · intro m hm
      obtain rfl | hm := List.mem_cons.mp hm
      · exact hran.own
      · exact hs.marked m hm
    · intro m hm
      rw [hget]
      obtain rfl | hm := List.mem_cons.mp hm
      · exact ⟨_, if_pos rfl, Int.le_refl _⟩
      · by_cases hid : m.id = row.vmID
        · refine ⟨_, if_pos hid, ?_⟩
          obtain ⟨r, hr, rfl⟩ := hs.marked m hm
          exact Int.ofNat_le.mpr (Nat.div_le_div_right (hran.runs hlive r hr hid))
        · rw [if_neg hid]
          exact hs.known m hm
    · refine (hs.spaced.and (hran.last hlive)).imp fun {b a} hboth hid => ⟨(hboth.1 hid).1, ?_⟩
      intro hmark
      obtain hmark | hmark := List.mem_cons.mp hmark
      · have haid : a.id = row.vmID := congrArg Mark.id hmark
        have hsame : ((a.now / second : Nat) : Int) = (now / second : Nat) :=
          congrArg Mark.unix hmark
        exact absurd (Int.ofNat_inj.mp hsame) (hboth.2 haid (hid ▸ haid))
      · exact (hboth.1 hid).2 hmark
    · intro id d hown hlive' m hm hid
      obtain rfl | hm := List.mem_cons.mp hm
      · subst hid
        exact absurd (hown.unique hran.owns hlive' hlive) hj
      · exact hm

theorem get_upserted (rows : Table BackupSchedule) (row : BackupSchedule) (id : String) :
    (World.upserted rows row).get id = if id = row.vmID then
      some { row with lastRunAt := ((rows.get row.vmID).map (·.lastRunAt)).getD row.lastRunAt }
      else rows.get id := by
  unfold World.upserted
  split
  · rename_i hnone
    rw [Table.get_put, hnone]
    rfl
  · rename_i old hold
    rw [Table.get_put, hold]
    rfl

theorem Inv.setSchedule (hs : Inv s) (row : BackupSchedule) :
    Inv { s with rows := World.upserted s.rows row } := by
  refine { hs with keyed := fun id row' hrow' => ?_, distinct := ?_, known := fun m hm => ?_ }
  · rw [get_upserted] at hrow'
    split at hrow'
    · rename_i hid
      cases hrow'
      exact hid.symm
    · exact hs.keyed id row' hrow'
  · unfold World.upserted
    split
    · exact Table.nodup_put hs.distinct _ _
    · exact Table.nodup_put hs.distinct _ _
  · obtain ⟨old, hold, hle⟩ := hs.known m hm
    rw [get_upserted]
    split
    · rename_i hid
      rw [hid] at hold
      rw [hold]
      exact ⟨_, rfl, hle⟩
    · exact ⟨old, hold, hle⟩

theorem Inv.deleteSchedule (hs : Inv s) (id : String) :
    Inv { s with rows := s.rows.without [id], marks := s.marks.filter (·.id ≠ id) } := by
  have hmarks : ∀ m, m ∈ s.marks.filter (·.id ≠ id) → m ∈ s.marks ∧ m.id ≠ id := by
    intro m hm
    simpa using hm
  exact
    { hs with
      keyed := fun id' row hrow => by
        rw [Table.get_without] at hrow
        split at hrow
        · cases hrow
        · exact hs.keyed id' row hrow
      distinct := hs.distinct.sublist (List.filter_sublist.map _)
      marked := fun m hm => hs.marked m (hmarks m hm).1
      known := fun m hm => by
        obtain ⟨row, hrow, hle⟩ := hs.known m (hmarks m hm).1
        refine ⟨row, ?_, hle⟩
        rw [Table.get_without, if_neg (by simpa using (hmarks m hm).2), hrow]
      spaced := hs.spaced.imp fun hspaced hid =>
        ⟨(hspaced hid).1, fun hmark => (hspaced hid).2 (hmarks _ hmark).1⟩ }

/-- What happens beside the ticks keeps the invariant, and every instance may count on it. -/
theorem Inv.event {e : SchedulerEvent} (hs : Inv s) (h : Scheduler.event e s = some t) :
    Inv t ∧ ∀ j, Rely j s t := by
  cases e with
  | tick passed =>
    cases h
    have htime := Nat.le_add_right s.clock passed
    refine ⟨{ hs with began := Nat.le_trans hs.began htime, timely := fun r hr => ?_ },
      rely_of_same htime rfl rfl fun _ h => h⟩
    exact ⟨(hs.timely r hr).1, Nat.le_trans (hs.timely r hr).2 htime⟩
  | setSchedule row =>
    cases h
    exact ⟨hs.setSchedule row, rely_of_same (Nat.le_refl _) rfl rfl fun _ h => h⟩
  | deleteSchedule id =>
    cases h
    exact ⟨hs.deleteSchedule id,
      rely_of_same (Nat.le_refl _) rfl rfl fun m hm => (List.mem_filter.mp hm).1⟩

end Steps

/-! ### The ticks -/

section Ticks

variable {i : Nat} {s t : Scheduler} {deadline now : Nat} {row : BackupSchedule} {α : Type}

abbrev setting (i : Nat) : Setting TickCall TickCall.Reply TickChoice Scheduler :=
  system.setting (fun _ _ _ _ => True) Inv Rely (fun _ _ => True) i

abbrev keeping (i : Nat) : Keeping (setting i) where
  Inv := Inv
  le := Later
  refl := Later.refl
  trans _ _ _ h h' := h.trans h'
  rely _ _ _ h := ⟨h.2, h.1.later⟩

/-- Instance `i` keeps the invariant and what the others count on. -/
abbrev Ticks (i : Nat) (p : Tick α) (Q : α → Scheduler → Prop) (s : Scheduler) : Prop :=
  (keeping i).Keeps p Q s

theorem ticks_request {a : TickCall} {Q : a.Reply → Scheduler → Prop}
    (h : ∀ s1, Rely i s s1 → Inv s1 → ∀ c r t, Scheduler.perform i a c s1 = some (r, t) →
      Step i s1 t ∧ Q r t) : Ticks i (tickCall a) Q s := by
  rintro - s1 ⟨hst, hs1⟩ c r t - hp
  obtain ⟨hstep, hr⟩ := h s1 hst hs1 c r t hp
  exact ⟨⟨hstep.inv, trivial, hstep.others⟩, hstep.inv, hst.later.trans hstep.later, hr⟩

theorem command_cases {c : TickChoice} {u : Scheduler} {r : Except String Unit}
    (h : c.command deadline s u = some (r, t)) :
    s.clock < deadline ∧ t = u ∨ t = s ∧ ∃ e, r = .error e := by
  cases c with
  | ok =>
    simp only [TickChoice.command] at h
    split at h
    · rename_i hlive
      cases h
      exact .inl ⟨hlive, rfl⟩
    · cases h
  | lost e =>
    simp only [TickChoice.command] at h
    split at h
    · rename_i hlive
      cases h
      exact .inl ⟨hlive, rfl⟩
    · cases h
  | fail e =>
    cases h
    exact .inr ⟨rfl, e, rfl⟩

theorem setNX_cases {id : String} {c : TickChoice} {r : Except String Bool}
    (h : Scheduler.perform i (.setNX deadline id) c s = some (r, t)) :
    s.clock < deadline ∧ Free s.leases s.clock id ∧ t = s.leased i id ∨ t = s ∧ r ≠ .ok true := by
  cases c with
  | ok =>
    simp only [Scheduler.perform] at h
    split at h
    · rename_i hlive
      split at h
      · rename_i hfree
        cases h
        exact .inl ⟨hlive, hfree, rfl⟩
      · cases h
        exact .inr ⟨rfl, nofun⟩
    · cases h
  | lost e =>
    simp only [Scheduler.perform] at h
    split at h
    · rename_i hlive
      cases h
      exact .inl ⟨hlive.1, hlive.2, rfl⟩
    · cases h
  | fail e =>
    cases h
    exact .inr ⟨rfl, nofun⟩

theorem ticks_setNX (h : Ready deadline now row s) :
    Ticks i (tickCall (.setNX deadline row.vmID))
      (fun r t => r = .ok true → Turn i deadline now row t) s := by
  refine ticks_request fun s1 hst hs1 c r t hp => ?_
  obtain ⟨hlive, hfree, rfl⟩ | ⟨rfl, hr⟩ := setNX_cases hp
  · exact ⟨hs1.lease hfree, fun _ => (h.mono hst.later).turn hs1 hfree hlive⟩
  · exact ⟨.refl hs1, fun hok => absurd hok hr⟩

theorem ticks_runSchedule (h : Turn i deadline now row s) (hdue : Due now row) :
    Ticks i (runSchedule deadline now row) (fun _ _ => True) s := by
  have hsubmit : Ticks i (tickCall (.submitBackup deadline row.vmID now row.intervalHours))
      (fun r t => r = .ok () → Ran i deadline now row t) s := by
    refine ticks_request fun s1 hst hs1 c r t hp => ?_
    have hturn := h.mono hst
    obtain ⟨hlive, rfl⟩ | ⟨rfl, e, rfl⟩ := command_cases hp
    · exact ⟨hs1.submit hturn hdue hlive, fun _ => hturn.ran hlive⟩
    · exact ⟨.refl hs1, nofun⟩
  refine .bind hsubmit fun r t _ ht => ?_
  cases r with
  | error e => exact .pure trivial
  | ok _ =>
    have hmark : Ticks i (tickCall (.markScheduleRun deadline row.vmID (now / second : Nat)))
        (fun _ _ => True) t := by
      refine ticks_request fun s1 hst hs1 c r u hp => ⟨?_, trivial⟩
      obtain ⟨hlive, rfl⟩ | ⟨rfl, -⟩ := command_cases hp
      · exact hs1.mark ((ht rfl).mono hst) hlive
      · exact .refl hs1
    refine .bind hmark fun _ u _ _ => ?_
    show Ticks i (if (decide (0 < row.keepLast) || decide (0 < row.maxAgeDays)) = true then _
      else _) _ _
    split
    · refine .bind (P := fun _ _ => True) ?_ fun _ _ _ _ => .pure trivial
      refine ticks_request fun s1 _ hs1 c r v hp => ⟨?_, trivial⟩
      obtain ⟨-, rfl⟩ | ⟨rfl, -⟩ := command_cases hp
      · exact .refl hs1
      · exact .refl hs1
    · exact .pure trivial

theorem ticks_enqueueSchedule (h : Ready deadline now row s) :
    Ticks i (enqueueSchedule deadline now row) (fun _ _ => True) s := by
  unfold enqueueSchedule
  split
  · exact .pure trivial
  · rename_i hon
    split
    · exact .pure trivial
    · rename_i hnot
      have hdue : Due now row := by
        simp only [Bool.or_eq_true, Bool.not_eq_true', decide_eq_true_eq, not_or] at hon
        simp only [Bool.and_eq_true, decide_eq_true_eq, not_and, Int.not_lt] at hnot
        exact ⟨by omega, hnot⟩
      refine .bind (ticks_setNX h) fun r t _ ht => ?_
      cases r with
      | error e => exact .pure trivial
      | ok claimed =>
        cases claimed with
        | false => exact .pure trivial
        | true => exact ticks_runSchedule (ht rfl) hdue

theorem ticks_enqueueSchedules {schedules : List BackupSchedule}
    (h : ∀ row ∈ schedules, Ready deadline now row s) :
    Ticks i (enqueueSchedules deadline now schedules) (fun _ _ => True) s := by
  induction schedules generalizing s with
  | nil => exact .pure trivial
  | cons row schedules ih =>
    refine .bind (ticks_enqueueSchedule (h row List.mem_cons_self)) fun _ t hst _ => ih ?_
    exact fun row' hrow' => (h row' (List.mem_cons_of_mem _ hrow')).mono hst

theorem Inv.listed (hs : Inv s) (hdeadline : deadline ≤ s.clock + tickTimeout)
    (hrow : row ∈ s.rows.map Prod.snd) : Listed deadline row s := by
  refine ⟨hdeadline, fun m hm hid => .inl ?_⟩
  obtain ⟨⟨id, row'⟩, hmem, rfl⟩ := List.mem_map.mp hrow
  have hget := Table.get_of_mem hs.distinct hmem
  obtain ⟨old, hold, hle⟩ := hs.known m hm
  rw [hid, hs.keyed id row' hget, hget] at hold
  cases hold
  exact hle

theorem ticks_enqueueScheduledBackups :
    Ticks i enqueueScheduledBackups (fun _ _ => True) s := by
  have htimeout : Ticks i (tickCall .withTimeout)
      (fun deadline t => deadline ≤ t.clock + tickTimeout) s := by
    refine ticks_request fun s1 _ hs1 c r t hp => ?_
    cases c with
    | ok =>
      cases hp
      exact ⟨.refl hs1, Nat.le_refl _⟩
    | fail e => cases hp
    | lost e => cases hp
  refine .bind htimeout fun deadline t _ ht => ?_
  have hlist : Ticks i (tickCall (.listSchedules deadline))
      (fun r u => ∀ schedules, r = .ok schedules → ∀ row ∈ schedules, Listed deadline row u) t := by
    refine ticks_request fun s1 hst hs1 c r u hp => ?_
    have hdeadline := Nat.le_trans ht (Nat.add_le_add_right hst.later.onward.time _)
    cases c with
    | ok =>
      simp only [Scheduler.perform] at hp
      split at hp
      · cases hp
        refine ⟨.refl hs1, fun schedules hr row hrow => ?_⟩
        cases hr
        exact hs1.listed hdeadline hrow
      · cases hp
    | fail e =>
      cases hp
      exact ⟨.refl hs1, nofun⟩
    | lost e => cases hp
  refine .bind hlist fun r u _ hu => ?_
  cases r with
  | error e => exact .pure trivial
  | ok schedules =>
    have hnow : Ticks i (tickCall .now)
        (fun now v => ∀ row ∈ schedules, Ready deadline now row v) u := by
      refine ticks_request fun s1 hst hs1 c r v hp => ?_
      cases c with
      | ok =>
        cases hp
        refine ⟨.refl hs1, fun row hrow => ?_⟩
        have hlisted := (hu schedules rfl row hrow).mono hst.later
        exact ⟨hlisted, hlisted.deadline, hs1.began, Nat.le_refl _⟩
      | fail e => cases hp
      | lost e => cases hp
    exact .bind hnow fun now v _ hv => ticks_enqueueSchedules hv

end Ticks

/-! ### Runs -/

theorem Inv.start {clock : Nat} (h : second ≤ clock) : Inv { clock } where
  began := h
  keyed _ _ h := by cases h
  distinct := List.nodup_nil
  timely _ h := by cases h
  covered _ h := by cases h
  marked _ h := by cases h
  known _ h := by cases h
  spaced := .nil

def outline {clock : Nat} (h : second ≤ clock) :
    system.Outline (fun _ _ _ _ => True) { clock } where
  Inv := Inv
  idle _ _ := True
  rely := Rely
  guar _ _ := True
  refl := Rely.refl
  trans := Rely.trans
  stable _ _ _ h _ := h
  init := ⟨.start h, fun _ => trivial⟩
  code _ _ _ hs _ := wp_mono (ticks_enqueueScheduledBackups hs) fun _ _ _ => trivial
  die _ s hs := ⟨hs, trivial, trivial, fun j _ => .refl j s⟩
  env _ _ _ hs h := ⟨(hs.event h).1, trivial, (hs.event h).2⟩

/-- The longest interval in hours that fits a `time.Duration`. -/
def maxHours : Int := 2562047

theorem interval_eq {hours : Int} (hlow : 0 ≤ hours) (hhigh : hours ≤ maxHours) :
    interval hours = hours * hour := by
  have hmax : maxHours = 2562047 := rfl
  have hhour : (hour : Int) = 3600000000000 := rfl
  rw [interval, hhour]
  refine Int.bmod_eq_of_le ?_ ?_
  · omega
  · omega

/-- The backups that the scheduler submits for a machine are apart by half a minute at least,
whatever fails.  Where the first run was recorded since the schedule was made, they are apart by the
interval of the second one, up to half a minute and a second, as long as it fits its type. -/
theorem backups_spaced {clock : Nat} (hclock : second ≤ clock)
    {g : Config TickCall TickCall.Reply Scheduler Unit}
    (hg : system.Reach (fun _ _ _ _ => True) { clock } g) :
    g.shared.runs.Pairwise fun b a => a.id = b.id →
      a.time + tickTimeout < b.time ∧ (a.mark ∈ g.shared.marks → b.hours ≤ maxHours →
        (a.time : Int) + b.hours * hour < b.time + tickTimeout + second) := by
  have hs : Inv g.shared := (outline hclock).invariant hg
  refine hs.spaced.imp_of_mem fun {b a} hb ha hspaced hid => ?_
  obtain ⟨hafter, hmarked⟩ := hspaced hid
  have hfirst := (hs.timely a ha).1
  have hsecond := (hs.timely b hb).1
  have htwice : leaseTime = 2 * tickTimeout := rfl
  have hbefore := hfirst.before
  refine ⟨by omega, fun hmark hhours => ?_⟩
  have hdue := hmarked hmark
  rw [interval_eq (by have := hsecond.hours; omega) hhours] at hdue
  have hround : (a.now : Int) < ((a.now / second : Nat) : Int) * second + second := by
    exact_mod_cast Nat.lt_div_mul_add (a := a.now) (show 0 < second by decide)
  have hpast := hsecond.after
  omega

/-- Instance `i` ticks, and it submits and records a backup of the one machine that is due. -/
def ticking (i : Nat) : List (Move TickChoice Unit SchedulerEvent) :=
  [.begin i (), .call i .ok, .call i .ok, .call i .ok, .call i .ok, .call i .ok, .call i .ok,
    .finish i]

/-- A machine with a backup every hour, backed up by two instances one after the other. -/
theorem backups_spaced_hourly : ∃ g,
    system.moves ⟨{ clock := second }, fun _ => none⟩
      (.env (.setSchedule { vmID := "v", enabled := true, intervalHours := 1 }) :: ticking 0 ++
        .env (.tick hour) :: ticking 1) = some g ∧
    g.shared.runs.map (·.instanceID) = [1, 0] ∧
    g.shared.runs.Pairwise fun b a => a.id = b.id →
      a.time + tickTimeout < b.time ∧ (a.mark ∈ g.shared.marks → b.hours ≤ maxHours →
        (a.time : Int) + b.hours * hour < b.time + tickTimeout + second) := by
  have hrun : ∃ g,
      system.moves ⟨{ clock := second }, fun _ => none⟩
        (.env (.setSchedule { vmID := "v", enabled := true, intervalHours := 1 }) :: ticking 0 ++
          .env (.tick hour) :: ticking 1) = some g ∧
      g.shared.runs.map (·.instanceID) = [1, 0] := ⟨_, rfl, rfl⟩
  obtain ⟨g, hg, hruns⟩ := hrun
  exact ⟨g, hg, hruns, backups_spaced (Nat.le_refl _) (system.reach_moves .start hg)⟩

/-- An interval that does not fit its type: the next backup is submitted as soon as the lease has
run out. -/
theorem backups_overflow : ∃ g,
    system.moves ⟨{ clock := second }, fun _ => none⟩
      (.env (.setSchedule { vmID := "v", enabled := true, intervalHours := maxHours + 1 }) ::
        ticking 0 ++ .env (.tick leaseTime) :: ticking 1) = some g ∧
    g.shared.runs.map (·.time) = [second + leaseTime, second] :=
  ⟨_, rfl, rfl⟩

end Maco.Jobs.Maintenance
