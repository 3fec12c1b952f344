import Maco.Jobs.Exclusive

/-! The list of the public jobs.  It comes from three readings at different times: the index, then
the active tasks and then the pending ones, page by page, and the records one by one.  While no
record goes, and no task leaves its list between the first page and the last, the list holds every
public job that is in a queue all along. -/

namespace Maco.Jobs

open Concurrent

/-- The tasks of a state, in asynq's order. -/
def JobsState.listed (s : JobsState) (state : TaskState) : List TaskInfo :=
  (s.taskIDs.filterMap fun id =>
    (s.tasks id).map fun task => TaskInfo.mk id task.state task.lastErr).filter (·.state = state)

/-- No record goes, and the list of the saves grows. -/
structure RecordsStay (s t : JobsState) : Prop where
  records : ∀ id, s.records id ≠ none → t.records id ≠ none
  saves : s.saves ⊆ t.saves

/-- No task leaves the pending or the active ones. -/
def TasksStay (s t : JobsState) : Prop :=
  ∀ id task, s.tasks id = some task → task.state ≠ .archived →
    ∃ task', t.tasks id = some task' ∧ task'.state = task.state

/-- Tasks only come, at the end of the pending ones. -/
structure TasksGrow (s t : JobsState) : Prop where
  active : t.listed .active = s.listed .active
  pending : s.listed .pending <+: t.listed .pending

theorem TasksGrow.refl (s : JobsState) : TasksGrow s s := ⟨rfl, List.prefix_rfl⟩

theorem TasksGrow.trans {s t u : JobsState} (h : TasksGrow s t) (h' : TasksGrow t u) :
    TasksGrow s u :=
  ⟨h'.active.trans h.active, h.pending.trans h'.pending⟩

theorem TasksGrow.isPrefixed {s t : JobsState} {state : TaskState} (h : TasksGrow s t)
    (hstate : state ≠ .archived) : s.listed state <+: t.listed state := by
  cases state with
  | pending => exact h.pending
  | active => exact h.active ▸ List.prefix_rfl
  | archived => exact absurd rfl hstate

section Lists

variable {s t : JobsState} {state : TaskState}

theorem mem_listed {info : TaskInfo} :
    info ∈ s.listed state ↔ info.id ∈ s.taskIDs ∧ info.state = state ∧
      ∃ task, s.tasks info.id = some task ∧ task.state = info.state ∧ task.lastErr = info.lastErr := by
  unfold JobsState.listed
  rw [List.mem_filter, List.mem_filterMap]
  constructor
  · rintro ⟨⟨id, hid, hinfo⟩, hstate⟩
    obtain ⟨task, htask, rfl⟩ := Option.map_eq_some_iff.mp hinfo
    exact ⟨hid, by simpa using hstate, task, htask, rfl, rfl⟩
  · rintro ⟨hid, hstate, task, htask, h1, h2⟩
    refine ⟨⟨info.id, hid, ?_⟩, by simpa using hstate⟩
    rw [htask, Option.map_some, h1, h2]

/-- The part of `listed` that one task makes. -/
def JobsState.entry (s : JobsState) (state : TaskState) (id : String) : Option TaskInfo :=
  ((s.tasks id).map fun task => TaskInfo.mk id task.state task.lastErr).filter (·.state = state)

theorem listed_eq (s : JobsState) (state : TaskState) :
    s.listed state = s.taskIDs.filterMap (s.entry state) := List.filter_filterMap

theorem entry_eq_none {id : String} (h : ∀ task, s.tasks id = some task → task.state ≠ state) :
    s.entry state id = none := by
  unfold JobsState.entry
  cases htask : s.tasks id with
  | none => rfl
  | some task =>
    have hne := h task htask
    simp [Option.filter, hne]

theorem entry_congr {id : String} (h : t.tasks id = s.tasks id) :
    t.entry state id = s.entry state id := by
  unfold JobsState.entry
  rw [h]

/-- A task that has left the list, or was not on it, changes nothing in it. -/
theorem listed_advanced {id : String} {task : Task} {next : Option Task}
    (hfound : s.tasks id = some task) (htasks : t.tasks = Function.update s.tasks id next)
    (hids : t.taskIDs = s.taskIDs) (hold : task.state ≠ state)
    (hnew : ∀ task', next = some task' → task'.state ≠ state) :
    t.listed state = s.listed state := by
  rw [listed_eq, listed_eq, hids]
  congr 1
  funext id'
  by_cases hsame : id' = id
  · subst hsame
    rw [entry_eq_none (s := s), entry_eq_none]
    · rw [htasks, Function.update_self]
      exact hnew
    · rw [hfound]
      rintro task' h
      cases h
      exact hold
  · exact entry_congr (by rw [htasks, Function.update_of_ne hsame])

theorem filterMap_filter_ne {f f' : String → Option TaskInfo} {id : String} (l : List String)
    (hsame : ∀ id', id' ≠ id → f' id' = f id') (hnone : f id = none) :
    (l.filter (· ≠ id)).filterMap f' = l.filterMap f := by
  induction l with
  | nil => rfl
  | cons id' l ih =>
    by_cases h : id' = id
    · subst h
      rw [List.filter_cons_of_neg (by simp), List.filterMap_cons_none hnone, ih]
    · rw [List.filter_cons_of_pos (by simpa using h)]
      simp only [List.filterMap_cons, hsame id' h, ih]

theorem listed_enqueued {p : Payload} (hfree : s.tasks p.id = none)
    (htasks : t.tasks = Function.update s.tasks p.id (some { payload := p }))
    (hids : t.taskIDs = s.taskIDs.filter (· ≠ p.id) ++ [p.id]) :
    t.listed state = s.listed state ++ [p.id].filterMap (t.entry state) := by
  rw [listed_eq, listed_eq, hids, List.filterMap_append]
  congr 1
  refine filterMap_filter_ne s.taskIDs (fun id' h => ?_) ?_
  · exact entry_congr (by rw [htasks, Function.update_of_ne h])
  · exact entry_eq_none fun task h => by rw [hfree] at h; cases h

theorem TaskStep.grow (h : TaskStep s t) (hstay : TasksStay s t) : TasksGrow s t := by
  cases h with
  | same tasks taskIDs queue =>
    have hsame : ∀ state, t.listed state = s.listed state := fun state => by
      unfold JobsState.listed
      rw [tasks, taskIDs]
    exact ⟨hsame .active, (hsame .pending).symm ▸ List.prefix_rfl⟩
  | enqueued p free tasks taskIDs queue =>
    constructor
    · rw [listed_enqueued free tasks taskIDs]
      have hentry : t.entry .active p.id = none := entry_eq_none fun task htask => by
        rw [tasks, Function.update_self] at htask
        cases htask
        nofun
      simp [hentry]
    · rw [listed_enqueued free tasks taskIDs]
      exact List.prefix_append _ _
  | advanced id task next found onward tasks taskIDs queue =>
    -- A task that is taken on leaves its state, so here it is an archived one that goes.
    have harchived : task.state = .archived := by
      by_contra hne
      obtain ⟨task', htask', hsame⟩ := hstay id task found hne
      rw [tasks, Function.update_self] at htask'
      exact (onward task' htask').2 hsame
    have hsame : ∀ state, state ≠ .archived → t.listed state = s.listed state := by
      intro state hstate
      refine listed_advanced found tasks taskIDs (harchived ▸ hstate.symm) ?_
      exact fun task' h => absurd harchived (onward task' h).1
    exact ⟨hsame .active nofun, (hsame .pending nofun).symm ▸ List.prefix_rfl⟩

end Lists

/-! ### The calls of the list -/

/-- Each job of the index and each task of a queue has its record. -/
structure Intact (s : JobsState) : Prop where
  indexed : ∀ e ∈ s.index, s.records e.2 ≠ none
  queued : ∀ id task, s.tasks id = some task → task.state ≠ .archived → s.records id ≠ none

/-- A public job that is in a queue, as asynq tells. -/
structure Listed (id : String) (s : JobsState) : Prop where
  record : ∃ j, s.records id = some j ∧ j.isPrivate = false
  task : ∃ info, s.info id = .ok info ∧ info.state ≠ .archived

/-- A public record of the job has been stored. -/
def JobsState.Public (s : JobsState) (id : String) : Prop :=
  ∃ j ∈ s.saves, j.id = id ∧ j.isPrivate = false

/-- A call that deletes nothing, of those that the list makes. -/
def JobCall.Lists : JobCall → Prop
  | .now | .zrevrange _ _ | .get _ | .save _ _ | .rpush _ _ | .lrange _ | .taskInfo _
  | .listTasks _ _ | .outOfRounds => True
  | _ => False

/-- No command fails. -/
def NoFault (allowed : JobCall → JobChoice → JobsState → Prop) : Prop :=
  ∀ a c s, allowed a c s → c = .ok

section Calls

variable {i : Nat} {allowed : JobCall → JobChoice → JobsState → Prop} {s t : JobsState} {α : Type}

theorem RecordsStay.refl (s : JobsState) : RecordsStay s s := ⟨fun _ h => h, fun _ h => h⟩

theorem RecordsStay.trans (s t u : JobsState) (h : RecordsStay s t) (h' : RecordsStay t u) :
    RecordsStay s u :=
  ⟨fun id hid => h'.records id (h.records id hid), fun _ hj => h'.saves (h.saves hj)⟩

theorem JobsState.Public.mono {id : String} (h : s.Public id) (hst : RecordsStay s t) :
    t.Public id := by
  obtain ⟨j, hj, hid⟩ := h
  exact ⟨j, hst.saves hj, hid⟩

theorem JobsState.perform_stays {a : JobCall} {c : JobChoice} {r : a.Reply}
    (h : JobsState.perform i a c s = some (r, t)) (ha : a.Lists) : RecordsStay s t := by
  refine ⟨fun id hid => ?_, (JobsState.perform_tasks h).2⟩
  cases a with
  | save j was =>
    obtain rfl | ⟨rfl, -⟩ := JobsState.save_cases h
    · by_cases hsame : id = j.id
      · simp [JobsState.saved, hsame]
      · simpa [JobsState.saved, hsame] using hid
    · exact hid
  | get id' =>
    obtain ⟨rfl, -⟩ := JobsState.get_cases h
    exact hid
  | rpush id' line =>
    obtain rfl | ⟨rfl, -⟩ := JobChoice.command_cases h
    · exact hid
    · exact hid
  | zrevrange start stop | lrange id' =>
    obtain ⟨rfl, -⟩ := JobChoice.query_cases h
    exact hid
  | now | taskInfo id' | listTasks state page | outOfRounds =>
    cases c <;> cases h <;> exact hid
  | newString | zadd _ _ | zrange _ _ | mget _ | trim _ | enqueue _ | setNX _ | releaseLock _
  | startAction _ | finishAction _ => exact ha.elim

/-- What holds at every call of the list. -/
structure Sound (s : JobsState) : Prop where
  inv : JobsInv False s
  intact : Intact s

abbrev stayKeeping (i : Nat) (allowed : JobCall → JobChoice → JobsState → Prop) :
    Keeping (jobsSystem.during i allowed Sound RecordsStay) where
  Inv _ := True
  le := RecordsStay
  refl := .refl
  trans := .trans
  rely _ _ _ h := ⟨trivial, h⟩

/-- Process `i` reads, while no record goes. -/
abbrev Gathers (i : Nat) (allowed : JobCall → JobChoice → JobsState → Prop) (p : Service α)
    (Q : α → JobsState → Prop) (s : JobsState) : Prop := (stayKeeping i allowed).Keeps p Q s

theorem gathers_request {a : JobCall} {Q : a.Reply → JobsState → Prop} (ha : a.Lists)
    (h : ∀ s1, RecordsStay s s1 → Sound s1 → ∀ c r t, allowed a c s1 →
      JobsState.perform i a c s1 = some (r, t) → Q r t) : Gathers i allowed (jobCall a) Q s :=
  .request fun s1 hst _ c r t hc hp =>
    ⟨trivial, trivial, JobsState.perform_stays hp ha, h s1 hst hc.2 c r t hc.1 hp⟩

/-- A command on its own fails only by a fault. -/
theorem gathers_rpush (id : String) (line : LogLine) :
    Gathers i allowed (jobCall (.rpush id line)) (fun r _ => NoFault allowed → r = .ok ()) s := by
  refine gathers_request trivial fun s1 _ _ c r t hc hp hok => ?_
  obtain rfl := hok _ c s1 hc
  cases hp
  rfl

theorem gathers_save (j : Job) (was : Option State) :
    Gathers i allowed (jobCall (.save j was)) (fun r _ => NoFault allowed → r = .ok ()) s := by
  refine gathers_request trivial fun s1 _ _ c r t hc hp hok => ?_
  obtain rfl := hok _ c s1 hc
  cases hp
  rfl

theorem gathers_call {a : JobCall} (ha : a.Lists) :
    Gathers i allowed (jobCall a) (fun _ _ => True) s :=
  gathers_request ha fun _ _ _ _ _ _ _ _ => trivial

/-- A result that is a version of `j`, and there without a fault. -/
def Version (allowed : JobCall → JobChoice → JobsState → Prop) (j : Job) (r : Except String Job) :
    Prop :=
  (∀ j', r = .ok j' → j'.id = j.id ∧ j'.action = j.action) ∧ (NoFault allowed → ∃ j', r = .ok j')

theorem gathers_withLogs (id : String) (j : Job) :
    Gathers i allowed (withLogs id j) (fun r _ => Version allowed j r) s := by
  have hlrange : Gathers i allowed (jobCall (.lrange id))
      (fun r _ => NoFault allowed → ∃ logs, r = .ok logs) s := by
    refine gathers_request trivial fun s1 _ _ c r t hc hp hok => ?_
    obtain rfl := hok _ c s1 hc
    cases hp
    exact ⟨_, rfl⟩
  refine .bind hlrange fun r t _ ht => ?_
  cases r with
  | error e => exact .pure ⟨nofun, fun hok => by obtain ⟨logs, hlogs⟩ := ht hok; cases hlogs⟩
  | ok logs =>
    refine .pure ⟨fun j' hj' => ?_, fun _ => ⟨_, rfl⟩⟩
    cases hj'
    exact ⟨rfl, rfl⟩

theorem gathers_failArchived (id lastErr : String) (j : Job) :
    Gathers i allowed (failArchived id j lastErr) (fun r _ => Version allowed j r) s := by
  have hlog : Gathers i allowed (appendLog j.id ("Failed: " ++ lastErr))
      (fun r _ => NoFault allowed → r = .ok ()) s :=
    .bind (gathers_call trivial) fun _ _ _ _ => gathers_rpush _ _
  refine .bind hlog fun r t _ ht => ?_
  cases r with
  | error e => exact .pure ⟨nofun, fun hok => by cases ht hok⟩
  | ok _ =>
    refine .bind (gathers_call trivial) fun now u _ _ => ?_
    refine .bind (gathers_save _ _) fun r v _ hv => ?_
    cases r with
    | error e => exact .pure ⟨nofun, fun hok => by cases hv hok⟩
    | ok _ => exact gathers_withLogs id _

/-- A job is there if its record is, and it is public if it was ever stored as public. -/
theorem gathers_getJob (id : String) :
    Gathers i allowed (getJob id) (fun r _ =>
      (∀ j, r = .ok j → j.id = id ∧ (s.Public id → j.isPrivate = false)) ∧
      (NoFault allowed → s.records id ≠ none → ∃ j, r = .ok j)) s := by
  have hget : Gathers i allowed (jobCall (.get id)) (fun r _ =>
      (∀ j, r = .ok j → j.id = id ∧ (s.Public id → j.isPrivate = false)) ∧
      (NoFault allowed → s.records id ≠ none → ∃ j, r = .ok j)) s := by
    refine gathers_request trivial fun s1 hst hs1 c r t hc hp => ⟨fun j hj => ?_, fun hok hid => ?_⟩
    · obtain ⟨rfl, hfound⟩ := JobsState.get_cases hp
      obtain ⟨hid, hmem⟩ := hs1.inv.stored id j (hfound j hj)
      refine ⟨hid, fun hpublic => ?_⟩
      obtain ⟨j', hj', hid', hpublic'⟩ := hpublic.mono hst
      rw [Job.isPrivate, hs1.inv.actions j hmem j' hj' (hid.trans hid'.symm)]
      exact hpublic'
    · obtain rfl := hok _ c s1 hc
      obtain ⟨j, hj⟩ := Option.ne_none_iff_exists'.mp (hst.records id hid)
      rw [JobsState.perform, hj] at hp
      cases hp
      exact ⟨j, rfl⟩
  refine .bind hget fun r t _ ht => ?_
  cases r with
  | error e =>
    refine .pure ⟨by simp, fun hok hid => ?_⟩
    obtain ⟨j, hj⟩ := ht.2 hok hid
    cases hj
  | ok stored =>
    obtain ⟨hid, hpublic⟩ := ht.1 stored rfl
    have hversion : ∀ {p : Service (Except String Job)} {u},
        Gathers i allowed p (fun r _ => Version allowed stored r) u →
        Gathers i allowed p (fun r _ =>
          (∀ j, r = .ok j → j.id = id ∧ (s.Public id → j.isPrivate = false)) ∧
          (NoFault allowed → s.records id ≠ none → ∃ j, r = .ok j)) u := fun hp =>
      hp.mono fun r _ _ hr => ⟨fun j hj => by
        obtain ⟨h1, h2⟩ := hr.1 j hj
        refine ⟨h1.trans hid, fun hpub => ?_⟩
        rw [Job.isPrivate, h2]
        exact hpublic hpub, fun hok _ => hr.2 hok⟩
    show Gathers i allowed (if stored.state.terminal = true then _ else _) _ _
    split
    · exact hversion (gathers_withLogs _ _)
    · refine .bind (gathers_call trivial) fun r u _ _ => ?_
      cases r with
      | error e => exact hversion (gathers_withLogs _ _)
      | ok info =>
        show Gathers i allowed (if info.state = .archived then _ else _) _ _
        split
        · exact hversion (gathers_failArchived _ _ _)
        · exact hversion (gathers_withLogs _ _)

/-! ### The jobs of the index -/

/-- The fetched jobs are public and are found under their ids. -/
structure Fetched.Honest (f : Fetched) : Prop where
  jobs : ∀ id job, f.jobs.lookup id = some job → job.id = id ∧ job.isPrivate = false
  ids : ∀ id ∈ f.ids, (f.jobs.lookup id).isSome = true

theorem Fetched.Honest.add {f : Fetched} {id : String} {job : Job} (h : f.Honest)
    (hid : job.id = id) (hpublic : job.isPrivate = false) : (f.add id job).Honest := by
  constructor
  · intro id' job' hlookup
    rw [Fetched.add, List.lookup_cons] at hlookup
    split at hlookup
    · rename_i hsame
      cases hlookup
      exact ⟨hid.trans (beq_iff_eq.mp hsame).symm, hpublic⟩
    · exact h.jobs id' job' hlookup
  · intro id' hid'
    rw [Fetched.add, List.lookup_cons]
    split
    · rfl
    · rename_i hne
      rcases List.mem_append.mp hid' with hid' | hid'
      · exact h.ids id' hid'
      · rw [List.mem_singleton.mp hid', beq_self_eq_true] at hne
        cases hne

theorem gathers_fetchBatch {batch : List String} {fetched : Fetched} (h : fetched.Honest)
    (hpublic : ∀ id ∈ batch, s.Public id) (hthere : ∀ id ∈ batch, s.records id ≠ none)
    (hlength : fetched.ids.length + batch.length ≤ 200) :
    Gathers i allowed (fetchBatch batch fetched) (fun r _ =>
      (∀ f, r = .ok f → f.Honest ∧ f.ids = fetched.ids ++ batch) ∧
      (NoFault allowed → ∃ f, r = .ok f)) s := by
  induction batch generalizing s fetched with
  | nil =>
    refine .pure ⟨fun f hf => ?_, fun _ => ⟨fetched, rfl⟩⟩
    cases hf
    exact ⟨h, (List.append_nil _).symm⟩
  | cons id batch ih =>
    refine .bind (gathers_getJob id) fun r t hst ht => ?_
    cases r with
    | error e =>
      refine .pure ⟨by simp, fun hok => ?_⟩
      obtain ⟨j, hj⟩ := ht.2 hok (hthere id List.mem_cons_self)
      cases hj
    | ok job =>
      obtain ⟨hid, hpub⟩ := ht.1 job rfl
      have hpub := hpub (hpublic id List.mem_cons_self)
      have hadd := h.add hid hpub
      have hids : (fetched.add id job).ids = fetched.ids ++ [id] := rfl
      show Gathers i allowed (if job.isPrivate = true then _ else _) _ _
      rw [if_neg (by simp [hpub])]
      show Gathers i allowed (if (fetched.add id job).ids.length = 200 then _ else _) _ _
      rw [List.length_cons] at hlength
      split
      · rename_i hfull
        rw [hids, List.length_append, List.length_singleton] at hfull
        obtain rfl : batch = [] := List.eq_nil_of_length_eq_zero (by omega)
        refine .pure ⟨fun f hf => ?_, fun _ => ⟨_, rfl⟩⟩
        cases hf
        exact ⟨hadd, hids⟩
      · have hrest := ih (s := t) hadd
          (fun id' hmem => (hpublic id' (List.mem_cons_of_mem id hmem)).mono hst)
          (fun id' hmem => hst.records id' (hthere id' (List.mem_cons_of_mem id hmem)))
          (by rw [hids, List.length_append, List.length_singleton]; omega)
        refine hrest.mono fun r u _ hu => ⟨fun f hf => ?_, hu.2⟩
        obtain ⟨h1, h2⟩ := hu.1 f hf
        exact ⟨h1, by rw [h2, hids, List.append_assoc, List.singleton_append]⟩

/-- The jobs of the index are public, so the first batch fills the list or ends the index. -/
theorem gathers_fetchIndex (rounds : Nat) :
    Gathers i allowed (fetchIndex rounds 0 {}) (fun r _ =>
      (∀ f, r = .ok f → f.Honest ∧ f.ids.Nodup) ∧ (NoFault allowed → ∃ f, r = .ok f)) s := by
  cases rounds with
  | zero =>
    intro _ s1 _ c r t _ hp
    cases c <;> cases hp
  | succ rounds =>
    have hrange : Gathers i allowed (jobCall (.zrevrange 0 199)) (fun r t =>
        (∀ batch, r = .ok batch → batch.Nodup ∧ batch.length ≤ 200 ∧
          (∀ id ∈ batch, t.Public id) ∧ ∀ id ∈ batch, t.records id ≠ none) ∧
        (NoFault allowed → ∃ batch, r = .ok batch)) s := by
      refine gathers_request trivial fun s1 _ hs1 c r t hc hp => ⟨?_, fun hok => ?_⟩
      · rintro batch rfl
        obtain ⟨rfl, hr | ⟨e, hr⟩⟩ := JobChoice.query_cases hp
        · cases hr
          have hsub : (zslice 0 199 (t.index.map (·.2)).reverse).Sublist
              (t.index.map (·.2)).reverse :=
            (List.take_sublist _ _).trans (List.drop_sublist _ _)
          have hmem : ∀ id ∈ zslice 0 199 (t.index.map (·.2)).reverse, ∃ e ∈ t.index, e.2 = id := by
            intro id hid
            simpa using hsub.subset hid
          refine ⟨hsub.nodup ((List.reverse_perm _).nodup_iff.mpr hs1.inv.distinct), ?_, fun id hid => ?_,
            fun id hid => ?_⟩
          · rw [zslice, List.length_take]
            simp only [List.length_drop, List.length_reverse, List.length_map]
            omega
          · obtain ⟨e, he, rfl⟩ := hmem id hid
            exact hs1.inv.indexed e he
          · obtain ⟨e, he, rfl⟩ := hmem id hid
            exact hs1.intact.indexed e he
        · cases hr
      · obtain rfl := hok _ c s1 hc
        cases hp
        exact ⟨_, rfl⟩
    have hempty : Fetched.Honest {} := by
      constructor <;> simp
    show Gathers i allowed (if (200 : Nat) ≤ 0 then _ else _) _ _
    rw [if_neg (by omega)]
    refine .bind hrange fun r t _ ht => ?_
    cases r with
    | error e =>
      refine .pure ⟨by simp, fun hok => ?_⟩
      obtain ⟨batch, hbatch⟩ := ht.2 hok
      cases hbatch
    | ok batch =>
      obtain ⟨hnodup, hlength, hpublic, hthere⟩ := ht.1 batch rfl
      refine .bind (gathers_fetchBatch (s := t) hempty hpublic hthere (by simpa using hlength))
        fun r u _ hu => ?_
      cases r with
      | error e =>
        refine .pure ⟨by simp, fun hok => ?_⟩
        obtain ⟨f, hf⟩ := hu.2 hok
        cases hf
      | ok fetched =>
        obtain ⟨hhonest, hids⟩ := hu.1 fetched rfl
        have hids : fetched.ids = batch := hids
        have hdone : Gathers i allowed (pure (.ok fetched)) (fun (r : Except String Fetched) _ =>
            (∀ f, r = .ok f → f.Honest ∧ f.ids.Nodup) ∧ (NoFault allowed → ∃ f, r = .ok f)) u := by
          refine .pure ⟨fun f hf => ?_, fun _ => ⟨_, rfl⟩⟩
          cases hf
          exact ⟨hhonest, hids ▸ hnodup⟩
        show Gathers i allowed (if batch.length < 200 then _ else _) _ _
        split
        · exact hdone
        · cases rounds with
          | zero =>
            intro _ s1 _ c r t _ hp
            cases c <;> cases hp
          | succ rounds =>
            show Gathers i allowed (if 200 ≤ fetched.ids.length then _ else _) _ _
            rw [if_pos (by rw [hids]; omega)]
            exact hdone

/-! ### The records of the listed jobs -/

theorem gathers_fetchRest {fetched : Fetched} (h : fetched.Honest) (ids : List String)
    (list : List Job) :
    Gathers i allowed (fetchRest fetched ids list) (fun r _ =>
      (∀ l, r = .ok l → ∃ l', l = list ++ l' ∧ (l'.map (·.id)).Sublist ids ∧
        ∀ id ∈ ids, s.Public id → id ∈ l'.map (·.id)) ∧
      (NoFault allowed → (∀ id ∈ ids, (fetched.jobs.lookup id).isSome = true ∨
        s.records id ≠ none) → ∃ l, r = .ok l)) s := by
  induction ids generalizing s list with
  | nil =>
    refine .pure ⟨fun l hl => ?_, fun _ _ => ⟨list, rfl⟩⟩
    cases hl
    exact ⟨[], (List.append_nil _).symm, List.Sublist.refl _, nofun⟩
  | cons id ids ih =>
    unfold fetchRest
    -- A job of the list, with its id, and the rest of the list.
    have hnext : ∀ {job : Job} {u : JobsState}, job.id = id → RecordsStay s u →
        Gathers i allowed (fetchRest fetched ids (list ++ [{ job with logs := [] }])) (fun r _ =>
          (∀ l, r = .ok l → ∃ l', l = list ++ l' ∧ (l'.map (·.id)).Sublist (id :: ids) ∧
            ∀ id' ∈ id :: ids, s.Public id' → id' ∈ l'.map (·.id)) ∧
          (NoFault allowed → (∀ id' ∈ id :: ids, (fetched.jobs.lookup id').isSome = true ∨
            s.records id' ≠ none) → ∃ l, r = .ok l)) u := by
      intro job u hid hsu
      refine (ih (s := u) _).mono fun r v _ hv => ⟨fun l hl => ?_, fun hok hthere => ?_⟩
      · obtain ⟨l', rfl, hsub, hall⟩ := hv.1 l hl
        refine ⟨{ job with logs := [] } :: l', by simp, ?_, fun id' hmem hpublic => ?_⟩
        · rw [List.map_cons]
          exact hid ▸ hsub.cons_cons _
        · obtain rfl | hmem := List.mem_cons.mp hmem
          · exact List.mem_cons.mpr (.inl hid.symm)
          · exact List.mem_cons_of_mem _ (hall id' hmem (hpublic.mono hsu))
      · exact hv.2 hok fun id' hmem => (hthere id' (List.mem_cons_of_mem id hmem)).imp_right
          (hsu.records id')
    split
    · rename_i job hjob
      exact hnext (h.jobs id job hjob).1 (.refl s)
    · rename_i hnone
      refine .bind (gathers_getJob id) fun r t hst ht => ?_
      cases r with
      | error e =>
        refine .pure ⟨nofun, fun hok hthere => ?_⟩
        rcases hthere id List.mem_cons_self with hfound | hrecord
        · rw [hnone] at hfound
          cases hfound
        · obtain ⟨j, hj⟩ := ht.2 hok hrecord
          cases hj
      | ok job =>
        obtain ⟨hid, hpublic⟩ := ht.1 job rfl
        show Gathers i allowed (if job.isPrivate = true then _ else _) _ _
        split
        · rename_i hprivate
          refine (ih (s := t) list).mono fun r v _ hv => ⟨fun l hl => ?_, fun hok hthere => ?_⟩
          · obtain ⟨l', rfl, hsub, hall⟩ := hv.1 l hl
            refine ⟨l', rfl, hsub.cons _, fun id' hmem hpub => ?_⟩
            obtain rfl | hmem := List.mem_cons.mp hmem
            · rw [hpublic hpub] at hprivate
              cases hprivate
            · exact hall id' hmem (hpub.mono hst)
          · exact hv.2 hok fun id' hmem => (hthere id' (List.mem_cons_of_mem id hmem)).imp_right
              (hst.records id')
        · exact hnext hid hst

/-! ### The pages of the tasks -/

/-- The ids with those of a page that are not among them. -/
def withTasks (ids : List String) (tasks : List TaskInfo) : List String :=
  tasks.foldl (fun ids task => if task.id ∈ ids then ids else ids ++ [task.id]) ids

theorem withTasks_spec (ids : List String) (tasks : List TaskInfo) :
    (ids.Nodup → (withTasks ids tasks).Nodup) ∧
      ∀ id, id ∈ withTasks ids tasks ↔ id ∈ ids ∨ ∃ task ∈ tasks, task.id = id := by
  induction tasks generalizing ids with
  | nil => simp [withTasks]
  | cons task tasks ih =>
    rw [withTasks, List.foldl_cons]
    split
    · rename_i hmem
      obtain ⟨hnodup, hspec⟩ := ih ids
      refine ⟨hnodup, fun id => (hspec id).trans ?_⟩
      constructor
      · rintro (h | ⟨task', h, rfl⟩)
        · exact .inl h
        · exact .inr ⟨task', List.mem_cons_of_mem task h, rfl⟩
      · rintro (h | ⟨task', h, rfl⟩)
        · exact .inl h
        · obtain rfl | h := List.mem_cons.mp h
          · exact .inl hmem
          · exact .inr ⟨task', h, rfl⟩
    · rename_i hnew
      obtain ⟨hnodup, hspec⟩ := ih (ids ++ [task.id])
      refine ⟨fun h => hnodup ?_, fun id => (hspec id).trans ?_⟩
      · rw [List.nodup_append]
        refine ⟨h, by simp, fun id hid id' hid' hsame => ?_⟩
        exact hnew (List.mem_singleton.mp hid' ▸ hsame ▸ hid)
      · constructor
        · rintro (h | ⟨task', h, rfl⟩)
          · rcases List.mem_append.mp h with h | h
            · exact .inl h
            · exact .inr ⟨task, List.mem_cons_self, (List.mem_singleton.mp h).symm⟩
          · exact .inr ⟨task', List.mem_cons_of_mem task h, rfl⟩
        · rintro (h | ⟨task', h, rfl⟩)
          · exact .inl (List.mem_append_left _ h)
          · obtain rfl | h := List.mem_cons.mp h
            · exact .inl (List.mem_append_right _ (List.mem_singleton_self _))
            · exact .inr ⟨task', h, rfl⟩

/-- No record goes, and tasks only come. -/
structure ListsGrow (s t : JobsState) : Prop where
  stay : RecordsStay s t
  grow : TasksGrow s t

abbrev growKeeping (i : Nat) (allowed : JobCall → JobChoice → JobsState → Prop) :
    Keeping (jobsSystem.during i allowed Sound ListsGrow) where
  Inv _ := True
  le := ListsGrow
  refl s := ⟨.refl s, .refl s⟩
  trans s t u h h' := ⟨.trans s t u h.stay h'.stay, h.grow.trans h'.grow⟩
  rely _ _ _ h := ⟨trivial, h⟩

/-- The ids that pages add to `ids`: each has a record, and the tasks from the page on are there. -/
structure Paged (s t : JobsState) (state : TaskState) (page : Nat) (ids ids' : List String) :
    Prop where
  nodup : ids.Nodup → ids'.Nodup
  sub : ids ⊆ ids'
  listed : ∀ info ∈ (s.listed state).drop (100 * (page - 1)), info.id ∈ ids'
  records : ∀ id ∈ ids', id ∈ ids ∨ t.records id ≠ none

theorem listed_nil (hs : s.Queued) (hqueue : s.queue = false) (state : TaskState) :
    s.listed state = [] := by
  rw [List.eq_nil_iff_forall_not_mem]
  intro info hinfo
  obtain ⟨-, -, task, htask, -⟩ := mem_listed.mp hinfo
  have := (hs info.id (by rw [htask]; nofun)).2
  rw [hqueue] at this
  cases this

/-- What a call that lists tasks answers. -/
theorem listTasks_cases {state : TaskState} {page : Nat} {c : JobChoice}
    {r : Except TaskError (List TaskInfo)}
    (h : JobsState.perform i (.listTasks state page) c s = some (r, t)) :
    t = s ∧ ((∃ e, r = .error (.other e) ∧ c ≠ .ok) ∨ r = s.tasksOf state page) := by
  cases c with
  | ok =>
    cases h
    exact ⟨rfl, .inr rfl⟩
  | fail e =>
    cases h
    exact ⟨rfl, .inl ⟨e, rfl, nofun⟩⟩
  | lost e => cases h
  | fresh id => cases h
  | outcome result actionErr => cases h

/-- A page that has been read adds tasks that have their records. -/
theorem paged_read {s1 : JobsState} {state : TaskState} (hs1 : Sound s1)
    (hstate : state ≠ .archived) (page : Nat) (ids : List String) (id : String)
    (hid : id ∈ withTasks ids (((s1.listed state).drop (100 * (page - 1))).take 100)) :
    id ∈ ids ∨ s1.records id ≠ none := by
  rcases ((withTasks_spec ids _).2 id).mp hid with hid | ⟨info, hinfo, rfl⟩
  · exact .inl hid
  · have hlisted := List.mem_of_mem_drop (List.mem_of_mem_take hinfo)
    obtain ⟨-, hinfo, task, htask, hsame, -⟩ := mem_listed.mp hlisted
    exact .inr (hs1.intact.queued info.id task htask (by rw [hsame, hinfo]; exact hstate))

/-- `includePages` once it has the answer for a page. -/
def morePages (state : TaskState) (rounds page : Nat) (ids : List String) :
    Except TaskError (List TaskInfo) → Service (Except String (List String))
  | .error .queueNotFound => return .ok ids
  | .error .taskNotFound => return .error "asynq: task not found"
  | .error (.other e) => return .error e
  | .ok tasks =>
    if tasks.length < 100 then return .ok (withTasks ids tasks)
    else includePages state rounds (page + 1) (withTasks ids tasks)

theorem includePages_succ (state : TaskState) (rounds page : Nat) (ids : List String) :
    includePages state (rounds + 1) page ids =
      jobCall (.listTasks state page) >>= morePages state rounds page ids := by
  rw [includePages]
  congr 1
  funext r
  cases r with
  | error e => cases e <;> rfl
  | ok tasks => rfl

/-- The answer for a page: a fault, or what asynq tells of the state. -/
def Answers (allowed : JobCall → JobChoice → JobsState → Prop) (state : TaskState) (page : Nat)
    (r : Except TaskError (List TaskInfo)) (t : JobsState) : Prop :=
  (∃ e, r = .error (.other e) ∧ ¬NoFault allowed) ∨ r = t.tasksOf state page

/-- The ids that come of pages, which are there without a fault. -/
def Pages (allowed : JobCall → JobChoice → JobsState → Prop) (s : JobsState) (state : TaskState)
    (page : Nat) (ids : List String) (r : Except String (List String)) (t : JobsState) : Prop :=
  (∀ ids', r = .ok ids' → Paged s t state page ids ids') ∧ (NoFault allowed → ∃ ids', r = .ok ids')

theorem grows_morePages {s1 : JobsState} {state : TaskState} (hs1 : Sound s1)
    (hstate : state ≠ .archived) {rounds page : Nat} (hpage : 1 ≤ page) (ids : List String)
    {r : Except TaskError (List TaskInfo)} (hr : Answers allowed state page r s1)
    (hrest : ∀ ids, (growKeeping i allowed).Keeps (includePages state rounds (page + 1) ids)
      (Pages allowed s1 state (page + 1) ids) s1) :
    (growKeeping i allowed).Keeps (morePages state rounds page ids r)
      (Pages allowed s1 state page ids) s1 := by
  obtain ⟨e, rfl, hfault⟩ | rfl := hr
  · exact .pure ⟨nofun, fun hok => absurd hok hfault⟩
  · by_cases hqueue : s1.queue = false
    · have hanswer : s1.tasksOf state page = .error .queueNotFound := by
        simp [JobsState.tasksOf, hqueue]
      rw [hanswer]
      refine .pure ⟨fun ids' h => ?_, fun _ => ⟨ids, rfl⟩⟩
      cases h
      refine ⟨id, fun _ h => h, fun info hinfo => ?_, fun _ h => .inl h⟩
      rw [listed_nil hs1.inv.queued hqueue] at hinfo
      simp at hinfo
    · have hanswer : s1.tasksOf state page =
          .ok (((s1.listed state).drop (100 * (page - 1))).take 100) := by
        simp [JobsState.tasksOf, hqueue, JobsState.listed]
      rw [hanswer]
      obtain ⟨hnodup, hspec⟩ :=
        withTasks_spec ids (((s1.listed state).drop (100 * (page - 1))).take 100)
      have hread := paged_read hs1 hstate page ids
      show (growKeeping i allowed).Keeps (if _ < 100 then _ else _) _ _
      split
      · rename_i hlast
        refine .pure ⟨fun ids' h => ?_, fun _ => ⟨_, rfl⟩⟩
        cases h
        refine ⟨hnodup, fun id hid => (hspec id).mpr (.inl hid), fun info hinfo => ?_, hread⟩
        refine (hspec info.id).mpr (.inr ⟨info, ?_, rfl⟩)
        rw [List.length_take] at hlast
        rw [List.take_of_length_le (by omega)]
        exact hinfo
      · refine (hrest _).mono fun r t hst hr => ⟨fun ids' h => ?_, hr.2⟩
        have hpaged := hr.1 ids' h
        refine ⟨fun h => hpaged.nodup (hnodup h),
          fun id hid => hpaged.sub ((hspec id).mpr (.inl hid)), fun info hinfo => ?_,
          fun id hid => ?_⟩
        · rw [← List.take_append_drop 100 ((s1.listed state).drop (100 * (page - 1)))] at hinfo
          rcases List.mem_append.mp hinfo with hinfo | hinfo
          · exact hpaged.sub ((hspec info.id).mpr (.inr ⟨info, hinfo, rfl⟩))
          · refine hpaged.listed info ?_
            rw [List.drop_drop] at hinfo
            rwa [show 100 * (page + 1 - 1) = 100 * (page - 1) + 100 by omega]
        · rcases hpaged.records id hid with hmem | hrecord
          · exact (hread id hmem).imp_right (hst.stay.records id)
          · exact .inr hrecord

theorem grows_includePages {state : TaskState} (hstate : state ≠ .archived) (rounds page : Nat)
    (hpage : 1 ≤ page) (ids : List String) :
    (growKeeping i allowed).Keeps (includePages state rounds page ids)
      (Pages allowed s state page ids) s := by
  induction rounds generalizing s page ids with
  | zero =>
    intro _ s1 _ c r t _ hp
    cases c <;> cases hp
  | succ rounds ih =>
    have hlist : (growKeeping i allowed).Keeps (jobCall (.listTasks state page))
        (fun r t => Sound t ∧ Answers allowed state page r t) s := by
      refine .request fun s1 _ _ c r t hc hp => ?_
      obtain ⟨rfl, hr⟩ := listTasks_cases hp
      refine ⟨trivial, trivial, ⟨.refl t, .refl t⟩, hc.2, ?_⟩
      exact hr.imp_left fun ⟨e, he, hfault⟩ => ⟨e, he, fun hok => hfault (hok _ c t hc.1)⟩
    rw [includePages_succ]
    refine .bind hlist fun r s1 hs hr => ?_
    refine (grows_morePages hr.1 hstate hpage ids hr.2 fun ids => ih (page + 1) (by omega)
      ids).mono fun r t _ ht => ⟨fun ids' h => ?_, ht.2⟩
    have hpaged := ht.1 ids' h
    have hgrow := (hs.grow.isPrefixed hstate).drop (100 * (page - 1))
    exact ⟨hpaged.nodup, hpaged.sub, fun info hinfo => hpaged.listed info (hgrow.subset hinfo),
      hpaged.records⟩

end Calls

/-! ### The list -/

/-- A listing of tasks that is not the first. -/
def JobCall.Listing : JobCall → Prop
  | .listTasks state page => ¬(state = .active ∧ page = 1)
  | .outOfRounds => True
  | _ => False

/-- What the others may do before a call of the list: no record goes, and from the first page of
tasks to the last no task leaves the pending or the active ones. -/
structure Calm (a : JobCall) (s t : JobsState) : Prop where
  records : ∀ id, s.records id ≠ none → t.records id ≠ none
  tasks : a.Listing → TasksStay s t

theorem move_tasks {g g1 : Config JobCall JobCall.Reply JobsState Unit}
    {m : Move JobChoice JobsOp JobsEvent} (h : jobsSystem.move g m = some g1) :
    TaskStep g.shared g1.shared ∧ g.shared.saves ⊆ g1.shared.saves := by
  rcases System.move_cases h with hsame | ⟨i, a, c, r, -, hp⟩ | ⟨i, -, hdie⟩ | ⟨e, -, he⟩
  · rw [hsame]
    exact ⟨.same rfl rfl rfl, fun _ hj => hj⟩
  · exact JobsState.perform_tasks hp
  · rw [hdie]
    exact ⟨.same rfl rfl rfl, fun _ hj => hj⟩
  · have hun := JobsState.event_untouched he
    exact ⟨hun.tasks, fun _ hj => hun.saves ▸ hj⟩

theorem Calm.stay {a : JobCall} {g g1 : Config JobCall JobCall.Reply JobsState Unit}
    {m : Move JobChoice JobsOp JobsEvent} (h : Calm a g.shared g1.shared)
    (hm : jobsSystem.move g m = some g1) : RecordsStay g.shared g1.shared :=
  ⟨h.records, (move_tasks hm).2⟩

theorem Calm.grow {a : JobCall} {g g1 : Config JobCall JobCall.Reply JobsState Unit}
    {m : Move JobChoice JobsOp JobsEvent} (h : Calm a g.shared g1.shared) (ha : a.Listing)
    (hm : jobsSystem.move g m = some g1) : ListsGrow g.shared g1.shared :=
  ⟨h.stay hm, (move_tasks hm).1.grow (h.tasks ha)⟩

theorem sound_of_reach {g : Config JobCall JobCall.Reply JobsState Unit}
    (hg : jobsSystem.Reach (fun _ _ _ _ => True) {} g) (h : Intact g.shared) : Sound g.shared :=
  ⟨(slotOutline False).invariant (hg.mono jobsSystem fun _ _ _ _ _ => False.elim), h⟩

theorem listing_includePages (state : TaskState) (rounds page : Nat) (ids : List String)
    (h : ¬(state = .active ∧ page = 1)) (hpage : 1 ≤ page) :
    (includePages state rounds page ids).Calls JobCall.Listing := by
  induction rounds generalizing page ids with
  | zero => exact ⟨trivial, nofun⟩
  | succ rounds ih =>
    rw [includePages_succ]
    refine .bind (.request h) fun r => ?_
    cases r with
    | error e =>
      cases e with
      | taskNotFound => exact .pure _
      | queueNotFound => exact .pure _
      | other text => exact .pure _
    | ok tasks =>
      show Prog.Calls JobCall.Listing (if _ < 100 then _ else _)
      split
      · exact .pure _
      · exact ih (page + 1) _ (by omega) (by omega)

theorem Listed.mem {s : JobsState} {id : String} (hs : Sound s) (h : Listed id s) :
    s.Public id ∧ ∃ info, info.id = id ∧ (info ∈ s.listed .active ∨ info ∈ s.listed .pending) := by
  obtain ⟨⟨j, hj, hpublic⟩, info, hinfo, hlive⟩ := h
  obtain ⟨hid, hmem⟩ := hs.inv.stored id j hj
  refine ⟨⟨j, hmem, hid, hpublic⟩, info, ?_⟩
  unfold JobsState.info at hinfo
  split at hinfo
  · cases hinfo
  · split at hinfo
    · cases hinfo
    · rename_i task htask
      cases hinfo
      have hqueued := (hs.inv.queued id (by rw [htask]; nofun)).1
      refine ⟨rfl, ?_⟩
      cases hstate : task.state with
      | active => exact .inl (mem_listed.mpr ⟨hqueued, rfl, task, htask, hstate, rfl⟩)
      | pending => exact .inr (mem_listed.mpr ⟨hqueued, rfl, task, htask, hstate, rfl⟩)
      | archived => exact absurd hstate hlive

section Runs

variable {i : Nat} {allowed : JobCall → JobChoice → JobsState → Prop} {β : Type}
  {k : β → Service Unit} {x : β} {ss : List JobsState}
  {g g' : Config JobCall JobCall.Reply JobsState Unit}

/-- A part of the list that gathers, among the others. -/
theorem Gathers.returns {p : Service β} {Q : β → JobsState → Prop}
    (h : jobsSystem.Completes i k allowed Calm p g ss x g')
    (hg : jobsSystem.Reach (fun _ _ _ _ => True) {} g) (hintact : ∀ s ∈ ss, Intact s)
    (hp : Gathers i allowed p Q g.shared) : Q x g'.shared := by
  have hend := h.returns (P := Sound) hg (Prog.Calls.any p)
    (fun g1 hg1 hmem => sound_of_reach hg1 (hintact _ hmem)) .refl .trans
    (fun a g1 m g2 _ _ _ _ hm hcalm => hcalm.stay hm) (hp trivial)
  exact hend.2.2

/-- A part of the list that pages, among the others. -/
theorem returns_pages {p : Service β} {Q : β → JobsState → Prop}
    (h : jobsSystem.Completes i k allowed Calm p g ss x g')
    (hg : jobsSystem.Reach (fun _ _ _ _ => True) {} g) (hintact : ∀ s ∈ ss, Intact s)
    (hcalls : p.Calls JobCall.Listing) (hp : (growKeeping i allowed).Keeps p Q g.shared) :
    ListsGrow g.shared g'.shared ∧ Q x g'.shared := by
  have hend := h.returns (P := Sound) hg hcalls
    (fun g1 hg1 hmem => sound_of_reach hg1 (hintact _ hmem)) (growKeeping i allowed).refl
    (growKeeping i allowed).trans (fun a g1 m g2 ha _ _ _ hm hcalm => hcalm.grow ha hm)
    (hp trivial)
  exact hend.2

end Runs

section Runs

variable {i : Nat} {allowed : JobCall → JobChoice → JobsState → Prop} {ss : List JobsState}
  {g g' : Config JobCall JobCall.Reply JobsState Unit}

/-- `includeActive` among the others: the ids are distinct and have their records, and those of the
tasks that are listed all along are there. -/
theorem includeActive_returns {rounds : Nat} {ids : List String} {r : Except String (List String)}
    {k : Except String (List String) → Service Unit}
    (h : jobsSystem.Completes i k allowed Calm (includeActive rounds ids) g ss r g')
    (hg : jobsSystem.Reach (fun _ _ _ _ => True) {} g) (hintact : ∀ s ∈ ss, Intact s) :
    (NoFault allowed → ∃ ids', r = .ok ids') ∧ ∀ ids', r = .ok ids' →
      (ids.Nodup → ids'.Nodup) ∧ (∀ id ∈ ids', id ∈ ids ∨ g'.shared.records id ≠ none) ∧
      ∀ id, (∀ s ∈ ss, Listed id s) → id ∈ ids' := by
  have hsound : ∀ {g1}, jobsSystem.Reach (fun _ _ _ _ => True) {} g1 → g1.shared ∈ ss →
      Sound g1.shared := fun hg1 hmem => sound_of_reach hg1 (hintact _ hmem)
  obtain ⟨r1, g2, ss1, ss2, hactive, hpending, hss1, hss2⟩ := h.bind
  cases rounds with
  | zero =>
    have hstuck : Gathers i allowed (includePages .active 0 1 ids) (fun _ _ => False) g.shared := by
      intro _ s1 _ c r t _ hp
      cases c <;> cases hp
    exact (Gathers.returns hactive hg (fun s hs => hintact s (hss1 hs)) hstuck).elim
  | succ rounds =>
    -- The first page of the active tasks is read at `g1`, the pending ones from `g2` on.
    rw [includePages_succ] at hactive
    obtain ⟨answer, g1, ss3, ss4, hfirst, hmore, hss3, hss4⟩ := hactive.bind
    have hg1 := hfirst.reach hg
    have hg2 := hmore.reach hg1
    have hmem1 := hss1 (hss4 hmore.start.2)
    have hmem2 := hss2 hpending.start.2
    have hs1 := hsound hg1 hmem1
    have hs2 := hsound hg2 hmem2
    have hanswer : Answers allowed .active 1 answer g1.shared := by
      refine Gathers.returns hfirst hg (fun s hs => hintact s (hss1 (hss3 hs))) ?_
      refine gathers_request trivial fun s1 _ _ c r t hc hp => ?_
      obtain ⟨rfl, hr⟩ := listTasks_cases hp
      exact hr.imp_left fun ⟨e, he, hfault⟩ => ⟨e, he, fun hok => hfault (hok _ c t hc)⟩
    have hrest := fun ids =>
      listing_includePages .active rounds 2 ids (by simp) (by omega)
    have hcalls : (morePages .active rounds 1 ids answer).Calls JobCall.Listing := by
      cases answer with
      | error e => cases e <;> exact trivial
      | ok tasks =>
        show Prog.Calls JobCall.Listing (if _ < 100 then _ else _)
        split
        · exact .pure _
        · exact hrest _
    obtain ⟨hgrow, hpages1⟩ := returns_pages hmore hg1
      (fun s hs => hintact s (hss1 (hss4 hs))) hcalls (grows_morePages hs1 (by simp) (by omega) ids
        hanswer fun ids => grows_includePages (by simp) rounds 2 (by omega) ids)
    cases r1 with
    | error e =>
      cases hpending
      refine ⟨fun hok => ?_, nofun⟩
      obtain ⟨ids', h'⟩ := hpages1.2 hok
      cases h'
    | ok ids1 =>
      obtain ⟨hgrow2, hpages2⟩ := returns_pages hpending hg2 (fun s hs => hintact s (hss2 hs))
        (listing_includePages .pending (rounds + 1) 1 ids1 (by simp) (by omega))
        (grows_includePages (by simp) (rounds + 1) 1 (by omega) ids1)
      refine ⟨hpages2.2, fun ids' h' => ?_⟩
      have hpaged1 := hpages1.1 ids1 rfl
      have hpaged2 := hpages2.1 ids' h'
      refine ⟨fun hnodup => hpaged2.nodup (hpaged1.nodup hnodup), fun id hid => ?_,
        fun id hid => ?_⟩
      · rcases hpaged2.records id hid with hmem | hrecord
        · exact (hpaged1.records id hmem).imp_right (hgrow2.stay.records id)
        · exact .inr hrecord
      · obtain ⟨-, info, rfl, hlive⟩ := Listed.mem hs2 (hid _ hmem2)
        rcases hlive with hlive | hlive
        · rw [hgrow.grow.active] at hlive
          exact hpaged2.sub (hpaged1.listed info (by simpa using hlive))
        · exact hpaged2.listed info (by simpa using hlive)

/-- While no record goes that is listed, and no task leaves its list between the first page and the
last, the list has no job twice, has every public job that is in a queue all along, and fails only
by a fault. -/
theorem publicList_complete {rounds : Nat} {r : Except String (List Job)}
    (hg : jobsSystem.Reach (fun _ _ _ _ => True) {} g)
    (hrun : jobsSystem.Completes i (fun _ => pure ()) allowed Calm (publicList rounds) g ss r g')
    (hintact : ∀ s ∈ ss, Intact s) :
    (NoFault allowed → ∃ l, r = .ok l) ∧
      ∀ l, r = .ok l → (l.map (·.id)).Nodup ∧
        ∀ id, (∀ s ∈ ss, Listed id s) → id ∈ l.map (·.id) := by
  obtain ⟨fetched, g1, ss1, ss2, hfetch, hrun, hss1, hss2⟩ := hrun.bind
  have hg1 := hfetch.reach hg
  have hindex := Gathers.returns hfetch hg (fun s hs => hintact s (hss1 hs))
    (gathers_fetchIndex rounds)
  cases fetched with
  | error e =>
    cases hrun
    refine ⟨fun hok => ?_, nofun⟩
    obtain ⟨f, hf⟩ := hindex.2 hok
    cases hf
  | ok fetched =>
    obtain ⟨hhonest, hnodup⟩ := hindex.1 fetched rfl
    obtain ⟨ids, g2, ss3, ss4, hactive, hrun, hss3, hss4⟩ := hrun.bind
    have hg2 := hactive.reach hg1
    have htasks := includeActive_returns hactive hg1 fun s hs => hintact s (hss2 (hss3 hs))
    cases ids with
    | error e =>
      cases hrun
      refine ⟨fun hok => ?_, nofun⟩
      obtain ⟨f, hf⟩ := htasks.1 hok
      cases hf
    | ok ids =>
      obtain ⟨hids, hrecords, hall⟩ := htasks.2 ids rfl
      have hrest := Gathers.returns hrun hg2 (fun s hs => hintact s (hss2 (hss4 hs)))
        (gathers_fetchRest hhonest ids [])
      refine ⟨fun hok => hrest.2 hok fun id hid => ?_, fun l hl => ?_⟩
      · exact (hrecords id hid).imp_left (hhonest.ids id)
      · obtain ⟨l', rfl, hsub, hpublic⟩ := hrest.1 l hl
        refine ⟨hsub.nodup (hids hnodup), fun id hid => ?_⟩
        have hstart := hss2 (hss4 hrun.start.2)
        refine hpublic id (hall id fun s hs => hid s (hss2 (hss3 hs))) ?_
        exact (Listed.mem (sound_of_reach hg2 (hintact _ hstart)) (hid _ hstart)).1

end Runs

section OneJob

/-- Process 0 submits job a. -/
def submittingAction (action : String) : List (Move JobChoice JobsOp JobsEvent) :=
  [.begin 0 (.submit { action, target := "v" }), .call 0 (.fresh "a"), .call 0 .ok, .call 0 .ok,
    .call 0 .ok]

/-- A public job has been submitted, and process 1 begins to list the jobs. -/
def listingPublic : Option (Config JobCall JobCall.Reply JobsState Unit) :=
  jobsSystem.moves ⟨{}, fun _ => none⟩ (submittingAction "vm.start" ++
    [.call 0 .ok, .call 0 .ok, .begin 1 (.publicList 1)])

def waitingJob : Job where
  id := "a"
  action := "vm.start"
  label := "Start virtual machine"
  target := "v"
  state := .pending
  createdAt := 0

/-- The job waits in its queue. -/
structure Waiting (s : JobsState) : Prop where
  index : s.index = [(0, "a")]
  records : s.records = Function.update (fun _ => none) "a" (some waitingJob)
  tasks : s.tasks = Function.update (fun _ => none) "a"
    (some { payload := { id := "a", action := "vm.start", target := "v" } })

theorem Waiting.intact {s : JobsState} (h : Waiting s) : Intact s := by
  constructor
  · intro e he
    rw [h.index] at he
    obtain rfl := List.mem_singleton.mp he
    rw [h.records]
    nofun
  · intro id task htask _
    rw [h.tasks] at htask
    rw [h.records]
    by_cases hid : id = "a"
    · subst hid
      nofun
    · rw [Function.update_of_ne hid] at htask
      cases htask

theorem publicList_complete_one : ∃ g ss g', listingPublic = some g ∧
    jobsSystem.Completes 1 (fun _ => pure ()) (fun _ c _ => c = .ok) Calm (publicList 1) g ss
      (.ok [waitingJob]) g' ∧ ([waitingJob].map (·.id)).Nodup := by
  have hrun : ∃ g ss g', listingPublic = some g ∧
      jobsSystem.Completes 1 (fun _ => pure ()) (fun _ c _ => c = .ok) Calm (publicList 1) g ss
        (.ok [waitingJob]) g' ∧ ∀ s ∈ ss, Waiting s := by
    refine ⟨_, _, _, rfl, .call rfl rfl rfl (.call rfl rfl rfl (.call rfl rfl rfl
      (.others (m := .env (.tick 1)) rfl nofun rfl ⟨fun _ h => h, False.elim⟩
        (.call rfl rfl rfl (.call rfl rfl rfl (.call rfl rfl rfl (.ret rfl))))))), ?_⟩
    simp only [List.forall_mem_cons]
    exact ⟨⟨rfl, rfl, rfl⟩, ⟨rfl, rfl, rfl⟩, ⟨rfl, rfl, rfl⟩, ⟨rfl, rfl, rfl⟩, ⟨rfl, rfl, rfl⟩,
      ⟨rfl, rfl, rfl⟩, ⟨rfl, rfl, rfl⟩, ⟨rfl, rfl, rfl⟩, nofun⟩
  obtain ⟨g, ss, g', hg, hrun, hwaiting⟩ := hrun
  have hall := publicList_complete (jobsSystem.reach_moves .start hg) hrun
    fun s hs => (hwaiting s hs).intact
  exact ⟨g, ss, g', hg, hrun, (hall.2 _ rfl).1⟩

/-- A job that captures a preview has been submitted, and process 1 begins to list the jobs. -/
def listingPrivate : Option (Config JobCall JobCall.Reply JobsState Unit) :=
  jobsSystem.moves ⟨{}, fun _ => none⟩ (submittingAction "vm.screenshot" ++
    [.begin 1 (.publicList 1)])

/-- The record of the job, which waits in its queue, expires before the list comes to it. -/
theorem publicList_fails : ∃ g ss g', listingPrivate = some g ∧
    jobsSystem.Completes 1 (fun _ => pure ()) (fun _ c _ => c = .ok) (fun _ _ _ => True)
      (publicList 1) g ss (.error "redis: nil") g' :=
  ⟨_, _, _, rfl, .call rfl rfl rfl (.call rfl rfl rfl (.call rfl rfl rfl
    (.others (m := .env (.expire "a")) rfl nofun rfl trivial (.call rfl rfl rfl (.ret rfl)))))⟩

theorem publicList_not_complete :
    ¬ ∀ (rounds i : Nat) (g g' : Config JobCall JobCall.Reply JobsState Unit) (ss : List JobsState)
      (r : Except String (List Job)), jobsSystem.Reach (fun _ _ _ _ => True) {} g →
      jobsSystem.Completes i (fun _ => pure ()) (fun _ c _ => c = .ok) (fun _ _ _ => True)
        (publicList rounds) g ss r g' →
      ∃ l, r = .ok l ∧ (l.map (·.id)).Nodup ∧
        ∀ id, (∀ s ∈ ss, Listed id s) → id ∈ l.map (·.id) := by
  intro h
  obtain ⟨g, ss, g', hg, hrun⟩ := publicList_fails
  obtain ⟨l, hl, -⟩ := h 1 1 g g' ss _ (jobsSystem.reach_moves .start hg) hrun
  cases hl

end OneJob

end Maco.Jobs
