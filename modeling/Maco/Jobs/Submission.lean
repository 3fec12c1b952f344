import Maco.Jobs.Paging

/-! What a failed submission leaves behind.  A pending job is in reach where a sweep of
`reconcileOrphans` marks it failed from a minute on, or where asynq has a task for it. -/

namespace Maco.Jobs

open Concurrent

/-! ### The sweep -/

/-- The job has failed. -/
def JobsState.Failed (s : JobsState) (id : String) : Prop :=
  ∃ j, s.records id = some j ∧ j.state = .failed

/-- A sweep that nothing disturbs ends, with the job marked failed. -/
def Swept (id : String) (s : JobsState) : Prop :=
  ∃ t, reconcileOrphans.Runs (JobsState.perform 0) faultless s () t ∧ t.Failed id

/-- From a minute on a sweep marks the job failed, or asynq has a task for it. -/
def InReach (id : String) (s : JobsState) : Prop :=
  (∀ passed, minute ≤ passed → Swept id (s.later passed)) ∨ s.tasks id ≠ none

/-- Each record stands under its own id. -/
def JobsState.Own (s : JobsState) : Prop := ∀ id j, s.records id = some j → j.id = id

section Sweep

variable {id : String} {j : Job} {s t : JobsState}

theorem JobsState.saved_records (s : JobsState) (job : Job) (id : String) :
    (s.saved job).records id = if id = job.id then some job else s.records id := by
  simp [JobsState.saved, Function.update_apply]

theorem JobsState.Own.saved (hs : s.Own) (job : Job) : (s.saved job).Own := by
  intro id j hj
  rw [JobsState.saved_records] at hj
  split at hj
  · rename_i hid
    cases hj
    exact hid.symm
  · exact hs id j hj

/-- A sweep that nothing disturbs. -/
abbrev sweeping : Setting JobCall JobCall.Reply JobChoice JobsState :=
  .alone (JobsState.perform 0) faultless

/-- The job has not ended, it is a minute old, and it has no task. -/
structure Orphan (s : JobsState) (job : Job) : Prop where
  unended : job.state.terminal = false
  old : job.createdAt + minute ≤ s.clock
  taskless : s.tasks job.id = none

/-- A sweep has marked a job failed. -/
def Marked (job : Job) (s t : JobsState) : Prop :=
  ∃ failed logs, failed.id = job.id ∧ failed.state = .failed ∧
    t = JobsState.saved { s with logs } failed

theorem sweep_failOrphan {job : Job} {lastErr : String} :
    wp sweeping (failOrphan job lastErr) (fun _ t => Marked job s t) s := by
  refine wp_alone_call fun c now t hc hp => ?_
  cases hc
  cases hp
  refine wp_alone_call fun c now t hc hp => ?_
  cases hc
  cases hp
  refine wp_alone_call fun c r t hc hp => ?_
  cases hc
  cases hp
  refine wp_alone_call fun c r t hc hp => ?_
  cases hc
  cases hp
  exact ⟨{ job with state := .failed, error := _, finishedAt := _ }, _, rfl, rfl, rfl⟩

/-- A sweep marks a job failed or leaves it, and it leaves no orphan. -/
theorem sweep_reconcileJob {job : Job} :
    wp sweeping (reconcileJob job) (fun _ t => Marked job s t ∨ t = s ∧ ¬Orphan s job) s := by
  have hfail : ∀ lastErr, wp sweeping (failOrphan job lastErr)
      (fun _ t => Marked job s t ∨ t = s ∧ ¬Orphan s job) s := fun lastErr =>
    wp_mono sweep_failOrphan fun _ t ht => .inl ht
  unfold reconcileJob
  split
  · rename_i hended
    exact .inr ⟨rfl, fun ho => by rw [ho.unended] at hended; cases hended⟩
  · rw [jobCall, Prog.request_bind]
    refine wp_alone_call fun c now t hc hp => ?_
    obtain ⟨rfl, hnow⟩ : t = s ∧ now = s.clock := by
      cases hc
      cases hp
      exact ⟨rfl, rfl⟩
    split
    · rename_i hyoung
      rw [hnow] at hyoung
      exact .inr ⟨rfl, fun ho => Nat.not_le.mpr hyoung ho.old⟩
    · refine wp_alone_call fun c r u hc hp => ?_
      obtain ⟨rfl, rfl⟩ : u = t ∧ r = t.info job.id := by
        cases hc
        cases hp
        exact ⟨rfl, rfl⟩
      have hcases : (∃ info, u.info job.id = .ok info ∧ u.tasks job.id ≠ none) ∨
          u.info job.id = .error .taskNotFound ∨ u.info job.id = .error .queueNotFound := by
        unfold JobsState.info
        split
        · exact .inr (.inr rfl)
        · split
          · exact .inr (.inl rfl)
          · rename_i task htask
            exact .inl ⟨_, rfl, by rw [htask]; nofun⟩
      obtain ⟨info, hinfo, htask⟩ | hinfo | hinfo := hcases
      · rw [hinfo]
        show wp sweeping (if info.state = .archived then _ else _) _ u
        split
        · exact hfail _
        · exact .inr ⟨rfl, fun ho => htask ho.taskless⟩
      · rw [hinfo]
        exact hfail _
      · rw [hinfo]
        exact hfail _

/-- What a sweep does over some ids: it leaves a record as it is or marks its job failed, and it
leaves the records under other ids. -/
structure SweptOver (ids : List String) (s t : JobsState) : Prop where
  own : t.Own
  clock : t.clock = s.clock
  tasks : t.tasks = s.tasks
  spared : ∀ id, id ∉ ids → t.records id = s.records id
  each : ∀ id, t.records id = s.records id ∨ t.Failed id

theorem SweptOver.refl (hs : s.Own) (ids : List String) : SweptOver ids s s :=
  ⟨hs, rfl, rfl, fun _ _ => rfl, fun _ => .inl rfl⟩

theorem SweptOver.failed {ids : List String} (h : SweptOver ids s t) (hs : s.Failed id) :
    t.Failed id := by
  obtain hsame | hfailed := h.each id
  · obtain ⟨j, hj, hstate⟩ := hs
    exact ⟨j, hsame.trans hj, hstate⟩
  · exact hfailed

theorem SweptOver.trans {ids ids' : List String} {u : JobsState} (h : SweptOver ids s t)
    (h' : SweptOver ids' t u) : SweptOver (ids ++ ids') s u where
  own := h'.own
  clock := h'.clock.trans h.clock
  tasks := h'.tasks.trans h.tasks
  spared id hid := by
    rw [List.mem_append, not_or] at hid
    exact (h'.spared id hid.2).trans (h.spared id hid.1)
  each id := by
    obtain hsame | hfailed := h'.each id
    · obtain hsame' | hfailed := h.each id
      · exact .inl (hsame.trans hsame')
      · exact .inr (h'.failed hfailed)
    · exact .inr hfailed

theorem SweptOver.orphan {ids : List String} (h : SweptOver ids s t) (hj : Orphan s j) :
    Orphan t j :=
  ⟨hj.unended, by rw [h.clock]; exact hj.old, by rw [h.tasks]; exact hj.taskless⟩

theorem Marked.sweptOver {job : Job} (h : Marked job s t) (hs : s.Own) :
    SweptOver [job.id] s t ∧ t.Failed job.id := by
  obtain ⟨failed, logs, hid, hstate, rfl⟩ := h
  have hfailed : (JobsState.saved { s with logs } failed).Failed job.id :=
    ⟨failed, by rw [JobsState.saved_records, if_pos hid.symm], hstate⟩
  have hother : ∀ id, id ≠ job.id →
      (JobsState.saved { s with logs } failed).records id = s.records id := fun id hne => by
    rw [JobsState.saved_records, if_neg (hid ▸ hne)]
  refine ⟨⟨?_, rfl, rfl, fun id hmem => hother id (List.ne_of_not_mem_cons hmem), fun id => ?_⟩,
    hfailed⟩
  · intro id j hj
    by_cases hne : id = failed.id
    · rw [JobsState.saved_records, if_pos hne] at hj
      cases hj
      exact hne.symm
    · rw [JobsState.saved_records, if_neg hne] at hj
      exact hs id j hj
  · by_cases hne : id = job.id
    · exact .inr (hne ▸ hfailed)
    · exact .inl (hother id hne)

/-- The ids of the jobs that have been read. -/
def idsOf (values : List (Option Job)) : List String := values.filterMap fun v => v.map (·.id)

theorem sweep_reconcileValues {values : List (Option Job)} (hs : s.Own) :
    wp sweeping (reconcileValues values) (fun _ t => SweptOver (idsOf values) s t ∧
      ∀ j, some j ∈ values → Orphan s j → t.Failed j.id) s := by
  induction values generalizing s with
  | nil => exact ⟨.refl hs _, fun j hj => absurd hj List.not_mem_nil⟩
  | cons value values ih =>
    cases value with
    | none =>
      refine wp_mono (ih hs) fun _ t ht => ⟨ht.1, fun j hj => ht.2 j ?_⟩
      simpa using hj
    | some job =>
      refine wp_seq sweep_reconcileJob fun _ t ht => ?_
      have hone : SweptOver [job.id] s t ∧ (Orphan s job → t.Failed job.id) := by
        obtain hmarked | ⟨rfl, hkept⟩ := ht
        · exact ⟨(hmarked.sweptOver hs).1, fun _ => (hmarked.sweptOver hs).2⟩
        · exact ⟨.refl hs _, fun ho => absurd ho hkept⟩
      refine wp_mono (ih hone.1.own) fun _ u hu => ⟨hone.1.trans hu.1, fun j hj ho => ?_⟩
      obtain hsame | hmem := List.mem_cons.mp hj
      · cases hsame
        exact hu.1.failed (hone.2 ho)
      · exact hu.2 j hmem (hone.1.orphan ho)

theorem sweep_reconcileSlices {rest : List (List String)} (hs : s.Own) :
    wp sweeping (reconcileSlices rest) (fun _ t => SweptOver rest.flatten s t ∧
      ∀ id ∈ rest.flatten, ∀ j, s.records id = some j → Orphan s j → t.Failed id) s := by
  induction rest generalizing s with
  | nil => exact ⟨.refl hs _, fun id hid => absurd hid List.not_mem_nil⟩
  | cons ids rest ih =>
    refine wp_alone_call fun c r t hc hp => ?_
    cases hc
    cases hp
    show wp sweeping (reconcileValues (ids.map s.records) >>= fun _ => reconcileSlices rest) _ s
    refine wp_seq (sweep_reconcileValues hs) fun _ t ht => ?_
    refine wp_mono (ih ht.1.own) fun _ u hu => ?_
    have hids : ∀ id ∈ idsOf (ids.map s.records), id ∈ ids := by
      intro id hid
      obtain ⟨value, hvalue, hjob⟩ := List.mem_filterMap.mp hid
      obtain ⟨id', hid', rfl⟩ := List.mem_map.mp hvalue
      obtain ⟨j, hj, rfl⟩ := Option.map_eq_some_iff.mp hjob
      rwa [hs id' j hj]
    have hover := ht.1.trans hu.1
    rw [List.flatten_cons]
    refine ⟨⟨hover.own, hover.clock, hover.tasks, fun id hid => hover.spared id fun hmem => hid ?_,
      hover.each⟩, fun id hid j hj ho => ?_⟩
    · exact (List.mem_append.mp hmem).elim (fun h => List.mem_append_left _ (hids id h))
        (List.mem_append_right _)
    · obtain hid | hid := List.mem_append.mp hid
      · have hmarked := ht.2 j (List.mem_map.mpr ⟨id, hid, hj⟩) ho
        rw [hs id j hj] at hmarked
        exact hu.1.failed hmarked
      · obtain hsame | hfailed := ht.1.each id
        · exact hu.2 id hid j (hsame.trans hj) (ht.1.orphan ho)
        · exact hu.1.failed hfailed

theorem sweep_reconcileOrphans (hs : s.Own) :
    wp sweeping reconcileOrphans (fun _ t => SweptOver (s.index.map (·.2)) s t ∧
      ∀ id ∈ s.index.map (·.2), ∀ j, s.records id = some j → Orphan s j → t.Failed id) s := by
  refine wp_alone_call fun c r t hc hp => ?_
  cases hc
  cases hp
  have hall : (slices (zslice 0 (-1) (s.index.map (·.2)))).flatten = s.index.map (·.2) := by
    rw [flatten_slices, zslice_all]
  have hrun : wp sweeping (reconcileSlices (slices (zslice 0 (-1) (s.index.map (·.2))))) _ s :=
    sweep_reconcileSlices hs
  rwa [hall] at hrun

/-- A sweep that nothing disturbs comes to an end. -/
theorem succeeds_reconcileOrphans : reconcileOrphans.Calls JobCall.Succeeds := by
  have failOrphan : ∀ job lastErr, (failOrphan job lastErr).Calls JobCall.Succeeds :=
    fun job lastErr => .bind (succeeds_jobCall trivial) fun now =>
      .bind (.bind (succeeds_jobCall trivial) fun _ => succeeds_jobCall trivial) fun _ =>
        .bind (succeeds_jobCall trivial) fun _ => .pure ()
  have reconcileJob : ∀ job, (reconcileJob job).Calls JobCall.Succeeds := by
    intro job
    unfold reconcileJob
    split
    · exact .pure ()
    · refine .bind (succeeds_jobCall trivial) fun now => ?_
      show Prog.Calls JobCall.Succeeds (if now < job.createdAt + minute then _ else _)
      split
      · exact .pure ()
      · refine .bind (succeeds_jobCall trivial) fun r => ?_
        cases r with
        | error e =>
          cases e with
          | taskNotFound => exact failOrphan _ _
          | queueNotFound => exact failOrphan _ _
          | other text => exact .pure ()
        | ok info =>
          show Prog.Calls JobCall.Succeeds (if info.state = .archived then _ else _)
          split
          · exact failOrphan _ _
          · exact .pure ()
  have reconcileValues : ∀ values, (reconcileValues values).Calls JobCall.Succeeds := by
    intro values
    induction values with
    | nil => exact .pure ()
    | cons value values ih =>
      cases value with
      | none => exact ih
      | some job => exact .bind (reconcileJob job) fun _ => ih
  have reconcileSlices : ∀ rest, (reconcileSlices rest).Calls JobCall.Succeeds := by
    intro rest
    induction rest with
    | nil => exact .pure ()
    | cons ids rest ih =>
      refine .bind (succeeds_jobCall trivial) fun r => ?_
      cases r with
      | error e => exact .pure ()
      | ok values => exact .bind (reconcileValues values) fun _ => ih
  refine .bind (succeeds_jobCall trivial) fun r => ?_
  cases r with
  | error e => exact .pure ()
  | ok ids => exact reconcileSlices _

/-- A sweep over an index that has an orphan marks it failed. -/
theorem swept_of_orphan (hs : s.Own) (hid : id ∈ s.index.map (·.2)) (hj : s.records id = some j)
    (ho : Orphan s j) : Swept id s := by
  obtain ⟨x, t, hrun⟩ := succeeds_reconcileOrphans.runs
    (fun a ha s => JobCall.Succeeds.steps (i := 0) ha s) s
  exact ⟨t, hrun, (wp_alone_runs (sweep_reconcileOrphans hs) hrun).2 id hid j hj ho⟩

/-- A sweep does not reach a job that is not in the index. -/
theorem not_swept (hs : s.Own) (hid : id ∉ s.index.map (·.2)) (hj : s.records id = some j)
    (hstate : j.state ≠ .failed) : ¬Swept id s := by
  rintro ⟨t, hrun, j', hj', hfailed⟩
  have hspared := (wp_alone_runs (sweep_reconcileOrphans hs) hrun).1.spared id hid
  rw [hspared, hj] at hj'
  cases hj'
  exact hstate hfailed

end Sweep

/-! ### The submission -/

/-- Records stand under their own ids, and an id that has not been issued is nowhere in use. -/
structure Tidy (s : JobsState) : Prop where
  own : s.Own
  unused : ∀ id, s.issued id = none →
    s.records id = none ∧ id ∉ s.index.map (·.2) ∧ s.tasks id = none

/-- The first save of a record fails only without effect, and the addition of a job to the index
only after it has taken effect. -/
def Gentle : JobCall → JobChoice → JobsState → Prop
  | .save _ none, .lost _, _ => False
  | .zadd _ _, .fail _, _ => False
  | _, _, _ => True

/-- The jobs that are new since `s` are in reach where they are pending. -/
def PendingInReach (s t : JobsState) : Prop :=
  ∀ id j, s.issued id = none → t.records id = some j → j.state = .pending → InReach id t

section Submission

variable {i : Nat} {s t u : JobsState} {j : Job} {ok : Prop}

/-- A submission that is watched for whether its steps are gentle. -/
def watchedSubmission (i : Nat) : Setting JobCall JobCall.Reply JobChoice (JobsState × Prop) :=
  .alone (Perform.watch (JobsState.perform i) Gentle) fun _ _ _ => True

theorem wp_watchedSubmission {α : Type} {a : JobCall} {f : a.Reply → Service α}
    {Q : α → JobsState × Prop → Prop}
    (h : ∀ c r t, JobsState.perform i a c s = some (r, t) →
      wp (watchedSubmission i) (f r) Q (t, ok ∧ Gentle a c s)) :
    wp (watchedSubmission i) (jobCall a >>= f) Q (s, ok) := by
  rw [jobCall, Prog.request_bind, watchedSubmission]
  refine wp_alone_call fun c r t _ hp => ?_
  rw [Perform.watch] at hp
  split at hp
  · contradiction
  · rename_i r' t' hp'
    cases hp
    exact h c r t' hp'

/-- A new job has been stored and indexed, and it is pending or has failed. -/
structure Submitted (s : JobsState) (j : Job) (t : JobsState) : Prop where
  own : t.Own
  alone : ∀ id, s.issued id = none → id ≠ j.id → t.records id = none
  pending : j.state = .pending
  created : j.createdAt ≤ t.clock
  indexed : j.id ∈ t.index.map (·.2)
  found : ∀ j', t.records j.id = some j' → j' = j ∨ j'.state = .failed

theorem Submitted.inReach (h : Submitted s j t) : PendingInReach s t := by
  intro id j' hid hj' hpending
  by_cases hsame : id = j.id
  · subst hsame
    obtain rfl | hfailed := h.found j' hj'
    · by_cases htask : t.tasks j'.id = none
      · refine .inl fun passed hpassed => swept_of_orphan (s := t.later passed) h.own h.indexed hj' ?_
        exact ⟨by rw [h.pending]; rfl, Nat.add_le_add h.created hpassed, htask⟩
      · exact .inr htask
    · rw [hpending] at hfailed
      cases hfailed
  · rw [h.alone id hid hsame] at hj'
    cases hj'

/-- A pending job that is neither in the index nor has a task is out of reach. -/
theorem not_inReach (hs : t.Own) (hid : j.id ∉ t.index.map (·.2)) (htask : t.tasks j.id = none)
    (hj : t.records j.id = some j) (hpending : j.state = .pending) : ¬InReach j.id t := by
  rintro (h | h)
  · have hfailed : j.state ≠ .failed := by
      rw [hpending]
      nofun
    exact not_swept (s := t.later minute) hs hid hj hfailed (h minute (Nat.le_refl _))
  · exact h htask

theorem Submitted.saved (h : Submitted s j t) {failed : Job} (hid : failed.id = j.id)
    (hstate : failed.state = .failed) : Submitted s j (t.saved failed) := by
  refine ⟨h.own.saved failed, fun id hfree hne => ?_, h.pending, h.created, h.indexed,
    fun j' hj' => ?_⟩
  · rw [JobsState.saved_records, if_neg (hid ▸ hne)]
    exact h.alone id hfree hne
  · rw [JobsState.saved_records, if_pos hid.symm] at hj'
    cases hj'
    exact .inr hstate

/-- A trim deletes the records of others, and of the new job only where it has ended. -/
theorem mem_trimmed {records : String → Option Job} {stale : List String} {id : String}
    (h : id ∈ ((stale.zip (stale.map records)).filter trimmable).map Prod.fst) :
    id ∈ stale ∧ trimmable (id, records id) = true := by
  obtain ⟨⟨id', value⟩, hmem, rfl⟩ := List.mem_map.mp h
  obtain ⟨hzip, htrim⟩ := List.mem_filter.mp hmem
  rw [← List.map_prod_left_eq_zip] at hzip
  obtain ⟨id', hid, hsame⟩ := List.mem_map.mp hzip
  cases hsame
  exact ⟨hid, htrim⟩

theorem Submitted.trimmed (h : Submitted s j t) {ids : List String} {logs : String → List LogLine}
    (hkept : j.id ∉ ids) : Submitted s j { t with
      records := fun id => if id ∈ ids then none else t.records id
      logs
      index := t.index.filter fun e => e.2 ∉ ids } := by
  have hrecord : ∀ id j', (if id ∈ ids then none else t.records id) = some j' →
      t.records id = some j' := fun id j' hj' => by
    split at hj'
    · cases hj'
    · exact hj'
  refine ⟨fun id j' hj' => h.own id j' (hrecord id j' hj'), fun id hfree hne => ?_, h.pending,
    h.created, ?_, fun j' hj' => h.found j' (hrecord j.id j' hj')⟩
  · show (if id ∈ ids then none else t.records id) = none
    rw [h.alone id hfree hne, ite_self]
  · obtain ⟨e, he, hid⟩ := List.mem_map.mp h.indexed
    exact List.mem_map.mpr ⟨e, List.mem_filter.mpr ⟨he, by simpa [hid] using hkept⟩, hid⟩

/-- A new job that is still pending, in a submission all of whose steps were gentle. -/
structure Indexed (s : JobsState) (j : Job) (u : JobsState × Prop) : Prop where
  submitted : Submitted s j u.1
  stored : u.1.records j.id = some j
  gentle : u.2

theorem Indexed.same (h : Indexed s j (t, ok)) : Indexed s j (t, ok ∧ True) :=
  ⟨h.submitted, h.stored, h.gentle, trivial⟩

/-- The trim of the history leaves a pending job alone. -/
theorem Indexed.trimHistory (h : Indexed s j (t, ok)) :
    wp (watchedSubmission i) trimHistory (fun _ u => Indexed s j u) (t, ok) := by
  refine wp_watchedSubmission fun c r u hp => ?_
  obtain ⟨rfl, rfl | ⟨e, rfl⟩⟩ := JobChoice.query_cases hp
  · generalize zslice 0 (-(historyLimit + 1)) (u.index.map (·.2)) = stale
    show wp (watchedSubmission i) (if stale = [] then _ else _) _ (u, ok ∧ True)
    split
    · exact h.same
    · refine wp_watchedSubmission fun c r v hp => ?_
      obtain ⟨rfl, rfl | ⟨e, rfl⟩⟩ := JobChoice.query_cases hp
      · show wp (watchedSubmission i) (if _ = [] then _ else _) _ _
        split
        · exact h.same.same
        · refine wp_watchedSubmission fun c r w hp => ?_
          obtain rfl | ⟨rfl, -⟩ := JobChoice.command_cases hp
          · have hkept : j.id ∉ ((stale.zip (stale.map v.records)).filter trimmable).map Prod.fst :=
              fun hmem => by
                have htrim := (mem_trimmed hmem).2
                rw [show v.records j.id = some j from h.stored] at htrim
                change j.state.terminal = true at htrim
                rw [h.submitted.pending] at htrim
                cases htrim
            exact ⟨h.submitted.trimmed hkept, (if_neg hkept).trans h.stored,
              ⟨⟨h.gentle, trivial⟩, trivial⟩, trivial⟩
          · exact h.same.same.same
      · exact h.same.same
  · exact h.same

theorem mem_insertScore_self (entry : Nat × String) (index : List (Nat × String)) :
    entry ∈ insertScore entry index := by
  induction index with
  | nil => exact List.mem_singleton_self entry
  | cons e index ih =>
    rw [insertScore]
    split
    · exact ih
    · split
      · exact List.mem_cons_of_mem e ih
      · exact List.mem_cons_self

/-- What a submission that returns `r` has come to. -/
def Told (s : JobsState) (r : Except String Job) (u : JobsState × Prop) : Prop :=
  ∀ e, r = .error e → (PendingInReach s u.1 ↔ u.2)

theorem Submitted.enqueue {p : Payload} {c : JobChoice} {r : Except String Unit}
    (h : Submitted s j t) (hp : JobsState.perform i (.enqueue p) c t = some (r, u)) :
    Submitted s j u := by
  obtain ⟨-, rfl⟩ | rfl := JobsState.enqueue_cases hp
  · exact ⟨h.own, h.alone, h.pending, h.created, h.indexed, h.found⟩
  · exact h

/-- A new job before its first save. -/
structure New (s : JobsState) (j : Job) (t : JobsState) : Prop where
  tidy : Tidy s
  free : s.issued j.id = none
  pending : j.state = .pending
  created : j.createdAt ≤ t.clock
  records : t.records = s.records
  index : t.index = s.index
  tasks : t.tasks = s.tasks

theorem New.own (h : New s j t) : t.Own := fun id j' hj' => h.tidy.own id j' (h.records ▸ hj')

theorem New.stored (t : JobsState) (j : Job) : (t.saved j).records j.id = some j := by
  rw [JobsState.saved_records, if_pos rfl]

/-- Between its first save and its addition to the index a job is out of reach. -/
theorem New.lost (h : New s j t) : ¬PendingInReach s (t.saved j) := fun hreach => by
  obtain ⟨-, hindex, htask⟩ := h.tidy.unused j.id h.free
  refine not_inReach (h.own.saved j) ?_ ?_ (New.stored t j) h.pending
    (hreach j.id j h.free (New.stored t j) h.pending)
  · show j.id ∉ t.index.map (·.2)
    rwa [h.index]
  · show t.tasks j.id = none
    rwa [h.tasks]

theorem New.submitted (h : New s j t) (score : Nat) :
    Submitted s j { t.saved j with index := insertScore (score, j.id) t.index } where
  own := h.own.saved j
  alone id hid hne := by
    show (t.saved j).records id = none
    rw [JobsState.saved_records, if_neg hne, h.records]
    exact (h.tidy.unused id hid).1
  pending := h.pending
  created := h.created
  indexed := List.mem_map.mpr ⟨_, mem_insertScore_self (score, j.id) t.index, rfl⟩
  found j' hj' := by
    rw [show _ = some j from New.stored t j] at hj'
    cases hj'
    exact .inl rfl

theorem wp_submit {payload : Payload} (hs : Tidy s) (hpublic : payload.action ≠ "vm.screenshot") :
    wp (watchedSubmission i) (submit payload) (Told s) (s, True) := by
  refine wp_watchedSubmission fun c id t hp => ?_
  obtain ⟨hfree, rfl⟩ := JobsState.newString_cases hp
  refine wp_watchedSubmission fun c now t hp => ?_
  obtain ⟨ht, hnow⟩ : t = { s with issued := Function.update s.issued id (some i) } ∧
      now = s.clock := by
    cases c <;> cases hp
    exact ⟨rfl, rfl⟩
  have hprivate : decide (payload.action = "vm.screenshot") = false := by simpa using hpublic
  have hnew : ∀ j : Job, j.id = id → j.state = .pending → j.createdAt = now → New s j t := by
    rintro j rfl hpending hcreated
    subst ht
    exact ⟨hs, hfree, hpending, Nat.le_of_eq (hcreated.trans hnow), rfl, rfl, rfl⟩
  have hrecords : ∀ id, s.issued id = none → t.records id = none := fun id hid => by
    rw [ht]
    exact (hs.unused id hid).1
  refine wp_watchedSubmission fun c r u hp => ?_
  cases c with
  | fresh id => cases hp
  | outcome result actionErr => cases hp
  | fail e =>
    cases hp
    refine fun _ _ => ⟨fun _ => ⟨⟨⟨trivial, trivial⟩, trivial⟩, trivial⟩, fun _ id j hid hj _ => ?_⟩
    rw [hrecords id hid] at hj
    cases hj
  | lost e =>
    cases hp
    exact fun _ _ => ⟨fun hreach => absurd hreach (hnew _ rfl rfl rfl).lost, fun h => h.2.elim⟩
  | ok =>
    cases hp
    show wp (watchedSubmission i) (addToIndex _ >>= _) _ _
    unfold addToIndex
    rw [if_neg (by rw [Job.isPrivate, hprivate]; exact Bool.false_ne_true), Prog.bind_assoc]
    refine wp_watchedSubmission fun c r u hp => ?_
    cases c with
    | fresh id => cases hp
    | outcome result actionErr => cases hp
    | fail e =>
      cases hp
      exact fun _ _ => ⟨fun hreach => absurd hreach (hnew _ rfl rfl rfl).lost, fun h => h.2.elim⟩
    | lost e =>
      cases hp
      exact fun _ _ => ⟨fun _ => ⟨⟨⟨⟨trivial, trivial⟩, trivial⟩, trivial⟩, trivial⟩,
        fun _ => ((hnew _ rfl rfl rfl).submitted _).inReach⟩
    | ok =>
      cases hp
      show wp (watchedSubmission i)
        ((trimHistory >>= fun _ => pure (Except.ok () : Except String Unit)) >>= _) _ _
      rw [Prog.bind_assoc]
      refine wp_seq (Indexed.trimHistory ⟨(hnew _ rfl rfl rfl).submitted _, New.stored t _,
        ⟨⟨⟨trivial, trivial⟩, trivial⟩, trivial⟩, trivial⟩) fun _ v hv => ?_
      refine wp_watchedSubmission fun c r u hp => ?_
      have hu := hv.submitted.enqueue hp
      cases r with
      | ok _ => exact fun e he => by cases he
      | error e =>
        refine wp_watchedSubmission fun c now w hp => ?_
        obtain rfl : w = u := by
          cases c <;> cases hp
          rfl
        refine wp_watchedSubmission fun c r x hp => ?_
        have hx := JobsState.save_cases hp
        refine fun _ _ => ⟨fun _ => ⟨⟨⟨hv.gentle, trivial⟩, trivial⟩, trivial⟩, fun _ => ?_⟩
        obtain rfl | ⟨rfl, -⟩ := hx
        · refine Submitted.inReach (hu.saved ?_ ?_)
          · rfl
          · rfl
        · exact hu.inReach

/-- A public submission that ends in an error leaves its job in reach of a sweep or of a worker
exactly where its first save fails only without effect, and the addition to the index only after
it has taken effect. -/
theorem submit_inReach_iff {payload : Payload} {cs : List JobChoice} {e : String} (hs : Tidy s)
    (hpublic : payload.action ≠ "vm.screenshot")
    (h : (submit payload).run (JobsState.perform i) cs s = some (.error e, t)) :
    PendingInReach s t ↔ (submit payload).Follows (JobsState.perform i) Gentle cs s :=
  wp_watch_run (Q := fun x u ok => Told s x (u, ok)) (wp_submit hs hpublic) h e rfl

theorem tidy_empty : Tidy {} := ⟨nofun, fun _ _ => ⟨rfl, List.not_mem_nil, rfl⟩⟩

def startPayload : Payload := { action := "vm.start", target := "v" }

/-- The choices of a submission until its job is in the index. -/
def indexedChoices : List JobChoice := [.fresh "a", .ok, .ok, .ok, .ok]

/-- Where the queue refuses the task, the job is in reach although its failure could not be saved;
where the reply to the first save is lost, it is not. -/
theorem submit_inReach_two :
    (∃ t, (submit startPayload).run (JobsState.perform 0)
      (indexedChoices ++ [.fail "refused", .ok, .fail "refused"]) {} = some (.error "refused", t) ∧
      PendingInReach {} t) ∧
    ∃ t, (submit startPayload).run (JobsState.perform 0) [.fresh "a", .ok, .lost "timeout"] {} =
      some (.error "timeout", t) ∧ ¬PendingInReach {} t := by
  have hpublic : startPayload.action ≠ "vm.screenshot" := by decide
  have hrefused : (submit startPayload).run (JobsState.perform 0)
    (indexedChoices ++ [.fail "refused", .ok, .fail "refused"]) {} = some (.error "refused", _) := rfl
  have hlost : (submit startPayload).run (JobsState.perform 0)
    [.fresh "a", .ok, .lost "timeout"] {} = some (.error "timeout", _) := rfl
  refine ⟨⟨_, hrefused, (submit_inReach_iff tidy_empty hpublic hrefused).mpr ?_⟩, _, hlost,
    fun hreach => ?_⟩
  · exact ⟨trivial, trivial, trivial, trivial, trivial, trivial, trivial, trivial, trivial⟩
  · exact ((submit_inReach_iff tidy_empty hpublic hlost).mp hreach).2.2.1

end Submission

end Maco.Jobs
