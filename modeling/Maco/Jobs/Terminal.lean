import Maco.Jobs.Steps

/-! What a job has come to stays as it is.  No operation saves a record over one that it has seen
end, so as long as every save finds the record in the state in which its caller has it, an ended
record keeps its outcome.  Redis does not compare, and a reader's stale save undoes a worker's. -/

namespace Maco.Jobs

open Concurrent

/-- A save finds the record in the state in which its caller has it, or finds none. -/
def Current (_ : Nat) : JobCall → JobChoice → JobsState → Prop
  | .save j was, _, s => ∀ r, s.records j.id = some r → was = some r.state
  | _, _, _ => True

/-- Ended records that are still there keep their outcomes. -/
def OutcomesKept (s t : JobsState) : Prop :=
  ∀ id j, s.records id = some j → j.state.terminal = true →
    ∀ j', t.records id = some j' → j'.outcome = j.outcome

/-- A save whose caller does not have the record as ended. -/
def JobCall.Unended : JobCall → Prop
  | .save _ was => ∀ state, was = some state → state.terminal = false
  | _ => True

theorem OutcomesKept.of_subset {s t : JobsState}
    (h : ∀ id, t.records id = none ∨ t.records id = s.records id) : OutcomesKept s t := by
  intro id j hj _ j' hj'
  rcases h id with hnone | hsame
  · rw [hnone] at hj'
    contradiction
  · rw [hsame, hj] at hj'
    cases hj'
    rfl

theorem JobsState.perform_records {i : Nat} {a : JobCall} {c : JobChoice} {s t : JobsState}
    {r : a.Reply} (h : JobsState.perform i a c s = some (r, t)) :
    (∀ id, t.records id = none ∨ t.records id = s.records id) ∨
      ∃ j was, a = .save j was ∧ t.records = Function.update s.records j.id (some j) := by
  obtain ⟨-, hrecords⟩ | ⟨j, was, ha, rfl⟩ := JobsState.perform_saves h
  · exact .inl hrecords
  · exact .inr ⟨j, was, ha, rfl⟩

theorem JobsState.perform_kept {i : Nat} {a : JobCall} {c : JobChoice} {s t : JobsState}
    {r : a.Reply} (ha : a.Unended) (hc : Current i a c s)
    (h : JobsState.perform i a c s = some (r, t)) : OutcomesKept s t := by
  obtain hsub | ⟨j, was, rfl, ht⟩ := JobsState.perform_records h
  · exact .of_subset hsub
  · intro id old hold hend j' hj'
    by_cases hid : id = j.id
    · have hwas : was = some old.state := hc old (hid ▸ hold)
      have := ha old.state hwas
      rw [hend] at this
      contradiction
    · rw [ht, Function.update_of_ne hid, hold] at hj'
      cases hj'
      rfl

theorem JobsState.event_kept {e : JobsEvent} {s t : JobsState} (h : JobsState.event e s = some t) :
    OutcomesKept s t :=
  .of_subset (JobsState.event_untouched h).records

/-! ### No operation saves over a record that it has seen end -/

/-- The program saves no record that it has seen end. -/
abbrev Careful {α : Type} (p : Service α) : Prop := p.Calls JobCall.Unended

theorem unended_save {j : Job} {was : State} (h : was.terminal = false) :
    (JobCall.save j (some was)).Unended := by
  intro state hstate
  cases hstate
  exact h

theorem careful_jobCall {a : JobCall} (ha : a.Unended) : Careful (jobCall a) := .request ha

theorem careful_of_plain {α : Type} {p : Service α} (h : p.Calls JobCall.Plain) : Careful p := by
  refine h.mono fun a ha => ?_
  cases a with
  | save j was => exact ha.elim
  | _ => exact trivial

theorem careful_appendLog (id message : String) : Careful (appendLog id message) :=
  careful_of_plain (plain_appendLog id message)

theorem careful_addToIndex (j : Job) : Careful (addToIndex j) := by
  unfold addToIndex
  split
  · exact .pure _
  · refine .bind (careful_jobCall trivial) fun r => ?_
    cases r with
    | error e => exact .pure _
    | ok _ => exact .bind (careful_of_plain plain_trimHistory) fun _ => .pure _

theorem careful_submit (payload : Payload) : Careful (submit payload) := by
  refine .bind (careful_jobCall trivial) fun id => .bind (careful_jobCall trivial) fun now => ?_
  refine .bind (careful_jobCall nofun) fun r => ?_
  cases r with
  | error e => exact .pure _
  | ok _ =>
    refine .bind (careful_addToIndex _) fun r => ?_
    cases r with
    | error e => exact .pure _
    | ok _ =>
      refine .bind (careful_jobCall trivial) fun r => ?_
      cases r with
      | error e =>
        refine .bind (careful_jobCall trivial) fun now => ?_
        exact .bind (careful_jobCall (unended_save rfl)) fun _ => .pure _
      | ok _ => exact .pure _

theorem careful_withLogs (id : String) (j : Job) : Careful (withLogs id j) :=
  careful_of_plain (plain_withLogs id j)

theorem careful_failArchived {id lastErr : String} {j : Job} (hj : j.state.terminal = false) :
    Careful (failArchived id j lastErr) := by
  refine .bind (careful_appendLog _ _) fun r => ?_
  cases r with
  | error e => exact .pure _
  | ok _ =>
    refine .bind (careful_jobCall trivial) fun now => ?_
    refine .bind (careful_jobCall (unended_save hj)) fun r => ?_
    cases r with
    | error e => exact .pure _
    | ok _ => exact careful_withLogs _ _

theorem careful_getJob (id : String) : Careful (getJob id) := by
  refine .bind (careful_jobCall trivial) fun r => ?_
  cases r with
  | error e => exact .pure _
  | ok stored =>
    show Careful (if stored.state.terminal = true then _ else _)
    split
    · exact careful_withLogs _ _
    · rename_i hstored
      refine .bind (careful_jobCall trivial) fun r => ?_
      cases r with
      | error e => exact careful_withLogs _ _
      | ok info =>
        show Careful (if info.state = .archived then _ else _)
        split
        · exact careful_failArchived (by simpa using hstored)
        · exact careful_withLogs _ _

theorem careful_acquireLock : Careful acquireLock := by
  refine .bind (careful_jobCall trivial) fun token => ?_
  refine .bind (careful_jobCall trivial) fun r => ?_
  cases r with
  | error e => exact .pure _
  | ok _ => exact .pure _

theorem careful_execute (p : Payload) : Careful (execute p) :=
  .bind (careful_jobCall trivial) fun _ => careful_jobCall trivial

theorem careful_runJob (payload : Payload) : Careful (runJob payload) := by
  refine .bind (careful_getJob _) fun r => ?_
  cases r with
  | error e => exact .pure _
  | ok j =>
    show Careful (if j.state.terminal = true then _ else _)
    split
    · exact .pure _
    · rename_i hj
      show Careful (if j.startedAt.isSome = true then _ else _)
      split
      · exact .pure _
      · have hstate : j.state.terminal = false := by simpa using hj
        refine .bind (careful_jobCall trivial) fun now => ?_
        refine .bind (careful_jobCall (unended_save hstate)) fun r => ?_
        cases r with
        | error e => exact .pure _
        | ok _ =>
          refine .bind (careful_appendLog _ _) fun r => ?_
          cases r with
          | error e => exact .pure _
          | ok _ =>
            refine .bind (careful_execute payload) fun ran => ?_
            refine .bind (careful_jobCall trivial) fun now => ?_
            refine .bind (careful_appendLog _ _) fun r => ?_
            cases r with
            | error e => exact .pure _
            | ok _ =>
              refine .bind (careful_jobCall (unended_save rfl)) fun r => ?_
              cases r with
              | error e => exact .pure _
              | ok _ => exact .pure _

theorem careful_processTask (task : Except String Payload) : Careful (processTask task) := by
  refine .bind careful_acquireLock fun r => ?_
  cases r with
  | error e => exact .pure _
  | ok token =>
    refine .bind ?_ fun result => .bind (careful_jobCall trivial) fun _ => .pure _
    cases task with
    | error e => exact .pure _
    | ok payload => exact careful_runJob payload

theorem careful_refreshAll (rules : TextRules) (options : PageOptions)
    (values : List (Option Job)) (found : List Job) :
    Careful (refreshAll rules options values found) := by
  induction values generalizing found with
  | nil => exact .pure _
  | cons value values ih =>
    cases value with
    | none => exact ih found
    | some job =>
      refine .bind ?_ fun job => ih _
      unfold refresh
      split
      · exact .pure _
      · refine .bind (careful_getJob _) fun r => ?_
        cases r with
        | error e => exact .pure _
        | ok refreshed => exact .pure _

theorem careful_publicSlices (rules : TextRules) (options : PageOptions)
    (rest : List (List String)) (found : List Job) :
    Careful (publicSlices rules options rest found) := by
  induction rest generalizing found with
  | nil => exact .pure _
  | cons ids rest ih =>
    refine .bind (careful_jobCall trivial) fun r => ?_
    cases r with
    | error e => exact .pure _
    | ok values => exact .bind (careful_refreshAll _ _ _ _) fun found => ih found

theorem careful_publicPage (rules : TextRules) (options : PageOptions) :
    Careful (publicPage rules options) := by
  unfold publicPage
  split
  · exact .pure _
  · refine .bind (careful_jobCall trivial) fun r => ?_
    cases r with
    | error e => exact .pure _
    | ok ids => exact careful_publicSlices _ _ _ _

theorem careful_fetchBatch (batch : List String) (fetched : Fetched) :
    Careful (fetchBatch batch fetched) := by
  induction batch generalizing fetched with
  | nil => exact .pure _
  | cons id batch ih =>
    refine .bind (careful_getJob id) fun r => ?_
    cases r with
    | error e => exact .pure _
    | ok job =>
      show Careful (if job.isPrivate = true then _ else _)
      split
      · exact ih fetched
      · show Careful (if (fetched.add id job).ids.length = 200 then _ else _)
        split
        · exact .pure _
        · exact ih _

theorem careful_fetchIndex (rounds offset : Nat) (fetched : Fetched) :
    Careful (fetchIndex rounds offset fetched) := by
  induction rounds generalizing offset fetched with
  | zero => exact ⟨trivial, nofun⟩
  | succ rounds ih =>
    unfold fetchIndex
    split
    · exact .pure _
    · refine .bind (careful_jobCall trivial) fun r => ?_
      cases r with
      | error e => exact .pure _
      | ok batch =>
        refine .bind (careful_fetchBatch batch fetched) fun r => ?_
        cases r with
        | error e => exact .pure _
        | ok fetched =>
          show Careful (if batch.length < 200 then _ else _)
          split
          · exact .pure _
          · exact ih _ _

theorem careful_fetchRest (fetched : Fetched) (ids : List String) (list : List Job) :
    Careful (fetchRest fetched ids list) := by
  induction ids generalizing list with
  | nil => exact .pure _
  | cons id ids ih =>
    unfold fetchRest
    split
    · exact ih _
    · refine .bind (careful_getJob id) fun r => ?_
      cases r with
      | error e => exact .pure _
      | ok job =>
        show Careful (if job.isPrivate = true then _ else _)
        split
        · exact ih _
        · exact ih _

theorem careful_publicList (rounds : Nat) : Careful (publicList rounds) := by
  refine .bind (careful_fetchIndex _ _ _) fun r => ?_
  cases r with
  | error e => exact .pure _
  | ok fetched =>
    refine .bind (careful_of_plain (plain_includeActive _ _)) fun r => ?_
    cases r with
    | error e => exact .pure _
    | ok ids => exact careful_fetchRest _ _ _

theorem careful_reconcileJob (job : Job) : Careful (reconcileJob job) := by
  unfold reconcileJob
  split
  · exact .pure _
  · rename_i hjob
    have hstate : job.state.terminal = false := by simpa using hjob
    have failOrphan : ∀ lastErr, Careful (failOrphan job lastErr) := fun lastErr =>
      .bind (careful_jobCall trivial) fun _ => .bind (careful_appendLog _ _) fun _ =>
        .bind (careful_jobCall (unended_save hstate)) fun _ => .pure _
    refine .bind (careful_jobCall trivial) fun now => ?_
    show Careful (if now < job.createdAt + minute then _ else _)
    split
    · exact .pure _
    · refine .bind (careful_jobCall trivial) fun r => ?_
      cases r with
      | error e =>
        cases e with
        | other text => exact .pure _
        | taskNotFound => exact failOrphan _
        | queueNotFound => exact failOrphan _
      | ok info =>
        show Careful (if info.state = .archived then _ else _)
        split
        · exact failOrphan _
        · exact .pure _

theorem careful_reconcileValues (values : List (Option Job)) :
    Careful (reconcileValues values) := by
  induction values with
  | nil => exact .pure _
  | cons value values ih =>
    cases value with
    | none => exact ih
    | some job => exact .bind (careful_reconcileJob job) fun _ => ih

theorem careful_reconcileOrphans : Careful reconcileOrphans := by
  have reconcileSlices : ∀ rest, Careful (reconcileSlices rest) := by
    intro rest
    induction rest with
    | nil => exact .pure _
    | cons ids rest ih =>
      refine .bind (careful_jobCall trivial) fun r => ?_
      cases r with
      | error e => exact .pure _
      | ok values => exact .bind (careful_reconcileValues values) fun _ => ih
  refine .bind (careful_jobCall trivial) fun r => ?_
  cases r with
  | error e => exact .pure _
  | ok ids => exact reconcileSlices _

theorem careful_codeOf (op : JobsOp) : Careful (codeOf op) := by
  cases op with
  | submit payload => exact .bind (careful_submit payload) fun _ => .pure _
  | processTask task => exact .bind (careful_processTask task) fun _ => .pure _
  | get id => exact .bind (careful_getJob id) fun _ => .pure _
  | publicPage rules options => exact .bind (careful_publicPage rules options) fun _ => .pure _
  | publicList rounds => exact .bind (careful_publicList rounds) fun _ => .pure _
  | reconcileOrphans => exact careful_reconcileOrphans

/-! ### Runs -/

def jobsOutline (s0 : JobsState) : jobsSystem.Outline Current s0 where
  Inv _ := True
  idle _ _ := True
  rely _ _ _ := True
  guar := OutcomesKept
  refl _ _ := trivial
  trans _ _ _ _ _ _ := trivial
  stable _ _ _ _ _ := trivial
  init := ⟨trivial, fun _ => trivial⟩
  code i op _ _ _ := wp_of_calls (I := fun _ => True) (careful_codeOf op) trivial
    (fun _ _ _ _ => trivial) fun _ _ _ _ _ ha _ hc hp =>
      ⟨⟨trivial, JobsState.perform_kept (i := i) ha hc hp, fun _ _ => trivial⟩, trivial⟩
  die _ _ _ := ⟨trivial, trivial, .of_subset fun _ => .inr rfl, fun _ _ => trivial⟩
  env _ _ _ _ h := ⟨trivial, JobsState.event_kept h, fun _ => trivial⟩

/-- The record of a job exists. -/
def JobsState.Has (id : String) (s : JobsState) : Prop := ∃ j, s.records id = some j

/-- In a run in which every save finds the record in the state in which its caller has it, a record
that has ended keeps its outcome for as long as it exists. -/
theorem outcome_kept {s0 : JobsState} {g g' : Config JobCall JobCall.Reply JobsState Unit}
    {id : String} {j : Job} (hg : jobsSystem.Reach Current s0 g)
    (hpath : jobsSystem.Path Current (JobsState.Has id) g g')
    (hj : g.shared.records id = some j) (hend : j.state.terminal = true) :
    ∃ j', g'.shared.records id = some j' ∧ j'.outcome = j.outcome := by
  refine (jobsOutline s0).along hg hpath (K := fun s => ∃ j', s.records id = some j' ∧
    j'.outcome = j.outcome) ⟨j, hj, rfl⟩ ?_
  rintro s t - hkept - ⟨new, hnew⟩ ⟨old, hold, hsame⟩
  have hterminal : old.state.terminal = true := by
    have : old.state = j.state := congrArg Outcome.state hsame
    rw [this, hend]
  exact ⟨new, hnew, (hkept id old hold hterminal new hnew).trans hsame⟩

section OneJob

def succeededJob : Job where
  id := "a"
  action := "vm.start"
  label := "Start virtual machine"
  target := "v"
  state := .succeeded
  createdAt := 0
  startedAt := some minute
  finishedAt := some minute
  result := "v"

def endedStore : JobsState := { records := fun id => if id = "a" then some succeededJob else none }

/-- A `Get` of an ended job, on its way. -/
theorem outcome_kept_get : ∃ g', jobsSystem.moves ⟨endedStore, fun _ => none⟩
      [.begin 0 (.get "a"), .call 0 .ok] = some g' ∧
    ∃ j', g'.shared.records "a" = some j' ∧ j'.outcome = succeededJob.outcome := by
  have hstart : jobsSystem.Reach Current endedStore ⟨endedStore, fun _ => none⟩ := .start
  refine ⟨_, rfl, ?_⟩
  refine outcome_kept hstart (.move (.call 0 .ok)
    (.move (.begin 0 (.get "a")) (.refl ⟨succeededJob, rfl⟩) trivial rfl ⟨succeededJob, rfl⟩)
    ?_ rfl ⟨succeededJob, rfl⟩) rfl rfl
  intro a next h
  cases h
  trivial

/-- A job is submitted, taken up after a minute and run to its end, while a reconciliation has read
its record as running and asks for its task when asynq has deleted it. -/
def staleReconcile : List (Move JobChoice JobsOp JobsEvent) :=
  [.begin 0 (.submit { action := "vm.start", target := "v" }), .call 0 (.fresh "a"), .call 0 .ok,
    .call 0 .ok, .call 0 .ok, .call 0 .ok, .call 0 .ok, .finish 0,
   .env (.tick minute), .env (.dequeue "a"),
   .begin 1 (.processTask (.ok { id := "a", action := "vm.start", target := "v" })),
    .call 1 (.fresh "t"), .call 1 .ok, .call 1 .ok, .call 1 .ok, .call 1 .ok, .call 1 .ok,
    .call 1 .ok, .call 1 .ok, .call 1 .ok, .call 1 .ok,
   .begin 2 .reconcileOrphans, .call 2 .ok, .call 2 .ok, .call 2 .ok,
   .call 1 (.outcome "v" none), .call 1 .ok, .call 1 .ok, .call 1 .ok, .call 1 .ok, .call 1 .ok,
    .finish 1, .env (.complete "a"),
   .call 2 .ok, .call 2 .ok, .call 2 .ok, .call 2 .ok]

/-- The reconciliation then saves the job that has succeeded as one that has failed. -/
theorem reconcileOrphans_overwrites :
    ∃ g g', jobsSystem.moves ⟨{}, fun _ => none⟩ staleReconcile = some g ∧
      jobsSystem.move g (.call 2 .ok) = some g' ∧
      g.shared.records "a" = some succeededJob ∧
      g'.shared.records "a" = some { succeededJob with
        state := .failed, error := "job was interrupted before it started", result := "" } :=
  ⟨_, _, rfl, rfl, rfl, rfl⟩

theorem outcome_not_kept :
    ¬ ∀ (g g' : Config JobCall JobCall.Reply JobsState Unit) (id : String) (j : Job),
      jobsSystem.Reach (fun _ _ _ _ => True) {} g →
      jobsSystem.Path (fun _ _ _ _ => True) (JobsState.Has id) g g' →
      g.shared.records id = some j → j.state.terminal = true →
      ∃ j', g'.shared.records id = some j' ∧ j'.outcome = j.outcome := by
  intro h
  obtain ⟨g, g', hg, hg', hj, hj'⟩ := reconcileOrphans_overwrites
  obtain ⟨j', hfound, hsame⟩ := h g g' "a" succeededJob
    (jobsSystem.reach_moves .start hg)
    (.move (.call 2 .ok) (.refl ⟨_, hj⟩) (fun _ _ _ => trivial) hg' ⟨_, hj'⟩) hj rfl
  rw [hj'] at hfound
  cases hfound
  exact absurd hsame (by decide)

end OneJob

end Maco.Jobs
