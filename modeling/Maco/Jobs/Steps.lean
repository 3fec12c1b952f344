import Maco.Jobs.Service

/-! What each call of the service, and each event beside the operations, does to the store. -/

namespace Maco.Jobs

open Concurrent

/-- What a step does to asynq's tasks: nothing, or one comes, or one is taken on. -/
inductive TaskStep (s t : JobsState) : Prop
  | same (tasks : t.tasks = s.tasks) (taskIDs : t.taskIDs = s.taskIDs) (queue : t.queue = s.queue)
  | enqueued (p : Payload) (free : s.tasks p.id = none)
      (tasks : t.tasks = Function.update s.tasks p.id (some { payload := p }))
      (taskIDs : t.taskIDs = s.taskIDs.filter (· ≠ p.id) ++ [p.id]) (queue : t.queue = true)
  | advanced (id : String) (task : Task) (next : Option Task) (found : s.tasks id = some task)
      (onward : ∀ task', next = some task' → task.state ≠ .archived ∧ task'.state ≠ task.state)
      (tasks : t.tasks = Function.update s.tasks id next) (taskIDs : t.taskIDs = s.taskIDs)
      (queue : t.queue = s.queue)

/-- Each task is in asynq's order, and its queue exists. -/
def JobsState.Queued (s : JobsState) : Prop :=
  ∀ id, s.tasks id ≠ none → id ∈ s.taskIDs ∧ s.queue = true

theorem TaskStep.queued {s t : JobsState} (h : TaskStep s t) (hs : s.Queued) : t.Queued := by
  intro id hid
  cases h with
  | same tasks taskIDs queue =>
    rw [taskIDs, queue]
    exact hs id (by rwa [← tasks])
  | enqueued p free tasks taskIDs queue =>
    refine ⟨?_, queue⟩
    rw [taskIDs]
    by_cases hsame : id = p.id
    · simp [hsame]
    · rw [tasks, Function.update_of_ne hsame] at hid
      simp [hsame, (hs id hid).1]
  | advanced id' task next found onward tasks taskIDs queue =>
    rw [taskIDs, queue]
    by_cases hsame : id = id'
    · subst hsame
      exact hs id (by rw [found]; nofun)
    · rw [tasks, Function.update_of_ne hsame] at hid
      exact hs id hid

/-- No record is written or indexed, and the lock and the executions stay as they are. -/
structure Untouched (s t : JobsState) : Prop where
  records : ∀ id, t.records id = none ∨ t.records id = s.records id
  index : t.index.Sublist s.index
  saves : t.saves = s.saves
  started : t.started = s.started
  held : t.held = s.held
  acting : t.acting = s.acting
  lockToken : t.lockToken = s.lockToken
  issued : ∀ id k, s.issued id = some k → t.issued id = some k
  tasks : TaskStep s t

theorem Untouched.refl (s : JobsState) : Untouched s s :=
  ⟨fun _ => .inr rfl, .refl _, rfl, rfl, rfl, rfl, rfl, fun _ _ h => h, .same rfl rfl rfl⟩

/-- A call that neither saves or indexes a record nor takes part in the lock or in an execution. -/
def JobCall.Plain : JobCall → Prop
  | .save _ _ | .zadd _ _ | .setNX _ | .releaseLock _ | .startAction _ | .finishAction _ => False
  | _ => True

theorem JobChoice.command_cases {c : JobChoice} {s t u : JobsState} {r : Except String Unit}
    (h : c.command s t = some (r, u)) : u = t ∨ u = s ∧ ∃ e, r = .error e := by
  cases c with
  | ok =>
    cases h
    exact .inl rfl
  | fail e =>
    cases h
    exact .inr ⟨rfl, e, rfl⟩
  | lost e =>
    cases h
    exact .inl rfl
  | fresh id => cases h
  | outcome result actionErr => cases h

theorem JobChoice.query_cases {α : Type} {c : JobChoice} {x : α} {s u : JobsState}
    {r : Except String α} (h : c.query x s = some (r, u)) :
    u = s ∧ (r = .ok x ∨ ∃ e, r = .error e) := by
  cases c with
  | ok =>
    cases h
    exact ⟨rfl, .inl rfl⟩
  | fail e =>
    cases h
    exact ⟨rfl, .inr ⟨e, rfl⟩⟩
  | lost e => cases h
  | fresh id => cases h
  | outcome result actionErr => cases h

section Calls

variable {i : Nat} {c : JobChoice} {s t : JobsState}

theorem JobsState.newString_cases {id : String}
    (h : JobsState.perform i .newString c s = some (id, t)) :
    s.issued id = none ∧ t = { s with issued := Function.update s.issued id (some i) } := by
  cases c with
  | fresh id' =>
    change (if s.issued id' = none then some _ else none) = _ at h
    split at h
    · rename_i hid
      cases h
      exact ⟨hid, rfl⟩
    · cases h
  | ok => cases h
  | fail e => cases h
  | lost e => cases h
  | outcome result actionErr => cases h

theorem JobsState.save_cases {j : Job} {was : Option State} {r : Except String Unit}
    (h : JobsState.perform i (.save j was) c s = some (r, t)) :
    t = s.saved j ∨ t = s ∧ ∃ e, r = .error e :=
  JobChoice.command_cases h

theorem JobsState.zadd_cases {score : Nat} {id : String} {r : Except String Unit}
    (h : JobsState.perform i (.zadd score id) c s = some (r, t)) :
    t = { s with index := insertScore (score, id) s.index } ∨ t = s := by
  obtain rfl | ⟨rfl, -⟩ := JobChoice.command_cases h
  · exact .inl rfl
  · exact .inr rfl

theorem JobsState.get_cases {id : String} {r : Except String Job}
    (h : JobsState.perform i (.get id) c s = some (r, t)) :
    t = s ∧ ∀ j, r = .ok j → s.records id = some j := by
  cases c with
  | ok =>
    conv at h =>
      lhs
      whnf
    cases hrecord : s.records id with
    | none =>
      rw [hrecord] at h
      cases h
      exact ⟨rfl, nofun⟩
    | some job =>
      rw [hrecord] at h
      cases h
      exact ⟨rfl, fun j hj => by cases hj; rfl⟩
  | fail e =>
    cases h
    exact ⟨rfl, nofun⟩
  | fresh id' => cases h
  | lost e => cases h
  | outcome result actionErr => cases h

theorem JobsState.setNX_cases {token : String} {r : Except String Unit}
    (h : JobsState.perform i (.setNX token) c s = some (r, t)) :
    (∃ e, r = .error e) ∧ (t = s ∨ s.lockFree = true ∧ t = s.locked token) ∨
      r = .ok () ∧ s.lockFree = true ∧ t = (s.locked token).holding i (some token) := by
  cases c with
  | ok =>
    change (if s.lockFree then _ else none) = some (r, t) at h
    split at h
    · rename_i hfree
      cases h
      exact .inr ⟨rfl, hfree, rfl⟩
    · cases h
  | lost e =>
    change (if s.lockFree then _ else none) = some (r, t) at h
    split at h
    · rename_i hfree
      cases h
      exact .inl ⟨⟨e, rfl⟩, .inr ⟨hfree, rfl⟩⟩
    · cases h
  | fail e =>
    cases h
    exact .inl ⟨⟨e, rfl⟩, .inl rfl⟩
  | fresh id => cases h
  | outcome result actionErr => cases h

theorem JobsState.releaseLock_cases {token : String} {r : Unit}
    (h : JobsState.perform i (.releaseLock token) c s = some (r, t)) :
    t = s.holding i none ∨
      s.lockToken = some token ∧ t = { s.holding i none with execlock := none } := by
  change (if c.effect ∧ s.lockToken = some token then _ else _) = some (r, t) at h
  split at h
  · rename_i hmine
    cases h
    exact .inr ⟨hmine.2, rfl⟩
  · cases h
    exact .inl rfl

theorem JobsState.startAction_cases {p : Payload} {r : Unit}
    (h : JobsState.perform i (.startAction p) c s = some (r, t)) :
    t = { s.doing i (some p) with started := p :: s.started } := by
  cases c with
  | ok =>
    cases h
    rfl
  | fail e => cases h
  | lost e => cases h
  | fresh id => cases h
  | outcome result actionErr => cases h

theorem JobsState.finishAction_cases {p : Payload} {r : String × Option String}
    (h : JobsState.perform i (.finishAction p) c s = some (r, t)) : t = s.doing i none := by
  cases c with
  | outcome result actionErr =>
    cases h
    rfl
  | ok => cases h
  | fail e => cases h
  | lost e => cases h
  | fresh id => cases h

theorem JobsState.enqueue_cases {p : Payload} {r : Except String Unit}
    (h : JobsState.perform i (.enqueue p) c s = some (r, t)) :
    s.tasks p.id = none ∧ t = s.enqueued p ∨ t = s := by
  change (if s.tasks p.id = none ∨ c.effect = false then _ else none) = some (r, t) at h
  split at h
  · rename_i hfree
    cases c with
    | ok =>
      cases h
      exact .inl ⟨by simpa [JobChoice.effect] using hfree, rfl⟩
    | lost e =>
      cases h
      exact .inl ⟨by simpa [JobChoice.effect] using hfree, rfl⟩
    | fail e =>
      cases h
      exact .inr rfl
    | fresh id => cases h
    | outcome result actionErr => cases h
  · cases h

theorem JobsState.advance_cases {id : String} {state : TaskState} {next : Task → Option Task}
    (h : s.advance id state next = some t) :
    ∃ task, s.tasks id = some task ∧ task.state = state ∧ t = s.setTask id (next task) := by
  unfold JobsState.advance at h
  split at h
  · cases h
  · rename_i task htask
    split at h
    · rename_i hstate
      cases h
      exact ⟨task, htask, hstate, rfl⟩
    · cases h

theorem JobsState.perform_plain {a : JobCall} {r : a.Reply}
    (h : JobsState.perform i a c s = some (r, t)) (ha : a.Plain) : Untouched s t := by
  cases a with
  | save j was => exact ha.elim
  | zadd score id => exact ha.elim
  | setNX token => exact ha.elim
  | releaseLock token => exact ha.elim
  | startAction p => exact ha.elim
  | finishAction p => exact ha.elim
  | newString =>
    obtain ⟨hid, rfl⟩ := JobsState.newString_cases h
    refine ⟨fun _ => .inr rfl, .refl _, rfl, rfl, rfl, rfl, rfl, fun id' k hk => ?_,
      .same rfl rfl rfl⟩
    have hne : id' ≠ r := by
      rintro rfl
      rw [hid] at hk
      cases hk
    simpa [Function.update_of_ne hne] using hk
  | get id =>
    obtain ⟨rfl, -⟩ := JobsState.get_cases h
    exact .refl _
  | trim ids =>
    obtain rfl | ⟨rfl, -⟩ := JobChoice.command_cases h
    · refine ⟨fun id => ?_, List.filter_sublist, rfl, rfl, rfl, rfl, rfl, fun _ _ h => h, .same rfl rfl rfl⟩
      by_cases hid : id ∈ ids
      · exact .inl (by simp [hid])
      · exact .inr (by simp [hid])
    · exact .refl _
  | rpush id line =>
    obtain rfl | ⟨rfl, -⟩ := JobChoice.command_cases h
    · exact ⟨fun _ => .inr rfl, .refl _, rfl, rfl, rfl, rfl, rfl, fun _ _ h => h, .same rfl rfl rfl⟩
    · exact .refl _
  | enqueue p =>
    obtain ⟨hfree, rfl⟩ | rfl := JobsState.enqueue_cases h
    · exact ⟨fun _ => .inr rfl, .refl _, rfl, rfl, rfl, rfl, rfl, fun _ _ h => h,
        .enqueued p hfree rfl rfl rfl⟩
    · exact .refl _
  | zrange start stop | zrevrange start stop | mget ids | lrange id =>
    obtain ⟨rfl, -⟩ := JobChoice.query_cases h
    exact .refl _
  | now | taskInfo id | listTasks state page | outOfRounds =>
    cases c <;> cases h <;> exact .refl _

end Calls

/-- What a call does to the records: a save writes its own, a trim deletes, the others leave them. -/
theorem JobsState.perform_saves {i : Nat} {a : JobCall} {c : JobChoice} {s t : JobsState}
    {r : a.Reply} (h : JobsState.perform i a c s = some (r, t)) :
    (t.saves = s.saves ∧ ∀ id, t.records id = none ∨ t.records id = s.records id) ∨
      ∃ j was, a = .save j was ∧ t = s.saved j := by
  cases a with
  | save j was =>
    obtain rfl | ⟨rfl, -⟩ := JobsState.save_cases h
    · exact .inr ⟨j, was, rfl, rfl⟩
    · exact .inl ⟨rfl, fun id => .inr rfl⟩
  | zadd score id =>
    obtain rfl | rfl := JobsState.zadd_cases h
    · exact .inl ⟨rfl, fun id => .inr rfl⟩
    · exact .inl ⟨rfl, fun id => .inr rfl⟩
  | setNX token =>
    obtain ⟨-, rfl | ⟨-, rfl⟩⟩ | ⟨-, -, rfl⟩ := JobsState.setNX_cases h
    · exact .inl ⟨rfl, fun id => .inr rfl⟩
    · exact .inl ⟨rfl, fun id => .inr rfl⟩
    · exact .inl ⟨rfl, fun id => .inr rfl⟩
  | releaseLock token =>
    obtain rfl | ⟨-, rfl⟩ := JobsState.releaseLock_cases h
    · exact .inl ⟨rfl, fun id => .inr rfl⟩
    · exact .inl ⟨rfl, fun id => .inr rfl⟩
  | startAction p =>
    obtain rfl := JobsState.startAction_cases h
    exact .inl ⟨rfl, fun id => .inr rfl⟩
  | finishAction p =>
    obtain rfl := JobsState.finishAction_cases h
    exact .inl ⟨rfl, fun id => .inr rfl⟩
  | newString | now | zrange start stop | zrevrange start stop | mget ids | get id
  | trim ids | rpush id line | lrange id | enqueue p | taskInfo id | listTasks state page
  | outOfRounds =>
    have hun := JobsState.perform_plain h trivial
    exact .inl ⟨hun.saves, hun.records⟩

/-- What a call does to the tasks and to the list of the saves. -/
theorem JobsState.perform_tasks {i : Nat} {a : JobCall} {c : JobChoice} {s t : JobsState}
    {r : a.Reply} (h : JobsState.perform i a c s = some (r, t)) :
    TaskStep s t ∧ s.saves ⊆ t.saves := by
  have rest : t.tasks = s.tasks → t.taskIDs = s.taskIDs → t.queue = s.queue → t.saves = s.saves →
      TaskStep s t ∧ s.saves ⊆ t.saves :=
    fun h1 h2 h3 h4 => ⟨.same h1 h2 h3, fun _ hj => h4 ▸ hj⟩
  cases a with
  | save j was =>
    obtain rfl | ⟨rfl, -⟩ := JobsState.save_cases h
    · exact ⟨.same rfl rfl rfl, List.subset_cons_self j s.saves⟩
    · exact rest rfl rfl rfl rfl
  | zadd score id =>
    obtain rfl | rfl := JobsState.zadd_cases h
    · exact rest rfl rfl rfl rfl
    · exact rest rfl rfl rfl rfl
  | setNX token =>
    obtain ⟨-, rfl | ⟨-, rfl⟩⟩ | ⟨-, -, rfl⟩ := JobsState.setNX_cases h
    · exact rest rfl rfl rfl rfl
    · exact rest rfl rfl rfl rfl
    · exact rest rfl rfl rfl rfl
  | releaseLock token =>
    obtain rfl | ⟨-, rfl⟩ := JobsState.releaseLock_cases h
    · exact rest rfl rfl rfl rfl
    · exact rest rfl rfl rfl rfl
  | startAction p =>
    obtain rfl := JobsState.startAction_cases h
    exact rest rfl rfl rfl rfl
  | finishAction p =>
    obtain rfl := JobsState.finishAction_cases h
    exact rest rfl rfl rfl rfl
  | newString | now | zrange start stop | zrevrange start stop | mget ids | get id
  | trim ids | rpush id line | lrange id | enqueue p | taskInfo id | listTasks state page
  | outOfRounds =>
    have hun := JobsState.perform_plain h trivial
    exact ⟨hun.tasks, fun _ hj => hun.saves ▸ hj⟩

/-! ### Programs of plain calls -/

theorem plain_jobCall {a : JobCall} (ha : a.Plain) : (jobCall a).Calls JobCall.Plain :=
  .request ha

theorem plain_appendLog (id message : String) : (appendLog id message).Calls JobCall.Plain :=
  .bind (plain_jobCall trivial) fun _ => plain_jobCall trivial

theorem plain_trimHistory : trimHistory.Calls JobCall.Plain := by
  refine .bind (plain_jobCall trivial) fun r => ?_
  cases r with
  | error e => exact .pure ()
  | ok stale =>
    show Prog.Calls JobCall.Plain (if stale = [] then _ else _)
    split
    · exact .pure ()
    · refine .bind (plain_jobCall trivial) fun r => ?_
      cases r with
      | error e => exact .pure ()
      | ok values =>
        show Prog.Calls JobCall.Plain (if _ = [] then _ else _)
        split
        · exact .pure ()
        · exact .bind (plain_jobCall trivial) fun _ => .pure ()

theorem plain_withLogs (id : String) (j : Job) : (withLogs id j).Calls JobCall.Plain := by
  refine .bind (plain_jobCall trivial) fun r => ?_
  cases r with
  | error e => exact .pure _
  | ok logs => exact .pure _

theorem plain_includePages (state : TaskState) (rounds page : Nat) (ids : List String) :
    (includePages state rounds page ids).Calls JobCall.Plain := by
  induction rounds generalizing page ids with
  | zero => exact ⟨trivial, nofun⟩
  | succ rounds ih =>
    refine .bind (plain_jobCall trivial) fun r => ?_
    cases r with
    | error e =>
      cases e with
      | taskNotFound => exact .pure _
      | queueNotFound => exact .pure _
      | other text => exact .pure _
    | ok tasks =>
      show Prog.Calls JobCall.Plain (if tasks.length < 100 then _ else _)
      split
      · exact .pure _
      · exact ih _ _

theorem plain_includeActive (rounds : Nat) (ids : List String) :
    (includeActive rounds ids).Calls JobCall.Plain := by
  refine .bind (plain_includePages _ _ _ _) fun r => ?_
  cases r with
  | error e => exact .pure _
  | ok ids => exact plain_includePages _ _ _ _

theorem JobsState.event_untouched {e : JobsEvent} {s t : JobsState}
    (h : JobsState.event e s = some t) : Untouched s t := by
  have advance : ∀ {id state next}, s.advance id state next = some t →
      (∀ task task', next task = some task' → state ≠ .archived ∧ task'.state ≠ state) →
      Untouched s t := by
    intro id state next h honward
    obtain ⟨task, htask, hstate, rfl⟩ := JobsState.advance_cases h
    exact ⟨fun _ => .inr rfl, .refl _, rfl, rfl, rfl, rfl, rfl, fun _ _ h => h,
      .advanced id task _ htask (fun task' h => hstate ▸ honward task task' h) rfl rfl rfl⟩
  cases e with
  | expire id =>
    simp only [JobsState.event] at h
    split at h
    · cases h
    · split at h
      · cases h
        refine ⟨fun id' => ?_, .refl _, rfl, rfl, rfl, rfl, rfl, fun _ _ h => h, .same rfl rfl rfl⟩
        by_cases hid : id' = id
        · exact .inl (by simp [hid])
        · exact .inr (by simp [hid])
      · cases h
  | renewLock i =>
    cases h
    unfold JobsState.renewed
    split
    · refine ⟨fun _ => .inr rfl, .refl _, rfl, rfl, rfl, rfl, ?_, fun _ _ h => h, .same rfl rfl rfl⟩
      simp [JobsState.lockToken, Function.comp_def]
    · exact .refl s
  | dequeue id =>
    refine advance h fun task task' hnext => ?_
    cases hnext
    exact ⟨nofun, nofun⟩
  | complete id => exact advance h nofun
  | archive id lastErr =>
    refine advance h fun task task' hnext => ?_
    cases hnext
    exact ⟨nofun, nofun⟩
  | purge id => exact advance h nofun
  | logLine id line =>
    cases h
    exact ⟨fun _ => .inr rfl, .refl _, rfl, rfl, rfl, rfl, rfl, fun _ _ h => h, .same rfl rfl rfl⟩
  | tick passed =>
    cases h
    exact ⟨fun _ => .inr rfl, .refl _, rfl, rfl, rfl, rfl, rfl, fun _ _ h => h, .same rfl rfl rfl⟩

end Maco.Jobs
