import Maco.Jobs.Steps

/-! The execution lock as an execution slot.  The processes at work under the lock are the only ones
that store a start time, and they call an execution only for a job whose start they have stored.
`ex` says whether the lock is taken to be exclusive: no process then begins a job that another has
begun. -/

namespace Maco.Jobs

open Concurrent

/-- A record of the job with a start time has been stored. -/
def JobsState.Begun (s : JobsState) (id : String) : Prop :=
  ∃ j ∈ s.saves, j.id = id ∧ j.startedAt.isSome = true

/-- No record of the job has ever been stored. -/
def JobsState.Unsaved (s : JobsState) (id : String) : Prop := ∀ j ∈ s.saves, j.id ≠ id

/-- At most one process is at work under the lock. -/
def LockExclusive (s : JobsState) : Prop := ∀ i k, s.held i ≠ none → s.held k ≠ none → i = k

/-- What holds in every state. -/
structure JobsInv (ex : Prop) (s : JobsState) : Prop where
  holder : ∀ i token, s.held i = some token → s.issued token = some i
  acting : ∀ i, s.acting i ≠ none → s.held i ≠ none
  issued : ∀ j ∈ s.saves, s.issued j.id ≠ none
  stored : ∀ id j, s.records id = some j → j.id = id ∧ j ∈ s.saves
  closed : ∀ id j, s.records id = some j → s.Begun id →
    j.state.terminal = true ∨ j.startedAt.isSome = true
  begun : ∀ p ∈ s.started, s.Begun p.id
  actions : ∀ j ∈ s.saves, ∀ j' ∈ s.saves, j.id = j'.id → j.action = j'.action
  indexed : ∀ e ∈ s.index, ∃ j ∈ s.saves, j.id = e.2 ∧ j.isPrivate = false
  distinct : (s.index.map (·.2)).Nodup
  queued : s.Queued
  once : ex → (s.started.map (·.id)).Nodup

/-- What process `i` may count on. -/
structure JobsRely (ex : Prop) (i : Nat) (s t : JobsState) : Prop where
  held : t.held i = s.held i
  acting : t.acting i = s.acting i
  issued : ∀ id k, s.issued id = some k → t.issued id = some k
  saves : ∀ j ∈ s.saves, j ∈ t.saves
  unsaved : ∀ id, s.issued id = some i → s.Unsaved id → t.Unsaved id
  locked : ex → s.held i ≠ none → t.started = s.started ∧ ∀ id, t.Begun id → s.Begun id

theorem JobsRely.refl (ex : Prop) (i : Nat) (s : JobsState) : JobsRely ex i s s :=
  ⟨rfl, rfl, fun _ _ h => h, fun _ h => h, fun _ _ h => h, fun _ _ => ⟨rfl, fun _ h => h⟩⟩

theorem JobsRely.trans {ex : Prop} (i : Nat) (s t u : JobsState) (h : JobsRely ex i s t)
    (h' : JobsRely ex i t u) : JobsRely ex i s u where
  held := h'.held.trans h.held
  acting := h'.acting.trans h.acting
  issued id k hk := h'.issued id k (h.issued id k hk)
  saves j hj := h'.saves j (h.saves j hj)
  unsaved id hid hs := h'.unsaved id (h.issued id i hid) (h.unsaved id hid hs)
  locked hex hs := by
    have hst := h.locked hex hs
    have htu := h'.locked hex (by rw [h.held]; exact hs)
    exact ⟨htu.1.trans hst.1, fun id hid => hst.2 id (htu.2 id hid)⟩

/-- What a step does to the lock. -/
inductive LockStep (s t : JobsState) : Prop
  | same (held : t.held = s.held) (lockToken : t.lockToken = s.lockToken)
  | taken (token : String) (free : s.lockFree = true) (lockToken : t.lockToken = some token)
      (held : t.held = s.held ∨ ∃ i, t.held = Function.update s.held i (some token))
  | left (i : Nat) (held : t.held = Function.update s.held i none)
      (lockToken : t.lockToken = s.lockToken ∨ s.lockToken = s.held i ∧ s.held i ≠ none)

/-- A step that keeps the invariant and what every process but `i` counts on. -/
structure JobsStep (ex : Prop) (i : Nat) (s t : JobsState) : Prop where
  inv : JobsInv ex t
  lock : LockStep s t
  others : ∀ k, k ≠ i → JobsRely ex k s t

section Steps

variable {ex : Prop} {i : Nat} {s t : JobsState}

theorem JobsState.Begun.mono {id : String} (h : s.Begun id) (hs : ∀ j ∈ s.saves, j ∈ t.saves) :
    t.Begun id := by
  obtain ⟨j, hj, hid, hstart⟩ := h
  exact ⟨j, hs j hj, hid, hstart⟩

theorem JobsState.Begun.congr {id : String} (hs : t.saves = s.saves) (h : t.Begun id) :
    s.Begun id := by
  unfold JobsState.Begun at *
  rwa [← hs]

theorem Untouched.rely (h : Untouched s t) (k : Nat) : JobsRely ex k s t where
  held := congrFun h.held k
  acting := congrFun h.acting k
  issued := h.issued
  saves _ hj := h.saves ▸ hj
  unsaved _ _ hs j hj := hs j (h.saves ▸ hj)
  locked _ _ := ⟨h.started, fun _ => .congr h.saves⟩

theorem Untouched.inv (h : Untouched s t) (hs : JobsInv ex s) : JobsInv ex t where
  holder k token hk := h.issued token k (hs.holder k token (by rw [← h.held]; exact hk))
  acting k hk := by
    rw [h.held]
    rw [h.acting] at hk
    exact hs.acting k hk
  issued j hj := by
    have hne := hs.issued j (h.saves ▸ hj)
    obtain ⟨k, hk⟩ := Option.ne_none_iff_exists'.mp hne
    rw [h.issued j.id k hk]
    nofun
  stored id j hj := by
    rcases h.records id with hnone | hsame
    · rw [hnone] at hj
      cases hj
    · obtain ⟨hid, hmem⟩ := hs.stored id j (hsame ▸ hj)
      exact ⟨hid, h.saves ▸ hmem⟩
  closed id j hj hb := by
    rcases h.records id with hnone | hsame
    · rw [hnone] at hj
      cases hj
    · exact hs.closed id j (hsame ▸ hj) (hb.congr h.saves)
  begun p hp := (hs.begun p (h.started ▸ hp)).mono fun j hj => h.saves ▸ hj
  actions := h.saves ▸ hs.actions
  indexed e he := h.saves ▸ hs.indexed e (h.index.subset he)
  distinct := (h.index.map _).nodup hs.distinct
  queued := h.tasks.queued hs.queued
  once hex := h.started ▸ hs.once hex

theorem Untouched.step (h : Untouched s t) (hs : JobsInv ex s) : JobsStep ex i s t :=
  ⟨h.inv hs, .same h.held h.lockToken, fun k _ => h.rely k⟩

/-- A job in hand has the id, the action and the start time of a record that was stored. -/
def JobsState.Read (s : JobsState) (j : Job) : Prop :=
  ∃ j' ∈ s.saves, j'.id = j.id ∧ j'.action = j.action ∧ j'.startedAt = j.startedAt

theorem JobsState.Read.mono {j : Job} (h : s.Read j) (hs : ∀ j ∈ s.saves, j ∈ t.saves) :
    t.Read j := by
  obtain ⟨j', hj', hsame⟩ := h
  exact ⟨j', hs j' hj', hsame⟩

theorem JobsState.mem_saved (s : JobsState) (j : Job) : ∀ j' ∈ s.saves, j' ∈ (s.saved j).saves :=
  fun _ => List.mem_cons_of_mem j

/-- A save keeps the invariant where the record that it stores is closed, or has not begun. -/
theorem JobsInv.saved {j : Job} (hs : JobsInv ex s) (hid : s.issued j.id ≠ none)
    (haction : ∀ j' ∈ s.saves, j'.id = j.id → j'.action = j.action)
    (hj : (s.saved j).Begun j.id → j.state.terminal = true ∨ j.startedAt.isSome = true) :
    JobsInv ex (s.saved j) where
  holder := hs.holder
  acting := hs.acting
  issued j' hj' := by
    obtain rfl | hj' := List.mem_cons.mp hj'
    · exact hid
    · exact hs.issued j' hj'
  stored id j' hj' := by
    by_cases hsame : id = j.id
    · subst hsame
      obtain rfl : j = j' := by simpa [JobsState.saved] using hj'
      exact ⟨rfl, List.mem_cons_self⟩
    · have := hs.stored id j' (by simpa [JobsState.saved, hsame] using hj')
      exact ⟨this.1, List.mem_cons_of_mem j this.2⟩
  closed id j' hj' hb := by
    by_cases hsame : id = j.id
    · subst hsame
      obtain rfl : j = j' := by simpa [JobsState.saved] using hj'
      exact hj hb
    · refine hs.closed id j' (by simpa [JobsState.saved, hsame] using hj') ?_
      obtain ⟨j1, hj1, hid1, hstart⟩ := hb
      obtain rfl | hj1 := List.mem_cons.mp hj1
      · exact absurd hid1.symm hsame
      · exact ⟨j1, hj1, hid1, hstart⟩
  begun p hp := (hs.begun p hp).mono (s.mem_saved j)
  actions j1 hj1 j2 hj2 hsame := by
    obtain rfl | hold1 := List.mem_cons.mp hj1
    · obtain rfl | hold2 := List.mem_cons.mp hj2
      · rfl
      · exact (haction j2 hold2 hsame.symm).symm
    · obtain rfl | hold2 := List.mem_cons.mp hj2
      · exact haction j1 hold1 hsame
      · exact hs.actions j1 hold1 j2 hold2 hsame
  indexed e he := by
    obtain ⟨j', hj', hpublic⟩ := hs.indexed e he
    exact ⟨j', List.mem_cons_of_mem j hj', hpublic⟩
  distinct := hs.distinct
  queued := hs.queued
  once := hs.once

/-- Others may count on a save whose id is their own only where it was saved before, and on a start
time only where the lock is not theirs. -/
theorem JobsRely.saved {j : Job} {k : Nat} (hid : s.issued j.id = some k → ¬s.Unsaved j.id)
    (hbegun : ex → s.held k ≠ none → ∀ id, (s.saved j).Begun id → s.Begun id) :
    JobsRely ex k s (s.saved j) where
  held := rfl
  acting := rfl
  issued _ _ h := h
  saves := s.mem_saved j
  unsaved id hk hs j' hj' := by
    obtain rfl | hj' := List.mem_cons.mp hj'
    · rintro rfl
      exact hid hk hs
    · exact hs j' hj'
  locked hex hk := ⟨rfl, hbegun hex hk⟩

theorem JobsState.Read.begun {j : Job} (h : s.Read j) {id : String} (hb : (s.saved j).Begun id) :
    s.Begun id := by
  obtain ⟨j1, hj1, hid1, hstart⟩ := hb
  obtain rfl | hj1 := List.mem_cons.mp hj1
  · obtain ⟨j', hj', hid', -, hstart'⟩ := h
    exact ⟨j', hj', hid'.trans hid1, hstart' ▸ hstart⟩
  · exact ⟨j1, hj1, hid1, hstart⟩

theorem JobsState.Read.saved {j : Job} (h : s.Read j) : ¬s.Unsaved j.id := by
  obtain ⟨j', hj', hid', -⟩ := h
  exact fun hs => hs j' hj' hid'

theorem JobsInv.action_of_read {j : Job} (hs : JobsInv ex s) (h : s.Read j) :
    ∀ j' ∈ s.saves, j'.id = j.id → j'.action = j.action := by
  obtain ⟨j1, hj1, hid1, haction1, -⟩ := h
  exact fun j' hj' hid' => (hs.actions j' hj' j1 hj1 (hid'.trans hid1.symm)).trans haction1

theorem JobsInv.issued_of_read {j : Job} (hs : JobsInv ex s) (h : s.Read j) :
    s.issued j.id ≠ none := by
  obtain ⟨j', hj', hid', -⟩ := h
  exact hid' ▸ hs.issued j' hj'

/-- The save of an ended job that was read. -/
theorem JobsInv.save_ended {j : Job} (hs : JobsInv ex s) (h : s.Read j)
    (hend : j.state.terminal = true) :
    JobsStep ex i s (s.saved j) ∧ JobsRely ex i s (s.saved j) := by
  have hrely : ∀ k, JobsRely ex k s (s.saved j) := fun k =>
    .saved (fun _ => h.saved) fun _ _ _ => h.begun
  exact ⟨⟨hs.saved (hs.issued_of_read h) (hs.action_of_read h) fun _ => .inl hend, .same rfl rfl,
    fun k _ => hrely k⟩, hrely i⟩

/-- The first save of a new job. -/
theorem JobsInv.save_new {j : Job} (hs : JobsInv ex s) (hid : s.issued j.id = some i)
    (hnew : s.Unsaved j.id) (hstart : j.startedAt = none) : JobsStep ex i s (s.saved j) := by
  have hbegun : ∀ id, (s.saved j).Begun id → s.Begun id := by
    rintro id ⟨j1, hj1, hid1, hstart1⟩
    obtain rfl | hj1 := List.mem_cons.mp hj1
    · rw [hstart] at hstart1
      cases hstart1
    · exact ⟨j1, hj1, hid1, hstart1⟩
  refine ⟨hs.saved (by rw [hid]; nofun) (fun j' hj' hid' => absurd hid' (hnew j' hj')) fun hb => ?_,
    .same rfl rfl, fun k hk => ?_⟩
  · obtain ⟨j', hj', hid', -⟩ := hbegun j.id hb
    exact absurd hid' (hnew j' hj')
  · refine .saved (fun hk' => ?_) fun _ _ => hbegun
    rw [hid] at hk'
    cases hk'
    exact absurd rfl hk

/-! The index -/

theorem mem_insertScore {entry e : Nat × String} {index : List (Nat × String)}
    (h : e ∈ insertScore entry index) : e = entry ∨ e ∈ index ∧ e.2 ≠ entry.2 := by
  induction index with
  | nil => exact .inl (List.mem_singleton.mp h)
  | cons e1 index ih =>
    rw [insertScore] at h
    split at h
    · rcases ih h with rfl | hmem
      · exact .inl rfl
      · exact .inr ⟨List.mem_cons_of_mem e1 hmem.1, hmem.2⟩
    · rename_i hne
      split at h
      · obtain rfl | h := List.mem_cons.mp h
        · exact .inr ⟨List.mem_cons_self, hne⟩
        · rcases ih h with rfl | hmem
          · exact .inl rfl
          · exact .inr ⟨List.mem_cons_of_mem e1 hmem.1, hmem.2⟩
      · obtain rfl | h := List.mem_cons.mp h
        · exact .inl rfl
        · obtain rfl | h := List.mem_cons.mp h
          · exact .inr ⟨List.mem_cons_self, hne⟩
          · have hmem := List.mem_filter.mp h
            exact .inr ⟨List.mem_cons_of_mem e1 hmem.1, by simpa using hmem.2⟩

theorem nodup_insertScore {entry : Nat × String} {index : List (Nat × String)}
    (h : (index.map (·.2)).Nodup) : ((insertScore entry index).map (·.2)).Nodup := by
  induction index with
  | nil => simp [insertScore]
  | cons e1 index ih =>
    rw [List.map_cons, List.nodup_cons] at h
    rw [insertScore]
    split
    · exact ih h.2
    · rename_i hne
      split
      · rw [List.map_cons, List.nodup_cons]
        refine ⟨fun hmem => ?_, ih h.2⟩
        obtain ⟨e, he, hsame⟩ := List.mem_map.mp hmem
        rcases mem_insertScore he with rfl | ⟨he, -⟩
        · exact hne hsame.symm
        · exact h.1 (List.mem_map.mpr ⟨e, he, hsame⟩)
      · rw [List.map_cons, List.map_cons, List.nodup_cons, List.nodup_cons]
        refine ⟨fun hmem => ?_, fun hmem => ?_, ?_⟩
        · obtain hsame | hmem := List.mem_cons.mp hmem
          · exact hne hsame.symm
          · obtain ⟨e, he, hsame⟩ := List.mem_map.mp hmem
            have := (List.mem_filter.mp he).2
            exact absurd hsame (by simpa using this)
        · obtain ⟨e, he, hsame⟩ := List.mem_map.mp hmem
          exact h.1 (List.mem_map.mpr ⟨e, List.mem_of_mem_filter he, hsame⟩)
        · exact (List.filter_sublist.map _).nodup h.2

/-- The addition of a public job to the index. -/
theorem JobsInv.index {j : Job} (hs : JobsInv ex s) (score : Nat) (h : s.Read j)
    (hpublic : j.isPrivate = false) :
    JobsStep ex i s { s with index := insertScore (score, j.id) s.index } ∧
      JobsRely ex i s { s with index := insertScore (score, j.id) s.index } := by
  have hrely : ∀ k, JobsRely ex k s { s with index := insertScore (score, j.id) s.index } :=
    fun _ => ⟨rfl, rfl, fun _ _ h => h, fun _ h => h, fun _ _ h => h,
      fun _ _ => ⟨rfl, fun _ h => h⟩⟩
  refine ⟨⟨⟨hs.holder, hs.acting, hs.issued, hs.stored, hs.closed, hs.begun, hs.actions,
    fun e he => ?_, nodup_insertScore hs.distinct, hs.queued, hs.once⟩, .same rfl rfl, fun k _ => hrely k⟩,
    hrely i⟩
  rcases mem_insertScore he with rfl | ⟨he, -⟩
  · obtain ⟨j', hj', hid, haction, -⟩ := h
    refine ⟨j', hj', hid, ?_⟩
    rw [Job.isPrivate, haction]
    exact hpublic
  · exact hs.indexed e he

/-- The save with which a process at work begins a job. -/
theorem JobsInv.save_started {j read : Job} {token : String} (hs : JobsInv ex s)
    (hexcl : ex → LockExclusive s) (hheld : s.held i = some token) (hread : s.Read read)
    (hid : j.id = read.id) (haction : j.action = read.action)
    (hstart : j.startedAt.isSome = true) : JobsStep ex i s (s.saved j) := by
  refine ⟨hs.saved (hid ▸ hs.issued_of_read hread) (hid ▸ haction ▸ hs.action_of_read hread)
    fun _ => .inr hstart, .same rfl rfl, fun k hk => ?_⟩
  refine .saved (fun _ => hid ▸ hread.saved) fun hex hk' => ?_
  exact absurd (hexcl hex k i hk' (by rw [hheld]; nofun)) hk

/-- The call of an execution. -/
theorem JobsInv.start {p : Payload} {token : String} (hs : JobsInv ex s)
    (hexcl : ex → LockExclusive s) (hheld : s.held i = some token) (hbegun : s.Begun p.id)
    (hnew : ex → ∀ q ∈ s.started, q.id ≠ p.id) :
    JobsStep ex i s { s.doing i (some p) with started := p :: s.started } := by
  refine ⟨⟨hs.holder, fun k hk => ?_, hs.issued, hs.stored, hs.closed, fun q hq => ?_, hs.actions,
    hs.indexed, hs.distinct, hs.queued, ?_⟩, .same rfl rfl, fun k hk => ?_⟩
  · by_cases hki : k = i
    · subst hki
      show s.held k ≠ none
      rw [hheld]
      nofun
    · exact hs.acting k (by simpa [JobsState.doing, hki] using hk)
  · obtain rfl | hq := List.mem_cons.mp hq
    · exact hbegun
    · exact hs.begun q hq
  · intro hex
    rw [List.map_cons, List.nodup_cons]
    refine ⟨fun hmem => ?_, hs.once hex⟩
    obtain ⟨q, hq, hid⟩ := List.mem_map.mp hmem
    exact hnew hex q hq hid
  · refine ⟨rfl, by simp [JobsState.doing, hk], fun _ _ h => h, fun _ h => h, fun _ _ h => h,
      fun hex hk' => ?_⟩
    exact absurd (hexcl hex k i hk' (by rw [hheld]; nofun)) hk

/-- The end of an execution. -/
theorem JobsInv.finish (hs : JobsInv ex s) : JobsStep ex i s (s.doing i none) := by
  refine ⟨⟨hs.holder, fun k hk => ?_, hs.issued, hs.stored, hs.closed, hs.begun, hs.actions,
    hs.indexed, hs.distinct, hs.queued, hs.once⟩, .same rfl rfl, fun k hk => ?_⟩
  · by_cases hki : k = i
    · subst hki
      simp [JobsState.doing] at hk
    · exact hs.acting k (by simpa [JobsState.doing, hki] using hk)
  · exact ⟨rfl, by simp [JobsState.doing, hk], fun _ _ h => h, fun _ h => h, fun _ _ h => h,
      fun _ _ => ⟨rfl, fun _ h => h⟩⟩

/-- Nothing but the token with which process `i` is at work changes, and the key of the lock. -/
theorem JobsRely.holding {k : Nat} {lock : Option ExecLock} {token : Option String} (hk : k ≠ i) :
    JobsRely ex k s { s.holding i token with execlock := lock } :=
  ⟨by simp [JobsState.holding, hk], rfl, fun _ _ h => h, fun _ h => h, fun _ _ h => h,
    fun _ _ => ⟨rfl, fun _ h => h⟩⟩

theorem JobsInv.take {token : String} (hs : JobsInv ex s) (hmine : s.issued token = some i)
    (hfree : s.lockFree = true) : JobsStep ex i s ((s.locked token).holding i (some token)) := by
  refine ⟨⟨fun k token' hk => ?_, fun k hk => ?_, hs.issued, hs.stored, hs.closed, hs.begun,
    hs.actions, hs.indexed, hs.distinct, hs.queued, hs.once⟩, .taken token hfree rfl (.inr ⟨i, rfl⟩), fun k hk => .holding hk⟩
  · by_cases hki : k = i
    · subst hki
      obtain rfl : token = token' := by simpa [JobsState.holding] using hk
      exact hmine
    · exact hs.holder k token' (by simpa [JobsState.holding, JobsState.locked, hki] using hk)
  · by_cases hki : k = i
    · subst hki
      simp [JobsState.holding]
    · simpa [JobsState.holding, JobsState.locked, hki] using hs.acting k hk

/-- A key is set, and its setter told of a failure. -/
theorem JobsInv.lose {token : String} (hs : JobsInv ex s) (hfree : s.lockFree = true) :
    JobsStep ex i s (s.locked token) where
  inv := ⟨hs.holder, hs.acting, hs.issued, hs.stored, hs.closed, hs.begun, hs.actions, hs.indexed,
    hs.distinct, hs.queued, hs.once⟩
  lock := .taken token hfree rfl (.inl rfl)
  others _ _ := ⟨rfl, rfl, fun _ _ h => h, fun _ h => h, fun _ _ h => h,
    fun _ _ => ⟨rfl, fun _ h => h⟩⟩

/-- A process that executes nothing leaves the lock; it deletes the key only where it is its own. -/
theorem JobsInv.leave {lock : Option ExecLock} (hs : JobsInv ex s) (hidle : s.acting i = none)
    (hlock : lock = s.execlock ∨ s.lockToken = s.held i ∧ s.held i ≠ none) :
    JobsStep ex i s { s.holding i none with execlock := lock } := by
  refine ⟨⟨fun k token hk => ?_, fun k hk => ?_, hs.issued, hs.stored, hs.closed, hs.begun,
    hs.actions, hs.indexed, hs.distinct, hs.queued, hs.once⟩, .left i rfl ?_, fun k hk => .holding hk⟩
  · by_cases hki : k = i
    · subst hki
      simp [JobsState.holding] at hk
    · exact hs.holder k token (by simpa [JobsState.holding, hki] using hk)
  · by_cases hki : k = i
    · subst hki
      exact absurd hidle hk
    · simpa [JobsState.holding, hki] using hs.acting k hk
  · rcases hlock with rfl | hlock
    · exact .inl rfl
    · exact .inr hlock

theorem JobsInv.die (hs : JobsInv ex s) :
    JobsStep ex i s ((s.holding i none).doing i none) := by
  have hfinish := hs.finish (i := i)
  have hleave : JobsStep ex i (s.doing i none) ((s.holding i none).doing i none) :=
    hfinish.inv.leave (by simp [JobsState.doing]) (.inl rfl)
  exact ⟨hleave.inv, .left i rfl (.inl rfl), fun k hk =>
    JobsRely.trans k _ _ _ (hfinish.others k hk) (hleave.others k hk)⟩

end Steps

end Maco.Jobs
