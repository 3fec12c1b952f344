import Maco.Jobs.Slot

/-! Every operation of the service keeps to the slot.  Executions do not overlap as long as each
holder of the lock renews its key in time, and where the lock is exclusive no job is executed
twice. -/

namespace Maco.Jobs

open Concurrent

section Programs

variable {ex : Prop} {i : Nat} {s t : JobsState} {α : Type}

/-- The setting of process `i`. -/
abbrev slotSetting (ex : Prop) (i : Nat) : Setting JobCall JobCall.Reply JobChoice JobsState :=
  jobsSystem.setting (fun _ _ _ s => ex → LockExclusive s) (JobsInv ex) (JobsRely ex) LockStep i

abbrev slotKeeping (ex : Prop) (i : Nat) : Keeping (slotSetting ex i) :=
  jobsSystem.keeping (JobsRely.refl ex) JobsRely.trans i

/-- Process `i` keeps to what the others count on with each of its steps. -/
abbrev Reads (ex : Prop) (i : Nat) (p : Service α) (Q : α → JobsState → Prop) (s : JobsState) :
    Prop := (slotKeeping ex i).Keeps p Q s

/-- Process `i` is at work as before. -/
structure WorkOn (i : Nat) (s t : JobsState) : Prop where
  held : t.held i = s.held i
  acting : t.acting i = s.acting i
  saves : ∀ j ∈ s.saves, j ∈ t.saves

theorem JobsRely.workOn (h : JobsRely ex i s t) : WorkOn i s t := ⟨h.held, h.acting, h.saves⟩

abbrev workKeeping (ex : Prop) (i : Nat) : Keeping (slotSetting ex i) where
  Inv := JobsInv ex
  le := WorkOn i
  refl _ := ⟨rfl, rfl, fun _ h => h⟩
  trans _ _ _ h h' :=
    ⟨h'.held.trans h.held, h'.acting.trans h.acting, fun j hj => h'.saves j (h.saves j hj)⟩
  rely _ _ _ h := ⟨h.2, h.1.workOn⟩

/-- Process `i` may write records of its own. -/
abbrev Works (ex : Prop) (i : Nat) (p : Service α) (Q : α → JobsState → Prop) (s : JobsState) :
    Prop := (workKeeping ex i).Keeps p Q s

theorem Works.of_reads {p : Service α} {Q : α → JobsState → Prop} (h : Reads ex i p Q s) :
    Works ex i p (fun x t => JobsRely ex i s t ∧ Q x t) s :=
  Keeping.Keeps.coarsen h (fun _ => Iff.rfl) fun _ _ h => h.workOn

theorem reads_request {a : JobCall} {Q : a.Reply → JobsState → Prop}
    (h : ∀ s1, JobsRely ex i s s1 → JobsInv ex s1 → ∀ c r t,
      JobsState.perform i a c s1 = some (r, t) →
      JobsStep ex i s1 t ∧ JobsRely ex i s1 t ∧ Q r t) : Reads ex i (jobCall a) Q s :=
  .request fun s1 hst hs1 c r t _ hp =>
    have ht := h s1 hst hs1 c r t hp
    ⟨⟨ht.1.inv, ht.1.lock, ht.1.others⟩, ht.1.inv, ht.2⟩

theorem works_request {a : JobCall} {Q : a.Reply → JobsState → Prop}
    (h : ∀ s1, JobsRely ex i s s1 → JobsInv ex s1 → (ex → LockExclusive s1) → ∀ c r t,
      JobsState.perform i a c s1 = some (r, t) →
      JobsStep ex i s1 t ∧ WorkOn i s1 t ∧ Q r t) : Works ex i (jobCall a) Q s := by
  rintro - s1 ⟨hst, hs1⟩ c r t hexcl hp
  obtain ⟨hstep, hwork, hr⟩ := h s1 hst hs1 hexcl c r t hp
  exact ⟨⟨hstep.inv, hstep.lock, hstep.others⟩, hstep.inv,
    (workKeeping ex i).trans s s1 t hst.workOn hwork, hr⟩

theorem reads_plain {p : Service α} (h : p.Calls JobCall.Plain) :
    Reads ex i p (fun _ _ => True) s := by
  refine Keeping.Tolerates.keeps (fun a ha s c r t hs _ hp => ?_) h
  have hun : Untouched s t := JobsState.perform_plain hp ha
  have hstep := hun.step (i := i) hs
  exact ⟨⟨hstep.inv, hstep.lock, hstep.others⟩, hstep.inv, hun.rely i⟩

/-- Plain calls, which keep a fact that `rely` keeps. -/
theorem reads_keep {p : Service α} {P : JobsState → Prop} (h : p.Calls JobCall.Plain)
    (hP : ∀ t, JobsRely ex i s t → P t) : Reads ex i p (fun _ t => P t) s :=
  (reads_plain h).mono fun _ t hst _ => hP t hst

theorem works_keep {p : Service α} {P : JobsState → Prop} (h : p.Calls JobCall.Plain)
    (hP : ∀ t, JobsRely ex i s t → P t) : Works ex i p (fun _ t => P t) s :=
  (Works.of_reads (reads_keep h hP)).mono fun _ _ _ ht => ht.2

/-- A job in hand is honest: it was read, and for a process at work it shows where it began. -/
structure Fit (ex : Prop) (i : Nat) (j : Job) (s : JobsState) : Prop where
  read : s.Read j
  shows : ex → s.held i ≠ none → s.Begun j.id →
    j.state.terminal = true ∨ j.startedAt.isSome = true

theorem Fit.mono {j : Job} (h : Fit ex i j s) (hst : JobsRely ex i s t) : Fit ex i j t where
  read := h.read.mono hst.saves
  shows hex hheld hb := by
    have hheld' : s.held i ≠ none := by rwa [← hst.held]
    exact h.shows hex hheld' ((hst.locked hex hheld').2 j.id hb)

theorem reads_get (id : String) :
    Reads ex i (jobCall (.get id)) (fun r t => ∀ j, r = .ok j → j.id = id ∧ Fit ex i j t) s := by
  refine reads_request fun s1 _ hs1 c r t hp => ?_
  have hun := JobsState.perform_plain hp trivial
  refine ⟨hun.step hs1, hun.rely i, fun j hj => ?_⟩
  obtain ⟨rfl, hget⟩ := JobsState.get_cases hp
  obtain ⟨rfl, hmem⟩ := hs1.stored id j (hget j hj)
  exact ⟨rfl, ⟨j, hmem, rfl, rfl, rfl⟩, fun _ _ hb => hs1.closed j.id j (hget j hj) hb⟩

theorem reads_mget (ids : List String) :
    Reads ex i (jobCall (.mget ids))
      (fun r t => ∀ values, r = .ok values → ∀ j, some j ∈ values → t.Read j) s := by
  refine reads_request fun s1 _ hs1 c r t hp => ?_
  have hun := JobsState.perform_plain hp trivial
  refine ⟨hun.step hs1, hun.rely i, ?_⟩
  rintro values rfl j hj
  obtain ⟨rfl, hr | ⟨e, hr⟩⟩ := JobChoice.query_cases hp
  · cases hr
    obtain ⟨id, -, hid⟩ := List.mem_map.mp hj
    exact ⟨j, (hs1.stored id j hid).2, rfl, rfl, rfl⟩
  · cases hr

theorem reads_save_ended {j : Job} {was : Option State} (h : s.Read j)
    (hend : j.state.terminal = true) :
    Reads ex i (jobCall (.save j was)) (fun _ _ => True) s := by
  refine reads_request fun s1 hst hs1 c r t hp => ?_
  obtain rfl | ⟨rfl, -⟩ := JobsState.save_cases hp
  · obtain ⟨hstep, hrely⟩ := hs1.save_ended (i := i) (h.mono hst.saves) hend
    exact ⟨hstep, hrely, trivial⟩
  · exact ⟨(Untouched.refl t).step hs1, .refl ex i t, trivial⟩

theorem reads_withLogs {id : String} {j : Job} (h : Fit ex i j s) :
    Reads ex i (withLogs id j) (fun r t => ∀ j', r = .ok j' → j'.id = j.id ∧ Fit ex i j' t) s := by
  refine .bind (reads_keep (plain_jobCall trivial) fun t hst => h.mono hst) fun r t _ ht => ?_
  cases r with
  | error e => exact .pure nofun
  | ok logs =>
    refine .pure fun j' hj' => ?_
    cases hj'
    exact ⟨rfl, ht.read, ht.shows⟩

theorem reads_failArchived {id lastErr : String} {j : Job} (h : s.Read j) :
    Reads ex i (failArchived id j lastErr)
      (fun r t => ∀ j', r = .ok j' → j'.id = j.id ∧ Fit ex i j' t) s := by
  refine .bind (reads_plain (plain_appendLog _ _)) fun r t hst _ => ?_
  cases r with
  | error e => exact .pure nofun
  | ok _ =>
    refine .bind (reads_plain (plain_jobCall trivial)) fun now u htu _ => ?_
    have hread : u.Read j := h.mono fun j hj => htu.saves j (hst.saves j hj)
    refine .bind (reads_save_ended (by exact hread) rfl) fun r v huv _ => ?_
    cases r with
    | error e => exact .pure nofun
    | ok _ => exact reads_withLogs ⟨hread.mono huv.saves, fun _ _ _ => .inl rfl⟩

theorem reads_getJob (id : String) :
    Reads ex i (getJob id) (fun r t => ∀ j, r = .ok j → j.id = id ∧ Fit ex i j t) s := by
  refine .bind (reads_get id) fun r t _ ht => ?_
  cases r with
  | error e => exact .pure nofun
  | ok stored =>
    obtain ⟨hid, hfit⟩ := ht stored rfl
    have hfit' : Fit ex i { stored with label := labelOf stored.action } t := ⟨hfit.read, hfit.shows⟩
    have hlogs : ∀ u, JobsRely ex i t u →
        Reads ex i (withLogs id { stored with label := labelOf stored.action })
          (fun r t => ∀ j, r = .ok j → j.id = id ∧ Fit ex i j t) u := fun u htu =>
      (reads_withLogs (hfit'.mono htu)).mono fun r v _ hr j hj =>
        ⟨(hr j hj).1.trans hid, (hr j hj).2⟩
    show Reads ex i (if stored.state.terminal = true then _ else _) _ _
    split
    · exact hlogs t (.refl ex i t)
    · refine .bind (reads_plain (plain_jobCall trivial)) fun r u htu _ => ?_
      cases r with
      | error e => exact hlogs u htu
      | ok info =>
        show Reads ex i (if info.state = .archived then _ else _) _ _
        split
        · exact (reads_failArchived (hfit'.mono htu).read).mono fun r v _ hr j hj =>
            ⟨(hr j hj).1.trans hid, (hr j hj).2⟩
        · exact hlogs u htu

theorem reads_reconcileJob {job : Job} (h : s.Read job) :
    Reads ex i (reconcileJob job) (fun _ _ => True) s := by
  unfold reconcileJob
  split
  · exact .pure trivial
  · have failOrphan : ∀ u lastErr, JobsRely ex i s u →
        Reads ex i (failOrphan job lastErr) (fun _ _ => True) u := by
      intro u lastErr hsu
      refine .bind (reads_plain (plain_jobCall trivial)) fun now v huv _ => ?_
      refine .bind (reads_plain (plain_appendLog _ _)) fun r w hvw _ => ?_
      have hread : w.Read job :=
        h.mono fun j hj => hvw.saves j (huv.saves j (hsu.saves j hj))
      exact .bind (reads_save_ended hread rfl) fun _ _ _ _ => .pure trivial
    refine .bind (reads_plain (plain_jobCall trivial)) fun now t hst _ => ?_
    show Reads ex i (if now < job.createdAt + minute then _ else _) _ _
    split
    · exact .pure trivial
    · refine .bind (reads_plain (plain_jobCall trivial)) fun r u htu _ => ?_
      have hsu := JobsRely.trans i s t u hst htu
      cases r with
      | error e =>
        cases e with
        | other text => exact .pure trivial
        | taskNotFound => exact failOrphan u _ hsu
        | queueNotFound => exact failOrphan u _ hsu
      | ok info =>
        show Reads ex i (if info.state = .archived then _ else _) _ _
        split
        · exact failOrphan u _ hsu
        · exact .pure trivial

theorem reads_reconcileValues {values : List (Option Job)} (h : ∀ j, some j ∈ values → s.Read j) :
    Reads ex i (reconcileValues values) (fun _ _ => True) s := by
  induction values generalizing s with
  | nil => exact .pure trivial
  | cons value values ih =>
    have hrest : ∀ t, JobsRely ex i s t → ∀ j, some j ∈ values → t.Read j := fun t hst j hj =>
      (h j (List.mem_cons_of_mem _ hj)).mono hst.saves
    cases value with
    | none => exact ih (hrest s (.refl ex i s))
    | some job =>
      exact .bind (reads_reconcileJob (h job List.mem_cons_self)) fun _ t hst _ => ih (hrest t hst)

theorem reads_reconcileOrphans : Reads ex i reconcileOrphans (fun _ _ => True) s := by
  have reconcileSlices : ∀ rest s, Reads ex i (reconcileSlices rest) (fun _ _ => True) s := by
    intro rest
    induction rest with
    | nil => exact fun s => .pure trivial
    | cons ids rest ih =>
      refine fun s => .bind (reads_mget ids) fun r t _ ht => ?_
      cases r with
      | error e => exact .pure trivial
      | ok values => exact .bind (reads_reconcileValues (ht values rfl)) fun _ u _ _ => ih u
  refine .bind (reads_plain (plain_jobCall trivial)) fun r t _ _ => ?_
  cases r with
  | error e => exact .pure trivial
  | ok ids => exact reconcileSlices _ t

theorem reads_refreshAll (rules : TextRules) (options : PageOptions) (values : List (Option Job))
    (found : List Job) : Reads ex i (refreshAll rules options values found) (fun _ _ => True) s := by
  induction values generalizing s found with
  | nil => exact .pure trivial
  | cons value values ih =>
    cases value with
    | none => exact ih found
    | some job =>
      refine .bind (P := fun _ _ => True) ?_ fun job t _ _ => ih _
      unfold refresh
      split
      · exact .pure trivial
      · refine .bind (reads_getJob job.id) fun r t _ _ => ?_
        cases r with
        | error e => exact .pure trivial
        | ok refreshed => exact .pure trivial

theorem reads_publicPage (rules : TextRules) (options : PageOptions) :
    Reads ex i (publicPage rules options) (fun _ _ => True) s := by
  have publicSlices : ∀ rest found s,
      Reads ex i (publicSlices rules options rest found) (fun _ _ => True) s := by
    intro rest
    induction rest with
    | nil => exact fun found s => .pure trivial
    | cons ids rest ih =>
      refine fun found s => .bind (reads_plain (plain_jobCall trivial)) fun r t _ _ => ?_
      cases r with
      | error e => exact .pure trivial
      | ok values => exact .bind (reads_refreshAll _ _ _ _) fun found u _ _ => ih found u
  unfold publicPage
  split
  · exact .pure trivial
  · refine .bind (reads_plain (plain_jobCall trivial)) fun r t _ _ => ?_
    cases r with
    | error e => exact .pure trivial
    | ok ids => exact publicSlices _ _ t

theorem reads_fetchBatch (batch : List String) (fetched : Fetched) :
    Reads ex i (fetchBatch batch fetched) (fun _ _ => True) s := by
  induction batch generalizing s fetched with
  | nil => exact .pure trivial
  | cons id batch ih =>
    refine .bind (reads_getJob id) fun r t _ _ => ?_
    cases r with
    | error e => exact .pure trivial
    | ok job =>
      show Reads ex i (if job.isPrivate = true then _ else _) _ _
      split
      · exact ih fetched
      · show Reads ex i (if (fetched.add id job).ids.length = 200 then _ else _) _ _
        split
        · exact .pure trivial
        · exact ih _

theorem reads_fetchIndex (rounds offset : Nat) (fetched : Fetched) :
    Reads ex i (fetchIndex rounds offset fetched) (fun _ _ => True) s := by
  induction rounds generalizing s offset fetched with
  | zero => exact reads_plain ⟨trivial, nofun⟩
  | succ rounds ih =>
    unfold fetchIndex
    split
    · exact .pure trivial
    · refine .bind (reads_plain (plain_jobCall trivial)) fun r t _ _ => ?_
      cases r with
      | error e => exact .pure trivial
      | ok batch =>
        refine .bind (reads_fetchBatch batch fetched) fun r u _ _ => ?_
        cases r with
        | error e => exact .pure trivial
        | ok fetched =>
          show Reads ex i (if batch.length < 200 then _ else _) _ _
          split
          · exact .pure trivial
          · exact ih _ _

theorem reads_fetchRest (fetched : Fetched) (ids : List String) (list : List Job) :
    Reads ex i (fetchRest fetched ids list) (fun _ _ => True) s := by
  induction ids generalizing s list with
  | nil => exact .pure trivial
  | cons id ids ih =>
    unfold fetchRest
    split
    · exact ih _
    · refine .bind (reads_getJob id) fun r t _ _ => ?_
      cases r with
      | error e => exact .pure trivial
      | ok job =>
        show Reads ex i (if job.isPrivate = true then _ else _) _ _
        split
        · exact ih _
        · exact ih _

theorem reads_publicList (rounds : Nat) :
    Reads ex i (publicList rounds) (fun _ _ => True) s := by
  refine .bind (reads_fetchIndex _ _ _) fun r t _ _ => ?_
  cases r with
  | error e => exact .pure trivial
  | ok fetched =>
    refine .bind (reads_plain (plain_includeActive _ _)) fun r u _ _ => ?_
    cases r with
    | error e => exact .pure trivial
    | ok ids => exact reads_fetchRest _ _ _

/-! ### Operations that write records of their own -/

/-- A new id, of which no record has been saved. -/
structure Own (i : Nat) (id : String) (s : JobsState) : Prop where
  issued : s.issued id = some i
  unsaved : s.Unsaved id

theorem Own.mono {id : String} (h : Own i id s) (hst : JobsRely ex i s t) : Own i id t :=
  ⟨hst.issued id i h.issued, hst.unsaved id h.issued h.unsaved⟩

theorem works_newString :
    Works ex i (jobCall .newString) (fun id t => Own i id t) s := by
  refine works_request fun s1 _ hs1 _ c id t hp => ?_
  have hun := JobsState.perform_plain hp trivial
  have hrely : JobsRely ex i s1 t := hun.rely i
  refine ⟨hun.step hs1, hrely.workOn, ?_⟩
  obtain ⟨hfree, rfl⟩ := JobsState.newString_cases hp
  refine ⟨by simp, fun j hj hid => ?_⟩
  exact hs1.issued j hj (hid ▸ hfree)

theorem works_save_new {j : Job} (h : Own i j.id s) (hstart : j.startedAt = none) :
    Works ex i (jobCall (.save j none)) (fun r t => r = .ok () → t.Read j) s := by
  refine works_request fun s1 hst hs1 _ c r t hp => ?_
  obtain rfl | ⟨rfl, e, rfl⟩ := JobsState.save_cases hp
  · have hown := h.mono hst
    exact ⟨hs1.save_new hown.issued hown.unsaved hstart, ⟨rfl, rfl, s1.mem_saved j⟩,
      fun _ => ⟨j, List.mem_cons_self, rfl, rfl, rfl⟩⟩
  · exact ⟨(Untouched.refl t).step hs1, (JobsRely.refl ex i t).workOn, nofun⟩

theorem works_addToIndex {j : Job} (h : s.Read j) :
    Works ex i (addToIndex j) (fun _ _ => True) s := by
  unfold addToIndex
  split
  · exact .pure trivial
  · rename_i hpublic
    have hzadd : Reads ex i (jobCall (.zadd (j.createdAt / 1000000) j.id)) (fun _ _ => True) s := by
      refine reads_request fun s1 hst hs1 c r t hp => ?_
      obtain rfl | rfl := JobsState.zadd_cases hp
      · have hindex := hs1.index (i := i) (j.createdAt / 1000000) (h.mono hst.saves)
          (by simpa using hpublic)
        exact ⟨hindex.1, hindex.2, trivial⟩
      · exact ⟨(Untouched.refl t).step hs1, .refl ex i t, trivial⟩
    refine .bind (Works.of_reads hzadd) fun r t _ _ => ?_
    cases r with
    | error e => exact .pure trivial
    | ok _ =>
      refine .bind (Works.of_reads (reads_plain plain_trimHistory)) fun _ _ _ _ => ?_
      exact .pure trivial

theorem works_submit (payload : Payload) :
    Works ex i (submit payload) (fun _ _ => True) s := by
  refine .bind works_newString fun id t _ hown => ?_
  refine .bind (works_keep (plain_jobCall trivial) fun u htu => hown.mono htu)
    fun now u _ hown => ?_
  refine .bind (works_save_new hown rfl) fun r v _ hv => ?_
  cases r with
  | error e => exact .pure trivial
  | ok _ =>
    have hread := hv rfl
    refine .bind (works_addToIndex hread) fun r w hvw _ => ?_
    have hread := hread.mono hvw.saves
    cases r with
    | error e => exact .pure trivial
    | ok _ =>
      refine .bind (works_keep (plain_jobCall trivial) fun x hwx => hread.mono hwx.saves)
        fun r x _ hread => ?_
      cases r with
      | ok _ => exact .pure trivial
      | error e =>
        refine .bind (works_keep (plain_jobCall trivial) fun y hxy => hread.mono hxy.saves)
          fun now y _ hread => ?_
        exact .bind (Works.of_reads (reads_save_ended (by exact hread) rfl))
          fun _ _ _ _ => .pure trivial

/-- A process at work, with nothing under way, has begun a job that none has executed. -/
structure Ready (ex : Prop) (i : Nat) (id : String) (s : JobsState) : Prop where
  held : s.held i ≠ none
  idle : s.acting i = none
  begun : s.Begun id
  fresh : ex → ∀ p ∈ s.started, p.id ≠ id

theorem Ready.mono {id : String} (h : Ready ex i id s) (hst : JobsRely ex i s t) :
    Ready ex i id t where
  held := by rw [hst.held]; exact h.held
  idle := by rw [hst.acting]; exact h.idle
  begun := h.begun.mono hst.saves
  fresh hex p hp := h.fresh hex p ((hst.locked hex h.held).1 ▸ hp)

theorem works_save_started {j started : Job} {was : Option State} (h : Fit ex i j s)
    (hopen : j.state.terminal = false) (hnone : j.startedAt = none) (hheld : s.held i ≠ none)
    (hidle : s.acting i = none) (hid : started.id = j.id) (haction : started.action = j.action)
    (hstart : started.startedAt.isSome = true) :
    Works ex i (jobCall (.save started was))
      (fun r t => r = .ok () → Ready ex i j.id t ∧ t.Read started) s := by
  refine works_request fun s1 hst hs1 hexcl c r t hp => ?_
  obtain rfl | ⟨rfl, e, rfl⟩ := JobsState.save_cases hp
  · have hfit := h.mono hst
    have hheld1 : s1.held i ≠ none := by rw [hst.held]; exact hheld
    obtain ⟨token, htoken⟩ := Option.ne_none_iff_exists'.mp hheld1
    have hstep := hs1.save_started hexcl htoken hfit.read hid haction hstart
    refine ⟨hstep, ⟨rfl, rfl, s1.mem_saved started⟩, fun _ => ⟨⟨hheld1, ?_, ?_, ?_⟩, ?_⟩⟩
    · exact hst.acting.trans hidle
    · exact ⟨started, List.mem_cons_self, hid, hstart⟩
    · intro hex p hp hpid
      rcases hfit.shows hex hheld1 (hpid ▸ hs1.begun p hp) with hend | hbegun
      · rw [hopen] at hend
        cases hend
      · rw [hnone] at hbegun
        cases hbegun
    · exact ⟨started, List.mem_cons_self, rfl, rfl, rfl⟩
  · exact ⟨(Untouched.refl t).step hs1, (JobsRely.refl ex i t).workOn, nofun⟩

theorem works_execute {p : Payload} (h : Ready ex i p.id s) :
    Works ex i (execute p) (fun _ _ => True) s := by
  rintro - s1 ⟨hst, hs1⟩ c r t hexcl hp
  have hready := h.mono hst
  obtain ⟨token, htoken⟩ := Option.ne_none_iff_exists'.mp hready.held
  obtain rfl := JobsState.startAction_cases hp
  have hstart := hs1.start hexcl htoken hready.begun hready.fresh
  refine ⟨⟨hstart.inv, hstart.lock, hstart.others⟩, ?_⟩
  rintro s2 ⟨hst2, hs2⟩ c r t - hp
  obtain rfl := JobsState.finishAction_cases hp
  have hfinish := hs2.finish (i := i)
  refine ⟨⟨hfinish.inv, hfinish.lock, hfinish.others⟩, hfinish.inv, ⟨?_, ?_, ?_⟩, trivial⟩
  · exact hst2.held.trans hst.held
  · have hnone : s.acting i = none := h.idle
    simp [JobsState.doing, hnone]
  · exact fun j hj => hst2.saves j (hst.saves j hj)

theorem works_runJob (payload : Payload) (hheld : s.held i ≠ none) (hidle : s.acting i = none) :
    Works ex i (runJob payload) (fun _ _ => True) s := by
  refine .bind (Works.of_reads (reads_getJob payload.id)) fun r t hst ht => ?_
  cases r with
  | error e => exact .pure trivial
  | ok j =>
    obtain ⟨hid, hfit⟩ := ht.2 j rfl
    show Works ex i (if j.state.terminal = true then _ else _) _ _
    split
    · exact .pure trivial
    · rename_i hopen
      show Works ex i (if j.startedAt.isSome = true then _ else _) _ _
      split
      · exact .pure trivial
      · rename_i hnone
        refine .bind (works_keep (plain_jobCall trivial) fun u htu => hfit.mono htu)
          fun now u htu hfit => ?_
        have hheld' : u.held i ≠ none := by rw [htu.held, hst.held]; exact hheld
        have hidle' : u.acting i = none := by rw [htu.acting, hst.acting]; exact hidle
        refine .bind (works_save_started hfit (by simpa using hopen) (by simpa using hnone) hheld'
          hidle' rfl rfl rfl) fun r v huv hv => ?_
        cases r with
        | error e => exact .pure trivial
        | ok _ =>
          obtain ⟨hready, hread⟩ := hv rfl
          refine .bind (works_keep (plain_appendLog _ _) fun w hvw =>
            And.intro (hready.mono hvw) (hread.mono hvw.saves)) fun r w _ hw => ?_
          cases r with
          | error e => exact .pure trivial
          | ok _ =>
            refine .bind (works_execute (hid ▸ hw.1)) fun ran x hwx _ => ?_
            have hread := hw.2.mono hwx.saves
            refine .bind (works_keep (plain_jobCall trivial) fun y hxy => hread.mono hxy.saves)
              fun now y _ hread => ?_
            refine .bind (works_keep (plain_appendLog _ _) fun z hyz => hread.mono hyz.saves)
              fun r z _ hread => ?_
            cases r with
            | error e => exact .pure trivial
            | ok _ =>
              have hsave : ∀ ended : Job, z.Read ended → ended.state.terminal = true →
                  Works ex i (jobCall (.save ended (some State.running))) (fun _ _ => True) z :=
                fun ended hended hend =>
                  (Works.of_reads (reads_save_ended hended hend)).mono fun _ _ _ _ => trivial
              refine .bind (P := fun _ _ => True) ?_ fun r _ _ _ => ?_
              · obtain ⟨result, actionErr⟩ := ran
                cases actionErr with
                | none => exact hsave _ (by exact hread) rfl
                | some e => exact hsave _ (by exact hread) rfl
              · cases r with
                | error e => exact .pure trivial
                | ok _ => exact .pure trivial

/-! ### The lock -/

/-- Process `i` neither holds the lock nor executes anything. -/
structure Idle (i : Nat) (s : JobsState) : Prop where
  held : s.held i = none
  acting : s.acting i = none

theorem wp_acquireLock (hs : JobsInv ex s) (hidle : Idle i s) :
    wp (slotSetting ex i) acquireLock (fun r t => JobsInv ex t ∧ t.acting i = none ∧
      match r with
      | .ok token => t.held i = some token
      | .error _ => t.held i = none) s := by
  refine wp_seq (works_newString hs) ?_
  rintro token t ⟨ht, hst, hown⟩ t1 ⟨htt, ht1⟩ c r u hexcl hp
  have hidle1 : Idle i t1 :=
    ⟨htt.held.trans (hst.held.trans hidle.held), htt.acting.trans (hst.acting.trans hidle.acting)⟩
  obtain ⟨⟨e, rfl⟩, rfl | ⟨hfree, rfl⟩⟩ | ⟨rfl, hfree, rfl⟩ := JobsState.setNX_cases hp
  · have hstep := (Untouched.refl u).step (i := i) ht1
    exact ⟨⟨hstep.inv, hstep.lock, hstep.others⟩, ht1, hidle1.acting, hidle1.held⟩
  · have hstep : JobsStep ex i t1 (t1.locked token) := ht1.lose hfree
    exact ⟨⟨hstep.inv, hstep.lock, hstep.others⟩, hstep.inv, hidle1.acting, hidle1.held⟩
  · have hstep := ht1.take (hown.mono htt).issued hfree
    exact ⟨⟨hstep.inv, hstep.lock, hstep.others⟩, hstep.inv, hidle1.acting,
      by simp [JobsState.holding]⟩

theorem wp_releaseLock {token : String} (hheld : s.held i = some token)
    (hidle : s.acting i = none) :
    wp (slotSetting ex i) (jobCall (.releaseLock token)) (fun _ t => Idle i t) s := by
  rintro s1 ⟨hst, hs1⟩ c r t hexcl hp
  have hheld1 : s1.held i = some token := hst.held.trans hheld
  have hidle1 : s1.acting i = none := hst.acting.trans hidle
  obtain rfl | ⟨hmine, rfl⟩ := JobsState.releaseLock_cases hp
  · have hstep : JobsStep ex i s1 (s1.holding i none) := hs1.leave hidle1 (.inl rfl)
    exact ⟨⟨hstep.inv, hstep.lock, hstep.others⟩, by simp [JobsState.holding], hidle1⟩
  · have hstep : JobsStep ex i s1 { s1.holding i none with execlock := none } :=
      hs1.leave hidle1 (.inr ⟨hmine.trans hheld1.symm, by simp [hheld1]⟩)
    exact ⟨⟨hstep.inv, hstep.lock, hstep.others⟩, by simp [JobsState.holding], hidle1⟩

theorem wp_processTask (task : Except String Payload) (hs : JobsInv ex s) (hidle : Idle i s) :
    wp (slotSetting ex i) (processTask task) (fun _ t => Idle i t) s := by
  refine wp_seq (wp_acquireLock hs hidle) ?_
  rintro r t ⟨ht, hacting, hheld⟩
  cases r with
  | error e => exact ⟨hheld, hacting⟩
  | ok token =>
    have hheld' : t.held i = some token := hheld
    have hrun : Works ex i (runTask task) (fun _ _ => True) t := by
      cases task with
      | error e => exact .pure trivial
      | ok payload => exact works_runJob payload (by rw [hheld']; nofun) hacting
    refine wp_seq (hrun ht) ?_
    rintro result u ⟨hu, htu, -⟩
    refine wp_seq (wp_releaseLock (htu.held.trans hheld') (htu.acting.trans hacting)) ?_
    exact fun _ v hv => hv

theorem wp_codeOf (op : JobsOp) (hs : JobsInv ex s) (hidle : Idle i s) :
    wp (slotSetting ex i) (codeOf op) (fun _ t => Idle i t) s := by
  have kept : ∀ {β : Type} {p : Service β}, Works ex i p (fun _ _ => True) s →
      wp (slotSetting ex i) (p >>= fun _ => pure ()) (fun _ t => Idle i t) s := by
    intro β p hp
    refine wp_seq (hp hs) ?_
    rintro x t ⟨-, hst, -⟩
    exact ⟨hst.held.trans hidle.held, hst.acting.trans hidle.acting⟩
  have reads : ∀ {β : Type} {p : Service β}, Reads ex i p (fun _ _ => True) s →
      Works ex i p (fun _ _ => True) s := fun hp => (Works.of_reads hp).mono fun _ _ _ _ => trivial
  cases op with
  | submit payload => exact kept (works_submit payload)
  | processTask task => exact wp_seq (wp_processTask task hs hidle) fun _ _ h => h
  | get id => exact kept (reads ((reads_getJob id).mono fun _ _ _ _ => trivial))
  | publicPage rules options => exact kept (reads (reads_publicPage rules options))
  | publicList rounds => exact kept (reads (reads_publicList rounds))
  | reconcileOrphans =>
    exact wp_mono (reads reads_reconcileOrphans hs) fun _ t ht =>
      ⟨ht.2.1.held.trans hidle.held, ht.2.1.acting.trans hidle.acting⟩

end Programs

/-! ### Runs -/

theorem JobsInv.empty (ex : Prop) : JobsInv ex {} where
  holder _ _ h := by cases h
  acting _ h := absurd rfl h
  issued _ h := by cases h
  stored _ _ h := by cases h
  closed _ _ h := by cases h
  begun _ h := by cases h
  actions _ h := by cases h
  indexed _ h := by cases h
  distinct := List.nodup_nil
  queued _ h := absurd rfl h
  once _ := List.nodup_nil

def slotOutline (ex : Prop) : jobsSystem.Outline (fun _ _ _ s => ex → LockExclusive s) {} where
  Inv := JobsInv ex
  idle := Idle
  rely := JobsRely ex
  guar := LockStep
  refl := JobsRely.refl ex
  trans := JobsRely.trans
  stable _ _ _ h hst := ⟨hst.held.trans h.held, hst.acting.trans h.acting⟩
  init := ⟨.empty ex, fun _ => ⟨rfl, rfl⟩⟩
  code _ op _ hs hidle := wp_codeOf op hs hidle
  die i s hs := by
    have hstep := hs.die (i := i)
    exact ⟨hstep.inv, ⟨by simp [jobsSystem, JobsState.holding, JobsState.doing],
      by simp [jobsSystem, JobsState.doing]⟩, hstep.lock, hstep.others⟩
  env _ _ _ hs h := by
    have hun := JobsState.event_untouched h
    exact ⟨hun.inv hs, .same hun.held hun.lockToken, fun k => hun.rely k⟩

/-- The key of each process at work under the lock has yet to expire. -/
def RenewedInTime (s : JobsState) : Prop :=
  ∀ i lock, s.execlock = some lock → s.held i = some lock.token → s.clock < lock.expires

/-- At most one process executes an action. -/
def ActionsExclusive (s : JobsState) : Prop :=
  ∀ i k, s.acting i ≠ none → s.acting k ≠ none → i = k

/-- The key of the lock holds the token of every process at work under it. -/
def KeyHeld (s : JobsState) : Prop := ∀ i token, s.held i = some token → s.lockToken = some token

theorem KeyHeld.step {ex : Prop} {s t : JobsState} (hs : JobsInv ex s) (h : LockStep s t)
    (htime : RenewedInTime s) (hkey : KeyHeld s) : KeyHeld t := by
  cases h with
  | same held lockToken =>
    intro i token hi
    rw [lockToken]
    exact hkey i token (by rw [← held]; exact hi)
  | taken token free lockToken held =>
    have hnobody : ∀ i, s.held i = none := by
      intro i
      by_contra hi
      obtain ⟨token', htoken'⟩ := Option.ne_none_iff_exists'.mp hi
      obtain ⟨lock, hlock, rfl⟩ := Option.map_eq_some_iff.mp (hkey i token' htoken')
      have hlive := htime i lock hlock htoken'
      rw [JobsState.lockFree, hlock] at free
      have hexpired : lock.expires ≤ s.clock := by simpa using free
      exact absurd hlive (Nat.not_lt.mpr hexpired)
    intro i token' hi
    rcases held with held | ⟨k, held⟩
    · rw [held, hnobody i] at hi
      cases hi
    · rw [held] at hi
      by_cases hik : i = k
      · subst hik
        rw [lockToken]
        simpa using hi
      · rw [Function.update_of_ne hik, hnobody i] at hi
        cases hi
  | left k held lockToken =>
    intro i token hi
    rw [held] at hi
    by_cases hik : i = k
    · subst hik
      simp at hi
    · rw [Function.update_of_ne hik] at hi
      rcases lockToken with hsame | ⟨hmine, -⟩
      · rw [hsame]
        exact hkey i token hi
      · rw [hkey i token hi] at hmine
        have hi' := hs.holder i token hi
        rw [hs.holder k token hmine.symm] at hi'
        cases hi'
        exact absurd rfl hik

/-- As long as each holder of the lock renews its key before it expires, the lock is exclusive. -/
theorem lock_exclusive {g : Config JobCall JobCall.Reply JobsState Unit}
    (hpath : jobsSystem.Path (fun _ _ _ _ => True) RenewedInTime ⟨{}, fun _ => none⟩ g) :
    LockExclusive g.shared := by
  have hpath' : jobsSystem.Path (fun _ _ _ s => False → LockExclusive s) RenewedInTime
      ⟨{}, fun _ => none⟩ g := hpath.mono jobsSystem fun _ _ _ _ _ => False.elim
  have hinv := (slotOutline False).invariant (hpath'.reach jobsSystem .start)
  have hkey : KeyHeld g.shared := (slotOutline False).along .start hpath' (K := KeyHeld)
    (fun i token h => by cases h) fun s t hs hstep htime _ hkey => hkey.step hs hstep htime
  intro i k hi hk
  obtain ⟨a, ha⟩ := Option.ne_none_iff_exists'.mp hi
  obtain ⟨b, hb⟩ := Option.ne_none_iff_exists'.mp hk
  have hab : a = b := by
    have hkeyA := hkey i a ha
    rw [hkey k b hb] at hkeyA
    cases hkeyA
    rfl
  have hik := hinv.holder i a ha
  rw [hab, hinv.holder k b hb] at hik
  cases hik
  rfl

/-- As long as each holder of the lock renews its key before it expires, no two executions
overlap. -/
theorem actions_exclusive {g : Config JobCall JobCall.Reply JobsState Unit}
    (hpath : jobsSystem.Path (fun _ _ _ _ => True) RenewedInTime ⟨{}, fun _ => none⟩ g) :
    ActionsExclusive g.shared := by
  have hpath' : jobsSystem.Path (fun _ _ _ s => False → LockExclusive s) RenewedInTime
      ⟨{}, fun _ => none⟩ g := hpath.mono jobsSystem fun _ _ _ _ _ => False.elim
  have hinv := (slotOutline False).invariant (hpath'.reach jobsSystem .start)
  exact fun i k hi hk => lock_exclusive hpath i k (hinv.acting i hi) (hinv.acting k hk)

section TwoJobs

/-- A job is submitted by process 0. -/
def submitting (id : String) : List (Move JobChoice JobsOp JobsEvent) :=
  [.begin 0 (.submit { action := "vm.start", target := "v" }), .call 0 (.fresh id), .call 0 .ok,
    .call 0 .ok, .call 0 .ok, .call 0 .ok, .call 0 .ok, .finish 0, .env (.dequeue id)]

/-- Process `i` takes up a job, up to the call of its execution. -/
def executing (i : Nat) (id token : String) : List (Move JobChoice JobsOp JobsEvent) :=
  [.begin i (.processTask (.ok { id, action := "vm.start", target := "v" })),
    .call i (.fresh token), .call i .ok, .call i .ok, .call i .ok, .call i .ok, .call i .ok,
    .call i .ok, .call i .ok, .call i .ok, .call i .ok]

/-- The key, if any, has yet to expire. -/
def keyLive (s : JobsState) : Bool := s.execlock.all fun lock => s.clock < lock.expires

theorem renewedInTime_of_keyLive (s : JobsState) (h : keyLive s = true) : RenewedInTime s := by
  intro i lock hlock _
  simpa [keyLive, hlock] using h

/-- One job executes and another is submitted; its worker waits for the lock. -/
theorem actions_exclusive_waiting : ∃ g,
    jobsSystem.movesIn keyLive ⟨{}, fun _ => none⟩ (submitting "a" ++ executing 1 "a" "t" ++
      submitting "b" ++ (executing 2 "b" "u").take 2) = some g ∧
    g.shared.acting 1 ≠ none ∧ ActionsExclusive g.shared := by
  have hrun : ∃ g, jobsSystem.movesIn keyLive ⟨{}, fun _ => none⟩ (submitting "a" ++
      executing 1 "a" "t" ++ submitting "b" ++ (executing 2 "b" "u").take 2) = some g ∧
      g.shared.acting 1 ≠ none := ⟨_, rfl, nofun⟩
  obtain ⟨g, hg, hacting⟩ := hrun
  exact ⟨g, hg, hacting, actions_exclusive (jobsSystem.path_moves renewedInTime_of_keyLive hg)⟩

/-- The first worker does not renew its key within its time, and the second one takes the lock. -/
theorem actions_overlap : ∃ g,
    jobsSystem.moves ⟨{}, fun _ => none⟩ (submitting "a" ++ submitting "b" ++
      executing 1 "a" "t" ++ [.env (.tick lockTTL)] ++ executing 2 "b" "u") = some g ∧
    g.shared.acting 1 ≠ none ∧ g.shared.acting 2 ≠ none :=
  ⟨_, rfl, nofun, nofun⟩

theorem actions_not_exclusive :
    ¬ ∀ g : Config JobCall JobCall.Reply JobsState Unit,
      jobsSystem.Reach (fun _ _ _ _ => True) {} g → ActionsExclusive g.shared := by
  intro h
  obtain ⟨g, hg, h1, h2⟩ := actions_overlap
  exact absurd (h g (jobsSystem.reach_moves .start hg) 1 2 h1 h2) (by decide)

/-! ### Once -/

/-- The call of no execution. -/
def JobCall.NoStart (a : JobCall) : Prop := ∀ p, a ≠ .startAction p

/-- A delivery that reads its record as ended calls no execution. -/
theorem runTask_ended (payload : Payload) {stored : Job} (hend : stored.state.terminal = true) :
    ∃ next, runTask (.ok payload) = .call (.get payload.id) next ∧
      (next (.ok stored)).Calls JobCall.NoStart := by
  refine ⟨_, rfl, ?_⟩
  show Prog.Calls JobCall.NoStart (Prog.bind (if stored.state.terminal = true then _ else _) _)
  rw [if_pos hend]
  refine ⟨nofun, fun r => ?_⟩
  cases r with
  | error e => exact trivial
  | ok logs =>
    show Prog.Calls JobCall.NoStart (if stored.state.terminal = true then _ else _)
    rw [if_pos hend]
    exact trivial

/-- Where the lock is exclusive no job is executed twice, and the call of an execution finds that a
record of the job with a start time has been stored; a delivery that reads its record as ended calls
none. -/
theorem job_executed_once {g : Config JobCall JobCall.Reply JobsState Unit}
    (hpath : jobsSystem.Path (fun _ _ _ _ => True) LockExclusive ⟨{}, fun _ => none⟩ g) :
    (g.shared.started.map (·.id)).Nodup ∧
      (∀ i p next, g.procs i = some (.call (.startAction p) next) →
        ∃ j ∈ g.shared.saves, j.id = p.id ∧ j.startedAt.isSome = true) ∧
      ∀ payload (stored : Job), stored.state.terminal = true →
        ∃ next, runTask (.ok payload) = .call (.get payload.id) next ∧
          (next (.ok stored)).Calls JobCall.NoStart := by
  obtain ⟨hreach, hexcl⟩ : jobsSystem.Reach (fun _ _ _ s => True → LockExclusive s) {} g ∧
      LockExclusive g.shared := jobsSystem.reach_of_path (fun _ _ _ _ h _ => h) .start hpath
  refine ⟨((slotOutline True).invariant hreach).once trivial, fun i p next hp => ?_,
    fun payload stored hend => runTask_ended payload hend⟩
  -- The call is one of the moves, and it stores nothing.
  have hg' : jobsSystem.move g (.call i .ok) =
      some ⟨{ g.shared.doing i (some p) with started := p :: g.shared.started },
        Function.update g.procs i (some (next ()))⟩ := by
    rw [System.move, hp]
    rfl
  have hnext := (slotOutline True).invariant
    (.move (.call i .ok) hreach (fun _ _ _ _ => hexcl) hg')
  exact (hnext.begun p List.mem_cons_self).congr rfl

/-- A job executes, and a second delivery of its task waits for the lock. -/
theorem job_executed_once_redelivered : ∃ g,
    jobsSystem.movesIn keyLive ⟨{}, fun _ => none⟩
      (submitting "a" ++ executing 1 "a" "t" ++ (executing 2 "a" "u").take 2) = some g ∧
    g.shared.started.map (·.id) = ["a"] ∧ (g.shared.started.map (·.id)).Nodup := by
  have hrun : ∃ g, jobsSystem.movesIn keyLive ⟨{}, fun _ => none⟩
      (submitting "a" ++ executing 1 "a" "t" ++ (executing 2 "a" "u").take 2) = some g ∧
      g.shared.started.map (·.id) = ["a"] := ⟨_, rfl, rfl⟩
  obtain ⟨g, hg, hstarted⟩ := hrun
  have hpath := (jobsSystem.path_moves renewedInTime_of_keyLive hg).strengthen jobsSystem
    fun _ => lock_exclusive
  exact ⟨g, hg, hstarted, (job_executed_once hpath).1⟩

end TwoJobs

end Maco.Jobs
