import Maco.Jobs.Listing

/-! The stream that shows the jobs to a client: it subscribes to what the saves publish, reads a
snapshot job by job, and then forwards what has been published since, also what is older than the
snapshot.  Each save stores a record and publishes it in one transaction, so `saves` is what has
been published, the latest first. -/

namespace Maco.Jobs

open Concurrent

/-- What a stream writes to its client. -/
inductive StreamEvent where
  | snapshot (jobs : List Job)
  | update (job : Job)
  | invalidate (resources : List String)

/-- What the client shows. -/
structure JobsResource where
  data : List Job := []
  loading : Bool := true
  error : String := ""

/-- The resources that a job which has ended may have changed. -/
def changedResources (action : String) : List String :=
  if action.startsWith "network." || action.startsWith "vm.interface." then
    ["networks", "interfaces", "vms"]
  else ["vms", "disks", "storage", "usb"]

def sendStreamUpdate (generalized : Bool) (payload : Job) : List StreamEvent :=
  let job := { payload with label := labelOf payload.action }
  if job.isPrivate then
    if generalized && job.state = .succeeded then [.invalidate ["preview:" ++ job.target]] else []
  else
    .update job ::
      if generalized && job.state.terminal then [.invalidate (changedResources job.action)] else []

def applyEvent (current : JobsResource) : StreamEvent → JobsResource
  | .snapshot jobs => { data := jobs, loading := false }
  | .update job =>
    { data := job :: current.data.filter (·.id ≠ job.id), loading := false }
  | .invalidate _ => current

/-- A stream: what had been published when it subscribed, what it has forwarded since, and what its
client shows, from the snapshot on. -/
structure Stream where
  since : Option Nat := none
  forwarded : Nat := 0
  shown : Option JobsResource := none

/-- Runs of the job service with one stream.  The others move at any time, also while a process reads
the snapshot. -/
inductive Streaming (generalized : Bool) :
    Config JobCall JobCall.Reply JobsState Unit → Stream → Prop
  | start : Streaming generalized ⟨{}, fun _ => none⟩ {}
  | move {g g' : Config JobCall JobCall.Reply JobsState Unit} {stream : Stream}
      (m : Move JobChoice JobsOp JobsEvent) : Streaming generalized g stream →
      jobsSystem.move g m = some g' → Streaming generalized g' stream
  | subscribe {g : Config JobCall JobCall.Reply JobsState Unit} : Streaming generalized g {} →
      Streaming generalized g { since := some g.shared.saves.length }
  | snapshot {g g' : Config JobCall JobCall.Reply JobsState Unit} {since i rounds : Nat}
      {ss : List JobsState} {list : List Job} (before : JobsResource) :
      Streaming generalized g { since := some since } →
      jobsSystem.Completes i (fun _ => pure ()) (fun _ _ _ => True) (fun _ _ _ => True)
        (publicList rounds) g ss (.ok list) g' →
      Streaming generalized g'
        { since := some since, shown := some (applyEvent before (.snapshot list)) }
  | forward {g : Config JobCall JobCall.Reply JobsState Unit} {since n : Nat} {job : Job}
      {shown : JobsResource} : Streaming generalized g ⟨some since, n, some shown⟩ →
      g.shared.saves.reverse[since + n]? = some job →
      Streaming generalized g
        ⟨some since, n + 1, some ((sendStreamUpdate generalized job).foldl applyEvent shown)⟩

/-! ### Records and what was published -/

/-- The latest save of a job. -/
def latest (saves : List Job) (id : String) : Option Job := saves.find? (·.id = id)

theorem latest_cons_self (saves : List Job) (j : Job) : latest (j :: saves) j.id = some j := by
  simp [latest]

theorem latest_cons_ne (saves : List Job) {j : Job} {id : String} (h : j.id ≠ id) :
    latest (j :: saves) id = latest saves id := by
  simp [latest, h]

theorem latest_append_of_unsaved {new saves : List Job} {id : String} (h : ∀ j ∈ new, j.id ≠ id) :
    latest (new ++ saves) id = latest saves id := by
  have hnone : new.find? (·.id = id) = none := List.find?_eq_none.mpr fun j hj => by simpa using h j hj
  rw [latest, List.find?_append, hnone, Option.none_or, latest]

theorem mem_of_latest {saves : List Job} {id : String} {j : Job} (h : latest saves id = some j) :
    j ∈ saves ∧ j.id = id :=
  ⟨List.mem_of_find?_eq_some h, by simpa using List.find?_some h⟩

/-- A record that is there is the latest that was saved. -/
def JobsState.Latest (s : JobsState) : Prop :=
  ∀ id j, s.records id = some j → latest s.saves id = some j

/-- What has been published stays so. -/
def SavesGrow (s t : JobsState) : Prop := s.saves <:+ t.saves

theorem SavesGrow.trans (s t u : JobsState) (h : SavesGrow s t) (h' : SavesGrow t u) :
    SavesGrow s u := List.IsSuffix.trans h h'

theorem JobsState.Latest.of_records {s t : JobsState} (h : s.Latest) (hsaves : t.saves = s.saves)
    (hrecords : ∀ id, t.records id = none ∨ t.records id = s.records id) : t.Latest := by
  intro id j hj
  rw [hsaves]
  rcases hrecords id with hnone | hsame
  · rw [hnone] at hj
    contradiction
  · exact h id j (hsame.symm.trans hj)

theorem JobsState.Latest.saved {s : JobsState} (h : s.Latest) (j : Job) : (s.saved j).Latest := by
  intro id j' hj'
  have hrecords : (s.saved j).records id = if id = j.id then some j else s.records id :=
    Function.update_apply ..
  rw [hrecords] at hj'
  split at hj'
  · rename_i hid
    rw [hid, ← hj']
    exact latest_cons_self s.saves j
  · rename_i hid
    exact (latest_cons_ne s.saves (Ne.symm hid)).trans (h id j' hj')

theorem savesGrow_perform {i : Nat} {a : JobCall} {c : JobChoice} {s t : JobsState} {r : a.Reply}
    (h : JobsState.perform i a c s = some (r, t)) : SavesGrow s t := by
  obtain ⟨hsaves, -⟩ | ⟨j, was, -, rfl⟩ := JobsState.perform_saves h
  · rw [SavesGrow, hsaves]
  · exact List.suffix_cons j s.saves

theorem move_saves {g g' : Config JobCall JobCall.Reply JobsState Unit}
    {m : Move JobChoice JobsOp JobsEvent} (h : jobsSystem.move g m = some g') :
    SavesGrow g.shared g'.shared ∧ (g.shared.Latest → g'.shared.Latest) := by
  have hsame : ∀ {s : JobsState}, s.saves = g.shared.saves →
      (∀ id, s.records id = none ∨ s.records id = g.shared.records id) →
      SavesGrow g.shared s ∧ (g.shared.Latest → s.Latest) := fun hsaves hrecords =>
    ⟨by rw [SavesGrow, hsaves], fun hlatest => hlatest.of_records hsaves hrecords⟩
  rcases jobsSystem.move_cases h with hshared | ⟨i, a, c, r, -, hperf⟩ | ⟨i, -, hdie⟩ | ⟨e, -, henv⟩
  · rw [hshared]
    exact hsame rfl fun id => .inr rfl
  · refine ⟨savesGrow_perform hperf, fun hlatest => ?_⟩
    obtain ⟨hsaves, hrecords⟩ | ⟨j, was, -, ht⟩ := JobsState.perform_saves hperf
    · exact hlatest.of_records hsaves hrecords
    · rw [ht]
      exact hlatest.saved j
  · rw [hdie]
    exact hsame rfl fun id => .inr rfl
  · have hun := JobsState.event_untouched henv
    exact hsame hun.saves hun.records

theorem latest_of_reach {g : Config JobCall JobCall.Reply JobsState Unit}
    (hg : jobsSystem.Reach (fun _ _ _ _ => True) {} g) : g.shared.Latest := by
  induction hg with
  | start => exact fun id j hj => by contradiction
  | move m _ _ hmove ih => exact (move_saves hmove).2 ih

/-! ### The snapshot -/

/-- A job read while `base` had been published at first: one that has been saved, which is the latest
of `base` unless it has been saved since. -/
structure Shown (base : List Job) (s : JobsState) (x : Job) : Prop where
  saved : ∃ j ∈ s.saves, j.id = x.id ∧ j.action = x.action
  current : (∃ new, s.saves = new ++ base ∧ ∃ j ∈ new, j.id = x.id) ∨
    ∃ j, latest base x.id = some j ∧ x.outcome = j.outcome

theorem Shown.mono {base : List Job} {s t : JobsState} {x : Job} (h : Shown base s x)
    (hst : SavesGrow s t) : Shown base t x := by
  obtain ⟨more, hmore⟩ := hst
  constructor
  · obtain ⟨j, hj, hid⟩ := h.saved
    refine ⟨j, ?_, hid⟩
    rw [← hmore]
    exact List.mem_append_right _ hj
  · refine h.current.imp_left ?_
    rintro ⟨new, hnew, j, hj, hid⟩
    refine ⟨more ++ new, ?_, j, List.mem_append_right _ hj, hid⟩
    rw [← hmore, hnew, List.append_assoc]

/-- The label and the logs of a job play no part. -/
theorem Shown.congr {base : List Job} {s : JobsState} {x y : Job} (h : Shown base s x)
    (hid : y.id = x.id) (haction : y.action = x.action) (houtcome : y.outcome = x.outcome) :
    Shown base s y := by
  constructor
  · rw [hid, haction]
    exact h.saved
  · rw [hid, houtcome]
    exact h.current

/-- A record that is read. -/
theorem Shown.of_record {base : List Job} {s : JobsState} {id : String} {j : Job} (hs : s.Latest)
    (hbase : base <:+ s.saves) (hj : s.records id = some j) : Shown base s j := by
  have hlatest := hs id j hj
  obtain ⟨hmem, hid⟩ := mem_of_latest hlatest
  obtain ⟨new, hnew⟩ := hbase
  refine ⟨⟨j, hmem, rfl, rfl⟩, ?_⟩
  by_cases hsaved : ∃ j' ∈ new, j'.id = j.id
  · exact .inl ⟨new, hnew.symm, hsaved⟩
  · refine .inr ⟨j, ?_, rfl⟩
    rw [← hnew, latest_append_of_unsaved fun j' hj' h => hsaved ⟨j', hj', h.trans hid.symm⟩] at hlatest
    rw [hid]
    exact hlatest

section Snapshot

variable {i : Nat} {base : List Job} {s : JobsState} {α : Type}

abbrev watchKeeping (i : Nat) :
    Keeping (jobsSystem.during i (fun _ _ _ => True) JobsState.Latest SavesGrow) where
  Inv _ := True
  le := SavesGrow
  refl _ := List.suffix_rfl
  trans := SavesGrow.trans
  rely _ _ _ h := ⟨trivial, h⟩

/-- Process `i` reads while others save. -/
abbrev Watches (i : Nat) (p : Service α) (Q : α → JobsState → Prop) (s : JobsState) : Prop :=
  (watchKeeping i).Keeps p Q s

theorem watches_request {a : JobCall} {Q : a.Reply → JobsState → Prop}
    (h : ∀ s1, SavesGrow s s1 → s1.Latest → ∀ c r t, JobsState.perform i a c s1 = some (r, t) →
      SavesGrow s1 t → Q r t) : Watches i (jobCall a) Q s :=
  .request fun s1 hst _ c r t hc hp =>
    ⟨trivial, trivial, savesGrow_perform hp, h s1 hst hc.2 c r t hp (savesGrow_perform hp)⟩

theorem watches_any (p : Service α) : Watches i p (fun _ _ => True) s :=
  Keeping.Tolerates.keeps (P := fun _ => True)
    (fun _ _ _ _ _ _ _ _ hp => ⟨trivial, trivial, savesGrow_perform hp⟩) (Prog.Calls.any p)

/-- A job that is returned is shown. -/
def ReadsShown (base : List Job) (r : Except String Job) (t : JobsState) : Prop :=
  ∀ x, r = .ok x → Shown base t x

theorem watches_withLogs (id : String) {j : Job} (hj : Shown base s j) :
    Watches i (withLogs id j) (ReadsShown base) s := by
  refine .bind (watches_any (jobCall (.lrange id))) fun r t hst _ => ?_
  cases r with
  | error e => exact .pure nofun
  | ok logs =>
    refine .pure fun x hx => ?_
    cases hx
    exact (hj.mono hst).congr rfl rfl rfl

/-- The archived task's job is saved as failed before it is returned. -/
theorem watches_failArchived (id lastErr : String) (j : Job) (hbase : base <:+ s.saves) :
    Watches i (failArchived id j lastErr) (ReadsShown base) s := by
  refine .bind (watches_any (appendLog j.id ("Failed: " ++ lastErr))) fun r t hst _ => ?_
  cases r with
  | error e => exact .pure nofun
  | ok _ =>
    refine .bind (watches_any (jobCall .now)) fun now u htu _ => ?_
    have hbaseu : base <:+ u.saves := (hbase.trans hst).trans htu
    refine .bind (P := fun r v => r = .ok () → Shown base v
      { j with state := .failed, error := lastErr, finishedAt := some now }) ?_ fun r v huv hv => ?_
    · refine watches_request fun s1 hs1 _ c r v hp _ hr => ?_
      subst hr
      obtain rfl | ⟨-, e, he⟩ := JobsState.save_cases hp
      · obtain ⟨new, hnew⟩ := hbaseu.trans hs1
        refine ⟨⟨_, List.mem_cons_self, rfl, rfl⟩, .inl ⟨_ :: new, ?_, _, List.mem_cons_self, rfl⟩⟩
        rw [List.cons_append, hnew]
        rfl
      · contradiction
    · cases r with
      | error e => exact .pure nofun
      | ok _ => exact watches_withLogs id (hv rfl)

theorem watches_getJob (id : String) (hbase : base <:+ s.saves) :
    Watches i (getJob id) (ReadsShown base) s := by
  refine .bind (P := ReadsShown base) ?_ fun r t hst ht => ?_
  · refine watches_request fun s1 hs1 hlatest c r t hp _ x hx => ?_
    obtain ⟨rfl, hfound⟩ := JobsState.get_cases hp
    exact .of_record hlatest (hbase.trans hs1) (hfound x hx)
  · cases r with
    | error e => exact .pure nofun
    | ok stored =>
      have hj : Shown base t { stored with label := labelOf stored.action } :=
        (ht stored rfl).congr rfl rfl rfl
      show Watches i (if stored.state.terminal = true then _ else _) _ _
      split
      · exact watches_withLogs id hj
      · refine .bind (watches_any (jobCall (.taskInfo id))) fun r u htu _ => ?_
        cases r with
        | error e => exact watches_withLogs id (hj.mono htu)
        | ok info =>
          show Watches i (if info.state = .archived then _ else _) _ _
          split
          · exact watches_failArchived id info.lastErr _ ((hbase.trans hst).trans htu)
          · exact watches_withLogs id (hj.mono htu)

/-- The jobs are public and are shown. -/
def AllShown (base : List Job) (jobs : List Job) (t : JobsState) : Prop :=
  ∀ x ∈ jobs, Shown base t x ∧ x.isPrivate = false

theorem AllShown.mono {jobs : List Job} {t : JobsState} (h : AllShown base jobs s)
    (hst : SavesGrow s t) : AllShown base jobs t :=
  fun x hx => ⟨(h x hx).1.mono hst, (h x hx).2⟩

theorem watches_fetchBatch {batch : List String} {fetched : Fetched} (hbase : base <:+ s.saves)
    (h : AllShown base (fetched.jobs.map Prod.snd) s) :
    Watches i (fetchBatch batch fetched)
      (fun r t => ∀ f, r = .ok f → AllShown base (f.jobs.map Prod.snd) t) s := by
  induction batch generalizing s fetched with
  | nil =>
    refine .pure fun f hf => ?_
    cases hf
    exact h
  | cons id batch ih =>
    refine .bind (watches_getJob id hbase) fun r t hst ht => ?_
    cases r with
    | error e => exact .pure nofun
    | ok job =>
      show Watches i (if job.isPrivate = true then _ else _) _ _
      split
      · exact ih (hbase.trans hst) (h.mono hst)
      · rename_i hpublic
        have hadd : AllShown base ((fetched.add id job).jobs.map Prod.snd) t := by
          intro x hx
          rcases List.mem_cons.mp hx with rfl | hx
          · exact ⟨ht x rfl, by simpa using hpublic⟩
          · exact h.mono hst x hx
        show Watches i (if (fetched.add id job).ids.length = 200 then _ else _) _ _
        split
        · refine .pure fun f hf => ?_
          cases hf
          exact hadd
        · exact ih (hbase.trans hst) hadd

theorem watches_fetchIndex (rounds offset : Nat) {fetched : Fetched} (hbase : base <:+ s.saves)
    (h : AllShown base (fetched.jobs.map Prod.snd) s) :
    Watches i (fetchIndex rounds offset fetched)
      (fun r t => ∀ f, r = .ok f → AllShown base (f.jobs.map Prod.snd) t) s := by
  induction rounds generalizing s offset fetched with
  | zero =>
    intro _ s1 _ c r t _ hp
    cases c <;> cases hp
  | succ rounds ih =>
    show Watches i (if 200 ≤ fetched.ids.length then _ else _) _ _
    split
    · refine .pure fun f hf => ?_
      cases hf
      exact h
    · refine .bind (watches_any (jobCall (.zrevrange offset (offset + 199)))) fun r t hst _ => ?_
      cases r with
      | error e => exact .pure nofun
      | ok batch =>
        refine .bind (watches_fetchBatch (hbase.trans hst) (h.mono hst)) fun r u htu hu => ?_
        cases r with
        | error e => exact .pure nofun
        | ok fetched =>
          show Watches i (if batch.length < 200 then _ else _) _ _
          split
          · exact .pure hu
          · exact ih _ ((hbase.trans hst).trans htu) (hu fetched rfl)

theorem watches_fetchRest {fetched : Fetched} (ids : List String) {list : List Job}
    (hbase : base <:+ s.saves) (hfetched : AllShown base (fetched.jobs.map Prod.snd) s)
    (h : AllShown base list s) :
    Watches i (fetchRest fetched ids list)
      (fun r t => ∀ l, r = .ok l → AllShown base l t) s := by
  induction ids generalizing s list with
  | nil =>
    refine .pure fun l hl => ?_
    cases hl
    exact h
  | cons id ids ih =>
    have hadd : ∀ {job : Job} {t : JobsState}, AllShown base list t → Shown base t job →
        job.isPrivate = false → AllShown base (list ++ [{ job with logs := [] }]) t := by
      intro job t hlist hjob hpublic x hx
      rcases List.mem_append.mp hx with hx | hx
      · exact hlist x hx
      · rw [List.mem_singleton.mp hx]
        exact ⟨hjob.congr rfl rfl rfl, hpublic⟩
    unfold fetchRest
    split
    · rename_i job hjob
      obtain ⟨l1, l2, hsplit, -⟩ := List.lookup_eq_some_iff.mp hjob
      have hmem : job ∈ fetched.jobs.map Prod.snd :=
        List.mem_map.mpr ⟨(id, job), by simp [hsplit], rfl⟩
      exact ih hbase hfetched (hadd h (hfetched job hmem).1 (hfetched job hmem).2)
    · refine .bind (watches_getJob id hbase) fun r t hst ht => ?_
      cases r with
      | error e => exact .pure nofun
      | ok job =>
        show Watches i (if job.isPrivate = true then _ else _) _ _
        split
        · exact ih (hbase.trans hst) (hfetched.mono hst) (h.mono hst)
        · rename_i hpublic
          exact ih (hbase.trans hst) (hfetched.mono hst)
            (hadd (h.mono hst) (ht job rfl) (by simpa using hpublic))

theorem watches_publicList (rounds : Nat) (hbase : base <:+ s.saves) :
    Watches i (publicList rounds) (fun r t => ∀ l, r = .ok l → AllShown base l t) s := by
  refine .bind (watches_fetchIndex rounds 0 hbase fun x hx => ?_) fun r t hst ht => ?_
  · exact absurd hx List.not_mem_nil
  · cases r with
    | error e => exact .pure nofun
    | ok fetched =>
      refine .bind (watches_any (includeActive rounds fetched.ids)) fun r u htu _ => ?_
      cases r with
      | error e => exact .pure nofun
      | ok ids =>
        refine watches_fetchRest ids ((hbase.trans hst).trans htu)
          ((ht fetched rfl).mono htu) fun x hx => ?_
        exact absurd hx List.not_mem_nil

end Snapshot

/-- The jobs of a snapshot, among the saves of the others. -/
theorem publicList_shown {g g' : Config JobCall JobCall.Reply JobsState Unit} {i rounds : Nat}
    {ss : List JobsState} {list base : List Job}
    (hg : jobsSystem.Reach (fun _ _ _ _ => True) {} g)
    (hrun : jobsSystem.Completes i (fun _ => pure ()) (fun _ _ _ => True) (fun _ _ _ => True)
      (publicList rounds) g ss (.ok list) g') (hbase : base <:+ g.shared.saves) :
    SavesGrow g.shared g'.shared ∧ AllShown base list g'.shared := by
  have hend := hrun.returns (P := JobsState.Latest) hg (Prog.Calls.any _)
    (fun g1 hg1 _ => latest_of_reach hg1) (watchKeeping i).refl (watchKeeping i).trans
    (fun _ _ _ _ _ _ _ _ hm _ => (move_saves hm).1) (watches_publicList rounds hbase trivial)
  exact ⟨hend.2.1, hend.2.2 list rfl⟩

/-! ### The updates -/

/-- What an update does to the jobs that are shown. -/
theorem update_data (generalized : Bool) (job : Job) (shown : JobsResource) :
    ((sendStreamUpdate generalized job).foldl applyEvent shown).data =
      if job.isPrivate then shown.data
      else { job with label := labelOf job.action } :: shown.data.filter (·.id ≠ job.id) := by
  have hprivate : ({ job with label := labelOf job.action } : Job).isPrivate = job.isPrivate := rfl
  unfold sendStreamUpdate
  dsimp only
  rw [hprivate]
  cases job.isPrivate <;> simp only [Bool.false_eq_true, ↓reduceIte] <;> split <;> rfl

/-- Another job is shown as before when one more save has been forwarded. -/
theorem Shown.advance {base ahead : List Job} {s : JobsState} {x job : Job} (h : Shown base s x)
    (hsaves : s.saves = ahead ++ job :: base) (hne : x.id ≠ job.id) :
    Shown (job :: base) s x := by
  refine ⟨h.saved, ?_⟩
  rcases h.current with ⟨new, hnew, j, hj, hid⟩ | ⟨j, hj, houtcome⟩
  · have hsplit : new = ahead ++ [job] := by
      rw [hsaves, List.append_cons] at hnew
      exact (List.append_cancel_right hnew).symm
    rw [hsplit] at hj
    rcases List.mem_append.mp hj with hj | hj
    · exact .inl ⟨ahead, hsaves, j, hj, hid⟩
    · rw [List.mem_singleton.mp hj] at hid
      exact absurd hid.symm hne
  · exact .inr ⟨j, (latest_cons_ne base (Ne.symm hne)).trans hj, houtcome⟩

/-- The job of an update that has just been forwarded. -/
theorem Shown.updated {base ahead : List Job} {s : JobsState} {job : Job} (label : String)
    (hsaves : s.saves = ahead ++ job :: base) : Shown (job :: base) s { job with label } := by
  refine ⟨⟨job, ?_, rfl, rfl⟩, .inr ⟨job, latest_cons_self base job, rfl⟩⟩
  rw [hsaves]
  exact List.mem_append_right _ List.mem_cons_self

/-- One more save is forwarded.  A private one leaves the jobs that are shown, none of which it can
be a save of. -/
theorem AllShown.forward {base ahead : List Job} {s : JobsState} {job : Job} {shown : JobsResource}
    (generalized : Bool) (h : AllShown base shown.data s) (hsaves : s.saves = ahead ++ job :: base)
    (hactions : ∀ j ∈ s.saves, ∀ j' ∈ s.saves, j.id = j'.id → j.action = j'.action) :
    AllShown (job :: base) ((sendStreamUpdate generalized job).foldl applyEvent shown).data s := by
  rw [update_data]
  split
  · rename_i hprivate
    intro x hx
    obtain ⟨hshown, hpublic⟩ := h x hx
    refine ⟨hshown.advance hsaves fun hid => ?_, hpublic⟩
    obtain ⟨j, hj, hjid, hjaction⟩ := hshown.saved
    have hjob : job ∈ s.saves := by
      rw [hsaves]
      exact List.mem_append_right _ List.mem_cons_self
    have haction := hactions j hj job hjob (hjid.trans hid)
    rw [Job.isPrivate, ← hjaction, haction] at hpublic
    rw [Job.isPrivate, hpublic] at hprivate
    contradiction
  · rename_i hpublic
    intro x hx
    rcases List.mem_cons.mp hx with rfl | hx
    · exact ⟨.updated _ hsaves, by simpa [Job.isPrivate] using hpublic⟩
    · obtain ⟨hx, hne⟩ := List.mem_filter.mp hx
      exact ⟨(h x hx).1.advance hsaves (by simpa using hne), (h x hx).2⟩

theorem Streaming.reach {generalized : Bool} {g : Config JobCall JobCall.Reply JobsState Unit}
    {stream : Stream} (h : Streaming generalized g stream) :
    jobsSystem.Reach (fun _ _ _ _ => True) {} g := by
  induction h with
  | start => exact .start
  | move m _ hm ih =>
    refine .move m ih ?_ hm
    cases m with
    | call i c => exact fun _ _ _ => trivial
    | _ => exact trivial
  | subscribe _ ih => exact ih
  | snapshot before _ hrun ih => exact hrun.reach ih
  | forward _ _ ih => exact ih

/-- What the client shows is right as far as it has been forwarded, or is still to be updated. -/
theorem Streaming.shown {generalized : Bool} {g : Config JobCall JobCall.Reply JobsState Unit}
    {stream : Stream} (h : Streaming generalized g stream) {since : Nat}
    (hsince : stream.since = some since) :
    ∃ base, base <:+ g.shared.saves ∧ base.length = since + stream.forwarded ∧
      ∀ shown, stream.shown = some shown → AllShown base shown.data g.shared := by
  induction h with
  | start => contradiction
  | move m _ hm ih =>
    obtain ⟨base, hbase, hlength, hshown⟩ := ih hsince
    have hgrow := (move_saves hm).1
    exact ⟨base, hbase.trans hgrow, hlength, fun shown h => (hshown shown h).mono hgrow⟩
  | subscribe _ _ =>
    cases hsince
    exact ⟨_, List.suffix_rfl, rfl, nofun⟩
  | snapshot before hstream hrun ih =>
    cases hsince
    obtain ⟨base, hbase, hlength, -⟩ := ih rfl
    obtain ⟨hgrow, hall⟩ := publicList_shown hstream.reach hrun hbase
    refine ⟨base, hbase.trans hgrow, hlength, fun shown h => ?_⟩
    cases h
    exact hall
  | @forward g since' n job shown hstream hjob ih =>
    cases hsince
    obtain ⟨base, ⟨new, hnew⟩, hlength, hall⟩ := ih rfl
    have hlast : new.reverse[0]? = some job := by
      rw [← hnew, List.reverse_append, ← hlength, List.getElem?_append_right (by simp)] at hjob
      simpa using hjob
    obtain ⟨ahead, rfl⟩ : ∃ ahead, new = ahead ++ [job] := by
      cases hrev : new.reverse with
      | nil =>
        rw [hrev] at hlast
        contradiction
      | cons j rest =>
        rw [hrev] at hlast
        cases hlast
        exact ⟨rest.reverse, by rw [← List.reverse_cons, ← hrev, List.reverse_reverse]⟩
    have hsaves : g.shared.saves = ahead ++ job :: base := by
      rw [← hnew, List.append_assoc]
      rfl
    have hinv : JobsInv False g.shared :=
      (slotOutline False).invariant (hstream.reach.mono jobsSystem fun _ _ _ _ _ => False.elim)
    refine ⟨job :: base, ⟨ahead, hsaves.symm⟩, ?_, fun shown' h => ?_⟩
    · rw [List.length_cons, hlength]
      exact Nat.add_assoc ..
    · cases h
      exact (hall shown rfl).forward generalized hsaves hinv.actions

/-- Once every save since the subscription has been forwarded, every job that the client shows and
that is still stored has the state, the error and the result of its record. -/
theorem stream_converges {generalized : Bool} {g : Config JobCall JobCall.Reply JobsState Unit}
    {since n : Nat} {shown : JobsResource} {job stored : Job}
    (h : Streaming generalized g ⟨some since, n, some shown⟩)
    (hall : since + n = g.shared.saves.length) (hjob : job ∈ shown.data)
    (hstored : g.shared.records job.id = some stored) :
    job.state = stored.state ∧ job.error = stored.error ∧ job.result = stored.result := by
  obtain ⟨base, ⟨new, hnew⟩, hlength, hshown⟩ := h.shown rfl
  -- Nothing is left to be forwarded.
  have hempty : new = [] := by
    have := congrArg List.length hnew
    rw [List.length_append] at this
    exact List.eq_nil_of_length_eq_zero (by simp only at hlength; omega)
  subst hempty
  rw [List.nil_append] at hnew
  have hlatest := latest_of_reach h.reach job.id stored hstored
  have hoccurs := (hshown shown rfl job hjob).1.current
  have houtcome : job.outcome = stored.outcome := by
    rcases hoccurs with ⟨new, hnew', j, hj, -⟩ | ⟨j, hj, houtcome⟩
    · rw [← hnew, List.self_eq_append_left] at hnew'
      rw [hnew'] at hj
      exact absurd hj List.not_mem_nil
    · rw [hnew, hlatest] at hj
      cases hj
      exact houtcome
  simp only [Job.outcome, Outcome.mk.injEq] at houtcome
  exact ⟨houtcome.1, houtcome.2.1, houtcome.2.2.1⟩

theorem Streaming.moves {generalized : Bool} {g g' : Config JobCall JobCall.Reply JobsState Unit}
    {stream : Stream} {ms : List (Move JobChoice JobsOp JobsEvent)}
    (h : Streaming generalized g stream) (hg : jobsSystem.moves g ms = some g') :
    Streaming generalized g' stream := by
  induction ms generalizing g with
  | nil =>
    obtain rfl : g = g' := by simpa [System.moves] using hg
    exact h
  | cons m ms ih =>
    rw [System.moves] at hg
    split at hg
    · rename_i g1 hm
      exact ih (.move m h hm) hg
    · contradiction

/-- A job that is submitted between the subscription and the snapshot, whose save is forwarded after
it. -/
theorem stream_converges_submitted : ∃ g shown stored, Streaming true g ⟨some 0, 1, some shown⟩ ∧
    waitingJob ∈ shown.data ∧ g.shared.records "a" = some stored ∧
    waitingJob.state = stored.state ∧ waitingJob.error = stored.error ∧
    waitingJob.result = stored.result := by
  have hrun : ∃ g g' ss, listingPublic = some g ∧
      jobsSystem.Completes 1 (fun _ => pure ()) (fun _ _ _ => True) (fun _ _ _ => True)
        (publicList 1) g ss (.ok [waitingJob]) g' ∧ g'.shared.saves = [waitingJob] ∧
      g'.shared.records "a" = some waitingJob := by
    refine ⟨_, _, _, rfl, .call (c := JobChoice.ok) rfl trivial rfl (.call (c := JobChoice.ok) rfl
      trivial rfl (.call (c := JobChoice.ok) rfl trivial rfl (.call (c := JobChoice.ok) rfl trivial
        rfl (.call (c := JobChoice.ok) rfl trivial rfl (.call (c := JobChoice.ok) rfl trivial rfl
          (.ret rfl)))))), ?_, ?_⟩
    · rfl
    · rfl
  obtain ⟨g, g', ss, hg, hcompletes, hsaves, hrecord⟩ := hrun
  have hstart : Streaming true g { since := some 0 } := (Streaming.subscribe .start).moves hg
  have hsnapshot := hstart.snapshot {} hcompletes
  have hforward := hsnapshot.forward (show g'.shared.saves.reverse[0 + 0]? = some waitingJob by
    rw [hsaves]
    rfl)
  have hall : (0 + 1 : Nat) = g'.shared.saves.length := by
    rw [hsaves]
    rfl
  have hjob := List.mem_cons_self (a := waitingJob) (l := [])
  exact ⟨g', _, _, hforward, hjob, hrecord, stream_converges hforward hall hjob hrecord⟩

end Maco.Jobs
