import Maco.Jobs.Exclusive
import Maco.Lib.Sorting
import Maco.Web.Pagination
import Mathlib.Data.Prod.Lex
import Mathlib.Data.String.Basic

/-! The pages of the job list, read one after the other while the history stays as it is.  A read
settles the jobs whose tasks asynq has archived, so the store is not the same after it; what it
shows is. -/

namespace Maco.Jobs

open Concurrent

/-! ### The order of a page -/

/-- The focus comes first, then the running, the pending and the ended jobs, in each case the newest
first, and jobs of one time by their ids. -/
def Precedes (focus : String) (a b : Job) : Prop :=
  b.id ≠ focus ∧ (a.id = focus ∨
    (stateRank a.state < stateRank b.state ∨ stateRank a.state = stateRank b.state ∧
      (b.createdAt < a.createdAt ∨ a.createdAt = b.createdAt ∧ a.id < b.id)))

/-- The place of a job in the order. -/
def pageKey (focus : String) (j : Job) : Nat ×ₗ Nat ×ₗ Natᵒᵈ ×ₗ String :=
  toLex (if j.id = focus then 0 else 1,
    toLex (stateRank j.state, toLex (OrderDual.toDual j.createdAt, j.id)))

theorem pageKey_lt_iff {focus : String} {a b : Job} (h : a.id ≠ b.id) :
    pageKey focus a < pageKey focus b ↔ Precedes focus a b := by
  simp only [pageKey, Precedes, Prod.Lex.toLex_lt_toLex, OrderDual.toDual_lt_toDual,
    EmbeddingLike.apply_eq_iff_eq]
  by_cases ha : a.id = focus
  · have hb : b.id ≠ focus := fun hb => h (ha.trans hb.symm)
    simp [ha, hb]
  · by_cases hb : b.id = focus
    · simp [ha, hb]
    · simp [ha, hb]

theorem beforeOnPage_iff {focus : String} {a b : Job} (h : a.id ≠ b.id) :
    beforeOnPage focus a b = true ↔ Precedes focus a b := by
  unfold beforeOnPage Precedes
  by_cases ha : a.id = focus
  · have hb : b.id ≠ focus := fun hb => h (ha.trans hb.symm)
    simp [ha, hb]
  · by_cases hb : b.id = focus
    · simp [ha, hb]
    · by_cases hrank : stateRank a.state = stateRank b.state
      · by_cases hcreated : a.createdAt = b.createdAt
        · simp [ha, hb, hrank, hcreated]
        · simp [ha, hb, hrank, hcreated]
      · simp [ha, hb, hrank]

/-- The jobs of a list in the order of a page. -/
def ordered (focus : String) (found : List Job) : List Job :=
  found.mergeSort fun a b => !beforeOnPage focus b a

theorem ordered_perm (focus : String) (found : List Job) : (ordered focus found).Perm found :=
  List.mergeSort_perm _ _

theorem pairwise_ordered {focus : String} {found : List Job}
    (h : found.Pairwise fun a b => a.id ≠ b.id) :
    (ordered focus found).Pairwise (Precedes focus) := by
  have hsorted : (ordered focus found).Pairwise fun a b =>
      decide (pageKey focus a ≤ pageKey focus b) := by
    refine Sorting.pairwise_mergeSort_of_agree ?_ ?_ (h.imp fun {a b} hab => ?_)
    · simp only [decide_eq_true_eq]
      exact fun a b c => le_trans
    · simp only [Bool.or_eq_true, decide_eq_true_eq]
      exact fun a b => le_total _ _
    · rw [Bool.eq_iff_iff, Bool.not_eq_true', decide_eq_true_eq, ← not_lt,
        pageKey_lt_iff hab.symm, ← beforeOnPage_iff hab.symm, Bool.not_eq_true]
  have hdistinct : (ordered focus found).Pairwise fun a b => a.id ≠ b.id :=
    (ordered_perm focus found).symm.pairwise h fun hab => hab.symm
  refine (hsorted.and hdistinct).imp fun {a b} hab => ?_
  rw [← pageKey_lt_iff hab.2]
  refine lt_of_le_of_ne (of_decide_eq_true hab.1) fun hkey => hab.2 ?_
  simpa [pageKey] using congrArg (fun k => (ofLex (ofLex (ofLex k).2).2).2) hkey

/-! ### What the store shows -/

/-- Every call succeeds. -/
def faultless (_ : JobCall) (c : JobChoice) (_ : JobsState) : Prop := c = .ok

/-- A job as a page lists it: under the present label of its action and without its log. -/
def Job.listed (j : Job) : Job := { j with label := labelOf j.action, logs := [] }

/-- asynq has archived the task of a job: the job has failed with the task's last error. -/
def JobsState.current (s : JobsState) (j : Job) : Job :=
  if j.state.terminal then j
  else
    match s.info j.id with
    | .ok info =>
      if info.state = .archived then
        { j with state := .failed, error := info.lastErr, finishedAt := some s.clock }
      else j
    | .error _ => j

/-- The job that the store shows under an id. -/
def JobsState.shown (s : JobsState) (id : String) : Option Job :=
  (s.records id).map fun j => (s.current j).listed

/-- The ids of the index, the newest first. -/
def JobsState.history (s : JobsState) : List String := (s.index.map (·.2)).reverse

/-- The jobs that the store shows and the options ask for. -/
def JobsState.found (s : JobsState) (rules : TextRules) (options : PageOptions) : List Job :=
  (s.history.filterMap s.shown).filter (matchesPage rules · options)

/-- Records are stored under their ids, and the index has each id once. -/
structure Keyed (s : JobsState) : Prop where
  stored : ∀ id j, s.records id = some j → j.id = id
  distinct : (s.index.map (·.2)).Nodup

/-- The job of an id has ended, or its task is not archived. -/
def JobsState.Settled (s : JobsState) (id : String) : Prop :=
  ∀ j, s.records id = some j → s.current j = j

/-- The second state shows what the first one does. -/
structure SameView (s t : JobsState) : Prop where
  keyed : Keyed t
  index : t.index = s.index
  clock : t.clock = s.clock
  info : ∀ id, t.info id = s.info id
  shown : ∀ id, t.shown id = s.shown id
  settled : ∀ id, s.Settled id → t.Settled id

theorem SameView.refl {s : JobsState} (hs : Keyed s) : SameView s s :=
  ⟨hs, rfl, rfl, fun _ => rfl, fun _ => rfl, fun _ h => h⟩

theorem SameView.trans {s t u : JobsState} (h : SameView s t) (h' : SameView t u) :
    SameView s u where
  keyed := h'.keyed
  index := h'.index.trans h.index
  clock := h'.clock.trans h.clock
  info id := (h'.info id).trans (h.info id)
  shown id := (h'.shown id).trans (h.shown id)
  settled id hid := h'.settled id (h.settled id hid)

theorem current_congr {s t : JobsState} {j : Job} (hclock : t.clock = s.clock)
    (hinfo : t.info j.id = s.info j.id) : t.current j = s.current j := by
  simp only [JobsState.current, hclock, hinfo]

section Reading

variable {α : Type} {i : Nat} {s s0 t : JobsState} {id : String} {j : Job}

theorem current_of_terminal (h : j.state.terminal = true) : s.current j = j := by
  rw [JobsState.current, if_pos h]

theorem settled_of_terminal (hj : s.records id = some j) (h : j.state.terminal = true) :
    s.Settled id := by
  intro j' hj'
  cases hj.symm.trans hj'
  exact current_of_terminal h

/-- A job that asynq gave up is saved as failed: the store shows what it did. -/
theorem SameView.settle {info : TaskInfo} {failed : Job} (logs : String → List LogLine)
    (hs : Keyed s) (hj : s.records id = some j) (hunended : j.state.terminal = false)
    (hinfo : s.info id = .ok info) (harchived : info.state = .archived)
    (hfailed : failed = { j with
      label := labelOf j.action, state := .failed, error := info.lastErr,
      finishedAt := some s.clock }) :
    SameView s ({ s with logs := logs }.saved failed) ∧
      ({ s with logs := logs }.saved failed).Settled id := by
  have hid : failed.id = id := by
    rw [hfailed]
    exact hs.stored id j hj
  have hended : failed.state.terminal = true := by
    rw [hfailed]
    rfl
  have hrecord : ({ s with logs := logs }.saved failed).records id = some failed := by
    rw [JobsState.saved, hid]
    exact Function.update_self _ _ _
  have hother : ∀ id', id' ≠ id →
      ({ s with logs := logs }.saved failed).records id' = s.records id' := fun id' hne => by
    rw [JobsState.saved, hid]
    exact Function.update_of_ne hne _ _
  have hcurrent : ∀ j', ({ s with logs := logs }.saved failed).current j' = s.current j' :=
    fun j' => current_congr rfl rfl
  have hsettled := settled_of_terminal hrecord hended
  refine ⟨⟨⟨fun id' j' hj' => ?_, hs.distinct⟩, rfl, rfl, fun _ => rfl, fun id' => ?_,
    fun id' hid' => ?_⟩, hsettled⟩
  · by_cases hsame : id' = id
    · subst hsame
      cases hrecord.symm.trans hj'
      exact hid
    · rw [hother id' hsame] at hj'
      exact hs.stored id' j' hj'
  · by_cases hsame : id' = id
    · subst hsame
      have hcur : s.current j =
          { j with state := .failed, error := info.lastErr, finishedAt := some s.clock } := by
        rw [JobsState.current, if_neg (by simp [hunended]), hs.stored id' j hj, hinfo]
        exact if_pos harchived
      rw [JobsState.shown, JobsState.shown, hrecord, hj, Option.map_some, Option.map_some,
        current_of_terminal hended, hcur, hfailed]
      rfl
    · rw [JobsState.shown, JobsState.shown, hother id' hsame]
      rfl
  · by_cases hsame : id' = id
    · exact hsame ▸ hsettled
    · intro j' hj'
      rw [hother id' hsame] at hj'
      rw [hcurrent, hid' j' hj']

variable (i) in
/-- The setting of a read that nothing disturbs. -/
abbrev reading : Setting JobCall JobCall.Reply JobChoice JobsState :=
  .alone (JobsState.perform i) faultless

theorem shows_withLogs :
    wp (reading i) (withLogs id j) (fun r t => t = s ∧ r = .ok { j with logs := s.logs id }) s := by
  refine wp_alone_call fun c r t hc hp => ?_
  cases hc
  cases hp
  exact ⟨rfl, rfl⟩

theorem shows_failArchived {label lastErr : String}
    {Q : Except String Job → JobsState → Prop}
    (h : ∀ logs' logs'', Q (.ok { j with
        label, state := .failed, error := lastErr, finishedAt := some s.clock, logs := logs'' })
      ({ s with logs := logs' }.saved { j with
        label, state := .failed, error := lastErr, finishedAt := some s.clock })) :
    wp (reading i) (failArchived id { j with label } lastErr) Q s := by
  refine wp_alone_call fun c now t hc hp => ?_
  cases hc
  cases hp
  refine wp_alone_call fun c r t hc hp => ?_
  cases hc
  cases hp
  refine wp_alone_call fun c now t hc hp => ?_
  cases hc
  cases hp
  refine wp_alone_call fun c r t hc hp => ?_
  cases hc
  cases hp
  refine wp_mono shows_withLogs ?_
  rintro r t ⟨rfl, rfl⟩
  exact h _ _

/-- What a read of one job comes to: the job as the store shows it, which is settled then. -/
def ShownAs (id : String) (s : JobsState) (job : Job) (t : JobsState) : Prop :=
  some job.listed = s.shown id ∧ SameView s t ∧ t.Settled id

theorem shownAs_of_current (hs : Keyed s) (hj : s.records id = some j) {job : Job}
    (hcurrent : s.current j = j) (hjob : job.listed = j.listed) : ShownAs id s job s := by
  refine ⟨?_, .refl hs, fun j' hj' => ?_⟩
  · rw [JobsState.shown, hj, Option.map_some, hcurrent, hjob]
  · cases hj.symm.trans hj'
    exact hcurrent

/-- `Get` of a stored job returns what the store shows. -/
theorem shows_getJob (hs : Keyed s) (hj : s.records id = some j) :
    wp (reading i) (getJob id) (fun r t => ∃ job, r = .ok job ∧ ShownAs id s job t) s := by
  have hid := hs.stored id j hj
  have hkept : s.current j = j →
      wp (reading i) (withLogs id { j with label := labelOf j.action })
        (fun r t => ∃ job, r = .ok job ∧ ShownAs id s job t) s := by
    intro hcurrent
    refine wp_mono shows_withLogs ?_
    rintro r t ⟨rfl, rfl⟩
    exact ⟨_, rfl, shownAs_of_current hs hj hcurrent rfl⟩
  refine wp_alone_call fun c r t hc hp => ?_
  cases hc
  simp only [JobsState.perform, hj] at hp
  cases hp
  show wp _ (if j.state.terminal then _ else _) _ s
  by_cases hended : j.state.terminal = true
  · rw [if_pos hended]
    exact hkept (current_of_terminal hended)
  · rw [if_neg hended]
    refine wp_alone_call fun c r t hc hp => ?_
    cases hc
    cases hp
    cases hinfo : s.info id with
    | error e =>
      refine hkept ?_
      rw [JobsState.current, if_neg hended, hid, hinfo]
    | ok info =>
      show wp _ (if info.state = .archived then _ else _) _ s
      split
      · rename_i harchived
        refine shows_failArchived fun logs' logs'' => ⟨_, rfl, ?_⟩
        obtain ⟨hview, hsettled⟩ := SameView.settle logs' hs hj
          (Bool.eq_false_iff.mpr hended) hinfo harchived rfl
        refine ⟨?_, hview, hsettled⟩
        rw [JobsState.shown, hj, Option.map_some, JobsState.current, if_neg hended, hid, hinfo]
        simp only [if_pos harchived]
        rfl
      · rename_i hkeep
        refine hkept ?_
        rw [JobsState.current, if_neg hended, hid, hinfo]
        exact if_neg hkeep

/-- A value of a slice that was read earlier, read again where it has not ended. -/
theorem shows_refresh (h0 : Keyed s0) (hview : SameView s0 s) (hj : s0.records id = some j) :
    wp (reading i) (refresh j) (fun job t => some job.listed = s0.shown id ∧ SameView s t ∧
      t.Settled id) s := by
  unfold refresh
  split
  · rename_i hended
    refine ⟨?_, .refl hview.keyed, hview.settled id (settled_of_terminal hj hended)⟩
    rw [JobsState.shown, hj, Option.map_some, current_of_terminal hended]
  · have hshown : (s.shown id).isSome = true := by
      rw [hview.shown, JobsState.shown, hj]
      rfl
    rw [JobsState.shown, Option.isSome_map] at hshown
    obtain ⟨j', hj'⟩ := Option.isSome_iff_exists.mp hshown
    rw [h0.stored id j hj]
    refine wp_seq (shows_getJob hview.keyed hj') ?_
    rintro r t ⟨job, rfl, hjob, ht, hsettled⟩
    exact ⟨hjob.trans (hview.shown id), ht, hsettled⟩

theorem matchesPage_listed (rules : TextRules) (options : PageOptions) (j : Job) :
    matchesPage rules j.listed options = matchesPage rules j options := rfl

variable {rules : TextRules} {options : PageOptions}

/-- The values of one slice add what the store shows under its ids. -/
theorem shows_refreshAll (h0 : Keyed s0) (ids : List String) (found : List Job)
    (hview : SameView s0 s) :
    wp (reading i) (refreshAll rules options (ids.map s0.records) found) (fun found' t =>
      found' = found ++ (ids.filterMap s0.shown).filter (matchesPage rules · options) ∧
      SameView s t ∧ ∀ id ∈ ids, t.Settled id) s := by
  induction ids generalizing found s with
  | nil => exact ⟨by simp, .refl hview.keyed, nofun⟩
  | cons id ids ih =>
    rw [List.map_cons]
    cases hj : s0.records id with
    | none =>
      have hshown : s0.shown id = none := by rw [JobsState.shown, hj, Option.map_none]
      have hsettled : s0.Settled id := fun j hj' => nomatch hj.symm.trans hj'
      refine wp_mono (ih found hview) ?_
      rintro found' t ⟨rfl, ht, hids⟩
      refine ⟨by rw [List.filterMap_cons, hshown], ht, fun id' hid' => ?_⟩
      obtain rfl | hid' := List.mem_cons.mp hid'
      · exact ht.settled _ (hview.settled _ hsettled)
      · exact hids id' hid'
    | some j =>
      refine wp_seq (shows_refresh h0 hview hj) ?_
      rintro job t ⟨hjob, ht, hsettled⟩
      refine wp_mono (ih _ (hview.trans ht)) ?_
      rintro found' u ⟨rfl, hu, hids⟩
      refine ⟨?_, ht.trans hu, fun id' hid' => ?_⟩
      · rw [List.filterMap_cons, ← hjob]
        have hmatch : matchesPage rules { job with label := labelOf job.action } options =
            matchesPage rules job.listed options := rfl
        rw [hmatch]
        show _ = found ++ (job.listed :: _).filter _
        rw [List.filter_cons]
        split
        · rw [List.append_assoc]
          rfl
        · rfl
      · obtain rfl | hid' := List.mem_cons.mp hid'
        · exact hu.settled _ hsettled
        · exact hids id' hid'

/-- The slices from some point on add what the store shows under their ids, and the page is cut from
all that has been found. -/
theorem shows_publicSlices (rest : List (List String)) (found : List Job)
    (hview : SameView s0 s) :
    wp (reading i) (publicSlices rules options rest found) (fun r t =>
      r = .ok (paged (found ++ (rest.flatten.filterMap s0.shown).filter
        (matchesPage rules · options)) options) ∧
      SameView s t ∧ ∀ id ∈ rest.flatten, t.Settled id) s := by
  induction rest generalizing found s with
  | nil => exact ⟨by simp, .refl hview.keyed, nofun⟩
  | cons ids rest ih =>
    refine wp_alone_call fun c r t hc hp => ?_
    cases hc
    cases hp
    have hshown : ids.filterMap s.shown = ids.filterMap s0.shown := by
      congr 1
      funext id
      exact hview.shown id
    show wp _ (refreshAll _ _ _ _ >>= _) _ s
    refine wp_seq (shows_refreshAll hview.keyed ids found (.refl hview.keyed)) ?_
    rintro found' t ⟨rfl, ht, hids⟩
    refine wp_mono (ih _ (hview.trans ht)) ?_
    rintro r u ⟨rfl, hu, hrest⟩
    refine ⟨?_, ht.trans hu, fun id hid => ?_⟩
    · rw [List.flatten_cons, List.filterMap_append, List.filter_append, hshown, List.append_assoc]
    · rw [List.flatten_cons] at hid
      obtain hid | hid := List.mem_append.mp hid
      · exact hu.settled id (hids id hid)
      · exact hrest id hid

theorem flatten_slices (l : List α) : (slices l).flatten = l :=
  Sorting.flatten_pieces_all (by omega)

theorem zslice_all (l : List String) : zslice 0 (-1) l = l := by
  simp only [zslice, if_neg (show ¬((0 : Int) < 0) by decide),
    if_pos (show (-1 : Int) < 0 by decide)]
  refine (List.take_of_length_le ?_).trans List.drop_zero
  simp only [List.length_drop]
  omega

/-- `PublicPage` with options that it accepts: a page of what the store shows, all of which is
settled then. -/
theorem shows_publicPage (hs : Keyed s) (hpage : 1 ≤ options.page) (hsize : 1 ≤ options.pageSize)
    (hmax : options.pageSize ≤ 100) :
    wp (reading i) (publicPage rules options) (fun r t =>
      r = .ok (paged (s.found rules options) options) ∧ SameView s t ∧
      ∀ id ∈ s.history, t.Settled id) s := by
  have hvalid : (options.page < 1 || options.pageSize < 1 || options.pageSize > 100) = false := by
    simp only [Bool.or_eq_false_iff, decide_eq_false_iff_not]
    omega
  unfold publicPage
  rw [if_neg (by rw [hvalid]; exact Bool.false_ne_true)]
  refine wp_alone_call fun c r t hc hp => ?_
  cases hc
  cases hp
  have hall : (slices (zslice 0 (-1) (s.index.map (·.2)).reverse)).flatten = s.history := by
    rw [flatten_slices, zslice_all]
    rfl
  refine wp_mono (shows_publicSlices _ [] (.refl hs)) ?_
  rintro r t ⟨rfl, ht, hsettled⟩
  rw [hall] at hsettled ⊢
  exact ⟨rfl, ht, hsettled⟩

/-! ### Pages that are read in turn -/

theorem SameView.found (h : SameView s t) : t.found rules options = s.found rules options := by
  have hshown : t.shown = s.shown := funext h.shown
  rw [JobsState.found, JobsState.history, h.index, hshown]
  rfl

/-- The state once more time has passed. -/
def JobsState.later (s : JobsState) (passed : Time) : JobsState :=
  { s with clock := s.clock + passed }

theorem current_later (passed : Time) (h : s.current j = j) : (s.later passed).current j = j := by
  unfold JobsState.current at h ⊢
  have hinfo : (s.later passed).info j.id = s.info j.id := rfl
  rw [hinfo]
  split
  · rfl
  · rename_i hended
    rw [if_neg hended] at h
    split
    · rename_i info hinfo
      rw [hinfo] at h
      simp only at h
      split
      · rename_i harchived
        rw [if_pos harchived] at h
        have hstate := congrArg (fun j : Job => j.state.terminal) h
        exact absurd hstate.symm hended
      · rfl
    · rfl

theorem Keyed.later (hs : Keyed s) (passed : Time) : Keyed (s.later passed) :=
  ⟨hs.stored, hs.distinct⟩

theorem settled_later {passed : Time} (h : s.Settled id) : (s.later passed).Settled id :=
  fun j hj => current_later passed (h j hj)

theorem found_later (passed : Time) (h : ∀ id ∈ s.history, s.Settled id) :
    (s.later passed).found rules options = s.found rules options := by
  have hshown : s.history.filterMap (s.later passed).shown = s.history.filterMap s.shown := by
    refine List.filterMap_congr fun id hid => ?_
    show ((s.records id).map fun j => ((s.later passed).current j).listed) = s.shown id
    rw [JobsState.shown]
    cases hj : s.records id with
    | none => rfl
    | some j =>
      have hcurrent := h id hid j hj
      rw [Option.map_some, Option.map_some, current_later passed hcurrent, hcurrent]
  rw [JobsState.found, JobsState.found, ← hshown]
  rfl

/-- Pages are asked for one after the other, by any processes; between them only time passes. -/
inductive PagesRead (rules : TextRules) :
    List PageOptions → JobsState → List (Except String Page) → JobsState → Prop
  | done {s : JobsState} : PagesRead rules [] s [] s
  | page {i : Nat} {options : PageOptions} {asked : List PageOptions} {s t u : JobsState}
      {r : Except String Page} {rs : List (Except String Page)} (passed : Time)
      (hread : (publicPage rules options).Runs (JobsState.perform i) faultless s r t)
      (hrest : PagesRead rules asked (t.later passed) rs u) :
      PagesRead rules (options :: asked) s (r :: rs) u

/-- `PublicPage` does not reject the options. -/
def PageOptions.Valid (options : PageOptions) : Prop :=
  1 ≤ options.page ∧ 1 ≤ options.pageSize ∧ options.pageSize ≤ 100

/-- Every page is cut from what the store showed before the first one was read. -/
theorem PagesRead.paged {asked : List PageOptions} {rs : List (Except String Page)}
    (h : PagesRead rules asked s rs t) (hs : Keyed s) (hvalid : ∀ options ∈ asked, options.Valid) :
    rs = asked.map fun options => .ok (paged (s.found rules options) options) := by
  induction h with
  | done => rfl
  | page passed hread hrest ih =>
    rename_i i options asked s t u r rs
    obtain ⟨hpage, hsize, hmax⟩ := hvalid options List.mem_cons_self
    obtain ⟨rfl, hview, hsettled⟩ :=
      wp_alone_runs (shows_publicPage hs hpage hsize hmax) hread
    have hhistory : t.history = s.history := by
      rw [JobsState.history, hview.index]
      rfl
    rw [← hhistory] at hsettled
    rw [ih (hview.keyed.later passed) fun options h => hvalid options (List.mem_cons_of_mem _ h),
      List.map_cons]
    congr 2
    funext options
    rw [found_later passed hsettled, hview.found]

/-! ### The reads come to an end -/

/-- The calls that can succeed in every state. -/
def JobCall.Succeeds : JobCall → Prop
  | .newString | .enqueue _ | .setNX _ | .releaseLock _ | .startAction _ | .finishAction _
  | .outOfRounds => False
  | _ => True

theorem JobCall.Succeeds.steps {a : JobCall} (ha : a.Succeeds) (s : JobsState) :
    ∃ c r t, faultless a c s ∧ JobsState.perform i a c s = some (r, t) := by
  cases a with
  | newString | enqueue p | setNX token | releaseLock token | startAction p | finishAction p
  | outOfRounds => exact ha.elim
  | get id =>
    cases hj : s.records id with
    | none => exact ⟨.ok, .error "redis: nil", s, rfl, by simp only [JobsState.perform, hj]⟩
    | some j => exact ⟨.ok, .ok j, s, rfl, by simp only [JobsState.perform, hj]⟩
  | _ => exact ⟨.ok, _, _, rfl, rfl⟩

theorem succeeds_jobCall {a : JobCall} (ha : a.Succeeds) : (jobCall a).Calls JobCall.Succeeds :=
  .request ha

theorem succeeds_withLogs (id : String) (j : Job) : (withLogs id j).Calls JobCall.Succeeds := by
  refine .bind (succeeds_jobCall trivial) fun r => ?_
  cases r with
  | error e => exact .pure _
  | ok logs => exact .pure _

theorem succeeds_failArchived (id lastErr : String) (j : Job) :
    (failArchived id j lastErr).Calls JobCall.Succeeds := by
  refine .bind (.bind (succeeds_jobCall trivial) fun _ => succeeds_jobCall trivial) fun r => ?_
  cases r with
  | error e => exact .pure _
  | ok _ =>
    refine .bind (succeeds_jobCall trivial) fun now => ?_
    refine .bind (succeeds_jobCall trivial) fun r => ?_
    cases r with
    | error e => exact .pure _
    | ok _ => exact succeeds_withLogs _ _

theorem succeeds_getJob (id : String) : (getJob id).Calls JobCall.Succeeds := by
  refine .bind (succeeds_jobCall trivial) fun r => ?_
  cases r with
  | error e => exact .pure _
  | ok stored =>
    show Prog.Calls JobCall.Succeeds (if stored.state.terminal = true then _ else _)
    split
    · exact succeeds_withLogs _ _
    · refine .bind (succeeds_jobCall trivial) fun r => ?_
      cases r with
      | error e => exact succeeds_withLogs _ _
      | ok info =>
        show Prog.Calls JobCall.Succeeds (if info.state = .archived then _ else _)
        split
        · exact succeeds_failArchived _ _ _
        · exact succeeds_withLogs _ _

theorem succeeds_refresh (j : Job) : (refresh j).Calls JobCall.Succeeds := by
  unfold refresh
  split
  · exact .pure _
  · refine .bind (succeeds_getJob _) fun r => ?_
    cases r with
    | error e => exact .pure _
    | ok refreshed => exact .pure _

theorem succeeds_refreshAll (values : List (Option Job)) (found : List Job) :
    (refreshAll rules options values found).Calls JobCall.Succeeds := by
  induction values generalizing found with
  | nil => exact .pure _
  | cons value values ih =>
    cases value with
    | none => exact ih found
    | some job => exact .bind (succeeds_refresh job) fun job => ih _

theorem succeeds_publicSlices (rest : List (List String)) (found : List Job) :
    (publicSlices rules options rest found).Calls JobCall.Succeeds := by
  induction rest generalizing found with
  | nil => exact .pure _
  | cons ids rest ih =>
    refine .bind (succeeds_jobCall trivial) fun r => ?_
    cases r with
    | error e => exact .pure _
    | ok values => exact .bind (succeeds_refreshAll _ _) fun found => ih found

theorem succeeds_publicPage : (publicPage rules options).Calls JobCall.Succeeds := by
  unfold publicPage
  split
  · exact .pure _
  · refine .bind (succeeds_jobCall trivial) fun r => ?_
    cases r with
    | error e => exact .pure _
    | ok ids => exact succeeds_publicSlices _ _

/-- Any pages can be read in turn. -/
theorem exists_pagesRead (rules : TextRules) (asked : List PageOptions) (s : JobsState) :
    ∃ rs t, PagesRead rules asked s rs t := by
  induction asked generalizing s with
  | nil => exact ⟨[], s, .done⟩
  | cons options asked ih =>
    obtain ⟨r, t, hread⟩ := succeeds_publicPage.runs (P := JobCall.Succeeds)
      (fun a ha s => JobCall.Succeeds.steps (i := 0) ha s) s
    obtain ⟨rs, u, hrest⟩ := ih (t.later 0)
    exact ⟨r :: rs, u, .page 0 hread hrest⟩

/-! ### Every page is a piece of one list -/

/-- A page of the API, as one of the job list. -/
def Page.ofItems (p : Api.Page Job) : Page where
  items := p.items
  page := p.page
  pageSize := p.pageSize
  total := p.total.toNat
  totalPages := p.totalPages

theorem paged_eq (found : List Job) (h : options.Valid) :
    Jobs.paged found options =
      .ofItems (Api.paginate (ordered options.focus found) options.page options.pageSize) := by
  obtain ⟨hpage, hsize, -⟩ := h
  obtain ⟨m, hm⟩ := Int.eq_ofNat_of_zero_le (show 0 ≤ options.pageSize by omega)
  have hlength : (ordered options.focus found).length = found.length :=
    (ordered_perm options.focus found).length_eq
  have hcount : Api.pageCount (ordered options.focus found).length options.pageSize =
      max 1 ((found.length + options.pageSize - 1) / options.pageSize) := by
    rw [Api.pageCount, hlength]
    split <;> omega
  have hpos := Api.pageCount_pos (ordered options.focus found).length options.pageSize
  obtain ⟨k, hk⟩ := Int.eq_ofNat_of_zero_le (show 0 ≤ min options.page
    (Api.pageCount (ordered options.focus found).length options.pageSize) - 1 by omega)
  have hpage' : min options.page
      (Api.pageCount (ordered options.focus found).length options.pageSize) = k + 1 := by omega
  have hitems : (Api.paginate (ordered options.focus found) options.page options.pageSize).items =
      ((ordered options.focus found).drop (m * k)).take m := by
    rw [Api.paginate_clamp, hpage', hm]
    refine Api.paginate_items ?_
    rw [← hm]
    omega
  have hstart : ((min options.page (max 1 ((found.length + options.pageSize - 1) /
      options.pageSize)) - 1) * options.pageSize).toNat = m * k := by
    rw [← hcount, hk, hm, Int.mul_comm]
    exact Int.toNat_natCast (m * k)
  simp only [Jobs.paged, Page.ofItems, hitems, Api.paginate_page]
  have htotal : (Api.paginate (ordered options.focus found) options.page
      options.pageSize).total.toNat = found.length := hlength
  rw [hstart, ← hcount, htotal, show options.pageSize.toNat = m by omega]
  rfl

/-- A page of the same list, under another number. -/
def PageOptions.at (options : PageOptions) (page : Int) : PageOptions := { options with page }

/-- The jobs of pages that were read in turn. -/
def itemsOf : List (Except String Page) → List Job
  | [] => []
  | .error _ :: rs => itemsOf rs
  | .ok page :: rs => page.items ++ itemsOf rs

theorem itemsOf_map (jobs : List Job) (pageSize : Int) (pages : List Int) :
    itemsOf (pages.map fun page => .ok (.ofItems (Api.paginate jobs page pageSize))) =
      (pages.map fun page => (Api.paginate jobs page pageSize).items).flatten := by
  induction pages with
  | nil => rfl
  | cons page pages ih =>
    rw [List.map_cons, itemsOf, ih]
    rfl

/-- The store lists a job under one of its ids, and the options ask for it. -/
def JobsState.Lists (s : JobsState) (rules : TextRules) (options : PageOptions) (j : Job) : Prop :=
  ∃ id ∈ s.history, s.shown id = some j ∧ matchesPage rules j options = true

theorem Keyed.shown_id (hs : Keyed s) (h : s.shown id = some j) : j.id = id := by
  rw [JobsState.shown] at h
  cases hj : s.records id with
  | none =>
    rw [hj] at h
    cases h
  | some j' =>
    rw [hj] at h
    cases h
    rw [← hs.stored id j' hj]
    show (s.current j').id = j'.id
    unfold JobsState.current
    split
    · rfl
    · split
      · split <;> rfl
      · rfl

theorem mem_found : j ∈ s.found rules options ↔ s.Lists rules options j := by
  rw [JobsState.found, List.mem_filter, List.mem_filterMap]
  constructor
  · rintro ⟨⟨id, hid, hj⟩, hmatch⟩
    exact ⟨id, hid, hj, hmatch⟩
  · rintro ⟨id, hid, hj, hmatch⟩
    exact ⟨⟨id, hid, hj⟩, hmatch⟩

theorem Keyed.found_distinct (hs : Keyed s) :
    (s.found rules options).Pairwise fun a b => a.id ≠ b.id := by
  refine List.Pairwise.filter _ ?_
  rw [List.pairwise_filterMap]
  refine List.pairwise_reverse.mpr (hs.distinct.imp fun {id id'} hne a ha b hb hsame => hne ?_)
  rw [← hs.shown_id ha, ← hs.shown_id hb, hsame]

theorem Precedes.irrefl {focus : String} (h : Precedes focus j j) : False := by
  obtain ⟨hfocus, h | h | ⟨-, h | ⟨-, h⟩⟩⟩ := h
  · exact hfocus h
  · exact absurd h (lt_irrefl _)
  · exact absurd h (lt_irrefl _)
  · exact absurd h (lt_irrefl _)

/-- The pages of the history, for one state, search text, focus and page size, are the pieces of one
list of jobs. -/
structure Partitioned (rules : TextRules) (options : PageOptions) (s : JobsState) (jobs : List Job) :
    Prop where
  ordered : jobs.Pairwise (Precedes options.focus)
  once : jobs.Nodup
  listed : ∀ j, j ∈ jobs ↔ s.Lists rules options j
  /-- Whichever pages are read, and in whatever order, they are those that the API cuts. -/
  cut : ∀ pages : List Int, (∀ page ∈ pages, 1 ≤ page) →
    (∃ rs t, PagesRead rules (pages.map options.at) s rs t) ∧
      ∀ rs t, PagesRead rules (pages.map options.at) s rs t →
        rs = pages.map fun page => .ok (.ofItems (Api.paginate jobs page options.pageSize))
  /-- The pages from the first to the last make up the list. -/
  whole : ∀ rs t, PagesRead rules
      ((Api.pageNumbers jobs.length options.pageSize).map options.at) s rs t → itemsOf rs = jobs
  short : ∀ page, 1 ≤ page →
    (Api.paginate jobs page options.pageSize).items.length ≤ options.pageSize.toNat
  clamped : ∀ page, 1 ≤ page → (Api.paginate jobs page options.pageSize).page =
    min page (Api.paginate jobs page options.pageSize).totalPages
  counted : ∀ page, (Api.paginate jobs page options.pageSize).totalPages =
    Api.pageCount jobs.length options.pageSize

theorem publicPage_partition {rules : TextRules} {options : PageOptions} {s : JobsState}
    (hs : Keyed s) (hsize : 1 ≤ options.pageSize) (hmax : options.pageSize ≤ 100) :
    ∃ jobs : List Job, Partitioned rules options s jobs := by
  have hdistinct : (s.found rules options).Pairwise fun a b => a.id ≠ b.id := hs.found_distinct
  have hordered : (ordered options.focus (s.found rules options)).Pairwise
      (Precedes options.focus) := pairwise_ordered hdistinct
  have hread : ∀ pages : List Int, (∀ page ∈ pages, 1 ≤ page) → ∀ rs t,
      PagesRead rules (pages.map options.at) s rs t →
      rs = pages.map fun page => .ok (.ofItems (Api.paginate
        (ordered options.focus (s.found rules options)) page options.pageSize)) := by
    intro pages hpages rs t h
    have hvalid : ∀ asked ∈ pages.map options.at, asked.Valid := by
      intro asked hasked
      obtain ⟨page, hpage, rfl⟩ := List.mem_map.mp hasked
      exact ⟨hpages page hpage, hsize, hmax⟩
    rw [h.paged hs hvalid, List.map_map]
    refine List.map_congr_left fun page hpage => ?_
    exact congrArg Except.ok (paged_eq _ (hvalid _ (List.mem_map_of_mem hpage)))
  refine ⟨ordered options.focus (s.found rules options), hordered, ?_, fun j => ?_,
    fun pages hpages => ⟨exists_pagesRead rules _ s, hread pages hpages⟩, fun rs t h => ?_,
    fun page hpage => Api.paginate_length hpage hsize, fun page _ => Api.paginate_page _ _ _,
    fun page => rfl⟩
  · refine hordered.imp fun {a b} hab hsame => ?_
    subst hsame
    exact hab.irrefl
  · rw [(ordered_perm _ _).mem_iff, mem_found]
  · rw [hread _ (fun page hpage => (Api.mem_pageNumbers.mp hpage).1) rs t h, itemsOf_map,
      Api.flatten_paginate _ hsize]

/-- A store with one job that has ended and one whose task has been archived. -/
def pagedStore : JobsState where
  records id :=
    if id = "a" then
      some { id := "a", action := "vm.start", label := "", target := "web", state := .succeeded,
             createdAt := 1 }
    else if id = "b" then
      some { id := "b", action := "vm.stop", label := "", target := "web", state := .running,
             createdAt := 2 }
    else none
  index := [(0, "a"), (0, "b")]
  tasks := Function.update (fun _ => none) "b"
    (some { payload := { id := "b", action := "vm.stop", target := "web" }, state := .archived })
  taskIDs := ["b"]
  queue := true

theorem publicPage_partition_two : ∃ jobs : List Job, Partitioned
    ⟨String.toLower, fun text => text.trimAscii.toString⟩
    { page := 1, pageSize := 1, state := "completed", search := "VM", focus := "b" }
    pagedStore jobs := by
  refine publicPage_partition ⟨fun id j hj => ?_, by decide⟩ (by decide) (by decide)
  simp only [pagedStore] at hj
  split at hj
  · rename_i hid
    cases hj
    exact hid.symm
  · split at hj
    · rename_i hid
      cases hj
      exact hid.symm
    · cases hj

/-- Every store that the operations can reach is one of those. -/
theorem keyed_of_reach {g : Config JobCall JobCall.Reply JobsState Unit}
    (hg : jobsSystem.Reach (fun _ _ _ _ => True) {} g) : Keyed g.shared := by
  have hinv := (slotOutline False).invariant (hg.mono jobsSystem fun _ _ _ _ _ => False.elim)
  exact ⟨fun id j hj => (hinv.stored id j hj).1, hinv.distinct⟩

end Reading

end Maco.Jobs
