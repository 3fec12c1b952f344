import Maco.Jobs.Exclusive
import Maco.Jobs.Terminal
import Maco.Lib.Recent
import Mathlib.Data.List.Perm.Subperm

/-! The trim of the history among all that the service does.  A trim takes the ids of the oldest
entries, reads their records and deletes them later; in between other processes submit, run, settle
and trim jobs.  What a trim has in hand stays old, since new entries only push it further down. -/

namespace Maco.Jobs.Trimming

open Concurrent Recent

/-! ### The system -/

/-- asynq gives a task to `ProcessTask` only once it has taken the task up. -/
def codeOf : JobsOp → Service Unit
  | .processTask (.ok payload) => do
    match ← jobCall (.taskInfo payload.id) with
    | .error _ => return ()
    | .ok info =>
      if info.state = .active then do
        let _ ← processTask (.ok payload)
        return ()
      else return ()
  | op => Jobs.codeOf op

/-- The processes of the service, with the tasks as asynq gives them out. -/
def system : System JobCall JobCall.Reply JobChoice JobsState JobsOp JobsEvent Unit :=
  { jobsSystem with code := codeOf }

/-! ### What is known of an id -/

/-- A record of the job has been stored at some time. -/
def Saved (s : JobsState) (id : String) : Prop := ∃ j ∈ s.saves, j.id = id

/-- A public job has its first record and nothing else: it is neither in the index nor queued. -/
structure Fresh (s : JobsState) (id : String) : Prop where
  unindexed : id ∉ s.index.map (·.2)
  unqueued : id ∉ s.taskIDs
  pending : ∃ j, s.records id = some j ∧ j.state = .pending ∧ j.isPrivate = false

/-- The job has been stored, and it will not be added to the index any more. -/
structure Known (s : JobsState) (id : String) : Prop where
  saved : Saved s id
  past : ¬Fresh s id

/-- The newest entries of the index, which a trim has to leave. -/
def newest (s : JobsState) : List (Nat × String) := recent historyLimit s.index

/-- A known job that is not among the newest. -/
structure Deep (s : JobsState) (id : String) : Prop where
  known : Known s id
  old : id ∉ (newest s).map (·.2)

/-- The record of the job has ended, or it is gone. -/
def Over (s : JobsState) (id : String) : Prop :=
  ∀ j, s.records id = some j → j.state.terminal = true

/-! ### The invariant and what the processes count on -/

structure Inv (s : JobsState) : Prop where
  own : ∀ id j, s.records id = some j → j.id = id
  stored : ∀ id j, s.records id = some j → j ∈ s.saves
  issued : ∀ id, Saved s id → s.issued id ≠ none
  indexed : ∀ id ∈ s.index.map (·.2), Saved s id
  distinct : (s.index.map (·.2)).Nodup
  listed : ∀ id, s.tasks id ≠ none → id ∈ s.taskIDs
  queued : ∀ id ∈ s.taskIDs, Saved s id

theorem Inv.saved_of_record {s : JobsState} (hs : Inv s) {id : String} {j : Job}
    (h : s.records id = some j) : Saved s id :=
  ⟨j, hs.stored id j h, hs.own id j h⟩

theorem Inv.known_indexed {s : JobsState} (hs : Inv s) {id : String} (h : id ∈ s.index.map (·.2)) :
    Known s id :=
  ⟨hs.indexed id h, fun hf => hf.unindexed h⟩

theorem Inv.known_queued {s : JobsState} (hs : Inv s) {id : String} (h : id ∈ s.taskIDs) :
    Known s id :=
  ⟨hs.queued id h, fun hf => hf.unqueued h⟩

/-- What stays known whoever moves; `ex` says whether saves are taken to find the record as their
callers have it. -/
structure Grows (ex : Prop) (s t : JobsState) : Prop where
  issued : ∀ id k, s.issued id = some k → t.issued id = some k
  saved : ∀ id, Saved s id → Saved t id
  known : ∀ id, Known s id → Known t id
  deep : ∀ id, Deep s id → Deep t id
  ended : ex → ∀ id, Known s id → Over s id → Over t id

theorem Grows.refl (ex : Prop) (s : JobsState) : Grows ex s s :=
  ⟨fun _ _ h => h, fun _ h => h, fun _ h => h, fun _ h => h, fun _ _ _ h => h⟩

theorem Grows.trans {ex : Prop} {s t u : JobsState} (h : Grows ex s t) (h' : Grows ex t u) :
    Grows ex s u where
  issued id k hk := h'.issued id k (h.issued id k hk)
  saved id hid := h'.saved id (h.saved id hid)
  known id hid := h'.known id (h.known id hid)
  deep id hid := h'.deep id (h.deep id hid)
  ended hex id hid ho := h'.ended hex id (h.known id hid) (h.ended hex id hid ho)

/-- What process `i` may count on: only it stores and indexes the jobs under its own ids first. -/
structure Rely (ex : Prop) (i : Nat) (s t : JobsState) : Prop where
  grows : Grows ex s t
  unsaved : ∀ id, s.issued id = some i → ¬Saved s id → ¬Saved t id
  fresh : ∀ id, s.issued id = some i → Fresh s id → Fresh t id

theorem Rely.refl (ex : Prop) (i : Nat) (s : JobsState) : Rely ex i s s :=
  ⟨.refl ex s, fun _ _ h => h, fun _ _ h => h⟩

theorem Rely.trans {ex : Prop} (i : Nat) (s t u : JobsState) (h : Rely ex i s t)
    (h' : Rely ex i t u) : Rely ex i s u where
  grows := h.grows.trans h'.grows
  unsaved id hid hs := h'.unsaved id (h.grows.issued id i hid) (h.unsaved id hid hs)
  fresh id hid hs := h'.fresh id (h.grows.issued id i hid) (h.fresh id hid hs)

/-- What every step keeps to. -/
structure Safe (ex : Prop) (s t : JobsState) : Prop where
  /-- The newest entries stay. -/
  newest : ∀ e ∈ newest s, e ∈ t.index
  /-- An entry goes together with its record and its log. -/
  entry : ∀ e ∈ s.index, e ∉ t.index → t.records e.2 = none ∧ t.logs e.2 = []
  /-- A public record goes together with its log and its entry. -/
  record : ∀ id j, s.records id = some j → j.isPrivate = false → t.records id = none →
    t.logs id = [] ∧ id ∉ t.index.map (·.2)
  /-- The record of a public job that has not ended stays. -/
  unended : ex → ∀ id j, s.records id = some j → j.isPrivate = false → j.state.terminal = false →
    t.records id ≠ none

theorem Safe.of_kept {ex : Prop} {s t : JobsState} (hindex : ∀ e ∈ s.index, e ∈ t.index)
    (hrecords : ∀ id j, s.records id = some j → j.isPrivate = false → t.records id ≠ none) :
    Safe ex s t where
  newest e he := hindex e (mem_of_mem_recent he)
  entry e he hne := absurd (hindex e he) hne
  record id j hj hpublic hnone := absurd hnone (hrecords id j hj hpublic)
  unended _ id j hj hpublic _ := hrecords id j hj hpublic

/-- A step that keeps the invariant and what every process counts on. -/
structure Step (ex : Prop) (s t : JobsState) : Prop where
  inv : Inv t
  safe : Safe ex s t
  all : ∀ k, Rely ex k s t

section Steps

variable {ex : Prop} {i : Nat} {s t : JobsState} {id : String}

/-- A step that neither writes nor deletes a record, an entry or a task. -/
structure Quiet (s t : JobsState) : Prop where
  records : t.records = s.records
  index : t.index = s.index
  saves : t.saves = s.saves
  taskIDs : t.taskIDs = s.taskIDs
  tasks : ∀ id, t.tasks id ≠ none → s.tasks id ≠ none
  issued : ∀ id k, s.issued id = some k → t.issued id = some k

theorem Quiet.refl (s : JobsState) : Quiet s s :=
  ⟨rfl, rfl, rfl, rfl, fun _ h => h, fun _ _ h => h⟩

theorem Quiet.saved_iff (h : Quiet s t) : Saved t id ↔ Saved s id := by
  rw [Saved, Saved, h.saves]

theorem Quiet.fresh_iff (h : Quiet s t) : Fresh t id ↔ Fresh s id := by
  constructor
  · rintro ⟨hindex, hqueue, hrecord⟩
    rw [h.index] at hindex
    rw [h.taskIDs] at hqueue
    rw [h.records] at hrecord
    exact ⟨hindex, hqueue, hrecord⟩
  · rintro ⟨hindex, hqueue, hrecord⟩
    rw [← h.index] at hindex
    rw [← h.taskIDs] at hqueue
    rw [← h.records] at hrecord
    exact ⟨hindex, hqueue, hrecord⟩

theorem Quiet.rely (h : Quiet s t) (k : Nat) : Rely ex k s t where
  grows :=
    have hknown : ∀ id, Known s id → Known t id := fun id hid =>
      ⟨h.saved_iff.mpr hid.saved, fun hf => hid.past (h.fresh_iff.mp hf)⟩
    { issued := h.issued
      saved := fun id => h.saved_iff.mpr
      known := hknown
      deep := fun id hid => ⟨hknown id hid.known, by rw [newest, h.index]; exact hid.old⟩
      ended := fun _ id _ ho j hj => ho j (h.records ▸ hj) }
  unsaved id _ hs := fun ht => hs (h.saved_iff.mp ht)
  fresh id _ := h.fresh_iff.mpr

theorem Quiet.step (h : Quiet s t) (hs : Inv s) : Step ex s t where
  inv :=
    { own := fun id j hj => hs.own id j (h.records ▸ hj)
      stored := fun id j hj => h.saves ▸ hs.stored id j (h.records ▸ hj)
      issued := fun id hid => by
        obtain ⟨k, hk⟩ := Option.ne_none_iff_exists'.mp (hs.issued id (h.saved_iff.mp hid))
        rw [h.issued id k hk]
        nofun
      indexed := fun id hid => h.saved_iff.mpr (hs.indexed id (h.index ▸ hid))
      distinct := h.index ▸ hs.distinct
      listed := fun id hid => h.taskIDs ▸ hs.listed id (h.tasks id hid)
      queued := fun id hid => h.saved_iff.mpr (hs.queued id (h.taskIDs ▸ hid)) }
  safe := .of_kept (fun e he => h.index ▸ he) fun id j hj _ => by
    rw [h.records, hj]
    nofun
  all := h.rely

/-! A save. -/

theorem saved_saved {j : Job} : Saved (s.saved j) id ↔ j.id = id ∨ Saved s id := by
  simp [Saved, JobsState.saved]

theorem records_saved (s : JobsState) (j : Job) (id : String) :
    (s.saved j).records id = if id = j.id then some j else s.records id := by
  simp [JobsState.saved, Function.update_apply]

theorem fresh_saved {j : Job} (hne : id ≠ j.id) : Fresh (s.saved j) id ↔ Fresh s id := by
  have hrecord : (s.saved j).records id = s.records id := by rw [records_saved, if_neg hne]
  constructor
  · rintro ⟨hindex, hqueue, hpending⟩
    rw [hrecord] at hpending
    exact ⟨hindex, hqueue, hpending⟩
  · rintro ⟨hindex, hqueue, hpending⟩
    rw [← hrecord] at hpending
    exact ⟨hindex, hqueue, hpending⟩

theorem Inv.saved {j : Job} (hs : Inv s) (hid : s.issued j.id ≠ none) : Inv (s.saved j) where
  own id' j' hj' := by
    rw [records_saved] at hj'
    split at hj'
    · rename_i hsame
      cases hj'
      exact hsame.symm
    · exact hs.own id' j' hj'
  stored id' j' hj' := by
    rw [records_saved] at hj'
    split at hj'
    · cases hj'
      exact List.mem_cons_self
    · exact List.mem_cons_of_mem _ (hs.stored id' j' hj')
  issued id' hid' := by
    obtain rfl | hid' := saved_saved.mp hid'
    · exact hid
    · exact hs.issued id' hid'
  indexed id' hid' := saved_saved.mpr (.inr (hs.indexed id' hid'))
  distinct := hs.distinct
  listed := hs.listed
  queued id' hid' := saved_saved.mpr (.inr (hs.queued id' hid'))

theorem safe_saved (s : JobsState) (j : Job) : Safe ex s (s.saved j) :=
  .of_kept (fun _ he => he) fun id j' hj' _ => by
    rw [records_saved]
    split
    · nofun
    · rw [hj']
      nofun

/-- The known jobs stay known at a save, where the record of a known job does not become pending. -/
theorem grows_saved {j : Job} (hj : Known s j.id → j.state ≠ .pending)
    (hover : ex → Known s j.id → ¬Over s j.id) : Grows ex s (s.saved j) :=
  have hknown : ∀ id, Known s id → Known (s.saved j) id := fun id hid => by
    refine ⟨saved_saved.mpr (.inr hid.saved), fun hf => ?_⟩
    by_cases hne : id = j.id
    · subst hne
      obtain ⟨j', hj', hpending, -⟩ := hf.pending
      rw [records_saved, if_pos rfl] at hj'
      cases hj'
      exact hj hid hpending
    · exact hid.past ((fresh_saved hne).mp hf)
  { issued := fun _ _ h => h
    saved := fun id hid => saved_saved.mpr (.inr hid)
    known := hknown
    deep := fun id hid => ⟨hknown id hid.known, hid.old⟩
    ended := fun hex id hid ho => by
      by_cases hne : id = j.id
      · subst hne
        exact absurd ho (hover hex hid)
      · intro j' hj'
        rw [records_saved, if_neg hne] at hj'
        exact ho j' hj' }

/-- The first save of a job. -/
theorem Inv.save_new {j : Job} (hs : Inv s) (hid : s.issued j.id = some i)
    (hnew : ¬Saved s j.id) :
    Inv (s.saved j) ∧ Safe ex s (s.saved j) ∧ (∀ k, k ≠ i → Rely ex k s (s.saved j)) ∧
      Grows ex s (s.saved j) := by
  have hgrows : Grows ex s (s.saved j) :=
    grows_saved (fun hk => absurd hk.saved hnew) fun _ hk => absurd hk.saved hnew
  have hother : ∀ k id', k ≠ i → s.issued id' = some k → id' ≠ j.id := by
    rintro k id' hk hid' rfl
    rw [hid] at hid'
    cases hid'
    exact hk rfl
  refine ⟨hs.saved (by rw [hid]; nofun), safe_saved s j, fun k hk => ⟨hgrows, ?_, ?_⟩, hgrows⟩
  · intro id' hid' hunsaved hsaved
    obtain rfl | hsaved := saved_saved.mp hsaved
    · exact hother k _ hk hid' rfl
    · exact hunsaved hsaved
  · exact fun id' hid' => (fresh_saved (hother k id' hk hid')).mpr

/-- After its first save a public job is fresh, and a private one is known. -/
theorem Inv.after_new {j : Job} (hs : Inv s) (hnew : ¬Saved s j.id) (hpending : j.state = .pending) :
    (j.isPrivate = false → Fresh (s.saved j) j.id) ∧
      (j.isPrivate = true → Known (s.saved j) j.id) := by
  have hrecord : (s.saved j).records j.id = some j := by rw [records_saved, if_pos rfl]
  refine ⟨fun hpublic => ⟨fun hmem => hnew (hs.indexed _ hmem), fun hmem => hnew (hs.queued _ hmem),
    j, hrecord, hpending, hpublic⟩, fun hprivate => ⟨saved_saved.mpr (.inl rfl), fun hf => ?_⟩⟩
  obtain ⟨j', hj', -, hpublic⟩ := hf.pending
  rw [hrecord] at hj'
  cases hj'
  rw [hprivate] at hpublic
  cases hpublic

/-- A later save of a job. -/
theorem Inv.save_known {j : Job} (hs : Inv s) (hid : Known s j.id) (hj : j.state ≠ .pending)
    (hover : ex → ¬Over s j.id) : Step ex s (s.saved j) where
  inv := hs.saved (hs.issued _ hid.saved)
  safe := safe_saved s j
  all k :=
    { grows := grows_saved (fun _ => hj) fun hex _ => hover hex
      unsaved := fun id' _ hunsaved hsaved => by
        obtain rfl | hsaved := saved_saved.mp hsaved
        · exact hunsaved hid.saved
        · exact hunsaved hsaved
      fresh := fun id' _ hf => by
        have hne : id' ≠ j.id := by
          rintro rfl
          exact hid.past hf
        exact (fresh_saved hne).mpr hf }

/-! The index. -/

theorem insertScore_split (entry : Nat × String) {index : List (Nat × String)}
    (h : entry.2 ∉ index.map (·.2)) :
    ∃ a b, index = a ++ b ∧ insertScore entry index = a ++ entry :: b := by
  induction index with
  | nil => exact ⟨[], [], rfl, rfl⟩
  | cons e index ih =>
    rw [List.map_cons, List.mem_cons, not_or] at h
    rw [insertScore, if_neg (Ne.symm h.1)]
    split
    · obtain ⟨a, b, rfl, hinsert⟩ := ih h.2
      exact ⟨e :: a, b, rfl, by rw [hinsert]; rfl⟩
    · have hall : index.filter (fun e => e.2 ≠ entry.2) = index := by
        refine List.filter_eq_self.mpr fun e' he' => decide_eq_true fun hsame => h.2 ?_
        exact hsame ▸ List.mem_map_of_mem he'
      exact ⟨[], e :: index, rfl, by rw [hall]; rfl⟩

/-- The addition of a fresh job to the index. -/
theorem Inv.index (hs : Inv s) (hid : s.issued id = some i) (hf : Fresh s id) (score : Nat) :
    Inv { s with index := insertScore (score, id) s.index } ∧
      Safe ex s { s with index := insertScore (score, id) s.index } ∧
      (∀ k, k ≠ i → Rely ex k s { s with index := insertScore (score, id) s.index }) ∧
      Grows ex s { s with index := insertScore (score, id) s.index } ∧
      Known { s with index := insertScore (score, id) s.index } id := by
  obtain ⟨a, b, hindex, hinsert⟩ := insertScore_split (score, id) hf.unindexed
  obtain ⟨j, hj, -⟩ := hf.pending
  have hsaved : Saved s id := hs.saved_of_record hj
  have hmem : ∀ e, e ∈ insertScore (score, id) s.index ↔ e = (score, id) ∨ e ∈ s.index := fun e => by
    rw [hinsert, hindex]
    simp only [List.mem_append, List.mem_cons]
    tauto
  have hids : ∀ id', id' ∈ (insertScore (score, id) s.index).map (·.2) ↔
      id' = id ∨ id' ∈ s.index.map (·.2) := fun id' => by
    rw [hinsert, hindex]
    simp only [List.map_append, List.map_cons, List.mem_append, List.mem_cons]
    tauto
  have hfresh : ∀ id', Fresh { s with index := insertScore (score, id) s.index } id' →
      Fresh s id' := fun id' hf' =>
    ⟨fun h => hf'.unindexed ((hids id').mpr (.inr h)), hf'.unqueued, hf'.pending⟩
  have hgrows : Grows ex s { s with index := insertScore (score, id) s.index } :=
    { issued := fun _ _ h => h
      saved := fun _ h => h
      known := fun id' h => ⟨h.saved, fun hf' => h.past (hfresh id' hf')⟩
      deep := fun id' h => by
        refine ⟨⟨h.known.saved, fun hf' => h.known.past (hfresh id' hf')⟩, fun hnew => h.old ?_⟩
        obtain ⟨e, he, rfl⟩ := List.mem_map.mp hnew
        rw [newest, hinsert] at he
        obtain rfl | he := mem_recent_insert he
        · exact absurd hf h.known.past
        · rw [newest, hindex]
          exact List.mem_map_of_mem he
      ended := fun _ _ _ h => h }
  refine ⟨⟨hs.own, hs.stored, hs.issued, fun id' h => ?_, nodup_insertScore hs.distinct, hs.listed,
    hs.queued⟩, .of_kept (fun e he => (hmem e).mpr (.inr he)) fun id' j' hj' _ => ?_,
    fun k hk => ⟨hgrows, fun _ _ h => h, fun id' hid' hf' => ⟨fun h => ?_, hf'.unqueued, hf'.pending⟩⟩,
    hgrows, hsaved, fun hf' => hf'.unindexed ((hids id).mpr (.inl rfl))⟩
  · obtain rfl | h := (hids id').mp h
    · exact hsaved
    · exact hs.indexed id' h
  · show s.records id' ≠ none
    rw [hj']
    nofun
  · obtain rfl | h := (hids id').mp h
    · rw [hid] at hid'
      cases hid'
      exact hk rfl
    · exact hf'.unindexed h

/-- The addition of the task of a known job to the queue. -/
theorem Inv.enqueue {p : Payload} (hs : Inv s) (hp : Known s p.id) : Step ex s (s.enqueued p) := by
  have hids : ∀ id', id' ∈ (s.enqueued p).taskIDs ↔ id' = p.id ∨ id' ∈ s.taskIDs := fun id' => by
    show id' ∈ s.taskIDs.filter (· ≠ p.id) ++ [p.id] ↔ _
    by_cases hne : id' = p.id <;> simp [hne]
  have hfresh : ∀ id', Fresh (s.enqueued p) id' → Fresh s id' := fun id' hf' =>
    ⟨hf'.unindexed, fun h => hf'.unqueued ((hids id').mpr (.inr h)), hf'.pending⟩
  have hgrows : Grows ex s (s.enqueued p) :=
    have hknown : ∀ id, Known s id → Known (s.enqueued p) id := fun id' h =>
      ⟨h.saved, fun hf' => h.past (hfresh id' hf')⟩
    ⟨fun _ _ h => h, fun _ h => h, hknown, fun id' h => ⟨hknown id' h.known, h.old⟩,
      fun _ _ _ h => h⟩
  refine ⟨⟨hs.own, hs.stored, hs.issued, hs.indexed, hs.distinct, fun id' h => ?_, fun id' h => ?_⟩,
    .of_kept (fun _ he => he) fun id' j hj _ => ?_,
    fun k => ⟨hgrows, fun _ _ h => h, fun id' _ hf => ⟨hf.unindexed, fun h => ?_, hf.pending⟩⟩⟩
  · by_cases hne : id' = p.id
    · exact (hids id').mpr (.inl hne)
    · change Function.update s.tasks p.id (some { payload := p }) id' ≠ none at h
      rw [Function.update_of_ne hne] at h
      exact (hids id').mpr (.inr (hs.listed id' h))
  · obtain rfl | h := (hids id').mp h
    · exact hp.saved
    · exact hs.queued id' h
  · show s.records id' ≠ none
    rw [hj]
    nofun
  · obtain rfl | h := (hids id').mp h
    · exact hp.past hf
    · exact hf.unqueued h

/-! Deletions. -/

/-- A trim of what is known and old. -/
theorem Inv.trim {ids : List String} (hs : Inv s) (hdeep : ∀ id ∈ ids, Deep s id)
    (hover : ex → ∀ id ∈ ids, Over s id) :
    Step ex s { s with
      records := fun id => if id ∈ ids then none else s.records id
      logs := fun id => if id ∈ ids then [] else s.logs id
      index := s.index.filter fun e => e.2 ∉ ids } := by
  have hkept : ∀ {id j}, (if id ∈ ids then none else s.records id) = some j →
      id ∉ ids ∧ s.records id = some j := by
    intro id j h
    split at h
    · cases h
    · rename_i hid
      exact ⟨hid, h⟩
  have hnewest : ∀ e ∈ newest s, decide (e.2 ∉ ids) = true := fun e he =>
    decide_eq_true fun hid => (hdeep e.2 hid).old (List.mem_map_of_mem he)
  have hindex : ∀ id, id ∉ ids → id ∈ s.index.map (·.2) →
      id ∈ (s.index.filter fun e => e.2 ∉ ids).map (·.2) := by
    intro id hid hmem
    obtain ⟨e, he, rfl⟩ := List.mem_map.mp hmem
    exact List.mem_map_of_mem (List.mem_filter.mpr ⟨he, decide_eq_true hid⟩)
  have hsub : ∀ id, id ∈ (s.index.filter fun e => e.2 ∉ ids).map (·.2) →
      id ∉ ids ∧ id ∈ s.index.map (·.2) := by
    intro id hmem
    obtain ⟨e, he, rfl⟩ := List.mem_map.mp hmem
    exact ⟨of_decide_eq_true (List.mem_filter.mp he).2,
      List.mem_map_of_mem (List.mem_filter.mp he).1⟩
  have hknown : ∀ id, Known s id → Known { s with
      records := fun id => if id ∈ ids then none else s.records id
      logs := fun id => if id ∈ ids then [] else s.logs id
      index := s.index.filter fun e => e.2 ∉ ids } id := by
    refine fun id hid => ⟨hid.saved, fun hf => hid.past ?_⟩
    obtain ⟨j, hj, hpending⟩ := hf.pending
    obtain ⟨hid', hj⟩ := hkept hj
    exact ⟨fun hmem => hf.unindexed (hindex id hid' hmem), hf.unqueued, j, hj, hpending⟩
  refine ⟨⟨fun id j hj => hs.own id j (hkept hj).2, fun id j hj => hs.stored id j (hkept hj).2,
    hs.issued, fun id hid => hs.indexed id (hsub id hid).2,
    hs.distinct.sublist (List.filter_sublist.map _), hs.listed, hs.queued⟩, ⟨fun e he => ?_,
    fun e he hne => ?_, fun id j hj _ hnone => ?_, fun hex id j hj _ hopen hnone => ?_⟩,
    fun k => ⟨⟨fun _ _ h => h, fun _ h => h, hknown, fun id h => ⟨hknown id h.known, ?_⟩,
      fun _ id _ ho j hj => ho j (hkept hj).2⟩, fun _ _ h => h, fun id _ hf => ?_⟩⟩
  · exact List.mem_filter.mpr ⟨mem_of_mem_recent he, hnewest e he⟩
  · have hid : e.2 ∈ ids := by
      by_contra hid
      exact hne (List.mem_filter.mpr ⟨he, decide_eq_true hid⟩)
    exact ⟨if_pos hid, if_pos hid⟩
  · have hid : id ∈ ids := by
      by_contra hid
      change (if id ∈ ids then none else s.records id) = none at hnone
      rw [if_neg hid, hj] at hnone
      cases hnone
    exact ⟨if_pos hid, fun hmem => (hsub id hmem).1 hid⟩
  · have hid : id ∈ ids := by
      by_contra hid
      change (if id ∈ ids then none else s.records id) = none at hnone
      rw [if_neg hid, hj] at hnone
      cases hnone
    rw [hover hex id hid j hj] at hopen
    cases hopen
  · rw [newest, recent_filter hnewest]
    exact h.old
  · have hid : id ∉ ids := fun hid => (hdeep id hid).known.past hf
    obtain ⟨j, hj, hpending⟩ := hf.pending
    exact ⟨fun hmem => hf.unindexed (hsub id hmem).2, hf.unqueued, j, (if_neg hid).trans hj, hpending⟩

/-- The expiry of a private record. -/
theorem Inv.expire {j : Job} (hs : Inv s) (hj : s.records id = some j) (hprivate : j.isPrivate) :
    Step ex s { s with records := Function.update s.records id none } := by
  have hkept : ∀ {id' j'}, Function.update s.records id none id' = some j' →
      id' ≠ id ∧ s.records id' = some j' := by
    intro id' j' h
    by_cases hne : id' = id
    · rw [hne, Function.update_self] at h
      cases h
    · rw [Function.update_of_ne hne] at h
      exact ⟨hne, h⟩
  have hpublic : ∀ {id' j'}, s.records id' = some j' → j'.isPrivate = false →
      Function.update s.records id none id' = some j' := by
    intro id' j' h hpub
    have hne : id' ≠ id := by
      rintro rfl
      rw [hj] at h
      cases h
      rw [hprivate] at hpub
      cases hpub
    rwa [Function.update_of_ne hne]
  have hknown : ∀ id', Known s id' →
      Known { s with records := Function.update s.records id none } id' := by
    refine fun id' hid' => ⟨hid'.saved, fun hf => hid'.past ?_⟩
    obtain ⟨j', hj', hpending⟩ := hf.pending
    exact ⟨hf.unindexed, hf.unqueued, j', (hkept hj').2, hpending⟩
  refine ⟨⟨fun id' j' hj' => hs.own id' j' (hkept hj').2,
    fun id' j' hj' => hs.stored id' j' (hkept hj').2, hs.issued, hs.indexed, hs.distinct, hs.listed,
    hs.queued⟩, .of_kept (fun _ he => he) fun id' j' hj' hpub => ?_,
    fun k => ⟨⟨fun _ _ h => h, fun _ h => h, hknown, fun id' h => ⟨hknown id' h.known, h.old⟩,
      fun _ _ _ ho j' hj' => ho j' (hkept hj').2⟩, fun _ _ h => h, fun id' _ hf => ?_⟩⟩
  · show Function.update s.records id none id' ≠ none
    rw [hpublic hj' hpub]
    nofun
  · obtain ⟨j', hj', hpending, hpub⟩ := hf.pending
    exact ⟨hf.unindexed, hf.unqueued, j', hpublic hj' hpub, hpending, hpub⟩

end Steps

/-! ### The calls and the events -/

/-- A call that neither writes nor deletes a record, an entry or a task. -/
def Still : JobCall → Prop
  | .save _ _ | .zadd _ _ | .trim _ | .enqueue _ => False
  | _ => True

theorem perform_quiet {i : Nat} {a : JobCall} {c : JobChoice} {s t : JobsState} {r : a.Reply}
    (h : JobsState.perform i a c s = some (r, t)) (ha : Still a) : Quiet s t := by
  cases a with
  | save j was => exact ha.elim
  | zadd score id => exact ha.elim
  | trim ids => exact ha.elim
  | enqueue p => exact ha.elim
  | newString =>
    obtain ⟨hid, rfl⟩ := JobsState.newString_cases h
    refine ⟨rfl, rfl, rfl, rfl, fun _ h => h, fun id k hk => ?_⟩
    have hne : id ≠ r := by
      rintro rfl
      rw [hid] at hk
      cases hk
    simpa [Function.update_of_ne hne] using hk
  | get id =>
    obtain ⟨rfl, -⟩ := JobsState.get_cases h
    exact .refl _
  | rpush id line =>
    obtain rfl | ⟨rfl, -⟩ := JobChoice.command_cases h
    · exact ⟨rfl, rfl, rfl, rfl, fun _ h => h, fun _ _ h => h⟩
    · exact .refl _
  | setNX token =>
    obtain ⟨-, rfl | ⟨-, rfl⟩⟩ | ⟨-, -, rfl⟩ := JobsState.setNX_cases h <;>
      exact ⟨rfl, rfl, rfl, rfl, fun _ h => h, fun _ _ h => h⟩
  | releaseLock token =>
    obtain rfl | ⟨-, rfl⟩ := JobsState.releaseLock_cases h <;>
      exact ⟨rfl, rfl, rfl, rfl, fun _ h => h, fun _ _ h => h⟩
  | startAction p =>
    obtain rfl := JobsState.startAction_cases h
    exact ⟨rfl, rfl, rfl, rfl, fun _ h => h, fun _ _ h => h⟩
  | finishAction p =>
    obtain rfl := JobsState.finishAction_cases h
    exact ⟨rfl, rfl, rfl, rfl, fun _ h => h, fun _ _ h => h⟩
  | zrange start stop | zrevrange start stop | mget ids | lrange id =>
    obtain ⟨rfl, -⟩ := JobChoice.query_cases h
    exact .refl _
  | now | taskInfo id | listTasks state page | outOfRounds =>
    cases c <;> cases h <;> exact .refl _

theorem event_step {ex : Prop} {e : JobsEvent} {s t : JobsState} (hs : Inv s)
    (h : JobsState.event e s = some t) : Step ex s t := by
  have advance : ∀ {id state next}, s.advance id state next = some t → Step ex s t := by
    intro id state next h
    obtain ⟨task, htask, -, rfl⟩ := JobsState.advance_cases h
    refine Quiet.step ⟨rfl, rfl, rfl, rfl, fun id' hid' => ?_, fun _ _ h => h⟩ hs
    by_cases hne : id' = id
    · rw [hne, htask]
      nofun
    · change Function.update s.tasks id (next task) id' ≠ none at hid'
      rwa [Function.update_of_ne hne] at hid'
  cases e with
  | expire id =>
    simp only [JobsState.event] at h
    split at h
    · cases h
    · rename_i j hj
      split at h
      · rename_i hprivate
        cases h
        exact hs.expire hj hprivate
      · cases h
  | renewLock i =>
    cases h
    unfold JobsState.renewed
    split
    · exact Quiet.step ⟨rfl, rfl, rfl, rfl, fun _ h => h, fun _ _ h => h⟩ hs
    · exact (Quiet.refl s).step hs
  | dequeue id => exact advance h
  | complete id => exact advance h
  | archive id lastErr => exact advance h
  | purge id => exact advance h
  | logLine id line =>
    cases h
    exact Quiet.step ⟨rfl, rfl, rfl, rfl, fun _ h => h, fun _ _ h => h⟩ hs
  | tick passed =>
    cases h
    exact Quiet.step ⟨rfl, rfl, rfl, rfl, fun _ h => h, fun _ _ h => h⟩ hs

/-! ### The operations that read -/

theorem still_jobCall {a : JobCall} (ha : Still a) : (jobCall a).Calls Still := .request ha

theorem still_appendLog (id message : String) : (appendLog id message).Calls Still :=
  .bind (still_jobCall trivial) fun _ => still_jobCall trivial

/-- What holds of a program where it holds of its parts, and of the calls that leave the store. -/
structure Compositional (P : ∀ {α : Type}, Service α → Prop) : Prop where
  still : ∀ {α : Type} {p : Service α}, p.Calls Still → P p
  bind : ∀ {α β : Type} {p : Service α} {f : α → Service β}, P p → (∀ x, P (f x)) → P (p >>= f)

section Lists

variable {P : ∀ {α : Type}, Service α → Prop}

theorem Compositional.pure (hP : Compositional P) {α : Type} (x : α) : P (Pure.pure x : Service α) :=
  hP.still (.pure x)

theorem Compositional.call (hP : Compositional P) {a : JobCall} (ha : Still a) : P (jobCall a) :=
  hP.still (still_jobCall ha)

theorem Compositional.refreshAll (hP : Compositional P) (hget : ∀ id, P (getJob id))
    (rules : TextRules) (options : PageOptions) (values : List (Option Job)) (found : List Job) :
    P (refreshAll rules options values found) := by
  induction values generalizing found with
  | nil => exact hP.pure _
  | cons value values ih =>
    cases value with
    | none => exact ih found
    | some job =>
      refine hP.bind ?_ fun job => ih _
      unfold refresh
      split
      · exact hP.pure _
      · refine hP.bind (hget job.id) fun r => ?_
        cases r with
        | error e => exact hP.pure _
        | ok refreshed => exact hP.pure _

theorem Compositional.publicPage (hP : Compositional P) (hget : ∀ id, P (getJob id))
    (rules : TextRules) (options : PageOptions) : P (publicPage rules options) := by
  have publicSlices : ∀ rest found, P (publicSlices rules options rest found) := by
    intro rest
    induction rest with
    | nil => exact fun found => hP.pure _
    | cons ids rest ih =>
      refine fun found => hP.bind (hP.call trivial) fun r => ?_
      cases r with
      | error e => exact hP.pure _
      | ok values => exact hP.bind (hP.refreshAll hget _ _ _ _) fun found => ih found
  unfold Jobs.publicPage
  split
  · exact hP.pure _
  · refine hP.bind (hP.call trivial) fun r => ?_
    cases r with
    | error e => exact hP.pure _
    | ok ids => exact publicSlices _ _

theorem Compositional.fetchIndex (hP : Compositional P) (hget : ∀ id, P (getJob id))
    (rounds offset : Nat) (fetched : Fetched) : P (fetchIndex rounds offset fetched) := by
  have fetchBatch : ∀ batch fetched, P (fetchBatch batch fetched) := by
    intro batch
    induction batch with
    | nil => exact fun fetched => hP.pure _
    | cons id batch ih =>
      refine fun fetched => hP.bind (hget id) fun r => ?_
      cases r with
      | error e => exact hP.pure _
      | ok job =>
        show P (if job.isPrivate = true then _ else _)
        split
        · exact ih fetched
        · show P (if (fetched.add id job).ids.length = 200 then _ else _)
          split
          · exact hP.pure _
          · exact ih _
  induction rounds generalizing offset fetched with
  | zero => exact hP.still ⟨trivial, nofun⟩
  | succ rounds ih =>
    unfold Jobs.fetchIndex
    split
    · exact hP.pure _
    · refine hP.bind (hP.call trivial) fun r => ?_
      cases r with
      | error e => exact hP.pure _
      | ok batch =>
        refine hP.bind (fetchBatch batch fetched) fun r => ?_
        cases r with
        | error e => exact hP.pure _
        | ok fetched =>
          show P (if batch.length < 200 then _ else _)
          split
          · exact hP.pure _
          · exact ih _ _

theorem Compositional.includePages (hP : Compositional P) (state : TaskState) (rounds page : Nat)
    (ids : List String) : P (includePages state rounds page ids) := by
  induction rounds generalizing page ids with
  | zero => exact hP.still ⟨trivial, nofun⟩
  | succ rounds ih =>
    refine hP.bind (hP.call trivial) fun r => ?_
    cases r with
    | error e =>
      cases e with
      | taskNotFound => exact hP.pure _
      | queueNotFound => exact hP.pure _
      | other text => exact hP.pure _
    | ok tasks =>
      show P (if tasks.length < 100 then _ else _)
      split
      · exact hP.pure _
      · exact ih _ _

theorem Compositional.publicList (hP : Compositional P) (hget : ∀ id, P (getJob id))
    (rounds : Nat) : P (publicList rounds) := by
  have fetchRest : ∀ fetched ids list, P (fetchRest fetched ids list) := by
    intro fetched ids
    induction ids with
    | nil => exact fun list => hP.pure _
    | cons id ids ih =>
      intro list
      unfold Jobs.fetchRest
      split
      · exact ih _
      · refine hP.bind (hget id) fun r => ?_
        cases r with
        | error e => exact hP.pure _
        | ok job =>
          show P (if job.isPrivate = true then _ else _)
          split
          · exact ih _
          · exact ih _
  refine hP.bind (hP.fetchIndex hget _ _ _) fun r => ?_
  cases r with
  | error e => exact hP.pure _
  | ok fetched =>
    refine hP.bind (hP.bind (hP.includePages _ _ _ _) fun r => ?_) fun r => ?_
    · cases r with
      | error e => exact hP.pure _
      | ok ids => exact hP.includePages _ _ _ _
    · cases r with
      | error e => exact hP.pure _
      | ok ids => exact fetchRest _ _ _

end Lists

/-! ### The operations that write and delete -/

/-- A save finds the record in the state in which its caller has it. -/
def Prompt : JobCall → JobsState → Prop
  | .save j was, s => (s.records j.id).map (·.state) = was
  | _, _ => True

section Programs

variable {ex : Prop} {i : Nat} {s t : JobsState} {id : String} {α : Type}

abbrev setting (ex : Prop) (i : Nat) : Setting JobCall JobCall.Reply JobChoice JobsState :=
  system.setting (fun _ a _ s => ex → Prompt a s) Inv (Rely ex) (Safe ex) i

abbrev keeping (ex : Prop) (i : Nat) : Keeping (setting ex i) :=
  system.keeping (Rely.refl ex) Rely.trans i

/-- Process `i` keeps to what every process counts on. -/
abbrev Tends (ex : Prop) (i : Nat) (p : Service α) (Q : α → JobsState → Prop) (s : JobsState) :
    Prop := (keeping ex i).Keeps p Q s

abbrev addKeeping (ex : Prop) (i : Nat) : Keeping (setting ex i) where
  Inv := Inv
  le := Grows ex
  refl := Grows.refl ex
  trans _ _ _ h h' := h.trans h'
  rely _ _ _ h := ⟨h.2, h.1.grows⟩

/-- Process `i` may store and index the jobs under its own ids. -/
abbrev Adds (ex : Prop) (i : Nat) (p : Service α) (Q : α → JobsState → Prop) (s : JobsState) :
    Prop := (addKeeping ex i).Keeps p Q s

theorem Adds.of_tends {p : Service α} {Q : α → JobsState → Prop} (h : Tends ex i p Q s) :
    Adds ex i p (fun x t => Rely ex i s t ∧ Q x t) s :=
  Keeping.Keeps.coarsen h (fun _ => Iff.rfl) fun _ _ h => h.grows

theorem tends_request {a : JobCall} {Q : a.Reply → JobsState → Prop}
    (h : ∀ s1, Rely ex i s s1 → Inv s1 → (ex → Prompt a s1) → ∀ c r t,
      JobsState.perform i a c s1 = some (r, t) → Step ex s1 t ∧ Q r t) :
    Tends ex i (jobCall a) Q s :=
  .request fun s1 hst hs1 c r t hc hp =>
    have ht := h s1 hst hs1 hc c r t hp
    ⟨⟨ht.1.inv, ht.1.safe, fun k _ => ht.1.all k⟩, ht.1.inv, ht.1.all i, ht.2⟩

theorem adds_request {a : JobCall} {Q : a.Reply → JobsState → Prop}
    (h : ∀ s1, Rely ex i s s1 → Inv s1 → ∀ c r t, JobsState.perform i a c s1 = some (r, t) →
      (Inv t ∧ Safe ex s1 t ∧ (∀ k, k ≠ i → Rely ex k s1 t) ∧ Grows ex s1 t) ∧ Q r t) :
    Adds ex i (jobCall a) Q s := by
  rintro - s1 ⟨hst, hs1⟩ c r t - hp
  obtain ⟨⟨ht, hsafe, hothers, hgrows⟩, hr⟩ := h s1 hst hs1 c r t hp
  exact ⟨⟨ht, hsafe, hothers⟩, ht, hst.grows.trans hgrows, hr⟩

theorem tends_still {p : Service α} (h : p.Calls Still) : Tends ex i p (fun _ _ => True) s := by
  refine Keeping.Tolerates.keeps (fun a ha s c r t hs _ hp => ?_) h
  have hstep : Step ex s t := (perform_quiet hp ha).step hs
  exact ⟨⟨hstep.inv, hstep.safe, fun k _ => hstep.all k⟩, hstep.inv, hstep.all i⟩

/-- Such calls keep a fact that `rely` keeps. -/
theorem adds_keep {p : Service α} {P : JobsState → Prop} (h : p.Calls Still)
    (hP : ∀ t, Rely ex i s t → P t) : Adds ex i p (fun _ t => P t) s :=
  (Adds.of_tends (tends_still h)).mono fun _ t _ ht => hP t ht.1

theorem compositional_tends (ex : Prop) (i : Nat) :
    Compositional fun {α} (p : Service α) => ∀ s, Tends ex i p (fun _ _ => True) s where
  still h _ := tends_still h
  bind hp hf s := .bind (hp s) fun x t _ _ => hf x t

/-- A save over a record that the caller has as not ended, of a job that is known. -/
theorem tends_save {j : Job} {was : State} (h : Known s j.id) (hwas : was.terminal = false)
    (hj : j.state ≠ .pending) :
    Tends ex i (jobCall (.save j (some was))) (fun _ _ => True) s := by
  refine tends_request fun s1 hst hs1 hprompt c r t hp => ⟨?_, trivial⟩
  obtain rfl | ⟨rfl, -⟩ := JobsState.save_cases hp
  · refine hs1.save_known (hst.grows.known _ h) hj fun hex hover => ?_
    obtain ⟨stored, hstored, hsame⟩ := Option.map_eq_some_iff.mp (hprompt hex)
    have hend := hover stored hstored
    rw [hsame, hwas] at hend
    cases hend
  · exact (Quiet.refl t).step hs1

theorem tends_failArchived {lastErr : String} {j : Job} (h : Known s j.id)
    (hopen : j.state.terminal = false) :
    Tends ex i (failArchived id j lastErr)
      (fun r _ => ∀ j', r = .ok j' → j'.id = j.id) s := by
  refine .bind (tends_still (still_appendLog _ _)) fun r t hst _ => ?_
  cases r with
  | error e => exact .pure nofun
  | ok _ =>
    refine .bind (tends_still (still_jobCall trivial)) fun now u htu _ => ?_
    have hknown : Known u j.id := htu.grows.known _ (hst.grows.known _ h)
    refine .bind (tends_save (by exact hknown) hopen nofun) fun r v _ _ => ?_
    cases r with
    | error e => exact .pure nofun
    | ok _ =>
      refine .bind (tends_still (still_jobCall trivial)) fun r w _ _ => ?_
      cases r with
      | error e => exact .pure nofun
      | ok logs =>
        refine .pure fun j' hj' => ?_
        cases hj'
        rfl

theorem tends_get :
    Tends ex i (jobCall (.get id)) (fun r _ => ∀ j, r = .ok j → j.id = id) s := by
  refine tends_request fun s1 _ hs1 _ c r t hp => ⟨(perform_quiet hp trivial).step hs1, ?_⟩
  exact fun j hj => hs1.own id j ((JobsState.get_cases hp).2 j hj)

theorem mem_of_info {info : TaskInfo} (h : s.info id = .ok info) : s.tasks id ≠ none := by
  unfold JobsState.info at h
  split at h
  · cases h
  · split at h
    · cases h
    · rename_i task htask
      rw [htask]
      nofun

/-- A task that asynq still has is one of a known job. -/
theorem tends_taskInfo :
    Tends ex i (jobCall (.taskInfo id)) (fun r t => ∀ info, r = .ok info → Known t id) s := by
  refine tends_request fun s1 _ hs1 _ c r t hp => ⟨(perform_quiet hp trivial).step hs1, ?_⟩
  intro info hr
  cases c with
  | ok =>
    change some (s1.info id, s1) = some (r, t) at hp
    rw [Option.some.injEq, Prod.mk.injEq] at hp
    obtain ⟨hinfo, rfl⟩ := hp
    exact hs1.known_queued (hs1.listed id (mem_of_info (hinfo.trans hr)))
  | fail e =>
    cases hp
    cases hr
  | lost e => cases hp
  | fresh id' => cases hp
  | outcome result actionErr => cases hp

theorem tends_getJob (id : String) :
    Tends ex i (getJob id) (fun r _ => ∀ j, r = .ok j → j.id = id) s := by
  refine .bind tends_get fun r t _ ht => ?_
  cases r with
  | error e => exact .pure nofun
  | ok stored =>
    have hid : stored.id = id := ht stored rfl
    have hlogs : ∀ u, Tends ex i (withLogs id { stored with label := labelOf stored.action })
        (fun r _ => ∀ j, r = .ok j → j.id = id) u := by
      refine fun u => .bind (tends_still (still_jobCall trivial)) fun r v _ _ => ?_
      cases r with
      | error e => exact .pure nofun
      | ok logs =>
        refine .pure fun j hj => ?_
        cases hj
        exact hid
    show Tends ex i (if stored.state.terminal = true then _ else _) _ _
    split
    · exact hlogs t
    · rename_i hopen
      refine .bind tends_taskInfo fun r u _ hu => ?_
      cases r with
      | error e => exact hlogs u
      | ok info =>
        show Tends ex i (if info.state = .archived then _ else _) _ _
        split
        · have hknown : Known u { stored with label := labelOf stored.action }.id :=
            hid ▸ hu info rfl
          exact (tends_failArchived hknown (by simpa using hopen)).mono fun r v _ hr j hj =>
            (hr j hj).trans hid
        · exact hlogs u

/-! The trim. -/

/-- What a trim reads of the index is all but its newest entries. -/
theorem zslice_stale (l : List String) :
    zslice 0 (-((historyLimit : Int) + 1)) l = l.take (l.length - historyLimit) := by
  have hneg : -((historyLimit : Int) + 1) < 0 := by omega
  have hlast : (-((historyLimit : Int) + 1) + l.length + 1 - (0 : Nat)).toNat =
      l.length - historyLimit := by omega
  have hfirst : (max (0 : Int) (if (0 : Int) < 0 then 0 + l.length else 0)).toNat = 0 := rfl
  unfold zslice
  simp only [hfirst, if_pos hneg, List.drop_zero]
  rw [hlast]

theorem Inv.deep_stale (hs : Inv s)
    (h : id ∈ zslice 0 (-((historyLimit : Int) + 1)) (s.index.map (·.2))) : Deep s id := by
  rw [zslice_stale] at h
  refine ⟨hs.known_indexed (List.mem_of_mem_take h), ?_⟩
  rw [newest, map_recent]
  exact not_mem_recent_of_mem_take hs.distinct h

theorem tends_stale :
    Tends ex i (jobCall (.zrange 0 (-((historyLimit : Int) + 1))))
      (fun r t => ∀ stale, r = .ok stale → ∀ id ∈ stale, Deep t id) s := by
  refine tends_request fun s1 _ hs1 _ c r t hp => ⟨(perform_quiet hp trivial).step hs1, ?_⟩
  rintro stale rfl id hid
  obtain ⟨rfl, hr | ⟨e, hr⟩⟩ := JobChoice.query_cases hp
  · cases hr
    exact hs1.deep_stale hid
  · cases hr

/-- The records that a trim reads: those that may go have ended or are missing. -/
theorem tends_values {stale : List String} :
    Tends ex i (jobCall (.mget stale)) (fun r t => ∀ values, r = .ok values →
      ∀ id ∈ ((stale.zip values).filter trimmable).map Prod.fst, id ∈ stale ∧ Over t id) s := by
  refine tends_request fun s1 _ hs1 _ c r t hp => ⟨(perform_quiet hp trivial).step hs1, ?_⟩
  rintro values rfl id hid
  obtain ⟨rfl, hr | ⟨e, hr⟩⟩ := JobChoice.query_cases hp
  · cases hr
    obtain ⟨⟨id', value⟩, hmem, rfl⟩ := List.mem_map.mp hid
    obtain ⟨hzip, htrim⟩ := List.mem_filter.mp hmem
    have hpairs : stale.zip (stale.map t.records) = stale.map fun id => (id, t.records id) := by
      conv =>
        lhs
        rw [← List.map_id stale, List.map_map]
      exact List.zip_map'
    rw [hpairs] at hzip
    obtain ⟨id, hid', heq⟩ := List.mem_map.mp hzip
    cases heq
    refine ⟨hid', fun j hj => ?_⟩
    rw [hj] at htrim
    exact htrim
  · cases hr

theorem tends_trimHistory : Tends ex i trimHistory (fun _ _ => True) s := by
  refine .bind tends_stale fun r t _ ht => ?_
  cases r with
  | error e => exact .pure trivial
  | ok stale =>
    have hdeep := ht stale rfl
    show Tends ex i (if stale = [] then _ else _) _ _
    split
    · exact .pure trivial
    · refine .bind tends_values fun r u htu hu => ?_
      cases r with
      | error e => exact .pure trivial
      | ok values =>
        have hover := hu values rfl
        show Tends ex i (if _ = [] then _ else _) _ _
        split
        · exact .pure trivial
        · refine .bind (P := fun _ _ => True) ?_ fun _ _ _ _ => .pure trivial
          refine tends_request fun s1 hus hs1 _ c r v hp => ⟨?_, trivial⟩
          obtain rfl | ⟨rfl, -⟩ := JobChoice.command_cases hp
          · have hdeep' : ∀ id ∈ ((stale.zip values).filter trimmable).map Prod.fst, Deep u id :=
              fun id hid => htu.grows.deep id (hdeep id (hover id hid).1)
            exact hs1.trim (fun id hid => hus.grows.deep id (hdeep' id hid)) fun hex id hid =>
              hus.grows.ended hex id (hdeep' id hid).known (hover id hid).2
          · exact (Quiet.refl v).step hs1

/-! `Submit`. -/

/-- An id of process `i`, under which nothing has been stored. -/
structure Own (i : Nat) (id : String) (s : JobsState) : Prop where
  issued : s.issued id = some i
  unsaved : ¬Saved s id

theorem Own.mono (h : Own i id s) (hst : Rely ex i s t) : Own i id t :=
  ⟨hst.grows.issued id i h.issued, hst.unsaved id h.issued h.unsaved⟩

/-- A stored job of process `i` that may still have to be added to the index. -/
structure Stored (i : Nat) (j : Job) (s : JobsState) : Prop where
  issued : s.issued j.id = some i
  ready : j.isPrivate = false → Fresh s j.id
  known : j.isPrivate = true → Known s j.id

theorem Stored.mono {j : Job} (h : Stored i j s) (hst : Rely ex i s t) : Stored i j t :=
  ⟨hst.grows.issued _ i h.issued, fun hpublic => hst.fresh _ h.issued (h.ready hpublic),
    fun hprivate => hst.grows.known _ (h.known hprivate)⟩

theorem adds_newString : Adds ex i (jobCall .newString) (fun id t => Own i id t) s := by
  refine adds_request fun s1 _ hs1 c id t hp => ?_
  have hquiet := perform_quiet hp trivial
  have hstep : Step ex s1 t := hquiet.step hs1
  refine ⟨⟨hstep.inv, hstep.safe, fun k _ => hstep.all k, (hstep.all i).grows⟩, ?_⟩
  obtain ⟨hfree, rfl⟩ := JobsState.newString_cases hp
  exact ⟨by simp, fun hsaved => hs1.issued id hsaved hfree⟩

theorem adds_save_new {j : Job} (h : Own i j.id s) (hpending : j.state = .pending) :
    Adds ex i (jobCall (.save j none)) (fun r t => r = .ok () → Stored i j t) s := by
  refine adds_request fun s1 hst hs1 c r t hp => ?_
  have hown := h.mono hst
  obtain rfl | ⟨rfl, e, rfl⟩ := JobsState.save_cases hp
  · obtain ⟨hready, hknown⟩ := hs1.after_new hown.unsaved hpending
    exact ⟨hs1.save_new hown.issued hown.unsaved, fun _ => ⟨hown.issued, hready, hknown⟩⟩
  · have hstep : Step ex t t := (Quiet.refl t).step hs1
    exact ⟨⟨hstep.inv, hstep.safe, fun k _ => hstep.all k, (hstep.all i).grows⟩, nofun⟩

theorem adds_addToIndex {j : Job} (h : Stored i j s) :
    Adds ex i (addToIndex j) (fun r t => r = .ok () → Known t j.id) s := by
  unfold addToIndex
  split
  · rename_i hprivate
    exact .pure fun _ => h.known hprivate
  · rename_i hpublic
    have hzadd : Adds ex i (jobCall (.zadd (j.createdAt / 1000000) j.id))
        (fun r t => r = .ok () → Known t j.id) s := by
      refine adds_request fun s1 hst hs1 c r t hp => ?_
      have hstored := h.mono hst
      obtain rfl | ⟨rfl, e, rfl⟩ := JobChoice.command_cases hp
      · obtain ⟨hinv, hsafe, hothers, hgrows, hknown⟩ : Inv _ ∧ Safe ex s1 _ ∧ _ :=
          hs1.index hstored.issued (hstored.ready (by simpa using hpublic)) (j.createdAt / 1000000)
        exact ⟨⟨hinv, hsafe, hothers, hgrows⟩, fun _ => hknown⟩
      · have hstep : Step ex t t := (Quiet.refl t).step hs1
        exact ⟨⟨hstep.inv, hstep.safe, fun k _ => hstep.all k, (hstep.all i).grows⟩, nofun⟩
    refine .bind hzadd fun r t _ ht => ?_
    cases r with
    | error e => exact .pure nofun
    | ok _ =>
      refine .bind (Adds.of_tends tends_trimHistory) fun _ u _ htu => ?_
      exact .pure fun _ => htu.1.grows.known _ (ht rfl)

theorem adds_submit (payload : Payload) : Adds ex i (submit payload) (fun _ _ => True) s := by
  refine .bind adds_newString fun id t _ hown => ?_
  refine .bind (adds_keep (still_jobCall trivial) fun u htu => hown.mono htu) fun now u _ hown => ?_
  refine .bind (adds_save_new (by exact hown) rfl) fun r v _ hv => ?_
  cases r with
  | error e => exact .pure trivial
  | ok _ =>
    refine .bind (adds_addToIndex (hv rfl)) fun r w _ hw => ?_
    cases r with
    | error e => exact .pure trivial
    | ok _ =>
      have hknown : Known w id := hw rfl
      have henqueue : Tends ex i (jobCall (.enqueue { payload with id })) (fun _ _ => True) w := by
        refine tends_request fun s1 hst hs1 _ c r x hp => ⟨?_, trivial⟩
        obtain ⟨-, rfl⟩ | rfl := JobsState.enqueue_cases hp
        · exact hs1.enqueue (by exact hst.grows.known _ hknown)
        · exact (Quiet.refl x).step hs1
      refine .bind (Adds.of_tends henqueue) fun r x _ hwx => ?_
      cases r with
      | ok _ => exact .pure trivial
      | error e =>
        refine .bind (Adds.of_tends (tends_still (still_jobCall trivial))) fun now y _ hxy => ?_
        have hknown' : Known y id := hxy.1.grows.known _ (hwx.1.grows.known _ hknown)
        refine .bind (Adds.of_tends (tends_save (by exact hknown') rfl nofun)) fun _ _ _ _ => ?_
        exact .pure trivial

/-! The worker. -/

theorem tends_runJob (payload : Payload) (h : Known s payload.id) :
    Tends ex i (runJob payload) (fun _ _ => True) s := by
  refine .bind (tends_getJob payload.id) fun r t hst ht => ?_
  cases r with
  | error e => exact .pure trivial
  | ok j =>
    have hid : j.id = payload.id := ht j rfl
    have hknown : Known t j.id := by
      rw [hid]
      exact hst.grows.known _ h
    show Tends ex i (if j.state.terminal = true then _ else _) _ _
    split
    · exact .pure trivial
    · rename_i hopen
      show Tends ex i (if j.startedAt.isSome = true then _ else _) _ _
      split
      · exact .pure trivial
      · refine .bind (tends_still (still_jobCall trivial)) fun now u htu _ => ?_
        have hknown := htu.grows.known _ hknown
        refine .bind (tends_save (by exact hknown) (by simpa using hopen) nofun) fun r v huv _ => ?_
        have hknown := huv.grows.known _ hknown
        cases r with
        | error e => exact .pure trivial
        | ok _ =>
          refine .bind (tends_still (still_appendLog _ _)) fun r w hvw _ => ?_
          have hknown := hvw.grows.known _ hknown
          cases r with
          | error e => exact .pure trivial
          | ok _ =>
            have hexecute : (execute payload).Calls Still :=
              .bind (still_jobCall trivial) fun _ => still_jobCall trivial
            refine .bind (tends_still hexecute) fun ran x hwx _ => ?_
            have hknown := hwx.grows.known _ hknown
            refine .bind (tends_still (still_jobCall trivial)) fun now y hxy _ => ?_
            have hknown := hxy.grows.known _ hknown
            refine .bind (tends_still (still_appendLog _ _)) fun r z hyz _ => ?_
            have hknown := hyz.grows.known _ hknown
            cases r with
            | error e => exact .pure trivial
            | ok _ =>
              refine .bind (P := fun _ _ => True) ?_ fun r _ _ _ => ?_
              · obtain ⟨result, actionErr⟩ := ran
                cases actionErr with
                | none => exact tends_save (by exact hknown) rfl nofun
                | some e => exact tends_save (by exact hknown) rfl nofun
              · cases r with
                | error e => exact .pure trivial
                | ok _ => exact .pure trivial

theorem tends_processTask {task : Except String Payload}
    (h : ∀ payload, task = .ok payload → Known s payload.id) :
    Tends ex i (processTask task) (fun _ _ => True) s := by
  have hacquire : Tends ex i acquireLock (fun _ _ => True) s := by
    refine .bind (tends_still (still_jobCall trivial)) fun token t _ _ => ?_
    refine .bind (tends_still (still_jobCall trivial)) fun r u _ _ => ?_
    cases r with
    | error e => exact .pure trivial
    | ok _ => exact .pure trivial
  refine .bind hacquire fun r t hst _ => ?_
  cases r with
  | error e => exact .pure trivial
  | ok token =>
    have hrun : Tends ex i (runTask task) (fun _ _ => True) t := by
      cases task with
      | error e => exact .pure trivial
      | ok payload => exact tends_runJob payload (hst.grows.known _ (h payload rfl))
    refine .bind hrun fun result u _ _ => ?_
    exact .bind (tends_still (still_jobCall trivial)) fun _ _ _ _ => .pure trivial

/-! `ReconcileOrphans`. -/

theorem tends_reconcileJob {job : Job} (h : Known s job.id) :
    Tends ex i (reconcileJob job) (fun _ _ => True) s := by
  unfold reconcileJob
  split
  · exact .pure trivial
  · rename_i hopen
    have failOrphan : ∀ u lastErr, Rely ex i s u →
        Tends ex i (failOrphan job lastErr) (fun _ _ => True) u := by
      intro u lastErr hsu
      refine .bind (tends_still (still_jobCall trivial)) fun now v huv _ => ?_
      refine .bind (tends_still (still_appendLog _ _)) fun r w hvw _ => ?_
      have hknown : Known w job.id :=
        hvw.grows.known _ (huv.grows.known _ (hsu.grows.known _ h))
      refine .bind (tends_save (by exact hknown) (by simpa using hopen) nofun) fun _ _ _ _ => ?_
      exact .pure trivial
    refine .bind (tends_still (still_jobCall trivial)) fun now t hst _ => ?_
    show Tends ex i (if now < job.createdAt + minute then _ else _) _ _
    split
    · exact .pure trivial
    · refine .bind (tends_still (still_jobCall trivial)) fun r u htu _ => ?_
      have hsu := Rely.trans i s t u hst htu
      cases r with
      | error e =>
        cases e with
        | other text => exact .pure trivial
        | taskNotFound => exact failOrphan u _ hsu
        | queueNotFound => exact failOrphan u _ hsu
      | ok info =>
        show Tends ex i (if info.state = .archived then _ else _) _ _
        split
        · exact failOrphan u _ hsu
        · exact .pure trivial

theorem tends_reconcileOrphans : Tends ex i reconcileOrphans (fun _ _ => True) s := by
  have reconcileValues : ∀ values s, (∀ j, some j ∈ values → Known s j.id) →
      Tends ex i (reconcileValues values) (fun _ _ => True) s := by
    intro values
    induction values with
    | nil => exact fun s _ => .pure trivial
    | cons value values ih =>
      intro s h
      have hrest : ∀ t, Rely ex i s t → ∀ j, some j ∈ values → Known t j.id := fun t hst j hj =>
        hst.grows.known _ (h j (List.mem_cons_of_mem _ hj))
      cases value with
      | none => exact ih s (hrest s (.refl ex i s))
      | some job =>
        exact .bind (tends_reconcileJob (h job List.mem_cons_self)) fun _ t hst _ =>
          ih t (hrest t hst)
  have reconcileSlices : ∀ rest s, (∀ ids ∈ rest, ∀ id ∈ ids, Known s id) →
      Tends ex i (reconcileSlices rest) (fun _ _ => True) s := by
    intro rest
    induction rest with
    | nil => exact fun s _ => .pure trivial
    | cons ids rest ih =>
      intro s h
      have hmget : Tends ex i (jobCall (.mget ids))
          (fun r t => ∀ values, r = .ok values → ∀ j, some j ∈ values → Known t j.id) s := by
        refine tends_request fun s1 hst hs1 _ c r t hp => ⟨(perform_quiet hp trivial).step hs1, ?_⟩
        rintro values rfl j hj
        obtain ⟨rfl, hr | ⟨e, hr⟩⟩ := JobChoice.query_cases hp
        · cases hr
          obtain ⟨id, hid, hj⟩ := List.mem_map.mp hj
          rw [hs1.own id j hj]
          exact hst.grows.known _ (h ids List.mem_cons_self id hid)
        · cases hr
      refine .bind hmget fun r t hst ht => ?_
      cases r with
      | error e => exact .pure trivial
      | ok values =>
        refine .bind (reconcileValues values t (ht values rfl)) fun _ u htu _ => ih u ?_
        exact fun ids hids id hid => htu.grows.known _
          (hst.grows.known _ (h ids (List.mem_cons_of_mem _ hids) id hid))
  have hzrange : Tends ex i (jobCall (.zrange 0 (-1)))
      (fun r t => ∀ ids, r = .ok ids → ∀ id ∈ ids, Known t id) s := by
    refine tends_request fun s1 _ hs1 _ c r t hp => ⟨(perform_quiet hp trivial).step hs1, ?_⟩
    rintro ids rfl id hid
    obtain ⟨rfl, hr | ⟨e, hr⟩⟩ := JobChoice.query_cases hp
    · cases hr
      exact hs1.known_indexed (List.mem_of_mem_drop (List.mem_of_mem_take hid))
    · cases hr
  refine .bind hzrange fun r t _ ht => ?_
  cases r with
  | error e => exact .pure trivial
  | ok ids =>
    refine reconcileSlices _ t fun slice hslice id hid => ht ids rfl id ?_
    obtain ⟨k, -, rfl⟩ := List.mem_map.mp hslice
    exact List.mem_of_mem_drop (List.mem_of_mem_take hid)

theorem wp_codeOf (op : JobsOp) (hs : Inv s) :
    wp (setting ex i) (codeOf op) (fun _ _ => True) s := by
  have kept : ∀ {β : Type} {p : Service β}, Tends ex i p (fun _ _ => True) s →
      wp (setting ex i) (p >>= fun _ => pure ()) (fun _ _ => True) s :=
    fun hp => wp_seq (hp hs) fun _ _ _ => trivial
  have hget : ∀ id s, Tends ex i (getJob id) (fun _ _ => True) s := fun id s =>
    (tends_getJob id).mono fun _ _ _ _ => trivial
  cases op with
  | submit payload => exact wp_seq (adds_submit payload hs) fun _ _ _ => trivial
  | processTask task =>
    cases task with
    | error e => exact kept (tends_processTask nofun)
    | ok payload =>
      refine wp_seq (tends_taskInfo hs) ?_
      rintro r t ⟨ht, -, hinfo⟩
      cases r with
      | error e => trivial
      | ok info =>
        show wp (setting ex i) (if info.state = .active then _ else _) _ _
        split
        · refine wp_seq (tends_processTask (fun p hp => ?_) ht) fun _ _ _ => trivial
          cases hp
          exact hinfo info rfl
        · trivial
  | get id => exact kept (hget id s)
  | publicPage rules options =>
    exact kept ((compositional_tends ex i).publicPage (fun id => hget id) rules options s)
  | publicList rounds =>
    exact kept ((compositional_tends ex i).publicList (fun id => hget id) rounds s)
  | reconcileOrphans => exact wp_mono (tends_reconcileOrphans hs) fun _ _ _ => trivial

end Programs

/-! ### Runs -/

theorem Inv.empty : Inv {} where
  own _ _ h := by cases h
  stored _ _ h := by cases h
  issued _ h := by
    obtain ⟨j, hj, -⟩ := h
    cases hj
  indexed _ h := by cases h
  distinct := List.nodup_nil
  listed _ h := absurd rfl h
  queued _ h := by cases h

def outline (ex : Prop) : system.Outline (fun _ a _ s => ex → Prompt a s) {} where
  Inv := Inv
  idle _ _ := True
  rely := Rely ex
  guar := Safe ex
  refl := Rely.refl ex
  trans := Rely.trans
  stable _ _ _ h _ := h
  init := ⟨.empty, fun _ => trivial⟩
  code _ op _ hs _ := wp_codeOf op hs
  die i s hs := by
    have hstep : Step ex s ((s.holding i none).doing i none) :=
      Quiet.step ⟨rfl, rfl, rfl, rfl, fun _ h => h, fun _ _ h => h⟩ hs
    exact ⟨hstep.inv, trivial, hstep.safe, fun k _ => hstep.all k⟩
  env _ _ _ hs h := by
    have hstep : Step ex _ _ := event_step hs h
    exact ⟨hstep.inv, hstep.safe, hstep.all⟩

/-- The configurations of a run. -/
abbrev Running := Config JobCall JobCall.Reply JobsState Unit

theorem safe_refl {ex : Prop} (s : JobsState) : Safe ex s s :=
  .of_kept (fun _ he => he) fun id j hj _ => by
    rw [hj]
    nofun

theorem safe_move {ex : Prop} {g g' : Running} {m : Move JobChoice JobsOp JobsEvent}
    (hg : system.Reach (fun _ a _ s => ex → Prompt a s) {} g)
    (hm : System.Permits (fun _ a _ s => ex → Prompt a s) g m) (h : system.move g m = some g') :
    Safe ex g.shared g'.shared := by
  obtain ⟨-, hsame | hsafe⟩ := System.Outline.step ((outline ex).holds hg) hm h
  · rw [hsame]
    exact safe_refl _
  · exact hsafe

/-- In a run the history never gets shorter than it was, below its limit. -/
theorem history_length {g g' : Running} (hg : system.Reach (fun _ _ _ _ => True) {} g)
    (hpath : system.Path (fun _ _ _ _ => True) (fun _ => True) g g') :
    min historyLimit g.shared.index.length ≤ g'.shared.index.length := by
  refine (outline False).along (hg.mono _ fun _ _ _ _ _ => False.elim)
    (hpath.mono _ fun _ _ _ _ _ => False.elim)
    (K := fun s => min historyLimit g.shared.index.length ≤ s.index.length) (min_le_right _ _) ?_
  intro s t hs hsafe _ _ hlength
  have hnodup : (newest s).Nodup := (hs.distinct.of_map _).sublist (List.drop_sublist _ _)
  have hnewest : (newest s).length ≤ t.index.length :=
    (List.subperm_of_subset hnodup fun e he => hsafe.newest e he).length_le
  rw [newest, length_recent] at hnewest
  omega

/-- Whatever the processes do at the same time, no move takes one of the newest entries out of the
index; an entry goes together with its record and its log, and a public record goes together with
its log and its entry. -/
theorem newest_kept {g g' : Running} {m : Move JobChoice JobsOp JobsEvent}
    (hg : system.Reach (fun _ _ _ _ => True) {} g) (hm : system.move g m = some g') :
    (∀ e ∈ newest g.shared, e ∈ g'.shared.index) ∧
      (∀ e ∈ g.shared.index, e ∉ g'.shared.index →
        g'.shared.records e.2 = none ∧ g'.shared.logs e.2 = []) ∧
      ∀ id j, g.shared.records id = some j → j.isPrivate = false → g'.shared.records id = none →
        g'.shared.logs id = [] ∧ id ∉ g'.shared.index.map (·.2) := by
  have hsafe : Safe False g.shared g'.shared := by
    refine safe_move (hg.mono _ fun _ _ _ _ _ => False.elim) ?_ hm
    cases m with
    | call i c => exact fun _ _ _ => False.elim
    | _ => exact trivial
  exact ⟨hsafe.newest, hsafe.entry, hsafe.record⟩

/-- The worker of a job begins it while a second job is submitted. -/
def twoJobs : List (Move JobChoice JobsOp JobsEvent) :=
  submitting "a" ++ [.begin 1 (.processTask (.ok { id := "a", action := "vm.start", target := "v" })),
    .call 1 .ok, .call 1 (.fresh "t"), .call 1 .ok] ++ submitting "b" ++
    [.call 1 .ok, .call 1 .ok, .call 1 .ok, .call 1 .ok, .call 1 .ok]

theorem newest_kept_twoJobs : ∃ g g', system.moves ⟨{}, fun _ => none⟩ twoJobs = some g ∧
    system.move g (.call 1 .ok) = some g' ∧ newest g.shared = [(0, "a"), (0, "b")] ∧
    ∀ e ∈ newest g.shared, e ∈ g'.shared.index := by
  have hrun : ∃ g g', system.moves ⟨{}, fun _ => none⟩ twoJobs = some g ∧
      system.move g (.call 1 .ok) = some g' ∧ newest g.shared = [(0, "a"), (0, "b")] :=
    ⟨_, _, rfl, rfl, rfl⟩
  obtain ⟨g, g', hg, hmove, hnewest⟩ := hrun
  exact ⟨g, g', hg, hmove, hnewest, (newest_kept (system.reach_moves .start hg) hmove).1⟩

/-- A public job stays on record as long as none of its records has ended. -/
def Kept (s : JobsState) (id : String) : Prop :=
  Saved s id → (∀ j ∈ s.saves, j.id = id → j.isPrivate = false ∧ j.state.terminal = false) →
    s.records id ≠ none

theorem Kept.save {s : JobsState} {id : String} (h : Kept s id) (j : Job) : Kept (s.saved j) id := by
  intro hsaved hopen
  rw [records_saved]
  split
  · nofun
  · rename_i hne
    obtain hsame | hsaved := saved_saved.mp hsaved
    · exact absurd hsame.symm hne
    · exact h hsaved fun j' hj' => hopen j' (List.mem_cons_of_mem _ hj')

theorem Kept.of_safe {s t : JobsState} {id : String} (h : Kept s id) (hs : Inv s)
    (hsafe : Safe True s t) (hsaves : t.saves = s.saves) : Kept t id := by
  intro hsaved hopen
  rw [Saved, hsaves] at hsaved
  rw [hsaves] at hopen
  obtain ⟨j, hj⟩ := Option.ne_none_iff_exists'.mp (h hsaved hopen)
  obtain ⟨hpublic, hend⟩ := hopen j (hs.stored id j hj) (hs.own id j hj)
  exact hsafe.unended trivial id j hj hpublic hend

theorem kept_move {g g' : Running} {m : Move JobChoice JobsOp JobsEvent}
    (hg : system.Reach (fun _ a _ s => True → Prompt a s) {} g)
    (hm : System.Permits (fun _ a _ s => True → Prompt a s) g m) (h : system.move g m = some g')
    {id : String} (hkept : Kept g.shared id) : Kept g'.shared id := by
  have hs : Inv g.shared := (outline True).invariant hg
  have hsafe := safe_move hg hm h
  obtain hsame | ⟨i, a, c, r, -, hp⟩ | ⟨i, -, hdie⟩ | ⟨e, -, he⟩ := system.move_cases h
  · exact hsame ▸ hkept
  · obtain ⟨hsaves, -⟩ | ⟨j, was, -, hsave⟩ := JobsState.perform_saves hp
    · exact hkept.of_safe hs hsafe hsaves
    · exact hsave ▸ hkept.save j
  · exact hkept.of_safe hs hsafe (by rw [hdie]; rfl)
  · exact hkept.of_safe hs hsafe (JobsState.event_untouched he).saves

/-- Where every save finds the record as its caller has it, a public job that was stored stays on
record until it has ended, however old it gets. -/
theorem unended_kept {g : Running} (hg : system.Reach (fun _ a _ s => Prompt a s) {} g) {j : Job}
    (hj : j ∈ g.shared.saves)
    (hopen : ∀ j' ∈ g.shared.saves, j'.id = j.id →
      j'.isPrivate = false ∧ j'.state.terminal = false) :
    g.shared.records j.id ≠ none := by
  have hkept : Kept g.shared j.id := by
    clear hj hopen
    induction hg with
    | start =>
      rintro ⟨j, hj, -⟩
      cases hj
    | move m hg hm h ih =>
      exact kept_move (hg.mono _ fun _ _ _ _ h _ => h) (hm.mono fun _ _ _ _ h _ => h) h ih
  exact hkept ⟨j, hj, rfl⟩ hopen

/-- `Prompt`, decided. -/
def prompt : JobCall → JobsState → Bool
  | .save j was, s => (s.records j.id).map (·.state) = was
  | _, _ => true

theorem prompt_iff {a : JobCall} {s : JobsState} (h : prompt a s = true) : Prompt a s := by
  cases a with
  | save j was => exact of_decide_eq_true (p := (s.records j.id).map (·.state) = was) h
  | _ => trivial

theorem unended_kept_twoJobs : ∃ g,
    system.movesChecked (fun _ a _ s => prompt a s) ⟨{}, fun _ => none⟩ twoJobs = some g ∧
    g.shared.records "b" ≠ none := by
  have hrun : ∃ g,
      system.movesChecked (fun _ a _ s => prompt a s) ⟨{}, fun _ => none⟩ twoJobs = some g ∧
      g.shared.saves.map (fun j => (j.id, j.isPrivate, j.state)) =
        [("a", false, .running), ("b", false, .pending), ("a", false, .pending)] :=
    ⟨_, rfl, rfl⟩
  obtain ⟨g, hg, hsaves⟩ := hrun
  have hsaved : ∀ j ∈ g.shared.saves, j.isPrivate = false ∧ j.state.terminal = false := by
    intro j hj
    have hmem := List.mem_map_of_mem (f := fun j : Job => (j.id, j.isPrivate, j.state)) hj
    rw [hsaves] at hmem
    simp only [List.mem_cons, Prod.mk.injEq, List.not_mem_nil, or_false] at hmem
    obtain ⟨-, hpublic, hstate⟩ | ⟨-, hpublic, hstate⟩ | ⟨-, hpublic, hstate⟩ := hmem <;>
      exact ⟨hpublic, by rw [hstate]; rfl⟩
  obtain ⟨j, hj, hid⟩ : ∃ j ∈ g.shared.saves, (j.id, j.isPrivate, j.state) =
      ("b", false, .pending) :=
    List.mem_map.mp (hsaves ▸ List.mem_cons_of_mem _ List.mem_cons_self)
  refine ⟨g, hg, ?_⟩
  rw [show "b" = j.id from (congrArg Prod.fst hid).symm]
  exact unended_kept (system.reach_movesChecked (fun _ _ _ _ h => prompt_iff h) .start hg) hj
    fun j' hj' _ => hsaved j' hj'

end Maco.Jobs.Trimming
