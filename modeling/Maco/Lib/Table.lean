import Mathlib.Data.List.Basic

/-! Tables: association lists by name, where the first entry of a name counts. -/

/-- The entries of a table, by name. -/
abbrev Table (α : Type) := List (String × α)

namespace Table

variable {α : Type}

def get (t : Table α) (name : String) : Option α := t.lookup name

/-- What is left when names are removed. -/
def without (t : Table α) (removed : List String) : Table α := t.filter fun e => e.1 ∉ removed

def put (t : Table α) (name : String) (x : α) : Table α := (name, x) :: t.without [name]

/-- The entry, put before the entries with later names. -/
def insert (e : String × α) : Table α → Table α
  | [] => [e]
  | x :: t => if e.1 ≤ x.1 then e :: x :: t else x :: insert e t

/-- The entries in the order of their names. -/
def sorted (t : Table α) : Table α := t.foldr insert []

@[simp] theorem get_nil (name : String) : get ([] : Table α) name = none := rfl

theorem get_without (t : Table α) (removed : List String) (name : String) :
    (t.without removed).get name = if name ∈ removed then none else t.get name := by
  unfold without get
  induction t with
  | nil => simp
  | cons e t ih =>
    obtain ⟨other, x⟩ := e
    by_cases hn : name = other
    · subst hn
      by_cases hr : name ∈ removed
      · simpa [hr] using ih
      · simp [hr]
    · have hne : (name == other) = false := by simpa using hn
      by_cases hr : other ∈ removed
      · simpa [hr, List.lookup_cons, hne] using ih
      · simpa [hr, List.lookup_cons, hne] using ih

theorem get_put (t : Table α) (name other : String) (x : α) :
    (t.put name x).get other = if other = name then some x else t.get other := by
  by_cases h : other = name
  · simp [put, get, h]
  · have hne : (other == name) = false := by simpa using h
    have rest := t.get_without [name] other
    rw [get] at rest
    rw [put, get, List.lookup_cons, hne]
    simpa [h] using rest

theorem put_put (t : Table α) (name : String) (x y : α) : (t.put name x).put name y = t.put name y := by
  unfold put without
  rw [List.filter_cons_of_neg (by simp), List.filter_filter]
  simp

theorem get_eq_none (t : Table α) (name : String) :
    t.get name = none ↔ name ∉ t.map Prod.fst := by
  rw [get, List.lookup_eq_none_iff, List.mem_map]
  constructor
  · rintro h ⟨e, he, rfl⟩
    simpa using h e he
  · intro h e he
    have : name ≠ e.1 := fun hn => h ⟨e, he, hn.symm⟩
    simpa using this

theorem nodup_put {t : Table α} (h : (t.map Prod.fst).Nodup) (name : String) (x : α) :
    ((t.put name x).map Prod.fst).Nodup := by
  rw [put, List.map_cons, List.nodup_cons]
  refine ⟨?_, h.sublist (List.filter_sublist.map _)⟩
  rw [← get_eq_none, get_without]
  simp

theorem mem_of_get {t : Table α} {name : String} {x : α} (h : t.get name = some x) :
    (name, x) ∈ t := by
  obtain ⟨l₁, l₂, rfl, -⟩ := List.lookup_eq_some_iff.mp h
  simp

theorem get_of_mem {t : Table α} (h : (t.map Prod.fst).Nodup) {name : String} {x : α}
    (hmem : (name, x) ∈ t) : t.get name = some x := by
  induction t with
  | nil => exact absurd hmem List.not_mem_nil
  | cons e t ih =>
    rw [List.map_cons, List.nodup_cons] at h
    rcases List.mem_cons.mp hmem with rfl | hmem
    · simp [get]
    · have hne : name ≠ e.1 := fun heq => h.1 (heq ▸ List.mem_map.mpr ⟨_, hmem, rfl⟩)
      rw [get, List.lookup_cons, beq_false_of_ne hne]
      exact ih h.2 hmem

theorem mem_insert (e e' : String × α) (t : Table α) : e' ∈ insert e t ↔ e' = e ∨ e' ∈ t := by
  induction t with
  | nil => simp [insert]
  | cons x t ih =>
    unfold insert
    split
    · exact List.mem_cons
    · rw [List.mem_cons, ih, List.mem_cons]
      exact or_left_comm

theorem mem_sorted (e : String × α) (t : Table α) : e ∈ t.sorted ↔ e ∈ t := by
  induction t with
  | nil => rfl
  | cons x t ih => rw [sorted, List.foldr_cons, mem_insert, ← sorted, ih, List.mem_cons]

theorem put_cases (t : Table α) (name other : String) (x : α) :
    (t.put name x).get other = t.get other ∨ name = other ∧ (t.put name x).get other = some x := by
  rw [get_put]
  split
  · rename_i h
    exact .inr ⟨h.symm, rfl⟩
  · exact .inl rfl

theorem without_cases (t : Table α) (name other : String) :
    (t.without [name]).get other = t.get other ∨
      name = other ∧ (t.without [name]).get other = none := by
  rw [get_without]
  split
  · rename_i h
    exact .inr ⟨(List.mem_singleton.mp h).symm, rfl⟩
  · exact .inl rfl

/-! ### Labels -/

section Labels

variable (label : α → String)

/-- Every label is that of one entry, and the name of no other. -/
def Labelled (t : Table α) : Prop :=
  ∀ name other x y, t.get name = some x → t.get other = some y →
    label y = label x ∨ other = label x → other = name

/-- The label of the entry is neither the label nor the name of another, and if the name is new it is
no label either. -/
def Free (t : Table α) (name : String) (x : α) : Prop :=
  ∀ other y, t.get other = some y → other ≠ name →
    label y ≠ label x ∧ other ≠ label x ∧ (t.get name = none → label y ≠ name)

variable {label} {t : Table α}

theorem Labelled.nil : Labelled label ([] : Table α) := by
  intro name other x y hx
  cases hx

theorem Labelled.put (h : t.Labelled label) {name : String} {x : α} (hx : t.Free label name x) :
    (t.put name x).Labelled label := by
  -- the name is no label of another entry, be it new or not
  have hname : ∀ other y, t.get other = some y → other ≠ name → label y ≠ name := by
    intro other y hy hne heq
    cases hold : t.get name with
    | none => exact (hx other y hy hne).2.2 hold heq
    | some z => exact hne (h other name y z hy hold (.inr heq.symm)).symm
  intro n1 n2 y1 y2 h1 h2 hlabel
  rw [get_put] at h1 h2
  split at h1
  · rename_i hn1
    subst hn1
    split at h2
    · assumption
    · rename_i hn2
      cases h1
      obtain ⟨hne, hother, -⟩ := hx n2 y2 h2 hn2
      exact (hlabel.elim hne hother).elim
  · rename_i hn1
    split at h2
    · rename_i hn2
      subst hn2
      cases h2
      obtain ⟨hne, -, -⟩ := hx n1 y1 h1 hn1
      exact (hlabel.elim (fun heq => hne heq.symm) fun heq => hname n1 y1 h1 hn1 heq.symm).elim
    · exact h n1 n2 y1 y2 h1 h2 hlabel

theorem Labelled.without (h : t.Labelled label) (names : List String) :
    (t.without names).Labelled label := by
  have hkept : ∀ name x, (t.without names).get name = some x → t.get name = some x := by
    intro name x hx
    rw [get_without] at hx
    split at hx
    · cases hx
    · exact hx
  exact fun n1 n2 y1 y2 h1 h2 => h n1 n2 y1 y2 (hkept n1 y1 h1) (hkept n2 y2 h2)

/-- An entry that keeps its label is free. -/
theorem Labelled.free (h : t.Labelled label) {name : String} {x y : α} (hy : t.get name = some y)
    (hlabel : label y = label x) : t.Free label name x := by
  intro other z hz hne
  rw [← hlabel]
  refine ⟨fun heq => hne (h name other y z hy hz (.inl heq)), fun heq => hne ?_, fun hnone => ?_⟩
  · exact h name other y z hy hz (.inr heq)
  · rw [hy] at hnone
    cases hnone

end Labels

end Table
