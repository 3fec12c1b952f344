import Maco.Lib.Program

/-! Operations one after another.  Each is a program that runs to its end or is cut off between two
of its calls, and the environment acts in between. -/

namespace Concurrent

variable {A : Type} {R : A → Type} {C S Op α : Type}

/-- Calls of the program that `allowed` admits lead from one state to another, where the program
has ended or is cut off. -/
def Prog.Reaches (perform : Perform A R C S) (allowed : A → C → S → Prop) :
    Prog A R α → S → S → Prop
  | .ret _, s, t => s = t
  | .call a next, s, t => s = t ∨
    ∃ c r s', allowed a c s ∧ perform a c s = some (r, s') ∧ (next r).Reaches perform allowed s' t

theorem Prog.reaches_of_run {perform : Perform A R C S} {allowed : A → C → S → Prop}
    {p : Prog A R α} {cs : List C} {s t : S} {x : α} (h : p.run perform cs s = some (x, t))
    (hf : p.Follows perform allowed cs s) : p.Reaches perform allowed s t := by
  induction p generalizing s cs with
  | ret y =>
    cases cs with
    | nil =>
      rw [Prog.run] at h
      cases h
      rfl
    | cons c cs => simp [Prog.run] at h
  | call a next ih =>
    cases cs with
    | nil => simp [Prog.run] at h
    | cons c cs =>
      rw [Prog.Follows] at hf
      obtain ⟨hc, hf⟩ := hf
      rw [Prog.run] at h
      split at h
      · contradiction
      · rename_i r s' hp
        rw [hp] at hf
        exact .inr ⟨c, r, s', hc, hp, ih r h hf⟩

/-- The setting of a program that runs alone and keeps an invariant with each of its steps. -/
def Setting.keeping (perform : Perform A R C S) (allowed : A → C → S → Prop) (I : S → Prop) :
    Setting A R C S where
  perform := perform
  allowed := allowed
  rely s t := s = t
  guar _ t := I t

theorem wp_keeping_call {perform : Perform A R C S} {allowed : A → C → S → Prop} {I : S → Prop}
    {a : A} {next : R a → Prog A R α} {Q : α → S → Prop} {s : S}
    (h : ∀ c r t, allowed a c s → perform a c s = some (r, t) →
      I t ∧ wp (Setting.keeping perform allowed I) (next r) Q t) :
    wp (Setting.keeping perform allowed I) (.call a next) Q s := by
  rintro s1 rfl c r t hc hp
  exact h c r t hc hp

theorem wp_keeping_mono {perform : Perform A R C S} {allowed : A → C → S → Prop} {I J : S → Prop}
    {p : Prog A R α} {Q : α → S → Prop} {s : S} (hIJ : ∀ s, I s → J s)
    (h : wp (Setting.keeping perform allowed I) p Q s) :
    wp (Setting.keeping perform allowed J) p Q s := by
  induction p generalizing s with
  | ret x => exact h
  | call a next ih =>
    apply wp_keeping_call
    intro c r t hc hp
    obtain ⟨ht, hnext⟩ := h s rfl c r t hc hp
    exact ⟨hIJ t ht, ih r hnext⟩

theorem wp_reaches {perform : Perform A R C S} {allowed : A → C → S → Prop} {I : S → Prop}
    {p : Prog A R α} {Q : α → S → Prop} {s t : S}
    (h : wp (Setting.keeping perform allowed I) p Q s) (hs : I s)
    (hr : p.Reaches perform allowed s t) : I t := by
  induction p generalizing s with
  | ret y =>
    obtain rfl : s = t := hr
    exact hs
  | call a next ih =>
    obtain rfl | ⟨c, r, s', hc, hp, hr⟩ := hr
    · exact hs
    · obtain ⟨hs', hnext⟩ := h s rfl c r s' hc hp
      exact ih r hnext hs' hr

/-- The states that operations and steps of the environment reach from `s0`. -/
inductive History (perform : Perform A R C S) (code : Op → Prog A R α)
    (allowed : A → C → S → Prop) (env : S → S → Prop) (s0 : S) : S → Prop
  | start : History perform code allowed env s0 s0
  | op {s t : S} (o : Op) : History perform code allowed env s0 s →
      (code o).Reaches perform allowed s t → History perform code allowed env s0 t
  | env {s t : S} : History perform code allowed env s0 s → env s t →
      History perform code allowed env s0 t

/-- The states that are reached when an operation is begun only where `guard` admits it. -/
inductive Guarded (perform : Perform A R C S) (code : Op → Prog A R α) (guard : Op → S → Prop)
    (allowed : A → C → S → Prop) (env : S → S → Prop) (s0 : S) : S → Prop
  | start : Guarded perform code guard allowed env s0 s0
  | op {s t : S} (o : Op) : Guarded perform code guard allowed env s0 s → guard o s →
      (code o).Reaches perform allowed s t → Guarded perform code guard allowed env s0 t
  | env {s t : S} : Guarded perform code guard allowed env s0 s → env s t →
      Guarded perform code guard allowed env s0 t

theorem History.guarded {perform : Perform A R C S} {code : Op → Prog A R α}
    {allowed : A → C → S → Prop} {env : S → S → Prop} {s0 t : S}
    (h : History perform code allowed env s0 t) :
    Guarded perform code (fun _ _ => True) allowed env s0 t := by
  induction h with
  | start => exact .start
  | op o _ hr ih => exact .op o ih trivial hr
  | env _ he ih => exact .env ih he

/-- What holds at the start, and is kept by each step of each operation and by the environment,
holds throughout. -/
theorem Guarded.invariant {perform : Perform A R C S} {code : Op → Prog A R α}
    {guard : Op → S → Prop} {allowed : A → C → S → Prop} {env : S → S → Prop} {I : S → Prop}
    {s0 t : S} (hs : I s0)
    (hop : ∀ o s, guard o s → I s →
      wp (Setting.keeping perform allowed I) (code o) (fun _ _ => True) s)
    (henv : ∀ s t, I s → env s t → I t) (h : Guarded perform code guard allowed env s0 t) :
    I t := by
  induction h with
  | start => exact hs
  | op o _ hg hr ih => exact wp_reaches (hop o _ hg ih) ih hr
  | env _ he ih => exact henv _ _ ih he

/-! ### Disciplines

A discipline is an invariant and an order that every step of a program keeps to.  What is known of
the state and stable under the order survives a program. -/

structure Discipline (A : Type) (R : A → Type) (C S : Type) where
  perform : Perform A R C S
  allowed : A → C → S → Prop
  Inv : S → Prop
  le : S → S → Prop
  refl : ∀ s, le s s
  trans : ∀ s t u, le s t → le t u → le s u

namespace Discipline

variable {β ε : Type} (D : Discipline A R C S)

/-- From `s` the program keeps to the discipline and returns in `Q`. -/
def Keeps (p : Prog A R α) (Q : α → S → Prop) (s : S) : Prop :=
  D.Inv s → wp (Setting.keeping D.perform D.allowed D.Inv) p
    (fun x t => D.Inv t ∧ D.le s t ∧ Q x t) s

variable {D} {s : S}

theorem Keeps.pure {x : α} {Q : α → S → Prop} (h : Q x s) : D.Keeps (Pure.pure x) Q s :=
  fun hs => ⟨hs, D.refl s, h⟩

theorem Keeps.mono {p : Prog A R α} {Q Q' : α → S → Prop} (h : D.Keeps p Q s)
    (hQ : ∀ x t, D.le s t → Q x t → Q' x t) : D.Keeps p Q' s :=
  fun hs => wp_mono (h hs) fun x t ht => ⟨ht.1, ht.2.1, hQ x t ht.2.1 ht.2.2⟩

theorem Keeps.bind {p : Prog A R α} {f : α → Prog A R β} {P : α → S → Prop} {Q : β → S → Prop}
    (h : D.Keeps p P s) (hf : ∀ x t, D.le s t → P x t → D.Keeps (f x) Q t) :
    D.Keeps (p >>= f) Q s := by
  intro hs
  refine wp_seq (h hs) ?_
  rintro x t ⟨ht, hst, hx⟩
  exact wp_mono (hf x t hst hx ht) fun y u hu => ⟨hu.1, D.trans s t u hst hu.2.1, hu.2.2⟩

theorem Keeps.request {a : A} {Q : R a → S → Prop}
    (h : D.Inv s → ∀ c r t, D.allowed a c s → D.perform a c s = some (r, t) →
      D.Inv t ∧ D.le s t ∧ Q r t) : D.Keeps (Prog.request a) Q s := by
  intro hs
  apply wp_keeping_call
  intro c r t hc hp
  have ht := h hs c r t hc hp
  exact ⟨ht.1, ht⟩

variable (D) in
/-- Every call that satisfies `P` keeps to the discipline, in whatever state. -/
def Tolerates (P : A → Prop) : Prop :=
  ∀ a, P a → ∀ s, D.Keeps (Prog.request a) (fun _ _ => True) s

theorem Tolerates.keeps {P : A → Prop} {p : Prog A R α} (hD : D.Tolerates P) (h : p.Calls P) :
    D.Keeps p (fun _ _ => True) s := by
  induction p generalizing s with
  | ret x => exact Keeps.pure trivial
  | call a next ih => exact Keeps.bind (hD a h.1 s) fun r t _ _ => ih r (h.2 r)

variable (D) in
/-- A program that can fail keeps to the discipline, and where it succeeds it returns in `Q`. -/
def Tries (p : ExceptT ε (Prog A R) α) (Q : α → S → Prop) (s : S) : Prop :=
  D.Keeps p.run (fun r t => ∀ x, r = .ok x → Q x t) s

theorem Tries.pure {x : α} {Q : α → S → Prop} (h : Q x s) :
    D.Tries (Pure.pure x : ExceptT ε (Prog A R) α) Q s :=
  Keeps.pure fun y hy => by cases hy; exact h

theorem Tries.bind {p : ExceptT ε (Prog A R) α} {f : α → ExceptT ε (Prog A R) β}
    {P : α → S → Prop} {Q : β → S → Prop} (h : D.Tries p P s)
    (hf : ∀ x t, D.le s t → P x t → D.Tries (f x) Q t) : D.Tries (p >>= f) Q s := by
  refine Keeps.bind h fun r t hst hr => ?_
  cases r with
  | error e => exact Keeps.pure nofun
  | ok x => exact hf x t hst (hr x rfl)

theorem Tries.mono {p : ExceptT ε (Prog A R) α} {Q Q' : α → S → Prop} (h : D.Tries p Q s)
    (hQ : ∀ x t, D.le s t → Q x t → Q' x t) : D.Tries p Q' s :=
  Keeps.mono h fun _ t hst hr x hx => hQ x t hst (hr x hx)

theorem Tries.lift {p : Prog A R α} {Q : α → S → Prop} (h : D.Keeps p Q s) :
    D.Tries (ExceptT.lift p : ExceptT ε (Prog A R) α) Q s :=
  Keeps.bind h fun _ _ _ hx => Keeps.pure fun _ hy => by cases hy; exact hx

theorem Tries.forM {β : Type} {f : β → ExceptT ε (Prog A R) PUnit} {P : S → Prop} {l : List β}
    (hP : ∀ s t, D.le s t → P s → P t) (hs : P s)
    (hf : ∀ x ∈ l, ∀ t, P t → D.Tries (f x) (fun _ _ => True) t) :
    D.Tries (l.forM f) (fun _ t => P t) s := by
  induction l generalizing s with
  | nil => exact Tries.pure hs
  | cons x l ih =>
    refine Tries.bind (hf x List.mem_cons_self s hs) fun _ t hst _ => ?_
    exact ih (hP s t hst hs) fun y hy => hf y (List.mem_cons_of_mem x hy)

/-- An invariant of the operations and of the environment holds in every guarded history. -/
theorem guarded {code : Op → Prog A R α} {guard : Op → S → Prop} {env : S → S → Prop} {s0 t : S}
    (hs : D.Inv s0) (hop : ∀ o s, guard o s → D.Keeps (code o) (fun _ _ => True) s)
    (henv : ∀ s t, D.Inv s → env s t → D.Inv t)
    (h : Guarded D.perform code guard D.allowed env s0 t) : D.Inv t :=
  h.invariant hs (fun o s hg hI => wp_mono (hop o s hg hI) fun _ _ _ => trivial) henv

theorem invariant {code : Op → Prog A R α} {env : S → S → Prop} {s0 t : S} (hs : D.Inv s0)
    (hop : ∀ o s, D.Keeps (code o) (fun _ _ => True) s)
    (henv : ∀ s t, D.Inv s → env s t → D.Inv t)
    (h : History D.perform code D.allowed env s0 t) : D.Inv t :=
  D.guarded hs (fun o s _ => hop o s) henv h.guarded

end Discipline

end Concurrent
