import Maco.Lib.Program
import Mathlib.Logic.Function.Basic

/-! Processes that run programs side by side on one shared state.  In each move a process begins an
operation, makes its next call, ends, or dies between two of its calls, or the environment acts.
`System.Outline` is a rely–guarantee proof outline: an invariant of the shared state, what each
process may count on while the others move, and a `wp` for each operation; `Outline.invariant`
turns it into a fact about every reachable configuration. -/

namespace Concurrent

/-- Processes over one shared state: what the calls of each process do, the operations that a
process may begin, what the death of a process does and the moves of the environment. -/
structure System (A : Type) (R : A → Type) (C S Op E α : Type) where
  perform : Nat → Perform A R C S
  code : Op → Prog A R α
  die : Nat → S → S
  env : E → S → Option S

/-- The shared state and what is left of the program of each process. -/
structure Config (A : Type) (R : A → Type) (S α : Type) where
  shared : S
  procs : Nat → Option (Prog A R α)

/-- One move of the processes or of the environment. -/
inductive Move (C Op E : Type) where
  | begin (i : Nat) (op : Op)
  | call (i : Nat) (c : C)
  | finish (i : Nat)
  | die (i : Nat)
  | env (e : E)

/-- The process that makes the move, if one does. -/
def Move.mover {C Op E : Type} : Move C Op E → Option Nat
  | .begin i _ | .call i _ | .finish i | .die i => some i
  | .env _ => none

namespace System

variable {A : Type} {R : A → Type} {C S Op E α : Type} (sys : System A R C S Op E α)

/-- The configuration after a move, or `none` where the move cannot be made. -/
def move (g : Config A R S α) : Move C Op E → Option (Config A R S α)
  | .begin i op =>
    match g.procs i with
    | none => some { g with procs := Function.update g.procs i (some (sys.code op)) }
    | some _ => none
  | .call i c =>
    match g.procs i with
    | some (.call a next) =>
      match sys.perform i a c g.shared with
      | some (r, s) => some ⟨s, Function.update g.procs i (some (next r))⟩
      | none => none
    | _ => none
  | .finish i =>
    match g.procs i with
    | some (.ret _) => some { g with procs := Function.update g.procs i none }
    | _ => none
  | .die i =>
    match g.procs i with
    | some _ => some ⟨sys.die i g.shared, Function.update g.procs i none⟩
    | none => none
  | .env e =>
    match sys.env e g.shared with
    | some s => some { g with shared := s }
    | none => none

/-- The configuration after a list of moves. -/
def moves (g : Config A R S α) : List (Move C Op E) → Option (Config A R S α)
  | [] => some g
  | m :: ms =>
    match sys.move g m with
    | some g' => moves g' ms
    | none => none

/-- The move makes a call that `allowed` admits, or it is no call. -/
def Permits (allowed : Nat → A → C → S → Prop) (g : Config A R S α) : Move C Op E → Prop
  | .call i c => ∀ a next, g.procs i = some (.call a next) → allowed i a c g.shared
  | _ => True

/-- The configurations that moves reach from the idle start `s0`, when every call is one that
`allowed` admits. -/
inductive Reach (allowed : Nat → A → C → S → Prop) (s0 : S) : Config A R S α → Prop
  | start : Reach allowed s0 ⟨s0, fun _ => none⟩
  | move {g g' : Config A R S α} (m : Move C Op E) : Reach allowed s0 g → Permits allowed g m →
      sys.move g m = some g' → Reach allowed s0 g'

theorem reach_moves {s0 : S} {g g' : Config A R S α} {ms : List (Move C Op E)}
    (hg : sys.Reach (fun _ _ _ _ => True) s0 g) (h : sys.moves g ms = some g') :
    sys.Reach (fun _ _ _ _ => True) s0 g' := by
  induction ms generalizing g with
  | nil =>
    obtain rfl : g = g' := by simpa [moves] using h
    exact hg
  | cons m ms ih =>
    rw [moves] at h
    split at h
    · rename_i g1 hm
      refine ih (.move m hg ?_ hm) h
      cases m <;> simp [Permits]
    · contradiction

/-- The call of a move is one that `ok` admits, if it makes one. -/
def checked (ok : Nat → A → C → S → Bool) (g : Config A R S α) : Move C Op E → Bool
  | .call i c =>
    match g.procs i with
    | some (.call a _) => ok i a c g.shared
    | _ => true
  | _ => true

/-- The configuration after a list of moves whose calls are such as `ok` admits. -/
def movesChecked (ok : Nat → A → C → S → Bool) (g : Config A R S α) :
    List (Move C Op E) → Option (Config A R S α)
  | [] => some g
  | m :: ms =>
    if checked ok g m then
      match sys.move g m with
      | some g' => movesChecked ok g' ms
      | none => none
    else none

theorem reach_movesChecked {allowed : Nat → A → C → S → Prop} {ok : Nat → A → C → S → Bool} {s0 : S}
    {g g' : Config A R S α} {ms : List (Move C Op E)}
    (hok : ∀ i a c s, ok i a c s = true → allowed i a c s) (hg : sys.Reach allowed s0 g)
    (h : sys.movesChecked ok g ms = some g') : sys.Reach allowed s0 g' := by
  induction ms generalizing g with
  | nil =>
    obtain rfl : g = g' := by simpa [movesChecked] using h
    exact hg
  | cons m ms ih =>
    rw [movesChecked] at h
    split at h
    · rename_i hfree
      split at h
      · rename_i g1 hm
        refine ih (.move m hg ?_ hm) h
        cases m with
        | call i c =>
          intro a next hp
          simp only [checked, hp] at hfree
          exact hok i a c g.shared hfree
        | _ => exact trivial
      · contradiction
    · contradiction

/-- The call of a move is one that `free` admits, if it makes one. -/
def free (ok : A → Bool) (g : Config A R S α) : Move C Op E → Bool
  | .call i _ =>
    match g.procs i with
    | some (.call a _) => ok a
    | _ => true
  | _ => true

/-- The configuration after a list of moves whose calls are such as `ok` admits. -/
def movesFree (ok : A → Bool) (g : Config A R S α) : List (Move C Op E) → Option (Config A R S α)
  | [] => some g
  | m :: ms =>
    if free ok g m then
      match sys.move g m with
      | some g' => movesFree ok g' ms
      | none => none
    else none

theorem movesFree_eq (ok : A → Bool) (g : Config A R S α) (ms : List (Move C Op E)) :
    sys.movesFree ok g ms = sys.movesChecked (fun _ a _ _ => ok a) g ms := by
  induction ms generalizing g with
  | nil => rfl
  | cons m ms ih =>
    have hfree : free ok g m = checked (fun _ a _ _ => ok a) g m := by
      cases m <;> rfl
    simp only [movesFree, movesChecked, hfree, ih]

theorem reach_movesFree {allowed : Nat → A → C → S → Prop} {ok : A → Bool} {s0 : S}
    {g g' : Config A R S α} {ms : List (Move C Op E)}
    (hok : ∀ i a c s, ok a = true → allowed i a c s) (hg : sys.Reach allowed s0 g)
    (h : sys.movesFree ok g ms = some g') : sys.Reach allowed s0 g' := by
  rw [sys.movesFree_eq] at h
  exact sys.reach_movesChecked hok hg h

/-- Moves lead from one configuration to another, and `P` holds of the shared state all along. -/
inductive Path (allowed : Nat → A → C → S → Prop) (P : S → Prop) :
    Config A R S α → Config A R S α → Prop
  | refl {g : Config A R S α} : P g.shared → Path allowed P g g
  | move {g g' g'' : Config A R S α} (m : Move C Op E) : Path allowed P g g' →
      Permits allowed g' m → sys.move g' m = some g'' → P g''.shared → Path allowed P g g''

/-- The setting in which process `i` runs: before each of its calls the others keep to `rely i`,
and each of its own steps keeps the invariant, what the others count on and `guar`. -/
def setting (allowed : Nat → A → C → S → Prop) (Inv : S → Prop) (rely : Nat → S → S → Prop)
    (guar : S → S → Prop) (i : Nat) : Setting A R C S where
  perform := sys.perform i
  allowed := allowed i
  rely s t := rely i s t ∧ Inv t
  guar s t := Inv t ∧ guar s t ∧ ∀ j, j ≠ i → rely j s t

/-- The configuration after a list of moves, where `ok` holds of the state all along. -/
def movesIn (ok : S → Bool) (g : Config A R S α) : List (Move C Op E) → Option (Config A R S α)
  | [] => if ok g.shared then some g else none
  | m :: ms =>
    if ok g.shared then
      match sys.move g m with
      | some g' => movesIn ok g' ms
      | none => none
    else none

theorem Path.trans {allowed : Nat → A → C → S → Prop} {P : S → Prop}
    {g g' g'' : Config A R S α} (h : sys.Path allowed P g g') (h' : sys.Path allowed P g' g'') :
    sys.Path allowed P g g'' := by
  induction h' with
  | refl _ => exact h
  | move m _ hm hmove hP ih => exact .move m ih hm hmove hP

variable {sys} in
theorem Permits.mono {allowed allowed' : Nat → A → C → S → Prop} {g : Config A R S α}
    {m : Move C Op E} (h : ∀ i a c s, allowed i a c s → allowed' i a c s)
    (hm : Permits allowed g m) : Permits allowed' g m := by
  cases m with
  | call i c => exact fun a next hp => h i a c g.shared (hm a next hp)
  | _ => exact trivial

theorem Reach.mono {allowed allowed' : Nat → A → C → S → Prop} {s0 : S} {g : Config A R S α}
    (h : ∀ i a c s, allowed i a c s → allowed' i a c s) (hg : sys.Reach allowed s0 g) :
    sys.Reach allowed' s0 g := by
  induction hg with
  | start => exact .start
  | move m _ hm hmove ih => exact .move m ih (hm.mono h) hmove

theorem Path.mono {allowed allowed' : Nat → A → C → S → Prop} {P : S → Prop}
    {g g' : Config A R S α} (h : ∀ i a c s, allowed i a c s → allowed' i a c s)
    (hpath : sys.Path allowed P g g') : sys.Path allowed' P g g' := by
  induction hpath with
  | refl hP => exact .refl hP
  | move m _ hm hmove hP ih => exact .move m ih (hm.mono h) hmove hP

/-- What the paths from `g` on which `P` holds lead to holds along each of them. -/
theorem Path.strengthen {allowed : Nat → A → C → S → Prop} {P Q : S → Prop}
    {g g' : Config A R S α} (h : ∀ g', sys.Path allowed P g g' → Q g'.shared)
    (hpath : sys.Path allowed P g g') : sys.Path allowed Q g g' := by
  induction hpath with
  | refl hP => exact .refl (h _ (.refl hP))
  | move m hpath hm hmove hP ih => exact .move m ih hm hmove (h _ (.move m hpath hm hmove hP))

theorem Path.reach {allowed : Nat → A → C → S → Prop} {P : S → Prop} {s0 : S}
    {g g' : Config A R S α} (hg : sys.Reach allowed s0 g) (hpath : sys.Path allowed P g g') :
    sys.Reach allowed s0 g' := by
  induction hpath with
  | refl _ => exact hg
  | move m _ hm hmove _ ih => exact .move m ih hm hmove

theorem path_moves {P : S → Prop} {ok : S → Bool} {g g' : Config A R S α}
    {ms : List (Move C Op E)} (hok : ∀ s, ok s = true → P s)
    (h : sys.movesIn ok g ms = some g') : sys.Path (fun _ _ _ _ => True) P g g' := by
  induction ms generalizing g with
  | nil =>
    rw [movesIn] at h
    split at h
    · rename_i hg
      cases h
      exact .refl (hok _ hg)
    · cases h
  | cons m ms ih =>
    rw [movesIn] at h
    split at h
    · rename_i hg
      split at h
      · rename_i g1 hm
        have hpath := ih h
        have hg1 : P g1.shared := by
          cases ms with
          | nil =>
            rw [movesIn] at h
            split at h
            · rename_i hok1
              exact hok _ hok1
            · cases h
          | cons m' ms =>
            rw [movesIn] at h
            split at h
            · rename_i hok1
              exact hok _ hok1
            · cases h
        refine Path.trans sys (.move m (.refl (hok _ hg)) ?_ hm hg1) hpath
        cases m with
        | call i c => exact fun _ _ _ => trivial
        | _ => exact trivial
      · cases h
    · cases h

/-- In that setting the invariant and `rely i` are what process `i` keeps and knows. -/
def keeping {allowed : Nat → A → C → S → Prop} {Inv : S → Prop} {rely : Nat → S → S → Prop}
    {guar : S → S → Prop} (refl : ∀ i s, rely i s s)
    (trans : ∀ i s t u, rely i s t → rely i t u → rely i s u) (i : Nat) :
    Keeping (sys.setting allowed Inv rely guar i) where
  Inv := Inv
  le := rely i
  refl := refl i
  trans := trans i
  rely _ _ _ h := ⟨h.2, h.1⟩

/-- A proof outline: `Inv` is the invariant of the shared state, `idle i` what holds while process
`i` runs nothing, `rely i` what process `i` may count on while the others move, and `guar` what
every step keeps to. -/
structure Outline (allowed : Nat → A → C → S → Prop) (s0 : S) where
  Inv : S → Prop
  idle : Nat → S → Prop
  rely : Nat → S → S → Prop
  guar : S → S → Prop
  refl : ∀ i s, rely i s s
  trans : ∀ i s t u, rely i s t → rely i t u → rely i s u
  stable : ∀ i s t, idle i s → rely i s t → idle i t
  init : Inv s0 ∧ ∀ i, idle i s0
  code : ∀ i op s, Inv s → idle i s →
    wp (sys.setting allowed Inv rely guar i) (sys.code op) (fun _ t => idle i t) s
  die : ∀ i s, Inv s → Inv (sys.die i s) ∧ idle i (sys.die i s) ∧ guar s (sys.die i s) ∧
    ∀ j, j ≠ i → rely j s (sys.die i s)
  env : ∀ e s t, Inv s → sys.env e s = some t → Inv t ∧ guar s t ∧ ∀ j, rely j s t

variable {sys} {allowed : Nat → A → C → S → Prop} {s0 : S}

/-- Where a process stands in an outline: idle, or at a program whose `wp` held at an earlier
state from which only the others have moved. -/
def Outline.Stands (o : sys.Outline allowed s0) (i : Nat) (s : S) :
    Option (Prog A R α) → Prop
  | none => o.idle i s
  | some p => ∃ t, o.rely i t s ∧
    wp (sys.setting allowed o.Inv o.rely o.guar i) p (fun _ u => o.idle i u) t

theorem Outline.Stands.mono {o : sys.Outline allowed s0} {i : Nat} {s t : S}
    {p : Option (Prog A R α)} (h : o.Stands i s p) (hr : o.rely i s t) : o.Stands i t p := by
  cases p with
  | none => exact o.stable i s t h hr
  | some p =>
    obtain ⟨u, hu, hw⟩ := h
    exact ⟨u, o.trans i u s t hu hr, hw⟩

/-- The invariant holds, and every process stands where the outline has it. -/
def Outline.Holds (o : sys.Outline allowed s0) (g : Config A R S α) : Prop :=
  o.Inv g.shared ∧ ∀ i, o.Stands i g.shared (g.procs i)

/-- Process `i` moved to `p`, and the others may count on the move. -/
theorem Outline.Holds.update {o : sys.Outline allowed s0} {g : Config A R S α} {i : Nat} {s : S}
    {p : Option (Prog A R α)} (h : o.Holds g) (hs : o.Inv s) (hi : o.Stands i s p)
    (hj : ∀ j, j ≠ i → o.rely j g.shared s) :
    o.Holds ⟨s, Function.update g.procs i p⟩ := by
  refine ⟨hs, fun j => ?_⟩
  by_cases hji : j = i
  · subst hji
    simpa using hi
  · simpa [Function.update_of_ne hji] using (h.2 j).mono (hj j hji)

/-- One move keeps every process where the outline has it, and keeps to `guar` if it changes the
shared state. -/
theorem Outline.step {o : sys.Outline allowed s0} {g g' : Config A R S α} {m : Move C Op E}
    (h : o.Holds g) (hm : Permits allowed g m) (hg : sys.move g m = some g') :
    o.Holds g' ∧ (g'.shared = g.shared ∨ o.guar g.shared g'.shared) := by
  have hself : ∀ j, o.rely j g.shared g.shared := fun j => o.refl j g.shared
  cases m with
  | begin i op =>
    rw [move] at hg
    split at hg
    · rename_i hp
      cases hg
      have hi := h.2 i
      rw [hp] at hi
      have hcode := o.code i op g.shared h.1 hi
      exact ⟨h.update h.1 ⟨g.shared, hself i, hcode⟩ fun j _ => hself j, .inl rfl⟩
    · contradiction
  | call i c =>
    rw [move] at hg
    split at hg
    · rename_i a next hp
      split at hg
      · rename_i r s hperf
        cases hg
        have hi := h.2 i
        rw [hp] at hi
        obtain ⟨t, ht, hw⟩ := hi
        obtain ⟨⟨hInv, hGuar, hOthers⟩, hnext⟩ :=
          hw g.shared ⟨ht, h.1⟩ c r s (hm a next hp) hperf
        exact ⟨h.update hInv ⟨s, o.refl i s, hnext⟩ hOthers, .inr hGuar⟩
      · contradiction
    · contradiction
  | finish i =>
    rw [move] at hg
    split at hg
    · rename_i x hp
      cases hg
      have hi := h.2 i
      rw [hp] at hi
      obtain ⟨t, ht, hidle⟩ := hi
      exact ⟨h.update h.1 (o.stable i t g.shared hidle ht) fun j _ => hself j, .inl rfl⟩
    · contradiction
  | die i =>
    rw [move] at hg
    split at hg
    · cases hg
      obtain ⟨hInv, hidle, hGuar, hOthers⟩ := o.die i g.shared h.1
      exact ⟨h.update hInv hidle hOthers, .inr hGuar⟩
    · contradiction
  | env e =>
    rw [move] at hg
    split at hg
    · rename_i s he
      cases hg
      obtain ⟨hInv, hGuar, hrely⟩ := o.env e g.shared s h.1 he
      exact ⟨⟨hInv, fun i => (h.2 i).mono (hrely i)⟩, .inr hGuar⟩
    · contradiction

theorem Outline.holds (o : sys.Outline allowed s0) {g : Config A R S α}
    (hg : sys.Reach allowed s0 g) : o.Holds g := by
  induction hg with
  | start => exact ⟨o.init.1, o.init.2⟩
  | move m _ hm hmove ih => exact (Outline.step ih hm hmove).1

/-- The invariant of an outline holds in every reachable configuration. -/
theorem Outline.invariant (o : sys.Outline allowed s0) {g : Config A R S α}
    (hg : sys.Reach allowed s0 g) : o.Inv g.shared :=
  (o.holds hg).1

/-- A fact that `guar` keeps, in an outline and while `P` holds, is kept along a path. -/
theorem Outline.along (o : sys.Outline allowed s0) {P K : S → Prop} {g g' : Config A R S α}
    (hg : sys.Reach allowed s0 g) (hpath : sys.Path allowed P g g') (hK : K g.shared)
    (hstep : ∀ s t, o.Inv s → o.guar s t → P s → P t → K s → K t) : K g'.shared := by
  have both : o.Holds g' ∧ P g'.shared ∧ K g'.shared := by
    induction hpath with
    | refl hP => exact ⟨o.holds hg, hP, hK⟩
    | move m _ hm hmove hP ih =>
      obtain ⟨hholds, hP', hK'⟩ := ih
      obtain ⟨hnext, hsame | hguar⟩ := Outline.step hholds hm hmove
      · exact ⟨hnext, hP, hsame ▸ hK'⟩
      · exact ⟨hnext, hP, hstep _ _ hholds.1 hguar hP' hP hK'⟩
  exact both.2.2

/-- A path is a run in which `P` holds at every call. -/
theorem reach_of_path {P : S → Prop} {g g' : Config A R S α} (h : ∀ i a c s, P s → allowed i a c s)
    (hg : sys.Reach allowed s0 g) (hpath : sys.Path (fun _ _ _ _ => True) P g g') :
    sys.Reach allowed s0 g' ∧ P g'.shared := by
  induction hpath with
  | refl hP => exact ⟨hg, hP⟩
  | move m _ _ hmove hP ih =>
    obtain ⟨hreach, hP'⟩ := ih
    refine ⟨.move m hreach ?_ hmove, hP⟩
    cases m with
    | call i c => exact fun a _ _ => h i a c _ hP'
    | _ => exact trivial

/-! ### One program among others -/

/-- A move changes the shared state by a call, by a death or by the environment. -/
theorem move_cases {g g' : Config A R S α} {m : Move C Op E} (h : sys.move g m = some g') :
    g'.shared = g.shared ∨
      (∃ i a c r, m = .call i c ∧ sys.perform i a c g.shared = some (r, g'.shared)) ∨
      (∃ i, m = .die i ∧ g'.shared = sys.die i g.shared) ∨
      ∃ e, m = .env e ∧ sys.env e g.shared = some g'.shared := by
  cases m with
  | begin i op =>
    rw [move] at h
    split at h
    · cases h
      exact .inl rfl
    · cases h
  | call i c =>
    rw [move] at h
    split at h
    · rename_i a next hp
      split at h
      · rename_i r s hperf
        cases h
        exact .inr (.inl ⟨i, a, c, r, rfl, hperf⟩)
      · cases h
    · cases h
  | finish i =>
    rw [move] at h
    split at h
    · cases h
      exact .inl rfl
    · cases h
  | die i =>
    rw [move] at h
    split at h
    · cases h
      exact .inr (.inr (.inl ⟨i, rfl, rfl⟩))
    · cases h
  | env e =>
    rw [move] at h
    split at h
    · rename_i s he
      cases h
      exact .inr (.inr (.inr ⟨e, rfl, he⟩))
    · cases h

section Completes

variable {β γ : Type} (sys) (i : Nat) (k : β → Prog A R α) (allowed : A → C → S → Prop)
  (calm : A → S → S → Prop)

/-- Process `i`, which goes on with `k`, runs a program to its end, where it returns a value, by
calls that `allowed` admits; the moves of the others that come before a call are such as `calm`
admits there.  The list is of the shared states on the way. -/
inductive Completes :
    Prog A R β → Config A R S α → List S → β → Config A R S α → Prop
  | ret {x : β} {g : Config A R S α} : g.procs i = some (k x) → Completes (.ret x) g [g.shared] x g
  | call {a : A} {next : R a → Prog A R β} {c : C} {r : R a} {s : S} {x : β} {ss : List S}
      {g g' : Config A R S α} : g.procs i = some (.call a next >>= k) → allowed a c g.shared →
      sys.perform i a c g.shared = some (r, s) →
      Completes (next r) ⟨s, Function.update g.procs i (some (next r >>= k))⟩ ss x g' →
      Completes (.call a next) g (g.shared :: ss) x g'
  | others {a : A} {next : R a → Prog A R β} {m : Move C Op E} {x : β} {ss : List S}
      {g g1 g' : Config A R S α} : g.procs i = some (.call a next >>= k) → m.mover ≠ some i →
      sys.move g m = some g1 → calm a g.shared g1.shared → Completes (.call a next) g1 ss x g' →
      Completes (.call a next) g (g.shared :: ss) x g'

variable {sys i k} {allowed : A → C → S → Prop} {calm}

theorem Completes.start {p : Prog A R β} {x : β} {ss : List S} {g g' : Config A R S α}
    (h : sys.Completes i k allowed calm p g ss x g') :
    g.procs i = some (p >>= k) ∧ g.shared ∈ ss := by
  cases h with
  | ret hp => exact ⟨hp, List.mem_singleton_self _⟩
  | call hp _ _ _ => exact ⟨hp, List.mem_cons_self⟩
  | others hp _ _ _ _ => exact ⟨hp, List.mem_cons_self⟩

theorem Completes.move_call {a : A} {next : R a → Prog A R β} {c : C} {r : R a} {s : S}
    {g : Config A R S α} (hp : g.procs i = some (.call a next >>= k))
    (h : sys.perform i a c g.shared = some (r, s)) :
    sys.move g (.call i c) = some ⟨s, Function.update g.procs i (some (next r >>= k))⟩ := by
  rw [Prog.call_bind] at hp
  rw [move, hp]
  simp only [h]

theorem Completes.reach {p : Prog A R β} {x : β} {ss : List S} {s0 : S} {g g' : Config A R S α}
    (h : sys.Completes i k allowed calm p g ss x g')
    (hg : sys.Reach (fun _ _ _ _ => True) s0 g) : sys.Reach (fun _ _ _ _ => True) s0 g' := by
  induction h with
  | ret _ => exact hg
  | call hp _ hperf _ ih =>
    exact ih (.move (.call i _) hg (fun _ _ _ => trivial) (Completes.move_call hp hperf))
  | @others _ _ m _ _ _ _ _ _ _ hm _ _ ih =>
    refine ih (.move m hg ?_ hm)
    cases m with
    | call j c => exact fun _ _ _ => trivial
    | _ => exact trivial

theorem Completes.bind {p : Prog A R β} {f : β → Prog A R γ} {k : γ → Prog A R α} {y : γ}
    {ss : List S} {g g'' : Config A R S α}
    (h : sys.Completes i k allowed calm (p >>= f) g ss y g'') :
    ∃ x g' ss1 ss2, sys.Completes i (fun x => f x >>= k) allowed calm p g ss1 x g' ∧
      sys.Completes i k allowed calm (f x) g' ss2 y g'' ∧ ss1 ⊆ ss ∧ ss2 ⊆ ss := by
  generalize hq : p >>= f = q at h
  induction h generalizing p with
  | @ret x g hp =>
    cases p with
    | ret x' =>
      rw [Prog.ret_bind] at hq
      have hx : sys.Completes i k allowed calm (f x') g [g.shared] x g := hq ▸ .ret hp
      exact ⟨x', g, _, _, .ret (by rw [hq]; exact hp), hx, by simp, by simp⟩
    | call a next => cases hq
  | @call a next c r s x ss g g' hp hc hperf hrest ih =>
    cases p with
    | ret x' =>
      rw [Prog.ret_bind] at hq
      have hx : sys.Completes i k allowed calm (f x') g (g.shared :: ss) x g' :=
        hq ▸ .call hp hc hperf hrest
      exact ⟨x', g, _, _, .ret (by rw [hq]; exact hp), hx, by simp, by simp⟩
    | call a' next' =>
      cases hq
      obtain ⟨x', g1, ss1, ss2, h1, h2, hss1, hss2⟩ := ih rfl
      change sys.Completes i _ allowed calm (next' r)
        ⟨s, Function.update g.procs i (some (next' r >>= f >>= k))⟩ ss1 x' g1 at h1
      rw [Prog.bind_assoc] at h1
      have hp' : g.procs i = some (.call a next' >>= fun x => f x >>= k) := by
        rw [← Prog.bind_assoc (.call a next') f k]
        exact hp
      exact ⟨x', g1, _, ss2, .call hp' hc hperf h1, h2, List.cons_subset_cons _ hss1,
        List.subset_cons_of_subset _ hss2⟩
  | @others a next m x ss g g1 g' hp hi hm hcalm hrest ih =>
    cases p with
    | ret x' =>
      rw [Prog.ret_bind] at hq
      have hx : sys.Completes i k allowed calm (f x') g (g.shared :: ss) x g' :=
        hq ▸ .others hp hi hm hcalm hrest
      exact ⟨x', g, _, _, .ret (by rw [hq]; exact hp), hx, by simp, by simp⟩
    | call a' next' =>
      obtain ⟨x', g2, ss1, ss2, h1, h2, hss1, hss2⟩ := ih hq
      cases hq
      have hp' : g.procs i = some (.call a next' >>= fun x => f x >>= k) := by
        rw [← Prog.bind_assoc (.call a next') f k]
        exact hp
      exact ⟨x', g2, _, ss2, .others hp' hi hm hcalm h1, h2, List.cons_subset_cons _ hss1,
        List.subset_cons_of_subset _ hss2⟩

/-- The setting of a program among others, judged by its result: `ρ` is what the others keep to, and
`P` holds at every call. -/
def during (i : Nat) (allowed : A → C → S → Prop) (P : S → Prop) (ρ : S → S → Prop) :
    Setting A R C S where
  perform := sys.perform i
  allowed a c s := allowed a c s ∧ P s
  rely := ρ
  guar _ _ := True

/-- A program that completes returns what `wp` promises, where the moves of the others before the
calls that it makes keep to `ρ`. -/
theorem Completes.returns {B : A → Prop} {P : S → Prop} {ρ : S → S → Prop} {p : Prog A R β}
    {Q : β → S → Prop} {x : β} {ss : List S} {s0 : S} {g g' : Config A R S α}
    (h : sys.Completes i k allowed calm p g ss x g')
    (hg : sys.Reach (fun _ _ _ _ => True) s0 g) (hcalls : p.Calls B)
    (hP : ∀ g1, sys.Reach (fun _ _ _ _ => True) s0 g1 → g1.shared ∈ ss → P g1.shared)
    (hrefl : ∀ s, ρ s s) (htrans : ∀ s t u, ρ s t → ρ t u → ρ s u)
    (hothers : ∀ a g1 m g2, B a → P g1.shared → P g2.shared → m.mover ≠ some i →
      sys.move g1 m = some g2 → calm a g1.shared g2.shared → ρ g1.shared g2.shared)
    (hw : wp (sys.during i allowed P ρ) p Q g.shared) : Q x g'.shared := by
  induction h with
  | ret _ => exact hw
  | @call a next c r s x ss g g' hp hc hperf hrest ih =>
    have hreach := Reach.move (.call i c) hg (fun _ _ _ => trivial) (Completes.move_call hp hperf)
    have hPg := hP g hg List.mem_cons_self
    refine ih hreach (hcalls.2 r) (fun g1 hg1 hmem => hP g1 hg1 (List.mem_cons_of_mem _ hmem)) ?_
    exact (hw g.shared (hrefl g.shared) c r s ⟨hc, hPg⟩ hperf).2
  | @others a next m x ss g g1 g' hp hi hm hcalm hrest ih =>
    have hreach : sys.Reach (fun _ _ _ _ => True) s0 g1 := by
      refine .move m hg ?_ hm
      cases m with
      | call j c => exact fun _ _ _ => trivial
      | _ => exact trivial
    have hstart := hrest.start.2
    have hρ := hothers a g m g1 hcalls.1 (hP g hg List.mem_cons_self)
      (hP g1 hreach (List.mem_cons_of_mem _ hstart)) hi hm hcalm
    refine ih hreach hcalls (fun g2 hg2 hmem => hP g2 hg2 (List.mem_cons_of_mem _ hmem)) ?_
    exact fun s1 h1 => hw s1 (htrans _ _ _ hρ h1)

end Completes

end System

end Concurrent
