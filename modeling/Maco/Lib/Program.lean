import Mathlib.Logic.Basic

/-! Programs as trees of atomic calls, with the rules of pre- and postconditions for them.  A
program over calls `A`, whose call `a` is answered with an `R a`, has returned or makes one call
and goes on with the answer.  A machine says what a call does to a state: it takes the choice that
the environment makes (a fault, an order of arrival, a fresh name), so a run on a list of choices
computes.  `wp` holds of a state when every step of the program from it is as promised and the
program ends in the postcondition; before every call the state may first move as `rely` allows. -/

namespace Concurrent

/-- A program over calls `A` with answers `R`. -/
inductive Prog (A : Type) (R : A → Type) (α : Type) : Type where
  | ret (x : α)
  | call (a : A) (next : R a → Prog A R α)

namespace Prog

variable {A B : Type} {R : A → Type} {T : B → Type} {α β γ : Type}

/-- Sequencing: `f` goes on where the program returns. -/
def bind : Prog A R α → (α → Prog A R β) → Prog A R β
  | .ret x, f => f x
  | .call a next, f => .call a fun r => (next r).bind f

instance : Monad (Prog A R) where
  pure := .ret
  bind := bind

/-- The program that makes one call and returns its answer. -/
def request (a : A) : Prog A R (R a) := .call a .ret

@[simp] theorem pure_eq (x : α) : (pure x : Prog A R α) = .ret x := rfl

@[simp] theorem ret_bind (x : α) (f : α → Prog A R β) : (.ret x >>= f) = f x := rfl

@[simp] theorem call_bind (a : A) (next : R a → Prog A R α) (f : α → Prog A R β) :
    (.call a next >>= f) = .call a fun r => next r >>= f := rfl

@[simp] theorem request_bind (a : A) (f : R a → Prog A R β) :
    (request a >>= f) = .call a f := rfl

theorem bind_assoc (p : Prog A R α) (f : α → Prog A R β) (k : β → Prog A R γ) :
    p >>= f >>= k = p >>= fun x => f x >>= k := by
  induction p with
  | ret x => rfl
  | call a next ih =>
    simp only [call_bind]
    congr 1
    funext r
    exact ih r

@[simp] theorem bind_ret (p : Prog A R α) : p >>= .ret = p := by
  induction p with
  | ret x => rfl
  | call a next ih =>
    rw [call_bind]
    congr 1
    funext r
    exact ih r

/-- Every call that the program can make satisfies `P`. -/
def Calls (P : A → Prop) : Prog A R α → Prop
  | .ret _ => True
  | .call a next => P a ∧ ∀ r, (next r).Calls P

theorem Calls.pure {P : A → Prop} (x : α) : (Pure.pure x : Prog A R α).Calls P := trivial

theorem Calls.request {P : A → Prop} {a : A} (h : P a) :
    (Prog.request a : Prog A R (R a)).Calls P :=
  ⟨h, fun _ => trivial⟩

theorem Calls.bind {P : A → Prop} {p : Prog A R α} {f : α → Prog A R β} (hp : p.Calls P)
    (hf : ∀ x, (f x).Calls P) : (p >>= f).Calls P := by
  induction p with
  | ret x => exact hf x
  | call a next ih => exact ⟨hp.1, fun r => ih r (hp.2 r)⟩

theorem Calls.mono {P Q : A → Prop} {p : Prog A R α} (hPQ : ∀ a, P a → Q a) (h : p.Calls P) :
    p.Calls Q := by
  induction p with
  | ret x => exact trivial
  | call a next ih => exact ⟨hPQ a h.1, fun r => ih r (h.2 r)⟩

theorem Calls.any (p : Prog A R α) : p.Calls fun _ => True := by
  induction p with
  | ret x => exact trivial
  | call a next ih => exact ⟨trivial, ih⟩

/-- A program that can fail, and what is done where it does not. -/
theorem Calls.andThen {ε : Type} {P : A → Prop} {p : ExceptT ε (Prog A R) α}
    {f : α → ExceptT ε (Prog A R) β} (hp : Calls P p.run) (hf : ∀ x, Calls P (f x).run) :
    Calls P (p >>= f).run := by
  refine Calls.bind hp fun r => ?_
  cases r with
  | error e => exact .pure _
  | ok x => exact hf x

theorem Calls.forM {ε : Type} {P : A → Prop} {f : β → ExceptT ε (Prog A R) PUnit} {l : List β}
    (h : ∀ x ∈ l, Calls P (f x).run) : Calls P (l.forM f).run := by
  induction l with
  | nil => exact .pure _
  | cons x l ih =>
    exact .andThen (h x List.mem_cons_self) fun _ => ih fun y hy => h y (List.mem_cons_of_mem x hy)

/-- The program with every call made through `inj`, whose answers `conv` turns back. -/
def lift (inj : B → A) (conv : (b : B) → R (inj b) → T b) : Prog B T α → Prog A R α
  | .ret x => .ret x
  | .call b next => .call (inj b) fun r => (next (conv b r)).lift inj conv

theorem lift_bind {inj : B → A} {conv : (b : B) → R (inj b) → T b} (p : Prog B T α)
    (f : α → Prog B T β) :
    (p >>= f).lift inj conv = p.lift inj conv >>= fun x => (f x).lift inj conv := by
  induction p with
  | ret x => rfl
  | call b next ih =>
    simp only [call_bind, lift]
    congr 1
    funext r
    exact ih (conv b r)

theorem Calls.lift {inj : B → A} {conv : (b : B) → R (inj b) → T b} {P : A → Prop}
    {p : Prog B T α} (h : p.Calls fun b => P (inj b)) : (p.lift inj conv).Calls P := by
  induction p with
  | ret x => exact trivial
  | call b next ih => exact ⟨h.1, fun r => ih (conv b r) (h.2 (conv b r))⟩

/-- The program with a program in the place of every call. -/
def expand (h : (a : A) → Prog B T (R a)) : Prog A R α → Prog B T α
  | .ret x => .ret x
  | .call a next => h a >>= fun r => (next r).expand h

section Expand

variable {h : (a : A) → Prog B T (R a)}

@[simp] theorem expand_ret (x : α) : (.ret x : Prog A R α).expand h = .ret x := rfl

theorem expand_call (a : A) (next : R a → Prog A R α) :
    (Prog.call a next).expand h = h a >>= fun r => (next r).expand h := rfl

@[simp] theorem expand_request (a : A) : (request a : Prog A R (R a)).expand h = h a :=
  bind_ret (h a)

theorem expand_bind (p : Prog A R α) (f : α → Prog A R β) :
    (p >>= f).expand h = p.expand h >>= fun x => (f x).expand h := by
  induction p with
  | ret x => rfl
  | call a next ih =>
    rw [call_bind, expand_call, expand_call, bind_assoc]
    congr 1
    funext r
    exact ih r

/-- What is done where a program does not fail, expanded on its own. -/
theorem expand_andThen {ε : Type} (p : ExceptT ε (Prog A R) α)
    (f : α → ExceptT ε (Prog A R) β) :
    ExceptT.mk (Prog.expand h (p >>= f).run) =
      (ExceptT.mk (Prog.expand h p.run) >>= fun x => ExceptT.mk (Prog.expand h (f x).run) :
        ExceptT ε (Prog B T) β) := by
  show Prog.expand h (p.run >>= ExceptT.bindCont f) = _
  rw [expand_bind]
  show _ = Prog.expand h p.run >>= _
  congr 1
  funext r
  cases r with
  | error e => rfl
  | ok x => rfl

end Expand

/-- The end of the program where each call is answered in one way. -/
def eval {S : Type} (answer : (a : A) → S → R a × S) : Prog A R α → S → α × S
  | .ret x, s => (x, s)
  | .call a next, s => (next (answer a s).1).eval answer (answer a s).2

section Eval

variable {S : Type} {answer : (a : A) → S → R a × S} {s : S}

@[simp] theorem eval_ret (x : α) : (.ret x : Prog A R α).eval answer s = (x, s) := rfl

theorem eval_call (a : A) (next : R a → Prog A R α) :
    (Prog.call a next).eval answer s = (next (answer a s).1).eval answer (answer a s).2 := rfl

theorem eval_bind (p : Prog A R α) (f : α → Prog A R β) :
    (p >>= f).eval answer s = (f (p.eval answer s).1).eval answer (p.eval answer s).2 := by
  induction p generalizing s with
  | ret x => rfl
  | call a next ih => exact ih _

/-- The end of a program that can fail and of what is done where it does not. -/
theorem eval_andThen {ε : Type} (p : ExceptT ε (Prog A R) α) (f : α → ExceptT ε (Prog A R) β) :
    Prog.eval answer (p >>= f).run s =
      match Prog.eval answer p.run s with
      | (.error e, t) => (.error e, t)
      | (.ok x, t) => Prog.eval answer (f x).run t := by
  show Prog.eval answer (p.run >>= ExceptT.bindCont f) s = _
  rw [eval_bind]
  match Prog.eval answer p.run s with
  | (.error e, t) => rfl
  | (.ok x, t) => rfl

end Eval

end Prog

/-- What calls do: `perform a c s` is the answer and the state after call `a` from `s` when the
environment chooses `c`, or `none` where it cannot choose so (or the call has to wait). -/
abbrev Perform (A : Type) (R : A → Type) (C S : Type) := (a : A) → C → S → Option (R a × S)

section Run

variable {A : Type} {R : A → Type} {C S α β : Type}

/-- The run of a program on a list of choices, one for each call. -/
def Prog.run (perform : Perform A R C S) : Prog A R α → List C → S → Option (α × S)
  | .ret x, [], s => some (x, s)
  | .ret _, _ :: _, _ => none
  | .call _ _, [], _ => none
  | .call a next, c :: cs, s =>
    match perform a c s with
    | none => none
    | some (r, s') => (next r).run perform cs s'

/-- The first step of a run. -/
theorem Prog.run_call {perform : Perform A R C S} {a : A} {next : R a → Prog A R α} {cs : List C}
    {s t : S} {x : α} (h : (Prog.call a next).run perform cs s = some (x, t)) :
    ∃ c rest r s', cs = c :: rest ∧ perform a c s = some (r, s') ∧
      (next r).run perform rest s' = some (x, t) := by
  cases cs with
  | nil => cases h
  | cons c cs =>
    rw [run] at h
    split at h
    · contradiction
    · rename_i r s' hstep
      exact ⟨c, cs, r, s', rfl, hstep, h⟩

/-- The program can run from `s`, by steps that `allowed` admits, to the end `t` and return `x`. -/
def Prog.Runs (perform : Perform A R C S) (allowed : A → C → S → Prop) :
    Prog A R α → S → α → S → Prop
  | .ret y, s, x, t => y = x ∧ s = t
  | .call a next, s, x, t =>
    ∃ c r s', allowed a c s ∧ perform a c s = some (r, s') ∧ (next r).Runs perform allowed s' x t

/-- Every step of the run of a program on a list of choices is one that `allowed` admits. -/
def Prog.Follows (perform : Perform A R C S) (allowed : A → C → S → Prop) :
    Prog A R α → List C → S → Prop
  | .ret _, _, _ => True
  | .call _ _, [], _ => True
  | .call a next, c :: cs, s => allowed a c s ∧
    match perform a c s with
    | none => True
    | some (r, s') => (next r).Follows perform allowed cs s'

theorem Prog.follows_true {perform : Perform A R C S} (p : Prog A R α) (cs : List C) (s : S) :
    p.Follows perform (fun _ _ _ => True) cs s := by
  induction p generalizing cs s with
  | ret x => exact trivial
  | call a next ih =>
    cases cs with
    | nil => exact trivial
    | cons c cs =>
      rw [Prog.Follows]
      refine ⟨trivial, ?_⟩
      split
      · exact trivial
      · exact ih _ cs _

/-- What calls do, with a second component of the state that says whether every step so far was
one that `allowed` admits. -/
def Perform.watch (perform : Perform A R C S) (allowed : A → C → S → Prop) :
    Perform A R C (S × Prop) := fun a c s =>
  match perform a c s.1 with
  | none => none
  | some (r, t) => some (r, t, s.2 ∧ allowed a c s.1)

theorem Prog.run_watch {perform : Perform A R C S} (allowed : A → C → S → Prop) {p : Prog A R α}
    {cs : List C} {s t : S} {x : α} (ok : Prop) (h : p.run perform cs s = some (x, t)) :
    p.run (Perform.watch perform allowed) cs (s, ok) =
      some (x, t, ok ∧ p.Follows perform allowed cs s) := by
  induction p generalizing s cs ok with
  | ret y =>
    cases cs with
    | nil => simpa [Prog.run, Prog.Follows] using h
    | cons c cs => simp [Prog.run] at h
  | call a next ih =>
    cases cs with
    | nil => simp [Prog.run] at h
    | cons c cs =>
      rw [Prog.run] at h
      split at h
      · contradiction
      · rename_i r s' hp
        have := ih r (ok ∧ allowed a c s) h
        rw [Prog.run, Perform.watch]
        simp only [hp, Prog.Follows]
        rw [this, and_assoc]

theorem Prog.runs_of_run {perform : Perform A R C S} {p : Prog A R α} {cs : List C} {s t : S}
    {x : α} (h : p.run perform cs s = some (x, t)) :
    p.Runs perform (fun _ _ _ => True) s x t := by
  induction p generalizing s cs with
  | ret y =>
    cases cs with
    | nil => simpa [Prog.run, Prog.Runs] using h
    | cons c cs => simp [Prog.run] at h
  | call a next ih =>
    cases cs with
    | nil => simp [Prog.run] at h
    | cons c cs =>
      rw [Prog.run] at h
      split at h
      · contradiction
      · rename_i r s' hp
        exact ⟨c, r, s', trivial, hp, ih r h⟩

/-- A run on a list of choices makes only choices of the list. -/
theorem Prog.runs_mem_of_run {perform : Perform A R C S} {p : Prog A R α} {cs all : List C}
    {s t : S} {x : α} (hall : cs ⊆ all) (h : p.run perform cs s = some (x, t)) :
    p.Runs perform (fun _ c _ => c ∈ all) s x t := by
  induction p generalizing s cs with
  | ret y =>
    cases cs with
    | nil => simpa [Prog.run, Prog.Runs] using h
    | cons c cs => simp [Prog.run] at h
  | call a next ih =>
    obtain ⟨c, rest, r, s', rfl, hp, hrest⟩ := Prog.run_call h
    exact ⟨c, r, s', hall List.mem_cons_self, hp,
      ih r (fun _ hc => hall (List.mem_cons_of_mem c hc)) hrest⟩

/-- A run whose steps are all admitted otherwise too. -/
theorem Prog.Runs.mono {perform : Perform A R C S} {allowed allowed' : A → C → S → Prop}
    {p : Prog A R α} {s t : S} {x : α} (h : p.Runs perform allowed s x t)
    (hmono : ∀ a c s r t, allowed a c s → perform a c s = some (r, t) → allowed' a c s) :
    p.Runs perform allowed' s x t := by
  induction p generalizing s with
  | ret y => exact h
  | call a next ih =>
    obtain ⟨c, r, s', hc, hp, hrest⟩ := h
    exact ⟨c, r, s', hmono a c s r s' hc hp, hp, ih r hrest⟩

/-- Where every call has a choice that is allowed, the program runs by these choices. -/
theorem Prog.runs_of_eval {perform : Perform A R C S} {allowed : A → C → S → Prop}
    {answer : (a : A) → S → R a × S}
    (h : ∀ a s, ∃ c, allowed a c s ∧ perform a c s = some (answer a s)) (p : Prog A R α) (s : S) :
    p.Runs perform allowed s (p.eval answer s).1 (p.eval answer s).2 := by
  induction p generalizing s with
  | ret x => exact ⟨rfl, rfl⟩
  | call a next ih =>
    obtain ⟨c, hc, hp⟩ := h a s
    exact ⟨c, (answer a s).1, (answer a s).2, hc, hp, ih _ _⟩

/-- Where every call that the program can make has a choice that is allowed, the program runs to an
end. -/
theorem Prog.Calls.runs {perform : Perform A R C S} {allowed : A → C → S → Prop} {P : A → Prop}
    (hP : ∀ a, P a → ∀ s, ∃ c r t, allowed a c s ∧ perform a c s = some (r, t)) {p : Prog A R α}
    (h : p.Calls P) (s : S) : ∃ x t, p.Runs perform allowed s x t := by
  induction p generalizing s with
  | ret x => exact ⟨x, s, rfl, rfl⟩
  | call a next ih =>
    obtain ⟨c, r, s', hc, hp⟩ := hP a h.1 s
    obtain ⟨x, t, hrun⟩ := ih r (h.2 r) s'
    exact ⟨x, t, c, r, s', hc, hp, hrun⟩

end Run

/-- A setting in which programs are judged: what calls do, which choices count, what may happen
before each call (`rely`) and what each call has to keep to (`guar`). -/
structure Setting (A : Type) (R : A → Type) (C S : Type) where
  perform : Perform A R C S
  allowed : A → C → S → Prop
  rely : S → S → Prop
  guar : S → S → Prop

/-- The setting of a program that runs alone, with nothing promised of its steps. -/
def Setting.alone {A : Type} {R : A → Type} {C S : Type} (perform : Perform A R C S)
    (allowed : A → C → S → Prop) : Setting A R C S where
  perform := perform
  allowed := allowed
  rely s t := s = t
  guar _ _ := True

section Rules

variable {A : Type} {R : A → Type} {C S α β : Type} {L : Setting A R C S}

/-- Every step of the program from `s` keeps to `guar`, whatever `rely` lets happen before it, and
the program returns in `Q`. -/
def wp (L : Setting A R C S) : Prog A R α → (α → S → Prop) → S → Prop
  | .ret x, Q, s => Q x s
  | .call a next, Q, s =>
    ∀ s1, L.rely s s1 → ∀ c r s2, L.allowed a c s1 → L.perform a c s1 = some (r, s2) →
      L.guar s1 s2 ∧ wp L (next r) Q s2

@[simp] theorem wp_ret (x : α) (Q : α → S → Prop) (s : S) : wp L (.ret x) Q s ↔ Q x s := Iff.rfl

theorem wp_call (a : A) (next : R a → Prog A R α) (Q : α → S → Prop) (s : S) :
    wp L (.call a next) Q s ↔
      ∀ s1, L.rely s s1 → ∀ c r s2, L.allowed a c s1 → L.perform a c s1 = some (r, s2) →
        L.guar s1 s2 ∧ wp L (next r) Q s2 := Iff.rfl

theorem wp_bind (p : Prog A R α) (f : α → Prog A R β) (Q : β → S → Prop) (s : S) :
    wp L (p >>= f) Q s ↔ wp L p (fun x t => wp L (f x) Q t) s := by
  induction p generalizing s with
  | ret x => rfl
  | call a next ih =>
    simp only [Prog.call_bind, wp_call]
    constructor
    · intro h s1 h1 c r s2 hc hp
      exact ⟨(h s1 h1 c r s2 hc hp).1, (ih r s2).mp (h s1 h1 c r s2 hc hp).2⟩
    · intro h s1 h1 c r s2 hc hp
      exact ⟨(h s1 h1 c r s2 hc hp).1, (ih r s2).mpr (h s1 h1 c r s2 hc hp).2⟩

theorem wp_mono {p : Prog A R α} {Q Q' : α → S → Prop} {s : S} (h : wp L p Q s)
    (hQ : ∀ x t, Q x t → Q' x t) : wp L p Q' s := by
  induction p generalizing s with
  | ret x => exact hQ x s h
  | call a next ih =>
    intro s1 h1 c r s2 hc hp
    exact ⟨(h s1 h1 c r s2 hc hp).1, ih r (h s1 h1 c r s2 hc hp).2⟩

/-- A program followed by another: the first one's postcondition is what the second needs. -/
theorem wp_seq {p : Prog A R α} {f : α → Prog A R β} {P : α → S → Prop} {Q : β → S → Prop} {s : S}
    (h : wp L p P s) (hf : ∀ x t, P x t → wp L (f x) Q t) : wp L (p >>= f) Q s :=
  (wp_bind p f Q s).mpr (wp_mono h hf)

theorem wp_and {p : Prog A R α} {Q Q' : α → S → Prop} {s : S} (h : wp L p Q s)
    (h' : wp L p Q' s) : wp L p (fun x t => Q x t ∧ Q' x t) s := by
  induction p generalizing s with
  | ret x => exact ⟨h, h'⟩
  | call a next ih =>
    intro s1 h1 c r s2 hc hp
    exact ⟨(h s1 h1 c r s2 hc hp).1, ih r (h s1 h1 c r s2 hc hp).2 (h' s1 h1 c r s2 hc hp).2⟩

/-- A fact that `rely` and every step of the program's calls keep is there at the end. -/
theorem wp_of_calls {P : A → Prop} {p : Prog A R α} {I : S → Prop} {s : S} (h : p.Calls P)
    (hs : I s) (hRely : ∀ s t, I s → L.rely s t → I t)
    (hStep : ∀ s a c r t, P a → I s → L.allowed a c s → L.perform a c s = some (r, t) →
      L.guar s t ∧ I t) : wp L p (fun _ t => I t) s := by
  induction p generalizing s with
  | ret x => exact hs
  | call a next ih =>
    intro s1 h1 c r s2 hc hp
    have h2 := hStep s1 a c r s2 h.1 (hRely s s1 hs h1) hc hp
    exact ⟨h2.1, ih r (h.2 r) h2.2⟩

/-- In a program that runs alone, a call is judged by its own steps. -/
theorem wp_alone_call {perform : Perform A R C S} {allowed : A → C → S → Prop} {a : A}
    {next : R a → Prog A R α} {Q : α → S → Prop} {s : S}
    (h : ∀ c r t, allowed a c s → perform a c s = some (r, t) →
      wp (Setting.alone perform allowed) (next r) Q t) :
    wp (Setting.alone perform allowed) (.call a next) Q s := by
  rintro s1 rfl c r t hc hp
  exact ⟨trivial, h c r t hc hp⟩

/-- What `wp` promises of a program that runs alone holds at the end of each of its runs. -/
theorem wp_alone_runs {perform : Perform A R C S} {allowed : A → C → S → Prop}
    {p : Prog A R α} {Q : α → S → Prop} {s t : S} {x : α}
    (h : wp (Setting.alone perform allowed) p Q s) (hr : p.Runs perform allowed s x t) : Q x t := by
  induction p generalizing s with
  | ret y =>
    obtain ⟨rfl, rfl⟩ := hr
    exact h
  | call a next ih =>
    obtain ⟨c, r, s', hc, hp, hr⟩ := hr
    exact ih r (h s rfl c r s' hc hp).2 hr

/-- What a program that runs alone has done, and whether every step of it was allowed. -/
theorem wp_watch_run {perform : Perform A R C S} {allowed : A → C → S → Prop} {p : Prog A R α}
    {Q : α → S → Prop → Prop} {s t : S} {x : α} {cs : List C}
    (h : wp (Setting.alone (Perform.watch perform allowed) fun _ _ _ => True) p
      (fun x u => Q x u.1 u.2) (s, True))
    (hr : p.run perform cs s = some (x, t)) : Q x t (p.Follows perform allowed cs s) := by
  have hrun := Prog.run_watch allowed True hr
  rw [true_and] at hrun
  have hend := wp_alone_runs h (Prog.runs_of_run hrun)
  exact hend

/-! ### Programs that can fail -/

/-- Where the program returns a value and no error, `Q` holds of it. -/
def wpOk {ε : Type} (L : Setting A R C S) (p : ExceptT ε (Prog A R) α) (Q : α → S → Prop) (s : S) :
    Prop :=
  wp L p.run (fun r t => ∀ x, r = .ok x → Q x t) s

section Fails

variable {ε : Type} {s : S}

theorem wpOk_pure {x : α} {Q : α → S → Prop} (h : Q x s) :
    wpOk L (Pure.pure x : ExceptT ε (Prog A R) α) Q s := by
  intro y hy
  cases hy
  exact h

theorem wpOk_fail {e : ε} {Q : α → S → Prop} : wpOk L (ExceptT.mk (Pure.pure (.error e))) Q s := by
  intro y hy
  cases hy

theorem wpOk_mono {p : ExceptT ε (Prog A R) α} {Q Q' : α → S → Prop} (h : wpOk L p Q s)
    (hQ : ∀ x t, Q x t → Q' x t) : wpOk L p Q' s :=
  wp_mono h fun _ t hr x hx => hQ x t (hr x hx)

theorem wpOk_bind {p : ExceptT ε (Prog A R) α} {f : α → ExceptT ε (Prog A R) β}
    {P : α → S → Prop} {Q : β → S → Prop} (h : wpOk L p P s)
    (hf : ∀ x t, P x t → wpOk L (f x) Q t) : wpOk L (p >>= f) Q s := by
  refine wp_seq h fun r t hr => ?_
  cases r with
  | error e =>
    intro y hy
    cases hy
  | ok x => exact hf x t (hr x rfl)

/-- A program that can fail and what is done where it does not, judged on all of their ends. -/
theorem wp_andThen {p : ExceptT ε (Prog A R) α} {f : α → ExceptT ε (Prog A R) β}
    {Q : Except ε β → S → Prop}
    (h : wp L p.run (fun r t =>
      match r with
      | .error e => Q (.error e) t
      | .ok x => wp L (f x).run Q t) s) : wp L (p >>= f).run Q s := by
  refine wp_seq h fun r t hr => ?_
  cases r with
  | error e => exact hr
  | ok x => exact hr

/-- A program that cannot fail and what is done then. -/
theorem wp_liftThen {p : Prog A R α} {f : α → ExceptT ε (Prog A R) β} {Q : Except ε β → S → Prop}
    (h : wp L p (fun x t => wp L (f x).run Q t) s) :
    wp L ((ExceptT.lift p : ExceptT ε (Prog A R) α) >>= f).run Q s :=
  wp_andThen (wp_seq h fun _ _ hx => hx)

/-- A program that cannot fail, among those that can. -/
theorem wpOk_lift {p : Prog A R α} {Q : α → S → Prop} (h : wp L p Q s) :
    wpOk L (ExceptT.lift p : ExceptT ε (Prog A R) α) Q s := by
  refine wp_seq h fun x t hx => ?_
  intro y hy
  cases hy
  exact hx

end Fails

/-! ### What a program knows

An invariant and an order in which both the moves before each call and the program's own steps go
up.  What is known of the state and stable under the order survives the program. -/

structure Keeping (L : Setting A R C S) where
  Inv : S → Prop
  le : S → S → Prop
  refl : ∀ s, le s s
  trans : ∀ s t u, le s t → le t u → le s u
  rely : ∀ s t, Inv s → L.rely s t → Inv t ∧ le s t

namespace Keeping

variable (K : Keeping L)

/-- From `s` the program keeps the invariant, goes up in the order and returns in `Q`. -/
def Keeps (p : Prog A R α) (Q : α → S → Prop) (s : S) : Prop :=
  K.Inv s → wp L p (fun x t => K.Inv t ∧ K.le s t ∧ Q x t) s

variable {K} {s : S}

theorem Keeps.pure {x : α} {Q : α → S → Prop} (h : Q x s) : K.Keeps (Pure.pure x) Q s :=
  fun hs => ⟨hs, K.refl s, h⟩

theorem Keeps.mono {p : Prog A R α} {Q Q' : α → S → Prop} (h : K.Keeps p Q s)
    (hQ : ∀ x t, K.le s t → Q x t → Q' x t) : K.Keeps p Q' s :=
  fun hs => wp_mono (h hs) fun x t ht => ⟨ht.1, ht.2.1, hQ x t ht.2.1 ht.2.2⟩

theorem Keeps.bind {p : Prog A R α} {f : α → Prog A R β} {P : α → S → Prop} {Q : β → S → Prop}
    (h : K.Keeps p P s) (hf : ∀ x t, K.le s t → P x t → K.Keeps (f x) Q t) :
    K.Keeps (p >>= f) Q s := by
  intro hs
  refine wp_seq (h hs) ?_
  rintro x t ⟨ht, hst, hx⟩
  exact wp_mono (hf x t hst hx ht) fun y u hu => ⟨hu.1, K.trans s t u hst hu.2.1, hu.2.2⟩

/-- A program that keeps to an order keeps to a coarser one. -/
theorem Keeps.coarsen {K' : Keeping L} {p : Prog A R α} {Q : α → S → Prop} (h : K.Keeps p Q s)
    (hInv : ∀ s, K.Inv s ↔ K'.Inv s) (hle : ∀ s t, K.le s t → K'.le s t) :
    K'.Keeps p (fun x t => K.le s t ∧ Q x t) s :=
  fun hs => wp_mono (h ((hInv s).mpr hs)) fun _ t ht =>
    ⟨(hInv t).mp ht.1, hle s t ht.2.1, ht.2⟩

/-- A call is judged by its steps from the states that the moves before it can reach. -/
theorem Keeps.request {a : A} {Q : R a → S → Prop}
    (h : ∀ s1, K.le s s1 → K.Inv s1 → ∀ c r t, L.allowed a c s1 →
      L.perform a c s1 = some (r, t) → L.guar s1 t ∧ K.Inv t ∧ K.le s1 t ∧ Q r t) :
    K.Keeps (Prog.request a) Q s := by
  intro hs s1 h1 c r t hc hp
  obtain ⟨hs1, hle⟩ := K.rely s s1 hs h1
  obtain ⟨hguar, ht, hst, hQ⟩ := h s1 hle hs1 c r t hc hp
  exact ⟨hguar, ht, K.trans s s1 t hle hst, hQ⟩

variable (K) in
/-- Every call that satisfies `P` keeps the invariant and goes up in the order. -/
def Tolerates (P : A → Prop) : Prop :=
  ∀ a, P a → ∀ s c r t, K.Inv s → L.allowed a c s → L.perform a c s = some (r, t) →
    L.guar s t ∧ K.Inv t ∧ K.le s t

theorem Tolerates.keeps {P : A → Prop} {p : Prog A R α} (hK : K.Tolerates P) (h : p.Calls P) :
    K.Keeps p (fun _ _ => True) s := by
  induction p generalizing s with
  | ret x => exact Keeps.pure trivial
  | call a next ih =>
    have hfirst : K.Keeps (Prog.request a) (fun _ _ => True) s :=
      Keeps.request fun s1 _ hs1 c r t hc hp =>
        have ht := hK a h.1 s1 c r t hs1 hc hp
        ⟨ht.1, ht.2.1, ht.2.2, trivial⟩
    exact Keeps.bind hfirst fun r t _ _ => ih r (h.2 r)

end Keeping

/-! ### Triples

`Triple L Inv P p Q` says that `p` leads from assertion `P` to assertion `Q` and keeps `Inv`. -/

/-- From a state with `Inv` and `P` the program ends in one with `Inv` and `Q`. -/
def Triple (L : Setting A R C S) (Inv P : S → Prop) (p : Prog A R α) (Q : α → S → Prop) : Prop :=
  ∀ s, Inv s → P s → wp L p (fun x t => Inv t ∧ Q x t) s

section Triples

variable {Inv P P' : S → Prop} {Q Q' : α → S → Prop}

theorem Triple.pure {x : α} (h : ∀ s, P s → Q x s) : Triple L Inv P (Pure.pure x) Q :=
  fun s hs hP => ⟨hs, h s hP⟩

theorem Triple.conseq {p : Prog A R α} (h : Triple L Inv P p Q) (hP : ∀ s, P' s → P s)
    (hQ : ∀ x s, Q x s → Q' x s) : Triple L Inv P' p Q' :=
  fun s hs hs' => wp_mono (h s hs (hP s hs')) fun x t ht => ⟨ht.1, hQ x t ht.2⟩

theorem Triple.bind {p : Prog A R α} {f : α → Prog A R β} {Q' : β → S → Prop}
    (h : Triple L Inv P p Q) (hf : ∀ x, Triple L Inv (Q x) (f x) Q') :
    Triple L Inv P (p >>= f) Q' := by
  intro s hs hP
  refine wp_seq (h s hs hP) ?_
  rintro x t ⟨ht, hQ⟩
  exact hf x t ht hQ

/-- A call between assertions, of which the first withstands the moves before the call. -/
theorem Triple.request {a : A} {Q : R a → S → Prop}
    (hstable : ∀ s t, Inv s → P s → L.rely s t → Inv t ∧ P t)
    (h : ∀ s c r t, Inv s → P s → L.allowed a c s → L.perform a c s = some (r, t) →
      L.guar s t ∧ Inv t ∧ Q r t) : Triple L Inv P (Prog.request a) Q := by
  intro s hs hP s1 h1 c r t hc hp
  obtain ⟨hs1, hP1⟩ := hstable s s1 hs hP h1
  exact h s1 c r t hs1 hP1 hc hp

end Triples

/-! ### Programs of a component

A program over the calls of one component of a larger state runs in the larger setting as it does
in its own, as long as `rely` leaves the component alone. -/

variable {B D H : Type} {T : B → Type} {M : Setting B T D H}

/-- `ctx` is what the larger setting keeps true while the component's program runs. -/
theorem wp_lift {inj : B → A} {conv : (b : B) → R (inj b) → T b} {view : S → H} {ctx : S → Prop}
    (hRely : ∀ s t, ctx s → L.rely s t → ctx t ∧ M.rely (view s) (view t))
    (hStep : ∀ b c r s t, ctx s → L.allowed (inj b) c s → L.perform (inj b) c s = some (r, t) →
      ∃ d, M.allowed b d (view s) ∧ M.perform b d (view s) = some (conv b r, view t) ∧
        (M.guar (view s) (view t) → L.guar s t ∧ ctx t))
    {p : Prog B T α} {Q : α → H → Prop} {s : S} (hs : ctx s) (h : wp M p Q (view s)) :
    wp L (p.lift inj conv) (fun x t => ctx t ∧ Q x (view t)) s := by
  induction p generalizing s with
  | ret x => exact ⟨hs, h⟩
  | call b next ih =>
    intro s1 h1 c r s2 hc hp
    obtain ⟨hs1, hv⟩ := hRely s s1 hs h1
    obtain ⟨d, hd, hq, hg⟩ := hStep b c r s1 s2 hs1 hc hp
    obtain ⟨hguar, hw⟩ := h (view s1) hv d (conv b r) (view s2) hd hq
    obtain ⟨hL, hctx⟩ := hg hguar
    exact ⟨hL, ih (conv b r) hctx hw⟩

end Rules

end Concurrent
