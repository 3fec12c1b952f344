import Maco.Lib.Program

/-! Loops that give each of several objects its turn.  A loop that ends with the first turn that
fails gets the same done as one that goes on exactly when none of the turns after that would have
got anything done. -/

namespace Concurrent

variable {A : Type} {R : A → Type} {S α β γ ε : Type} {answer : (a : A) → S → R a × S} {s : S}

/-- The calls of a program where each call is answered in one way, with the answers. -/
def Prog.trace (answer : (a : A) → S → R a × S) : Prog A R α → S → List (Σ a, R a)
  | .ret _, _ => []
  | .call a next, s => ⟨a, (answer a s).1⟩ :: (next (answer a s).1).trace answer (answer a s).2

theorem Prog.trace_bind (p : Prog A R α) (f : α → Prog A R β) :
    (p >>= f).trace answer s =
      p.trace answer s ++ (f (p.eval answer s).1).trace answer (p.eval answer s).2 := by
  induction p generalizing s with
  | ret x => rfl
  | call a next ih => exact congrArg (List.cons _) (ih _)

/-- A program that can fail, and what is done where it does not. -/
theorem Prog.trace_andThen (p : ExceptT ε (Prog A R) α) (f : α → ExceptT ε (Prog A R) β) :
    Prog.trace answer (p >>= f).run s =
      Prog.trace answer p.run s ++
        match Prog.eval answer p.run s with
        | (.error _, _) => []
        | (.ok x, t) => Prog.trace answer (f x).run t := by
  show Prog.trace answer (p.run >>= ExceptT.bindCont f) s = _
  rw [trace_bind]
  match Prog.eval answer p.run s with
  | (.error e, t) => rfl
  | (.ok x, t) => rfl

/-- Every turn is taken, whatever becomes of those before it. -/
def eachTurn (turn : β → ExceptT ε (Prog A R) PUnit) : List β → Prog A R PUnit
  | [] => .ret ⟨⟩
  | x :: l => do
    let _ ← (turn x).run
    eachTurn turn l

/-- What a turn comes to: whether it fails, and what it gets done. -/
structure Turn (γ : Type) where
  failed : Bool
  done : List γ

/-- What the turns come to when every one is taken; `pick` says what an answer gets done. -/
def turns (answer : (a : A) → S → R a × S) (turn : β → ExceptT ε (Prog A R) PUnit)
    (pick : (Σ a, R a) → Option γ) : List β → S → List (Turn γ)
  | [], _ => []
  | x :: l, s =>
    { failed := !(Prog.eval answer (turn x).run s).1.isOk
      done := (Prog.trace answer (turn x).run s).filterMap pick } ::
      turns answer turn pick l (Prog.eval answer (turn x).run s).2

/-- No turn that gets something done comes after one that fails. -/
def NoneLate (ts : List (Turn γ)) : Prop := ts.Pairwise fun t u => t.failed = true → u.done = []

section Loops

variable {turn : β → ExceptT ε (Prog A R) PUnit} {pick : (Σ a, R a) → Option γ}

theorem filterMap_eachTurn (l : List β) :
    ((eachTurn turn l).trace answer s).filterMap pick =
      (turns answer turn pick l s).flatMap Turn.done := by
  induction l generalizing s with
  | nil => rfl
  | cons x l ih =>
    rw [eachTurn, Prog.trace_bind, List.filterMap_append, ih]
    rfl

theorem NoneLate.of_idle {ts : List (Turn γ)} (h : ∀ t ∈ ts, t.done = []) : NoneLate ts := by
  induction ts with
  | nil => exact .nil
  | cons t ts ih =>
    refine .cons (fun u hu _ => h u (List.mem_cons_of_mem t hu)) ?_
    exact ih fun u hu => h u (List.mem_cons_of_mem t hu)

/-- A loop that ends with the first failure gets all done that the turns would. -/
theorem forM_iff_noneLate (l : List β) :
    (Prog.trace answer (l.forM turn).run s).filterMap pick =
        ((eachTurn turn l).trace answer s).filterMap pick ↔
      NoneLate (turns answer turn pick l s) := by
  induction l generalizing s with
  | nil => exact ⟨fun _ => .nil, fun _ => rfl⟩
  | cons x l ih =>
    rw [show (x :: l).forM turn = turn x >>= fun _ => l.forM turn from rfl, Prog.trace_andThen,
      eachTurn, Prog.trace_bind, List.filterMap_append, List.filterMap_append,
      List.append_cancel_left_eq, turns, NoneLate, List.pairwise_cons]
    rcases heval : Prog.eval answer (turn x).run s with ⟨result, t⟩
    cases result with
    | ok _ =>
      rw [ih]
      exact ⟨fun h => ⟨fun _ _ hfailed => absurd hfailed (by simp [Except.isOk, Except.toBool]), h⟩,
        fun h => h.2⟩
    | error e =>
      rw [filterMap_eachTurn, eq_comm, List.filterMap_nil, List.flatMap_eq_nil_iff]
      exact ⟨fun h => ⟨fun u hu _ => h u hu, NoneLate.of_idle h⟩,
        fun h u hu => h.1 u hu (by simp [Except.isOk, Except.toBool])⟩

theorem Prog.trace_lift (p : Prog A R α) :
    Prog.trace answer (ExceptT.lift p : ExceptT ε (Prog A R) α).run s = p.trace answer s := by
  refine (trace_bind p _).trans ?_
  exact List.append_nil _

/-- What the turns come to after `read` has said which objects there are. -/
def turnsAfter (answer : (a : A) → S → R a × S) (read : ExceptT ε (Prog A R) α)
    (objects : α → List β) (turn : α → β → ExceptT ε (Prog A R) PUnit)
    (pick : (Σ a, R a) → Option γ) (s : S) : List (Turn γ) :=
  match Prog.eval answer read.run s with
  | (.ok x, t) => turns answer (turn x) pick (objects x) t
  | (.error _, _) => []

/-- The same where the objects are read first. -/
theorem sweep_iff_noneLate (read : ExceptT ε (Prog A R) α) (objects : α → List β)
    (turn : α → β → ExceptT ε (Prog A R) PUnit) :
    (Prog.trace answer (read >>= fun x => (objects x).forM (turn x)).run s).filterMap pick =
        (Prog.trace answer (read >>= fun x => ExceptT.lift (eachTurn (turn x) (objects x))).run
          s).filterMap pick ↔
      NoneLate (turnsAfter answer read objects turn pick s) := by
  rw [Prog.trace_andThen, Prog.trace_andThen, List.filterMap_append, List.filterMap_append,
    List.append_cancel_left_eq, turnsAfter]
  rcases Prog.eval answer read.run s with ⟨result, t⟩
  cases result with
  | error e => exact ⟨fun _ => .nil, fun _ => rfl⟩
  | ok x =>
    simp only [Prog.trace_lift]
    exact forM_iff_noneLate (objects x)

end Loops

end Concurrent
