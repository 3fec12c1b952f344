import Maco.Lib.Program

/-! What programs that may fail keep, with what holds of the state where they do not fail. -/

namespace Concurrent.Keeping

variable {A : Type} {R : A → Type} {C S α β : Type} {L : Setting A R C S} {K : Keeping L} {s : S}

/-- From `s` the program keeps the invariant, goes up in the order and, where it does not fail,
returns in `Q`. -/
def KeepsOk {ε : Type} (K : Keeping L) (p : ExceptT ε (Prog A R) α) (Q : α → S → Prop) (s : S) :
    Prop :=
  K.Keeps p.run (fun r t => ∀ x, r = .ok x → Q x t) s

section Fails

variable {ε : Type}

theorem KeepsOk.pure {x : α} {Q : α → S → Prop} (h : Q x s) :
    K.KeepsOk (Pure.pure x : ExceptT ε (Prog A R) α) Q s :=
  Keeps.pure fun y hy => by
    cases hy
    exact h

theorem KeepsOk.fail {e : ε} {Q : α → S → Prop} :
    K.KeepsOk (ExceptT.mk (Pure.pure (.error e)) : ExceptT ε (Prog A R) α) Q s :=
  Keeps.pure fun _ hy => by cases hy

theorem KeepsOk.bind {p : ExceptT ε (Prog A R) α} {f : α → ExceptT ε (Prog A R) β}
    {P : α → S → Prop} {Q : β → S → Prop} (h : K.KeepsOk p P s)
    (hf : ∀ x t, K.le s t → P x t → K.KeepsOk (f x) Q t) : K.KeepsOk (p >>= f) Q s := by
  refine Keeps.bind h fun r t hst hr => ?_
  cases r with
  | error e => exact KeepsOk.fail
  | ok x => exact hf x t hst (hr x rfl)

theorem KeepsOk.mono {p : ExceptT ε (Prog A R) α} {Q Q' : α → S → Prop} (h : K.KeepsOk p Q s)
    (hQ : ∀ x t, K.le s t → Q x t → Q' x t) : K.KeepsOk p Q' s :=
  Keeps.mono h fun _ t hst hr x hx => hQ x t hst (hr x hx)

/-- A program that cannot fail, among those that can. -/
theorem KeepsOk.lift {p : Prog A R α} {Q : α → S → Prop} (h : K.Keeps p Q s) :
    K.KeepsOk (ExceptT.lift p : ExceptT ε (Prog A R) α) Q s :=
  Keeps.bind h fun _ _ _ hx => Keeps.pure fun _ hy => by
    cases hy
    exact hx

theorem KeepsOk.coarsen {K' : Keeping L} {p : ExceptT ε (Prog A R) α} {Q : α → S → Prop}
    (h : K.KeepsOk p Q s) (hInv : ∀ s, K.Inv s ↔ K'.Inv s) (hle : ∀ s t, K.le s t → K'.le s t) :
    K'.KeepsOk p (fun x t => K.le s t ∧ Q x t) s :=
  Keeps.mono (Keeps.coarsen h hInv hle) fun _ _ _ hr x hx => ⟨hr.1, hr.2 x hx⟩

theorem Tolerates.keepsOk {P : A → Prop} {p : ExceptT ε (Prog A R) α} (hK : K.Tolerates P)
    (h : Prog.Calls P p.run) : K.KeepsOk p (fun _ _ => True) s :=
  Keeps.mono (hK.keeps h) fun _ _ _ _ _ _ => trivial

end Fails

end Concurrent.Keeping
