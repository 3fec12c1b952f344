import Maco.Lib.Interleaving

/-! What a process of an interleaved system knows from its own calls and their answers alone.
`Prog.Tracks` follows a program by these: every call has to be one that the knowledge before it
admits.  `System.Insight` ties the knowledge of each process to the shared state, and
`Insight.stands` says of every reachable configuration that the next call of each process is
admitted by what it knows. -/

namespace Concurrent

/-- How knowledge `G` goes on: the calls that it admits, and what is known after an answer, or
`none` where the answer cannot come. -/
structure Learning (A : Type) (R : A → Type) (G : Type) where
  asks : G → A → Prop
  learns : G → (a : A) → R a → Option G

namespace Prog

variable {A : Type} {R : A → Type} {G α β ε : Type} {K : Learning A R G}

/-- Every call of the program is admitted by what is known before it, and it returns in `Q`. -/
def Tracks (K : Learning A R G) : Prog A R α → (α → G → Prop) → G → Prop
  | .ret x, Q, g => Q x g
  | .call a next, Q, g => K.asks g a ∧ ∀ r g', K.learns g a r = some g' → (next r).Tracks K Q g'

theorem Tracks.pure {x : α} {Q : α → G → Prop} {g : G} (h : Q x g) :
    (Pure.pure x : Prog A R α).Tracks K Q g := h

theorem Tracks.request {a : A} {Q : R a → G → Prop} {g : G} (ha : K.asks g a)
    (h : ∀ r g', K.learns g a r = some g' → Q r g') :
    (Prog.request a : Prog A R (R a)).Tracks K Q g := ⟨ha, h⟩

theorem Tracks.mono {p : Prog A R α} {Q Q' : α → G → Prop} {g : G} (h : p.Tracks K Q g)
    (hQ : ∀ x g, Q x g → Q' x g) : p.Tracks K Q' g := by
  induction p generalizing g with
  | ret x => exact hQ x g h
  | call a next ih => exact ⟨h.1, fun r g' hg' => ih r (h.2 r g' hg')⟩

theorem Tracks.bind {p : Prog A R α} {f : α → Prog A R β} {P : α → G → Prop} {Q : β → G → Prop}
    {g : G} (h : p.Tracks K P g) (hf : ∀ x g, P x g → (f x).Tracks K Q g) :
    (p >>= f).Tracks K Q g := by
  induction p generalizing g with
  | ret x => exact hf x g h
  | call a next ih => exact ⟨h.1, fun r g' hg' => ih r (h.2 r g' hg')⟩

/-- A program that can fail, and what is done where it does not. -/
theorem Tracks.andThen {p : ExceptT ε (Prog A R) α} {f : α → ExceptT ε (Prog A R) β}
    {P : Except ε α → G → Prop} {Q : Except ε β → G → Prop} {g : G} (h : p.run.Tracks K P g)
    (herror : ∀ e g, P (.error e) g → Q (.error e) g)
    (hf : ∀ x g, P (.ok x) g → (f x).run.Tracks K Q g) :
    Tracks K (p >>= f).run Q g := by
  refine Tracks.bind h fun r g' hr => ?_
  cases r with
  | error e => exact herror e g' hr
  | ok x => exact hf x g' hr

/-! ### Programs that can fail -/

/-- Every call is admitted; where the program fails `E` holds of what is known, and where it returns
`Q` does. -/
def Leads (K : Learning A R G) (p : ExceptT ε (Prog A R) α) (E : G → Prop) (Q : α → G → Prop)
    (g : G) : Prop :=
  Tracks K p.run (fun r g' => match r with | .ok x => Q x g' | .error _ => E g') g

section Leads

variable {p : ExceptT ε (Prog A R) α} {f : α → ExceptT ε (Prog A R) β} {E : G → Prop} {g : G}

theorem Leads.pure {x : α} {Q : α → G → Prop} (h : Q x g) :
    Leads K (Pure.pure x : ExceptT ε (Prog A R) α) E Q g := h

theorem Leads.fail {e : ε} {Q : α → G → Prop} (h : E g) :
    Leads K (ExceptT.mk (Pure.pure (.error e)) : ExceptT ε (Prog A R) α) E Q g := h

theorem Leads.bind {P : α → G → Prop} {Q : β → G → Prop} (h : Leads K p E P g)
    (hf : ∀ x g, P x g → Leads K (f x) E Q g) : Leads K (p >>= f) E Q g :=
  Tracks.andThen h (fun _ _ he => he) hf

theorem Leads.mono {E' : G → Prop} {Q Q' : α → G → Prop} (h : Leads K p E Q g)
    (hE : ∀ g, E g → E' g) (hQ : ∀ x g, Q x g → Q' x g) : Leads K p E' Q' g := by
  refine Tracks.mono h fun r g' hr => ?_
  cases r with
  | error e => exact hE g' hr
  | ok x => exact hQ x g' hr

/-- A program that cannot fail, among those that can. -/
theorem Leads.lift {q : Prog A R α} {Q : α → G → Prop} (h : q.Tracks K Q g) :
    Leads K (ExceptT.lift q : ExceptT ε (Prog A R) α) E Q g :=
  Tracks.bind h fun _ _ hx => hx

/-- The outcome of a program that can fail, as a value. -/
theorem Leads.outcome {Q : α → G → Prop} (h : Leads K p E Q g) :
    Tracks K p.run (fun r g' => (∃ x, r = .ok x ∧ Q x g') ∨ (∃ e, r = .error e) ∧ E g') g := by
  refine Tracks.mono h fun r g' hr => ?_
  cases r with
  | error e => exact .inr ⟨⟨e, rfl⟩, hr⟩
  | ok x => exact .inl ⟨x, rfl, hr⟩

theorem Leads.ite {c : Prop} [Decidable c] {q : ExceptT ε (Prog A R) α} {Q : α → G → Prop}
    (hp : c → Leads K p E Q g) (hq : ¬ c → Leads K q E Q g) :
    Leads K (if c then p else q) E Q g := by
  split
  · rename_i hc
    exact hp hc
  · rename_i hc
    exact hq hc

/-- The calls of a loop that goes on as long as nothing fails. -/
theorem Leads.forM {f : β → ExceptT ε (Prog A R) PUnit} {l : List β} {Q : G → Prop} (hg : Q g)
    (h : ∀ x ∈ l, ∀ g, Q g → Leads K (f x) E (fun _ g' => Q g') g) :
    Leads K (l.forM f) E (fun _ g' => Q g') g := by
  induction l generalizing g with
  | nil => exact Leads.pure hg
  | cons x l ih =>
    exact .bind (h x List.mem_cons_self g hg) fun _ g' hg' =>
      ih hg' fun y hy => h y (List.mem_cons_of_mem x hy)

end Leads

/-- What is known along a program whose calls go by others. -/
theorem Tracks.lift {B : Type} {T : B → Type} {K' : Learning B T G} {inj : B → A}
    {conv : (b : B) → R (inj b) → T b} {p : Prog B T α} {Q : α → G → Prop} {g : G}
    (h : p.Tracks K' Q g) (hasks : ∀ g b, K'.asks g b → K.asks g (inj b))
    (hlearns : ∀ g b r g', K.learns g (inj b) r = some g' → K'.learns g b (conv b r) = some g') :
    (p.lift inj conv).Tracks K Q g := by
  induction p generalizing g with
  | ret x => exact h
  | call b next ih =>
    exact ⟨hasks g b h.1, fun r g' hg' =>
      ih (conv b r) (h.2 (conv b r) g' (hlearns g b r g' hg'))⟩

/-- Calls that teach nothing leave what is known. -/
theorem Tracks.of_calls {P : A → Prop} {p : Prog A R α} {g : G} (h : p.Calls P)
    (hP : ∀ a, P a → K.asks g a ∧ ∀ r g', K.learns g a r = some g' → g' = g) :
    p.Tracks K (fun _ g' => g' = g) g := by
  induction p with
  | ret x => exact rfl
  | call a next ih =>
    refine ⟨(hP a h.1).1, fun r g' hg' => ?_⟩
    obtain rfl := (hP a h.1).2 r g' hg'
    exact ih r (h.2 r)

/-- Calls that are admitted whatever is known. -/
theorem Leads.of_admitted {P : A → Prop} {p : ExceptT ε (Prog A R) α} {g : G}
    (h : Calls P p.run) (hP : ∀ a g, P a → K.asks g a) :
    Leads K p (fun _ => True) (fun _ _ => True) g := by
  have hall : ∀ q : Prog A R (Except ε α), q.Calls P → ∀ g, q.Tracks K
      (fun r g' => match r with | .ok _ => True | .error _ => True) g := by
    intro q hq
    induction q with
    | ret r =>
      intro g
      cases r with
      | error e => exact trivial
      | ok x => exact trivial
    | call a next ih => exact fun g => ⟨hP a g hq.1, fun r g' _ => ih r (hq.2 r) g'⟩
  exact hall p.run h g

theorem Leads.of_calls {P : A → Prop} {p : ExceptT ε (Prog A R) α} {g : G} {E : G → Prop}
    {Q : α → G → Prop} (h : Calls P p.run)
    (hP : ∀ a, P a → K.asks g a ∧ ∀ r g', K.learns g a r = some g' → g' = g) (hE : E g)
    (hQ : ∀ x, Q x g) : Leads K p E Q g := by
  refine Tracks.mono (.of_calls h hP) ?_
  rintro (e | x) g' rfl
  · exact hE
  · exact hQ x

/-! ### Programs of which nothing need be known -/

/-- Every call satisfies `P`, and where the program returns the result satisfies `Q`. -/
def Yields (P : A → Prop) (p : ExceptT ε (Prog A R) α) (Q : α → Prop) : Prop :=
  Leads (⟨fun _ a => P a, fun _ _ _ => some ()⟩ : Learning A R Unit) p (fun _ => True)
    (fun x _ => Q x) ()

section Yields

variable {P : A → Prop} {p : ExceptT ε (Prog A R) α} {f : α → ExceptT ε (Prog A R) β} {Q : α → Prop}

theorem Yields.pure {x : α} (h : Q x) : Yields P (Pure.pure x : ExceptT ε (Prog A R) α) Q := h

theorem Yields.bind {Q' : β → Prop} (h : Yields P p Q) (hf : ∀ x, Q x → Yields P (f x) Q') :
    Yields P (p >>= f) Q' :=
  Leads.bind h fun x _ hx => hf x hx

theorem Yields.ite {c : Prop} [Decidable c] {q : ExceptT ε (Prog A R) α} (hp : c → Yields P p Q)
    (hq : ¬ c → Yields P q Q) : Yields P (if c then p else q) Q :=
  Leads.ite hp hq

theorem Yields.of_calls (h : Calls P p.run) : Yields P p fun _ => True :=
  Leads.of_calls h (fun _ ha => ⟨ha, fun _ _ _ => rfl⟩) trivial fun _ => trivial

/-- Calls that keep a fact about what is known. -/
theorem Leads.of_yields {J : G → Prop} {g : G} (h : Yields P p Q) (hg : J g)
    (hP : ∀ a g, P a → J g → K.asks g a ∧ ∀ r g', K.learns g a r = some g' → J g') :
    Leads K p J (fun x g' => Q x ∧ J g') g := by
  have htracks : ∀ (q : Prog A R (Except ε α)) (g : G), J g →
      q.Tracks (⟨fun _ a => P a, fun _ _ _ => some ()⟩ : Learning A R Unit)
        (fun r _ => match r with | .ok x => Q x | .error _ => True) () →
      q.Tracks K (fun r g' => match r with | .ok x => Q x ∧ J g' | .error _ => J g') g := by
    intro q
    induction q with
    | ret r =>
      intro g hg hr
      cases r with
      | error e => exact hg
      | ok x => exact ⟨hr, hg⟩
    | call a next ih =>
      intro g hg hq
      obtain ⟨hask, hlearn⟩ := hP a g hq.1 hg
      exact ⟨hask, fun r g' hg' => ih r g' (hlearn r g' hg') (hq.2 r () rfl)⟩
  exact htracks p.run g hg h

end Yields

end Prog

namespace System

variable {A : Type} {R : A → Type} {C S Op E α G : Type} (sys : System A R C S Op E α)

/-- Knowledge of each process that its steps bear out and the steps of the others leave true. -/
structure Insight (allowed : Nat → A → C → S → Prop) (s0 : S) (K : Nat → Learning A R G) where
  Inv : S → Prop
  Knows : Nat → G → S → Prop
  idle : G
  rest : G → Prop
  init : Inv s0 ∧ ∀ i, Knows i idle s0
  code : ∀ i op, (sys.code op).Tracks (K i) (fun _ => rest) idle
  atRest : ∀ i g s, rest g → Knows i g s → Knows i idle s
  call : ∀ i g a c s r t, Inv s → Knows i g s → (K i).asks g a → allowed i a c s →
    sys.perform i a c s = some (r, t) →
    Inv t ∧ (∃ g', (K i).learns g a r = some g' ∧ Knows i g' t) ∧
      ∀ j, j ≠ i → ∀ h, Knows j h s → Knows j h t
  die : ∀ i g s, Inv s → Knows i g s → Inv (sys.die i s) ∧ Knows i idle (sys.die i s) ∧
    ∀ j, j ≠ i → ∀ h, Knows j h s → Knows j h (sys.die i s)
  env : ∀ e s t, Inv s → sys.env e s = some t → Inv t ∧ ∀ j h, Knows j h s → Knows j h t

variable {sys} {allowed : Nat → A → C → S → Prop} {s0 : S} {K : Nat → Learning A R G}

/-- A process is idle, or knows what the rest of its program needs. -/
def Insight.Stands (o : sys.Insight allowed s0 K) (i : Nat) (s : S) : Option (Prog A R α) → Prop
  | none => o.Knows i o.idle s
  | some p => ∃ g, o.Knows i g s ∧ p.Tracks (K i) (fun _ => o.rest) g

theorem Insight.Stands.knows {o : sys.Insight allowed s0 K} {i : Nat} {s : S}
    {p : Option (Prog A R α)} (h : o.Stands i s p) : ∃ g, o.Knows i g s := by
  cases p with
  | none => exact ⟨o.idle, h⟩
  | some p =>
    obtain ⟨g, hg, -⟩ := h
    exact ⟨g, hg⟩

theorem Insight.Stands.mono {o : sys.Insight allowed s0 K} {i : Nat} {s t : S}
    {p : Option (Prog A R α)} (h : o.Stands i s p)
    (hst : ∀ g, o.Knows i g s → o.Knows i g t) : o.Stands i t p := by
  cases p with
  | none => exact hst o.idle h
  | some p =>
    obtain ⟨g, hg, hp⟩ := h
    exact ⟨g, hst g hg, hp⟩

/-- The invariant holds, and every process stands where the insight has it. -/
def Insight.Holds (o : sys.Insight allowed s0 K) (g : Config A R S α) : Prop :=
  o.Inv g.shared ∧ ∀ i, o.Stands i g.shared (g.procs i)

theorem Insight.Holds.update {o : sys.Insight allowed s0 K} {g : Config A R S α} {i : Nat} {s : S}
    {p : Option (Prog A R α)} (h : o.Holds g) (hs : o.Inv s) (hi : o.Stands i s p)
    (hj : ∀ j, j ≠ i → ∀ k, o.Knows j k g.shared → o.Knows j k s) :
    o.Holds ⟨s, Function.update g.procs i p⟩ := by
  refine ⟨hs, fun j => ?_⟩
  by_cases hji : j = i
  · subst hji
    simpa using hi
  · simpa [Function.update_of_ne hji] using (h.2 j).mono (hj j hji)

theorem Insight.step {o : sys.Insight allowed s0 K} {g g' : Config A R S α} {m : Move C Op E}
    (h : o.Holds g) (hm : Permits allowed g m) (hg : sys.move g m = some g') : o.Holds g' := by
  cases m with
  | begin i op =>
    rw [move] at hg
    split at hg
    · rename_i hp
      cases hg
      have hi := h.2 i
      rw [hp] at hi
      exact h.update h.1 ⟨o.idle, hi, o.code i op⟩ fun _ _ _ hk => hk
    · contradiction
  | call i c =>
    rw [move] at hg
    split at hg
    · rename_i a next hp
      split at hg
      · rename_i r s hperf
        cases hg
        have hi := h.2 i
        rw [hp] at hi
        obtain ⟨k, hk, hask, hnext⟩ := hi
        obtain ⟨hs, ⟨k', hlearn, hk'⟩, hothers⟩ :=
          o.call i k a c g.shared r s h.1 hk hask (hm a next hp) hperf
        exact h.update hs ⟨k', hk', hnext r k' hlearn⟩ hothers
      · contradiction
    · contradiction
  | finish i =>
    rw [move] at hg
    split at hg
    · rename_i x hp
      cases hg
      have hi := h.2 i
      rw [hp] at hi
      obtain ⟨k, hk, hrest⟩ := hi
      exact h.update h.1 (o.atRest i k g.shared hrest hk) fun _ _ _ hk => hk
    · contradiction
  | die i =>
    rw [move] at hg
    split at hg
    · cases hg
      obtain ⟨k, hk⟩ := (h.2 i).knows
      obtain ⟨hs, hidle, hothers⟩ := o.die i k g.shared h.1 hk
      exact h.update hs hidle hothers
    · contradiction
  | env e =>
    rw [move] at hg
    split at hg
    · rename_i s he
      cases hg
      obtain ⟨hs, hothers⟩ := o.env e g.shared s h.1 he
      exact ⟨hs, fun i => (h.2 i).mono (hothers i)⟩
    · contradiction

theorem Insight.holds (o : sys.Insight allowed s0 K) {g : Config A R S α}
    (hg : sys.Reach allowed s0 g) : o.Holds g := by
  induction hg with
  | start => exact ⟨o.init.1, o.init.2⟩
  | move m _ hm hmove ih => exact Insight.step ih hm hmove

/-- The next call of a process is one that it may make by what it knows. -/
theorem Insight.stands (o : sys.Insight allowed s0 K) {g : Config A R S α}
    (hg : sys.Reach allowed s0 g) {i : Nat} {a : A} {next : R a → Prog A R α}
    (hp : g.procs i = some (.call a next)) :
    o.Inv g.shared ∧ ∃ k, o.Knows i k g.shared ∧ (K i).asks k a := by
  obtain ⟨hs, hstands⟩ := o.holds hg
  have hi := hstands i
  rw [hp] at hi
  obtain ⟨k, hk, hask, -⟩ := hi
  exact ⟨hs, k, hk, hask⟩

end System

end Concurrent
