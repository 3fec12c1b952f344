import Maco.Lib.Knowledge
import Mathlib.Logic.Relation

/-! Locks that processes acquire in the order of a rank.  When every process asks only for locks of a
higher rank than those it holds, the waits-for graph of no reachable configuration has a cycle. -/

namespace Concurrent

/-- The calls of a process that acquire and release locks: whether an answer says that the lock has
been taken, and the rank of a lock. -/
structure Locks (A : Type) (R : A → Type) (L : Type) where
  acquires : Nat → A → Option L
  releases : Nat → A → Option L
  took : (a : A) → R a → Bool
  rank : L → Nat

namespace Locks

variable {A : Type} {R : A → Type} {L C S Op E α : Type} [DecidableEq L] (K : Locks A R L)

/-- What a process knows are the locks that it holds, and it asks for those that rank above. -/
def learning (i : Nat) : Learning A R (List L) where
  asks held a := ∀ l, K.acquires i a = some l → ∀ h ∈ held, K.rank h < K.rank l
  learns held a r :=
    match K.acquires i a with
    | some l => some (if K.took a r then l :: held else held)
    | none =>
      match K.releases i a with
      | some l => some (held.filter (· ≠ l))
      | none => some held

/-- The calls do to the locks what they say; a dead process holds none. -/
structure Obeyed (sys : System A R C S Op E α) (holder : S → L → Option Nat) : Prop where
  acquire : ∀ i a l c s r t, K.acquires i a = some l → sys.perform i a c s = some (r, t) →
    (K.took a r = true ∧ holder s l = none ∧ holder t = Function.update (holder s) l (some i)) ∨
      (K.took a r = false ∧ holder t = holder s)
  release : ∀ i a l c s r t, K.acquires i a = none → K.releases i a = some l →
    sys.perform i a c s = some (r, t) → (∀ k, k ≠ l → holder t k = holder s k) ∧
      holder t l = if holder s l = some i then none else holder s l
  other : ∀ i a c s r t, K.acquires i a = none → K.releases i a = none →
    sys.perform i a c s = some (r, t) → holder t = holder s
  die : ∀ i s l, holder (sys.die i s) l = if holder s l = some i then none else holder s l
  env : ∀ e s t, sys.env e s = some t → holder t = holder s

variable {K} {sys : System A R C S Op E α} {holder : S → L → Option Nat}

/-- The process holds just these locks. -/
def Holds (holder : S → L → Option Nat) (i : Nat) (held : List L) (s : S) : Prop :=
  ∀ l, holder s l = some i ↔ l ∈ held

omit [DecidableEq L] in
theorem Holds.congr {i : Nat} {held : List L} {s t : S} (h : Holds holder i held s)
    (hst : holder t = holder s) : Holds holder i held t := by
  unfold Holds
  rw [hst]
  exact h

/-- One more lock has been taken. -/
theorem Holds.take {i j : Nat} {held : List L} {l : L} {s t : S} (h : Holds holder j held s)
    (hfree : holder s l = none) (ht : holder t = Function.update (holder s) l (some i)) :
    Holds holder j (if j = i then l :: held else held) t := by
  intro k
  rw [ht]
  by_cases hk : k = l
  · subst hk
    have hnot : k ∉ held := by
      intro hmem
      have := (h k).mpr hmem
      simp [hfree] at this
    by_cases hj : j = i
    · simp [hj]
    · simp [hj, hnot, Ne.symm hj]
  · rw [Function.update_of_ne hk, h k]
    by_cases hj : j = i <;> simp [hj, hk]

/-- A lock has been given up by the process that held it. -/
theorem Holds.drop {i j : Nat} {held : List L} {l : L} {s t : S} (h : Holds holder j held s)
    (hrest : ∀ k, k ≠ l → holder t k = holder s k)
    (hl : holder t l = if holder s l = some i then none else holder s l) :
    Holds holder j (if j = i then held.filter (· ≠ l) else held) t := by
  intro k
  by_cases hk : k = l
  · subst hk
    rw [hl]
    by_cases hj : j = i
    · subst hj
      simp
    · by_cases hi : holder s k = some i
      · have hnot : k ∉ held := by
          intro hmem
          have hjk := (h k).mpr hmem
          rw [hi] at hjk
          exact hj (by simpa using hjk.symm)
        simp [hi, hj, hnot]
      · simp [hi, hj, h k]
  · rw [hrest k hk, h k]
    by_cases hj : j = i <;> simp [hj, hk]

/-- What the processes hold, and that they ask in order. -/
def insight (hK : K.Obeyed sys holder) {s0 : S}
    (hstart : ∀ l, holder s0 l = none)
    (hcode : ∀ i op, (sys.code op).Tracks (K.learning i) (fun _ held => held = []) []) :
    sys.Insight (fun _ _ _ _ => True) s0 K.learning where
  Inv _ := True
  Knows := Holds holder
  idle := []
  rest held := held = []
  init := ⟨trivial, fun i l => by simp [hstart l]⟩
  code := hcode
  atRest i held s hrest h := by rwa [hrest] at h
  call i held a c s r t _ h _ _ hp := by
    refine ⟨trivial, ?_, ?_⟩
    · unfold learning
      cases hacq : K.acquires i a with
      | some l =>
        obtain ⟨htook, hfree, ht⟩ | ⟨htook, ht⟩ := hK.acquire i a l c s r t hacq hp
        · exact ⟨l :: held, by simp [hacq, htook], by simpa using h.take (i := i) hfree ht⟩
        · exact ⟨held, by simp [hacq, htook], h.congr ht⟩
      | none =>
        cases hrel : K.releases i a with
        | some l =>
          obtain ⟨hrest, hl⟩ := hK.release i a l c s r t hacq hrel hp
          exact ⟨held.filter (· ≠ l), by simp [hacq, hrel], by simpa using h.drop (i := i) hrest hl⟩
        | none =>
          exact ⟨held, by simp [hacq, hrel], h.congr (hK.other i a c s r t hacq hrel hp)⟩
    · intro j hj held' h'
      cases hacq : K.acquires i a with
      | some l =>
        obtain ⟨-, hfree, ht⟩ | ⟨-, ht⟩ := hK.acquire i a l c s r t hacq hp
        · simpa [hj] using h'.take (i := i) hfree ht
        · exact h'.congr ht
      | none =>
        cases hrel : K.releases i a with
        | some l =>
          obtain ⟨hrest, hl⟩ := hK.release i a l c s r t hacq hrel hp
          simpa [hj] using h'.drop (i := i) hrest hl
        | none => exact h'.congr (hK.other i a c s r t hacq hrel hp)
  die i held s _ _ := by
    refine ⟨trivial, fun l => ?_, fun j hj held' h' l => ?_⟩
    · rw [hK.die]
      by_cases hl : holder s l = some i <;> simp [hl]
    · rw [hK.die]
      by_cases hl : holder s l = some i
      · have hnot : l ∉ held' := by
          intro hmem
          have hjl := (h' l).mpr hmem
          rw [hl] at hjl
          exact hj (by simpa using hjl.symm)
        simp [hl, hnot]
      · simp [hl, h' l]
  env e s t _ he := ⟨trivial, fun j held h => h.congr (hK.env e s t he)⟩

/-! ### The waits-for graph -/

/-- The lock that a process asks for next. -/
def Wants (K : Locks A R L) (g : Config A R S α) (i : Nat) (l : L) : Prop :=
  ∃ a next, g.procs i = some (.call a next) ∧ K.acquires i a = some l

/-- The process asks for a lock that the other one holds. -/
def Waits (K : Locks A R L) (holder : S → L → Option Nat) (g : Config A R S α) (i j : Nat) :
    Prop :=
  ∃ l, K.Wants g i l ∧ holder g.shared l = some j

omit [DecidableEq L] in
theorem Wants.unique {g : Config A R S α} {i : Nat} {l l' : L} (h : K.Wants g i l)
    (h' : K.Wants g i l') : l = l' := by
  obtain ⟨a, next, hp, hl⟩ := h
  obtain ⟨a', next', hp', hl'⟩ := h'
  rw [hp] at hp'
  cases hp'
  rw [hl] at hl'
  simpa using hl'

omit [DecidableEq L] in
/-- Along a path of the waits-for graph the locks that are asked for rise. -/
theorem rank_lt_of_waits {g : Config A R S α}
    (horder : ∀ i l k, K.Wants g i l → holder g.shared k = some i → K.rank k < K.rank l)
    {i j : Nat} (h : Relation.TransGen (K.Waits holder g) i j) {l l' : L} (hi : K.Wants g i l)
    (hj : K.Wants g j l') : K.rank l < K.rank l' := by
  induction h generalizing l' with
  | single hwait =>
    obtain ⟨k, hk, hheld⟩ := hwait
    rw [hi.unique hk]
    exact horder _ l' k hj hheld
  | tail _ hwait ih =>
    obtain ⟨k, hk, hheld⟩ := hwait
    have hfirst := ih hk
    have hlast := horder _ l' k hj hheld
    omega

/-- No process waits for itself, by any number of steps. -/
theorem no_deadlock (hK : K.Obeyed sys holder) {s0 : S} (hstart : ∀ l, holder s0 l = none)
    (hcode : ∀ i op, (sys.code op).Tracks (K.learning i) (fun _ held => held = []) [])
    {g : Config A R S α} (hg : sys.Reach (fun _ _ _ _ => True) s0 g) (i : Nat) :
    ¬Relation.TransGen (K.Waits holder g) i i := by
  have horder : ∀ i l k, K.Wants g i l → holder g.shared k = some i → K.rank k < K.rank l := by
    rintro i l k ⟨a, next, hp, hl⟩ hheld
    obtain ⟨-, held, hknows, hasks⟩ := (insight hK hstart hcode).stands hg hp
    exact hasks l hl k ((hknows k).mp hheld)
  intro hcycle
  have hwants : ∃ l, K.Wants g i l := by
    cases hcycle using Relation.TransGen.head_induction_on with
    | single h =>
      obtain ⟨l, hl, -⟩ := h
      exact ⟨l, hl⟩
    | head h _ _ =>
      obtain ⟨l, hl, -⟩ := h
      exact ⟨l, hl⟩
  obtain ⟨l, hl⟩ := hwants
  have hlt := rank_lt_of_waits horder hcycle hl hl
  omega

/-! ### Programs above a rank -/

section Above

variable {B ε : Type}

/-- The program, run with locks below the rank, asks for locks from that rank on, in order, and holds
in the end what it held before. -/
def Above (K : Locks A R L) (n : Nat) (p : ExceptT ε (Prog A R) α) : Prop :=
  ∀ i held, (∀ l ∈ held, K.rank l < n) →
    Prog.Leads (K.learning i) p (· = held) (fun _ h => h = held) held

variable {n : Nat} {p : ExceptT ε (Prog A R) α} {f : α → ExceptT ε (Prog A R) B}

theorem Above.bind (hp : K.Above n p) (hf : ∀ x, K.Above n (f x)) : K.Above n (p >>= f) := by
  intro i held hheld
  refine .bind (hp i held hheld) fun x h hh => ?_
  subst hh
  exact hf x i h hheld

theorem Above.mono {m : Nat} (hnm : n ≤ m) (hp : K.Above m p) : K.Above n p :=
  fun i held hheld => hp i held fun l hl => Nat.lt_of_lt_of_le (hheld l hl) hnm

/-- A call that concerns no lock. -/
def Plain (K : Locks A R L) (a : A) : Prop := ∀ i, K.acquires i a = none ∧ K.releases i a = none

/-- A program that concerns no lock. -/
theorem Above.of_yields {P : A → Prop} {Q : α → Prop} (h : Prog.Yields P p Q)
    (hP : ∀ a, P a → K.Plain a) : K.Above n p := by
  intro i held _
  refine (Prog.Leads.of_yields (J := (· = held)) h rfl fun a g ha hg => ?_).mono
    (fun _ h => h) fun _ _ h => h.2
  have hplain := hP a ha i
  refine ⟨fun l hl => ?_, fun r held' hr => ?_⟩
  · rw [hplain.1] at hl
    cases hl
  · rw [← hg]
    simpa [learning, hplain] using hr.symm

theorem Above.of_calls (h : p.run.Calls K.Plain) : K.Above n p :=
  .of_yields (.of_calls h) fun _ h => h

theorem Above.pure (x : α) : K.Above n (Pure.pure x : ExceptT ε (Prog A R) α) :=
  .of_calls (.pure _)

theorem Above.ite {c : Prop} [Decidable c] {q : ExceptT ε (Prog A R) α} (hp : c → K.Above n p)
    (hq : ¬ c → K.Above n q) : K.Above n (if c then p else q) := by
  split
  · rename_i hc
    exact hp hc
  · rename_i hc
    exact hq hc

theorem Above.forM {f : B → ExceptT ε (Prog A R) PUnit} {l : List B}
    (hf : ∀ x ∈ l, K.Above n (f x)) : K.Above n (l.forM f) := by
  intro i held hheld
  refine .forM rfl fun x hx h hh => ?_
  subst hh
  exact hf x hx i h hheld

/-- The outcome of a program, as a value. -/
theorem Above.outcome (hp : K.Above n p) :
    K.Above n (ExceptT.lift p.run : ExceptT ε (Prog A R) (Except ε α)) := by
  intro i held hheld
  refine .lift ((hp i held hheld).outcome.mono fun r h hh => ?_)
  rcases hh with ⟨x, -, hh⟩ | ⟨-, hh⟩
  · exact hh
  · exact hh

/-- A program of which the outcome is dropped. -/
theorem Above.dropped (hp : K.Above n p) :
    K.Above n (ExceptT.lift (p.run >>= fun _ => Pure.pure ()) : ExceptT ε (Prog A R) Unit) := by
  intro i held hheld
  refine .lift (.bind (hp i held hheld).outcome fun r h hr => .pure ?_)
  rcases hr with ⟨-, -, hh⟩ | ⟨-, hh⟩
  · exact hh
  · exact hh

/-- A program whose calls go by others, with the same effect on the locks. -/
theorem Above.lift {A' : Type} {R' : A' → Type} {K' : Locks A' R' L} {inj : A' → A}
    {conv : (a : A') → R (inj a) → R' a} {q : ExceptT ε (Prog A' R') α} (hq : K'.Above n q)
    (hrank : K.rank = K'.rank) (hacquires : ∀ i a, K.acquires i (inj a) = K'.acquires i a)
    (hreleases : ∀ i a, K.releases i (inj a) = K'.releases i a)
    (htook : ∀ a r, K.took (inj a) r = K'.took a (conv a r)) :
    K.Above n (ExceptT.mk (q.run.lift inj conv)) := by
  intro i held hheld
  refine Prog.Tracks.lift (hq i held (hrank ▸ hheld)) ?_ ?_
  · intro g a hask l hl
    rw [hacquires] at hl
    rw [hrank]
    exact hask l hl
  · intro g a r g' hg'
    simpa [learning, hacquires, hreleases, htook] using hg'

/-- What is done between the call that takes a lock and the one that frees it. -/
theorem Above.guarded {l : L} {take : ExceptT ε (Prog A R) PUnit} {free : Prog A R PUnit}
    (hl : n ≤ K.rank l)
    (htake : ∀ i held, (∀ h ∈ held, K.rank h < K.rank l) →
      Prog.Leads (K.learning i) take (· = held) (fun _ h => h = l :: held) held)
    (hfree : ∀ i held, free.Tracks (K.learning i) (fun _ h => h = held.filter (· ≠ l)) held)
    (hp : K.Above (K.rank l + 1) p) :
    K.Above n (take >>= fun _ => ExceptT.lift p.run >>= fun r =>
      ExceptT.lift free >>= fun _ => (ExceptT.mk (Pure.pure r) : ExceptT ε (Prog A R) α)) := by
  intro i held hheld
  have hnot : l ∉ held := fun hmem => by
    have := hheld l hmem
    omega
  have hdropped : (l :: held).filter (· ≠ l) = held := by
    rw [List.filter_cons_of_neg (by simp)]
    exact List.filter_eq_self.mpr fun k hk => by
      simpa using fun h : k = l => hnot (h ▸ hk)
  refine .bind (htake i held fun h hh => Nat.lt_of_lt_of_le (hheld h hh) hl) fun _ g hg => ?_
  subst hg
  have hbody := hp i (l :: held) fun k hk => by
    rcases List.mem_cons.mp hk with rfl | hk
    · exact Nat.lt_succ_self _
    · have := hheld k hk
      omega
  refine .bind (.lift hbody.outcome) fun r g hr => ?_
  have hg : g = l :: held := by
    rcases hr with ⟨-, -, hg⟩ | ⟨-, hg⟩
    · exact hg
    · exact hg
  subst hg
  refine .bind (.lift (hfree i _)) fun _ g hg => ?_
  rw [hdropped] at hg
  cases r with
  | ok x => exact .pure hg
  | error e => exact .fail hg

end Above

end Locks

end Concurrent
