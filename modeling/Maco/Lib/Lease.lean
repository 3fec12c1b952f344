import Mathlib.Logic.Function.Basic

/-! Leases: a key is taken for a time, and taken anew only once that time has run out.  A process
that gives up before its lease does has the key to itself until then, however long it is delayed. -/

namespace Leases

/-- Who took the lease of a key, and when it runs out. -/
structure Grant (P : Type) where
  holder : P
  expires : Nat
  deriving DecidableEq, Repr

/-- The leases of the keys. -/
abbrev Book (K P : Type) := K → Option (Grant P)

variable {K P : Type} {l l' l'' : Book K P} {now now' now'' d d' margin : Nat} {p q : P} {k : K}

/-- The key has not been taken, or its lease has run out. -/
def Free (l : Book K P) (now : Nat) (k : K) : Prop := ∀ g, l k = some g → g.expires ≤ now

instance (l : Book K P) (now : Nat) (k : K) : Decidable (Free l now k) :=
  match h : l k with
  | none => isTrue fun g hg => by
    rw [h] at hg
    cases hg
  | some g => decidable_of_iff (g.expires ≤ now) (by
    constructor
    · intro hle g' hg'
      rw [h] at hg'
      cases hg'
      exact hle
    · exact fun hfree => hfree g h)

/-- Up to its deadline the process has the lease of the key, which runs out `margin` later. -/
def Held (l : Book K P) (now margin : Nat) (p : P) (k : K) (d : Nat) : Prop :=
  now < d → ∃ g, l k = some g ∧ g.holder = p ∧ d + margin ≤ g.expires

/-- Time passes; a key is taken anew only where it is free, and for longer than before. -/
structure Onward (l : Book K P) (now : Nat) (l' : Book K P) (now' : Nat) : Prop where
  time : now ≤ now'
  kept : ∀ k, l' k = l k ∨
    Free l now' k ∧ ∃ g', l' k = some g' ∧ ∀ g, l k = some g → g.expires ≤ g'.expires

theorem Onward.tick (l : Book K P) (h : now ≤ now') : Onward l now l now' :=
  ⟨h, fun _ => .inl rfl⟩

/-- No lease gets shorter. -/
theorem Onward.expires (h : Onward l now l' now') {g : Grant P} (hg : l k = some g) :
    ∃ g', l' k = some g' ∧ g.expires ≤ g'.expires := by
  obtain hsame | ⟨-, g', hg', hle⟩ := h.kept k
  · exact ⟨g, hsame.trans hg, Nat.le_refl _⟩
  · exact ⟨g', hg', hle g hg⟩

theorem Onward.trans (h : Onward l now l' now') (h' : Onward l' now' l'' now'') :
    Onward l now l'' now'' := by
  refine ⟨Nat.le_trans h.time h'.time, fun k => ?_⟩
  obtain hsame' | ⟨hfree', g'', hg'', hle'⟩ := h'.kept k
  · obtain hsame | ⟨hfree, g', hg', hle⟩ := h.kept k
    · exact .inl (hsame'.trans hsame)
    · exact .inr ⟨fun g hg => Nat.le_trans (hfree g hg) h'.time, g', hsame'.trans hg', hle⟩
  · refine .inr ⟨fun g hg => ?_, g'', hg'', fun g hg => ?_⟩
    · obtain ⟨g', hg', hle⟩ := h.expires hg
      exact Nat.le_trans hle (hfree' g' hg')
    · obtain ⟨g', hg', hle⟩ := h.expires hg
      exact Nat.le_trans hle (hle' g' hg')

/-- The others take the key only after the deadline. -/
theorem Held.onward (hp : Held l now margin p k d) (h : Onward l now l' now') :
    Held l' now' margin p k d := by
  intro hd
  obtain ⟨g, hg, hholder, hle⟩ := hp (Nat.lt_of_le_of_lt h.time hd)
  obtain hsame | ⟨hfree, -⟩ := h.kept k
  · exact ⟨g, hsame.trans hg, hholder, hle⟩
  · have := hfree g hg
    omega

/-- No two processes have a key before their deadlines. -/
theorem Held.unique {margin' : Nat} (hp : Held l now margin p k d)
    (hq : Held l now margin' q k d') (hd : now < d) (hd' : now < d') : p = q := by
  obtain ⟨g, hg, rfl, -⟩ := hp hd
  obtain ⟨g', hg', rfl, -⟩ := hq hd'
  rw [hg] at hg'
  cases hg'
  rfl

section Take

variable [DecidableEq K]

/-- The book after a key is taken. -/
def take (l : Book K P) (p : P) (k : K) (expires : Nat) : Book K P :=
  Function.update l k (some ⟨p, expires⟩)

theorem onward_take (hfree : Free l now k) {expires : Nat} (h : now ≤ expires) :
    Onward l now (take l p k expires) now := by
  refine ⟨Nat.le_refl now, fun k' => ?_⟩
  by_cases hk : k' = k
  · subst hk
    exact .inr ⟨hfree, ⟨p, expires⟩, Function.update_self .., fun g hg =>
      Nat.le_trans (hfree g hg) h⟩
  · exact .inl (Function.update_of_ne hk _ _)

theorem held_take {expires : Nat} (h : d + margin ≤ expires) :
    Held (take l p k expires) now margin p k d :=
  fun _ => ⟨⟨p, expires⟩, Function.update_self .., rfl, h⟩

end Take

end Leases
