import Mathlib.Algebra.Ring.Nat
import Maco.Lib.OptionText
import Mathlib.Data.List.Forall2

/-! Several options in one text, with a separator between two.  They come back when no piece has the
separator in it; and where as many pieces come back, each with no fewer separators than were put
in, none was put in. -/

namespace OptionText

variable {α : Type} [DecidableEq α] {sep eq : α}

theorem forall₂_imp_mem {β γ : Type} {R S : β → γ → Prop} {l : List β} {l' : List γ}
    (h : List.Forall₂ R l l') (hS : ∀ a, ∀ b ∈ l', R a b → S a b) : List.Forall₂ S l l' := by
  induction h with
  | nil => exact .nil
  | cons hab _ ih =>
    exact .cons (hS _ _ List.mem_cons_self hab) (ih fun a b hb => hS a b (List.mem_cons_of_mem _ hb))

theorem forall₂_append_iff {β γ : Type} {R : β → γ → Prop} {l k : List β} {l' k' : List γ}
    (h : l.length = l'.length) :
    List.Forall₂ R (l ++ k) (l' ++ k') ↔ List.Forall₂ R l l' ∧ List.Forall₂ R k k' := by
  induction l generalizing l' with
  | nil =>
    obtain rfl : l' = [] := List.length_eq_zero_iff.mp h.symm
    simp
  | cons x l ih =>
    cases l' with
    | nil => cases h
    | cons y l' =>
      rw [List.cons_append, List.cons_append, List.forall₂_cons, List.forall₂_cons,
        ih (Nat.succ.inj h), and_assoc]

omit [DecidableEq α] in
theorem intercalate_head {p : List α} {ps : List (List α)} (hp : sep ∉ p) (hne : p ≠ []) :
    ([sep].intercalate (p :: ps)).head? ≠ some sep := by
  cases p with
  | nil => exact absurd rfl hne
  | cons c p =>
    have hc : c ≠ sep := fun h => hp (h ▸ List.mem_cons_self)
    cases ps with
    | nil => simpa using hc
    | cons q ps => simpa [List.intercalate_cons_cons] using hc

theorem pieces_intercalate {p : List α} {ps : List (List α)} (hp : sep ∉ p)
    (hps : ∀ q ∈ ps, sep ∉ q ∧ q ≠ []) :
    pieces sep ([sep].intercalate (p :: ps)) = p :: ps := by
  induction ps generalizing p with
  | nil => simpa using pieces_plain hp
  | cons q ps ih =>
    have hq := hps q List.mem_cons_self
    rw [List.intercalate_cons_cons, List.append_assoc, List.singleton_append,
      pieces_append hp (intercalate_head hq.1 hq.2),
      ih hq.1 fun r hr => hps r (List.mem_cons_of_mem q hr)]

/-! ### How many separators there are -/

/-- The separators that the pieces have in them. -/
def literal (sep : α) (ps : List (List α)) : Nat := (ps.map (List.count sep)).sum

omit [DecidableEq α] in
theorem length_push {c : α} {ps : List (List α)} (h : ps ≠ []) :
    (push c ps).length = ps.length := by
  cases ps with
  | nil => exact absurd rfl h
  | cons p ps => rfl

theorem literal_push {c : α} (ps : List (List α)) :
    literal sep (push c ps) = [c].count sep + literal sep ps := by
  cases ps with
  | nil => simp [push, literal]
  | cons p ps =>
    simp only [push, literal, List.map_cons, List.sum_cons, List.count_cons, List.count_nil]
    omega

/-- A separator ends a piece, or two of them are one in a piece. -/
theorem count_eq_pieces (s : List α) :
    s.count sep + 1 = (pieces sep s).length + 2 * literal sep (pieces sep s) := by
  fun_induction pieces sep s with
  | case1 => simp [literal]
  | case2 => simp [literal]
  | case3 c h => simp [literal, h]
  | case4 cs ih =>
    rw [length_push (pieces_ne_nil sep cs), literal_push]
    simp only [List.count_cons_self, List.count_nil]
    omega
  | case5 d cs h ih =>
    simp only [List.count_cons_self, List.length_cons, literal, List.map_cons, List.count_nil,
      List.sum_cons] at ih ⊢
    omega
  | case6 c d cs h ih =>
    rw [length_push (pieces_ne_nil sep _), literal_push, List.count_cons_of_ne h,
      List.count_cons_of_ne h, List.count_nil]
    omega

theorem count_intercalate (p : List α) (ps : List (List α)) :
    ([sep].intercalate (p :: ps)).count sep = ps.length + literal sep (p :: ps) := by
  induction ps generalizing p with
  | nil => simp [literal]
  | cons q ps ih =>
    rw [List.intercalate_cons_cons, List.append_assoc, List.singleton_append, List.count_append,
      List.count_cons_self, ih]
    simp only [literal, List.map_cons, List.sum_cons, List.length_cons]
    omega

theorem count_le_literal {p : List α} {ps : List (List α)} (h : p ∈ ps) :
    p.count sep ≤ literal sep ps := by
  induction ps with
  | nil => simp at h
  | cons q ps ih =>
    simp only [literal, List.map_cons, List.sum_cons] at ih ⊢
    rcases List.mem_cons.mp h with rfl | h
    · omega
    · have := ih h
      omega

theorem literal_le {qs ps : List (List α)}
    (h : List.Forall₂ (fun q p => p.count sep ≤ q.count sep) qs ps) :
    literal sep ps ≤ literal sep qs := by
  induction h with
  | nil => exact Nat.le_refl _
  | cons h _ ih => exact Nat.add_le_add h ih

/-- Where pieces come back that have the separators that were put in, none was put in. -/
theorem not_mem_of_pieces {p : List α} {ps : List (List α)}
    (h : List.Forall₂ (fun q p => p.count sep ≤ q.count sep)
      (pieces sep ([sep].intercalate (p :: ps))) (p :: ps)) : ∀ q ∈ p :: ps, sep ∉ q := by
  have hle := literal_le h
  have hlen := h.length_eq
  have hcount : ([sep].intercalate (p :: ps)).count sep + 1 = _ := count_eq_pieces _
  rw [count_intercalate] at hcount
  rw [List.length_cons] at hlen
  intro q hq
  have : q.count sep ≤ literal sep (p :: ps) := count_le_literal hq
  exact List.count_eq_zero.mp (by omega)

end OptionText
