import Mathlib.Data.List.Basic

/-! Sorting by a comparison that orders distinct elements only, and lists cut into pieces of one
length. -/

namespace Sorting

variable {α : Type}

/-! ### Sorting -/

theorem merge_congr {r s : α → α → Bool} {xs ys : List α}
    (h : ∀ x ∈ xs, ∀ y ∈ ys, r x y = s x y) : xs.merge ys r = xs.merge ys s := by
  induction xs generalizing ys with
  | nil => simp
  | cons x xs ihx =>
    induction ys with
    | nil => simp
    | cons y ys ihy =>
      have hleft := ihx fun a ha b hb => h a (List.mem_cons_of_mem x ha) b hb
      have hright := ihy fun a ha b hb => h a ha b (List.mem_cons_of_mem y hb)
      rw [List.cons_merge_cons, List.cons_merge_cons, hleft, hright,
        h x List.mem_cons_self y List.mem_cons_self]

/-- A sort compares only elements that stand at different places of the list. -/
theorem mergeSort_congr {r s : α → α → Bool} : ∀ {l : List α},
    l.Pairwise (fun a b => r a b = s a b) → l.mergeSort r = l.mergeSort s
  | [], _ => by simp
  | [a], _ => by simp
  | a :: b :: l, h => by
    have hsplit := List.MergeSort.Internal.splitInTwo_fst_append_splitInTwo_snd
      ⟨a :: b :: l, rfl⟩
    rw [List.mergeSort, List.mergeSort]
    generalize hhalves : List.MergeSort.Internal.splitInTwo ⟨a :: b :: l, rfl⟩ = halves at hsplit
    obtain ⟨⟨xs, hxs⟩, ⟨ys, hys⟩⟩ := halves
    have hboth : xs ++ ys = a :: b :: l := hsplit
    rw [← hboth, List.pairwise_append] at h
    have hx : xs.length < (a :: b :: l).length := by
      simp only [List.length_cons] at hxs ⊢
      omega
    have hy : ys.length < (a :: b :: l).length := by
      simp only [List.length_cons] at hys ⊢
      omega
    show (xs.mergeSort r).merge (ys.mergeSort r) r = (xs.mergeSort s).merge (ys.mergeSort s) s
    rw [mergeSort_congr h.1, mergeSort_congr h.2.1]
    refine merge_congr fun x hx y hy => h.2.2 x ?_ y ?_
    · exact (List.mergeSort_perm xs s).mem_iff.mp hx
    · exact (List.mergeSort_perm ys s).mem_iff.mp hy
  termination_by l => l.length
  decreasing_by
    · exact hx
    · exact hy

/-- A list is sorted by any comparison that agrees on it with a total order. -/
theorem pairwise_mergeSort_of_agree {r s : α → α → Bool} {l : List α}
    (htrans : ∀ a b c, s a b → s b c → s a c) (htotal : ∀ a b, s a b || s b a)
    (h : l.Pairwise fun a b => r a b = s a b) : (l.mergeSort r).Pairwise fun a b => s a b := by
  rw [mergeSort_congr h]
  exact List.pairwise_mergeSort htrans htotal l

/-! ### Pieces -/

/-- The pieces of length `m` before the place `m * n` make up what stands there. -/
theorem flatten_pieces (m n : Nat) (l : List α) :
    ((List.range n).map fun k => (l.drop (m * k)).take m).flatten = l.take (m * n) := by
  induction n with
  | zero => simp
  | succ n ih =>
    rw [List.range_succ, List.map_append, List.flatten_append, ih, Nat.mul_succ, List.take_add]
    simp

/-- Enough pieces make up the whole list. -/
theorem flatten_pieces_all {m n : Nat} {l : List α} (h : l.length ≤ m * n) :
    ((List.range n).map fun k => (l.drop (m * k)).take m).flatten = l := by
  rw [flatten_pieces, List.take_of_length_le h]

end Sorting
