import Mathlib.Data.List.Basic
import Mathlib.Data.List.Nodup

/-! The last elements of a list, while others come and go. -/

namespace Recent

variable {α : Type}

/-- The last `n` elements. -/
def recent (n : Nat) (l : List α) : List α := l.drop (l.length - n)

theorem take_append_recent (n : Nat) (l : List α) : l.take (l.length - n) ++ recent n l = l :=
  List.take_append_drop _ l

theorem mem_of_mem_recent {n : Nat} {l : List α} {x : α} (h : x ∈ recent n l) : x ∈ l :=
  List.mem_of_mem_drop h

theorem map_recent {β : Type} (f : α → β) (n : Nat) (l : List α) :
    (recent n l).map f = recent n (l.map f) := by
  rw [recent, recent, List.map_drop, List.length_map]

/-- In a list without repetition, what stands before the last elements is none of them. -/
theorem not_mem_recent_of_mem_take {n : Nat} {l : List α} {x : α} (hl : l.Nodup)
    (hx : x ∈ l.take (l.length - n)) : x ∉ recent n l := by
  rw [← take_append_recent n l, List.nodup_append] at hl
  exact fun hmem => hl.2.2 x hx x hmem rfl

theorem length_recent (n : Nat) (l : List α) : (recent n l).length = min n l.length := by
  rw [recent, List.length_drop]
  omega

/-- A removal of others leaves the last elements. -/
theorem recent_filter {n : Nat} {l : List α} {p : α → Bool} (h : ∀ x ∈ recent n l, p x = true) :
    recent n (l.filter p) = recent n l := by
  have hsplit : l.filter p = (l.take (l.length - n)).filter p ++ recent n l := by
    conv =>
      lhs
      rw [← take_append_recent n l, List.filter_append, List.filter_eq_self.mpr h]
  by_cases hlong : n ≤ l.length
  · have hlength : (recent n l).length = n := by
      rw [length_recent]
      omega
    rw [hsplit, recent, List.length_append, hlength, Nat.add_sub_cancel, List.drop_left]
  · have hall : recent n l = l := by
      rw [recent, Nat.sub_eq_zero_of_le (by omega), List.drop_zero]
    rw [hall] at h ⊢
    rw [List.filter_eq_self.mpr h, hall]

/-- An insertion brings no other element among the last ones. -/
theorem mem_recent_insert {n : Nat} {a b : List α} {x y : α} (h : y ∈ recent n (a ++ x :: b)) :
    y = x ∨ y ∈ recent n (a ++ b) := by
  have hlength : (a ++ x :: b).length = (a ++ b).length + 1 := by
    simp only [List.length_append, List.length_cons]
    omega
  by_cases hend : n ≤ b.length
  · right
    have hdrop : (a ++ x :: b).length - n = a.length + (b.length + 1 - n) := by
      rw [List.length_append, List.length_cons]
      omega
    rw [recent, hdrop, ← List.drop_drop, List.drop_left,
      show b.length + 1 - n = b.length - n + 1 by omega, List.drop_succ_cons] at h
    rw [recent, List.length_append, show a.length + b.length - n = a.length + (b.length - n) by omega,
      ← List.drop_drop, List.drop_left]
    exact h
  · have hle : (a ++ x :: b).length - n ≤ a.length := by
      rw [List.length_append, List.length_cons]
      omega
    rw [recent, List.drop_append_of_le_length hle, List.mem_append, List.mem_cons] at h
    have hle' : (a ++ b).length - n ≤ a.length := by omega
    rw [recent, List.drop_append_of_le_length hle', List.mem_append]
    obtain h | rfl | h := h
    · exact .inr (.inl (List.drop_subset_drop_left a (by omega) h))
    · exact .inl rfl
    · exact .inr (.inr h)

end Recent
