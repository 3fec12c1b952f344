import Mathlib.Data.List.Nodup
import Mathlib.Data.List.Dedup

/-! Lists without repetitions in the order of first occurrence: `List.eraseDups` and the loop that
appends what it has not seen. -/

namespace List

variable {α : Type} [DecidableEq α]

theorem nodup_eraseDups (l : List α) : l.eraseDups.Nodup := by
  match l with
  | [] => exact List.nodup_nil
  | a :: l =>
    have hlt : (l.filter fun b => !b == a).length < l.length + 1 :=
      Nat.lt_succ_of_le (List.length_filter_le _ l)
    rw [eraseDups_cons, nodup_cons]
    refine ⟨?_, nodup_eraseDups _⟩
    simp
termination_by l.length

theorem filter_eraseDups (p : α → Bool) (l : List α) :
    l.eraseDups.filter p = (l.filter p).eraseDups := by
  match l with
  | [] => rfl
  | a :: l =>
    have hlt : (l.filter fun b => !b == a).length < l.length + 1 :=
      Nat.lt_succ_of_le (List.length_filter_le _ l)
    have hcomm : (l.filter fun b => !b == a).filter p = (l.filter p).filter fun b => !b == a :=
      List.filter_comm _ _ l
    have ih := filter_eraseDups p (l.filter fun b => !b == a)
    rw [eraseDups_cons, filter_cons, filter_cons, ih, hcomm]
    by_cases ha : p a = true
    · rw [if_pos ha, if_pos ha, eraseDups_cons]
    · rw [if_neg ha, if_neg ha]
      congr 1
      rw [filter_eq_self]
      intro b hb
      have hpb := (mem_filter.mp hb).2
      have hne : b ≠ a := by
        rintro rfl
        exact ha hpb
      simpa using hne
termination_by l.length

/-- The loop that appends what passes a test and is not there yet. -/
theorem foldl_append_new (p : α → Bool) (l seen : List α) :
    l.foldl (fun out x => if p x && x ∉ out then out ++ [x] else out) seen =
      seen ++ ((l.filter p).removeAll seen).eraseDups := by
  induction l generalizing seen with
  | nil => simp
  | cons a l ih =>
    rw [foldl_cons, ih]
    by_cases ha : p a = true
    · by_cases hseen : a ∈ seen
      · simp [ha, hseen, removeAll]
      · have hfilter : (l.filter p).removeAll (seen ++ [a]) =
            ((l.filter p).removeAll seen).filter fun b => !b == a := by
          simp only [removeAll, filter_filter]
          apply filter_congr
          intro b _
          by_cases hb : b = a <;> simp [hb]
        have hcons : (a :: l.filter p).removeAll seen = a :: (l.filter p).removeAll seen := by
          unfold removeAll
          rw [filter_cons_of_pos (by simpa using hseen)]
        simp only [ha, hseen, not_false_eq_true, decide_true, Bool.and_true, if_true, filter_cons,
          append_assoc, hfilter, singleton_append]
        rw [hcons, eraseDups_cons]
    · simp [ha]

end List
