import Maco.Lib.Sorting
import Mathlib.Algebra.Order.Ring.Int
import Mathlib.Data.Nat.Basic

/-! Pages of a list as the API cuts them. -/

namespace Maco.Api

structure Page (α : Type) where
  items : List α
  page : Int
  pageSize : Int
  total : Int
  totalPages : Int
  deriving DecidableEq

/-- The number of pages, of which there is always one. -/
def pageCount (total pageSize : Int) : Int :=
  let totalPages := (total + pageSize - 1) / pageSize
  if totalPages < 1 then 1 else totalPages

def paginate {α : Type} (items : List α) (page pageSize : Int) : Page α :=
  let total : Int := items.length
  let totalPages := pageCount total pageSize
  let page := if page > totalPages then totalPages else page
  let start := (page - 1) * pageSize
  let start := if start < 0 then 0 else start
  let start := if start > total then total else start
  let stop := start + pageSize
  let stop := if stop > total then total else stop
  { items := (items.drop start.toNat).take (stop - start).toNat
    page
    pageSize
    total
    totalPages }

section Pages

variable {α : Type} {items : List α} {page pageSize : Int}

theorem pageCount_pos (total pageSize : Int) : 1 ≤ pageCount total pageSize := by
  unfold pageCount
  simp only
  split <;> omega

/-- The pages hold the whole list. -/
theorem le_pageCount_mul {t : Int} (hsize : 1 ≤ pageSize) :
    t ≤ pageCount t pageSize * pageSize := by
  have hdiv := Int.mul_ediv_add_emod (t + pageSize - 1) pageSize
  have hmod := Int.emod_lt_of_pos (t + pageSize - 1) (show 0 < pageSize by omega)
  rw [Int.mul_comm] at hdiv
  unfold pageCount
  simp only
  split
  · rename_i hfew
    have hle : (t + pageSize - 1) / pageSize * pageSize ≤ 0 * pageSize :=
      Int.mul_le_mul_of_nonneg_right (by omega) (by omega)
    omega
  · omega

/-- The page with number `k + 1` is the piece number `k` of the list. -/
theorem paginate_items {k m : Nat} (hk : (k : Int) + 1 ≤ pageCount items.length m) :
    (paginate items (k + 1) m).items = (items.drop (m * k)).take m := by
  have hstart : ((k : Int) + 1 - 1) * m = ((m * k : Nat) : Int) := by
    rw [Int.add_sub_cancel, Int.mul_comm, Int.natCast_mul]
  simp only [paginate, if_neg (Int.not_lt.mpr hk), hstart]
  generalize m * k = start
  have hnonneg : ¬((start : Int) < 0) := by omega
  rw [if_neg hnonneg]
  by_cases hpast : items.length ≤ start
  · rw [List.drop_of_length_le hpast, List.take_nil]
    split
    · simp
    · rw [Int.toNat_natCast, List.drop_of_length_le hpast, List.take_nil]
  · have hwithin : ¬((start : Int) > items.length) := by omega
    rw [if_neg hwithin, Int.toNat_natCast]
    split
    · rw [List.take_of_length_le, List.take_of_length_le]
      · rw [List.length_drop]
        omega
      · rw [List.length_drop]
        omega
    · congr 1
      omega

/-- A page number beyond the last one stands for it. -/
theorem paginate_clamp (items : List α) (page pageSize : Int) :
    paginate items page pageSize =
      paginate items (min page (pageCount items.length pageSize)) pageSize := by
  have hmin : (if page > pageCount items.length pageSize then pageCount items.length pageSize
      else page) = min page (pageCount items.length pageSize) := by
    split <;> omega
  have hkept : ¬(min page (pageCount items.length pageSize) > pageCount items.length pageSize) := by
    omega
  simp only [paginate, hmin, if_neg hkept]

theorem paginate_page (items : List α) (page pageSize : Int) :
    (paginate items page pageSize).page = min page (pageCount items.length pageSize) := by
  simp only [paginate]
  split <;> omega

theorem paginate_length (hpage : 1 ≤ page) (hsize : 1 ≤ pageSize) :
    (paginate items page pageSize).items.length ≤ pageSize.toNat := by
  obtain ⟨m, rfl⟩ := Int.eq_ofNat_of_zero_le (show 0 ≤ pageSize by omega)
  have hpos := pageCount_pos items.length m
  obtain ⟨k, hk⟩ := Int.eq_ofNat_of_zero_le
    (show 0 ≤ min page (pageCount items.length m) - 1 by omega)
  have hclamped : min page (pageCount items.length m) = k + 1 := by omega
  rw [paginate_clamp, hclamped, paginate_items (by omega)]
  exact List.length_take_le _ _

/-- The numbers of the pages of a list. -/
def pageNumbers (total pageSize : Int) : List Int :=
  (List.range (pageCount total pageSize).toNat).map fun k : Nat => (k : Int) + 1

theorem mem_pageNumbers {total : Int} :
    page ∈ pageNumbers total pageSize ↔ 1 ≤ page ∧ page ≤ pageCount total pageSize := by
  rw [pageNumbers, List.mem_map]
  constructor
  · rintro ⟨k, hk, rfl⟩
    rw [List.mem_range] at hk
    omega
  · rintro ⟨hpage, hle⟩
    refine ⟨(page - 1).toNat, ?_, by omega⟩
    rw [List.mem_range]
    omega

/-- The pages make up the list, each place of it once. -/
theorem flatten_paginate (items : List α) (hsize : 1 ≤ pageSize) :
    ((pageNumbers items.length pageSize).map fun page =>
      (paginate items page pageSize).items).flatten = items := by
  obtain ⟨m, rfl⟩ := Int.eq_ofNat_of_zero_le (show 0 ≤ pageSize by omega)
  have hpos := pageCount_pos items.length m
  have hall := le_pageCount_mul (t := items.length) hsize
  have hpieces : ((pageNumbers items.length m).map fun page => (paginate items page m).items) =
      (List.range (pageCount items.length m).toNat).map fun k => (items.drop (m * k)).take m := by
    rw [pageNumbers, List.map_map]
    refine List.map_congr_left fun k hk => paginate_items ?_
    rw [List.mem_range] at hk
    omega
  rw [hpieces]
  refine Sorting.flatten_pieces_all ?_
  have hcount : pageCount items.length m = ((pageCount items.length m).toNat : Int) := by omega
  rw [hcount, Int.mul_comm] at hall
  exact_mod_cast hall

end Pages

end Maco.Api
