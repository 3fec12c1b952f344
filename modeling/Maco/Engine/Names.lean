import Maco.Types
import Mathlib.Data.List.Basic

/-! `uniqueVMName`: the name of a machine that is restored as a new one.  Strings are the bytes that
Go has them in, and `i` is an `int` of 64 bits. -/

namespace Maco.Engine

/-- A string of Go. -/
abbrev GoString := List UInt8

/-- The bytes of a text. -/
def goString (s : String) : GoString := s.toUTF8.toList

/-- `%d`. -/
def decimal (i : Int64) : GoString := goString (toString i.toInt)

/-- `fmt.Sprintf("%s-%d", base, i)`, cut to 63 bytes. -/
def candidate (base : GoString) (i : Int64) : GoString := (base ++ 45 :: decimal i).take 63

/-- The loop of `uniqueVMName` from `i` on, for as many rounds as there is fuel. -/
def searchName (existing : List GoString) (base : GoString) : Nat → Int64 → Option GoString
  | 0, _ => none
  | fuel + 1, i =>
    if candidate base i ∈ existing then searchName existing base fuel (i + 1)
    else some (candidate base i)

/-- `uniqueVMName`; where the machines cannot be listed no name counts as taken. -/
def uniqueVMName (fuel : Nat) (listed : Except Message (List GoString)) (base : GoString) :
    Option GoString :=
  let existing := listed.toOption.getD []
  let base := base.take 63
  if base ∈ existing then searchName existing base fuel 2 else some base

/-! ### The loop -/

section Search

variable {existing : List GoString} {base name : GoString} {fuel : Nat} {i j : Int64}

theorem candidate_length : (candidate base i).length ≤ 63 := by
  unfold candidate
  rw [List.length_take]
  omega

theorem searchName_fresh (h : searchName existing base fuel i = some name) :
    (∃ j, name = candidate base j) ∧ name ∉ existing := by
  induction fuel generalizing i with
  | zero => contradiction
  | succ fuel ih =>
    rw [searchName] at h
    split at h
    · exact ih h
    · rename_i hfree
      cases h
      exact ⟨⟨i, rfl⟩, hfree⟩

/-- The loop ends at the latest with the first free name that it comes to. -/
theorem searchName_ends (n : Nat) (hfree : candidate base (i + Int64.ofNat n) ∉ existing) :
    ∃ name, searchName existing base (n + 1) i = some name := by
  induction n generalizing i with
  | zero =>
    have hzero : i + Int64.ofNat 0 = i := Int64.add_zero i
    rw [hzero] at hfree
    exact ⟨candidate base i, if_neg hfree⟩
  | succ n ih =>
    rw [searchName]
    split
    · apply ih
      have hnext : i + 1 + Int64.ofNat n = i + Int64.ofNat (n + 1) := by
        rw [Int64.add_assoc, Int64.add_comm 1, Int64.ofNat_add]
        rfl
      rwa [hnext]
    · exact ⟨candidate base i, rfl⟩

/-- Counting up from any number comes to every number. -/
theorem exists_add_ofNat (i j : Int64) : ∃ n : Nat, i + Int64.ofNat n = j := by
  refine ⟨(j - i).toBitVec.toNat, ?_⟩
  have hround : Int64.ofNat (j - i).toBitVec.toNat = j - i := by
    apply Int64.toBitVec_inj.mp
    rw [Int64.toBitVec_ofNat', BitVec.ofNat_toNat, BitVec.setWidth_eq]
  rw [hround, Int64.add_comm, Int64.sub_add_cancel]

/-- The loop ends if and only if one of its names is free. -/
theorem searchName_iff :
    (∃ fuel name, searchName existing base fuel i = some name) ↔
      ∃ j, candidate base j ∉ existing := by
  constructor
  · rintro ⟨fuel, name, h⟩
    obtain ⟨⟨j, rfl⟩, hfree⟩ := searchName_fresh h
    exact ⟨j, hfree⟩
  · rintro ⟨j, hfree⟩
    obtain ⟨n, rfl⟩ := exists_add_ofNat i j
    exact ⟨n + 1, searchName_ends n hfree⟩

end Search

/-! ### When a name is found -/

/-- A name is left: the base, the base and a dash where no more fits, or a numbered one. -/
def Room (existing : List GoString) (base : GoString) : Prop :=
  base ∉ existing ∨ (base.length = 62 ∧ base ++ [45] ∉ existing) ∨
    (base.length ≤ 61 ∧ ∃ i, candidate base i ∉ existing)

/-- From a base of 63 bytes all the numbered names are the base. -/
theorem candidate_full {base : GoString} (h : base.length = 63) (i : Int64) :
    candidate base i = base := by
  unfold candidate
  rw [List.take_append_of_le_length (by omega), List.take_of_length_le (by omega)]

/-- From a base of 62 bytes all of them are the base and a dash. -/
theorem candidate_dash {base : GoString} (h : base.length = 62) (i : Int64) :
    candidate base i = base ++ [45] := by
  unfold candidate
  rw [List.take_append, List.take_of_length_le (by omega), h]
  rfl

/-- Either the base is free or the loop is to find a name; it can where there is room. -/
theorem room_iff {existing : List GoString} {base : GoString} (h : base.length ≤ 63) :
    Room existing base ↔ base ∉ existing ∨ ∃ i, candidate base i ∉ existing := by
  unfold Room
  obtain hlong | hdash | hshort : base.length = 63 ∨ base.length = 62 ∨ base.length ≤ 61 := by omega
  · have hdash : ¬base.length = 62 := by omega
    have hshort : ¬base.length ≤ 61 := by omega
    simp [hdash, hshort, candidate_full hlong]
  · simp [hdash, candidate_dash hdash]
  · have hdash : ¬base.length = 62 := by omega
    simp [hdash, hshort]

/-- The function returns a new name of at most 63 bytes if and only if there is room for one. -/
theorem uniqueVMName_iff (names : List GoString) (base : GoString) :
    (∃ fuel name, uniqueVMName fuel (.ok names) base = some name ∧ name.length ≤ 63 ∧
        name ∉ names) ↔ Room names (base.take 63) := by
  have hcut : (base.take 63).length ≤ 63 := by
    rw [List.length_take]
    omega
  have hlisted : (Except.ok names : Except Message (List GoString)).toOption.getD [] = names := rfl
  simp only [uniqueVMName, hlisted]
  rw [room_iff hcut]
  by_cases htaken : base.take 63 ∈ names
  · simp only [htaken, if_true, not_true_eq_false, false_or]
    rw [← searchName_iff (i := 2)]
    constructor
    · rintro ⟨fuel, name, hfound, -, -⟩
      exact ⟨fuel, name, hfound⟩
    · rintro ⟨fuel, name, hfound⟩
      obtain ⟨⟨j, rfl⟩, hfree⟩ := searchName_fresh hfound
      exact ⟨fuel, candidate (base.take 63) j, hfound, candidate_length, hfree⟩
  · simp only [htaken, if_false, not_false_eq_true, true_or, iff_true]
    exact ⟨0, base.take 63, rfl, hcut, htaken⟩

/-- With one machine whose name has 63 bytes, the loop for this name never ends. -/
theorem uniqueVMName_hangs :
    ¬∃ fuel name, uniqueVMName fuel (.ok [List.replicate 63 97]) (List.replicate 63 97) =
      some name := by
  have hsearch : ∀ fuel i,
      searchName [List.replicate 63 97] (List.replicate 63 97) fuel i = none := by
    intro fuel
    induction fuel with
    | zero => exact fun i => rfl
    | succ fuel ih =>
      intro i
      rw [searchName, candidate_full (List.length_replicate ..)]
      exact (if_pos (List.mem_singleton_self _)).trans (ih (i + 1))
  rintro ⟨fuel, name, hfound⟩
  have hnone := (hsearch fuel 2).symm.trans hfound
  contradiction

end Maco.Engine
