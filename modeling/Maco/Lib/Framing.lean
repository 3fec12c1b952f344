import Mathlib.Data.List.Basic
import Mathlib.Algebra.Group.Nat.Defs
import Mathlib.Data.List.Infix

/-! Byte buffers of a fixed size, whose reads and writes are refused past the end, numbers in
big-endian order, and streams of frames that are each preceded by their length in four bytes.  A
stream is the encoding of a list of frames in one way only, so what a reader has taken off the front
of it is a prefix of that list. -/

namespace Framing

/-! ### Buffers -/

variable {α : Type}

/-- The `length` elements from `offset` on. -/
def slice (b : List α) (offset length : Nat) : Option (List α) :=
  if offset + length ≤ b.length then some ((b.drop offset).take length) else none

/-- The buffer with `bytes` written at `offset`. -/
def store (b : List α) (offset : Nat) (bytes : List α) : Option (List α) :=
  if offset + bytes.length ≤ b.length then
    some (b.take offset ++ bytes ++ b.drop (offset + bytes.length))
  else none

theorem slice_append (a b c : List α) :
    slice (a ++ (b ++ c)) a.length b.length = some b := by
  rw [slice, if_pos (by simp)]
  simp

theorem slice_of_le {b : List α} {offset length : Nat} (h : offset + length ≤ b.length) :
    slice b offset length = some ((b.drop offset).take length) := if_pos h

theorem store_of_le {b bytes : List α} {offset : Nat} (h : offset + bytes.length ≤ b.length) :
    store b offset bytes = some (b.take offset ++ bytes ++ b.drop (offset + bytes.length)) :=
  if_pos h

theorem store_length {b b' bytes : List α} {offset : Nat} (h : store b offset bytes = some b') :
    b'.length = b.length := by
  rw [store] at h
  split at h
  · rename_i hle
    obtain rfl := Option.some.inj h
    simp only [List.length_append, List.length_take, List.length_drop]
    omega
  · contradiction

/-- What a write leaves up to its end. -/
theorem store_take {b b' bytes : List α} {offset : Nat} (h : store b offset bytes = some b') :
    b'.take (offset + bytes.length) = b.take offset ++ bytes := by
  rw [store] at h
  split at h
  · rename_i hle
    obtain rfl := Option.some.inj h
    have hlen : (b.take offset ++ bytes).length = offset + bytes.length := by
      simp only [List.length_append, List.length_take]
      omega
    rw [← hlen, List.take_left]
  · contradiction

/-! ### Numbers -/

/-- A number in `k` bytes, the highest first. -/
def bigEndian : Nat → Nat → List UInt8
  | 0, _ => []
  | k + 1, n => bigEndian k (n / 256) ++ [UInt8.ofNat n]

/-- The number that bytes stand for, the highest first. -/
def number (bytes : List UInt8) : Nat := bytes.foldl (fun n b => n * 256 + b.toNat) 0

@[simp] theorem bigEndian_length (k n : Nat) : (bigEndian k n).length = k := by
  induction k generalizing n with
  | zero => rfl
  | succ k ih => simp [bigEndian, ih]

theorem number_append (bytes : List UInt8) (b : UInt8) :
    number (bytes ++ [b]) = number bytes * 256 + b.toNat := by
  simp [number]

theorem number_bigEndian {k n : Nat} (h : n < 256 ^ k) : number (bigEndian k n) = n := by
  induction k generalizing n with
  | zero =>
    obtain rfl : n = 0 := by simpa using h
    rfl
  | succ k ih =>
    have hdiv : n / 256 < 256 ^ k := by
      rw [Nat.pow_succ] at h
      omega
    rw [bigEndian, number_append, ih hdiv, UInt8.toNat_ofNat']
    omega

theorem bigEndian_number (bytes : List UInt8) : bigEndian bytes.length (number bytes) = bytes := by
  induction bytes using List.reverseRecOn with
  | nil => rfl
  | append_singleton bytes b ih =>
    have hb : b.toNat < 256 := b.toNat_lt
    have hdiv : (number bytes * 256 + b.toNat) / 256 = number bytes := by omega
    have hlow : UInt8.ofNat (number bytes * 256 + b.toNat) = b := by
      apply UInt8.toNat_inj.mp
      rw [UInt8.toNat_ofNat']
      omega
    rw [List.length_append, List.length_singleton, bigEndian, number_append, hdiv, hlow, ih]

/-! ### Frames -/

/-- A frame with its length in front. -/
def encode (frame : List UInt8) : List UInt8 := bigEndian 4 frame.length ++ frame

/-- The stream of a list of frames. -/
def encodeAll (frames : List (List UInt8)) : List UInt8 := frames.flatMap encode

/-- Frames of the lengths that a stream admits. -/
def Sized (lo hi : Nat) (frames : List (List UInt8)) : Prop :=
  ∀ f ∈ frames, lo ≤ f.length ∧ f.length ≤ hi

/-- The length at the front of a stream. -/
def front (s : List UInt8) : Nat := number (s.take 4)

/-- The stream starts with a length that no frame has. -/
def Broken (lo hi : Nat) (s : List UInt8) : Prop := 4 ≤ s.length ∧ ¬ (lo ≤ front s ∧ front s ≤ hi)

/-- The stream ends before its first frame does. -/
def Short (lo hi : Nat) (s : List UInt8) : Prop :=
  s.length < 4 ∨ (lo ≤ front s ∧ front s ≤ hi) ∧ s.length < front s + 4

variable {lo hi : Nat} {s t : List UInt8} {frames : List (List UInt8)}

@[simp] theorem encode_length (f : List UInt8) : (encode f).length = f.length + 4 := by
  simp [encode, Nat.add_comm]

@[simp] theorem encodeAll_nil : encodeAll [] = [] := rfl

@[simp] theorem encodeAll_cons (f : List UInt8) (fs : List (List UInt8)) :
    encodeAll (f :: fs) = encode f ++ encodeAll fs := rfl

@[simp] theorem encodeAll_append (fs gs : List (List UInt8)) :
    encodeAll (fs ++ gs) = encodeAll fs ++ encodeAll gs := by simp [encodeAll]

theorem front_encode (hhi : hi < 256 ^ 4) {f : List UInt8} (hf : f.length ≤ hi) (t : List UInt8) :
    front (encode f ++ t) = f.length := by
  have htake : (encode f ++ t).take 4 = bigEndian 4 f.length := by
    rw [encode, List.append_assoc, List.take_left' (by simp)]
  rw [front, htake, number_bigEndian (by omega)]

/-- A stream whose front is the length of a frame that it holds starts with that frame. -/
theorem encode_front (h4 : front s + 4 ≤ s.length) :
    encode ((s.drop 4).take (front s)) ++ s.drop (front s + 4) = s := by
  have hlen : ((s.drop 4).take (front s)).length = front s := by
    simp only [List.length_take, List.length_drop]
    omega
  have hword : bigEndian 4 (front s) = s.take 4 := by
    have h := bigEndian_number (s.take 4)
    rwa [List.length_take, Nat.min_eq_left (by omega)] at h
  rw [encode, hlen, hword, List.append_assoc, Nat.add_comm, ← List.drop_drop, List.take_append_drop,
    List.take_append_drop]

theorem Short.length_lt (h : Short lo hi s) : s.length < hi + 4 := by
  rcases h with h | ⟨h, hlt⟩ <;> omega

/-- Two frames that start the same stream are the same. -/
theorem encode_inj (hhi : hi < 256 ^ 4) {f g : List UInt8} (hf : f.length ≤ hi)
    (hg : g.length ≤ hi) (h : encode f ++ s = encode g ++ t) : f = g ∧ s = t := by
  have hlen : f.length = g.length := by
    rw [← front_encode hhi hf s, h, front_encode hhi hg t]
  obtain ⟨henc, hrest⟩ := List.append_inj h (by simp [hlen])
  exact ⟨(List.append_inj henc (by simp)).2, hrest⟩

/-- The frames taken off a stream are the first ones of the stream's frames. -/
theorem encodeAll_prefix (hhi : hi < 256 ^ 4) {taken : List (List UInt8)}
    (ht : Sized lo hi taken) (hf : Sized lo hi frames)
    (h : encodeAll taken ++ s = encodeAll frames ++ t)
    (hshort : frames.length < taken.length → Short lo hi t ∨ Broken lo hi t) :
    ∃ rest, frames = taken ++ rest ∧ s = encodeAll rest ++ t := by
  induction taken generalizing frames with
  | nil => exact ⟨frames, rfl, by simpa using h⟩
  | cons f taken ih =>
    have hf1 := ht f List.mem_cons_self
    cases frames with
    | nil =>
      -- then the rest of the stream would start with a whole frame
      exfalso
      have ht' : t = encode f ++ (encodeAll taken ++ s) := by simpa using h.symm
      have hfront : front t = f.length := by rw [ht', front_encode hhi hf1.2]
      have hlen : f.length + 4 ≤ t.length := by
        rw [ht', List.length_append, encode_length]
        omega
      rcases hshort (by simp) with (h1 | ⟨-, h1⟩) | ⟨-, h1⟩
      · omega
      · omega
      · exact h1 (by rw [hfront]; exact hf1)
    | cons g frames =>
      have hg1 := hf g List.mem_cons_self
      simp only [encodeAll_cons, List.append_assoc] at h
      obtain ⟨rfl, hrest⟩ := encode_inj hhi hf1.2 hg1.2 h
      obtain ⟨rest, rfl, hs⟩ := ih (fun x hx => ht x (List.mem_cons_of_mem _ hx))
        (fun x hx => hf x (List.mem_cons_of_mem _ hx)) hrest
        (fun hlt => hshort (by simpa using hlt))
      exact ⟨rest, rfl, hs⟩

/-- The frames of a stream that is made of whole ones. -/
def decodeAll (s : List UInt8) : Option (List (List UInt8)) :=
  if s = [] then some []
  else if s.length < front s + 4 then none
  else (decodeAll (s.drop (front s + 4))).map ((s.drop 4).take (front s) :: ·)
termination_by s.length
decreasing_by
  rw [List.length_drop]
  omega

theorem decodeAll_encodeAll (hhi : hi < 256 ^ 4) (hf : Sized lo hi frames) :
    decodeAll (encodeAll frames) = some frames := by
  induction frames with
  | nil => simp [decodeAll]
  | cons f frames ih =>
    have hfront := front_encode hhi (hf f List.mem_cons_self).2 (encodeAll frames)
    have hlen := encode_length f
    have hne : encode f ++ encodeAll frames ≠ [] := by
      intro h
      simp [(List.append_eq_nil_iff.mp h).1] at hlen
    have hlong : ¬ (encode f ++ encodeAll frames).length < f.length + 4 := by
      rw [List.length_append, encode_length]
      omega
    have hframe : ((encode f ++ encodeAll frames).drop 4).take f.length = f := by
      rw [encode, List.append_assoc, List.drop_left' (by simp), List.take_left]
    have hrest : (encode f ++ encodeAll frames).drop (f.length + 4) = encodeAll frames :=
      List.drop_left' hlen
    rw [encodeAll_cons, decodeAll, if_neg hne, hfront, if_neg hlong, hframe, hrest,
      ih fun g hg => hf g (List.mem_cons_of_mem f hg)]
    rfl

/-- A stream of whole frames is not broken anywhere. -/
theorem not_broken (hhi : hi < 256 ^ 4) (hf : Sized lo hi frames)
    (h : s ++ t = encodeAll frames) : ¬ Broken lo hi s := by
  rintro ⟨hlen, hbad⟩
  cases frames with
  | nil =>
    obtain rfl : s = [] := (List.append_eq_nil_iff.mp h).1
    simp at hlen
  | cons f frames =>
    have hf1 := hf f List.mem_cons_self
    have hfront : front s = front (s ++ t) := by
      rw [front, front, List.take_append_of_le_length hlen]
    rw [hfront, h, encodeAll_cons, front_encode hhi hf1.2] at hbad
    exact hbad hf1

end Framing
