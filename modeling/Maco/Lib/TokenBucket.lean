import Mathlib.Order.Basic

/-! Token buckets.  A bucket fills up with time to the number of tokens that it holds at most, and an
event that it allows takes one.  What it holds is measured in the time in which it came, so that
arithmetic is exact. -/

namespace TokenBucket

/-- A token comes `every` so often, up to `burst` of them. -/
structure Rate where
  every : Nat
  burst : Nat

/-- The time in which a full bucket came. -/
def Rate.capacity (r : Rate) : Nat := r.burst * r.every

/-- What the bucket held when a token was last taken. -/
structure Bucket where
  level : Nat
  last : Nat
  deriving DecidableEq

def Bucket.full (r : Rate) : Bucket := ⟨r.capacity, 0⟩

/-- What the bucket holds at a time. -/
def Bucket.content (r : Rate) (b : Bucket) (now : Nat) : Nat :=
  min r.capacity (b.level + (now - b.last))

/-- An event asks for a token: whether it is allowed, and the bucket afterwards. -/
def Bucket.allow (r : Rate) (b : Bucket) (now : Nat) : Bool × Bucket :=
  if r.every ≤ b.content r now then (true, ⟨b.content r now - r.every, now⟩) else (false, b)

variable {r : Rate} {b b' : Bucket} {now t : Nat}

theorem content_le : b.content r now ≤ r.capacity := Nat.min_le_left _ _

@[simp] theorem content_full : (Bucket.full r).content r now = r.capacity := by
  simp [Bucket.full, Bucket.content]

/-- A bucket that no event has asked for as long as it takes to fill is full. -/
theorem content_idle (h : r.capacity ≤ now - b.last) : b.content r now = r.capacity := by
  rw [Bucket.content]
  omega

theorem allow_fst : (b.allow r now).1 = decide (r.every ≤ b.content r now) := by
  unfold Bucket.allow
  split <;> simp_all

theorem allow_of_lt (h : b.content r now < r.every) : b.allow r now = (false, b) := by
  rw [Bucket.allow, if_neg (by omega)]

theorem allow_of_le (h : r.every ≤ b.content r now) :
    b.allow r now = (true, ⟨b.content r now - r.every, now⟩) := by
  rw [Bucket.allow, if_pos h]

/-- What is left at a later time once an event was allowed. -/
theorem content_allowed (h : r.every ≤ b.content r now) :
    (b.allow r now).2.content r t =
      min r.capacity (b.content r now - r.every + (t - now)) := by
  rw [allow_of_le h, Bucket.content]

theorem last_allow : (b.allow r now).2.last = b.last ∨ (b.allow r now).2.last = now := by
  unfold Bucket.allow
  split
  · exact .inr rfl
  · exact .inl rfl

end TokenBucket
