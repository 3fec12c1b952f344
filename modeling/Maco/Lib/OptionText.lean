import Mathlib.Data.List.Basic
import Mathlib.Data.List.Infix

/-! Option texts: pieces that a separator ends, where a doubled separator stands for itself, each a
key and a value; and the replacement of every occurrence of a word, from left to right.  The facts
say when a value comes back from a text as it was put in, and what remains of a word after it has
been replaced. -/

namespace OptionText

variable {α : Type} [DecidableEq α]

/-- `c` in front of the first piece. -/
def push (c : α) : List (List α) → List (List α)
  | [] => [[c]]
  | p :: ps => (c :: p) :: ps

/-- The pieces of a text: a single `sep` ends a piece, a doubled one is one literal `sep`. -/
def pieces (sep : α) : List α → List (List α)
  | [] => [[]]
  | [c] => if c = sep then [[], []] else [[c]]
  | c :: d :: cs =>
    if c = sep then
      if d = sep then push sep (pieces sep cs) else [] :: pieces sep (d :: cs)
    else push c (pieces sep (d :: cs))

theorem pieces_ne_nil (sep : α) (s : List α) : pieces sep s ≠ [] := by
  fun_induction pieces sep s <;> simp_all [push]
  all_goals split <;> simp_all

/-- A piece as a key and the value after the first `eq`, if there is one. -/
def keyValue (eq : α) : List α → List α × Option (List α)
  | [] => ([], none)
  | c :: p => if c = eq then ([], some p) else (c :: (keyValue eq p).1, (keyValue eq p).2)

/-- The options of a text: its pieces as keys and values. -/
def options (sep eq : α) (s : List α) : List (List α × Option (List α)) :=
  (pieces sep s).map (keyValue eq)

/-- Options in front of a text, each written `key eq value sep`. -/
def before (sep eq : α) (os : List (List α × List α)) (last : List α) : List α :=
  os.foldr (fun o rest => o.1 ++ eq :: (o.2 ++ sep :: rest)) last

/-- An option that may be written as it is. -/
structure Plain (sep eq : α) (o : List α × List α) : Prop where
  key : sep ∉ o.1
  value : sep ∉ o.2
  ends : eq ∉ o.1

/-- What a key is set to in the end: the last option of the key counts. -/
def valueOf {κ ν : Type} [DecidableEq κ] (os : List (κ × ν)) (key : κ) : Option ν :=
  ((os.filter fun o => o.1 = key).getLast?).map Prod.snd

/-- `old` replaced by `new` from left to right; the first argument counts the characters of an
occurrence that are still to be passed over. -/
def replaceFrom (old new : List α) : Nat → List α → List α
  | _, [] => []
  | k + 1, _ :: cs => replaceFrom old new k cs
  | 0, c :: cs =>
    if old <+: c :: cs then new ++ replaceFrom old new (old.length - 1) cs
    else c :: replaceFrom old new 0 cs

/-- Every occurrence of `old` replaced by `new`. -/
def replaceAll (old new : List α) (s : List α) : List α := replaceFrom old new 0 s

variable {sep eq : α} {old new : List α}

/-! ### Pieces -/

theorem pieces_cons_of_ne {c : α} (hc : c ≠ sep) (s : List α) :
    pieces sep (c :: s) = push c (pieces sep s) := by
  cases s with
  | nil => simp [pieces, hc, push]
  | cons d s => simp [pieces, hc]

/-- Text without the separator is one piece. -/
theorem pieces_plain {s : List α} (h : sep ∉ s) : pieces sep s = [s] := by
  induction s with
  | nil => rfl
  | cons c s ih =>
    simp only [List.mem_cons, not_or] at h
    rw [pieces_cons_of_ne (Ne.symm h.1), ih h.2]
    rfl

/-- A piece ends at a single separator. -/
theorem pieces_append {a b : List α} (ha : sep ∉ a) (hb : b.head? ≠ some sep) :
    pieces sep (a ++ sep :: b) = a :: pieces sep b := by
  induction a with
  | nil =>
    cases b with
    | nil => simp [pieces]
    | cons d b =>
      have hd : d ≠ sep := by simpa using hb
      simp [pieces, hd]
  | cons c a ih =>
    simp only [List.mem_cons, not_or] at ha
    rw [List.cons_append, pieces_cons_of_ne (Ne.symm ha.1), ih ha.2]
    rfl

/-- The pieces hold no more than the text does. -/
theorem pieces_length_le (sep : α) (s : List α) : (pieces sep s).flatten.length ≤ s.length := by
  fun_induction pieces sep s with
  | case1 => simp
  | case2 => simp
  | case3 => simp
  | case4 cs ih =>
    obtain ⟨p, ps, hp⟩ := List.exists_cons_of_ne_nil (pieces_ne_nil sep cs)
    simp [hp, push] at ih ⊢
    omega
  | case5 d cs h2 ih => simp at ih ⊢; omega
  | case6 c d cs h1 ih =>
    obtain ⟨p, ps, hp⟩ := List.exists_cons_of_ne_nil (pieces_ne_nil sep (d :: cs))
    simp [hp, push] at ih ⊢
    omega

/-- A separator in a text is not in its pieces, or only once of two. -/
theorem pieces_length_lt {s : List α} (h : sep ∈ s) : (pieces sep s).flatten.length < s.length := by
  fun_induction pieces sep s with
  | case1 => simp at h
  | case2 => simp
  | case3 c h1 => simp [Ne.symm h1] at h
  | case4 cs ih =>
    have := pieces_length_le sep cs
    obtain ⟨p, ps, hp⟩ := List.exists_cons_of_ne_nil (pieces_ne_nil sep cs)
    simp [hp, push] at this ⊢
    omega
  | case5 d cs h2 ih =>
    have := pieces_length_le sep (d :: cs)
    simp at this ⊢
    omega
  | case6 c d cs h1 ih =>
    have := ih (by simpa [Ne.symm h1] using h)
    obtain ⟨p, ps, hp⟩ := List.exists_cons_of_ne_nil (pieces_ne_nil sep (d :: cs))
    simp [hp, push] at this ⊢
    omega

omit [DecidableEq α] in
theorem length_le_flatten {ps : List (List α)} {p : List α} (hp : p ∈ ps) :
    p.length ≤ ps.flatten.length := by
  induction ps with
  | nil => simp at hp
  | cons q ps ih =>
    rcases List.mem_cons.mp hp with rfl | hp
    · simp
    · have := ih hp
      simp only [List.flatten_cons, List.length_append]
      omega

/-- A piece is as long as the text only where the text has no separator. -/
theorem length_lt_of_mem_pieces {s p : List α} (h : sep ∈ s) (hp : p ∈ pieces sep s) :
    p.length < s.length :=
  Nat.lt_of_le_of_lt (length_le_flatten hp) (pieces_length_lt h)

/-- A word without the separator that starts the first piece starts the text. -/
theorem prefix_of_head_pieces {w : List α} (hw : sep ∉ w) {s p : List α} {ps : List (List α)}
    (hp : pieces sep s = p :: ps) (h : w <+: p) : w <+: s := by
  induction w generalizing s p ps with
  | nil => exact List.nil_prefix
  | cons x w ih =>
    simp only [List.mem_cons, not_or] at hw
    cases s with
    | nil => simp_all [pieces]
    | cons c s =>
      by_cases hc : c = sep
      · subst hc
        cases s with
        | nil => simp_all [pieces]
        | cons d s =>
          by_cases hd : d = c
          · subst hd
            obtain ⟨q, qs, hq⟩ := List.exists_cons_of_ne_nil (pieces_ne_nil d s)
            simp only [pieces, if_true, hq, push, List.cons.injEq] at hp
            obtain ⟨rfl, -⟩ := hp
            exact absurd (List.cons_prefix_cons.mp h).1.symm hw.1
          · simp only [pieces, if_true, hd, if_false, List.cons.injEq] at hp
            obtain ⟨rfl, -⟩ := hp
            simp at h
      · obtain ⟨q, qs, hq⟩ := List.exists_cons_of_ne_nil (pieces_ne_nil sep s)
        rw [pieces_cons_of_ne hc, hq, push, List.cons.injEq] at hp
        obtain ⟨rfl, -⟩ := hp
        obtain ⟨rfl, hwq⟩ := List.cons_prefix_cons.mp h
        exact List.cons_prefix_cons.mpr ⟨rfl, ih hw.2 hq hwq⟩

/-- A word without the separator that is in a piece is in the text. -/
theorem infix_of_mem_pieces {w : List α} (hw : sep ∉ w) (hw0 : w ≠ []) {s p : List α}
    (hp : p ∈ pieces sep s) (h : w <:+: p) : w <:+: s := by
  -- either the word starts the first piece, or it is further on
  fun_induction pieces sep s generalizing p with
  | case1 => simp_all
  | case2 => simp_all
  | case3 c h1 => simp_all
  | case4 cs ih =>
    obtain ⟨q, qs, hq⟩ := List.exists_cons_of_ne_nil (pieces_ne_nil sep cs)
    rw [hq, push, List.mem_cons] at hp
    have htail : ∀ {p}, p ∈ pieces sep cs → w <:+: p → w <:+: sep :: sep :: cs := fun hp h =>
      ((ih hp h).trans (List.suffix_cons _ _).isInfix).trans (List.suffix_cons _ _).isInfix
    rcases hp with rfl | hp
    · rcases List.infix_cons_iff.mp h with h | h
      · cases w with
        | nil => exact absurd rfl hw0
        | cons x w => simp [(List.cons_prefix_cons.mp h).1] at hw
      · exact htail (by simp [hq]) h
    · exact htail (by simp [hq, hp]) h
  | case5 d cs h2 ih =>
    rcases List.mem_cons.mp hp with rfl | hp
    · simp_all
    · exact (ih hp h).trans (List.suffix_cons _ _).isInfix
  | case6 c d cs h1 ih =>
    obtain ⟨q, qs, hq⟩ := List.exists_cons_of_ne_nil (pieces_ne_nil sep (d :: cs))
    have hall := pieces_cons_of_ne h1 (d :: cs)
    rw [hq, push, List.mem_cons] at hp
    rcases hp with rfl | hp
    · rcases List.infix_cons_iff.mp h with h | h
      · exact (prefix_of_head_pieces hw (by rw [hall, hq, push]) h).isInfix
      · exact (ih (by simp [hq]) h).trans (List.suffix_cons _ _).isInfix
    · exact (ih (by simp [hq, hp]) h).trans (List.suffix_cons _ _).isInfix

/-! ### Replacement -/

theorem replaceFrom_skip (old new : List α) (a s : List α) :
    replaceFrom old new a.length (a ++ s) = replaceFrom old new 0 s := by
  induction a with
  | nil => rfl
  | cons c a ih => simpa [replaceFrom] using ih

/-- Text without the word stays as it is. -/
theorem replaceAll_of_not_infix {s : List α} (h : ¬ old <:+: s) : replaceAll old new s = s := by
  induction s with
  | nil => rfl
  | cons c s ih =>
    rw [List.infix_cons_iff, not_or] at h
    rw [replaceAll, replaceFrom, if_neg h.1]
    exact congrArg _ (ih h.2)

/-- A word replaced by itself changes nothing. -/
theorem replaceAll_self (s : List α) (hold : old ≠ []) : replaceAll old old s = s := by
  suffices h : ∀ n, ∀ s : List α, s.length ≤ n → replaceAll old old s = s from h _ s (Nat.le_refl _)
  intro n
  induction n with
  | zero => intro s hs; rw [List.length_eq_zero_iff.mp (Nat.le_zero.mp hs)]; rfl
  | succ n ih =>
    intro s hs
    cases s with
    | nil => rfl
    | cons c s =>
      rw [replaceAll, replaceFrom]
      split
      · rename_i hp
        obtain ⟨t, ht⟩ := hp
        cases old with
        | nil => exact absurd rfl hold
        | cons x old =>
          obtain ⟨rfl, rfl⟩ := List.cons.inj ht
          have ht : replaceFrom (x :: old) (x :: old) 0 t = t := by
            refine ih t ?_
            change (old ++ t).length + 1 ≤ n + 1 at hs
            rw [List.length_append] at hs
            omega
          change x :: (old ++ replaceFrom (x :: old) (x :: old) old.length (old ++ t)) = _
          rw [replaceFrom_skip, ht]
          rfl
      · exact congrArg _ (ih s (by simpa using hs))

omit [DecidableEq α] in
theorem prefix_append_cons {a b : List α} {c : α} (hc : c ∉ old) :
    old <+: a ++ c :: b ↔ old <+: a := by
  induction old generalizing a with
  | nil => simp
  | cons x old ih =>
    simp only [List.mem_cons, not_or] at hc
    cases a with
    | nil => simp [Ne.symm hc.1]
    | cons y a => simp [List.cons_prefix_cons, ih hc.2]

/-- No occurrence goes across a character that the word does not have. -/
theorem replaceFrom_append_cons {a b : List α} {c : α} {k : Nat} (hold : old ≠ []) (hc : c ∉ old)
    (hk : k ≤ a.length) : replaceFrom old new k (a ++ c :: b) =
      replaceFrom old new k a ++ c :: replaceFrom old new 0 b := by
  induction a generalizing k with
  | nil =>
    obtain rfl : k = 0 := by simpa using hk
    have hnot : ¬ old <+: c :: b := by
      have := prefix_append_cons (a := []) (b := b) hc
      simpa [hold] using this
    simp [replaceFrom, hnot]
  | cons y a ih =>
    cases k with
    | succ k => exact ih (Nat.le_of_succ_le_succ hk)
    | zero =>
      have hiff : old <+: y :: (a ++ c :: b) ↔ old <+: y :: a :=
        prefix_append_cons (a := y :: a) hc
      rw [List.cons_append, replaceFrom, replaceFrom]
      by_cases hp : old <+: y :: a
      · have hlen : old.length - 1 ≤ a.length := by
          have := hp.length_le
          simp only [List.length_cons] at this
          omega
        rw [if_pos hp, if_pos (hiff.mpr hp), ih hlen, List.append_assoc]
      · rw [if_neg hp, if_neg (mt hiff.mp hp), ih (Nat.zero_le _), List.cons_append]

/-- `replaceAll` on the two sides of a character that the word does not have. -/
theorem replaceAll_append_cons {a b : List α} {c : α} (hold : old ≠ []) (hc : c ∉ old) :
    replaceAll old new (a ++ c :: b) = replaceAll old new a ++ c :: replaceAll old new b :=
  replaceFrom_append_cons hold hc (Nat.zero_le _)

/-- A character that the word does not have is neither lost nor moved into it. -/
theorem mem_replaceAll {s : List α} {c : α} (hold : old ≠ []) (hc : c ∉ old) (h : c ∈ s) :
    c ∈ replaceAll old new s := by
  obtain ⟨a, b, rfl⟩ := List.append_of_mem h
  simp [replaceAll_append_cons hold hc]

/-- What starts the result without the word's first letter starts the text. -/
theorem prefix_of_prefix_replaceAll {x : α} {t u w s : List α} (hw : x ∉ w)
    (h : w <+: replaceAll (x :: t) (x :: u) s) : w <+: s := by
  induction w generalizing s with
  | nil => exact List.nil_prefix
  | cons y w ih =>
    simp only [List.mem_cons, not_or] at hw
    cases s with
    | nil => simp [replaceAll, replaceFrom] at h
    | cons c s =>
      rw [replaceAll, replaceFrom] at h
      split at h
      · exact absurd (List.cons_prefix_cons.mp h).1.symm hw.1
      · obtain ⟨rfl, hws⟩ := List.cons_prefix_cons.mp h
        exact List.cons_prefix_cons.mpr ⟨rfl, ih hw.2 hws⟩

omit [DecidableEq α] in
/-- A word whose first letter is not in `u` does not begin in `u`. -/
theorem infix_of_infix_append {x : α} {t u s : List α} (hu : x ∉ u) (h : x :: t <:+: u ++ s) :
    x :: t <:+: s := by
  induction u with
  | nil => simpa using h
  | cons y u ih =>
    simp only [List.mem_cons, not_or] at hu
    rcases List.infix_cons_iff.mp h with h | h
    · exact absurd (List.cons_prefix_cons.mp h).1 hu.1
    · exact ih hu.2 h

/-- Nothing is left of a word that has its first letter once, when the new word has that letter
first and only there, and is no shorter and does not start with the old one. -/
theorem not_infix_replaceAll {x : α} {t u : List α} (ht : x ∉ t) (hu : x ∉ u)
    (hlen : t.length ≤ u.length) (hnew : ¬ x :: t <+: x :: u) (s : List α) :
    ¬ x :: t <:+: replaceAll (x :: t) (x :: u) s := by
  suffices h : ∀ n, ∀ s : List α, s.length ≤ n → ¬ x :: t <:+: replaceAll (x :: t) (x :: u) s
    from h _ s (Nat.le_refl _)
  intro n
  induction n with
  | zero =>
    intro s hs
    rw [List.length_eq_zero_iff.mp (Nat.le_zero.mp hs)]
    simp [replaceAll, replaceFrom]
  | succ n ih =>
    intro s hs h
    cases s with
    | nil => simp [replaceAll, replaceFrom] at h
    | cons c s =>
      rw [replaceAll, replaceFrom] at h
      split at h
      · rename_i hp
        obtain ⟨r, hr⟩ := hp
        obtain ⟨rfl, rfl⟩ := List.cons.inj hr
        change x :: t <:+: x :: u ++ replaceFrom (x :: t) (x :: u) t.length (t ++ r) at h
        rw [replaceFrom_skip] at h
        have hrest : ¬ x :: t <:+: replaceFrom (x :: t) (x :: u) 0 r := by
          refine ih r ?_
          change (t ++ r).length + 1 ≤ n + 1 at hs
          rw [List.length_append] at hs
          omega
        rcases List.infix_cons_iff.mp h with h | h
        · exact hnew (List.prefix_of_prefix_length_le h (List.prefix_append _ _) (by simpa))
        · exact hrest (infix_of_infix_append hu h)
      · rename_i hp
        rcases List.infix_cons_iff.mp h with h | h
        · obtain ⟨rfl, htr⟩ := List.cons_prefix_cons.mp h
          exact hp (List.cons_prefix_cons.mpr ⟨rfl, prefix_of_prefix_replaceAll ht htr⟩)
        · exact ih s (by simpa using hs) h

/-! ### Keys and values -/

theorem keyValue_append {k v : List α} (hk : eq ∉ k) : keyValue eq (k ++ eq :: v) = (k, some v) := by
  induction k with
  | nil => simp [keyValue]
  | cons c k ih =>
    simp only [List.mem_cons, not_or] at hk
    simp [keyValue, Ne.symm hk.1, ih hk.2]

theorem keyValue_plain {p : List α} (hp : eq ∉ p) : keyValue eq p = (p, none) := by
  induction p with
  | nil => rfl
  | cons c p ih =>
    simp only [List.mem_cons, not_or] at hp
    simp [keyValue, Ne.symm hp.1, ih hp.2]

/-- A piece with a value ends in it. -/
theorem suffix_of_keyValue {p v : List α} (h : (keyValue eq p).2 = some v) : v <:+ p := by
  induction p with
  | nil => simp [keyValue] at h
  | cons c p ih =>
    rw [keyValue] at h
    split at h
    · obtain rfl : p = v := by simpa using h
      exact List.suffix_cons c p
    · exact (ih h).trans (List.suffix_cons c p)

/-! ### Options -/

theorem options_append {a b : List α} (ha : sep ∉ a) (hb : b.head? ≠ some sep) :
    options sep eq (a ++ sep :: b) = keyValue eq a :: options sep eq b := by
  rw [options, pieces_append ha hb]
  rfl

theorem options_plain {a : List α} (ha : sep ∉ a) : options sep eq a = [keyValue eq a] := by
  rw [options, pieces_plain ha]
  rfl

theorem pieces_append_plain {a s p : List α} {ps : List (List α)} (ha : sep ∉ a)
    (hs : pieces sep s = p :: ps) : pieces sep (a ++ s) = (a ++ p) :: ps := by
  induction a with
  | nil => simpa using hs
  | cons c a ih =>
    simp only [List.mem_cons, not_or] at ha
    rw [List.cons_append, pieces_cons_of_ne (Ne.symm ha.1), ih ha.2]
    rfl

/-- A key with any text for its value: the value is the first piece of the text. -/
theorem options_value {k s p : List α} {ps : List (List α)} (hk : sep ∉ k) (heq : eq ∉ k)
    (hne : sep ≠ eq) (hs : pieces sep s = p :: ps) :
    options sep eq (k ++ eq :: s) = (k, some p) :: ps.map (keyValue eq) := by
  have hp : sep ∉ k ++ [eq] := by simp [hk, hne]
  have := pieces_append_plain hp hs
  rw [List.append_assoc, List.singleton_append] at this
  rw [options, this, List.map_cons, List.append_assoc, List.singleton_append, keyValue_append heq]

omit [DecidableEq α] in
theorem append_head {k s : List α} (hk : sep ∉ k) (hne : k ≠ []) : (k ++ s).head? ≠ some sep := by
  cases k with
  | nil => exact absurd rfl hne
  | cons c k =>
    simp only [List.mem_cons, not_or] at hk
    simpa using Ne.symm hk.1

omit [DecidableEq α] in
theorem before_head {os : List (List α × List α)} {last : List α} (hos : ∀ o ∈ os, Plain sep eq o)
    (hne : sep ≠ eq) (hl : last.head? ≠ some sep) : (before sep eq os last).head? ≠ some sep := by
  cases os with
  | nil => exact hl
  | cons o os =>
    have ho := (hos o List.mem_cons_self).key
    rw [before, List.foldr_cons]
    cases hk : o.1 with
    | nil => simpa using Ne.symm hne
    | cons c k =>
      rw [hk] at ho
      simp only [List.mem_cons, not_or] at ho
      simpa using Ne.symm ho.1

/-- Options that are written as they are come back, whatever text follows them. -/
theorem options_before {os : List (List α × List α)} {last : List α}
    (hos : ∀ o ∈ os, Plain sep eq o) (hne : sep ≠ eq) (hl : last.head? ≠ some sep) :
    options sep eq (before sep eq os last) =
      os.map (fun o => (o.1, some o.2)) ++ options sep eq last := by
  induction os with
  | nil => rfl
  | cons o os ih =>
    have ho := hos o List.mem_cons_self
    have hrest : ∀ o ∈ os, Plain sep eq o := fun o h => hos o (List.mem_cons_of_mem _ h)
    have hpiece : sep ∉ o.1 ++ eq :: o.2 := by simp [ho.key, ho.value, hne]
    calc options sep eq (before sep eq (o :: os) last)
        = options sep eq ((o.1 ++ eq :: o.2) ++ sep :: before sep eq os last) := by
          simp [before]
      _ = (o.1, some o.2) :: options sep eq (before sep eq os last) := by
          rw [options_append hpiece (before_head hrest hne hl), keyValue_append ho.ends]
      _ = _ := by rw [ih hrest]; rfl

/-- A text that is part of a piece of its own replacement was neither changed nor cut. -/
theorem unchanged_of_infix {x : α} {t u v q : List α} (hsep : sep ∉ x :: t) (ht : x ∉ t)
    (hu : x ∉ u) (hlen : t.length ≤ u.length) (hnew : x :: t ≠ x :: u → ¬ x :: t <+: x :: u)
    (hq : q ∈ pieces sep (replaceAll (x :: t) (x :: u) v)) (hv : v <:+: q) :
    (x :: t = x :: u ∨ ¬ x :: t <:+: v) ∧ sep ∉ v := by
  have hword : x :: t = x :: u ∨ ¬ x :: t <:+: v := by
    by_contra hc
    rw [not_or, not_not] at hc
    exact not_infix_replaceAll ht hu hlen (hnew hc.1) v
      (infix_of_mem_pieces hsep (List.cons_ne_nil _ _) hq (hc.2.trans hv))
  refine ⟨hword, fun hmem => ?_⟩
  have hsame : replaceAll (x :: t) (x :: u) v = v := by
    rcases hword with h | h
    · rw [← h, replaceAll_self v (List.cons_ne_nil _ _)]
    · exact replaceAll_of_not_infix h
  rw [hsame] at hq
  have h1 := length_lt_of_mem_pieces hmem hq
  have h2 := hv.length_le
  omega

/-- The order of options does not matter where no key comes twice. -/
theorem valueOf_perm {κ ν : Type} [DecidableEq κ] {os ps : List (κ × ν)} (h : os.Perm ps)
    (hnd : (os.map Prod.fst).Nodup) (key : κ) : valueOf os key = valueOf ps key := by
  have hf := h.filter fun o => o.1 = key
  have hlen : (os.filter fun o => o.1 = key).length ≤ 1 := by
    induction os generalizing ps with
    | nil => simp
    | cons o os ih =>
      rw [List.map_cons, List.nodup_cons] at hnd
      have := ih (List.Perm.refl os) hnd.2 (List.Perm.refl _)
      by_cases ho : o.1 = key
      · have hnone : os.filter (fun o => o.1 = key) = [] := by
          rw [List.filter_eq_nil_iff]
          intro q hq hkey
          exact hnd.1 (List.mem_map.mpr ⟨q, hq, by simpa [ho] using hkey⟩)
        simp [ho, hnone]
      · simpa [ho] using this
  rw [valueOf, valueOf]
  cases hos : os.filter (fun o => o.1 = key) with
  | nil => rw [hos] at hf; rw [List.nil_perm.mp hf]
  | cons o rest =>
    rw [hos] at hf hlen
    obtain rfl : rest = [] := by simpa using hlen
    rw [List.singleton_perm.mp hf]

theorem mem_of_valueOf {κ ν : Type} [DecidableEq κ] {os : List (κ × ν)} {key : κ} {v : ν}
    (h : valueOf os key = some v) : (key, v) ∈ os := by
  rw [valueOf, Option.map_eq_some_iff] at h
  obtain ⟨o, ho, rfl⟩ := h
  have := List.mem_of_getLast? ho
  rw [List.mem_filter] at this
  have hkey : o.1 = key := by simpa using this.2
  exact hkey ▸ this.1

end OptionText
