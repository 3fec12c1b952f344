import Mathlib.Data.List.Basic

/-! Texts as bytes, bytes as hexadecimal text, and percent-encoded paths: reading the escapes of a
path, and the encoding that a path has by default. -/

namespace Bytes

/-- The bytes of a text. -/
def bytes (s : String) : List UInt8 := s.toUTF8.data.toList

theorem bytes_inj {s t : String} : bytes s = bytes t ↔ s = t := by
  constructor
  · intro h
    exact String.toByteArray_inj.mp (ByteArray.ext (Array.toList_inj.mp h))
  · intro h
    rw [h]

/-! ### Hexadecimal text -/

def hexDigit (n : Nat) : Char := "0123456789abcdef".toList.getD n 'f'

def hexPair (x : UInt8) : List Char := [hexDigit (x.toNat / 16), hexDigit (x.toNat % 16)]

/-- Two lower-case digits for each byte. -/
def hexEncode (b : List UInt8) : String := .ofList (b.flatMap hexPair)

theorem hexDigit_inj : ∀ m < 16, ∀ n < 16, hexDigit m = hexDigit n → m = n := by decide

theorem flatMap_hexPair_inj {a b : List UInt8} (h : a.flatMap hexPair = b.flatMap hexPair) :
    a = b := by
  induction a generalizing b with
  | nil =>
    cases b with
    | nil => rfl
    | cons y b => simp [hexPair] at h
  | cons x a ih =>
    cases b with
    | nil => simp [hexPair] at h
    | cons y b =>
      simp only [List.flatMap_cons, hexPair, List.cons_append, List.nil_append,
        List.cons.injEq] at h
      obtain ⟨hhigh, hlow, hrest⟩ := h
      have hx := x.toNat_lt
      have hy := y.toNat_lt
      have h1 := hexDigit_inj _ (by omega) _ (by omega) hhigh
      have h2 := hexDigit_inj _ (by omega) _ (by omega) hlow
      have hxy : x = y := UInt8.toNat_inj.mp (by omega)
      rw [hxy, ih hrest]

theorem hexEncode_inj {a b : List UInt8} (h : hexEncode a = hexEncode b) : a = b :=
  flatMap_hexPair_inj (String.ofList_inj.mp h)

theorem hexEncode_ne_empty {b : List UInt8} (h : b ≠ []) : hexEncode b ≠ "" := by
  intro hempty
  have hlist := String.ofList_inj.mp (hempty.trans String.ofList_nil.symm)
  cases b with
  | nil => exact h rfl
  | cons x b => simp [hexPair] at hlist

/-! ### Percent-encoded paths -/

def percent : UInt8 := 0x25

def unhex (c : UInt8) : Option UInt8 :=
  if 0x30 ≤ c ∧ c ≤ 0x39 then some (c - 0x30)
  else if 0x61 ≤ c ∧ c ≤ 0x66 then some (c - 0x61 + 10)
  else if 0x41 ≤ c ∧ c ≤ 0x46 then some (c - 0x41 + 10)
  else none

/-- The bytes that a path stands for, if every `%` in it starts an escape. -/
def unescape : List UInt8 → Option (List UInt8)
  | [] => some []
  | c :: rest =>
    if c = percent then
      match rest with
      | high :: low :: rest =>
        match unhex high, unhex low with
        | some h, some l => (unescape rest).map ((h * 16 + l) :: ·)
        | _, _ => none
      | _ => none
    else (unescape rest).map (c :: ·)

/-- Whether the default encoding of a path keeps a byte. -/
def kept (c : UInt8) : Bool :=
  (0x30 ≤ c && c ≤ 0x39) || (0x41 ≤ c && c ≤ 0x5A) || (0x61 ≤ c && c ≤ 0x7A) ||
    c ∈ bytes "-_.~$&+,/:;=@"

def upperHex (n : UInt8) : UInt8 := if n < 10 then 0x30 + n else 0x41 + (n - 10)

/-- The default encoding of a path. -/
def escape (path : List UInt8) : List UInt8 :=
  path.flatMap fun c => if kept c then [c] else [percent, upperHex (c / 16), upperHex (c % 16)]

@[simp] theorem unescape_nil : unescape [] = some [] := rfl

theorem unescape_cons {c : UInt8} (h : c ≠ percent) (s : List UInt8) :
    unescape (c :: s) = (unescape s).map (c :: ·) := by
  match s with
  | [] => simp [unescape, h]
  | [d] => simp [unescape, h]
  | d :: e :: s => rw [unescape, if_neg h]

/-- Text without escapes stands for itself. -/
theorem unescape_append {a : List UInt8} (h : percent ∉ a) (s : List UInt8) :
    unescape (a ++ s) = (unescape s).map (a ++ ·) := by
  induction a with
  | nil => simp
  | cons c a ih =>
    have hc : c ≠ percent := fun hc => h (hc ▸ List.mem_cons_self)
    have ha : percent ∉ a := fun ha => h (List.mem_cons_of_mem c ha)
    rw [List.cons_append, unescape_cons hc, ih ha, Option.map_map]
    rfl

theorem bytes_append (s t : String) : bytes (s ++ t) = bytes s ++ bytes t := by
  simp [bytes, ByteArray.data_append]

/-- The escape of a byte, in capital digits. -/
def escaped (c : UInt8) : List UInt8 := [percent, upperHex (c / 16), upperHex (c % 16)]

/-- A byte below 16 is one of the values of a hexadecimal digit. -/
theorem nibble {P : UInt8 → Prop} (h : ∀ i : Fin 16, P (UInt8.ofNat i)) {n : UInt8}
    (hn : n.toNat < 16) : P n := by
  have hi := h ⟨n.toNat, hn⟩
  rwa [UInt8.ofNat_toNat] at hi

theorem high_lt (c : UInt8) : (c / 16).toNat < 16 := by
  have hc := c.toNat_lt
  rw [UInt8.toNat_div]
  show c.toNat / 16 < 16
  omega

theorem low_lt (c : UInt8) : (c % 16).toNat < 16 := by
  rw [UInt8.toNat_mod]
  show c.toNat % 16 < 16
  omega

theorem upperHex_ne_percent {n : UInt8} (hn : n.toNat < 16) : upperHex n ≠ percent :=
  nibble (P := fun n => upperHex n ≠ percent) (by decide) hn

theorem upperHex_inj {n k : UInt8} (hn : n.toNat < 16) (hk : k.toNat < 16)
    (h : upperHex n = upperHex k) : n = k := by
  have hall : ∀ i j : Fin 16, upperHex (UInt8.ofNat i) = upperHex (UInt8.ofNat j) →
      UInt8.ofNat i = UInt8.ofNat j := by decide
  exact nibble (P := fun n => upperHex n = upperHex k → n = k)
    (fun i => nibble (P := fun k => upperHex (UInt8.ofNat i) = upperHex k → UInt8.ofNat i = k)
      (hall i) hk) hn h

theorem escaped_inj {c d : UInt8} (h : escaped c = escaped d) : c = d := by
  simp only [escaped, List.cons.injEq, and_true, true_and] at h
  have hhigh := congrArg UInt8.toNat (upperHex_inj (high_lt c) (high_lt d) h.1)
  have hlow := congrArg UInt8.toNat (upperHex_inj (low_lt c) (low_lt d) h.2)
  rw [UInt8.toNat_div, UInt8.toNat_div] at hhigh
  rw [UInt8.toNat_mod, UInt8.toNat_mod] at hlow
  have h16 : (16 : UInt8).toNat = 16 := rfl
  rw [h16] at hhigh hlow
  exact UInt8.toNat_inj.mp (by omega)

/-- The default encoding holds no escape of a byte that it keeps. -/
theorem escaped_not_infix {c : UInt8} (hc : kept c = true) (path : List UInt8) :
    ¬ escaped c <:+: escape path := by
  have hpercent : kept percent = false := by decide
  induction path with
  | nil => simp [escaped, escape]
  | cons d path ih =>
    intro h
    rw [escape, List.flatMap_cons] at h
    split at h
    · rename_i hd
      rw [List.singleton_append, List.infix_cons_iff] at h
      obtain h | h := h
      · rw [escaped, List.cons_prefix_cons] at h
        rw [h.1, hd] at hpercent
        contradiction
      · exact ih h
    · rename_i hd
      simp only [List.cons_append, List.nil_append, List.infix_cons_iff] at h
      obtain h | h | h | h := h
      · have heq : escaped c = escaped d := by
          simpa [escaped, List.cons_prefix_cons] using h
        exact hd (escaped_inj heq ▸ hc)
      · exact upperHex_ne_percent (high_lt d) (List.cons_prefix_cons.mp h).1.symm
      · exact upperHex_ne_percent (low_lt d) (List.cons_prefix_cons.mp h).1.symm
      · exact ih h

/-! ### The encoding of a component -/

/-- Whether `encodeURIComponent` keeps a byte. -/
def unreserved (c : UInt8) : Bool :=
  (0x30 ≤ c && c ≤ 0x39) || (0x41 ≤ c && c ≤ 0x5A) || (0x61 ≤ c && c ≤ 0x7A) ||
    c ∈ bytes "-_.!~*'()"

def encodeURIComponent (s : List UInt8) : List UInt8 :=
  s.flatMap fun c => if unreserved c then [c] else escaped c

theorem encodeURIComponent_append (s t : List UInt8) :
    encodeURIComponent (s ++ t) = encodeURIComponent s ++ encodeURIComponent t :=
  List.flatMap_append

theorem length_encodeURIComponent (s : List UInt8) : s.length ≤ (encodeURIComponent s).length := by
  induction s with
  | nil => exact Nat.le_refl 0
  | cons c s ih =>
    rw [encodeURIComponent, List.flatMap_cons, List.length_append, List.length_cons]
    change s.length + 1 ≤ _ + (encodeURIComponent s).length
    split
    · rw [List.length_singleton]
      omega
    · simp only [escaped, List.length_cons]
      omega

/-- Only what is kept whole is encoded as itself. -/
theorem encodeURIComponent_ne {s : List UInt8} {c : UInt8} (hc : c ∈ s)
    (h : unreserved c = false) : encodeURIComponent s ≠ s := by
  obtain ⟨a, b, rfl⟩ := List.append_of_mem hc
  intro heq
  have hlength := congrArg List.length heq
  have hone : encodeURIComponent (c :: b) = escaped c ++ encodeURIComponent b := by
    rw [encodeURIComponent, List.flatMap_cons, h]
    rfl
  rw [encodeURIComponent_append, hone] at hlength
  simp only [List.length_append, List.length_cons, escaped] at hlength
  have ha := length_encodeURIComponent a
  have hb := length_encodeURIComponent b
  omega

theorem mem_encodeURIComponent {s : List UInt8} {c : UInt8} (h : c ∈ encodeURIComponent s) :
    unreserved c = true ∨ c = percent := by
  have hdigit : ∀ {n : UInt8}, n.toNat < 16 → unreserved (upperHex n) = true :=
    nibble (P := fun n => unreserved (upperHex n) = true) (by decide)
  obtain ⟨d, _, hd⟩ := List.mem_flatMap.mp h
  split at hd
  · rename_i hkept
    rw [List.mem_singleton.mp hd]
    exact .inl hkept
  · simp only [escaped, List.mem_cons, List.not_mem_nil, or_false] at hd
    obtain rfl | rfl | rfl := hd
    · exact .inr rfl
    · exact .inl (hdigit (high_lt d))
    · exact .inl (hdigit (low_lt d))

end Bytes
