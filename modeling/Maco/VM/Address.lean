import Maco.Lib.Bytes

/-! Ethernet addresses: `net.ParseMAC`, `HardwareAddr.String`, and the canonical text of a unicast
address. -/

namespace Maco.VM

open Bytes

/-- The value of a hexadecimal digit of either case. -/
def hexValue (c : Char) : Option Nat :=
  if '0' ≤ c ∧ c ≤ '9' then some (c.toNat - 48)
  else if 'a' ≤ c ∧ c ≤ 'f' then some (c.toNat - 87)
  else if 'A' ≤ c ∧ c ≤ 'F' then some (c.toNat - 55)
  else none

/-- `xtoi2`. -/
def xtoi2 (high low : Char) : Option UInt8 :=
  match hexValue high, hexValue low with
  | some h, some l => some (UInt8.ofNat (16 * h + l))
  | _, _ => none

/-- The bytes of pairs of digits with a separator between any two. -/
def pairs (sep : Char) : List Char → Option (List UInt8)
  | [a, b] => (xtoi2 a b).map ([·])
  | a :: b :: s :: cs =>
    if s = sep then
      match xtoi2 a b, pairs sep cs with
      | some x, some bytes => some (x :: bytes)
      | _, _ => none
    else none
  | _ => none

/-- The bytes of groups of four digits with a dot between any two. -/
def groups : List Char → Option (List UInt8)
  | [a, b, c, d] =>
    match xtoi2 a b, xtoi2 c d with
    | some x, some y => some [x, y]
    | _, _ => none
  | a :: b :: c :: d :: s :: cs =>
    if s = '.' then
      match xtoi2 a b, xtoi2 c d, groups cs with
      | some x, some y, some bytes => some (x :: y :: bytes)
      | _, _, _ => none
    else none
  | _ => none

/-- `net.ParseMAC`: an address of 6, 8 or 20 bytes. -/
def parseMAC (s : String) : Option (List UInt8) :=
  let bytes :=
    match s.toList with
    | a :: b :: sep :: cs =>
      if sep = ':' ∨ sep = '-' then pairs sep (a :: b :: sep :: cs)
      else groups (a :: b :: sep :: cs)
    | _ => none
  bytes.filter fun bytes => bytes.length = 6 || bytes.length = 8 || bytes.length = 20

def macText : List UInt8 → List Char
  | [] => []
  | [x] => hexPair x
  | x :: y :: xs => hexPair x ++ ':' :: macText (y :: xs)

/-- `HardwareAddr.String`. -/
def macString (bytes : List UInt8) : String := .ofList (macText bytes)

/-- The bytes are those of a unicast Ethernet address. -/
def isUnicast (bytes : List UInt8) : Bool :=
  bytes.length = 6 && bytes.head?.all fun first => first &&& 1 = 0

/-- The canonical text of a unicast Ethernet address. -/
def unicastMAC (s : String) : Option String := ((parseMAC s).filter isUnicast).map macString

/-- The text is the canonical one of a unicast Ethernet address. -/
def Canonical (s : String) : Prop := ∃ bytes, isUnicast bytes = true ∧ s = macString bytes

theorem hexValue_hexDigit : ∀ n < 16, hexValue (hexDigit n) = some n := by decide

theorem xtoi2_hexPair (x : UInt8) :
    xtoi2 (hexDigit (x.toNat / 16)) (hexDigit (x.toNat % 16)) = some x := by
  have hx := x.toNat_lt
  rw [xtoi2, hexValue_hexDigit _ (by omega), hexValue_hexDigit _ (by omega)]
  simp only
  rw [Nat.div_add_mod, UInt8.ofNat_toNat]

theorem pairs_macText : ∀ {bytes : List UInt8}, bytes ≠ [] →
    pairs ':' (macText bytes) = some bytes
  | [], h => absurd rfl h
  | [x], _ => by
    show (xtoi2 _ _).map _ = _
    rw [xtoi2_hexPair]
    rfl
  | x :: y :: xs, _ => by
    have ih := pairs_macText (List.cons_ne_nil y xs)
    rw [macText, hexPair, List.cons_append, List.cons_append, List.nil_append, pairs,
      if_pos rfl, xtoi2_hexPair, ih]

theorem length_macText : ∀ {bytes : List UInt8}, bytes ≠ [] →
    (macText bytes).length + 1 = 3 * bytes.length
  | [], h => absurd rfl h
  | [x], _ => rfl
  | x :: y :: xs, _ => by
    have ih := length_macText (List.cons_ne_nil y xs)
    simp only [macText, hexPair, List.length_append, List.length_cons, List.length_nil] at ih ⊢
    omega

/-- An address is read back from its text. -/
theorem parseMAC_macString {bytes : List UInt8} (h : bytes.length = 6) :
    parseMAC (macString bytes) = some bytes := by
  obtain ⟨x, y, xs, rfl⟩ : ∃ x y xs, bytes = x :: y :: xs := by
    match bytes, h with
    | x :: y :: xs, _ => exact ⟨x, y, xs, rfl⟩
  have hpairs := pairs_macText (List.cons_ne_nil x (y :: xs))
  rw [parseMAC, macString, String.toList_ofList]
  rw [macText, hexPair, List.cons_append, List.cons_append, List.nil_append] at hpairs ⊢
  simp only [true_or, if_true]
  rw [hpairs, Option.filter_some, if_pos (by simp only [h, decide_true, Bool.true_or])]

theorem isUnicast_length {bytes : List UInt8} (h : isUnicast bytes = true) : bytes.length = 6 := by
  rw [isUnicast, Bool.and_eq_true, decide_eq_true_eq] at h
  exact h.1

/-- The canonical text of an address is that of a unicast one, and stands for the same address. -/
theorem unicastMAC_spec {s mac : String} (h : unicastMAC s = some mac) :
    Canonical mac ∧ parseMAC mac = parseMAC s := by
  rw [unicastMAC, Option.map_eq_some_iff] at h
  obtain ⟨bytes, hbytes, rfl⟩ := h
  rw [Option.filter_eq_some_iff] at hbytes
  refine ⟨⟨bytes, hbytes.2, rfl⟩, ?_⟩
  rw [hbytes.1, parseMAC_macString (isUnicast_length hbytes.2)]

theorem Canonical.unicastMAC_eq {mac : String} (h : Canonical mac) : unicastMAC mac = some mac := by
  obtain ⟨bytes, hbytes, rfl⟩ := h
  rw [unicastMAC, parseMAC_macString (isUnicast_length hbytes), Option.filter_some, if_pos hbytes]
  rfl

end Maco.VM
