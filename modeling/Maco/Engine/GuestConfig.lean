import Maco.Engine.InterfaceList
import Maco.Lib.Yaml

/-! The network configuration of a guest: the text of `guestInterfacesConfig`, and what cloud-init
reads in it. -/

namespace Maco.Engine.GuestConfig

open Bytes VM Yaml

/-- `strings.TrimPrefix`. -/
def trimPrefix (s p : String) : String :=
  if p.toList <+: s.toList then .ofList (s.toList.drop p.toList.length) else s

/-- The first occurrence of `old` replaced by `new`. -/
def replaceFirst (old new : List Char) : List Char → List Char
  | [] => if old = [] then new else []
  | c :: cs =>
    if old <+: c :: cs then new ++ (c :: cs).drop old.length else c :: replaceFirst old new cs

/-- `strings.Replace` of one occurrence. -/
def replaceOne (s old new : String) : String := .ofList (replaceFirst old.toList new.toList s.toList)

theorem toList_replaceOne (s old new : String) :
    (replaceOne s old new).toList = replaceFirst old.toList new.toList s.toList :=
  String.toList_ofList

def guestNetworkConfig (mac : String) (addresses : List String) : String :=
  let config := "version: 2\nrenderer: networkd\nethernets:\n  lab:\n    match:\n      macaddress: " ++
    mac ++ "\n    set-name: lab0\n    optional: true\n"
  if addresses.length = 0 then config ++ "    dhcp4: true\n"
  else
    addresses.foldl (fun config address => config ++ ("      - " ++ address ++ "\n"))
      (config ++ "    dhcp4: false\n    addresses:\n")

/-- The part of one interface. -/
def guestInterface (nic : VMInterface) : String :=
  let part := guestNetworkConfig nic.mac nic.addresses
  let part := trimPrefix part "version: 2\nrenderer: networkd\nethernets:\n"
  let part := replaceOne part "  lab:\n" ("  " ++ nic.id ++ ":\n")
  replaceOne part "set-name: lab0" ("set-name: lab" ++ trimPrefix nic.id "net")

def guestInterfacesConfig (interfaces : List VMInterface) : String :=
  let config := interfaces.foldl (fun config nic => config ++ guestInterface nic)
    "version: 2\nrenderer: networkd\nethernets:\n"
  if interfaces.length = 0 then "version: 2\nrenderer: networkd\nethernets: \x7b\x7d\n" else config

/-! ### The lines of the text -/

def unlines (ls : List (List Char)) : List Char := ls.flatMap (· ++ ['\n'])

theorem unlines_cons (l : List Char) (ls : List (List Char)) :
    unlines (l :: ls) = unlines [l] ++ unlines ls := by
  simp [unlines]

theorem unlines_append (ls ls' : List (List Char)) : unlines (ls ++ ls') = unlines ls ++ unlines ls' :=
  List.flatMap_append

theorem lines_unlines {ls : List (List Char)} (h : ∀ l ∈ ls, '\n' ∉ l) :
    lines (unlines ls) = ls := by
  induction ls with
  | nil => rfl
  | cons l ls ih =>
    rw [unlines, List.flatMap_cons, List.append_assoc]
    show lines (l ++ '\n' :: unlines ls) = _
    rw [lines_append (h l List.mem_cons_self), ih fun l' hl' => h l' (List.mem_cons_of_mem l hl')]

/-- The lines of the addresses of an interface. -/
def addressLines (addresses : List String) : List (List Char) :=
  if addresses = [] then [indented 4 "dhcp4: true".toList]
  else
    indented 4 "dhcp4: false".toList :: indented 4 "addresses:".toList ::
      addresses.map fun address => indented 6 ('-' :: ' ' :: address.toList)

/-- The lines of an interface with its number. -/
def nicLines (nic : VMInterface) (number : String) : List (List Char) :=
  indented 2 (nic.id.toList ++ [':']) :: indented 4 "match:".toList ::
    indented 6 ("macaddress: ".toList ++ nic.mac.toList) ::
    indented 4 ("set-name: lab".toList ++ number.toList) :: indented 4 "optional: true".toList ::
    addressLines nic.addresses

section Text

theorem trimPrefix_append (p s : String) : trimPrefix (p ++ s) p = s := by
  rw [trimPrefix, String.toList_append, if_pos (List.prefix_append _ _), List.drop_left,
    String.ofList_toList]

theorem replaceFirst_prefix {old new s : List Char} (h : old ≠ []) :
    replaceFirst old new (old ++ s) = new ++ s := by
  cases old with
  | nil => exact absurd rfl h
  | cons c old =>
    rw [List.cons_append, replaceFirst,
      if_pos (List.cons_prefix_cons.mpr ⟨rfl, List.prefix_append old s⟩)]
    congr 1
    exact List.drop_left

theorem replaceFirst_cons {old new s : List Char} {c : Char} (h : ¬old <+: c :: s) :
    replaceFirst old new (c :: s) = c :: replaceFirst old new s := if_neg h

/-- Text without the first character of the word stays. -/
theorem replaceFirst_skip {old new s a : List Char} {c : Char} (h : c ∉ a) :
    replaceFirst (c :: old) new (a ++ s) = a ++ replaceFirst (c :: old) new s := by
  induction a with
  | nil => rfl
  | cons d a ih =>
    rw [List.mem_cons, not_or] at h
    rw [List.cons_append, replaceFirst_cons, ih h.2]
    · rfl
    · rw [List.cons_prefix_cons]
      exact fun hp => h.1 hp.1

/-- The lines of an interface after the first. -/
def bodyLines (mac : String) (addresses : List String) (number : String) : List (List Char) :=
  indented 4 "match:".toList :: indented 6 ("macaddress: ".toList ++ mac.toList) ::
    indented 4 ("set-name: lab".toList ++ number.toList) :: indented 4 "optional: true".toList ::
    addressLines addresses

theorem toList_addresses (addresses : List String) (config : String) :
    (addresses.foldl (fun config address => config ++ ("      - " ++ address ++ "\n"))
      config).toList = config.toList ++
      unlines (addresses.map fun address => indented 6 ('-' :: ' ' :: address.toList)) := by
  induction addresses generalizing config with
  | nil => simp [unlines]
  | cons address addresses ih =>
    rw [List.foldl_cons, ih]
    simp only [String.toList_append, List.map_cons, unlines, List.flatMap_cons, List.append_assoc]
    rfl

theorem indented_append (n : Nat) (a b : List Char) : indented n (a ++ b) = indented n a ++ b :=
  (List.append_assoc _ _ _).symm

theorem toList_guestNetworkConfig (mac : String) (addresses : List String) :
    (guestNetworkConfig mac addresses).toList =
      "version: 2\nrenderer: networkd\nethernets:\n".toList ++ ("  lab:\n".toList ++
        unlines (bodyLines mac addresses "0")) := by
  have hfirst : "version: 2\nrenderer: networkd\nethernets:\n  lab:\n    match:\n      macaddress: ".toList =
      "version: 2\nrenderer: networkd\nethernets:\n".toList ++ ("  lab:\n".toList ++
        (unlines [indented 4 "match:".toList] ++ indented 6 "macaddress: ".toList)) := by
    decide
  have hsecond : "\n    set-name: lab0\n    optional: true\n".toList =
      '\n' :: unlines [indented 4 ("set-name: lab".toList ++ "0".toList),
        indented 4 "optional: true".toList] := by decide
  have hon : "    dhcp4: true\n".toList = unlines [indented 4 "dhcp4: true".toList] := by
    decide
  have hoff : "    dhcp4: false\n    addresses:\n".toList =
      unlines [indented 4 "dhcp4: false".toList, indented 4 "addresses:".toList] := by decide
  rw [bodyLines, addressLines, indented_append]
  cases addresses with
  | nil =>
    simp only [guestNetworkConfig, List.length_nil, if_true, String.toList_append, hfirst, hsecond,
      hon, unlines, List.flatMap_cons, List.flatMap_nil, List.append_assoc, List.cons_append,
      List.nil_append]
  | cons address addresses =>
    simp only [guestNetworkConfig, List.length_cons, Nat.add_one_ne_zero, if_false, toList_addresses,
      String.toList_append, hfirst, hsecond, hoff, unlines, List.flatMap_cons, List.flatMap_nil,
      List.append_assoc, List.cons_append, List.nil_append, reduceCtorEq]

/-- The two words of the text before the name that is replaced which have its first letter. -/
theorem replaceFirst_setName {new mac tail : List Char} (hmac : 's' ∉ mac) {line : List Char}
    (hline : 's' ∉ line) :
    replaceFirst "set-name: lab0".toList new (line ++ (unlines [indented 4 "match:".toList] ++
      (indented 6 ("macaddress: ".toList ++ mac) ++ ("\n    ".toList ++
        ("set-name: lab0".toList ++ tail))))) =
      line ++ (unlines [indented 4 "match:".toList] ++
        (indented 6 ("macaddress: ".toList ++ mac) ++ ("\n    ".toList ++ (new ++ tail)))) := by
  have hword : "set-name: lab0".toList = 's' :: "et-name: lab0".toList := by decide
  have hsplit : ∀ rest : List Char, unlines [indented 4 "match:".toList] ++
      (indented 6 ("macaddress: ".toList ++ mac) ++ rest) =
      "    match:\n      macaddre".toList ++ ('s' :: 's' :: ':' :: ' ' :: (mac ++ rest)) := by
    intro rest
    have hbefore : unlines [indented 4 "match:".toList] ++ indented 6 "macaddress: ".toList =
        "    match:\n      macaddre".toList ++ ['s', 's', ':', ' '] := by decide
    rw [indented_append, List.append_assoc, ← List.append_assoc, hbefore, List.append_assoc]
    rfl
  have hskip : ∀ a s, 's' ∉ a → replaceFirst "set-name: lab0".toList new (a ++ s) =
      a ++ replaceFirst "set-name: lab0".toList new s := fun a s ha => by
    rw [hword]
    exact replaceFirst_skip ha
  rw [hskip _ _ hline, hsplit, hsplit, hskip _ _ (by decide)]
  rw [replaceFirst_cons (by rw [hword]; simp), replaceFirst_cons (by rw [hword]; simp)]
  have hcolon : ∀ s, replaceFirst "set-name: lab0".toList new (':' :: ' ' :: (mac ++ s)) =
      ':' :: ' ' :: (mac ++ replaceFirst "set-name: lab0".toList new s) := fun s => by
    have hplain : 's' ∉ ':' :: ' ' :: mac := by simpa using hmac
    exact hskip (':' :: ' ' :: mac) s hplain
  rw [hcolon, hskip _ _ (by decide), replaceFirst_prefix (by decide)]

/-- What the texts of addresses consist of. -/
def addressChars : List Char := "0123456789abcdefABCDEF:./".toList

/-- The shape of every text that `net.ParseCIDR` accepts, and of more: digits, letters of hexadecimal
numbers, colons, dots and slashes, with a slash, and a digit at the end. -/
def cidrText (address : String) : Bool :=
  address.toList.all (· ∈ addressChars) && '/' ∈ address.toList &&
    address.toList.getLast?.any (· ∈ "0123456789".toList)

/-- A canonical address has lower-case hexadecimal digits and colons. -/
theorem mem_hexPair {x : UInt8} {c : Char} (h : c ∈ hexPair x) :
    c ∈ "0123456789abcdef:".toList := by
  have hdigit : ∀ n < 16, hexDigit n ∈ "0123456789abcdef:".toList := by decide
  have hx := x.toNat_lt
  rw [hexPair, List.mem_cons, List.mem_singleton] at h
  obtain rfl | rfl := h
  · exact hdigit _ (by omega)
  · exact hdigit _ (by omega)

theorem mem_macText {c : Char} : ∀ {bytes : List UInt8}, c ∈ macText bytes →
    c ∈ "0123456789abcdef:".toList
  | [x], h => mem_hexPair h
  | x :: y :: xs, h => by
    rw [macText, List.mem_append, List.mem_cons] at h
    obtain h | rfl | h := h
    · exact mem_hexPair h
    · decide
    · exact mem_macText h

theorem not_mem_canonical {mac : String} (h : Canonical mac) {c : Char}
    (hc : c ∉ "0123456789abcdef:".toList) : c ∉ mac.toList := by
  obtain ⟨bytes, -, rfl⟩ := h
  rw [macString, String.toList_ofList]
  exact fun hmem => hc (mem_macText hmem)

/-- The names that the number of an interface gives. -/
theorem netName_plain : ∀ n < 32, 's' ∉ "net".toList ++ (toString n).toList ∧
    '\n' ∉ "net".toList ++ (toString n).toList := by decide +kernel

theorem toList_guestInterface {nic : VMInterface} {n : Nat} (hn : n < 32)
    (hid : nic.id = "net" ++ toString n) (hmac : 's' ∉ nic.mac.toList) :
    (guestInterface nic).toList = unlines (nicLines nic (toString n)) := by
  obtain ⟨part, htrim, hpart⟩ : ∃ part : String,
      trimPrefix (guestNetworkConfig nic.mac nic.addresses)
        "version: 2\nrenderer: networkd\nethernets:\n" = part ∧
      part.toList = "  lab:\n".toList ++ unlines (bodyLines nic.mac nic.addresses "0") := by
    refine ⟨_, ?_, String.toList_ofList⟩
    have hconfig : guestNetworkConfig nic.mac nic.addresses =
        "version: 2\nrenderer: networkd\nethernets:\n" ++
          .ofList ("  lab:\n".toList ++ unlines (bodyLines nic.mac nic.addresses "0")) := by
      refine String.toList_inj.mp ((toList_guestNetworkConfig _ _).trans ?_)
      rw [String.toList_append]
      exact congrArg _ String.toList_ofList.symm
    rw [hconfig, trimPrefix_append]
  have hline : ("  " ++ nic.id ++ ":\n").toList = unlines [indented 2 (nic.id.toList ++ [':'])] := by
    simp only [String.toList_append, unlines, List.flatMap_cons, List.flatMap_nil, List.append_nil,
      indented, List.append_assoc]
    rfl
  have hplain : 's' ∉ ("  " ++ nic.id ++ ":\n").toList := by
    have hname := (netName_plain n hn).1
    rw [← String.toList_append, ← hid] at hname
    simp only [String.toList_append, List.mem_append, not_or]
    exact ⟨⟨by decide, hname⟩, by decide⟩
  have hbody : ∀ number : String, unlines (bodyLines nic.mac nic.addresses number) =
      unlines [indented 4 "match:".toList] ++
        (indented 6 ("macaddress: ".toList ++ nic.mac.toList) ++ ("\n    ".toList ++
          (("set-name: lab".toList ++ number.toList) ++ '\n' ::
            unlines (indented 4 "optional: true".toList :: addressLines nic.addresses)))) := by
    intro number
    simp only [bodyLines, unlines, List.flatMap_cons, List.flatMap_nil, List.append_assoc,
      List.cons_append, List.nil_append]
    rfl
  have hzero : "set-name: lab".toList ++ "0".toList = "set-name: lab0".toList := by decide
  have hname : trimPrefix nic.id "net" = toString n := by rw [hid, trimPrefix_append]
  rw [guestInterface, htrim, toList_replaceOne, toList_replaceOne, hpart,
    replaceFirst_prefix (by decide), hbody "0", hzero, replaceFirst_setName hmac hplain,
    hname, hline, String.toList_append]
  have hnic : unlines (nicLines nic (toString n)) =
      unlines [indented 2 (nic.id.toList ++ [':'])] ++
        unlines (bodyLines nic.mac nic.addresses (toString n)) := unlines_cons _ _
  rw [hnic, hbody (toString n)]

/-- What the text is about: the interfaces with their numbers. -/
structure Normalised (nics : List VMInterface) : Prop where
  ids : (nics.map (·.id)).Nodup
  numbered : ∀ nic ∈ nics, ∃ n < 32, nic.id = "net" ++ toString n
  canonical : ∀ nic ∈ nics, Canonical nic.mac
  addresses : ∀ nic ∈ nics, ∀ address ∈ nic.addresses, cidrText address = true

/-- The number of an interface, as a text. -/
def numberOf (nic : VMInterface) : String := trimPrefix nic.id "net"

def headLines : List (List Char) :=
  ["version: 2".toList, "renderer: networkd".toList, "ethernets:".toList]

theorem toList_guestInterfacesConfig {nics : List VMInterface} (h : Normalised nics)
    (hne : nics ≠ []) : (guestInterfacesConfig nics).toList =
      unlines (headLines ++ nics.flatMap fun nic => nicLines nic (numberOf nic)) := by
  have hloop : ∀ (nics : List VMInterface) (config : String),
      (∀ nic ∈ nics, (guestInterface nic).toList = unlines (nicLines nic (numberOf nic))) →
      (nics.foldl (fun config nic => config ++ guestInterface nic) config).toList =
        config.toList ++ unlines (nics.flatMap fun nic => nicLines nic (numberOf nic)) := by
    intro nics
    induction nics with
    | nil => simp [unlines]
    | cons nic nics ih =>
      intro config hall
      rw [List.foldl_cons, ih _ fun nic' h => hall nic' (List.mem_cons_of_mem nic h),
        String.toList_append, hall nic List.mem_cons_self, List.flatMap_cons, unlines_append,
        List.append_assoc]
  have hhead : "version: 2\nrenderer: networkd\nethernets:\n".toList = unlines headLines := by
    decide
  have hnonempty : ¬nics.length = 0 := fun hlength => hne (List.eq_nil_of_length_eq_zero hlength)
  rw [guestInterfacesConfig, unlines_append, ← hhead]
  simp only [if_neg hnonempty]
  refine hloop nics _ fun nic hnic => ?_
  obtain ⟨n, hn, hid⟩ := h.numbered nic hnic
  have hnumber : numberOf nic = toString n := by rw [numberOf, hid, trimPrefix_append]
  rw [hnumber]
  exact toList_guestInterface hn hid (not_mem_canonical (h.canonical nic hnic) (by decide))

/-! ### The lines by their indentation -/

def itemsForest (addresses : List String) : Forest :=
  addresses.foldr (fun address f => .cons 6 ('-' :: ' ' :: address.toList) .nil f) .nil

def addressForest (addresses : List String) : Forest :=
  if addresses = [] then .cons 4 "dhcp4: true".toList .nil .nil
  else
    .cons 4 "dhcp4: false".toList .nil (.cons 4 "addresses:".toList (itemsForest addresses) .nil)

/-- What stands below the name of an interface. -/
def nicForest (nic : VMInterface) (number : String) : Forest :=
  .cons 4 "match:".toList (.cons 6 ("macaddress: ".toList ++ nic.mac.toList) .nil .nil)
    (.cons 4 ("set-name: lab".toList ++ number.toList) .nil
      (.cons 4 "optional: true".toList .nil (addressForest nic.addresses)))

def nicsForest (nics : List VMInterface) : Forest :=
  nics.foldr (fun nic f => .cons 2 (nic.id.toList ++ [':']) (nicForest nic (numberOf nic)) f) .nil

section Forests

variable {g : Forest}

theorem plant_leaf {n : Nat} {text : List Char} (h : starts text = true) (hg : g.Shallow n) :
    plant (indented n text) g = .cons n text .nil g :=
  plant_indented (f := .nil) h trivial hg

/-- A line before one that is indented no more. -/
theorem plant_before {k n : Nat} {text text' : List Char} {f : Forest} (h : starts text = true)
    (hk : k ≤ n) : plant (indented n text) (.cons k text' f g) = .cons n text .nil (.cons k text' f g) :=
  plant_leaf h hk

theorem grow_items (addresses : List String) (hg : g.Shallow 4) :
    (addresses.map fun address => indented 6 ('-' :: ' ' :: address.toList)).foldr plant g =
      (itemsForest addresses).append g := by
  induction addresses with
  | nil => rfl
  | cons address addresses ih =>
    rw [List.map_cons, List.foldr_cons, ih]
    have hshallow : ((itemsForest addresses).append g).Shallow 6 := by
      cases addresses with
      | nil => exact hg.mono (by omega)
      | cons address' addresses => exact Nat.le_refl 6
    exact plant_leaf rfl hshallow

theorem itemsForest_deeper (addresses : List String) : (itemsForest addresses).Deeper 4 := by
  induction addresses with
  | nil => exact trivial
  | cons address addresses ih => exact ⟨by omega, ih⟩

theorem grow_addresses (addresses : List String) (hg : g.Shallow 2) :
    (addressLines addresses).foldr plant g = (addressForest addresses).append g := by
  unfold addressLines addressForest
  split
  · exact plant_leaf (by decide) (hg.mono (by omega))
  · rw [List.foldr_cons, List.foldr_cons, grow_items addresses (hg.mono (by omega)),
      plant_indented (by decide) (itemsForest_deeper addresses) (hg.mono (by omega)),
      plant_before (by decide) (Nat.le_refl 4)]
    rfl

theorem addressForest_shallow (addresses : List String) (n : Nat) (hn : 4 ≤ n) :
    ((addressForest addresses).append g).Shallow n := by
  unfold addressForest
  split
  · exact hn
  · exact hn

theorem grow_body (nic : VMInterface) (number : String) (hg : g.Shallow 2) :
    (bodyLines nic.mac nic.addresses number).foldr plant g =
      (nicForest nic number).append g := by
  have hmatch := starts_append (show starts "macaddress: ".toList = true by decide)
  have hname := starts_append (show starts "set-name: lab".toList = true by decide)
  rw [bodyLines, List.foldr_cons, List.foldr_cons, List.foldr_cons, List.foldr_cons,
    grow_addresses nic.addresses hg,
    plant_leaf (by decide) (addressForest_shallow nic.addresses 4 (Nat.le_refl 4)),
    plant_before (hname _) (Nat.le_refl 4), plant_before (hmatch _) (by omega)]
  have hdeeper : Forest.Deeper 4 (.cons 6 ("macaddress: ".toList ++ nic.mac.toList) .nil .nil) :=
    ⟨by omega, trivial⟩
  have hshallow : Forest.Shallow 4 (.cons 4 ("set-name: lab".toList ++ number.toList) .nil
    (.cons 4 "optional: true".toList .nil ((addressForest nic.addresses).append g))) := Nat.le_refl 4
  exact plant_indented (by decide) hdeeper hshallow

theorem nicForest_deeper (nic : VMInterface) (number : String) :
    (nicForest nic number).Deeper 2 := by
  refine ⟨by omega, by omega, by omega, ?_⟩
  unfold addressForest
  split
  · exact ⟨by omega, trivial⟩
  · exact ⟨by omega, by omega, trivial⟩

theorem grow_nics {nics : List VMInterface} (hids : ∀ nic ∈ nics, starts nic.id.toList = true) :
    (nics.flatMap fun nic => nicLines nic (numberOf nic)).foldr plant .nil = nicsForest nics ∧
      (nicsForest nics).Shallow 2 ∧ (nicsForest nics).Deeper 0 := by
  induction nics with
  | nil => exact ⟨rfl, trivial, trivial⟩
  | cons nic nics ih =>
    obtain ⟨hgrow, hshallow, hdeeper⟩ := ih fun nic' h => hids nic' (List.mem_cons_of_mem nic h)
    refine ⟨?_, Nat.le_refl 2, by omega, hdeeper⟩
    have hlines : nicLines nic (numberOf nic) = indented 2 (nic.id.toList ++ [':']) ::
      bodyLines nic.mac nic.addresses (numberOf nic) := rfl
    rw [List.flatMap_cons, List.foldr_append, hgrow, hlines, List.foldr_cons,
      grow_body nic _ hshallow]
    exact plant_indented (starts_append (hids nic List.mem_cons_self) _) (nicForest_deeper _ _)
      hshallow

theorem forest_config {nics : List VMInterface} (hids : ∀ nic ∈ nics, starts nic.id.toList = true) :
    forest (headLines ++ nics.flatMap fun nic => nicLines nic (numberOf nic)) =
      .cons 0 "version: 2".toList .nil (.cons 0 "renderer: networkd".toList .nil
        (.cons 0 "ethernets:".toList (nicsForest nics) .nil)) := by
  obtain ⟨hgrow, -, hdeeper⟩ := grow_nics hids
  have happend : ∀ f : Forest, f.append .nil = f := by
    intro f
    induction f with
    | nil => rfl
    | cons k text children rest _ ih => rw [Forest.append, ih]
  have hroot : ∀ text, starts text = true → plant text (nicsForest nics) =
      .cons 0 text (nicsForest nics) .nil := fun text h => by
    have hplant := plant_indented (n := 0) (g := .nil) h hdeeper trivial
    rwa [happend] at hplant
  have hleaf : ∀ text text' f g, starts text = true →
      plant text (.cons 0 text' f g) = .cons 0 text .nil (.cons 0 text' f g) :=
    fun text text' f g h => plant_before (n := 0) h (Nat.le_refl 0)
  rw [forest, List.foldr_append, hgrow, headLines, List.foldr_cons, List.foldr_cons, List.foldr_cons,
    List.foldr_nil, hroot _ (by decide), hleaf _ _ _ _ (by decide),
    hleaf _ _ _ _ (by decide)]

end Forests

end Text

/-! ### What YAML reads -/

def addressEntries (addresses : List String) : List (String × Node) :=
  if addresses = [] then [("dhcp4", .scalar .bool "true")]
  else
    [("dhcp4", .scalar .bool "false"),
      ("addresses", .seq (addresses.map fun address => .scalar .str address))]

def nicNode (nic : VMInterface) : Node :=
  .map (("match", .map [("macaddress", .scalar (resolve nic.mac.toList) nic.mac)]) ::
    ("set-name", .scalar .str ("lab" ++ numberOf nic)) :: ("optional", .scalar .bool "true") ::
    addressEntries nic.addresses)

def document (nics : List VMInterface) : Node :=
  .map [("version", .scalar .int "2"), ("renderer", .scalar .str "networkd"),
    ("ethernets", .map (nics.map fun nic => (nic.id, nicNode nic)))]

section Reading

theorem isPlain_address {c d : Char} {text : List Char}
    (h : ∀ a ∈ c :: d :: text, a ∈ addressChars) (hlast : (d :: text).getLast? ≠ some ':') :
    isPlain (c :: d :: text) = true := by
  have hall : addressChars.all (fun a => '!' ≤ a && a ≤ '~' &&
      decide (a ∉ ",[]\x7b\x7d#&*!|>'\"%@".toList) && decide (a.toNat ≠ 0x60)) = true := by decide
  simp only [List.all_eq_true, Bool.and_eq_true, decide_eq_true_eq] at hall
  simp only [isPlain, Bool.and_eq_true, List.all_eq_true, decide_eq_true_eq]
  have hfirst := hall c (h c List.mem_cons_self)
  exact ⟨fun a ha => (hall a (h a ha)).1.1, ⟨hfirst.1.2, hfirst.2⟩, hlast⟩

theorem isPlain_cidr {address : String} (h : cidrText address = true) :
    isPlain address.toList = true := by
  simp only [cidrText, Bool.and_eq_true, List.all_eq_true, decide_eq_true_eq] at h
  obtain ⟨⟨hall, hslash⟩, hlast⟩ := h
  generalize address.toList = text at *
  obtain _ | ⟨c, _ | ⟨d, text⟩⟩ := text
  · cases hslash
  · obtain rfl := List.mem_singleton.mp hslash
    revert hlast
    decide
  · refine isPlain_address hall fun hcolon => ?_
    rw [List.getLast?_cons_cons, hcolon] at hlast
    revert hlast
    decide

theorem value_cidr {address : String} (h : cidrText address = true) :
    value address.toList = some (.scalar .str address) := by
  have hslash : '/' ∈ address.toList := by
    simp only [cidrText, Bool.and_eq_true, decide_eq_true_eq] at h
    exact h.1.2
  rw [value_plain (isPlain_cidr h), resolve_of_mem hslash (by decide), String.ofList_toList]

theorem macText_cons (x : UInt8) (xs : List UInt8) :
    macText (x :: xs) = hexPair x ++ (xs.map hexPair).flatMap (':' :: ·) := by
  induction xs generalizing x with
  | nil => rfl
  | cons y ys ih => rw [macText, ih, List.map_cons, List.flatMap_cons, List.cons_append]

/-- No colon ends an address. -/
theorem getLast?_macText : ∀ {bytes : List UInt8}, (macText bytes).getLast? ≠ some ':'
  | [] => by decide
  | [x] => by
    have hdigit : ∀ n < 16, hexDigit n ≠ ':' := by decide
    have hx := x.toNat_lt
    exact fun h => hdigit (x.toNat % 16) (by omega) (Option.some.inj h)
  | x :: y :: xs => by
    have hne : macText (y :: xs) ≠ [] := by rw [macText_cons]; exact List.cons_ne_nil _ _
    obtain ⟨c, cs, hcs⟩ := List.exists_cons_of_ne_nil hne
    have ih := @getLast?_macText (y :: xs)
    rw [hcs] at ih
    rwa [macText, hcs, List.getLast?_append_of_ne_nil _ (List.cons_ne_nil _ _),
      List.getLast?_cons_cons]

theorem isUnicast_cons {bytes : List UInt8} (h : isUnicast bytes = true) :
    ∃ x y xs, bytes = x :: y :: xs := by
  have hlength := isUnicast_length h
  cases bytes with
  | nil => cases hlength
  | cons x bytes =>
    cases bytes with
    | nil => cases hlength
    | cons y xs => exact ⟨x, y, xs, rfl⟩

theorem isPlain_mac {mac : String} (h : Canonical mac) : isPlain mac.toList = true := by
  obtain ⟨bytes, hbytes, rfl⟩ := h
  have hsub : "0123456789abcdef:".toList.all (fun a => decide (a ∈ addressChars)) = true := by decide
  simp only [List.all_eq_true, decide_eq_true_eq] at hsub
  have hmem : ∀ c ∈ macText bytes, c ∈ addressChars := fun c hc => hsub c (mem_macText hc)
  have hlast := @getLast?_macText bytes
  rw [macString, String.toList_ofList]
  obtain ⟨x, y, xs, rfl⟩ := isUnicast_cons hbytes
  rw [macText_cons, hexPair] at hmem hlast ⊢
  refine isPlain_address hmem ?_
  rwa [List.cons_append, List.cons_append, List.getLast?_cons_cons] at hlast

theorem read_items {addresses : List String} (h : ∀ a ∈ addresses, cidrText a = true) :
    readBlock (itemsForest addresses) =
      some (.ofItems (addresses.map fun address => .scalar .str address)) := by
  induction addresses with
  | nil => rfl
  | cons address addresses ih =>
    obtain ⟨haddress, h⟩ := List.forall_mem_cons.mp h
    have halign : aligned 6 (itemsForest addresses) = true := by cases addresses <;> rfl
    exact readBlock_item (value_cidr haddress) halign (ih h)

theorem read_addresses {addresses : List String} (h : ∀ a ∈ addresses, cidrText a = true) :
    readBlock (addressForest addresses) = some (.ofEntries (addressEntries addresses)) := by
  have hkeys : isKey "dhcp4".toList = true ∧ isKey "addresses".toList = true := by decide
  have hline : ∀ x, isPlain x = true → resolve x = .bool →
      value x = some (.scalar .bool (.ofList x)) := fun x hplain hres => by
    rw [value_plain hplain, hres]
  have hswitch : ∀ x rest after, isPlain x = true → resolve x = .bool → aligned 4 rest = true →
      readBlock rest = some (.ofEntries after) →
      readBlock (.cons 4 ("dhcp4".toList ++ ':' :: ' ' :: x) .nil rest) =
        some (.ofEntries (("dhcp4", .scalar .bool (.ofList x)) :: after)) := by
    intro x rest after hplain hres halign hafter
    exact readBlock_entry hkeys.1 (hline x hplain hres) halign hafter
  unfold addressForest addressEntries
  split
  · exact hswitch "true".toList .nil [] (by decide) (by decide) rfl rfl
  · rename_i hne
    have hbelow : readBlock (.cons 4 ("addresses".toList ++ [':']) (itemsForest addresses) .nil) =
        some (.ofEntries [("addresses", .seq (addresses.map fun address => .scalar .str address))]) := by
      rw [readBlock_key hkeys.2 (read_items h) rfl readBlock_nil]
      cases addresses with
      | nil => exact absurd rfl hne
      | cons address addresses => rfl
    exact hswitch "false".toList _ _ (by decide) (by decide) rfl hbelow

theorem labName : ∀ n < 32, isPlain ("lab".toList ++ (toString n).toList) = true ∧
    untyped ("lab".toList ++ (toString n).toList) = true := by decide +kernel

theorem netName_key : ∀ n < 32, isKey ("net".toList ++ (toString n).toList) = true := by
  decide +kernel

theorem numberOf_eq {nic : VMInterface} {n : Nat} (hid : nic.id = "net" ++ toString n) :
    numberOf nic = toString n := by
  rw [numberOf, hid, trimPrefix_append]

theorem ofList_append (s t : String) : String.ofList (s.toList ++ t.toList) = s ++ t := by
  rw [← String.toList_append, String.ofList_toList]

theorem read_nic {nic : VMInterface} {n : Nat} (hn : n < 32) (hid : nic.id = "net" ++ toString n)
    (hmac : Canonical nic.mac) (h : ∀ a ∈ nic.addresses, cidrText a = true) :
    ∃ below, readBlock (nicForest nic (numberOf nic)) = some below ∧ below.node = nicNode nic := by
  have hkeys : isKey "match".toList = true ∧ isKey "macaddress".toList = true ∧
      isKey "set-name".toList = true ∧ isKey "optional".toList = true := by decide
  obtain ⟨hlab, huntyped⟩ := labName n hn
  rw [numberOf_eq hid]
  have haddresses : aligned 4 (addressForest nic.addresses) = true := by
    unfold addressForest
    split <;> rfl
  have hmacaddress : readBlock (.cons 6 ("macaddress".toList ++ ':' :: ' ' :: nic.mac.toList)
      .nil .nil) = some (.ofEntries [("macaddress", .scalar (resolve nic.mac.toList) nic.mac)]) := by
    rw [readBlock_entry hkeys.2.1 (value_plain (isPlain_mac hmac)) rfl readBlock_nil,
      show String.ofList nic.mac.toList = nic.mac from String.ofList_toList]
    rfl
  have hoptional : readBlock (.cons 4 ("optional".toList ++ ':' :: ' ' :: "true".toList) .nil
      (addressForest nic.addresses)) =
        some (.ofEntries (("optional", .scalar .bool "true") :: addressEntries nic.addresses)) := by
    have hvalue : value "true".toList = some (.scalar .bool "true") := by
      rw [value_plain (by decide), show resolve "true".toList = .bool by decide]
      rfl
    exact readBlock_entry hkeys.2.2.2 hvalue haddresses (read_addresses h)
  have hname : readBlock (.cons 4 ("set-name".toList ++ ':' :: ' ' ::
      ("lab".toList ++ (toString n).toList)) .nil (.cons 4 ("optional".toList ++ ':' :: ' ' ::
        "true".toList) .nil (addressForest nic.addresses))) =
        some (.ofEntries (("set-name", .scalar .str ("lab" ++ toString n)) ::
          ("optional", .scalar .bool "true") :: addressEntries nic.addresses)) := by
    rw [readBlock_entry hkeys.2.2.1 (value_plain hlab) rfl hoptional,
      resolve_of_untyped huntyped, ofList_append]
    rfl
  refine ⟨_, readBlock_key hkeys.1 hmacaddress rfl hname, ?_⟩
  rw [nicNode, numberOf_eq hid]
  rfl

theorem read_nics {nics : List VMInterface} (h : ∀ nic ∈ nics, (∃ n < 32, nic.id = "net" ++ toString n) ∧
    Canonical nic.mac ∧ ∀ address ∈ nic.addresses, cidrText address = true) :
    readBlock (nicsForest nics) = some (.ofEntries (nics.map fun nic => (nic.id, nicNode nic))) := by
  induction nics with
  | nil => rfl
  | cons nic nics ih =>
    obtain ⟨⟨⟨n, hn, hid⟩, hmac, haddresses⟩, h⟩ := List.forall_mem_cons.mp h
    obtain ⟨below, hbelow, hnode⟩ := read_nic hn hid hmac haddresses
    have hkey : isKey nic.id.toList = true := by
      rw [hid, String.toList_append]
      exact netName_key n hn
    have halign : aligned 2 (nicsForest nics) = true := by cases nics <;> rfl
    have hread : readBlock (nicsForest (nic :: nics)) = _ :=
      readBlock_key hkey hbelow halign (ih h)
    rw [hread, hnode, String.ofList_toList]
    rfl

theorem plain_indented {n : Nat} {text : List Char} (h : '\n' ∉ text) : '\n' ∉ indented n text := by
  rw [indented, List.mem_append, not_or]
  exact ⟨fun hmem => absurd (List.eq_of_mem_replicate hmem) (by decide), h⟩

theorem plain_nicLines {nic : VMInterface} {n : Nat} (hn : n < 32)
    (hid : nic.id = "net" ++ toString n) (hmac : Canonical nic.mac)
    (h : ∀ a ∈ nic.addresses, cidrText a = true) :
    ∀ l ∈ nicLines nic (numberOf nic), '\n' ∉ l := by
  have hname : '\n' ∉ nic.id.toList ++ [':'] := by
    have hplain := (netName_plain n hn).2
    rw [← String.toList_append, ← hid] at hplain
    simpa using hplain
  have hnumber : '\n' ∉ "set-name: lab".toList ++ (numberOf nic).toList := by
    have hplain : ∀ n < 32, '\n' ∉ "set-name: lab".toList ++ (toString n).toList := by decide
    rw [numberOf_eq hid]
    exact hplain n hn
  have hmacaddress : '\n' ∉ "macaddress: ".toList ++ nic.mac.toList := by
    rw [List.mem_append, not_or]
    exact ⟨by decide, not_mem_canonical hmac (by decide)⟩
  have haddress : ∀ a ∈ nic.addresses, '\n' ∉ '-' :: ' ' :: a.toList := fun a ha => by
    have hall := h a ha
    simp only [cidrText, Bool.and_eq_true, List.all_eq_true, decide_eq_true_eq] at hall
    have hplain : '\n' ∉ a.toList := fun hmem => by
      have hchar := hall.1.1 _ hmem
      revert hchar
      decide
    simpa using hplain
  have haddresses : ∀ l ∈ addressLines nic.addresses, '\n' ∉ l := by
    unfold addressLines
    split
    · exact List.forall_mem_singleton.mpr (plain_indented (by decide))
    · refine List.forall_mem_cons.mpr ⟨plain_indented (by decide),
        List.forall_mem_cons.mpr ⟨plain_indented (by decide), fun l hl => ?_⟩⟩
      obtain ⟨a, ha, rfl⟩ := List.mem_map.mp hl
      exact plain_indented (haddress a ha)
  simp only [nicLines, List.forall_mem_cons]
  exact ⟨plain_indented hname, plain_indented (by decide), plain_indented hmacaddress,
    plain_indented hnumber, plain_indented (by decide), haddresses⟩

/-- The lines before those of the interfaces. -/
theorem read_head {third : Forest} {interfaces : Node} (halign : aligned 0 third = true)
    (hthird : readBlock third = some (.ofEntries [("ethernets", interfaces)])) :
    readBlock (.cons 0 "version: 2".toList .nil (.cons 0 "renderer: networkd".toList .nil third)) =
      some (.ofEntries [("version", .scalar .int "2"), ("renderer", .scalar .str "networkd"),
        ("ethernets", interfaces)]) := by
  have hkeys : isKey "version".toList = true ∧ isKey "renderer".toList = true := by decide
  have htwo : value "2".toList = some (.scalar .int "2") := by
    rw [value_plain (by decide), show resolve "2".toList = .int by decide]
    rfl
  have hnetworkd : value "networkd".toList = some (.scalar .str "networkd") := by
    rw [value_plain (by decide), resolve_of_untyped (by decide)]
    rfl
  have hrenderer := readBlock_entry (n := 0) hkeys.2 hnetworkd halign hthird
  exact readBlock_entry (n := 0) hkeys.1 htwo rfl hrenderer

/-- What YAML reads in the text for the guest. -/
theorem parse_guestInterfacesConfig {nics : List VMInterface} (h : Normalised nics) :
    parse (guestInterfacesConfig nics).toList = some (document nics) := by
  have hkey : isKey "ethernets".toList = true := by decide
  cases nics with
  | nil =>
    have hforest : forest (lines (guestInterfacesConfig []).toList) =
        .cons 0 "version: 2".toList .nil (.cons 0 "renderer: networkd".toList .nil
          (.cons 0 ("ethernets".toList ++ ':' :: ' ' :: ['\x7b', '\x7d']) .nil .nil)) := by
      decide
    have hthird := readBlock_entry (n := 0) hkey (show value ['\x7b', '\x7d'] = some (.map []) from rfl)
      rfl readBlock_nil
    rw [parse, hforest, read_head rfl hthird]
    rfl
  | cons nic nics =>
    have hread := read_nics fun nic hnic =>
      ⟨h.numbered nic hnic, h.canonical nic hnic, h.addresses nic hnic⟩
    have hstarts : ∀ nic' ∈ nic :: nics, starts nic'.id.toList = true := fun nic' hnic => by
      obtain ⟨n, -, hid⟩ := h.numbered nic' hnic
      rw [hid, String.toList_append]
      rfl
    have hplain : ∀ l ∈ headLines ++ (nic :: nics).flatMap fun nic => nicLines nic (numberOf nic),
        '\n' ∉ l := by
      refine List.forall_mem_append.mpr ⟨by decide, fun l hl => ?_⟩
      obtain ⟨nic', hnic, hl⟩ := List.mem_flatMap.mp hl
      obtain ⟨n, hn, hid⟩ := h.numbered nic' hnic
      exact plain_nicLines hn hid (h.canonical nic' hnic) (h.addresses nic' hnic) l hl
    have hthird := readBlock_key (n := 0) hkey hread rfl readBlock_nil
    have hline : "ethernets:".toList = "ethernets".toList ++ [':'] := by decide
    rw [parse, toList_guestInterfacesConfig h (List.cons_ne_nil _ _), lines_unlines hplain,
      forest_config hstarts, hline, read_head rfl hthird]
    rfl

end Reading

/-! ### The round trip -/

/-- The bytes of an address look like a number in base 60: the first is a decimal number of two
digits, and each other one a decimal number below 60. -/
def looksSexagesimal : List UInt8 → Bool
  | [] => false
  | x :: xs =>
    16 ≤ x.toNat && x.toNat < 160 && x.toNat % 16 ≤ 9 &&
      xs.all fun y => y.toNat < 96 && y.toNat % 16 ≤ 9

section Sexagesimal

theorem first_matches : ∀ n < 256, (sign * (nonzero * digit_.star)).rmatch (hexPair (.ofNat n)) =
    (16 ≤ n && n < 160 && n % 16 ≤ 9 : Bool) := by decide +kernel

theorem part_matches : ∀ n < 256, sixtieth.rmatch (':' :: hexPair (.ofNat n)) =
    (n < 96 && n % 16 ≤ 9 : Bool) := by decide +kernel

theorem colon_hexPair (x : UInt8) : ':' ∉ hexPair x := by
  have hdigit : ∀ n < 16, hexDigit n ≠ ':' := by decide
  have hx := x.toNat_lt
  rw [hexPair, List.mem_cons, List.mem_singleton, not_or]
  exact ⟨(hdigit _ (by omega)).symm, (hdigit _ (by omega)).symm⟩

/-- The pattern of the integers in base 60 matches exactly the addresses that look like one. -/
theorem int60_macText {x : UInt8} {xs : List UInt8} (hxs : xs ≠ []) :
    int60.rmatch (macText (x :: xs)) = looksSexagesimal (x :: xs) := by
  have hparts : ∀ p ∈ xs.map hexPair, ':' ∉ p := fun p hp => by
    obtain ⟨y, -, rfl⟩ := List.mem_map.mp hp
    exact colon_hexPair y
  have hfirst := first_matches x.toNat x.toNat_lt
  have hpart : ∀ y : UInt8, ':' :: hexPair y ∈ sixtieth.matches' ↔
      (y.toNat < 96 && y.toNat % 16 ≤ 9 : Bool) = true := fun y => by
    have hy := part_matches y.toNat y.toNat_lt
    rw [UInt8.ofNat_toNat] at hy
    rw [← hy, RegularExpression.rmatch_iff_matches']
  rw [UInt8.ofNat_toNat] at hfirst
  rw [Bool.eq_iff_iff, RegularExpression.rmatch_iff_matches', macText_cons,
    mem_int60 (colon_hexPair x) hparts (by simpa using hxs), looksSexagesimal, Bool.and_eq_true,
    ← hfirst, RegularExpression.rmatch_iff_matches', List.all_eq_true, List.forall_mem_map]
  exact and_congr_right fun _ => forall₂_congr fun y _ => hpart y

/-- The type of an address. -/
theorem resolve_macString {bytes : List UInt8} (h : isUnicast bytes = true) :
    resolve (macString bytes).toList = if looksSexagesimal bytes then .int else .str := by
  obtain ⟨x, y, xs, rfl⟩ := isUnicast_cons h
  have hcolon : ':' ∈ macText (x :: y :: xs) := by
    rw [macText]
    exact List.mem_append_right _ List.mem_cons_self
  have hdot : '.' ∉ macText (x :: y :: xs) := fun hmem => by
    have hchar := mem_macText hmem
    revert hchar
    decide
  have hdash : '-' ∉ macText (x :: y :: xs) := fun hmem => by
    have hchar := mem_macText hmem
    revert hchar
    decide
  have hmerge : macText (x :: y :: xs) ≠ ['<', '<'] := by
    intro heq
    rw [heq] at hcolon
    revert hcolon
    decide
  have hvalue : macText (x :: y :: xs) ≠ ['='] := by
    intro heq
    rw [heq] at hcolon
    revert hcolon
    decide
  have hbool : boolean.rmatch (macText (x :: y :: xs)) = false :=
    rmatch_of_mem hcolon (by decide)
  have hfloat : float.rmatch (macText (x :: y :: xs)) = false :=
    rmatch_of_not_mem hdot (by decide)
  have hint : integer.rmatch (macText (x :: y :: xs)) = false :=
    rmatch_of_mem hcolon (by decide)
  have hnull : null.rmatch (macText (x :: y :: xs)) = false :=
    rmatch_of_mem hcolon (by decide)
  have hdate : (date + dateTime).rmatch (macText (x :: y :: xs)) = false :=
    rmatch_of_not_mem hdash (by decide)
  have hint60 := int60_macText (x := x) (List.cons_ne_nil y xs)
  rw [macString, String.toList_ofList, resolve, hbool, hfloat, hint60, hint, if_neg Bool.false_ne_true,
    if_neg Bool.false_ne_true, Bool.or_false, if_neg hmerge, hnull, hdate, if_neg Bool.false_ne_true,
    if_neg Bool.false_ne_true, if_neg hvalue]

end Sexagesimal
/-- An interface is read with its address, its switch and its list of addresses. -/
structure Reads (nic : VMInterface) (node : Node) : Prop where
  mac : (node.get "match").bind (·.get "macaddress") = some (.scalar .str nic.mac)
  dhcp : node.get "dhcp4" = some (.scalar .bool (if nic.addresses = [] then "true" else "false"))
  addresses : node.get "addresses" =
    if nic.addresses = [] then none
    else some (.seq (nic.addresses.map fun address => .scalar .str address))

/-- The text is read as the interfaces in their order, each under its id and with a name of its
own. -/
structure RoundTrips (nics : List VMInterface) (doc : Node) : Prop where
  read : parse (guestInterfacesConfig nics).toList = some doc
  interfaces : ∃ entries, doc.get "ethernets" = some (.map entries) ∧
    entries.map Prod.fst = nics.map (·.id) ∧ List.Forall₂ Reads nics (entries.map Prod.snd) ∧
    ∃ names : List String, names.Nodup ∧
      (entries.map fun e => e.2.get "set-name") = names.map fun name => some (.scalar .str name)

section RoundTrip

variable {nics : List VMInterface}

theorem reads_nicNode {nic : VMInterface} :
    Reads nic (nicNode nic) ↔ resolve nic.mac.toList = .str := by
  constructor
  · intro h
    have hmac : (some (.scalar (resolve nic.mac.toList) nic.mac) : Option Node) = _ := h.mac
    injection hmac with hscalar
    injection hscalar
  · intro h
    refine ⟨?_, ?_, ?_⟩
    · rw [← h]
      rfl
    · rw [nicNode, addressEntries]
      split <;> rfl
    · rw [nicNode, addressEntries]
      split <;> rfl

theorem looksSexagesimal_iff {nic : VMInterface} (h : Canonical nic.mac) :
    resolve nic.mac.toList = .str ↔
      ∀ bytes, parseMAC nic.mac = some bytes → looksSexagesimal bytes = false := by
  obtain ⟨bytes, hbytes, hmac⟩ := h
  rw [hmac, parseMAC_macString (isUnicast_length hbytes), resolve_macString hbytes]
  cases hlooks : looksSexagesimal bytes with
  | true => simpa using hlooks
  | false => simpa using hlooks

/-- The names for the guest differ, as the ids do. -/
theorem nodup_names (h : Normalised nics) : (nics.map fun nic => "lab" ++ numberOf nic).Nodup := by
  refine List.Nodup.of_map (fun name => "net" ++ trimPrefix name "lab") ?_
  have hid : ∀ nic ∈ nics, "net" ++ trimPrefix ("lab" ++ numberOf nic) "lab" = nic.id :=
    fun nic hnic => by
      obtain ⟨n, -, hid⟩ := h.numbered nic hnic
      rw [trimPrefix_append, numberOf_eq hid, hid]
  rw [List.map_map, List.map_congr_left (g := (·.id)) hid]
  exact h.ids

/-- The list of interfaces of a well-formed manifest is one. -/
theorem normalised_of_wellFormed {s : InterfaceList.Stores} {m : VMManifest}
    (h : InterfaceList.WellFormed s m nics)
    (haddresses : ∀ nic ∈ nics, ∀ address ∈ nic.addresses, cidrText address = true) :
    Normalised nics :=
  ⟨h.ids, h.numbered, h.canonical, haddresses⟩

/-- The text for the guest is read as the list of interfaces exactly where no address looks like a
number in base 60. -/
theorem guestInterfacesConfig_roundTrips (h : Normalised nics) :
    (∃ doc, RoundTrips nics doc) ↔
      ∀ nic ∈ nics, ∀ bytes, parseMAC nic.mac = some bytes → looksSexagesimal bytes = false := by
  have hparse := parse_guestInterfacesConfig h
  have hethernets : (document nics).get "ethernets" =
      some (.map (nics.map fun nic => (nic.id, nicNode nic))) := rfl
  have hall : (∀ nic ∈ nics, ∀ bytes, parseMAC nic.mac = some bytes → looksSexagesimal bytes = false) ↔
      ∀ nic ∈ nics, Reads nic (nicNode nic) :=
    forall₂_congr fun nic hnic => (looksSexagesimal_iff (h.canonical nic hnic)).symm.trans
      reads_nicNode.symm
  rw [hall]
  constructor
  · rintro ⟨doc, hread, entries, hentries, -, hreads, -⟩
    cases hread.symm.trans hparse
    rw [hethernets] at hentries
    injection hentries with hentries
    injection hentries with hentries
    rw [← hentries, List.map_map, List.forall₂_map_right_iff, List.forall₂_same] at hreads
    exact hreads
  · intro hreads
    refine ⟨document nics, hparse, _, hethernets, ?_, ?_, _, nodup_names h, ?_⟩
    · rw [List.map_map]
      rfl
    · rw [List.map_map, List.forall₂_map_right_iff, List.forall₂_same]
      exact hreads
    · rw [List.map_map, List.map_map]
      rfl

/-- An interface whose address has a letter, and one whose address has none. -/
def lettered : VMInterface :=
  { id := "net0", mac := "52:54:00:ab:cd:ef", network := "user", addresses := ["10.0.0.2/24"] }

def numeric : VMInterface := { id := "net1", mac := "52:54:00:12:34:56", network := "user" }

theorem normalised_lettered : Normalised [lettered] where
  ids := by decide
  numbered := List.forall_mem_singleton.mpr ⟨0, by decide, by decide⟩
  canonical := List.forall_mem_singleton.mpr
    ⟨[0x52, 0x54, 0, 0xab, 0xcd, 0xef], by decide, by decide⟩
  addresses := by decide

theorem normalised_numeric : Normalised [numeric] where
  ids := by decide
  numbered := List.forall_mem_singleton.mpr ⟨1, by decide, by decide⟩
  canonical := List.forall_mem_singleton.mpr
    ⟨[0x52, 0x54, 0, 0x12, 0x34, 0x56], by decide, by decide⟩
  addresses := by decide

theorem guestInterfacesConfig_roundTrips_one :
    (∃ doc, RoundTrips [lettered] doc) ∧ ¬∃ doc, RoundTrips [numeric] doc := by
  refine ⟨(guestInterfacesConfig_roundTrips normalised_lettered).mpr ?_, fun h => ?_⟩
  · refine List.forall_mem_singleton.mpr fun bytes hbytes => ?_
    have hparse : parseMAC lettered.mac = some [0x52, 0x54, 0, 0xab, 0xcd, 0xef] := by decide
    have hplain : looksSexagesimal [0x52, 0x54, 0, 0xab, 0xcd, 0xef] = false := by decide
    rwa [← Option.some.inj (hparse.symm.trans hbytes)]
  · have hparse : parseMAC numeric.mac = some [0x52, 0x54, 0, 0x12, 0x34, 0x56] := by decide
    have hlooks : looksSexagesimal [0x52, 0x54, 0, 0x12, 0x34, 0x56] = true := by decide
    have hplain := (guestInterfacesConfig_roundTrips normalised_numeric).mp h numeric
      (List.mem_singleton_self _) _ hparse
    rw [hlooks] at hplain
    cases hplain

end RoundTrip

end Maco.Engine.GuestConfig
