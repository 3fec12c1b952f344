import Mathlib.Algebra.Group.Int.Defs
import Mathlib.Algebra.Group.Nat.Defs
import Mathlib.Data.List.Nodup

/-! Descriptions of disk images as `qemu-img info` prints them, and which of them `parseStandalone`
accepts.  It decodes the same text twice, into `DiskInfo` and into plain values, and looks through
these for the name of another file. -/

namespace Maco.Image

/-- A number of a JSON text: an integer, or `m * 10 ^ e` written with a fraction or an exponent. -/
inductive Number where
  | integer (n : Int)
  | decimal (m e : Int)
  deriving DecidableEq

inductive JSON where
  | null
  | bool (b : Bool)
  | number (n : Number)
  | string (s : String)
  | array (values : List JSON)
  | object (members : List (String × JSON))

structure DiskInfo where
  format : String := ""
  virtualSize : Int := 0
  actualSize : Int := 0
  deriving DecidableEq

def maxDiskSizeGiB : Int := 65536

/-! ### `encoding/json` -/

/-- Where the parsing of a number as a `float64` overflows: halfway from the greatest one to the next
power of two. -/
def float64Limit : Int := 2 ^ 1024 - 2 ^ 970

/-- `strconv.ParseFloat` takes the number. -/
def Number.inFloat64 : Number → Bool
  | .integer n => n.natAbs < float64Limit.toNat
  | .decimal m e =>
    if 0 ≤ e then m.natAbs * 10 ^ e.toNat < float64Limit.toNat
    else m.natAbs < float64Limit.toNat * 10 ^ (-e).toNat

/-- `strconv.ParseInt` for 64 bits. -/
def Number.toInt64 : Number → Option Int
  | .integer n => if -(2 ^ 63) ≤ n ∧ n < 2 ^ 63 then some n else none
  | .decimal _ _ => none

def maxNestingDepth : Nat := 10000

mutual

/-- The nesting of arrays and objects. -/
def JSON.depth : JSON → Nat
  | .array values => valuesDepth values + 1
  | .object members => membersDepth members + 1
  | _ => 0

def valuesDepth : List JSON → Nat
  | [] => 0
  | v :: vs => max v.depth (valuesDepth vs)

def membersDepth : List (String × JSON) → Nat
  | [] => 0
  | (_, v) :: ms => max v.depth (membersDepth ms)

end

mutual

/-- Every number can be decoded into a `float64`, as the decoding into plain values does. -/
def JSON.decodable : JSON → Bool
  | .number n => n.inFloat64
  | .array values => valuesDecodable values
  | .object members => membersDecodable members
  | _ => true

def valuesDecodable : List JSON → Bool
  | [] => true
  | v :: vs => v.decodable && valuesDecodable vs

def membersDecodable : List (String × JSON) → Bool
  | [] => true
  | (_, v) :: ms => v.decodable && membersDecodable ms

end

/-- The fields of `DiskInfo`. -/
inductive Field where
  | format
  | virtualSize
  | actualSize
  deriving DecidableEq

def Field.key : Field → String
  | .format => "format"
  | .virtualSize => "virtual-size"
  | .actualSize => "actual-size"

/-- The field that a member sets: the one of its name, or else the first one whose name is the same
up to case; `fold` is `foldName`. -/
def fieldOf (fold : String → String) (key : String) : Option Field :=
  let fields := [Field.format, .virtualSize, .actualSize]
  (fields.find? fun f => f.key = key).or (fields.find? fun f => fold f.key = fold key)

/-- One member into `DiskInfo`: `null` changes nothing, and a member that is no field is passed
over. -/
def setField (info : DiskInfo) : Option Field → JSON → Option DiskInfo
  | none, _ => some info
  | some _, .null => some info
  | some .format, .string s => some { info with format := s }
  | some .virtualSize, .number n => n.toInt64.map fun size => { info with virtualSize := size }
  | some .actualSize, .number n => n.toInt64.map fun size => { info with actualSize := size }
  | some _, _ => none

def setFields (fold : String → String) (info : DiskInfo) : List (String × JSON) → Option DiskInfo
  | [] => some info
  | (key, value) :: members =>
    match setField info (fieldOf fold key) value with
    | none => none
    | some info => setFields fold info members

/-- `json.Unmarshal` into `DiskInfo`. -/
def decodeInfo (fold : String → String) (data : JSON) : Option DiskInfo :=
  if maxNestingDepth < data.depth then none
  else
    match data with
    | .null => some {}
    | .object members => setFields fold {} members
    | _ => none

/-- `json.Unmarshal` into plain values. -/
def decodeFields (data : JSON) : Option JSON :=
  if data.depth ≤ maxNestingDepth ∧ data.decodable then some data else none

/-! ### The check -/

def fileKeys : List String := ["backing-filename", "full-backing-filename", "data-file"]

/-- The value is a name, if an empty one. -/
def JSON.isEmptyName : JSON → Bool
  | .string s => s = ""
  | _ => false

mutual

/-- `hasExternalFile`.  Of several members of one name the map has the last one. -/
def hasExternalFile : JSON → Bool
  | .object members => membersExternal members
  | .array values => valuesExternal values
  | _ => false

def valuesExternal : List JSON → Bool
  | [] => false
  | v :: vs => hasExternalFile v || valuesExternal vs

def membersExternal : List (String × JSON) → Bool
  | [] => false
  | (key, child) :: ms =>
    (!(ms.map Prod.fst).contains key &&
        (fileKeys.contains key && !child.isEmptyName || hasExternalFile child)) ||
      membersExternal ms

end

def parseStandalone (fold : String → String) (data : JSON) : Except String DiskInfo :=
  match decodeInfo fold data with
  | none => .error "json"
  | some info =>
    if info.format ≠ "qcow2" ∧ info.format ≠ "raw" then
      .error "only raw and qcow2 images are supported"
    else if info.virtualSize ≤ 0 ∨ info.virtualSize > maxDiskSizeGiB * 2 ^ 30 then
      .error "image capacity must be between 1 byte and 65536 GiB"
    else
      match decodeFields data with
      | none => .error "json"
      | some fields =>
        if hasExternalFile fields then
          .error "images with backing files or external data files are not supported"
        else .ok info

/-! ### Places in a description -/

/-- The value is the description, or it stands in it at some depth. -/
inductive Within (value : JSON) : JSON → Prop
  | here : Within value value
  | element {v : JSON} {values : List JSON} :
      v ∈ values → Within value v → Within value (.array values)
  | member {m : String × JSON} {members : List (String × JSON)} :
      m ∈ members → Within value m.2 → Within value (.object members)

/-- Every value of the description, at any depth, satisfies `P`. -/
def Throughout (P : JSON → Prop) (data : JSON) : Prop := ∀ value, Within value data → P value

/-- An object has no two members of one name, up to case. -/
def JSON.distinctNames (fold : String → String) : JSON → Prop
  | .object members => (members.map fun m => fold m.1).Nodup
  | _ => True

/-- An object does not name another file. -/
def JSON.selfContained : JSON → Prop
  | .object members => ∀ m ∈ members, m.1 ∈ fileKeys → m.2 = .string ""
  | _ => True

/-- A number is in the range of a `float64`. -/
def JSON.inRange : JSON → Prop
  | .number n => n.inFloat64 = true
  | _ => True

section Places

variable {P : JSON → Prop} {values : List JSON} {members : List (String × JSON)} {data : JSON}

/-- A fact that holds of a container where it holds of what is in it. -/
theorem JSON.induct (hnull : P .null) (hbool : ∀ b, P (.bool b)) (hnumber : ∀ n, P (.number n))
    (hstring : ∀ s, P (.string s)) (harray : ∀ vs, (∀ v ∈ vs, P v) → P (.array vs))
    (hobject : ∀ ms : List (String × JSON), (∀ m ∈ ms, P m.2) → P (.object ms)) (data : JSON) :
    P data := by
  refine @JSON.rec P (fun vs => ∀ v ∈ vs, P v) (fun ms => ∀ m ∈ ms, P m.2) (fun m => P m.2)
    hnull hbool hnumber hstring harray hobject nofun ?_ nofun ?_ (fun _ _ h => h) data
  · intro v vs hv hvs w hw
    rcases List.mem_cons.mp hw with rfl | hw
    · exact hv
    · exact hvs w hw
  · intro m ms hm hms w hw
    rcases List.mem_cons.mp hw with rfl | hw
    · exact hm
    · exact hms w hw

theorem throughout_array :
    Throughout P (.array values) ↔ P (.array values) ∧ ∀ v ∈ values, Throughout P v := by
  constructor
  · intro h
    exact ⟨h _ .here, fun v hv w hw => h w (.element hv hw)⟩
  · rintro ⟨hhere, hin⟩ w hw
    cases hw with
    | here => exact hhere
    | element hv hw => exact hin _ hv w hw

theorem throughout_object :
    Throughout P (.object members) ↔ P (.object members) ∧ ∀ m ∈ members, Throughout P m.2 := by
  constructor
  · intro h
    exact ⟨h _ .here, fun m hm w hw => h w (.member hm hw)⟩
  · rintro ⟨hhere, hin⟩ w hw
    cases hw with
    | here => exact hhere
    | member hm hw => exact hin _ hm w hw

/-- A value that contains none. -/
theorem throughout_leaf (harray : ∀ vs, data ≠ .array vs) (hobject : ∀ ms, data ≠ .object ms) :
    Throughout P data ↔ P data := by
  constructor
  · exact fun h => h _ .here
  · intro h w hw
    cases hw with
    | here => exact h
    | element _ _ => exact absurd rfl (harray _)
    | member _ _ => exact absurd rfl (hobject _)

theorem valuesDecodable_iff : valuesDecodable values = true ↔ ∀ v ∈ values, v.decodable = true := by
  induction values with
  | nil => simp [valuesDecodable]
  | cons v vs ih => simp [valuesDecodable, ih]

theorem membersDecodable_iff :
    membersDecodable members = true ↔ ∀ m ∈ members, m.2.decodable = true := by
  induction members with
  | nil => simp [membersDecodable]
  | cons m ms ih => simp [membersDecodable, ih]

/-- The decoding into plain values takes every number in range, and no other. -/
theorem decodable_iff (data : JSON) : data.decodable = true ↔ Throughout JSON.inRange data := by
  induction data using JSON.induct with
  | hnull => simp [JSON.decodable, throughout_leaf, JSON.inRange]
  | hbool b => simp [JSON.decodable, throughout_leaf, JSON.inRange]
  | hnumber n => simp [JSON.decodable, throughout_leaf, JSON.inRange]
  | hstring s => simp [JSON.decodable, throughout_leaf, JSON.inRange]
  | harray vs ih =>
    rw [JSON.decodable, valuesDecodable_iff, throughout_array]
    simp only [JSON.inRange, true_and]
    exact forall₂_congr ih
  | hobject ms ih =>
    rw [JSON.decodable, membersDecodable_iff, throughout_object]
    simp only [JSON.inRange, true_and]
    exact forall₂_congr ih

theorem valuesExternal_iff :
    valuesExternal values = false ↔ ∀ v ∈ values, hasExternalFile v = false := by
  induction values with
  | nil => simp [valuesExternal]
  | cons v vs ih => simp [valuesExternal, ih]

theorem isEmptyName_iff : data.isEmptyName = true ↔ data = .string "" := by
  cases data <;> simp [JSON.isEmptyName]

/-- Where no name comes twice, every member counts. -/
theorem membersExternal_iff (h : (members.map Prod.fst).Nodup) :
    membersExternal members = false ↔
      ∀ m ∈ members, (m.1 ∈ fileKeys → m.2 = .string "") ∧ hasExternalFile m.2 = false := by
  induction members with
  | nil => simp [membersExternal]
  | cons m ms ih =>
    rw [List.map_cons, List.nodup_cons] at h
    have hlast : (ms.map Prod.fst).contains m.1 = false := by simpa using h.1
    rw [membersExternal, hlast, List.forall_mem_cons, ← ih h.2, ← isEmptyName_iff]
    simp [Bool.or_eq_false_iff]

/-- Where no object has two members of one name, the search finds every name of another file. -/
theorem hasExternalFile_iff (fold : String → String)
    (h : Throughout (JSON.distinctNames fold) data) :
    hasExternalFile data = false ↔ Throughout JSON.selfContained data := by
  induction data using JSON.induct with
  | hnull => simp [hasExternalFile, throughout_leaf, JSON.selfContained]
  | hbool b => simp [hasExternalFile, throughout_leaf, JSON.selfContained]
  | hnumber n => simp [hasExternalFile, throughout_leaf, JSON.selfContained]
  | hstring s => simp [hasExternalFile, throughout_leaf, JSON.selfContained]
  | harray vs ih =>
    have hin := (throughout_array.mp h).2
    rw [hasExternalFile, valuesExternal_iff, throughout_array]
    simp only [JSON.selfContained, true_and]
    exact forall₂_congr fun v hv => ih v hv (hin v hv)
  | hobject ms ih =>
    obtain ⟨hnames, hin⟩ := throughout_object.mp h
    have hnodup : (ms.map Prod.fst).Nodup := by
      refine List.Nodup.of_map fold ?_
      rw [List.map_map]
      exact hnames
    rw [hasExternalFile, membersExternal_iff hnodup, throughout_object]
    simp only [JSON.selfContained]
    constructor
    · intro hall
      exact ⟨fun m hm => (hall m hm).1, fun m hm => (ih m hm (hin m hm)).mp (hall m hm).2⟩
    · rintro ⟨hfile, hrest⟩ m hm
      exact ⟨hfile m hm, (ih m hm (hin m hm)).mpr (hrest m hm)⟩

end Places

/-- Of the descriptions that decode into `DiskInfo` and have no two members of one name,
`parseStandalone` accepts those of a raw or qcow2 image of 1 byte to 65536 GiB that name no other
file at any depth and whose numbers are all in the range of a `float64`. -/
theorem parseStandalone_iff (fold : String → String) (data : JSON) (info : DiskInfo)
    (hinfo : decodeInfo fold data = some info)
    (hnames : Throughout (JSON.distinctNames fold) data) :
    (∃ info', parseStandalone fold data = .ok info') ↔
      (info.format = "raw" ∨ info.format = "qcow2") ∧
        (1 ≤ info.virtualSize ∧ info.virtualSize ≤ 65536 * 2 ^ 30) ∧
        Throughout JSON.selfContained data ∧ Throughout JSON.inRange data := by
  have hdepth : data.depth ≤ maxNestingDepth := by
    by_contra hdeep
    unfold decodeInfo at hinfo
    rw [if_pos (Nat.lt_of_not_le hdeep)] at hinfo
    cases hinfo
  rw [← hasExternalFile_iff fold hnames, ← decodable_iff, parseStandalone, hinfo]
  simp only [decodeFields, hdepth, true_and, maxDiskSizeGiB]
  by_cases hformat : info.format ≠ "qcow2" ∧ info.format ≠ "raw"
  · rw [if_pos hformat]
    exact iff_of_false nofun fun h => h.1.elim hformat.2 hformat.1
  · rw [if_neg hformat]
    by_cases hsize : info.virtualSize ≤ 0 ∨ info.virtualSize > 65536 * 2 ^ 30
    · rw [if_pos hsize]
      exact iff_of_false nofun fun h => by omega
    · rw [if_neg hsize]
      cases hdecode : data.decodable with
      | false => exact iff_of_false nofun fun h => by cases h.2.2.2
      | true =>
        cases hexternal : hasExternalFile data with
        | true =>
          simp only [if_true, hexternal]
          exact iff_of_false nofun fun h => by cases h.2.2.1
        | false =>
          simp only [if_true, hexternal]
          refine iff_of_true ⟨info, rfl⟩ ⟨?_, by omega, trivial, trivial⟩
          by_contra hnone
          exact hformat ⟨fun h => hnone (.inr h), fun h => hnone (.inl h)⟩

/-- A qcow2 image of 20 GiB, as it is described with its children. -/
def plainImage : JSON :=
  .object [("format", .string "qcow2"), ("virtual-size", .number (.integer 21474836480)),
    ("actual-size", .number (.integer 200704)),
    ("children", .array [.object [("name", .string "file"),
      ("info", .object [("format", .string "file"), ("data-file", .string "")])]])]

theorem parseStandalone_iff_plain :
    (∃ info', parseStandalone String.toLower plainImage = .ok info') ↔
      ("qcow2" = "raw" ∨ "qcow2" = "qcow2") ∧
        ((1 : Int) ≤ 21474836480 ∧ (21474836480 : Int) ≤ 65536 * 2 ^ 30) ∧
        Throughout JSON.selfContained plainImage ∧ Throughout JSON.inRange plainImage := by
  refine parseStandalone_iff String.toLower plainImage
    ⟨"qcow2", 21474836480, 200704⟩ (by decide +kernel) ?_
  simp only [plainImage, throughout_object, throughout_array, List.forall_mem_cons]
  simp only [throughout_leaf, JSON.distinctNames, ne_eq, reduceCtorEq, not_false_eq_true,
    implies_true, and_true, true_and, List.not_mem_nil, false_implies]
  decide +kernel

/-- A description with a number that no `float64` holds, in a member that `DiskInfo` has not. -/
def hugeNumber : JSON :=
  .object [("format", .string "raw"), ("virtual-size", .number (.integer 1)),
    ("extra", .number (.decimal 1 400))]

theorem parseStandalone_refuses_huge :
    ¬∀ (fold : String → String) (data : JSON) (info : DiskInfo),
      decodeInfo fold data = some info → Throughout (JSON.distinctNames fold) data →
      ((∃ info', parseStandalone fold data = .ok info') ↔
        (info.format = "raw" ∨ info.format = "qcow2") ∧
          (1 ≤ info.virtualSize ∧ info.virtualSize ≤ 65536 * 2 ^ 30) ∧
          Throughout JSON.selfContained data) := by
  intro h
  have hnames : Throughout (JSON.distinctNames String.toLower) hugeNumber := by
    simp only [hugeNumber, throughout_object, List.forall_mem_cons]
    simp only [throughout_leaf, JSON.distinctNames, ne_eq, reduceCtorEq, not_false_eq_true,
      implies_true, and_true, List.not_mem_nil, false_implies]
    decide +kernel
  have hcontained : Throughout JSON.selfContained hugeNumber :=
    (hasExternalFile_iff String.toLower hnames).mp rfl
  obtain ⟨info, hok⟩ := (h String.toLower hugeNumber ⟨"raw", 1, 0⟩ (by decide +kernel) hnames).mpr
    ⟨.inl rfl, by decide, hcontained⟩
  have hrefused : parseStandalone String.toLower hugeNumber = .error "json" := by decide +kernel
  rw [hrefused] at hok
  cases hok

end Maco.Image
