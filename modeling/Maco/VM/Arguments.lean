import Maco.VM.Boot
import Maco.Lib.OptionList

/-! What QEMU reads in the arguments of a boot, beside what `buildArgs` means by them.  No text that
`buildArgs` puts into an argument is quoted, so a comma in one ends its option. -/

namespace Maco.VM

open OptionText

/-- An option as it is meant: `set` a key to a value of no file, to the path of a `file`, or alone as
a `flag`; the first option may leave its key out, with a `kind` or a path as its value. -/
inductive Meant where
  | set (key value : String)
  | file (key path : String)
  | flag (key : String)
  | kind (key value : String)
  | first (key path : String)

def Meant.text : Meant → String
  | .set key value | .file key value => key ++ "=" ++ value
  | .flag key => key
  | .kind _ value | .first _ value => value

def Meant.key : Meant → String
  | .set key _ | .file key _ | .flag key | .kind key _ | .first key _ => key

/-- The path that the option has to be read with. -/
def Meant.path : Meant → Option String
  | .file _ path | .first _ path => some path
  | _ => none

/-- The options that QEMU reads have the keys that are meant, and the paths. -/
def Reads (os : List (String × Option String)) (ms : List Meant) : Prop :=
  List.Forall₂ (fun o m => o.1 = m.key ∧ ∀ path, m.path = some path → o.2 = some path) os ms

/-- The options as one argument. -/
def argument (ms : List Meant) : String := ",".intercalate (ms.map Meant.text)

/-- The option is read as it is meant where its path is whole. -/
def Meant.Whole : Meant → Prop
  | .file _ path => ',' ∉ path.toList
  | .first _ path => ',' ∉ path.toList ∧ '=' ∉ path.toList
  | _ => True

/-- A text that is an option's key. -/
def isKey (key : String) : Bool := key ≠ "" && key.toList.all fun c => c ≠ ',' && c ≠ '='

/-- The option may stand first, where `implied` is the key of a value alone. -/
def Meant.Leads (implied : String) : Meant → Prop
  | .set key value => isKey key = true ∧ ',' ∉ value.toList
  | .file key _ => isKey key = true
  | .flag _ => False
  | .kind key value => key = implied ∧ ',' ∉ value.toList ∧ '=' ∉ value.toList
  | .first key _ => key = implied

/-- The option may stand after another. -/
def Meant.Follows : Meant → Prop
  | .set key value => isKey key = true ∧ ',' ∉ value.toList
  | .file key _ | .flag key => isKey key = true
  | .kind _ _ | .first _ _ => False

/-! ### Reading an argument back -/

/-- A piece as an option. -/
def readPiece (p : List Char) : String × Option String :=
  (String.ofList (keyValue '=' p).1, (keyValue '=' p).2.map String.ofList)

/-- The first piece as an option. -/
def readFirst (implied : String) (p : List Char) : String × Option String :=
  match readPiece p with
  | (first, none) => (implied, some first)
  | o => o

variable {implied arg : String} {m : Meant} {ms : List Meant}

theorem decodeArg_pieces {p : List Char} {ps : List (List Char)}
    (h : pieces ',' arg.toList = p :: ps) :
    decodeArg implied arg = readFirst implied p :: ps.map readPiece := by
  rw [decodeArg, options, h]
  simp only [List.map_cons, List.map_map]
  unfold readFirst readPiece
  cases (keyValue '=' p).2 <;> rfl

theorem isKey_iff {key : String} :
    isKey key = true ↔ key.toList ≠ [] ∧ ',' ∉ key.toList ∧ '=' ∉ key.toList := by
  simp only [isKey, Bool.and_eq_true, decide_eq_true_eq, List.all_eq_true, ne_eq,
    String.toList_eq_nil_iff]
  refine and_congr_right fun _ => ⟨fun h => ⟨fun hc => (h _ hc).1 rfl, fun hc => (h _ hc).2 rfl⟩,
    fun h c hc => ⟨fun he => h.1 (he ▸ hc), fun he => h.2 (he ▸ hc)⟩⟩

/-- A value is no longer than its piece, and stands at its end. -/
theorem value_suffix {p : List Char} {value : String} (h : (readPiece p).2 = some value) :
    value.toList <:+ p := by
  simp only [readPiece, Option.map_eq_some_iff] at h
  obtain ⟨v, hv, rfl⟩ := h
  rw [String.toList_ofList]
  exact suffix_of_keyValue hv

theorem keyValue_none {p : List Char} (h : (keyValue '=' p).2 = none) : (keyValue '=' p).1 = p := by
  induction p with
  | nil => rfl
  | cons c p ih =>
    rw [keyValue] at h ⊢
    split at h
    · cases h
    · next hc =>
      rw [if_neg hc]
      exact congrArg _ (ih h)

theorem readFirst_plain {p : List Char} (h : '=' ∉ p) :
    readFirst implied p = (implied, some (String.ofList p)) := by
  simp [readFirst, readPiece, keyValue_plain h]

theorem readFirst_set {key value : String} (h : isKey key = true) :
    readFirst implied (key ++ "=" ++ value).toList = (key, some value) := by
  have hsplit : (key ++ "=" ++ value).toList = key.toList ++ '=' :: value.toList := by simp
  rw [readFirst, readPiece, hsplit, keyValue_append (isKey_iff.mp h).2.2]
  simp

theorem readPiece_set {key value : String} (h : isKey key = true) :
    readPiece (key ++ "=" ++ value).toList = (key, some value) := by
  have hsplit : (key ++ "=" ++ value).toList = key.toList ++ '=' :: value.toList := by simp
  rw [readPiece, hsplit, keyValue_append (isKey_iff.mp h).2.2]
  simp

theorem readPiece_key {key : String} (h : isKey key = true) :
    readPiece key.toList = (key, none) := by
  simp [readPiece, keyValue_plain (isKey_iff.mp h).2.2]

theorem first_suffix {p : List Char} {value : String} (h : (readFirst implied p).2 = some value) :
    value.toList <:+ p := by
  rw [readFirst] at h
  split at h
  next first hp =>
    have hnone : (keyValue '=' p).2 = none := by
      have := congrArg Prod.snd hp
      simpa [readPiece] using this
    have hfirst : p = first.toList := by
      have := congrArg Prod.fst hp
      simp only [readPiece, keyValue_none hnone] at this
      rw [← this, String.toList_ofList]
    obtain rfl : first = value := by simpa using h
    rw [hfirst]
  next => exact value_suffix h

/-! ### Whole paths -/

theorem Meant.Follows.reads (hm : m.Follows) (hw : m.Whole) :
    ',' ∉ m.text.toList ∧ (readPiece m.text.toList).1 = m.key ∧
      ∀ path, m.path = some path → (readPiece m.text.toList).2 = some path := by
  cases m with
  | set key value =>
    have hkey := isKey_iff.mp hm.1
    refine ⟨by simp [Meant.text, hkey.2.1, hm.2], ?_, by simp [Meant.path]⟩
    rw [Meant.text, readPiece_set hm.1]
    rfl
  | file key path =>
    have hkey := isKey_iff.mp hm
    refine ⟨by simp [Meant.text, hkey.2.1]; exact hw, ?_⟩
    rw [Meant.text, readPiece_set hm]
    exact ⟨rfl, fun p hp => hp⟩
  | flag key =>
    have hkey := isKey_iff.mp hm
    exact ⟨hkey.2.1, congrArg Prod.fst (readPiece_key hm), by simp [Meant.path]⟩
  | kind key value | first key path => exact hm.elim

theorem Meant.Leads.reads (hm : m.Leads implied) (hw : m.Whole) :
    ',' ∉ m.text.toList ∧ (readFirst implied m.text.toList).1 = m.key ∧
      ∀ path, m.path = some path → (readFirst implied m.text.toList).2 = some path := by
  cases m with
  | set key value =>
    have hkey := isKey_iff.mp hm.1
    refine ⟨by simp [Meant.text, hkey.2.1, hm.2], ?_, by simp [Meant.path]⟩
    rw [Meant.text, readFirst_set hm.1]
    rfl
  | file key path =>
    have hkey := isKey_iff.mp hm
    refine ⟨by simp [Meant.text, hkey.2.1]; exact hw, ?_⟩
    rw [Meant.text, readFirst_set hm]
    exact ⟨rfl, fun p hp => hp⟩
  | flag key => exact hm.elim
  | kind key value =>
    refine ⟨hm.2.1, ?_, by simp [Meant.path]⟩
    rw [Meant.text, readFirst_plain hm.2.2]
    exact hm.1.symm
  | first key path =>
    refine ⟨hw.1, ?_⟩
    rw [Meant.text, readFirst_plain hw.2, String.ofList_toList]
    exact ⟨hm.symm, fun p hp => hp⟩

/-- An option that is read as it is meant has no fewer commas in its piece than were put in. -/
theorem Meant.Follows.count_le {q : List Char} (hm : m.Follows)
    (h : ∀ path, m.path = some path → path.toList <:+ q) :
    m.text.toList.count ',' ≤ q.count ',' := by
  cases m with
  | set key value =>
    have hplain : ',' ∉ (Meant.set key value).text.toList := by
      simp [Meant.text, (isKey_iff.mp hm.1).2.1, hm.2]
    rw [List.count_eq_zero.mpr hplain]
    exact Nat.zero_le _
  | file key path =>
    have hkey := List.count_eq_zero.mpr (isKey_iff.mp hm).2.1
    have hpath := (h path rfl).sublist.count_le ','
    simp only [Meant.text, String.toList_append, List.count_append, hkey]
    simpa using hpath
  | flag key =>
    rw [show (Meant.flag key).text = key from rfl, List.count_eq_zero.mpr (isKey_iff.mp hm).2.1]
    exact Nat.zero_le _
  | kind key value | first key path => exact hm.elim

theorem Meant.Leads.count_le {q : List Char} (hm : m.Leads implied)
    (h : ∀ path, m.path = some path → path.toList <:+ q) :
    m.text.toList.count ',' ≤ q.count ',' := by
  cases m with
  | set key value => exact Follows.count_le hm h
  | file key path => exact Follows.count_le hm h
  | flag key => exact hm.elim
  | kind key value =>
    rw [show (Meant.kind key value).text = value from rfl, List.count_eq_zero.mpr hm.2.1]
    exact Nat.zero_le _
  | first key path => exact (h path rfl).sublist.count_le ','

/-- A value is shorter than the piece that it is set in. -/
theorem value_length {p v : List Char} (h : (keyValue '=' p).2 = some v) : v.length < p.length := by
  induction p with
  | nil => cases h
  | cons c p ih =>
    rw [keyValue] at h
    split at h
    · obtain rfl : p = v := by simpa using h
      exact Nat.lt_succ_self _
    · exact Nat.lt_succ_of_lt (ih h)

theorem plain_of_keyValue {p : List Char} (h : (keyValue '=' p).2 = none) : '=' ∉ p := by
  induction p with
  | nil => simp
  | cons c p ih =>
    rw [keyValue] at h
    split at h
    · cases h
    · next hc => exact List.not_mem_cons_of_ne_of_not_mem (Ne.symm hc) (ih h)

/-- A path that stands alone is read whole only without a sign that would end its key. -/
theorem plain_of_readFirst {path : String} (h : (readFirst implied path.toList).2 = some path) :
    '=' ∉ path.toList := by
  rw [readFirst] at h
  split at h
  next first hp =>
    have := congrArg Prod.snd hp
    exact plain_of_keyValue (by simpa [readPiece] using this)
  next =>
    simp only [readPiece, Option.map_eq_some_iff] at h
    obtain ⟨v, hv, hpath⟩ := h
    have := value_length hv
    rw [← hpath, String.toList_ofList] at this
    exact absurd this (Nat.lt_irrefl _)

theorem Meant.Follows.whole (hm : m.Follows) (h : ',' ∉ m.text.toList) : m.Whole := by
  cases m with
  | set key value | flag key => trivial
  | file key path =>
    simp only [Meant.text, String.toList_append, List.mem_append, not_or] at h
    exact h.2
  | kind key value | first key path => exact hm.elim

theorem Meant.Leads.whole (hm : m.Leads implied) (h : ',' ∉ m.text.toList)
    (hpath : ∀ path, m.path = some path → (readFirst implied m.text.toList).2 = some path) :
    m.Whole := by
  cases m with
  | set key value | kind key value => trivial
  | file key path => exact Follows.whole hm h
  | flag key => exact hm.elim
  | first key path => exact ⟨h, plain_of_readFirst (hpath path rfl)⟩

theorem Meant.Follows.text_ne (hm : m.Follows) : m.text.toList ≠ [] := by
  cases m with
  | set key value | file key path => simp [Meant.text]
  | flag key => exact (isKey_iff.mp hm).1
  | kind key value | first key path => exact hm.elim

/-- An argument is read as it is meant exactly where every path in it is whole. -/
theorem reads_argument_iff (hm : m.Leads implied) (hms : ∀ o ∈ ms, o.Follows) :
    Reads (decodeArg implied (argument (m :: ms))) (m :: ms) ↔ ∀ o ∈ m :: ms, o.Whole := by
  have htext : (argument (m :: ms)).toList =
      [','].intercalate (m.text.toList :: ms.map fun o => o.text.toList) := by
    simp [argument, String.toList_intercalate, Function.comp_def]
  obtain ⟨p, ps, hpieces⟩ := List.exists_cons_of_ne_nil (pieces_ne_nil ',' (argument (m :: ms)).toList)
  rw [decodeArg_pieces hpieces, Reads, List.forall₂_cons, List.forall₂_map_left_iff]
  rw [htext] at hpieces
  constructor
  · rintro ⟨⟨-, hfirst⟩, hrest⟩
    have hplain : ∀ t ∈ m.text.toList :: ms.map fun o => o.text.toList, ',' ∉ t := by
      refine not_mem_of_pieces ?_
      rw [hpieces, List.forall₂_cons, List.forall₂_map_right_iff]
      exact ⟨hm.count_le fun path hp => first_suffix (hfirst path hp), forall₂_imp_mem hrest
        fun q o ho hread => (hms o ho).count_le fun path hp => value_suffix (hread.2 path hp)⟩
    intro o ho
    rcases List.mem_cons.mp ho with rfl | ho
    · have htail : ∀ q ∈ ms.map fun o => o.text.toList, ',' ∉ q ∧ q ≠ [] := by
        intro q hq
        obtain ⟨o', ho', rfl⟩ := List.mem_map.mp hq
        exact ⟨hplain _ (List.mem_cons_of_mem _ hq), (hms o' ho').text_ne⟩
      rw [pieces_intercalate (hplain _ List.mem_cons_self) htail, List.cons.injEq] at hpieces
      exact hm.whole (hplain _ List.mem_cons_self) (hpieces.1 ▸ hfirst)
    · exact (hms o ho).whole (hplain _ (List.mem_cons_of_mem _ (List.mem_map_of_mem ho)))
  · intro hwhole
    have htail := fun o ho => (hms o ho).reads (hwhole o (List.mem_cons_of_mem m ho))
    have hlead := hm.reads (hwhole m List.mem_cons_self)
    rw [pieces_intercalate hlead.1 fun q hq => ?_, List.cons.injEq] at hpieces
    · obtain ⟨rfl, rfl⟩ := hpieces
      refine ⟨hlead.2, ?_⟩
      rw [List.forall₂_map_left_iff, List.forall₂_same]
      exact fun o ho => (htail o ho).2
    · obtain ⟨o, ho, rfl⟩ := List.mem_map.mp hq
      exact ⟨(htail o ho).1, (hms o ho).text_ne⟩

/-! ### The arguments of a boot -/

/-- The flags whose values are options. -/
def optionFlags : List String := ["-drive", "-chardev", "-netdev", "-qmp"]

/-- The arguments that are options, each with its flag. -/
def optionArgs : List String → List (String × String)
  | flag :: value :: args =>
    if flag ∈ optionFlags then (flag, value) :: optionArgs args else optionArgs args
  | _ => []

/-- What QEMU reads in a value; the socket of a monitor is named after `unix:`. -/
def readArg (flag value : String) : List (String × Option String) :=
  if flag = "-chardev" then decodeArg "backend" value
  else if flag = "-netdev" then decodeArg "type" value
  else if flag = "-qmp" then decodeArg "path" (String.ofList (value.toList.drop 5))
  else decodeArg "" value

def netdevMeant (nic : InterfaceSpec) : List Meant :=
  match nic.network with
  | .bridge => [.kind "type" "stream", .set "id" nic.id, .set "server" "off",
      .set "addr.type" "unix", .file "addr.path" nic.socket]
  | .switch => [.kind "type" "socket", .set "id" nic.id, .set "mcast" nic.group]
  | .vmnetBridged => [.kind "type" "vmnet-bridged", .set "id" nic.id, .set "ifname" nic.uplink]
  | _ => [.kind "type" nic.network.name, .set "id" nic.id]

def isoMeant (q : DriverTexts) (iso : DiskSpec) : List Meant :=
  [.set "if" "none", .set "id" (q.diskNodeName iso.id), .set "format" "raw", .set "readonly" "on",
    .file "file" iso.path]

def diskMeant (q : DriverTexts) (disk : DiskSpec) : List Meant :=
  [.set "if" "none", .set "id" (q.diskNodeName disk.id), .set "format" "qcow2",
    .file "file" disk.path]

/-- The drives of the machine itself. -/
def machineMeant (s : Spec) : List (String × List Meant) :=
  [("-drive", [.set "if" "pflash", .set "format" "raw", .set "readonly" "on",
      .file "file" s.firmware]),
    ("-drive", [.set "if" "none", .set "id" "bootdisk", .set "format" "qcow2",
      .file "file" s.diskPath])]

def seedMeant (s : Spec) : List (String × List Meant) :=
  if s.seedPath = "" then []
  else [("-drive", [.set "if" "virtio", .set "format" "raw", .file "file" s.seedPath])]

/-- The sockets and the log in the run directory. -/
def consoleMeant (q : DriverTexts) (runDir : String) : List (String × List Meant) :=
  [("-chardev", [.kind "backend" "socket", .set "id" "serial0",
      .file "path" (q.join runDir "console.sock"), .set "server" "on", .set "wait" "off",
      .file "logfile" (q.join runDir "serial.log")]),
    ("-qmp", [.first "path" (q.join runDir "qmp.sock"), .flag "server", .flag "nowait"]),
    ("-chardev", [.kind "backend" "socket", .file "path" (q.join runDir "guest-agent.sock"),
      .set "server" "on", .set "wait" "off", .set "id" "qga0"])]

/-- What the options of a boot are to say, argument by argument. -/
def meantArgs (q : DriverTexts) (runDir : String) (s : Spec) : List (String × List Meant) :=
  machineMeant s ++ (seedMeant s ++ (s.isos.map (fun iso => ("-drive", isoMeant q iso)) ++
    (s.disks.map (fun disk => ("-drive", diskMeant q disk)) ++
      (s.interfaces.map (fun nic => ("-netdev", netdevMeant nic)) ++ consoleMeant q runDir))))

/-- QEMU reads an argument as it is meant. -/
def ReadArg (arg : String × String) (meant : String × List Meant) : Prop :=
  arg.1 = meant.1 ∧ Reads (readArg arg.1 arg.2) meant.2

/-- QEMU reads all options of the arguments as they are meant. -/
def PathsDecode (q : DriverTexts) (runDir : String) (s : Spec) (args : List String) : Prop :=
  List.Forall₂ ReadArg (optionArgs args) (meantArgs q runDir s)

/-- The value of an option that is one, however it is written. -/
def oneOption (value : String) : Bool := (pieces ',' value.toList).length = 1

/-- What the back end of an interface takes from outside stays one option; a socket's path has also
to keep the name `net0` that it may have in it. -/
def InterfaceSpec.Whole (nic : InterfaceSpec) : Prop :=
  match nic.network with
  | .bridge => (nic.id = "net0" ∨ ¬"net0".toList <:+: nic.socket.toList) ∧ ',' ∉ nic.socket.toList
  | .switch => oneOption (stringsReplaceAll nic.group "net0" nic.id) = true
  | .vmnetBridged => oneOption (stringsReplaceAll nic.uplink "net0" nic.id) = true
  | _ => True

/-- No path has a comma in it, nor the monitor's a sign that would end a key. -/
structure WholePaths (q : DriverTexts) (runDir : String) (s : Spec) : Prop where
  machine : ∀ path ∈ [s.firmware, s.diskPath, s.seedPath], ',' ∉ path.toList
  disks : ∀ disk ∈ s.isos ++ s.disks, ',' ∉ disk.path.toList
  run : ∀ name ∈ ["console.sock", "serial.log", "qmp.sock", "guest-agent.sock"],
    ',' ∉ (q.join runDir name).toList
  monitor : '=' ∉ (q.join runDir "qmp.sock").toList
  interfaces : ∀ nic ∈ s.interfaces, nic.Whole

/-! ### Which arguments there are -/

section Arguments

variable {q : DriverTexts} {runDir : String} {s : Spec} {nic : InterfaceSpec}

theorem optionArgs_append : ∀ {a b : List String}, a.length % 2 = 0 →
    optionArgs (a ++ b) = optionArgs a ++ optionArgs b
  | [], b, _ => rfl
  | [x], _, h => by simp at h
  | flag :: value :: a, b, h => by
    have ih := optionArgs_append (a := a) (b := b) (by simp only [List.length_cons] at h; omega)
    simp only [List.cons_append, optionArgs, ih]
    split <;> rfl

theorem optionArgs_flatMap {β : Type} {f : β → List String} (h : ∀ x, (f x).length % 2 = 0)
    (l : List β) : optionArgs (l.flatMap f) = l.flatMap (fun x => optionArgs (f x)) ∧
      (l.flatMap f).length % 2 = 0 := by
  induction l with
  | nil => exact ⟨rfl, rfl⟩
  | cons x l ih =>
    have hx := h x
    rw [List.flatMap_cons, optionArgs_append hx, ih.1, List.length_append]
    exact ⟨rfl, by omega⟩

theorem optionArgs_networkPortArgs :
    optionArgs networkPortArgs = [] ∧ networkPortArgs.length % 2 = 0 := by
  unfold networkPortArgs
  have hports := optionArgs_flatMap (f := fun i : Nat => ["-device",
    "pcie-root-port,id=" ++ networkBus ("net" ++ toString i) ++ ",bus=pcie.0,addr=0x" ++
      String.ofList (Nat.toDigits 16 (16 + i / 8)) ++ "." ++ toString (i % 8) ++ ",chassis=" ++
      toString (i + 1) ++ ",slot=" ++ toString (i + 1) ++ ",port=" ++ toString (i + 1) ++
      ",io-reserve=0" ++ if i % 8 = 0 then ",multifunction=on" else ""]) (fun _ => by simp)
    (List.range 32)
  refine ⟨hports.1.trans ?_, hports.2⟩
  exact List.flatMap_eq_nil_iff.mpr fun i _ => rfl

/-- The back end of an interface before it is named. -/
def templateNetdev (nic : InterfaceSpec) : String :=
  match nic.network with
  | .bridge => "stream,id=net0,server=off,addr.type=unix,addr.path=" ++ nic.socket
  | .switch => "socket,id=net0,mcast=" ++ nic.group
  | .vmnetBridged => "vmnet-bridged,id=net0,ifname=" ++ nic.uplink
  | _ => nic.network.name ++ ",id=net0"

/-- The back end of an interface as it is written. -/
def netdevArg (nic : InterfaceSpec) : String := stringsReplaceAll (templateNetdev nic) "net0" nic.id

theorem templateArgs_netdev {args : List String} (h : templateArgs nic = .ok args) :
    (∃ device, args = ["-netdev", templateNetdev nic, "-device", device]) ∧
      ∀ name, nic.network ≠ .other name := by
  unfold templateArgs at h
  unfold templateNetdev
  split at h
  case h_1 hm | h_4 hm | h_5 hm =>
    cases h
    rw [hm]
    exact ⟨⟨_, rfl⟩, by simp⟩
  case h_2 hm | h_3 hm | h_6 hm =>
    split at h
    · cases h
    · cases h
      rw [hm]
      exact ⟨⟨_, rfl⟩, by simp⟩
  case h_7 => cases h

theorem networkArgs_netdev {args : List String} (h : networkArgs nic = .ok args) :
    optionArgs args = [("-netdev", netdevArg nic)] ∧ args.length % 2 = 0 ∧
      ∀ name, nic.network ≠ .other name := by
  unfold networkArgs at h
  cases htemplate : templateArgs nic with
  | error e =>
    rw [htemplate] at h
    cases h
  | ok template =>
    rw [htemplate] at h
    obtain ⟨⟨device, rfl⟩, hmode⟩ := templateArgs_netdev htemplate
    have hcomma : ',' ∈ (templateNetdev nic).toList := by
      unfold templateNetdev
      split <;> simp
    cases h
    rw [nameArgs_pair hcomma]
    exact ⟨rfl, by simp, hmode⟩

/-- The interface with its own address. -/
def Spec.addressed (q : DriverTexts) (s : Spec) (nic : InterfaceSpec) : InterfaceSpec :=
  { nic with mac := if nic.mac = "" then interfaceMAC q.mac s.id nic.id else nic.mac }

theorem mapM_networkArgs {nics : List InterfaceSpec} {args : List (List String)}
    (h : nics.mapM (fun nic => networkArgs (s.addressed q nic)) = .ok args) :
    optionArgs args.flatten = nics.map (fun nic => ("-netdev", netdevArg nic)) ∧
      args.flatten.length % 2 = 0 ∧ ∀ nic ∈ nics, ∀ name, nic.network ≠ .other name := by
  induction nics generalizing args with
  | nil =>
    cases h
    exact ⟨rfl, rfl, by simp⟩
  | cons nic nics ih =>
    rw [List.mapM_cons] at h
    cases hfirst : networkArgs (s.addressed q nic) with
    | error e =>
      rw [hfirst] at h
      cases h
    | ok first =>
      cases hrest : nics.mapM fun nic => networkArgs (s.addressed q nic) with
      | error e =>
        rw [hfirst, hrest] at h
        cases h
      | ok rest =>
        rw [hfirst, hrest] at h
        cases h
        obtain ⟨hargs, heven, hmode⟩ := networkArgs_netdev hfirst
        obtain ⟨ihargs, iheven, ihmode⟩ := ih hrest
        rw [List.flatten_cons, optionArgs_append heven, hargs, ihargs, List.length_append]
        refine ⟨rfl, by omega, fun other hother => ?_⟩
        rcases List.mem_cons.mp hother with rfl | hother
        · exact hmode
        · exact ihmode other hother

theorem interfaceArgs_netdev {nics : List String} (h : interfaceArgs q s = .ok nics) :
    optionArgs nics = s.interfaces.map (fun nic => ("-netdev", netdevArg nic)) ∧
      nics.length % 2 = 0 ∧ ∀ nic ∈ s.interfaces, ∀ name, nic.network ≠ .other name := by
  unfold interfaceArgs at h
  cases hargs : s.interfaces.mapM fun nic => networkArgs (s.addressed q nic) with
  | error e =>
    simp only [Spec.addressed] at hargs
    rw [hargs] at h
    cases h
  | ok args =>
    have hall := mapM_networkArgs hargs
    simp only [Spec.addressed] at hargs
    rw [hargs] at h
    cases h
    exact hall

/-- The options of the arguments that are built. -/
theorem optionArgs_buildArgs {args : List String} (h : buildArgs q runDir s = .ok args) :
    optionArgs args = optionArgs (machineArgs s) ++
        (optionArgs (if s.seedPath = "" then []
          else ["-drive", "if=virtio,format=raw,file=" ++ s.seedPath]) ++
        (s.isos.flatMap (fun iso => optionArgs (isoArgs q s iso)) ++
        (s.disks.flatMap (fun disk => optionArgs (diskArgs q s disk)) ++
        (s.interfaces.map (fun nic => ("-netdev", netdevArg nic)) ++
          optionArgs (consoleArgs q runDir))))) ∧
      ∀ nic ∈ s.interfaces, ∀ name, nic.network ≠ .other name := by
  unfold buildArgs at h
  split at h
  · cases h
  split at h
  · cases h
  split at h
  · cases h
  next nics hnics =>
  obtain ⟨hargs, heven, hmode⟩ := interfaceArgs_netdev hnics
  have hisos := optionArgs_flatMap (f := isoArgs q s) (fun _ => by simp [isoArgs]) s.isos
  have hdisks := optionArgs_flatMap (f := diskArgs q s) (fun _ => by simp [diskArgs]) s.disks
  have hseed : (if s.seedPath = "" then []
      else ["-drive", "if=virtio,format=raw,file=" ++ s.seedPath]).length % 2 = 0 := by
    split <;> simp
  cases h
  simp only [List.append_assoc]
  rw [optionArgs_append (by simp [machineArgs]), optionArgs_append (by simp),
    optionArgs_append hseed, optionArgs_append (by simp), optionArgs_append hisos.2,
    optionArgs_append hdisks.2, optionArgs_append optionArgs_networkPortArgs.2,
    optionArgs_append heven, hisos.1, hdisks.1, optionArgs_networkPortArgs.1, hargs]
  exact ⟨rfl, hmode⟩

/-! ### How they are read -/

theorem readArg_drive (value : String) : readArg "-drive" value = decodeArg "" value := by
  rw [readArg, if_neg (by decide), if_neg (by decide), if_neg (by decide)]

theorem readArg_chardev (value : String) : readArg "-chardev" value = decodeArg "backend" value :=
  if_pos rfl

theorem readArg_netdev (value : String) : readArg "-netdev" value = decodeArg "type" value := by
  rw [readArg, if_neg (by decide), if_pos rfl]

theorem readArg_qmp (value : String) :
    readArg "-qmp" ("unix:" ++ value) = decodeArg "path" value := by
  rw [readArg, if_neg (by decide), if_neg (by decide), if_pos rfl]
  congr 1
  rw [← String.toList_inj]
  simp

theorem readArg_iff {flag value : String}
    (hread : readArg flag value = decodeArg implied (argument (m :: ms))) (hm : m.Leads implied)
    (hms : ∀ o ∈ ms, o.Follows) :
    ReadArg (flag, value) (flag, m :: ms) ↔ ∀ o ∈ m :: ms, o.Whole := by
  rw [ReadArg, hread, reads_argument_iff hm hms]
  exact and_iff_right rfl

/-- A drive is read as it is meant where the path of its file is whole. -/
theorem readArg_drive_iff (first : String × String) (os : List (String × String)) (path : String)
    {value : String} (hvalue : value = argument (.set first.1 first.2 ::
      (os.map (fun o => Meant.set o.1 o.2) ++ [.file "file" path])))
    (hos : ∀ o ∈ first :: os, isKey o.1 = true ∧ ',' ∉ o.2.toList) :
    ReadArg ("-drive", value) ("-drive", .set first.1 first.2 ::
      (os.map (fun o => Meant.set o.1 o.2) ++ [.file "file" path])) ↔ ',' ∉ path.toList := by
  have hlead : (Meant.set first.1 first.2).Leads "" := hos first List.mem_cons_self
  have hfollow : ∀ o ∈ os.map (fun o => Meant.set o.1 o.2) ++ [.file "file" path], o.Follows := by
    intro o ho
    simp only [List.mem_append, List.mem_map, List.mem_singleton] at ho
    rcases ho with ⟨o, ho, rfl⟩ | rfl
    · exact hos o (List.mem_cons_of_mem _ ho)
    · exact (by decide : isKey "file" = true)
  rw [readArg_iff ((readArg_drive value).trans (by rw [hvalue])) hlead hfollow]
  constructor
  · intro h
    exact h (.file "file" path) (by simp)
  · intro hpath o ho
    simp only [List.mem_cons, List.mem_append, List.mem_map, List.not_mem_nil, or_false] at ho
    rcases ho with rfl | ⟨o, -, rfl⟩ | rfl
    · trivial
    · trivial
    · exact hpath

theorem machine_reads_iff : List.Forall₂ ReadArg (optionArgs (machineArgs s)) (machineMeant s) ↔
    ',' ∉ s.firmware.toList ∧ ',' ∉ s.diskPath.toList := by
  have hoptions : optionArgs (machineArgs s) =
      [("-drive", "if=pflash,format=raw,readonly=on,file=" ++ s.firmware),
        ("-drive", "if=none,id=bootdisk,format=qcow2,file=" ++ s.diskPath)] := by
    simp [optionArgs, machineArgs, optionFlags]
  have hfirmware : ReadArg ("-drive", "if=pflash,format=raw,readonly=on,file=" ++ s.firmware) _ ↔ _ :=
    readArg_drive_iff ("if", "pflash") [("format", "raw"), ("readonly", "on")] s.firmware
      (by rw [← String.toList_inj]; simp [argument, Meant.text]) (by decide)
  have hdisk : ReadArg ("-drive", "if=none,id=bootdisk,format=qcow2,file=" ++ s.diskPath) _ ↔ _ :=
    readArg_drive_iff ("if", "none") [("id", "bootdisk"), ("format", "qcow2")] s.diskPath
      (by rw [← String.toList_inj]; simp [argument, Meant.text]) (by decide)
  rw [hoptions, machineMeant, List.forall₂_cons, List.forall₂_cons]
  exact and_congr hfirmware ((and_iff_left .nil).trans hdisk)

theorem seed_reads_iff : List.Forall₂ ReadArg (optionArgs (if s.seedPath = "" then []
    else ["-drive", "if=virtio,format=raw,file=" ++ s.seedPath])) (seedMeant s) ↔
    ',' ∉ s.seedPath.toList := by
  unfold seedMeant
  by_cases hseed : s.seedPath = ""
  · simp [hseed, optionArgs]
  rw [if_neg hseed, if_neg hseed]
  have hread : ReadArg ("-drive", "if=virtio,format=raw,file=" ++ s.seedPath) _ ↔ _ :=
    readArg_drive_iff ("if", "virtio") [("format", "raw")] s.seedPath
      (by rw [← String.toList_inj]; simp [argument, Meant.text]) (by decide)
  have hoptions : optionArgs ["-drive", "if=virtio,format=raw,file=" ++ s.seedPath] =
      [("-drive", "if=virtio,format=raw,file=" ++ s.seedPath)] := by
    simp [optionArgs, optionFlags]
  rw [hoptions, List.forall₂_cons]
  exact (and_iff_left .nil).trans hread

theorem isos_read_iff (hnode : ∀ id, ',' ∉ (q.diskNodeName id).toList) :
    List.Forall₂ ReadArg (s.isos.flatMap fun iso => optionArgs (isoArgs q s iso))
        (s.isos.map fun iso => ("-drive", isoMeant q iso)) ↔
      ∀ iso ∈ s.isos, ',' ∉ iso.path.toList := by
  have hoptions : ∀ iso, optionArgs (isoArgs q s iso) = [("-drive", "if=none,id=" ++
      q.diskNodeName iso.id ++ ",format=raw,readonly=on,file=" ++ iso.path)] := fun iso => by
    simp [optionArgs, isoArgs, optionFlags]
  simp only [hoptions]
  rw [← List.map_eq_flatMap, List.forall₂_map_left_iff, List.forall₂_map_right_iff,
    List.forall₂_same]
  refine forall₂_congr fun iso _ => ?_
  refine readArg_drive_iff ("if", "none")
    [("id", q.diskNodeName iso.id), ("format", "raw"), ("readonly", "on")] iso.path
    (by rw [← String.toList_inj]; simp [argument, Meant.text]) ?_
  simp only [List.mem_cons, List.not_mem_nil, or_false]
  rintro o (rfl | rfl | rfl | rfl)
  · decide
  · exact ⟨(by decide : isKey "id" = true), hnode iso.id⟩
  · decide
  · decide

theorem disks_read_iff (hnode : ∀ id, ',' ∉ (q.diskNodeName id).toList) :
    List.Forall₂ ReadArg (s.disks.flatMap fun disk => optionArgs (diskArgs q s disk))
        (s.disks.map fun disk => ("-drive", diskMeant q disk)) ↔
      ∀ disk ∈ s.disks, ',' ∉ disk.path.toList := by
  have hoptions : ∀ disk, optionArgs (diskArgs q s disk) = [("-drive", "if=none,id=" ++
      q.diskNodeName disk.id ++ ",format=qcow2,file=" ++ disk.path)] := fun disk => by
    simp [optionArgs, diskArgs, optionFlags]
  simp only [hoptions]
  rw [← List.map_eq_flatMap, List.forall₂_map_left_iff, List.forall₂_map_right_iff,
    List.forall₂_same]
  refine forall₂_congr fun disk _ => ?_
  refine readArg_drive_iff ("if", "none")
    [("id", q.diskNodeName disk.id), ("format", "qcow2")] disk.path
    (by rw [← String.toList_inj]; simp [argument, Meant.text]) ?_
  simp only [List.mem_cons, List.not_mem_nil, or_false]
  rintro o (rfl | rfl | rfl)
  · decide
  · exact ⟨(by decide : isKey "id" = true), hnode disk.id⟩
  · decide

/-- The arguments of the run directory are read as they are meant where no path has a comma in it,
nor the monitor's an equals sign. -/
theorem console_reads_iff :
    List.Forall₂ ReadArg (optionArgs (consoleArgs q runDir)) (consoleMeant q runDir) ↔
      (∀ name ∈ ["console.sock", "serial.log", "qmp.sock", "guest-agent.sock"],
        ',' ∉ (q.join runDir name).toList) ∧ '=' ∉ (q.join runDir "qmp.sock").toList := by
  have hoptions : optionArgs (consoleArgs q runDir) =
      [("-chardev", "socket,id=serial0,path=" ++ q.join runDir "console.sock" ++
          ",server=on,wait=off,logfile=" ++ q.join runDir "serial.log"),
        ("-qmp", "unix:" ++ q.join runDir "qmp.sock" ++ ",server,nowait"),
        ("-chardev", "socket,path=" ++ q.join runDir "guest-agent.sock" ++
          ",server=on,wait=off,id=qga0")] := by
    simp [optionArgs, consoleArgs, optionFlags]
  have hconsole : readArg "-chardev" ("socket,id=serial0,path=" ++ q.join runDir "console.sock" ++
      ",server=on,wait=off,logfile=" ++ q.join runDir "serial.log") = decodeArg "backend"
        (argument [.kind "backend" "socket", .set "id" "serial0",
          .file "path" (q.join runDir "console.sock"), .set "server" "on", .set "wait" "off",
          .file "logfile" (q.join runDir "serial.log")]) := by
    rw [readArg_chardev]
    refine congrArg _ ?_
    rw [← String.toList_inj]
    simp [argument, Meant.text]
  have hmonitor : readArg "-qmp" ("unix:" ++ q.join runDir "qmp.sock" ++ ",server,nowait") =
      decodeArg "path" (argument
        [.first "path" (q.join runDir "qmp.sock"), .flag "server", .flag "nowait"]) := by
    rw [String.append_assoc, readArg_qmp]
    refine congrArg _ ?_
    rw [← String.toList_inj]
    simp [argument, Meant.text]
  have hagent : readArg "-chardev" ("socket,path=" ++ q.join runDir "guest-agent.sock" ++
      ",server=on,wait=off,id=qga0") = decodeArg "backend"
        (argument [.kind "backend" "socket", .file "path" (q.join runDir "guest-agent.sock"),
          .set "server" "on", .set "wait" "off", .set "id" "qga0"]) := by
    rw [readArg_chardev]
    refine congrArg _ ?_
    rw [← String.toList_inj]
    simp [argument, Meant.text]
  rw [hoptions, consoleMeant, List.forall₂_cons, List.forall₂_cons, List.forall₂_cons,
    readArg_iff hconsole (by simp [Meant.Leads]) (by simp [Meant.Follows, isKey]),
    readArg_iff hmonitor (by simp [Meant.Leads]) (by simp [Meant.Follows, isKey]),
    readArg_iff hagent (by simp [Meant.Leads]) (by simp [Meant.Follows, isKey])]
  simp only [List.mem_cons, List.not_mem_nil, or_false, forall_eq_or_imp, forall_eq, Meant.Whole,
    true_and, and_true, List.forall₂_nil_left_iff]
  constructor
  · rintro ⟨⟨h1, h2⟩, ⟨h3, h4⟩, h5⟩
    exact ⟨⟨h1, h2, h3, h5⟩, h4⟩
  · rintro ⟨⟨h1, h2, h3, h5⟩, h4⟩
    exact ⟨⟨h1, h2⟩, ⟨h3, h4⟩, h5⟩

/-- A back end with a value from outside at its end is read as it is meant where the value is one
option, and a path comes back. -/
theorem reads_last_iff (key : String) (os : List (String × String)) {kind value : String} {p : List Char}
    {ps : List (List Char)} (harg : arg.toList = kind.toList ++ ',' ::
      before ',' '=' (texts os) (key.toList ++ '=' :: value.toList))
    (hkind : ',' ∉ kind.toList ∧ '=' ∉ kind.toList) (hos : ∀ o ∈ texts os, Plain ',' '=' o)
    (hkey : isKey key = true) (hpieces : pieces ',' value.toList = p :: ps) (hm : m.key = key) :
    Reads (decodeArg "type" arg)
        (.kind "type" kind :: (os.map (fun o => Meant.set o.1 o.2) ++ [m])) ↔
      ps = [] ∧ ∀ path, m.path = some path → String.ofList p = path := by
  have hkey := isKey_iff.mp hkey
  rw [decodeArg_before "type" harg hkind hos (append_head hkey.2.1 hkey.1),
    options_value hkey.2.1 hkey.2.2 (by decide) hpieces, Reads, List.cons_append,
    List.forall₂_cons, forall₂_append_iff (by simp)]
  have hsets : List.Forall₂ (fun (o : String × Option String) (m : Meant) =>
      o.1 = m.key ∧ ∀ path, m.path = some path → o.2 = some path)
      (os.map fun o => (o.1, some o.2)) (os.map fun o => Meant.set o.1 o.2) := by
    rw [List.forall₂_map_left_iff, List.forall₂_map_right_iff, List.forall₂_same]
    exact fun o _ => ⟨rfl, by simp [Meant.path]⟩
  simp only [List.map_cons, String.ofList_toList, Option.map_some, List.forall₂_cons, hsets, hm,
    true_and, Option.some.injEq, List.forall₂_nil_right_iff, List.map_eq_nil_iff]
  constructor
  · rintro ⟨-, hpath, hps⟩
    exact ⟨hps, hpath⟩
  · rintro ⟨hps, hpath⟩
    exact ⟨⟨rfl, by simp [Meant.path]⟩, hpath, hps⟩

/-- A back end with nothing from outside is read as it is meant. -/
theorem reads_plain {kind : String} (hid : validNetworkID nic.id = true)
    (harg : arg = argument [.kind "type" kind, .set "id" nic.id])
    (hkind : ',' ∉ kind.toList ∧ '=' ∉ kind.toList) :
    Reads (decodeArg "type" arg) [.kind "type" kind, .set "id" nic.id] := by
  have hlead : (Meant.kind "type" kind).Leads "type" := ⟨rfl, hkind⟩
  have hfollow : ∀ o ∈ [Meant.set "id" nic.id], o.Follows := by
    rintro o ho
    rw [List.mem_singleton.mp ho]
    exact ⟨by decide, plain_id hid⟩
  rw [harg, reads_argument_iff hlead hfollow]
  simp [Meant.Whole]

/-- The back end of an interface is read as it is meant where what it takes from outside stays
whole. -/
theorem netdev_reads_iff (hid : validNetworkID nic.id = true)
    (hmode : ∀ name, nic.network ≠ .other name) :
    ReadArg ("-netdev", netdevArg nic) ("-netdev", netdevMeant nic) ↔ nic.Whole := by
  have hcomma := plain_id hid
  have hone : ∀ o ∈ texts [("id", nic.id)], Plain ',' '=' o := by
    simp only [texts, List.map_cons, List.map_nil, List.mem_singleton]
    rintro o rfl
    exact plain_field (by decide) hcomma
  rw [ReadArg, and_iff_right rfl, readArg_netdev, netdevMeant, netdevArg, templateNetdev,
    InterfaceSpec.Whole]
  cases hnet : nic.network with
  | user | vmnetHost | vmnetShared =>
    refine iff_of_true ?_ trivial
    refine reads_plain hid ?_ (by decide)
    rw [← String.toList_inj]
    simp [stringsReplaceAll, replaceAll, replaceFrom, argument, Meant.text, NetworkMode.name]
  | bridge =>
    obtain ⟨p, ps, hps⟩ := List.exists_cons_of_ne_nil
      (pieces_ne_nil ',' (stringsReplaceAll nic.socket "net0" nic.id).toList)
    refine (reads_last_iff "addr.path" [("id", nic.id), ("server", "off"), ("addr.type", "unix")] ?_
      (by decide) ?_ (by decide) hps rfl).trans ?_
    · simp [stringsReplaceAll, replaceAll, replaceFrom, texts, before]
    · simp only [texts, List.map_cons, List.map_nil, List.mem_cons, List.not_mem_nil, or_false]
      rintro o (rfl | rfl | rfl)
      · exact plain_field (by decide) hcomma
      · exact plain_field (by decide) (by decide)
      · exact plain_field (by decide) (by decide)
    rw [stringsReplaceAll, String.toList_ofList] at hps
    constructor
    · rintro ⟨-, hpath⟩
      have hsocket : p = nic.socket.toList := by
        rw [← hpath _ rfl, String.toList_ofList]
      exact value_unchanged hid (hps ▸ List.mem_cons_self) (hsocket ▸ List.infix_rfl)
    · rintro ⟨hname, hplain⟩
      rw [replace_value hname, pieces_plain hplain, List.cons.injEq] at hps
      refine ⟨hps.2.symm, fun path hpath => ?_⟩
      cases hpath
      rw [← hps.1, String.ofList_toList]
  | switch =>
    obtain ⟨p, ps, hps⟩ := List.exists_cons_of_ne_nil
      (pieces_ne_nil ',' (stringsReplaceAll nic.group "net0" nic.id).toList)
    refine (reads_last_iff "mcast" [("id", nic.id)] ?_ (by decide) hone (by decide) hps rfl).trans ?_
    · simp [stringsReplaceAll, replaceAll, replaceFrom, texts, before]
    · simp [oneOption, hps, Meant.path]
  | vmnetBridged =>
    obtain ⟨p, ps, hps⟩ := List.exists_cons_of_ne_nil
      (pieces_ne_nil ',' (stringsReplaceAll nic.uplink "net0" nic.id).toList)
    refine (reads_last_iff "ifname" [("id", nic.id)] ?_ (by decide) hone (by decide) hps rfl).trans ?_
    · simp [stringsReplaceAll, replaceAll, replaceFrom, texts, before]
    · simp [oneOption, hps, Meant.path]
  | other name => exact absurd hnet (hmode name)

/-- What QEMU reads in the arguments of a boot is what they mean exactly where no path has a comma
in it. -/
theorem pathsDecode_iff (q : DriverTexts) (runDir : String) (s : Spec) (args : List String)
    (hargs : buildArgs q runDir s = .ok args)
    (hnode : ∀ id, ',' ∉ (q.diskNodeName id).toList)
    (hids : ∀ nic ∈ s.interfaces, validNetworkID nic.id = true) :
    PathsDecode q runDir s args ↔ WholePaths q runDir s := by
  obtain ⟨hoptions, hmode⟩ := optionArgs_buildArgs hargs
  have hmachine := machine_reads_iff (s := s)
  have hseed := seed_reads_iff (s := s)
  have hisos := isos_read_iff (s := s) hnode
  have hdisks := disks_read_iff (s := s) hnode
  have hnics : List.Forall₂ ReadArg (s.interfaces.map fun nic => ("-netdev", netdevArg nic))
      (s.interfaces.map fun nic => ("-netdev", netdevMeant nic)) ↔
        ∀ nic ∈ s.interfaces, nic.Whole := by
    rw [List.forall₂_map_left_iff, List.forall₂_map_right_iff, List.forall₂_same]
    exact forall₂_congr fun nic hnic => netdev_reads_iff (hids nic hnic) (hmode nic hnic)
  have hconsole : List.Forall₂ ReadArg (optionArgs (consoleArgs q runDir)) (consoleMeant q runDir) ↔
    _ := console_reads_iff
  rw [PathsDecode, hoptions, meantArgs,
    forall₂_append_iff (by simp [optionArgs, machineArgs, optionFlags, machineMeant]), hmachine,
    forall₂_append_iff (by rw [seedMeant]; split <;> simp [optionArgs, optionFlags]), hseed,
    forall₂_append_iff (by simp [optionArgs, isoArgs, optionFlags]), hisos,
    forall₂_append_iff (by simp [optionArgs, diskArgs, optionFlags]), hdisks,
    forall₂_append_iff (by simp), hnics, hconsole]
  constructor
  · rintro ⟨⟨hfirmware, hdisk⟩, hseed, hisos, hdisks, hnics, hrun, hmonitor⟩
    refine ⟨?_, fun disk hdisk => ?_, hrun, hmonitor, hnics⟩
    · simpa using ⟨hfirmware, hdisk, hseed⟩
    · exact (List.mem_append.mp hdisk).elim (hisos disk) (hdisks disk)
  · rintro ⟨hmachine, hdisks, hrun, hmonitor, hnics⟩
    refine ⟨⟨hmachine _ (by simp), hmachine _ (by simp)⟩, hmachine _ (by simp), fun iso hiso => ?_,
      fun disk hdisk => ?_, hnics, hrun, hmonitor⟩
    · exact hdisks iso (List.mem_append_left _ hiso)
    · exact hdisks disk (List.mem_append_right _ hdisk)

/-- A machine with an ISO in a data directory. -/
def bootSpec (dataDir : String) : Spec where
  id := "vm"
  name := "web"
  firmware := dataDir ++ "/firmware/edk2-aarch64-code.fd"
  diskPath := dataDir ++ "/disks/vm/disk.qcow2"
  isos := [{ id := "install", path := dataDir ++ "/media/install.iso" }]
  interfaces := [
    { id := "net1", mac := "02:00:00:00:00:01", network := .bridge, bridge := "bridge1"
      socket := "/var/run/maco/vm/interfaces/net1/network.sock" }]

/-- The texts of the driver for that machine. -/
def bootTexts : DriverTexts where
  mac _ := "02:00:00:00:00:01"
  diskNodeName _ := "d1e142e6277b12b7e1110478a24ca"
  join dir name := dir ++ "/" ++ name

theorem bootTexts_node (id : String) : ',' ∉ (bootTexts.diskNodeName id).toList := by
  change ',' ∉ "d1e142e6277b12b7e1110478a24ca".toList
  decide

theorem pathsDecode_iff_boot :
    ∃ args, buildArgs bootTexts "/var/run/maco/vm" (bootSpec "/var/maco") = .ok args ∧
      PathsDecode bootTexts "/var/run/maco/vm" (bootSpec "/var/maco") args := by
  have hargs : ∃ args, buildArgs bootTexts "/var/run/maco/vm" (bootSpec "/var/maco") = .ok args :=
    ⟨_, rfl⟩
  obtain ⟨args, hargs⟩ := hargs
  refine ⟨args, hargs, (pathsDecode_iff _ _ _ _ hargs bootTexts_node (by decide)).mpr ?_⟩
  refine ⟨by decide +kernel, by decide +kernel, by decide +kernel, by decide +kernel, ?_⟩
  intro nic hnic
  rw [List.mem_singleton.mp hnic]
  exact ⟨.inr (by decide +kernel), by decide +kernel⟩

theorem pathsDecode_comma : ¬∀ q runDir s args, buildArgs q runDir s = .ok args →
    (∀ id, ',' ∉ (q.diskNodeName id).toList) →
    (∀ nic ∈ s.interfaces, validNetworkID nic.id = true) → PathsDecode q runDir s args := by
  intro h
  have hargs : ∃ args, buildArgs bootTexts "/var/run/maco/vm" (bootSpec "/Volumes/backup,old") =
      .ok args := ⟨_, rfl⟩
  obtain ⟨args, hargs⟩ := hargs
  have hread := h _ _ _ args hargs bootTexts_node (by decide)
  rw [PathsDecode, (optionArgs_buildArgs hargs).1, meantArgs,
    forall₂_append_iff (by simp [optionArgs, machineArgs, optionFlags, machineMeant]),
    machine_reads_iff] at hread
  exact absurd hread.1.1 (by decide +kernel)

end Arguments

end Maco.VM
