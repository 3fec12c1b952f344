import Maco.Engine.Selection
import Mathlib.Data.List.Nodup
import Mathlib.Data.List.Pairwise

/-! The assignments of a machine: how they come about, what their keys name, and the devices that a
start picks for them. -/

namespace Maco.Engine

open Concurrent Prog

/-! ### Keys -/

/-- The vendor and product of an assignment, as its key begins. -/
def modelText (a : VMUSBAssignment) : String := hex4 a.vendorID ++ ":" ++ hex4 a.productID

theorem digitChar_inj {i j : Nat} (hi : i < 16) (hj : j < 16)
    (h : Nat.digitChar i = Nat.digitChar j) : i = j := by
  have hall : ∀ i < 16, ∀ j < 16, Nat.digitChar i = Nat.digitChar j → i = j := by decide
  exact hall i hi j hj h

theorem hex4_length (n : UInt16) : (hex4 n).toList.length = 4 := by simp [hex4]

theorem hex4_inj {n k : UInt16} (h : hex4 n = hex4 k) : n = k := by
  have hlist := congrArg String.toList h
  simp only [hex4, String.toList_ofList, List.range, List.range.loop, List.reverse_cons,
    List.reverse_nil, List.nil_append, List.cons_append, List.map_cons, List.map_nil,
    List.cons.injEq, and_true] at hlist
  obtain ⟨h3, h2, h1, h0⟩ := hlist
  have e3 := digitChar_inj (Nat.mod_lt _ (by decide)) (Nat.mod_lt _ (by decide)) h3
  have e2 := digitChar_inj (Nat.mod_lt _ (by decide)) (Nat.mod_lt _ (by decide)) h2
  have e1 := digitChar_inj (Nat.mod_lt _ (by decide)) (Nat.mod_lt _ (by decide)) h1
  have e0 := digitChar_inj (Nat.mod_lt _ (by decide)) (Nat.mod_lt _ (by decide)) h0
  have hn := n.toNat_lt
  have hk := k.toNat_lt
  apply UInt16.toNat_inj.mp
  omega

theorem modelText_length (a : VMUSBAssignment) : (modelText a).toList.length = 9 := by
  simp only [modelText, String.toList_append, List.length_append, hex4_length]
  rfl

theorem modelText_inj {a b : VMUSBAssignment} (h : modelText a = modelText b) :
    a.vendorID = b.vendorID ∧ a.productID = b.productID := by
  have hlist := congrArg String.toList h
  simp only [modelText, String.toList_append, List.append_assoc] at hlist
  obtain ⟨hv, hrest⟩ := List.append_inj hlist ((hex4_length _).trans (hex4_length _).symm)
  have hp := List.append_cancel_left hrest
  exact ⟨hex4_inj (String.toList_injective hv), hex4_inj (String.toList_injective hp)⟩

theorem assignmentKey_bare {a : VMUSBAssignment} (h : a.serial = "") :
    assignmentKey a = modelText a := by
  simp [assignmentKey, modelText, h]

/-- The key of an assignment with a serial is that of no model. -/
theorem modelText_ne_key {a b : VMUSBAssignment} (h : a.serial ≠ "") :
    modelText b ≠ assignmentKey a := by
  intro heq
  have hlength := congrArg (fun t => t.toList.length) heq
  have hkey : assignmentKey a = modelText a ++ (":" ++ a.serial) := by
    simp [assignmentKey, modelText, h]
  simp only [hkey, modelText_length, String.toList_append, List.length_append] at hlength
  have hone : (":" : String).toList.length = 1 := rfl
  omega

theorem keyed_iff {key : String} {b : VMUSBAssignment} :
    keyed key b = true ↔ assignmentKey b = key ∨ modelText b = key := by
  simp [keyed, modelText]

/-! ### The manifests that assigning leads to -/

/-- A machine without assignments, and what `AssignUSB` and `UnassignUSB` make of one, whatever the
host and the registry are and whatever fails; all else leaves the assignments. -/
inductive Assigned (e : Paths) : VMManifest → Prop
  | start {m : VMManifest} : m.usb = [] → Assigned e m
  | assign {s t : USBWorld} {ref deviceID fingerprint : String} {r : Except Message VMUSBAssignment} :
      Assigned e s.stored →
      (assignUSB usb e ref deviceID fingerprint).run.Runs USBWorld.perform anyStep s r t →
      Assigned e t.stored
  | unassign {s t : USBWorld} {ref key : String} {r : Except Message Unit} :
      Assigned e s.stored →
      (unassignUSB e ref key).run.Runs USBWorld.perform anyStep s r t → Assigned e t.stored
  | keep {m m' : VMManifest} : Assigned e m → m'.usb = m.usb → Assigned e m'

/-- No two assignments have one key. -/
def Keyed (assignments : List VMUSBAssignment) : Prop := (assignments.map assignmentKey).Nodup

theorem Keyed.eq {assignments : List VMUSBAssignment} (h : Keyed assignments)
    {a b : VMUSBAssignment} (ha : a ∈ assignments) (hb : b ∈ assignments)
    (hkey : assignmentKey a = assignmentKey b) : a = b :=
  List.inj_on_of_nodup_map h ha hb hkey

section Ends

variable {allowed : EngineCall → USBChoice → USBWorld → Prop} {s : USBWorld} {e : Paths}

/-- Reading the stored manifest. -/
theorem ends_loadThen {id : String} {α : Type} {f : VMManifest → EngineM α}
    {Q : Except Message α → USBWorld → Prop} (hfail : ∀ c err, allowed (.vms (.load id)) c s → c.answer (.vms (.load id)) = .error err →
      Q (.error err) s)
    (h : Ends allowed (f s.stored) Q s) : Ends allowed (loadVM id >>= f) Q s := by
  refine ends_bind (wp_answer fun c hc haccepts => ?_)
  split
  · rename_i err herr
    exact hfail c err hc herr
  · rename_i m hm
    have hstored : m = s.stored := of_decide_eq_true
      (granted_ok (p := fun m => decide (m = s.stored)) haccepts hm)
    rw [hstored]
    exact h

theorem ends_resolveThen {ref : String} {α : Type} {f : VMManifest → EngineM α}
    {Q : Except Message α → USBWorld → Prop} (hfail : ∀ c err, allowed (.vms (.resolve ref)) c s → c.answer (.vms (.resolve ref)) = .error err →
      Q (.error err) s)
    (h : ∀ m, m.id = s.stored.id → Ends allowed (f m) Q s) :
    Ends allowed (resolveVM ref >>= f) Q s := by
  refine ends_bind (wp_answer fun c hc haccepts => ?_)
  split
  · rename_i err herr
    exact hfail c err hc herr
  · rename_i m hm
    exact h m (of_decide_eq_true
      (granted_ok (p := fun m : VMManifest => decide (m.id = s.stored.id)) haccepts hm))

/-- What is done with the registry open: the claims read are those that are stored. -/
theorem ends_withRegistry {α : Type} {body : List USBClaim → EngineM α}
    {Q : Except Message α → USBWorld → Prop} (hlock : ∀ c err, allowed (.lock .registry) c s → c.answer (.lock .registry) = .error err →
      Q (.error err) s)
    (hread : ∀ c err, allowed (.usb .readClaims) c s → c.answer (.usb .readClaims) = .error err →
      Q (.error err) s)
    (h : Ends allowed (body s.claims) Q s) : Ends allowed (withRegistry body) Q s := by
  refine ends_locked hlock (ends_bind (wp_answer fun c hc haccepts => ?_))
  split
  · rename_i err herr
    exact hread c err hc herr
  · rename_i claims hclaims
    have hstored : claims = s.claims := of_decide_eq_true
      (granted_ok (p := fun claims => decide (claims = s.claims)) haccepts hclaims)
    rw [hstored]
    exact h

theorem ends_hostDevicesThen {α : Type} {f : List Device → EngineM α}
    {Q : Except Message α → USBWorld → Prop} (hfail : ∀ c err, allowed (.usb .hostDevices) c s → c.answer (.usb .hostDevices) = .error err →
      Q (.error err) s)
    (h : Ends allowed (f s.inventory) Q s) :
    Ends allowed (demand (usbCall .hostDevices) >>= f) Q s := by
  refine ends_bind (wp_answer fun c hc haccepts => ?_)
  split
  · rename_i err herr
    exact hfail c err hc herr
  · rename_i devices hdevices
    have hstored : devices = s.inventory := of_decide_eq_true
      (granted_ok (p := fun devices => decide (devices = s.inventory)) haccepts hdevices)
    rw [hstored]
    exact h

/-- A manifest that is saved, or one that could not be and may have been all the same. -/
theorem ends_save {m : VMManifest} {Q : Except Message Unit → USBWorld → Prop}
    (hok : Q (.ok ()) { s with stored := m })
    (hfail : ∀ c err, allowed (.vms (.save m)) c s → c.answer (.vms (.save m)) = .error err →
      Q (.error err) s ∧ Q (.error err) { s with stored := m }) :
    Ends allowed (save m) Q s := by
  refine ends_callThen fun c hc _ => ?_
  have hafter : s.after c (.vms (.save m)) =
      { s with stored := if (c.answer (.vms (.save m))).isOk || c.took then m else s.stored } := rfl
  rw [hafter]
  split
  · rename_i heq
    simp only [heq, Except.isOk, Except.toBool, Bool.true_or, if_true]
    exact hok
  · rename_i err herr
    split
    · exact (hfail c err hc herr).2
    · exact (hfail c err hc herr).1

/-- One assignment more, with a key of its own, or none. -/
theorem ends_addAssignment {id deviceID fingerprint : String} {stored : List USBClaim} :
    Ends allowed (addAssignment usb e id deviceID fingerprint stored)
      (fun _ t => t.stored = s.stored ∨ ∃ a, t.stored = { s.stored with usb := s.stored.usb ++ [a] } ∧
        ∀ b ∈ s.stored.usb, assignmentKey b ≠ assignmentKey a) s := by
  refine ends_loadThen (fun _ _ _ _ => .inl rfl) (ends_hostDevicesThen (fun _ _ _ _ => .inl rfl) ?_)
  split
  · exact .inl rfl
  rename_i device _
  dsimp only
  split
  · exact .inl rfl
  refine ends_queryThen (wp_mono wp_reconcileClaims ?_)
  rintro claims s ⟨rfl, _⟩
  split
  · exact .inl rfl
  split
  · exact .inl rfl
  · rename_i hnew
    have hkeys : ∀ b ∈ s.stored.usb, assignmentKey b ≠ assignmentKey (assignmentOf device) := by
      simpa using hnew
    refine ends_bind (ends_save ?_ fun c err _ _ => ⟨.inl rfl, ?_⟩)
    · exact .inr ⟨_, rfl, hkeys⟩
    · exact .inr ⟨_, rfl, hkeys⟩

theorem ends_assignUSB {ref deviceID fingerprint : String} :
    Ends allowed (assignUSB usb e ref deviceID fingerprint)
      (fun _ t => t.stored = s.stored ∨ ∃ a, t.stored = { s.stored with usb := s.stored.usb ++ [a] } ∧
        ∀ b ∈ s.stored.usb, assignmentKey b ≠ assignmentKey a) s := by
  refine ends_resolveThen (fun _ _ _ _ => .inl rfl) fun m hm => ?_
  exact ends_locked (fun _ _ _ _ => .inl rfl)
    (ends_withRegistry (fun _ _ _ _ => .inl rfl) (fun _ _ _ _ => .inl rfl) ends_addAssignment)

/-- Detaching the devices of an assignment changes nothing that is stored, and fails only where a
detachment does. -/
theorem ends_detachMatching {E : Prop} {m : VMManifest} {a : VMUSBAssignment}
    {claims : List USBClaim}
    (hdetach : ∀ c runDir qemuID err, allowed (.usb (.detach runDir qemuID)) c s →
      c.answer (.usb (.detach runDir qemuID)) = .error err → E) :
    Ends allowed (detachMatching e m a claims)
      (fun r t => t = s ∧ ∀ err, r = .error err → E) s := by
  induction claims with
  | nil => exact ⟨rfl, fun _ h => by cases h⟩
  | cons claim claims ih =>
    unfold detachMatching
    split
    · refine ends_bind (wp_answer fun c hc _ => ?_)
      split
      · rename_i err herr
        exact ⟨rfl, fun _ _ => hdetach c _ _ err hc herr⟩
      · exact ih
    · refine ends_bind (ends_mono ih fun r t ht => ?_)
      cases r with
      | error err => exact ⟨ht.1, fun _ _ => ht.2 err rfl⟩
      | ok rest => exact ⟨ht.1, fun _ h => by cases h⟩

/-- What `UnassignUSB` makes of the assignments, unless it fails. -/
def without (s : USBWorld) (key : String) : VMManifest :=
  { s.stored with usb := s.stored.usb.filter fun a => !keyed key a }

theorem ends_unassignUSB {ref key : String} :
    Ends allowed (unassignUSB e ref key)
      (fun _ t => t.stored = s.stored ∨ t.stored = without s key) s := by
  refine ends_resolveThen (fun _ _ _ _ => .inl rfl) fun m hm => ?_
  refine ends_locked (fun _ _ _ _ => .inl rfl) (ends_withRegistry (fun _ _ _ _ => .inl rfl) (fun _ _ _ _ => .inl rfl) ?_)
  refine ends_loadThen (fun _ _ _ _ => .inl rfl) ?_
  split
  · exact .inl rfl
  · refine ends_queryThen (wp_mono wp_reconcileClaims ?_)
    rintro claims s ⟨rfl, _⟩
    refine ends_bind (ends_mono (ends_detachMatching fun _ _ _ _ _ _ => trivial) ?_)
    rintro r s ⟨rfl, _⟩
    cases r with
    | error err => exact .inl rfl
    | ok retained =>
      refine ends_bind (wp_answer fun c _ _ => ?_)
      split
      · exact .inl rfl
      · exact ends_save (.inr rfl) fun _ _ _ _ => ⟨.inl rfl, .inr rfl⟩
  · exact .inl rfl

end Ends

/-- The keys of the assignments are told apart, whatever was assigned and unassigned. -/
theorem Assigned.keyed {e : Paths} {m : VMManifest} (h : Assigned e m) : Keyed m.usb := by
  induction h with
  | start h =>
    rw [Keyed, h]
    exact List.nodup_nil
  | assign _ hrun ih =>
    obtain hsame | ⟨a, hmore, hnew⟩ := wp_alone_runs ends_assignUSB hrun
    · rw [hsame]
      exact ih
    · rw [hmore]
      simp only [Keyed, List.map_append, List.map_cons, List.map_nil]
      refine List.nodup_append.mpr ⟨ih, List.nodup_singleton _, ?_⟩
      simpa using hnew
  | unassign _ hrun ih =>
    obtain hsame | hless := wp_alone_runs ends_unassignUSB hrun
    · rw [hsame]
      exact ih
    · rw [hless]
      exact ih.sublist (List.filter_sublist.map _)
  | keep _ h ih =>
    rw [h]
    exact ih

/-! ### What a key removes -/

/-- The calls succeed on which `UnassignUSB` depends: locks, reads, saves and detachments. -/
def granting : EngineCall → USBChoice → USBWorld → Prop
  | .lock l, c, _ => (c.answer (.lock l)).isOk
  | .vms (.resolve ref), c, _ => (c.answer (.vms (.resolve ref))).isOk
  | .vms (.load id), c, _ => (c.answer (.vms (.load id))).isOk
  | .vms (.save m), c, _ => (c.answer (.vms (.save m))).isOk
  | .usb .readClaims, c, _ => (c.answer (.usb .readClaims)).isOk
  | .usb (.saveClaims claims), c, _ => (c.answer (.usb (.saveClaims claims))).isOk
  | .usb (.detach runDir qemuID), c, _ => (c.answer (.usb (.detach runDir qemuID))).isOk
  | _, _, _ => True

/-- Wherever the calls succeed, unassigning by the key of the assignment succeeds, and takes that
assignment off the list and no other. -/
def KeyRemoves (e : Paths) (ref : String) (s : USBWorld) (a : VMUSBAssignment) : Prop :=
  ∀ r t, (unassignUSB e ref (assignmentKey a)).run.Runs USBWorld.perform granting s r t →
    r = .ok () ∧ t.stored = { s.stored with usb := s.stored.usb.filter fun b => b ≠ a }

/-- The assignment has a serial, or is the only one of its model. -/
def Sole (assignments : List VMUSBAssignment) (a : VMUSBAssignment) : Prop :=
  a.serial = "" → ∀ b ∈ assignments, b.vendorID = a.vendorID → b.productID = a.productID → b = a

/-- Of an assignment with a serial, or the only one of its model, the key is that of no other. -/
theorem keyed_sole {assignments : List VMUSBAssignment} {a b : VMUSBAssignment}
    (h : Keyed assignments) (ha : a ∈ assignments) (hb : b ∈ assignments)
    (hsole : Sole assignments a) : keyed (assignmentKey a) b = decide (b = a) := by
  rw [Bool.eq_iff_iff, keyed_iff, decide_eq_true_iff]
  constructor
  · rintro (hkey | hmodel)
    · exact h.eq hb ha hkey
    · by_cases hserial : a.serial = ""
      · rw [assignmentKey_bare hserial] at hmodel
        obtain ⟨hv, hp⟩ := modelText_inj hmodel
        exact hsole hserial b hb hv hp
      · exact absurd hmodel (modelText_ne_key hserial)
  · rintro rfl
    exact .inl rfl

theorem filter_eq_singleton {α : Type} [DecidableEq α] {l : List α} {a : α} (hl : l.Nodup)
    (ha : a ∈ l) : l.filter (fun b => decide (b = a)) = [a] := by
  have heq : (fun b => decide (b = a)) = (fun b => b == a) := rfl
  rw [heq, List.filter_beq, List.count_eq_one_of_mem hl ha]
  rfl

section Granting

variable {s : USBWorld} {e : Paths} {ref key : String}

/-- Where one assignment has the key, it goes; else the call fails, and nothing changes. -/
theorem granted_unassignUSB :
    Ends granting (unassignUSB e ref key)
      (fun r t =>
        ((∃ a, s.stored.usb.filter (keyed key) = [a]) → r = .ok () ∧ t.stored = without s key) ∧
        ((¬ ∃ a, s.stored.usb.filter (keyed key) = [a]) → r ≠ .ok ())) s := by
  refine ends_resolveThen (fun c _ hc h => ?_) fun m hm => ?_
  · simp [granting, h, Except.isOk, Except.toBool] at hc
  refine ends_locked (fun c _ hc h => ?_)
    (ends_withRegistry (fun c _ hc h => ?_) (fun c _ hc h => ?_) ?_)
  · simp [granting, h, Except.isOk, Except.toBool] at hc
  · simp [granting, h, Except.isOk, Except.toBool] at hc
  · simp [granting, h, Except.isOk, Except.toBool] at hc
  refine ends_loadThen (fun c _ hc h => ?_) ?_
  · simp [granting, h, Except.isOk, Except.toBool] at hc
  split
  · rename_i hnone
    refine ⟨fun ⟨a, ha⟩ => ?_, fun _ h => by cases h⟩
    rw [hnone] at ha
    cases ha
  · rename_i matched hone
    have hremoved : ∀ t : USBWorld, t.stored = without s key →
        ((∃ a, s.stored.usb.filter (keyed key) = [a]) →
          (.ok () : Except Message Unit) = .ok () ∧ t.stored = without s key) ∧
        ((¬ ∃ a, s.stored.usb.filter (keyed key) = [a]) → (.ok () : Except Message Unit) ≠ .ok ()) :=
      fun t ht => ⟨fun _ => ⟨rfl, ht⟩, fun h => absurd ⟨matched, hone⟩ h⟩
    refine ends_queryThen (wp_mono wp_reconcileClaims ?_)
    rintro claims _ ⟨rfl, _⟩
    refine ends_bind (ends_mono (ends_detachMatching (E := False) fun c _ _ _ hc h => ?_) ?_)
    · simp [granting, h, Except.isOk, Except.toBool] at hc
    rintro r _ ⟨rfl, hr⟩
    cases r with
    | error err => exact absurd rfl (hr err)
    | ok retained =>
      refine ends_bind (wp_answer fun c hc _ => ?_)
      split
      · rename_i err herr
        simp [granting, herr, Except.isOk, Except.toBool] at hc
      · refine ends_save (hremoved _ rfl) fun c _ hc h => ?_
        simp [granting, h, Except.isOk, Except.toBool] at hc
  · rename_i hno hmany
    exact ⟨fun ⟨a, ha⟩ => absurd ha (hmany a), fun _ h => by cases h⟩

end Granting

theorem granting_oblige (a : EngineCall) (s : USBWorld) :
    granting a ⟨s.obliging true, false⟩ s := by
  unfold granting
  split <;> first | rfl | trivial

/-- The key of an assignment removes it, and it alone, exactly where it has a serial or is the only
one of its model. -/
theorem keyRemoves_iff {e : Paths} {ref : String} {s : USBWorld} {a : VMUSBAssignment}
    (hs : Assigned e s.stored) (ha : a ∈ s.stored.usb) :
    KeyRemoves e ref s a ↔ Sole s.stored.usb a := by
  have hkeyed := hs.keyed
  constructor
  · intro h hserial b hb hv hp
    by_contra hne
    obtain ⟨hok, _⟩ := h _ _ (USBWorld.runs_oblige granting_oblige _ _)
    have hend := wp_alone_runs granted_unassignUSB
      (USBWorld.runs_oblige granting_oblige (unassignUSB e ref (assignmentKey a)).run s)
    refine hend.2 ?_ hok
    rintro ⟨x, hx⟩
    have hmem : ∀ c ∈ s.stored.usb, modelText c = assignmentKey a → c = x := by
      intro c hc hmodel
      have hfilter : c ∈ s.stored.usb.filter (keyed (assignmentKey a)) :=
        List.mem_filter.mpr ⟨hc, keyed_iff.mpr (.inr hmodel)⟩
      rwa [hx, List.mem_singleton] at hfilter
    have hbare := (assignmentKey_bare hserial).symm
    have hsame : modelText b = modelText a := by rw [modelText, modelText, hv, hp]
    exact hne ((hmem b hb (hsame.trans hbare)).trans (hmem a ha hbare).symm)
  · intro hsole r t hrun
    have hend := wp_alone_runs granted_unassignUSB hrun
    have hnames : ∀ b ∈ s.stored.usb, keyed (assignmentKey a) b = decide (b = a) :=
      fun b hb => keyed_sole hkeyed ha hb hsole
    have hone : s.stored.usb.filter (keyed (assignmentKey a)) = [a] :=
      (List.filter_congr hnames).trans (filter_eq_singleton (List.Nodup.of_map _ hkeyed) ha)
    obtain ⟨hok, hstored⟩ := hend.1 ⟨a, hone⟩
    have hrest : s.stored.usb.filter (fun b => !keyed (assignmentKey a) b) =
        s.stored.usb.filter fun b => b ≠ a := by
      apply List.filter_congr
      intro b hb
      rw [hnames b hb, decide_not]
    refine ⟨hok, ?_⟩
    rw [hstored, without, hrest]

/-! A security key that the host could not open when it was first assigned, and that it could later. -/

def runPaths : Paths where
  runDir id := "/run/" ++ id
  proc := 0

def closedKey : Device where
  id := "a"
  fingerprint := "a"
  vendorID := 0x1050
  productID := 0x0407
  bus := 1
  address := 2
  port := "1.2"
  state := "available"

def openKey : Device := { closedKey with fingerprint := "b", serial := "S1" }

/-- A machine with the given assignments, on a host with the given devices and without claims. -/
def plugged (usb : List VMUSBAssignment) (devices : List Device) : USBWorld where
  stored := { id := "vm", name := "vm", usb := usb }
  claims := []
  inventory := devices

/-- Where the host obliges, the device that is selected is assigned. -/
theorem Assigned.obliged {s : USBWorld} (hs : Assigned runPaths s.stored) (deviceID : String) :
    Assigned runPaths
      ((assignUSB usb runPaths "vm" deviceID "").run.eval (USBWorld.oblige true) s).2.stored :=
  .assign hs (USBWorld.runs_oblige (fun _ _ => trivial) _ _)

theorem assigned_closedKey : Assigned runPaths (plugged [assignmentOf closedKey] []).stored :=
  Assigned.obliged (s := plugged [] [closedKey]) (.start rfl) "a"

theorem assigned_openKey :
    Assigned runPaths (plugged [assignmentOf closedKey, assignmentOf openKey] []).stored :=
  Assigned.obliged (s := plugged [assignmentOf closedKey] [openKey]) assigned_closedKey "a"

/-- The only security key of its model is unassigned by its vendor and product. -/
theorem keyRemoves_only :
    KeyRemoves runPaths "vm" (plugged [assignmentOf closedKey] []) (assignmentOf closedKey) :=
  (keyRemoves_iff assigned_closedKey (List.mem_singleton.mpr rfl)).mpr fun _ _ hb _ _ =>
    List.mem_singleton.mp hb

/-- The key of an assignment without a serial beside one with a serial of the same model removes
neither. -/
theorem key_ambiguous : ∃ s a, Assigned runPaths s.stored ∧ a ∈ s.stored.usb ∧
    ¬ KeyRemoves runPaths "vm" s a := by
  refine ⟨_, assignmentOf closedKey, assigned_openKey, List.mem_cons_self, fun h => ?_⟩
  have hok := (h _ _ (USBWorld.runs_oblige granting_oblige _ _)).1
  cases hok

/-! ### The gate of a start -/

/-- The devices that the assignments select. -/
def picks (devices : List Device) (assignments : List VMUSBAssignment) : List Device :=
  assignments.filterMap fun a => (matchUSBAssignment devices a).toOption

/-- From here the attachment of the assigned devices cannot fail for one of them being taken: they
are told apart by their ports, none of them is claimed, and whatever happens in the loop, the port
of each is still free when its turn comes. -/
structure NoneTaken (e : Paths) (m : VMManifest) (s : USBWorld) : Prop where
  apart : (picks s.inventory m.usb).Pairwise fun d d' => sameUSBPort d d' = false
  unclaimed : ∀ d ∈ picks s.inventory m.usb, ∀ claim ∈ s.claims,
    sameUSBPort d claim.attachment.device = false
  free : ∀ before a after, m.usb = before ++ a :: after →
    ∀ t, (attachAssignedUSB usb e { m with usb := before }).run.Runs USBWorld.perform anyStep s
      (.ok ()) t →
    ∀ kept u, (reconcileClaims t.claims).Runs USBWorld.perform anyStep t kept u →
    ∀ d, matchUSBAssignment s.inventory a = .ok d →
      ∀ claim ∈ kept, sameUSBPort d claim.attachment.device = false

/-- Two connected devices that assignments match stand at different ports. -/
def Placed (devices : List Device) (assignments : List VMUSBAssignment) : Prop :=
  ∀ d ∈ devices, ∀ d' ∈ devices, sameUSBPort d d' = true →
    (∃ a ∈ assignments, assignmentMatchesDevice a d = true) →
    (∃ a ∈ assignments, assignmentMatchesDevice a d' = true) → d = d'

theorem assignmentMatchesDevice_iff {a : VMUSBAssignment} {d : Device} :
    assignmentMatchesDevice a d = true ↔
      a.vendorID = d.vendorID ∧ a.productID = d.productID ∧ (a.serial = "" ∨ a.serial = d.serial) := by
  simp [assignmentMatchesDevice, and_assoc]

theorem sameUSBPort_self (d : Device) : sameUSBPort d d = true := by simp [sameUSBPort]

theorem sameUSBPort_comm (d d' : Device) : sameUSBPort d d' = sameUSBPort d' d := by
  simp only [sameUSBPort, eq_comm]

theorem checkAssignments_ok {devices : List Device} {claims : List USBClaim}
    {assignments : List VMUSBAssignment} (h : checkAssignments devices claims assignments = .ok ()) :
    ∀ a ∈ assignments, ∃ d, matchUSBAssignment devices a = .ok d ∧
      ∀ claim ∈ claims, sameUSBPort d claim.attachment.device = false := by
  induction assignments with
  | nil =>
    intro a ha
    cases ha
  | cons b rest ih =>
    rw [checkAssignments] at h
    split at h
    · contradiction
    · rename_i device hdevice
      split at h
      · contradiction
      · rename_i hfree
        intro a ha
        obtain rfl | ha := List.mem_cons.mp ha
        · exact ⟨device, hdevice, by simpa using hfree⟩
        · exact ih h a ha

/-- Two assignments select no two devices at one port. -/
def Apart (devices : List Device) (a b : VMUSBAssignment) : Prop :=
  ∀ d, matchUSBAssignment devices a = .ok d →
    ∀ d', matchUSBAssignment devices b = .ok d' → sameUSBPort d d' = false

instance (devices : List Device) : Std.Symm (Apart devices) where
  symm _ _ h d hd d' hd' := (sameUSBPort_comm d d').trans (h d' hd' d hd)

theorem mem_picks {devices : List Device} {assignments : List VMUSBAssignment} {d : Device} :
    d ∈ picks devices assignments ↔
      ∃ a ∈ assignments, matchUSBAssignment devices a = .ok d := by
  rw [picks, List.mem_filterMap]
  refine exists_congr fun a => and_congr_right fun _ => ?_
  cases matchUSBAssignment devices a <;> simp [Except.toOption]

theorem picks_pairwise {devices : List Device} {assignments : List VMUSBAssignment} :
    (picks devices assignments).Pairwise (fun d d' => sameUSBPort d d' = false) ↔
      assignments.Pairwise (Apart devices) := by
  have hoption : ∀ a d, (matchUSBAssignment devices a).toOption = some d ↔
      matchUSBAssignment devices a = .ok d := by
    intro a d
    cases matchUSBAssignment devices a <;> simp [Except.toOption]
  simp only [picks, List.pairwise_filterMap, hoption]
  rfl

section Gate

variable {e : Paths} {m : VMManifest} {s t : USBWorld}

/-- What the gate has found out where it lets a start pass. -/
def Passed (m : VMManifest) (s : USBWorld) : Prop :=
  ∀ a ∈ m.usb, ∃ d, matchUSBAssignment s.inventory a = .ok d ∧
    ∀ claim ∈ s.claims, sameUSBPort d claim.attachment.device = false

theorem ends_checkUSBAssignments {allowed : EngineCall → USBChoice → USBWorld → Prop} :
    Ends allowed (checkUSBAssignments m)
      (fun r t => r = .ok () → t.inventory = s.inventory ∧ Passed m t) s := by
  unfold checkUSBAssignments
  split
  · rename_i hnone
    intro _
    refine ⟨rfl, fun a ha => ?_⟩
    rw [hnone] at ha
    cases ha
  refine ends_withRegistry (fun _ _ _ _ h => by cases h) (fun _ _ _ _ h => by cases h) ?_
  refine ends_queryThen (wp_mono wp_reconcileClaims ?_)
  rintro claims s ⟨rfl, _⟩
  refine ends_bind (wp_answer fun c _ _ => ?_)
  split
  · intro h
    cases h
  · rename_i hok
    have hclaims : (s.after c (.usb (.saveClaims claims))).claims = claims := by
      show (if (c.answer (.usb (.saveClaims claims))).isOk || c.took then claims else s.claims) = _
      rw [hok]
      rfl
    refine ends_hostDevicesThen (fun _ _ _ _ h => by cases h) ?_
    intro hcheck
    refine ⟨rfl, fun a ha => ?_⟩
    rw [hclaims]
    exact checkAssignments_ok hcheck a ha

/-- A loop of which every turn keeps a fact. -/
theorem ends_forM {allowed : EngineCall → USBChoice → USBWorld → Prop} {β : Type}
    {f : β → EngineM PUnit} {l : List β} {I : USBWorld → Prop}
    (h : ∀ x ∈ l, ∀ s, I s → Ends allowed (f x) (fun _ t => I t) s) (hs : I s) :
    Ends allowed (l.forM f) (fun _ t => I t) s := by
  induction l generalizing s with
  | nil => exact hs
  | cons x l ih =>
    refine ends_bind (wp_mono (h x List.mem_cons_self s hs) fun r t ht => ?_)
    cases r with
    | error e => exact ht
    | ok _ => exact ih (fun y hy => h y (List.mem_cons_of_mem x hy)) ht

/-- The claims that the loop finds are those of before and those of the devices it has picked. -/
theorem ends_attachAssignedUSB {allowed : EngineCall → USBChoice → USBWorld → Prop}
    {C : Device → Prop} {devices : List Device}
    (hC : ∀ a ∈ m.usb, ∀ d, matchUSBAssignment devices a = .ok d → C d)
    (hs : Handed devices (fun _ => True) C s) :
    Ends allowed (attachAssignedUSB usb e m)
      (fun _ t => Handed devices (fun _ => True) C t) s := by
  refine ends_forM (fun a ha s hs => ?_) hs
  have hselect : ∀ d, matchUSBAssignment devices a = .ok d → True ∧ C d :=
    fun d hd => ⟨trivial, hC a ha d hd⟩
  refine ends_queryThen (wp_mono (attachUSBDevice_hands hselect hs) fun r t ht => ?_)
  cases r with
  | error err => exact ht
  | ok id => exact ht

/-- Different assignments that the gate lets pass select devices at different ports. -/
theorem picks_apart (hkeyed : Keyed m.usb) (hsole : ∀ a ∈ m.usb, Sole m.usb a)
    (hplaced : Placed s.inventory m.usb) {a b : VMUSBAssignment} (ha : a ∈ m.usb) (hb : b ∈ m.usb)
    (hne : a ≠ b) : Apart s.inventory a b := by
  intro d hd d' hd'
  obtain ⟨hone, _⟩ := matchUSBAssignment_ok.mp hd
  obtain ⟨hone', _⟩ := matchUSBAssignment_ok.mp hd'
  have hmatch : d ∈ s.inventory.filter (assignmentMatchesDevice a) := by simp [hone]
  have hmatch' : d' ∈ s.inventory.filter (assignmentMatchesDevice b) := by simp [hone']
  rw [List.mem_filter] at hmatch hmatch'
  by_contra hsame
  rw [Bool.not_eq_false] at hsame
  have hdevice : d = d' := hplaced d hmatch.1 d' hmatch'.1 hsame ⟨a, ha, hmatch.2⟩ ⟨b, hb, hmatch'.2⟩
  subst hdevice
  obtain ⟨hv, hp, hserial⟩ := assignmentMatchesDevice_iff.mp hmatch.2
  obtain ⟨hv', hp', hserial'⟩ := assignmentMatchesDevice_iff.mp hmatch'.2
  obtain hbare | hserial := hserial
  · exact hne (hsole a ha hbare b hb (hv'.trans hv.symm) (hp'.trans hp.symm)).symm
  obtain hbare | hserial' := hserial'
  · exact hne (hsole b hb hbare a ha (hv.trans hv'.symm) (hp.trans hp'.symm))
  · refine hne (hkeyed.eq ha hb ?_)
    rw [assignmentKey, assignmentKey, hv, hv', hp, hp', hserial, hserial']

/-- Where the gate lets a start pass, no assigned device is taken when its turn comes, exactly where
each assignment has a serial or is the only one of its model, and no two devices that assignments
match share a port. -/
theorem noneTaken_iff (hm : Assigned e m)
    (hgate : (checkUSBAssignments m).run.Runs USBWorld.perform anyStep s (.ok ()) t) :
    NoneTaken e m t ↔ (∀ a ∈ m.usb, Sole m.usb a) ∧ Placed s.inventory m.usb := by
  obtain ⟨hinventory, hpassed⟩ := wp_alone_runs ends_checkUSBAssignments hgate rfl
  rw [← hinventory]
  have hone : ∀ a ∈ m.usb, ∀ d ∈ t.inventory, assignmentMatchesDevice a d = true →
      matchUSBAssignment t.inventory a = .ok d := by
    intro a ha d hd hmatch
    obtain ⟨x, hx, _⟩ := hpassed a ha
    have hmem : d ∈ t.inventory.filter (assignmentMatchesDevice a) :=
      List.mem_filter.mpr ⟨hd, hmatch⟩
    rw [(matchUSBAssignment_ok.mp hx).1, List.mem_singleton] at hmem
    rw [hmem]
    exact hx
  constructor
  · intro h
    have hapart := (picks_pairwise.mp h.apart).forall
    constructor
    · intro a ha hbare b hb hv hp
      by_contra hne
      obtain ⟨d, hpick, _⟩ := hpassed b hb
      have hd : d ∈ t.inventory.filter (assignmentMatchesDevice b) := by
        simp [(matchUSBAssignment_ok.mp hpick).1]
      obtain ⟨hmem, hmatch⟩ := List.mem_filter.mp hd
      obtain ⟨hdv, hdp, _⟩ := assignmentMatchesDevice_iff.mp hmatch
      have hpick' := hone a ha d hmem (assignmentMatchesDevice_iff.mpr
        ⟨hv.symm.trans hdv, hp.symm.trans hdp, .inl hbare⟩)
      have hfree := hapart hb ha hne d hpick d hpick'
      rw [sameUSBPort_self] at hfree
      contradiction
    · rintro d hd d' hd' hsame ⟨a, ha, hmatch⟩ ⟨b, hb, hmatch'⟩
      have hpick := hone a ha d hd hmatch
      have hpick' := hone b hb d' hd' hmatch'
      by_cases hne : a = b
      · subst hne
        exact Except.ok.inj (hpick.symm.trans hpick')
      · rw [hapart ha hb hne d hpick d' hpick'] at hsame
        contradiction
  · rintro ⟨hsole, hplaced⟩
    have hapart : ∀ a ∈ m.usb, ∀ b ∈ m.usb, a ≠ b → Apart t.inventory a b :=
      fun a ha b hb hne => picks_apart hm.keyed hsole hplaced ha hb hne
    have hnodup : m.usb.Nodup := List.Nodup.of_map _ hm.keyed
    refine ⟨picks_pairwise.mpr (hnodup.pairwise_of_forall_ne hapart), fun d hd => ?_, ?_⟩
    · obtain ⟨a, ha, hpick⟩ := mem_picks.mp hd
      obtain ⟨x, hx, hfree⟩ := hpassed a ha
      obtain rfl : x = d := Except.ok.inj (hx.symm.trans hpick)
      exact hfree
    · intro before a after hsplit u hloop kept v hreconcile d hpick
      have hin : ∀ b ∈ before, b ∈ m.usb ∧ b ≠ a := by
        rw [hsplit] at hnodup
        have hdisjoint := (List.nodup_append.mp hnodup).2.2
        intro b hb
        exact ⟨by simp [hsplit, hb], hdisjoint b hb a List.mem_cons_self⟩
      have ha : a ∈ m.usb := by simp [hsplit]
      let C : Device → Prop := fun x => sameUSBPort d x = false
      have hstart : Handed t.inventory (fun _ => True) C t := by
        obtain ⟨x, hx, hfree⟩ := hpassed a ha
        obtain rfl : x = d := Except.ok.inj (hx.symm.trans hpick)
        exact ⟨rfl, fun _ _ => trivial, hfree⟩
      have hC : ∀ b ∈ before, ∀ x, matchUSBAssignment t.inventory b = .ok x → C x :=
        fun b hb x hx => hapart a ha b (hin b hb).1 (hin b hb).2.symm d hpick x hx
      have hend := wp_alone_runs (ends_attachAssignedUSB (m := { m with usb := before }) hC hstart)
        hloop
      obtain ⟨_, hremains⟩ := wp_alone_runs wp_reconcileClaims hreconcile
      intro claim hclaim
      obtain ⟨x, hx, hdevice, _⟩ := hremains claim hclaim
      rw [hdevice]
      exact hend.claimed x hx

end Gate

/-- A start with one assignment, whose device is connected and free. -/
theorem noneTaken_closedKey :
    let s := plugged [assignmentOf closedKey] [closedKey]
    NoneTaken runPaths s.stored
      ((checkUSBAssignments s.stored).run.eval (USBWorld.oblige true) s).2 := by
  intro s
  refine (noneTaken_iff (s := s) assigned_closedKey
    (@USBWorld.runs_oblige anyStep true (fun _ _ => trivial) _ _ _)).mpr ⟨?_, ?_⟩
  · intro a ha _ b hb _ _
    rw [List.mem_singleton.mp ha, List.mem_singleton.mp hb]
  · intro d hd d' hd' _ _ _
    rw [List.mem_singleton.mp hd, List.mem_singleton.mp hd']

/-- Two assignments that one security key matches pass the gate, and the start is aborted since the
second finds the key taken. -/
theorem gate_passes_taken : ∃ m s t u, Assigned runPaths m ∧
    (checkUSBAssignments m).run.Runs USBWorld.perform anyStep s (.ok ()) t ∧
    (attachAssignedUSB usb runPaths m).run.Runs USBWorld.perform anyStep t
      (.error (Message.text "attach assigned USB device 1050:0407 serial S1: " ++
        Message.text "USB device is already assigned to vm")) u ∧
    ¬ NoneTaken runPaths m t := by
  let s := plugged [assignmentOf closedKey, assignmentOf openKey] [openKey]
  have hgate : (checkUSBAssignments s.stored).run.Runs USBWorld.perform anyStep s (.ok ()) s :=
    @USBWorld.runs_oblige anyStep false (fun _ _ => trivial) _ _ _
  have hloop := @USBWorld.runs_oblige anyStep false (fun _ _ => trivial) _
    (attachAssignedUSB usb runPaths s.stored).run s
  have htaken : ((attachAssignedUSB usb runPaths s.stored).run.eval (USBWorld.oblige false) s).1 =
      .error (Message.text "attach assigned USB device 1050:0407 serial S1: " ++
        Message.text "USB device is already assigned to vm") := by
    decide +kernel
  rw [htaken] at hloop
  refine ⟨s.stored, s, s, _, assigned_openKey, hgate, hloop, fun h => ?_⟩
  have hpicks : picks [openKey] s.stored.usb = [openKey, openKey] := rfl
  have hapart := h.apart
  change (picks [openKey] s.stored.usb).Pairwise _ at hapart
  rw [hpicks] at hapart
  cases hapart with
  | cons hfirst _ => exact absurd (hfirst openKey (List.mem_singleton.mpr rfl)) (by decide)

end Maco.Engine
