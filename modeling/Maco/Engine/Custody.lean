import Maco.Engine.Rules
import Maco.Engine.Start
import Maco.Lib.Interleaving
import Maco.Lib.Fallible

/-! Which QEMU process has which USB device of the host: the registry that is stored, the pid files
and monitor sockets of the run directories and the devices of the processes, and what the calls of
the engine's operations do to them.  A pid stands for one process, which `Status` recognises by its
start time.  Processes exit and devices go at any time. -/

namespace Maco.Engine

open Concurrent

/-- `pidFile` has the process that a pid file names, with the file's generation; `monitor` is the
process that was last started to listen at a run directory's socket, `home` the run directory that a
process was started for, and `devices` are those that a process has, by their ids. -/
structure Custody where
  locks : LockName → Option Nat := fun _ => none
  claims : List USBClaim := []
  pidFile : String → Option (Nat × String) := fun _ => none
  monitor : String → Option Nat := fun _ => none
  home : Nat → Option String := fun _ => none
  alive : Nat → Bool := fun _ => false
  devices : Nat → String → Option Device := fun _ _ => none
  issued : String → Bool := fun _ => false

/-- The answer, whether a write that fails (or whose outcome is dropped) has taken effect, and the
generation of a pid file that is written. -/
structure CustodyChoice where
  answer : (a : EngineCall) → a.Reply
  took : Bool := false
  generation : String := ""

namespace Custody

variable (s : Custody) (i : Nat) (c : CustodyChoice)

/-- `Status`. -/
def running (runDir : String) : Option Nat :=
  match s.pidFile runDir with
  | some (pid, _) => if s.alive pid then some pid else none
  | none => none

/-- The process that answers at a monitor socket. -/
def listening (runDir : String) : Option Nat :=
  match s.monitor runDir with
  | some pid => if s.alive pid then some pid else none
  | none => none

/-- The answer is one that the state admits. -/
def accepts : EngineCall → Bool
  | .lock l => granted (c.answer (.lock l)) fun _ => decide (s.locks l = none)
  | .newString => !s.issued (c.answer .newString)
  | .qemu d .status => decide (c.answer (.qemu d .status) = s.running d)
  | .qemu d (.spawn spec) => granted (c.answer (.qemu d (.spawn spec))) fun pid =>
    decide (s.home pid = none)
  | .qemu d (.alive pid) => c.answer (.qemu d (.alive pid)) || !s.alive pid
  | .qemu d (.waitExit pid) => !c.answer (.qemu d (.waitExit pid)) || !s.alive pid
  | .usb .readClaims => granted (c.answer (.usb .readClaims)) fun claims =>
    decide (claims = s.claims)
  | .usb (.generation d) =>
    match c.answer (.usb (.generation d)) with
    | .found generation => decide ((s.pidFile d).map Prod.snd = some generation)
    | .missing => decide (s.pidFile d = none)
    | .error _ => true
  | .usb (.noProcess pid) => !c.answer (.usb (.noProcess pid)) || !s.alive pid
  | .usb (.observe d id) => granted (c.answer (.usb (.observe d id))) fun o =>
    match s.listening d with
    | some pid => o.exists_ == (s.devices pid id).isSome
    | none => false
  | .usb (.attach d id device) => granted (c.answer (.usb (.attach d id device))) fun _ =>
    (s.listening d).isSome
  | .usb (.detach d id) => granted (c.answer (.usb (.detach d id))) fun _ => (s.listening d).isSome
  | _ => true

/-! ### What a call changes -/

def exited (pid : Nat) : Custody :=
  { s with alive := Function.update s.alive pid false,
           devices := Function.update s.devices pid fun _ => none }

def unplugged (pid : Nat) (id : String) : Custody :=
  { s with devices :=
      Function.update s.devices pid (Function.update (s.devices pid) id none) }

def plugged (pid : Nat) (id : String) (device : Device) : Custody :=
  { s with devices :=
      Function.update s.devices pid (Function.update (s.devices pid) id (some device)) }

def spawned (runDir : String) (pid : Nat) : Custody :=
  { s with monitor := Function.update s.monitor runDir (some pid),
           home := Function.update s.home pid (some runDir),
           alive := Function.update s.alive pid true }

/-- The state after a call. -/
def after : EngineCall → Custody
  | .lock l =>
    if (c.answer (.lock l)).isOk then { s with locks := Function.update s.locks l (some i) } else s
  | .unlock l =>
    if s.locks l = some i then { s with locks := Function.update s.locks l none } else s
  | .newString => { s with issued := Function.update s.issued (c.answer .newString) true }
  | .qemu d (.spawn spec) =>
    match c.answer (.qemu d (.spawn spec)) with
    | .ok pid => s.spawned d pid
    | .error _ => s
  | .qemu d (.writePID pid) =>
    if (c.answer (.qemu d (.writePID pid))).isOk || c.took then
      { s with pidFile := Function.update s.pidFile d (some (pid, c.generation)) }
    else s
  | .qemu d .clearPID =>
    if c.took then { s with pidFile := Function.update s.pidFile d none } else s
  | .qemu _ (.kill pid) => s.exited pid
  | .usb (.saveClaims claims) =>
    if (c.answer (.usb (.saveClaims claims))).isOk || c.took then { s with claims := claims } else s
  | .usb (.attach d id device) =>
    match s.listening d with
    | some pid =>
      if (c.answer (.usb (.attach d id device))).isOk || c.took then s.plugged pid id device else s
    | none => s
  | .usb (.detach d id) =>
    match s.listening d with
    | some pid => if (c.answer (.usb (.detach d id))).isOk || c.took then s.unplugged pid id else s
    | none => s
  | _ => s

def perform : Perform EngineCall EngineCall.Reply CustodyChoice Custody :=
  fun a c s => if s.accepts c a then some (c.answer a, s.after i c a) else none

/-- The locks of a process go with it. -/
def die : Custody :=
  { s with locks := fun l => if s.locks l = some i then none else s.locks l }

theorem perform_cases {s : Custody} {i : Nat} {a : EngineCall} {c : CustodyChoice} {r : a.Reply}
    {t : Custody} (h : perform i a c s = some (r, t)) :
    s.accepts c a = true ∧ c.answer a = r ∧ s.after i c a = t := by
  rw [perform] at h
  split at h
  · rename_i haccepts
    simp only [Option.some.injEq, Prod.mk.injEq] at h
    exact ⟨haccepts, h⟩
  · contradiction

theorem running_eq_some {s : Custody} {d : String} {pid : Nat} :
    s.running d = some pid ↔ (∃ g, s.pidFile d = some (pid, g)) ∧ s.alive pid = true := by
  rw [running]
  split
  · rename_i p g hfile
    rw [hfile]
    split <;> simp <;> grind
  · rename_i hfile
    simp [hfile]

theorem listening_eq_some {s : Custody} {d : String} {pid : Nat} :
    s.listening d = some pid ↔ s.monitor d = some pid ∧ s.alive pid = true := by
  rw [listening]
  split
  · rename_i p hmonitor
    rw [hmonitor]
    split <;> simp <;> grind
  · rename_i hmonitor
    simp [hmonitor]

end Custody

/-- A process exits, or a device of a process goes. -/
inductive CustodyEvent where
  | exit (pid : Nat)
  | unplug (pid : Nat) (id : String)

def Custody.event (s : Custody) : CustodyEvent → Option Custody
  | .exit pid => some (s.exited pid)
  | .unplug pid id => some (s.unplugged pid id)

/-! ### What is kept -/

/-- A claim but for what is said of its state. -/
def USBClaim.core (claim : USBClaim) : USBClaim := claim.withState "" ""

@[simp] theorem USBClaim.core_withState (claim : USBClaim) (state reason : String) :
    (claim.withState state reason).core = claim.core := rfl

@[simp] theorem USBClaim.core_become (claim : USBClaim) (state : String) :
    (claim.become state).core = claim.core := rfl

/-- The place of a device on the host. -/
def Device.place (device : Device) : Int × String := (device.bus, device.port)

theorem sameUSBPort_iff {a b : Device} : sameUSBPort a b = true ↔ a.place = b.place := by
  simp [sameUSBPort, Device.place]

namespace Custody

/-- The claim is to that device of that process. -/
structure Covers (s : Custody) (claim : USBClaim) (pid : Nat) (id : String) (device : Device) :
    Prop where
  id_eq : claim.qemuID = id
  pid_eq : claim.pid = pid
  home : s.home pid = some claim.runDir
  file : s.pidFile claim.runDir = some (pid, claim.generation)
  place : claim.attachment.device.place = device.place

theorem Covers.same {s t : Custody} {claim : USBClaim} {pid : Nat} {id : String} {device : Device}
    (h : s.Covers claim pid id device) (hhome : t.home = s.home) (hfile : t.pidFile = s.pidFile) :
    t.Covers claim pid id device :=
  ⟨h.id_eq, h.pid_eq, hhome ▸ h.home, hfile ▸ h.file, h.place⟩

/-- The claims that are stored, but for their states. -/
def held (s : Custody) : List USBClaim := s.claims.map USBClaim.core

/-- A device is one of a process that runs, and that is the one which the pid file of its run
directory names; the registry has a claim to it.  No two claims are to one place or have one id. -/
structure Inv (s : Custody) : Prop where
  running : ∀ pid id device, s.devices pid id = some device → s.alive pid = true
  born : ∀ pid, s.alive pid = true → s.home pid ≠ none
  recorded : ∀ d pid g, s.pidFile d = some (pid, g) →
    s.home pid = some d ∧ (s.alive pid = true → s.monitor d = some pid)
  claimed : ∀ pid id device, s.devices pid id = some device →
    ∃ claim ∈ s.held, s.Covers claim pid id device
  places : (s.held.map (·.attachment.device.place)).Nodup
  distinct : (s.held.map (·.qemuID)).Nodup
  issued : ∀ claim ∈ s.held,
    claim.qemuID = usbDeviceID claim.attachment.id ∧ s.issued claim.attachment.id = true

/-- No process has a device of the id. -/
def Vacant (s : Custody) (id : String) : Prop := ∀ pid, s.devices pid id = none

/-- The process that the pid file of a run directory names was started and has exited. -/
def Idle (s : Custody) (d : String) : Prop :=
  ∀ pid g, s.pidFile d = some (pid, g) → s.home pid ≠ none ∧ s.alive pid = false

variable {s t : Custody} {i j : Nat} {c : CustodyChoice} {d id : String} {pid : Nat}

/-- What is stored for an id is the claim to each device of that id. -/
theorem Inv.covers (hs : s.Inv) {claim : USBClaim} {device : Device} (hc : claim ∈ s.held)
    (hd : s.devices pid claim.qemuID = some device) :
    s.Covers claim pid claim.qemuID device := by
  obtain ⟨other, ho, hcovers⟩ := hs.claimed pid claim.qemuID device hd
  obtain rfl := List.inj_on_of_nodup_map hs.distinct ho hc hcovers.id_eq
  exact hcovers

theorem vacant_of_covers (hs : s.Inv) {claim : USBClaim} (hc : claim.core ∈ s.held)
    (h : ∀ pid device, s.Covers claim pid claim.qemuID device → s.alive pid = true →
      s.devices pid claim.qemuID = some device → False) : s.Vacant claim.qemuID := by
  intro pid
  cases hd : s.devices pid claim.qemuID with
  | none => rfl
  | some device =>
    have hcovers := hs.covers hc hd
    exact (h pid device ⟨hcovers.id_eq, hcovers.pid_eq, hcovers.home, hcovers.file, hcovers.place⟩
      (hs.running pid claim.qemuID device hd) hd).elim

/-- The process that listens is the only one that can have a device which is claimed for its run
directory. -/
theorem vacant_of_listening (hs : s.Inv) {claim : USBClaim} (hc : claim.core ∈ s.held)
    (hl : s.listening claim.runDir = some pid) (hd : s.devices pid claim.qemuID = none) :
    s.Vacant claim.qemuID := by
  refine vacant_of_covers hs hc fun p device hcovers halive hdevice => ?_
  have hmonitor := (hs.recorded _ p _ hcovers.file).2 halive
  have heq := (listening_eq_some.mp hl).1
  rw [hmonitor] at heq
  cases heq
  rw [hd] at hdevice
  cases hdevice

theorem vacant_of_generation (hs : s.Inv) {claim : USBClaim} (hc : claim.core ∈ s.held)
    (h : (s.pidFile claim.runDir).map Prod.snd ≠ some claim.generation) :
    s.Vacant claim.qemuID := by
  refine vacant_of_covers hs hc fun p device hcovers _ _ => h ?_
  rw [hcovers.file]
  rfl

theorem vacant_of_exited (hs : s.Inv) {claim : USBClaim} (hc : claim.core ∈ s.held)
    (h : s.alive claim.pid = false) : s.Vacant claim.qemuID := by
  refine vacant_of_covers hs hc fun p device hcovers halive _ => ?_
  rw [← hcovers.pid_eq, h] at halive
  cases halive

theorem vacant_of_idle (hs : s.Inv) {claim : USBClaim} (hc : claim.core ∈ s.held)
    (h : s.Idle claim.runDir) : s.Vacant claim.qemuID := by
  refine vacant_of_covers hs hc fun p device hcovers halive _ => ?_
  rw [(h p _ hcovers.file).2] at halive
  cases halive

theorem idle_of_running (hs : s.Inv) (h : s.running d = none) : s.Idle d := by
  intro pid g hfile
  refine ⟨?_, ?_⟩
  · rw [(hs.recorded d pid g hfile).1]
    exact Option.some_ne_none d
  · rw [running, hfile] at h
    simpa using h

/-- The devices of processes of a run directory whose recorded process has exited. -/
theorem Inv.home_ne (hs : s.Inv) (hidle : s.Idle d) {device : Device}
    (hd : s.devices pid id = some device) : s.home pid ≠ some d := by
  intro hhome
  obtain ⟨claim, _, hcovers⟩ := hs.claimed pid id device hd
  have hdir := hcovers.home
  rw [hhome] at hdir
  cases hdir
  have halive := hs.running pid id device hd
  rw [(hidle pid _ hcovers.file).2] at halive
  cases halive

/-! #### Claims that are stored -/

/-- `new` are claims of `old`, and what is left out is vacant. -/
structure Kept (s : Custody) (old new : List USBClaim) : Prop where
  sublist : (new.map USBClaim.core).Sublist (old.map USBClaim.core)
  vacant : ∀ claim ∈ old.map USBClaim.core, claim ∉ new.map USBClaim.core →
    s.Vacant claim.qemuID

theorem Kept.refl (s : Custody) (l : List USBClaim) : s.Kept l l :=
  ⟨List.Sublist.refl _, fun _ h h' => (h' h).elim⟩

theorem Kept.trans {l1 l2 l3 : List USBClaim} (h : s.Kept l1 l2) (h' : s.Kept l2 l3) :
    s.Kept l1 l3 := by
  refine ⟨h'.sublist.trans h.sublist, fun claim h1 h3 => ?_⟩
  by_cases h2 : claim ∈ l2.map USBClaim.core
  · exact h'.vacant claim h2 h3
  · exact h.vacant claim h1 h2

theorem Inv.kept (hs : s.Inv) {l : List USBClaim} (h : s.Kept s.claims l) :
    ({ s with claims := l } : Custody).Inv where
  running := hs.running
  born := hs.born
  recorded := hs.recorded
  claimed pid id device hd := by
    obtain ⟨claim, hc, hcovers⟩ := hs.claimed pid id device hd
    by_cases hl : claim ∈ l.map USBClaim.core
    · exact ⟨claim, hl, hcovers.same rfl rfl⟩
    · have hvacant := h.vacant claim hc hl pid
      rw [hcovers.id_eq, hd] at hvacant
      cases hvacant
  places := hs.places.sublist (h.sublist.map _)
  distinct := hs.distinct.sublist (h.sublist.map _)
  issued claim hc := hs.issued claim (h.sublist.subset hc)

theorem usbDeviceID_injective {a b : String} (h : usbDeviceID a = usbDeviceID b) : a = b := by
  rw [usbDeviceID, usbDeviceID, ← String.toList_inj, String.toList_append,
    String.toList_append] at h
  exact String.toList_inj.mp (List.append_cancel_left h)

/-- A claim to a port that nobody claims, under an id that is new to the registry. -/
theorem Inv.claim (hs : s.Inv) {claim : USBClaim}
    (hid : claim.qemuID = usbDeviceID claim.attachment.id)
    (hissued : s.issued claim.attachment.id = true)
    (hfresh : ∀ other ∈ s.held, other.attachment.id ≠ claim.attachment.id)
    (hplace : ∀ other ∈ s.held,
      other.attachment.device.place ≠ claim.attachment.device.place) :
    ({ s with claims := s.claims ++ [claim] } : Custody).Inv := by
  have hheld : ({ s with claims := s.claims ++ [claim] } : Custody).held =
      s.held ++ [claim.core] := by
    simp [held]
  have hone : ∀ {α : Type} (f : USBClaim → α), f claim.core = f claim →
      (∀ other ∈ s.held, f other ≠ f claim) → (s.held.map f).Nodup →
      ((s.held ++ [claim.core]).map f).Nodup := by
    intro α f hf hne hnodup
    rw [List.map_append, List.nodup_append]
    refine ⟨hnodup, List.nodup_singleton _, fun a ha b hb heq => ?_⟩
    obtain ⟨other, ho, rfl⟩ := List.mem_map.mp ha
    obtain rfl := List.mem_singleton.mp hb
    exact hne other ho (heq.trans hf)
  refine ⟨hs.running, hs.born, hs.recorded, ?_, ?_, ?_, ?_⟩
  · intro pid id device hd
    obtain ⟨other, ho, hcovers⟩ := hs.claimed pid id device hd
    rw [hheld]
    exact ⟨other, List.mem_append_left _ ho, hcovers.same rfl rfl⟩
  · rw [hheld]
    exact hone _ rfl hplace hs.places
  · rw [hheld]
    refine hone _ rfl (fun other ho heq => ?_) hs.distinct
    have hqemu : usbDeviceID other.attachment.id = usbDeviceID claim.attachment.id := by
      rw [← (hs.issued other ho).1, ← hid]
      exact heq
    exact hfresh other ho (usbDeviceID_injective hqemu)
  · intro other ho
    rw [hheld] at ho
    rcases List.mem_append.mp ho with ho | ho
    · exact hs.issued other ho
    · obtain rfl := List.mem_singleton.mp ho
      exact ⟨hid, hissued⟩

end Custody

end Maco.Engine
