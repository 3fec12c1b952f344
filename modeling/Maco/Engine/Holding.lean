import Maco.Engine.Custody

/-! What each call does to who has which USB device, what the processes count on while the others
move, and the operations on the registry of claims.  The registry is written under its lock and the
pid file of a run directory under the lock of the machine; a claim is dropped only once no process
has its device. -/

namespace Maco.Engine.Custody

open Concurrent Network VM

variable {s t : Custody} {i j : Nat} {a : EngineCall} {c : CustodyChoice} {r : a.Reply}
  {d id : String} {pid : Nat}

/-! ### What a call keeps -/

/-- Nothing is added but ids, and the locks of the registry and of the machines stay as they are. -/
structure Lighter (s t : Custody) : Prop where
  claims : t.claims = s.claims
  pidFile : t.pidFile = s.pidFile
  monitor : t.monitor = s.monitor
  home : t.home = s.home
  registry : t.locks .registry = s.locks .registry
  vm : ∀ d, t.locks (.vm d) = s.locks (.vm d)
  issued : ∀ id, s.issued id = true → t.issued id = true
  alive : ∀ pid, t.alive pid = true → s.alive pid = true
  devices : ∀ pid id device, t.devices pid id = some device →
    s.devices pid id = some device ∧ (s.alive pid = true → t.alive pid = true)

theorem Lighter.refl (s : Custody) : Lighter s s :=
  ⟨rfl, rfl, rfl, rfl, rfl, fun _ => rfl, fun _ h => h, fun _ h => h,
    fun _ _ _ h => ⟨h, fun h => h⟩⟩

/-- The same up to the locks, among which those of the registry and of the machines are the same. -/
theorem lighter_locks {locks : LockName → Option Nat} (hr : locks .registry = s.locks .registry)
    (hv : ∀ d, locks (.vm d) = s.locks (.vm d)) : Lighter s { s with locks := locks } :=
  ⟨rfl, rfl, rfl, rfl, hr, hv, fun _ h => h, fun _ h => h, fun _ _ _ h => ⟨h, fun h => h⟩⟩

theorem lighter_exited : Lighter s (s.exited pid) := by
  refine ⟨rfl, rfl, rfl, rfl, rfl, fun _ => rfl, fun _ h => h, ?_, ?_⟩
  · intro p hp
    by_cases h : p = pid
    · subst h
      simp [exited] at hp
    · simpa [exited, Function.update_of_ne h] using hp
  · intro p id device hp
    by_cases h : p = pid
    · subst h
      simp [exited] at hp
    · simpa [exited, Function.update_of_ne h] using hp

theorem lighter_unplugged : Lighter s (s.unplugged pid id) := by
  refine ⟨rfl, rfl, rfl, rfl, rfl, fun _ => rfl, fun _ h => h, fun _ h => h, ?_⟩
  intro p q device hp
  refine ⟨?_, fun h => h⟩
  by_cases h : p = pid
  · subst h
    by_cases hq : q = id
    · subst hq
      simp [unplugged] at hp
    · simpa [unplugged, Function.update_of_ne hq] using hp
  · simpa [unplugged, Function.update_of_ne h] using hp

theorem Lighter.inv (h : Lighter s t) (hs : s.Inv) : t.Inv := by
  have hheld : t.held = s.held := by rw [held, held, h.claims]
  refine ⟨?_, ?_, ?_, ?_, hheld ▸ hs.places, hheld ▸ hs.distinct, ?_⟩
  · intro pid id device hd
    obtain ⟨hd', halive⟩ := h.devices pid id device hd
    exact halive (hs.running pid id device hd')
  · intro pid halive
    rw [h.home]
    exact hs.born pid (h.alive pid halive)
  · intro d pid g hfile
    rw [h.pidFile] at hfile
    obtain ⟨hhome, hmonitor⟩ := hs.recorded d pid g hfile
    rw [h.home, h.monitor]
    exact ⟨hhome, fun halive => hmonitor (h.alive pid halive)⟩
  · intro pid id device hd
    obtain ⟨claim, hc, hcovers⟩ := hs.claimed pid id device (h.devices pid id device hd).1
    rw [hheld]
    exact ⟨claim, hc, hcovers.same h.home h.pidFile⟩
  · intro claim hc
    rw [hheld] at hc
    obtain ⟨hid, hissued⟩ := hs.issued claim hc
    exact ⟨hid, h.issued _ hissued⟩

theorem Inv.spawned (hs : s.Inv) (hidle : s.Idle d) (hnew : s.home pid = none) :
    (s.spawned d pid).Inv := by
  have hne : ∀ p, s.home p ≠ none → p ≠ pid := by
    rintro p hp rfl
    exact hp hnew
  refine ⟨?_, ?_, ?_, ?_, hs.places, hs.distinct, hs.issued⟩
  · intro p id device hd
    have halive := hs.running p id device hd
    have hp := hne p (hs.born p halive)
    simpa [Custody.spawned, Function.update_of_ne hp] using halive
  · intro p halive
    by_cases hp : p = pid
    · subst hp
      simp [Custody.spawned]
    · simp only [Custody.spawned, Function.update_of_ne hp] at halive ⊢
      exact hs.born p halive
  · intro d' p g hfile
    obtain ⟨hhome, hmonitor⟩ := hs.recorded d' p g hfile
    have hp : p ≠ pid := hne p (by rw [hhome]; exact Option.some_ne_none d')
    simp only [Custody.spawned, Function.update_of_ne hp]
    refine ⟨hhome, fun halive => ?_⟩
    have hd : d' ≠ d := by
      rintro rfl
      have hdead := (hidle p g hfile).2
      rw [halive] at hdead
      cases hdead
    rw [Function.update_of_ne hd]
    exact hmonitor halive
  · intro p id device hd
    obtain ⟨claim, hc, hcovers⟩ := hs.claimed p id device hd
    have hp := hne p (hs.born p (hs.running p id device hd))
    refine ⟨claim, hc, hcovers.id_eq, hcovers.pid_eq, ?_, hcovers.file, hcovers.place⟩
    simpa [Custody.spawned, Function.update_of_ne hp] using hcovers.home

/-- The pid file of a run directory changes while the process that it names has exited. -/
theorem Inv.wrote (hs : s.Inv) (hidle : s.Idle d) {file : Option (Nat × String)}
    (hfile : ∀ p g, file = some (p, g) → s.home p = some d ∧ s.monitor d = some p) :
    ({ s with pidFile := Function.update s.pidFile d file } : Custody).Inv := by
  refine ⟨hs.running, hs.born, ?_, ?_, hs.places, hs.distinct, hs.issued⟩
  · intro d' p g h
    by_cases hd : d' = d
    · subst hd
      obtain ⟨hhome, hmonitor⟩ := hfile p g (by simpa using h)
      exact ⟨hhome, fun _ => hmonitor⟩
    · exact hs.recorded d' p g (by simpa [Function.update_of_ne hd] using h)
  · intro p id device hdevice
    obtain ⟨claim, hc, hcovers⟩ := hs.claimed p id device hdevice
    refine ⟨claim, hc, hcovers.id_eq, hcovers.pid_eq, hcovers.home, ?_, hcovers.place⟩
    have hd : claim.runDir ≠ d := by
      rintro rfl
      exact hs.home_ne hidle hdevice hcovers.home
    simpa [Function.update_of_ne hd] using hcovers.file

/-- A process gets the device that a claim is to. -/
theorem Inv.plugged (hs : s.Inv) {claim : USBClaim} (hc : claim.core ∈ s.held)
    (halive : s.alive pid = true) (hpid : claim.pid = pid) (hhome : s.home pid = some claim.runDir)
    (hfile : s.pidFile claim.runDir = some (pid, claim.generation)) :
    (s.plugged pid claim.qemuID claim.attachment.device).Inv := by
  refine ⟨?_, hs.born, hs.recorded, ?_, hs.places, hs.distinct, hs.issued⟩
  · intro p q device hd
    by_cases hp : p = pid
    · subst hp
      exact halive
    · exact hs.running p q device (by simpa [Custody.plugged, Function.update_of_ne hp] using hd)
  · intro p q device hd
    by_cases hq : p = pid ∧ q = claim.qemuID
    · obtain ⟨rfl, rfl⟩ := hq
      have hdevice : claim.attachment.device = device := by simpa [Custody.plugged] using hd
      subst hdevice
      exact ⟨claim.core, hc, rfl, hpid, hhome, hfile, rfl⟩
    · have hold : s.devices p q = some device := by
        by_cases hp : p = pid
        · subst hp
          have hq' : q ≠ claim.qemuID := fun h => hq ⟨rfl, h⟩
          simpa [Custody.plugged, Function.update_of_ne hq'] using hd
        · simpa [Custody.plugged, Function.update_of_ne hp] using hd
      obtain ⟨other, ho, hcovers⟩ := hs.claimed p q device hold
      exact ⟨other, ho, hcovers.same rfl rfl⟩

/-! ### What the processes count on -/

/-- A process that has exited stays so, and under the lock of a machine the pid file and the monitor
of its run directory stay. -/
structure Onward (i : Nat) (s t : Custody) : Prop where
  home : ∀ pid, s.home pid ≠ none → t.home pid = s.home pid
  dead : ∀ pid, s.home pid ≠ none → s.alive pid = false → t.alive pid = false
  issued : ∀ id, s.issued id = true → t.issued id = true
  vm : ∀ d, s.locks (.vm d) = some i → t.locks (.vm d) = some i ∧ t.pidFile d = s.pidFile d ∧
    t.monitor d = s.monitor d

/-- What a process counts on while the others move: under the lock of the registry, also that the
claims stay and that no device is added. -/
structure Rely (i : Nat) (s t : Custody) : Prop extends Onward i s t where
  registry : s.locks .registry = some i → t.locks .registry = some i ∧ t.claims = s.claims ∧
    ∀ pid id device, t.devices pid id = some device → s.devices pid id = some device

theorem Onward.refl (i : Nat) (s : Custody) : Onward i s s :=
  ⟨fun _ _ => rfl, fun _ _ h => h, fun _ h => h, fun _ h => ⟨h, rfl, rfl⟩⟩

/-- Neither the run directories nor their processes change. -/
theorem onward_same (hhome : t.home = s.home) (halive : t.alive = s.alive)
    (hissued : t.issued = s.issued) (hfile : t.pidFile = s.pidFile)
    (hmonitor : t.monitor = s.monitor)
    (hvm : ∀ d, s.locks (.vm d) = some i → t.locks (.vm d) = some i) : Onward i s t where
  home _ _ := by rw [hhome]
  dead _ _ h := by
    rw [halive]
    exact h
  issued _ h := by
    rw [hissued]
    exact h
  vm d h := ⟨hvm d h, by rw [hfile], by rw [hmonitor]⟩

theorem Onward.trans (i : Nat) (s t u : Custody) (h : Onward i s t) (h' : Onward i t u) :
    Onward i s u := by
  have hborn : ∀ pid, s.home pid ≠ none → t.home pid ≠ none := by
    intro pid hp
    rw [h.home pid hp]
    exact hp
  refine ⟨?_, ?_, fun id hid => h'.issued id (h.issued id hid), ?_⟩
  · intro pid hp
    exact (h'.home pid (hborn pid hp)).trans (h.home pid hp)
  · intro pid hp hdead
    exact h'.dead pid (hborn pid hp) (h.dead pid hp hdead)
  · intro d hlock
    obtain ⟨hlock1, hfile1, hmonitor1⟩ := h.vm d hlock
    obtain ⟨hlock2, hfile2, hmonitor2⟩ := h'.vm d hlock1
    exact ⟨hlock2, hfile2.trans hfile1, hmonitor2.trans hmonitor1⟩

theorem Rely.refl (i : Nat) (s : Custody) : Rely i s s :=
  ⟨.refl i s, fun h => ⟨h, rfl, fun _ _ _ h => h⟩⟩

theorem Rely.trans (i : Nat) (s t u : Custody) (h : Rely i s t) (h' : Rely i t u) :
    Rely i s u := by
  refine ⟨.trans i s t u h.toOnward h'.toOnward, fun hlock => ?_⟩
  obtain ⟨hlock1, hclaims1, hdevices1⟩ := h.registry hlock
  obtain ⟨hlock2, hclaims2, hdevices2⟩ := h'.registry hlock1
  exact ⟨hlock2, hclaims2.trans hclaims1,
    fun pid id device hd => hdevices1 pid id device (hdevices2 pid id device hd)⟩

theorem Lighter.rely (h : Lighter s t) (i : Nat) : Rely i s t := by
  refine ⟨⟨fun pid _ => by rw [h.home], ?_, h.issued, ?_⟩, ?_⟩
  · intro pid _ hdead
    by_contra halive
    rw [h.alive pid (by simpa using halive)] at hdead
    cases hdead
  · intro d hlock
    exact ⟨h.vm d ▸ hlock, by rw [h.pidFile], by rw [h.monitor]⟩
  · intro hlock
    exact ⟨h.registry ▸ hlock, h.claims, fun pid id device hd => (h.devices pid id device hd).1⟩

/-- Claims are stored and devices attached under the lock of the registry; QEMU is started and a pid
file written under that of the machine. -/
def Entitled (s : Custody) (i : Nat) : EngineCall → Prop
  | .usb (.saveClaims _) | .usb (.attach _ _ _) => s.locks .registry = some i
  | .qemu d (.spawn _) | .qemu d (.writePID _) | .qemu d .clearPID => s.locks (.vm d) = some i
  | _ => True

/-- The call takes and frees no lock that counts here, and adds nothing. -/
def Quiet : EngineCall → Prop
  | .lock .registry | .lock (.vm _) | .unlock .registry | .unlock (.vm _) => False
  | .usb (.saveClaims _) | .usb (.attach _ _ _) => False
  | .qemu _ (.spawn _) | .qemu _ (.writePID _) | .qemu _ .clearPID => False
  | _ => True

/-- The call adds nothing. -/
def Aside : EngineCall → Prop
  | .usb (.saveClaims _) | .usb (.attach _ _ _) => False
  | .qemu _ (.spawn _) | .qemu _ (.writePID _) | .qemu _ .clearPID => False
  | _ => True

theorem lighter_detach {q : String} : Lighter s (s.after i c (.usb (.detach d q))) := by
  simp only [after]
  split
  · split
    · exact lighter_unplugged
    · exact .refl s
  · exact .refl s

theorem lighter_newString : Lighter s (s.after i c .newString) := by
  refine ⟨rfl, rfl, rfl, rfl, rfl, fun _ => rfl, ?_, fun _ h => h, fun _ _ _ h => ⟨h, fun h => h⟩⟩
  intro id hid
  by_cases h : id = c.answer .newString
  · subst h
    simp [after]
  · simpa [after, Function.update_of_ne h] using hid

theorem lighter_lock {l : LockName} (hr : l ≠ .registry) (hv : ∀ d, l ≠ .vm d) :
    Lighter s (s.after i c (.lock l)) := by
  simp only [after]
  split
  · exact lighter_locks (Function.update_of_ne hr.symm _ _)
      fun d => Function.update_of_ne (hv d).symm _ _
  · exact .refl s

theorem lighter_unlock {l : LockName} (hr : l ≠ .registry) (hv : ∀ d, l ≠ .vm d) :
    Lighter s (s.after i c (.unlock l)) := by
  simp only [after]
  split
  · exact lighter_locks (Function.update_of_ne hr.symm _ _)
      fun d => Function.update_of_ne (hv d).symm _ _
  · exact .refl s

theorem lighter_quiet (ha : Quiet a) : Lighter s (s.after i c a) := by
  cases a with
  | lock l => cases l <;> first | exact ha.elim | exact lighter_lock (by simp) (by simp)
  | unlock l => cases l <;> first | exact ha.elim | exact lighter_unlock (by simp) (by simp)
  | newString => exact lighter_newString
  | qemu d q =>
    cases q with
    | kill pid => exact lighter_exited
    | spawn _ | writePID _ | clearPID => exact ha.elim
    | _ => exact .refl s
  | usb u =>
    cases u with
    | detach d q => exact lighter_detach
    | saveClaims _ | attach _ _ _ => exact ha.elim
    | _ => exact .refl s
  | _ => exact .refl s

theorem lock_free {l : LockName} (h : s.accepts c (.lock l) = true)
    (hok : (c.answer (.lock l)).isOk = true) : s.locks l = none := by
  cases hr : c.answer (.lock l) with
  | ok u =>
    rw [accepts, hr] at h
    exact of_decide_eq_true h
  | error e =>
    rw [hr] at hok
    cases hok

theorem spawn_new {spec : Spec} (h : s.accepts c (.qemu d (.spawn spec)) = true)
    (hr : c.answer (.qemu d (.spawn spec)) = .ok pid) : s.home pid = none := by
  rw [accepts, hr] at h
  exact of_decide_eq_true h

/-- What a call does is what the other processes count on. -/
theorem rely_others (h : perform i a c s = some (r, t)) (ha : s.Entitled i a) (hj : j ≠ i) :
    Rely j s t := by
  obtain ⟨haccepts, -, rfl⟩ := perform_cases h
  by_cases hquiet : Quiet a
  · exact (lighter_quiet hquiet).rely j
  have hmine : ∀ {l : LockName}, s.locks l = some i → s.locks l ≠ some j := by
    intro l hl hl'
    rw [hl] at hl'
    exact hj (by simpa using hl'.symm)
  have hrely : ∀ {locks : LockName → Option Nat}, (∀ l, s.locks l = some j → locks l = some j) →
      Rely j s { s with locks := locks } := fun h' =>
    ⟨onward_same rfl rfl rfl rfl rfl fun _ => h' _, fun h => ⟨h' _ h, rfl, fun _ _ _ h => h⟩⟩
  cases a with
  | lock l =>
    simp only [after]
    split
    · rename_i hok
      refine hrely fun k hk => ?_
      have hkl : k ≠ l := by
        rintro rfl
        rw [lock_free haccepts hok] at hk
        cases hk
      rw [Function.update_of_ne hkl]
      exact hk
    · exact .refl j s
  | unlock l =>
    simp only [after]
    split
    · rename_i hheld
      refine hrely fun k hk => ?_
      have hkl : k ≠ l := by
        rintro rfl
        exact hmine hheld hk
      rw [Function.update_of_ne hkl]
      exact hk
    · exact .refl j s
  | qemu d q =>
    cases q with
    | spawn spec =>
      cases hr : c.answer (.qemu d (.spawn spec)) with
      | error e =>
        simp only [after, hr]
        exact .refl j s
      | ok pid =>
        have hnew := spawn_new haccepts hr
        have hne : ∀ p, s.home p ≠ none → p ≠ pid := by
          rintro p hp rfl
          exact hp hnew
        simp only [after, hr]
        refine ⟨⟨?_, ?_, fun _ h => h, fun d' h' => ⟨h', rfl, ?_⟩⟩,
          fun h => ⟨h, rfl, fun _ _ _ h => h⟩⟩
        · intro p hp
          simp [spawned, Function.update_of_ne (hne p hp)]
        · intro p hp hdead
          simpa [spawned, Function.update_of_ne (hne p hp)] using hdead
        · have hd : d' ≠ d := by
            rintro rfl
            exact hmine ha h'
          simp [spawned, Function.update_of_ne hd]
    | writePID pid =>
      simp only [after]
      split
      · refine ⟨⟨fun _ _ => rfl, fun _ _ h => h, fun _ h => h,
          fun d' h' => ⟨h', Function.update_of_ne ?_ _ _, rfl⟩⟩,
          fun h => ⟨h, rfl, fun _ _ _ h => h⟩⟩
        rintro rfl
        exact hmine ha h'
      · exact .refl j s
    | clearPID =>
      simp only [after]
      split
      · refine ⟨⟨fun _ _ => rfl, fun _ _ h => h, fun _ h => h,
          fun d' h' => ⟨h', Function.update_of_ne ?_ _ _, rfl⟩⟩,
          fun h => ⟨h, rfl, fun _ _ _ h => h⟩⟩
        rintro rfl
        exact hmine ha h'
      · exact .refl j s
    | _ => exact (hquiet trivial).elim
  | usb u =>
    cases u with
    | saveClaims l =>
      simp only [after]
      split
      · exact ⟨onward_same rfl rfl rfl rfl rfl fun _ h => h, fun h => (hmine ha h).elim⟩
      · exact .refl j s
    | attach d q device =>
      have hplugged : ∀ pid, Rely j s (s.plugged pid q device) := fun pid =>
        ⟨onward_same rfl rfl rfl rfl rfl fun _ h => h, fun h => (hmine ha h).elim⟩
      simp only [after]
      split
      · split
        · exact hplugged _
        · exact .refl j s
      · exact .refl j s
    | _ => exact (hquiet trivial).elim
  | _ => exact (hquiet trivial).elim

/-! ### The system -/

/-- The operations that attach and detach devices and start and stop machines; `other` is any
operation that does none of this. -/
inductive CustodyOp where
  | startVM (ref : String)
  | stopVM (ref : String) (guestShutdown : Bool)
  | listUSB
  | listVMUSB (ref : String)
  | attachUSB (ref : String) (params : USBParams)
  | detachUSB (ref id : String)
  | assignUSB (ref deviceID fingerprint : String)
  | unassignUSB (ref key : String)
  | other (p : EngineM Unit) (aside : p.run.Calls Aside)

def custodyProgram (x : Texts) (inv : Inventory) (e : Paths) : CustodyOp → EngineM Unit
  | .startVM ref => do
    let _ ← startVM x inv e ref
  | .stopVM ref guestShutdown => stopVM e ref guestShutdown
  | .listUSB => do
    let _ ← listUSBDevices
  | .listVMUSB ref => do
    let _ ← listVMUSB e ref
  | .attachUSB ref params => do
    let _ ← attachUSB inv e ref params
  | .detachUSB ref id => detachUSB x e ref id
  | .assignUSB ref deviceID fingerprint => do
    let _ ← assignUSB inv e ref deviceID fingerprint
  | .unassignUSB ref key => unassignUSB e ref key
  | .other p _ => p

/-- Any number of processes run operations, each with paths of its own. -/
def custodySystem (x : Texts) (inv : Inventory) :
    System EngineCall EngineCall.Reply CustodyChoice Custody (Paths × CustodyOp) CustodyEvent
      (Except Message Unit) where
  perform := perform
  code op := (custodyProgram x inv op.1 op.2).run
  die i s := s.die i
  env e s := s.event e

/-- The setting of process `i`. -/
def setting (i : Nat) : Setting EngineCall EngineCall.Reply CustodyChoice Custody where
  perform := perform i
  allowed _ _ _ := True
  rely s t := Rely i s t ∧ t.Inv
  guar s t := t.Inv ∧ True ∧ ∀ j, j ≠ i → Rely j s t

/-- What a program keeps that leaves the registry and the run directories to the others. -/
def quietly (i : Nat) : Keeping (setting i) where
  Inv := Inv
  le := Rely i
  refl := Rely.refl i
  trans := Rely.trans i
  rely _ _ _ h := ⟨h.2, h.1⟩

/-- What a program keeps that writes the registry. -/
def registering (i : Nat) : Keeping (setting i) where
  Inv := Inv
  le := Onward i
  refl := Onward.refl i
  trans := Onward.trans i
  rely _ _ _ h := ⟨h.2, h.1.toOnward⟩

/-- What every program keeps. -/
def anyhow (i : Nat) : Keeping (setting i) where
  Inv := Inv
  le _ _ := True
  refl _ := trivial
  trans _ _ _ _ _ := trivial
  rely _ _ _ h := ⟨h.2, trivial⟩

section Rules

variable {α β : Type} {e : Paths}

theorem tolerates_quiet : (quietly i).Tolerates Quiet := by
  intro a ha s c r t hs _ h
  obtain ⟨-, -, rfl⟩ := perform_cases h
  have hlighter := lighter_quiet (i := i) (c := c) ha (s := s)
  exact ⟨⟨hlighter.inv hs, trivial, fun j _ => hlighter.rely j⟩, hlighter.inv hs, hlighter.rely i⟩

/-- A quiet call, by what the state admits of its answer. -/
theorem keeps_ask {Q : a.Reply → Custody → Prop} (ha : Quiet a)
    (h : ∀ t c, Rely i s t → t.Inv → t.accepts c a = true →
      Q (c.answer a) (t.after i c a)) : (quietly i).Keeps (engineCall a) Q s := by
  refine Keeping.Keeps.request fun t hst ht c r u hc hp => ?_
  obtain ⟨hguar, hu, htu⟩ := tolerates_quiet a ha t c r u ht hc hp
  obtain ⟨haccepts, rfl, rfl⟩ := perform_cases hp
  exact ⟨hguar, hu, htu, h t c hst ht haccepts⟩

theorem quiet_save {m : VMManifest} : (save m).run.Calls Quiet := by
  refine .andThen (calls_query (.request trivial)) fun r => ?_
  cases r with
  | ok u => exact .pure _
  | error err => exact calls_fail

/-! ### The registry -/

theorem held_eq (h : Rely i s t) (hlock : s.locks .registry = some i) : t.held = s.held := by
  rw [held, held, (h.registry hlock).2.1]

theorem vacant_rely (h : Rely i s t) (hlock : s.locks .registry = some i) (hv : s.Vacant id) :
    t.Vacant id := by
  intro pid
  cases hd : t.devices pid id with
  | none => rfl
  | some device =>
    have hd' := (h.registry hlock).2.2 pid id device hd
    rw [hv pid] at hd'
    cases hd'

theorem kept_rely {old new : List USBClaim} (h : Rely i s t) (hlock : s.locks .registry = some i)
    (hk : s.Kept old new) : t.Kept old new :=
  ⟨hk.sublist, fun claim ho hn => vacant_rely h hlock (hk.vacant claim ho hn)⟩

theorem seen_core {claim kept : USBClaim} {known : Bool} {o : Except Message USBObservation}
    (h : claim.seen known o = some kept) : kept.core = claim.core := by
  unfold USBClaim.seen at h
  split at h
  · split at h
    · cases h
    · split at h <;> (cases h; rfl)
  · cases h
    rfl

theorem seen_none {claim : USBClaim} {known : Bool} {o : Except Message USBObservation}
    (h : claim.seen known o = none) : ∃ observed, o = .ok observed ∧ observed.exists_ = false := by
  unfold USBClaim.seen at h
  split at h
  · rename_i observed
    split at h
    · rename_i hexists
      exact ⟨observed, rfl, by simpa using hexists⟩
    · split at h <;> cases h
  · cases h

theorem keeps_observe {claim : USBClaim} (hlock : s.locks .registry = some i)
    (hc : claim.core ∈ s.held) :
    (quietly i).Keeps (usbCall (.observe claim.runDir claim.qemuID))
      (fun (o : Except Message USBObservation) t =>
        ∀ x, o = .ok x → x.exists_ = false → t.Vacant claim.qemuID) s := by
  refine keeps_ask trivial fun t c hst ht haccepts x hx hexists => ?_
  rw [accepts, hx] at haccepts
  simp only [granted] at haccepts
  split at haccepts
  · rename_i pid hl
    refine vacant_of_listening ht (held_eq hst hlock ▸ hc) hl ?_
    rw [hexists] at haccepts
    simpa using haccepts
  · cases haccepts

theorem keeps_generation {claim : USBClaim} (hlock : s.locks .registry = some i)
    (hc : claim.core ∈ s.held) :
    (quietly i).Keeps (usbCall (.generation claim.runDir)) (fun (g : Generation) t =>
      (g = .missing → t.Vacant claim.qemuID) ∧
        ∀ x, g = .found x → x ≠ claim.generation → t.Vacant claim.qemuID) s := by
  refine keeps_ask trivial fun t c hst ht haccepts => ?_
  have hct : claim.core ∈ t.held := held_eq hst hlock ▸ hc
  rw [accepts] at haccepts
  constructor
  · intro hmissing
    rw [hmissing] at haccepts
    refine vacant_of_generation ht hct ?_
    rw [of_decide_eq_true haccepts]
    simp
  · intro x hfound hne
    rw [hfound] at haccepts
    refine vacant_of_generation ht hct ?_
    rw [of_decide_eq_true haccepts]
    simpa using hne

theorem keeps_noProcess {claim : USBClaim} (hlock : s.locks .registry = some i)
    (hc : claim.core ∈ s.held) :
    (quietly i).Keeps (usbCall (.noProcess claim.pid)) (fun (gone : Bool) t =>
      gone = true → t.Vacant claim.qemuID) s := by
  refine keeps_ask trivial fun t c hst ht haccepts hgone => ?_
  rw [accepts, hgone] at haccepts
  refine vacant_of_exited ht (held_eq hst hlock ▸ hc) ?_
  simpa using haccepts

/-- `reconcile` drops a claim only where no process has its device. -/
theorem keeps_reconcileClaim {claim : USBClaim} (hlock : s.locks .registry = some i)
    (hc : claim.core ∈ s.held) :
    (quietly i).Keeps (reconcileClaim claim) (fun kept t =>
      (∀ new, kept = some new → new.core = claim.core) ∧
        (kept = none → t.Vacant claim.qemuID)) s := by
  have hobserved : ∀ known t, Rely i s t → (quietly i).Keeps
      (do
        let observed ← usbCall (.observe claim.runDir claim.qemuID)
        return claim.seen known observed) (fun kept t =>
          (∀ new, kept = some new → new.core = claim.core) ∧
            (kept = none → t.Vacant claim.qemuID)) t := by
    intro known t hst
    refine .bind (keeps_observe (hst.registry hlock).1 (held_eq hst hlock ▸ hc)) ?_
    intro o u _ hgone
    refine .pure ⟨fun new => seen_core, fun hnone => ?_⟩
    obtain ⟨x, rfl, hexists⟩ := seen_none hnone
    exact hgone x rfl hexists
  refine .bind (keeps_generation hlock hc) ?_
  rintro g t hst ⟨hmissing, hother⟩
  cases g with
  | missing => exact .pure ⟨nofun, fun _ => hmissing rfl⟩
  | error e => exact hobserved false t hst
  | found generation =>
    dsimp only
    split
    · rename_i hne
      exact .pure ⟨nofun, fun _ => hother generation rfl hne⟩
    · refine .bind (keeps_noProcess (hst.registry hlock).1 (held_eq hst hlock ▸ hc)) ?_
      intro gone u htu hgone
      split
      · rename_i htrue
        exact .pure ⟨nofun, fun _ => hgone htrue⟩
      · exact hobserved true u (Rely.trans i s t u hst htu)

theorem keeps_reconcileClaims {claims : List USBClaim} (hlock : s.locks .registry = some i)
    (hc : ∀ claim ∈ claims, claim.core ∈ s.held) :
    (quietly i).Keeps (reconcileClaims claims) (fun kept t => t.Kept claims kept) s := by
  induction claims generalizing s with
  | nil => exact .pure (.refl s [])
  | cons claim claims ih =>
    refine Keeping.Keeps.bind (keeps_reconcileClaim hlock (hc claim List.mem_cons_self)) ?_
    rintro kept t hst ⟨hsame, hnone⟩
    have hlockt := (hst.registry hlock).1
    refine Keeping.Keeps.bind (ih hlockt fun other ho => ?_) ?_
    · rw [held_eq hst hlock]
      exact hc other (List.mem_cons_of_mem claim ho)
    · intro rest u htu hrest
      refine .pure ?_
      cases kept with
      | none =>
        refine ⟨hrest.sublist.cons _, fun other ho hn => ?_⟩
        rcases List.mem_cons.mp ho with rfl | ho
        · exact vacant_rely htu hlockt (hnone rfl)
        · exact hrest.vacant other ho hn
      | some new =>
        have hcore := hsame new rfl
        refine ⟨?_, fun other ho hn => ?_⟩
        · show (new.core :: rest.map USBClaim.core).Sublist _
          rw [hcore]
          exact hrest.sublist.cons_cons _
        · rcases List.mem_cons.mp ho with rfl | ho
          · exact (hn (List.mem_cons.mpr (.inl hcore.symm))).elim
          · exact hrest.vacant other ho fun h => hn (List.mem_cons_of_mem _ h)

/-! #### Writes of the registry -/

/-- A keeping of the setting that is no finer than that of quiet programs. -/
structure Coarse (K : Keeping (setting i)) : Prop where
  inv : ∀ s, s.Inv ↔ K.Inv s
  le : ∀ s t, Rely i s t → K.le s t

theorem coarse_registering : Coarse (registering i) := ⟨fun _ => Iff.rfl, fun _ _ => Rely.toOnward⟩

theorem coarse_anyhow : Coarse (anyhow i) := ⟨fun _ => Iff.rfl, fun _ _ _ => trivial⟩

section Coarse

variable {K : Keeping (setting i)} (hK : Coarse K)

include hK in
theorem coarse_query {p : EngineProg α} {f : α → EngineM β} {P : α → Custody → Prop}
    {Q : β → Custody → Prop} (h : (quietly i).Keeps p P s)
    (hf : ∀ x t, Rely i s t → P x t → K.KeepsOk (f x) Q t) : K.KeepsOk (query p >>= f) Q s :=
  .bind (.lift (Keeping.Keeps.coarsen h hK.inv hK.le)) fun x t _ hx => hf x t hx.1 hx.2

include hK in
theorem coarse_bind {p : EngineM α} {f : α → EngineM β} {P : α → Custody → Prop}
    {Q : β → Custody → Prop} (h : (quietly i).KeepsOk p P s)
    (hf : ∀ x t, Rely i s t → P x t → K.KeepsOk (f x) Q t) : K.KeepsOk (p >>= f) Q s :=
  .bind (Keeping.KeepsOk.coarsen h hK.inv hK.le) fun x t _ hx => hf x t hx.1 hx.2

include hK in
/-- A call that the process is entitled to, by what the state admits of its answer. -/
theorem coarse_step {Q : a.Reply → Custody → Prop} (ha : ∀ t, Rely i s t → t.Entitled i a)
    (h : ∀ t c, Rely i s t → t.Inv → t.accepts c a = true →
      (t.after i c a).Inv ∧ K.le s (t.after i c a) ∧ Q (c.answer a) (t.after i c a)) :
    K.Keeps (engineCall a) Q s := by
  rintro hs t ⟨hst, ht⟩ c r u _ hp
  have hothers : ∀ j, j ≠ i → Rely j t u := fun j hj => rely_others hp (ha t hst) hj
  obtain ⟨haccepts, rfl, rfl⟩ := perform_cases hp
  obtain ⟨hinv, hle, hQ⟩ := h t c hst ht haccepts
  exact ⟨⟨hinv, trivial, hothers⟩, (hK.inv _).mp hinv, hle, hQ⟩

include hK in
theorem coarse_done {p : EngineM α} {P : α → Custody → Prop} (h : (quietly i).KeepsOk p P s) :
    K.KeepsOk p (fun _ _ => True) s :=
  .mono (Keeping.KeepsOk.coarsen h hK.inv hK.le) fun _ _ _ _ => trivial

include hK in
/-- Quiet calls, of whose answers nothing is needed. -/
theorem coarse_calls {p : EngineM α} {f : α → EngineM β} {Q : β → Custody → Prop}
    (h : p.run.Calls Quiet) (hf : ∀ x t, Rely i s t → K.KeepsOk (f x) Q t) :
    K.KeepsOk (p >>= f) Q s :=
  coarse_bind hK (tolerates_quiet.keepsOk h) fun x t hst _ => hf x t hst

include hK in
theorem coarse_end {p : EngineM α} (h : p.run.Calls Quiet) :
    K.KeepsOk p (fun _ _ => True) s := coarse_done hK (tolerates_quiet.keepsOk h)

end Coarse

theorem keepsOk_fail {K : Keeping (setting i)} {err : Message} {Q : α → Custody → Prop} :
    K.KeepsOk (fail err) Q s := .fail

theorem keepsOk_ensureThat {K : Keeping (setting i)} {cond : Bool} {err : Message} {p : EngineM α}
    {Q : α → Custody → Prop} (h : cond = true → K.KeepsOk p Q s) :
    K.KeepsOk (ensureThat cond err >>= fun _ => p) Q s := by
  unfold ensureThat
  split
  · rename_i hc
    exact h hc
  · exact .fail

/-- The registry is stored with claims that it may have. -/
theorem keeps_save {l : List USBClaim} (hlock : s.locks .registry = some i)
    (hl : ∀ t, Rely i s t → t.Inv → ({ t with claims := l } : Custody).Inv) :
    (registering i).Keeps (usbCall (.saveClaims l)) (fun (r : Except Message Unit) t =>
      r.isOk = true → t.locks .registry = some i ∧ t.claims = l) s := by
  refine coarse_step coarse_registering (fun t hst => (hst.registry hlock).1)
    fun t c hst ht _ => ?_
  have hlockt := (hst.registry hlock).1
  obtain ⟨hinv, honward⟩ : (t.after i c (.usb (.saveClaims l))).Inv ∧
      Onward i t (t.after i c (.usb (.saveClaims l))) := by
    simp only [after]
    split
    · exact ⟨hl t hst ht, onward_same rfl rfl rfl rfl rfl fun _ h => h⟩
    · exact ⟨ht, .refl i t⟩
  refine ⟨hinv, .trans i s t _ hst.toOnward honward, fun hok => ?_⟩
  simp [after, hok, hlockt]

theorem keeps_saveClaims {l : List USBClaim} (hlock : s.locks .registry = some i)
    (hl : ∀ t, Rely i s t → t.Inv → ({ t with claims := l } : Custody).Inv) :
    (registering i).KeepsOk (saveClaims l)
      (fun _ t => t.locks .registry = some i ∧ t.claims = l) s :=
  Keeping.Keeps.mono (keeps_save hlock hl) fun r t _ hr x hx => hr (by rw [hx]; rfl)

theorem inv_kept {l : List USBClaim} (hlock : s.locks .registry = some i)
    (hl : s.Kept s.claims l) (hst : Rely i s t) (ht : t.Inv) :
    ({ t with claims := l } : Custody).Inv := by
  have hk := kept_rely hst hlock hl
  rw [← (hst.registry hlock).2.1] at hk
  exact ht.kept hk

/-- What remains of the claims is stored. -/
theorem keeps_saveKept {l : List USBClaim} (hlock : s.locks .registry = some i)
    (hl : s.Kept s.claims l) : (registering i).KeepsOk (saveClaims l) (fun _ _ => True) s :=
  .mono (keeps_saveClaims hlock fun _ hst ht => inv_kept hlock hl hst ht) fun _ _ _ _ => trivial

/-- A device is detached from the one process that can have it. -/
theorem keeps_detach {claim : USBClaim} (hlock : s.locks .registry = some i)
    (hc : claim.core ∈ s.held) (hd : claim.runDir = d) :
    (quietly i).Keeps (usbCall (.detach d claim.qemuID)) (fun (r : Except Message Unit) t =>
      r.isOk = true → t.Vacant claim.qemuID) s := by
  subst hd
  refine keeps_ask trivial fun t c hst ht haccepts hok => ?_
  have hinv := Lighter.inv (lighter_detach (i := i) (c := c) (d := claim.runDir)
    (q := claim.qemuID)) ht
  obtain ⟨u, hu⟩ : ∃ u, c.answer (.usb (.detach claim.runDir claim.qemuID)) = .ok u := by
    cases hr : c.answer (.usb (.detach claim.runDir claim.qemuID)) with
    | ok u => exact ⟨u, rfl⟩
    | error err =>
      rw [hr] at hok
      cases hok
  rw [accepts, hu] at haccepts
  obtain ⟨pid, hl⟩ := Option.isSome_iff_exists.mp haccepts
  have hafter : t.after i c (.usb (.detach claim.runDir claim.qemuID)) =
      t.unplugged pid claim.qemuID := by
    simp [after, hl, hok]
  rw [hafter] at hinv ⊢
  refine vacant_of_listening hinv (held_eq hst hlock ▸ hc) hl ?_
  simp [unplugged]

/-! #### Attachments -/

/-- A device is attached to the process that the claim to it names. -/
theorem keeps_attach {claim : USBClaim} (hlock : s.locks .registry = some i)
    (hvm : s.locks (.vm claim.runDir) = some i) (hc : claim.core ∈ s.held)
    (hfile : s.pidFile claim.runDir = some (claim.pid, claim.generation))
    (hmonitor : s.monitor claim.runDir = some claim.pid) :
    (registering i).Keeps (usbCall (.attach claim.runDir claim.qemuID claim.attachment.device))
      (fun _ t => t.locks .registry = some i ∧ t.claims = s.claims) s := by
  refine coarse_step coarse_registering (fun t hst => (hst.registry hlock).1)
    fun t c hst ht _ => ?_
  obtain ⟨hlockt, hclaimst, -⟩ := hst.registry hlock
  obtain ⟨-, hfilet, hmonitort⟩ := hst.vm _ hvm
  obtain ⟨hinv, honward, hlocks, hclaims⟩ :
      (t.after i c (.usb (.attach claim.runDir claim.qemuID claim.attachment.device))).Inv ∧
      Onward i t (t.after i c (.usb (.attach claim.runDir claim.qemuID
        claim.attachment.device))) ∧
      (t.after i c (.usb (.attach claim.runDir claim.qemuID claim.attachment.device))).locks =
        t.locks ∧
      (t.after i c (.usb (.attach claim.runDir claim.qemuID claim.attachment.device))).claims =
        t.claims := by
    simp only [after]
    split
    · rename_i pid hl
      split
      · obtain ⟨hpid, halive⟩ := listening_eq_some.mp hl
        rw [hmonitort, hmonitor] at hpid
        cases hpid
        have hfile' := hfilet.trans hfile
        exact ⟨ht.plugged (held_eq hst hlock ▸ hc) halive rfl (ht.recorded _ _ _ hfile').1 hfile',
          onward_same rfl rfl rfl rfl rfl fun _ h => h, rfl, rfl⟩
      · exact ⟨ht, .refl i t, rfl, rfl⟩
    · exact ⟨ht, .refl i t, rfl, rfl⟩
  exact ⟨hinv, .trans i s t _ hst.toOnward honward, by rw [hlocks]; exact hlockt,
    hclaims.trans hclaimst⟩

theorem kept_become {claims : List USBClaim} {claim : USBClaim} {state : String} :
    s.Kept (claims ++ [claim]) (claims ++ [claim.become state]) :=
  ⟨by simp, fun other ho hn => (hn (by simpa using ho)).elim⟩

theorem kept_dropped {claims : List USBClaim} {claim : USBClaim} (h : s.Vacant claim.qemuID) :
    s.Kept (claims ++ [claim]) claims := by
  refine ⟨by simp, fun other ho hn => ?_⟩
  rw [List.map_append, List.mem_append] at ho
  rcases ho with ho | ho
  · exact (hn ho).elim
  · obtain rfl := List.mem_singleton.mp ho
    exact h

theorem keeps_undoAttach {claims : List USBClaim} {claim : USBClaim} {err : Message}
    {state : String} (hlock : s.locks .registry = some i) (hclaims : s.claims = claims ++ [claim]) :
    (registering i).KeepsOk (undoAttach claims claim err state) (fun _ _ => True) s := by
  have hc : claim.core ∈ s.held := by simp [held, hclaims]
  refine coarse_query coarse_registering (keeps_detach hlock hc rfl) fun cleanup t hst hgone => ?_
  obtain ⟨hlockt, hclaimst, -⟩ := hst.registry hlock
  have hkept : t.Kept t.claims
      (if cleanup.isOk then claims else claims ++ [claim.become state]) := by
    rw [hclaimst, hclaims]
    split
    · rename_i hok
      exact kept_dropped (hgone hok)
    · exact kept_become
  refine .bind (.lift (keeps_save hlockt fun u htu hu => inv_kept hlockt hkept htu hu)) ?_
  exact fun _ _ _ _ => keepsOk_fail

theorem quiet_verifyCapture {inv : Inventory} {device : Device} :
    (verifyCapture inv device).run.Calls Quiet :=
  .andThen (calls_demand (.request trivial)) fun _ => .pure _

theorem keeps_captureDevice {inv : Inventory} {claims : List USBClaim} {claim : USBClaim}
    (hlock : s.locks .registry = some i) (hvm : s.locks (.vm claim.runDir) = some i)
    (hclaims : s.claims = claims ++ [claim])
    (hfile : s.pidFile claim.runDir = some (claim.pid, claim.generation))
    (hmonitor : s.monitor claim.runDir = some claim.pid) :
    (registering i).KeepsOk (captureDevice inv claims claim) (fun _ _ => True) s := by
  have hc : claim.core ∈ s.held := by simp [held, hclaims]
  refine .bind (.lift (keeps_attach hlock hvm hc hfile hmonitor)) ?_
  rintro attached t _ ⟨hlockt, hclaimst⟩
  cases attached with
  | error err => exact keeps_undoAttach hlockt (hclaimst.trans hclaims)
  | ok u =>
    refine coarse_query coarse_registering (tolerates_quiet.keeps quiet_verifyCapture)
      fun verified u htu _ => ?_
    obtain ⟨hlocku, hclaimsu, -⟩ := htu.registry hlockt
    have hclaimed := hclaimsu.trans (hclaimst.trans hclaims)
    cases verified with
    | error err => exact keeps_undoAttach hlocku hclaimed
    | ok _ =>
      refine .bind (keeps_saveKept hlocku ?_) fun _ _ _ _ => .pure trivial
      rw [hclaimed]
      exact kept_become

theorem keeps_status :
    (quietly i).Keeps (engineCall (.qemu d .status)) (fun (r : Option Nat) t =>
      (∀ pid, r = some pid → t.monitor d = some pid ∧ t.home pid ≠ none ∧
        ∃ g, t.pidFile d = some (pid, g)) ∧ (r = none → t.Idle d)) s := by
  refine keeps_ask trivial fun t c hst ht haccepts => ?_
  have hr : c.answer (.qemu d .status) = t.running d := of_decide_eq_true haccepts
  refine ⟨fun pid hpid => ?_, fun hnone => idle_of_running ht (hr.symm.trans hnone)⟩
  obtain ⟨⟨g, hfile⟩, halive⟩ := running_eq_some.mp (hr.symm.trans hpid)
  obtain ⟨hhome, hmonitor⟩ := ht.recorded d pid g hfile
  exact ⟨hmonitor halive, ht.born pid halive, g, hfile⟩

theorem keeps_fileGeneration :
    (quietly i).Keeps (usbCall (.generation d)) (fun (g : Generation) t =>
      ∀ x, g = .found x → (t.pidFile d).map Prod.snd = some x) s := by
  refine keeps_ask trivial fun t c hst ht haccepts x hfound => ?_
  rw [accepts, hfound] at haccepts
  exact of_decide_eq_true haccepts

/-- A new id is that of no claim. -/
theorem keeps_newString :
    (quietly i).Keeps (engineCall .newString) (fun (id : String) t =>
      t.issued id = true ∧ ∀ claim ∈ t.held, claim.attachment.id ≠ id) s := by
  refine keeps_ask trivial fun t c hst ht haccepts => ⟨by simp [after], fun claim hc heq => ?_⟩
  have hissued := (ht.issued claim hc).2
  rw [heq] at hissued
  rw [accepts, hissued] at haccepts
  cases haccepts

theorem keeps_claimDevice {inv : Inventory} {m : VMManifest} {select : Selector}
    (hlock : s.locks .registry = some i) (hvm : s.locks (.vm (e.runDir m.id)) = some i) :
    (registering i).KeepsOk (claimDevice inv e m select s.claims) (fun _ _ => True) s := by
  refine coarse_query coarse_registering keeps_status ?_
  rintro status t hst ⟨hrunning, -⟩
  cases status with
  | none => exact keepsOk_fail
  | some pid =>
  obtain ⟨hmonitor, -, g, hfile⟩ := hrunning pid rfl
  have hlockt := (hst.registry hlock).1
  have hvmt := (hst.vm _ hvm).1
  refine coarse_query coarse_registering (keeps_reconcileClaims hlockt fun claim hc =>
    held_eq hst hlock ▸ List.mem_map_of_mem hc) fun kept u htu hkept => ?_
  refine coarse_calls coarse_registering (calls_demand (.request trivial)) fun devices v huv => ?_
  cases hselect : select devices with
  | error err => exact keepsOk_fail
  | ok device =>
  dsimp only
  split
  · exact keepsOk_fail
  rename_i hnone
  refine coarse_query coarse_registering keeps_fileGeneration fun generation w hvw hgen => ?_
  cases generation with
  | missing => exact keepsOk_fail
  | error err => exact keepsOk_fail
  | found generation =>
  refine coarse_query coarse_registering keeps_newString ?_
  rintro id x hwx ⟨hissued, hfresh⟩
  have hux : Rely i u x := .trans i u w x (.trans i u v w huv hvw) hwx
  have htx : Rely i t x := .trans i t u x htu hux
  have hsx : Rely i s x := .trans i s t x hst htx
  have hlocku := (htu.registry hlockt).1
  obtain ⟨hlockx, hclaimsx, -⟩ := hsx.registry hlock
  have hkeptx : x.Kept x.claims kept := hclaimsx ▸ kept_rely hux hlocku hkept
  have hfilex : x.pidFile (e.runDir m.id) = some (pid, generation) := by
    have hfilew := ((Rely.trans i t u w htu (.trans i u v w huv hvw)).vm _ hvmt).2.1
    have hg := hgen generation rfl
    rw [hfilew, hfile] at hg
    rw [(htx.vm _ hvmt).2.1, hfile]
    simpa using hg
  refine .bind (keeps_saveClaims hlockx fun y hxy hy => ?_) ?_
  · refine (inv_kept hlockx hkeptx hxy hy).claim rfl (hxy.issued id hissued) ?_ ?_
    · exact fun other ho => hfresh other (hkeptx.sublist.subset ho)
    · intro other ho heq
      obtain ⟨claim, hc, rfl⟩ := List.mem_map.mp ho
      exact List.find?_eq_none.mp hnone claim hc (sameUSBPort_iff.mpr heq.symm)
  · rintro _ y hxy ⟨hlocky, hclaimsy⟩
    obtain ⟨hvmy, hfiley, hmonitory⟩ := hxy.vm _ ((hsx.vm _ hvm).1)
    refine keeps_captureDevice hlocky hvmy hclaimsy (hfiley.trans hfilex) ?_
    exact hmonitory.trans (((htx.vm _ hvmt).2.2).trans hmonitor)

/-! #### Lists and releases -/

theorem quiet_reconcileClaim {claim : USBClaim} : (reconcileClaim claim).Calls Quiet := by
  refine .bind (.request trivial) fun generation => ?_
  cases generation with
  | missing => exact .pure _
  | error err => exact .bind (.request trivial) fun _ => .pure _
  | found generation =>
    show (if _ then _ else _ : EngineProg _).Calls Quiet
    split
    · exact .pure _
    · refine .bind (.request trivial) fun gone => ?_
      split
      · exact .pure _
      · exact .bind (.request trivial) fun _ => .pure _

theorem quiet_reconcileClaims {claims : List USBClaim} : (reconcileClaims claims).Calls Quiet := by
  induction claims with
  | nil => exact .pure _
  | cons claim claims ih => exact .bind quiet_reconcileClaim fun _ => .bind ih fun _ => .pure _

theorem keeps_reconciled (hlock : s.locks .registry = some i) :
    (quietly i).Keeps (reconcileClaims s.claims) (fun kept t => t.Kept s.claims kept) s :=
  keeps_reconcileClaims hlock fun _ hc => List.mem_map_of_mem hc

/-- The registry is brought up to date and stored. -/
theorem keeps_refreshed {rest : List USBClaim → EngineM α} (hlock : s.locks .registry = some i)
    (hrest : ∀ claims, (rest claims).run.Calls Quiet) :
    (registering i).KeepsOk (query (reconcileClaims s.claims) >>= fun claims =>
      saveClaims claims >>= fun _ => rest claims) (fun _ _ => True) s := by
  refine coarse_query coarse_registering (keeps_reconciled hlock) fun kept t hst hkept => ?_
  obtain ⟨hlockt, hclaimst, -⟩ := hst.registry hlock
  refine .bind (keeps_saveKept hlockt ?_) fun _ u _ _ => coarse_end coarse_registering (hrest kept)
  rw [hclaimst]
  exact hkept

theorem kept_erase {claims : List USBClaim} {claim : USBClaim} {f : USBClaim → Bool}
    (hfind : claims.find? f = some claim) (h : s.Vacant claim.qemuID) :
    s.Kept claims (claims.eraseP f) := by
  refine ⟨(List.eraseP_sublist).map _, fun other ho hn => ?_⟩
  obtain ⟨hf, before, behind, rfl, hbefore⟩ := List.find?_eq_some_iff_append.mp hfind
  rw [List.eraseP_append_right _ (fun x hx => by simpa using hbefore x hx),
    List.eraseP_cons_of_pos hf] at hn
  simp only [List.map_append, List.map_cons, List.mem_append, List.mem_cons, not_or] at ho hn
  rcases ho with ho | rfl | ho
  · exact (hn.1 ho).elim
  · exact h
  · exact (hn.2 ho).elim

theorem keeps_isRunning {claim : USBClaim} {id : String} (hlock : s.locks .registry = some i)
    (hc : claim.core ∈ s.held) (hdir : claim.runDir = e.runDir id) :
    (quietly i).KeepsOk (isRunning e id)
      (fun running t => running = false → t.Vacant claim.qemuID) s := by
  refine .bind (P := fun r t => r = none → t.Vacant claim.qemuID) (.lift (keeps_ask trivial ?_)) ?_
  · intro t c hst ht haccepts hnone
    have hr : c.answer (.qemu (e.runDir id) .status) = t.running (e.runDir id) :=
      of_decide_eq_true haccepts
    have hidle := idle_of_running ht (hr.symm.trans hnone)
    exact vacant_of_idle ht (held_eq hst hlock ▸ hc) (hdir ▸ hidle)
  · intro r t _ hvacant
    exact .pure fun hfalse => hvacant (by simpa using hfalse)

/-- The device of a claim goes, or is gone. -/
theorem keeps_detachClaimed {m : VMManifest} {claim : USBClaim} {generation : String}
    (hlock : s.locks .registry = some i) (hc : claim.core ∈ s.held)
    (hdir : claim.runDir = e.runDir m.id)
    (hother : generation ≠ claim.generation → s.Vacant claim.qemuID) :
    (quietly i).KeepsOk (detachClaimed e m claim generation)
      (fun _ t => t.Vacant claim.qemuID) s := by
  unfold detachClaimed
  split
  · refine .bind (keeps_isRunning hlock hc hdir) fun running t hst hgone => ?_
    obtain ⟨hlockt, -, -⟩ := hst.registry hlock
    unfold onlyThen
    split
    · exact Keeping.Keeps.mono (keeps_detach hlockt (held_eq hst hlock ▸ hc) hdir)
        fun r u _ hr x hx => hr (by rw [hx]; rfl)
    · rename_i hfalse
      exact .pure (hgone (by simpa using hfalse))
  · rename_i hne
    exact .pure (hother hne)

theorem keeps_releaseClaim {m : VMManifest} {id : String} (hlock : s.locks .registry = some i) :
    (registering i).KeepsOk (releaseClaim e m id s.claims) (fun _ _ => True) s := by
  unfold releaseClaim
  split
  · exact keepsOk_fail
  rename_i claim hfind
  have hmem : claim.core ∈ s.held := List.mem_map_of_mem (List.mem_of_find?_eq_some hfind)
  have hsave : ∀ t, Rely i s t → t.Vacant claim.qemuID → (registering i).KeepsOk
      (saveClaims (s.claims.eraseP (·.attachment.id = id))) (fun _ _ => True) t := by
    intro t hst hvacant
    obtain ⟨hlockt, hclaimst, -⟩ := hst.registry hlock
    refine keeps_saveKept hlockt ?_
    rw [hclaimst]
    exact kept_erase hfind hvacant
  refine keepsOk_ensureThat fun hmine => ?_
  have hdir : claim.runDir = e.runDir m.id := by
    simp only [Bool.and_eq_true, decide_eq_true_eq] at hmine
    exact hmine.2
  refine coarse_query coarse_registering (keeps_generation hlock hmem) ?_
  rintro generation t hst ⟨hmissing, hother⟩
  have hlockt := (hst.registry hlock).1
  cases generation with
  | error err => exact keepsOk_fail
  | missing => exact hsave t hst (hmissing rfl)
  | found generation =>
    refine coarse_bind coarse_registering (keeps_detachClaimed hlockt (held_eq hst hlock ▸ hmem)
      hdir (hother generation rfl)) fun _ u htu hvacant => ?_
    exact hsave u (.trans i s t u hst htu) hvacant

theorem quiet_addAssignment {inv : Inventory} {id deviceID fingerprint : String}
    {stored : List USBClaim} :
    (addAssignment inv e id deviceID fingerprint stored).run.Calls Quiet := by
  refine .andThen (calls_demand (.request trivial)) fun m => ?_
  refine .andThen (calls_demand (.request trivial)) fun devices => ?_
  cases inv.resolve devices deviceID (selectedFingerprint devices deviceID fingerprint) with
  | error err => exact calls_fail
  | ok device =>
    cases hmatch : matchUSBAssignment devices (assignmentOf device) with
    | error err =>
      simp only [hmatch]
      exact calls_fail
    | ok matched =>
      simp only [hmatch]
      refine .andThen (calls_query quiet_reconcileClaims) fun claims => ?_
      split
      · exact calls_fail
      · split
        · exact .pure _
        · exact .andThen quiet_save fun _ => .pure _

/-- Detaching the devices of an assignment leaves the claims to the others. -/
theorem keeps_detachMatching {m : VMManifest} {a : VMUSBAssignment} {claims : List USBClaim}
    (hlock : s.locks .registry = some i) (hc : ∀ claim ∈ claims, claim.core ∈ s.held) :
    (quietly i).KeepsOk (detachMatching e m a claims) (fun kept t => t.Kept claims kept) s := by
  induction claims generalizing s with
  | nil => exact .pure (.refl s [])
  | cons claim claims ih =>
    have htail : ∀ t, Rely i s t → ∀ other ∈ claims, other.core ∈ t.held := fun t hst other ho =>
      held_eq hst hlock ▸ hc other (List.mem_cons_of_mem claim ho)
    unfold detachMatching
    split
    · rename_i hmine
      have hdir : claim.runDir = e.runDir m.id := by
        simp only [Bool.and_eq_true, decide_eq_true_eq] at hmine
        exact hmine.1.2
      have hdetach : (quietly i).KeepsOk
          (demand (usbCall (.detach (e.runDir m.id) claim.qemuID)))
          (fun _ t => t.Vacant claim.qemuID) s :=
        Keeping.Keeps.mono (keeps_detach hlock (hc claim List.mem_cons_self) hdir)
          fun r t _ hr x hx => hr (by rw [hx]; rfl)
      refine .bind hdetach fun _ t hst hvacant => ?_
      have hlockt := (hst.registry hlock).1
      refine .mono (ih hlockt (htail t hst)) fun kept u htu hkept => ?_
      refine ⟨hkept.sublist.cons _, fun other ho hn => ?_⟩
      rcases List.mem_cons.mp ho with rfl | ho
      · exact vacant_rely htu hlockt hvacant
      · exact hkept.vacant other ho hn
    · refine .bind (ih hlock (htail s (.refl i s))) fun kept t hst hkept => .pure ?_
      refine ⟨hkept.sublist.cons_cons _, fun other ho hn => ?_⟩
      rcases List.mem_cons.mp ho with rfl | ho
      · exact (hn List.mem_cons_self).elim
      · exact hkept.vacant other ho fun h => hn (List.mem_cons_of_mem _ h)

theorem keeps_removeAssignment {id key : String} (hlock : s.locks .registry = some i) :
    (registering i).KeepsOk (removeAssignment e id key s.claims) (fun _ _ => True) s := by
  refine coarse_calls coarse_registering (calls_demand (.request trivial)) fun m t hst => ?_
  obtain ⟨hlockt, hclaimst, -⟩ := hst.registry hlock
  split
  · exact keepsOk_fail
  · rename_i matched _
    rw [← hclaimst]
    refine coarse_query coarse_registering (keeps_reconciled hlockt) fun kept u htu hkept => ?_
    obtain ⟨hlocku, hclaimsu, -⟩ := htu.registry hlockt
    have hheld : ∀ claim ∈ kept, claim.core ∈ u.held := by
      intro claim hc
      rw [held, hclaimsu]
      exact hkept.sublist.subset (List.mem_map_of_mem hc)
    refine coarse_bind coarse_registering (keeps_detachMatching hlocku hheld) ?_
    intro retained v huv hretained
    obtain ⟨hlockv, hclaimsv, -⟩ := huv.registry hlocku
    refine .bind (keeps_saveKept hlockv ?_) fun _ _ _ _ => coarse_end coarse_registering quiet_save
    rw [hclaimsv, hclaimsu]
    exact (kept_rely huv hlocku hkept).trans hretained
  · exact keepsOk_fail

end Rules

end Maco.Engine.Custody
