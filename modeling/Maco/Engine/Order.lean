import Maco.Engine.Lockless
import Maco.Lib.Locking
import Maco.Network.Steady

/-! The locks of all operations are taken in one order: that of a machine, then that of the media, of
the networks or of the USB registry, then the mutex of the database and last the lock of its
initialisation.  So no processes wait for one another in a circle. -/

namespace Maco.Engine

open Concurrent Network VM

inductive EngineOp where
  | createVM (params : CreateVMParams)
  | startVM (ref : String)
  | stopVM (ref : String) (guestShutdown : Bool)
  | shutdownVM (ref : String)
  | screenshotVM (ref : String)
  | deleteVM (ref : String)
  | manageDisk (ref action : String) (params : DiskParams)
  | manageInterface (ref action : String) (params : InterfaceParams)
  | updateHardware (ref : String) (params : UpdateHardwareParams)
  | updateMedia (ref : String) (settings : MediaSettings)
  | listUSB
  | listVMUSB (ref : String)
  | attachUSB (ref : String) (params : USBParams)
  | detachUSB (ref id : String)
  | assignUSB (ref deviceID fingerprint : String)
  | unassignUSB (ref key : String)
  | backupVM (ref : String)
  | restoreVM (ref timestamp : String) (asNew : Bool)
  | snapshot (ref action tag : String)
  | setSchedule (ref : String) (params : ScheduleParams)
  | markScheduleRun (id : String) (now : Int)
  | network (op : NetOp)
  | createMedia (name : String) (size : Int) (iso : Bool)
  | uploadImage (name : String)
  | deleteMedia (id : String)

/-- The operation, in an operating-system process. -/
def engineProgram (x : Texts) (inv : Inventory) (e : Paths) : EngineOp → EngineM Unit
  | .createVM params => do
    let _ ← createVM x params
  | .startVM ref => do
    let _ ← startVM x inv e ref
  | .stopVM ref guestShutdown => stopVM e ref guestShutdown
  | .shutdownVM ref => shutdownVM e ref
  | .screenshotVM ref => screenshotVM e ref
  | .deleteVM ref => deleteVM e ref
  | .manageDisk ref action params => manageDisk x e ref action params
  | .manageInterface ref action params => manageInterface x e ref action params
  | .updateHardware ref params => updateHardware e ref params
  | .updateMedia ref settings => updateMedia x e ref settings
  | .listUSB => do
    let _ ← listUSBDevices
  | .listVMUSB ref => do
    let _ ← listVMUSB e ref
  | .attachUSB ref params => do
    let _ ← attachUSB inv e ref params
  | .detachUSB ref id => detachUSB x e ref id
  | .assignUSB ref deviceID fingerprint => do
    let _ ← assignUSB inv e ref deviceID fingerprint
  | .unassignUSB ref key => unassignUSB e ref key
  | .backupVM ref => backupVM e ref
  | .restoreVM ref timestamp asNew => do
    let _ ← restoreMachine x e ref timestamp asNew
  | .snapshot ref action tag => changeSnapshot e ref action tag
  | .setSchedule ref params => do
    let _ ← setSchedule e ref params
  | .markScheduleRun id now => markScheduleRun e id now
  | .network op => Engine.network e (ask op.program)
  | .createMedia name size iso => do
    let _ ← createMedia name size iso
  | .uploadImage name => do
    let _ ← uploadImage name
  | .deleteMedia id => deleteMedia x id

/-- Any number of processes run operations; each runs in one of the operating-system processes. -/
def engineSystem (x : Texts) (inv : Inventory) (runDir : String → String) :
    System EngineCall EngineCall.Reply EngineChoice World (Nat × EngineOp) Empty
      (Except Message Unit) where
  perform := World.perform x
  code op := (engineProgram x inv ⟨runDir, op.1⟩ op.2).run
  die i s := s.die i
  env e _ := nomatch e

/-! ### The order of the locks -/

def LockName.rank : LockName → Nat
  | .vm _ => 0
  | .nets | .media | .registry => 1
  | .sharedMu _ => 2
  | .initDB => 3

def lockOrder : Locks EngineCall EngineCall.Reply LockName where
  acquires _
    | .lock l => some l
    | _ => none
  releases _
    | .unlock l => some l
    | _ => none
  took a r :=
    match a, r with
    | .lock _, .ok _ => true
    | _, _ => false
  rank := LockName.rank

theorem lockOrder_obeyed {x : Texts} {inv : Inventory} {runDir : String → String} :
    lockOrder.Obeyed (engineSystem x inv runDir) World.locks where
  acquire i a l c s r t ha hp := by
    obtain ⟨haccepts, rfl, rfl⟩ := World.perform_cases hp
    cases a with
    | lock _ =>
      cases ha
      cases hr : c.answer (.lock l) with
      | error e =>
        right
        refine ⟨by simp [lockOrder], ?_⟩
        simp [World.after, World.locksAfter, hr, Except.isOk, Except.toBool]
      | ok u =>
        left
        have hok : (c.answer (.lock l)).isOk = true := by rw [hr]; rfl
        refine ⟨by simp [lockOrder], World.lock_free haccepts hok, ?_⟩
        simp [World.after, World.locksAfter, hr, Except.isOk, Except.toBool]
    | _ => cases ha
  release i a l c s r t _ ha hp := by
    obtain ⟨haccepts, rfl, rfl⟩ := World.perform_cases hp
    cases a with
    | unlock _ =>
      cases ha
      have hheld : s.locks l = some i := of_decide_eq_true haccepts
      refine ⟨fun k hk => Function.update_of_ne hk _ _, ?_⟩
      rw [if_pos hheld]
      exact Function.update_self _ _ _
    | _ => cases ha
  other i a c s r t hacquires hreleases hp := by
    obtain ⟨-, -, rfl⟩ := World.perform_cases hp
    cases a with
    | lock l => cases hacquires
    | unlock l => cases hreleases
    | _ => rfl
  die _ _ _ := rfl
  env e := e.elim

theorem EngineCall.Free.plain (a : EngineCall) (h : a.Free) : lockOrder.Plain a := by
  cases a with
  | lock l | unlock l => exact h.elim
  | _ => exact fun _ => ⟨rfl, rfl⟩

/-! ### The network programs -/

/-- The order among the calls of the network programs, which take the lock of the store alone. -/
def netOrder : Locks NetCall NetCall.Reply LockName where
  acquires _
    | .lock => some .nets
    | _ => none
  releases _
    | .unlock => some .nets
    | _ => none
  took a r :=
    match a, r with
    | .lock, .ok _ => true
    | _, _ => false
  rank := LockName.rank

theorem NetCall.SavesAs.plain {id name : String} (c : NetCall) (h : c.SavesAs id name) :
    netOrder.Plain c := by
  cases c with
  | lock | unlock => exact h.elim
  | _ => exact fun _ => ⟨rfl, rfl⟩

theorem NetCall.Commands.plain (c : NetCall) (h : c.Commands) : netOrder.Plain c := by
  cases c with
  | lock | unlock => exact h.elim
  | _ => exact fun _ => ⟨rfl, rfl⟩

theorem NetCall.Inspects.plain (c : NetCall) (h : c.Inspects) : netOrder.Plain c := by
  cases c with
  | lock | unlock => exact h.elim
  | _ => exact fun _ => ⟨rfl, rfl⟩

section Networks

variable {e : Paths} {α : Type} {k : Nat} {n : NetworkManifest}

theorem netAbove_refuse {err : Message} : netOrder.Above k (Network.refuse err : NetM α) :=
  .of_calls (.pure _)

theorem netAbove_attempt {p : Net (Except Message α)} (h : p.Calls netOrder.Plain) :
    netOrder.Above k (attempt p) := .of_calls h

theorem netAbove_ask {p : Net α} (h : p.Calls netOrder.Plain) : netOrder.Above k (ask p) :=
  .of_calls (calls_ask h)

theorem netAbove_underLock {body : NetM α} (hk : k ≤ 1) (hbody : netOrder.Above 2 body) :
    netOrder.Above k (underLock body) := by
  have hrank : k ≤ netOrder.rank .nets := hk
  refine .guarded hrank (fun i held hheld => ⟨?_, ?_⟩) (fun i held => ⟨nofun, ?_⟩) hbody
  · intro l hl h hh
    cases hl
    exact hheld h hh
  · rintro (err | u) g hg
    · have hsame : g = held := by simpa [Locks.learning, netOrder] using hg.symm
      exact hsame
    · have hmore : g = .nets :: held := by simpa [Locks.learning, netOrder] using hg.symm
      exact hmore
  · intro u g hg
    have hless : g = held.filter (· ≠ .nets) := by simpa [Locks.learning, netOrder] using hg.symm
    exact hless

theorem netAbove_reload {id : String} {mode : NetworkMode} : netOrder.Above k (reload id mode) :=
  .bind (netAbove_attempt (.request fun _ => ⟨rfl, rfl⟩)) fun _ =>
    .ite (fun _ => netAbove_refuse) fun _ => .pure _

theorem netAbove_ensure {dryRun : Bool} (hk : k ≤ 1) : netOrder.Above k (ensure n dryRun) := by
  unfold ensure
  split
  · refine netAbove_underLock hk (.bind netAbove_reload fun n => .ite (fun _ => .pure _) fun _ => ?_)
    exact .of_yields (steady_applyVLAN ⟨rfl, rfl⟩) NetCall.SavesAs.plain
  · refine .bind (netAbove_ask (.request fun _ => ⟨rfl, rfl⟩)) fun found => ?_
    exact .ite (fun _ => .pure _) fun _ => netAbove_refuse
  · refine .bind (netAbove_ask (.request fun _ => ⟨rfl, rfl⟩)) fun found => ?_
    exact .ite (fun _ => .pure _) fun _ => netAbove_refuse
  · refine netAbove_underLock hk (.bind netAbove_reload fun n => .ite (fun _ => .pure _) fun _ => ?_)
    exact .of_yields (steady_applyBridge ⟨rfl, rfl⟩) NetCall.SavesAs.plain
  · exact .pure _

theorem netAbove_destroy : netOrder.Above k (Network.destroy n) :=
  .of_calls (calls_destroy NetCall.Commands.plain n)

theorem netAbove_rollBackNetwork {id : String} {err : Message} :
    netOrder.Above k (rollBackNetwork id err) := by
  refine .bind (netAbove_ask (.request fun _ => ⟨rfl, rfl⟩)) fun loaded => ?_
  cases loaded with
  | error loadErr => exact netAbove_refuse
  | ok current =>
    refine .bind netAbove_destroy.outcome fun destroyed => ?_
    cases destroyed with
    | error cleanupErr => exact netAbove_refuse
    | ok u =>
      refine .bind (netAbove_ask (.request fun _ => ⟨rfl, rfl⟩)) fun deleted => ?_
      cases deleted with
      | error cleanupErr => exact netAbove_refuse
      | ok u => exact netAbove_refuse

theorem netAbove_withModeFields {mcastGroup : String → String} {params : CreateNetworkParams} :
    netOrder.Above k (withModeFields mcastGroup params n) := by
  unfold withModeFields
  split
  · exact .pure _
  · exact .ite (fun _ => netAbove_refuse) fun _ => .pure _
  · exact .ite (fun _ => netAbove_refuse) fun _ => .pure _
  · exact .ite (fun _ => netAbove_refuse) fun _ => .pure _
  · exact .pure _

theorem netAbove_createNetwork {mcastGroup : String → String} {params : CreateNetworkParams} :
    netOrder.Above 0 (createNetwork mcastGroup params) := by
  refine .ite (fun _ => netAbove_refuse) fun _ => ?_
  refine .bind (netAbove_ask (.request fun _ => ⟨rfl, rfl⟩)) fun existing => ?_
  cases existing with
  | ok n => exact netAbove_refuse
  | error err =>
    refine .ite (fun _ => netAbove_refuse) fun _ => ?_
    refine .bind (netAbove_ask (.request fun _ => ⟨rfl, rfl⟩)) fun id => ?_
    refine .bind netAbove_withModeFields fun n => ?_
    refine .bind (netAbove_attempt (.request fun _ => ⟨rfl, rfl⟩)) fun _ => ?_
    refine .bind (netAbove_ensure (Nat.zero_le _)).outcome fun applied => ?_
    cases applied with
    | ok n => exact .pure _
    | error err => exact netAbove_rollBackNetwork

theorem netAbove_applyNetwork {ref : String} {dryRun : Bool} :
    netOrder.Above 0 (applyNetwork ref dryRun) :=
  .bind (netAbove_attempt (.request fun _ => ⟨rfl, rfl⟩)) fun _ => netAbove_ensure (Nat.zero_le _)

theorem netAbove_reconcile {dryRun : Bool} : netOrder.Above 0 (reconcile dryRun) := by
  refine .bind (netAbove_attempt (.request fun _ => ⟨rfl, rfl⟩)) fun networks => ?_
  induction networks with
  | nil => exact .pure _
  | cons n networks ih =>
    refine .bind (netAbove_ensure (Nat.zero_le _)).outcome fun applied => ?_
    cases applied with
    | ok n => exact ih
    | error err => exact netAbove_refuse

theorem netAbove_redefineNetwork {ref : String} {params : CreateNetworkParams} :
    netOrder.Above k (redefineNetwork ref params) := by
  refine .bind (netAbove_attempt (.request fun _ => ⟨rfl, rfl⟩)) fun n => ?_
  refine .ite (fun _ => netAbove_refuse) fun _ => .ite (fun _ => netAbove_refuse) fun _ => ?_
  refine .bind (netAbove_attempt (.request fun _ => ⟨rfl, rfl⟩)) fun vms => ?_
  refine .bind (.of_calls (calls_requireUnusedBy NetCall.Inspects.plain n vms)) fun _ => ?_
  refine .bind (.of_calls (calls_onlyIf ?_)) fun _ => ?_
  · split
    · exact .pure _
    · exact calls_requireDetached NetCall.Inspects.plain n
  exact .bind (netAbove_attempt (.request fun _ => ⟨rfl, rfl⟩)) fun _ => .pure _

theorem netAbove_updateNetwork {ref : String} {params : CreateNetworkParams} :
    netOrder.Above 0 (updateNetwork ref params) := by
  refine .bind (netAbove_underLock (Nat.zero_le _) netAbove_redefineNetwork) fun n => ?_
  refine .bind (netAbove_ensure (Nat.zero_le _)).outcome fun applied => ?_
  cases applied with
  | ok n => exact .pure _
  | error err => exact netAbove_refuse

theorem netAbove_destroyNetwork {ref : String} : netOrder.Above 0 (destroyNetwork ref) := by
  refine netAbove_underLock (Nat.zero_le _) ?_
  refine .bind (netAbove_attempt (.request fun _ => ⟨rfl, rfl⟩)) fun n => ?_
  refine .bind (netAbove_attempt (.request fun _ => ⟨rfl, rfl⟩)) fun vms => ?_
  refine .bind (.of_calls (calls_requireUnused NetCall.Inspects.plain n vms)) fun _ => ?_
  refine .bind (.of_calls (calls_onlyIf (calls_requireDetached NetCall.Inspects.plain n)))
    fun _ => ?_
  exact .bind netAbove_destroy fun _ => netAbove_attempt (.request fun _ => ⟨rfl, rfl⟩)

/-- A network program takes the same locks among the engine's calls. -/
theorem above_network {p : NetM α} (h : netOrder.Above k p) :
    lockOrder.Above k (Engine.network e p) := by
  refine .lift h rfl (fun i c => ?_) (fun i c => ?_) fun c r => ?_
  · cases c <;> rfl
  · cases c <;> rfl
  · cases c with
    | lock => cases r <;> rfl
    | _ => rfl

theorem netAbove_program {op : NetOp} : netOrder.Above 0 (ask op.program) := by
  cases op with
  | create mcastGroup params => exact netAbove_createNetwork.dropped
  | apply ref dryRun => exact netAbove_applyNetwork.dropped
  | applyAll dryRun => exact netAbove_reconcile.dropped
  | update ref params => exact netAbove_updateNetwork.dropped
  | destroy ref => exact netAbove_destroyNetwork.dropped

end Networks

/-! ### The operations -/

section Above

variable {x : Texts} {inv : Inventory} {e : Paths} {α : Type} {n : Nat}

theorem above_lockless {p : EngineM α} (h : Lockless p) : lockOrder.Above n p :=
  .of_calls (h.mono EngineCall.Free.plain)

theorem above_locked {l : LockName} {body : EngineM α} (hl : n ≤ l.rank)
    (hbody : lockOrder.Above (l.rank + 1) body) : lockOrder.Above n (locked l body) := by
  refine .guarded hl (fun i held hheld => ⟨?_, ?_⟩) (fun i held => ⟨nofun, ?_⟩) hbody
  · intro k hk h hh
    cases hk
    exact hheld h hh
  · rintro (err | u) g hg
    · have hsame : g = held := by simpa [Locks.learning, lockOrder] using hg.symm
      exact hsame
    · have hmore : g = l :: held := by simpa [Locks.learning, lockOrder] using hg.symm
      exact hmore
  · intro u g hg
    have hless : g = held.filter (· ≠ l) := by simpa [Locks.learning, lockOrder] using hg.symm
    exact hless

theorem above_openDB (hn : n ≤ 2) : lockOrder.Above n (openDB e) := by
  refine above_locked hn (.bind (above_lockless (lockless_ask trivial)) fun already => ?_)
  refine .ite (fun _ => .pure _) fun _ => above_locked (Nat.le_refl _) (above_lockless lockless_perform)

/-- A reference is resolved, and the machine is worked on under its lock. -/
theorem above_resolved {ref : String} {f : VMManifest → EngineM α}
    (h : ∀ m, lockOrder.Above 0 (f m)) : lockOrder.Above 0 (resolveVM ref >>= f) :=
  .bind (above_lockless (calls_demand (.request trivial))) h

theorem above_lockedVM {id : String} {body : EngineM α} (h : lockOrder.Above 1 body) :
    lockOrder.Above 0 (lockedVM e id body) := above_locked (Nat.zero_le _) h

theorem above_createVM {params : CreateVMParams} : lockOrder.Above 0 (createVM x params) := by
  refine .bind (above_lockless calls_ensureThat) fun _ => ?_
  refine .bind (above_lockless (.forM fun _ _ => calls_ensureThat)) fun _ => ?_
  refine .bind (above_lockless calls_ensureThat) fun _ => above_locked (Nat.zero_le _) ?_
  refine above_lockless (.andThen (lockless_onlyThen ?_) fun _ => ?_)
  · exact .andThen lockless_imageBase fun _ => .pure _
  exact .andThen lockless_networkRef fun _ => .andThen lockless_validateMedia fun _ =>
    .andThen (lockless_ask trivial) fun _ => .andThen lockless_save fun _ => .pure _

theorem above_deleteVM {ref : String} : lockOrder.Above 0 (deleteVM e ref) := by
  refine above_resolved fun m => above_lockedVM ?_
  refine .bind (above_lockless (calls_demand (.request trivial))) fun m => ?_
  refine .bind (above_lockless lockless_isRunning) fun running => ?_
  refine .bind (above_lockless calls_ensureThat) fun _ => ?_
  refine .bind (above_lockless lockless_perform) fun _ => ?_
  refine .bind (above_lockless lockless_perform) fun _ => ?_
  refine .bind (above_lockless (calls_demand (.request trivial))) fun _ => ?_
  refine .bind (above_openDB (by decide)) fun _ => ?_
  exact .bind (above_lockless lockless_perform) fun _ => above_lockless lockless_perform

theorem above_addDataDisk {m : VMManifest} {params : DiskParams} :
    lockOrder.Above 1 (addDataDisk x e m params) := by
  refine .bind (above_lockless calls_ensureThat) fun _ => ?_
  refine .bind (above_lockless (lockless_ask trivial)) fun id => ?_
  refine .ite (fun _ => above_lockless lockless_addDiskFrom) fun _ => above_locked (by decide) ?_
  exact above_lockless (.andThen lockless_getMedia fun _ => .andThen calls_ensureThat fun _ =>
    lockless_addDiskFrom)

theorem above_manageDisk {ref action : String} {params : DiskParams} :
    lockOrder.Above 0 (manageDisk x e ref action params) := by
  refine above_resolved fun m => above_lockedVM ?_
  refine .bind (above_lockless (calls_demand (.request trivial))) fun m => ?_
  refine .ite (fun _ => above_addDataDisk) fun _ => above_lockless ?_
  split
  · exact calls_fail
  · split
    · exact calls_fail
    · split
      · exact lockless_growDisk
      · split
        · exact lockless_removeDataDisk
        · exact calls_fail

theorem above_updateHardware {ref : String} {params : UpdateHardwareParams} :
    lockOrder.Above 0 (updateHardware e ref params) := by
  refine above_resolved fun m => above_lockedVM (above_lockless ?_)
  refine .andThen (calls_demand (.request trivial)) fun m => ?_
  refine .andThen (lockless_onlyThen (.andThen lockless_isRunning fun _ => calls_ensureThat))
    fun _ => ?_
  refine .andThen calls_ensureThat fun _ => .andThen calls_ensureThat fun _ => ?_
  refine .andThen ?_ fun _ => lockless_save
  cases params.diskSizeGiB with
  | none => exact .pure _
  | some size =>
    refine .andThen calls_ensureThat fun _ => ?_
    refine .andThen (calls_demand (.request trivial)) fun found => ?_
    split
    · exact lockless_resizeDisk
    · exact .pure _

theorem above_updateMedia {ref : String} {settings : MediaSettings} :
    lockOrder.Above 0 (updateMedia x e ref settings) := by
  refine above_resolved fun m => above_lockedVM ?_
  refine .bind (above_lockless lockless_isRunning) fun running => ?_
  refine .bind (above_lockless calls_ensureThat) fun _ => ?_
  refine .bind (above_lockless (calls_demand (.request trivial))) fun m => ?_
  exact above_locked (by decide) (above_lockless (.andThen lockless_validateMedia fun _ =>
    lockless_save))

theorem above_backupVM {ref : String} : lockOrder.Above 0 (backupVM e ref) :=
  above_resolved fun _ => above_lockedVM (above_lockless
    (.andThen (calls_demand (.request trivial)) fun _ =>
      .andThen lockless_isRunning fun _ => lockless_perform))

theorem above_changeSnapshot {ref action tag : String} :
    lockOrder.Above 0 (changeSnapshot e ref action tag) :=
  .bind (above_lockless calls_ensureThat) fun _ =>
    above_resolved fun _ => above_lockedVM (above_lockless lockless_perform)

theorem above_restoreMachine {ref timestamp : String} {asNew : Bool} :
    lockOrder.Above 0 (restoreMachine x e ref timestamp asNew) := by
  refine .bind (above_lockless calls_ensureThat) fun _ => above_resolved fun m => ?_
  refine .bind (above_lockless (calls_demand lockless_restoreStep)) fun names => ?_
  cases names with
  | none => exact above_lockless calls_fail
  | some names =>
    refine .bind (above_lockless calls_ensureThat) fun _ => ?_
    refine .bind (above_lockless (calls_demand lockless_restoreStep)) fun data => ?_
    cases x.manifest.parse data with
    | error err => exact above_lockless calls_fail
    | ok restored =>
      refine .ite (fun _ => above_lockless lockless_restoreCopy) fun _ => above_lockedVM ?_
      refine above_lockless (.andThen lockless_isRunning fun _ => .andThen calls_ensureThat fun _ => ?_)
      refine .andThen (calls_demand lockless_restoreStep) fun _ => ?_
      refine .andThen (calls_query lockless_lifted) fun _ => ?_
      exact .andThen (calls_query lockless_restoreStep) fun _ => .andThen (.pure _) fun _ => .pure _

theorem above_deleteMedia {id : String} : lockOrder.Above 0 (deleteMedia x id) :=
  above_locked (Nat.zero_le _) (above_lockless (.andThen lockless_getMedia fun _ =>
    .andThen lockless_usedMedia fun _ => .andThen calls_ensureThat fun _ => lockless_perform))

theorem above_setSchedule {ref : String} {params : ScheduleParams} :
    lockOrder.Above 0 (setSchedule e ref params) := by
  refine .bind (above_lockless calls_ensureThat) fun _ => ?_
  refine .bind (above_lockless calls_ensureThat) fun _ => above_resolved fun m => ?_
  refine .bind (above_openDB (Nat.zero_le _)) fun _ => ?_
  refine .bind (above_lockless lockless_perform) fun _ => above_resolved fun m => ?_
  refine .bind (above_openDB (Nat.zero_le _)) fun _ => above_lockless ?_
  refine .andThen (calls_demand (.request trivial)) fun row => ?_
  cases row with
  | none => exact .pure _
  | some row => exact .pure _

theorem above_markScheduleRun {id : String} {now : Int} :
    lockOrder.Above 0 (markScheduleRun e id now) :=
  .bind (above_openDB (Nat.zero_le _)) fun _ => above_lockless lockless_perform

/-! #### USB -/

theorem above_withRegistry {body : List USBClaim → EngineM α} (hn : n ≤ 1)
    (h : ∀ claims, Lockless (body claims)) : lockOrder.Above n (withRegistry body) :=
  above_locked hn (above_lockless (.andThen (calls_demand lockless_usb) h))

theorem above_listUSBDevices : lockOrder.Above 0 listUSBDevices := by
  refine .bind (above_lockless (calls_query lockless_usb)) fun r => ?_
  cases r with
  | error err => exact .pure _
  | ok devices =>
    exact above_withRegistry (Nat.zero_le _) fun stored =>
      .andThen (calls_query lockless_reconcileClaims) fun _ => .andThen lockless_saveClaims fun _ =>
        .andThen (calls_query lockless_usb) fun _ => .pure _

theorem above_listVMUSB {ref : String} : lockOrder.Above 0 (listVMUSB e ref) :=
  above_resolved fun _ => above_withRegistry (Nat.zero_le _) fun _ =>
    .andThen (calls_query lockless_reconcileClaims) fun _ => .andThen lockless_saveClaims fun _ =>
      .pure _

theorem above_attachUSBDevice {m : VMManifest} {select : Selector} :
    lockOrder.Above 0 (attachUSBDevice inv e m select) :=
  above_lockedVM (above_withRegistry (Nat.le_refl _) fun _ => lockless_claimDevice)

theorem above_attachUSB {ref : String} {params : USBParams} :
    lockOrder.Above 0 (attachUSB inv e ref params) :=
  .bind (above_lockless calls_ensureThat) fun _ => above_resolved fun _ => above_attachUSBDevice

theorem above_detachUSB {ref id : String} : lockOrder.Above 0 (detachUSB x e ref id) := by
  unfold detachUSB
  cases x.uuid id with
  | error err => exact above_lockless calls_fail
  | ok u =>
    exact above_resolved fun _ => above_lockedVM (above_withRegistry (Nat.le_refl _) fun _ =>
      lockless_releaseClaim)

theorem above_assignUSB {ref deviceID fingerprint : String} :
    lockOrder.Above 0 (assignUSB inv e ref deviceID fingerprint) :=
  above_resolved fun _ => above_lockedVM (above_withRegistry (Nat.le_refl _) fun _ =>
    lockless_addAssignment)

theorem above_unassignUSB {ref key : String} : lockOrder.Above 0 (unassignUSB e ref key) :=
  above_resolved fun _ => above_lockedVM (above_withRegistry (Nat.le_refl _) fun _ =>
    lockless_removeAssignment)

theorem above_checkUSBAssignments {m : VMManifest} : lockOrder.Above 1 (checkUSBAssignments m) := by
  refine .ite (fun _ => .pure _) fun _ => above_withRegistry (Nat.le_refl _) fun stored => ?_
  exact .andThen (calls_query lockless_reconcileClaims) fun _ => .andThen lockless_saveClaims fun _ =>
    .andThen (calls_demand lockless_usb) fun _ => .pure _

theorem above_attachAssignedUSB {m : VMManifest} :
    lockOrder.Above 0 (attachAssignedUSB inv e m) := by
  refine .forM fun assignment _ => .bind above_attachUSBDevice.outcome fun r => ?_
  cases r with
  | ok id => exact .pure _
  | error err => exact above_lockless calls_fail

/-! #### Interfaces -/

theorem above_resolveNetwork {ref : String} (hn : n ≤ 1) :
    lockOrder.Above n (resolveNetwork e ref) := by
  refine .ite (fun _ => .pure _) fun _ => .ite (fun _ => .pure _) fun _ => ?_
  refine .ite (fun _ => .pure _) fun _ => ?_
  refine .bind (above_lockless (calls_query (calls_demand (.request trivial)))) fun found => ?_
  cases found with
  | error err => exact above_lockless calls_fail
  | ok net =>
    refine .ite (fun _ => ?_) fun _ => above_lockless (.pure _)
    exact .bind (above_network (netAbove_ensure hn)) fun net => above_lockless (.pure _)

theorem above_specInterfaces {nics : List VMInterface} (hn : n ≤ 1) :
    lockOrder.Above n (specInterfaces e nics) := by
  induction nics with
  | nil => exact .pure _
  | cons nic nics ih =>
    exact .bind (above_resolveNetwork hn) fun spec => .bind ih fun rest => .pure _

theorem above_resolveChanged {id : String} {nics : List VMInterface} (hn : n ≤ 1) :
    lockOrder.Above n (resolveChanged e id nics) := by
  unfold resolveChanged
  split
  · exact .pure _
  · exact .bind (above_resolveNetwork hn) fun spec => .pure _

theorem above_commitInterfaces {changed : String} {previous : List VMInterface} {m : VMManifest} :
    lockOrder.Above 1 (commitInterfaces x e changed previous m) := by
  refine .bind (above_lockless lockless_isRunning) fun running => ?_
  refine .ite (fun _ => ?_) fun _ => above_lockless lockless_save
  refine .bind (above_resolveChanged (Nat.le_refl _)) fun before => ?_
  refine .bind (above_resolveChanged (Nat.le_refl _)) fun after => ?_
  refine above_locked (Nat.le_refl _) ?_
  refine .bind (above_lockless lockless_checkReference) fun _ => ?_
  refine .bind (above_lockless lockless_checkReference) fun _ => ?_
  exact .ite (fun _ => above_lockless lockless_save) fun _ => above_lockless lockless_hotplugInterface

theorem above_manageInterface {ref action : String} {params : InterfaceParams} :
    lockOrder.Above 0 (manageInterface x e ref action params) := by
  refine above_resolved fun m => above_lockedVM ?_
  refine .bind (above_lockless (calls_demand (.request trivial))) fun m => ?_
  refine .bind (above_lockless lockless_requireSettled) fun _ => ?_
  dsimp only
  split
  · exact above_lockless calls_fail
  · exact .bind (above_lockless lockless_normalizedInterfaces) fun _ => above_commitInterfaces

/-! #### Starts and stops -/

theorem above_prepareSpec {m : VMManifest} : lockOrder.Above 1 (prepareSpec x e m) := by
  refine .bind (above_lockless lockless_normalizedInterfaces) fun nics => ?_
  refine .bind (above_specInterfaces (Nat.le_refl _)) fun specs => above_lockless ?_
  refine .andThen lockless_perform fun _ => .andThen lockless_prepareVMDisk fun _ => ?_
  refine .andThen (lockless_onlyThen lockless_perform) fun _ => ?_
  refine .andThen (.forM fun _ _ => lockless_requireDisk) fun _ => ?_
  exact .andThen (.forM fun _ _ => .andThen lockless_getMedia fun _ => .pure _) fun _ => .pure _

theorem above_startPrepared {id : String} : lockOrder.Above 0 (startPrepared x e id) := by
  refine above_lockedVM (.bind (above_lockless (calls_query lockless_qemu)) fun status => ?_)
  cases status with
  | some pid => exact .pure _
  | none =>
    refine .bind (above_lockless (calls_demand (.request trivial))) fun m => ?_
    refine .bind above_checkUSBAssignments fun _ => .bind above_prepareSpec fun spec => ?_
    refine .bind (above_lockless calls_ensureThat) fun _ => ?_
    exact .bind (above_lockless lockless_startSpec) fun pid => .pure _

theorem above_stopMachine {id : String} {guestShutdown : Bool} :
    lockOrder.Above 0 (stopMachine e id guestShutdown) := by
  refine above_lockedVM (above_lockless (.andThen (calls_query lockless_qemu) fun status => ?_))
  cases status with
  | none => exact lockless_afterExit
  | some pid =>
    dsimp only
    split
    · refine .andThen lockless_shutDown fun down => ?_
      split
      · exact lockless_afterExit
      · exact lockless_terminate
    · exact lockless_terminate

theorem above_cacheState {id : String} : lockOrder.Above 0 (cacheState e id) :=
  .bind (Locks.Above.outcome (.bind (above_openDB (Nat.zero_le _)) fun _ =>
    above_lockless lockless_perform)) fun _ => .pure _

theorem above_screenshotVM {ref : String} : lockOrder.Above 0 (screenshotVM e ref) :=
  above_resolved fun _ => above_lockedVM (above_lockless
    (.andThen lockless_isRunning fun _ => .andThen calls_ensureThat fun _ => lockless_perform))

theorem above_shutdownVM {ref : String} : lockOrder.Above 0 (shutdownVM e ref) := by
  refine above_resolved fun m => above_lockedVM (above_lockless ?_)
  refine .andThen lockless_isRunning fun running => ?_
  split
  · exact .andThen (calls_query lockless_qemu) fun _ => .pure _
  · exact .pure _

theorem above_startVM {ref : String} : lockOrder.Above 0 (startVM x inv e ref) := by
  refine above_resolved fun m => .bind (above_lockless (calls_query lockless_qemu)) fun status => ?_
  cases status with
  | some pid => exact .pure _
  | none =>
    refine .bind above_startPrepared fun (pid, current) => ?_
    refine .bind above_attachAssignedUSB.outcome fun attached => ?_
    cases attached with
    | ok u => exact .bind above_cacheState fun _ => .bind above_screenshotVM.outcome fun _ => .pure _
    | error err =>
      refine .bind above_stopMachine.outcome fun _ => .bind above_cacheState fun _ => ?_
      exact above_lockless calls_fail

theorem above_stopVM {ref : String} {guestShutdown : Bool} :
    lockOrder.Above 0 (stopVM e ref guestShutdown) :=
  above_resolved fun _ => .bind above_stopMachine fun _ => above_cacheState

/-! #### Every operation -/

/-- A program of which the result is dropped. -/
theorem above_voided {p : EngineM α} (h : lockOrder.Above 0 p) :
    lockOrder.Above 0 (do let _ ← p : EngineM Unit) := .bind h fun _ => .pure _

theorem above_engineProgram {op : EngineOp} : lockOrder.Above 0 (engineProgram x inv e op) := by
  cases op with
  | createVM params => exact above_voided above_createVM
  | startVM ref => exact above_voided above_startVM
  | stopVM ref guestShutdown => exact above_stopVM
  | shutdownVM ref => exact above_shutdownVM
  | screenshotVM ref => exact above_screenshotVM
  | deleteVM ref => exact above_deleteVM
  | manageDisk ref action params => exact above_manageDisk
  | manageInterface ref action params => exact above_manageInterface
  | updateHardware ref params => exact above_updateHardware
  | updateMedia ref settings => exact above_updateMedia
  | listUSB => exact above_voided above_listUSBDevices
  | listVMUSB ref => exact above_voided above_listVMUSB
  | attachUSB ref params => exact above_voided above_attachUSB
  | detachUSB ref id => exact above_detachUSB
  | assignUSB ref deviceID fingerprint => exact above_voided above_assignUSB
  | unassignUSB ref key => exact above_unassignUSB
  | backupVM ref => exact above_backupVM
  | restoreVM ref timestamp asNew => exact above_voided above_restoreMachine
  | snapshot ref action tag => exact above_changeSnapshot
  | setSchedule ref params => exact above_voided above_setSchedule
  | markScheduleRun id now => exact above_markScheduleRun
  | network op => exact above_network netAbove_program
  | createMedia name size iso => exact above_voided (above_lockless lockless_createMedia)
  | uploadImage name => exact above_voided (above_lockless lockless_uploadImage)
  | deleteMedia id => exact above_deleteMedia

end Above

/-- Whatever processes run, from a state in which no lock is held, none waits for itself by way of
others, nor for a lock that it holds. -/
theorem waits_acyclic {x : Texts} {inv : Inventory} {runDir : String → String} {s0 : World}
    (hs0 : ∀ l, s0.locks l = none)
    {g : Config EngineCall EngineCall.Reply World (Except Message Unit)}
    (hg : (engineSystem x inv runDir).Reach (fun _ _ _ _ => True) s0 g) :
    (∀ i, ¬ Relation.TransGen (lockOrder.Waits World.locks g) i i) ∧
      ∀ i l, lockOrder.Wants g i l → g.shared.locks l ≠ some i := by
  have hcode : ∀ i op, ((engineSystem x inv runDir).code op).Tracks (lockOrder.learning i)
      (fun _ held => held = []) [] := by
    intro i op
    refine Prog.Tracks.mono (above_engineProgram (e := ⟨runDir, op.1⟩) i [] nofun) fun r h hr => ?_
    cases r with
    | ok u => exact hr
    | error err => exact hr
  have hacyclic := fun i => Locks.no_deadlock lockOrder_obeyed hs0 hcode hg i
  exact ⟨hacyclic, fun i l hl hheld => hacyclic i (.single ⟨l, hl, hheld⟩)⟩

section OneMachine

def lone : VMManifest := { id := "v", name := "lab" }

def loneTexts : Texts where
  cidr _ := true
  uuid _ := .ok ()
  mac _ := ""
  unicastMAC _ := none
  manifest := { parse := fun _ => .error "", valid := fun _ => true }

/-- A host without USB devices. -/
def noDevices : Inventory where
  resolve _ _ _ := .error "usb device not found"
  verifyConnection _ _ := .ok ()

/-- References are found, locks are free, and all else fails. -/
def locking : EngineChoice where
  answer
    | .vms (.resolve _) => .ok lone
    | .lock _ => .ok ()
    | a => a.failure

/-- A process that stops a machine has another one wait for it. -/
theorem waits_acyclic_lone : ∃ g, (engineSystem loneTexts noDevices id).moves
      ⟨{ vms := [("v", lone)] }, fun _ => none⟩
      [.begin 0 (0, .stopVM "lab" true), .call 0 locking, .call 0 locking,
        .begin 1 (1, .deleteVM "v"), .call 1 locking] = some g ∧
    lockOrder.Waits World.locks g 1 0 ∧ ¬ Relation.TransGen (lockOrder.Waits World.locks g) 1 1 := by
  obtain ⟨g, hg, hwaits⟩ : ∃ g, (engineSystem loneTexts noDevices id).moves
      ⟨{ vms := [("v", lone)] }, fun _ => none⟩
      [.begin 0 (0, .stopVM "lab" true), .call 0 locking, .call 0 locking,
        .begin 1 (1, .deleteVM "v"), .call 1 locking] = some g ∧
      lockOrder.Waits World.locks g 1 0 := ⟨_, rfl, .vm "v", ⟨_, _, rfl, rfl⟩, rfl⟩
  exact ⟨g, hg, hwaits, (waits_acyclic (fun _ => rfl)
    ((engineSystem loneTexts noDevices id).reach_moves .start hg)).1 1⟩

end OneMachine

end Maco.Engine
