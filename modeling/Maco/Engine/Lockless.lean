import Maco.Engine.Rules
import Maco.Engine.Start

/-! The parts of the engine's operations that take no locks and free none. -/

namespace Maco.Engine

open Concurrent Network VM

/-- The call takes no lock and frees none. -/
def EngineCall.Free : EngineCall → Prop
  | .lock _ | .unlock _ => False
  | _ => True

section Lockless

variable {x : Texts} {inv : Inventory} {e : Paths} {α : Type}

abbrev Lockless (p : EngineM α) : Prop := p.run.Calls EngineCall.Free

theorem lockless_ask {a : EngineCall} (h : a.Free) : Lockless (query (engineCall a)) :=
  calls_query (.request h)

theorem lockless_perform {st : Step} : Lockless (perform st) := calls_demand (.request trivial)

theorem lockless_ignore {st : Step} : Lockless (ignore st) :=
  .andThen (lockless_ask trivial) fun _ => .pure _

theorem lockless_onlyThen {c : Bool} {p : EngineM Unit} (h : Lockless p) :
    Lockless (onlyThen c p) := by
  unfold onlyThen
  split
  · exact h
  · exact .pure _

theorem lockless_save {m : VMManifest} : Lockless (save m) := by
  refine .andThen (lockless_ask trivial) fun r => ?_
  cases r with
  | ok u => exact .pure _
  | error err => exact calls_fail

theorem lockless_isRunning {id : String} : Lockless (isRunning e id) :=
  .andThen (lockless_ask trivial) fun _ => .pure _

theorem lockless_getMedia {id : String} : Lockless (getMedia x id) := by
  unfold getMedia
  cases x.uuid id with
  | error err => exact calls_fail
  | ok u => exact calls_demand (.request trivial)

theorem lockless_validateMedia {isos order : List String} {disks : List VMDisk} :
    Lockless (validateMedia x isos order disks) := by
  have hISOs : ∀ isos seen, Lockless (validateISOs x isos seen) := by
    intro isos
    induction isos with
    | nil => exact fun _ => .pure _
    | cons id isos ih =>
      exact fun seen => .andThen lockless_getMedia fun _ => .andThen calls_ensureThat fun _ => ih _
  exact .andThen (hISOs isos []) fun _ => calls_ensureThat

theorem lockless_imageBase {ref : String} {pull : Bool} : Lockless (imageBase x ref pull) := by
  unfold imageBase
  split
  · exact .andThen lockless_getMedia fun _ => .andThen calls_ensureThat fun _ => .pure _
  · refine .andThen lockless_perform fun _ => ?_
    split
    · exact .andThen lockless_perform fun _ => .pure _
    · exact .pure _

theorem lockless_networkRef {ref : String} : Lockless (networkRef ref) := by
  unfold networkRef
  split
  · exact .pure _
  · refine .andThen (calls_query (calls_demand (.request trivial))) fun r => ?_
    cases r with
    | error err => exact calls_fail
    | ok n => exact .pure _

/-! #### Media -/

theorem lockless_loadEntries {ids : List String} : Lockless (loadEntries ids) := by
  induction ids with
  | nil => exact .pure _
  | cons id ids ih =>
    exact .andThen (calls_demand (.request trivial)) fun _ => .andThen ih fun _ => .pure _

theorem lockless_backings {id : String} {disks : List VMDisk} : Lockless (backings id disks) := by
  induction disks with
  | nil => exact .pure _
  | cons disk disks ih =>
    exact .andThen (lockless_ask trivial) fun _ => .andThen ih fun _ => .pure _

theorem lockless_mediaUsedBy {vms : List VMManifest} : Lockless (mediaUsedBy vms) := by
  induction vms with
  | nil => exact .pure _
  | cons m vms ih => exact .andThen lockless_backings fun _ => .andThen ih fun _ => .pure _

theorem lockless_usedMedia : Lockless usedMedia :=
  .andThen (calls_demand (.request trivial)) fun _ =>
    .andThen lockless_loadEntries fun _ => lockless_mediaUsedBy

theorem lockless_createMedia {name : String} {size : Int} {iso : Bool} :
    Lockless (createMedia name size iso) :=
  .andThen (lockless_ask trivial) fun _ => .andThen calls_ensureThat fun _ =>
    .andThen calls_ensureThat fun _ => .andThen lockless_perform fun _ =>
      .andThen lockless_perform fun _ => .pure _

theorem lockless_uploadImage {name : String} : Lockless (uploadImage name) :=
  .andThen (lockless_ask trivial) fun _ => .andThen calls_ensureThat fun _ =>
    .andThen lockless_perform fun _ => .andThen (calls_demand (.request trivial)) fun _ =>
      .andThen lockless_perform fun _ => .andThen lockless_perform fun _ => .pure _

/-! #### Disks -/

theorem lockless_resizeDisk {id disk : String} {size : Int} : Lockless (resizeDisk e id disk size) :=
  .andThen lockless_isRunning fun _ => lockless_perform

theorem lockless_undoDisk {m : VMManifest} {disk : String} {err : DiskError} :
    Lockless (undoDisk m disk err) := by
  refine .andThen (calls_query lockless_save) fun r => ?_
  cases r with
  | error saveErr => exact calls_fail
  | ok u => exact .andThen (lockless_onlyThen lockless_ignore) fun _ => calls_fail

theorem lockless_addDiskFrom {m : VMManifest} {base : Option String} {params : DiskParams}
    {id : String} : Lockless (addDiskFrom e m base params id) := by
  refine .andThen (lockless_ask trivial) fun r => ?_
  cases r with
  | error err => exact .andThen lockless_ignore fun _ => calls_fail
  | ok u =>
    refine .andThen (calls_query lockless_save) fun r => ?_
    cases r with
    | error err => exact .andThen lockless_ignore fun _ => calls_fail
    | ok u =>
      refine .andThen lockless_isRunning fun running => ?_
      split
      · refine .andThen (lockless_ask trivial) fun r => ?_
        cases r with
        | error err => exact lockless_undoDisk
        | ok u => exact .pure _
      · exact .pure _

theorem lockless_growDisk {m : VMManifest} {disk : VMDisk} {size : Int} :
    Lockless (growDisk e m disk size) :=
  .andThen calls_ensureThat fun _ => .andThen lockless_resizeDisk fun _ => lockless_save

theorem lockless_removeDataDisk {m : VMManifest} {disk : VMDisk} :
    Lockless (removeDataDisk e m disk) := by
  refine .andThen lockless_isRunning fun _ => .andThen calls_ensureThat fun _ => ?_
  refine .andThen lockless_perform fun _ => .andThen (calls_query lockless_save) fun r => ?_
  cases r with
  | ok u => exact lockless_perform
  | error err =>
    refine .andThen (lockless_ask trivial) fun r => ?_
    cases r with
    | error restoreErr => exact calls_fail
    | ok u => exact calls_fail

/-! #### Interfaces and restores -/

theorem lockless_normalizedNetwork {ref : String} : Lockless (normalizedNetwork ref) := by
  unfold normalizedNetwork
  split
  · exact .pure _
  · split
    · exact .pure _
    · exact .andThen (calls_demand (.request trivial)) fun _ =>
        .andThen calls_ensureThat fun _ => .pure _

theorem lockless_normalizeAll {vmID : String} {ids macs : List String} {nics : List VMInterface} :
    Lockless (normalizeAll x vmID ids macs nics) := by
  induction nics generalizing ids macs with
  | nil => exact .pure _
  | cons nic nics ih =>
    refine .andThen calls_ensureThat fun _ => ?_
    dsimp only
    split
    · exact calls_fail
    · exact .andThen calls_ensureThat fun _ => .andThen lockless_normalizedNetwork fun _ =>
        .andThen ih fun _ => .pure _

theorem lockless_normalizedInterfaces {m : VMManifest} : Lockless (normalizedInterfaces x m) :=
  .andThen calls_ensureThat fun _ => lockless_normalizeAll

theorem lockless_checkReference {nic : Option InterfaceSpec} : Lockless (checkReference nic) := by
  cases nic with
  | none => exact .pure _
  | some nic =>
    show Lockless (if _ then _ else _)
    split
    · exact .pure _
    · refine .andThen (calls_query (calls_demand (.request trivial))) fun r => ?_
      cases r with
      | ok n => exact .pure _
      | error err => exact calls_fail

theorem lockless_hotplugInterface {m : VMManifest} {before after : Option InterfaceSpec} :
    Lockless (hotplugInterface x e m before after) := by
  refine .andThen (calls_query (.lift ?_)) fun r => ?_
  · refine (Prog.Calls.any _).mono fun c _ => ?_
    cases c <;> exact trivial
  · cases r with
    | ok u => exact .pure _
    | error err => exact calls_fail

theorem lockless_requireSettled {id : String} : Lockless (requireSettled e id) := by
  refine .andThen lockless_isRunning fun running => ?_
  split
  · exact .andThen (calls_demand (.request trivial)) fun _ => calls_ensureThat
  · exact .pure _

theorem free_ofRestore (c : RestoreCall) : (ofRestore c).Free := by
  cases c <;> exact trivial

theorem lockless_restoreStep {c : RestoreCall} : (restoreStep c).Calls EngineCall.Free :=
  ⟨free_ofRestore c, fun _ => trivial⟩

theorem lockless_lifted {p : Restore α} : (p.lift ofRestore fromRestore).Calls EngineCall.Free :=
  .lift ((Prog.Calls.any p).mono fun c _ => free_ofRestore c)

theorem lockless_restoreCopy {id timestamp : String} {restored : VMManifest} {disks : List String} :
    Lockless (restoreCopy x id timestamp restored disks) := by
  refine .andThen (lockless_ask trivial) fun fresh => .andThen (lockless_ask trivial) fun name => ?_
  refine .andThen (calls_demand lockless_restoreStep) fun _ => ?_
  refine .andThen (calls_query lockless_lifted) fun copied => ?_
  cases copied with
  | error err => exact .andThen (calls_query lockless_restoreStep) fun _ => calls_fail
  | ok u =>
    refine .andThen (calls_query lockless_save) fun saved => ?_
    cases saved with
    | error err => exact .andThen (calls_query lockless_restoreStep) fun _ => calls_fail
    | ok u =>
      refine .andThen (calls_query lockless_restoreStep) fun renamed => ?_
      cases renamed with
      | ok u => exact .pure _
      | error err =>
        exact .andThen (lockless_ask trivial) fun _ =>
          .andThen (calls_query lockless_restoreStep) fun _ => calls_fail

/-! #### USB -/

theorem lockless_usb {c : USBCall} : (usbCall c).Calls EngineCall.Free := .request trivial

theorem lockless_reconcileClaim {claim : USBClaim} :
    (reconcileClaim claim).Calls EngineCall.Free := by
  refine .bind lockless_usb fun generation => ?_
  cases generation with
  | missing => exact .pure _
  | error err => exact .bind lockless_usb fun _ => .pure _
  | found generation =>
    show (if _ then _ else _ : EngineProg _).Calls EngineCall.Free
    split
    · exact .pure _
    · refine .bind lockless_usb fun gone => ?_
      split
      · exact .pure _
      · exact .bind lockless_usb fun _ => .pure _

theorem lockless_reconcileClaims {claims : List USBClaim} :
    (reconcileClaims claims).Calls EngineCall.Free := by
  induction claims with
  | nil => exact .pure _
  | cons claim claims ih => exact .bind lockless_reconcileClaim fun _ => .bind ih fun _ => .pure _

theorem lockless_saveClaims {claims : List USBClaim} : Lockless (saveClaims claims) :=
  calls_demand lockless_usb

theorem lockless_undoAttach {claims : List USBClaim} {claim : USBClaim} {err : Message}
    {state : String} : Lockless (undoAttach claims claim err state) :=
  .andThen (calls_query lockless_usb) fun _ => .andThen (calls_query lockless_usb) fun _ => calls_fail

theorem lockless_verifyCapture {device : Device} : Lockless (verifyCapture inv device) :=
  .andThen (calls_demand lockless_usb) fun _ => .pure _

theorem lockless_captureDevice {claims : List USBClaim} {claim : USBClaim} :
    Lockless (captureDevice inv claims claim) := by
  refine .andThen (calls_query lockless_usb) fun attached => ?_
  cases attached with
  | error err => exact lockless_undoAttach
  | ok u =>
    refine .andThen (calls_query lockless_verifyCapture) fun verified => ?_
    cases verified with
    | error err => exact lockless_undoAttach
    | ok u => exact .andThen lockless_saveClaims fun _ => .pure _

theorem lockless_claimDevice {m : VMManifest} {select : Selector} {stored : List USBClaim} :
    Lockless (claimDevice inv e m select stored) := by
  refine .andThen (lockless_ask trivial) fun status => ?_
  cases status with
  | none => exact calls_fail
  | some pid =>
    refine .andThen (calls_query lockless_reconcileClaims) fun claims => ?_
    refine .andThen (calls_demand lockless_usb) fun devices => ?_
    cases select devices with
    | error err => exact calls_fail
    | ok device =>
      dsimp only
      split
      · exact calls_fail
      · refine .andThen (calls_query lockless_usb) fun generation => ?_
        cases generation with
        | missing => exact calls_fail
        | error err => exact calls_fail
        | found generation =>
          exact .andThen (lockless_ask trivial) fun _ =>
            .andThen lockless_saveClaims fun _ => lockless_captureDevice

theorem lockless_releaseClaim {m : VMManifest} {id : String} {claims : List USBClaim} :
    Lockless (releaseClaim e m id claims) := by
  unfold releaseClaim
  split
  · exact calls_fail
  · refine .andThen calls_ensureThat fun _ => .andThen (calls_query lockless_usb) fun generation => ?_
    cases generation with
    | error err => exact calls_fail
    | missing => exact lockless_saveClaims
    | found generation =>
      refine .andThen ?_ fun _ => lockless_saveClaims
      unfold detachClaimed
      split
      · exact .andThen lockless_isRunning fun _ => lockless_onlyThen (calls_demand lockless_usb)
      · exact .pure _

theorem lockless_addAssignment {id deviceID fingerprint : String} {stored : List USBClaim} :
    Lockless (addAssignment inv e id deviceID fingerprint stored) := by
  refine .andThen (calls_demand (.request trivial)) fun m => ?_
  refine .andThen (calls_demand lockless_usb) fun devices => ?_
  cases inv.resolve devices deviceID (selectedFingerprint devices deviceID fingerprint) with
  | error err => exact calls_fail
  | ok device =>
    cases hmatch : matchUSBAssignment devices (assignmentOf device) with
    | error err =>
      simp only [hmatch]
      exact calls_fail
    | ok matched =>
      simp only [hmatch]
      refine .andThen (calls_query lockless_reconcileClaims) fun claims => ?_
      split
      · exact calls_fail
      · split
        · exact .pure _
        · exact .andThen lockless_save fun _ => .pure _

theorem lockless_detachMatching {m : VMManifest} {a : VMUSBAssignment} {claims : List USBClaim} :
    Lockless (detachMatching e m a claims) := by
  induction claims with
  | nil => exact .pure _
  | cons claim claims ih =>
    unfold detachMatching
    split
    · exact .andThen (calls_demand lockless_usb) fun _ => ih
    · exact .andThen ih fun _ => .pure _

theorem lockless_removeAssignment {id key : String} {stored : List USBClaim} :
    Lockless (removeAssignment e id key stored) := by
  refine .andThen (calls_demand (.request trivial)) fun m => ?_
  split
  · exact calls_fail
  · exact .andThen (calls_query lockless_reconcileClaims) fun _ =>
      .andThen lockless_detachMatching fun _ => .andThen lockless_saveClaims fun _ => lockless_save
  · exact calls_fail

/-! #### Starts and stops -/

theorem lockless_performAs {context : String} {st : Step} : Lockless (performAs context st) := by
  refine .andThen (lockless_ask trivial) fun r => ?_
  cases r with
  | ok u => exact .pure _
  | error err => exact calls_fail

theorem lockless_qemu {id : String} {c : QemuCall} : (qemuCall e id c).Calls EngineCall.Free :=
  .request trivial

theorem lockless_prepareVMDisk {m : VMManifest} : Lockless (prepareVMDisk x m) := by
  refine .andThen (calls_demand (.request trivial)) fun found => ?_
  split
  · exact .pure _
  · refine .andThen ?_ fun _ => lockless_perform
    unfold bootImage
    split
    · exact .pure _
    · exact lockless_imageBase

theorem lockless_requireDisk {id : String} {disk : VMDisk} : Lockless (requireDisk x id disk) := by
  unfold requireDisk
  cases x.uuid disk.id with
  | error err => exact calls_fail
  | ok u =>
    refine .andThen (lockless_ask trivial) fun r => ?_
    split
    · exact .pure _
    · exact calls_fail
    · exact calls_fail

theorem lockless_startHelpers {id : String} {nics : List InterfaceSpec} :
    Lockless (startHelpers e id nics) := by
  induction nics with
  | nil => exact .pure _
  | cons nic nics ih =>
    unfold startHelpers
    split
    · refine .andThen (calls_query lockless_qemu) fun r => ?_
      cases r with
      | ok u => exact ih
      | error err => exact .andThen (calls_query lockless_qemu) fun _ => calls_fail
    · exact ih

theorem lockless_launchQEMU {spec : Spec} : Lockless (launchQEMU e spec) := by
  refine .andThen (calls_query lockless_qemu) fun r => ?_
  cases r with
  | error err => exact .andThen (calls_query lockless_qemu) fun _ => calls_fail
  | ok pid =>
    refine .andThen (calls_query lockless_qemu) fun r => ?_
    cases r with
    | error err =>
      exact .andThen (calls_query lockless_qemu) fun _ =>
        .andThen (calls_query lockless_qemu) fun _ => calls_fail
    | ok u =>
      refine .andThen (calls_query lockless_qemu) fun alive => ?_
      split
      · exact .pure _
      · exact .andThen (calls_query lockless_qemu) fun _ =>
          .andThen (calls_query lockless_qemu) fun _ => calls_fail

theorem lockless_startSpec {spec : Spec} : Lockless (startSpec x e spec) :=
  .andThen lockless_performAs fun _ => .andThen (calls_demand lockless_qemu) fun _ =>
    .andThen (calls_demand lockless_qemu) fun _ => .andThen lockless_perform fun _ =>
      .andThen (.pure _) fun _ => .andThen lockless_performAs fun _ =>
        .andThen lockless_startHelpers fun _ => lockless_launchQEMU

theorem lockless_afterExit {id : String} : Lockless (afterExit e id) :=
  .andThen (calls_query lockless_qemu) fun _ => calls_demand lockless_qemu

theorem lockless_shutDown {id : String} {pid : Nat} : Lockless (shutDown e id pid) := by
  refine .andThen (calls_query lockless_qemu) fun down => ?_
  split
  · exact calls_query lockless_qemu
  · exact .pure _

theorem lockless_terminate {id : String} {pid : Nat} : Lockless (terminate e id pid) := by
  refine .andThen (calls_demand lockless_qemu) fun _ => ?_
  refine .andThen (calls_query lockless_qemu) fun exited => ?_
  split
  · exact lockless_afterExit
  · refine .andThen (calls_query lockless_qemu) fun r => ?_
    cases r with
    | error err => exact calls_fail
    | ok u =>
      refine .andThen (calls_query lockless_qemu) fun exited => ?_
      split
      · exact lockless_afterExit
      · exact calls_fail

end Lockless

end Maco.Engine
