import Maco.Engine.Rules
import Maco.Engine.Usb

/-! Which device QEMU captures: the selector that it is given, the selection by a reference and the
one by a stored assignment. -/

namespace Maco.Engine

open Concurrent Prog

/-! ### Selectors -/

/-- The device satisfies the selector that QEMU's `usb-host` is given for the selected one, in which
a bus, a vendor or a product of zero stands for any. -/
def selects (selected device : Device) : Bool :=
  (selected.bus = 0 || device.bus = selected.bus) &&
  (device.address = selected.address && device.port = selected.port) &&
  (selected.vendorID = 0 || device.vendorID = selected.vendorID) &&
  (selected.productID = 0 || device.productID = selected.productID)

def uniqueSelector (devices : List Device) (selected : Device) : Except Message Unit :=
  if (devices.filter (selects selected)).length ≠ 1 then
    .error ("QEMU cannot uniquely identify this USB device; disconnect the matching device on " ++
      "another bus and refresh" : String)
  else .ok ()

/-- `usb.Resolve`. -/
def usbResolve (devices : List Device) (id fingerprint : String) : Except Message Device :=
  match devices.find? (·.id = id) with
  | none =>
    .error ("USB device disconnected or changed; refresh and select it again" : String)
  | some device =>
    if fingerprint = "" || device.fingerprint ≠ fingerprint then
      .error ("USB selection changed; refresh and select the device again" : String)
    else if device.state ≠ "available" then
      .error ("USB device unavailable: " ++ device.reason : String)
    else
      match uniqueSelector devices device with
      | .error e => .error e
      | .ok () => .ok device

/-- `usb.VerifyConnection`. -/
def usbVerifyConnection (devices : List Device) (selected : Device) : Except Message Unit :=
  match uniqueSelector devices selected with
  | .error e => .error e
  | .ok () =>
    match devices.find? (·.id = selected.id) with
    | none => .error ("USB connection changed during capture" : String)
    | some device =>
      if device.serial ≠ "" && selected.serial ≠ "" && device.serial ≠ selected.serial then
        .error ("USB serial number changed during capture" : String)
      else .ok ()

/-- The package `usb`. -/
def usb : Inventory where
  resolve := usbResolve
  verifyConnection := usbVerifyConnection

/-- The device is the only one of the inventory that its selector admits. -/
def Only (devices : List Device) (d : Device) : Prop := devices.filter (selects d) = [d]

instance (devices : List Device) (d : Device) : Decidable (Only devices d) :=
  inferInstanceAs (Decidable (_ = _))

@[simp] theorem selects_self (d : Device) : selects d d = true := by simp [selects]

theorem uniqueSelector_ok {devices : List Device} {d : Device} :
    uniqueSelector devices d = .ok () ↔ (devices.filter (selects d)).length = 1 := by
  unfold uniqueSelector
  split
  · rename_i hne
    exact ⟨fun h => by contradiction, fun h => absurd h hne⟩
  · rename_i heq
    exact ⟨fun _ => by simpa using heq, fun _ => rfl⟩

theorem only_iff {devices : List Device} {d : Device} (hd : d ∈ devices) :
    Only devices d ↔ uniqueSelector devices d = .ok () := by
  have hmem : d ∈ devices.filter (selects d) := by simp [hd]
  rw [uniqueSelector_ok, List.length_eq_one_iff]
  constructor
  · intro h
    exact ⟨d, h⟩
  · rintro ⟨x, hx⟩
    rw [hx, List.mem_singleton] at hmem
    rw [Only, hx, hmem]

/-- What a reference selects is connected, available and the only one. -/
theorem usbResolve_ok {devices : List Device} {id fingerprint : String} {d : Device}
    (h : usbResolve devices id fingerprint = .ok d) :
    d ∈ devices ∧ d.state = "available" ∧ Only devices d := by
  rw [usbResolve] at h
  split at h
  · contradiction
  · rename_i device hfind
    have hmem := List.mem_of_find?_eq_some hfind
    split at h
    · contradiction
    split at h
    · contradiction
    rename_i hstate
    split at h
    · contradiction
    · rename_i hunique
      cases h
      exact ⟨hmem, by simpa using hstate, (only_iff hmem).mpr hunique⟩

/-- What an assignment selects is the one connected device that it matches, and is available. -/
theorem matchUSBAssignment_ok {devices : List Device} {a : VMUSBAssignment} {d : Device} :
    matchUSBAssignment devices a = .ok d ↔
      devices.filter (assignmentMatchesDevice a) = [d] ∧ d.state = "available" := by
  rw [matchUSBAssignment]
  split
  · rename_i hnone
    simp [hnone]
  · rename_i device hone
    rw [hone]
    split <;> simp <;> grind
  · rename_i hno hone
    constructor
    · intro h
      contradiction
    · rintro ⟨h, _⟩
      exact absurd h (hone d)

/-! ### The devices of the host and the registry

A machine, its stored manifest, the stored claims, the inventory of the host and the devices that
QEMU was told to capture.  The environment chooses the answers; what is read is what is there. -/

structure USBWorld where
  stored : VMManifest
  claims : List USBClaim
  inventory : List Device
  handed : List Device := []

/-- The answer, and whether a write that fails has taken effect all the same. -/
structure USBChoice where
  answer : (a : EngineCall) → a.Reply
  took : Bool := false

namespace USBWorld

variable (s : USBWorld) (c : USBChoice)

def accepts : EngineCall → Bool
  | .vms (.resolve ref) => granted (c.answer (.vms (.resolve ref))) fun m =>
    decide (m.id = s.stored.id)
  | .vms (.load id) => granted (c.answer (.vms (.load id))) fun m => decide (m = s.stored)
  | .usb .readClaims => granted (c.answer (.usb .readClaims)) fun claims =>
    decide (claims = s.claims)
  | .usb .hostDevices => granted (c.answer (.usb .hostDevices)) fun devices =>
    decide (devices = s.inventory)
  | _ => true

def storedAfter : EngineCall → VMManifest
  | .vms (.save m) => if (c.answer (.vms (.save m))).isOk || c.took then m else s.stored
  | _ => s.stored

def claimsAfter : EngineCall → List USBClaim
  | .usb (.saveClaims claims) =>
    if (c.answer (.usb (.saveClaims claims))).isOk || c.took then claims else s.claims
  | _ => s.claims

def handedAfter : EngineCall → List Device
  | .usb (.attach _ _ device) => s.handed ++ [device]
  | _ => s.handed

/-- The state after a call. -/
def after (a : EngineCall) : USBWorld where
  stored := s.storedAfter c a
  claims := s.claimsAfter c a
  inventory := s.inventory
  handed := s.handedAfter a

def perform : Perform EngineCall EngineCall.Reply USBChoice USBWorld :=
  fun a c s => if s.accepts c a then some (c.answer a, s.after c a) else none

variable {s c} {a : EngineCall} {r : a.Reply} {t : USBWorld}

theorem perform_cases (h : perform a c s = some (r, t)) :
    s.accepts c a = true ∧ c.answer a = r ∧ s.after c a = t := by
  rw [perform] at h
  split at h
  · rename_i haccepts
    simp only [Option.some.injEq, Prod.mk.injEq] at h
    exact ⟨haccepts, h⟩
  · contradiction

theorem perform_inventory (h : perform a c s = some (r, t)) : t.inventory = s.inventory := by
  obtain ⟨_, _, rfl⟩ := perform_cases h
  rfl

end USBWorld

/-- Every end of the program that allowed steps lead to satisfies `Q`. -/
def Ends {α : Type} (allowed : EngineCall → USBChoice → USBWorld → Prop) (p : EngineM α)
    (Q : Except Message α → USBWorld → Prop) (s : USBWorld) : Prop :=
  wp (Setting.alone USBWorld.perform allowed) p.run Q s

/-- Any step counts. -/
def anyStep : EngineCall → USBChoice → USBWorld → Prop := fun _ _ _ => True

section Ends

variable {α β : Type} {allowed : EngineCall → USBChoice → USBWorld → Prop} {s : USBWorld}

theorem ends_bind {p : EngineM α} {f : α → EngineM β} {Q : Except Message β → USBWorld → Prop}
    (h : Ends allowed p (fun r t =>
      match r with
      | .error e => Q (.error e) t
      | .ok x => Ends allowed (f x) Q t) s) : Ends allowed (p >>= f) Q s := by
  refine wp_andThen (wp_mono h fun r t hr => ?_)
  cases r with
  | error e => exact hr
  | ok x => exact hr

theorem ends_mono {p : EngineM α} {Q Q' : Except Message α → USBWorld → Prop}
    (h : Ends allowed p Q s) (hQ : ∀ r t, Q r t → Q' r t) : Ends allowed p Q' s := wp_mono h hQ

theorem ends_queryThen {p : EngineProg α} {f : α → EngineM β}
    {Q : Except Message β → USBWorld → Prop}
    (h : wp (Setting.alone USBWorld.perform allowed) p (fun x t => Ends allowed (f x) Q t) s) :
    Ends allowed (query p >>= f) Q s := wp_liftThen h

/-- A call of the program, by what the state admits of its answer. -/
theorem wp_answer {a : EngineCall} {Q : a.Reply → USBWorld → Prop}
    (h : ∀ c, allowed a c s → s.accepts c a = true → Q (c.answer a) (s.after c a)) :
    wp (Setting.alone USBWorld.perform allowed) (engineCall a) Q s := by
  refine wp_alone_call fun c r t hc hp => ?_
  obtain ⟨haccepts, rfl, rfl⟩ := USBWorld.perform_cases hp
  exact h c hc haccepts

/-- A call that changes nothing, and whatever it is answered. -/
theorem wp_askThen {a : EngineCall} {f : a.Reply → EngineProg β} {Q : β → USBWorld → Prop}
    (ha : ∀ c, s.after c a = s)
    (h : ∀ r, wp (Setting.alone USBWorld.perform allowed) (f r) Q s) :
    wp (Setting.alone USBWorld.perform allowed) (engineCall a >>= f) Q s := by
  refine wp_seq (wp_answer fun c _ _ => ha c) (P := fun _ t => t = s) ?_
  rintro r _ rfl
  exact h r

theorem ends_callThen {a : EngineCall} {f : a.Reply → EngineM β}
    {Q : Except Message β → USBWorld → Prop}
    (h : ∀ c, allowed a c s → s.accepts c a = true →
      Ends allowed (f (c.answer a)) Q (s.after c a)) :
    Ends allowed (query (engineCall a) >>= f) Q s :=
  ends_queryThen (wp_answer h)

theorem ends_ensureThen {b : Bool} {e : Message} {p : EngineM β}
    {Q : Except Message β → USBWorld → Prop} (hfail : Q (.error e) s) (h : Ends allowed p Q s) :
    Ends allowed (ensureThat b e >>= fun _ => p) Q s := by
  unfold ensureThat
  split
  · exact h
  · exact hfail

/-- What is done under a lock, where neither taking nor freeing it changes anything. -/
theorem ends_locked {l : LockName} {body : EngineM α} {Q : Except Message α → USBWorld → Prop}
    (hfail : ∀ c e, allowed (.lock l) c s → c.answer (.lock l) = .error e → Q (.error e) s)
    (h : Ends allowed body Q s) : Ends allowed (locked l body) Q s := by
  refine ends_bind (wp_answer fun c hc _ => ?_)
  split
  · rename_i e he
    exact hfail c e hc he
  · refine ends_queryThen (wp_mono h fun result t ht => ?_)
    exact ends_callThen fun c _ _ => ht

/-- A state that satisfies what every call of the program keeps. -/
theorem ends_of_calls {P : EngineCall → Prop} {p : EngineM α} {I : USBWorld → Prop}
    (h : p.run.Calls P) (hs : I s)
    (hStep : ∀ u a c r t, P a → I u → USBWorld.perform a c u = some (r, t) → I t) :
    Ends allowed p (fun _ t => I t) s := by
  refine wp_of_calls h hs ?_ ?_
  · rintro u v hu rfl
    exact hu
  · intro u a c r t ha hu _ hp
    exact ⟨trivial, hStep u a c r t ha hu hp⟩

end Ends

/-! ### Which devices are claimed and captured -/

/-- A call that hands QEMU no device but one that `P` holds of, and stores no claim but for devices
that `C` holds of. -/
def Hands (P C : Device → Prop) : EngineCall → Prop
  | .usb (.attach _ _ device) => P device
  | .usb (.saveClaims claims) => ∀ claim ∈ claims, C claim.attachment.device
  | _ => True

/-- The inventory stands, all that QEMU was handed satisfies `P`, and all that is claimed `C`. -/
structure Handed (devices : List Device) (P C : Device → Prop) (s : USBWorld) : Prop where
  inventory : s.inventory = devices
  handed : ∀ d ∈ s.handed, P d
  claimed : ∀ claim ∈ s.claims, C claim.attachment.device

theorem Handed.step {devices : List Device} {P C : Device → Prop} {s t : USBWorld}
    {a : EngineCall} {c : USBChoice} {r : a.Reply} (ha : Hands P C a) (hs : Handed devices P C s)
    (h : USBWorld.perform a c s = some (r, t)) : Handed devices P C t := by
  have hinventory := (USBWorld.perform_inventory h).trans hs.inventory
  obtain ⟨_, _, rfl⟩ := USBWorld.perform_cases h
  refine ⟨hinventory, fun d hd => ?_, fun claim hclaim => ?_⟩
  · change d ∈ s.handedAfter a at hd
    unfold USBWorld.handedAfter at hd
    split at hd
    · rw [List.mem_append, List.mem_singleton] at hd
      obtain hd | rfl := hd
      · exact hs.handed d hd
      · exact ha
    · exact hs.handed d hd
  · change claim ∈ s.claimsAfter c a at hclaim
    unfold USBWorld.claimsAfter at hclaim
    split at hclaim
    · split at hclaim
      · exact ha claim hclaim
      · exact hs.claimed claim hclaim
    · exact hs.claimed claim hclaim

/-- What is left of the claims: those of before, for the same devices of the same machines. -/
def Remains (claims kept : List USBClaim) : Prop :=
  ∀ k ∈ kept, ∃ claim ∈ claims, k.attachment.device = claim.attachment.device ∧
    k.attachment.vmID = claim.attachment.vmID ∧ k.runDir = claim.runDir

section Programs

variable {allowed : EngineCall → USBChoice → USBWorld → Prop} {s : USBWorld}

theorem USBClaim.seen_some {claim k : USBClaim} {known : Bool}
    {observed : Except Message USBObservation} (h : claim.seen known observed = some k) :
    k.attachment.device = claim.attachment.device ∧
      k.attachment.vmID = claim.attachment.vmID ∧ k.runDir = claim.runDir := by
  unfold USBClaim.seen at h
  split at h
  · split at h
    · contradiction
    split at h
    all_goals
      cases h
      exact ⟨rfl, rfl, rfl⟩
  · cases h
    exact ⟨rfl, rfl, rfl⟩

theorem wp_reconcileClaim {claim : USBClaim} :
    wp (Setting.alone USBWorld.perform allowed) (reconcileClaim claim)
      (fun kept t => t = s ∧ Remains [claim] kept.toList) s := by
  have hseen : ∀ (known : Bool) (observed : Except Message USBObservation),
      Remains [claim] (claim.seen known observed).toList := by
    intro known observed k hk
    rw [Option.mem_toList] at hk
    exact ⟨claim, List.mem_singleton.mpr rfl, USBClaim.seen_some hk⟩
  have hnone : Remains [claim] (none : Option USBClaim).toList := fun k hk => by cases hk
  refine wp_askThen (fun _ => rfl) fun generation => ?_
  split
  · exact ⟨rfl, hnone⟩
  · exact wp_askThen (fun _ => rfl) fun observed => ⟨rfl, hseen _ _⟩
  split
  · exact ⟨rfl, hnone⟩
  refine wp_askThen (fun _ => rfl) fun gone => ?_
  split
  · exact ⟨rfl, hnone⟩
  · exact wp_askThen (fun _ => rfl) fun observed => ⟨rfl, hseen _ _⟩

/-- Reconciling changes nothing, and keeps some of the claims. -/
theorem wp_reconcileClaims {claims : List USBClaim} :
    wp (Setting.alone USBWorld.perform allowed) (reconcileClaims claims)
      (fun kept t => t = s ∧ Remains claims kept) s := by
  induction claims with
  | nil => exact ⟨rfl, fun k hk => by cases hk⟩
  | cons claim claims ih =>
    refine wp_seq wp_reconcileClaim ?_
    rintro kept _ ⟨rfl, hkept⟩
    refine wp_seq ih ?_
    rintro rest _ ⟨rfl, hrest⟩
    refine ⟨rfl, fun k hk => ?_⟩
    obtain hk | hk := List.mem_append.mp hk
    · obtain ⟨x, hx, h⟩ := hkept k hk
      exact ⟨x, List.mem_cons.mpr (.inl (List.mem_singleton.mp hx)), h⟩
    · obtain ⟨x, hx, h⟩ := hrest k hk
      exact ⟨x, List.mem_cons_of_mem _ hx, h⟩

end Programs

section Capture

variable {P C : Device → Prop} {inv : Inventory} {claims : List USBClaim} {claim : USBClaim}

/-- Claims with one more. -/
theorem claimed_append (hclaims : ∀ k ∈ claims, C k.attachment.device)
    (h : C claim.attachment.device) : ∀ k ∈ claims ++ [claim], C k.attachment.device := by
  intro k hk
  rw [List.mem_append, List.mem_singleton] at hk
  obtain hk | rfl := hk
  · exact hclaims k hk
  · exact h

theorem undoAttach_hands {e : Message} {state : String}
    (hclaims : ∀ k ∈ claims, C k.attachment.device) (h : C claim.attachment.device) :
    (undoAttach claims claim e state).run.Calls (Hands P C) := by
  refine .andThen (calls_query (.request trivial)) fun cleanup => ?_
  refine .andThen (calls_query (.request ?_)) fun _ => calls_fail
  show ∀ k ∈ (if cleanup.isOk then claims else claims ++ [claim.become state]), _
  split
  · exact hclaims
  · exact claimed_append hclaims h

/-- All that is done once a device has been claimed is about no other. -/
theorem captureDevice_hands (hclaims : ∀ k ∈ claims, C k.attachment.device)
    (hP : P claim.attachment.device) (hC : C claim.attachment.device) :
    (captureDevice inv claims claim).run.Calls (Hands P C) := by
  have hverify : (verifyCapture inv claim.attachment.device).run.Calls (Hands P C) :=
    .andThen (calls_demand (.request trivial)) fun _ => calls_demand (.pure _)
  refine .andThen (calls_query (.request hP)) fun attached => ?_
  split
  · exact undoAttach_hands hclaims hC
  refine .andThen (calls_query hverify) fun verified => ?_
  split
  · exact undoAttach_hands hclaims hC
  · exact .andThen (calls_demand (.request (claimed_append hclaims hC))) fun _ => .pure _

variable {allowed : EngineCall → USBChoice → USBWorld → Prop} {s : USBWorld}

/-- A device that is claimed and attached is one that was selected from the inventory. -/
theorem claimDevice_hands {e : Paths} {m : VMManifest} {select : Selector} {devices : List Device}
    (hselect : ∀ d, select devices = .ok d → P d ∧ C d)
    (hclaims : ∀ k ∈ claims, C k.attachment.device) (hs : Handed devices P C s) :
    Ends allowed (claimDevice inv e m select claims) (fun _ t => Handed devices P C t) s := by
  refine ends_callThen fun c _ _ => ?_
  split
  · exact hs
  refine ends_queryThen (wp_mono wp_reconcileClaims ?_)
  rintro kept _ ⟨rfl, hremains⟩
  have hkept : ∀ k ∈ kept, C k.attachment.device := by
    intro k hk
    obtain ⟨x, hx, hdevice, _⟩ := hremains k hk
    rw [hdevice]
    exact hclaims x hx
  refine ends_bind (wp_answer fun d _ haccepts => ?_)
  split
  · exact hs
  · rename_i listed hlisted
    have hlist : listed = devices := (of_decide_eq_true
      (granted_ok (p := fun l => decide (l = s.inventory)) haccepts hlisted)).trans hs.inventory
    subst hlist
    split
    · exact hs
    · rename_i device hdevice
      obtain ⟨hP, hC⟩ := hselect device hdevice
      split
      · exact hs
      · refine ends_callThen fun c _ _ => ?_
        split
        · exact hs
        · exact hs
        refine ends_of_calls (P := Hands P C) ?_ hs fun u a c r t ha hu hp => hu.step ha hp
        refine .andThen (calls_query (.request trivial)) fun id => ?_
        exact .andThen (calls_demand (.request (claimed_append hkept hC))) fun _ =>
          captureDevice_hands hkept hP hC

theorem attachUSBDevice_hands {e : Paths} {m : VMManifest} {select : Selector}
    {devices : List Device} (hselect : ∀ d, select devices = .ok d → P d ∧ C d)
    (hs : Handed devices P C s) :
    Ends allowed (attachUSBDevice inv e m select) (fun _ t => Handed devices P C t) s := by
  refine ends_locked (fun _ _ _ _ => hs) (ends_locked (fun _ _ _ _ => hs) (ends_bind ?_))
  refine wp_answer fun c _ haccepts => ?_
  split
  · exact hs
  · rename_i read hread
    have hclaims : read = s.claims := of_decide_eq_true
      (granted_ok (p := fun l => decide (l = s.claims)) haccepts hread)
    rw [hclaims]
    exact claimDevice_hands hselect hs.claimed hs

end Capture

/-! ### A host that obliges -/

namespace USBWorld

/-- The answers of a host where everything succeeds; `gone` says of all QEMUs of earlier claims
that they no longer run. -/
def obliging (gone : Bool) (s : USBWorld) : (a : EngineCall) → a.Reply
  | .lock _ => .ok ()
  | .vms (.resolve _) => .ok s.stored
  | .vms (.load _) => .ok s.stored
  | .vms (.save _) => .ok ()
  | .qemu _ .status => some 1
  | .usb .readClaims => .ok s.claims
  | .usb (.saveClaims _) => .ok ()
  | .usb (.generation _) => .found "1"
  | .usb (.noProcess _) => gone
  | .usb .hostDevices => .ok s.inventory
  | .usb (.attach _ _ _) | .usb (.detach _ _) => .ok ()
  | a => a.failure

def oblige (gone : Bool) (a : EngineCall) (s : USBWorld) : a.Reply × USBWorld :=
  (s.obliging gone a, s.after ⟨s.obliging gone, false⟩ a)

theorem perform_oblige (gone : Bool) (a : EngineCall) (s : USBWorld) :
    perform a ⟨s.obliging gone, false⟩ s = some (oblige gone a s) := by
  have haccepts : s.accepts ⟨s.obliging gone, false⟩ a = true := by
    unfold accepts
    split <;> simp [obliging, granted]
  rw [perform, if_pos haccepts]
  rfl

/-- The program can run as it does on a host that obliges. -/
theorem runs_oblige {allowed : EngineCall → USBChoice → USBWorld → Prop}
    {gone : Bool}
    (h : ∀ a s, allowed a ⟨s.obliging gone, false⟩ s) {α : Type} (p : EngineProg α) (s : USBWorld) :
    p.Runs perform allowed s (p.eval (oblige gone) s).1 (p.eval (oblige gone) s).2 :=
  runs_of_eval (fun a s => ⟨⟨s.obliging gone, false⟩, h a s, perform_oblige gone a s⟩) p s

theorem handed_oblige {gone : Bool} {α : Type} {d : Device} (p : EngineProg α) {s : USBWorld}
    (h : d ∈ s.handed) : d ∈ (p.eval (oblige gone) s).2.handed := by
  induction p generalizing s with
  | ret x => exact h
  | call a next ih =>
    refine ih _ ?_
    show d ∈ s.handedAfter a
    unfold handedAfter
    split
    · exact List.mem_append_left _ h
    · exact h

variable {gone : Bool} {s : USBWorld}

theorem eval_queryThen {α β : Type} (p : EngineProg α) (f : α → EngineM β) :
    (query p >>= f).run.eval (oblige gone) s =
      (f (p.eval (oblige gone) s).1).run.eval (oblige gone) (p.eval (oblige gone) s).2 := by
  rw [eval_andThen]
  have hquery : (query p).run.eval (oblige gone) s =
      (.ok (p.eval (oblige gone) s).1, (p.eval (oblige gone) s).2) := by
    show (p >>= fun x => .ret (Except.ok x)).eval (oblige gone) s = _
    rw [eval_bind]
    rfl
  rw [hquery]

theorem eval_locked {α : Type} {l : LockName} {body : EngineM α} :
    ((locked l body).run.eval (oblige gone) s).2 = (body.run.eval (oblige gone) s).2 := by
  rw [locked, eval_andThen]
  show ((query body.run >>= fun result => _ : EngineM α).run.eval (oblige gone) s).2 = _
  rw [eval_queryThen]
  rfl

theorem eval_reconcileClaims (claims : List USBClaim) :
    (reconcileClaims claims).eval (oblige true) s = ([], s) := by
  induction claims with
  | nil => rfl
  | cons claim claims ih =>
    have hclaim : (reconcileClaim claim).eval (oblige true) s = (none, s) := by
      rw [reconcileClaim]
      show Prog.eval (oblige true) (if "1" ≠ claim.generation then _ else _) s = _
      split
      · rfl
      · rfl
    rw [reconcileClaims, eval_bind, hclaim, eval_bind, ih]
    rfl

theorem eval_captureDevice {inv : Inventory} {claims : List USBClaim} {claim : USBClaim} :
    claim.attachment.device ∈ ((captureDevice inv claims claim).run.eval (oblige gone) s).2.handed := by
  rw [captureDevice, eval_queryThen]
  exact handed_oblige _ (List.mem_append_right s.handed (List.mem_singleton.mpr rfl))

/-- Every earlier claim has lapsed, and QEMU is handed the device that is selected. -/
theorem eval_attachUSBDevice {inv : Inventory} {e : Paths} {m : VMManifest} {select : Selector}
    {d : Device} (h : select s.inventory = .ok d) :
    d ∈ ((attachUSBDevice inv e m select).run.eval (oblige true) s).2.handed := by
  rw [attachUSBDevice, lockedVM, eval_locked, withRegistry, eval_locked, eval_andThen]
  show d ∈ ((claimDevice inv e m select s.claims).run.eval (oblige true) s).2.handed
  rw [claimDevice, eval_queryThen]
  show d ∈ ((query (reconcileClaims s.claims) >>= fun claims => _ : EngineM String).run.eval
    (oblige true) s).2.handed
  rw [eval_queryThen, eval_reconcileClaims, eval_andThen]
  have hdevices : (demand (usbCall .hostDevices)).run.eval (oblige true) s = (.ok s.inventory, s) := rfl
  rw [hdevices]
  dsimp only
  rw [h]
  show d ∈ ((query (usbCall (.generation (e.runDir m.id))) >>= fun g => _ :
    EngineM String).run.eval (oblige true) s).2.handed
  rw [eval_queryThen]
  show d ∈ ((query (engineCall .newString) >>= fun id => _ : EngineM String).run.eval
    (oblige true) s).2.handed
  rw [eval_queryThen, eval_andThen]
  exact eval_captureDevice

end USBWorld

/-! ### The device that is captured -/

/-- Whatever the calls of the program are answered, each device that QEMU is handed is the only one
of the inventory that its selector admits. -/
def CapturesOnly {α : Type} (p : EngineM α) (stored : VMManifest) (claims : List USBClaim)
    (devices : List Device) : Prop :=
  ∀ r t, p.run.Runs USBWorld.perform anyStep ⟨stored, claims, devices, []⟩ r t →
    ∀ d ∈ t.handed, Only devices d

/-- Where the assignment matches one connected device alone, and that one is available, its selector
admits no device that the assignment does not match. -/
def Distinguished (devices : List Device) (a : VMUSBAssignment) : Prop :=
  ∀ d, devices.filter (assignmentMatchesDevice a) = [d] → d.state = "available" →
    ∀ d' ∈ devices, assignmentMatchesDevice a d' = false → selects d d' = false

theorem only_of_distinguished {devices : List Device} {a : VMUSBAssignment} {d : Device}
    (h : Distinguished devices a) (hd : matchUSBAssignment devices a = .ok d) :
    Only devices d := by
  obtain ⟨hone, hstate⟩ := matchUSBAssignment_ok.mp hd
  have hsame : devices.filter (selects d) = devices.filter (assignmentMatchesDevice a) := by
    apply List.filter_congr
    intro d' hd'
    cases hmatch : assignmentMatchesDevice a d' with
    | false => exact h d hone hstate d' hd' hmatch
    | true =>
      have hmem : d' ∈ devices.filter (assignmentMatchesDevice a) :=
        List.mem_filter.mpr ⟨hd', hmatch⟩
      rw [hone, List.mem_singleton] at hmem
      rw [hmem, selects_self]
  rw [Only, hsame, hone]

theorem distinguished_of_only {devices : List Device} {a : VMUSBAssignment}
    (h : ∀ d, matchUSBAssignment devices a = .ok d → Only devices d) :
    Distinguished devices a := by
  intro d hone hstate d' hd' hmatch
  have honly := h d (matchUSBAssignment_ok.mpr ⟨hone, hstate⟩)
  cases hselects : selects d d' with
  | false => rfl
  | true =>
    have hmem : d' ∈ devices.filter (selects d) := List.mem_filter.mpr ⟨hd', hselects⟩
    have hd : d ∈ devices.filter (assignmentMatchesDevice a) := by simp [hone]
    rw [honly, List.mem_singleton] at hmem
    rw [hmem, (List.mem_filter.mp hd).2] at hmatch
    contradiction

end Maco.Engine
