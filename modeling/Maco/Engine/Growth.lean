import Maco.Engine.DiskWorld

/-! The growth of disks: `ManageDisk` with the action `vm.disk.grow`, and `UpdateHardware` with a size
for the boot disk.  A stopped machine's disk gets the size that is asked for; a running one's gets
what the multiplication in 64 bits leaves of it. -/

namespace Maco.Engine.Growth

open Concurrent VM

/-- The setting of an operation that has its machine to itself. -/
abbrev undisturbed (x : Texts) : Setting DiskCall DiskCall.Reply DiskChoice DiskWorld :=
  Setting.alone (DiskWorld.perform x) fun _ _ _ => True

section Rules

variable {x : Texts} {s : DiskWorld} {nodeName : String → String} {α : Type}

theorem wp_diskCall (a : DiskCall) {Q : a.Reply → DiskWorld → Prop}
    (h : ∀ c, s.accepts x c a = true → Q (c.answer a) (s.after c a)) :
    wp (undisturbed x) (diskCall a) Q s := by
  apply wp_alone_call
  intro c r t _ hp
  obtain ⟨haccepts, rfl, rfl⟩ := DiskWorld.perform_cases hp
  exact h c haccepts

/-- A call of the engine that saves no manifest. -/
theorem wp_engineCall (a : EngineCall) (ha : ∀ m, a ≠ .vms (.save m))
    {Q : a.Reply → DiskWorld → Prop}
    (h : ∀ c, s.acceptsEngine x c a = true → Q (c.answer (.engine a)) s) :
    wp (undisturbed x) (diskCall (.engine a)) Q s := by
  apply wp_diskCall
  intro c hc
  rw [DiskWorld.after_engine ha]
  exact h c hc

theorem wpOk_refuse {e : Message} {Q : α → DiskWorld → Prop} : wpOk (undisturbed x) (refuse e) Q s :=
  wpOk_fail

theorem wpOk_resolveVM {ref : String} {Q : VMManifest → DiskWorld → Prop}
    (h : ∀ m, m.id = s.stored.id → Q m s) :
    wpOk (undisturbed x) (onDisks nodeName (resolveVM ref)) Q s := by
  rw [resolveVM, onDisks_demand, expand_engineCall]
  refine wp_engineCall (.vms (.resolve ref)) (fun m h => by cases h) fun c hc m hm => ?_
  rw [DiskWorld.acceptsEngine] at hc
  have hid := granted_ok hc hm
  exact h m (of_decide_eq_true hid)

theorem wpOk_loadVM {id : String} {Q : VMManifest → DiskWorld → Prop}
    (h : x.manifest.valid s.stored = true → Q s.stored s) :
    wpOk (undisturbed x) (onDisks nodeName (loadVM id)) Q s := by
  rw [loadVM, onDisks_demand, expand_engineCall]
  refine wp_engineCall (.vms (.load id)) (fun m h => by cases h) fun c hc m hm => ?_
  rw [DiskWorld.acceptsEngine] at hc
  have hload := granted_ok hc hm
  obtain ⟨hstored, hvalid⟩ := Bool.and_eq_true_iff.mp hload
  obtain rfl := of_decide_eq_true hstored
  exact h hvalid

theorem wpOk_isRunning {e : Paths} {id : String} {Q : Bool → DiskWorld → Prop}
    (h : Q s.running s) : wpOk (undisturbed x) (onDisks nodeName (isRunning e id)) Q s := by
  rw [isRunning, onDisks_bind, onDisks_query, expand_engineCall]
  refine wpOk_bind (P := fun pid t => t = s ∧ pid.isSome = s.running) (wpOk_lift ?_) ?_
  · refine wp_engineCall (.qemu (e.runDir id) .status) (fun m h => by cases h) fun c hc => ?_
    exact ⟨rfl, of_decide_eq_true hc⟩
  · rintro pid t ⟨rfl, hpid⟩
    rw [← hpid] at h
    exact wpOk_pure h

theorem wpOk_save {m : VMManifest} {Q : Unit → DiskWorld → Prop}
    (h : Q () { s with stored := m }) : wpOk (undisturbed x) (onDisks nodeName (save m)) Q s := by
  rw [save, onDisks_bind, onDisks_query, expand_engineCall]
  refine wpOk_bind (P := fun r t => r = .ok () → t = { s with stored := m }) (wpOk_lift ?_) ?_
  · refine wp_diskCall (.engine (.vms (.save m))) fun c _ hok => ?_
    have hsaves : c.saves m = true := by
      rw [DiskChoice.saves, hok]
      rfl
    rw [DiskWorld.after, DiskWorld.storedAfter, if_pos hsaves]
    rfl
  · intro r t ht
    cases r with
    | error e => exact wpOk_refuse
    | ok u =>
      obtain rfl := ht rfl
      exact wpOk_pure h

theorem wpOk_ensureThat {c : Bool} {e : Message} {Q : Unit → DiskWorld → Prop}
    (h : c = true → Q () s) : wpOk (undisturbed x) (onDisks nodeName (ensureThat c e)) Q s := by
  cases c with
  | false => exact wpOk_refuse
  | true => exact wpOk_pure (h rfl)

theorem wpOk_locked {l : LockName} {body : EngineM α} {Q : α → DiskWorld → Prop}
    (h : wpOk (undisturbed x) (onDisks nodeName body) Q s) :
    wpOk (undisturbed x) (onDisks nodeName (locked l body)) Q s := by
  rw [locked, onDisks_bind, onDisks_demand, expand_engineCall]
  refine wpOk_bind (P := fun _ t => t = s) ?_ ?_
  · exact wp_engineCall (.lock l) (fun m h => by cases h) fun c _ _ _ => rfl
  · rintro u t rfl
    rw [onDisks_bind, onDisks_query]
    refine wpOk_bind (P := fun (r : Except Message α) t => ∀ y, r = .ok y → Q y t) (wpOk_lift h) fun r t hr => ?_
    rw [onDisks_bind, onDisks_query, expand_engineCall]
    refine wpOk_bind (P := fun _ u => u = t) (wpOk_lift ?_) ?_
    · exact wp_engineCall (.unlock l) (fun m h => by cases h) fun c _ => rfl
    · rintro u v rfl
      exact hr

end Rules

/-! ### One disk -/

/-- How a disk is grown: to what is asked for by `qemu-img`, and to what is left of it in 64 bits by
QEMU. -/
structure Resized (s t : DiskWorld) (file : String) (size : Int) : Prop where
  stored : t.stored = s.stored
  grown : ∃ old, s.files file = some old ∧ old ≤ capacity size ∧
    if s.running then 1 ≤ size ∧ t.files file = some (capacity size)
    else t.files file = some (size * 2 ^ 30)

section Resize

variable {x : Texts} {s : DiskWorld} {nodeName : String → String} {file : String} {size : Int}

theorem wpOk_growDiskLive :
    wpOk (undisturbed x) (growDiskLive file size) (fun _ t => s.running = true ∧ Resized s t file size) s := by
  refine wpOk_bind (P := fun _ t => s = t ∧ s.running = true) ?_ ?_
  · refine wp_diskCall .dial fun c hc u hu => ⟨rfl, ?_⟩
    rw [DiskWorld.accepts] at hc
    have hlive := granted_ok hc hu
    exact hlive
  · rintro - t ⟨rfl, hrunning⟩
    refine wpOk_bind (P := fun devices t => s = t ∧ devices.all s.reports = true) ?_ ?_
    · refine wp_diskCall .queryBlock fun c hc u hu => ⟨rfl, ?_⟩
      rw [DiskWorld.accepts] at hc
      have hall := granted_ok hc hu
      exact hall
    · rintro devices t ⟨rfl, hdevices⟩
      cases hfind : devices.find? (·.file = file) with
      | none => exact wpOk_refuse
      | some device =>
        have hfile : device.file = file := by simpa using List.find?_some hfind
        have hreports := List.all_eq_true.mp hdevices device (List.mem_of_find?_eq_some hfind)
        obtain ⟨hnode, hsize⟩ := of_decide_eq_true hreports
        rw [hfile] at hnode hsize
        dsimp only
        split
        · exact wpOk_refuse
        · rename_i hfits
          obtain ⟨hpos, hle⟩ := not_or.mp hfits
          refine wp_seq (P := fun o t => o = .ok → Resized s t file size) ?_ ?_
          · refine wp_diskCall (.command (.blockResize device.node (capacity size)))
              fun c _ hok => ⟨rfl, device.size, hsize, by omega, ?_⟩
            have hexec : c.executes (.blockResize device.node (capacity size)) = true := by
              rw [DiskChoice.executes, hok]
            rw [if_pos hrunning]
            refine ⟨by omega, ?_⟩
            simp [DiskWorld.after, DiskWorld.filesAfter, hexec, hnode, hsize]
          · intro o t ht
            cases o with
            | ok => exact wpOk_pure ⟨hrunning, ht rfl⟩
            | rejected cls desc => exact wpOk_refuse
            | lost text => exact wpOk_refuse

theorem wpOk_resizeVMDisk (hstopped : s.running = false) :
    wpOk (undisturbed x) (resizeVMDisk file size) (fun _ t => Resized s t file size) s := by
  refine wpOk_bind (P := fun old t => s = t ∧ s.files file = some old) ?_ ?_
  · refine wp_seq (P := fun r t => s = t ∧ ∀ old, r = .ok old → s.files file = some old) ?_ ?_
    · refine wp_diskCall (.imgInfo file) fun c hc => ⟨rfl, fun old hold => ?_⟩
      rw [DiskWorld.accepts] at hc
      have hsize := granted_ok hc hold
      exact of_decide_eq_true hsize
    · rintro r t ⟨rfl, hr⟩
      cases r with
      | error e => exact wpOk_refuse
      | ok old => exact wpOk_pure ⟨rfl, hr old rfl⟩
  · rintro old t ⟨rfl, hold⟩
    split
    · exact wpOk_refuse
    · rename_i hfits
      refine wp_seq (P := fun r t => r = .ok () → Resized s t file size) ?_ ?_
      · refine wp_diskCall (.imgResize file size) fun c _ hok => ⟨rfl, old, hold, by omega, ?_⟩
        rw [if_neg (by simp [hstopped])]
        simp [DiskWorld.after, DiskWorld.filesAfter, DiskWorld.put, hok, Except.isOk, Except.toBool]
      · intro r t ht
        cases r with
        | error e => exact wpOk_refuse
        | ok u => exact wpOk_pure (ht rfl)

/-- `resizeDisk` chooses by whether the machine runs. -/
theorem wpOk_resizeDisk {e : Paths} {id disk : String} :
    wpOk (undisturbed x) (onDisks nodeName (resizeDisk e id disk size))
      (fun _ t => Resized s t (diskFile disk) size) s := by
  rw [resizeDisk, onDisks_bind]
  refine wpOk_bind (P := fun live t => s = t ∧ live = s.running) (wpOk_isRunning ⟨rfl, rfl⟩) ?_
  rintro live t ⟨rfl, rfl⟩
  rw [perform, onDisks_demand, expand_engineCall, diskProgram]
  split
  · exact wpOk_mono wpOk_growDiskLive fun _ _ h => h.2
  · rename_i hstopped
    exact wpOk_resizeVMDisk (by simpa using hstopped)

end Resize

/-! ### The two operations -/

/-- A disk has the size that was asked for, and was not larger before. -/
def Grown (s t : DiskWorld) (disk : String) (size : Int) : Prop :=
  ∀ old, s.files (diskFile disk) = some old →
    t.files (diskFile disk) = some (size * 2 ^ 30) ∧ old ≤ size * 2 ^ 30

/-- There is no disk to be resized, or `qemu-img` resizes it, or the size in bytes fits in 64 bits. -/
def Fits (s : DiskWorld) (disk : String) (size : Int) : Prop :=
  s.files (diskFile disk) = none ∨ s.running = false ∨ size < 2 ^ 33

theorem capacity_le {size : Int} (h : 1 ≤ size) : capacity size ≤ size * 2 ^ 30 := by
  unfold capacity
  rw [Int.bmod_def]
  split <;> omega

/-- The multiplication is exact for the sizes that fit. -/
theorem capacity_eq_iff {size : Int} (h : 1 ≤ size) : capacity size = size * 2 ^ 30 ↔ size < 2 ^ 33 := by
  unfold capacity
  rw [Int.bmod_def]
  split <;> omega

theorem Resized.grown_iff {s t : DiskWorld} {disk : String} {size : Int}
    (h : Resized s t (diskFile disk) size) (hpos : 1 ≤ size) :
    Grown s t disk size ↔ Fits s disk size := by
  obtain ⟨old, hold, hle, hnew⟩ := h.grown
  have hcap := capacity_le hpos
  have hiff := capacity_eq_iff hpos
  unfold Grown Fits
  split at hnew
  · rename_i hrunning
    rw [hold, hnew.2, hrunning]
    simp only [Option.some.injEq, reduceCtorEq, false_or, ← hiff]
    constructor
    · intro h
      exact (h old rfl).1
    · rintro h old' rfl
      exact ⟨h, by omega⟩
  · rename_i hstopped
    rw [hold, hnew]
    have hstopped' : s.running = false := by simpa using hstopped
    simp only [Option.some.injEq, hstopped', true_or, or_true, iff_true]
    rintro old' rfl
    exact ⟨trivial, by omega⟩

/-- The manifest's validator admits no disk of less than a GiB. -/
def SizesChecked (x : Texts) : Prop :=
  ∀ m, x.manifest.valid m = true → 1 ≤ m.diskSizeGiB ∧ ∀ disk ∈ m.disks, 1 ≤ disk.sizeGiB

section Operations

variable {x : Texts} {s : DiskWorld} {nodeName : String → String} {e : Paths} {ref : String}
  {size : Int}

theorem wpOk_onlyThen {c : Bool} {p : EngineM Unit}
    (h : wpOk (undisturbed x) (onDisks nodeName p) (fun _ t => s = t) s) :
    wpOk (undisturbed x) (onDisks nodeName (onlyThen c p)) (fun _ t => s = t) s := by
  cases c with
  | false => exact wpOk_pure rfl
  | true => exact h

/-- The boot disk is resized where there is one. -/
theorem wpOk_resizeBootDisk (m : VMManifest) :
    wpOk (undisturbed x) (onDisks nodeName (resizeBootDisk e m size))
      (fun _ t => m.diskSizeGiB ≤ size ∧
        (s.files (diskFile "disk") = none ∧ s = t ∨ Resized s t (diskFile "disk") size)) s := by
  rw [resizeBootDisk, onDisks_bind]
  refine wpOk_bind (P := fun _ t => s = t ∧ m.diskSizeGiB ≤ size)
    (wpOk_ensureThat fun h => ⟨rfl, of_decide_eq_true h⟩) ?_
  rintro - t ⟨rfl, hle⟩
  rw [onDisks_bind, onDisks_demand, expand_engineCall, diskProgram]
  refine wpOk_bind (P := fun there t => s = t ∧ there = (s.files (diskFile "disk")).isSome) ?_ ?_
  · refine wp_diskCall (.stat (diskFile "disk")) fun c hc there hthere => ⟨rfl, ?_⟩
    rw [DiskWorld.accepts] at hc
    have hstat := granted_ok hc hthere
    exact of_decide_eq_true hstat
  · rintro there t ⟨rfl, rfl⟩
    split
    · exact wpOk_mono wpOk_resizeDisk fun _ _ h => ⟨hle, .inr h⟩
    · rename_i hnone
      exact wpOk_pure ⟨hle, .inl ⟨by simpa using hnone, rfl⟩⟩

theorem wpOk_updateHardware (hx : SizesChecked x) (params : UpdateHardwareParams)
    (hsize : params.diskSizeGiB = some size) :
    wpOk (undisturbed x) (onDisks nodeName (updateHardware e ref params))
      (fun _ t => Grown s t "disk" size ∧ t.stored.diskSizeGiB = size ↔ Fits s "disk" size) s := by
  rw [updateHardware, onDisks_bind]
  refine wpOk_bind (P := fun _ t => s = t) (wpOk_resolveVM fun _ _ => rfl) ?_
  rintro m t rfl
  refine wpOk_locked ?_
  rw [onDisks_bind]
  refine wpOk_bind (P := fun m t => s = t ∧ m = s.stored ∧ x.manifest.valid s.stored = true)
    (wpOk_loadVM fun h => ⟨rfl, rfl, h⟩) ?_
  rintro m t ⟨rfl, rfl, hvalid⟩
  rw [onDisks_bind]
  refine wpOk_bind (P := fun _ t => s = t) (wpOk_onlyThen ?_) ?_
  · rw [onDisks_bind]
    refine wpOk_bind (P := fun _ t => s = t) (wpOk_isRunning rfl) ?_
    rintro live t rfl
    exact wpOk_ensureThat fun _ => rfl
  rintro - t rfl
  rw [onDisks_bind]
  refine wpOk_bind (P := fun _ t => s = t) (wpOk_ensureThat fun _ => rfl) ?_
  rintro - t rfl
  rw [onDisks_bind]
  refine wpOk_bind (P := fun _ t => s = t) (wpOk_ensureThat fun _ => rfl) ?_
  rintro - t rfl
  rw [onDisks_bind, hsize]
  refine wpOk_bind (wpOk_resizeBootDisk s.stored) ?_
  rintro - t ⟨hle, hresized⟩
  refine wpOk_save ?_
  have hpos := (hx s.stored hvalid).1
  refine (and_iff_left rfl).trans ?_
  rcases hresized with ⟨hnone, rfl⟩ | hresized
  · refine ⟨fun _ => .inl hnone, fun _ old hold => ?_⟩
    rw [hnone] at hold
    cases hold
  · exact hresized.grown_iff (by omega)

/-- The size of the first disk of an id. -/
theorem growFirst_find (id : String) (size : Int) (disks : List VMDisk)
    (h : (disks.find? (·.id = id)).isSome) :
    ((growFirst id size disks).find? (·.id = id)).map (·.sizeGiB) = some size := by
  induction disks with
  | nil => cases h
  | cons disk disks ih =>
    rw [growFirst]
    split
    · rename_i hid
      simp [hid]
    · rename_i hid
      rw [List.find?_cons_of_neg (by simpa using hid)] at h ⊢
      exact ih h

theorem wpOk_growDisk (hx : SizesChecked x) (params : DiskParams) :
    wpOk (undisturbed x) (onDisks nodeName (manageDisk x e ref "vm.disk.grow" params))
      (fun _ t => Grown s t params.id params.sizeGiB ∧
        (t.stored.disks.find? (·.id = params.id)).map (·.sizeGiB) = some params.sizeGiB ↔
          Fits s params.id params.sizeGiB) s := by
  rw [manageDisk, onDisks_bind]
  refine wpOk_bind (P := fun _ t => s = t) (wpOk_resolveVM fun _ _ => rfl) ?_
  rintro m t rfl
  refine wpOk_locked ?_
  rw [onDisks_bind]
  refine wpOk_bind (P := fun m t => s = t ∧ m = s.stored ∧ x.manifest.valid s.stored = true)
    (wpOk_loadVM fun h => ⟨rfl, rfl, h⟩) ?_
  rintro m t ⟨rfl, rfl, hvalid⟩
  rw [if_neg (by decide)]
  cases hfind : s.stored.disks.find? (·.id = params.id) with
  | none => exact wpOk_refuse
  | some disk =>
    have hid : disk.id = params.id := by simpa using List.find?_some hfind
    have hdisk := (hx s.stored hvalid).2 disk (List.mem_of_find?_eq_some hfind)
    dsimp only
    cases x.uuid disk.id with
    | error err => exact wpOk_refuse
    | ok u =>
      dsimp only
      rw [if_pos rfl, growDisk, onDisks_bind]
      refine wpOk_bind (P := fun _ t => s = t ∧ disk.sizeGiB < params.sizeGiB)
        (wpOk_ensureThat fun h => ⟨rfl, of_decide_eq_true h⟩) ?_
      rintro - t ⟨rfl, hlt⟩
      rw [onDisks_bind]
      refine wpOk_bind wpOk_resizeDisk fun _ t hresized => wpOk_save ?_
      rw [hid] at hresized ⊢
      have hfirst := growFirst_find params.id params.sizeGiB s.stored.disks (by rw [hfind]; rfl)
      refine (and_iff_left hfirst).trans ?_
      exact hresized.grown_iff (by omega)

end Operations

/-- A successful `ManageDisk` grow or `UpdateHardware` with a size leaves the disk with exactly this
size, not smaller than before, and records it, if and only if there is no disk yet, or the machine is
stopped, or the size in bytes fits in 64 bits. -/
theorem grow_exact (x : Texts) (hx : SizesChecked x) (nodeName : String → String) (e : Paths)
    (ref : String) (s t : DiskWorld) (cs : List DiskChoice) :
    (∀ params : DiskParams,
      (onDisks nodeName (manageDisk x e ref "vm.disk.grow" params)).run.run (DiskWorld.perform x)
          cs s = some (.ok (), t) →
        (Grown s t params.id params.sizeGiB ∧
          (t.stored.disks.find? (·.id = params.id)).map (·.sizeGiB) = some params.sizeGiB ↔
            Fits s params.id params.sizeGiB)) ∧
    ∀ (params : UpdateHardwareParams) (size : Int), params.diskSizeGiB = some size →
      (onDisks nodeName (updateHardware e ref params)).run.run (DiskWorld.perform x) cs s =
          some (.ok (), t) →
        (Grown s t "disk" size ∧ t.stored.diskSizeGiB = size ↔ Fits s "disk" size) :=
  ⟨fun params h => wp_alone_runs (wpOk_growDisk hx params) (Prog.runs_of_run h) () rfl,
    fun params _ hsize h =>
      wp_alone_runs (wpOk_updateHardware hx params hsize) (Prog.runs_of_run h) () rfl⟩

/-- A machine with a boot disk of one GiB. -/
def smallMachine (running : Bool) : DiskWorld where
  stored := { id := "vm", name := "lab" }
  files := fun file => if file = "disk.qcow2" then some (2 ^ 30) else none
  running := running
  nodes := if running then [("node", "disk.qcow2")] else []

/-- Every call of a growth succeeds. -/
def smoothly (running : Bool) : DiskChoice where
  answer
    | .engine (.vms (.resolve _)) | .engine (.vms (.load _)) => .ok { id := "vm", name := "lab" }
    | .engine (.vms (.save _)) => .ok ()
    | .engine (.lock _) => .ok ()
    | .engine (.qemu _ .status) => if running then some 1 else none
    | .stat _ => .ok true
    | .imgInfo _ => .ok (2 ^ 30)
    | .imgResize _ _ => .ok ()
    | .dial => .ok ()
    | .queryBlock => .ok [{ node := "node", file := "disk.qcow2", size := 2 ^ 30 }]
    | .command _ => .ok
    | c => c.failure

def sizeTexts : Texts where
  cidr _ := true
  uuid _ := .ok ()
  mac s := s
  unicastMAC _ := none
  manifest := {
    parse := fun _ => .error ""
    valid := fun m => 1 ≤ m.diskSizeGiB && m.disks.all (1 ≤ ·.sizeGiB) }

theorem grow_exact_stopped :
    ∃ t, (onDisks id (updateHardware { runDir := id, proc := 0 } "lab"
        { diskSizeGiB := some 2 })).run.run (DiskWorld.perform sizeTexts)
        (List.replicate 9 (smoothly false)) (smallMachine false) = some (.ok (), t) ∧
      Grown (smallMachine false) t "disk" 2 := by
  have hx : SizesChecked sizeTexts := by
    intro m hm
    simpa [sizeTexts] using hm
  refine ⟨_, rfl, ?_⟩
  exact (((grow_exact sizeTexts hx id { runDir := id, proc := 0 } "lab" (smallMachine false) _
    (List.replicate 9 (smoothly false))).2 { diskSizeGiB := some 2 } 2 rfl rfl).mpr
    (.inr (.inl rfl))).1

/-- A running machine's disk is grown to 2^34 + 2 GiB: QEMU makes it 2 GiB. -/
theorem grow_not_exact :
    ∃ t, (onDisks id (updateHardware { runDir := id, proc := 0 } "lab"
        { diskSizeGiB := some (2 ^ 34 + 2) })).run.run (DiskWorld.perform sizeTexts)
        (List.replicate 10 (smoothly true)) (smallMachine true) = some (.ok (), t) ∧
      t.files (diskFile "disk") = some (2 * 2 ^ 30) ∧ t.stored.diskSizeGiB = 2 ^ 34 + 2 ∧
      ¬ Grown (smallMachine true) t "disk" (2 ^ 34 + 2) := by
  refine ⟨_, rfl, by decide +kernel, rfl, fun h => ?_⟩
  have hgrown := h (2 ^ 30) (by decide +kernel)
  revert hgrown
  decide +kernel

end Maco.Engine.Growth
