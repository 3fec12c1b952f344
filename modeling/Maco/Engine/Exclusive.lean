import Maco.Engine.Holding

/-! No two QEMU processes have the same USB device of the host, whichever processes attach, detach,
list, assign, start and stop at the same time. -/

namespace Maco.Engine.Custody

open Concurrent Network VM

variable {s t : Custody} {i j : Nat} {a : EngineCall} {c : CustodyChoice} {r : a.Reply}
  {d id : String} {pid : Nat}

section Rules

variable {α β : Type} {e : Paths}

/-! ### Locks -/

theorem Inv.locks (hs : s.Inv) (locks : LockName → Option Nat) :
    ({ s with locks := locks } : Custody).Inv :=
  ⟨hs.running, hs.born, hs.recorded,
    fun pid id device hd => by
      obtain ⟨claim, hc, hcovers⟩ := hs.claimed pid id device hd
      exact ⟨claim, hc, hcovers.same rfl rfl⟩,
    hs.places, hs.distinct, hs.issued⟩

theorem inv_unlock {l : LockName} (hs : s.Inv) : (s.after i c (.unlock l)).Inv := by
  simp only [after]
  split
  · exact hs.locks _
  · exact hs

/-- What is done under a lock that was free. -/
theorem wp_locked {l : LockName} {body : EngineM α} {Q : Except Message α → Custody → Prop}
    (hfail : ∀ err t, Rely i s t → t.Inv → Q (.error err) t)
    (hbody : ∀ t, Rely i s t → t.Inv → t.locks l = none →
      wp (setting i) body.run (fun r u => u.Inv ∧
        ∀ v c, Rely i u v → v.Inv → Q r (v.after i c (.unlock l)))
        { t with locks := Function.update t.locks l (some i) }) :
    wp (setting i) (locked l body).run Q s := by
  refine wp_andThen ?_
  rintro t ⟨hst, ht⟩ c r u _ hp
  change perform i (.lock l) c t = some (r, u) at hp
  have hothers : ∀ j, j ≠ i → Rely j t u := fun j hj => rely_others hp trivial hj
  obtain ⟨haccepts, rfl, rfl⟩ := perform_cases hp
  cases hr : c.answer (.lock l) with
  | error err =>
    have hsame : t.after i c (.lock l) = t := by simp [after, hr, Except.isOk, Except.toBool]
    rw [hsame] at hothers ⊢
    exact ⟨⟨ht, trivial, hothers⟩, hfail err t hst ht⟩
  | ok _ =>
    have hfree := lock_free haccepts (by rw [hr]; rfl)
    have htaken : t.after i c (.lock l) =
        { t with locks := Function.update t.locks l (some i) } := by
      simp [after, hr, Except.isOk, Except.toBool]
    rw [htaken] at hothers ⊢
    refine ⟨⟨ht.locks _, trivial, hothers⟩, ?_⟩
    refine wp_liftThen (wp_mono (hbody t hst ht hfree) fun result u hu => ?_)
    refine wp_liftThen ?_
    rintro v ⟨huv, hv⟩ c' r' w _ hp'
    change perform i (.unlock l) c' v = some (r', w) at hp'
    have hothers' : ∀ j, j ≠ i → Rely j v w := fun j hj => rely_others hp' trivial hj
    obtain ⟨-, -, rfl⟩ := perform_cases hp'
    exact ⟨⟨inv_unlock hv, trivial, hothers'⟩, hu.2 v c' huv hv⟩

/-- What is done with the registry, by a program that may hold the lock of a machine. -/
theorem keepsOk_withRegistry {body : List USBClaim → EngineM α}
    (h : ∀ t, Onward i s t → t.locks .registry = some i →
      (registering i).KeepsOk (body t.claims) (fun _ _ => True) t) :
    (quietly i).KeepsOk (withRegistry body) (fun _ _ => True) s := by
  intro hs
  refine wp_locked (fun err t hst ht => ⟨ht, hst, fun _ hx => by cases hx⟩) ?_
  intro t hst ht hfree
  have hnot : s.locks .registry ≠ some i := by
    intro hmine
    rw [(hst.registry hmine).1] at hfree
    cases hfree
  have hkeep : ∀ (locks : LockName → Option Nat) v d, locks (.vm d) = some i →
      Function.update locks .registry v (.vm d) = some i :=
    fun locks v d hd => by
      rw [Function.update_of_ne (show LockName.vm d ≠ .registry by simp)]
      exact hd
  have htaken : Onward i t { t with locks := Function.update t.locks .registry (some i) } :=
    onward_same rfl rfl rfl rfl rfl fun d => hkeep _ (some i) d
  have hbody : (registering i).KeepsOk (demand (usbCall .readClaims) >>= body)
      (fun _ _ => True) { t with locks := Function.update t.locks .registry (some i) } := by
    have hread : (quietly i).KeepsOk (demand (usbCall .readClaims))
        (fun claims u => claims = u.claims)
        { t with locks := Function.update t.locks .registry (some i) } := by
      refine keeps_ask trivial fun u c htu hu haccepts claims hclaims => ?_
      rw [accepts, hclaims] at haccepts
      exact of_decide_eq_true haccepts
    refine coarse_bind coarse_registering hread fun claims u htu hclaims => ?_
    subst hclaims
    refine h u (.trans i s t u hst.toOnward (.trans i t _ u htaken htu.toOnward)) ?_
    exact (htu.registry (show Function.update t.locks .registry (some i) .registry = some i from
      Function.update_self _ _ _)).1
  refine wp_mono (hbody (ht.locks _)) fun r u hu => ⟨hu.1, fun v c huv hv => ?_⟩
  have hfreed : Onward i v (v.after i c (.unlock .registry)) := by
    simp only [after]
    split
    · exact onward_same rfl rfl rfl rfl rfl fun d => hkeep _ none d
    · exact .refl i v
  refine ⟨inv_unlock hv, ?_, fun _ _ => trivial⟩
  have hall : Onward i s (v.after i c (.unlock .registry)) :=
    .trans i s t _ hst.toOnward (.trans i t _ _ htaken
      (.trans i _ u _ hu.2.1 (.trans i u v _ huv.toOnward hfreed)))
  exact ⟨hall, fun hmine => (hnot hmine).elim⟩

theorem keepsOk_registry {body : List USBClaim → EngineM α}
    (h : ∀ t, Onward i s t → t.locks .registry = some i →
      (registering i).KeepsOk (body t.claims) (fun _ _ => True) t) :
    (anyhow i).KeepsOk (withRegistry body) (fun _ _ => True) s :=
  coarse_done coarse_anyhow (keepsOk_withRegistry h)

/-- What is done under the lock of a machine. -/
theorem keepsOk_lockedVM {id : String} {body : EngineM α}
    (h : ∀ t, t.locks (.vm (e.runDir id)) = some i →
      (anyhow i).KeepsOk body (fun _ _ => True) t) :
    (anyhow i).KeepsOk (lockedVM e id body) (fun _ _ => True) s := by
  intro hs
  refine wp_locked (fun err t hst ht => ⟨ht, trivial, fun _ _ => trivial⟩) fun t hst ht hfree => ?_
  refine wp_mono (h _ (Function.update_self _ _ _) (ht.locks _)) fun r u hu => ⟨hu.1, ?_⟩
  exact fun v c huv hv => ⟨inv_unlock hv, trivial, fun _ _ => trivial⟩

/-! ### Starts and stops -/

theorem idle_rely (hst : Rely i s t) (hvm : s.locks (.vm d) = some i) (hidle : s.Idle d) :
    t.Idle d := by
  intro pid g hfile
  rw [(hst.vm d hvm).2.1] at hfile
  obtain ⟨hhome, hdead⟩ := hidle pid g hfile
  refine ⟨?_, hst.dead pid hhome hdead⟩
  rw [hst.home pid hhome]
  exact hhome

theorem keeps_spawn {spec : Spec} (hvm : s.locks (.vm d) = some i) (hidle : s.Idle d) :
    (anyhow i).Keeps (engineCall (.qemu d (.spawn spec))) (fun (r : Except Message Nat) t =>
      t.locks (.vm d) = some i ∧ t.Idle d ∧
        ∀ pid, r = .ok pid → t.home pid = some d ∧ t.monitor d = some pid) s := by
  refine coarse_step coarse_anyhow (fun t hst => (hst.vm d hvm).1) fun t c hst ht haccepts => ?_
  have hvmt := (hst.vm d hvm).1
  have hidlet := idle_rely hst hvm hidle
  cases hr : c.answer (.qemu d (.spawn spec)) with
  | error err =>
    have hsame : t.after i c (.qemu d (.spawn spec)) = t := by simp [after, hr]
    rw [hsame]
    exact ⟨ht, trivial, hvmt, hidlet, fun _ h => by cases h⟩
  | ok pid =>
    have hnew := spawn_new haccepts hr
    have hspawned : t.after i c (.qemu d (.spawn spec)) = t.spawned d pid := by simp [after, hr]
    rw [hspawned]
    refine ⟨ht.spawned hidlet hnew, trivial, hvmt, ?_, ?_⟩
    · intro p g hfile
      obtain ⟨hhome, hdead⟩ := hidlet p g hfile
      have hne : p ≠ pid := by
        rintro rfl
        exact hhome hnew
      simpa [spawned, Function.update_of_ne hne] using And.intro hhome hdead
    · rintro p hpid
      cases hpid
      simp [spawned]

theorem keeps_writePID (hvm : s.locks (.vm d) = some i) (hidle : s.Idle d)
    (hhome : s.home pid = some d) (hmonitor : s.monitor d = some pid) :
    (anyhow i).Keeps (engineCall (.qemu d (.writePID pid))) (fun (r : Except Message Unit) t =>
      t.locks (.vm d) = some i ∧ t.home pid ≠ none ∧
        (r.isOk = true → ∃ g, t.pidFile d = some (pid, g))) s := by
  refine coarse_step coarse_anyhow (fun t hst => (hst.vm d hvm).1) fun t c hst ht _ => ?_
  obtain ⟨hvmt, -, hmonitort⟩ := hst.vm d hvm
  have hhomet : t.home pid = some d :=
    (hst.home pid (by rw [hhome]; exact Option.some_ne_none d)).trans hhome
  have hborn : t.home pid ≠ none := by
    rw [hhomet]
    exact Option.some_ne_none d
  by_cases hwrites : ((c.answer (.qemu d (.writePID pid))).isOk || c.took) = true
  · have hafter : t.after i c (.qemu d (.writePID pid)) =
        { t with pidFile := Function.update t.pidFile d (some (pid, c.generation)) } := by
      simp only [after]
      rw [if_pos hwrites]
    have hfile : ∀ p g, some (pid, c.generation) = some (p, g) →
        t.home p = some d ∧ t.monitor d = some p := by
      intro p g h
      cases h
      exact ⟨hhomet, hmonitort.trans hmonitor⟩
    rw [hafter]
    exact ⟨ht.wrote (idle_rely hst hvm hidle) hfile, trivial, hvmt, hborn,
      fun _ => ⟨c.generation, Function.update_self _ _ _⟩⟩
  · have hafter : t.after i c (.qemu d (.writePID pid)) = t := by
      simp only [after]
      rw [if_neg hwrites]
    rw [hafter]
    refine ⟨ht, trivial, hvmt, hborn, fun hok => ?_⟩
    rw [hok] at hwrites
    exact (hwrites rfl).elim

theorem keeps_clearPID (hvm : s.locks (.vm d) = some i) (hidle : s.Idle d) :
    (anyhow i).Keeps (engineCall (.qemu d .clearPID)) (fun _ _ => True) s := by
  refine coarse_step coarse_anyhow (fun t hst => (hst.vm d hvm).1) fun t c hst ht _ => ?_
  refine ⟨?_, trivial, trivial⟩
  simp only [after]
  split
  · exact ht.wrote (idle_rely hst hvm hidle) fun _ _ h => by cases h
  · exact ht

theorem idle_of_exited {g : String} (hfile : s.pidFile d = some (pid, g))
    (hhome : s.home pid ≠ none) (hdead : s.alive pid = false) : s.Idle d := by
  intro p g' hfile'
  rw [hfile] at hfile'
  cases hfile'
  exact ⟨hhome, hdead⟩

theorem keeps_alive {g : String} (hvm : s.locks (.vm d) = some i)
    (hfile : s.pidFile d = some (pid, g)) (hhome : s.home pid ≠ none) :
    (quietly i).Keeps (engineCall (.qemu d (.alive pid)))
      (fun (alive : Bool) t => alive = false → t.Idle d) s := by
  refine keeps_ask trivial fun t c hst ht haccepts hfalse => ?_
  rw [accepts, hfalse] at haccepts
  have hdead : t.alive pid = false := by simpa using haccepts
  refine idle_of_exited ((hst.vm d hvm).2.1.trans hfile) ?_ hdead
  show t.home pid ≠ none
  rw [hst.home pid hhome]
  exact hhome

theorem keeps_waitExit {g : String} (hvm : s.locks (.vm d) = some i)
    (hfile : s.pidFile d = some (pid, g)) (hhome : s.home pid ≠ none) :
    (quietly i).Keeps (engineCall (.qemu d (.waitExit pid)))
      (fun (gone : Bool) t => gone = true → t.Idle d) s := by
  refine keeps_ask trivial fun t c hst ht haccepts htrue => ?_
  rw [accepts, htrue] at haccepts
  have hdead : t.alive pid = false := by simpa using haccepts
  refine idle_of_exited ((hst.vm d hvm).2.1.trans hfile) ?_ hdead
  show t.home pid ≠ none
  rw [hst.home pid hhome]
  exact hhome

/-! #### Calls that add nothing -/

section Quiet

variable {x : Texts} {inv : Inventory} {m : VMManifest}

theorem quiet_perform {st : Step} : (Engine.perform st).run.Calls Quiet :=
  calls_demand (.request trivial)

theorem quiet_performAs {context : String} {st : Step} :
    (performAs context st).run.Calls Quiet := by
  refine .andThen (calls_query (.request trivial)) fun r => ?_
  cases r with
  | ok u => exact .pure _
  | error err => exact calls_fail

theorem quiet_network {p : NetM α} : (network e p).run.Calls Quiet :=
  .lift (Prog.Calls.mono (fun c _ => by cases c <;> trivial) (Prog.Calls.any p.run))

theorem quiet_resolveNetwork {ref : String} : (resolveNetwork e ref).run.Calls Quiet := by
  unfold resolveNetwork
  split
  · exact .pure _
  split
  · exact .pure _
  split
  · exact .pure _
  refine .andThen (calls_query (calls_demand (.request trivial))) fun found => ?_
  cases found with
  | error err => exact calls_fail
  | ok net =>
    dsimp only
    split
    · exact .andThen quiet_network fun _ => .pure _
    · exact .andThen (.pure _) fun _ => .pure _

theorem quiet_specInterfaces {nics : List VMInterface} :
    (specInterfaces e nics).run.Calls Quiet := by
  induction nics with
  | nil => exact .pure _
  | cons nic nics ih =>
    exact .andThen quiet_resolveNetwork fun _ => .andThen ih fun _ => .pure _

theorem quiet_normalizedNetwork {ref : String} : (normalizedNetwork ref).run.Calls Quiet := by
  unfold normalizedNetwork
  split
  · exact .pure _
  split
  · exact .pure _
  exact .andThen (calls_demand (.request trivial)) fun _ =>
    .andThen calls_ensureThat fun _ => .pure _

theorem quiet_normalizeAll {vmID : String} {ids macs : List String} {nics : List VMInterface} :
    (normalizeAll x vmID ids macs nics).run.Calls Quiet := by
  induction nics generalizing ids macs with
  | nil => exact .pure _
  | cons nic nics ih =>
    refine .andThen calls_ensureThat fun _ => ?_
    dsimp only
    split
    · exact calls_fail
    · exact .andThen calls_ensureThat fun _ => .andThen quiet_normalizedNetwork fun _ =>
        .andThen ih fun _ => .pure _

theorem quiet_getMedia {id : String} : (getMedia x id).run.Calls Quiet := by
  unfold getMedia
  cases x.uuid id with
  | error err => exact calls_fail
  | ok u => exact calls_demand (.request trivial)

theorem quiet_imageBase {ref : String} {pull : Bool} :
    (imageBase x ref pull).run.Calls Quiet := by
  unfold imageBase
  split
  · exact .andThen quiet_getMedia fun _ => .andThen calls_ensureThat fun _ => .pure _
  · refine .andThen quiet_perform fun _ => ?_
    split
    · exact .andThen quiet_perform fun _ => .pure _
    · exact .pure _

theorem quiet_prepareVMDisk : (prepareVMDisk x m).run.Calls Quiet := by
  refine .andThen (calls_demand (.request trivial)) fun found => ?_
  split
  · exact .pure _
  · refine .andThen ?_ fun _ => quiet_perform
    unfold bootImage
    split
    · exact .pure _
    · exact quiet_imageBase

theorem quiet_requireDisk {id : String} {disk : VMDisk} :
    (requireDisk x id disk).run.Calls Quiet := by
  unfold requireDisk
  cases x.uuid disk.id with
  | error err => exact calls_fail
  | ok u =>
    refine .andThen (calls_query (.request trivial)) fun r => ?_
    split
    · exact .pure _
    · exact calls_fail
    · exact calls_fail

theorem quiet_prepareSpec : (prepareSpec x e m).run.Calls Quiet := by
  refine .andThen (.andThen calls_ensureThat fun _ => quiet_normalizeAll) fun nics => ?_
  refine .andThen quiet_specInterfaces fun specs => .andThen quiet_perform fun _ => ?_
  refine .andThen quiet_prepareVMDisk fun _ => .andThen ?_ fun _ => ?_
  · unfold onlyThen
    split
    · exact quiet_perform
    · exact .pure _
  refine .andThen (.forM fun _ _ => quiet_requireDisk) fun _ => ?_
  exact .andThen (.forM fun _ _ => .andThen quiet_getMedia fun _ => .pure _) fun _ => .pure _

theorem quiet_startHelpers {id : String} {nics : List InterfaceSpec} :
    (startHelpers e id nics).run.Calls Quiet := by
  induction nics with
  | nil => exact .pure _
  | cons nic nics ih =>
    unfold startHelpers
    split
    · refine .andThen (calls_query (.request trivial)) fun r => ?_
      cases r with
      | ok u => exact ih
      | error err => exact .andThen (calls_query (.request trivial)) fun _ => calls_fail
    · exact ih

end Quiet

/-! #### Programs -/

section Programs

variable {x : Texts} {inv : Inventory} {m : VMManifest} {id : String}

/-- Quiet calls under the lock of a machine that does not run. -/
theorem idle_calls {p : EngineM α} {f : α → EngineM β} {Q : β → Custody → Prop}
    (hvm : s.locks (.vm d) = some i) (hidle : s.Idle d) (h : p.run.Calls Quiet)
    (hf : ∀ x t, t.locks (.vm d) = some i → t.Idle d → (anyhow i).KeepsOk (f x) Q t) :
    (anyhow i).KeepsOk (p >>= f) Q s :=
  coarse_calls coarse_anyhow h fun x t hst => hf x t (hst.vm d hvm).1 (idle_rely hst hvm hidle)

theorem keeps_launchQEMU {spec : Spec} (hvm : s.locks (.vm (e.runDir spec.id)) = some i)
    (hidle : s.Idle (e.runDir spec.id)) :
    (anyhow i).KeepsOk (launchQEMU e spec) (fun _ _ => True) s := by
  refine .bind (.lift (keeps_spawn hvm hidle)) ?_
  rintro spawned t _ ⟨hvmt, hidlet, hspawned⟩
  cases spawned with
  | error err =>
    exact coarse_end coarse_anyhow (.andThen (calls_query (.request trivial)) fun _ => calls_fail)
  | ok pid =>
    obtain ⟨hhome, hmonitor⟩ := hspawned pid rfl
    refine .bind (.lift (keeps_writePID hvmt hidlet hhome hmonitor)) ?_
    rintro written u _ ⟨hvmu, hborn, hwritten⟩
    cases written with
    | error err =>
      exact coarse_end coarse_anyhow (.andThen (calls_query (.request trivial)) fun _ =>
        .andThen (calls_query (.request trivial)) fun _ => calls_fail)
    | ok _ =>
      obtain ⟨g, hfile⟩ := hwritten rfl
      refine coarse_query coarse_anyhow (keeps_alive hvmu hfile hborn) fun alive v huv hexited => ?_
      split
      · exact .pure trivial
      · rename_i hfalse
        have hidlev : v.Idle (e.runDir spec.id) := hexited (by simpa using hfalse)
        refine .bind (.lift (keeps_clearPID (huv.vm _ hvmu).1 hidlev)) fun _ w _ _ => ?_
        exact coarse_end coarse_anyhow
          (.andThen (calls_query (.request trivial)) fun _ => calls_fail)

theorem keeps_startSpec {spec : Spec} (hvm : s.locks (.vm (e.runDir spec.id)) = some i)
    (hidle : s.Idle (e.runDir spec.id)) :
    (anyhow i).KeepsOk (startSpec x e spec) (fun _ _ => True) s := by
  refine idle_calls hvm hidle quiet_performAs fun _ t hvm hidle => ?_
  refine idle_calls hvm hidle (calls_demand (.request trivial)) fun _ t hvm hidle => ?_
  refine idle_calls hvm hidle (calls_demand (.request trivial)) fun _ t hvm hidle => ?_
  refine idle_calls hvm hidle quiet_perform fun _ t hvm hidle => ?_
  refine idle_calls hvm hidle (.pure _) fun _ t hvm hidle => ?_
  refine idle_calls hvm hidle quiet_performAs fun _ t hvm hidle => ?_
  refine idle_calls hvm hidle quiet_startHelpers fun _ t hvm hidle => ?_
  exact keeps_launchQEMU hvm hidle

theorem keeps_checkUSBAssignments :
    (quietly i).KeepsOk (checkUSBAssignments m) (fun _ _ => True) s := by
  unfold checkUSBAssignments
  split
  · exact .pure trivial
  · exact keepsOk_withRegistry fun t _ hlock => keeps_refreshed hlock fun claims =>
      .andThen (calls_demand (.request trivial)) fun _ => .pure _

theorem keeps_startPrepared :
    (anyhow i).KeepsOk (startPrepared x e id) (fun _ _ => True) s := by
  refine keepsOk_lockedVM fun t hvm => ?_
  refine coarse_query coarse_anyhow keeps_status ?_
  rintro status u htu ⟨-, hexited⟩
  cases status with
  | some pid => exact .pure trivial
  | none =>
    refine idle_calls (htu.vm _ hvm).1 (hexited rfl) (calls_demand (.request trivial)) ?_
    intro m v hvm hidle
    refine coarse_bind coarse_anyhow keeps_checkUSBAssignments fun _ w hvw _ => ?_
    refine idle_calls (hvw.vm _ hvm).1 (idle_rely hvw hvm hidle) quiet_prepareSpec ?_
    intro spec y hvm hidle
    refine keepsOk_ensureThat fun hid => ?_
    obtain rfl : spec.id = id := of_decide_eq_true hid
    exact .bind (keeps_startSpec hvm hidle) fun _ _ _ _ => .pure trivial

theorem keeps_afterExit (hvm : s.locks (.vm (e.runDir id)) = some i)
    (hidle : s.Idle (e.runDir id)) :
    (anyhow i).KeepsOk (afterExit e id) (fun _ _ => True) s :=
  .bind (.lift (keeps_clearPID hvm hidle)) fun _ _ _ _ =>
    coarse_end coarse_anyhow (calls_demand (.request trivial))

/-- Under the lock of a machine: its pid file names the process. -/
structure Named (i : Nat) (d : String) (pid : Nat) (s : Custody) : Prop where
  lock : s.locks (.vm d) = some i
  file : ∃ g, s.pidFile d = some (pid, g)
  home : s.home pid ≠ none

theorem Named.rely (h : Named i d pid s) (hst : Rely i s t) : Named i d pid t := by
  obtain ⟨hlock, hfile, -⟩ := hst.vm d h.lock
  refine ⟨hlock, ?_, ?_⟩
  · rw [hfile]
    exact h.file
  · rw [hst.home pid h.home]
    exact h.home

theorem Named.waitExit (h : Named i d pid s) :
    (quietly i).Keeps (engineCall (.qemu d (.waitExit pid)))
      (fun (gone : Bool) t => gone = true → t.Idle d) s := by
  obtain ⟨g, hfile⟩ := h.file
  exact keeps_waitExit h.lock hfile h.home

/-- The machine is cleaned up after once its process is seen to exit. -/
theorem keeps_untilExit {rest : EngineM Unit} (h : Named i (e.runDir id) pid s)
    (hrest : ∀ t, Rely i s t → (anyhow i).KeepsOk rest (fun _ _ => True) t) :
    (anyhow i).KeepsOk (query (qemuCall e id (.waitExit pid)) >>= fun gone =>
      if gone then afterExit e id else rest) (fun _ _ => True) s := by
  refine coarse_query coarse_anyhow h.waitExit fun gone t hst hexited => ?_
  split
  · rename_i hgone
    exact keeps_afterExit (h.rely hst).lock (hexited hgone)
  · exact hrest t hst

theorem keeps_terminate (h : Named i (e.runDir id) pid s) :
    (anyhow i).KeepsOk (terminate e id pid) (fun _ _ => True) s := by
  refine coarse_calls coarse_anyhow (calls_demand (.request trivial)) fun _ t hst => ?_
  refine keeps_untilExit (h.rely hst) fun u htu => ?_
  refine coarse_calls coarse_anyhow (calls_query (.request trivial)) fun killed v huv => ?_
  cases killed with
  | error err => exact keepsOk_fail
  | ok _ =>
    exact keeps_untilExit (((h.rely hst).rely htu).rely huv) fun _ _ => keepsOk_fail

theorem keeps_shutDown (h : Named i (e.runDir id) pid s) :
    (quietly i).KeepsOk (shutDown e id pid)
      (fun gone t => gone = true → t.Idle (e.runDir id)) s := by
  refine .bind (tolerates_quiet.keepsOk (calls_query (.request trivial))) fun down t hst _ => ?_
  split
  · exact .lift (h.rely hst).waitExit
  · exact .pure fun h => by cases h

theorem keeps_stopMachine {guestShutdown : Bool} :
    (anyhow i).KeepsOk (stopMachine e id guestShutdown) (fun _ _ => True) s := by
  refine keepsOk_lockedVM fun t hvm => ?_
  refine coarse_query coarse_anyhow keeps_status ?_
  rintro status u htu ⟨hrunning, hexited⟩
  have hvmu := (htu.vm _ hvm).1
  cases status with
  | none => exact keeps_afterExit hvmu (hexited rfl)
  | some pid =>
    obtain ⟨-, hhome, hfile⟩ := hrunning pid rfl
    have hnamed : Named i (e.runDir id) pid u := ⟨hvmu, hfile, hhome⟩
    dsimp only
    split
    · refine coarse_bind coarse_anyhow (keeps_shutDown hnamed) fun gone v huv hgone => ?_
      split
      · rename_i htrue
        exact keeps_afterExit (hnamed.rely huv).lock (hgone htrue)
      · exact keeps_terminate (hnamed.rely huv)
    · exact keeps_terminate hnamed

/-- Whatever a program returns, what follows keeps the invariant. -/
theorem keepsOk_outcome {p : EngineM α} {f : Except Message α → EngineM β}
    (h : (anyhow i).KeepsOk p (fun _ _ => True) s)
    (hf : ∀ r t, (anyhow i).KeepsOk (f r) (fun _ _ => True) t) :
    (anyhow i).KeepsOk (query p.run >>= f) (fun _ _ => True) s :=
  .bind (.lift h) fun r t _ _ => hf r t

theorem keeps_attachUSBDevice {select : Selector} :
    (anyhow i).KeepsOk (attachUSBDevice inv e m select) (fun _ _ => True) s := by
  refine keepsOk_lockedVM fun t hvm => keepsOk_registry fun u htu hlock => ?_
  exact keeps_claimDevice hlock (htu.vm _ hvm).1

theorem keeps_attachAssignedUSB :
    (anyhow i).KeepsOk (attachAssignedUSB inv e m) (fun _ _ => True) s := by
  unfold attachAssignedUSB
  induction m.usb generalizing s with
  | nil => exact .pure trivial
  | cons a l ih =>
    refine .bind (P := fun _ _ => True) ?_ fun _ t _ _ => ih
    refine keepsOk_outcome keeps_attachUSBDevice fun r t => ?_
    cases r with
    | ok id => exact .pure trivial
    | error err => exact keepsOk_fail

/-- Calls that add nothing, locks among them. -/
theorem tolerates_aside : (anyhow i).Tolerates Aside := by
  intro a ha s c r t hs _ h
  have hentitled : s.Entitled i a := by
    cases a with
    | qemu d q => cases q <;> first | exact ha.elim | trivial
    | usb u => cases u <;> first | exact ha.elim | trivial
    | _ => trivial
  have hothers : ∀ j, j ≠ i → Rely j s t := fun j hj => rely_others h hentitled hj
  have ht : t.Inv := by
    obtain ⟨-, -, rfl⟩ := perform_cases h
    by_cases hquiet : Quiet a
    · exact (lighter_quiet hquiet).inv hs
    cases a with
    | lock l =>
      simp only [after]
      split
      · exact hs.locks _
      · exact hs
    | unlock l => exact inv_unlock hs
    | qemu d q => cases q <;> first | exact ha.elim | exact (hquiet trivial).elim
    | usb u => cases u <;> first | exact ha.elim | exact (hquiet trivial).elim
    | _ => exact (hquiet trivial).elim
  exact ⟨⟨ht, trivial, hothers⟩, ht, trivial⟩

theorem keeps_cacheState : (anyhow i).KeepsOk (cacheState e id) (fun _ _ => True) s := by
  refine tolerates_aside.keepsOk (.andThen (calls_query (.andThen ?_ fun _ => ?_)) fun _ => .pure _)
  · exact calls_openDB ⟨trivial, trivial⟩ ⟨trivial, trivial⟩ trivial trivial
  · exact calls_demand (.request trivial)

theorem keeps_screenshotVM {ref : String} :
    (anyhow i).KeepsOk (screenshotVM e ref) (fun _ _ => True) s := by
  refine tolerates_aside.keepsOk (.andThen (calls_demand (.request trivial)) fun m => ?_)
  refine calls_locked trivial trivial (.andThen ?_ fun _ => .andThen calls_ensureThat fun _ => ?_)
  · exact .andThen (calls_query (.request trivial)) fun _ => .pure _
  · exact calls_demand (.request trivial)

theorem keepsOk_resolved {ref : String} {f : VMManifest → EngineM α}
    (h : ∀ m t, (anyhow i).KeepsOk (f m) (fun _ _ => True) t) :
    (anyhow i).KeepsOk (resolveVM ref >>= f) (fun _ _ => True) s :=
  coarse_calls coarse_anyhow (calls_demand (.request trivial)) fun m t _ => h m t

theorem keeps_startVM {ref : String} :
    (anyhow i).KeepsOk (startVM x inv e ref) (fun _ _ => True) s := by
  refine keepsOk_resolved fun m t => ?_
  refine coarse_calls coarse_anyhow (calls_query (.request trivial)) fun status u _ => ?_
  cases status with
  | some pid => exact .pure trivial
  | none =>
    refine .bind keeps_startPrepared fun started v _ _ => ?_
    obtain ⟨pid, current⟩ := started
    refine keepsOk_outcome keeps_attachAssignedUSB fun attached w => ?_
    cases attached with
    | ok _ =>
      refine .bind keeps_cacheState fun _ _ _ _ => ?_
      exact keepsOk_outcome keeps_screenshotVM fun _ _ => .pure trivial
    | error err =>
      refine keepsOk_outcome keeps_stopMachine fun _ y => ?_
      exact .bind keeps_cacheState fun _ _ _ _ => keepsOk_fail

theorem keeps_stopVM {ref : String} {guestShutdown : Bool} :
    (anyhow i).KeepsOk (stopVM e ref guestShutdown) (fun _ _ => True) s :=
  keepsOk_resolved fun _ _ => .bind keeps_stopMachine fun _ _ _ _ => keeps_cacheState

theorem keeps_listUSBDevices : (anyhow i).KeepsOk listUSBDevices (fun _ _ => True) s := by
  refine coarse_calls coarse_anyhow (calls_query (.request trivial)) fun devices t _ => ?_
  cases devices with
  | error err => exact .pure trivial
  | ok devices =>
    refine keepsOk_registry fun u _ hlock => ?_
    exact keeps_refreshed hlock fun claims =>
      .andThen (calls_query (.request trivial)) fun _ => .pure _

theorem keeps_listVMUSB {ref : String} :
    (anyhow i).KeepsOk (listVMUSB e ref) (fun _ _ => True) s :=
  keepsOk_resolved fun _ _ => keepsOk_registry fun _ _ hlock =>
    keeps_refreshed hlock fun _ => .pure _

theorem keeps_program {op : CustodyOp} :
    (anyhow i).KeepsOk (custodyProgram x inv e op) (fun _ _ => True) s := by
  cases op with
  | startVM ref => exact .bind keeps_startVM fun _ _ _ _ => .pure trivial
  | stopVM ref guestShutdown => exact keeps_stopVM
  | listUSB => exact .bind keeps_listUSBDevices fun _ _ _ _ => .pure trivial
  | listVMUSB ref => exact .bind keeps_listVMUSB fun _ _ _ _ => .pure trivial
  | attachUSB ref params =>
    refine .bind (P := fun _ _ => True) ?_ fun _ _ _ _ => .pure trivial
    refine keepsOk_ensureThat fun _ => ?_
    exact keepsOk_resolved fun m t => keeps_attachUSBDevice
  | detachUSB ref id =>
    show (anyhow i).KeepsOk (detachUSB x e ref id) _ s
    unfold detachUSB
    cases x.uuid id with
    | error err => exact keepsOk_fail
    | ok _ =>
      refine keepsOk_resolved fun m t => keepsOk_lockedVM fun u _ => ?_
      exact keepsOk_registry fun v _ hlock => keeps_releaseClaim hlock
  | assignUSB ref deviceID fingerprint =>
    refine .bind (P := fun _ _ => True) ?_ fun _ _ _ _ => .pure trivial
    refine keepsOk_resolved fun m t => keepsOk_lockedVM fun u _ => ?_
    exact keepsOk_registry fun v _ _ => coarse_end coarse_registering quiet_addAssignment
  | unassignUSB ref key =>
    refine keepsOk_resolved fun m t => keepsOk_lockedVM fun u _ => ?_
    exact keepsOk_registry fun v _ hlock => keeps_removeAssignment hlock
  | other p aside => exact tolerates_aside.keepsOk aside

end Programs

end Rules

/-! ### Runs -/

theorem Inv.start : ({} : Custody).Inv where
  running _ _ _ h := by cases h
  born _ h := by cases h
  recorded _ _ _ h := by cases h
  claimed _ _ _ h := by cases h
  places := List.nodup_nil
  distinct := List.nodup_nil
  issued _ h := by cases h

theorem rely_die (hj : j ≠ i) : Rely j s (s.die i) := by
  have hkeep : ∀ l, s.locks l = some j → (s.die i).locks l = some j := by
    intro l hl
    have hne : s.locks l ≠ some i := by
      rw [hl]
      exact fun h => hj (by simpa using h)
    simp only [die, if_neg hne]
    exact hl
  exact ⟨onward_same rfl rfl rfl rfl rfl fun _ => hkeep _,
    fun h => ⟨hkeep _ h, rfl, fun _ _ _ h => h⟩⟩

theorem lighter_event {ev : CustodyEvent} (h : s.event ev = some t) : Lighter s t := by
  cases ev with
  | exit pid =>
    cases h
    exact lighter_exited
  | unplug pid id =>
    cases h
    exact lighter_unplugged

def outline (x : Texts) (inv : Inventory) :
    (custodySystem x inv).Outline (fun _ _ _ _ => True) {} where
  Inv := Inv
  idle _ _ := True
  rely := Rely
  guar _ _ := True
  refl := Rely.refl
  trans := Rely.trans
  stable _ _ _ h _ := h
  init := ⟨.start, fun _ => trivial⟩
  code _ _ _ hs _ := wp_mono (keeps_program hs) fun _ _ _ => trivial
  die _ _ hs := ⟨hs.locks _, trivial, trivial, fun _ hj => rely_die hj⟩
  env _ _ _ hs h := ⟨(lighter_event h).inv hs, trivial, fun j => (lighter_event h).rely j⟩

/-- No two claims are to one place, each device that a process has is claimed for the machine of
that process, and no two processes have devices of one place. -/
theorem devices_exclusive {x : Texts} {inv : Inventory}
    {g : Config EngineCall EngineCall.Reply Custody (Except Message Unit)}
    (hg : (custodySystem x inv).Reach (fun _ _ _ _ => True) {} g) :
    (g.shared.claims.map (·.attachment.device.place)).Nodup ∧
    (∀ pid id device, g.shared.devices pid id = some device →
      ∃ claim ∈ g.shared.claims, g.shared.Covers claim pid id device) ∧
    ∀ pid id device pid' id' device', g.shared.devices pid id = some device →
      g.shared.devices pid' id' = some device' → device.place = device'.place →
      pid = pid' ∧ id = id' := by
  have hs : g.shared.Inv := (outline x inv).invariant hg
  have hheld : g.shared.held.map (·.attachment.device.place) =
      g.shared.claims.map (·.attachment.device.place) := by
    rw [held, List.map_map]
    rfl
  refine ⟨hheld ▸ hs.places, fun pid id device hd => ?_, ?_⟩
  · obtain ⟨other, ho, hcovers⟩ := hs.claimed pid id device hd
    obtain ⟨claim, hc, rfl⟩ := List.mem_map.mp ho
    exact ⟨claim, hc, hcovers.id_eq, hcovers.pid_eq, hcovers.home, hcovers.file, hcovers.place⟩
  · intro pid id device pid' id' device' hd hd' hplace
    obtain ⟨claim, hc, hcovers⟩ := hs.claimed pid id device hd
    obtain ⟨claim', hc', hcovers'⟩ := hs.claimed pid' id' device' hd'
    obtain rfl := List.inj_on_of_nodup_map hs.places hc hc'
      (hcovers.place.trans (hplace.trans hcovers'.place.symm))
    exact ⟨hcovers.pid_eq.symm.trans hcovers'.pid_eq, hcovers.id_eq.symm.trans hcovers'.id_eq⟩

/-! A host with one device, on which two machines are started and ask for it. -/

section Key

def key : Device where
  id := "key"
  fingerprint := "key"
  vendorID := 0x1050
  productID := 0x0407
  bus := 1
  address := 2
  port := "1.2"
  state := "available"

/-- The one device is chosen whatever is asked for. -/
def keyOnly : Inventory where
  resolve _ _ _ := .ok key
  verifyConnection _ _ := .ok ()

def keyTexts : Texts where
  cidr _ := true
  uuid _ := .ok ()
  mac s := s
  unicastMAC := some
  manifest := { parse := fun _ => .error "", valid := fun _ => true }

def keyPaths : Paths := ⟨fun id => "/run/" ++ id, 0⟩

def keyParams : USBParams where
  deviceID := "012345678901234567890123"
  fingerprint := "0123456789012345678901234567890123456789012345678901234567890123"

/-- The claim of the first machine once it has the device. -/
def keyClaim : USBClaim where
  attachment := { id := "new", vmID := "v", vmName := "v", device := key, state := "attached" }
  qemuID := usbDeviceID "new"
  runDir := "/run/v"
  pid := 1
  generation := "1"

/-- What is answered where everything succeeds, for a machine and its process. -/
def succeeding (name : String) (pid : Nat) (running : Bool) (claims : List USBClaim) :
    CustodyChoice where
  answer
    | .lock _ | .step _ => .ok ()
    | .newString => "new"
    | .vms (.resolve _) | .vms (.load _) => .ok { id := name, name }
    | .databaseOpen _ => true
    | .statDisk _ _ => .ok true
    | .qemu _ .status => if running then some pid else none
    | .qemu _ (.spawn _) => .ok pid
    | .qemu _ (.alive _) => true
    | .qemu _ .removeJournal | .qemu _ .stopHelpers | .qemu _ (.writePID _) => .ok ()
    | .usb .readClaims => .ok claims
    | .usb (.generation _) => .found "1"
    | .usb .hostDevices => .ok [key]
    | .usb (.observe _ _) => .ok ⟨true, true⟩
    | .usb (.saveClaims _) | .usb (.attach _ _ _) => .ok ()
    | a => a.failure
  generation := "1"

/-- `StartVM`, up to the picture that is taken of the machine. -/
def starting (i : Nat) (name : String) (pid : Nat) :
    List (Move CustodyChoice (Paths × CustodyOp) CustodyEvent) :=
  .begin i (keyPaths, .startVM name) ::
    List.replicate 22 (.call i (succeeding name pid false [])) ++
    List.replicate 3 (.call i (succeeding name pid true [])) ++ [.finish i]

/-- `AttachUSB`, with so many calls. -/
def attaching (i : Nat) (name : String) (pid : Nat) (claims : List USBClaim) (calls : Nat) :
    List (Move CustodyChoice (Paths × CustodyOp) CustodyEvent) :=
  .begin i (keyPaths, .attachUSB name keyParams) ::
    List.replicate calls (.call i (succeeding name pid true claims)) ++ [.finish i]

/-- The first machine gets the device, the second one does not. -/
theorem devices_exclusive_key : ∃ g,
    (custodySystem keyTexts keyOnly).moves ⟨{}, fun _ => none⟩
      (starting 0 "v" 1 ++ starting 1 "w" 2 ++ attaching 2 "v" 1 [] 14 ++
        attaching 3 "w" 2 [keyClaim] 11) = some g ∧
    g.shared.devices 1 (usbDeviceID "new") = some key ∧
    (∀ claim ∈ g.shared.claims, claim.pid = 1) ∧
    ∀ pid id device, g.shared.devices pid id = some device → device.place = key.place →
      pid = 1 := by
  obtain ⟨g, hg, hkey, hclaims⟩ : ∃ g,
      (custodySystem keyTexts keyOnly).moves ⟨{}, fun _ => none⟩
        (starting 0 "v" 1 ++ starting 1 "w" 2 ++ attaching 2 "v" 1 [] 14 ++
          attaching 3 "w" 2 [keyClaim] 11) = some g ∧
      g.shared.devices 1 (usbDeviceID "new") = some key ∧
      g.shared.claims = [keyClaim] := ⟨_, rfl, rfl, rfl⟩
  have hexclusive := devices_exclusive ((custodySystem keyTexts keyOnly).reach_moves .start hg)
  refine ⟨g, hg, hkey, ?_, fun pid id device hd hplace => ?_⟩
  · rw [hclaims]
    simp [keyClaim]
  · exact (hexclusive.2.2 pid id device 1 _ key hd hkey hplace).1

end Key

end Maco.Engine.Custody
