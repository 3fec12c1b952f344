import Maco.L2.Worker

/-! At most one worker serves a run directory, in every run in which a caller goes on without a
port file only where no worker is on its way to one. -/

namespace Maco.L2

open Concurrent

/-- A worker that has been launched and has not ended. -/
def PortState.Active (s : PortState) (w : Nat) : Prop :=
  s.progress w = .launched ∨ s.progress w = .starting ∨ s.progress w = .saved

/-- What holds in every state. -/
structure PortInv (s : PortState) : Prop where
  solo : ∀ i j, s.stage i = .launching → s.stage j = .launching → i = j
  clear : ∀ i, s.stage i = .launching → ∀ w, ¬s.Active w
  one : ∀ w w', s.Active w → s.Active w' → w = w'
  port : ∀ w, s.port = some w ↔ s.progress w = .saved
  helper : ∀ w, s.helper w = true → s.progress w = .saved
  fresh : ∀ w, s.next ≤ w → s.progress w = .none
  runs : ∀ i j w, s.runs i = some w → s.runs j = some w → i = j
  taken : ∀ i w, s.runs i = some w → s.progress w ≠ .launched ∧ w < s.next
  quiet : s.quiet = true → (∀ w, ¬s.Active w) ∧ ∀ i, s.stage i = .idle
  kept : s.robbed = false

/-- What process `i` may count on. -/
structure PortRely (i : Nat) (s t : PortState) : Prop where
  stage : t.stage i = s.stage i
  runs : t.runs i = s.runs i
  progress : ∀ w, s.runs i = some w → t.progress w = s.progress w
  helper : ∀ w, s.runs i = some w → t.helper w = true → s.helper w = true

theorem PortRely.refl (i : Nat) (s : PortState) : PortRely i s s :=
  ⟨rfl, rfl, fun _ _ => rfl, fun _ _ h => h⟩

theorem PortRely.trans (i : Nat) (s t u : PortState) (h : PortRely i s t) (h' : PortRely i t u) :
    PortRely i s u where
  stage := h'.stage.trans h.stage
  runs := h'.runs.trans h.runs
  progress w hw := (h'.progress w (h.runs.trans hw)).trans (h.progress w hw)
  helper w hw hu := h.helper w hw (h'.helper w (h.runs.trans hw) hu)

/-- A step that keeps the invariant and what every process but `i` counts on. -/
structure PortStep (i : Nat) (s t : PortState) : Prop where
  inv : PortInv t
  others : ∀ j, j ≠ i → PortRely j s t

/-- A step that leaves alone how far everything is; a helper may end. -/
structure Settled (s t : PortState) : Prop where
  port : t.port = s.port
  helper : ∀ w, t.helper w = true → s.helper w = true
  next : t.next = s.next
  progress : t.progress = s.progress
  runs : t.runs = s.runs
  stage : t.stage = s.stage
  quiet : t.quiet = true → s.quiet = true
  robbed : t.robbed = s.robbed

section Steps

variable {i w : Nat} {s t : PortState}

theorem Settled.refl (s : PortState) : Settled s s :=
  ⟨rfl, fun _ h => h, rfl, rfl, rfl, rfl, fun h => h, rfl⟩

theorem Settled.rely (h : Settled s t) (j : Nat) : PortRely j s t :=
  ⟨congrFun h.stage j, congrFun h.runs j, fun w _ => congrFun h.progress w, fun w _ => h.helper w⟩

theorem Settled.inv (h : Settled s t) (hs : PortInv s) : PortInv t where
  solo := h.stage ▸ hs.solo
  clear j hj w hw := by
    rw [h.stage] at hj
    unfold PortState.Active at hw
    rw [h.progress] at hw
    exact hs.clear j hj w hw
  one := by
    unfold PortState.Active
    rw [h.progress]
    exact hs.one
  port w := by rw [h.port, h.progress, hs.port]
  helper w hw := by
    rw [h.progress]
    exact hs.helper w (h.helper w hw)
  fresh w hw := by
    rw [h.progress]
    exact hs.fresh w (h.next ▸ hw)
  runs := h.runs ▸ hs.runs
  taken j w hj := by
    rw [h.progress, h.next]
    exact hs.taken j w (h.runs ▸ hj)
  quiet hq := by
    unfold PortState.Active
    rw [h.progress, h.stage]
    exact hs.quiet (h.quiet hq)
  kept := h.robbed.trans hs.kept

theorem Settled.step (h : Settled s t) (hs : PortInv s) : PortStep i s t :=
  ⟨h.inv hs, fun j _ => h.rely j⟩

/-- Process `i` goes to a stage other than the one before its launch. -/
theorem PortInv.at_ (hs : PortInv s) {stage : Stage} (hstage : stage ≠ .launching)
    (hquiet : s.quiet = true → stage = .idle) : PortStep i s (s.at_ i stage) where
  inv :=
    { hs with
      solo := fun j k hj hk => by
        have hmine : ∀ l, Function.update s.stage i stage l = .launching → s.stage l = .launching := by
          intro l hl
          by_cases hli : l = i
          · subst hli
            simp [hstage] at hl
          · rwa [Function.update_of_ne hli] at hl
        exact hs.solo j k (hmine j hj) (hmine k hk)
      clear := fun j hj => by
        by_cases hji : j = i
        · subst hji
          simp [PortState.at_, hstage] at hj
        · simp only [PortState.at_, Function.update_of_ne hji] at hj
          exact hs.clear j hj
      quiet := fun hq => by
        obtain ⟨hactive, hidle⟩ := hs.quiet hq
        refine ⟨hactive, fun j => ?_⟩
        by_cases hji : j = i
        · subst hji
          simp [PortState.at_, hquiet hq]
        · simp only [PortState.at_, Function.update_of_ne hji, hidle j] }
  others j hj := ⟨by simp [PortState.at_, Function.update_of_ne hj], rfl, fun _ _ => rfl,
    fun _ _ h => h⟩

/-- A `Start` that finds no port file, where nothing is on its way, is about to launch. -/
theorem PortInv.launching (hs : PortInv s) (hclear : ∀ w, ¬s.Active w) (hquiet : s.quiet = false)
    (hsolo : ∀ j, j ≠ i → s.stage j ≠ .launching) : PortStep i s (s.at_ i .launching) where
  inv :=
    { hs with
      solo := fun j k hj hk => by
        have hmine : ∀ l, Function.update s.stage i .launching l = .launching → l = i := by
          intro l hl
          by_contra hli
          rw [Function.update_of_ne hli] at hl
          exact hsolo l hli hl
        rw [hmine j hj, hmine k hk]
      clear := fun _ _ => hclear
      quiet := fun hq => absurd (hquiet.symm.trans hq) (by decide) }
  others j hj := ⟨by simp [PortState.at_, Function.update_of_ne hj], rfl, fun _ _ => rfl,
    fun _ _ h => h⟩

/-- A `Stop` that finds no port file, where nothing is on its way, has come to its end. -/
theorem PortInv.quieted (hs : PortInv s) (hclear : ∀ w, ¬s.Active w)
    (hidle : ∀ j, s.stage j = .idle) : PortStep i s { s with quiet := true } where
  inv := { hs with quiet := fun _ => ⟨hclear, hidle⟩ }
  others _ _ := ⟨rfl, rfl, fun _ _ => rfl, fun _ _ h => h⟩

theorem PortStep.after (h : Settled s t) {u : PortState} (h' : PortStep i t u) : PortStep i s u :=
  ⟨h'.inv, fun j hj => .trans j s t u (h.rely j) (h'.others j hj)⟩

/-- A `Start` launches its worker. -/
theorem PortInv.launch (hs : PortInv s) (hi : s.stage i = .launching) :
    PortStep i s (({ s with next := s.next + 1 }.progressed s.next .launched).at_ i .idle) where
  inv := by
    have hnone : ∀ j, Function.update s.stage i .idle j ≠ .launching := by
      intro j hj
      by_cases hji : j = i
      · subst hji
        simp at hj
      · rw [Function.update_of_ne hji] at hj
        exact hji (hs.solo j i hj hi)
    have hnext := hs.fresh s.next (Nat.le_refl _)
    have hold : ∀ w, w ≠ s.next →
        Function.update s.progress s.next .launched w = s.progress w :=
      fun w hw => Function.update_of_ne hw _ _
    have honly : ∀ w, (({ s with next := s.next + 1 }.progressed s.next .launched).at_ i
        .idle).Active w → w = s.next := by
      intro w hw
      by_contra hne
      simp only [PortState.Active, PortState.at_, PortState.progressed, hold w hne] at hw
      exact hs.clear i hi w hw
    exact
      { solo := fun j k hj _ => absurd hj (hnone j)
        clear := fun j hj => absurd hj (hnone j)
        one := fun w w' hw hw' => (honly w hw).trans (honly w' hw').symm
        port := fun w => by
          by_cases hw : w = s.next
          · subst hw
            simp [PortState.at_, PortState.progressed, hs.port, hnext]
          · simp [PortState.at_, PortState.progressed, hold w hw, hs.port]
        helper := fun w hw => by
          by_cases hne : w = s.next
          · subst hne
            simpa [hnext] using hs.helper _ hw
          · simpa [PortState.at_, PortState.progressed, hold w hne] using hs.helper w hw
        fresh := fun w hw => by
          have hw : s.next + 1 ≤ w := hw
          simpa [PortState.at_, PortState.progressed, hold w (by omega)] using
            hs.fresh w (by omega)
        runs := hs.runs
        taken := fun j w hj => by
          obtain ⟨hw, hlt⟩ := hs.taken j w hj
          have hlt' : w < s.next + 1 := by omega
          simpa [PortState.at_, PortState.progressed, hold w (by omega)] using
            And.intro hw hlt'
        quiet := fun hq => by
          have hidle := (hs.quiet hq).2 i
          rw [hi] at hidle
          cases hidle
        kept := hs.kept }
  others j hj := by
    have hold : ∀ w, s.runs j = some w → w ≠ s.next := by
      intro w hw
      have hlt := (hs.taken j w hw).2
      omega
    exact ⟨by simp [PortState.at_, PortState.progressed, Function.update_of_ne hj], rfl,
      fun w hw => Function.update_of_ne (hold w hw) _ _, fun _ _ h => h⟩

/-- A process takes over a worker that has been launched. -/
theorem PortInv.take (hs : PortInv s) (hw : s.progress w = .launched) :
    PortStep i s { s.progressed w .starting with runs := Function.update s.runs i (some w) } where
  inv := by
    have hold : ∀ v, v ≠ w → Function.update s.progress w .starting v = s.progress v :=
      fun v hv => Function.update_of_ne hv _ _
    have hactive : ∀ v, { s.progressed w .starting with
        runs := Function.update s.runs i (some w) }.Active v → s.Active v := by
      intro v hv
      by_cases hvw : v = w
      · subst hvw
        exact .inl hw
      · simpa only [PortState.Active, PortState.progressed, hold v hvw] using hv
    have hfree : ∀ j, s.runs j ≠ some w := fun j hj => (hs.taken j w hj).1 hw
    have hlt : w < s.next := by
      by_contra hge
      have hnone := hs.fresh w (by omega)
      simp [hw] at hnone
    exact
      { solo := hs.solo
        clear := fun j hj v hv => hs.clear j hj v (hactive v hv)
        one := fun v v' hv hv' => hs.one v v' (hactive v hv) (hactive v' hv')
        port := fun v => by
          by_cases hvw : v = w
          · subst hvw
            simp [PortState.progressed, hs.port, hw]
          · simp [PortState.progressed, hold v hvw, hs.port]
        helper := fun v hv => by
          have hsaved := hs.helper v hv
          by_cases hvw : v = w
          · subst hvw
            simp [hw] at hsaved
          · simpa [PortState.progressed, hold v hvw] using hsaved
        fresh := fun v hv => by
          have hv : s.next ≤ v := hv
          simpa [PortState.progressed, hold v (by omega)] using hs.fresh v hv
        runs := fun j k v hj hk => by
          by_cases hji : j = i <;> by_cases hki : k = i
          · exact hji.trans hki.symm
          · subst hji
            simp only [Function.update_self, Function.update_of_ne hki] at hj hk
            cases hj
            exact absurd hk (hfree k)
          · subst hki
            simp only [Function.update_self, Function.update_of_ne hji] at hj hk
            cases hk
            exact absurd hj (hfree j)
          · simp only [Function.update_of_ne hji, Function.update_of_ne hki] at hj hk
            exact hs.runs j k v hj hk
        taken := fun j v hj => by
          by_cases hvw : v = w
          · subst hvw
            simpa [PortState.progressed] using hlt
          · have hji : j ≠ i := by
              rintro rfl
              simp only [Function.update_self] at hj
              cases hj
              exact hvw rfl
            simp only [Function.update_of_ne hji] at hj
            simpa [PortState.progressed, hold v hvw] using hs.taken j v hj
        quiet := fun hq => ⟨fun v hv => (hs.quiet hq).1 v (hactive v hv), (hs.quiet hq).2⟩
        kept := hs.kept }
  others j hj := by
    have hfree : ∀ v, s.runs j = some v → v ≠ w := by
      rintro v hv rfl
      exact (hs.taken j v hv).1 hw
    exact ⟨rfl, by simp [Function.update_of_ne hj],
      fun v hv => Function.update_of_ne (hfree v hv) _ _, fun _ _ h => h⟩

/-- The process of a worker takes it further: to its port file, or to its end without one or after
its removal. -/
theorem PortInv.advance (hs : PortInv s) {p : Progress} {port : Option Nat}
    (hi : s.runs i = some w) (hactive : s.Active w) (hhelper : s.helper w = false)
    (hp : p = .saved ∧ port = some w ∨ p = .ended ∧ port = none) :
    PortStep i s { s.progressed w p with port := port } where
  inv := by
    have hold : ∀ v, v ≠ w → Function.update s.progress w p v = s.progress v :=
      fun v hv => Function.update_of_ne hv _ _
    have hmono : ∀ v, { s.progressed w p with port := port }.Active v → s.Active v := by
      intro v hv
      by_cases hvw : v = w
      · exact hvw ▸ hactive
      · simpa only [PortState.Active, PortState.progressed, hold v hvw] using hv
    have hnot : p ≠ .launched := by
      rcases hp with hp | hp <;> simp [hp.1]
    exact
      { solo := hs.solo
        clear := fun j hj v hv => hs.clear j hj v (hmono v hv)
        one := fun v v' hv hv' => hs.one v v' (hmono v hv) (hmono v' hv')
        port := fun v => by
          by_cases hvw : v = w
          · subst hvw
            rcases hp with ⟨rfl, rfl⟩ | ⟨rfl, rfl⟩ <;> simp [PortState.progressed]
          · have hother : s.progress v ≠ .saved :=
              fun hv => hvw (hs.one v w (.inr (.inr hv)) hactive)
            rcases hp with ⟨-, rfl⟩ | ⟨-, rfl⟩ <;>
              simp [PortState.progressed, hold v hvw, hother, Ne.symm hvw]
        helper := fun v hv => by
          have hvw : v ≠ w := by
            rintro rfl
            exact absurd (hhelper.symm.trans hv) (by decide)
          simpa [PortState.progressed, hold v hvw] using hs.helper v hv
        fresh := fun v hv => by
          have hlt := (hs.taken i w hi).2
          have hv : s.next ≤ v := hv
          simpa [PortState.progressed, hold v (by omega)] using hs.fresh v hv
        runs := hs.runs
        taken := fun j v hj => by
          by_cases hvw : v = w
          · subst hvw
            simpa [PortState.progressed, hnot] using (hs.taken j v hj).2
          · simpa [PortState.progressed, hold v hvw] using hs.taken j v hj
        quiet := fun hq => ⟨fun v hv => (hs.quiet hq).1 v (hmono v hv), (hs.quiet hq).2⟩
        kept := hs.kept }
  others j hj := by
    have hmine : ∀ v, s.runs j = some v → v ≠ w := by
      rintro v hv rfl
      exact hj (hs.runs j i v hv hi)
    exact ⟨rfl, rfl, fun v hv => Function.update_of_ne (hmine v hv) _ _, fun _ _ h => h⟩

theorem PortInv.not_serving (hs : PortInv s) (hclear : ∀ w, ¬s.Active w) : ¬s.Serving w :=
  fun h => hclear w (.inr (.inr (hs.helper w h.2)))

end Steps

/-! ### Calls -/

/-- Where a caller goes on without a port file, no worker of the directory is on its way to one, no
other `Start` is about to launch, and beside a `Stop` of its own no `Start` is before its launch. -/
def PortCalm (i : Nat) : PortCall → PortChoice → PortState → Prop
  | .statPort _, .ok, s => s.port = none →
    (∀ w, s.progress w ≠ .launched ∧ s.progress w ≠ .starting) ∧
    (∀ j, j ≠ i → s.stage j ≠ .launching) ∧ (s.stage i = .idle → ∀ j, s.stage j = .idle)
  | _, _, _ => True

/-- The setting in which a process runs. -/
abbrev portSetting (i : Nat) : Setting PortCall PortCall.Reply PortChoice PortState :=
  portSystem.setting PortCalm PortInv PortRely (fun _ _ => True) i

abbrev PortTriple (i : Nat) {α : Type} (P : PortState → Prop) (p : PortProg α)
    (Q : α → PortState → Prop) : Prop := Triple (portSetting i) PortInv P p Q

/-- What the moves of the others leave true. -/
def PortStable (i : Nat) (P : PortState → Prop) : Prop := ∀ s t, P s → PortRely i s t → P t

/-- The answer of a call that can fail is no error. -/
def PortCall.ok : (a : PortCall) → a.Reply → Bool
  | .executable, r | .openLog, r | .checkRunDir _, r | .isBridge _, r | .findHelper _, r
  | .createEndpoint _, r | .createPeer _, r => r.isOk
  | _, _ => true

section Calls

variable {i w : Nat} {P : PortState → Prop}

theorem portCall_triple {a : PortCall} {Q : a.Reply → PortState → Prop} (hP : PortStable i P)
    (h : ∀ s c r t, PortInv s → P s → PortCalm i a c s → PortState.perform i a c s = some (r, t) →
      PortStep i s t ∧ Q r t) : PortTriple i P (portCall a) Q := by
  refine .request (fun s t _ hs hst => ⟨hst.2, hP s t hs hst.1⟩) fun s c r t hs hPs hc hp => ?_
  obtain ⟨hstep, hQ⟩ := h s c r t hs hPs hc hp
  exact ⟨⟨hstep.inv, trivial, hstep.others⟩, hstep.inv, hQ⟩

/-- A call that moves nothing on keeps what is known. -/
theorem portCall_settled {a : PortCall} (hP : PortStable i P)
    (h : ∀ s c r t, PortInv s → P s → PortState.perform i a c s = some (r, t) → Settled s t) :
    PortTriple i P (portCall a) fun _ => P := by
  refine portCall_triple hP fun s c r t hs hPs _ hp => ?_
  have hst := h s c r t hs hPs hp
  exact ⟨hst.step hs, hP s t hPs (hst.rely i)⟩

/-- The process is at a stage. -/
def AtStage (i : Nat) (g : Stage) (s : PortState) : Prop := s.stage i = g

theorem atStage_stable (i : Nat) (g : Stage) : PortStable i (AtStage i g) :=
  fun _ _ hs h => h.stage.trans hs

/-- The process is the worker, which has no helper. -/
def AtWork (i w : Nat) (p : Progress) (s : PortState) : Prop :=
  s.runs i = some w ∧ s.progress w = p ∧ s.helper w = false ∧ s.stage i = .idle

theorem atWork_stable (i w : Nat) (p : Progress) : PortStable i (AtWork i w p) := by
  rintro s t ⟨hi, hw, hhelper, hstage⟩ h
  refine ⟨h.runs.trans hi, (h.progress w hi).trans hw, ?_, h.stage.trans hstage⟩
  have hmono := h.helper w hi
  rw [hhelper] at hmono
  simpa using hmono

/-- The process is the worker, which has its port file. -/
def AtHelper (i w : Nat) (s : PortState) : Prop :=
  s.runs i = some w ∧ s.progress w = .saved ∧ s.stage i = .idle

theorem atHelper_stable (i w : Nat) : PortStable i (AtHelper i w) :=
  fun _ _ hs h => ⟨h.runs.trans hs.1, (h.progress w hs.1).trans hs.2.1, h.stage.trans hs.2.2⟩

/-- The process is the worker, at the end of its work. -/
def Working (i w : Nat) (s : PortState) : Prop := AtWork i w .starting s ∨ AtWork i w .saved s

theorem working_stable (i w : Nat) : PortStable i (Working i w) := fun s t hs h =>
  hs.imp (fun hs => atWork_stable i w _ s t hs h) fun hs => atWork_stable i w _ s t hs h

/-- A call by a caller that changes nothing, or ends its stage. -/
theorem portCall_caller {a : PortCall} {g : Stage} (ok : a.Reply → Bool)
    (h : ∀ s c r t, PortState.perform i a c s = some (r, t) →
      ok r = true ∧ t = s ∨ ok r = false ∧ t = s.at_ i .idle) :
    PortTriple i (AtStage i g) (portCall a)
      fun r => AtStage i (if ok r then g else .idle) := by
  refine portCall_triple (atStage_stable i g) fun s c r t hs hi _ hp => ?_
  rcases h s c r t hp with ⟨hr, rfl⟩ | ⟨hr, rfl⟩
  · rw [hr]
    exact ⟨(Settled.refl t).step hs, hi⟩
  · rw [hr]
    exact ⟨hs.at_ (by simp) fun _ => rfl, by simp [AtStage, PortState.at_]⟩

theorem writeStop_triple (g : Stage) :
    PortTriple i (AtStage i g) (portCall .writeStop)
      fun r => AtStage i (if r.isOk then g else .idle) := by
  refine portCall_triple (atStage_stable i g) fun s c r t hs hi _ hp => ?_
  cases c with
  | ok =>
    cases hp
    have hst : Settled s { s with stop := true } :=
      ⟨rfl, fun _ h => h, rfl, rfl, rfl, rfl, fun h => h, rfl⟩
    exact ⟨hst.step hs, hi⟩
  | fails e =>
    cases hp
    exact ⟨hs.at_ (by simp) fun _ => rfl, by simp [AtStage, PortState.at_, Except.isOk,
      Except.toBool]⟩
  | _ => cases hp

theorem beforeDeadline_triple (g : Stage) :
    PortTriple i (AtStage i g) (portCall .beforeDeadline)
      fun r => AtStage i (if r then g else .idle) := by
  refine portCall_caller (a := .beforeDeadline) id fun s c r t hp => ?_
  cases c with
  | ok =>
    cases hp
    exact .inl ⟨rfl, rfl⟩
  | late =>
    cases hp
    exact .inr ⟨rfl, rfl⟩
  | _ => cases hp

/-- The calls of a `Start` between the removals and the launch. -/
def PortCall.Prepares : PortCall → Prop
  | .executable | .openLog => True
  | _ => False

theorem prepares_triple {a : PortCall} (g : Stage) (ha : a.Prepares) :
    PortTriple i (AtStage i g) (portCall a)
      fun r => AtStage i (if a.ok r then g else .idle) := by
  refine portCall_caller a.ok fun s c r t hp => ?_
  cases a with
  | executable | openLog =>
    cases c with
    | ok =>
      cases hp
      exact .inl ⟨rfl, rfl⟩
    | fails e =>
      cases hp
      exact .inr ⟨rfl, rfl⟩
    | _ => cases hp
  | _ => exact absurd ha (by simp [PortCall.Prepares])

theorem locateHelper_triple :
    PortTriple i (AtStage i .idle) (portCall .locateHelper)
      fun r => AtStage i (if r.isOk then .stopping else .idle) := by
  refine portCall_triple (atStage_stable i .idle) fun s c r t hs hi _ hp => ?_
  have hst : Settled s { s with quiet := false } :=
    ⟨rfl, fun _ h => h, rfl, rfl, rfl, rfl, by simp, rfl⟩
  cases c with
  | ok =>
    cases hp
    have hstep : PortStep i { s with quiet := false }
        (PortState.at_ { s with quiet := false } i .stopping) :=
      (hst.inv hs).at_ (by simp) (by simp)
    exact ⟨hstep.after hst, by simp [AtStage, PortState.at_, Except.isOk, Except.toBool]⟩
  | fails e =>
    cases hp
    exact ⟨hst.step hs, hi⟩
  | _ => cases hp

/-- What a look for the port file leaves of a stage. -/
def Stage.after (g : Stage) (again : Bool) : Stat → Stage
  | .found => g
  | .missing => if g = .idle then .idle else .launching
  | .error _ => if again then g else .idle

theorem statPort_triple (again : Bool) {g : Stage} (hg : g ≠ .launching) :
    PortTriple i (AtStage i g) (portCall (.statPort again))
      fun r => AtStage i (g.after again r) := by
  refine portCall_triple (atStage_stable i g) fun s c r t hs hi hcalm hp => ?_
  unfold AtStage at hi
  cases c with
  | ok =>
    cases hport : s.port with
    | some w =>
      rw [PortState.perform_found hport] at hp
      cases hp
      exact ⟨(Settled.refl _).step hs, hi⟩
    | none =>
      obtain ⟨hway, hothers, hidle⟩ := hcalm hport
      have hclear : ∀ w, ¬s.Active w := by
        intro w hw
        rcases hw with hw | hw | hw
        · exact (hway w).1 hw
        · exact (hway w).2 hw
        · simp [(hs.port w).mpr hw] at hport
      cases g with
      | idle =>
        simp only [PortState.perform, hport, hi, Option.some.injEq, Prod.mk.injEq] at hp
        obtain ⟨rfl, rfl⟩ := hp
        exact ⟨hport ▸ hs.quieted hclear (hidle hi), hi⟩
      | stopping =>
        simp only [PortState.perform, hport, hi, Option.some.injEq, Prod.mk.injEq] at hp
        obtain ⟨rfl, rfl⟩ := hp
        have hquiet : s.quiet = false := by
          by_contra hq
          have hidle := (hs.quiet (by simpa using hq)).2 i
          simp [hi] at hidle
        exact ⟨hs.launching hclear hquiet hothers, by simp [AtStage, PortState.at_, Stage.after]⟩
      | launching => exact absurd rfl hg
  | fails e =>
    cases hp
    cases again with
    | true => exact ⟨(Settled.refl _).step hs, hi⟩
    | false => exact ⟨hs.at_ (by simp) fun _ => rfl, by simp [AtStage, PortState.at_, Stage.after]⟩
  | _ => cases hp

theorem launch_triple :
    PortTriple i (AtStage i .launching) (portCall .launch) fun _ => AtStage i .idle := by
  refine portCall_triple (atStage_stable i .launching) fun s c r t hs hi _ hp => ?_
  cases c with
  | ok =>
    cases hp
    exact ⟨hs.launch hi, by simp [AtStage, PortState.at_]⟩
  | fails e =>
    cases hp
    exact ⟨hs.at_ (by simp) fun _ => rfl, by simp [AtStage, PortState.at_]⟩
  | _ => cases hp

/-- A file other than the port file goes, and no worker that serves is robbed of it. -/
theorem settled_removed {s : PortState} {by_ : Option Nat} {f : RunFile} (hf : f ≠ .port)
    (hrobs : s.robs by_ f = false) : Settled s (s.removed by_ f) := by
  cases f <;> simp_all [PortState.removed, PortState.without] <;>
    exact ⟨rfl, fun _ h => h, rfl, rfl, rfl, rfl, fun h => h, rfl⟩

/-- No worker serves but the one that removes the file. -/
theorem PortInv.robs_eq_false {s : PortState} {by_ : Option Nat} {f : RunFile}
    (h : ∀ v, s.Serving v → by_ = some v) : s.robs by_ f = false := by
  unfold PortState.robs
  split
  · rfl
  · rename_i v _
    by_cases hv : s.Serving v
    · simp [h v hv]
    · simp [hv]

/-- A caller removes a file of the worker of before. -/
theorem remove_caller {f : RunFile} (hf : f ≠ .port) :
    PortTriple i (AtStage i .launching) (portCall (.remove none f))
      fun _ => AtStage i .launching := by
  refine portCall_settled (atStage_stable i .launching) fun s c r t hs hi hp => ?_
  have hclean : ∀ u : PortState, u.cleaned none f = u := by
    intro u
    cases f <;> rfl
  cases c with
  | ok =>
    simp only [PortState.perform, hclean, Option.some.injEq, Prod.mk.injEq] at hp
    obtain ⟨-, rfl⟩ := hp
    exact settled_removed hf (PortInv.robs_eq_false fun v hv =>
      absurd hv (hs.not_serving (hs.clear i hi)))
  | fails e =>
    simp only [PortState.perform, hclean, Option.some.injEq, Prod.mk.injEq] at hp
    obtain ⟨-, rfl⟩ := hp
    exact Settled.refl s
  | _ => cases hp

/-! ### Calls of a worker -/

theorem takeLaunch_triple :
    PortTriple i (AtStage i .idle) (portCall .takeLaunch)
      fun w => AtWork i w .starting := by
  refine portCall_triple (atStage_stable i .idle) fun s c r t hs hi _ hp => ?_
  cases c with
  | worker w =>
    simp only [PortState.perform] at hp
    split at hp
    · rename_i hw
      have hhelper : s.helper w = false := by
        by_contra hne
        have hsaved := hs.helper w (by simpa using hne)
        simp [hw] at hsaved
      cases hp
      exact ⟨hs.take hw, by simp, by simp [PortState.progressed], hhelper, hi⟩
    · cases hp
  | _ => cases hp

/-- A step that ends a worker before it has a port file. -/
theorem PortInv.ended {s : PortState} (hs : PortInv s) (hi : AtWork i w .starting s) :
    PortStep i s (s.progressed w .ended) ∧ AtStage i .idle (s.progressed w .ended) := by
  obtain ⟨hruns, hw, hhelper, hstage⟩ := hi
  have hactive : s.Active w := .inr (.inl hw)
  have hport : s.port = none := by
    cases hport : s.port with
    | none => rfl
    | some v =>
      have hv := (hs.port v).mp hport
      obtain rfl := hs.one v w (.inr (.inr hv)) hactive
      simp [hw] at hv
  have hstep := hs.advance (p := .ended) hruns hactive hhelper (.inr ⟨rfl, hport⟩)
  exact ⟨hstep, hstage⟩

/-- The calls of a worker before it has its interfaces. -/
def PortCall.Opens (w : Nat) : PortCall → Prop
  | .checkRunDir v | .isBridge v | .findHelper v | .createEndpoint v | .createPeer v => v = w
  | _ => False

/-- Where one of them fails, the worker ends. -/
theorem opens_triple {a : PortCall} (ha : a.Opens w) :
    PortTriple i (AtWork i w .starting) (portCall a)
      fun r => if a.ok r then AtWork i w .starting else AtStage i .idle := by
  refine portCall_triple (atWork_stable i w .starting) fun s c r t hs hi _ hp => ?_
  have hcases : a.ok r = true ∧ t = s ∨ a.ok r = false ∧ t = s.progressed w .ended := by
    cases a with
    | checkRunDir v | isBridge v | findHelper v | createEndpoint v | createPeer v =>
      obtain rfl : v = w := ha
      cases c with
      | ok =>
        cases hp
        exact .inl ⟨rfl, rfl⟩
      | fails e =>
        cases hp
        exact .inr ⟨rfl, rfl⟩
      | _ => cases hp
    | _ => exact absurd ha (by simp [PortCall.Opens])
  rcases hcases with ⟨hr, rfl⟩ | ⟨hr, rfl⟩
  · rw [hr]
    exact ⟨(Settled.refl t).step hs, hi⟩
  · rw [hr]
    exact hs.ended hi

/-- The calls that move nothing on. -/
def PortCall.Plain : PortCall → Prop
  | .wait _ | .readFailed | .statReady | .destroyInterface _ | .pair _ | .addMember _ | .up _
  | .chownPort _ | .writePort _ | .watch _ | .statStop | .reportFailed _ => True
  | _ => False

theorem plain_settled {a : PortCall} {c : PortChoice} {s t : PortState} {r : a.Reply}
    (ha : a.Plain) (h : PortState.perform i a c s = some (r, t)) : Settled s t := by
  cases a with
  | readFailed | statReady | statStop =>
    cases h
    exact Settled.refl _
  | wait running =>
    cases c with
    | round q =>
      cases q with
      | exited e =>
        simp only [PortState.perform] at h
        split at h
        · cases h
          exact Settled.refl _
        · cases h
      | _ =>
        cases h
        exact Settled.refl _
    | _ => cases h
  | watch w =>
    cases c with
    | watched q =>
      cases q with
      | helperExited e =>
        simp only [PortState.perform] at h
        split at h
        · cases h
        · cases h
          exact Settled.refl _
      | _ =>
        cases h
        exact Settled.refl _
    | _ => cases h
  | destroyInterface w | pair w | addMember w | up w | chownPort w | writePort w | reportFailed e =>
    cases c with
    | ok | fails e' =>
      cases h
      exact ⟨rfl, fun _ h => h, rfl, rfl, rfl, rfl, fun h => h, rfl⟩
    | _ => cases h
  | _ => exact absurd ha (by simp [PortCall.Plain])

theorem plain_triple {a : PortCall} {P : PortState → Prop} (hP : PortStable i P) (ha : a.Plain) :
    PortTriple i P (portCall a) fun _ => P :=
  portCall_settled hP fun _ _ _ _ _ _ hp => plain_settled ha hp

theorem createPort_triple :
    PortTriple i (AtWork i w .starting) (portCall (.createPort w))
      fun r => if r.isOk then AtWork i w .saved else AtWork i w .starting := by
  refine portCall_triple (atWork_stable i w .starting) fun s c r t hs hi _ hp => ?_
  cases c with
  | ok =>
    obtain ⟨hruns, hw, hhelper, hstage⟩ := hi
    cases hport : s.port with
    | none =>
      simp only [PortState.perform, hport, Option.some.injEq, Prod.mk.injEq] at hp
      obtain ⟨rfl, rfl⟩ := hp
      have hstep := hs.advance (p := .saved) hruns (.inr (.inl hw)) hhelper (.inl ⟨rfl, rfl⟩)
      exact ⟨hstep, hruns, by simp [PortState.progressed], hhelper, hstage⟩
    | some v =>
      simp only [PortState.perform, hport, Option.some.injEq, Prod.mk.injEq] at hp
      obtain ⟨rfl, rfl⟩ := hp
      exact ⟨(Settled.refl s).step hs, hruns, hw, hhelper, hstage⟩
  | fails e =>
    cases hp
    exact ⟨(Settled.refl _).step hs, hi⟩
  | _ => cases hp

theorem startHelper_triple :
    PortTriple i (AtWork i w .saved) (portCall (.startHelper w))
      fun r => if r.isOk then AtHelper i w else AtWork i w .saved := by
  refine portCall_triple (atWork_stable i w .saved) fun s c r t hs hi _ hp => ?_
  obtain ⟨hruns, hw, hhelper, hstage⟩ := hi
  cases c with
  | ok =>
    cases hp
    refine ⟨⟨{ hs with helper := fun v hv => ?_ }, fun j hj => ?_⟩, hruns, hw, hstage⟩
    · by_cases hvw : v = w
      · exact hvw ▸ hw
      · simp only [Function.update_of_ne hvw] at hv
        exact hs.helper v hv
    · refine ⟨rfl, rfl, fun _ _ => rfl, fun v hv ht => ?_⟩
      have hvw : v ≠ w := by
        rintro rfl
        exact hj (hs.runs j i v hv hruns)
      simpa [Function.update_of_ne hvw] using ht
  | fails e =>
    cases hp
    exact ⟨(Settled.refl _).step hs, hruns, hw, hhelper, hstage⟩
  | _ => cases hp

/-- The worker learns that its helper has exited. -/
theorem watch_triple :
    PortTriple i (AtHelper i w) (portCall (.watch w))
      fun r s => AtHelper i w s ∧ ∀ e, r = .helperExited e → AtWork i w .saved s := by
  refine portCall_triple (atHelper_stable i w) fun s c r t hs hi _ hp => ?_
  have hst : Settled s t := plain_settled (a := .watch w) trivial hp
  refine ⟨hst.step hs, atHelper_stable i w s t hi (hst.rely i), ?_⟩
  rintro e rfl
  obtain ⟨hruns, hw, hstage⟩ := hi
  cases c with
  | watched q =>
    cases q with
    | helperExited e' =>
      simp only [PortState.perform] at hp
      split at hp
      · cases hp
      · rename_i hhelper
        cases hp
        exact ⟨hruns, hw, by simpa using hhelper, hstage⟩
    | _ => cases hp
  | _ => cases hp

theorem killHelper_triple :
    PortTriple i (AtHelper i w) (portCall (.killHelper w)) fun _ => AtWork i w .saved := by
  refine portCall_triple (atHelper_stable i w) fun s c r t hs hi _ hp => ?_
  obtain ⟨hruns, hw, hstage⟩ := hi
  cases hp
  have hst : Settled s { s with helper := Function.update s.helper w false } := by
    refine ⟨rfl, fun v hv => ?_, rfl, rfl, rfl, rfl, fun h => h, rfl⟩
    by_cases hvw : v = w
    · simp [hvw] at hv
    · simpa [Function.update_of_ne hvw] using hv
  exact ⟨hst.step hs, hruns, hw, by simp, hstage⟩

/-- A worker at the end of its work robs no other: it is the only one that could serve. -/
theorem Working.robs {s : PortState} (hs : PortInv s) (hi : Working i w s) (f : RunFile) :
    s.robs (some w) f = false := by
  refine PortInv.robs_eq_false fun v hv => ?_
  have hw : s.Active w := by
    rcases hi with hi | hi
    · exact .inr (.inl hi.2.1)
    · exact .inr (.inr hi.2.1)
  rw [hs.one v w (.inr (.inr (hs.helper v hv.2))) hw]

theorem remove_worker {f : RunFile} (hf : f ≠ .port) :
    PortTriple i (Working i w) (portCall (.remove (some w) f)) fun _ => Working i w := by
  refine portCall_settled (working_stable i w) fun s c r t hs hi hp => ?_
  have hclean : ∀ u : PortState, u.cleaned (some w) f = u := by
    intro u
    cases f <;> simp_all [PortState.cleaned]
  cases c with
  | ok =>
    simp only [PortState.perform, hclean, Option.some.injEq, Prod.mk.injEq] at hp
    obtain ⟨-, rfl⟩ := hp
    exact settled_removed hf (hi.robs hs f)
  | fails e =>
    simp only [PortState.perform, hclean, Option.some.injEq, Prod.mk.injEq] at hp
    obtain ⟨-, rfl⟩ := hp
    exact Settled.refl s
  | _ => cases hp

/-- The removal of the port file, with which a worker ends. -/
theorem remove_port :
    PortTriple i (Working i w) (portCall (.remove (some w) .port)) fun _ => AtStage i .idle := by
  refine portCall_triple (working_stable i w) fun s c r t hs hi _ hp => ?_
  have hrobs := hi.robs hs .port
  cases c with
  | ok =>
    obtain ⟨hruns, hactive, hhelper, hstage⟩ :
        s.runs i = some w ∧ s.Active w ∧ s.helper w = false ∧ s.stage i = .idle := by
      rcases hi with ⟨hruns, hw, hi⟩ | ⟨hruns, hw, hi⟩
      · exact ⟨hruns, .inr (.inl hw), hi⟩
      · exact ⟨hruns, .inr (.inr hw), hi⟩
    have hstep := hs.advance (p := .ended) hruns hactive hhelper (.inr ⟨rfl, rfl⟩)
    simp only [PortState.perform, PortState.cleaned, PortState.removed, PortState.without, hrobs,
      reduceCtorEq, if_false, Bool.or_false, Option.some.injEq, Prod.mk.injEq] at hp
    obtain ⟨-, rfl⟩ := hp
    exact ⟨hstep, hstage⟩
  | fails e =>
    rcases hi with hi | ⟨hruns, hw, hhelper, hstage⟩
    · have hport : s.port ≠ some w := by
        intro hport
        have hsaved := (hs.port w).mp hport
        simp [hi.2.1] at hsaved
      simp only [PortState.perform, PortState.cleaned, hport, if_false, Option.some.injEq,
        Prod.mk.injEq] at hp
      obtain ⟨-, rfl⟩ := hp
      exact hs.ended hi
    · have hport := (hs.port w).mpr hw
      simp only [PortState.perform, PortState.cleaned, hport, if_true, Option.some.injEq,
        Prod.mk.injEq] at hp
      obtain ⟨-, rfl⟩ := hp
      exact ⟨(Settled.refl s).step hs, hstage⟩
  | _ => cases hp

end Calls

/-! ### Start, Stop and the worker -/

section Programs

variable {i w : Nat}

theorem outOfRounds_triple {α : Type} {P : PortState → Prop} {Q : α → PortState → Prop} :
    PortTriple i P (outOfRounds (α := α)) Q := by
  intro s _ _ s1 _ c r t _ hp
  cases hp

/-- A `Stop` that returns nil leaves a `Start` about to launch, and any other is at its end. -/
theorem awaitGone_triple {g : Stage} (hg : g ≠ .launching) (rounds : Nat) :
    PortTriple i (AtStage i g) (awaitGone rounds)
      fun r => AtStage i (if r.isOk then g.after true .missing else .idle) := by
  induction rounds with
  | zero => exact outOfRounds_triple
  | succ rounds ih =>
    refine (beforeDeadline_triple g).bind fun before => ?_
    cases before with
    | false => exact .pure fun _ h => h
    | true =>
      refine (statPort_triple true hg).bind fun stat => ?_
      cases stat with
      | missing => exact .pure fun _ h => h
      | found => exact ih
      | error e => exact ih

theorem stop_triple {g : Stage} (hg : g ≠ .launching) (rounds : Nat) :
    PortTriple i (AtStage i g) (stop rounds)
      fun r => AtStage i (if r.isOk then g.after true .missing else .idle) := by
  refine (statPort_triple false hg).bind fun stat => ?_
  cases stat with
  | missing => exact .pure fun _ h => h
  | error e => exact .pure fun _ h => h
  | found =>
    refine (writeStop_triple g).bind fun written => ?_
    cases written with
    | error e => exact .pure fun _ h => h
    | ok _ => exact awaitGone_triple hg rounds

theorem awaitReady_triple (rounds : Nat) (running : Bool) :
    PortTriple i (AtStage i .idle) (awaitReady rounds running) fun _ => AtStage i .idle := by
  have hidle := atStage_stable i .idle
  induction rounds generalizing running with
  | zero => exact outOfRounds_triple
  | succ rounds ih =>
    refine (plain_triple hidle (a := .wait running) trivial).bind fun ended => ?_
    cases ended with
    | exited e =>
      cases e with
      | none => exact ih false
      | some e => exact .pure fun _ h => h
    | deadline =>
      refine (writeStop_triple .idle).bind fun r => .pure fun s hs => ?_
      simpa using hs
    | tick =>
      refine (plain_triple hidle (a := .readFailed) trivial).bind fun failed => ?_
      cases failed with
      | some e => exact .pure fun _ h => h
      | none =>
        refine (plain_triple hidle (a := .statReady) trivial).bind fun ready => ?_
        cases ready with
        | true => exact .pure fun _ h => h
        | false => exact ih running

theorem launchWorker_triple (rounds : Nat) :
    PortTriple i (AtStage i .launching) (launchWorker rounds) fun _ => AtStage i .idle := by
  refine (remove_caller (f := .socket) (by simp)).bind fun _ => ?_
  refine (remove_caller (f := .ready) (by simp)).bind fun _ => ?_
  refine (remove_caller (f := .stop) (by simp)).bind fun _ => ?_
  refine (remove_caller (f := .failed) (by simp)).bind fun _ => ?_
  refine (prepares_triple (a := .executable) .launching trivial).bind fun r => ?_
  cases r with
  | error e => exact .pure fun _ h => h
  | ok _ =>
    refine (prepares_triple (a := .openLog) .launching trivial).bind fun r => ?_
    cases r with
    | error e => exact .pure fun _ h => h
    | ok _ =>
      refine launch_triple.bind fun r => ?_
      cases r with
      | error e => exact .pure fun _ h => h
      | ok _ => exact awaitReady_triple rounds true

theorem start_triple (rounds : Nat) :
    PortTriple i (AtStage i .idle) (start rounds) fun _ => AtStage i .idle := by
  refine locateHelper_triple.bind fun r => ?_
  cases r with
  | error e => exact .pure fun _ h => h
  | ok _ =>
    refine (stop_triple (g := .stopping) (by simp) rounds).bind fun r => ?_
    cases r with
    | error e => exact .pure fun _ h => h
    | ok _ => exact launchWorker_triple rounds

theorem savePort_triple :
    PortTriple i (AtWork i w .starting) (savePort w)
      fun r => if r.isOk then AtWork i w .saved else Working i w := by
  have hsaved := atWork_stable i w .saved
  refine createPort_triple.bind fun r => ?_
  cases r with
  | error e => exact .pure fun _ h => .inl h
  | ok _ =>
    refine (plain_triple hsaved (a := .chownPort w) trivial).bind fun r => ?_
    cases r with
    | error e => exact .pure fun _ h => .inr h
    | ok _ =>
      refine (plain_triple hsaved (a := .writePort w) trivial).conseq (fun _ h => h) fun r s hs => ?_
      cases r with
      | error e => exact .inr hs
      | ok _ => exact hs

theorem watchHelper_triple (rounds : Nat) :
    PortTriple i (AtHelper i w) (watchHelper w rounds) fun _ => AtWork i w .saved := by
  have hkill : ∀ r : Except String Unit, PortTriple i (AtHelper i w)
      (portCall (.killHelper w) >>= fun _ => pure r) fun _ => AtWork i w .saved :=
    fun r => killHelper_triple.bind fun _ => .pure fun _ h => h
  induction rounds with
  | zero => exact outOfRounds_triple
  | succ rounds ih =>
    refine watch_triple.bind fun ended => ?_
    cases ended with
    | helperExited e =>
      cases e with
      | none => exact .pure fun _ h => h.2 none rfl
      | some e => exact .pure fun _ h => h.2 (some e) rfl
    | signal => exact (hkill (.ok ())).conseq (fun _ h => h.1) fun _ _ h => h
    | tick =>
      refine Triple.conseq (P := AtHelper i w) ?_ (fun _ h => h.1) fun _ _ h => h
      refine (plain_triple (atHelper_stable i w) (a := .statStop) trivial).bind fun stop => ?_
      cases stop with
      | true => exact hkill (.ok ())
      | false => exact ih

theorem serve_triple (rounds : Nat) :
    PortTriple i (AtWork i w .starting) (serve w rounds) fun _ => Working i w := by
  have hstarting := atWork_stable i w .starting
  refine (plain_triple hstarting (a := .pair w) trivial).bind fun r => ?_
  cases r with
  | error e => exact .pure fun _ h => .inl h
  | ok _ =>
    refine (plain_triple hstarting (a := .addMember w) trivial).bind fun r => ?_
    cases r with
    | error e => exact .pure fun _ h => .inl h
    | ok _ =>
      refine (plain_triple hstarting (a := .up w) trivial).bind fun r => ?_
      cases r with
      | error e => exact .pure fun _ h => .inl h
      | ok _ =>
        refine (plain_triple hstarting (a := .up w) trivial).bind fun r => ?_
        cases r with
        | error e => exact .pure fun _ h => .inl h
        | ok _ =>
          refine savePort_triple.bind fun r => ?_
          cases r with
          | error e => exact .pure fun _ h => h
          | ok _ =>
            refine startHelper_triple.bind fun r => ?_
            cases r with
            | error e => exact .pure fun _ h => .inr h
            | ok _ =>
              exact (watchHelper_triple rounds).conseq (fun _ h => h) fun _ _ h => .inr h

theorem cleanupWorker_triple :
    PortTriple i (Working i w) (cleanupWorker w) fun _ => AtStage i .idle := by
  have hstable := working_stable i w
  refine (plain_triple hstable (a := .destroyInterface w) trivial).bind fun _ => ?_
  refine (plain_triple hstable (a := .destroyInterface w) trivial).bind fun _ => ?_
  refine (remove_worker (f := .socket) (by simp)).bind fun _ => ?_
  refine (remove_worker (f := .ready) (by simp)).bind fun _ => ?_
  refine (remove_worker (f := .stop) (by simp)).bind fun _ => ?_
  exact remove_port

theorem work_triple (rounds : Nat) :
    PortTriple i (AtWork i w .starting) (work w rounds) fun _ => AtStage i .idle := by
  have hidle := atStage_stable i .idle
  refine (opens_triple (a := .isBridge w) rfl).bind fun r => ?_
  cases r with
  | error e => exact .pure fun _ h => h
  | ok _ =>
    refine (opens_triple (a := .findHelper w) rfl).bind fun r => ?_
    cases r with
    | error e => exact .pure fun _ h => h
    | ok _ =>
      refine (opens_triple (a := .createEndpoint w) rfl).bind fun r => ?_
      cases r with
      | error e => exact .pure fun _ h => h
      | ok _ =>
        refine (opens_triple (a := .createPeer w) rfl).bind fun r => ?_
        cases r with
        | error e =>
          refine Triple.bind (Q := fun _ => AtStage i .idle) ?_ fun _ => .pure fun _ h => h
          exact plain_triple hidle (a := .destroyInterface w) trivial
        | ok _ =>
          refine (serve_triple rounds).bind fun result => ?_
          exact cleanupWorker_triple.bind fun _ => .pure fun _ h => h

theorem runWorker_triple (rounds : Nat) :
    PortTriple i (AtStage i .idle) (runWorker rounds) fun _ => AtStage i .idle := by
  have hidle := atStage_stable i .idle
  refine takeLaunch_triple.bind fun w => ?_
  refine (opens_triple (a := .checkRunDir w) rfl).bind fun r => ?_
  cases r with
  | error e => exact .pure fun _ h => h
  | ok _ =>
    refine (work_triple rounds).bind fun r => ?_
    cases r with
    | ok _ => exact .pure fun _ h => h
    | error e =>
      refine (plain_triple hidle (a := .reportFailed e) trivial).bind fun _ => ?_
      exact .pure fun _ h => h

end Programs

/-! ### Every run -/

theorem port_start : PortInv {} where
  solo i j hi := by simp at hi
  clear i hi := by simp at hi
  one w w' hw := by simp [PortState.Active] at hw
  port w := by simp
  helper w hw := by simp at hw
  fresh w _ := rfl
  runs i j w hi := by simp at hi
  taken i w hi := by simp at hi
  quiet hq := by simp at hq
  kept := rfl

theorem port_die {s : PortState} (i : Nat) (hs : PortInv s) :
    PortStep i s (s.die i) ∧ AtStage i .idle (s.die i) := by
  have hat : PortStep i s (s.at_ i .idle) := hs.at_ (by simp) fun _ => rfl
  have hidle : AtStage i .idle (s.at_ i .idle) := by simp [AtStage, PortState.at_]
  unfold PortState.die
  cases hruns : s.runs i with
  | none => simpa [PortState.at_, hruns] using And.intro hat hidle
  | some w =>
    have hruns' : (s.at_ i .idle).runs i = some w := hruns
    simp only [hruns']
    split
    · rename_i hw
      have hhelper : (s.at_ i .idle).helper w = false := by
        by_contra hne
        have hsaved := hat.inv.helper w (by simpa using hne)
        simp [hw] at hsaved
      obtain ⟨hstep, hstage⟩ := hat.inv.ended ⟨hruns', hw, hhelper, hidle⟩
      refine ⟨⟨hstep.inv, fun j hj => ?_⟩, hstage⟩
      exact .trans j _ _ _ (hat.others j hj) (hstep.others j hj)
    · exact ⟨hat, hidle⟩

theorem port_event {s t : PortState} {e : HelperEvent} (hs : PortInv s)
    (h : s.event e = some t) : Settled s t := by
  cases e with
  | binds w | marks w =>
    simp only [PortState.event] at h
    split at h
    · cases h
      exact ⟨rfl, fun _ h => h, rfl, rfl, rfl, rfl, fun h => h, rfl⟩
    · cases h
  | unlinks w =>
    simp only [PortState.event] at h
    split at h
    · rename_i hw
      cases h
      have hsaved := hs.helper w hw
      refine settled_removed (by simp) (PortInv.robs_eq_false fun v hv => ?_)
      rw [hs.one v w (.inr (.inr (hs.helper v hv.2))) (.inr (.inr hsaved))]
    · cases h
  | exits w =>
    cases h
    refine ⟨rfl, fun v hv => ?_, rfl, rfl, rfl, rfl, fun h => h, rfl⟩
    by_cases hvw : v = w
    · simp [hvw] at hv
    · simpa [Function.update_of_ne hvw] using hv

def portOutline : portSystem.Outline PortCalm {} where
  Inv := PortInv
  idle i := AtStage i .idle
  rely := PortRely
  guar _ _ := True
  refl := PortRely.refl
  trans := PortRely.trans
  stable i s t hs h := atStage_stable i .idle s t hs h
  init := ⟨port_start, fun _ => rfl⟩
  code i op s hs hi := by
    have hcode : PortTriple i (AtStage i .idle) op.code fun _ => AtStage i .idle := by
      cases op with
      | start rounds => exact start_triple rounds
      | stop rounds =>
        refine (stop_triple (g := .idle) (by simp) rounds).conseq (fun _ h => h) fun r s h => ?_
        simpa [Stage.after] using h
      | worker rounds => exact runWorker_triple rounds
    exact wp_mono (hcode s hs hi) fun _ _ h => h.2
  die i s hs := by
    obtain ⟨hstep, hidle⟩ := port_die i hs
    exact ⟨hstep.inv, hidle, trivial, hstep.others⟩
  env e s t hs h := by
    have hst := port_event hs h
    exact ⟨hst.inv hs, trivial, hst.rely⟩

/-- At most one worker serves, no file of a serving worker has been removed by another one or by a
caller, and none serves after a `Stop`. -/
structure PortState.Sound (s : PortState) : Prop where
  alone : ∀ w w', s.Serving w → s.Serving w' → w = w'
  kept : s.robbed = false
  stopped : s.quiet = true → ∀ w, ¬s.Serving w

/-- In every run in which callers go on without a port file only where no worker is on its way to
one, the directory is in order. -/
theorem workers_alone {g : Config PortCall PortCall.Reply PortState (Except String Unit)}
    (hg : portSystem.Reach PortCalm {} g) : g.shared.Sound := by
  have hs := portOutline.invariant hg
  have hactive : ∀ w, g.shared.Serving w → g.shared.Active w :=
    fun w hw => .inr (.inr (hs.helper w hw.2))
  exact ⟨fun w w' hw hw' => hs.one w w' (hactive w hw) (hactive w' hw'), hs.kept,
    fun hq w => hs.not_serving (hs.quiet hq).1⟩

section Runs

/-- A `Start` from its look for the port file to its launch. -/
def launches (i : Nat) : List (Move PortChoice PortOp HelperEvent) :=
  List.replicate 7 (.call i .ok)

/-- A worker from its launch to its interfaces. -/
def opens (i w : Nat) : List (Move PortChoice PortOp HelperEvent) :=
  [.begin i (.worker 1), .call i (.worker w)] ++ List.replicate 5 (.call i .ok)

/-- A worker from its interfaces to its helper. -/
def serves (i : Nat) : List (Move PortChoice PortOp HelperEvent) := List.replicate 8 (.call i .ok)

def PortCall.looks : PortCall → Bool
  | .statPort _ => true
  | _ => false

/-- A `Start` finds no port file, and the worker that it launches serves. -/
theorem workers_alone_served : ∃ g, portSystem.Reach PortCalm {} g ∧ g.shared.Serving 0 ∧
    g.shared.Sound := by
  obtain ⟨g, g1, g2, hg, hcalm, hg1, hg2, hserving⟩ : ∃ g g1 g2,
      portSystem.movesFree (fun a => !a.looks) ⟨{}, fun _ => none⟩
        [.begin 0 (.start 1), .call 0 .ok] = some g ∧
      System.Permits PortCalm g (.call 0 .ok : Move PortChoice PortOp HelperEvent) ∧
      portSystem.move g (.call 0 .ok) = some g1 ∧
      portSystem.movesFree (fun a => !a.looks) g1 (launches 0 ++ opens 1 0 ++ serves 1) = some g2 ∧
      g2.shared.Serving 0 := by
    refine ⟨_, _, _, rfl, ?_, rfl, rfl, by decide⟩
    intro a next hp
    cases hp
    intro _
    refine ⟨fun w => ?_, fun j hj => ?_, fun hidle => ?_⟩
    · simp [PortState.at_]
    · simp [PortState.at_, Function.update_of_ne hj]
    · simp [PortState.at_] at hidle
  have hfree : ∀ i (a : PortCall) c s, (!a.looks) = true → PortCalm i a c s := by
    intro i a c s ha
    cases a with
    | statPort again => simp [PortCall.looks] at ha
    | _ => exact trivial
  have hreach := portSystem.reach_movesFree hfree .start hg
  have hend := portSystem.reach_movesFree hfree (.move _ hreach hcalm hg1) hg2
  exact ⟨g2, hend, hserving, workers_alone hend⟩

/-- The first worker is slow, and its `Start` gives up; the second one launches another, whose end
removes the port file of the first one.  The third `Start` finds none and launches a third worker,
beside which the first one serves. -/
theorem workers_overlap : ∃ g, portSystem.moves ⟨{}, fun _ => none⟩
    ([.begin 0 (.start 1), .call 0 .ok, .call 0 .ok] ++ launches 0 ++
      [.call 0 (.round .deadline), .call 0 .ok, .finish 0] ++ opens 1 0 ++
      [.begin 0 (.start 1), .call 0 .ok, .call 0 .ok] ++ launches 0 ++
      [.call 0 (.round .deadline), .call 0 .ok, .finish 0] ++ serves 1 ++
      opens 2 1 ++ List.replicate 12 (.call 2 .ok) ++
      [.begin 0 (.start 1), .call 0 .ok, .call 0 .ok] ++ launches 0 ++ opens 3 2 ++ serves 3) =
      some g ∧ g.shared.Serving 0 ∧ g.shared.Serving 2 :=
  ⟨_, rfl, by decide, by decide⟩

theorem workers_not_alone :
    ¬ ∀ g : Config PortCall PortCall.Reply PortState (Except String Unit),
      portSystem.Reach (fun _ _ _ _ => True) {} g → g.shared.Sound := by
  intro h
  obtain ⟨g, hg, h0, h2⟩ := workers_overlap
  have hsound := h g (portSystem.reach_moves .start hg)
  exact absurd (hsound.alone 0 2 h0 h2) (by decide)

end Runs

end Maco.L2
