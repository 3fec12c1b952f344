import Maco.Engine.Grip

/-! Media that machines refer to exist.  Deleting a medium looks at one machine after the other while
it holds the media lock; the theorem says for runs of which restores every reference is to a medium
that is there. -/

namespace Maco.Engine

open Concurrent Prog

inductive MediaOp where
  | createVM (params : CreateVMParams)
  | updateMedia (ref : String) (settings : MediaSettings)
  | manageDisk (ref action : String) (params : DiskParams)
  | createMedia (name : String) (size : Int) (iso : Bool)
  | uploadImage (name : String)
  | deleteMedia (id : String)
  | backup (ref : String)
  | restore (ref timestamp : String) (asNew : Bool)
  | deleteVM (ref : String)

/-- The operation, in an operating-system process. -/
def mediaProgram (x : Texts) (e : Paths) : MediaOp → EngineM Unit
  | .createVM params => do
    let _ ← createVM x params
  | .updateMedia ref settings => updateMedia x e ref settings
  | .manageDisk ref action params => manageDisk x e ref action params
  | .createMedia name size iso => do
    let _ ← createMedia name size iso
  | .uploadImage name => do
    let _ ← uploadImage name
  | .deleteMedia id => deleteMedia x id
  | .backup ref => backupVM e ref
  | .restore ref timestamp asNew => do
    let _ ← restoreMachine x e ref timestamp asNew
  | .deleteVM ref => deleteVM e ref

/-- Any number of processes change machines and media. -/
def mediaSystem (x : Texts) (runDir : String → String) :
    System EngineCall EngineCall.Reply EngineChoice World (Nat × MediaOp) Empty
      (Except Message Unit) where
  perform := World.perform x
  code op := (mediaProgram x ⟨runDir, op.1⟩ op.2).run
  die i s := s.die i
  env e _ := nomatch e

/-- Every medium that a manifest refers to exists. -/
def World.RefsExist (s : World) : Prop :=
  ∀ id m, s.vms.get id = some m → ∀ r ∈ mediaRefs m, s.media.get r ≠ none

/-- A restore saves a manifest only while the media that it refers to exist, and while each process
that removes one of them has yet to look at the machine; and it takes a manifest back only while
nobody holds the lock of the machine. -/
def Careful (runDir : String → String) (i : Nat) (a : EngineCall) (c : EngineChoice) (s : World) :
    Prop :=
  Unattended runDir i a s ∧
  ∀ m, a = .vms (.save m) → c.saves m = true → s.doing i = .restoring → ∀ r ∈ mediaRefs m,
    s.media.get r ≠ none ∧ ∀ j todo, s.doing j = .erasing r todo → m.id ∈ todo

/-! ### What a process knows -/

/-- `clean` says that a process that removes a medium has found no reference to it so far. -/
structure MediaGrip where
  grip : Grip := {}
  clean : Bool := false

/-- The machines that refer to the medium are among the given ones. -/
def World.Awaits (s : World) (medium : String) (todo : List String) : Prop :=
  ∀ id m, s.vms.get id = some m → medium ∈ mediaRefs m → id ∈ todo

namespace MediaGrip

variable (runDir : String → String) (g : MediaGrip)

def cleanAfter : (a : EngineCall) → a.Reply → Bool
  | .vms .entries, .ok _ =>
    match g.grip.doing with
    | some (.looking _) => g.grip.media.isSome
    | _ => g.clean
  | .vms (.load _), .ok m =>
    match g.grip.doing with
    | some (.erasing medium _) => g.clean && decide (medium ∉ mediaRefs m)
    | _ => false
  | .vms (.load _), .error _ => false
  | .unlock .media, _ => false
  | _, _ => g.clean

def after (a : EngineCall) (r : a.Reply) : MediaGrip where
  grip := g.grip.after runDir a r
  clean := g.cleanAfter a r

/-- A reference of the machine that is known to lead somewhere. -/
def Covers (id r : String) : Prop :=
  (∃ m, g.grip.stored = some m ∧ m.id = id ∧ r ∈ mediaRefs m) ∨ ∃ l, g.grip.media = some l ∧ r ∈ l

/-- The process is known not to be removing a medium or leaving a machine. -/
def Calm : Prop :=
  ∃ d, g.grip.doing = some d ∧ (∀ medium todo, d ≠ .erasing medium todo) ∧ ∀ id, d ≠ .leaving id

def asks (a : EngineCall) : Prop :=
  g.grip.asks runDir a ∧
  match a with
  | .vms (.save m) =>
    g.Calm ∧ (g.grip.doing = some .restoring ∨ ∀ r ∈ mediaRefs m, g.Covers m.id r)
  | .step (.removeMedia id) => g.grip.doing = some (.erasing id []) ∧ g.clean = true
  | _ => True

structure Holds (i : Nat) (s : World) : Prop where
  grip : g.grip.Holds runDir i s
  clean : g.clean = true → ∀ medium todo, g.grip.doing = some (.erasing medium todo) →
    g.grip.media.isSome = true ∧ s.Awaits medium todo

end MediaGrip

/-- What is loaded is the manifest of the id. -/
def possible : (a : EngineCall) → a.Reply → Bool
  | .vms (.load id), .ok m => decide (m.id = id)
  | _, _ => true

/-- What calls teach a process of machines and media. -/
def mediaLearning (runDir : String → String) :
    Learning EngineCall EngineCall.Reply MediaGrip where
  asks := MediaGrip.asks runDir
  learns g a r := if possible a r then some (g.after runDir a r) else none

section Steps

variable {runDir : String → String} {s : World} {i j : Nat} {c : EngineChoice} {a : EngineCall}
  {x : Texts} {g h : MediaGrip}

theorem Activity.after_erasing {d : Activity} {r : a.Reply} {medium : String} {todo : List String}
    (h : d.after a r = .erasing medium todo) :
    d = .erasing medium todo ∨ a = .vms .entries ∨ ∃ id, a = .vms (.load id) := by
  have hgoes : ∀ ok, d.goesOn ok = .erasing medium todo → d = .erasing medium todo := by
    intro ok h
    unfold goesOn at h
    split at h
    · split at h <;> cases h
    · exact h
  unfold after at h
  split at h
  · cases h
  · exact .inr (.inl rfl)
  · exact .inr (.inr ⟨_, rfl⟩)
  · cases h
  · split at h
    · cases h
    · exact .inl h
  all_goals first | exact .inl h | exact .inl (hgoes _ h) | cases h

/-- A careful call keeps every reference on a medium that exists. -/
theorem World.RefsExist.after (hs : s.RefsExist) (hg : g.Holds runDir i s)
    (hask : g.asks runDir a) (hcareful : Careful runDir i a c s) :
    (s.after i c a).RefsExist := by
  intro id m hm r hr
  have hkept : s.media.get r ≠ none → (∀ medium, a ≠ .step (.removeMedia medium)) →
      (s.after i c a).media.get r ≠ none :=
    fun hexists hno => (World.media_after hexists).resolve_right (hno r)
  obtain hsame | ⟨m', rfl, rfl, hsaves, hsaved⟩ | ⟨rfl, -, hgone⟩ := s.vms_after i c a id
  · rw [hsame] at hm
    refine (World.media_after (hs id m hm r hr)).resolve_right ?_
    rintro rfl
    obtain ⟨-, hdoing, hclean⟩ := hask
    have := (hg.clean hclean r [] hdoing).2 id m hm hr
    cases this
  · rw [hsaved] at hm
    cases hm
    refine hkept ?_ nofun
    obtain ⟨-, hrestoring | hcovers⟩ := hask.2
    · exact (hcareful.2 m rfl hsaves (hg.grip.doing _ hrestoring) r hr).1
    · rcases hcovers r hr with ⟨m0, hm0, -, hr0⟩ | ⟨l, hl, hrl⟩
      · exact hs m0.id m0 (hg.grip.stored m0 hm0).1 r hr0
      · exact hg.grip.media l hl r hrl
  · rw [hgone] at hm
    cases hm

/-- A process that removes a medium need look at no more machines when another makes a careful call. -/
theorem World.Awaits.others {medium : String} {todo : List String} (hw : s.Awaits medium todo)
    (hdoing : s.doing j = .erasing medium todo) (hheld : s.locks .media ≠ some i)
    (hg : g.Holds runDir i s) (hask : g.asks runDir a) (hcareful : Careful runDir i a c s) :
    (s.after i c a).Awaits medium todo := by
  intro id m hm hr
  obtain hsame | ⟨m', rfl, rfl, hsaves, hsaved⟩ | ⟨rfl, -, hgone⟩ := s.vms_after i c a id
  · rw [hsame] at hm
    exact hw id m hm hr
  · rw [hsaved] at hm
    cases hm
    obtain ⟨-, hrestoring | hcovers⟩ := hask.2
    · exact (hcareful.2 m rfl hsaves (hg.grip.doing _ hrestoring) medium hr).2 j todo hdoing
    · rcases hcovers medium hr with ⟨m0, hm0, hid, hr0⟩ | ⟨l, hl, -⟩
      · rw [← hid]
        exact hw m0.id m0 (hg.grip.stored m0 hm0).1 hr0
      · exact absurd (hg.grip.held l hl) hheld
  · rw [hgone] at hm
    cases hm

theorem MediaGrip.Holds.others (hk : h.Holds runDir j s) (hj : j ≠ i) (hs : s.Keyed)
    (hg : g.Holds runDir i s) (hask : g.asks runDir a) (hcareful : Careful runDir i a c s)
    (ha : s.accepts i c x a = true) : h.Holds runDir j (s.after i c a) := by
  refine ⟨hk.grip.others hj hs hg.grip hask.1 hcareful.1 ha, fun hclean medium todo hdoing => ?_⟩
  obtain ⟨hmedia, hw⟩ := hk.clean hclean medium todo hdoing
  refine ⟨hmedia, hw.others (hk.grip.doing _ hdoing) ?_ hg hask hcareful⟩
  obtain ⟨l, hl⟩ := Option.isSome_iff_exists.mp hmedia
  rw [hk.grip.held l hl]
  exact fun h => hj (Option.some.inj h)

/-- The listing of the machines, of which none has been looked at. -/
theorem World.awaits_entries {medium : String} {ids : List String}
    (ha : s.accepts i c x (.vms .entries) = true) (hr : c.answer (.vms .entries) = .ok ids) :
    s.Awaits medium ids := by
  intro id m hm _
  have hids := of_decide_eq_true (granted_ok (x := ids) ha hr)
  rw [hids]
  exact List.mem_map.mpr ⟨(id, m), (Table.mem_sorted _ _).mpr (Table.mem_of_get hm), rfl⟩

/-- A machine that does not refer to the medium has been looked at. -/
theorem World.Awaits.looked {medium id : String} {m : VMManifest} {todo : List String}
    (hw : s.Awaits medium todo) (ha : s.accepts i c x (.vms (.load id)) = true)
    (hr : c.answer (.vms (.load id)) = .ok m) (hm : medium ∉ mediaRefs m) :
    s.Awaits medium (todo.filter (· ≠ id)) := by
  intro other m' hm' href
  obtain ⟨hget, -⟩ := of_decide_eq_true (granted_ok (x := m) ha hr)
  have hne : other ≠ id := by
    rintro rfl
    rw [hget] at hm'
    cases hm'
    exact hm href
  exact List.mem_filter.mpr ⟨hw other m' hm' href, by simpa using hne⟩

theorem MediaGrip.Holds.own (hg : g.Holds runDir i s) (hs : s.Keyed) (hask : g.asks runDir a)
    (ha : s.accepts i c x a = true) :
    (g.after runDir a (c.answer a)).Holds runDir i (s.after i c a) := by
  refine ⟨hg.grip.own hs hask.1 ha, fun hclean medium todo hdoing => ?_⟩
  change g.cleanAfter a (c.answer a) = true at hclean
  change g.grip.doingAfter a (c.answer a) = some _ at hdoing
  change (g.grip.mediaAfter a (c.answer a)).isSome = true ∧ _
  generalize hr : c.answer a = r at hclean hdoing ⊢
  obtain ⟨d, hd, hafter⟩ : ∃ d, g.grip.doing = some d ∧ d.after a r = .erasing medium todo := by
    unfold Grip.doingAfter at hdoing
    split at hdoing
    · rename_i d hd
      exact ⟨d, hd, Option.some.inj hdoing⟩
    · split at hdoing <;> cases hdoing
  by_cases hentries : a = .vms .entries
  · subst hentries
    cases r with
    | error e =>
      obtain rfl : d = .erasing medium todo := by
        cases d <;> exact hafter
      exact hg.clean hclean medium todo hd
    | ok ids =>
      simp only [cleanAfter, hd] at hclean
      cases d with
      | looking other =>
        cases hafter
        exact ⟨hclean, World.awaits_entries (s := s) ha hr⟩
      | erasing other todo' =>
        cases hafter
        exact hg.clean hclean _ _ hd
      | _ => cases hafter
  by_cases hload : ∃ id, a = .vms (.load id)
  · obtain ⟨id, rfl⟩ := hload
    cases r with
    | error e => cases hclean
    | ok m =>
      simp only [cleanAfter, hd] at hclean
      cases d with
      | erasing other todo' =>
        cases hafter
        simp only [Bool.and_eq_true, decide_eq_true_eq] at hclean
        obtain ⟨hmedia, hw⟩ := hg.clean hclean.1 _ _ hd
        exact ⟨hmedia, hw.looked ha hr hclean.2⟩
      | _ => cases hafter
  obtain rfl := (Activity.after_erasing hafter).resolve_right fun h => h.elim hentries hload
  have hunlock : a ≠ .unlock .media := by
    rintro rfl
    cases hclean
  have hkept : g.clean = true := by
    unfold cleanAfter at hclean
    split at hclean
    · exact absurd rfl hentries
    · exact absurd ⟨_, rfl⟩ hload
    · exact absurd ⟨_, rfl⟩ hload
    · exact absurd rfl hunlock
    · exact hclean
  obtain ⟨hmedia, hw⟩ := hg.clean hkept medium todo hd
  refine ⟨?_, fun id m hm href => ?_⟩
  · unfold Grip.mediaAfter
    split
    · rfl
    · exact absurd rfl hunlock
    · simpa using hmedia
    · simpa using hmedia
    · exact hmedia
  · obtain hsame | ⟨m', rfl, rfl, -, -⟩ | ⟨rfl, -, hgone⟩ := s.vms_after i c a id
    · rw [hsame] at hm
      exact hw id m hm href
    · obtain ⟨d, hd', hcalm, -⟩ := hask.2.1
      rw [hd] at hd'
      cases hd'
      exact absurd rfl (hcalm medium todo)
    · rw [hgone] at hm
      cases hm

theorem possible_of_accepts (ha : s.accepts i c x a = true) : possible a (c.answer a) = true := by
  generalize hr : c.answer a = r
  unfold possible
  split
  · rename_i id m
    exact decide_eq_true (of_decide_eq_true (granted_ok (x := m) ha hr)).2
  · rfl

end Steps

/-! ### The operations -/

section Operations

variable {runDir : String → String} {g : MediaGrip} {a : EngineCall} {α β : Type} {x : Texts}

/-- The program makes only calls that it may make, whatever it knows at the end. -/
abbrev Safe (runDir : String → String) (p : EngineM α) (g : MediaGrip) : Prop :=
  Leads (mediaLearning runDir) p (fun _ => True) (fun _ _ => True) g

theorem tracks_call {Q : a.Reply → MediaGrip → Prop} (ha : g.asks runDir a)
    (hQ : ∀ r, possible a r = true → Q r (g.after runDir a r)) :
    (engineCall a).Tracks (mediaLearning runDir) Q g := by
  refine ⟨ha, fun r g' hg' => ?_⟩
  simp only [mediaLearning] at hg'
  split at hg'
  · rename_i hpossible
    cases hg'
    exact hQ r hpossible
  · cases hg'

theorem asks_harmless (ha : harmless a) : g.asks runDir a := by
  cases a with
  | vms sc => cases sc <;> first | exact ⟨trivial, trivial⟩ | exact ha.elim
  | step st => cases st <;> first | exact ⟨trivial, trivial⟩ | exact ha.elim
  | nets nc => cases nc <;> first | exact ⟨trivial, trivial⟩ | exact ha.elim
  | _ => exact ⟨trivial, trivial⟩

theorem safe_harmless {p : EngineM α} (h : p.run.Calls harmless) : Safe runDir p g :=
  .of_admitted h fun _ _ => asks_harmless

/-- Nothing is learnt from a neutral call. -/
theorem learns_neutral {r : a.Reply} {g' : MediaGrip} (ha : Grip.neutral a)
    (hd : ∀ id, g.grip.doing ≠ some (.leaving id))
    (hg' : (mediaLearning runDir).learns g a r = some g') : g' = g := by
  simp only [mediaLearning] at hg'
  split at hg'
  · cases hg'
    obtain ⟨grip, clean⟩ := g
    simp only [MediaGrip.after, Grip.after_neutral ha hd]
    cases a with
    | vms sc => cases sc <;> first | rfl | exact ha.elim
    | _ => first | rfl | exact ha.elim
  · cases hg'

theorem leads_neutral {p : EngineM α} (h : p.run.Calls Grip.neutral)
    (hd : ∀ id, g.grip.doing ≠ some (.leaving id)) :
    Leads (mediaLearning runDir) p (fun _ => True) (fun _ g' => g' = g) g :=
  .of_calls h (fun _ ha => ⟨asks_harmless (harmless_of_neutral ha), fun _ _ => learns_neutral ha hd⟩)
    trivial fun _ => rfl

theorem safe_locked {l : LockName} {body : EngineM α}
    (h : Safe runDir body (g.after runDir (.lock l) (.ok ()))) : Safe runDir (locked l body) g := by
  refine leads_locked (F := fun _ => True) (B := fun _ _ => True) (asks_harmless trivial)
    (fun _ _ _ => trivial) (fun g' hg' => ?_)
    (fun _ _ => ⟨asks_harmless trivial, fun _ _ => trivial⟩)
    (fun _ _ _ => ⟨asks_harmless trivial, fun _ _ => trivial⟩)
  cases hg'
  exact h

/-! #### Calls under locks -/

/-- The calls that leave a process with the machine that it holds. -/
def gentle : EngineCall → Prop
  | .newString | .lock .media | .getMedia _ => True
  | _ => False

theorem MediaGrip.Calm.doing_ne (hg : g.Calm) (id : String) :
    g.grip.doing ≠ some (.leaving id) := by
  obtain ⟨d, hd, -, hleaving⟩ := hg
  rw [hd]
  exact fun h => hleaving id (Option.some.inj h)

theorem MediaGrip.Calm.gentle (hg : g.Calm) (ha : gentle a) (r : a.Reply) :
    (g.after runDir a r).Calm := by
  obtain ⟨d, hd, herasing, hleaving⟩ := hg
  have hdoing : (g.after runDir a r).grip.doing = some (d.after a r) := by
    simp only [MediaGrip.after, Grip.after, Grip.doingAfter, hd]
  refine ⟨_, hdoing, ?_⟩
  cases a with
  | newString => exact ⟨herasing, hleaving⟩
  | lock l =>
    cases l with
    | media => exact ⟨nofun, nofun⟩
    | _ => exact ha.elim
  | getMedia id => exact ⟨nofun, nofun⟩
  | _ => exact ha.elim

/-- The process holds the lock of the machine, whose stored manifest refers to the same media. -/
structure MediaGrip.Has (runDir : String → String) (m : VMManifest) (g : MediaGrip) : Prop where
  locked : g.grip.Locked runDir m.id
  stored : ∃ m0, g.grip.stored = some m0 ∧ m0.id = m.id ∧ mediaRefs m0 = mediaRefs m
  calm : g.Calm

theorem MediaGrip.Has.gentle {m : VMManifest} (hg : g.Has runDir m) (ha : gentle a) (r : a.Reply) :
    (g.after runDir a r).Has runDir m := by
  refine ⟨?_, ?_, hg.calm.gentle ha r⟩
  · cases a with
    | newString | getMedia id => exact hg.locked
    | lock l =>
      cases l with
      | media => exact hg.locked
      | _ => exact ha.elim
    | _ => exact ha.elim
  · cases a with
    | newString | getMedia id => exact hg.stored
    | lock l =>
      cases l with
      | media => exact hg.stored
      | _ => exact ha.elim
    | _ => exact ha.elim

/-- A save of a manifest that refers to the same media. -/
theorem leads_saveSame {m m' : VMManifest} (hg : g.Has runDir m) (hid : m'.id = m.id)
    (hrefs : mediaRefs m' = mediaRefs m) :
    Leads (mediaLearning runDir) (save m') (fun _ => True) (fun _ g' => g'.Has runDir m') g := by
  have hcovers : ∀ r ∈ mediaRefs m', g.Covers m'.id r := by
    intro r hr
    obtain ⟨m0, hm0, hid0, hrefs0⟩ := hg.stored
    exact .inl ⟨m0, hm0, hid0.trans hid.symm, by rw [hrefs0, ← hrefs]; exact hr⟩
  have hlocked : g.grip.Locked runDir m'.id := hid ▸ hg.locked
  refine leads_save ⟨.inl hlocked, hg.calm, .inr hcovers⟩ (fun _ _ _ => trivial) fun g' hg' => ?_
  cases hg'
  refine ⟨hlocked, ⟨m', if_pos hlocked.2, rfl, rfl⟩, ?_⟩
  obtain ⟨d, hd, hcalm⟩ := hg.calm
  exact ⟨d, by simp [MediaGrip.after, Grip.after, Grip.doingAfter, hd, Activity.after], hcalm⟩

/-- The manifest that is loaded under the lock. -/
theorem leads_loadLocked {id : String} (hlocked : g.grip.Locked runDir id) (hcalm : g.Calm) :
    Leads (mediaLearning runDir) (loadVM id) (fun _ => True)
      (fun m g' => m.id = id ∧ g'.Has runDir m) g := by
  refine ⟨asks_harmless trivial, fun r g' hg' => ?_⟩
  cases r with
  | error e => exact trivial
  | ok m =>
    simp only [mediaLearning, possible, decide_eq_true_eq] at hg'
    split at hg'
    · rename_i hid
      cases hg'
      subst hid
      obtain ⟨d, hd, herasing, hleaving⟩ := hcalm
      have hsame : d.after (.vms (.load m.id)) (.ok m) = d := by
        cases d with
        | erasing medium todo => exact absurd rfl (herasing medium todo)
        | _ => rfl
      refine ⟨rfl, hlocked, ⟨m, if_pos hlocked.2, rfl, rfl⟩, d, ?_, herasing, hleaving⟩
      simp only [MediaGrip.after, Grip.after, Grip.doingAfter, hd, hsame]
    · cases hg'

/-- A reference is resolved and the machine is locked. -/
theorem safe_resolved {ref : String} {f : VMManifest → EngineM α}
    (h : ∀ m g', g'.grip.id = some m.id → g'.grip.doing = some .idle → Safe runDir (f m) g') :
    Safe runDir (resolveVM ref >>= f) g := by
  refine .bind (P := fun m g' => g'.grip.id = some m.id ∧ g'.grip.doing = some .idle)
    (leads_resolveVM (asks_harmless trivial) (fun _ _ _ => trivial) fun m g' hg' => ?_)
    fun m g' hg' => h m g' hg'.1 hg'.2
  cases hg'
  refine ⟨rfl, ?_⟩
  change g.grip.doingAfter _ _ = _
  unfold Grip.doingAfter
  split <;> rfl

theorem safe_lockedVM {e : Paths} {id : String} {body : EngineM α} (he : e.runDir = runDir)
    (hid : g.grip.id = some id) (hdoing : g.grip.doing = some .idle)
    (h : ∀ g', g'.grip.Locked runDir id → g'.Calm → Safe runDir body g') :
    Safe runDir (lockedVM e id body) g := by
  subst he
  refine safe_locked (h _ ⟨hid, rfl⟩ ⟨.idle, ?_, nofun, nofun⟩)
  simp [MediaGrip.after, Grip.after, Grip.doingAfter, hdoing, Activity.after, Activity.goesOn]

/-! #### Disks -/

theorem neutral_resizeDisk {e : Paths} {id disk : String} {size : Int} :
    (resizeDisk e id disk size).run.Calls Grip.neutral :=
  .andThen neutral_isRunning fun _ => calls_demand (.request trivial)

theorem harmless_ignore {st : Step} (h : harmless (.step st)) :
    (ignore st).run.Calls harmless :=
  .andThen (calls_query (.request h)) fun _ => .pure _

theorem safe_fail {e : Message} : Safe runDir (fail e : EngineM α) g := leads_fail trivial

/-- A save whose outcome is looked at. -/
theorem leads_trySave {m m' : VMManifest} (hg : g.Has runDir m) (hid : m'.id = m.id)
    (hrefs : mediaRefs m' = mediaRefs m) :
    Leads (mediaLearning runDir) (query (save m').run) (fun _ => True)
      (fun r g' => ∀ u, r = .ok u → g'.Has runDir m') g := by
  refine (leads_query (leads_saveSame hg hid hrefs).outcome).mono (fun _ h => h) ?_
  rintro r g' (⟨u, rfl, hg'⟩ | ⟨⟨e, rfl⟩, -⟩) v hv
  · exact hg'
  · cases hv

theorem safe_undoDisk {m m' : VMManifest} {disk : String} {e : DiskError} (hg : g.Has runDir m')
    (hid : m.id = m'.id) (hrefs : mediaRefs m = mediaRefs m') :
    Safe runDir (undoDisk m disk e) g := by
  refine .bind (leads_trySave hg hid hrefs) fun r g' _ => ?_
  cases r with
  | error err => exact safe_fail
  | ok u =>
    refine .bind (P := fun _ _ => True) (leads_onlyThen (fun _ => ?_) fun _ => trivial)
      fun _ _ _ => safe_fail
    exact safe_harmless (harmless_ignore trivial)

theorem safe_addDiskFrom {e : Paths} {m : VMManifest} {base : Option String} {params : DiskParams}
    {id : String} (hg : g.Has runDir m) : Safe runDir (addDiskFrom e m base params id) g := by
  refine .bind (leads_neutral (calls_query (.request trivial)) hg.calm.doing_ne) ?_
  rintro r _ rfl
  cases r with
  | error err =>
    refine .bind (safe_harmless (harmless_ignore trivial)) fun _ _ _ => safe_fail
  | ok u =>
    refine .bind (leads_trySave hg rfl rfl) fun r g' hg' => ?_
    cases r with
    | error err =>
      exact .bind (safe_harmless (harmless_ignore trivial)) fun _ _ _ => safe_fail
    | ok u =>
      have hg' := hg' u rfl
      refine .bind (leads_neutral neutral_isRunning hg'.calm.doing_ne) ?_
      rintro running _ rfl
      refine .ite (fun _ => ?_) fun _ => .pure trivial
      refine .bind (leads_neutral (calls_query (.request trivial)) hg'.calm.doing_ne) ?_
      rintro r _ rfl
      cases r with
      | error err => exact safe_undoDisk hg' rfl rfl
      | ok u => exact .pure trivial

/-- A step that keeps what is known, with the answer. -/
theorem leads_gentle {P : MediaGrip → Prop} (hP : ∀ r, P (g.after runDir a r)) (ha : gentle a) :
    Leads (mediaLearning runDir) (query (engineCall a)) (fun _ => True) (fun _ g' => P g') g := by
  have harm : harmless a := by
    cases a <;> trivial
  exact leads_query (tracks_call (asks_harmless harm) fun r _ => hP r)

/-- Under the media lock, the process knows that these media exist. -/
def MediaGrip.Minds (known : List String) (g : MediaGrip) : Prop :=
  ∃ l, g.grip.media = some l ∧ ∀ r ∈ known, r ∈ l

/-- A medium that has been read under the media lock is known to exist. -/
theorem leads_getMedia {P : MediaGrip → Prop} {id : String} {known : List String}
    (hP : ∀ g r, P g → P (g.after runDir (.getMedia id) r)) (hg : P g) (hknown : g.Minds known) :
    Leads (mediaLearning runDir) (getMedia x id) (fun _ => True)
      (fun _ g' => P g' ∧ g'.Minds (id :: known)) g := by
  unfold getMedia
  cases x.uuid id with
  | error e => exact leads_fail trivial
  | ok u =>
    refine ⟨asks_harmless trivial, fun r g' hg' => ?_⟩
    cases hg'
    cases r with
    | error e => exact trivial
    | ok m =>
      obtain ⟨l, hl, hmem⟩ := hknown
      refine ⟨hP g _ hg, id :: l, ?_, ?_⟩
      · change g.grip.media.map (id :: ·) = _
        rw [hl]
        rfl
      · intro r hr
        rcases List.mem_cons.mp hr with rfl | hr
        · exact List.mem_cons_self
        · exact List.mem_cons_of_mem _ (hmem r hr)

theorem safe_addDataDisk {e : Paths} {m : VMManifest} {params : DiskParams}
    (hg : g.Has runDir m) : Safe runDir (addDataDisk x e m params) g := by
  refine .bind (leads_ensureThat (Q := fun _ g' => g'.Has runDir m) (fun _ => trivial)
    fun _ => hg) fun _ g1 hg1 => ?_
  refine .bind (leads_gentle (P := fun g' => g'.Has runDir m)
    (fun r => hg1.gentle (a := .newString) trivial r) trivial) fun id g2 hg2 => ?_
  refine .ite (fun _ => safe_addDiskFrom hg2) fun _ => safe_locked ?_
  have hminds : (g2.after runDir (.lock .media) (.ok ())).Minds [] := ⟨[], rfl, nofun⟩
  refine .bind (leads_getMedia (P := fun g' => g'.Has runDir m)
    (fun g r h => h.gentle (a := .getMedia _) trivial r) (hg2.gentle (a := .lock .media) trivial _)
    hminds) fun media g3 hg3 => ?_
  exact .bind (leads_ensureThat (Q := fun _ g' => g'.Has runDir m) (fun _ => trivial)
    fun _ => hg3.1) fun _ g4 hg4 => safe_addDiskFrom hg4

theorem safe_growDisk {e : Paths} {m : VMManifest} {disk : VMDisk} {size : Int}
    (hg : g.Has runDir m) : Safe runDir (growDisk e m disk size) g := by
  refine .bind (leads_ensureThat (Q := fun _ g' => g'.Has runDir m) (fun _ => trivial)
    fun _ => hg) fun _ g1 hg1 => ?_
  refine .bind (leads_neutral neutral_resizeDisk hg1.calm.doing_ne) ?_
  rintro _ _ rfl
  exact Leads.mono (leads_saveSame hg1 rfl rfl) (fun _ h => h) fun _ _ _ => trivial

theorem safe_removeDataDisk {e : Paths} {m : VMManifest} {disk : VMDisk} (hg : g.Has runDir m) :
    Safe runDir (removeDataDisk e m disk) g := by
  refine .bind (leads_neutral neutral_isRunning hg.calm.doing_ne) ?_
  rintro running _ rfl
  refine .bind (leads_ensureThat (Q := fun _ g' => g'.Has runDir m) (fun _ => trivial)
    fun _ => hg) fun _ g1 hg1 => ?_
  refine .bind (leads_neutral (calls_demand (.request trivial)) hg1.calm.doing_ne) ?_
  rintro _ _ rfl
  refine .bind (leads_trySave hg1 rfl rfl) fun r g' _ => ?_
  cases r with
  | ok u => exact safe_harmless (calls_demand (.request trivial))
  | error err =>
    refine safe_harmless (.andThen (calls_query (.request trivial)) fun r => ?_)
    cases r with
    | error e => exact calls_fail
    | ok u => exact calls_fail

theorem safe_manageDisk {e : Paths} {ref action : String} {params : DiskParams}
    (he : e.runDir = runDir) : Safe runDir (manageDisk x e ref action params) g := by
  refine safe_resolved fun m g1 hid hdoing => ?_
  refine safe_lockedVM he hid hdoing fun g2 hlocked hcalm => ?_
  refine .bind (leads_loadLocked hlocked hcalm) fun m g3 hg3 => ?_
  refine .ite (fun _ => safe_addDataDisk hg3.2) fun _ => ?_
  split
  · exact safe_fail
  · split
    · exact safe_fail
    · refine .ite (fun _ => safe_growDisk hg3.2) fun _ => ?_
      exact .ite (fun _ => safe_removeDataDisk hg3.2) fun _ => safe_fail

/-! #### Machines -/

/-- The medium that an image refers to. -/
def imageRefs (image : String) : List String :=
  if "media:".toList.isPrefixOf image.toList then
    [String.ofList (image.toList.drop "media:".length)]
  else []

theorem mediaRefs_eq (m : VMManifest) : mediaRefs m = imageRefs m.image ++ m.isos := by
  unfold mediaRefs imageRefs
  split <;> rfl

theorem leads_validateISOs {P : MediaGrip → Prop} {isos seen known : List String}
    (hP : ∀ g id r, P g → P (g.after runDir (.getMedia id) r)) (hg : P g) (hknown : g.Minds known) :
    Leads (mediaLearning runDir) (validateISOs x isos seen) (fun _ => True)
      (fun _ g' => P g' ∧ g'.Minds (known ++ isos)) g := by
  induction isos generalizing seen known g with
  | nil =>
    refine .pure ⟨hg, ?_⟩
    rw [List.append_nil]
    exact hknown
  | cons id isos ih =>
    refine .bind (leads_getMedia (fun g r => hP g id r) hg hknown) fun m g1 ⟨hg1, hknown1⟩ => ?_
    refine .bind (leads_ensureThat (Q := fun _ g' => g' = g1) (fun _ => trivial) fun _ => rfl) ?_
    rintro _ _ rfl
    refine (ih hg1 hknown1).mono (fun _ h => h) fun _ g' ⟨hg', l, hl, hmem⟩ => ⟨hg', l, hl, ?_⟩
    intro r hr
    apply hmem
    simp only [List.mem_append, List.mem_cons] at hr ⊢
    tauto

theorem leads_validateMedia {P : MediaGrip → Prop} {isos order known : List String}
    {disks : List VMDisk} (hP : ∀ g id r, P g → P (g.after runDir (.getMedia id) r)) (hg : P g)
    (hknown : g.Minds known) :
    Leads (mediaLearning runDir) (validateMedia x isos order disks) (fun _ => True)
      (fun _ g' => P g' ∧ g'.Minds (known ++ isos)) g :=
  .bind (leads_validateISOs hP hg hknown) fun _ _ hg1 =>
    leads_ensureThat (fun _ => trivial) fun _ => hg1

theorem safe_updateMedia {e : Paths} {ref : String} {settings : MediaSettings}
    (he : e.runDir = runDir) : Safe runDir (updateMedia x e ref settings) g := by
  refine safe_resolved fun m g1 hid hdoing => ?_
  refine safe_lockedVM he hid hdoing fun g2 hlocked hcalm => ?_
  refine .bind (leads_neutral neutral_isRunning hcalm.doing_ne) ?_
  rintro running g2 rfl
  refine .bind (leads_ensureThat (Q := fun _ g' => g' = g2) (fun _ => trivial) fun _ => rfl) ?_
  rintro _ _ rfl
  refine .bind (leads_loadLocked hlocked hcalm) fun m g3 ⟨_, hg3⟩ => safe_locked ?_
  have hminds : (g3.after runDir (.lock .media) (.ok ())).Minds [] := ⟨[], rfl, nofun⟩
  refine .bind (leads_validateMedia (P := fun g' => g'.Has runDir m)
    (fun g id r h => h.gentle (a := .getMedia id) trivial r)
    (hg3.gentle (a := .lock .media) trivial _) hminds) fun _ g4 ⟨hg4, l, hl, hmem⟩ => ?_
  refine leads_save ⟨.inl hg4.locked, hg4.calm, .inr fun r hr => ?_⟩ (fun _ _ _ => trivial)
    fun _ _ => trivial
  rw [mediaRefs_eq, List.mem_append] at hr
  rcases hr with hr | hr
  · obtain ⟨m0, hm0, hid0, hrefs⟩ := hg4.stored
    refine .inl ⟨m0, hm0, hid0, ?_⟩
    rw [hrefs, mediaRefs_eq, List.mem_append]
    exact .inl hr
  · exact .inr ⟨l, hl, hmem r hr⟩

theorem calm_getMedia (g : MediaGrip) (id : String) (r : (EngineCall.getMedia id).Reply)
    (hg : g.Calm) : (g.after runDir (.getMedia id) r).Calm :=
  hg.gentle (a := .getMedia id) trivial r

theorem leads_imageBase {ref : String} {pull : Bool} (hg : g.Calm) (hknown : g.Minds []) :
    Leads (mediaLearning runDir) (imageBase x ref pull) (fun _ => True)
      (fun _ g' => g'.Calm ∧ g'.Minds (imageRefs ref)) g := by
  unfold imageBase imageRefs
  split
  · refine .bind (leads_getMedia (fun g r => calm_getMedia g _ r) hg hknown) fun m g1 hg1 => ?_
    refine .bind (leads_ensureThat (Q := fun _ g' => g' = g1) (fun _ => trivial) fun _ => rfl) ?_
    rintro _ g1 rfl
    exact .pure hg1
  · refine .bind (leads_neutral (calls_demand (.request trivial)) hg.doing_ne) ?_
    rintro _ g rfl
    refine .ite (fun _ => ?_) fun _ => .pure ⟨hg, hknown⟩
    refine .bind (leads_neutral (calls_demand (.request trivial)) hg.doing_ne) ?_
    rintro _ g rfl
    exact .pure ⟨hg, hknown⟩

theorem safe_createVM {params : CreateVMParams} : Safe runDir (createVM x params) g := by
  refine .bind (safe_harmless calls_ensureThat) fun _ g1 _ => ?_
  refine .bind (safe_harmless (.forM fun _ _ => calls_ensureThat)) fun _ g2 _ => ?_
  refine .bind (safe_harmless calls_ensureThat) fun _ g3 _ => safe_locked ?_
  -- the media lock is held and the process is doing nothing else
  have hcalm : (g3.after runDir (.lock .media) (.ok ())).Calm := by
    refine ⟨.idle, ?_, nofun, nofun⟩
    change g3.grip.doingAfter _ _ = _
    unfold Grip.doingAfter
    split <;> rfl
  refine .bind (P := fun _ g' => g'.Calm ∧ g'.Minds (imageRefs params.image)) ?_
    fun _ g4 ⟨hcalm4, hminds4⟩ => ?_
  · refine leads_onlyThen (fun _ => ?_) fun himage => ⟨hcalm, [], rfl, ?_⟩
    · exact .bind (leads_imageBase hcalm ⟨[], rfl, nofun⟩) fun _ _ hg => .pure hg
    · rw [of_not_not (of_decide_eq_false himage)]
      decide
  refine .bind (leads_neutral neutral_networkRef hcalm4.doing_ne) ?_
  rintro network g4 rfl
  refine .bind (leads_validateMedia calm_getMedia hcalm4 hminds4)
    fun _ g5 ⟨hcalm5, l, hl, hmem⟩ => ?_
  refine .bind (P := fun id g' => g'.Calm ∧ g'.grip.fresh = some id ∧ g'.grip.media = some l)
    (leads_query (tracks_call (asks_harmless trivial) fun id _ =>
      ⟨hcalm5.gentle (a := .newString) trivial id, rfl, hl⟩))
    fun id g6 ⟨hcalm6, hfresh, hmedia⟩ => ?_
  refine .bind (P := fun _ _ => True) (leads_save ⟨.inr hfresh, hcalm6, .inr fun r hr => ?_⟩
    (fun _ _ _ => trivial) fun _ _ => trivial) fun _ _ _ => .pure trivial
  rw [mediaRefs_eq] at hr
  exact .inr ⟨l, hmedia, hmem r hr⟩

theorem safe_deleteVM {e : Paths} {ref : String} (he : e.runDir = runDir) :
    Safe runDir (deleteVM e ref) g := by
  refine safe_resolved fun m g1 hid hdoing => ?_
  refine safe_lockedVM he hid hdoing fun g2 hlocked hcalm => ?_
  refine .bind (leads_loadLocked hlocked hcalm) fun m g3 ⟨_, hg3⟩ => ?_
  refine .bind (leads_neutral neutral_isRunning hg3.calm.doing_ne) ?_
  rintro running g3 rfl
  refine .bind (leads_ensureThat (Q := fun _ g' => g' = g3) (fun _ => trivial) fun _ => rfl) ?_
  rintro _ g3 rfl
  refine .bind (leads_neutral (calls_demand (.request trivial)) hg3.calm.doing_ne) ?_
  rintro _ g3 rfl
  refine .bind (leads_neutral (calls_demand (.request trivial)) hg3.calm.doing_ne) ?_
  rintro _ g3 rfl
  refine .bind (P := fun _ _ => True) ?_ fun _ g4 _ => safe_harmless ?_
  · refine ⟨⟨.inl hg3.locked, trivial⟩, fun r g' _ => ?_⟩
    cases r with
    | error err => exact trivial
    | ok u => exact trivial
  · refine .andThen (calls_openDB ⟨trivial, trivial⟩ ⟨trivial, trivial⟩ trivial trivial) fun _ => ?_
    exact .andThen (calls_demand (.request trivial)) fun _ => calls_demand (.request trivial)

/-! #### Restores -/

/-- The process restores the machine that it holds. -/
def MediaGrip.Restores (runDir : String → String) (id : String) (g : MediaGrip) : Prop :=
  g.grip.Locked runDir id ∧ g.grip.doing = some .restoring

theorem tracks_replaces {id : String} {p : Restore α} (h : p.Calls (replaces id))
    (hg : g.Restores runDir id) :
    (p.lift ofRestore fromRestore).Tracks (mediaLearning runDir)
      (fun _ g' => g'.Restores runDir id) g := by
  induction p generalizing g with
  | ret v => exact hg
  | call c next ih =>
    obtain ⟨hc, hnext⟩ := h
    by_cases hsave : ∃ m, c = .save m
    · obtain ⟨m, rfl⟩ := hsave
      obtain rfl : m.id = id := hc
      have hcalm : g.Calm := ⟨.restoring, hg.2, nofun, nofun⟩
      refine ⟨⟨.inl hg.1, hcalm, .inl hg.2⟩, fun r g' hg' => ih _ (hnext _) ?_⟩
      cases hg'
      refine ⟨hg.1, ?_⟩
      change g.grip.doingAfter _ _ = _
      rw [Grip.doingAfter, hg.2]
      rfl
    · have hneutral : Grip.neutral (ofRestore c) := by
        cases c with
        | save m => exact absurd ⟨m, rfl⟩ hsave
        | readDir id timestamp => exact hc.elim
        | _ => trivial
      refine ⟨asks_harmless (harmless_of_neutral hneutral), fun r g' hg' => ih _ (hnext _) ?_⟩
      obtain rfl := learns_neutral hneutral (fun id h => by rw [hg.2] at h; cases h) hg'
      exact hg

theorem MediaGrip.Restores.calm {id : String} (hg : g.Restores runDir id) : g.Calm :=
  ⟨.restoring, hg.2, nofun, nofun⟩

theorem harmless_restoreStep {c : RestoreCall} (h : harmless (ofRestore c)) :
    (restoreStep c).Calls harmless := ⟨h, fun _ => trivial⟩

theorem safe_replaceVM {e : Paths} {id timestamp : String} {restored : VMManifest}
    {disks : List String} (he : e.runDir = runDir) (hid : g.grip.id = some id)
    (hdoing : g.grip.doing = some .restoring) :
    Safe runDir (replaceVM x e id timestamp restored disks) g := by
  subst he
  have hg : (g.after e.runDir (.lock (.vm (e.runDir id))) (.ok ())).Restores e.runDir id := by
    refine ⟨⟨hid, rfl⟩, ?_⟩
    simp [MediaGrip.after, Grip.after, Grip.doingAfter, hdoing, Activity.after, Activity.goesOn]
  refine safe_locked (.bind (leads_neutral neutral_isRunning hg.calm.doing_ne) ?_)
  rintro running _ rfl
  refine .bind (leads_ensureThat (Q := fun _ g' => g' = _) (fun _ => trivial) fun _ => rfl) ?_
  rintro _ _ rfl
  refine .bind (leads_neutral (calls_demand (neutral_restoreStep trivial)) hg.calm.doing_ne) ?_
  rintro _ _ rfl
  refine .bind (leads_query (tracks_replaces calls_replaceDisks hg)) fun result g2 _ => ?_
  exact safe_harmless (.andThen (calls_query (harmless_restoreStep trivial)) fun _ =>
    .andThen (.pure _) fun _ => .pure _)

theorem safe_restoreCopy {id timestamp : String} {restored : VMManifest} {disks : List String}
    (hdoing : g.grip.doing = some .restoring) :
    Safe runDir (restoreCopy x id timestamp restored disks) g := by
  refine .bind (P := fun fresh g' => g'.grip.fresh = some fresh ∧ g'.grip.doing = some .restoring)
    (leads_query (tracks_call (asks_harmless trivial) fun fresh _ => ⟨rfl, ?_⟩))
    fun fresh g1 ⟨hfresh, hdoing1⟩ => ?_
  · change g.grip.doingAfter _ _ = _
    rw [Grip.doingAfter, hdoing]
    rfl
  have hcalm : g1.Calm := ⟨.restoring, hdoing1, nofun, nofun⟩
  refine .bind (leads_neutral (calls_query (.request trivial)) hcalm.doing_ne) ?_
  rintro name g1 rfl
  refine .bind (leads_neutral (calls_demand (neutral_restoreStep trivial)) hcalm.doing_ne) ?_
  rintro _ g1 rfl
  refine .bind (leads_neutral (calls_query (.lift (calls_copyDisks fun _ => trivial)))
    hcalm.doing_ne) ?_
  rintro copied g1 rfl
  cases copied with
  | error err =>
    exact safe_harmless (.andThen (calls_query (harmless_restoreStep trivial)) fun _ => calls_fail)
  | ok u =>
    refine .bind (P := fun _ g' => g'.grip.doing = some .restoring)
      (leads_query (tracks_save (K := mediaLearning runDir) ⟨.inr hfresh, hcalm, .inl hdoing1⟩ fun r g' hg' => ?_)) ?_
    · cases hg'
      change g1.grip.doingAfter _ _ = _
      rw [Grip.doingAfter, hdoing1]
      rfl
    intro saved g2 hdoing2
    cases saved with
    | error err =>
      exact safe_harmless (.andThen (calls_query (harmless_restoreStep trivial)) fun _ => calls_fail)
    | ok u =>
      have hcalm2 : g2.Calm := ⟨.restoring, hdoing2, nofun, nofun⟩
      refine .bind (leads_neutral (calls_query (neutral_restoreStep trivial)) hcalm2.doing_ne) ?_
      rintro renamed g2 rfl
      cases renamed with
      | ok u => exact .pure trivial
      | error err =>
        refine .bind (P := fun _ _ => True)
          (leads_query (tracks_call ⟨.inr hdoing2, trivial⟩ fun _ _ => trivial)) fun _ g3 _ => ?_
        exact safe_harmless (.andThen (calls_query (harmless_restoreStep trivial)) fun _ =>
          calls_fail)

theorem safe_restoreMachine {e : Paths} {ref timestamp : String} {asNew : Bool}
    (he : e.runDir = runDir) : Safe runDir (restoreMachine x e ref timestamp asNew) g := by
  refine .bind (safe_harmless calls_ensureThat) fun _ g1 _ => safe_resolved fun m g2 hid hidle => ?_
  refine .bind (P := fun _ g' => g'.grip.id = some m.id ∧ g'.grip.doing = some .restoring) ?_ ?_
  · refine ⟨asks_harmless trivial, fun r g' hg' => ?_⟩
    cases hg'
    have hdoing : g2.grip.doingAfter (.restore (.readDir m.id timestamp)) r = some .restoring := by
      simp only [Grip.doingAfter, hidle]
      rfl
    cases r with
    | error e => exact trivial
    | ok names => exact ⟨hid, hdoing⟩
  rintro names g3 ⟨hid3, hdoing3⟩
  have hcalm : g3.Calm := ⟨.restoring, hdoing3, nofun, nofun⟩
  cases names with
  | none => exact safe_fail
  | some names =>
    refine .bind (leads_ensureThat (Q := fun _ g' => g' = g3) (fun _ => trivial) fun _ => rfl) ?_
    rintro _ g3 rfl
    refine .bind (leads_neutral (calls_demand (neutral_restoreStep trivial)) hcalm.doing_ne) ?_
    rintro data g3 rfl
    cases x.manifest.parse data with
    | error err => exact safe_fail
    | ok restored =>
      exact .ite (fun _ => safe_restoreCopy hdoing3) fun _ => safe_replaceVM he hid3 hdoing3

/-! #### Media -/

/-- The process removes the medium, and has yet to look at the machines. -/
structure MediaGrip.Erases (medium : String) (todo : List String) (g : MediaGrip) : Prop where
  media : g.grip.media.isSome = true
  doing : g.grip.doing = some (.erasing medium todo)

theorem MediaGrip.Erases.doing_ne {medium : String} {todo : List String}
    (hg : g.Erases medium todo) (id : String) : g.grip.doing ≠ some (.leaving id) := by
  rw [hg.doing]
  nofun

theorem leads_loadEntries {medium : String} {ids todo : List String} (hg : g.Erases medium todo)
    (htodo : ∀ id ∈ todo, id ∈ ids) :
    Leads (mediaLearning runDir) (loadEntries ids) (fun _ => True)
      (fun vms g' => g'.Erases medium [] ∧
        (g.clean = true → (∀ m ∈ vms, medium ∉ mediaRefs m) → g'.clean = true)) g := by
  induction ids generalizing todo g with
  | nil =>
    obtain rfl : todo = [] := List.eq_nil_iff_forall_not_mem.mpr fun id hid => by
      cases htodo id hid
    exact .pure ⟨hg, fun hclean _ => hclean⟩
  | cons id ids ih =>
    refine .bind (P := fun m g' => g'.Erases medium (todo.filter (· ≠ id)) ∧
      (g.clean = true → medium ∉ mediaRefs m → g'.clean = true)) ?_ ?_
    · refine ⟨asks_harmless trivial, fun r g' hg' => ?_⟩
      cases r with
      | error e => exact trivial
      | ok m =>
        simp only [mediaLearning] at hg'
        split at hg'
        · cases hg'
          refine ⟨⟨hg.media, ?_⟩, fun hclean hm => ?_⟩
          · change g.grip.doingAfter _ _ = _
            rw [Grip.doingAfter, hg.doing]
            rfl
          · simp [MediaGrip.after, MediaGrip.cleanAfter, hg.doing, hclean, hm]
        · cases hg'
    · rintro m g1 ⟨hg1, hclean1⟩
      refine .bind (ih hg1 fun other hother => ?_) fun rest g2 ⟨hg2, hclean2⟩ => .pure ⟨hg2, ?_⟩
      · obtain ⟨hother, hne⟩ := List.mem_filter.mp hother
        exact (List.mem_cons.mp (htodo other hother)).resolve_left (by simpa using hne)
      · intro hclean hrefs
        exact hclean2 (hclean1 hclean (hrefs m List.mem_cons_self))
          fun m' hm' => hrefs m' (List.mem_cons_of_mem m hm')

theorem neutral_backings {id : String} {disks : List VMDisk} :
    (backings id disks).run.Calls Grip.neutral := by
  induction disks with
  | nil => exact .pure _
  | cons disk disks ih =>
    exact .andThen (calls_query (.request trivial)) fun _ => .andThen ih fun _ => .pure _

/-- The media in use are the media of each machine, and others. -/
theorem leads_mediaUsedBy {vms : List VMManifest}
    (hd : ∀ id, g.grip.doing ≠ some (.leaving id)) :
    Leads (mediaLearning runDir) (mediaUsedBy vms) (fun _ => True)
      (fun used g' => g' = g ∧ ∀ m ∈ vms, ∀ r ∈ mediaRefs m, r ∈ used) g := by
  induction vms with
  | nil => exact .pure ⟨rfl, nofun⟩
  | cons m vms ih =>
    refine .bind (leads_neutral neutral_backings hd) ?_
    rintro backing _ rfl
    refine .bind ih ?_
    rintro rest _ ⟨rfl, hrest⟩
    refine .pure ⟨rfl, fun m' hm' r hr => ?_⟩
    rw [List.mem_append, List.mem_append]
    rcases List.mem_cons.mp hm' with rfl | hm'
    · exact .inl (.inl hr)
    · exact .inr (hrest m' hm' r hr)

/-- The medium is read, at the beginning of its removal. -/
theorem leads_lookMedia {id : String} (hidle : g.grip.doing = some .idle)
    (hmedia : g.grip.media.isSome = true) :
    Leads (mediaLearning runDir) (getMedia x id) (fun _ => True)
      (fun _ g' => g'.grip.doing = some (.looking id) ∧ g'.grip.media.isSome = true) g := by
  unfold getMedia
  cases x.uuid id with
  | error e => exact leads_fail trivial
  | ok u =>
    refine ⟨asks_harmless trivial, fun r g' hg' => ?_⟩
    cases hg'
    cases r with
    | error e => exact trivial
    | ok m =>
      refine ⟨?_, ?_⟩
      · change g.grip.doingAfter _ _ = _
        simp only [Grip.doingAfter, hidle]
        rfl
      · change (g.grip.media.map (id :: ·)).isSome = true
        simpa using hmedia

theorem safe_deleteMedia {id : String} : Safe runDir (deleteMedia x id) g := by
  have hidle : (g.after runDir (.lock .media) (.ok ())).grip.doing = some .idle := by
    change g.grip.doingAfter _ _ = _
    unfold Grip.doingAfter
    split <;> rfl
  refine safe_locked (.bind (leads_lookMedia hidle rfl) ?_)
  rintro _ g1 ⟨hlooking, hmedia⟩
  refine .bind (P := fun used g' => g'.Erases id [] ∧ (id ∉ used → g'.clean = true)) ?_ ?_
  · refine .bind (P := fun ids g' => g'.Erases id ids ∧ g'.clean = true) ?_ ?_
    · refine ⟨asks_harmless trivial, fun r g' hg' => ?_⟩
      cases hg'
      cases r with
      | error e => exact trivial
      | ok ids =>
        refine ⟨⟨hmedia, ?_⟩, ?_⟩
        · change g1.grip.doingAfter _ _ = _
          simp only [Grip.doingAfter, hlooking]
          rfl
        · simp only [MediaGrip.after, MediaGrip.cleanAfter, hlooking]
          exact hmedia
    rintro ids g2 ⟨hg2, hclean2⟩
    refine .bind (leads_loadEntries hg2 fun _ h => h) ?_
    rintro vms g3 ⟨hg3, hclean3⟩
    refine (leads_mediaUsedBy hg3.doing_ne).mono (fun _ h => h) ?_
    rintro used _ ⟨rfl, hused⟩
    exact ⟨hg3, fun hid => hclean3 hclean2 fun m hm hr => hid (hused m hm id hr)⟩
  rintro used g2 ⟨hg2, hclean2⟩
  refine .bind (leads_ensureThat (Q := fun _ g' => g' = g2 ∧ id ∉ used) (fun _ => trivial)
    fun h => ⟨rfl, by simpa using h⟩) ?_
  rintro _ g2 ⟨rfl, hid⟩
  exact leads_perform ⟨hg2.media, hg2.doing, hclean2 hid⟩ (fun _ _ _ => trivial)
    fun _ _ => trivial

/-! #### All of them -/

theorem harmless_createMedia {name : String} {size : Int} {iso : Bool} :
    (createMedia name size iso).run.Calls harmless :=
  .andThen (calls_query (.request trivial)) fun _ => .andThen calls_ensureThat fun _ =>
    .andThen calls_ensureThat fun _ => .andThen (calls_demand (.request trivial)) fun _ =>
      .andThen (calls_demand (.request trivial)) fun _ => .pure _

theorem harmless_uploadImage {name : String} : (uploadImage name).run.Calls harmless :=
  .andThen (calls_query (.request trivial)) fun _ => .andThen calls_ensureThat fun _ =>
    .andThen (calls_demand (.request trivial)) fun _ =>
      .andThen (calls_demand (.request trivial)) fun _ =>
        .andThen (calls_demand (.request trivial)) fun _ =>
          .andThen (calls_demand (.request trivial)) fun _ => .pure _

theorem harmless_backupVM {e : Paths} {ref : String} : (backupVM e ref).run.Calls harmless :=
  .andThen (calls_demand (.request trivial)) fun _ => calls_locked trivial trivial <|
    .andThen (calls_demand (.request trivial)) fun _ =>
      .andThen (.andThen (calls_query (.request trivial)) fun _ => .pure _) fun _ =>
        calls_demand (.request trivial)

theorem safe_mediaProgram {e : Paths} (he : e.runDir = runDir) (op : MediaOp) :
    Safe runDir (mediaProgram x e op) g := by
  cases op with
  | createVM params => exact .bind safe_createVM fun _ _ _ => .pure trivial
  | updateMedia ref settings => exact safe_updateMedia he
  | manageDisk ref action params => exact safe_manageDisk he
  | createMedia name size iso =>
    exact .bind (safe_harmless harmless_createMedia) fun _ _ _ => .pure trivial
  | uploadImage name =>
    exact .bind (safe_harmless harmless_uploadImage) fun _ _ _ => .pure trivial
  | deleteMedia id => exact safe_deleteMedia
  | backup ref => exact safe_harmless harmless_backupVM
  | restore ref timestamp asNew => exact .bind (safe_restoreMachine he) fun _ _ _ => .pure trivial
  | deleteVM ref => exact safe_deleteVM he

end Operations

/-! ### Every run -/

theorem MediaGrip.holds_nothing {runDir : String → String} {i : Nat} {s : World} :
    ({} : MediaGrip).Holds runDir i s := ⟨Grip.holds_nothing, nofun⟩

theorem MediaGrip.Holds.die {runDir : String → String} {i j : Nat} {s : World} {h : MediaGrip}
    (hk : h.Holds runDir j s) (hj : j ≠ i) : h.Holds runDir j (s.die i) :=
  ⟨hk.grip.die hj, hk.clean⟩

def mediaInsight (x : Texts) (runDir : String → String) {s0 : World} (hkeyed : s0.Keyed)
    (hrefs : s0.RefsExist) :
    (mediaSystem x runDir).Insight (Careful runDir) s0 fun _ => mediaLearning runDir where
  Inv s := s.Keyed ∧ s.RefsExist
  Knows i g s := g.Holds runDir i s
  idle := {}
  rest _ := True
  init := ⟨⟨hkeyed, hrefs⟩, fun _ => MediaGrip.holds_nothing⟩
  code i op := by
    refine Tracks.mono (safe_mediaProgram (e := ⟨runDir, op.1⟩) rfl op.2) fun r g' _ => trivial
  atRest _ _ _ _ _ := MediaGrip.holds_nothing
  call i g a c s r t hs hg hask hcareful hperform := by
    obtain ⟨haccepts, rfl, rfl⟩ := World.perform_cases hperform
    refine ⟨⟨hs.1.after haccepts, hs.2.after hg hask hcareful⟩,
      ⟨g.after runDir a (c.answer a), if_pos (possible_of_accepts haccepts),
        hg.own hs.1 hask haccepts⟩, fun j hj h hh => hh.others hj hs.1 hg hask hcareful haccepts⟩
  die i g s hs hg := ⟨⟨hs.1.die, hs.2⟩, MediaGrip.holds_nothing, fun j hj h hh => hh.die hj⟩
  env e := nomatch e

/-- From a state in which every manifest stands under its id and refers to media that exist, any
interleaving in which restores are careful keeps every reference on a medium that exists. -/
theorem references_exist {x : Texts} {runDir : String → String} {s0 : World} (hkeyed : s0.Keyed)
    (hrefs : s0.RefsExist) {g : Config EngineCall EngineCall.Reply World (Except Message Unit)}
    (hg : (mediaSystem x runDir).Reach (Careful runDir) s0 g) : g.shared.RefsExist :=
  ((mediaInsight x runDir hkeyed hrefs).holds hg).1.2

section OneDisc

def discVM : VMManifest := { id := "v", name := "lab", isos := ["i"] }

def discTexts : Texts where
  cidr _ := true
  uuid _ := .ok ()
  mac _ := ""
  unicastMAC _ := none
  manifest := { parse := fun _ => .ok discVM, valid := fun _ => true }

def discWorld : World where
  vms := [("v", discVM)]
  media := [("i", ⟨"i", "disc", "iso", 0⟩)]
  ids id := if id = "v" then .known else .unused

theorem discWorld_vms {id : String} {m : VMManifest} (h : discWorld.vms.get id = some m) :
    id = "v" ∧ m = discVM := by
  simpa [discWorld] using Table.mem_of_get h

theorem discWorld_keyed : discWorld.Keyed := by
  refine ⟨fun id m hm => ?_, fun id hid => ?_⟩
  · obtain ⟨rfl, rfl⟩ := discWorld_vms hm
    rfl
  · obtain ⟨m, hm⟩ := Option.ne_none_iff_exists'.mp hid
    exact if_pos (discWorld_vms hm).1

theorem discWorld_refs : discWorld.RefsExist := by
  intro id m hm r hr
  obtain ⟨rfl, rfl⟩ := discWorld_vms hm
  have hrefs : mediaRefs discVM = ["i"] := by decide
  rw [hrefs, List.mem_singleton] at hr
  subst hr
  decide

/-- Nothing fails, while the stored machine is the given one. -/
def calmWith (m : VMManifest) : EngineChoice where
  answer
    | .lock _ => .ok ()
    | .vms (.resolve _) => .ok m
    | .vms (.load _) => .ok m
    | .vms (.save _) => .ok ()
    | .vms .entries => .ok ["v"]
    | .getMedia _ => .ok ⟨"i", "disc", "iso", 0⟩
    | .step _ => .ok ()
    | .restore (.readDir _ _) => .ok (some ["disk.qcow2"])
    | .restore (.readManifest _ _) => .ok []
    | .restore .mkdirTemp => .ok ()
    | .restore (.copyFile _ _ _) => .ok ()
    | .restore (.removeDisks _) => .ok ()
    | .restore (.renameStaging _) => .ok ()
    | a => a.failure
  published := (oneTimestamp, [])

/-- A process runs an operation to its end. -/
def doing (i : Nat) (op : MediaOp) (m : VMManifest) (calls : Nat) :
    List (Move EngineChoice (Nat × MediaOp) Empty) :=
  .begin i (i, op) :: List.replicate calls (.call i (calmWith m)) ++ [.finish i]

/-- No restore is under way. -/
def restless (i : Nat) (_ : EngineCall) (_ : EngineChoice) (s : World) : Bool :=
  decide (s.doing i ≠ .restoring)

theorem careful_of_restless {runDir : String → String} {i : Nat} {a : EngineCall} {c : EngineChoice}
    {s : World} (h : restless i a c s = true) : Careful runDir i a c s :=
  have hdoing := of_decide_eq_true h
  ⟨fun _ _ h => absurd h hdoing, fun _ _ _ h => absurd h hdoing⟩

/-- A disc that a machine refers to is not deleted. -/
theorem references_exist_refused : ∃ g, (mediaSystem discTexts id).movesChecked restless
      ⟨discWorld, fun _ => none⟩ (doing 0 (.deleteMedia "i") discVM 5) = some g ∧
    g.shared.media.get "i" ≠ none ∧ g.shared.RefsExist := by
  obtain ⟨g, hg, hmedia⟩ : ∃ g, (mediaSystem discTexts id).movesChecked restless
      ⟨discWorld, fun _ => none⟩ (doing 0 (.deleteMedia "i") discVM 5) = some g ∧
      g.shared.media.get "i" ≠ none := ⟨_, rfl, by decide⟩
  exact ⟨g, hg, hmedia, references_exist discWorld_keyed discWorld_refs
    ((mediaSystem discTexts id).reach_movesChecked (fun _ _ _ _ => careful_of_restless) .start hg)⟩

/-- The machine is backed up with its disc, the disc is dropped and deleted, and the backup is
restored. -/
def bringingBack : List (Move EngineChoice (Nat × MediaOp) Empty) :=
  doing 0 (.backup "v") discVM 6 ++
    doing 0 (.updateMedia "v" ⟨[], []⟩) discVM 8 ++
    doing 0 (.deleteMedia "i") { discVM with isos := [] } 6 ++
    doing 0 (.restore "v" oneTimestamp false) { discVM with isos := [] } 12

theorem references_dangle : ∃ g,
    discWorld.Keyed ∧ discWorld.RefsExist ∧
      (mediaSystem discTexts id).Reach (fun _ _ _ _ => True) discWorld g ∧
      ¬ g.shared.RefsExist := by
  obtain ⟨g, hg, hvms, hmedia⟩ : ∃ g, (mediaSystem discTexts id).moves
      ⟨discWorld, fun _ => none⟩ bringingBack = some g ∧
      g.shared.vms.get "v" = some discVM ∧ g.shared.media.get "i" = none :=
    ⟨_, rfl, by decide, by decide⟩
  refine ⟨g, discWorld_keyed, discWorld_refs,
    (mediaSystem discTexts id).reach_moves .start hg, fun hrefs => ?_⟩
  exact hrefs "v" discVM hvms "i" (by decide) hmedia

end OneDisc

end Maco.Engine
