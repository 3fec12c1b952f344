import Maco.Engine.Rules

/-! What a process knows of the machine whose lifecycle lock it holds, of the media lock and of the id
that it was given.  The locks and the ids keep this true while the others move. -/

namespace Maco.Engine

open Concurrent Prog

/-- The machine that a reference was resolved to, the run directory whose lock is held, the manifest
that is stored for that machine, the media that exist while the media lock is held, an id that nobody
else has, and what the process is in the middle of. -/
structure Grip where
  id : Option String := none
  dir : Option String := none
  stored : Option VMManifest := none
  media : Option (List String) := none
  fresh : Option String := none
  doing : Option Activity := none

namespace Grip

variable (runDir : String → String) (g : Grip)

def idAfter : (a : EngineCall) → a.Reply → Option String
  | .vms (.resolve _), .ok m => some m.id
  | _, _ => g.id

def dirAfter : (a : EngineCall) → a.Reply → Option String
  | .lock (.vm d), .ok _ => some d
  | .unlock (.vm _), _ => none
  | _, _ => g.dir

def storedAfter : (a : EngineCall) → a.Reply → Option VMManifest
  | .vms (.load _), .ok m => if g.dir = some (runDir m.id) then some m else g.stored
  | .vms (.save m), .ok _ => if g.dir = some (runDir m.id) then some m else none
  | .vms (.save _), .error _ => none
  | .vms (.delete _), _ | .lock (.vm _), _ | .unlock (.vm _), _ => none
  | _, _ => g.stored

def mediaAfter : (a : EngineCall) → a.Reply → Option (List String)
  | .lock .media, .ok _ => some []
  | .unlock .media, _ => none
  | .getMedia id, .ok _ => g.media.map (id :: ·)
  | .step (.removeMedia id), _ => g.media.map (·.filter (· ≠ id))
  | _, _ => g.media

def freshAfter : (a : EngineCall) → a.Reply → Option String
  | .newString, r => some r
  | .vms (.save _), _ | .nets (.save _), _ => none
  | _, _ => g.fresh

/-- The first calls of operations, which end what the process was in the middle of. -/
def begins : EngineCall → Bool
  | .vms (.resolve _) | .lock .media => true
  | _ => false

def doingAfter (a : EngineCall) (r : a.Reply) : Option Activity :=
  match g.doing with
  | some d => some (d.after a r)
  | none => if begins a then some .idle else none

/-- What is known after a call. -/
def after (a : EngineCall) (r : a.Reply) : Grip where
  id := g.idAfter a r
  dir := g.dirAfter a r
  stored := g.storedAfter runDir a r
  media := g.mediaAfter a r
  fresh := g.freshAfter a r
  doing := g.doingAfter a r

/-- The process holds the lock of the machine that its reference was resolved to. -/
def Locked (id : String) : Prop := g.id = some id ∧ g.dir = some (runDir id)

/-- Manifests of machines are saved and deleted under the lock or, in a restore, under a new id;
media are removed under the media lock, and no networks are saved. -/
def asks : EngineCall → Prop
  | .vms (.save m) => g.Locked runDir m.id ∨ g.fresh = some m.id
  | .vms (.delete id) => g.Locked runDir id ∨ g.doing = some .restoring
  | .step (.removeMedia _) => g.media.isSome
  | .nets (.save _) => False
  | _ => True

/-- What is known holds of the state. -/
structure Holds (i : Nat) (s : World) : Prop where
  known : ∀ id, g.id = some id → s.ids id = .known
  locked : ∀ d, g.dir = some d → s.locks (.vm d) = some i
  stored : ∀ m, g.stored = some m → s.vms.get m.id = some m ∧ g.dir = some (runDir m.id)
  held : ∀ l, g.media = some l → s.locks .media = some i
  media : ∀ l, g.media = some l → ∀ id ∈ l, s.media.get id ≠ none
  fresh : ∀ id, g.fresh = some id → s.ids id = .given i
  doing : ∀ d, g.doing = some d → s.doing i = d

end Grip

/-- Each manifest stands under its id, and the ids of machines are known. -/
structure World.Keyed (s : World) : Prop where
  keyed : ∀ id m, s.vms.get id = some m → m.id = id
  known : ∀ id, s.vms.get id ≠ none → s.ids id = .known

/-- A restore takes a new manifest back only while nobody holds the lock of the machine. -/
def Unattended (runDir : String → String) (i : Nat) (a : EngineCall) (s : World) : Prop :=
  ∀ id, a = .vms (.delete id) → s.doing i = .restoring → s.locks (.vm (runDir id)) = none

section Steps

variable {runDir : String → String} {s : World} {i j : Nat} {c : EngineChoice} {a : EngineCall}
  {x : Texts} {g h : Grip}

theorem World.Keyed.after (hs : s.Keyed) (ha : s.accepts i c x a = true) :
    (s.after i c a).Keyed := by
  refine ⟨fun id m hm => ?_, fun id hid => ?_⟩
  · obtain hsame | ⟨m', -, hm', -, hsaved⟩ | ⟨-, -, hgone⟩ := s.vms_after i c a id
    · exact hs.keyed id m (hsame ▸ hm)
    · rw [hsaved] at hm
      cases hm
      exact hm'
    · rw [hgone] at hm
      cases hm
  · by_cases hbefore : s.vms.get id = none
    · simp only [World.after] at hid ⊢
      unfold World.vmsAfter at hid
      split at hid
      · rename_i m
        split at hid
        · rename_i hsaves
          rw [Table.get_put] at hid
          split at hid
          · rename_i hm
            simp [World.idsAfter, hsaves, hm]
          · exact absurd hbefore hid
        · exact absurd hbefore hid
      · split at hid
        · rw [Table.get_without] at hid
          split at hid
          · exact absurd rfl hid
          · exact absurd hbefore hid
        · exact absurd hbefore hid
      · exact absurd hbefore hid
    · exact World.ids_known_after (hs.known id hbefore) ha

/-- What a process knows stays true while another makes a call. -/
theorem Grip.Holds.others (hk : h.Holds runDir j s) (hj : j ≠ i) (hs : s.Keyed)
    (hg : g.Holds runDir i s) (hask : g.asks runDir a) (hu : Unattended runDir i a s)
    (ha : s.accepts i c x a = true) : h.Holds runDir j (s.after i c a) where
  known id hid := World.ids_known_after (hk.known id hid) ha
  locked d hd := World.locks_after (hk.locked d hd) hj ha
  stored m hm := by
    obtain ⟨hget, hdir⟩ := hk.stored m hm
    refine ⟨?_, hdir⟩
    have hlock := hk.locked _ hdir
    have hfree : ∀ id, g.Locked runDir id → id ≠ m.id := by
      rintro id ⟨-, hid⟩ rfl
      have := hg.locked _ hid
      rw [hlock] at this
      exact hj (Option.some.inj this)
    obtain hsame | ⟨m', rfl, hm', -⟩ | ⟨rfl, -, -⟩ := s.vms_after i c a m.id
    · rw [hsame, hget]
    · exfalso
      rcases hask with hlocked | hfresh
      · exact hfree _ hlocked hm'
      · have hgiven := hg.fresh _ hfresh
        rw [hm', hs.known m.id (by simp [hget])] at hgiven
        cases hgiven
    · exfalso
      rcases hask with hlocked | hrestoring
      · exact hfree _ hlocked rfl
      · rw [hu m.id rfl (hg.doing _ hrestoring)] at hlock
        cases hlock
  held l hl := World.locks_after (hk.held l hl) hj ha
  media l hl id hid := by
    rcases World.media_after (i := i) (c := c) (a := a) (hk.media l hl id hid) with hkept | rfl
    · exact hkept
    · exfalso
      obtain ⟨l', hl'⟩ := Option.isSome_iff_exists.mp hask
      have := hg.held _ hl'
      rw [hk.held l hl] at this
      exact hj (Option.some.inj this)
  fresh id hid := by
    have hgiven := hk.fresh id hid
    rcases World.ids_given_after (i := i) (c := c) (a := a) hgiven ha with
      hkept | ⟨m, rfl, rfl⟩ | ⟨n, rfl, -⟩
    · exact hkept
    · exfalso
      rcases hask with hlocked | hfresh
      · rw [hg.known _ hlocked.1] at hgiven
        cases hgiven
      · rw [hg.fresh _ hfresh] at hgiven
        cases hgiven
        exact hj rfl
    · exact hask.elim
  doing d hd := (World.doing_of_ne hj).trans (hk.doing d hd)

/-- What a process knows after a call of its own. -/
theorem Grip.Holds.own (hg : g.Holds runDir i s) (hs : s.Keyed) (hask : g.asks runDir a)
    (ha : s.accepts i c x a = true) : (g.after runDir a (c.answer a)).Holds runDir i (s.after i c a) where
  known id hid := by
    change g.idAfter a (c.answer a) = some id at hid
    generalize hr : c.answer a = r at hid
    unfold idAfter at hid
    split at hid
    · rename_i ref m
      cases hid
      obtain ⟨hget, -⟩ := of_decide_eq_true (granted_ok (x := m) ha hr)
      exact hs.known m.id (by simp [hget])
    · exact World.ids_known_after (hg.known id hid) ha
  locked d hd := by
    change g.dirAfter a (c.answer a) = some d at hd
    generalize hr : c.answer a = r at hd
    unfold dirAfter at hd
    split at hd
    · cases hd
      simp [World.after, World.locksAfter, hr, Except.isOk, Except.toBool]
    · cases hd
    · rename_i hunlock
      refine World.locks_own (hg.locked d hd) ?_
      rintro rfl
      exact hunlock d () rfl HEq.rfl
  stored m hm := by
    change g.storedAfter runDir a (c.answer a) = some m at hm
    change _ ∧ g.dirAfter a (c.answer a) = _
    generalize hr : c.answer a = r at hm ⊢
    unfold storedAfter at hm
    split at hm
    · rename_i id m'
      obtain ⟨hget, rfl⟩ := of_decide_eq_true (granted_ok (x := m') ha hr)
      split at hm
      · rename_i hdir
        cases hm
        exact ⟨hget, hdir⟩
      · exact hg.stored m hm
    · rename_i m' u
      split at hm
      · rename_i hdir
        cases hm
        refine ⟨?_, hdir⟩
        have hsaves : c.saves m = true := by
          simp [EngineChoice.saves, hr, Except.isOk, Except.toBool]
        simp [World.after, World.vmsAfter, hsaves, Table.get_put]
      · cases hm
    · cases hm
    · cases hm
    · cases hm
    · cases hm
    · rename_i hsaved hfailed hdelete hlock hunlock
      obtain ⟨hget, hdir⟩ := hg.stored m hm
      refine ⟨?_, ?_⟩
      · obtain hsame | ⟨m', rfl, -, -⟩ | ⟨rfl, -, -⟩ := s.vms_after i c a m.id
        · rw [hsame, hget]
        · cases r with
          | error e => exact (hfailed m' e rfl HEq.rfl).elim
          | ok u => exact (hsaved m' u rfl HEq.rfl).elim
        · exact (hdelete m.id r rfl HEq.rfl).elim
      · unfold dirAfter
        split
        · exact (hlock _ _ rfl HEq.rfl).elim
        · exact (hunlock _ _ rfl HEq.rfl).elim
        · exact hdir
  held l hl := by
    change g.mediaAfter a (c.answer a) = some l at hl
    generalize hr : c.answer a = r at hl
    unfold mediaAfter at hl
    split at hl
    · simp [World.after, World.locksAfter, hr, Except.isOk, Except.toBool]
    · cases hl
    · obtain ⟨l', hl', -⟩ := Option.map_eq_some_iff.mp hl
      exact World.locks_own (hg.held l' hl') fun h => by cases h
    · obtain ⟨l', hl', -⟩ := Option.map_eq_some_iff.mp hl
      exact World.locks_own (hg.held l' hl') fun h => by cases h
    · rename_i hunlock _ _
      refine World.locks_own (hg.held l hl) ?_
      rintro rfl
      exact hunlock () rfl HEq.rfl
  media l hl id hid := by
    change g.mediaAfter a (c.answer a) = some l at hl
    generalize hr : c.answer a = r at hl
    unfold mediaAfter at hl
    split at hl
    · cases hl
      cases hid
    · cases hl
    · rename_i id' m
      obtain ⟨l', hl', rfl⟩ := Option.map_eq_some_iff.mp hl
      obtain ⟨hget, -⟩ := of_decide_eq_true (granted_ok (x := m) ha hr)
      rcases List.mem_cons.mp hid with rfl | hid
      · intro hgone
        rw [show (s.after i c (.getMedia id)).media = s.media from rfl, hget] at hgone
        cases hgone
      · exact hg.media l' hl' id hid
    · obtain ⟨l', hl', rfl⟩ := Option.map_eq_some_iff.mp hl
      obtain ⟨hid, hne⟩ := List.mem_filter.mp hid
      refine (World.media_after (hg.media l' hl' id hid)).resolve_right fun h => ?_
      cases h
      simp at hne
    · rename_i hremove
      refine (World.media_after (hg.media l hl id hid)).resolve_right ?_
      rintro rfl
      exact hremove id r rfl HEq.rfl
  fresh id hid := by
    change g.freshAfter a (c.answer a) = some id at hid
    generalize hr : c.answer a = r at hid
    unfold freshAfter at hid
    split at hid
    · cases hid
      simp [World.after, World.idsAfter, hr]
    · cases hid
    · cases hid
    · rename_i hsave hsaveNet
      rcases World.ids_given_after (i := i) (c := c) (hg.fresh id hid) ha with
        hkept | ⟨m, rfl, -⟩ | ⟨n, rfl, -⟩
      · exact hkept
      · exact (hsave m r rfl HEq.rfl).elim
      · exact (hsaveNet n r rfl HEq.rfl).elim
  doing d hd := by
    have hdoing : (s.after i c a).doing i = (s.doing i).after a (c.answer a) :=
      Function.update_self ..
    rw [hdoing]
    change g.doingAfter a (c.answer a) = some d at hd
    unfold doingAfter at hd
    split at hd
    · rename_i d' hd'
      rw [hg.doing d' hd']
      exact Option.some.inj hd
    · split at hd
      · rename_i hbegins
        cases hd
        cases a with
        | vms sc => cases sc <;> first | rfl | cases hbegins
        | lock l => cases l <;> first | rfl | cases hbegins
        | _ => cases hbegins
      · cases hd

/-- A process that has just begun or died knows nothing. -/
theorem Grip.holds_nothing : ({} : Grip).Holds runDir i s :=
  ⟨nofun, nofun, nofun, nofun, nofun, nofun, nofun⟩

theorem World.Keyed.die (hs : s.Keyed) : (s.die i).Keyed := ⟨hs.keyed, hs.known⟩

theorem Grip.Holds.die (hk : h.Holds runDir j s) (hj : j ≠ i) : h.Holds runDir j (s.die i) := by
  have hlocks : ∀ l, s.locks l = some j → (s.die i).locks l = some j := by
    intro l hl
    simp [World.die, hl, hj]
  exact {
    known := hk.known
    locked := fun d hd => hlocks _ (hk.locked d hd)
    stored := hk.stored
    held := fun l hl => hlocks _ (hk.held l hl)
    media := hk.media
    fresh := hk.fresh
    doing := fun d hd => (Function.update_of_ne hj _ _).trans (hk.doing d hd) }

end Steps

/-! ### Calls that teach nothing -/

namespace Grip

variable {runDir : String → String} {g : Grip} {a : EngineCall}

/-- Calls by which nothing is learnt. -/
def neutral : EngineCall → Prop
  | .vms (.uniqueVMName _) | .nets (.resolve _) | .qemu _ _ | .statDisk _ _ | .attachDisk _ _
  | .backingMedia _ _ | .databaseOpen _ => True
  | .step (.removeMedia _) | .step (.deleteBackupSchedule _) => False
  | .step _ => True
  | .restore (.readDir _ _) => False
  | .restore _ => True
  | _ => False

theorem after_neutral (ha : neutral a) (hd : ∀ id, g.doing ≠ some (.leaving id)) (r : a.Reply) :
    g.after runDir a r = g := by
  obtain ⟨id, dir, stored, media, fresh, doing⟩ := g
  have hgoes : ∀ ok, doing.map (Activity.goesOn · ok) = doing := by
    intro ok
    cases doing with
    | none => rfl
    | some d =>
      cases d with
      | leaving id => exact absurd rfl (hd id)
      | _ => rfl
  have hdoing : (Grip.mk id dir stored media fresh doing).doingAfter a r = doing := by
    cases doing with
    | none =>
      cases a with
      | vms sc => cases sc <;> first | rfl | exact ha.elim
      | lock l => exact ha.elim
      | _ => rfl
    | some d =>
      cases a with
      | vms sc => cases sc <;> first | rfl | exact ha.elim
      | step st =>
        cases st with
        | removeMedia id => exact ha.elim
        | deleteBackupSchedule id => exact ha.elim
        | _ => exact hgoes _
      | restore rc => cases rc <;> first | rfl | exact ha.elim
      | nets nc => cases nc <;> rfl
      | qemu _ _ | statDisk _ _ | attachDisk _ _ | backingMedia _ _ | databaseOpen _ => rfl
      | _ => exact ha.elim
  unfold Grip.after
  rw [hdoing]
  cases a with
  | vms sc => cases sc <;> first | rfl | exact ha.elim
  | step st => cases st <;> first | rfl | exact ha.elim
  | restore rc => cases rc <;> rfl
  | nets nc => cases nc <;> first | rfl | exact ha.elim
  | qemu _ _ | statDisk _ _ | attachDisk _ _ | backingMedia _ _ | databaseOpen _ => rfl
  | _ => exact ha.elim

theorem asks_neutral (ha : neutral a) : g.asks runDir a := by
  cases a with
  | vms sc => cases sc <;> trivial
  | step st => cases st <;> trivial
  | nets nc => cases nc <;> trivial
  | _ => trivial

end Grip

/-- Calls that save and delete nothing that others rely on. -/
def harmless : EngineCall → Prop
  | .vms (.save _) | .vms (.delete _) | .step (.removeMedia _) | .nets (.save _) => False
  | _ => True

theorem harmless_of_neutral {a : EngineCall} (ha : Grip.neutral a) : harmless a := by
  cases a with
  | vms sc => cases sc <;> trivial
  | step st => cases st <;> trivial
  | nets nc => cases nc <;> trivial
  | _ => trivial

theorem neutral_isRunning {e : Paths} {id : String} : (isRunning e id).run.Calls Grip.neutral :=
  .andThen (calls_query (.request trivial)) fun _ => .pure _

theorem neutral_networkRef {ref : String} : (networkRef ref).run.Calls Grip.neutral := by
  unfold networkRef
  split
  · exact .pure _
  · refine .andThen (calls_query (calls_demand (.request trivial))) fun r => ?_
    cases r with
    | error e => exact calls_fail
    | ok n => exact .pure _

theorem neutral_restoreStep {c : RestoreCall} (h : Grip.neutral (ofRestore c)) :
    (restoreStep c).Calls Grip.neutral := ⟨h, fun _ => trivial⟩

theorem calls_copyDisks {P : RestoreCall → Prop} {id timestamp : String} {disks : List String}
    (hP : ∀ disk, P (.copyFile id timestamp disk)) : (copyDisks id timestamp disks).Calls P := by
  induction disks with
  | nil => exact .pure _
  | cons disk disks ih =>
    refine .bind (.request (hP disk)) fun r => ?_
    cases r with
    | error e => exact .pure _
    | ok u => exact ih

/-- The steps of a restore in place. -/
def replaces (id : String) : RestoreCall → Prop
  | .save m => m.id = id
  | .readDir _ _ => False
  | _ => True

theorem calls_replaceDisks {id timestamp : String} {restored : VMManifest} {disks : List String} :
    (replaceDisks id timestamp restored disks).Calls (replaces id) := by
  refine .bind (calls_copyDisks fun _ => trivial) fun r => ?_
  cases r with
  | error e => exact .pure _
  | ok u =>
    refine .bind (.request trivial) fun r => ?_
    cases r with
    | error e => exact .pure _
    | ok u =>
      refine .bind (.request trivial) fun r => ?_
      cases r with
      | error e => exact .pure _
      | ok u => exact .request rfl

end Maco.Engine
