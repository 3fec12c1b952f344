import Maco.Lib.Program
import Mathlib.Data.List.Basic
import Mathlib.Logic.Function.Basic

/-! `storage.WriteFile`: new contents are written to a temporary file, which then takes the place of
the destination.  Every system call of it can fail, as the environment decides; the theorem says for
which failures the destination has its old contents after an error and the new ones otherwise. -/

namespace Maco.Storage

open Concurrent

structure File where
  data : List UInt8
  mode : Nat
  deriving DecidableEq

/-- The directory of the destination, with its files by name. -/
structure Directory where
  owner : Nat
  mode : Nat
  files : String → Option File

/-- The system calls on one directory that give nothing but an error.  Those that only close a
descriptor in a deferred call are left out. -/
inductive Action where
  | mkdirAll (mode : Nat)
  | openDir
  | chmodDir (mode : Nat)
  | chmod (name : String) (mode : Nat)
  | write (name : String) (data : List UInt8)
  | sync (name : String)
  | close (name : String)
  | rename (old new : String)
  | openParent
  | syncParent
  | remove (name : String)
  deriving DecidableEq

/-- The system calls; `statDir` gives the owner and the permissions of the directory, `createTemp` the
name of the new file. -/
inductive FileCall where
  | act (a : Action)
  | statDir
  | createTemp
  deriving DecidableEq

@[reducible] def FileCall.Reply : FileCall → Type
  | .act _ => Except String Unit
  | .statDir => Except String (Nat × Nat)
  | .createTemp => Except String String

/-- A program over these calls that can fail. -/
abbrev FileM := ExceptT String (Prog FileCall FileCall.Reply)

/-- One call. -/
def system (c : FileCall) : Prog FileCall FileCall.Reply c.Reply := .request c

/-- An action whose error ends the program. -/
def act (a : Action) : FileM Unit := ExceptT.mk (system (.act a))

/-- A program and a deferred action, whose error is dropped. -/
def deferring (a : Action) (body : FileM Unit) : FileM Unit := ExceptT.mk do
  let result ← body.run
  let _ ← (act a).run
  return result

/-- `info.Mode().Perm()&0o022 == 0` for the owner of the process. -/
def isPrivate (euid owner mode : Nat) : Bool := owner == euid && mode &&& 0o022 == 0

def ensurePrivateDir (euid : Nat) (dir : String) : FileM Unit := do
  act (.mkdirAll 0o700)
  act .openDir
  let (owner, mode) ← ExceptT.mk (system .statDir)
  if isPrivate euid owner mode then act (.chmodDir 0o700)
  else throw (dir ++ " must be a private directory owned by the current user")

/-- `WriteFile` once the temporary file is made. -/
def replaceFile (temp name : String) (data : List UInt8) (mode : Nat) : FileM Unit := do
  act (.chmod temp mode)
  act (.write temp data)
  act (.sync temp)
  act (.close temp)
  act (.rename temp name)
  act .openParent
  act .syncParent

def writeFile (euid : Nat) (dir name : String) (data : List UInt8) (mode : Nat) : FileM Unit := do
  ensurePrivateDir euid dir
  let temp ← ExceptT.mk (system .createTemp)
  deferring (.remove temp) (replaceFile temp name data mode)

/-! ### What the calls do -/

/-- What the environment decides: the calls that fail, the name that a temporary file gets, and how
much of its data a failed write leaves in the file. -/
structure Env where
  euid : Nat
  fails : FileCall → Option String
  temp : String
  written : Nat

/-- The directory with a file put in or taken out. -/
def Directory.put (d : Directory) (name : String) (file : Option File) : Directory :=
  { d with files := Function.update d.files name file }

/-- The work of an action that does not fail. -/
def Directory.done (d : Directory) : Action → Directory
  | .chmodDir mode => { d with mode := mode }
  | .chmod name mode => d.put name ((d.files name).map ({ · with mode := mode }))
  | .write name data => d.put name ((d.files name).map fun f => { f with data := f.data ++ data })
  | .rename old new => (d.put old none).put new (d.files old)
  | .remove name => d.put name none
  | _ => d

/-- What an action that fails leaves behind. -/
def Directory.partly (d : Directory) (written : Nat) : Action → Directory
  | .write name data =>
    d.put name ((d.files name).map fun f => { f with data := f.data ++ data.take written })
  | _ => d

/-- A directory that does not exist can only be made; a temporary file is not made where there is
one of its name. -/
def Env.answer (env : Env) : (c : FileCall) → Option Directory → c.Reply × Option Directory
  | .act a, d =>
    match env.fails (.act a), d, a with
    | some e, d, a => (.error e, d.map (·.partly env.written a))
    | none, none, .mkdirAll mode =>
      (.ok (), some { owner := env.euid, mode := mode, files := fun _ => none })
    | none, none, _ => (.error "no such file or directory", none)
    | none, some d, a => (.ok (), some (d.done a))
  | .statDir, d =>
    match env.fails .statDir, d with
    | some e, d => (.error e, d)
    | none, none => (.error "no such file or directory", none)
    | none, some d => (.ok (d.owner, d.mode), some d)
  | .createTemp, d =>
    match env.fails .createTemp, d with
    | some e, d => (.error e, d)
    | none, none => (.error "no such file or directory", none)
    | none, some d =>
      if d.files env.temp ≠ none then (.error "file exists", some d)
      else (.ok env.temp, some (d.put env.temp (some { data := [], mode := 0o600 })))

/-- The end of a program: whether it failed, and the directory. -/
def run {α : Type} (env : Env) (p : FileM α) (d : Option Directory) :
    Except String α × Option Directory :=
  p.run.eval env.answer d

/-- The files of a directory, if it exists. -/
def filesOf (d : Option Directory) (name : String) : Option File := d.bind (·.files name)

/-- The contents of a file. -/
def contents (d : Option Directory) (name : String) : Option (List UInt8) :=
  (filesOf d name).map (·.data)

/-! ### Runs -/

section Runs

variable {α β : Type} {env : Env} {d : Option Directory}

theorem run_bind (p : FileM α) (f : α → FileM β) :
    run env (p >>= f) d =
      match run env p d with
      | (.error e, t) => (.error e, t)
      | (.ok x, t) => run env (f x) t := by
  unfold run
  rw [Prog.eval_andThen]
  match p.run.eval env.answer d with
  | (.error e, t) => rfl
  | (.ok x, t) => rfl

/-- An action in a directory that exists. -/
theorem run_act (a : Action) (d : Directory) :
    run env (act a) (some d) =
      match env.fails (.act a) with
      | some e => (.error e, some (d.partly env.written a))
      | none => (.ok (), some (d.done a)) := by
  show env.answer (.act a) (some d) = _
  unfold Env.answer
  dsimp only
  cases env.fails (.act a) with
  | some e => rfl
  | none => rfl

theorem run_act_bind (a : Action) (f : Unit → FileM β) (d : Directory) :
    run env (act a >>= f) (some d) =
      match env.fails (.act a) with
      | some e => (.error e, some (d.partly env.written a))
      | none => run env (f ()) (some (d.done a)) := by
  rw [run_bind, run_act]
  cases env.fails (.act a) with
  | some e => rfl
  | none => rfl

theorem run_deferring (a : Action) (body : FileM Unit) :
    run env (deferring a body) d =
      ((run env body d).1, (run env (act a) (run env body d).2).2) := by
  show (body.run >>= _).eval env.answer d = _
  rw [Prog.eval_bind, Prog.eval_bind]
  rfl

end Runs

/-! ### The directory -/

section Prepared

variable {env : Env}

/-- A call of the preparation fails, or the directory is not private. -/
def Env.RefusesDir (env : Env) (d : Option Directory) : Prop :=
  env.fails (.act (.mkdirAll 0o700)) ≠ none ∨ env.fails (.act .openDir) ≠ none ∨
    env.fails .statDir ≠ none ∨
    (∃ x, d = some x ∧ isPrivate env.euid x.owner x.mode = false) ∨
    env.fails (.act (.chmodDir 0o700)) ≠ none

/-- The directory that `MkdirAll` makes sure of. -/
def Env.made (env : Env) (d : Option Directory) : Directory :=
  d.getD { owner := env.euid, mode := 0o700, files := fun _ => none }

theorem Env.made_files (d : Option Directory) : (env.made d).files = filesOf d := by
  cases d with
  | none => rfl
  | some x => rfl

theorem run_mkdirAll {β : Type} (f : Unit → FileM β) (d : Option Directory) :
    run env (act (.mkdirAll 0o700) >>= f) d =
      match env.fails (.act (.mkdirAll 0o700)) with
      | some e => (.error e, d)
      | none => run env (f ()) (some (env.made d)) := by
  cases d with
  | some x => exact run_act_bind (.mkdirAll 0o700) f x
  | none =>
    have hact : run env (act (.mkdirAll 0o700)) none =
        match env.fails (.act (.mkdirAll 0o700)) with
        | some e => (.error e, none)
        | none => (.ok (), some (env.made none)) := by
      show env.answer (.act (.mkdirAll 0o700)) none = _
      unfold Env.answer
      dsimp only
      cases env.fails (.act (.mkdirAll 0o700)) with
      | some e => rfl
      | none => rfl
    rw [run_bind, hact]
    cases env.fails (.act (.mkdirAll 0o700)) with
    | some e => rfl
    | none => rfl

theorem run_statDir {β : Type} (f : Nat × Nat → FileM β) (x : Directory) :
    run env (ExceptT.mk (system .statDir) >>= f) (some x) =
      match env.fails .statDir with
      | some e => (.error e, some x)
      | none => run env (f (x.owner, x.mode)) (some x) := by
  have hcall : run env (ExceptT.mk (system .statDir)) (some x) =
      match env.fails .statDir with
      | some e => (.error e, some x)
      | none => (.ok (x.owner, x.mode), some x) := by
    show env.answer .statDir (some x) = _
    unfold Env.answer
    dsimp only
    cases env.fails .statDir with
    | some e => rfl
    | none => rfl
  rw [run_bind, hcall]
  cases env.fails .statDir with
  | some e => rfl
  | none => rfl

/-- The preparation changes no file, and succeeds where it does not refuse. -/
theorem run_ensurePrivateDir (dir : String) (d : Option Directory) :
    (env.RefusesDir d ∧ ∃ e t, run env (ensurePrivateDir env.euid dir) d = (.error e, t) ∧
      filesOf t = filesOf d) ∨
    (¬ env.RefusesDir d ∧ ∃ x, run env (ensurePrivateDir env.euid dir) d = (.ok (), some x) ∧
      x.files = filesOf d) := by
  have hfiles := env.made_files d
  rw [ensurePrivateDir, run_mkdirAll]
  cases hmkdir : env.fails (.act (.mkdirAll 0o700)) with
  | some e => exact .inl ⟨.inl (by simp [hmkdir]), e, d, rfl, rfl⟩
  | none =>
    dsimp only
    rw [run_act_bind]
    cases hopen : env.fails (.act .openDir) with
    | some e => exact .inl ⟨.inr (.inl (by simp [hopen])), e, _, rfl, hfiles⟩
    | none =>
      dsimp only
      rw [run_statDir]
      cases hstat : env.fails .statDir with
      | some e => exact .inl ⟨.inr (.inr (.inl (by simp [hstat]))), e, _, rfl, hfiles⟩
      | none =>
        dsimp only
        show (_ ∧ ∃ e t, run env (if isPrivate env.euid (env.made d).owner (env.made d).mode then _
          else _) _ = _ ∧ _) ∨ (_ ∧ ∃ x, run env (if isPrivate env.euid (env.made d).owner
          (env.made d).mode then _ else _) _ = _ ∧ _)
        -- a directory that was just made is private
        have hprivate : isPrivate env.euid (env.made d).owner (env.made d).mode = false ↔
            ∃ x, d = some x ∧ isPrivate env.euid x.owner x.mode = false := by
          cases d with
          | none => simp [Env.made, isPrivate]
          | some x => simp [Env.made]
        split
        · rename_i hp
          rw [run_act]
          cases hchmod : env.fails (.act (.chmodDir 0o700)) with
          | some e => exact .inl ⟨.inr (.inr (.inr (.inr (by simp [hchmod])))), e, _, rfl, hfiles⟩
          | none =>
            refine .inr ⟨?_, _, rfl, hfiles⟩
            rintro (h | h | h | h | h)
            · exact h hmkdir
            · exact h hopen
            · exact h hstat
            · rw [← hprivate, hp] at h
              contradiction
            · exact h hchmod
        · rename_i hp
          refine .inl ⟨.inr (.inr (.inr (.inl (hprivate.mp (by simpa using hp))))), _, _, rfl, hfiles⟩

end Prepared

/-! ### The temporary file -/

section Replaced

variable {env : Env} {name : String} {data : List UInt8} {mode : Nat}

/-- A call up to the one that makes the new contents visible fails. -/
def Env.Breaks (env : Env) (name : String) (data : List UInt8) (mode : Nat) : Prop :=
  env.fails (.act (.chmod env.temp mode)) ≠ none ∨ env.fails (.act (.write env.temp data)) ≠ none ∨
    env.fails (.act (.sync env.temp)) ≠ none ∨ env.fails (.act (.close env.temp)) ≠ none ∨
    env.fails (.act (.rename env.temp name)) ≠ none

/-- A call after that one fails. -/
def Env.Unsynced (env : Env) : Prop :=
  env.fails (.act .openParent) ≠ none ∨ env.fails (.act .syncParent) ≠ none

/-- The temporary file is there, and all the others are as they were. -/
def Half (temp : String) (x t : Directory) : Prop :=
  t.files temp ≠ none ∧ ∀ n, n ≠ temp → t.files n = x.files n

/-- The temporary file has taken the place of the destination. -/
def Replaced (temp name : String) (file : File) (x t : Directory) : Prop :=
  t.files = Function.update (Function.update x.files temp none) name (some file)

variable (name data mode) in
theorem run_replaceFile {x : Directory} {f : File} (hf : x.files env.temp = some f)
    (hdata : f.data = []) :
    (env.Breaks name data mode ∧ ∃ e t,
      run env (replaceFile env.temp name data mode) (some x) = (.error e, some t) ∧
        Half env.temp x t) ∨
    (¬ env.Breaks name data mode ∧ ∃ r t,
      run env (replaceFile env.temp name data mode) (some x) = (r, some t) ∧
        Replaced env.temp name { data := data, mode := mode } x t ∧
        ((∃ e, r = .error e) ↔ env.Unsynced)) := by
  -- what the actions on the temporary file make of it
  have hhalf : ∀ g : File, Half env.temp x (x.put env.temp (some g)) := fun g =>
    ⟨by simp [Directory.put], fun n hn => by simp [Directory.put, hn]⟩
  have hput : ∀ g k : File, ((x.put env.temp (some g)).put env.temp (some k)) =
      x.put env.temp (some k) := fun g k => by simp [Directory.put]
  have hget : ∀ g : File, (x.put env.temp (some g)).files env.temp = some g := fun g => by
    simp [Directory.put]
  have hx : Half env.temp x x := ⟨by simp [hf], fun n hn => rfl⟩
  rw [replaceFile, run_act_bind]
  cases hchmod : env.fails (.act (.chmod env.temp mode)) with
  | some e => exact .inl ⟨.inl (by simp [hchmod]), e, _, rfl, hx⟩
  | none =>
    have h1 : x.done (.chmod env.temp mode) = x.put env.temp (some { data := [], mode := mode }) := by
      simp [Directory.done, hf, ← hdata]
    dsimp only
    rw [run_act_bind, h1]
    cases hwrite : env.fails (.act (.write env.temp data)) with
    | some e =>
      refine .inl ⟨.inr (.inl (by simp [hwrite])), e, _, rfl, ?_⟩
      rw [Directory.partly, hget, Option.map_some, hput]
      exact hhalf _
    | none =>
      have h2 : (x.put env.temp (some { data := [], mode := mode })).done (.write env.temp data) =
          x.put env.temp (some { data := data, mode := mode }) := by
        rw [Directory.done, hget, Option.map_some, hput]
        rfl
      dsimp only
      rw [run_act_bind, h2]
      cases hsync : env.fails (.act (.sync env.temp)) with
      | some e => exact .inl ⟨.inr (.inr (.inl (by simp [hsync]))), e, _, rfl, hhalf _⟩
      | none =>
        dsimp only
        rw [run_act_bind]
        cases hclose : env.fails (.act (.close env.temp)) with
        | some e => exact .inl ⟨.inr (.inr (.inr (.inl (by simp [hclose])))), e, _, rfl, hhalf _⟩
        | none =>
          dsimp only
          rw [run_act_bind]
          cases hrename : env.fails (.act (.rename env.temp name)) with
          | some e =>
            exact .inl ⟨.inr (.inr (.inr (.inr (by simp [hrename])))), e, _, rfl, hhalf _⟩
          | none =>
            have hunbroken : ¬ env.Breaks name data mode := by
              simp [Env.Breaks, hchmod, hwrite, hsync, hclose, hrename]
            let t := (x.put env.temp (some { data := data, mode := mode })).done
              (.rename env.temp name)
            have hreplaced : Replaced env.temp name { data := data, mode := mode } x t := by
              simp [t, Replaced, Directory.done, Directory.put]
            refine .inr ⟨hunbroken, ?_⟩
            dsimp only
            rw [run_act_bind]
            cases hparent : env.fails (.act .openParent) with
            | some e =>
              exact ⟨.error e, t, rfl, hreplaced, by simp [Env.Unsynced, hparent]⟩
            | none =>
              dsimp only
              rw [run_act]
              cases hsyncs : env.fails (.act .syncParent) with
              | some e =>
                exact ⟨.error e, t, rfl, hreplaced, by simp [Env.Unsynced, hsyncs]⟩
              | none =>
                exact ⟨.ok (), t, rfl, hreplaced, by simp [Env.Unsynced, hparent, hsyncs]⟩

end Replaced

/-! ### The whole write -/

section Write

variable {env : Env} {name : String} {data : List UInt8} {mode : Nat} {d : Option Directory}

/-- The write ends before there is a temporary file. -/
def Env.Refuses (env : Env) (d : Option Directory) : Prop :=
  env.RefusesDir d ∨ env.fails .createTemp ≠ none ∨ filesOf d env.temp ≠ none

variable (env) in
theorem run_createTemp {β : Type} (f : String → FileM β) (x : Directory) :
    (∃ e, run env (ExceptT.mk (system .createTemp) >>= f) (some x) = (.error e, some x) ∧
      (env.fails .createTemp ≠ none ∨ x.files env.temp ≠ none)) ∨
    run env (ExceptT.mk (system .createTemp) >>= f) (some x) =
        run env (f env.temp) (some (x.put env.temp (some { data := [], mode := 0o600 }))) ∧
      env.fails .createTemp = none ∧ x.files env.temp = none := by
  have hcall : run env (ExceptT.mk (system .createTemp)) (some x) =
      match env.fails .createTemp with
      | some e => (.error e, some x)
      | none =>
        if x.files env.temp ≠ none then (.error "file exists", some x)
        else (.ok env.temp, some (x.put env.temp (some { data := [], mode := 0o600 }))) := by
    show env.answer .createTemp (some x) = _
    unfold Env.answer
    dsimp only
    cases env.fails .createTemp with
    | some e => rfl
    | none => rfl
  rw [run_bind, hcall]
  cases hfails : env.fails .createTemp with
  | some e => exact .inl ⟨e, rfl, .inl (by simp)⟩
  | none =>
    dsimp only
    by_cases htaken : x.files env.temp ≠ none
    · rw [if_pos htaken]
      exact .inl ⟨_, rfl, .inr htaken⟩
    · rw [if_neg htaken]
      exact .inr ⟨rfl, rfl, not_not.mp htaken⟩

/-- After an error the destination has the contents that it had, and otherwise the new ones. -/
def Atomic (name : String) (data : List UInt8) (d : Option Directory)
    (r : Except String Unit × Option Directory) : Prop :=
  match r.1 with
  | .error _ => contents r.2 name = contents d name
  | .ok () => contents r.2 name = some data

instance (name : String) (data : List UInt8) (d : Option Directory)
    (r : Except String Unit × Option Directory) : Decidable (Atomic name data d r) :=
  match r with
  | (.error _, t) => inferInstanceAs (Decidable (contents t name = contents d name))
  | (.ok (), t) => inferInstanceAs (Decidable (contents t name = some data))

/-- The deferred removal of the temporary file. -/
theorem run_remove (temp : String) (t : Directory) :
    (run env (act (.remove temp)) (some t)).2 =
      some (if env.fails (.act (.remove temp)) = none then t.put temp none else t) := by
  rw [run_act]
  cases env.fails (.act (.remove temp)) with
  | some e => rfl
  | none => rfl

/-- The destination at the end: gone where it was the temporary file and that is removed, and
otherwise what the write has made of it. -/
theorem contents_removed (temp : String) (t : Directory) :
    contents (run env (act (.remove temp)) (some t)).2 name =
      if temp = name ∧ env.fails (.act (.remove temp)) = none then none
      else contents (some t) name := by
  rw [run_remove]
  by_cases hself : temp = name
  · by_cases hfails : env.fails (.act (.remove temp)) = none
    · rw [if_pos hfails, if_pos ⟨hself, hfails⟩]
      simp [contents, filesOf, Directory.put, hself]
    · rw [if_neg hfails, if_neg fun h => hfails h.2]
  · rw [if_neg fun h : temp = name ∧ _ => hself h.1]
    by_cases hfails : env.fails (.act (.remove temp)) = none
    · rw [if_pos hfails]
      simp [contents, filesOf, Directory.put, Ne.symm hself]
    · rw [if_neg hfails]

/-- What a write does that has made its temporary file. -/
theorem run_filled (x : Directory) (hnew : x.files env.temp = none) :
    Atomic name data (some x) (run env (deferring (.remove env.temp)
        (replaceFile env.temp name data mode))
        (some (x.put env.temp (some { data := [], mode := 0o600 })))) ↔
      if env.temp = name then
        env.fails (.act (.remove env.temp)) ≠ none ↔
          ¬ env.Breaks name data mode ∧ ¬ env.Unsynced
      else env.Breaks name data mode ∨ ¬ env.Unsynced ∨ contents (some x) name = some data := by
  let y := x.put env.temp (some { data := [], mode := 0o600 })
  have hy : y.files env.temp = some { data := [], mode := 0o600 } := by simp [y, Directory.put]
  have hold : env.temp = name → contents (some x) name = none := by
    rintro rfl
    simp [contents, filesOf, hnew]
  rw [run_deferring]
  rcases run_replaceFile name data mode hy rfl with
    ⟨hbreaks, e, t, hrun, hthere, hothers⟩ | ⟨hbreaks, r, t, hrun, hreplaced, hr⟩
  · -- the destination was not touched, unless the temporary file is in its place
    rw [hrun, Atomic]
    dsimp only
    rw [contents_removed]
    by_cases hself : env.temp = name
    · rw [if_pos hself, hold hself]
      obtain ⟨f, hf⟩ := Option.ne_none_iff_exists'.mp hthere
      by_cases hfails : env.fails (.act (.remove env.temp)) = none
      · simp [hself, hself ▸ hfails, hbreaks]
      · rw [if_neg fun h => hfails h.2]
        have hthere : contents (some t) name ≠ none := by
          simp [contents, filesOf, ← hself, hf]
        simp [hfails, hbreaks, hthere]
    · have hsame : contents (some t) name = contents (some x) name := by
        have hn := hothers name (Ne.symm hself)
        have hn' : y.files name = x.files name := by simp [y, Directory.put, Ne.symm hself]
        simp [contents, filesOf, hn, hn']
      rw [if_neg fun h => hself h.1, if_neg hself, hsame]
      exact ⟨fun _ => .inl hbreaks, fun _ => rfl⟩
  · -- the destination has the new contents, unless it was the temporary file and is removed
    have hname := congrFun hreplaced name
    rw [Function.update_self] at hname
    have hnow : contents (some t) name = some data := by
      simp [contents, filesOf, hname]
    rw [hrun, Atomic]
    dsimp only
    rw [contents_removed, hnow]
    by_cases hself : env.temp = name
    · rw [if_pos hself, hold hself]
      cases r with
      | error e =>
        have hunsynced : env.Unsynced := hr.mp ⟨e, rfl⟩
        simp [hself, hunsynced]
      | ok u =>
        have hsynced : ¬ env.Unsynced := fun h => by
          obtain ⟨e, he⟩ := hr.mpr h
          cases he
        simp [hself, hsynced, hbreaks]
    · rw [if_neg fun h => hself h.1, if_neg hself]
      cases r with
      | error e =>
        have hunsynced : env.Unsynced := hr.mp ⟨e, rfl⟩
        simp [hbreaks, hunsynced, eq_comm]
      | ok u =>
        have hsynced : ¬ env.Unsynced := fun h => by
          obtain ⟨e, he⟩ := hr.mpr h
          cases he
        simp [hsynced]

/-- `WriteFile` leaves the old contents after an error and the new ones otherwise exactly where it
ends before the temporary file is made, before the rename, or without an error after it, or the
destination had the new contents all along.  Where the destination is absent and has the very name
that the temporary file is given, the deferred removal has to fail exactly when nothing else does. -/
theorem writeFile_atomic_iff (env : Env) (dir name : String) (data : List UInt8) (mode : Nat)
    (d : Option Directory) :
    Atomic name data d (run env (writeFile env.euid dir name data mode) d) ↔
      env.Refuses d ∨
      if env.temp = name then
        env.fails (.act (.remove env.temp)) ≠ none ↔
          ¬ env.Breaks name data mode ∧ ¬ env.Unsynced
      else env.Breaks name data mode ∨ ¬ env.Unsynced ∨ contents d name = some data := by
  have hsame : ∀ {t : Option Directory}, filesOf t = filesOf d → contents t name = contents d name :=
    fun h => by rw [contents, contents, h]
  rw [writeFile, run_bind]
  rcases run_ensurePrivateDir dir d with ⟨hrefuses, e, t, hrun, hfiles⟩ | ⟨hready, x, hrun, hfiles⟩
  · rw [hrun]
    exact ⟨fun _ => .inl (.inl hrefuses), fun _ => hsame hfiles⟩
  · rw [hrun]
    have hx : filesOf (some x) = filesOf d := by
      rw [← hfiles]
      rfl
    dsimp only
    rcases run_createTemp env
        (fun temp => deferring (.remove temp) (replaceFile temp name data mode)) x with
      ⟨e, hcreate, htaken⟩ | ⟨hcreate, hfails, hnew⟩
    · rw [hcreate]
      refine ⟨fun _ => .inl (.inr ?_), fun _ => hsame hx⟩
      rwa [← hx]
    · have hrefuses : ¬ env.Refuses d := by
        rintro (h | h | h)
        · exact hready h
        · exact h hfails
        · rw [← hx] at h
          exact h hnew
      have hatomic : Atomic name data d = Atomic name data (some x) := by
        funext r
        rw [Atomic, Atomic, hsame hx]
      rw [hcreate, hatomic, run_filled x hnew, hsame hx]
      simp [hrefuses]

/-- The directory cannot be synced after the rename: the error says that nothing was stored, and the
new contents are. -/
theorem writeFile_not_atomic :
    let env : Env := {
      euid := 501
      fails := fun c => if c = .act .syncParent then some "input/output error" else none
      temp := ".write-1"
      written := 0 }
    let d : Directory := {
      owner := 501
      mode := 0o700
      files := fun n => if n = "manifest.yml" then some { data := [1], mode := 0o600 } else none }
    ¬ Atomic "manifest.yml" [2] (some d)
      (run env (writeFile 501 "/vms/lab" "manifest.yml" [2] 0o600) (some d)) := by
  decide +kernel

end Write

end Maco.Storage
