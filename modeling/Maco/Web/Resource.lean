import Mathlib.Data.List.Basic
import Mathlib.Logic.Function.Basic

/-! The `useResource` hooks of a page.  Hooks with the same load function share the request that is
in flight, each has its own `pending` and `dirty`, and notifications reach the mounted ones at once.
A request that ends leaves the map of requests in flight before its hooks take up its result, one
after the other; a notification comes when none of them has still to do so. -/

namespace Maco.Web

/-- A request of a load function, with the number of notifications before it and its end. -/
structure SharedRequest (L : Type) where
  load : L
  started : Nat
  outcome : Option Bool := none
  deriving DecidableEq, Repr

/-- One effect of `useResource`: its flags, the request that it awaits, and the requests that the
data and the error of its component come from. -/
structure Hook (L : Type) where
  load : L
  domain : String
  active : Bool := true
  pending : Bool := false
  dirty : Bool := false
  awaiting : Option Nat := none
  data : Option Nat := none
  error : Option Nat := none
  loading : Bool := true
  deriving DecidableEq, Repr

/-- The hooks in the order of their subscriptions, the requests and all notifications so far. -/
structure Page (L : Type) where
  log : List (List String) := []
  requests : List (SharedRequest L) := []
  inFlight : L → Option Nat := fun _ => none
  hooks : List (Hook L) := []

variable {L : Type} [DecidableEq L]

/-- A notification that the listener of a hook acts on. -/
def matching (resources : List String) (domain : String) : Bool :=
  resources.contains "all" || resources.contains domain

/-- The request whose data or error the component shows. -/
def Hook.source (hook : Hook L) : Option Nat := hook.error <|> hook.data

/-- `setData` or `setError`, and `setLoading`. -/
def Hook.take (hook : Hook L) (r : Nat) (ok : Bool) : Hook L :=
  if ok then { hook with data := some r, error := none, loading := false }
  else { hook with error := some r, loading := false }

section Take

variable (hook : Hook L) (r : Nat) (ok : Bool)

omit [DecidableEq L]

@[simp] theorem Hook.take_load : (hook.take r ok).load = hook.load := by cases ok <;> rfl
@[simp] theorem Hook.take_domain : (hook.take r ok).domain = hook.domain := by cases ok <;> rfl
@[simp] theorem Hook.take_active : (hook.take r ok).active = hook.active := by cases ok <;> rfl
@[simp] theorem Hook.take_pending : (hook.take r ok).pending = hook.pending := by cases ok <;> rfl
@[simp] theorem Hook.take_dirty : (hook.take r ok).dirty = hook.dirty := by cases ok <;> rfl

/-- The component shows what the request brought, be it data or an error. -/
@[simp] theorem Hook.take_source : (hook.take r ok).source = some r := by cases ok <;> rfl

end Take

def Page.setHook (p : Page L) (i : Nat) (hook : Hook L) : Page L :=
  { p with hooks := p.hooks.set i hook }

def Page.start (p : Page L) (load : L) : Page L :=
  { p with
    requests := p.requests ++ [{ load, started := p.log.length }]
    inFlight := Function.update p.inFlight load (some p.requests.length) }

def Page.loadShared (p : Page L) (load : L) : Nat × Page L :=
  match p.inFlight load with
  | some r => (r, p)
  | none => (p.requests.length, p.start load)

/-- The hook comes to the head of the loop in `refresh`. -/
def Page.loop (p : Page L) (i : Nat) (hook : Hook L) : Page L :=
  if hook.active && hook.dirty then
    let (r, q) := p.loadShared hook.load
    q.setHook i { hook with dirty := false, awaiting := some r }
  else p.setHook i { hook with pending := false, awaiting := none }

def Page.refresh (p : Page L) (i : Nat) : Page L :=
  match p.hooks[i]? with
  | some hook =>
    if hook.pending then p.setHook i { hook with dirty := true }
    else p.loop i { hook with dirty := true, pending := true }
  | none => p

/-- The listeners are called one after the other. -/
def Page.notify (resources : List String) : List Nat → Page L → Page L
  | [], p => p
  | i :: is, p =>
    match p.hooks[i]? with
    | some hook =>
      if hook.active && matching resources hook.domain then notify resources is (p.refresh i)
      else notify resources is p
    | none => notify resources is p

/-- The request that the hook awaits has ended, so that it is to go on. -/
def Page.resuming (p : Page L) (hook : Hook L) : Bool :=
  match hook.awaiting with
  | some r =>
    match p.requests[r]? with
    | some request => request.outcome.isSome
    | none => false
  | none => false

def Page.finish (p : Page L) (r : Nat) (request : SharedRequest L) (ok : Bool) : Page L :=
  { p with
    requests := p.requests.set r { request with outcome := some ok }
    inFlight := Function.update p.inFlight request.load none }

/-- What can happen: an effect is mounted by a component that shows something already or nothing,
it is cleaned up, a notification comes, `refresh` is called, a request ends, or a hook goes on with
the result that it awaits. -/
inductive PageMove (L : Type) where
  | mount (load : L) (domain : String) (data error : Option Nat)
  | unmount (i : Nat)
  | notify (resources : List String)
  | refresh (i : Nat)
  | complete (r : Nat) (ok : Bool)
  | resume (i : Nat)

def Page.step (p : Page L) : PageMove L → Option (Page L)
  | .mount load domain data error =>
    some (({ p with hooks := p.hooks ++ [{ load, domain, data, error }] } : Page L).refresh
      p.hooks.length)
  | .unmount i =>
    match p.hooks[i]? with
    | some hook => some (p.setHook i { hook with active := false })
    | none => none
  | .notify resources =>
    if p.hooks.any p.resuming then none
    else some (Page.notify resources (List.range p.hooks.length)
      { p with log := p.log ++ [resources] })
  | .refresh i =>
    match p.hooks[i]? with
    | some hook => if hook.active then some (p.refresh i) else none
    | none => none
  | .complete r ok =>
    match p.requests[r]? with
    | some request => if request.outcome.isSome then none else some (p.finish r request ok)
    | none => none
  | .resume i =>
    match p.hooks[i]? with
    | some hook =>
      match hook.awaiting with
      | some r =>
        match p.requests[r]? with
        | some request =>
          match request.outcome with
          | some ok => some (p.loop i (if hook.active then hook.take r ok else hook))
          | none => none
        | none => none
      | none => none
    | none => none

def Page.steps (p : Page L) : List (PageMove L) → Option (Page L)
  | [] => some p
  | m :: ms =>
    match p.step m with
    | some q => q.steps ms
    | none => none

/-- The pages that moves reach, each of which `allowed` admits. -/
inductive Page.Reached (allowed : Page L → PageMove L → Prop) : Page L → Prop
  | start : Reached allowed {}
  | move {p q : Page L} (m : PageMove L) : Reached allowed p → allowed p m → p.step m = some q →
      Reached allowed q

/-- The request was started after the last notification of the domain. -/
def Page.Fresh (p : Page L) (r : Nat) (domain : String) : Prop :=
  ∃ request, p.requests[r]? = some request ∧
    ∀ resources ∈ p.log.drop request.started, matching resources domain = false

/-- No request is in flight, and every hook has taken up the result that it awaited. -/
def Page.Quiet (p : Page L) : Prop :=
  (∀ request ∈ p.requests, request.outcome ≠ none) ∧ p.hooks.any p.resuming = false

/-- No mounted hook is idle under a notification that it acts on while a request of its load
function is in flight, and no hook joins at its mount a request older than a notification. -/
def Page.Undisturbed (p : Page L) : PageMove L → Prop
  | .notify resources => ∀ hook ∈ p.hooks, hook.active → matching resources hook.domain →
    hook.pending = false → p.inFlight hook.load = none
  | .mount load domain _ _ => ∀ r, p.inFlight load = some r → p.Fresh r domain
  | _ => True

/-! ### Requests -/

/-- The requests in flight are those in the map, and none is from the future. -/
structure Page.Flies (p : Page L) : Prop where
  started : ∀ request ∈ p.requests, request.started ≤ p.log.length
  flying : ∀ load (r : Nat), p.inFlight load = some r ↔
    ∃ request : SharedRequest L, p.requests[r]? = some request ∧ request.load = load ∧
      request.outcome = none

/-- Requests have been started or have ended since, and no notification has come. -/
structure Page.Later (p q : Page L) : Prop where
  log : q.log = p.log
  requests : ∀ (r : Nat) (request : SharedRequest L), p.requests[r]? = some request →
    ∃ request' : SharedRequest L, q.requests[r]? = some request' ∧
      request'.load = request.load ∧ request'.started = request.started
  flying : ∀ load (r : Nat), q.inFlight load = some r → p.inFlight load = some r ∨
    ∃ request : SharedRequest L, q.requests[r]? = some request ∧ request.started = q.log.length

omit [DecidableEq L] in
theorem Page.Later.refl (p : Page L) : p.Later p :=
  ⟨rfl, fun _ request h => ⟨request, h, rfl, rfl⟩, fun _ _ h => .inl h⟩

omit [DecidableEq L] in
theorem Page.Fresh.later {p q : Page L} {r : Nat} {domain : String} (h : p.Fresh r domain)
    (hpq : p.Later q) : q.Fresh r domain := by
  obtain ⟨request, hr, hnone⟩ := h
  obtain ⟨request', hr', -, hstarted⟩ := hpq.requests r request hr
  refine ⟨request', hr', ?_⟩
  rw [hstarted, hpq.log]
  exact hnone

omit [DecidableEq L] in
theorem Page.fresh_of_now {p : Page L} {r : Nat} {request : SharedRequest L} {domain : String}
    (hr : p.requests[r]? = some request) (hnow : request.started = p.log.length) :
    p.Fresh r domain := by
  refine ⟨request, hr, ?_⟩
  rw [hnow, List.drop_length]
  exact fun resources h => absurd h List.not_mem_nil

theorem Page.start_get {p : Page L} {load : L} {r : Nat} {request : SharedRequest L} :
    (p.start load).requests[r]? = some request ↔ p.requests[r]? = some request ∨
      (r = p.requests.length ∧ request = { load, started := p.log.length }) := by
  have hget : (p.start load).requests[r]? =
      (p.requests ++ [{ load, started := p.log.length }])[r]? := rfl
  rw [hget, List.getElem?_append]
  split
  · rename_i hlt
    constructor
    · exact .inl
    · rintro (h | ⟨rfl, -⟩)
      · exact h
      · omega
  · rename_i hge
    have hold : p.requests[r]? = none := List.getElem?_eq_none (by omega)
    rw [hold, List.getElem?_singleton]
    split
    · rename_i hzero
      have hr : r = p.requests.length := by omega
      simp [hr, eq_comm]
    · rename_i hzero
      have hr : r ≠ p.requests.length := by omega
      simp [hr]

theorem Page.start_inFlight_self (p : Page L) (load : L) :
    (p.start load).inFlight load = some p.requests.length := Function.update_self ..

theorem Page.start_inFlight_ne (p : Page L) {load other : L} (h : other ≠ load) :
    (p.start load).inFlight other = p.inFlight other := Function.update_of_ne h ..

theorem Page.later_start (p : Page L) (load : L) : p.Later (p.start load) := by
  constructor
  · rfl
  · intro r request hr
    exact ⟨request, Page.start_get.mpr (.inl hr), rfl, rfl⟩
  · intro other r hr
    by_cases hload : other = load
    · subst hload
      rw [Page.start_inFlight_self] at hr
      obtain rfl := Option.some.inj hr
      exact .inr ⟨_, Page.start_get.mpr (.inr ⟨rfl, rfl⟩), rfl⟩
    · rw [Page.start_inFlight_ne p hload] at hr
      exact .inl hr

theorem Page.Flies.start {p : Page L} {load : L} (h : p.Flies) (hnone : p.inFlight load = none) :
    (p.start load).Flies := by
  constructor
  · intro request hmem
    rcases List.mem_append.mp hmem with hold | hnew
    · exact h.started request hold
    · obtain rfl := List.mem_singleton.mp hnew
      exact Nat.le_refl _
  · intro other r
    simp only [Page.start_get]
    by_cases hload : other = load
    · subst hload
      rw [Page.start_inFlight_self]
      constructor
      · intro hr
        obtain rfl := Option.some.inj hr
        exact ⟨_, .inr ⟨rfl, rfl⟩, rfl, rfl⟩
      · rintro ⟨request, hold | ⟨rfl, -⟩, hother, hout⟩
        · have hfly := (h.flying other r).mpr ⟨request, hold, hother, hout⟩
          rw [hnone] at hfly
          contradiction
        · rfl
    · rw [Page.start_inFlight_ne p hload, h.flying other r]
      constructor
      · rintro ⟨request, hr, hother, hout⟩
        exact ⟨request, .inl hr, hother, hout⟩
      · rintro ⟨request, hold | ⟨-, rfl⟩, hother, hout⟩
        · exact ⟨request, hold, hother, hout⟩
        · exact absurd hother.symm hload

/-- A load joins the request in flight or starts one. -/
theorem Page.Flies.loadShared {p : Page L} (h : p.Flies) (load : L) :
    (p.loadShared load).2.Flies ∧ p.Later (p.loadShared load).2 ∧
      (p.loadShared load).2.hooks = p.hooks ∧
      (p.loadShared load).2.inFlight load = some (p.loadShared load).1 := by
  unfold Page.loadShared
  split
  · rename_i r hr
    exact ⟨h, .refl p, rfl, hr⟩
  · rename_i hnone
    exact ⟨h.start hnone, p.later_start load, rfl, Function.update_self ..⟩

theorem Page.finish_get_self {p : Page L} {r : Nat} {request : SharedRequest L}
    (hr : p.requests[r]? = some request) (ok : Bool) :
    (p.finish r request ok).requests[r]? = some { request with outcome := some ok } :=
  List.getElem?_set_self (List.getElem?_eq_some_iff.mp hr).1

theorem Page.finish_get_ne (p : Page L) {r r' : Nat} (request : SharedRequest L) (ok : Bool)
    (h : r' ≠ r) : (p.finish r request ok).requests[r']? = p.requests[r']? :=
  List.getElem?_set_ne (Ne.symm h)

theorem Page.finish_inFlight_self (p : Page L) (r : Nat) (request : SharedRequest L) (ok : Bool) :
    (p.finish r request ok).inFlight request.load = none := Function.update_self ..

theorem Page.finish_inFlight_ne (p : Page L) (r : Nat) (request : SharedRequest L) (ok : Bool)
    {load : L} (h : load ≠ request.load) :
    (p.finish r request ok).inFlight load = p.inFlight load := Function.update_of_ne h ..

theorem Page.later_finish {p : Page L} {r : Nat} {request : SharedRequest L}
    (hr : p.requests[r]? = some request) (ok : Bool) : p.Later (p.finish r request ok) := by
  constructor
  · rfl
  · intro r' request' hr'
    by_cases h : r' = r
    · subst h
      obtain rfl : request = request' := Option.some.inj (hr.symm.trans hr')
      exact ⟨_, Page.finish_get_self hr ok, rfl, rfl⟩
    · exact ⟨request', (p.finish_get_ne request ok h).trans hr', rfl, rfl⟩
  · intro load r' hfly
    by_cases hload : load = request.load
    · rw [hload, Page.finish_inFlight_self] at hfly
      contradiction
    · rw [Page.finish_inFlight_ne p r request ok hload] at hfly
      exact .inl hfly

theorem Page.Flies.finish {p : Page L} {r : Nat} {request : SharedRequest L} (h : p.Flies)
    (hr : p.requests[r]? = some request) (hout : request.outcome = none) (ok : Bool) :
    (p.finish r request ok).Flies := by
  constructor
  · intro request' hmem
    rcases List.mem_or_eq_of_mem_set hmem with hold | rfl
    · exact h.started request' hold
    · exact h.started request (List.mem_of_getElem? hr)
  · intro load r'
    by_cases hload : load = request.load
    · rw [hload, Page.finish_inFlight_self]
      constructor
      · intro hnone
        contradiction
      · rintro ⟨request', hr', hload', hout'⟩
        by_cases heq : r' = r
        · rw [heq, Page.finish_get_self hr] at hr'
          cases hr'
          contradiction
        · -- It would be a second request in flight for the load function.
          rw [Page.finish_get_ne p request ok heq] at hr'
          have h1 := (h.flying request.load r).mpr ⟨request, hr, rfl, hout⟩
          have h2 := (h.flying request.load r').mpr ⟨request', hr', hload', hout'⟩
          exact absurd (Option.some.inj (h2.symm.trans h1)) heq
    · rw [Page.finish_inFlight_ne p r request ok hload, h.flying load r']
      by_cases heq : r' = r
      · rw [heq, hr, Page.finish_get_self hr]
        constructor
        · rintro ⟨request', he, hl, -⟩
          cases he
          exact absurd hl.symm hload
        · rintro ⟨request', he, hl, -⟩
          cases he
          exact absurd hl.symm hload
      · rw [Page.finish_get_ne p request ok heq]

/-! ### Hooks -/

/-- What a hook awaits is a request of its own load function, and a request of it in flight that
it does not await is fresh. -/
structure Hook.Ready (p : Page L) (hook : Hook L) : Prop where
  waits : hook.pending = hook.awaiting.isSome
  awaits : ∀ r, hook.awaiting = some r → ∃ request : SharedRequest L,
    p.requests[r]? = some request ∧ request.load = hook.load
  joins : hook.active = true → ∀ r, p.inFlight hook.load = some r →
    p.Fresh r hook.domain ∨ hook.awaiting = some r
  clean : hook.active = true → hook.pending = false → hook.dirty = false

/-- The request that the hook awaits, or shows if it awaits none, is fresh unless another is to
follow. -/
def Hook.Current (p : Page L) (hook : Hook L) : Prop :=
  hook.active = true → hook.dirty = false →
    ∃ r, (hook.awaiting <|> hook.source) = some r ∧ p.Fresh r hook.domain

structure Page.Ready (p : Page L) : Prop where
  flies : p.Flies
  hooks : ∀ (i : Nat) (hook : Hook L), p.hooks[i]? = some hook → hook.Ready p

def Page.CurrentAt (p : Page L) (i : Nat) : Prop :=
  ∀ hook, p.hooks[i]? = some hook → hook.Current p

/-- What holds of the page between any two moves. -/
structure Page.Sound (p : Page L) : Prop where
  ready : p.Ready
  current : ∀ i, p.CurrentAt i

omit [DecidableEq L] in
theorem Hook.Ready.later {p q : Page L} {hook : Hook L} (h : hook.Ready p) (hpq : p.Later q) :
    hook.Ready q := by
  refine ⟨h.waits, ?_, ?_, h.clean⟩
  · intro r hr
    obtain ⟨request, hget, hload⟩ := h.awaits r hr
    obtain ⟨request', hget', hload', -⟩ := hpq.requests r request hget
    exact ⟨request', hget', hload'.trans hload⟩
  · intro hactive r hfly
    rcases hpq.flying hook.load r hfly with hold | ⟨request, hget, hnow⟩
    · exact (h.joins hactive r hold).imp_left fun hfresh => hfresh.later hpq
    · exact .inl (Page.fresh_of_now hget hnow)

omit [DecidableEq L] in
theorem Hook.Current.later {p q : Page L} {hook : Hook L} (h : hook.Current p) (hpq : p.Later q) :
    hook.Current q := by
  intro hactive hdirty
  obtain ⟨r, hr, hfresh⟩ := h hactive hdirty
  exact ⟨r, hr, hfresh.later hpq⟩

omit [DecidableEq L] in
/-- Requests start or end while the hooks stay. -/
theorem Page.Ready.later {p q : Page L} (h : p.Ready) (hpq : p.Later q) (hq : q.Flies)
    (hhooks : q.hooks = p.hooks) : q.Ready := by
  refine ⟨hq, fun i hook hget => ?_⟩
  rw [hhooks] at hget
  exact (h.hooks i hook hget).later hpq

omit [DecidableEq L] in
theorem Page.CurrentAt.later {p q : Page L} {i : Nat} (h : p.CurrentAt i) (hpq : p.Later q)
    (hhooks : q.hooks = p.hooks) : q.CurrentAt i := by
  intro hook hget
  rw [hhooks] at hget
  exact (h hook hget).later hpq

omit [DecidableEq L] in
theorem Page.Ready.setHook {p : Page L} {i : Nat} {hook : Hook L} (h : p.Ready)
    (hhook : hook.Ready p) : (p.setHook i hook).Ready := by
  refine ⟨⟨h.flies.started, h.flies.flying⟩, fun j other hget => ?_⟩
  have hother : other.Ready p := by
    rcases List.getElem?_set .. ▸ hget with hget
    split at hget
    · split at hget
      · exact Option.some.inj hget ▸ hhook
      · contradiction
    · exact h.hooks j other hget
  exact ⟨hother.waits, hother.awaits, hother.joins, hother.clean⟩

omit [DecidableEq L] in
theorem Page.CurrentAt.setHook_self {p : Page L} {i : Nat} {hook : Hook L} (h : hook.Current p) :
    (p.setHook i hook).CurrentAt i := by
  intro other hget
  rcases List.getElem?_set .. ▸ hget with hget
  split at hget
  · split at hget
    · exact Option.some.inj hget ▸ h
    · contradiction
  · contradiction

omit [DecidableEq L] in
theorem Page.CurrentAt.setHook_ne {p : Page L} {i j : Nat} (hook : Hook L) (h : p.CurrentAt j)
    (hij : j ≠ i) : (p.setHook i hook).CurrentAt j := by
  intro other hget
  exact h other ((List.getElem?_set_ne (Ne.symm hij)).symm.trans hget)

/-- What a step of one hook does: the page is ready, that hook is current, and the others that were
current are so still. -/
structure Page.Refreshes (p q : Page L) (i : Nat) : Prop where
  ready : q.Ready
  self : q.CurrentAt i
  others : ∀ j, j ≠ i → p.CurrentAt j → q.CurrentAt j
  same : ∀ j, j ≠ i → q.hooks[j]? = p.hooks[j]?

omit [DecidableEq L] in
theorem Page.Refreshes.sound {p q : Page L} {i : Nat} (h : p.Refreshes q i)
    (hp : ∀ j, j ≠ i → p.CurrentAt j) : q.Sound := by
  refine ⟨h.ready, fun j => ?_⟩
  by_cases hj : j = i
  · rw [hj]
    exact h.self
  · exact h.others j hj (hp j hj)

/-- At the head of its loop a hook asks again or shows what is fresh. -/
theorem Page.Ready.loop {p : Page L} {i : Nat} {hook : Hook L} (h : p.Ready)
    (hpending : hook.pending = true)
    (hjoins : hook.active = true → ∀ r, p.inFlight hook.load = some r → p.Fresh r hook.domain)
    (hshows : hook.active = true → hook.dirty = false →
      ∃ r, hook.source = some r ∧ p.Fresh r hook.domain) : p.Refreshes (p.loop i hook) i := by
  unfold Page.loop
  split
  · rename_i hasks
    obtain ⟨hactive, -⟩ := Bool.and_eq_true_iff.mp hasks
    obtain ⟨hflies, hlater, hhooks, hfly⟩ := h.flies.loadShared hook.load
    have hready : (p.loadShared hook.load).2.Ready := h.later hlater hflies hhooks
    have hfresh : (p.loadShared hook.load).2.Fresh (p.loadShared hook.load).1 hook.domain := by
      rcases hlater.flying _ _ hfly with hold | ⟨request, hget, hnow⟩
      · exact (hjoins hactive _ hold).later hlater
      · exact Page.fresh_of_now hget hnow
    refine ⟨hready.setHook ⟨?_, ?_, ?_, ?_⟩, .setHook_self fun _ _ => ⟨_, rfl, hfresh⟩,
      fun j hj hcurrent => (hcurrent.later hlater hhooks).setHook_ne _ hj, fun j hj => ?_⟩
    · exact hpending
    · intro r hr
      obtain rfl := Option.some.inj hr
      obtain ⟨request, hget, hload, -⟩ := (hflies.flying _ _).mp hfly
      exact ⟨request, hget, hload⟩
    · intro _ r hr
      exact .inr (hfly.symm.trans hr)
    · exact fun _ _ => rfl
    · rw [← hhooks]
      exact List.getElem?_set_ne (Ne.symm hj)
  · rename_i hrests
    refine ⟨h.setHook ⟨rfl, fun r hr => ?_, ?_, ?_⟩, .setHook_self fun hactive hdirty => ?_,
      fun j hj hcurrent => hcurrent.setHook_ne _ hj,
      fun j hj => List.getElem?_set_ne (Ne.symm hj)⟩
    · contradiction
    · exact fun hactive r hr => .inl (hjoins hactive r hr)
    · intro hactive _
      simpa [show hook.active = true from hactive] using hrests
    · exact hshows hactive hdirty

theorem Page.Ready.refresh {p : Page L} (h : p.Ready) (i : Nat) :
    p.Refreshes (p.refresh i) i := by
  unfold Page.refresh
  split
  · rename_i hook hget
    have hhook := h.hooks i hook hget
    split
    · rename_i hpending
      refine ⟨h.setHook ⟨hhook.waits, hhook.awaits, hhook.joins, fun _ hidle => ?_⟩,
        .setHook_self fun _ hclean => ?_, fun j hj hcurrent => hcurrent.setHook_ne _ hj,
        fun j hj => List.getElem?_set_ne (Ne.symm hj)⟩
      · rw [show hook.pending = false from hidle] at hpending
        contradiction
      · contradiction
    · rename_i hidle
      refine h.loop rfl (fun hactive r hr => ?_) fun _ hclean => ?_
      · rcases hhook.joins hactive r hr with hfresh | hawaits
        · exact hfresh
        · rw [hhook.waits, hawaits] at hidle
          exact absurd rfl hidle
      · contradiction
  · rename_i hnone
    refine ⟨h, fun hook hget => ?_, fun _ _ hcurrent => hcurrent, fun _ _ => rfl⟩
    rw [hnone] at hget
    contradiction

/-- When the listeners have been called, every hook is current that was so or that matched. -/
theorem Page.Ready.notify {resources : List String} (is : List Nat) {p : Page L} (h : p.Ready)
    (hcurrent : ∀ j, p.CurrentAt j ∨ (j ∈ is ∧ ∃ hook, p.hooks[j]? = some hook ∧
      (hook.active && matching resources hook.domain) = true)) :
    (Page.notify resources is p).Sound := by
  induction is generalizing p with
  | nil =>
    refine ⟨h, fun j => ?_⟩
    rcases hcurrent j with hj | ⟨hmem, -⟩
    · exact hj
    · exact absurd hmem List.not_mem_nil
  | cons i is ih =>
    rw [Page.notify]
    split
    · rename_i hook hget
      split
      · have hrefresh := h.refresh i
        refine ih hrefresh.ready fun j => ?_
        by_cases hj : j = i
        · subst hj
          exact .inl hrefresh.self
        · rcases hcurrent j with hold | ⟨hmem, other, hother, hacts⟩
          · exact .inl (hrefresh.others j hj hold)
          · rcases List.mem_cons.mp hmem with heq | hmem
            · exact absurd heq hj
            · exact .inr ⟨hmem, other, (hrefresh.same j hj).trans hother, hacts⟩
      · rename_i hquiet
        refine ih h fun j => ?_
        rcases hcurrent j with hold | ⟨hmem, other, hother, hacts⟩
        · exact .inl hold
        · rcases List.mem_cons.mp hmem with rfl | hmem
          · rw [hget] at hother
            cases hother
            exact absurd hacts hquiet
          · exact .inr ⟨hmem, other, hother, hacts⟩
    · rename_i hnone
      refine ih h fun j => ?_
      rcases hcurrent j with hold | ⟨hmem, other, hother, hacts⟩
      · exact .inl hold
      · rcases List.mem_cons.mp hmem with rfl | hmem
        · rw [hnone] at hother
          contradiction
        · exact .inr ⟨hmem, other, hother, hacts⟩

omit [DecidableEq L] in
/-- A notification of other domains leaves a request fresh. -/
theorem Page.Fresh.append {p : Page L} {r : Nat} {domain : String} {resources : List String}
    (h : p.Fresh r domain) (hflies : p.Flies) (hother : matching resources domain = false) :
    ({ p with log := p.log ++ [resources] } : Page L).Fresh r domain := by
  obtain ⟨request, hget, hnone⟩ := h
  refine ⟨request, hget, fun notified hmem => ?_⟩
  have hle := hflies.started request (List.mem_of_getElem? hget)
  rw [List.drop_append_of_le_length hle] at hmem
  rcases List.mem_append.mp hmem with hold | hnew
  · exact hnone notified hold
  · rw [List.mem_singleton.mp hnew]
    exact hother

omit [DecidableEq L] in
/-- Where no hook has still to go on, what a hook awaits is in flight. -/
theorem Page.Ready.awaited {p : Page L} (h : p.Ready) (hdrained : p.hooks.any p.resuming = false)
    {i r : Nat} {hook : Hook L} (hget : p.hooks[i]? = some hook) (hr : hook.awaiting = some r) :
    p.inFlight hook.load = some r := by
  obtain ⟨request, hrequest, hload⟩ := (h.hooks i hook hget).awaits r hr
  refine (h.flies.flying hook.load r).mpr ⟨request, hrequest, hload, ?_⟩
  have hresuming := List.any_eq_false.mp hdrained hook (List.mem_of_getElem? hget)
  simpa [Page.resuming, hr, hrequest] using hresuming

omit [DecidableEq L] in
/-- A notification has come, and the listeners are to be called. -/
theorem Page.Sound.log {p : Page L} {resources : List String} (h : p.Sound)
    (hdrained : p.hooks.any p.resuming = false) (hcalm : p.Undisturbed (.notify resources)) :
    ({ p with log := p.log ++ [resources] } : Page L).Ready ∧
      ∀ j, ({ p with log := p.log ++ [resources] } : Page L).CurrentAt j ∨
        ∃ hook, p.hooks[j]? = some hook ∧
          (hook.active && matching resources hook.domain) = true := by
  refine ⟨⟨⟨fun request hmem => ?_, h.ready.flies.flying⟩, fun i hook hget => ?_⟩, fun j => ?_⟩
  · rw [List.length_append]
    exact Nat.le_add_right_of_le (h.ready.flies.started request hmem)
  · have hhook := h.ready.hooks i hook hget
    refine ⟨hhook.waits, hhook.awaits, fun hactive r hfly => ?_, hhook.clean⟩
    cases hmatch : matching resources hook.domain with
    | false =>
      exact (hhook.joins hactive r hfly).imp_left fun hfresh =>
        hfresh.append h.ready.flies hmatch
    | true =>
      cases hawaits : hook.awaiting with
      | none =>
        have hidle : hook.pending = false := by rw [hhook.waits, hawaits]; rfl
        have hnone := hcalm hook (List.mem_of_getElem? hget) hactive hmatch hidle
        rw [show p.inFlight hook.load = some r from hfly] at hnone
        contradiction
      | some r' =>
        have hfly' := h.ready.awaited hdrained hget hawaits
        exact .inr (hfly'.symm.trans hfly)
  · by_cases hacts : ∃ hook, p.hooks[j]? = some hook ∧
        (hook.active && matching resources hook.domain) = true
    · exact .inr hacts
    · refine .inl fun hook hget hactive hdirty => ?_
      have hmatch : matching resources hook.domain = false := by
        by_contra hne
        exact hacts ⟨hook, hget, by simpa [hactive] using hne⟩
      obtain ⟨r, hr, hfresh⟩ := h.current j hook hget hactive hdirty
      exact ⟨r, hr, hfresh.append h.ready.flies hmatch⟩

/-- A hook goes on with the result of the request that it awaited. -/
theorem Page.Sound.resume {p : Page L} {i r : Nat} {hook : Hook L} {request : SharedRequest L}
    {ok : Bool} (h : p.Sound) (hget : p.hooks[i]? = some hook) (hr : hook.awaiting = some r)
    (hrequest : p.requests[r]? = some request) (hout : request.outcome = some ok) :
    (p.loop i (if hook.active then hook.take r ok else hook)).Sound := by
  have hhook := h.ready.hooks i hook hget
  have hpending : hook.pending = true := by
    rw [hhook.waits, hr]
    rfl
  refine Page.Refreshes.sound (i := i) ?_ fun j _ => h.current j
  split
  · rename_i hactive
    refine h.ready.loop (by simpa using hpending) (fun _ r' hfly => ?_) fun _ hclean => ?_
    · rw [Hook.take_load] at hfly
      rw [Hook.take_domain]
      rcases hhook.joins hactive r' hfly with hfresh | hawaits
      · exact hfresh
      · -- The request has ended, so it is not the one in flight.
        obtain rfl : r = r' := Option.some.inj (hr.symm.trans hawaits)
        obtain ⟨request', hget', -, hout'⟩ := (h.ready.flies.flying _ _).mp hfly
        rw [hrequest] at hget'
        cases hget'
        rw [hout] at hout'
        contradiction
    · rw [Hook.take_dirty] at hclean
      rw [Hook.take_source, Hook.take_domain]
      obtain ⟨r', hr', hfresh⟩ := h.current i hook hget hactive hclean
      rw [hr] at hr'
      cases hr'
      exact ⟨r, rfl, hfresh⟩
  · rename_i hgone
    exact h.ready.loop hpending (fun hactive => absurd hactive hgone)
      fun hactive => absurd hactive hgone

/-- A new hook joins a request that is fresh, or starts one. -/
theorem Page.Sound.mount {p : Page L} {load : L} {domain : String} {data error : Option Nat}
    (h : p.Sound) (hcalm : p.Undisturbed (.mount load domain data error)) :
    (({ p with hooks := p.hooks ++ [{ load, domain, data, error }] } : Page L).refresh
      p.hooks.length).Sound := by
  have hcases : ∀ (j : Nat) (hook : Hook L),
      (p.hooks ++ [({ load, domain, data, error } : Hook L)])[j]? = some hook →
      p.hooks[j]? = some hook ∨ (j = p.hooks.length ∧ hook = { load, domain, data, error }) := by
    intro j hook hget
    rw [List.getElem?_append] at hget
    split at hget
    · exact .inl hget
    · rename_i hge
      rw [List.getElem?_singleton] at hget
      split at hget
      · exact .inr ⟨by omega, (Option.some.inj hget).symm⟩
      · contradiction
  have hready :
      ({ p with hooks := p.hooks ++ [{ load, domain, data, error }] } : Page L).Ready := by
    refine ⟨⟨h.ready.flies.started, h.ready.flies.flying⟩, fun j hook hget => ?_⟩
    rcases hcases j hook hget with hold | ⟨-, rfl⟩
    · have hhook := h.ready.hooks j hook hold
      exact ⟨hhook.waits, hhook.awaits, hhook.joins, hhook.clean⟩
    · refine ⟨rfl, fun r hr => ?_, fun _ r hfly => .inl (hcalm r hfly), fun _ _ => rfl⟩
      contradiction
  refine (hready.refresh _).sound fun j hj hook hget => ?_
  rcases hcases j hook hget with hold | ⟨heq, -⟩
  · exact h.current j hook hold
  · exact absurd heq hj

omit [DecidableEq L] in
theorem Page.Sound.unmount {p : Page L} {i : Nat} {hook : Hook L} (h : p.Sound)
    (hget : p.hooks[i]? = some hook) : (p.setHook i { hook with active := false }).Sound := by
  have hhook := h.ready.hooks i hook hget
  refine ⟨h.ready.setHook ⟨hhook.waits, hhook.awaits, fun hactive => ?_, fun hactive => ?_⟩,
    fun j => ?_⟩
  · contradiction
  · contradiction
  · by_cases hj : j = i
    · subst hj
      refine .setHook_self fun hactive => ?_
      contradiction
    · exact (h.current j).setHook_ne _ hj

/-- One move keeps the invariant if it leaves every hook undisturbed. -/
theorem Page.Sound.step {p q : Page L} {m : PageMove L} (h : p.Sound) (hcalm : p.Undisturbed m)
    (hstep : p.step m = some q) : q.Sound := by
  cases m with
  | mount load domain data error =>
    cases hstep
    exact h.mount hcalm
  | unmount i =>
    rw [Page.step] at hstep
    split at hstep
    · rename_i hook hget
      cases hstep
      exact h.unmount hget
    · contradiction
  | notify resources =>
    rw [Page.step] at hstep
    split at hstep
    · contradiction
    · rename_i hdrained
      cases hstep
      obtain ⟨hready, hcurrent⟩ := h.log (by simpa using hdrained) hcalm
      refine hready.notify _ fun j => ?_
      rcases hcurrent j with hold | ⟨hook, hget, hacts⟩
      · exact .inl hold
      · exact .inr ⟨List.mem_range.mpr (List.getElem?_eq_some_iff.mp hget).1, hook, hget, hacts⟩
  | refresh i =>
    rw [Page.step] at hstep
    split at hstep
    · split at hstep
      · cases hstep
        exact (h.ready.refresh i).sound fun j _ => h.current j
      · contradiction
    · contradiction
  | complete r ok =>
    rw [Page.step] at hstep
    split at hstep
    · rename_i request hget
      split at hstep
      · contradiction
      · rename_i hout
        cases hstep
        have hlater := Page.later_finish hget ok
        have hflies := h.ready.flies.finish hget (by simpa using hout) ok
        exact ⟨h.ready.later hlater hflies rfl, fun j => (h.current j).later hlater rfl⟩
    · contradiction
  | resume i =>
    rw [Page.step] at hstep
    split at hstep
    · rename_i hook hget
      split at hstep
      · rename_i r hr
        split at hstep
        · rename_i request hrequest
          split at hstep
          · rename_i ok hout
            cases hstep
            exact h.resume hget hr hrequest hout
          · contradiction
        · contradiction
      · contradiction
    · contradiction

theorem Page.Reached.sound {p : Page L} (h : p.Reached Page.Undisturbed) : p.Sound := by
  induction h with
  | start =>
    refine ⟨⟨⟨fun request hmem => absurd hmem List.not_mem_nil, fun load r => ?_⟩,
      fun i hook hget => ?_⟩, fun i hook hget => ?_⟩
    · constructor
      · intro hfly
        contradiction
      · rintro ⟨request, hget, -⟩
        contradiction
    · contradiction
    · contradiction
  | move m _ hcalm hstep ih => exact ih.step hcalm hstep

/-- Once no request is in flight, every mounted hook shows the data or the error of a request that
was started after the last notification of its domain, if no hook joined an older one. -/
theorem resource_fresh {p : Page L} (h : p.Reached Page.Undisturbed) (hquiet : p.Quiet) {i : Nat}
    {hook : Hook L} (hget : p.hooks[i]? = some hook) (hactive : hook.active = true) :
    ∃ r, hook.source = some r ∧ p.Fresh r hook.domain := by
  obtain ⟨hsettled, hdrained⟩ := hquiet
  have hsound := h.sound
  have hhook := hsound.ready.hooks i hook hget
  have hnone : hook.awaiting = none := by
    cases hr : hook.awaiting with
    | none => rfl
    | some r =>
      have hfly := hsound.ready.awaited hdrained hget hr
      obtain ⟨request, hrequest, -, hout⟩ := (hsound.ready.flies.flying _ _).mp hfly
      exact absurd hout (hsettled request (List.mem_of_getElem? hrequest))
  have hidle : hook.pending = false := by
    rw [hhook.waits, hnone]
    rfl
  obtain ⟨r, hr, hfresh⟩ := hsound.current i hook hget hactive (hhook.clean hactive hidle)
  rw [hnone] at hr
  exact ⟨r, hr, hfresh⟩

/-- A hook that loads, is notified and loads again. -/
def reloading : List (PageMove String) :=
  [.mount "listVMs" "vms" none none, .complete 0 true, .resume 0, .notify ["vms"],
    .complete 1 true, .resume 0]

theorem resource_fresh_reloading :
    ∃ p hook r, ({} : Page String).steps reloading = some p ∧ p.hooks[0]? = some hook ∧
      hook.source = some r ∧ p.Fresh r "vms" := by
  have hmount : Page.Undisturbed ({} : Page String) (.mount "listVMs" "vms" none none) := by
    intro r hr
    contradiction
  have hloaded := Page.Reached.move (.resume 0) (.move (.complete 0 true)
    (.move (.mount "listVMs" "vms" none none) .start hmount rfl) trivial rfl) trivial rfl
  have hreached := Page.Reached.move (.resume 0) (.move (.complete 1 true)
    (.move (.notify ["vms"]) hloaded (fun hook hmem _ _ _ => by
      obtain rfl := List.mem_singleton.mp hmem
      rfl) rfl) trivial rfl) trivial rfl
  obtain ⟨r, hr, hfresh⟩ := resource_fresh hreached ⟨by decide, rfl⟩ (i := 0) rfl rfl
  exact ⟨_, _, r, rfl, rfl, hr, hfresh⟩

theorem Page.reached_steps {p q : Page L} {ms : List (PageMove L)}
    (hp : p.Reached fun _ _ => True) (h : p.steps ms = some q) : q.Reached fun _ _ => True := by
  induction ms generalizing p with
  | nil =>
    obtain rfl : p = q := Option.some.inj h
    exact hp
  | cons m ms ih =>
    rw [Page.steps] at h
    split at h
    · rename_i q' hq'
      exact ih (.move m hp trivial hq') h
    · contradiction

/-- Two hooks of one load function: while the first reloads by hand, a notification comes, and the
second joins the request that was started before it. -/
def joining : List (PageMove String) :=
  [.mount "listVMs" "vms" none none, .complete 0 true, .resume 0,
    .mount "listVMs" "vms" none none, .complete 1 true, .resume 1,
    .refresh 0, .notify ["vms"], .complete 2 true, .resume 0, .resume 1, .complete 3 true,
    .resume 0]

theorem resource_stale :
    ∃ p hook, ({} : Page String).steps joining = some p ∧ p.Reached (fun _ _ => True) ∧ p.Quiet ∧
      p.hooks[1]? = some hook ∧ hook.active = true ∧
      ¬∃ r, hook.source = some r ∧ p.Fresh r hook.domain := by
  have hreached := Page.reached_steps .start (show ({} : Page String).steps joining = some _ from rfl)
  refine ⟨_, _, rfl, hreached, ⟨by decide, rfl⟩, rfl, rfl, ?_⟩
  rintro ⟨r, hr, request, hget, hnone⟩
  cases hr
  cases hget
  have := hnone ["vms"] (by decide)
  contradiction

end Maco.Web
