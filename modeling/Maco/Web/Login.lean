import Maco.Lib.Table
import Maco.Lib.TokenBucket
import Mathlib.Data.List.Dedup
import Mathlib.Data.List.Perm.Subperm

/-! The guard of the login.  An attempt asks the one limiter of all clients and then that of its own
client, and takes one of four slots until it is done. -/

namespace Maco.Web

open TokenBucket

/-- Two a second, eight at once; times are in nanoseconds. -/
def globalRate : Rate := ⟨500000000, 8⟩

/-- One in twelve seconds, five at once. -/
def clientRate : Rate := ⟨12000000000, 5⟩

def tenMinutes : Nat := 600000000000

structure LoginClient where
  limiter : Bucket
  seen : Nat

structure LoginGuard where
  clients : Table LoginClient := []
  global : Bucket := .full globalRate
  slots : Nat := 0

/-- What becomes of an attempt; its caller sees only whether it is allowed. -/
inductive LoginDecision where
  | allowed
  | tableFull
  | globalRefused
  | clientRefused
  | noSlot
  deriving DecidableEq

/-- The host of a remote address, where it has a port; `splitHost` is `net.SplitHostPort`. -/
def clientIP (splitHost : String → Option String) (remoteAddr : String) : String :=
  (splitHost remoteAddr).getD remoteAddr

/-- The clients that have not been away for more than ten minutes. -/
def LoginGuard.evicted (g : LoginGuard) (now : Nat) : LoginGuard :=
  { g with clients := g.clients.filter fun e => !(tenMinutes < now - e.2.seen) }

/-- The limiter of a client; that of a new one is full. -/
def LoginGuard.limiterOf (g : LoginGuard) (ip : String) : Bucket :=
  ((g.clients.get ip).map LoginClient.limiter).getD (Bucket.full clientRate)

/-- What the limiter of a client holds at a time. -/
def LoginGuard.content (g : LoginGuard) (ip : String) (t : Nat) : Nat :=
  (g.limiterOf ip).content clientRate t

def LoginGuard.acquire (splitHost : String → Option String) (g : LoginGuard) (now : Nat)
    (remoteAddr : String) : LoginDecision × LoginGuard :=
  let g := g.evicted now
  let ip := clientIP splitHost remoteAddr
  if g.clients.get ip = none ∧ 4096 ≤ g.clients.length then (.tableFull, g)
  else
    let limiter := g.limiterOf ip
    let (ok, global) := g.global.allow globalRate now
    if !ok then (.globalRefused, { g with clients := g.clients.put ip ⟨limiter, now⟩ })
    else
      let (ok, limiter) := limiter.allow clientRate now
      let g := { g with global, clients := g.clients.put ip ⟨limiter, now⟩ }
      if !ok then (.clientRefused, g)
      else if g.slots < 4 then (.allowed, { g with slots := g.slots + 1 })
      else (.noSlot, g)

/-! ### Runs -/

/-- What reaches the guard: an attempt, at a time and from a remote address, and the end of one that
was allowed. -/
inductive LoginEvent where
  | attempt (now : Nat) (remoteAddr : String)
  | release

def LoginGuard.next (splitHost : String → Option String) (g : LoginGuard) : LoginEvent → LoginGuard
  | .attempt now remoteAddr => (g.acquire splitHost now remoteAddr).2
  | .release => { g with slots := g.slots - 1 }

/-- A step of two runs side by side: both make it, or only one. -/
inductive Paired where
  | both (e : LoginEvent)
  | left (now : Nat) (remoteAddr : String)
  | right (now : Nat) (remoteAddr : String)

/-- The attempt of a step. -/
def Paired.attempt : Paired → Option (Nat × String)
  | .both (.attempt now remoteAddr) | .left now remoteAddr | .right now remoteAddr =>
    some (now, remoteAddr)
  | .both .release => none

section Runs

variable (splitHost : String → Option String)

def Paired.leftNext (g : LoginGuard) : Paired → LoginGuard
  | .both e => g.next splitHost e
  | .left now remoteAddr => g.next splitHost (.attempt now remoteAddr)
  | .right _ _ => g

def Paired.rightNext (h : LoginGuard) : Paired → LoginGuard
  | .both e => h.next splitHost e
  | .left _ _ => h
  | .right now remoteAddr => h.next splitHost (.attempt now remoteAddr)

/-- `P` holds at every step of the two runs. -/
def Throughout (P : LoginGuard → LoginGuard → Paired → Prop) :
    LoginGuard → LoginGuard → List Paired → Prop
  | _, _, [] => True
  | g, h, step :: steps =>
    P g h step ∧ Throughout P (step.leftNext splitHost g) (step.rightNext splitHost h) steps

/-- A step that one run makes alone is an attempt from `ip`, which that client's own limiter
refuses. -/
def OwnRefusal (ip : String) (g h : LoginGuard) : Paired → Prop
  | .both _ => True
  | .left now remoteAddr => clientIP splitHost remoteAddr = ip ∧
      (g.acquire splitHost now remoteAddr).1 = .clientRefused
  | .right now remoteAddr => clientIP splitHost remoteAddr = ip ∧
      (h.acquire splitHost now remoteAddr).1 = .clientRefused

/-- At an attempt of both runs from a client that its own limiter would allow, the limiter of all
clients has a token in both runs, or in neither. -/
def SameToken (g h : LoginGuard) : Paired → Prop
  | .both (.attempt now remoteAddr) =>
    clientRate.every ≤ g.content (clientIP splitHost remoteAddr) now →
      (globalRate.every ≤ g.global.content globalRate now ↔
        globalRate.every ≤ h.global.content globalRate now)
  | _ => True

/-- An attempt from another address than `ip` is allowed in both runs, or refused in both. -/
def SameDecision (ip : String) (g h : LoginGuard) : Paired → Prop
  | .both (.attempt now remoteAddr) => clientIP splitHost remoteAddr ≠ ip →
      ((g.acquire splitHost now remoteAddr).1 = .allowed ↔
        (h.acquire splitHost now remoteAddr).1 = .allowed)
  | _ => True

/-- The times of the attempts do not go back. -/
def Timed : Nat → List Paired → Prop
  | _, [] => True
  | now, step :: steps =>
    match step.attempt with
    | none => Timed now steps
    | some (t, _) => now ≤ t ∧ Timed t steps

/-- The clients of the attempts. -/
def clientsOf (steps : List Paired) : List String :=
  (steps.filterMap Paired.attempt).map fun a => clientIP splitHost a.2

instance {P : LoginGuard → LoginGuard → Paired → Prop} [∀ g h step, Decidable (P g h step)] :
    ∀ g h steps, Decidable (Throughout splitHost P g h steps)
  | _, _, [] => inferInstanceAs (Decidable True)
  | g, h, step :: steps =>
    have : Decidable (Throughout splitHost P (step.leftNext splitHost g)
      (step.rightNext splitHost h) steps) := instDecidableThroughout _ _ steps
    inferInstanceAs (Decidable (P g h step ∧ _))

instance : ∀ now steps, Decidable (Timed now steps)
  | _, [] => inferInstanceAs (Decidable True)
  | now, .both .release :: steps => instDecidableTimed now steps
  | now, .both (.attempt t _) :: steps | now, .left t _ :: steps | now, .right t _ :: steps =>
    have := instDecidableTimed t steps
    inferInstanceAs (Decidable (now ≤ t ∧ _))

instance (ip : String) (g h : LoginGuard) : ∀ step, Decidable (OwnRefusal splitHost ip g h step)
  | .both _ => inferInstanceAs (Decidable True)
  | .left _ _ | .right _ _ => inferInstanceAs (Decidable (_ ∧ _))

instance (g h : LoginGuard) : ∀ step, Decidable (SameToken splitHost g h step)
  | .both (.attempt _ _) => inferInstanceAs (Decidable (_ → _))
  | .both .release | .left _ _ | .right _ _ => inferInstanceAs (Decidable True)

instance (ip : String) (g h : LoginGuard) : ∀ step, Decidable (SameDecision splitHost ip g h step)
  | .both (.attempt _ _) => inferInstanceAs (Decidable (_ → _))
  | .both .release | .left _ _ | .right _ _ => inferInstanceAs (Decidable True)

end Runs

/-! ### What an attempt leaves -/

/-- A table of some of the clients, each last seen no earlier than it last took a token. -/
structure Sane (ips : List String) (now : Nat) (g : LoginGuard) : Prop where
  nodup : (g.clients.map Prod.fst).Nodup
  known : ∀ e ∈ g.clients, e.1 ∈ ips
  aged : ∀ e ∈ g.clients, e.2.limiter.last ≤ e.2.seen ∧ e.2.seen ≤ now

section Attempt

variable {splitHost : String → Option String} {ips : List String} {now t : Nat} {g : LoginGuard}
  {ip remoteAddr : String}

theorem Sane.evicted (hg : Sane ips now g) (ht : now ≤ t) : Sane ips t (g.evicted t) where
  nodup := hg.nodup.sublist (List.filter_sublist.map _)
  known e he := hg.known e (List.mem_of_mem_filter he)
  aged e he :=
    have h := hg.aged e (List.mem_of_mem_filter he)
    ⟨h.1, Nat.le_trans h.2 ht⟩

/-- A client that has been away for ten minutes has a full limiter, as a new one has. -/
theorem Sane.content_evicted (hg : Sane ips now g) {later : Nat} (ht : t ≤ later) (ip : String) :
    (g.evicted t).content ip later = g.content ip later := by
  have hmem : ∀ c, (g.evicted t).clients.get ip = some c → g.clients.get ip = some c := fun c hc =>
    Table.get_of_mem hg.nodup (List.mem_of_mem_filter (Table.mem_of_get hc))
  cases hc : (g.evicted t).clients.get ip with
  | some c =>
    unfold LoginGuard.content LoginGuard.limiterOf
    rw [hc, hmem c hc]
  | none =>
    unfold LoginGuard.content LoginGuard.limiterOf
    rw [hc]
    cases hold : g.clients.get ip with
    | none => rfl
    | some c =>
      have haway : tenMinutes < t - c.seen := by
        by_contra hhere
        have hkept : (ip, c) ∈ (g.evicted t).clients :=
          List.mem_filter.mpr ⟨Table.mem_of_get hold, by simpa using hhere⟩
        rw [Table.get_eq_none] at hc
        exact hc (List.mem_map.mpr ⟨_, hkept, rfl⟩)
      have hlast := (hg.aged _ (Table.mem_of_get hold)).1
      simp only [Option.map_none, Option.getD_none, content_full, Option.map_some, Option.getD_some]
      rw [content_idle]
      simp only [tenMinutes, Rate.capacity, clientRate] at *
      omega

theorem Sane.length_le (hg : Sane ips now g) : g.clients.length ≤ ips.dedup.length := by
  rw [← List.length_map (f := Prod.fst)]
  refine (List.subperm_of_subset hg.nodup fun k hk => ?_).length_le
  obtain ⟨e, he, rfl⟩ := List.mem_map.mp hk
  exact List.mem_dedup.mpr (hg.known e he)

theorem Sane.put (hg : Sane ips t g) (hip : ip ∈ ips) {limiter : Bucket} (hlast : limiter.last ≤ t)
    {global : Bucket} {slots : Nat} :
    Sane ips t ⟨g.clients.put ip ⟨limiter, t⟩, global, slots⟩ where
  nodup := Table.nodup_put hg.nodup ip _
  known e he := by
    rcases List.mem_cons.mp he with rfl | he
    · exact hip
    · exact hg.known e (List.mem_of_mem_filter he)
  aged e he := by
    rcases List.mem_cons.mp he with rfl | he
    · exact ⟨hlast, Nat.le_refl t⟩
    · exact hg.aged e (List.mem_of_mem_filter he)

/-- What becomes of an attempt, by the tokens and the slots. -/
def decision (token : Prop) [Decidable token] (content slots : Nat) : LoginDecision :=
  if ¬token then .globalRefused
  else if content < clientRate.every then .clientRefused
  else if slots < 4 then .allowed
  else .noSlot

/-- What the limiters of the clients hold after an attempt from `ip`: one that its own limiter allows
takes a token there. -/
def contentAfter (d : LoginDecision) (ip : String) (now : Nat) (content : String → Nat → Nat)
    (other : String) (t : Nat) : Nat :=
  if (d = .allowed ∨ d = .noSlot) ∧ other = ip then
    min clientRate.capacity (content ip now - clientRate.every + (t - now))
  else content other t

/-- An attempt is decided by the tokens and the slots, and what it leaves depends on the decision. -/
structure Decided (splitHost : String → Option String) (ips : List String) (now : Nat)
    (g : LoginGuard) (remoteAddr : String) : Prop where
  decides : (g.acquire splitHost now remoteAddr).1 =
    decision (globalRate.every ≤ g.global.content globalRate now)
      (g.content (clientIP splitHost remoteAddr) now) g.slots
  sane : Sane ips now (g.acquire splitHost now remoteAddr).2
  content : ∀ other t, now ≤ t → (g.acquire splitHost now remoteAddr).2.content other t =
    contentAfter (g.acquire splitHost now remoteAddr).1 (clientIP splitHost remoteAddr) now
      g.content other t
  slots : (g.acquire splitHost now remoteAddr).2.slots =
    if (g.acquire splitHost now remoteAddr).1 = .allowed then g.slots + 1 else g.slots

theorem content_put {clients : Table LoginClient} {limiter global : Bucket} {slots seen : Nat}
    {other : String} :
    (LoginGuard.mk (clients.put ip ⟨limiter, seen⟩) global slots).content other t =
      if other = ip then limiter.content clientRate t
      else (LoginGuard.mk clients global slots).content other t := by
  unfold LoginGuard.content LoginGuard.limiterOf
  rw [Table.get_put]
  split <;> rfl

/-- Where the table has room, an attempt asks the two limiters. -/
theorem acquire_cases (splitHost : String → Option String) (remoteAddr : String)
    (hroom : ¬4096 ≤ (g.evicted now).clients.length) :
    let ip := clientIP splitHost remoteAddr
    let limiter := (g.evicted now).limiterOf ip
    let clients := fun b => (g.evicted now).clients.put ip ⟨b, now⟩
    let global := (g.global.allow globalRate now).2
    (g.global.content globalRate now < globalRate.every ∧
      g.acquire splitHost now remoteAddr = (.globalRefused, ⟨clients limiter, g.global, g.slots⟩)) ∨
    (globalRate.every ≤ g.global.content globalRate now ∧
      ((limiter.content clientRate now < clientRate.every ∧ g.acquire splitHost now remoteAddr =
          (.clientRefused, ⟨clients limiter, global, g.slots⟩)) ∨
        (clientRate.every ≤ limiter.content clientRate now ∧ g.acquire splitHost now remoteAddr =
          if g.slots < 4 then
            (.allowed, ⟨clients (limiter.allow clientRate now).2, global, g.slots + 1⟩)
          else (.noSlot, ⟨clients (limiter.allow clientRate now).2, global, g.slots⟩)))) := by
  intro ip limiter clients global
  have hacquire : g.acquire splitHost now remoteAddr =
      if !(g.global.allow globalRate now).1 then
        (.globalRefused, ⟨clients limiter, g.global, g.slots⟩)
      else if !(limiter.allow clientRate now).1 then
        (.clientRefused, ⟨clients (limiter.allow clientRate now).2, global, g.slots⟩)
      else if g.slots < 4 then
        (.allowed, ⟨clients (limiter.allow clientRate now).2, global, g.slots + 1⟩)
      else (.noSlot, ⟨clients (limiter.allow clientRate now).2, global, g.slots⟩) := by
    unfold LoginGuard.acquire
    rw [if_neg fun h => hroom h.2]
    rfl
  rw [hacquire]
  rcases Nat.lt_or_ge (g.global.content globalRate now) globalRate.every with htoken | htoken
  · exact .inl ⟨htoken, by rw [allow_of_lt htoken]; rfl⟩
  refine .inr ⟨htoken, ?_⟩
  rw [allow_of_le htoken]
  rcases Nat.lt_or_ge (limiter.content clientRate now) clientRate.every with hown | hown
  · exact .inl ⟨hown, by rw [allow_of_lt hown]; rfl⟩
  · exact .inr ⟨hown, by rw [allow_of_le hown]; rfl⟩

/-- An attempt is decided as it should be where it leaves its client a limiter that is. -/
theorem Sane.decided_of (hg : Sane ips t g) (ht : t ≤ now)
    (hip : clientIP splitHost remoteAddr ∈ ips) {d : LoginDecision} {limiter global : Bucket}
    {slots : Nat}
    (hacquire : g.acquire splitHost now remoteAddr = (d, ⟨(g.evicted now).clients.put
      (clientIP splitHost remoteAddr) ⟨limiter, now⟩, global, slots⟩))
    (hd : d = decision (globalRate.every ≤ g.global.content globalRate now)
      (g.content (clientIP splitHost remoteAddr) now) g.slots)
    (hlast : limiter.last ≤ now)
    (hlimiter : ∀ t', now ≤ t' → limiter.content clientRate t' = contentAfter d
      (clientIP splitHost remoteAddr) now g.content (clientIP splitHost remoteAddr) t')
    (hslots : slots = if d = .allowed then g.slots + 1 else g.slots) :
    Decided splitHost ips now g remoteAddr := by
  constructor
  · rw [hacquire, hd]
  · rw [hacquire]
    exact (hg.evicted ht).put hip hlast
  · intro other t' ht'
    rw [hacquire, content_put]
    split
    next hother =>
      rw [hlimiter t' ht', hother]
    next hother =>
      rw [contentAfter, if_neg fun h => hother h.2]
      exact hg.content_evicted ht' other
  · rw [hacquire, hslots]

theorem Sane.last_limiterOf (hg : Sane ips t g) (ip : String) : (g.limiterOf ip).last ≤ t := by
  unfold LoginGuard.limiterOf
  cases hc : g.clients.get ip with
  | none => exact Nat.zero_le t
  | some c =>
    have haged := hg.aged _ (Table.mem_of_get hc)
    exact Nat.le_trans haged.1 haged.2

theorem Sane.decided (hg : Sane ips t g) (ht : t ≤ now)
    (hip : clientIP splitHost remoteAddr ∈ ips) (hfew : ips.dedup.length < 4096) :
    Decided splitHost ips now g remoteAddr := by
  have hsane := hg.evicted ht
  have hroom : ¬4096 ≤ (g.evicted now).clients.length := by
    have := hsane.length_le
    omega
  have hkept : ∀ t', now ≤ t' → ((g.evicted now).limiterOf (clientIP splitHost remoteAddr)).content
      clientRate t' = g.content (clientIP splitHost remoteAddr) t' :=
    fun t' ht' => hg.content_evicted ht' _
  have hlast := hsane.last_limiterOf (clientIP splitHost remoteAddr)
  rcases acquire_cases splitHost remoteAddr hroom with ⟨htoken, h⟩ | ⟨htoken, ⟨hown, h⟩ | ⟨hown, h⟩⟩
  · refine hg.decided_of ht hip h ?_ hlast (fun t' ht' => ?_) rfl
    · rw [decision, if_pos (by omega)]
    · rw [hkept t' ht', contentAfter, if_neg (by simp)]
  · rw [hkept now (Nat.le_refl now)] at hown
    refine hg.decided_of ht hip h ?_ hlast (fun t' ht' => ?_) rfl
    · rw [decision, if_neg (by omega), if_pos hown]
    · rw [hkept t' ht', contentAfter, if_neg (by simp)]
  have htaken : ∀ t', (((g.evicted now).limiterOf (clientIP splitHost remoteAddr)).allow clientRate
      now).2.content clientRate t' = min clientRate.capacity
        (g.content (clientIP splitHost remoteAddr) now - clientRate.every + (t' - now)) := by
    intro t'
    rw [content_allowed hown, hkept now (Nat.le_refl now)]
  have hlast' : (((g.evicted now).limiterOf (clientIP splitHost remoteAddr)).allow clientRate
      now).2.last ≤ now := Nat.le_of_eq (by rw [allow_of_le hown])
  rw [hkept now (Nat.le_refl now)] at hown
  by_cases hslots : g.slots < 4
  · rw [if_pos hslots] at h
    refine hg.decided_of ht hip h ?_ hlast' (fun t' ht' => ?_) rfl
    · rw [decision, if_neg (by omega), if_neg (by omega), if_pos hslots]
    · rw [htaken, contentAfter, if_pos ⟨.inl rfl, rfl⟩]
  · rw [if_neg hslots] at h
    refine hg.decided_of ht hip h ?_ hlast' (fun t' ht' => ?_) rfl
    · rw [decision, if_neg (by omega), if_neg (by omega), if_neg hslots]
    · rw [htaken, contentAfter, if_pos ⟨.inr rfl, rfl⟩]

end Attempt

/-! ### Two runs -/

/-- Two guards that hold the same for every client from a time on, and have as many slots. -/
structure Agree (ips : List String) (now : Nat) (g h : LoginGuard) : Prop where
  left : Sane ips now g
  right : Sane ips now h
  content : ∀ ip t, now ≤ t → g.content ip t = h.content ip t
  slots : g.slots = h.slots

section Two

variable {splitHost : String → Option String} {ips : List String} {now t : Nat} {g h : LoginGuard}
  {ip remoteAddr : String}

theorem Agree.symm (hgh : Agree ips now g h) : Agree ips now h g :=
  ⟨hgh.right, hgh.left, fun ip t ht => (hgh.content ip t ht).symm, hgh.slots.symm⟩

/-- An attempt takes a token of its client, or leaves it all. -/
theorem contentAfter_congr {d d' : LoginDecision} {content content' : String → Nat → Nat}
    (hd : (d = .allowed ∨ d = .noSlot) ↔ (d' = .allowed ∨ d' = .noSlot))
    (hcontent : ∀ ip t, now ≤ t → content ip t = content' ip t) (other : String) (ht : now ≤ t) :
    contentAfter d ip now content other t = contentAfter d' ip now content' other t := by
  unfold contentAfter
  rw [hcontent ip now (Nat.le_refl now), hcontent other t ht]
  simp only [hd]

/-- What an attempt of both runs comes to: the same decision, or a refusal that takes nothing. -/
theorem decision_agree {token token' : Prop} [Decidable token] [Decidable token']
    {content : Nat} (slots : Nat) (htoken : clientRate.every ≤ content → (token ↔ token')) :
    (decision token content slots = .allowed ↔ decision token' content slots = .allowed) ∧
      (decision token content slots = .noSlot ↔ decision token' content slots = .noSlot) := by
  rcases Nat.lt_or_ge content clientRate.every with hown | hown
  · unfold decision
    simp only [if_pos hown]
    constructor <;> split <;> split <;> simp
  · have hsame : decision token content slots = decision token' content slots := by
      simp only [decision, htoken hown]
    rw [hsame]
    exact ⟨.rfl, .rfl⟩

theorem Agree.both (hgh : Agree ips t g h) (ht : t ≤ now)
    (hip : clientIP splitHost remoteAddr ∈ ips) (hfew : ips.dedup.length < 4096)
    (htoken : SameToken splitHost g h (.both (.attempt now remoteAddr))) :
    SameDecision splitHost ip g h (.both (.attempt now remoteAddr)) ∧
      Agree ips now (g.acquire splitHost now remoteAddr).2
        (h.acquire splitHost now remoteAddr).2 := by
  have hleft := hgh.left.decided ht hip hfew
  have hright := hgh.right.decided ht hip hfew
  obtain ⟨hallowed, hnoSlot⟩ := decision_agree g.slots htoken
  rw [← hleft.decides, hgh.content _ now ht, hgh.slots, ← hright.decides] at hallowed hnoSlot
  refine ⟨fun _ => hallowed, hleft.sane, hright.sane, fun other t' ht' => ?_, ?_⟩
  · rw [hleft.content other t' ht', hright.content other t' ht']
    exact contentAfter_congr (or_congr hallowed hnoSlot)
      (fun ip t' ht' => hgh.content ip t' (Nat.le_trans ht ht')) other ht'
  · rw [hleft.slots, hright.slots, hgh.slots]
    simp only [hallowed]

/-- An attempt that its client's own limiter refuses takes nothing of the clients'. -/
theorem Agree.refused (hgh : Agree ips t g h) (ht : t ≤ now)
    (hip : clientIP splitHost remoteAddr ∈ ips) (hfew : ips.dedup.length < 4096)
    (hrefused : (g.acquire splitHost now remoteAddr).1 = .clientRefused) :
    Agree ips now (g.acquire splitHost now remoteAddr).2 h := by
  have hleft := hgh.left.decided ht hip hfew
  refine ⟨hleft.sane, ⟨hgh.right.nodup, hgh.right.known, fun e he => ?_⟩, fun other t' ht' => ?_, ?_⟩
  · have haged := hgh.right.aged e he
    exact ⟨haged.1, Nat.le_trans haged.2 ht⟩
  · rw [hleft.content other t' ht', hrefused, contentAfter, if_neg (by simp)]
    exact hgh.content other t' (Nat.le_trans ht ht')
  · rw [hleft.slots, hrefused, if_neg (by simp)]
    exact hgh.slots

theorem Agree.release (splitHost : String → Option String) (hgh : Agree ips now g h) :
    Agree ips now (g.next splitHost .release) (h.next splitHost .release) :=
  ⟨⟨hgh.left.nodup, hgh.left.known, hgh.left.aged⟩,
    ⟨hgh.right.nodup, hgh.right.known, hgh.right.aged⟩, hgh.content,
    congrArg (· - 1) hgh.slots⟩

theorem Agree.throughout {steps : List Paired} (hfew : ips.dedup.length < 4096) :
    ∀ {g h : LoginGuard} {now : Nat}, Agree ips now g h → Timed now steps →
      (∀ client ∈ clientsOf splitHost steps, client ∈ ips) →
      Throughout splitHost (OwnRefusal splitHost ip) g h steps →
      Throughout splitHost (SameToken splitHost) g h steps →
      Throughout splitHost (SameDecision splitHost ip) g h steps := by
  induction steps with
  | nil => exact fun _ _ _ _ _ => trivial
  | cons step steps ih =>
    intro g h now hgh htimed hips hrefused htoken
    match step with
    | .both (.attempt t remoteAddr) =>
      have hip : clientIP splitHost remoteAddr ∈ ips := hips _ (by simp [clientsOf, Paired.attempt])
      have hstep : SameDecision splitHost ip g h (.both (.attempt t remoteAddr)) ∧ _ :=
        hgh.both htimed.1 hip hfew htoken.1
      exact ⟨hstep.1, ih hstep.2 htimed.2
        (fun c hc => hips c (List.mem_cons_of_mem _ hc)) hrefused.2 htoken.2⟩
    | .both .release =>
      exact ⟨trivial, ih (hgh.release splitHost) htimed hips hrefused.2 htoken.2⟩
    | .left t remoteAddr =>
      have hip : clientIP splitHost remoteAddr ∈ ips := hips _ (by simp [clientsOf, Paired.attempt])
      exact ⟨trivial, ih (hgh.refused htimed.1 hip hfew hrefused.1.2) htimed.2
        (fun c hc => hips c (List.mem_cons_of_mem _ hc)) hrefused.2 htoken.2⟩
    | .right t remoteAddr =>
      have hip : clientIP splitHost remoteAddr ∈ ips := hips _ (by simp [clientsOf, Paired.attempt])
      exact ⟨trivial, ih (hgh.symm.refused htimed.1 hip hfew hrefused.1.2).symm htimed.2
        (fun c hc => hips c (List.mem_cons_of_mem _ hc)) hrefused.2 htoken.2⟩

/-- Five attempts, each released, and as many more that the client's own limiter refuses in one run
as `refused`; then an attempt from elsewhere. -/
def refusedRuns (refused : Nat) : List Paired :=
  (List.replicate 5 [Paired.both (.attempt 0 "192.0.2.1"), .both .release]).flatten ++
    List.replicate refused (.left 0 "192.0.2.1") ++ [.both (.attempt 0 "192.0.2.2")]

end Two

end Maco.Web
