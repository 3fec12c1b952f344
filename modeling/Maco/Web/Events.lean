import Maco.Lib.Knowledge
import Maco.Lib.Table

/-! The hub that tells notification clients which resources have changed: every subscriber has a
channel of 32 messages, and a channel that is full has its oldest message replaced by `all`.
Broadcasts, subscriptions and receives interleave call by call. -/

namespace Maco.Web

open Concurrent

/-- A message, with the number of messages that were put into the channel before it. -/
structure Invalidation where
  seq : Nat
  resources : List String
  deriving DecidableEq, Repr

/-- A channel: what it holds, the oldest message first, what its subscriber has received, the number
of messages put into it, and for every resource that was broadcast the place of its broadcast. -/
structure Feed where
  queue : List Invalidation := []
  received : List Invalidation := []
  sent : Nat := 0
  due : List (String × Nat) := []

/-- The capacity of a channel. -/
def feedCapacity : Nat := 32

/-- The hub: its mutex, the channels in its map, and whether it has an observer.  `todo` are the
channels that the broadcast under way has not served, `current` the resources that it names, and
`gap` the channel from which it has dropped a message. -/
structure Hub where
  mu : Option Nat := none
  clients : List Nat := []
  observing : Bool := false
  feeds : Nat → Feed
  todo : List Nat := []
  current : List String := []
  gap : Option Nat := none

def Hub.setFeed (s : Hub) (c : Nat) (feed : Feed) : Hub :=
  { s with feeds := Function.update s.feeds c feed }

inductive HubCall where
  | lock
  | unlock
  | range (resources : List String)
  | trySend (c : Nat) (resources : List String)
  | tryReceive (c : Nat)
  | trySendAll (c : Nat)
  | makeChannel
  | delete (c : Nat)
  | observing
  | startObserver
  | noClients
  | stopObserver

@[reducible] def HubCall.Reply : HubCall → Type
  | .range _ => List Nat
  | .trySend _ _ | .tryReceive _ | .trySendAll _ | .observing | .noClients => Bool
  | .makeChannel => Nat
  | _ => Unit

abbrev HubProg := Prog HubCall HubCall.Reply

def hubCall (c : HubCall) : HubProg c.Reply := .request c

/-! ### The operations -/

/-- The two `select` statements of `broadcast` for a channel that is full. -/
def resynchronize (c : Nat) : HubProg Unit := do
  let _ ← hubCall (.tryReceive c)
  let _ ← hubCall (.trySendAll c)

/-- The loop of `broadcast` over the channels. -/
def serveClients (resources : List String) : List Nat → HubProg Unit
  | [] => return ()
  | c :: clients => do
    if ← hubCall (.trySend c resources) then serveClients resources clients
    else
      resynchronize c
      serveClients resources clients

def broadcast (resources : List String) : HubProg Unit := do
  hubCall .lock
  let clients ← hubCall (.range resources)
  serveClients resources clients
  hubCall .unlock

def subscribeResources : HubProg Unit := do
  hubCall .lock
  let _ ← hubCall .makeChannel
  if ← hubCall .observing then hubCall .unlock
  else
    hubCall .startObserver
    hubCall .unlock

/-- The function that `subscribeResources` returns. -/
def unsubscribe (c : Nat) : HubProg Unit := do
  hubCall .lock
  hubCall (.delete c)
  if ← hubCall .noClients then
    hubCall .stopObserver
    hubCall .unlock
  else hubCall .unlock

inductive HubOp where
  | broadcast (resources : List String)
  | subscribe
  | unsubscribe (c : Nat)

def HubOp.program : HubOp → HubProg Unit
  | .broadcast resources => Web.broadcast resources
  | .subscribe => subscribeResources
  | .unsubscribe c => Web.unsubscribe c

/-! ### What the calls do -/

/-- The choices of the environment: the order in which a map is ranged over, and a new channel. -/
inductive HubChoice where
  | ok
  | order (clients : List Nat)
  | channel (c : Nat)

def Feed.put (feed : Feed) (resources : List String) : Feed :=
  { feed with queue := feed.queue ++ [⟨feed.sent, resources⟩], sent := feed.sent + 1 }

/-- The broadcast of resources has its place after the messages put in so far. -/
def Feed.owe (feed : Feed) (resources : List String) : Feed :=
  { feed with due := feed.due ++ resources.map fun r => (r, feed.sent) }

def Feed.drop (feed : Feed) : Feed := { feed with queue := feed.queue.tail }

def Feed.receive (feed : Feed) : Feed :=
  { feed with queue := feed.queue.tail, received := feed.received ++ feed.queue.head?.toList }

/-- A broadcast of resources is about to range over the channels. -/
def Hub.begin (s : Hub) (resources : List String) (order : List Nat) : Hub :=
  { s with
    feeds := fun c => if c ∈ s.clients then (s.feeds c).owe resources else s.feeds c
    todo := order
    current := resources }

/-- A message put into a channel, which has been served by it. -/
def Hub.serveWith (s : Hub) (c : Nat) (resources : List String) : Hub :=
  { s.setFeed c ((s.feeds c).put resources) with todo := s.todo.erase c, gap := none }

def Hub.perform (i : Nat) : Perform HubCall HubCall.Reply HubChoice Hub
  | .lock, _, s => if s.mu = none then some ((), { s with mu := some i }) else none
  | .unlock, _, s => some ((), { s with mu := none })
  | .range resources, .order order, s =>
    if order.isPerm s.clients then some (order, s.begin resources order) else none
  | .trySend c resources, _, s =>
    if (s.feeds c).queue.length < feedCapacity then some (true, s.serveWith c resources)
    else some (false, s)
  | .tryReceive c, _, s =>
    if (s.feeds c).queue = [] then some (false, { s with gap := some c })
    else some (true, { s.setFeed c (s.feeds c).drop with gap := some c })
  | .trySendAll c, _, s =>
    if (s.feeds c).queue.length < feedCapacity then some (true, s.serveWith c ["all"])
    else some (false, s)
  | .makeChannel, .channel c, s =>
    if c ∈ s.clients ∨ (s.feeds c).sent ≠ 0 ∨ (s.feeds c).due ≠ [] then none
    else some (c, { s with clients := c :: s.clients })
  | .delete c, _, s => some ((), { s with clients := s.clients.filter (· ≠ c) })
  | .observing, _, s => some (s.observing, s)
  | .startObserver, _, s => some ((), { s with observing := true })
  | .noClients, _, s => some (s.clients.isEmpty, s)
  | .stopObserver, _, s => some ((), { s with observing := false })
  | _, _, _ => none

/-- The hub with its broadcasters and its subscribers, who receive from their channels. -/
def hubSystem : System HubCall HubCall.Reply HubChoice Hub HubOp Nat Unit where
  perform := Hub.perform
  code := HubOp.program
  die _ s := s
  env c s := if (s.feeds c).queue = [] then none else some (s.setFeed c (s.feeds c).receive)

/-! ### Coverage -/

/-- A message received or held, at or after a place, names the resource or everything. -/
def Feed.Covers (feed : Feed) (r : String) (place : Nat) : Prop :=
  ∃ m ∈ feed.received ++ feed.queue, place ≤ m.seq ∧ (r ∈ m.resources ∨ "all" ∈ m.resources)

/-- What holds of the hub between any two calls. -/
structure Hub.Sound (s : Hub) : Prop where
  served : s.mu = none → s.todo = [] ∧ s.gap = none
  bounded : ∀ c, (s.feeds c).queue.length ≤ feedCapacity
  placed : ∀ c r place, (r, place) ∈ (s.feeds c).due → place ≤ (s.feeds c).sent
  covered : ∀ c r place, (r, place) ∈ (s.feeds c).due → (s.feeds c).Covers r place ∨
    (c ∈ s.todo ∧ (r ∈ s.current ∨ s.gap = some c))

theorem Feed.messages_put (feed : Feed) (resources : List String) :
    (feed.put resources).received ++ (feed.put resources).queue =
      (feed.received ++ feed.queue) ++ [⟨feed.sent, resources⟩] :=
  (List.append_assoc ..).symm

theorem Feed.messages_receive (feed : Feed) :
    feed.receive.received ++ feed.receive.queue = feed.received ++ feed.queue := by
  unfold receive
  cases hq : feed.queue with
  | nil => simp
  | cons m queue => simp

theorem Feed.Covers.put {feed : Feed} {r : String} {place : Nat} (h : feed.Covers r place)
    (resources : List String) : (feed.put resources).Covers r place := by
  obtain ⟨m, hm, hplace⟩ := h
  refine ⟨m, ?_, hplace⟩
  rw [Feed.messages_put]
  exact List.mem_append_left _ hm

/-- A message that is put in covers what was due by then and is named by it. -/
theorem Feed.covers_put {feed : Feed} {r : String} {place : Nat} {resources : List String}
    (hplace : place ≤ feed.sent) (hr : r ∈ resources ∨ "all" ∈ resources) :
    (feed.put resources).Covers r place := by
  refine ⟨⟨feed.sent, resources⟩, ?_, hplace, hr⟩
  rw [Feed.messages_put]
  exact List.mem_append_right _ (List.mem_singleton.mpr rfl)

theorem Feed.Covers.receive {feed : Feed} {r : String} {place : Nat} (h : feed.Covers r place) :
    feed.receive.Covers r place := by
  unfold Covers
  rw [Feed.messages_receive]
  exact h

@[simp] theorem Hub.setFeed_same (s : Hub) (c : Nat) (feed : Feed) :
    (s.setFeed c feed).feeds c = feed := Function.update_self ..

theorem Hub.setFeed_ne (s : Hub) {c d : Nat} (feed : Feed) (h : d ≠ c) :
    (s.setFeed c feed).feeds d = s.feeds d := Function.update_of_ne h ..

/-- Facts about the feeds are left by a change of the mutex, the map or the observer. -/
theorem Hub.Sound.congr {s t : Hub} (h : s.Sound) (hmu : t.mu = none → s.todo = [] ∧ s.gap = none)
    (hfeeds : t.feeds = s.feeds) (htodo : t.todo = s.todo) (hcurrent : t.current = s.current)
    (hgap : t.gap = s.gap) : t.Sound := by
  constructor
  · intro hnone
    rw [htodo, hgap]
    exact hmu hnone
  · rw [hfeeds]
    exact h.bounded
  · rw [hfeeds]
    exact h.placed
  · rw [hfeeds, htodo, hcurrent, hgap]
    exact h.covered

/-- A broadcast that begins owes its resources to every channel that it will serve. -/
theorem Hub.Sound.begin {s : Hub} {i : Nat} {resources : List String} {order : List Nat}
    (h : s.Sound) (hmu : s.mu = some i) (htodo : s.todo = []) (hperm : order.isPerm s.clients) :
    (s.begin resources order).Sound := by
  have hmem : ∀ c, c ∈ s.clients → c ∈ order := fun c hc =>
    (List.isPerm_iff.mp hperm).mem_iff.mpr hc
  have hfeed : ∀ c, (s.begin resources order).feeds c =
      if c ∈ s.clients then (s.feeds c).owe resources else s.feeds c := fun c => rfl
  constructor
  · intro hnone
    rw [show (s.begin resources order).mu = s.mu from rfl, hmu] at hnone
    contradiction
  · intro c
    rw [hfeed]
    split <;> exact h.bounded c
  · intro c r place hdue
    rw [hfeed] at hdue ⊢
    split at hdue
    · rename_i hc
      rw [if_pos hc]
      rcases List.mem_append.mp hdue with hold | hnew
      · exact h.placed c r place hold
      · obtain ⟨r', -, he⟩ := List.mem_map.mp hnew
        obtain ⟨-, rfl⟩ := Prod.mk.inj he
        exact Nat.le_refl _
    · rename_i hc
      rw [if_neg hc]
      exact h.placed c r place hdue
  · intro c r place hdue
    have hold : (r, place) ∈ (s.feeds c).due → (s.feeds c).Covers r place := by
      intro hold
      rcases h.covered c r place hold with hcovers | ⟨hc, -⟩
      · exact hcovers
      · simp [htodo] at hc
    rw [hfeed] at hdue ⊢
    split at hdue
    · rename_i hc
      rw [if_pos hc]
      rcases List.mem_append.mp hdue with hdue | hnew
      · exact .inl (hold hdue)
      · obtain ⟨r', hr', he⟩ := List.mem_map.mp hnew
        obtain ⟨rfl, -⟩ := Prod.mk.inj he
        exact .inr ⟨hmem c hc, .inl hr'⟩
    · rename_i hc
      rw [if_neg hc]
      exact .inl (hold hdue)

/-- A message that names what the channel is still owed serves it. -/
theorem Hub.Sound.serveWith {s : Hub} {i c : Nat} {resources : List String} (h : s.Sound)
    (hmu : s.mu = some i) (hroom : (s.feeds c).queue.length < feedCapacity)
    (hgap : ∀ d, s.gap = some d → d = c)
    (hnames : ∀ r, r ∈ s.current ∨ s.gap = some c → r ∈ resources ∨ "all" ∈ resources) :
    (s.serveWith c resources).Sound := by
  have hsame : (s.serveWith c resources).feeds c = (s.feeds c).put resources :=
    Hub.setFeed_same ..
  have hne : ∀ d, d ≠ c → (s.serveWith c resources).feeds d = s.feeds d := fun d hd =>
    Hub.setFeed_ne _ _ hd
  constructor
  · intro hnone
    rw [show (s.serveWith c resources).mu = s.mu from rfl, hmu] at hnone
    contradiction
  · intro d
    by_cases hd : d = c
    · subst hd
      rw [hsame]
      rw [Feed.put, List.length_append, List.length_singleton]
      exact hroom
    · rw [hne d hd]
      exact h.bounded d
  · intro d r place hdue
    by_cases hd : d = c
    · subst hd
      rw [hsame] at hdue ⊢
      exact Nat.le_succ_of_le (h.placed d r place hdue)
    · rw [hne d hd] at hdue ⊢
      exact h.placed d r place hdue
  · intro d r place hdue
    by_cases hd : d = c
    · subst hd
      rw [hsame] at hdue ⊢
      apply Or.inl
      rcases h.covered d r place hdue with hcovers | ⟨-, howed⟩
      · exact hcovers.put resources
      · exact Feed.covers_put (h.placed d r place hdue) (hnames r howed)
    · rw [hne d hd] at hdue ⊢
      rcases h.covered d r place hdue with hcovers | ⟨htodo, howed⟩
      · exact .inl hcovers
      · refine .inr ⟨(List.mem_erase_of_ne hd).mpr htodo, ?_⟩
        rcases howed with hr | hg
        · exact .inl hr
        · exact absurd (hgap d hg) hd

/-- A message dropped from the channel that is being served leaves a gap in it. -/
theorem Hub.Sound.drop {s t : Hub} {i c : Nat} (h : s.Sound) (hmu : s.mu = some i)
    (htodo : c ∈ s.todo) (hgap : s.gap = none) (hrest : ∀ d, d ≠ c → t.feeds d = s.feeds d)
    (hdue : (t.feeds c).due = (s.feeds c).due) (hsent : (t.feeds c).sent = (s.feeds c).sent)
    (hqueue : (t.feeds c).queue = (s.feeds c).queue.tail)
    (ht : t.mu = s.mu ∧ t.todo = s.todo ∧ t.current = s.current ∧ t.gap = some c) : t.Sound := by
  obtain ⟨htmu, httodo, htcurrent, htgap⟩ := ht
  constructor
  · intro hnone
    rw [htmu, hmu] at hnone
    contradiction
  · intro d
    by_cases hd : d = c
    · subst hd
      have hbound := h.bounded d
      rw [hqueue, List.length_tail]
      omega
    · rw [hrest d hd]
      exact h.bounded d
  · intro d r place hd
    by_cases hdc : d = c
    · subst hdc
      rw [hsent]
      exact h.placed d r place (hdue ▸ hd)
    · rw [hrest d hdc] at hd ⊢
      exact h.placed d r place hd
  · intro d r place hd
    rw [httodo, htcurrent, htgap]
    by_cases hdc : d = c
    · subst hdc
      exact .inr ⟨htodo, .inr rfl⟩
    · rw [hrest d hdc] at hd ⊢
      rcases h.covered d r place hd with hcovers | ⟨hmem, hr | hg⟩
      · exact .inl hcovers
      · exact .inr ⟨hmem, .inl hr⟩
      · rw [hgap] at hg
        contradiction

/-- A subscriber takes the oldest message of its channel. -/
theorem Hub.Sound.receive {s : Hub} (h : s.Sound) (c : Nat) :
    (s.setFeed c (s.feeds c).receive).Sound := by
  constructor
  · exact h.served
  · intro d
    by_cases hd : d = c
    · subst hd
      have hbound := h.bounded d
      rw [Hub.setFeed_same]
      simp only [Feed.receive, List.length_tail]
      omega
    · rw [Hub.setFeed_ne _ _ hd]
      exact h.bounded d
  · intro d r place hdue
    by_cases hd : d = c
    · subst hd
      rw [Hub.setFeed_same] at hdue ⊢
      exact h.placed d r place hdue
    · rw [Hub.setFeed_ne _ _ hd] at hdue ⊢
      exact h.placed d r place hdue
  · intro d r place hdue
    by_cases hd : d = c
    · subst hd
      rw [Hub.setFeed_same] at hdue ⊢
      exact (h.covered d r place hdue).imp_left Feed.Covers.receive
    · rw [Hub.setFeed_ne _ _ hd] at hdue ⊢
      exact h.covered d r place hdue

/-! ### What a goroutine knows -/

/-- Where a goroutine stands: outside the mutex, serving the channels in `todo`, or at the channel
`c`, which it has found full and in which it has then made room. -/
inductive HubView where
  | outside
  | serving (todo : List Nat) (resources : List String)
  | full (c : Nat) (todo : List Nat) (resources : List String)
  | room (c : Nat) (todo : List Nat) (resources : List String)

def HubView.Asks : HubView → HubCall → Prop
  | .outside, .lock => True
  | .serving todo resources, .trySend c names => c ∈ todo ∧ names = resources
  | .full c _ _, .tryReceive d => d = c
  | .room c _ _, .trySendAll d => d = c
  | .serving _ _, .lock | .serving _ _, .tryReceive _ | .serving _ _, .trySendAll _ => False
  | .serving todo _, _ => todo = []
  | _, _ => False

def hubLearning : Learning HubCall HubCall.Reply HubView where
  asks := HubView.Asks
  learns
    | _, .lock, _ => some (.serving [] [])
    | _, .unlock, _ => some .outside
    | _, .range resources, clients => some (.serving clients resources)
    | .serving todo resources, .trySend c _, sent =>
      some (if sent then .serving (todo.erase c) resources else .full c todo resources)
    | .full c todo resources, .tryReceive _, _ => some (.room c todo resources)
    -- Where room has been made, the send of `all` cannot fail.
    | .room c todo resources, .trySendAll _, sent =>
      if sent then some (.serving (todo.erase c) resources) else none
    | view, _, _ => some view

def HubView.Knows (i : Nat) : HubView → Hub → Prop
  | .outside, _ => True
  | .serving todo resources, s =>
    s.mu = some i ∧ s.todo = todo ∧ s.gap = none ∧ (todo ≠ [] → s.current = resources)
  | .full c todo resources, s =>
    s.mu = some i ∧ s.todo = todo ∧ s.gap = none ∧ c ∈ todo ∧ s.current = resources
  | .room c todo resources, s =>
    s.mu = some i ∧ s.todo = todo ∧ s.gap = some c ∧ c ∈ todo ∧ s.current = resources ∧
      (s.feeds c).queue.length < feedCapacity

/-- Whoever does not hold the mutex knows nothing. -/
theorem HubView.Knows.outside {j : Nat} {view : HubView} {s : Hub} (h : view.Knows j s)
    (hmu : s.mu ≠ some j) : view = .outside := by
  cases view with
  | outside => rfl
  | serving todo resources => exact absurd h.1 hmu
  | full c todo resources => exact absurd h.1 hmu
  | room c todo resources => exact absurd h.1 hmu

/-- The loop serves the channels one after the other. -/
theorem serveClients_tracks (resources : List String) (clients : List Nat) :
    (serveClients resources clients).Tracks hubLearning (fun _ view => view = .serving [] resources)
      (.serving clients resources) := by
  induction clients with
  | nil => exact rfl
  | cons c clients ih =>
    have herase : (c :: clients).erase c = clients := List.erase_cons_head c clients
    refine ⟨⟨List.mem_cons_self, rfl⟩, fun sent view hview => ?_⟩
    cases sent with
    | true =>
      obtain rfl := Option.some.inj hview
      rw [if_pos rfl, herase]
      exact ih
    | false =>
      obtain rfl := Option.some.inj hview
      refine ⟨rfl, fun dropped view hview => ?_⟩
      obtain rfl := Option.some.inj hview
      refine ⟨rfl, fun sent view hview => ?_⟩
      cases sent with
      | false => contradiction
      | true =>
        obtain rfl := Option.some.inj hview
        rw [herase]
        exact ih

theorem HubOp.tracks (op : HubOp) :
    op.program.Tracks hubLearning (fun _ view => view = .outside) .outside := by
  cases op with
  | broadcast resources =>
    refine ⟨trivial, fun _ view hview => ?_⟩
    obtain rfl := Option.some.inj hview
    refine ⟨rfl, fun clients view hview => ?_⟩
    obtain rfl := Option.some.inj hview
    refine Prog.Tracks.bind (p := serveClients resources clients)
      (serveClients_tracks resources clients) fun _ view hview => ?_
    subst hview
    refine ⟨rfl, fun _ view hview => ?_⟩
    exact (Option.some.inj hview).symm
  | subscribe =>
    refine ⟨trivial, fun _ view hview => ?_⟩
    obtain rfl := Option.some.inj hview
    refine ⟨rfl, fun c view hview => ?_⟩
    obtain rfl := Option.some.inj hview
    refine ⟨rfl, fun observing view hview => ?_⟩
    obtain rfl := Option.some.inj hview
    cases observing with
    | true =>
      refine ⟨rfl, fun _ view hview => ?_⟩
      exact (Option.some.inj hview).symm
    | false =>
      refine ⟨rfl, fun _ view hview => ?_⟩
      obtain rfl := Option.some.inj hview
      refine ⟨rfl, fun _ view hview => ?_⟩
      exact (Option.some.inj hview).symm
  | unsubscribe c =>
    refine ⟨trivial, fun _ view hview => ?_⟩
    obtain rfl := Option.some.inj hview
    refine ⟨rfl, fun _ view hview => ?_⟩
    obtain rfl := Option.some.inj hview
    refine ⟨rfl, fun last view hview => ?_⟩
    obtain rfl := Option.some.inj hview
    cases last with
    | true =>
      refine ⟨rfl, fun _ view hview => ?_⟩
      obtain rfl := Option.some.inj hview
      refine ⟨rfl, fun _ view hview => ?_⟩
      exact (Option.some.inj hview).symm
    | false =>
      refine ⟨rfl, fun _ view hview => ?_⟩
      exact (Option.some.inj hview).symm

/-- Only `lock` is called by a goroutine that does not hold the mutex. -/
theorem HubView.Knows.holds {i : Nat} {view : HubView} {a : HubCall} {s : Hub}
    (h : view.Knows i s) (ha : view.Asks a) : a = .lock ∨ s.mu = some i := by
  cases view with
  | outside =>
    cases a with
    | lock => exact .inl rfl
    | _ => exact ha.elim
  | serving todo resources => exact .inr h.1
  | full c todo resources => exact .inr h.1
  | room c todo resources => exact .inr h.1

/-- A call other than those on channels, by the holder of the mutex between two broadcasts. -/
theorem Hub.Sound.quiet {s t : Hub} {i : Nat} {view : HubView} {resources : List String}
    (h : s.Sound) (hview : view = .serving [] resources) (hknows : view.Knows i s)
    (hmu : t.mu = s.mu) (hfeeds : t.feeds = s.feeds) (htodo : t.todo = s.todo)
    (hcurrent : t.current = s.current) (hgap : t.gap = s.gap) :
    t.Sound ∧ ∃ next, some view = some next ∧ next.Knows i t := by
  subst hview
  obtain ⟨hi, hempty, hnone, -⟩ := hknows
  refine ⟨h.congr (fun _ => ⟨hempty, hnone⟩) hfeeds htodo hcurrent hgap, _, rfl, ?_, ?_, ?_, ?_⟩
  · rw [hmu]
    exact hi
  · rw [htodo]
    exact hempty
  · rw [hgap]
    exact hnone
  · exact fun hne => absurd rfl hne

theorem trySend_step {i c : Nat} {names : List String} {view : HubView} {s t : Hub}
    {choice : HubChoice} {sent : Bool} (h : s.Sound) (hview : view.Knows i s)
    (ha : view.Asks (.trySend c names))
    (hstep : Hub.perform i (.trySend c names) choice s = some (sent, t)) :
    t.Sound ∧ ∃ next, hubLearning.learns view (.trySend c names) sent = some next ∧
      next.Knows i t := by
  cases view with
  | serving todo resources =>
    obtain ⟨hc, rfl⟩ := ha
    obtain ⟨hmu, htodo, hgap, hcurrent⟩ := hview
    have hnames : s.current = names := hcurrent (List.ne_nil_of_mem hc)
    rw [Hub.perform] at hstep
    split at hstep
    · rename_i hroom
      cases hstep
      refine ⟨h.serveWith hmu hroom (by simp [hgap]) ?_, _, rfl, hmu, ?_, rfl, fun _ => hnames⟩
      · rintro r (hr | hg)
        · exact .inl (hnames ▸ hr)
        · simp [hgap] at hg
      · exact congrArg (List.erase · c) htodo
    · cases hstep
      exact ⟨h, _, rfl, hmu, htodo, hgap, hc, hnames⟩
  | _ => exact ha.elim

theorem tryReceive_step {i c : Nat} {view : HubView} {s t : Hub} {choice : HubChoice}
    {dropped : Bool} (h : s.Sound) (hview : view.Knows i s) (ha : view.Asks (.tryReceive c))
    (hstep : Hub.perform i (.tryReceive c) choice s = some (dropped, t)) :
    t.Sound ∧ ∃ next, hubLearning.learns view (.tryReceive c) dropped = some next ∧
      next.Knows i t := by
  cases view with
  | full d todo resources =>
    obtain rfl : c = d := ha
    obtain ⟨hmu, htodo, hgap, hc, hcurrent⟩ := hview
    have hmem : c ∈ s.todo := htodo ▸ hc
    rw [Hub.perform] at hstep
    split at hstep
    · rename_i hempty
      cases hstep
      refine ⟨h.drop hmu hmem hgap (fun _ _ => rfl) rfl rfl ?_ ⟨rfl, rfl, rfl, rfl⟩, _, rfl,
        hmu, htodo, rfl, hc, hcurrent, ?_⟩
      · simp [hempty]
      · simp [hempty, feedCapacity]
    · rename_i hfull
      cases hstep
      have hfeed : (s.setFeed c (s.feeds c).drop).feeds c = (s.feeds c).drop :=
        Hub.setFeed_same ..
      refine ⟨h.drop hmu hmem hgap (fun d hd => Hub.setFeed_ne _ _ hd) ?_ ?_ ?_
        ⟨rfl, rfl, rfl, rfl⟩, _, rfl, hmu, htodo, rfl, hc, hcurrent, ?_⟩
      · show ((s.setFeed c (s.feeds c).drop).feeds c).due = (s.feeds c).due
        rw [hfeed]
        rfl
      · show ((s.setFeed c (s.feeds c).drop).feeds c).sent = (s.feeds c).sent
        rw [hfeed]
        rfl
      · exact congrArg Feed.queue hfeed
      · have hbound := h.bounded c
        have hpos := List.length_pos_iff.mpr hfull
        show ((s.setFeed c (s.feeds c).drop).feeds c).queue.length < feedCapacity
        rw [hfeed, Feed.drop, List.length_tail]
        omega
  | _ => exact ha.elim

theorem trySendAll_step {i c : Nat} {view : HubView} {s t : Hub} {choice : HubChoice}
    {sent : Bool} (h : s.Sound) (hview : view.Knows i s) (ha : view.Asks (.trySendAll c))
    (hstep : Hub.perform i (.trySendAll c) choice s = some (sent, t)) :
    t.Sound ∧ ∃ next, hubLearning.learns view (.trySendAll c) sent = some next ∧
      next.Knows i t := by
  cases view with
  | room d todo resources =>
    obtain rfl : c = d := ha
    obtain ⟨hmu, htodo, hgap, -, hcurrent, hroom⟩ := hview
    rw [Hub.perform, if_pos hroom] at hstep
    cases hstep
    refine ⟨h.serveWith hmu hroom ?_ fun _ _ => .inr (List.mem_singleton.mpr rfl), _, rfl, hmu,
      congrArg (List.erase · c) htodo, rfl, fun _ => hcurrent⟩
    intro d hd
    rw [hgap] at hd
    exact (Option.some.inj hd).symm
  | _ => exact ha.elim

theorem hub_step {i : Nat} {a : HubCall} {view : HubView} {s t : Hub} {choice : HubChoice}
    {r : a.Reply} (h : s.Sound) (hview : view.Knows i s) (ha : view.Asks a)
    (hstep : Hub.perform i a choice s = some (r, t)) :
    t.Sound ∧ ∃ next, hubLearning.learns view a r = some next ∧ next.Knows i t := by
  cases a with
  | trySend c names => exact trySend_step h hview ha hstep
  | tryReceive c => exact tryReceive_step h hview ha hstep
  | trySendAll c => exact trySendAll_step h hview ha hstep
  | lock =>
    rw [Hub.perform] at hstep
    split at hstep
    · rename_i hfree
      cases hstep
      obtain ⟨htodo, hgap⟩ := h.served hfree
      exact ⟨h.congr (fun _ => ⟨htodo, hgap⟩) rfl rfl rfl rfl, _, rfl, rfl, htodo, hgap,
        fun hne => absurd rfl hne⟩
    · contradiction
  | range resources =>
    cases view with
    | serving todo names =>
      obtain rfl : todo = [] := ha
      obtain ⟨hmu, htodo, hgap, -⟩ := hview
      cases choice with
      | order order =>
        rw [Hub.perform] at hstep
        split at hstep
        · rename_i hperm
          cases hstep
          exact ⟨h.begin hmu htodo hperm, _, rfl, hmu, rfl, hgap, fun _ => rfl⟩
        · contradiction
      | _ => contradiction
    | _ => exact ha.elim
  | unlock =>
    cases view with
    | serving todo names =>
      obtain rfl : todo = [] := ha
      obtain ⟨-, htodo, hgap, -⟩ := hview
      cases hstep
      exact ⟨h.congr (fun _ => ⟨htodo, hgap⟩) rfl rfl rfl rfl, _, rfl, trivial⟩
    | _ => exact ha.elim
  | makeChannel =>
    cases view with
    | serving todo names =>
      obtain rfl : todo = [] := ha
      cases choice with
      | channel c =>
        rw [Hub.perform] at hstep
        split at hstep
        · contradiction
        · cases hstep
          exact h.quiet rfl hview rfl rfl rfl rfl rfl
      | _ => contradiction
    | _ => exact ha.elim
  | delete c =>
    cases view with
    | serving todo names =>
      obtain rfl : todo = [] := ha
      cases hstep
      exact h.quiet rfl hview rfl rfl rfl rfl rfl
    | _ => exact ha.elim
  | startObserver =>
    cases view with
    | serving todo names =>
      obtain rfl : todo = [] := ha
      cases hstep
      exact h.quiet rfl hview rfl rfl rfl rfl rfl
    | _ => exact ha.elim
  | stopObserver =>
    cases view with
    | serving todo names =>
      obtain rfl : todo = [] := ha
      cases hstep
      exact h.quiet rfl hview rfl rfl rfl rfl rfl
    | _ => exact ha.elim
  | observing =>
    cases view with
    | serving todo names =>
      cases hstep
      exact ⟨h, _, rfl, hview⟩
    | _ => exact ha.elim
  | noClients =>
    cases view with
    | serving todo names =>
      cases hstep
      exact ⟨h, _, rfl, hview⟩
    | _ => exact ha.elim

/-- A hub without subscribers. -/
def hubStart : Hub := { feeds := fun _ => {} }

def hubInsight : hubSystem.Insight (fun _ _ _ _ => True) hubStart fun _ => hubLearning where
  Inv := Hub.Sound
  Knows i view s := view.Knows i s
  idle := .outside
  rest view := view = .outside
  init := by
    refine ⟨⟨fun _ => ⟨rfl, rfl⟩, fun _ => Nat.zero_le _, ?_, ?_⟩, fun _ => trivial⟩ <;>
    · intro c r place hdue
      exact absurd hdue List.not_mem_nil
  code _ op := op.tracks
  atRest _ _ _ _ _ := trivial
  call := by
    intro i view a choice s r t hs hview ha _ hstep
    obtain ⟨ht, hnext⟩ := hub_step hs hview ha hstep
    refine ⟨ht, hnext, fun j hj other hother => ?_⟩
    have hmu : s.mu ≠ some j := by
      rcases hview.holds ha with rfl | hi
      · intro hsome
        simp [hubSystem, Hub.perform, hsome] at hstep
      · rw [hi]
        exact fun h => hj (Option.some.inj h).symm
    rw [hother.outside hmu]
    exact trivial
  die := by
    intro i view s hs _
    exact ⟨hs, trivial, fun _ _ _ h => h⟩
  env := by
    intro c s t hs henv
    simp only [hubSystem] at henv
    split at henv
    · contradiction
    · cases henv
      refine ⟨hs.receive c, fun j view hview => ?_⟩
      cases view with
      | room d todo resources =>
        obtain ⟨hmu, htodo, hgap, hd, hcurrent, hroom⟩ := hview
        refine ⟨hmu, htodo, hgap, hd, hcurrent, ?_⟩
        by_cases hdc : d = c
        · subst hdc
          rw [Hub.setFeed_same, Feed.receive, List.length_tail]
          omega
        · rw [Hub.setFeed_ne _ _ hdc]
          exact hroom
      | _ => exact hview

/-- Whatever was broadcast to a subscriber is covered by a message that its channel delivered or
holds, at or after the place of the broadcast, unless that broadcast has yet to serve the channel. -/
theorem broadcast_covered {g : Config HubCall HubCall.Reply Hub Unit} {c : Nat} {r : String}
    {place : Nat} (hg : hubSystem.Reach (fun _ _ _ _ => True) hubStart g)
    (hdue : (r, place) ∈ (g.shared.feeds c).due) :
    (g.shared.feeds c).Covers r place ∨ (g.shared.mu ≠ none ∧ c ∈ g.shared.todo) := by
  have hsound : g.shared.Sound := (hubInsight.holds hg).1
  rcases hsound.covered c r place hdue with hcovers | ⟨htodo, -⟩
  · exact .inl hcovers
  · refine .inr ⟨fun hnone => ?_, htodo⟩
    rw [(hsound.served hnone).1] at htodo
    exact absurd htodo List.not_mem_nil

/-- A subscription to channel 7. -/
def subscribing : List (Move HubChoice HubOp Nat) :=
  [.begin 0 .subscribe, .call 0 .ok, .call 0 (.channel 7), .call 0 .ok, .call 0 .ok, .call 0 .ok,
    .finish 0]

/-- Goroutine 1 broadcasts to channel 7, which has room. -/
def broadcasting (resources : List String) : List (Move HubChoice HubOp Nat) :=
  [.begin 1 (.broadcast resources), .call 1 .ok, .call 1 (.order [7]), .call 1 .ok, .call 1 .ok,
    .finish 1]

theorem broadcast_covered_networks :
    ∃ g, hubSystem.moves ⟨hubStart, fun _ => none⟩
        (subscribing ++ broadcasting ["networks"] ++ [.env 7]) = some g ∧
      ((g.shared.feeds 7).Covers "networks" 0 ∨ (g.shared.mu ≠ none ∧ 7 ∈ g.shared.todo)) := by
  have hreach := hubSystem.reach_moves .start (show hubSystem.moves ⟨hubStart, fun _ => none⟩
    (subscribing ++ broadcasting ["networks"] ++ [.env 7]) = some _ from rfl)
  exact ⟨_, rfl, broadcast_covered hreach (List.mem_singleton.mpr rfl)⟩

end Maco.Web
