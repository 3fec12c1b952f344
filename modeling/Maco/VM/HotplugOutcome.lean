import Maco.VM.Hotplug

/-! How a change of an interface can end.  Each part of `ChangeInterface` has one lemma that says
what it leaves behind; the journal stands from before the first command until the state is known
again. -/

namespace Maco.VM

open Concurrent

/-- The setting of a change that has the machine for itself; `G` is what each of its steps keeps. -/
def hotplug (G : HotplugState → HotplugState → Prop) :
    Setting HotplugCall HotplugCall.Reply HotplugChoice HotplugState where
  perform := HotplugState.perform
  allowed _ _ _ := True
  rely s t := s = t
  guar := G

variable {G : HotplugState → HotplugState → Prop} {s t : HotplugState} {α : Type}

theorem wp_call_hotplug {c : HotplugCall} {next : c.Reply → Hotplug α} {Q : α → HotplugState → Prop}
    (h : ∀ x r t, HotplugState.perform c x s = some (r, t) → G s t ∧ wp (hotplug G) (next r) Q t) :
    wp (hotplug G) (call c >>= next) Q s := by
  rintro s1 rfl x r t - hp
  exact h x r t hp

/-! ### Messages -/

/-- The messages of a client that settle a removal. -/
def Client.pending (c : Client) : List Message := (c.events ++ c.inbox).filter Message.settles

/-- Nothing but events, and none that settles a removal. -/
def Client.Quiet (c : Client) : Prop :=
  (c.events ++ c.inbox).all Message.isEvent ∧ c.pending = []

theorem heard_iff {told ms : List Message} :
    heard told ms = true ↔ ms.all Message.isEvent ∧ ms.filter Message.settles = told := by
  simp [heard]

/-- Events before a reply are put aside, as many as there is room for. -/
theorem readReply_events {first : List Message} (hfirst : first.all Message.isEvent)
    (rest events : List Message) : ∃ events', events'.Sublist (events ++ first) ∧
      readReply (first ++ rest) events = readReply rest events' := by
  induction first generalizing events with
  | nil => exact ⟨events, by simp, rfl⟩
  | cons m first ih =>
    rw [List.all_cons, Bool.and_eq_true] at hfirst
    cases m with
    | ret => simp [Message.isEvent] at hfirst
    | error cls desc => simp [Message.isEvent] at hfirst
    | event name device =>
      obtain ⟨events', hsub, heq⟩ :=
        ih hfirst.2 (if events.length < 256 then events ++ [.event name device] else events)
      refine ⟨events', hsub.trans ?_, heq⟩
      split
      · simp
      · exact List.Sublist.append_left (List.sublist_cons_self _ _) events

/-- What a command leaves of the machine's other files. -/
structure Framed (s t : HotplugState) : Prop where
  journal : t.journal = s.journal
  commits : t.commits = s.commits

theorem Framed.refl (s : HotplugState) : Framed s s := ⟨rfl, rfl⟩

theorem Framed.trans {u : HotplugState} (h1 : Framed s t) (h2 : Framed t u) : Framed s u :=
  ⟨h2.journal.trans h1.journal, h2.commits.trans h1.commits⟩

/-- How a command of a quiet client can end. -/
def Executed (c : Command) (s : HotplugState) (o : Outcome × Client) (t : HotplugState) : Prop :=
  Framed s t ∧ match o.1 with
  | .ok => ∃ removal, s.qemu.apply removal.gone c = some t.qemu ∧
      (o.2.events ++ o.2.inbox).all Message.isEvent ∧
      o.2.pending.Sublist (c.messages removal)
  | .rejected _ _ => t.qemu = s.qemu ∧ o.2.Quiet
  | .lost _ => True

/-- The client that reads the reply behind events. -/
theorem readReply_quiet {client : Client} (hq : client.Quiet) {first : List Message}
    (hfirst : first.all Message.isEvent) (rest : List Message) :
    ∃ events, readReply (client.inbox ++ (first ++ rest)) client.events = readReply rest events ∧
      events.all Message.isEvent ∧
      (events.filter Message.settles).Sublist (first.filter Message.settles) := by
  obtain ⟨hall, hpend⟩ := hq
  rw [List.all_append, Bool.and_eq_true] at hall
  rw [Client.pending, List.filter_append, List.append_eq_nil_iff] at hpend
  have hboth : (client.inbox ++ first).all Message.isEvent = true := by
    rw [List.all_append, hall.2, hfirst]
    rfl
  obtain ⟨events, hsub, heq⟩ := readReply_events hboth rest client.events
  rw [List.append_assoc] at heq
  refine ⟨events, heq, ?_, ?_⟩
  · rw [List.all_eq_true] at hall hfirst ⊢
    intro m hm
    rcases List.mem_append.mp (hsub.subset hm) with h | h
    · exact hall.1 m h
    · rcases List.mem_append.mp h with h | h
      · exact List.all_eq_true.mp hall.2 m h
      · exact hfirst m h
  · have := hsub.filter Message.settles
    rwa [List.filter_append, List.filter_append, hpend.1, hpend.2, List.nil_append,
      List.nil_append] at this

theorem wp_executeArguments {c0 : Change} (hG : ∀ s t, t.journal = some c0 → G s t)
    (hj : s.journal = some c0) {client : Client} (hq : client.Quiet) (c : Command)
    {Q : Outcome × Client → HotplugState → Prop} (h : ∀ o t, Executed c s o t → Q o t) :
    wp (hotplug G) (executeArguments client c) Q s := by
  refine wp_call_hotplug fun x r t hp => ?_
  have quietAfter : ∀ {told first later : List Message} (rest : List Message),
      heard told (first ++ later) = true → ∃ events,
        readReply (client.inbox ++ (first ++ rest)) client.events = readReply rest events ∧
        (events ++ later).all Message.isEvent ∧
        ((events ++ later).filter Message.settles).Sublist told := by
    intro told first later rest hheard
    obtain ⟨hall, htold⟩ := heard_iff.mp hheard
    rw [List.all_append, Bool.and_eq_true] at hall
    obtain ⟨events, heq, hev, hsub⟩ := readReply_quiet hq hall.1 rest
    refine ⟨events, heq, by rw [List.all_append, hev, hall.2]; rfl, ?_⟩
    rw [← htold, List.filter_append, List.filter_append]
    exact hsub.append (List.Sublist.refl _)
  have lost : ∀ {ms : List Message}, heard [] ms = true → ∃ text events,
      readReply (client.inbox ++ ms) client.events = (.lost text, { events := events }) := by
    intro ms hheard
    have hheard' : heard [] (ms ++ []) = true := by rwa [List.append_nil]
    obtain ⟨events, heq, -, -⟩ := quietAfter [] hheard'
    rw [List.append_nil] at heq
    exact ⟨"EOF", events, heq⟩
  cases x with
  | fail text =>
    simp only [HotplugState.perform, Option.some.injEq, Prod.mk.injEq] at hp
    obtain ⟨rfl, rfl⟩ := hp
    exact ⟨hG _ _ hj, h _ _ ⟨.refl s, trivial⟩⟩
  | lost took ms =>
    cases took with
    | false =>
      simp only [HotplugState.perform] at hp
      split at hp
      · rename_i hheard
        simp only [Option.some.injEq, Prod.mk.injEq] at hp
        obtain ⟨rfl, rfl⟩ := hp
        obtain ⟨text, events, heq⟩ := lost hheard
        refine ⟨hG _ _ hj, ?_⟩
        show Q (readReply (client.inbox ++ ms) client.events) s
        rw [heq]
        exact h _ _ ⟨.refl s, trivial⟩
      · contradiction
    | true =>
      simp only [HotplugState.perform] at hp
      split at hp
      · rename_i q hq'
        split at hp
        · rename_i hheard
          simp only [Option.some.injEq, Prod.mk.injEq] at hp
          obtain ⟨rfl, rfl⟩ := hp
          obtain ⟨text, events, heq⟩ := lost hheard
          refine ⟨hG _ _ hj, ?_⟩
          show Q (readReply (client.inbox ++ ms) client.events) _
          rw [heq]
          exact h _ _ ⟨⟨rfl, rfl⟩, trivial⟩
        · contradiction
      · contradiction
  | refused cls desc first later =>
    simp only [HotplugState.perform] at hp
    split at hp
    · rename_i hheard
      simp only [Option.some.injEq, Prod.mk.injEq] at hp
      obtain ⟨rfl, rfl⟩ := hp
      obtain ⟨events, heq, hall, hsub⟩ :=
        quietAfter (.error cls desc :: later) hheard
      refine ⟨hG _ _ hj, ?_⟩
      show Q (readReply (client.inbox ++ (first ++ .error cls desc :: later)) client.events) s
      rw [heq]
      exact h _ _ ⟨.refl s, rfl, hall, List.sublist_nil.mp hsub⟩
    · contradiction
  | done removal first later =>
    simp only [HotplugState.perform] at hp
    split at hp
    · rename_i q hq'
      split at hp
      · rename_i hheard
        simp only [Option.some.injEq, Prod.mk.injEq] at hp
        obtain ⟨rfl, rfl⟩ := hp
        obtain ⟨events, heq, hall, hsub⟩ := quietAfter (.ret :: later) hheard
        refine ⟨hG _ _ hj, ?_⟩
        show Q (readReply (client.inbox ++ (first ++ .ret :: later)) client.events) _
        rw [heq]
        exact h _ _ ⟨⟨rfl, rfl⟩, removal, hq', hall, hsub⟩
      · contradiction
    · contradiction
  | ok => simp [HotplugState.perform] at hp
  | failTook text => simp [HotplugState.perform] at hp
  | attempts n => simp [HotplugState.perform] at hp
  | hears ms => simp [HotplugState.perform] at hp

/-! ### Removals -/

theorem settle_some {id : String} {ms rest : List Message} {removed : Bool}
    (h : settle id ms = some (removed, rest)) :
    ∃ pre m, ms = pre ++ m :: rest ∧ removalOf id m = some removed := by
  induction ms with
  | nil => simp [settle] at h
  | cons m ms ih =>
    rw [settle] at h
    split at h
    · rename_i b hb
      simp only [Option.some.injEq, Prod.mk.injEq] at h
      obtain ⟨rfl, rfl⟩ := h
      exact ⟨[], m, rfl, hb⟩
    · obtain ⟨pre, m', rfl, hm⟩ := ih h
      exact ⟨m :: pre, m', rfl, hm⟩

theorem removalOf_some {id : String} {m : Message} {removed : Bool}
    (h : removalOf id m = some removed) :
    m = .event (if removed then "DEVICE_DELETED" else "DEVICE_UNPLUG_GUEST_ERROR") (some id) := by
  unfold removalOf at h
  split at h
  · rename_i name device
    split at h
    · contradiction
    · rename_i hdev
      obtain rfl : device = id := by simpa using hdev
      split at h
      · obtain rfl : false = removed := Option.some.inj h
        simp_all
      · split at h
        · obtain rfl : true = removed := Option.some.inj h
          simp_all
        · contradiction
  · contradiction

/-- The event that settled a removal was the only one, and it told what became of the device. -/
theorem settled_unique {id : String} (hid : validNetworkID id = true) {removal : Removal}
    {pre rest : List Message} {m : Message} {removed : Bool} (hm : removalOf id m = some removed)
    (hsub : ((pre ++ m :: rest).filter Message.settles).Sublist (removal.messages id)) :
    rest.filter Message.settles = [] ∧ removal.gone = removed := by
  have heq := removalOf_some hm
  have hset : m.settles = true := by
    rw [heq]
    cases removed <;> simp [Message.settles, hid]
  rw [List.filter_append, List.filter_cons_of_pos hset] at hsub
  have hlen := hsub.length_le
  have hmem : m ∈ removal.messages id := hsub.subset (by simp)
  have hle : (removal.messages id).length ≤ 1 := by cases removal <;> simp [Removal.messages]
  rw [List.length_append, List.length_cons] at hlen
  refine ⟨List.length_eq_zero_iff.mp (by omega), ?_⟩
  rw [heq] at hmem
  cases removal <;> cases removed <;> simp_all [Removal.messages, Removal.gone]

/-- A removal that is heard of is the one that took place, and nothing is left to be heard. -/
theorem awaitRemoval_some {client client' : Client} {id : String} (hid : validNetworkID id = true)
    {removal : Removal} {removed : Bool} (hall : (client.events ++ client.inbox).all Message.isEvent)
    (hsub : client.pending.Sublist (removal.messages id))
    (h : awaitRemoval client id = some (removed, client')) :
    client'.Quiet ∧ removal.gone = removed := by
  unfold awaitRemoval at h
  split at h
  · rename_i b events hev
    simp only [Option.some.injEq, Prod.mk.injEq] at h
    obtain ⟨rfl, rfl⟩ := h
    obtain ⟨pre, m, hsplit, hm⟩ := settle_some hev
    rw [Client.pending, hsplit, List.append_assoc, List.cons_append] at hsub
    obtain ⟨hnone, hgone⟩ := settled_unique hid hm hsub
    rw [hsplit] at hall
    refine ⟨⟨?_, hnone⟩, hgone⟩
    simp only [List.all_append, List.all_cons, Bool.and_eq_true] at hall ⊢
    exact ⟨hall.1.2.2, hall.2⟩
  · split at h
    · rename_i b inbox hin
      simp only [Option.some.injEq, Prod.mk.injEq] at h
      obtain ⟨rfl, rfl⟩ := h
      obtain ⟨pre, m, hsplit, hm⟩ := settle_some hin
      rw [Client.pending, hsplit, ← List.append_assoc] at hsub
      obtain ⟨hnone, hgone⟩ := settled_unique hid hm hsub
      rw [hsplit] at hall
      refine ⟨⟨?_, hnone⟩, hgone⟩
      simp only [List.all_append, List.all_cons, Bool.and_eq_true] at hall
      exact hall.2.2.2
    · contradiction

/-! ### Detaching and attaching -/

/-- The interface in its place, as backend and device. -/
def Qemu.plug (q : Qemu) (nic : InterfaceSpec) : Qemu where
  netdevs := Function.update q.netdevs nic.id (some nic)
  devices := Function.update q.devices nic.id (some nic)

def Qemu.unplug (q : Qemu) (id : String) : Qemu where
  netdevs := Function.update q.netdevs id none
  devices := Function.update q.devices id none

variable {c0 : Change} {client : Client} {site : Site} {nic : InterfaceSpec}

/-- The calls that touch neither QEMU nor the files of the change. -/
theorem perform_aside {c : HotplugCall} {x : HotplugChoice} {r : c.Reply}
    (hc : (∃ dir, c = .mkdirAll dir) ∨ (∃ dir bridge, c = .startHelper dir bridge) ∨
      (∃ dir, c = .stopHelper dir) ∨ c = .clock)
    (hp : HotplugState.perform c x s = some (r, t)) : Framed s t ∧ t.qemu = s.qemu := by
  rcases hc with ⟨dir, rfl⟩ | ⟨dir, bridge, rfl⟩ | ⟨dir, rfl⟩ | rfl <;>
    cases x <;> simp only [HotplugState.perform, Option.some.injEq, Prod.mk.injEq, reduceCtorEq] at hp <;>
    obtain ⟨-, rfl⟩ := hp <;> exact ⟨⟨rfl, rfl⟩, rfl⟩

theorem wp_aside {c : HotplugCall} (hG : ∀ s t, t.journal = some c0 → G s t)
    (hj : s.journal = some c0)
    (hc : (∃ dir, c = .mkdirAll dir) ∨ (∃ dir bridge, c = .startHelper dir bridge) ∨
      (∃ dir, c = .stopHelper dir) ∨ c = .clock)
    {next : c.Reply → Hotplug α} {Q : α → HotplugState → Prop}
    (h : ∀ r t, Framed s t → t.qemu = s.qemu → wp (hotplug G) (next r) Q t) :
    wp (hotplug G) (call c >>= next) Q s := by
  refine wp_call_hotplug fun x r t hp => ?_
  obtain ⟨hf, hq⟩ := perform_aside hc hp
  exact ⟨hG _ _ (hf.journal.trans hj), h r t hf hq⟩

theorem wp_stopFor (hG : ∀ s t, t.journal = some c0 → G s t) (hj : s.journal = some c0)
    {Q : Except String Unit → HotplugState → Prop}
    (h : ∀ r t, Framed s t → t.qemu = s.qemu → Q r t) :
    wp (hotplug G) (stopFor site nic) Q s := by
  unfold stopFor
  split
  · show wp (hotplug G) (call (.stopHelper (site.interfaceDir nic.id)) >>= fun r => .ret r) Q s
    exact wp_aside hG hj (.inr (.inr (.inl ⟨_, rfl⟩))) h
  · exact h _ _ (.refl s) rfl

theorem wp_startFor (hG : ∀ s t, t.journal = some c0 → G s t) (hj : s.journal = some c0)
    {Q : Except ChangeError Unit → HotplugState → Prop}
    (h : ∀ r t, Framed s t → t.qemu = s.qemu → Q r t) :
    wp (hotplug G) (startFor site nic) Q s := by
  unfold startFor
  split
  · refine wp_aside hG hj (.inl ⟨_, rfl⟩) fun r1 t1 h1 hq1 => ?_
    cases r1 with
    | error text => exact h _ _ h1 hq1
    | ok u =>
      refine wp_aside hG (h1.journal.trans hj) (.inr (.inl ⟨_, _, rfl⟩)) fun r2 t2 h2 hq2 => ?_
      have h12 := h1.trans h2
      cases r2 with
      | ok u => exact h _ _ h12 (hq2.trans hq1)
      | error text =>
        refine (wp_bind _ _ _ _).mpr (wp_stopFor hG (h12.journal.trans hj) fun r3 t3 h3 hq3 => ?_)
        cases r3 <;> exact h _ _ (h12.trans h3) (hq3.trans (hq2.trans hq1))
  · exact h _ _ (.refl s) rfl

/-- How a detachment can end. -/
def Detached (id : String) (s : HotplugState) (r : Except ChangeError Client) (t : HotplugState) :
    Prop :=
  Framed s t ∧ match r with
  | .ok client => client.Quiet ∧ t.qemu = s.qemu.unplug id
  | .error e => e.uncertain = false → t.qemu = s.qemu

/-- How an attachment can end. -/
def Attached (nic : InterfaceSpec) (s : HotplugState) (r : Except ChangeError Client)
    (t : HotplugState) : Prop :=
  Framed s t ∧ match r with
  | .ok client => client.Quiet ∧ t.qemu = s.qemu.plug nic
  | .error e => e.uncertain = false → t.qemu = s.qemu

/-- How the request for a removal can end. -/
def Requested (id : String) (s : HotplugState) (r : Except ChangeError Client)
    (t : HotplugState) : Prop :=
  Framed s t ∧ match r with
  | .ok client => ∃ removal : Removal, s.qemu.apply removal.gone (.deviceDel id) = some t.qemu ∧
      (client.events ++ client.inbox).all Message.isEvent ∧
      client.pending.Sublist (removal.messages id)
  | .error e => e.uncertain = false → t.qemu = s.qemu

theorem wp_removeDevice (hG : ∀ s t, t.journal = some c0 → G s t) (hj : s.journal = some c0)
    (hq : client.Quiet) {id : String} (n : Nat) {Q : Except ChangeError Client → HotplugState → Prop}
    (h : ∀ r t, Requested id s r t → Q r t) :
    wp (hotplug G) (removeDevice id n client) Q s := by
  induction n generalizing client s with
  | zero =>
    unfold removeDevice requestRemoval
    simp only [wp_bind]
    refine wp_executeArguments hG hj hq _ fun o t ⟨hf, ho⟩ => ?_
    obtain ⟨o, client'⟩ := o
    cases o with
    | ok => exact h _ _ ⟨hf, ho⟩
    | lost text => exact h _ _ ⟨hf, fun he => by contradiction⟩
    | rejected cls desc =>
      simp only
      split <;> exact h _ _ ⟨hf, fun _ => ho.1⟩
  | succ n ih =>
    unfold removeDevice requestRemoval
    simp only [wp_bind]
    refine wp_executeArguments hG hj hq _ fun o t ⟨hf, ho⟩ => ?_
    obtain ⟨o, client'⟩ := o
    cases o with
    | ok => exact h _ _ ⟨hf, ho⟩
    | lost text => exact h _ _ ⟨hf, fun he => by contradiction⟩
    | rejected cls desc =>
      simp only
      split
      · refine ih (hf.journal.trans hj) ho.2 fun r u ⟨hf', hr⟩ => h r u ⟨hf.trans hf', ?_⟩
        rw [ho.1] at hr
        exact hr
      · exact h _ _ ⟨hf, fun _ => ho.1⟩

theorem Qemu.apply_deviceDel {q q' : Qemu} {gone : Bool} {id : String}
    (h : q.apply gone (.deviceDel id) = some q') :
    q' = if gone then { q with devices := Function.update q.devices id none } else q := by
  simp only [Qemu.apply] at h
  split at h
  · exact (Option.some.inj h).symm
  · contradiction

theorem Qemu.apply_netdevDel {q q' : Qemu} {gone : Bool} {id : String}
    (h : q.apply gone (.netdevDel id) = some q') :
    q' = { q with netdevs := Function.update q.netdevs id none } := by
  simp only [Qemu.apply] at h
  split at h
  · exact (Option.some.inj h).symm
  · contradiction

theorem Qemu.apply_netdevAdd {q q' : Qemu} {gone : Bool} (h : q.apply gone (.netdevAdd nic) = some q') :
    q.netdevs nic.id = none ∧
      q' = { q with netdevs := Function.update q.netdevs nic.id (some nic) } := by
  simp only [Qemu.apply] at h
  split at h
  · rename_i hfree
    exact ⟨hfree, (Option.some.inj h).symm⟩
  · contradiction

theorem Qemu.apply_deviceAdd {q q' : Qemu} {gone : Bool} (h : q.apply gone (.deviceAdd nic) = some q') :
    q' = { q with devices := Function.update q.devices nic.id (some nic) } := by
  simp only [Qemu.apply] at h
  split at h
  · exact (Option.some.inj h).symm
  · contradiction

/-- A client after a command that brings no removal about. -/
theorem Executed.quiet {c : Command} {o : Outcome × Client} (h : Executed c s o t)
    (ho : o.1 = .ok) (hc : ∀ removal, c.messages removal = []) : o.2.Quiet := by
  obtain ⟨-, h⟩ := h
  rw [ho] at h
  obtain ⟨removal, -, hall, hsub⟩ := h
  exact ⟨hall, List.sublist_nil.mp (hc removal ▸ hsub)⟩

theorem wp_detachInterface (hG : ∀ s t, t.journal = some c0 → G s t) (hj : s.journal = some c0)
    (hq : client.Quiet) (hid : validNetworkID nic.id = true)
    {Q : Except ChangeError Client → HotplugState → Prop}
    (h : ∀ r t, Detached nic.id s r t → Q r t) :
    wp (hotplug G) (detachInterface site client nic) Q s := by
  unfold detachInterface
  refine wp_aside hG hj (.inr (.inr (.inr rfl))) fun n t1 hf1 hq1 => ?_
  have hj1 := hf1.journal.trans hj
  -- the events put aside so far are dropped
  have hquiet : Client.Quiet { client with events := [] } := by
    obtain ⟨hall, hpend⟩ := hq
    rw [List.all_append, Bool.and_eq_true] at hall
    rw [Client.pending, List.filter_append, List.append_eq_nil_iff] at hpend
    exact ⟨hall.2, hpend.2⟩
  refine (wp_bind _ _ _ _).mpr (wp_removeDevice hG hj1 hquiet n fun r2 t2 ⟨hf2, h2⟩ => ?_)
  have hf12 := hf1.trans hf2
  have hj2 := hf12.journal.trans hj
  cases r2 with
  | error e => exact h _ _ ⟨hf12, fun he => (h2 he).trans hq1⟩
  | ok client2 =>
    obtain ⟨removal, happly, hall, hsub⟩ := h2
    have hdev := Qemu.apply_deviceDel happly
    simp only
    split
    · exact h _ _ ⟨hf12, fun he => by contradiction⟩
    · rename_i client3 hawait
      obtain ⟨-, hgone⟩ := awaitRemoval_some hid hall hsub hawait
      rw [hgone] at hdev
      exact h _ _ ⟨hf12, fun _ => hdev.trans hq1⟩
    · rename_i client3 hawait
      obtain ⟨hquiet3, hgone⟩ := awaitRemoval_some hid hall hsub hawait
      rw [hgone, hq1] at hdev
      refine (wp_bind _ _ _ _).mpr (wp_executeArguments hG hj2 hquiet3 _ fun o t3 hexec => ?_)
      have hf123 := hf12.trans hexec.1
      obtain ⟨o, client4⟩ := o
      cases o with
      | lost text => exact h _ _ ⟨hf123, fun he => by contradiction⟩
      | rejected cls desc => exact h _ _ ⟨hf123, fun he => by contradiction⟩
      | ok =>
        have hquiet4 : client4.Quiet := hexec.quiet rfl fun _ => rfl
        obtain ⟨removal', happly', -, -⟩ := hexec.2
        have hnet := Qemu.apply_netdevDel happly'
        refine (wp_bind _ _ _ _).mpr
          (wp_stopFor hG (hf123.journal.trans hj) fun r5 t5 hf5 hq5 => ?_)
        have hf := hf123.trans hf5
        cases r5 with
        | error text => exact h _ _ ⟨hf, fun he => by contradiction⟩
        | ok u =>
          refine h _ _ ⟨hf, hquiet4, ?_⟩
          rw [hq5, hnet, hdev]
          rfl

theorem wp_attachInterface (hG : ∀ s t, t.journal = some c0 → G s t) (hj : s.journal = some c0)
    (hq : client.Quiet) {Q : Except ChangeError Client → HotplugState → Prop}
    (h : ∀ r t, Attached nic s r t → Q r t) :
    wp (hotplug G) (attachInterface site client nic) Q s := by
  unfold attachInterface
  split
  · exact h _ _ ⟨.refl s, fun _ => rfl⟩
  refine (wp_bind _ _ _ _).mpr (wp_startFor hG hj fun r1 t1 hf1 hq1 => ?_)
  have hj1 := hf1.journal.trans hj
  cases r1 with
  | error e => exact h _ _ ⟨hf1, fun _ => hq1⟩
  | ok u =>
    refine (wp_bind _ _ _ _).mpr (wp_executeArguments hG hj1 hq _ fun o t2 hexec => ?_)
    have hf12 := hf1.trans hexec.1
    have hj2 := hf12.journal.trans hj
    -- an error after the helper is stopped again
    have stopped : ∀ (t : HotplugState) (text : Maco.Message), Framed s t → t.qemu = s.qemu →
        ∀ r u, Framed t u → u.qemu = t.qemu → wp (hotplug G) (match r with
          | Except.error cleanup => Prog.ret (Except.error (uncertain (Message.text cleanup)))
          | Except.ok () => Prog.ret (Except.error (plain text)) :
            Hotplug (Except ChangeError Client)) Q u := by
      intro t text hf hqt r u hfu hqu
      have hqs := hqu.trans hqt
      cases r with
      | error cleanup => exact h _ _ ⟨hf.trans hfu, fun _ => hqs⟩
      | ok u => exact h _ _ ⟨hf.trans hfu, fun _ => hqs⟩
    obtain ⟨o, client2⟩ := o
    cases o with
    | lost text => exact h _ _ ⟨hf12, fun he => by contradiction⟩
    | rejected cls desc =>
      have hqt : t2.qemu = s.qemu := hexec.2.1.trans hq1
      exact (wp_bind _ _ _ _).mpr
        (wp_stopFor hG hj2 fun r3 t3 hf3 hq3 => stopped t2 _ hf12 hqt r3 t3 hf3 hq3)
    | ok =>
      have hquiet2 : client2.Quiet := hexec.quiet rfl fun _ => rfl
      obtain ⟨removal, happly, -, -⟩ := hexec.2
      obtain ⟨hfree, hnet⟩ := Qemu.apply_netdevAdd happly
      refine (wp_bind _ _ _ _).mpr (wp_executeArguments hG hj2 hquiet2 _ fun o t3 hexec3 => ?_)
      have hf13 := hf12.trans hexec3.1
      have hj3 := hf13.journal.trans hj
      obtain ⟨o, client3⟩ := o
      cases o with
      | lost text => exact h _ _ ⟨hf13, fun he => by contradiction⟩
      | ok =>
        obtain ⟨removal', happly', -, -⟩ := hexec3.2
        refine h _ _ ⟨hf13, hexec3.quiet rfl fun _ => rfl, ?_⟩
        rw [Qemu.apply_deviceAdd happly', hnet, hq1]
        rfl
      | rejected cls desc =>
        obtain ⟨hq3, hquiet3⟩ := hexec3.2
        refine (wp_bind _ _ _ _).mpr (wp_executeArguments hG hj3 hquiet3 _ fun o t4 hexec4 => ?_)
        have hf14 := hf13.trans hexec4.1
        have hj4 := hf14.journal.trans hj
        obtain ⟨o, client4⟩ := o
        cases o with
        | lost text => exact h _ _ ⟨hf14, fun he => by contradiction⟩
        | rejected cls desc => exact h _ _ ⟨hf14, fun he => by contradiction⟩
        | ok =>
          obtain ⟨removal', happly', -, -⟩ := hexec4.2
          -- the backend that was added is taken out again
          have hqt : t4.qemu = s.qemu := by
            rw [Qemu.apply_netdevDel happly', hq3, hnet, ← hq1]
            simp only [Function.update_idem]
            rw [← hfree, Function.update_eq_self]
          exact (wp_bind _ _ _ _).mpr
            (wp_stopFor hG hj4 fun r5 t5 hf5 hq5 => stopped t4 _ hf14 hqt r5 t5 hf5 hq5)

/-! ### The change -/

def Qemu.plugged (q : Qemu) : Option InterfaceSpec → Qemu
  | none => q
  | some nic => q.plug nic

def Qemu.unplugged (q : Qemu) : Option InterfaceSpec → Qemu
  | none => q
  | some nic => q.unplug nic.id

/-- QEMU has exactly the interface `before` under its name, and nothing else under the name of
`after`. -/
structure Qemu.Has (q : Qemu) (before after : Option InterfaceSpec) : Prop where
  attached : ∀ nic, before = some nic →
    q.netdevs nic.id = some nic ∧ q.devices nic.id = some nic
  free : ∀ nic, after = some nic → (∀ old, before = some old → old.id ≠ nic.id) →
    q.netdevs nic.id = none ∧ q.devices nic.id = none

/-- How a change from `before` to `after` can end. -/
def Changed (before after : Option InterfaceSpec) (s : HotplugState) (r : Except ChangeError Unit)
    (t : HotplugState) : Prop :=
  match r with
  | .ok () => t.qemu = (s.qemu.unplugged before).plugged after ∧
      t.commits = s.commits ++ [true] ∧ t.journal = none
  | .error e =>
    if e.uncertain then t.journal = some ⟨before, after⟩
    else t.qemu = s.qemu ∧ (t.commits = s.commits ∨ t.commits = s.commits ++ [false]) ∧
      t.journal = none

variable {before after : Option InterfaceSpec}

theorem Qemu.unplug_plug {q : Qemu} (hn : q.netdevs nic.id = none) (hd : q.devices nic.id = none) :
    (q.plug nic).unplug nic.id = q := by
  simp only [Qemu.unplug, Qemu.plug, Function.update_idem]
  rw [← hn, Function.update_eq_self]
  conv_lhs => rw [← hd.trans hn.symm, Function.update_eq_self]

theorem Qemu.plug_unplug {q : Qemu} (hn : q.netdevs nic.id = some nic)
    (hd : q.devices nic.id = some nic) : (q.unplug nic.id).plug nic = q := by
  simp only [Qemu.unplug, Qemu.plug, Function.update_idem]
  rw [← hn, Function.update_eq_self]
  conv_lhs => rw [← hd.trans hn.symm, Function.update_eq_self]

theorem Qemu.Has.restore {q : Qemu} (h : q.Has before after) :
    (q.unplugged before).plugged before = q := by
  cases before with
  | none => rfl
  | some nic => exact Qemu.plug_unplug (h.attached nic rfl).1 (h.attached nic rfl).2

/-- The name of the new interface is free once the old one is out. -/
theorem Qemu.Has.undo {q : Qemu} (h : q.Has before after) :
    ((q.unplugged before).plugged after).unplugged after = q.unplugged before := by
  cases after with
  | none => rfl
  | some nic =>
    have hfree : (q.unplugged before).netdevs nic.id = none ∧
        (q.unplugged before).devices nic.id = none := by
      cases before with
      | none => exact h.free nic rfl fun old ho => by contradiction
      | some old =>
        by_cases hid : old.id = nic.id
        · simp [Qemu.unplugged, Qemu.unplug, hid]
        · have := h.free nic rfl fun o ho => by rw [← Option.some.inj ho]; exact hid
          simpa [Qemu.unplugged, Qemu.unplug, Function.update_of_ne (Ne.symm hid)] using this
    exact Qemu.unplug_plug hfree.1 hfree.2

theorem wp_clearJournal (hG : ∀ s t, t.journal = some c0 → G s t) (hj : s.journal = some c0)
    {result : Except ChangeError Unit} {Q : Except ChangeError Unit → HotplugState → Prop}
    (hstays : ∀ e, e.uncertain = true → Q (.error e) s)
    (hgone : (∀ e, result = .error e → e.uncertain = false) →
      G s { s with journal := none } ∧ Q result { s with journal := none }) :
    wp (hotplug G) (clearJournal result) Q s := by
  unfold clearJournal
  split
  · exact hstays _ rfl
  · rename_i hne
    have hsure : ∀ e, result = .error e → e.uncertain = false := by
      rintro ⟨u, text⟩ he
      cases u with
      | false => rfl
      | true => exact absurd he (hne text)
    refine wp_call_hotplug fun x r t hp => ?_
    cases x <;> simp only [HotplugState.perform, Option.some.injEq, Prod.mk.injEq, reduceCtorEq] at hp
    · obtain ⟨rfl, rfl⟩ := hp
      exact hgone hsure
    · obtain ⟨rfl, rfl⟩ := hp
      exact ⟨hG _ _ hj, hstays _ rfl⟩

theorem wp_forInterface_detach (hG : ∀ s t, t.journal = some c0 → G s t)
    (hj : s.journal = some c0) (hq : client.Quiet) {nic : Option InterfaceSpec}
    (hid : ∀ n, nic = some n → validNetworkID n.id = true)
    {Q : Except ChangeError Client → HotplugState → Prop}
    (h : ∀ r t, Framed s t → (match r with
      | .ok client => client.Quiet ∧ t.qemu = s.qemu.unplugged nic
      | .error e => e.uncertain = false → t.qemu = s.qemu) → Q r t) :
    wp (hotplug G) (forInterface nic client (detachInterface site client)) Q s := by
  cases nic with
  | none => exact h _ _ (.refl s) ⟨hq, rfl⟩
  | some nic => exact wp_detachInterface hG hj hq (hid nic rfl) fun r t hd => h r t hd.1 hd.2

theorem wp_forInterface_attach (hG : ∀ s t, t.journal = some c0 → G s t)
    (hj : s.journal = some c0) (hq : client.Quiet) {nic : Option InterfaceSpec}
    {Q : Except ChangeError Client → HotplugState → Prop}
    (h : ∀ r t, Framed s t → (match r with
      | .ok client => client.Quiet ∧ t.qemu = s.qemu.plugged nic
      | .error e => e.uncertain = false → t.qemu = s.qemu) → Q r t) :
    wp (hotplug G) (forInterface nic client (attachInterface site client)) Q s := by
  cases nic with
  | none => exact h _ _ (.refl s) ⟨hq, rfl⟩
  | some nic => exact wp_attachInterface hG hj hq fun r t ha => h r t ha.1 ha.2

/-- The rollback of a change whose old interface is out: it comes back, or the state is
uncertain. -/
theorem wp_rollback {s0 : HotplugState} (hG : ∀ s t, t.journal = some ⟨before, after⟩ → G s t)
    (hEnd : ∀ u r t, u.journal = some ⟨before, after⟩ → Changed before after s0 r t → G u t)
    (hj : s.journal = some ⟨before, after⟩) (hq : client.Quiet)
    (hout : s.qemu = s0.qemu.unplugged before) (hhas : s0.qemu.Has before after)
    (hcommits : s.commits = s0.commits ∨ s.commits = s0.commits ++ [false]) {cause : ChangeError} :
    wp (hotplug G) (rollback site client before cause) (Changed before after s0) s := by
  refine (wp_bind _ _ _ _).mpr (wp_forInterface_attach hG hj hq fun r t hf h => ?_)
  have hjt := hf.journal.trans hj
  cases r with
  | error e => exact hjt
  | ok client' =>
    refine wp_clearJournal hG hjt (fun e he => by simp only [Changed, he]; exact hjt) fun hsure => ?_
    have hfinal : Changed before after s0 (.error cause) { t with journal := none } := by
      simp only [Changed, hsure cause rfl, Bool.false_eq_true, if_false, and_true]
      refine ⟨?_, ?_⟩
      · rw [h.2, hout, hhas.restore]
      · rw [hf.commits]
        exact hcommits
    exact ⟨hEnd _ _ _ hjt hfinal, hfinal⟩

theorem wp_replaceInterface {s0 : HotplugState}
    (hG : ∀ s t, t.journal = some ⟨before, after⟩ → G s t)
    (hEnd : ∀ u r t, u.journal = some ⟨before, after⟩ → Changed before after s0 r t → G u t)
    (hj : s.journal = some ⟨before, after⟩) (hq : client.Quiet) (hsame : s.qemu = s0.qemu)
    (hcommits : s.commits = s0.commits) (hhas : s0.qemu.Has before after)
    (hids : ∀ nic, before = some nic ∨ after = some nic → validNetworkID nic.id = true) :
    wp (hotplug G) (replaceInterface site client before after) (Changed before after s0) s := by
  have uncertainAt : ∀ {t : HotplugState}, t.journal = some ⟨before, after⟩ → ∀ e : ChangeError,
      e.uncertain = true → Changed before after s0 (.error e) t := by
    intro t ht e he
    simp only [Changed, he]
    exact ht
  unfold replaceInterface
  refine (wp_bind _ _ _ _).mpr (wp_forInterface_detach hG hj hq (fun n hn => hids n (.inl hn))
    fun r1 t1 hf1 h1 => ?_)
  have hj1 := hf1.journal.trans hj
  cases r1 with
  | error e =>
    refine wp_clearJournal hG hj1 (uncertainAt hj1) fun hsure => ?_
    have hfinal : Changed before after s0 (.error e) { t1 with journal := none } := by
      simp only [Changed, hsure e rfl, Bool.false_eq_true, if_false, and_true]
      exact ⟨(h1 (hsure e rfl)).trans hsame, .inl (hf1.commits.trans hcommits)⟩
    exact ⟨hEnd _ _ _ hj1 hfinal, hfinal⟩
  | ok client1 =>
    have hout : t1.qemu = s0.qemu.unplugged before := by rw [h1.2, hsame]
    have hc1 := hf1.commits.trans hcommits
    refine (wp_bind _ _ _ _).mpr (wp_forInterface_attach hG hj1 h1.1 fun r2 t2 hf2 h2 => ?_)
    have hj2 := hf2.journal.trans hj1
    have hc2 := hf2.commits.trans hc1
    cases r2 with
    | error e =>
      simp only
      split
      · rename_i hu
        exact uncertainAt hj2 e hu
      · rename_i hu
        rw [Bool.not_eq_true] at hu
        exact wp_rollback hG hEnd hj2 h1.1 ((h2 hu).trans hout) hhas (.inl hc2)
    | ok client2 =>
      refine wp_call_hotplug fun x r t3 hp => ?_
      cases x <;>
        simp only [HotplugState.perform, Option.some.injEq, Prod.mk.injEq, reduceCtorEq] at hp
      · obtain ⟨rfl, rfl⟩ := hp
        have hj3 : HotplugState.journal { t2 with commits := t2.commits ++ [true] } =
          some ⟨before, after⟩ := hj2
        refine ⟨hG _ _ hj3, wp_clearJournal hG hj3 (uncertainAt hj3) fun _ => ?_⟩
        have hfinal : Changed before after s0 (.ok ())
            { t2 with commits := t2.commits ++ [true], journal := none } :=
          ⟨by rw [h2.2, hout], by rw [hc2], rfl⟩
        exact ⟨hEnd _ _ _ hj3 hfinal, hfinal⟩
      · obtain ⟨rfl, rfl⟩ := hp
        have hj3 : HotplugState.journal { t2 with commits := t2.commits ++ [false] } =
          some ⟨before, after⟩ := hj2
        refine ⟨hG _ _ hj3, (wp_bind _ _ _ _).mpr (wp_forInterface_detach hG hj3 h2.1
          (fun n hn => hids n (.inr hn)) fun r4 t4 hf4 h4 => ?_)⟩
        have hj4 : t4.journal = some ⟨before, after⟩ := hf4.journal.trans hj2
        cases r4 with
        | error e => exact uncertainAt hj4 _ rfl
        | ok client4 =>
          refine wp_rollback hG hEnd hj4 h4.1 ?_ hhas (.inr ?_)
          · rw [h4.2, h2.2, hout, hhas.undo]
          · rw [hf4.commits, hc2]

@[simp] theorem Site.prepare_id (site : Site) (nic : InterfaceSpec) :
    (site.prepare nic).id = nic.id := by
  unfold Site.prepare
  split <;> simp only <;> split <;> rfl

/-- `ChangeInterface` ends as `Changed` has it, and each of its steps keeps `G`: `G` holds of steps
under the journal, of steps that change nothing, and of the step that ends the change. -/
theorem wp_changeInterface (hj : s.journal = none)
    (hhas : s.qemu.Has (before.map site.prepare) (after.map site.prepare))
    (hG0 : G s s) (hG : ∀ u t, t.journal = some ⟨before.map site.prepare, after.map site.prepare⟩ →
      G u t)
    (hEnd : ∀ u r t, u.journal = some ⟨before.map site.prepare, after.map site.prepare⟩ →
      Changed (before.map site.prepare) (after.map site.prepare) s r t → G u t) :
    wp (hotplug G) (changeInterface site before after)
      (Changed (before.map site.prepare) (after.map site.prepare) s) s := by
  have unchanged : ∀ text : Maco.Message,
      Changed (before.map site.prepare) (after.map site.prepare) s (.error (plain text)) s :=
    fun text => ⟨rfl, .inl rfl, hj⟩
  unfold changeInterface
  refine wp_call_hotplug fun x r t hp => ?_
  cases x <;> simp only [HotplugState.perform, hj, Option.some.injEq, Prod.mk.injEq, reduceCtorEq] at hp
  · obtain ⟨rfl, rfl⟩ := hp
    refine ⟨hG0, ?_⟩
    simp only [Option.isSome_none]
    split
    · exact unchanged _
    · rename_i hvalid
      have hids : ∀ nic, before.map site.prepare = some nic ∨ after.map site.prepare = some nic →
          validNetworkID nic.id = true := by
        intro nic hnic
        simp only [Bool.not_eq_true, List.any_eq_false, List.mem_filterMap, List.mem_cons,
          List.not_mem_nil, or_false, id_eq, Bool.not_eq_eq_eq_not] at hvalid
        rcases hnic with hn | hn
        · obtain ⟨nic0, h0, rfl⟩ := Option.map_eq_some_iff.mp hn
          simpa using hvalid nic0 ⟨before, .inl rfl, h0⟩
        · obtain ⟨nic0, h0, rfl⟩ := Option.map_eq_some_iff.mp hn
          simpa using hvalid nic0 ⟨after, .inr rfl, h0⟩
      refine wp_call_hotplug fun x r t hp => ?_
      cases x with
      | fail text =>
        simp only [HotplugState.perform, Option.some.injEq, Prod.mk.injEq] at hp
        obtain ⟨rfl, rfl⟩ := hp
        exact ⟨hG0, unchanged _⟩
      | hears ms =>
        simp only [HotplugState.perform] at hp
        split at hp
        · rename_i hheard
          simp only [Option.some.injEq, Prod.mk.injEq] at hp
          obtain ⟨rfl, rfl⟩ := hp
          have hquiet : Client.Quiet { inbox := ms } := heard_iff.mp hheard
          refine ⟨hG0, ?_⟩
          simp only
          split
          · exact unchanged _
          · refine wp_call_hotplug fun x r t hp => ?_
            cases x <;>
              simp only [HotplugState.perform, Option.some.injEq, Prod.mk.injEq, reduceCtorEq] at hp
            · obtain ⟨rfl, rfl⟩ := hp
              exact ⟨hG _ _ rfl, wp_replaceInterface hG hEnd rfl hquiet rfl rfl hhas hids⟩
            · obtain ⟨rfl, rfl⟩ := hp
              exact ⟨hG0, unchanged _⟩
        · contradiction
      | _ => simp [HotplugState.perform] at hp
  · obtain ⟨rfl, rfl⟩ := hp
    exact ⟨hG0, unchanged _⟩

/-- `ChangeInterface` is a transaction over QEMU, the manifest and the journal: whatever QEMU, the
helpers and the file system do, a success has the new interface in QEMU, one commit and no journal;
an error other than `ErrNetworkStateUncertain` has the old interface, no successful commit and no
journal; and `ErrNetworkStateUncertain` leaves a journal of both. -/
theorem changeInterface_transaction (site : Site) (before after : Option InterfaceSpec)
    (s t : HotplugState) (r : Except ChangeError Unit) (hjournal : s.journal = none)
    (hhas : s.qemu.Has (before.map site.prepare) (after.map site.prepare))
    (hrun : (changeInterface site before after).Runs HotplugState.perform (fun _ _ _ => True) s r t) :
    (r = .ok () →
      t.qemu = (s.qemu.unplugged (before.map site.prepare)).plugged (after.map site.prepare) ∧
      t.commits = s.commits ++ [true] ∧ t.journal = none) ∧
    ∀ e, r = .error e →
      (e.uncertain = false → t.qemu = s.qemu ∧
        (t.commits = s.commits ∨ t.commits = s.commits ++ [false]) ∧ t.journal = none) ∧
      (e.uncertain = true →
        t.journal = some ⟨before.map site.prepare, after.map site.prepare⟩) := by
  have hw : wp (Setting.alone HotplugState.perform fun _ _ _ => True)
      (changeInterface site before after)
      (Changed (before.map site.prepare) (after.map site.prepare) s) s :=
    wp_changeInterface (G := fun _ _ => True) hjournal hhas trivial (fun _ _ _ => trivial)
      fun _ _ _ _ _ => trivial
  have hend := wp_alone_runs hw hrun
  refine ⟨fun hr => ?_, fun e hr => ?_⟩
  · rw [hr] at hend
    exact hend
  · rw [hr] at hend
    simp only [Changed] at hend
    refine ⟨fun hu => ?_, fun hu => ?_⟩
    · rwa [hu, if_neg (by decide)] at hend
    · rwa [hu, if_pos rfl] at hend

/-- A machine without interfaces. -/
def bareMachine : HotplugState where
  qemu := { netdevs := fun _ => none, devices := fun _ => none }

/-- Where the test machine runs. -/
def testSite : Site where
  runDir := "/tmp/vm"
  vmID := "vm"
  mac _ := "02:00:00:00:00:01"

/-- A user network interface is added to a machine that has none, while the monitor tells of other
devices. -/
theorem changeInterface_adds : ∃ t,
    (changeInterface testSite none (some { id := "net1", network := .user })).Runs
      HotplugState.perform (fun _ _ _ => True) bareMachine (.ok ()) t ∧
    t.qemu = bareMachine.qemu.plug { id := "net1", mac := "02:00:00:00:00:01", network := .user } ∧
    t.commits = [true] ∧ t.journal = none := by
  have hrun : ∃ t, (changeInterface testSite none (some { id := "net1", network := .user })).run
      HotplugState.perform [.ok, .hears [.event "RTC_CHANGE" none], .ok,
        .done (.unheard false) [.event "DEVICE_DELETED" (some "usb1")] [],
        .done (.unheard false) [] [], .ok, .ok] bareMachine = some (.ok (), t) := ⟨_, rfl⟩
  obtain ⟨t, hrun⟩ := hrun
  have hruns := Prog.runs_of_run hrun
  exact ⟨t, hruns, (changeInterface_transaction testSite none
    (some { id := "net1", network := .user }) bareMachine t (.ok ()) rfl
    ⟨fun _ h => by contradiction, fun _ _ _ => ⟨rfl, rfl⟩⟩ hruns).1 rfl⟩

end Maco.VM
