import Maco.Engine.World
import Maco.VM.Address
import Mathlib.Data.List.Forall2

/-! `ManageInterface` on machines that do not run: what one call leaves in the manifest, and what
holds after any sequence of calls. -/

namespace Maco.Engine.InterfaceList

open Concurrent Network VM

/-! ### The stores -/

/-- Each entry stands under its own id, and each id once. -/
structure Filed {α : Type} (ident : α → String) (t : Table α) : Prop where
  own : ∀ id m, (id, m) ∈ t → ident m = id
  distinct : (t.map Prod.fst).Nodup

theorem Filed.put {α : Type} {ident : α → String} {t : Table α} (h : Filed ident t) (m : α) :
    Filed ident (t.put (ident m) m) where
  own id m' hm := by
    obtain heq | hm := List.mem_cons.mp hm
    · cases heq
      rfl
    · exact h.own id m' (List.mem_filter.mp hm).1
  distinct := Table.nodup_put h.distinct _ _

/-- The manifests of machines and networks. -/
structure Stores where
  vms : Table VMManifest
  nets : Table NetworkManifest
  vmsFiled : Filed (·.id) vms
  netsFiled : Filed (·.id) nets

/-- `Resolve`: the manifest of an id, or else the first one of a name. -/
def resolveIn {α : Type} (name : α → String) (t : Table α) (ref : String) : Option α :=
  match t.get ref with
  | some m => some m
  | none => (t.sorted.map Prod.snd).find? fun m => name m = ref

def Stores.vm (s : Stores) (ref : String) : Option VMManifest := resolveIn (·.name) s.vms ref

def Stores.network (s : Stores) (ref : String) : Option NetworkManifest :=
  resolveIn (·.name) s.nets ref

def Stores.save (s : Stores) (m : VMManifest) : Stores :=
  { s with vms := s.vms.put m.id m, vmsFiled := s.vmsFiled.put m }

/-- What `Resolve` finds is filed under its id. -/
theorem Filed.get_of_resolveIn {α : Type} {ident name : α → String} {t : Table α}
    (h : Filed ident t) {ref : String} {m : α} (hm : resolveIn name t ref = some m) :
    t.get (ident m) = some m := by
  unfold resolveIn at hm
  split at hm
  · rename_i m' hget
    cases hm
    rw [h.own ref m (Table.mem_of_get hget)]
    exact hget
  · obtain ⟨⟨id, m'⟩, hmem, rfl⟩ := List.mem_map.mp (List.mem_of_find?_eq_some hm)
    have hmem := (Table.mem_sorted _ t).mp hmem
    have hid := h.own id m' hmem
    rw [← hid] at hmem
    exact Table.get_of_mem h.distinct hmem

/-- A call succeeds, or it fails; a save that fails may have taken its effect, where the file has
been renamed into its place. -/
inductive StoreChoice where
  | ok
  | fail (e : String)
  | lost (e : String)

/-- No machine runs; of the calls that a change of a stopped machine does not make, every answer is
the one of a failure. -/
def Stores.perform : Perform EngineCall EngineCall.Reply StoreChoice Stores
  | .vms (.resolve ref), .ok, s =>
    some (match s.vm ref with | some m => .ok m | none => .error "vm not found", s)
  | .vms (.resolve _), .fail e, s => some (.error e, s)
  | .nets (.resolve ref), .ok, s =>
    some (match s.network ref with | some n => .ok n | none => .error "network not found", s)
  | .nets (.resolve _), .fail e, s => some (.error e, s)
  | .lock _, .ok, s => some (.ok (), s)
  | .vms (.save m), .ok, s => some (.ok (), s.save m)
  | .vms (.save _), .fail e, s => some (.error e, s)
  | .vms (.save m), .lost e, s => some (.error e, s.save m)
  | a, .ok, s => some (a.failure, s)
  | .lock _, .fail e, s => some (.error e, s)
  | _, _, _ => none

/-! ### What one call leaves -/

/-- The network of an interface by the reference to it. -/
def Names (s : Stores) (ref network : String) : Prop :=
  if builtin ref then network = ref
  else ∃ n, s.network ref = some n ∧ network = n.id

/-- An interface is as it was, up to the spelling of its address and the name of its network. -/
structure Kept (s : Stores) (old new : VMInterface) : Prop where
  id : new.id = old.id
  addresses : new.addresses = old.addresses
  mac : parseMAC new.mac = parseMAC old.mac
  network : Names s old.network new.network

/-- The manifest has a well-formed list of interfaces. -/
structure WellFormed (s : Stores) (m : VMManifest) (nics : List VMInterface) : Prop where
  explicit : m.interfaces = some nics
  count : nics.length ≤ 32
  ids : (nics.map (·.id)).Nodup
  numbered : ∀ nic ∈ nics, ∃ n < 32, nic.id = "net" ++ toString n
  macs : (nics.map (·.mac)).Nodup
  canonical : ∀ nic ∈ nics, Canonical nic.mac
  networks : ∀ nic ∈ nics, builtin nic.network = true ∨
    ∃ n, s.nets.get nic.network = some n ∧ n.mode ≠ .vlan
  network : m.network = (nics.head?.map (·.network)).getD ""
  addresses : m.addresses = (nics.head?.map (·.addresses)).getD []

/-- How many interfaces there are after an action. -/
def countAfter (action : String) (count : Nat) : Nat :=
  if action = "vm.interface.add" then count + 1
  else if action = "vm.interface.remove" then count - 1
  else count

/-- A change of the interfaces of one machine: the list is well formed, and the interfaces that the
call does not name are as they were, with the addresses and networks that they had by default. -/
structure Changed (x : Texts) (s : Stores) (ref action : String) (p : InterfaceParams) (t : Stores) :
    Prop where
  change : ∃ m m' nics, s.vm ref = some m ∧ m'.id = m.id ∧ t = s.save m' ∧ WellFormed s m' nics ∧
    nics.length = countAfter action (exposeInterfaces x.mac m).effectiveInterfaces.length ∧
    (action = "vm.interface.remove" → m.effectiveInterfaces.length = 1 →
      m'.effectiveInterfaces = []) ∧
    ∀ old ∈ (exposeInterfaces x.mac m).effectiveInterfaces,
      (action = "vm.interface.add" ∨ old.id ≠ p.id) → ∃ new ∈ nics, Kept s old new

/-- What a call leaves: a successful one a change, a failed one the stores as they were, except where
the save failed once it had taken its effect. -/
def Leaves (x : Texts) (cs : List StoreChoice) (s : Stores) (ref action : String)
    (p : InterfaceParams) (r : Except Message Unit) (t : Stores) : Prop :=
  match r with
  | .ok () => Changed x s ref action p t
  | .error _ => t = s ∨ (∃ e, .lost e ∈ cs) ∧ Changed x s ref action p t

/-! ### Rules -/

section Rules

variable {x : Texts} {e : Paths} {s t : Stores} {cs : List StoreChoice} {α : Type}

variable (cs) in
/-- The setting of one call, with its choices. -/
abbrev editing : Setting EngineCall EngineCall.Reply StoreChoice Stores :=
  .alone Stores.perform fun _ c _ => c ∈ cs

theorem edits_resolveVM {ref : String} {Q : Except Message VMManifest → Stores → Prop}
    (hok : ∀ m, s.vm ref = some m → Q (.ok m) s) (herr : ∀ e, Q (.error e) s) :
    wp (editing cs) (resolveVM ref).run Q s := by
  refine wp_alone_call fun c r t _ hp => ?_
  cases c with
  | ok =>
    cases hp
    cases hm : s.vm ref with
    | none => exact herr _
    | some m => exact hok m hm
  | fail e =>
    cases hp
    exact herr _
  | lost e => cases hp

theorem edits_resolveNet {ref : String} {Q : Except Message NetworkManifest → Stores → Prop}
    (hok : ∀ n, s.network ref = some n → Q (.ok n) s) (herr : ∀ e, Q (.error e) s) :
    wp (editing cs) (resolveNet ref).run Q s := by
  refine wp_alone_call fun c r t _ hp => ?_
  cases c with
  | ok =>
    cases hp
    cases hn : s.network ref with
    | none => exact herr _
    | some n => exact hok n hn
  | fail e =>
    cases hp
    exact herr _
  | lost e => cases hp

theorem edits_isRunning {id : String} {Q : Except Message Bool → Stores → Prop}
    (h : Q (.ok false) s) : wp (editing cs) (isRunning e id).run Q s := by
  refine wp_alone_call fun c r t _ hp => ?_
  cases c with
  | ok =>
    cases hp
    exact h
  | fail e => cases hp
  | lost e => cases hp

theorem edits_save {m : VMManifest} {Q : Except Message Unit → Stores → Prop}
    (hok : Q (.ok ()) (s.save m)) (herr : ∀ e, Q (.error e) s)
    (hlost : (∃ e, .lost e ∈ cs) → ∀ e, Q (.error e) (s.save m)) :
    wp (editing cs) (save m).run Q s := by
  refine wp_alone_call fun c r t hc hp => ?_
  cases c with
  | ok =>
    cases hp
    exact hok
  | fail e =>
    cases hp
    exact herr _
  | lost e =>
    cases hp
    exact hlost ⟨e, hc⟩ _

theorem edits_locked {l : LockName} {body : EngineM α} {Q : Except Message α → Stores → Prop}
    (hbody : wp (editing cs) body.run Q s) (herr : ∀ e, Q (.error e) s) :
    wp (editing cs) (locked l body).run Q s := by
  refine wp_andThen (wp_alone_call fun c r t _ hp => ?_)
  cases c with
  | ok =>
    cases hp
    refine wp_liftThen (wp_mono hbody fun r t hr => ?_)
    refine wp_liftThen (wp_alone_call fun c _ u _ hp => ?_)
    cases c with
    | ok =>
      cases hp
      exact hr
    | fail e => cases hp
    | lost e => cases hp
  | fail e =>
    cases hp
    exact herr _
  | lost e => cases hp

theorem edits_ensureThat {c : Bool} {err : Message} {Q : Except Message Unit → Stores → Prop}
    (hok : c = true → Q (.ok ()) s) (herr : Q (.error err) s) :
    wp (editing cs) (ensureThat c err).run Q s := by
  unfold ensureThat
  split
  · rename_i h
    exact hok h
  · exact herr

end Rules

/-! ### The normalised list -/

section Normal

variable {x : Texts} {s : Stores} {cs : List StoreChoice} {vmID : String}

/-- The texts with the addresses of `net.ParseMAC`. -/
def withMAC (x : Texts) : Texts := { x with unicastMAC := VM.unicastMAC }

/-- What `normalizedInterfaces` makes of one interface. -/
structure Normal (x : Texts) (s : Stores) (vmID : String) (nic new : VMInterface) : Prop where
  id : new.id = nic.id
  valid : validNetworkID nic.id = true
  addresses : new.addresses = nic.addresses
  mac : unicastMAC (if nic.mac = "" then interfaceMAC x.mac vmID nic.id else nic.mac) = some new.mac
  names : nic.network ≠ "" → Names s nic.network new.network
  network : builtin new.network = true ∨
    ∃ n, s.nets.get new.network = some n ∧ n.mode ≠ .vlan

theorem edits_normalizedNetwork {ref : String} {Q : Except Message String → Stores → Prop}
    (hok : ∀ network, (ref ≠ "" → Names s ref network) →
      (builtin network = true ∨ ∃ n, s.nets.get network = some n ∧ n.mode ≠ .vlan) →
      Q (.ok network) s)
    (herr : ∀ e, Q (.error e) s) : wp (editing cs) (normalizedNetwork ref).run Q s := by
  unfold normalizedNetwork
  split
  · rename_i hempty
    exact hok "user" (fun hne => absurd hempty hne) (.inl rfl)
  · split
    · rename_i hbuiltin
      exact hok ref (fun _ => by rw [Names, if_pos hbuiltin]) (.inl hbuiltin)
    · rename_i href
      refine wp_andThen (edits_resolveNet (fun n hn => ?_) herr)
      refine wp_andThen (edits_ensureThat (fun hmode => ?_) (herr _))
      refine hok n.id (fun _ => ?_) (.inr ⟨n, ?_, ?_⟩)
      · rw [Names, if_neg href]
        exact ⟨n, hn, rfl⟩
      · exact s.netsFiled.get_of_resolveIn hn
      · simpa using hmode

/-- The values of a list are distinct, and new beside those seen before. -/
def Fresh (seen values : List String) : Prop := values.Nodup ∧ ∀ v ∈ values, v ∉ seen

theorem Fresh.cons {seen values : List String} {v : String} (hv : v ∉ seen)
    (h : Fresh (v :: seen) values) : Fresh seen (v :: values) := by
  refine ⟨List.nodup_cons.mpr ⟨fun hmem => h.2 v hmem List.mem_cons_self, h.1⟩, ?_⟩
  intro w hw
  obtain rfl | hw := List.mem_cons.mp hw
  · exact hv
  · exact fun hmem => h.2 w hw (List.mem_cons_of_mem v hmem)

theorem edits_normalizeAll (nics : List VMInterface) (ids macs : List String)
    {Q : Except Message (List VMInterface) → Stores → Prop}
    (hok : ∀ news, List.Forall₂ (Normal x s vmID) nics news → Fresh ids (news.map (·.id)) →
      Fresh macs (news.map (·.mac)) → Q (.ok news) s)
    (herr : ∀ e, Q (.error e) s) :
    wp (editing cs) (normalizeAll (withMAC x) vmID ids macs nics).run Q s := by
  induction nics generalizing ids macs Q with
  | nil => exact hok [] .nil ⟨.nil, nofun⟩ ⟨.nil, nofun⟩
  | cons nic nics ih =>
    refine wp_andThen (edits_ensureThat (fun hid => ?_) (herr _))
    rw [Bool.and_eq_true, decide_eq_true_eq] at hid
    obtain ⟨hvalid, hfresh⟩ := hid
    cases hmac : unicastMAC
        (if nic.mac = "" then interfaceMAC x.mac vmID nic.id else nic.mac) with
    | none =>
      simp only [withMAC, hmac]
      exact herr _
    | some mac =>
      simp only [withMAC, hmac]
      refine wp_andThen (edits_ensureThat (fun hnew => ?_) (herr _))
      rw [decide_eq_true_eq] at hnew
      refine wp_andThen (edits_normalizedNetwork (fun network hnames hnetwork => ?_) herr)
      refine wp_andThen (ih (nic.id :: ids) (mac :: macs) (fun news hnews hids hmacs => ?_) herr)
      refine hok ({ nic with mac, network } :: news) (.cons ?_ hnews) (hids.cons hfresh)
        (hmacs.cons hnew)
      exact ⟨rfl, hvalid, rfl, hmac, hnames, hnetwork⟩

theorem edits_normalizedInterfaces {m : VMManifest}
    {Q : Except Message (List VMInterface) → Stores → Prop}
    (hok : ∀ news, m.effectiveInterfaces.length ≤ 32 →
      List.Forall₂ (Normal x s m.id) m.effectiveInterfaces news → (news.map (·.id)).Nodup →
      (news.map (·.mac)).Nodup → Q (.ok news) s)
    (herr : ∀ e, Q (.error e) s) :
    wp (editing cs) (normalizedInterfaces (withMAC x) m).run Q s := by
  refine wp_andThen (edits_ensureThat (fun hcount => ?_) (herr _))
  exact edits_normalizeAll _ [] [] (fun news hnews hids hmacs =>
    hok news (by simpa using hcount) hnews hids.1 hmacs.1) herr

/-! ### The list that an action asks for -/

theorem exists_of_forall₂ {α β : Type} {R : α → β → Prop} {l : List α} {l' : List β}
    (h : List.Forall₂ R l l') :
    (∀ a ∈ l, ∃ b ∈ l', R a b) ∧ ∀ b ∈ l', ∃ a ∈ l, R a b := by
  induction h with
  | nil => exact ⟨nofun, nofun⟩
  | cons hab _ ih =>
    rename_i a b l l' _
    refine ⟨fun c hc => ?_, fun d hd => ?_⟩
    · obtain rfl | hc := List.mem_cons.mp hc
      · exact ⟨b, List.mem_cons_self, hab⟩
      · obtain ⟨d, hd, hcd⟩ := ih.1 c hc
        exact ⟨d, List.mem_cons_of_mem b hd, hcd⟩
    · obtain rfl | hd := List.mem_cons.mp hd
      · exact ⟨a, List.mem_cons_self, hab⟩
      · obtain ⟨c, hc, hcd⟩ := ih.2 d hd
        exact ⟨c, List.mem_cons_of_mem a hc, hcd⟩

theorem length_updateFirst (p : InterfaceParams) (nics : List VMInterface) :
    (updateFirst p nics).length = nics.length := by
  induction nics with
  | nil => rfl
  | cons nic nics ih =>
    unfold updateFirst
    split
    · rfl
    · rw [List.length_cons, ih, List.length_cons]

theorem mem_updateFirst {p : InterfaceParams} {nics : List VMInterface} {old : VMInterface}
    (h : old ∈ nics) (hid : old.id ≠ p.id) : old ∈ updateFirst p nics := by
  induction nics with
  | nil => cases h
  | cons nic nics ih =>
    unfold updateFirst
    obtain rfl | h := List.mem_cons.mp h
    · rw [if_neg hid]
      exact List.mem_cons_self
    · split
      · exact List.mem_cons_of_mem _ h
      · exact List.mem_cons_of_mem _ (ih h)

/-- An action leaves every interface that it does not name in the list. -/
theorem changedInterfaces_spec {action changed : String} {p : InterfaceParams}
    {previous interfaces : List VMInterface}
    (h : changedInterfaces action p previous = .ok (changed, interfaces)) :
    interfaces.length = countAfter action previous.length ∧
      ∀ old ∈ previous, action = "vm.interface.add" ∨ old.id ≠ p.id → old ∈ interfaces := by
  unfold changedInterfaces at h
  split at h
  · rename_i hadd
    split at h
    · cases h
    · cases h
      refine ⟨?_, fun old hold _ => List.mem_append_left _ hold⟩
      rw [countAfter, if_pos hadd, List.length_append]
      rfl
  · rename_i hadd
    split at h
    · split at h
      · cases h
      · rename_i hsome
        have hfound : ∃ nic ∈ previous, decide (nic.id = p.id) = true := by
          simpa using hsome
        split at h
        · rename_i hremove
          cases h
          obtain ⟨nic, hnic, hid⟩ := hfound
          refine ⟨?_, fun old hold hother => ?_⟩
          · rw [countAfter, if_neg hadd, if_pos hremove]
            exact List.length_eraseP_of_mem hnic hid
          · have hne := hother.resolve_left hadd
            exact (List.mem_eraseP_of_neg (by simpa using hne)).mpr hold
        · rename_i hupdate
          cases h
          refine ⟨?_, fun old hold hother => mem_updateFirst hold (hother.resolve_left hadd)⟩
          rw [countAfter, if_neg hadd, if_neg hupdate, length_updateFirst]
    · cases h

theorem isDigit_cases {c : Char} (h : isDigit c = true) : ∃ d < 10, c = Char.ofNat (48 + d) := by
  rw [isDigit, Bool.and_eq_true, decide_eq_true_eq, decide_eq_true_eq] at h
  have hlow : 48 ≤ c.toNat := h.1
  have hhigh : c.toNat ≤ 57 := h.2
  refine ⟨c.toNat - 48, by omega, ?_⟩
  rw [Nat.add_sub_cancel' hlow, Char.ofNat_toNat]

theorem netText_one : ∀ d < 10,
    String.ofList ['n', 'e', 't', Char.ofNat (48 + d)] = "net" ++ toString d := by decide +kernel

theorem netText_two : ∀ a < 4, 0 < a → ∀ d < 10,
    String.ofList ['n', 'e', 't', Char.ofNat (48 + a), Char.ofNat (48 + d)] =
      "net" ++ toString (10 * a + d) := by decide +kernel

/-- A valid name of an interface has a number below 32. -/
theorem validNetworkID_number {id : String} (h : validNetworkID id = true) :
    ∃ n < 32, id = "net" ++ toString n := by
  have hid : id = String.ofList id.toList := String.ofList_toList.symm
  rw [validNetworkID] at h
  split at h
  · rename_i a heq
    obtain ⟨d, hd, rfl⟩ := isDigit_cases h
    exact ⟨d, by omega, by rw [hid, heq, netText_one d hd]⟩
  · rename_i a b heq
    rw [Bool.or_eq_true, Bool.and_eq_true, Bool.and_eq_true, Bool.or_eq_true, Bool.or_eq_true] at h
    simp only [decide_eq_true_eq] at h
    obtain ⟨ha, hb⟩ | ⟨rfl, hb⟩ := h
    · obtain ⟨d, hd, rfl⟩ := isDigit_cases hb
      obtain rfl | rfl := ha
      · exact ⟨10 * 1 + d, by omega, by rw [hid, heq, ← netText_two 1 (by omega) (by omega) d hd]⟩
      · exact ⟨10 * 2 + d, by omega, by rw [hid, heq, ← netText_two 2 (by omega) (by omega) d hd]⟩
    · obtain rfl | rfl := hb
      · exact ⟨30, by omega, by rw [hid, heq]; decide +kernel⟩
      · exact ⟨31, by omega, by rw [hid, heq]; decide +kernel⟩
  · cases h

/-- The interfaces that a machine had, and what the normalised list has for them. -/
theorem Normal.kept {m : VMManifest} {old new : VMInterface}
    (hold : old ∈ (exposeInterfaces x.mac m).effectiveInterfaces) (h : Normal x s m.id old new) :
    Kept s old new := by
  obtain ⟨nic, -, rfl⟩ := List.mem_map.mp hold
  have hnetwork : (if nic.network = "" then "user" else nic.network) ≠ "" := by
    split
    · decide
    · assumption
  refine ⟨h.id, h.addresses, ?_, h.names hnetwork⟩
  have hmac := h.mac
  simp only at hmac ⊢
  rw [(unicastMAC_spec hmac).2]
  congr 1
  by_cases hempty : nic.mac = ""
  · rw [if_pos hempty, ite_self]
  · rw [if_neg hempty, if_neg hempty]

/-! ### The call -/

variable {e : Paths} {ref action : String} {p : InterfaceParams}

/-- The manifest that is saved, for a normalised list. -/
theorem changed_save {m : VMManifest} {changed : String} {interfaces news : List VMInterface}
    (hm : s.vm ref = some m)
    (hchange : changedInterfaces action p (exposeInterfaces x.mac m).effectiveInterfaces =
      .ok (changed, interfaces))
    (hcount : interfaces.length ≤ 32) (hnews : List.Forall₂ (Normal x s m.id) interfaces news)
    (hids : (news.map (·.id)).Nodup) (hmacs : (news.map (·.mac)).Nodup) :
    Changed x s ref action p (s.save (withInterfaces m news)) := by
  obtain ⟨hlength, hothers⟩ := changedInterfaces_spec hchange
  have hsame : news.length = interfaces.length := hnews.length_eq.symm
  obtain ⟨hforth, hback⟩ := exists_of_forall₂ hnews
  have hexposed : (exposeInterfaces x.mac m).effectiveInterfaces.length =
      m.effectiveInterfaces.length := List.length_map _
  refine ⟨m, withInterfaces m news, news, hm, rfl, rfl, ?_, hsame.trans hlength,
    fun hremove hone => ?_, fun old hold hother => ?_⟩
  · refine ⟨rfl, by omega, hids, fun nic hnic => ?_, hmacs, fun nic hnic => ?_, fun nic hnic => ?_,
      rfl, rfl⟩
    · obtain ⟨old, -, hnormal⟩ := hback nic hnic
      rw [hnormal.id]
      exact validNetworkID_number hnormal.valid
    · obtain ⟨old, -, hnormal⟩ := hback nic hnic
      exact (unicastMAC_spec hnormal.mac).1
    · obtain ⟨old, -, hnormal⟩ := hback nic hnic
      exact hnormal.network
  · refine List.eq_nil_of_length_eq_zero (hsame.trans (hlength.trans ?_))
    rw [hexposed, hone, hremove]
    rfl
  · obtain ⟨new, hnew, hnormal⟩ := hforth old (hothers old hold hother)
    exact ⟨new, hnew, hnormal.kept hold⟩

theorem edits_changeInterfaces :
    wp (editing cs) (changeInterfaces (withMAC x) e ref action p).run
      (Leaves x cs s ref action p) s := by
  refine wp_andThen (edits_resolveVM (fun m hm => ?_) fun _ => .inl rfl)
  refine wp_andThen (wp_andThen (edits_isRunning ?_))
  cases hchange : changedInterfaces action p (exposeInterfaces x.mac m).effectiveInterfaces with
  | error err =>
    simp only [withMAC, hchange]
    exact .inl rfl
  | ok change =>
    obtain ⟨changed, interfaces⟩ := change
    simp only [withMAC, hchange]
    refine wp_andThen (edits_normalizedInterfaces (fun news hcount hnews hids hmacs => ?_)
      fun _ => .inl rfl)
    have hchanged := changed_save hm hchange hcount hnews hids hmacs
    refine wp_andThen (edits_isRunning ?_)
    exact edits_save hchanged (fun _ => .inl rfl) fun hlost _ => .inr ⟨hlost, hchanged⟩

/-- A call on machines that do not run. -/
theorem edits_manageInterface :
    wp (editing cs) (manageInterface (withMAC x) e ref action p).run
      (Leaves x cs s ref action p) s := by
  refine wp_andThen (edits_resolveVM (fun m hm => ?_) fun _ => .inl rfl)
  exact edits_locked edits_changeInterfaces fun _ => .inl rfl

end Normal

/-! ### Sequences of calls -/

/-- A call, the choices that it met, and what it came to. -/
structure Managing where
  ref : String
  action : String
  params : InterfaceParams
  choices : List StoreChoice
  before : Stores
  result : Except Message Unit
  after : Stores

/-- Calls that are made one after the other. -/
inductive Manages (x : Texts) (e : Paths) : Stores → List Managing → Stores → Prop
  | none {s : Stores} : Manages x e s [] s
  | call {s t : Stores} {c : Managing} {calls : List Managing} (hbefore : c.before = s)
      (hrun : (manageInterface x e c.ref c.action c.params).run.run Stores.perform c.choices s =
        some (c.result, c.after))
      (hrest : Manages x e c.after calls t) : Manages x e s (c :: calls) t

/-- In every sequence of calls, each successful one leaves a well-formed list, in which the
interfaces that it does not name are as they were, and each failed one leaves the manifests as they
were, except where its save failed once the file was in its place. -/
theorem manageInterface_wellFormed {x : Texts} {e : Paths} {s t : Stores} {calls : List Managing}
    (h : Manages (withMAC x) e s calls t) :
    ∀ c ∈ calls, Leaves x c.choices c.before c.ref c.action c.params c.result c.after := by
  induction h with
  | none => exact nofun
  | call hbefore hrun hrest ih =>
    intro c hc
    obtain rfl | hc := List.mem_cons.mp hc
    · rw [hbefore]
      exact wp_alone_runs edits_manageInterface (Prog.runs_mem_of_run (List.Subset.refl _) hrun)
    · exact ih c hc

/-- A machine in the older form, with one network. -/
def webMachine : VMManifest := { id := "v", name := "web", network := "user" }

/-- A store with that machine alone. -/
def webStores : Stores where
  vms := [("v", webMachine)]
  nets := []
  vmsFiled := ⟨fun id m h => by cases List.mem_singleton.mp h; rfl, by decide⟩
  netsFiled := ⟨nofun, .nil⟩

def webTexts : Texts where
  cidr _ := true
  uuid _ := .ok ()
  mac _ := "02:00:00:00:00:01"
  unicastMAC _ := none
  manifest := { parse := fun _ => .error "", valid := fun _ => true }

def webPaths : Paths := ⟨fun id => "/run/" ++ id, 0⟩

/-- The removal of the machine's interface, where the save comes out so. -/
def removeNet0 (save : StoreChoice) : Option (Except Message Unit × Stores) :=
  (manageInterface (withMAC webTexts) webPaths "web" "vm.interface.remove" { id := "net0" }).run.run
    Stores.perform [.ok, .ok, .ok, .ok, .ok, save, .ok] webStores

/-- A call comes out as it should, and leaves the machine without an interface. -/
def emptied (ok : Bool) : Option (Except Message Unit × Stores) → Bool
  | some (r, t) => r.isOk = ok && (t.vms.get "v").any fun m => m.interfaces = some []
  | none => false

theorem removeNet0_emptied : emptied true (removeNet0 .ok) = true ∧
    emptied false (removeNet0 (.lost "sync")) = true := by decide +kernel

theorem run_of_emptied {ok : Bool} {run : Option (Except Message Unit × Stores)}
    (h : emptied ok run = true) :
    ∃ r t, run = some (r, t) ∧ r.isOk = ok ∧ t.vms.get "v" ≠ some webMachine := by
  unfold emptied at h
  split at h
  · rename_i r t
    rw [Bool.and_eq_true, decide_eq_true_eq] at h
    refine ⟨r, t, rfl, h.1, fun hget => ?_⟩
    rw [hget] at h
    exact absurd h.2 (by decide)
  · cases h

/-- The removal as a sequence of one call. -/
def removal (save : StoreChoice) (r : Except Message Unit) (t : Stores) : Managing where
  ref := "web"
  action := "vm.interface.remove"
  params := { id := "net0" }
  choices := [.ok, .ok, .ok, .ok, .ok, save, .ok]
  before := webStores
  result := r
  after := t

theorem manages_removal {save : StoreChoice} {r : Except Message Unit} {t : Stores}
    (h : removeNet0 save = some (r, t)) :
    Manages (withMAC webTexts) webPaths webStores [removal save r t] t :=
  .call rfl h .none

theorem manageInterface_wellFormed_one : ∃ t, Leaves webTexts (removal .ok (.ok ()) t).choices
    webStores "web" "vm.interface.remove" { id := "net0" } (.ok ()) t ∧
    t.vms.get "v" ≠ some webMachine := by
  obtain ⟨r, t, hrun, hok, hchanged⟩ := run_of_emptied removeNet0_emptied.1
  cases r with
  | error e => cases hok
  | ok _ => exact ⟨t, manageInterface_wellFormed (manages_removal hrun) _ List.mem_cons_self, hchanged⟩

/-- A failed call can change the manifest: the save has put the file in its place, and fails to open
or to sync the directory. -/
theorem failed_manageInterface_changes : ¬∀ (x : Texts) (e : Paths) (s t : Stores)
    (calls : List Managing), Manages (withMAC x) e s calls t → ∀ c ∈ calls, ∀ err : Message,
      c.result = .error err → ∀ id, c.after.vms.get id = c.before.vms.get id := by
  intro h
  obtain ⟨r, t, hrun, hok, hchanged⟩ := run_of_emptied removeNet0_emptied.2
  cases r with
  | ok _ => cases hok
  | error err =>
    exact hchanged (h webTexts webPaths webStores t _ (manages_removal hrun) _ List.mem_cons_self
      err rfl "v")

end Maco.Engine.InterfaceList
