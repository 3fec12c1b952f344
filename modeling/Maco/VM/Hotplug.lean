import Maco.VM.Qemu
import Maco.Lib.Program

/-! `ChangeInterface`: a network interface of a running machine is taken out of QEMU, put in or
replaced, with a journal on disk while the change is under way.  The program talks to the journal, to
the helpers of bridge interfaces, to QEMU over its monitor socket and to the caller's `commit`; the
machine below says what each of these calls can do. -/

namespace Maco.VM

open Concurrent

/-- The file `network-change.json`. -/
structure Change where
  before : Option InterfaceSpec
  after : Option InterfaceSpec
  deriving DecidableEq

/-- `PendingNetworkReferences` of a journal. -/
def Change.references (c : Change) : List String :=
  ([c.before, c.after].filterMap id).filterMap fun nic =>
    if nic.reference ≠ "" then some nic.reference else none

/-- A message that the client reads from the monitor socket; the device of an event is missing where
the data of the event have none. -/
inductive Message where
  | ret
  | error (cls desc : String)
  | event (name : String) (device : Option String)
  deriving DecidableEq

/-- The commands that change an interface.  The JSON of the two first ones is `networkBackend` and
`networkDevice` of the spec. -/
inductive Command where
  | netdevAdd (nic : InterfaceSpec)
  | deviceAdd (nic : InterfaceSpec)
  | netdevDel (id : String)
  | deviceDel (id : String)
  deriving DecidableEq

/-- `qmpClient`: what has arrived and is not read yet, and the events put aside. -/
structure Client where
  inbox : List Message := []
  events : List Message := []

/-- The calls of `ChangeInterface`; `clock` says how often a busy guest can be asked again before
the deadline. -/
inductive HotplugCall where
  | statJournal
  | dial
  | writeJournal (c : Change)
  | removeJournal
  | mkdirAll (dir : String)
  | startHelper (dir bridge : String)
  | stopHelper (dir : String)
  | clock
  | send (c : Command)
  | commit

/-- The answers: a failed call gives the text of its error, a monitor call the messages that arrive
after it. -/
@[reducible] def HotplugCall.Reply : HotplugCall → Type
  | .statJournal => Except String Bool
  | .dial => Except String (List Message)
  | .clock => Nat
  | .send _ => Except String (List Message)
  | _ => Except String Unit

/-- Programs over these calls. -/
abbrev Hotplug := Prog HotplugCall HotplugCall.Reply

/-- One call. -/
def call (c : HotplugCall) : Hotplug c.Reply := .request c

/-- An error of a change; `uncertain` tells whether it is `ErrNetworkStateUncertain`. -/
structure ChangeError where
  uncertain : Bool
  text : Maco.Message

def errNetworkStateUncertain : String :=
  "network change needs recovery; stop/start the VM to reconcile"

/-- `uncertain`. -/
def uncertain (cause : Maco.Message) : ChangeError :=
  ⟨true, (errNetworkStateUncertain ++ ": " : String) ++ cause⟩

/-- An error of any other kind. -/
def plain (text : Maco.Message) : ChangeError := ⟨false, text⟩

/-! ### The monitor client -/

/-- How a command turned out for the client; `rejected` is an error that QEMU sent. -/
inductive Outcome where
  | ok
  | rejected (cls desc : String)
  | lost (text : String)

/-- The text of a `qmpError`. -/
def qmpText (cls desc : String) : String := "qmp " ++ cls ++ ": " ++ desc

/-- The loop of `executeArguments`: events are put aside, up to 256 of them, until a reply comes.  An
empty inbox is a connection that has failed or a deadline that has passed. -/
def readReply : List Message → List Message → Outcome × Client
  | [], events => (.lost "EOF", { events := events })
  | .error cls desc :: inbox, events => (.rejected cls desc, { inbox := inbox, events := events })
  | .event name device :: inbox, events =>
    readReply inbox (if events.length < 256 then events ++ [.event name device] else events)
  | .ret :: inbox, events => (.ok, { inbox := inbox, events := events })

def executeArguments (client : Client) (command : Command) : Hotplug (Outcome × Client) := do
  match ← call (.send command) with
  | .error text => return (.lost text, client)
  | .ok arrived => return readReply (client.inbox ++ arrived) client.events

/-- What the loop that waits for a removal makes of one message. -/
def removalOf (id : String) : Message → Option Bool
  | .event name (some device) =>
    if device ≠ id then none
    else if name = "DEVICE_UNPLUG_GUEST_ERROR" then some false
    else if name = "DEVICE_DELETED" then some true
    else none
  | _ => none

/-- The first message that settles a removal, and the messages after it. -/
def settle (id : String) : List Message → Option (Bool × List Message)
  | [] => none
  | m :: rest =>
    match removalOf id m with
    | some removed => some (removed, rest)
    | none => settle id rest

/-- The loop of `detachInterface` that waits for the removal: the events put aside come first. -/
def awaitRemoval (client : Client) (id : String) : Option (Bool × Client) :=
  match settle id client.events with
  | some (removed, events) => some (removed, { client with events := events })
  | none =>
    match settle id client.inbox with
    | some (removed, inbox) => some (removed, { inbox := inbox })
    | none => none

/-! ### Attaching and detaching -/

/-- What the driver knows of a machine: its run directory, its name and the hash of `MAC`. -/
structure Site where
  runDir : String
  vmID : String
  mac : String → String

/-- The directory of an interface. -/
def Site.interfaceDir (site : Site) (id : String) : String :=
  site.runDir ++ "/interfaces/" ++ id

/-- `prepare`: the address and the helper socket that the boot gives an interface. -/
def Site.prepare (site : Site) (nic : InterfaceSpec) : InterfaceSpec :=
  let nic := if nic.mac = "" then { nic with mac := interfaceMAC site.mac site.vmID nic.id } else nic
  if nic.network = .bridge then
    { nic with socket := site.interfaceDir nic.id ++ "/network.sock" }
  else nic

/-- `stop` of `attachInterface`: only a bridge has a helper. -/
def stopFor (site : Site) (nic : InterfaceSpec) : Hotplug (Except String Unit) :=
  if nic.network = .bridge then call (.stopHelper (site.interfaceDir nic.id))
  else return .ok ()

/-- The helper of a bridge interface is started, and stopped again where that fails. -/
def startFor (site : Site) (nic : InterfaceSpec) : Hotplug (Except ChangeError Unit) :=
  if nic.network = .bridge then do
    match ← call (.mkdirAll (site.interfaceDir nic.id)) with
    | .error text => return .error (plain text)
    | .ok () =>
      match ← call (.startHelper (site.interfaceDir nic.id) nic.bridge) with
      | .ok () => return .ok ()
      | .error text =>
        match ← stopFor site nic with
        | .error cleanup =>
          return .error (uncertain ("helper start: " ++ text ++ "; cleanup: " ++ cleanup : String))
        | .ok () => return .error (plain text)
  else return .ok ()

def attachInterface (site : Site) (client : Client) (nic : InterfaceSpec) :
    Hotplug (Except ChangeError Client) := do
  match networkBackend nic with
  | .error text => return .error (plain text)
  | .ok _ =>
    match ← startFor site nic with
    | .error e => return .error e
    | .ok () =>
      match ← executeArguments client (.netdevAdd nic) with
      | (.lost text, _) => return .error (uncertain text)
      | (.rejected cls desc, _) =>
        match ← stopFor site nic with
        | .error cleanup => return .error (uncertain cleanup)
        | .ok () =>
          return .error (plain ("create network backend: " ++ qmpText cls desc : String))
      | (.ok, client) =>
        match ← executeArguments client (.deviceAdd nic) with
        | (.ok, client) => return .ok client
        | (.lost text, _) => return .error (uncertain text)
        | (.rejected cls desc, client) =>
          match ← executeArguments client (.netdevDel nic.id) with
          | (.rejected cls' desc', _) =>
            return .error (uncertain ("attach NIC: " ++ qmpText cls desc ++ "; delete backend: " ++
              qmpText cls' desc' : String))
          | (.lost text, _) =>
            return .error (uncertain ("attach NIC: " ++ qmpText cls desc ++ "; delete backend: " ++
              text : String))
          | (.ok, _) =>
            match ← stopFor site nic with
            | .error cleanup => return .error (uncertain cleanup)
            | .ok () =>
              return .error (plain
                ("attach NIC (older VMs need a stop/start to reserve PCIe slots): " ++
                  qmpText cls desc : String))

/-- The words of an error by which QEMU says that the guest may still let the device go. -/
def guestBusy : String := "guest is busy (power indicator blinking)"

/-- What one round of the loop that asks for the removal comes to. -/
inductive Round where
  | accepted (client : Client)
  | failed (e : ChangeError)
  | busy (e : ChangeError) (client : Client)

def requestRemoval (id : String) (client : Client) : Hotplug Round := do
  match ← executeArguments client (.deviceDel id) with
  | (.ok, client) => return .accepted client
  | (.lost text, _) => return .failed (uncertain text)
  | (.rejected cls desc, client) =>
    let failure : ChangeError :=
      plain ("remove NIC (older VMs need a stop/start to reserve PCIe slots): " ++
        qmpText cls desc : String)
    if guestBusy.toList <:+: desc.toList then return .busy failure client
    else return .failed failure

/-- The loop of `detachInterface` that asks for the removal, again while the guest is busy and the
deadline has not passed. -/
def removeDevice (id : String) : Nat → Client → Hotplug (Except ChangeError Client)
  | 0, client => do
    match ← requestRemoval id client with
    | .accepted client => return .ok client
    | .failed e => return .error e
    | .busy e _ => return .error e
  | n + 1, client => do
    match ← requestRemoval id client with
    | .accepted client => return .ok client
    | .failed e => return .error e
    | .busy _ client => removeDevice id n client

def detachInterface (site : Site) (client : Client) (nic : InterfaceSpec) :
    Hotplug (Except ChangeError Client) := do
  let n ← call .clock
  match ← removeDevice nic.id n { client with events := [] } with
  | .error e => return .error e
  | .ok client =>
    match awaitRemoval client nic.id with
    | none => return .error (uncertain "NIC removal not confirmed: EOF")
    | some (false, _) => return .error (plain "guest rejected NIC removal")
    | some (true, client) =>
      match ← executeArguments client (.netdevDel nic.id) with
      | (.rejected cls desc, _) => return .error (uncertain (qmpText cls desc))
      | (.lost text, _) => return .error (uncertain text)
      | (.ok, client) =>
        match ← stopFor site nic with
        | .error text => return .error (uncertain text)
        | .ok () => return .ok client

/-! ### The change -/

/-- An optional step: nothing to do without an interface. -/
def forInterface (nic : Option InterfaceSpec) (client : Client)
    (step : InterfaceSpec → Hotplug (Except ChangeError Client)) :
    Hotplug (Except ChangeError Client) :=
  match nic with
  | none => return .ok client
  | some nic => step nic

/-- `clear`: the journal goes, unless the state is uncertain. -/
def clearJournal (result : Except ChangeError Unit) : Hotplug (Except ChangeError Unit) :=
  match result with
  | .error ⟨true, text⟩ => return .error ⟨true, text⟩
  | result => do
    match ← call .removeJournal with
    | .ok () => return result
    | .error cleanup =>
      let cause : Maco.Message :=
        match result with
        | .error e => e.text
        | .ok () => "<nil>"
      return .error (uncertain (cause ++ ("; clear journal: " ++ cleanup : String)))

/-- `rollback`: the original interface comes back. -/
def rollback (site : Site) (client : Client) (before : Option InterfaceSpec) (cause : ChangeError) :
    Hotplug (Except ChangeError Unit) := do
  match ← forInterface before client (attachInterface site client) with
  | .error e =>
    return .error (uncertain (cause.text ++ ("; restore original interface: " : String) ++ e.text))
  | .ok _ => clearJournal (.error cause)

/-- `ChangeInterface` from the detachment on, when the journal is written. -/
def replaceInterface (site : Site) (client : Client) (before after : Option InterfaceSpec) :
    Hotplug (Except ChangeError Unit) := do
  match ← forInterface before client (detachInterface site client) with
  | .error e => clearJournal (.error e)
  | .ok client =>
    match ← forInterface after client (attachInterface site client) with
    | .error e => if e.uncertain then return .error e else rollback site client before e
    | .ok client =>
      match ← call .commit with
      | .ok () => clearJournal (.ok ())
      | .error text =>
        match ← forInterface after client (detachInterface site client) with
        | .error e =>
          return .error (uncertain (("save manifest: " ++ text ++ "; undo attachment: " : String) ++
            e.text))
        | .ok client => rollback site client before (plain text)

/-- The check of the new interface before anything is touched. -/
def checkBackend : Option InterfaceSpec → Except Maco.Message Unit
  | none => .ok ()
  | some nic =>
    match networkBackend nic with
    | .ok _ => .ok ()
    | .error text => .error text

def changeInterface (site : Site) (before after : Option InterfaceSpec) :
    Hotplug (Except ChangeError Unit) := do
  match ← call .statJournal with
  | .error text => return .error (plain text)
  | .ok true => return .error ⟨true, errNetworkStateUncertain⟩
  | .ok false =>
    if ([before, after].filterMap id).any fun nic => !validNetworkID nic.id then
      return .error (plain "invalid interface ID")
    else
      match ← call .dial with
      | .error text => return .error (plain text)
      | .ok arrived =>
        let before := before.map site.prepare
        let after := after.map site.prepare
        match checkBackend after with
        | .error text => return .error (plain text)
        | .ok () =>
          match ← call (.writeJournal ⟨before, after⟩) with
          | .error text => return .error (plain text)
          | .ok () => replaceInterface site { inbox := arrived } before after

/-! ### What the calls do -/

/-- The backends and the devices of QEMU by their names, each with the spec that it was made of. -/
structure Qemu where
  netdevs : String → Option InterfaceSpec
  devices : String → Option InterfaceSpec

/-- A machine as a change finds it; `commits` are the results of `commit`, the last one last. -/
structure HotplugState where
  journal : Option Change := none
  qemu : Qemu
  helpers : String → Option String := fun _ => none
  commits : List Bool := []

/-- An accepted command, or none where QEMU must refuse it.  A device that is asked to go is `gone`
when the guest has let it go. -/
def Qemu.apply (q : Qemu) (gone : Bool) : Command → Option Qemu
  | .netdevAdd nic =>
    if q.netdevs nic.id = none then
      some { q with netdevs := Function.update q.netdevs nic.id (some nic) }
    else none
  | .deviceAdd nic =>
    if q.netdevs nic.id ≠ none ∧ q.devices nic.id = none then
      some { q with devices := Function.update q.devices nic.id (some nic) }
    else none
  | .netdevDel id =>
    if q.netdevs id ≠ none then some { q with netdevs := Function.update q.netdevs id none }
    else none
  | .deviceDel id =>
    if q.devices id ≠ none then
      some (if gone then { q with devices := Function.update q.devices id none } else q)
    else none

/-- What becomes of an accepted removal: the guest lets the device go, or it refuses, or nothing is
heard of it, with either end. -/
inductive Removal where
  | deleted
  | kept
  | unheard (gone : Bool)
  deriving DecidableEq

def Removal.gone : Removal → Bool
  | .deleted => true
  | .kept => false
  | .unheard gone => gone

/-- The event that tells of a removal. -/
def Removal.messages (id : String) : Removal → List Message
  | .deleted => [.event "DEVICE_DELETED" (some id)]
  | .kept => [.event "DEVICE_UNPLUG_GUEST_ERROR" (some id)]
  | .unheard _ => []

/-- The events that an accepted command brings about. -/
def Command.messages (removal : Removal) : Command → List Message
  | .deviceDel id => removal.messages id
  | _ => []

def Message.isEvent : Message → Bool
  | .event _ _ => true
  | _ => false

/-- The event settles the removal of a network interface. -/
def Message.settles : Message → Bool
  | .event name (some device) =>
    (name = "DEVICE_DELETED" || name = "DEVICE_UNPLUG_GUEST_ERROR") && validNetworkID device
  | _ => false

/-- Events, and those that settle a removal are `told`. -/
def heard (told ms : List Message) : Bool :=
  ms.all Message.isEvent && ms.filter Message.settles = told

/-- The choices of the environment.  `failTook` is a failure after the effect.  Messages that come
with the answer of a command stand before and after it. -/
inductive HotplugChoice where
  | ok
  | fail (text : String)
  | failTook (text : String)
  | attempts (n : Nat)
  | hears (ms : List Message)
  | lost (took : Bool) (ms : List Message)
  | refused (cls desc : String) (first later : List Message)
  | done (removal : Removal) (first later : List Message)

def HotplugState.perform : Perform HotplugCall HotplugCall.Reply HotplugChoice HotplugState
  | .statJournal, .ok, s => some (.ok s.journal.isSome, s)
  | .statJournal, .fail text, s => some (.error text, s)
  | .dial, .hears ms, s => if heard [] ms then some (.ok ms, s) else none
  | .dial, .fail text, s => some (.error text, s)
  | .writeJournal c, .ok, s => some (.ok (), { s with journal := some c })
  | .writeJournal _, .fail text, s => some (.error text, s)
  | .removeJournal, .ok, s => some (.ok (), { s with journal := none })
  | .removeJournal, .fail text, s => some (.error text, s)
  | .mkdirAll _, .ok, s => some (.ok (), s)
  | .mkdirAll _, .fail text, s => some (.error text, s)
  | .startHelper dir bridge, .ok, s =>
    some (.ok (), { s with helpers := Function.update s.helpers dir (some bridge) })
  | .startHelper dir bridge, .failTook text, s =>
    some (.error text, { s with helpers := Function.update s.helpers dir (some bridge) })
  | .startHelper _ _, .fail text, s => some (.error text, s)
  | .stopHelper dir, .ok, s =>
    some (.ok (), { s with helpers := Function.update s.helpers dir none })
  | .stopHelper _, .fail text, s => some (.error text, s)
  | .clock, .attempts n, s => some (n, s)
  | .commit, .ok, s => some (.ok (), { s with commits := s.commits ++ [true] })
  | .commit, .fail text, s => some (.error text, { s with commits := s.commits ++ [false] })
  | .send _, .fail text, s => some (.error text, s)
  | .send _, .lost false ms, s => if heard [] ms then some (.ok ms, s) else none
  | .send c, .lost true ms, s =>
    match s.qemu.apply true c with
    | some q => if heard [] ms then some (.ok ms, { s with qemu := q }) else none
    | none => none
  | .send _, .refused cls desc first later, s =>
    if heard [] (first ++ later) then some (.ok (first ++ .error cls desc :: later), s) else none
  | .send c, .done removal first later, s =>
    match s.qemu.apply removal.gone c with
    | some q =>
      if heard (c.messages removal) (first ++ later) then
        some (.ok (first ++ .ret :: later), { s with qemu := q })
      else none
    | none => none
  | _, _, _ => none

end Maco.VM
