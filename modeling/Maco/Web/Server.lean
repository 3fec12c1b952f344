import Maco.Auth.Session

/-! The web server: its route table, the check of a request's role, and the streams that connect to
a VM or to a shell.  The router is chi's; it is a parameter. -/

namespace Maco.Web

open Bytes Maco.Auth

/-! ### Paths -/

/-- The two spellings of a path that `net/url` keeps; `rawPath` is empty where the default encoding
of `path` is the path as it was sent. -/
structure URL where
  path : List UInt8
  rawPath : List UInt8
  deriving DecidableEq

/-- The URL of a path as it was sent, or none where an escape is malformed. -/
def setPath (p : List UInt8) : Option URL :=
  (unescape p).map fun path => ⟨path, if p = escape path then [] else p⟩

/-- What the router looks at. -/
def URL.routePath (u : URL) : List UInt8 :=
  if u.rawPath ≠ [] then u.rawPath else if u.path ≠ [] then u.path else bytes "/"

/-- A piece of a route's pattern: a text, or a parameter. -/
inductive Segment where
  | lit (text : String)
  | param (name : String)
  deriving DecidableEq, Repr

def slash : UInt8 := 0x2F

/-- Whether a path has the pieces of a pattern, each after a slash. -/
def Matches : List Segment → List UInt8 → Prop
  | [], path => path = []
  | .lit text :: rest, path => ∃ tail, path = slash :: (bytes text ++ tail) ∧ Matches rest tail
  | .param _ :: rest, path => ∃ value tail, slash ∉ value ∧ path = slash :: (value ++ tail) ∧
      Matches rest tail

/-! ### The routes -/

inductive Handler where
  | serveOpenAPI | handleLogin | consoleVM | displayVM | hostConsole | streamJobs | streamEvents
  | currentUser | changePassword | listAPIKeys | createAPIKey | revokeAPIKey
  | listUSBDevices | listVMUSB | attachUSB | assignUSB | unassignUSB | detachUSB
  | listVMs | createVM | getVM | updateHardware | addVMInterface | updateVMInterface
  | removeVMInterface | addDisk | growDisk | removeDisk | previewVM | vmGuestAgent
  | startVM | stopVM | shutdownVM | listBackups | createBackup | getBackupSchedule
  | setBackupSchedule | restoreBackup | deleteBackup | listSnapshots | createSnapshot
  | restoreSnapshot | deleteSnapshot | deleteVM
  | listNetworks | createNetwork | updateNetwork | applyNetwork | destroyNetwork
  | listDisks | diskStorage | hostInfo | listInterfaces | listImages
  | listCatalog | downloadCatalogImage | deleteCatalogImage
  | listMedia | createMedia | uploadISO | uploadImage | deleteMedia | updateMedia
  | listJobs | getJob
  deriving DecidableEq, Repr

/-- A route; `authorized` routes are behind `requireAuth`. -/
structure Route where
  method : String
  pattern : List Segment
  handler : Handler
  authorized : Bool
  deriving DecidableEq, Repr

section Table

open Segment Handler

/-- `mountAPI`, under `/api`. -/
def publicRoutes : List (String × List Segment × Handler) :=
  [("GET", [lit "docs", lit "openapi.json"], serveOpenAPI),
   ("POST", [lit "login"], handleLogin),
   ("GET", [lit "vms", param "id", lit "console"], consoleVM),
   ("GET", [lit "vms", param "id", lit "display"], displayVM),
   ("GET", [lit "host", lit "console"], hostConsole),
   ("GET", [lit "jobs", lit "stream"], streamJobs),
   ("GET", [lit "events"], streamEvents)]

/-- `mountProtected`, under `/api`. -/
def protectedRoutes : List (String × List Segment × Handler) :=
  [("GET", [lit "me"], currentUser),
   ("PATCH", [lit "me", lit "password"], changePassword),
   ("GET", [lit "me", lit "api-keys"], listAPIKeys),
   ("POST", [lit "me", lit "api-keys"], createAPIKey),
   ("DELETE", [lit "me", lit "api-keys", param "id"], revokeAPIKey),
   ("GET", [lit "usb", lit "devices"], listUSBDevices),
   ("GET", [lit "vms", param "id", lit "usb"], listVMUSB),
   ("POST", [lit "vms", param "id", lit "usb"], attachUSB),
   ("POST", [lit "vms", param "id", lit "usb", lit "assignments"], assignUSB),
   ("DELETE", [lit "vms", param "id", lit "usb", lit "assignments", param "key"], unassignUSB),
   ("DELETE", [lit "vms", param "id", lit "usb", param "attachment"], detachUSB),
   ("GET", [lit "vms"], listVMs),
   ("POST", [lit "vms"], createVM),
   ("GET", [lit "vms", param "id"], getVM),
   ("PATCH", [lit "vms", param "id", lit "hardware"], updateHardware),
   ("POST", [lit "vms", param "id", lit "interfaces"], addVMInterface),
   ("PATCH", [lit "vms", param "id", lit "interfaces", param "interface"], updateVMInterface),
   ("DELETE", [lit "vms", param "id", lit "interfaces", param "interface"], removeVMInterface),
   ("POST", [lit "vms", param "id", lit "disks"], addDisk),
   ("PATCH", [lit "vms", param "id", lit "disks", param "disk"], growDisk),
   ("DELETE", [lit "vms", param "id", lit "disks", param "disk"], removeDisk),
   ("GET", [lit "vms", param "id", lit "preview"], previewVM),
   ("GET", [lit "vms", param "id", lit "guest-agent"], vmGuestAgent),
   ("POST", [lit "vms", param "id", lit "start"], startVM),
   ("POST", [lit "vms", param "id", lit "stop"], stopVM),
   ("POST", [lit "vms", param "id", lit "shutdown"], shutdownVM),
   ("GET", [lit "vms", param "id", lit "backups"], listBackups),
   ("POST", [lit "vms", param "id", lit "backups"], createBackup),
   ("GET", [lit "vms", param "id", lit "backups", lit "schedule"], getBackupSchedule),
   ("PUT", [lit "vms", param "id", lit "backups", lit "schedule"], setBackupSchedule),
   ("POST", [lit "vms", param "id", lit "backups", param "timestamp", lit "restore"],
     restoreBackup),
   ("DELETE", [lit "vms", param "id", lit "backups", param "timestamp"], deleteBackup),
   ("GET", [lit "vms", param "id", lit "snapshots"], listSnapshots),
   ("POST", [lit "vms", param "id", lit "snapshots"], createSnapshot),
   ("POST", [lit "vms", param "id", lit "snapshots", param "tag", lit "restore"], restoreSnapshot),
   ("DELETE", [lit "vms", param "id", lit "snapshots", param "tag"], deleteSnapshot),
   ("DELETE", [lit "vms", param "id"], deleteVM),
   ("GET", [lit "networks"], listNetworks),
   ("POST", [lit "networks"], createNetwork),
   ("PUT", [lit "networks", param "id"], updateNetwork),
   ("POST", [lit "networks", param "id", lit "apply"], applyNetwork),
   ("DELETE", [lit "networks", param "id"], destroyNetwork),
   ("GET", [lit "disks"], listDisks),
   ("GET", [lit "disks", lit "stats"], diskStorage),
   ("GET", [lit "host"], hostInfo),
   ("GET", [lit "interfaces"], listInterfaces),
   ("GET", [lit "images"], listImages),
   ("GET", [lit "catalog"], listCatalog),
   ("POST", [lit "catalog", param "id", lit "download"], downloadCatalogImage),
   ("DELETE", [lit "catalog", param "id"], deleteCatalogImage),
   ("GET", [lit "media"], listMedia),
   ("POST", [lit "media"], createMedia),
   ("POST", [lit "media", lit "iso"], uploadISO),
   ("POST", [lit "media", lit "image"], uploadImage),
   ("DELETE", [lit "media", param "id"], deleteMedia),
   ("PATCH", [lit "vms", param "id", lit "media"], updateMedia),
   ("GET", [lit "jobs"], listJobs),
   ("GET", [lit "jobs", param "id"], getJob)]

def Route.ofEntry (authorized : Bool) (e : String × List Segment × Handler) : Route :=
  ⟨e.1, lit "api" :: e.2.1, e.2.2, authorized⟩

/-- `buildRouter`. -/
def routes : List Route :=
  publicRoutes.map (Route.ofEntry false) ++ protectedRoutes.map (Route.ofEntry true)

end Table

/-- What a router finds for a method and a path. -/
abbrev Router := String → List UInt8 → Option Route

/-- What chi documents: it finds only a route of the method whose pattern the path has. -/
def Router.Documented (find : Router) : Prop :=
  ∀ {method path r}, find method path = some r →
    r ∈ routes ∧ r.method = method ∧ Matches r.pattern path

/-! ### Requests -/

structure Request where
  method : String
  /-- The path as it was sent. -/
  target : List UInt8
  /-- The header `Authorization`. -/
  authorization : String

/-- What becomes of a request. -/
inductive Response where
  | malformed
  | unrouted
  | refused (status : Nat) (message : String)
  | handled (r : Route) (claims : Option Claims)

def readOnlyMethod (method : String) : Bool :=
  method = "GET" || method = "HEAD" || method = "OPTIONS"

/-- `strings.TrimPrefix(header, "Bearer ")`. -/
def bearerToken (header : String) : String :=
  if "Bearer ".toList.isPrefixOf header.toList then .ofList (header.toList.drop 7) else header

section Serve

variable (c : Crypto) (secret : List UInt8) (s : State)

def requireAuth (u : URL) (req : Request) : Except (Nat × String) Claims :=
  let token := bearerToken req.authorization
  if token = req.authorization ∨ token = "" then .error (401, "unauthorized")
  else
    match s.authenticated c secret token with
    | .error _ => .error (401, "unauthorized")
    | .ok claims =>
      if !readOnlyMethod req.method && !canMutate claims.role &&
          !(bytes "/api/me/").isPrefixOf u.path then
        .error (403, "administrator role required")
      else .ok claims

def serve (find : Router) (req : Request) : Response :=
  match setPath req.target with
  | none => .malformed
  | some u =>
    match find req.method u.routePath with
    | none => .unrouted
    | some r =>
      if r.authorized then
        match requireAuth c secret s u req with
        | .error (status, message) => .refused status message
        | .ok claims => .handled r (some claims)
      else .handled r none

/-! ### Streams -/

/-- What the server does with a stream. -/
inductive StreamAction where
  | close (code : Nat) (reason : String)
  | closeNow
  | ready
  | replaySerial
  | connectVM (socket : String)
  | copy
  | startShell (shell : String)
  deriving DecidableEq, Repr

/-- Whether an action connects a stream to a VM or to a shell. -/
def StreamAction.connects : StreamAction → Bool
  | .replaySerial | .connectVM _ | .copy | .startShell _ => true
  | _ => false

def statusInternalError : Nat := 1011

def statusPolicyViolation : Nat := 1008

/-- What a stream meets: whether it was upgraded, the token of its first message, whether the VM
runs, whether its socket answers and still takes what is sent first, the shell of the host and
whether it starts. -/
structure StreamEnv where
  upgraded : Bool
  token : Option String
  running : Bool
  dialed : Bool
  sent : Bool
  shell : String
  started : Bool

/-- The claims of a stream, or what is done instead. -/
def acceptAuthenticated (env : StreamEnv) : Except (List StreamAction) Claims :=
  if !env.upgraded then .error []
  else
    match env.token with
    | none => .error [.close statusPolicyViolation "authentication required", .closeNow]
    | some token =>
      match authenticateToken c secret s.db token s.now with
      | .error _ => .error [.close statusPolicyViolation "unauthorized", .closeNow]
      | .ok claims => .ok claims

def streamVMConsole (graphical : Bool) (env : StreamEnv) : List StreamAction :=
  match acceptAuthenticated c secret s env with
  | .error actions => actions
  | .ok claims =>
    if !canMutate claims.role then
      [.close statusPolicyViolation "administrator role required", .closeNow]
    else if !env.running then [.close statusPolicyViolation "VM is not running", .closeNow]
    else if !env.dialed then [.close statusInternalError "console unavailable", .closeNow]
    else
      let first := if graphical then StreamAction.ready else .replaySerial
      [.connectVM (if graphical then "vnc.sock" else "console.sock"), first] ++
        (if env.sent then [.copy] else []) ++ [.closeNow]

def consoleVM (env : StreamEnv) : List StreamAction := streamVMConsole c secret s false env

def displayVM (env : StreamEnv) : List StreamAction := streamVMConsole c secret s true env

def hostConsole (env : StreamEnv) : List StreamAction :=
  match acceptAuthenticated c secret s env with
  | .error actions => actions
  | .ok claims =>
    if !canMutate claims.role then
      [.close statusPolicyViolation "administrator role required", .closeNow]
    else
      let shell := if env.shell = "" then "/bin/zsh" else env.shell
      if !env.started then [.close statusInternalError "shell unavailable", .closeNow]
      else [.startShell shell, .closeNow]

end Serve

end Maco.Web
