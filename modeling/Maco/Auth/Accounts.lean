import Maco.Lib.Bytes
import Mathlib.Data.List.Pairwise

/-! The accounts of the web interface: the two tables of the database, and the operations of the
engine on them.  Each statement runs on its own. -/

namespace Maco.Auth

open Bytes

/-- A time in nanoseconds since 1970. -/
abbrev Time := Nat

def second : Time := 1000000000

def Time.unix (t : Time) : Nat := t / second

structure User where
  id : String
  username : String
  passwordHash : String
  role : String
  createdAt : Nat
  deriving DecidableEq, Repr

/-- `types.APIKey`, with the column that only the queries read. -/
structure APIKey where
  id : String
  userID : String
  name : String
  keyPrefix : String
  tokenHash : List UInt8
  createdAt : Nat
  lastUsedAt : Option Nat := none
  revokedAt : Option Nat := none
  deriving DecidableEq

/-! ### The tables -/

/-- The table `users`: the id is its primary key, and the username is unique. -/
structure Users where
  rows : List User
  ids : rows.Pairwise fun a b => a.id ≠ b.id
  usernames : rows.Pairwise fun a b => a.username ≠ b.username

/-- The table `api_keys`: the id is its primary key, and the hash of the token is unique. -/
structure APIKeys where
  rows : List APIKey
  ids : rows.Pairwise fun a b => a.id ≠ b.id
  tokenHashes : rows.Pairwise fun a b => a.tokenHash ≠ b.tokenHash

theorem pairwise_unique {α β : Type} {key : α → β} {rows : List α}
    (h : rows.Pairwise fun a b => key a ≠ key b) {a b : α} (ha : a ∈ rows) (hb : b ∈ rows)
    (heq : key a = key b) : a = b := by
  by_contra hne
  have : Std.Symm fun a b : α => key a ≠ key b := ⟨fun _ _ h => h.symm⟩
  exact h.forall ha hb hne heq

/-- What a lookup finds where at most one row of a key fits. -/
theorem find_eq {α β : Type} {key : α → β} {rows : List α}
    (h : rows.Pairwise fun a b => key a ≠ key b) {fits : α → Bool} {k : β}
    (hkey : ∀ a, fits a = true → key a = k) (a : α) :
    rows.find? fits = some a ↔ a ∈ rows ∧ fits a = true := by
  constructor
  · intro hfind
    exact ⟨List.mem_of_find?_eq_some hfind, List.find?_some hfind⟩
  · rintro ⟨ha, hfits⟩
    cases hfind : rows.find? fits with
    | none => exact absurd hfits (List.find?_eq_none.mp hfind a ha)
    | some b =>
      have hb : key b = k := hkey b (List.find?_some hfind)
      rw [pairwise_unique h (List.mem_of_find?_eq_some hfind) ha (hb.trans (hkey a hfits).symm)]

namespace Users

def empty : Users := ⟨[], .nil, .nil⟩

def create (t : Users) (u : User) : Option Users :=
  if h : ∀ r ∈ t.rows, u.id ≠ r.id ∧ u.username ≠ r.username then
    some ⟨u :: t.rows, .cons (fun r hr => (h r hr).1) t.ids,
      .cons (fun r hr => (h r hr).2) t.usernames⟩
  else none

def getByUsername (t : Users) (username : String) : Option User :=
  t.rows.find? (·.username = username)

def getByID (t : Users) (id : String) : Option User := t.rows.find? (·.id = id)

def withPassword (username hash : String) (r : User) : User :=
  if r.username = username then { r with passwordHash := hash } else r

@[simp] theorem withPassword_id (username hash : String) (r : User) :
    (withPassword username hash r).id = r.id := by
  unfold withPassword
  split <;> rfl

@[simp] theorem withPassword_username (username hash : String) (r : User) :
    (withPassword username hash r).username = r.username := by
  unfold withPassword
  split <;> rfl

def updatePassword (t : Users) (username hash : String) : Users where
  rows := t.rows.map (withPassword username hash)
  ids := List.pairwise_map.mpr (by simpa using t.ids)
  usernames := List.pairwise_map.mpr (by simpa using t.usernames)

def delete (t : Users) (username : String) : Users where
  rows := t.rows.filter (·.username ≠ username)
  ids := t.ids.filter _
  usernames := t.usernames.filter _

theorem create_rows {t t' : Users} {u : User} (h : t.create u = some t') :
    t'.rows = u :: t.rows := by
  unfold create at h
  split at h
  · cases h
    rfl
  · cases h

theorem getByUsername_eq (t : Users) (username : String) (u : User) :
    t.getByUsername username = some u ↔ u ∈ t.rows ∧ u.username = username := by
  rw [getByUsername, find_eq t.usernames (k := username) (by simp), decide_eq_true_iff]

theorem getByID_eq (t : Users) (id : String) (u : User) :
    t.getByID id = some u ↔ u ∈ t.rows ∧ u.id = id := by
  rw [getByID, find_eq t.ids (k := id) (by simp), decide_eq_true_iff]

end Users

namespace APIKeys

def empty : APIKeys := ⟨[], .nil, .nil⟩

def create (t : APIKeys) (k : APIKey) : Option APIKeys :=
  if h : ∀ r ∈ t.rows, k.id ≠ r.id ∧ k.tokenHash ≠ r.tokenHash then
    some ⟨k :: t.rows, .cons (fun r hr => (h r hr).1) t.ids,
      .cons (fun r hr => (h r hr).2) t.tokenHashes⟩
  else none

def getActiveByHash (t : APIKeys) (hash : List UInt8) : Option APIKey :=
  t.rows.find? fun k => k.tokenHash = hash ∧ k.revokedAt = none

/-- Whether a revocation concerns a row. -/
def revokes (userID id : String) (k : APIKey) : Bool :=
  k.id = id ∧ k.userID = userID ∧ k.revokedAt = none

/-- Rows changed in columns that no constraint is about. -/
def update (t : APIKeys) (f : APIKey → APIKey) (hid : ∀ k, (f k).id = k.id)
    (hhash : ∀ k, (f k).tokenHash = k.tokenHash) : APIKeys where
  rows := t.rows.map f
  ids := List.pairwise_map.mpr (by simpa only [hid] using t.ids)
  tokenHashes := List.pairwise_map.mpr (by simpa only [hhash] using t.tokenHashes)

def withRevocation (userID id : String) (at_ : Nat) (k : APIKey) : APIKey :=
  if revokes userID id k then { k with revokedAt := some at_ } else k

/-- The rows afterwards, and whether there was one to revoke. -/
def revoke (t : APIKeys) (userID id : String) (at_ : Nat) : Bool × APIKeys :=
  (t.rows.any (revokes userID id), t.update (withRevocation userID id at_)
    (fun k => by unfold withRevocation; split <;> rfl)
    (fun k => by unfold withRevocation; split <;> rfl))

def touch (t : APIKeys) (id : String) (at_ : Nat) : APIKeys :=
  t.update (fun k => if k.id = id then { k with lastUsedAt := some at_ } else k)
    (fun k => by split <;> rfl) (fun k => by split <;> rfl)

theorem create_rows {t t' : APIKeys} {k : APIKey} (h : t.create k = some t') :
    t'.rows = k :: t.rows ∧ ∀ r ∈ t.rows, k.id ≠ r.id ∧ k.tokenHash ≠ r.tokenHash := by
  unfold create at h
  split at h
  · rename_i hfree
    cases h
    exact ⟨rfl, hfree⟩
  · cases h

theorem getActiveByHash_eq (t : APIKeys) (hash : List UInt8) (k : APIKey) :
    t.getActiveByHash hash = some k ↔ k ∈ t.rows ∧ k.tokenHash = hash ∧ k.revokedAt = none := by
  rw [getActiveByHash, find_eq t.tokenHashes (k := hash) fun _ h => (of_decide_eq_true h).1,
    decide_eq_true_iff]

end APIKeys

/-! ### The engine -/

structure DB where
  users : Users
  apiKeys : APIKeys

def roleAdmin : String := "admin"

def roleViewer : String := "viewer"

def validRole (role : String) : Bool := role = roleAdmin || role = roleViewer

def canMutate (role : String) : Bool := role = roleAdmin

namespace DB

/-- `AddUser` where `HashPassword` has returned `hash` and `uuid.NewString` returns `id`. -/
def addUser (db : DB) (username role : String) (hash : Except String String) (id : String)
    (now : Time) : Except String DB :=
  if !validRole role then .error "role must be \"admin\" or \"viewer\""
  else
    match hash with
    | .error e => .error e
    | .ok passwordHash =>
      match db.users.create ⟨id, username, passwordHash, role, now.unix⟩ with
      | none => .error "constraint failed: UNIQUE constraint failed"
      | some users => .ok { db with users }

/-- `SetPassword`. -/
def setPassword (db : DB) (username : String) (hash : Except String String) : Except String DB :=
  match hash with
  | .error e => .error e
  | .ok passwordHash => .ok { db with users := db.users.updatePassword username passwordHash }

def deleteUser (db : DB) (username : String) : DB :=
  { db with users := db.users.delete username }

def errInvalidCredentials : String := "invalid credentials"

/-- The engine's `Authenticate`. -/
def authenticate (verifyPassword : String → String → Bool) (db : DB) (username password : String) :
    Except String User :=
  match db.users.getByUsername username with
  | none => .error errInvalidCredentials
  | some u =>
    if verifyPassword u.passwordHash password then .ok u else .error errInvalidCredentials

end DB

/-- `unicode.IsSpace`. -/
def isSpace (c : Char) : Bool :=
  c.toNat ∈ [0x09, 0x0A, 0x0B, 0x0C, 0x0D, 0x20, 0x85, 0xA0, 0x1680, 0x2028, 0x2029, 0x202F,
    0x205F, 0x3000] || (0x2000 ≤ c.toNat && c.toNat ≤ 0x200A)

/-- `strings.TrimSpace`. -/
def trimSpace (s : String) : String :=
  .ofList (((s.toList.dropWhile isSpace).reverse.dropWhile isSpace).reverse)

def base64Digit (n : Nat) : Char :=
  "ABCDEFGHIJKLMNOPQRSTUVWXYZabcdefghijklmnopqrstuvwxyz0123456789-_".toList.getD n '_'

/-- `base64.RawURLEncoding`. -/
def rawURLEncode : List UInt8 → List Char
  | a :: b :: c :: rest =>
    let n := a.toNat * 65536 + b.toNat * 256 + c.toNat
    base64Digit (n / 262144) :: base64Digit (n / 4096 % 64) :: base64Digit (n / 64 % 64) ::
      base64Digit (n % 64) :: rawURLEncode rest
  | [a, b] =>
    let n := a.toNat * 1024 + b.toNat * 4
    [base64Digit (n / 4096), base64Digit (n / 64 % 64), base64Digit (n % 64)]
  | [a] => [base64Digit (a.toNat / 4), base64Digit (a.toNat % 4 * 16)]
  | [] => []

def apiKeyPrefix : String := "maco_"

/-- `generateAPIKey` where `rand.Read` fills in `secret`. -/
def generateAPIKey (secret : List UInt8) : String :=
  apiKeyPrefix ++ .ofList (rawURLEncode secret)

namespace DB

/-- `CreateAPIKey` where `generateAPIKey` has returned `token` and `uuid.NewString` returns `id`:
the key and its token. -/
def createAPIKey (sha256 : List UInt8 → List UInt8) (db : DB) (userID name : String)
    (token : Except String String) (id : String) (now : Time) :
    Except String ((APIKey × String) × DB) :=
  if trimSpace name = "" then .error "name is required"
  else
    match token with
    | .error e => .error e
    | .ok token =>
      let key : APIKey :=
        { id, userID, name := trimSpace name, keyPrefix := .ofList (token.toList.take 12),
          tokenHash := sha256 (bytes token), createdAt := now.unix }
      match db.apiKeys.create key with
      | none => .error "constraint failed: UNIQUE constraint failed"
      | some apiKeys => .ok ((key, token), { db with apiKeys })

def revokeAPIKey (db : DB) (userID id : String) (now : Time) : Bool × DB :=
  let (revoked, apiKeys) := db.apiKeys.revoke userID id now.unix
  (revoked, { db with apiKeys })

/-- `AuthenticateAPIKey`. -/
def authenticateAPIKey (sha256 : List UInt8 → List UInt8) (db : DB) (token : String) (now : Time) :
    Except String User × DB :=
  match db.apiKeys.getActiveByHash (sha256 (bytes token)) with
  | none => (.error errInvalidCredentials, db)
  | some key =>
    match db.users.getByID key.userID with
    | none => (.error errInvalidCredentials, db)
    | some u => (.ok u, { db with apiKeys := db.apiKeys.touch key.id now.unix })

end DB

end Maco.Auth
