import Maco.Auth.Accounts

/-! Session tokens, the authentication of requests, and the histories of accounts: any order of
account changes, token issues, API key creations and revocations, and requests. -/

namespace Maco.Auth

open Bytes

/-! ### Tokens -/

structure RegisteredClaims where
  subject : String
  issuedAt : Option Nat := none
  expiresAt : Option Nat := none
  deriving DecidableEq, Repr

structure Claims extends RegisteredClaims where
  userID : String
  credentials : String := ""
  role : String
  deriving DecidableEq, Repr

/-- The functions of other packages that tokens rest on.  `signedString` signs claims with a secret
under HS256; `parseWithClaims` reads a token at a time, with HS256 as the only method, the
expiration required and the time of issue checked. -/
structure Crypto where
  sha256 : List UInt8 → List UInt8
  verifyPassword : String → String → Bool
  signedString : List UInt8 → Claims → Except String String
  parseWithClaims : List UInt8 → Time → String → Except String Claims

/-- What those packages document.  A signed token is a base64 text of a JSON object and more, and
is read back as its claims from the second of its issue to the second of its expiration. -/
structure Crypto.Documented (c : Crypto) : Prop where
  injective : Function.Injective c.sha256
  nonempty : ∀ b, c.sha256 b ≠ []
  compact : ∀ {secret claims token}, c.signedString secret claims = .ok token →
    "ey".toList <+: token.toList
  reads : ∀ {secret claims token issuedAt expiresAt} {now : Time},
    c.signedString secret claims = .ok token → claims.issuedAt = some issuedAt →
    claims.expiresAt = some expiresAt → issuedAt * second ≤ now → now < expiresAt * second →
    c.parseWithClaims secret now token = .ok claims
  expires : ∀ {secret claims token expiresAt} {now : Time},
    c.signedString secret claims = .ok token → claims.expiresAt = some expiresAt →
    expiresAt * second ≤ now → ∃ e, c.parseWithClaims secret now token = .error e

section Tokens

variable (c : Crypto)

def credentialVersion (user : User) : String :=
  hexEncode (c.sha256 (bytes (user.id ++ "\x00" ++ user.passwordHash)))

/-- The claims of `IssueUserToken`, which looks at the clock twice. -/
def userClaims (user : User) (ttl now later : Time) : Claims where
  subject := user.username
  issuedAt := some now.unix
  expiresAt := some (later + ttl).unix
  userID := user.id
  credentials := credentialVersion c user
  role := user.role

def issueUserToken (secret : List UInt8) (user : User) (ttl now later : Time) :
    Except String String :=
  c.signedString secret (userClaims c user ttl now later)

def maxTokenBytes : Nat := 4096

def parseClaims (secret : List UInt8) (token : String) (now : Time) : Except String Claims :=
  if token.utf8ByteSize = 0 ∨ token.utf8ByteSize > maxTokenBytes then .error "invalid token length"
  else
    match c.parseWithClaims secret now token with
    | .error e => .error e
    | .ok claims =>
      if claims.subject = "" ∨ claims.issuedAt = none then .error "invalid token" else .ok claims

/-- `subtle.ConstantTimeCompare`. -/
def constantTimeCompare (x y : List UInt8) : Nat := if x = y then 1 else 0

def authenticateToken (secret : List UInt8) (db : DB) (token : String) (now : Time) :
    Except String Claims :=
  match parseClaims c secret token now with
  | .error e => .error e
  | .ok claims =>
    if claims.userID = "" ∨ claims.credentials = "" then .error "session must be renewed"
    else
      match db.users.getByUsername claims.subject with
      | none => .error "session revoked"
      | some user =>
        if user.id ≠ claims.userID ∨
            constantTimeCompare (bytes claims.credentials) (bytes (credentialVersion c user)) ≠ 1 then
          .error "session revoked"
        else .ok { claims with role := user.role }

/-- `authenticateAPIKey` of the server. -/
def authenticateKey (db : DB) (token : String) (now : Time) : Except String Claims × DB :=
  match db.authenticateAPIKey c.sha256 token now with
  | (.error e, db) => (.error e, db)
  | (.ok user, db) => (.ok { subject := user.username, userID := user.id, role := user.role }, db)

def authenticate (secret : List UInt8) (db : DB) (token : String) (now : Time) :
    Except String Claims × DB :=
  if apiKeyPrefix.toList.isPrefixOf token.toList then authenticateKey c db token now
  else (authenticateToken c secret db token now, db)

end Tokens

/-! ### Histories -/

/-- What happens: an operation together with what it gets from the random source and from bcrypt,
or the passing of time.  A `login` is the check of a password, which reads a row; an `issue` makes
a token for a row read before and takes `delay` between its looks at the clock. -/
inductive Event where
  | addUser (username role : String) (hash : Except String String) (id : String)
  | setPassword (username : String) (hash : Except String String)
  | deleteUser (username : String)
  | login (username password : String)
  | issue (user : User) (ttl delay : Time)
  | createAPIKey (userID name : String) (secret : Except String (List UInt8)) (id : String)
  | revokeAPIKey (userID id : String)
  | request (token : String)
  | wait (d : Time)

/-- A token that was issued, with the row it was issued for and the second it expires in. -/
structure Issued where
  token : String
  user : User
  expiresAt : Nat
  deriving DecidableEq

/-- An API key that was created. -/
structure Created where
  token : String
  id : String
  userID : String
  deriving DecidableEq

/-- The database and the clock, and what has happened: the password hashes and ids given out, the
rows that logins have read, and the tokens and keys. -/
structure State where
  db : DB
  now : Time
  hashes : List String := []
  ids : List String := []
  read : List User := []
  issued : List Issued := []
  created : List Created := []
  revoked : List Created := []

def State.start (now : Time) : State := { db := ⟨.empty, .empty⟩, now }

/-- A password hash or an id that has not been given out before. -/
def Fresh (given : List String) (s : String) : Prop := s ∉ given ∧ s ≠ ""

instance (given : List String) (s : String) : Decidable (Fresh given s) :=
  inferInstanceAs (Decidable (_ ∧ _))

def FreshHash (given : List String) : Except String String → Prop
  | .error _ => True
  | .ok hash => Fresh given hash

instance (given : List String) : (hash : Except String String) → Decidable (FreshHash given hash)
  | .error _ => inferInstanceAs (Decidable True)
  | .ok hash => inferInstanceAs (Decidable (Fresh given hash))

/-- The hash, if bcrypt gave one. -/
def given (hash : Except String String) : List String := hash.toOption.toList

@[simp] theorem given_ok (hash : String) : given (.ok hash) = [hash] := rfl

/-- One event, where it can happen: hashes and ids are fresh, usernames are not empty, and a token
is issued for a row that a login has read. -/
def State.step (c : Crypto) (secret : List UInt8) (s : State) : Event → Option State
  | .addUser username role hash id =>
    if username ≠ "" ∧ FreshHash s.hashes hash ∧ Fresh s.ids id then
      let s := { s with hashes := given hash ++ s.hashes, ids := id :: s.ids }
      match s.db.addUser username role hash id s.now with
      | .error _ => some s
      | .ok db => some { s with db }
    else none
  | .setPassword username hash =>
    if FreshHash s.hashes hash then
      let s := { s with hashes := given hash ++ s.hashes }
      match s.db.setPassword username hash with
      | .error _ => some s
      | .ok db => some { s with db }
    else none
  | .deleteUser username => some { s with db := s.db.deleteUser username }
  | .login username password =>
    match s.db.authenticate c.verifyPassword username password with
    | .error _ => some s
    | .ok user => some { s with read := user :: s.read }
  | .issue user ttl delay =>
    if user ∈ s.read then
      let later := s.now + delay
      match issueUserToken c secret user ttl s.now later with
      | .error _ => some { s with now := later }
      | .ok token =>
        some { s with
          now := later, issued := ⟨token, user, (later + ttl).unix⟩ :: s.issued }
    else none
  | .createAPIKey userID name random id =>
    match s.db.createAPIKey c.sha256 userID name (random.map generateAPIKey) id s.now with
    | .error _ => some s
    | .ok ((key, token), db) =>
      some { s with db, created := ⟨token, key.id, key.userID⟩ :: s.created }
  | .revokeAPIKey userID id =>
    let named := s.created.filter fun k => k.userID = userID ∧ k.id = id
    some { s with db := (s.db.revokeAPIKey userID id s.now).2, revoked := named ++ s.revoked }
  | .request token => some { s with db := (authenticate c secret s.db token s.now).2 }
  | .wait d => some { s with now := s.now + d }

/-- The state after events, where all can happen. -/
def State.run (c : Crypto) (secret : List UInt8) (s : State) : List Event → Option State
  | [] => some s
  | e :: es => (s.step c secret e).bind fun t => t.run c secret es

/-- The states that some history leads to. -/
inductive Reached (c : Crypto) (secret : List UInt8) : State → Prop
  | start (now : Time) : Reached c secret (.start now)
  | step {s t : State} {e : Event} (h : Reached c secret s) (ht : s.step c secret e = some t) :
      Reached c secret t

/-- The states that more events lead to. -/
inductive Later (c : Crypto) (secret : List UInt8) (s : State) : State → Prop
  | refl : Later c secret s s
  | step {t u : State} {e : Event} (h : Later c secret s t) (hu : t.step c secret e = some u) :
      Later c secret s u

/-- What comes of a request with a token. -/
def State.authenticated (c : Crypto) (secret : List UInt8) (s : State) (token : String) :
    Except String Claims :=
  (authenticate c secret s.db token s.now).1

/-- Whether a request with the token is let in. -/
def State.Accepts (c : Crypto) (secret : List UInt8) (s : State) (token : String) : Prop :=
  ∃ claims, s.authenticated c secret token = .ok claims

end Maco.Auth
