import Maco.Auth.Session

/-! Which tokens a server lets in after any history of accounts. -/

namespace Maco.Auth

open Bytes

/-- The fingerprints of two states of one account agree only where the passwords do. -/
theorem credentialVersion_eq {c : Crypto} (hc : c.Documented) {u v : User} (hid : u.id = v.id) :
    credentialVersion c u = credentialVersion c v ↔ u.passwordHash = v.passwordHash := by
  constructor
  · intro h
    have hbytes := hc.injective (hexEncode_inj h)
    have htext := bytes_inj.mp hbytes
    rw [hid] at htext
    exact (String.append_right_inj _).mp htext
  · intro h
    rw [credentialVersion, credentialVersion, hid, h]

/-! ### What an event does

Each event is seen from three sides: the accounts, the API keys and the session tokens. -/

/-- What an event does to the accounts. -/
inductive AccountStep (s t : State) : Prop
  | same (h : t.db.users = s.db.users)
  | added (u : User) (hname : u.username ≠ "") (hid : Fresh s.ids u.id)
      (hhash : Fresh s.hashes u.passwordHash) (hgiven : u.passwordHash ∈ t.hashes)
      (h : t.db.users.rows = u :: s.db.users.rows)
  | changed (username hash : String) (hhash : Fresh s.hashes hash) (hgiven : hash ∈ t.hashes)
      (h : t.db.users = s.db.users.updatePassword username hash)
  | deleted (username : String) (h : t.db.users = s.db.users.delete username)

/-- What an event does to the API keys. -/
inductive KeyStep (c : Crypto) (s t : State) : Prop
  | same (h : t.db.apiKeys = s.db.apiKeys) (hcreated : t.created = s.created)
      (hrevoked : t.revoked = s.revoked)
  | added (secret : List UInt8) (k : APIKey)
      (hhash : k.tokenHash = c.sha256 (bytes (generateAPIKey secret))) (hactive : k.revokedAt = none)
      (h : s.db.apiKeys.create k = some t.db.apiKeys)
      (hcreated : t.created = ⟨generateAPIKey secret, k.id, k.userID⟩ :: s.created)
      (hrevoked : t.revoked = s.revoked)
  | revoked (userID id : String) (at_ : Nat)
      (h : t.db.apiKeys = (s.db.apiKeys.revoke userID id at_).2) (hcreated : t.created = s.created)
      (hrevoked : t.revoked =
        (s.created.filter fun k => k.userID = userID ∧ k.id = id) ++ s.revoked)
  | touched (id : String) (at_ : Nat) (h : t.db.apiKeys = s.db.apiKeys.touch id at_)
      (hcreated : t.created = s.created) (hrevoked : t.revoked = s.revoked)

/-- What an event does to the session tokens and to what they rest on. -/
structure TokenStep (c : Crypto) (secret : List UInt8) (s t : State) : Prop where
  later : s.now ≤ t.now
  hashes : s.hashes ⊆ t.hashes
  read : ∀ u ∈ t.read, u ∈ s.read ∨ u ∈ s.db.users.rows
  issued : ∀ i ∈ t.issued, i ∈ s.issued ∨ i.user ∈ s.read ∧ ∃ ttl later,
    issueUserToken c secret i.user ttl s.now later = .ok i.token ∧
      i.expiresAt = (later + ttl).unix
  grows : s.issued ⊆ t.issued

theorem TokenStep.plain {c : Crypto} {secret : List UInt8} {s t : State} (hnow : t.now = s.now)
    (hhashes : s.hashes ⊆ t.hashes) (hread : t.read = s.read) (hissued : t.issued = s.issued) :
    TokenStep c secret s t := by
  constructor
  · exact Nat.le_of_eq hnow.symm
  · exact hhashes
  · intro u hu
    exact .inl (hread ▸ hu)
  · intro i hi
    exact .inl (hissued ▸ hi)
  · exact hissued ▸ List.Subset.refl _

theorem DB.addUser_ok {db db' : DB} {username role : String} {hash : Except String String}
    {id : String} {now : Time} (h : db.addUser username role hash id now = .ok db') :
    ∃ passwordHash, hash = .ok passwordHash ∧ db'.apiKeys = db.apiKeys ∧
      db'.users.rows = ⟨id, username, passwordHash, role, now.unix⟩ :: db.users.rows := by
  unfold addUser at h
  split at h
  · cases h
  · split at h
    · cases h
    · rename_i passwordHash
      split at h
      · cases h
      · rename_i users hcreate
        cases h
        exact ⟨passwordHash, rfl, rfl, Users.create_rows hcreate⟩

theorem DB.createAPIKey_ok {sha256 : List UInt8 → List UInt8} {db db' : DB} {userID name : String}
    {token : Except String String} {id : String} {now : Time} {k : APIKey} {tok : String}
    (h : db.createAPIKey sha256 userID name token id now = .ok ((k, tok), db')) :
    token = .ok tok ∧ k.tokenHash = sha256 (bytes tok) ∧ k.revokedAt = none ∧
      db'.users = db.users ∧ db.apiKeys.create k = some db'.apiKeys := by
  unfold createAPIKey at h
  split at h
  · cases h
  · split at h
    · cases h
    · rename_i token
      dsimp only at h
      split at h
      · cases h
      · rename_i apiKeys hcreate
        cases h
        exact ⟨rfl, rfl, rfl, rfl, hcreate⟩

theorem DB.authenticate_ok {verifyPassword : String → String → Bool} {db : DB}
    {username password : String} {u : User}
    (h : db.authenticate verifyPassword username password = .ok u) : u ∈ db.users.rows := by
  unfold authenticate at h
  split at h
  · cases h
  · rename_i hfound
    split at h
    · cases h
      exact ((db.users.getByUsername_eq _ _).mp hfound).1
    · cases h

theorem authenticate_db (c : Crypto) (secret : List UInt8) (db : DB) (token : String) (now : Time) :
    (authenticate c secret db token now).2 = db ∨
      ∃ id, (authenticate c secret db token now).2 =
        { db with apiKeys := db.apiKeys.touch id now.unix } := by
  unfold authenticate
  split
  · unfold authenticateKey DB.authenticateAPIKey
    split
    · rename_i heq
      split at heq
      · cases heq
        exact .inl rfl
      · split at heq
        · cases heq
          exact .inl rfl
        · cases heq
    · rename_i heq
      split at heq
      · cases heq
      · split at heq
        · cases heq
        · cases heq
          exact .inr ⟨_, rfl⟩
  · exact .inl rfl

theorem State.step_views {c : Crypto} {secret : List UInt8} {s t : State} {e : Event}
    (h : s.step c secret e = some t) :
    AccountStep s t ∧ KeyStep c s t ∧ TokenStep c secret s t := by
  cases e with
  | addUser username role hash id =>
    simp only [State.step] at h
    split at h
    · rename_i hguard
      obtain ⟨hname, hhash, hid⟩ := hguard
      have hsub : s.hashes ⊆ given hash ++ s.hashes := List.subset_append_right _ _
      split at h
      · cases h
        exact ⟨.same rfl, .same rfl rfl rfl, .plain rfl hsub rfl rfl⟩
      · rename_i db hadd
        cases h
        obtain ⟨passwordHash, rfl, hkeys, hrows⟩ := DB.addUser_ok hadd
        have hfresh : Fresh s.hashes passwordHash := hhash
        exact ⟨.added _ hname hid hfresh (by simp) hrows, .same hkeys rfl rfl,
          .plain rfl hsub rfl rfl⟩
    · cases h
  | setPassword username hash =>
    simp only [State.step] at h
    split at h
    · rename_i hhash
      have hsub : s.hashes ⊆ given hash ++ s.hashes := List.subset_append_right _ _
      cases hash with
      | error e =>
        cases h
        exact ⟨.same rfl, .same rfl rfl rfl, .plain rfl hsub rfl rfl⟩
      | ok hash =>
        cases h
        exact ⟨.changed username hash hhash (by simp) rfl, .same rfl rfl rfl,
          .plain rfl hsub rfl rfl⟩
    · cases h
  | deleteUser username =>
    cases h
    exact ⟨.deleted username rfl, .same rfl rfl rfl, .plain rfl (List.Subset.refl _) rfl rfl⟩
  | login username password =>
    simp only [State.step] at h
    split at h
    · cases h
      exact ⟨.same rfl, .same rfl rfl rfl, .plain rfl (List.Subset.refl _) rfl rfl⟩
    · rename_i user hlogin
      cases h
      have huser := DB.authenticate_ok hlogin
      refine ⟨.same rfl, .same rfl rfl rfl, Nat.le_refl _, List.Subset.refl _, ?_, fun _ h => .inl h,
        List.Subset.refl _⟩
      intro u hu
      obtain rfl | hu := List.mem_cons.mp hu
      · exact .inr huser
      · exact .inl hu
  | issue user ttl delay =>
    simp only [State.step] at h
    split at h
    · rename_i hread
      split at h
      · cases h
        exact ⟨.same rfl, .same rfl rfl rfl, Nat.le_add_right _ _, List.Subset.refl _,
          fun _ h => .inl h, fun _ h => .inl h, List.Subset.refl _⟩
      · rename_i token hissue
        cases h
        refine ⟨.same rfl, .same rfl rfl rfl, Nat.le_add_right _ _, List.Subset.refl _,
          fun _ h => .inl h, ?_, List.subset_cons_self _ _⟩
        intro i hi
        obtain rfl | hi := List.mem_cons.mp hi
        · exact .inr ⟨hread, ttl, _, hissue, rfl⟩
        · exact .inl hi
    · cases h
  | createAPIKey userID name random id =>
    simp only [State.step] at h
    split at h
    · cases h
      exact ⟨.same rfl, .same rfl rfl rfl, .plain rfl (List.Subset.refl _) rfl rfl⟩
    · rename_i key token db hcreate
      cases h
      obtain ⟨htoken, hhash, hactive, husers, hkeys⟩ := DB.createAPIKey_ok hcreate
      cases random with
      | error e => cases htoken
      | ok secret =>
        cases htoken
        exact ⟨.same husers, .added secret key hhash hactive hkeys rfl rfl,
          .plain rfl (List.Subset.refl _) rfl rfl⟩
  | revokeAPIKey userID id =>
    cases h
    exact ⟨.same rfl, .revoked userID id _ rfl rfl rfl, .plain rfl (List.Subset.refl _) rfl rfl⟩
  | request token =>
    cases h
    refine ⟨.same ?_, ?_, .plain rfl (List.Subset.refl _) rfl rfl⟩
    · obtain h | ⟨id, h⟩ := authenticate_db c secret s.db token s.now <;> simp only [h]
    · obtain h | ⟨id, h⟩ := authenticate_db c secret s.db token s.now
      · exact .same (by simp only [h]) rfl rfl
      · exact .touched id s.now.unix (by simp only [h]) rfl rfl
  | wait d =>
    cases h
    exact ⟨.same rfl, .same rfl rfl rfl,
      ⟨Nat.le_add_right _ _, List.Subset.refl _, fun _ h => .inl h, fun _ h => .inl h,
        List.Subset.refl _⟩⟩

/-! ### The invariant -/

/-- The row of a key, which has a time of revocation once the key was revoked. -/
def Backed (c : Crypto) (s : State) (k : Created) : Prop :=
  ∃ r ∈ s.db.apiKeys.rows, r.id = k.id ∧ r.userID = k.userID ∧
    r.tokenHash = c.sha256 (bytes k.token) ∧ (r.revokedAt = none ↔ k ∉ s.revoked)

structure Kept (c : Crypto) (secret : List UInt8) (s : State) : Prop where
  named : ∀ u ∈ s.db.users.rows, u.username ≠ "" ∧ u.id ≠ ""
  hashed : ∀ u ∈ s.db.users.rows, u.passwordHash ∈ s.hashes
  read : ∀ u ∈ s.read, u.passwordHash ∈ s.hashes
  issued : ∀ i ∈ s.issued, i.user.passwordHash ∈ s.hashes ∧ ∃ ttl now later, now ≤ s.now ∧
    issueUserToken c secret i.user ttl now later = .ok i.token ∧ i.expiresAt = (later + ttl).unix
  generated : ∀ k ∈ s.created, ∃ secret, k.token = generateAPIKey secret
  backed : ∀ k ∈ s.created, Backed c s k
  revoked : s.revoked ⊆ s.created

section Invariant

variable {c : Crypto} {secret : List UInt8} {s t : State}

theorem AccountStep.named (h : AccountStep s t)
    (hs : ∀ u ∈ s.db.users.rows, u.username ≠ "" ∧ u.id ≠ "") :
    ∀ u ∈ t.db.users.rows, u.username ≠ "" ∧ u.id ≠ "" := by
  cases h with
  | same h => exact h ▸ hs
  | added u hname hid hhash hgiven h =>
    rw [h]
    intro v hv
    obtain rfl | hv := List.mem_cons.mp hv
    · exact ⟨hname, hid.2⟩
    · exact hs v hv
  | changed username hash hhash hgiven h =>
    rw [h]
    intro v hv
    obtain ⟨u, hu, rfl⟩ := List.mem_map.mp hv
    simpa using hs u hu
  | deleted username h =>
    rw [h]
    intro v hv
    exact hs v (List.mem_filter.mp hv).1

theorem AccountStep.hashed (h : AccountStep s t) (hgrow : s.hashes ⊆ t.hashes)
    (hs : ∀ u ∈ s.db.users.rows, u.passwordHash ∈ s.hashes) :
    ∀ u ∈ t.db.users.rows, u.passwordHash ∈ t.hashes := by
  cases h with
  | same h =>
    rw [h]
    intro v hv
    exact hgrow (hs v hv)
  | added u hname hid hhash hgiven h =>
    rw [h]
    intro v hv
    obtain rfl | hv := List.mem_cons.mp hv
    · exact hgiven
    · exact hgrow (hs v hv)
  | changed username hash hhash hgiven h =>
    rw [h]
    intro v hv
    obtain ⟨u, hu, rfl⟩ := List.mem_map.mp hv
    unfold Users.withPassword
    split
    · exact hgiven
    · exact hgrow (hs u hu)
  | deleted username h =>
    rw [h]
    intro v hv
    exact hgrow (hs v (List.mem_filter.mp hv).1)

/-- Rows that are changed, with the constraints kept, still back a key if the revocation agrees. -/
theorem Backed.update {k : Created} (h : Backed c s k) {f : APIKey → APIKey}
    (hid : ∀ r, (f r).id = r.id) (huser : ∀ r, (f r).userID = r.userID)
    (hhash : ∀ r, (f r).tokenHash = r.tokenHash)
    (ht : t.db.apiKeys.rows = s.db.apiKeys.rows.map f)
    (hrevoked : ∀ r ∈ s.db.apiKeys.rows, r.id = k.id → r.userID = k.userID →
      (r.revokedAt = none ↔ k ∉ s.revoked) → ((f r).revokedAt = none ↔ k ∉ t.revoked)) :
    Backed c t k := by
  obtain ⟨r, hr, hrid, hruser, hrhash, hactive⟩ := h
  refine ⟨f r, ?_, (hid r).trans hrid, (huser r).trans hruser, (hhash r).trans hrhash,
    hrevoked r hr hrid hruser hactive⟩
  rw [ht]
  exact List.mem_map_of_mem hr

theorem KeyStep.generated (h : KeyStep c s t)
    (hs : ∀ k ∈ s.created, ∃ secret, k.token = generateAPIKey secret) :
    ∀ k ∈ t.created, ∃ secret, k.token = generateAPIKey secret := by
  cases h with
  | same h hcreated => exact hcreated ▸ hs
  | added secret k hhash hactive h hcreated =>
    rw [hcreated]
    intro k' hk'
    obtain rfl | hk' := List.mem_cons.mp hk'
    · exact ⟨secret, rfl⟩
    · exact hs k' hk'
  | revoked userID id at_ h hcreated => exact hcreated ▸ hs
  | touched id at_ h hcreated => exact hcreated ▸ hs

theorem KeyStep.revoked_subset (h : KeyStep c s t) (hs : s.revoked ⊆ s.created) :
    t.revoked ⊆ t.created := by
  cases h with
  | same h hcreated hrevoked => rwa [hcreated, hrevoked]
  | added secret k hhash hactive h hcreated hrevoked =>
    rw [hcreated, hrevoked]
    exact List.subset_cons_of_subset _ hs
  | revoked userID id at_ h hcreated hrevoked =>
    rw [hcreated, hrevoked]
    exact List.append_subset.mpr ⟨fun _ hk => (List.mem_filter.mp hk).1, hs⟩
  | touched id at_ h hcreated hrevoked => rwa [hcreated, hrevoked]

theorem KeyStep.backed (h : KeyStep c s t) (hsub : s.revoked ⊆ s.created)
    (hs : ∀ k ∈ s.created, Backed c s k) : ∀ k ∈ t.created, Backed c t k := by
  cases h with
  | same h hcreated hrevoked =>
    rw [hcreated]
    intro k hk
    have := hs k hk
    rwa [Backed, h, hrevoked]
  | added secret k hhash hactive h hcreated hrevoked =>
    obtain ⟨hrows, hfree⟩ := APIKeys.create_rows h
    rw [hcreated]
    intro k' hk'
    obtain rfl | hk' := List.mem_cons.mp hk'
    · refine ⟨k, hrows ▸ List.mem_cons_self, rfl, rfl, hhash, ?_⟩
      -- the key cannot have been revoked: its row would be there
      have hnew : ⟨generateAPIKey secret, k.id, k.userID⟩ ∉ t.revoked := by
        intro hmem
        obtain ⟨r, hr, hid, -⟩ := hs _ (hsub (hrevoked ▸ hmem))
        exact (hfree r hr).1 hid.symm
      simp [hactive, hnew]
    · obtain ⟨r, hr, hrest⟩ := hs k' hk'
      exact ⟨r, hrows ▸ List.mem_cons_of_mem _ hr, hrevoked ▸ hrest⟩
  | revoked userID id at_ h hcreated hrevoked =>
    rw [hcreated]
    intro k hk
    refine (hs k hk).update (f := APIKeys.withRevocation userID id at_)
      (fun r => by unfold APIKeys.withRevocation; split <;> rfl)
      (fun r => by unfold APIKeys.withRevocation; split <;> rfl)
      (fun r => by unfold APIKeys.withRevocation; split <;> rfl) (by rw [h]; rfl) ?_
    intro r _ hid huser hactive
    by_cases hnamed : k.userID = userID ∧ k.id = id
    · have hin : k ∈ t.revoked := by
        rw [hrevoked]
        exact List.mem_append_left _ (List.mem_filter.mpr ⟨hk, by simpa using hnamed⟩)
      have hdone : (APIKeys.withRevocation userID id at_ r).revokedAt ≠ none := by
        unfold APIKeys.withRevocation
        split
        · simp
        · rename_i hnot
          intro hnone
          exact hnot (by simp [APIKeys.revokes, hid, huser, hnamed, hnone])
      simp [hin, hdone]
    · have hsame : APIKeys.withRevocation userID id at_ r = r := by
        unfold APIKeys.withRevocation
        rw [if_neg]
        intro hrev
        simp only [APIKeys.revokes, decide_eq_true_eq, hid, huser] at hrev
        exact hnamed ⟨hrev.2.1, hrev.1⟩
      rw [hsame, hactive, hrevoked]
      simp [hnamed]
  | touched id at_ h hcreated hrevoked =>
    rw [hcreated]
    intro k hk
    refine (hs k hk).update (f := fun r => if r.id = id then { r with lastUsedAt := some at_ } else r)
      (fun r => by split <;> rfl) (fun r => by split <;> rfl) (fun r => by split <;> rfl)
      (by rw [h]; rfl) ?_
    intro r _ _ _ hactive
    rw [hrevoked, ← hactive]
    split <;> rfl

theorem Kept.start (now : Time) : Kept c secret (.start now) := by
  constructor <;> simp [State.start, Users.empty]

theorem Kept.step {e : Event} (h : Kept c secret s) (ht : s.step c secret e = some t) :
    Kept c secret t := by
  obtain ⟨haccount, hkey, htoken⟩ := State.step_views ht
  refine ⟨haccount.named h.named, haccount.hashed htoken.hashes h.hashed, ?_, ?_,
    hkey.generated h.generated, hkey.backed h.revoked h.backed, hkey.revoked_subset h.revoked⟩
  · intro u hu
    obtain hold | hrow := htoken.read u hu
    · exact htoken.hashes (h.read u hold)
    · exact htoken.hashes (h.hashed u hrow)
  · intro i hi
    obtain hold | ⟨hread, ttl, later, hissue, hexp⟩ := htoken.issued i hi
    · obtain ⟨hhash, ttl, now, later, hnow, hissue, hexp⟩ := h.issued i hold
      exact ⟨htoken.hashes hhash, ttl, now, later, Nat.le_trans hnow htoken.later, hissue, hexp⟩
    · exact ⟨htoken.hashes (h.read i.user hread), ttl, s.now, later, htoken.later, hissue, hexp⟩

theorem Reached.kept (h : Reached c secret s) : Kept c secret s := by
  induction h with
  | start now => exact .start now
  | step h ht ih => exact ih.step ht

theorem Reached.run {es : List Event} (h : Reached c secret s)
    (ht : s.run c secret es = some t) : Reached c secret t := by
  induction es generalizing s with
  | nil =>
    cases ht
    exact h
  | cons e es ih =>
    obtain ⟨s', hstep, hrest⟩ := Option.bind_eq_some_iff.mp ht
    exact ih (h.step hstep) hrest

end Invariant

/-! ### Session tokens -/

/-- Whether the current row with a user's name is that user, with the password of the user. -/
def State.Current (s : State) (u : User) : Prop :=
  ∃ r ∈ s.db.users.rows, r.username = u.username ∧ r.id = u.id ∧ r.passwordHash = u.passwordHash

section Sessions

variable {c : Crypto} {secret : List UInt8} {s : State}

theorem Crypto.Documented.not_key (hc : c.Documented) {claims : Claims} {token : String}
    (h : c.signedString secret claims = .ok token) :
    ¬apiKeyPrefix.toList.isPrefixOf token.toList = true := by
  intro hkey
  obtain ⟨rest, hrest⟩ := List.isPrefixOf_iff_prefix.mp hkey
  obtain ⟨rest', hrest'⟩ := hc.compact h
  rw [← hrest] at hrest'
  simp [apiKeyPrefix] at hrest'

theorem Crypto.Documented.size_ne_zero (hc : c.Documented) {claims : Claims} {token : String}
    (h : c.signedString secret claims = .ok token) : token.utf8ByteSize ≠ 0 := by
  intro hzero
  obtain ⟨rest, hrest⟩ := hc.compact h
  rw [String.utf8ByteSize_eq_zero_iff.mp hzero] at hrest
  simp at hrest

/-- What `parseClaims` makes of a token that was signed for a user. -/
theorem parseClaims_signed (hc : c.Documented) {user : User} {ttl issued later now : Time}
    {token : String} (h : issueUserToken c secret user ttl issued later = .ok token)
    (hissued : issued ≤ now) (hsize : token.utf8ByteSize ≤ maxTokenBytes) :
    (now < (later + ttl).unix * second → user.username ≠ "" →
      parseClaims c secret token now = .ok (userClaims c user ttl issued later)) ∧
    ((later + ttl).unix * second ≤ now ∨ user.username = "" →
      ∃ e, parseClaims c secret token now = .error e) := by
  have hsize' : ¬(token.utf8ByteSize = 0 ∨ token.utf8ByteSize > maxTokenBytes) := by
    have := hc.size_ne_zero h
    omega
  have hiat : issued.unix * second ≤ now := Nat.le_trans (Nat.div_mul_le_self _ _) hissued
  rw [parseClaims, if_neg hsize']
  by_cases hexp : now < (later + ttl).unix * second
  · have hread := hc.reads h (rfl : _ = some issued.unix) rfl hiat hexp
    by_cases hname : user.username = ""
    · have hempty : (userClaims c user ttl issued later).subject = "" := hname
      refine ⟨fun _ hne => absurd hname hne, fun _ => ⟨"invalid token", ?_⟩⟩
      simp [hread, hempty]
    · have hsubject : (userClaims c user ttl issued later).subject ≠ "" := hname
      refine ⟨fun _ _ => ?_, fun h => absurd h (by simp [hname, hexp])⟩
      simp only [hread, hsubject, false_or]
      rfl
  · refine ⟨fun h => absurd h hexp, fun _ => ?_⟩
    obtain ⟨e, he⟩ := hc.expires h rfl (Nat.le_of_not_lt hexp)
    exact ⟨e, by simp only [he]⟩

theorem constantTimeCompare_eq_one (x y : List UInt8) : constantTimeCompare x y = 1 ↔ x = y := by
  unfold constantTimeCompare
  split <;> simp [*]

/-- Claims that were signed for a user are let in where the row of that name is the user. -/
theorem authenticateToken_signed (hc : c.Documented) {db : DB} {token : String} {now : Time}
    {user : User} {ttl issued later : Time}
    (hparse : parseClaims c secret token now = .ok (userClaims c user ttl issued later)) :
    (∃ claims, authenticateToken c secret db token now = .ok claims) ↔
      user.id ≠ "" ∧ ∃ r ∈ db.users.rows, r.username = user.username ∧ r.id = user.id ∧
        r.passwordHash = user.passwordHash := by
  have hcredentials : credentialVersion c user ≠ "" := hexEncode_ne_empty (hc.nonempty _)
  unfold authenticateToken
  rw [hparse]
  simp only [userClaims, hcredentials, or_false]
  by_cases hid : user.id = ""
  · simp [hid]
  · rw [if_neg hid]
    cases hfound : db.users.getByUsername user.username with
    | none =>
      constructor
      · rintro ⟨claims, h⟩
        cases h
      · rintro ⟨-, r, hr, hname, -⟩
        rw [(db.users.getByUsername_eq _ r).mpr ⟨hr, hname⟩] at hfound
        cases hfound
    | some r =>
      obtain ⟨hr, hname⟩ := (db.users.getByUsername_eq _ _).mp hfound
      simp only [ne_eq, constantTimeCompare_eq_one, bytes_inj]
      constructor
      · rintro ⟨claims, h⟩
        split at h
        · cases h
        · rename_i hsame
          obtain ⟨hrid, hversion⟩ := not_or.mp hsame
          have hrid := not_not.mp hrid
          exact ⟨hid, r, hr, hname, hrid,
            ((credentialVersion_eq hc hrid.symm).mp (not_not.mp hversion)).symm⟩
      · rintro ⟨-, r', hr', hname', hrid, hhash⟩
        have hsame : r' = r := pairwise_unique db.users.usernames hr' hr (hname'.trans hname.symm)
        subst hsame
        rw [if_neg (by simp [hrid, (credentialVersion_eq hc hrid.symm).mpr hhash.symm])]
        exact ⟨_, rfl⟩

/-- The role that comes with a token is that of the row it was checked against. -/
theorem authenticateToken_role {db : DB} {token : String} {now : Time} {claims : Claims}
    (h : authenticateToken c secret db token now = .ok claims) :
    ∃ parsed, parseClaims c secret token now = .ok parsed ∧
      ∃ r ∈ db.users.rows, r.username = parsed.subject ∧ r.id = parsed.userID ∧
        claims = { parsed with role := r.role } := by
  unfold authenticateToken at h
  cases hparse : parseClaims c secret token now with
  | error e => simp [hparse] at h
  | ok parsed =>
    rw [hparse] at h
    dsimp only at h
    split at h
    · cases h
    · cases hfound : db.users.getByUsername parsed.subject with
      | none => simp [hfound] at h
      | some r =>
        rw [hfound] at h
        dsimp only at h
        obtain ⟨hr, hname⟩ := (db.users.getByUsername_eq _ _).mp hfound
        split at h
        · cases h
        · rename_i hsame
          cases h
          exact ⟨parsed, rfl, r, hr, hname, not_not.mp (not_or.mp hsame).1, rfl⟩

theorem Kept.accepts_session (h : Kept c secret s) (hc : c.Documented) {i : Issued}
    (hi : i ∈ s.issued) (hsize : i.token.utf8ByteSize ≤ maxTokenBytes) :
    s.Accepts c secret i.token ↔ s.now < i.expiresAt * second ∧ s.Current i.user := by
  obtain ⟨-, ttl, now, later, hnow, hissue, hexp⟩ := h.issued i hi
  obtain ⟨hvalid, hinvalid⟩ := parseClaims_signed hc hissue hnow hsize
  rw [State.Accepts, State.authenticated, authenticate, if_neg (hc.not_key hissue), hexp]
  dsimp only
  by_cases hok : s.now < (later + ttl).unix * second ∧ i.user.username ≠ ""
  · rw [authenticateToken_signed hc (hvalid hok.1 hok.2)]
    constructor
    · rintro ⟨-, hrow⟩
      exact ⟨hok.1, hrow⟩
    · rintro ⟨-, r, hr, hname, hid, hhash⟩
      exact ⟨hid ▸ (h.named r hr).2, r, hr, hname, hid, hhash⟩
  · obtain ⟨e, he⟩ := hinvalid (by
      by_cases hlate : (later + ttl).unix * second ≤ s.now
      · exact .inl hlate
      · exact .inr (not_not.mp fun hname => hok ⟨Nat.lt_of_not_le hlate, hname⟩))
    constructor
    · rintro ⟨claims, hclaims⟩
      simp [authenticateToken, he] at hclaims
    · rintro ⟨htime, r, hr, hname, -⟩
      exact absurd ⟨htime, hname ▸ (h.named r hr).1⟩ hok

theorem Kept.session_size (h : Kept c secret s) (hc : c.Documented) {i : Issued}
    (hi : i ∈ s.issued) (hok : s.Accepts c secret i.token) :
    i.token.utf8ByteSize ≤ maxTokenBytes := by
  obtain ⟨claims, hok⟩ := hok
  obtain ⟨-, ttl, now, later, -, hissue, -⟩ := h.issued i hi
  rw [State.authenticated, authenticate, if_neg (hc.not_key hissue)] at hok
  obtain ⟨parsed, hparse, -⟩ := authenticateToken_role hok
  by_contra hlong
  rw [parseClaims, if_pos (.inr (Nat.lt_of_not_le hlong))] at hparse
  cases hparse

theorem Kept.session_role (h : Kept c secret s) (hc : c.Documented) {i : Issued}
    (hi : i ∈ s.issued) {claims : Claims} (hok : s.authenticated c secret i.token = .ok claims) :
    ∃ r ∈ s.db.users.rows, r.username = i.user.username ∧ r.id = i.user.id ∧
      claims.role = r.role := by
  have hsize := h.session_size hc hi ⟨claims, hok⟩
  obtain ⟨-, ttl, now, later, hnow, hissue, -⟩ := h.issued i hi
  rw [State.authenticated, authenticate, if_neg (hc.not_key hissue)] at hok
  obtain ⟨parsed, hparse, r, hr, hname, hid, rfl⟩ := authenticateToken_role hok
  obtain ⟨hvalid, hinvalid⟩ := parseClaims_signed hc hissue hnow hsize
  by_cases hok : s.now < (later + ttl).unix * second ∧ i.user.username ≠ ""
  · cases (hvalid hok.1 hok.2).symm.trans hparse
    exact ⟨r, hr, hname, hid, rfl⟩
  · obtain ⟨e, he⟩ := hinvalid (by
      by_cases hlate : (later + ttl).unix * second ≤ s.now
      · exact .inl hlate
      · exact .inr (not_not.mp fun hname => hok ⟨Nat.lt_of_not_le hlate, hname⟩))
    cases he.symm.trans hparse

end Sessions

/-! ### API keys -/

section Keys

variable {c : Crypto} {secret : List UInt8} {s : State}

theorem generateAPIKey_key (random : List UInt8) :
    apiKeyPrefix.toList.isPrefixOf (generateAPIKey random).toList = true := by
  rw [List.isPrefixOf_iff_prefix, generateAPIKey, String.toList_append]
  exact List.prefix_append _ _

theorem DB.authenticateAPIKey_ok {sha256 : List UInt8 → List UInt8} {db : DB} {token : String}
    {now : Time} {u : User} :
    (db.authenticateAPIKey sha256 token now).1 = .ok u ↔
      ∃ r ∈ db.apiKeys.rows, r.tokenHash = sha256 (bytes token) ∧ r.revokedAt = none ∧
        u ∈ db.users.rows ∧ u.id = r.userID := by
  unfold authenticateAPIKey
  cases hfound : db.apiKeys.getActiveByHash (sha256 (bytes token)) with
  | none =>
    constructor
    · intro h
      cases h
    · rintro ⟨r, hr, hhash, hactive, -⟩
      rw [(db.apiKeys.getActiveByHash_eq _ r).mpr ⟨hr, hhash, hactive⟩] at hfound
      cases hfound
  | some r =>
    obtain ⟨hr, hhash, hactive⟩ := (db.apiKeys.getActiveByHash_eq _ _).mp hfound
    cases hu : db.users.getByID r.userID with
    | none =>
      constructor
      · intro h
        simp [hu] at h
      · rintro ⟨r', hr', hhash', -, hrow, hid⟩
        cases pairwise_unique db.apiKeys.tokenHashes hr' hr (hhash'.trans hhash.symm)
        rw [(db.users.getByID_eq _ u).mpr ⟨hrow, hid⟩] at hu
        cases hu
    | some v =>
      obtain ⟨hrow, hid⟩ := (db.users.getByID_eq _ _).mp hu
      constructor
      · intro h
        simp only [hu, Except.ok.injEq] at h
        subst h
        exact ⟨r, hr, hhash, hactive, hrow, hid⟩
      · rintro ⟨r', hr', hhash', -, hrow', hid'⟩
        cases pairwise_unique db.apiKeys.tokenHashes hr' hr (hhash'.trans hhash.symm)
        rw [pairwise_unique db.users.ids hrow' hrow (hid'.trans hid.symm)]
        simp [hu]

theorem authenticateKey_eq (db : DB) (token : String) (now : Time) :
    (authenticateKey c db token now).1 = (db.authenticateAPIKey c.sha256 token now).1.map
      fun u => { subject := u.username, userID := u.id, role := u.role } := by
  unfold authenticateKey
  split <;> simp [*, Except.map]

/-- The accounts that a key lets in. -/
theorem Kept.key_user (h : Kept c secret s) {k : Created} (hk : k ∈ s.created) (claims : Claims) :
    s.authenticated c secret k.token = .ok claims ↔
      k ∉ s.revoked ∧ ∃ u ∈ s.db.users.rows, u.id = k.userID ∧
        { subject := u.username, userID := u.id, role := u.role } = claims := by
  obtain ⟨random, htoken⟩ := h.generated k hk
  obtain ⟨r, hr, hid, huser, hhash, hactive⟩ := h.backed k hk
  have hkey : apiKeyPrefix.toList.isPrefixOf k.token.toList = true :=
    htoken ▸ generateAPIKey_key random
  rw [State.authenticated, authenticate, if_pos hkey, authenticateKey_eq, ← hactive]
  constructor
  · intro hok
    cases hresult : (s.db.authenticateAPIKey c.sha256 k.token s.now).1 with
    | error e => simp [hresult, Except.map] at hok
    | ok u =>
      simp only [hresult, Except.map, Except.ok.injEq] at hok
      obtain ⟨r', hr', hhash', hnone, hrow, huid⟩ := DB.authenticateAPIKey_ok.mp hresult
      cases pairwise_unique s.db.apiKeys.tokenHashes hr' hr (hhash'.trans hhash.symm)
      exact ⟨hnone, u, hrow, huid.trans huser, hok⟩
  · rintro ⟨hnone, u, hrow, huid, rfl⟩
    have hresult : (s.db.authenticateAPIKey c.sha256 k.token s.now).1 = .ok u :=
      DB.authenticateAPIKey_ok.mpr ⟨r, hr, hhash, hnone, hrow, huid.trans huser.symm⟩
    simp [hresult, Except.map]

theorem Kept.accepts_key (h : Kept c secret s) {k : Created} (hk : k ∈ s.created) :
    s.Accepts c secret k.token ↔ k ∉ s.revoked ∧ ∃ u ∈ s.db.users.rows, u.id = k.userID := by
  constructor
  · rintro ⟨claims, hok⟩
    obtain ⟨hactive, u, hu, hid, -⟩ := (h.key_user hk claims).mp hok
    exact ⟨hactive, u, hu, hid⟩
  · rintro ⟨hactive, u, hu, hid⟩
    exact ⟨_, (h.key_user hk _).mpr ⟨hactive, u, hu, hid, rfl⟩⟩

theorem Kept.key_role (h : Kept c secret s) {k : Created} (hk : k ∈ s.created) {claims : Claims}
    (hok : s.authenticated c secret k.token = .ok claims) :
    ∃ u ∈ s.db.users.rows, u.id = k.userID ∧ claims.role = u.role := by
  obtain ⟨-, u, hu, hid, rfl⟩ := (h.key_user hk claims).mp hok
  exact ⟨u, hu, hid, rfl⟩

end Keys

/-! ### Revocation -/

section Final

variable {c : Crypto} {secret : List UInt8} {s t : State} {u : User}

/-- No event brings the row of a user back. -/
theorem State.Current.before (h : t.Current u) (hstep : AccountStep s t)
    (hgiven : u.passwordHash ∈ s.hashes) : s.Current u := by
  obtain ⟨r, hr, hname, hid, hhash⟩ := h
  cases hstep with
  | same h => exact ⟨r, h ▸ hr, hname, hid, hhash⟩
  | added v hvname hvid hfresh hvgiven h =>
    rw [h] at hr
    obtain rfl | hr := List.mem_cons.mp hr
    · exact absurd (hhash ▸ hgiven) hfresh.1
    · exact ⟨r, hr, hname, hid, hhash⟩
  | changed username hash hfresh hvgiven h =>
    rw [h] at hr
    obtain ⟨v, hv, rfl⟩ := List.mem_map.mp hr
    unfold Users.withPassword at hname hid hhash
    split at hhash
    · have hhash : hash = u.passwordHash := hhash
      exact absurd (hhash ▸ hgiven) hfresh.1
    · rename_i hother
      rw [if_neg hother] at hname hid
      exact ⟨v, hv, hname, hid, hhash⟩
  | deleted username h =>
    rw [h] at hr
    exact ⟨r, (List.mem_filter.mp hr).1, hname, hid, hhash⟩

theorem State.not_current_of_deleteUser
    (ht : s.step c secret (.deleteUser u.username) = some t) : ¬t.Current u := by
  cases ht
  rintro ⟨r, hr, hname, -⟩
  exact absurd hname (by simpa using (List.mem_filter.mp hr).2)

theorem State.not_current_of_setPassword {hash : String}
    (ht : s.step c secret (.setPassword u.username (.ok hash)) = some t)
    (hgiven : u.passwordHash ∈ s.hashes) : ¬t.Current u := by
  simp only [State.step] at ht
  split at ht
  · rename_i hfresh
    have hfresh : Fresh s.hashes hash := hfresh
    cases ht
    rintro ⟨r, hr, hname, -, hhash⟩
    obtain ⟨v, hv, rfl⟩ := List.mem_map.mp hr
    rw [Users.withPassword_username] at hname
    rw [Users.withPassword, if_pos hname] at hhash
    have hhash : hash = u.passwordHash := hhash
    exact absurd (hhash ▸ hgiven) hfresh.1
  · cases ht

/-- A session that ends with a change of the password or the deletion of its user is never let in
again, whatever accounts are made afterwards. -/
theorem session_ended {e : Event} (hc : c.Documented) (h : Reached c secret s) {i : Issued}
    (hi : i ∈ s.issued) (he : e = .deleteUser i.user.username ∨
      ∃ hash, e = .setPassword i.user.username (.ok hash))
    (ht : s.step c secret e = some t) {t' : State} (hlater : Later c secret t t') :
    ¬t'.Accepts c secret i.token := by
  have hgiven := (h.kept.issued i hi).1
  have hended : Reached c secret t' ∧ i ∈ t'.issued ∧ i.user.passwordHash ∈ t'.hashes ∧
      ¬t'.Current i.user := by
    induction hlater with
    | refl =>
      obtain ⟨-, -, htoken⟩ := State.step_views ht
      refine ⟨h.step ht, htoken.grows hi, htoken.hashes hgiven, ?_⟩
      obtain rfl | ⟨hash, rfl⟩ := he
      · exact State.not_current_of_deleteUser ht
      · exact State.not_current_of_setPassword ht hgiven
    | step _ hu ih =>
      obtain ⟨hreached, hi, hgiven, hnot⟩ := ih
      obtain ⟨haccount, -, htoken⟩ := State.step_views hu
      exact ⟨hreached.step hu, htoken.grows hi, htoken.hashes hgiven,
        fun hcurrent => hnot (hcurrent.before haccount hgiven)⟩
  obtain ⟨hreached, hi, -, hnot⟩ := hended
  intro haccepts
  have hsize := hreached.kept.session_size hc hi haccepts
  exact hnot ((hreached.kept.accepts_session hc hi hsize).mp haccepts).2

end Final

/-- In every history, a session token is let in until it expires exactly while the row of its user
is there with the password it was issued under, an API key is let in exactly until it is revoked or
its user is gone, and the role comes from the row of the user. -/
theorem authenticate_exact {c : Crypto} (hc : c.Documented) {secret : List UInt8} {s : State}
    (h : Reached c secret s) :
    (∀ i ∈ s.issued, i.token.utf8ByteSize ≤ maxTokenBytes →
      (s.Accepts c secret i.token ↔ s.now < i.expiresAt * second ∧ s.Current i.user)) ∧
    (∀ k ∈ s.created,
      (s.Accepts c secret k.token ↔ k ∉ s.revoked ∧ ∃ u ∈ s.db.users.rows, u.id = k.userID)) ∧
    (∀ i ∈ s.issued, ∀ claims, s.authenticated c secret i.token = .ok claims →
      ∃ u ∈ s.db.users.rows, u.username = i.user.username ∧ u.id = i.user.id ∧
        claims.role = u.role) ∧
    ∀ k ∈ s.created, ∀ claims, s.authenticated c secret k.token = .ok claims →
      ∃ u ∈ s.db.users.rows, u.id = k.userID ∧ claims.role = u.role := by
  have hkept := h.kept
  refine ⟨?_, ?_, ?_, ?_⟩
  · intro i hi hsize
    exact hkept.accepts_session hc hi hsize
  · intro k hk
    exact hkept.accepts_key hk
  · intro i hi claims hok
    exact hkept.session_role hc hi hok
  · intro k hk claims hok
    exact hkept.key_role hk hok

/-! A token of the real functions: `sampleCrypto` agrees with them on one account. -/

def sampleUser : User where
  id := "9b2f6c1e-4d5a-4c3b-8e7f-0a1b2c3d4e5f"
  username := "alice"
  passwordHash := "$2a$10$N9qo8uLOickgx2ZMRZoMyeIjZAgcfl7p92ldGxad68LJZdL17lhWy"
  role := "viewer"
  createdAt := 1700000000

def sampleDigest : List UInt8 :=
  [242, 6, 159, 167, 103, 8, 8, 229, 249, 87, 246, 4, 252, 237, 85, 221, 117, 43, 209, 252, 214,
    188, 63, 21, 236, 218, 255, 197, 251, 188, 205, 249]

def sampleSHA256 (b : List UInt8) : List UInt8 :=
  if b = bytes (sampleUser.id ++ "\x00" ++ sampleUser.passwordHash) then sampleDigest
  else b ++ List.replicate 33 0

def sampleSecret : List UInt8 := bytes "0123456789abcdef0123456789abcdef"

def sampleClaims : Claims where
  subject := "alice"
  issuedAt := some 1700000000
  expiresAt := some 1700086400
  userID := sampleUser.id
  credentials := "f2069fa7670808e5f957f604fced55dd752bd1fcd6bc3f15ecdaffc5fbbccdf9"
  role := "viewer"

def sampleToken : String :=
  "ey" ++ ("JhbGciOiJIUzI1NiIsInR5cCI6IkpXVCJ9.eyJzdWIiOiJhbGljZSIsI" ++
    "mV4cCI6MTcwMDA4NjQwMCwiaWF0IjoxNzAwMDAwMDAwLCJ1aWQiOiI5Y" ++
    "jJmNmMxZS00ZDVhLTRjM2ItOGU3Zi0wYTFiMmMzZDRlNWYiLCJjcmVkZ" ++
    "W50aWFscyI6ImYyMDY5ZmE3NjcwODA4ZTVmOTU3ZjYwNGZjZWQ1NWRkN" ++
    "zUyYmQxZmNkNmJjM2YxNWVjZGFmZmM1ZmJiY2NkZjkiLCJyb2xlIjoid" ++
    "mlld2VyIn0.Ll3TZQO5Elu76b-_ESm8pKpNrbzx5j3-RBamu7VA4gg")

def sampleCrypto : Crypto where
  sha256 := sampleSHA256
  verifyPassword hash password := hash = sampleUser.passwordHash ∧ password = "correct horse"
  signedString secret claims :=
    if secret = sampleSecret ∧ claims = sampleClaims then .ok sampleToken
    else .error "key is of invalid type"
  parseWithClaims secret now token :=
    if secret = sampleSecret ∧ token = sampleToken then
      if 1700000000 * second ≤ now ∧ now < 1700086400 * second then .ok sampleClaims
      else .error "token has invalid claims: token is expired"
    else .error "token is malformed"

theorem sampleCrypto_documented : sampleCrypto.Documented where
  injective a b h := by
    have hsize : ∀ x : List UInt8, x ++ List.replicate 33 0 ≠ sampleDigest := by
      intro x hx
      have hdigest : sampleDigest.length = 32 := rfl
      rw [← hx, List.length_append, List.length_replicate] at hdigest
      omega
    change sampleSHA256 a = sampleSHA256 b at h
    unfold sampleSHA256 at h
    split at h <;> split at h
    · rename_i ha hb
      exact ha.trans hb.symm
    · exact absurd h.symm (hsize b)
    · exact absurd h (hsize a)
    · exact List.append_cancel_right h
  nonempty b := by
    change sampleSHA256 b ≠ []
    unfold sampleSHA256
    split
    · decide
    · simp
  compact h := by
    simp only [sampleCrypto] at h
    split at h
    · cases h
      rw [sampleToken, String.toList_append]
      exact List.prefix_append _ _
    · cases h
  reads h hiat hexp hissued hnow := by
    simp only [sampleCrypto] at h ⊢
    split at h
    · rename_i hsample
      obtain ⟨rfl, rfl⟩ := hsample
      cases h
      cases hiat
      cases hexp
      rw [if_pos ⟨rfl, rfl⟩, if_pos ⟨hissued, hnow⟩]
    · cases h
  expires h hexp hlate := by
    simp only [sampleCrypto] at h ⊢
    split at h
    · rename_i hsample
      obtain ⟨rfl, rfl⟩ := hsample
      cases h
      cases hexp
      rw [if_pos ⟨rfl, rfl⟩, if_neg fun hok => absurd hok.2 (Nat.not_lt.mpr hlate)]
      exact ⟨_, rfl⟩
    · cases h

/-- `alice` is added and logs in. -/
def sampleLogin : List Event :=
  [.addUser "alice" "viewer" (.ok sampleUser.passwordHash) sampleUser.id,
    .login "alice" "correct horse", .issue sampleUser (86400 * second) 0]

theorem sample_version : credentialVersion sampleCrypto sampleUser = sampleClaims.credentials := by
  simp only [credentialVersion, sampleCrypto, sampleSHA256, ↓reduceIte]
  rfl

theorem sample_issue : issueUserToken sampleCrypto sampleSecret sampleUser (86400 * second)
    (1700000000 * second) (1700000000 * second) = .ok sampleToken := by
  have hclaims : userClaims sampleCrypto sampleUser (86400 * second) (1700000000 * second)
      (1700000000 * second) = sampleClaims := by
    rw [userClaims, sample_version]
    rfl
  rw [issueUserToken, hclaims]
  simp only [sampleCrypto, and_self, ↓reduceIte]

def sampleState : State where
  db := ⟨⟨[sampleUser], by simp, by simp⟩, .empty⟩
  now := 1700000000 * second
  hashes := [sampleUser.passwordHash]
  ids := [sampleUser.id]
  read := [sampleUser]
  issued := [⟨sampleToken, sampleUser, 1700086400⟩]

theorem sample_size : sampleToken.utf8ByteSize ≤ maxTokenBytes := by
  simp only [sampleToken, String.utf8ByteSize_append]
  decide

/-- `alice` is added and logs in. -/
theorem sample_reached : Reached sampleCrypto sampleSecret sampleState := by
  have hadd : Reached sampleCrypto sampleSecret
      { sampleState with read := [], issued := [] } :=
    .step (e := .addUser "alice" "viewer" (.ok sampleUser.passwordHash) sampleUser.id)
      (.start (1700000000 * second)) rfl
  have hlogin : Reached sampleCrypto sampleSecret { sampleState with issued := [] } :=
    .step (e := .login "alice" "correct horse") hadd rfl
  refine .step (e := .issue sampleUser (86400 * second) 0) hlogin ?_
  have hread : sampleUser ∈ sampleState.read := List.mem_cons_self
  have hissue : issueUserToken sampleCrypto sampleSecret sampleUser (86400 * second)
      sampleState.now (sampleState.now + 0) = .ok sampleToken := sample_issue
  simp only [State.step, hread, hissue, ↓reduceIte]
  rfl

/-- Her token is let in at once, and no more when her password has been changed. -/
theorem authenticate_exact_sample :
    sampleState.Accepts sampleCrypto sampleSecret sampleToken ∧
    ∃ t, Reached sampleCrypto sampleSecret t ∧
      ¬t.Accepts sampleCrypto sampleSecret sampleToken := by
  constructor
  · refine ((authenticate_exact sampleCrypto_documented sample_reached).1 _ List.mem_cons_self
      sample_size).mpr ⟨?_, sampleUser, List.mem_cons_self, rfl, rfl, rfl⟩
    decide
  · have hchange := sample_reached.step (e := .setPassword "alice" (.ok "$2a$10$other")) rfl
    refine ⟨_, hchange, fun haccepts => ?_⟩
    obtain ⟨-, r, hr, -, -, hhash⟩ := ((authenticate_exact sampleCrypto_documented hchange).1 _
      List.mem_cons_self sample_size).mp haccepts
    obtain rfl := List.mem_singleton.mp hr
    revert hhash
    decide

end Maco.Auth
