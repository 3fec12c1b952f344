import Maco.Auth.Revocation
import Maco.Web.Server
import Mathlib.Data.List.TakeWhile

/-! What a viewer reaches: the router and `requireAuth` look at two spellings of a path, which agree
on the literal pieces of a pattern. -/

namespace Maco.Web

open Bytes Maco.Auth

/-- A text that a path spells as it is. -/
def Plain (text : String) : Prop := percent ∉ bytes text ∧ slash ∉ bytes text

instance (text : String) : Decidable (Plain text) := inferInstanceAs (Decidable (_ ∧ _))

/-- The end of a path, or what follows a slash. -/
def Ending (tail : List UInt8) : Prop := tail = [] ∨ ∃ more, tail = slash :: more

theorem Matches.ending {pattern : List Segment} {path : List UInt8} (h : Matches pattern path) :
    Ending path := by
  cases pattern with
  | nil => exact .inl h
  | cons segment rest =>
    cases segment with
    | lit text =>
      obtain ⟨tail, rfl, -⟩ := h
      exact .inr ⟨_, rfl⟩
    | param name =>
      obtain ⟨value, tail, -, rfl, -⟩ := h
      exact .inr ⟨_, rfl⟩

theorem Ending.unescape {tail decoded : List UInt8} (h : Ending tail)
    (hdecoded : unescape tail = some decoded) : Ending decoded := by
  obtain rfl | ⟨more, rfl⟩ := h
  · cases hdecoded
    exact .inl rfl
  · rw [unescape_cons (by decide)] at hdecoded
    obtain ⟨more', -, rfl⟩ := Option.map_eq_some_iff.mp hdecoded
    exact .inr ⟨more', rfl⟩

/-- The path that the router looks at is the decoded one, or one that it is decoded from; an empty
path is routed as a slash. -/
theorem setPath_routePath {p : List UInt8} {u : URL} (h : setPath p = some u) :
    u.routePath = u.path ∨ unescape u.routePath = some u.path ∨ u.routePath = [slash] := by
  obtain ⟨path, hpath, rfl⟩ := Option.map_eq_some_iff.mp h
  unfold URL.routePath
  by_cases hraw : p = escape path
  · by_cases hempty : path = []
    · exact .inr (.inr (by simp [hraw, hempty]; decide))
    · exact .inl (by simp [hraw, hempty])
  · by_cases hempty : p = []
    · cases hempty
      cases hpath
      exact absurd rfl hraw
    · exact .inr (.inl (by simp [hraw, hempty, hpath]))

/-- The decoded spelling of a path starts with the plain texts that its pattern starts with. -/
theorem decoded_start {first second : String} {rest : List Segment} {u : URL} {p : List UInt8}
    (hfirst : Plain first) (hsecond : Plain second) (hu : setPath p = some u)
    (h : Matches (.lit first :: .lit second :: rest) u.routePath) :
    ∃ tail, u.path = slash :: (bytes first ++ slash :: (bytes second ++ tail)) ∧ Ending tail := by
  obtain ⟨_, hroute, tail, rfl, hrest⟩ := h
  have htail := hrest.ending
  obtain hsame | hdecoded | hslash := setPath_routePath hu
  · exact ⟨tail, hsame.symm.trans hroute, htail⟩
  · have hplain : percent ∉ slash :: (bytes first ++ slash :: bytes second) := by
      have hne : percent ≠ slash := by decide
      simp [hfirst.1, hsecond.1, hne]
    have hsplit : u.routePath = (slash :: (bytes first ++ slash :: bytes second)) ++ tail := by
      simpa using hroute
    rw [hsplit, unescape_append hplain] at hdecoded
    obtain ⟨decoded, htail', heq⟩ := Option.map_eq_some_iff.mp hdecoded
    refine ⟨decoded, ?_, htail.unescape htail'⟩
    simpa using heq.symm
  · have hlength := congrArg List.length (hslash.symm.trans hroute)
    simp at hlength

/-- Pieces that are followed by a slash or end there are equal. -/
theorem piece_eq {a b tail : List UInt8} (ha : slash ∉ a) (hb : slash ∉ b) (htail : Ending tail)
    (h : a ++ [slash] <+: b ++ tail) : a = b := by
  induction a generalizing b with
  | nil =>
    cases b with
    | nil => rfl
    | cons y b =>
      obtain rfl := (List.cons_prefix_cons.mp h).1
      exact absurd List.mem_cons_self hb
  | cons x a ih =>
    cases b with
    | nil =>
      obtain rfl | ⟨more, rfl⟩ := htail
      · simp at h
      · obtain rfl := (List.cons_prefix_cons.mp h).1
        exact absurd List.mem_cons_self ha
    | cons y b =>
      obtain ⟨rfl, hrest⟩ := List.cons_prefix_cons.mp h
      rw [ih (fun hx => ha (List.mem_cons_of_mem _ hx)) (fun hx => hb (List.mem_cons_of_mem _ hx))
        hrest]

/-- The prefix that `requireAuth` looks for has the piece `me` after `api`. -/
theorem eq_me_of_start {second : String} (hsecond : Plain second) {tail : List UInt8}
    (htail : Ending tail)
    (h : bytes "/api/me/" <+: slash :: (bytes "api" ++ slash :: (bytes second ++ tail))) :
    second = "me" := by
  have hbegin : bytes "/api/me/" = slash :: (bytes "api" ++ slash :: (bytes "me" ++ [slash])) := by
    decide
  rw [hbegin, List.cons_prefix_cons, List.prefix_append_right_inj, List.cons_prefix_cons] at h
  exact (bytes_inj.mp (piece_eq (by decide) hsecond.2 htail h.2.2)).symm

/-! ### The route table -/

def mutating (method : String) : Bool := method ∈ ["POST", "PUT", "PATCH", "DELETE"]

/-- Whether a route is under `/api/me`. -/
def Route.underMe (r : Route) : Prop := ∃ rest, r.pattern = .lit "api" :: .lit "me" :: rest

/-- The pieces that come after `/api`. -/
def areas : List String :=
  ["docs", "login", "vms", "host", "jobs", "events", "me", "usb", "networks", "disks", "interfaces",
    "images", "catalog", "media"]

theorem areas_plain : ∀ area ∈ areas, Plain area := by decide +kernel

theorem publicRoutes_area : ∀ e ∈ publicRoutes,
    (∃ area rest, e.2.1 = .lit area :: rest ∧ area ∈ areas) ∧
      (e.1 = "GET" ∨ e.2.2 = .handleLogin) := by
  simp [publicRoutes, areas]

theorem protectedRoutes_area : ∀ e ∈ protectedRoutes,
    ∃ area rest, e.2.1 = .lit area :: rest ∧ area ∈ areas := by
  simp [protectedRoutes, areas]

/-- Every route has a plain piece after `/api`, and is authorized unless it reads or is the login. -/
theorem routes_guarded {r : Route} (h : r ∈ routes) :
    ∃ area rest, r.pattern = .lit "api" :: .lit area :: rest ∧ Plain area ∧
      (r.authorized = true ∨ r.method = "GET" ∨ r.handler = .handleLogin) := by
  obtain hpublic | hprotected := List.mem_append.mp h
  · obtain ⟨e, he, rfl⟩ := List.mem_map.mp hpublic
    obtain ⟨⟨area, rest, hpattern, harea⟩, hopen⟩ := publicRoutes_area e he
    exact ⟨area, rest, by rw [Route.ofEntry, hpattern], areas_plain area harea, .inr hopen⟩
  · obtain ⟨e, he, rfl⟩ := List.mem_map.mp hprotected
    obtain ⟨area, rest, hpattern, harea⟩ := protectedRoutes_area e he
    exact ⟨area, rest, by rw [Route.ofEntry, hpattern], areas_plain area harea, .inl rfl⟩

/-! ### What a viewer reaches -/

section Viewer

variable {c : Crypto} {secret : List UInt8} {s : State}

theorem not_readOnly_of_mutating {method : String} (h : mutating method = true) :
    readOnlyMethod method = false := by
  simp only [mutating, decide_eq_true_eq, List.mem_cons, List.not_mem_nil, or_false] at h
  obtain rfl | rfl | rfl | rfl := h <;> decide

/-- A request that is let through without the right to change anything only reads, or its decoded
path is under `/api/me`. -/
theorem requireAuth_ok {u : URL} {req : Request} {claims : Claims}
    (h : requireAuth c secret s u req = .ok claims) :
    s.authenticated c secret (bearerToken req.authorization) = .ok claims ∧
      (readOnlyMethod req.method = true ∨ canMutate claims.role = true ∨
        bytes "/api/me/" <+: u.path) := by
  unfold requireAuth at h
  dsimp only at h
  split at h
  · cases h
  · split at h
    · cases h
    · rename_i claims hclaims
      split at h
      · cases h
      · rename_i hallowed
        cases h
        refine ⟨hclaims, ?_⟩
        simpa [List.isPrefixOf_iff_prefix, Classical.or_iff_not_imp_left] using hallowed

theorem serve_handled {find : Router} {req : Request} {r : Route} {claims : Option Claims}
    (h : serve c secret s find req = .handled r claims) :
    ∃ u, setPath req.target = some u ∧ find req.method u.routePath = some r ∧
      (r.authorized = true → ∃ claims, requireAuth c secret s u req = .ok claims) := by
  unfold serve at h
  split at h
  · cases h
  · rename_i u hu
    split at h
    · cases h
    · rename_i r' hr
      split at h
      · split at h
        · cases h
        · rename_i claims hauth
          cases h
          exact ⟨u, hu, hr, fun _ => ⟨claims, hauth⟩⟩
      · rename_i hopen
        cases h
        exact ⟨u, hu, hr, fun hauth => absurd hauth hopen⟩

theorem viewer_routes {find : Router} (hfind : find.Documented) {req : Request}
    (hviewer : ∀ claims, s.authenticated c secret (bearerToken req.authorization) = .ok claims →
      claims.role = roleViewer) {r : Route} {claims : Option Claims}
    (h : serve c secret s find req = .handled r claims) (hmutating : mutating r.method = true) :
    r.handler = .handleLogin ∨ r.underMe := by
  obtain ⟨u, hu, hr, hauth⟩ := serve_handled h
  obtain ⟨hroute, hmethod, hmatches⟩ := hfind hr
  obtain ⟨area, rest, hpattern, hplain, hauthorized | hget | hlogin⟩ := routes_guarded hroute
  · obtain ⟨claims, hclaims⟩ := hauth hauthorized
    obtain ⟨hauthenticated, hread | hadmin | hme⟩ := requireAuth_ok hclaims
    · rw [← hmethod, not_readOnly_of_mutating hmutating] at hread
      cases hread
    · rw [hviewer claims hauthenticated] at hadmin
      exact absurd hadmin (by decide)
    · rw [hpattern] at hmatches
      obtain ⟨tail, hpath, htail⟩ := decoded_start (by decide) hplain hu hmatches
      rw [hpath] at hme
      cases eq_me_of_start hplain htail hme
      exact .inr ⟨rest, hpattern⟩
  · rw [hget] at hmutating
    exact absurd hmutating (by decide)
  · exact .inl hlogin

/-! ### Streams -/

/-- Whether a stream ends without having been connected to a VM or to a shell. -/
def Closed (env : StreamEnv) (actions : List StreamAction) : Prop :=
  (∀ a ∈ actions, a.connects = false) ∧ (env.upgraded = true → .closeNow ∈ actions)

theorem acceptAuthenticated_closed {env : StreamEnv} {actions : List StreamAction}
    (h : acceptAuthenticated c secret s env = .error actions) : Closed env actions := by
  unfold acceptAuthenticated at h
  split at h
  · rename_i hnot
    cases h
    exact ⟨by simp, fun hup => by simp [hup] at hnot⟩
  · split at h
    · cases h
      exact ⟨by simp [StreamAction.connects], by simp⟩
    · split at h
      · cases h
        exact ⟨by simp [StreamAction.connects], by simp⟩
      · cases h

/-- A token that lets a stream in. -/
theorem acceptAuthenticated_ok {env : StreamEnv} {claims : Claims}
    (h : acceptAuthenticated c secret s env = .ok claims) :
    ∃ token, env.token = some token ∧
      authenticateToken c secret s.db token s.now = .ok claims := by
  unfold acceptAuthenticated at h
  split at h
  · cases h
  · split at h
    · cases h
    · rename_i token htoken
      split at h
      · cases h
      · rename_i hclaims
        cases h
        exact ⟨token, htoken, hclaims⟩

theorem viewer_streams {env : StreamEnv}
    (hviewer : ∀ token claims, env.token = some token →
      authenticateToken c secret s.db token s.now = .ok claims → claims.role = roleViewer) :
    Closed env (consoleVM c secret s env) ∧ Closed env (displayVM c secret s env) ∧
      Closed env (hostConsole c secret s env) := by
  unfold consoleVM displayVM streamVMConsole hostConsole
  cases haccept : acceptAuthenticated c secret s env with
  | error actions =>
    have hclosed := acceptAuthenticated_closed haccept
    exact ⟨hclosed, hclosed, hclosed⟩
  | ok claims =>
    obtain ⟨token, htoken, hclaims⟩ := acceptAuthenticated_ok haccept
    have hnot : canMutate claims.role = false := by
      rw [hviewer token claims htoken hclaims]
      decide
    simp [hnot, Closed, StreamAction.connects]

/-- However a path is encoded, a request with a viewer's token reaches no handler that changes
anything, apart from the login and the handlers under `/api/me`, and a stream with a viewer's token
ends without having been connected to a VM or to a shell. -/
theorem viewer_confined {find : Router} (hfind : find.Documented) :
    (∀ req : Request,
      (∀ claims, s.authenticated c secret (bearerToken req.authorization) = .ok claims →
        claims.role = roleViewer) →
      ∀ r claims, serve c secret s find req = .handled r claims → mutating r.method = true →
        r.handler = .handleLogin ∨ r.underMe) ∧
    ∀ env : StreamEnv,
      (∀ token claims, env.token = some token →
        authenticateToken c secret s.db token s.now = .ok claims → claims.role = roleViewer) →
      Closed env (consoleVM c secret s env) ∧ Closed env (displayVM c secret s env) ∧
        Closed env (hostConsole c secret s env) := by
  constructor
  · intro req hviewer r claims h hmutating
    exact viewer_routes hfind hviewer h hmutating
  · intro env hviewer
    exact viewer_streams hviewer

end Viewer

/-- Whether a path has the pieces of a pattern. -/
def matchesPath : List Segment → List UInt8 → Bool
  | [], path => path = []
  | _ :: _, [] => false
  | .lit text :: rest, c :: path =>
    c = slash && (bytes text).isPrefixOf path && matchesPath rest (path.drop (bytes text).length)
  | .param _ :: rest, c :: path => c = slash && matchesPath rest (path.dropWhile (· ≠ slash))

/-- The first route of the table that fits. -/
def firstRoute : Router := fun method path =>
  routes.find? fun r => r.method = method && matchesPath r.pattern path

theorem matches_of_matchesPath {pattern : List Segment} {path : List UInt8}
    (h : matchesPath pattern path = true) : Matches pattern path := by
  induction pattern generalizing path with
  | nil =>
    simp only [matchesPath, decide_eq_true_eq] at h
    exact h
  | cons segment rest ih =>
    cases path with
    | nil => cases segment <;> cases h
    | cons b path =>
      cases segment with
      | lit text =>
        simp only [matchesPath, Bool.and_eq_true, decide_eq_true_eq, List.isPrefixOf_iff_prefix] at h
        obtain ⟨⟨rfl, tail, rfl⟩, hrest⟩ := h
        rw [List.drop_left] at hrest
        exact ⟨tail, rfl, ih hrest⟩
      | param name =>
        simp only [matchesPath, Bool.and_eq_true, decide_eq_true_eq] at h
        obtain ⟨rfl, hrest⟩ := h
        refine ⟨path.takeWhile (· ≠ slash), _, ?_, ?_, ih hrest⟩
        · intro hmem
          simpa using List.mem_takeWhile_imp hmem
        · rw [List.takeWhile_append_dropWhile]

theorem firstRoute_documented : firstRoute.Documented := by
  intro method path r h
  have hfits := List.find?_some h
  simp only [Bool.and_eq_true, decide_eq_true_eq] at hfits
  exact ⟨List.mem_of_find?_eq_some h, hfits.1, matches_of_matchesPath hfits.2⟩

def startRequest : Request where
  method := "POST"
  target := bytes "/api/vms/%2E%2E%2Fme%2F/start"
  authorization := "Bearer " ++ sampleToken

def startRoute : Route where
  method := "POST"
  pattern := [.lit "api", .lit "vms", .param "id", .lit "start"]
  handler := .startVM
  authorized := true

/-- The viewer `alice` starts no VM, also where the path hides `/me/` in its escapes. -/
theorem viewer_confined_start : ¬∃ claims,
    serve sampleCrypto sampleSecret sampleState firstRoute startRequest =
      .handled startRoute claims := by
  rintro ⟨claims, h⟩
  have hbearer : bearerToken startRequest.authorization = sampleToken := by
    have hbegin : "Bearer ".toList.isPrefixOf ("Bearer " ++ sampleToken).toList = true := by
      rw [String.toList_append, List.isPrefixOf_iff_prefix]
      exact List.prefix_append _ _
    rw [startRequest, bearerToken, if_pos hbegin, String.toList_append,
      List.drop_left' (by decide), String.ofList_toList]
  have hviewer : ∀ claims, sampleState.authenticated sampleCrypto sampleSecret
      (bearerToken startRequest.authorization) = .ok claims → claims.role = roleViewer := by
    intro claims hclaims
    rw [hbearer] at hclaims
    have hissued : (⟨sampleToken, sampleUser, 1700086400⟩ : Issued) ∈ sampleState.issued :=
      List.mem_cons_self
    obtain ⟨u, hu, -, -, hrole⟩ :=
      sample_reached.kept.session_role sampleCrypto_documented hissued hclaims
    obtain rfl := List.mem_singleton.mp hu
    exact hrole
  obtain hlogin | ⟨rest, hme⟩ :=
    (viewer_confined firstRoute_documented).1 startRequest hviewer startRoute claims h (by decide)
  · cases hlogin
  · simp [startRoute] at hme

end Maco.Web
