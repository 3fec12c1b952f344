import Maco.Engine.Usb
import Maco.Web.Access

/-! The key of an assignment on its way from the web client to the job that removes the assignment:
the client's encoding, the two spellings of a path, and the parameters of a route. -/

namespace Maco.Web

open Bytes Maco.Engine

/-! ### The parameters of a route -/

/-- The values that a path has for the parameters of a pattern, as they stand in the path. -/
def Params : List Segment → List UInt8 → List (String × List UInt8) → Prop
  | [], path, params => path = [] ∧ params = []
  | .lit text :: rest, path, params =>
    ∃ tail, path = slash :: (bytes text ++ tail) ∧ Params rest tail params
  | .param name :: rest, path, params => ∃ value tail others, slash ∉ value ∧
      path = slash :: (value ++ tail) ∧ params = (name, value) :: others ∧ Params rest tail others

/-- `chi.URLParam`. -/
def urlParam (params : List (String × List UInt8)) (name : String) : List UInt8 :=
  ((params.find? (·.1 = name)).map (·.2)).getD []

/-- The job of an assignment's removal. -/
structure UnassignJob where
  action : String := "vm.usb.unassign"
  target : String
  assignmentKey : List UInt8
  deriving DecidableEq

/-- The handler `unassignUSB`, where the machine is looked up by `status`. -/
def unassignUSB (status : List UInt8 → Except String String)
    (params : List (String × List UInt8)) : Except (Nat × String) UnassignJob :=
  let key := urlParam params "key"
  if key = [] || key.length > 512 then .error (400, "invalid USB assignment")
  else
    match status (urlParam params "id") with
    | .error e => .error (404, e)
    | .ok id => .ok { target := id, assignmentKey := key }

/-- The request to a path, once it is authorized, comes to the handler and submits the job. -/
def Submits (find : Router) (status : List UInt8 → Except String String) (target : List UInt8)
    (job : UnassignJob) : Prop :=
  ∃ u r params, setPath target = some u ∧ find "DELETE" u.routePath = some r ∧
    r.handler = .unassignUSB ∧ Params r.pattern u.routePath params ∧
    unassignUSB status params = .ok job

/-! ### The client -/

/-- The path to which `unassignUSB` of the web client sends its request. -/
def unassignPath (id key : String) : List UInt8 :=
  bytes "/api/vms/" ++ encodeURIComponent (bytes id) ++ bytes "/usb/assignments/" ++
    encodeURIComponent (bytes key)

def colon : UInt8 := 0x3A

theorem colon_mem_key (a : VMUSBAssignment) : colon ∈ bytes (assignmentKey a) := by
  have hcolon : colon ∈ bytes ":" := by decide
  simp only [assignmentKey, bytes_append, List.mem_append]
  exact .inl (.inl (.inr hcolon))

theorem slash_not_mem_encode (s : List UInt8) : slash ∉ encodeURIComponent s := by
  intro h
  obtain h | h := mem_encodeURIComponent h
  · exact absurd h (by decide)
  · exact absurd h (by decide)

/-- The path is kept as it was sent: its default encoding would spell the colon of the key out. -/
theorem setPath_unassign {id key : String} {u : URL} (hcolon : colon ∈ bytes key)
    (h : setPath (unassignPath id key) = some u) : u.routePath = unassignPath id key := by
  rw [setPath, Option.map_eq_some_iff] at h
  obtain ⟨path, _, rfl⟩ := h
  have hinfix : escaped colon <:+: unassignPath id key := by
    obtain ⟨a, b, hsplit⟩ := List.append_of_mem hcolon
    have hone : encodeURIComponent (colon :: b) = escaped colon ++ encodeURIComponent b := by
      rw [encodeURIComponent, List.flatMap_cons]
      rfl
    rw [unassignPath, hsplit, encodeURIComponent_append, hone]
    refine ⟨bytes "/api/vms/" ++ encodeURIComponent (bytes id) ++ bytes "/usb/assignments/" ++
      encodeURIComponent a, encodeURIComponent b, ?_⟩
    simp only [List.append_assoc]
  have hne : unassignPath id key ≠ escape path := by
    intro heq
    rw [heq] at hinfix
    exact escaped_not_infix (by decide) path hinfix
  have hfull : unassignPath id key ≠ [] := by
    intro hempty
    rw [hempty] at hinfix
    simp [escaped] at hinfix
  rw [if_neg hne, URL.routePath, if_pos hfull]

/-! ### What arrives -/

theorem slash_split {v w s t : List UInt8} (hv : slash ∉ v) (hw : slash ∉ w)
    (h : v ++ slash :: s = w ++ slash :: t) : v = w ∧ s = t := by
  induction v generalizing w with
  | nil =>
    cases w with
    | nil => simpa using h
    | cons c w =>
      rw [List.nil_append, List.cons_append, List.cons.injEq] at h
      exact absurd (h.1 ▸ List.mem_cons_self) hw
  | cons b v ih =>
    cases w with
    | nil =>
      rw [List.nil_append, List.cons_append, List.cons.injEq] at h
      exact absurd (h.1 ▸ List.mem_cons_self) hv
    | cons c w =>
      rw [List.cons_append, List.cons_append, List.cons.injEq] at h
      obtain ⟨rfl, hst⟩ := ih (fun hb => hv (List.mem_cons_of_mem b hb))
        (fun hc => hw (List.mem_cons_of_mem c hc)) h.2
      exact ⟨by rw [h.1], hst⟩

/-- The pattern of the route. -/
def unassignPattern : List Segment :=
  [.lit "api", .lit "vms", .param "id", .lit "usb", .lit "assignments", .param "key"]

theorem unassign_pattern : ∀ r ∈ routes, r.handler = .unassignUSB →
    r.pattern = unassignPattern := by
  decide

/-- The pieces of the client's path. -/
theorem unassignPath_eq (id key : String) : unassignPath id key =
    slash :: (bytes "api" ++ slash :: (bytes "vms" ++ slash :: (encodeURIComponent (bytes id) ++
      slash :: (bytes "usb" ++ slash :: (bytes "assignments" ++
        slash :: encodeURIComponent (bytes key)))))) := by
  have hfirst : bytes "/api/vms/" = slash :: (bytes "api" ++ slash :: (bytes "vms" ++ [slash])) := by
    decide
  have hsecond : bytes "/usb/assignments/" =
      slash :: (bytes "usb" ++ slash :: (bytes "assignments" ++ [slash])) := by
    decide
  rw [unassignPath, hfirst, hsecond]
  simp only [List.cons_append, List.append_assoc, List.nil_append]

/-- The parameters of the client's path are the encodings that it holds. -/
theorem params_unassign {id key : String} {params : List (String × List UInt8)}
    (h : Params unassignPattern (unassignPath id key) params) :
    params = [("id", encodeURIComponent (bytes id)), ("key", encodeURIComponent (bytes key))] := by
  obtain ⟨t1, h1, t2, h2, value, t3, others, hvalue, h3, rfl, t4, h4, t5, h5, value', t6, others',
    hvalue', h6, rfl, rfl, rfl⟩ := h
  rw [unassignPath_eq] at h1
  have e1 := List.append_cancel_left (List.cons.inj h1).2
  rw [h2] at e1
  have e2 := List.append_cancel_left (List.cons.inj e1).2
  rw [h3, h4] at e2
  obtain ⟨rfl, e3⟩ := slash_split (slash_not_mem_encode _) hvalue (List.cons.inj e2).2
  have e4 := List.append_cancel_left e3
  rw [h5] at e4
  have e5 := List.append_cancel_left (List.cons.inj e4).2
  rw [h6, List.append_nil] at e5
  rw [(List.cons.inj e5).2]

theorem unassign_params (id key : String) : Params unassignPattern (unassignPath id key)
    [("id", encodeURIComponent (bytes id)), ("key", encodeURIComponent (bytes key))] := by
  rw [unassignPath_eq]
  refine ⟨_, rfl, _, rfl, _, _, _, slash_not_mem_encode _, rfl, rfl, _, rfl, _, rfl, ?_⟩
  exact ⟨_, [], [], slash_not_mem_encode _, by rw [List.append_nil], rfl, rfl, rfl⟩

/-- A job that the client's request submits has the encoding of the key for its key. -/
theorem Submits.key {find : Router} (hfind : find.Documented)
    {status : List UInt8 → Except String String} {id key : String} {job : UnassignJob}
    (hcolon : colon ∈ bytes key) (h : Submits find status (unassignPath id key) job) :
    job.assignmentKey = encodeURIComponent (bytes key) := by
  obtain ⟨u, r, params, hu, hr, hhandler, hparams, hjob⟩ := h
  obtain ⟨hmem, _, _⟩ := hfind hr
  rw [setPath_unassign hcolon hu, unassign_pattern r hmem hhandler] at hparams
  rw [params_unassign hparams] at hjob
  unfold unassignUSB at hjob
  dsimp only at hjob
  split at hjob
  · contradiction
  split at hjob
  · contradiction
  · cases hjob
    rfl

theorem encode_key_ne (a : VMUSBAssignment) :
    encodeURIComponent (bytes (assignmentKey a)) ≠ bytes (assignmentKey a) :=
  encodeURIComponent_ne (colon_mem_key a) (by decide)

/-- The request of the client submits a job that has the key of the assignment, byte for byte. -/
def KeyArrives (find : Router) (status : List UInt8 → Except String String) (id : String)
    (a : VMUSBAssignment) : Prop :=
  ∃ job, Submits find status (unassignPath id (assignmentKey a)) job ∧
    job.assignmentKey = bytes (assignmentKey a)

/-- No key arrives as it was listed. -/
theorem key_never_arrives {find : Router} (hfind : find.Documented)
    (status : List UInt8 → Except String String) (id : String) (a : VMUSBAssignment) :
    ¬ KeyArrives find status id a := by
  rintro ⟨job, hjob, hkey⟩
  rw [hjob.key hfind (colon_mem_key a)] at hkey
  exact encode_key_ne a hkey

def securityKey : VMUSBAssignment where
  vendorID := 0x1050
  productID := 0x0407

theorem securityKey_never_arrives :
    ¬ KeyArrives firstRoute (fun _ => .ok "vm") "vm" securityKey :=
  key_never_arrives firstRoute_documented _ _ _

/-- The job that the request submits for a security key names an assignment that does not exist. -/
theorem securityKey_arrives_encoded :
    Submits firstRoute (fun _ => .ok "vm") (unassignPath "vm" (assignmentKey securityKey))
      { target := "vm", assignmentKey := bytes "1050%3A0407" } ∧
    ¬ KeyArrives firstRoute (fun _ => .ok "vm") "vm" securityKey := by
  constructor
  · have hset : setPath (unassignPath "vm" (assignmentKey securityKey)) =
        some ⟨bytes "/api/vms/vm/usb/assignments/1050:0407",
          unassignPath "vm" (assignmentKey securityKey)⟩ := by
      decide +kernel
    have hroute : firstRoute "DELETE" (unassignPath "vm" (assignmentKey securityKey)) =
        some ⟨"DELETE", unassignPattern, .unassignUSB, true⟩ := by
      decide +kernel
    have hpath := setPath_unassign (colon_mem_key securityKey) hset
    refine ⟨_, _, _, hset, hpath ▸ hroute, rfl, hpath ▸ unassign_params _ _, ?_⟩
    decide +kernel
  · rintro ⟨job, hjob, hkey⟩
    rw [hjob.key firstRoute_documented (colon_mem_key securityKey)] at hkey
    exact encode_key_ne securityKey hkey

end Maco.Web
