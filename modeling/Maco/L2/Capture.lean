import Maco.L2.Helper

/-! The other direction of the helper: `pump_bpf_to_stream`, which walks the capture records that a
read of BPF returns and sends their frames to QEMU's socket, up to 64 of them in one `writev`.  A
read past the bytes that the kernel returned has no result, and neither has a vector behind the end
of the array.  What the socket does with each `writev` is a list of outcomes. -/

namespace Maco.L2

open Framing

/-- `MACO_VECTOR_FRAMES`. -/
def vectorFrames : Nat := 64

/-- `offsetof(struct bpf_hdr, bh_hdrlen) + sizeof(unsigned short)`. -/
def headerMinimum : Nat := 18

/-- How a `writev` turns out; `took n` writes `n + 1` bytes, or all that there are. -/
inductive Written where
  | interrupted
  | failed
  | took (n : Nat)
  deriving DecidableEq, Repr

/-- QEMU's end of the socket: what the next writes do, each after these taking everything, and the
bytes that have arrived. -/
structure Client where
  outcomes : List Written
  received : List UInt8 := []

/-- The counters of `Pump` that this direction uses. -/
structure Counters where
  captured : Nat := 0
  socketWrites : Nat := 0
  bpfReads : Nat := 0

def Counters.countWrite (c : Counters) : Counters := { c with socketWrites := c.socketWrites + 1 }

/-- The vectors with `remaining` bytes taken off their front. -/
def advance : Nat → List (List UInt8) → List (List UInt8)
  | _, [] => []
  | remaining, v :: rest =>
    if v.length ≤ remaining then advance (remaining - v.length) rest
    else v.drop remaining :: rest

/-- The loop of `writev_all`; no vector is empty. -/
def writevLoop (vectors : List (List UInt8)) (c : Counters) (received : List UInt8) :
    List Written → Bool × Counters × Client
  | [] =>
    if vectors = [] then (true, c, { outcomes := [], received })
    else (true, c.countWrite, { outcomes := [], received := received ++ vectors.flatten })
  | outcome :: outcomes =>
    if vectors = [] then (true, c, { outcomes := outcome :: outcomes, received })
    else
      match outcome with
      | .interrupted => writevLoop vectors c.countWrite received outcomes
      | .failed => (false, c.countWrite, { outcomes, received })
      | .took n =>
        let written := min (n + 1) vectors.flatten.length
        writevLoop (advance written vectors) c.countWrite
          (received ++ vectors.flatten.take written) outcomes

def writevAll (client : Client) (vectors : List (List UInt8)) (c : Counters) :
    Bool × Counters × Client :=
  writevLoop vectors c client.received client.outcomes

/-- The variables of the loop of `pump_bpf_to_stream`. -/
structure Walk where
  client : Client
  counters : Counters
  offset : Nat := 0
  frames : Nat := 0
  vectors : List (List UInt8) := []

/-- The two vectors of a frame, its length and its bytes, behind those of the group. -/
def Walk.push (w : Walk) (frame : List UInt8) : Option Walk :=
  if w.frames < vectorFrames then
    some { w with
      frames := w.frames + 1
      vectors := w.vectors ++ [bigEndian 4 frame.length, frame] }
  else none

/-- The group is sent and the next one starts. -/
def Walk.flush (w : Walk) : Bool × Walk :=
  match writevAll w.client w.vectors w.counters with
  | (false, c, client) => (false, { w with client := client, counters := c })
  | (true, c, client) =>
    (true, { w with
      client := client
      counters := { c with captured := c.captured + w.frames }
      frames := 0
      vectors := [] })

/-- The record of a header is refused where `left` bytes of the buffer start with it. -/
def Header.refused (h : Header) (left : Nat) : Prop :=
  h.hdrlen < headerMinimum ∨ left < h.hdrlen + h.caplen ∨ h.caplen ≠ h.datalen ∨ h.caplen < 14 ∨
    maxFrame < h.caplen

instance (h : Header) (left : Nat) : Decidable (h.refused left) := by
  unfold Header.refused
  infer_instance

/-- The loop of `pump_bpf_to_stream`; `false` is an early return, and `fuel` bounds the rounds. -/
def walk (buffer : List UInt8) : Nat → Walk → Option (Bool × Walk)
  | 0, _ => none
  | fuel + 1, w =>
    if buffer.length ≤ w.offset then some (true, w)
    else if buffer.length - w.offset < headerMinimum then some (false, w)
    else do
      let header := Header.ofBytes (← slice buffer w.offset headerMinimum)
      if header.refused (buffer.length - w.offset) then some (false, w)
      else do
        let frame ← slice buffer (w.offset + header.hdrlen) header.caplen
        let w ← w.push frame
        let w := { w with offset := w.offset + wordAlign (header.hdrlen + header.caplen) }
        if w.frames = vectorFrames ∨ buffer.length ≤ w.offset then
          match w.flush with
          | (false, w) => some (false, w)
          | (true, w) => walk buffer fuel w
        else walk buffer fuel w

/-- `pump_bpf_to_stream`; an interrupted read is one that fails with `EINTR` or `EAGAIN`. -/
def pumpBPFToStream (read : Read) (client : Client) (c : Counters) :
    Option (Result × Counters × Client) :=
  let c := { c with bpfReads := c.bpfReads + 1 }
  match read with
  | .interrupted => some (.more, c, client)
  | .failed => some (.exited, c, client)
  | .bytes [] => some (.exited, c, client)
  | .bytes buffer => do
    let (done, w) ← walk buffer (buffer.length + 1) { client := client, counters := c }
    some (if done then .more else .error, w.counters, w.client)

/-! ### Partial writes -/

theorem advance_flatten (n : Nat) (vectors : List (List UInt8)) :
    (advance n vectors).flatten = vectors.flatten.drop n := by
  induction vectors generalizing n with
  | nil => simp [advance]
  | cons v vectors ih =>
    rw [advance]
    split
    · rename_i hle
      rw [ih, List.flatten_cons, List.drop_append, List.drop_eq_nil_of_le hle, List.nil_append]
    · rename_i hlt
      rw [List.flatten_cons, List.flatten_cons, List.drop_append_of_le_length (by omega)]

/-- Writes that do not fail send every byte once and in order. -/
theorem writevLoop_sends (vectors : List (List UInt8)) (c : Counters) (received : List UInt8)
    (outcomes : List Written) (h : .failed ∉ outcomes) :
    ∃ n rest, rest <:+ outcomes ∧ writevLoop vectors c received outcomes =
      (true, { c with socketWrites := n },
        { outcomes := rest, received := received ++ vectors.flatten }) := by
  induction outcomes generalizing vectors c received with
  | nil =>
    rw [writevLoop]
    split
    · rename_i hnil
      exact ⟨c.socketWrites, [], List.suffix_refl _, by simp [hnil]⟩
    · exact ⟨c.socketWrites + 1, [], List.suffix_refl _, rfl⟩
  | cons outcome outcomes ih =>
    have hrest : .failed ∉ outcomes := fun hm => h (List.mem_cons_of_mem outcome hm)
    rw [writevLoop.eq_def]
    dsimp only
    split
    · rename_i hnil
      exact ⟨c.socketWrites, outcome :: outcomes, List.suffix_refl _, by simp [hnil]⟩
    · cases outcome with
      | interrupted =>
        obtain ⟨n, rest, hsuf, heq⟩ := ih vectors c.countWrite received hrest
        exact ⟨n, rest, hsuf.trans (List.suffix_cons _ _), heq⟩
      | failed => exact absurd List.mem_cons_self h
      | took n =>
        let written := min (n + 1) vectors.flatten.length
        obtain ⟨m, rest, hsuf, heq⟩ := ih (advance written vectors) c.countWrite
          (received ++ vectors.flatten.take written) hrest
        refine ⟨m, rest, hsuf.trans (List.suffix_cons _ _), heq.trans ?_⟩
        rw [advance_flatten, List.append_assoc, List.take_append_drop]
        rfl

/-! ### Records -/

/-- What a header says of itself and of the whole frame behind it. -/
def Header.telling (header frame : List UInt8) : Header where
  caplen := frame.length
  datalen := frame.length
  hdrlen := header.length

/-- What the kernel returns: capture records, of the given frames, and what follows them.  A record
is a header that tells its own length and that of the frame, the frame, and bytes up to a multiple of
four; the last one may end with its frame. -/
inductive Capture : List UInt8 → List (List UInt8) → List UInt8 → Prop
  | done (rest : List UInt8) : Capture rest [] rest
  | record {header frame padding more rest : List UInt8} {frames : List (List UInt8)}
      (long : headerMinimum ≤ header.length)
      (tells : Header.ofBytes header = .telling header frame)
      (sized : 14 ≤ frame.length ∧ frame.length ≤ maxFrame)
      (aligned : header.length + frame.length + padding.length =
          wordAlign (header.length + frame.length) ∨
        header.length + frame.length + padding.length <
          wordAlign (header.length + frame.length) ∧ more = [])
      (next : Capture more frames rest) :
      Capture (header ++ (frame ++ (padding ++ more))) (frame :: frames) rest

/-- The bytes start with a record whose header is cut off, whose lengths disagree or are out of
range, or which runs past their end. -/
def Malformed (b : List UInt8) : Prop :=
  b ≠ [] ∧ (b.length < headerMinimum ∨ (Header.ofBytes (b.take headerMinimum)).refused b.length)

/-- Only the first 18 bytes of a header are read. -/
theorem Header.ofBytes_take {b : List UInt8} (rest : List UInt8) (h : headerMinimum ≤ b.length) :
    Header.ofBytes ((b ++ rest).take headerMinimum) = Header.ofBytes b := by
  unfold headerMinimum at *
  have h8 : (((b ++ rest).take 18).drop 8).take 4 = (b.drop 8).take 4 := by
    rw [List.take_append_of_le_length h, List.drop_take, List.take_take]
    rfl
  have h12 : (((b ++ rest).take 18).drop 12).take 4 = (b.drop 12).take 4 := by
    rw [List.take_append_of_le_length h, List.drop_take, List.take_take]
    rfl
  have h16 : (((b ++ rest).take 18).drop 16).take 2 = (b.drop 16).take 2 := by
    rw [List.take_append_of_le_length h, List.drop_take, List.take_take]
    rfl
  rw [Header.ofBytes, Header.ofBytes, h8, h12, h16]

theorem Capture.sized {b rest : List UInt8} {frames : List (List UInt8)}
    (h : Capture b frames rest) : Sized 14 maxFrame frames := by
  induction h with
  | done rest => exact fun f hf => absurd hf List.not_mem_nil
  | record long tells sized aligned next ih =>
    intro f hf
    rcases List.mem_cons.mp hf with rfl | hf
    · exact sized
    · exact ih f hf

theorem Capture.nothing {b rest : List UInt8} {frames : List (List UInt8)}
    (h : Capture b frames rest) (hb : b = []) : frames = [] ∧ rest = [] := by
  cases h with
  | done => exact ⟨rfl, hb⟩
  | record long tells sized aligned next =>
    have hlen := congrArg List.length hb
    simp only [List.length_nil, List.length_append] at hlen
    omega

/-- Every buffer is records up to its end or up to something that is none. -/
theorem Capture.total (b : List UInt8) :
    ∃ frames rest, Capture b frames rest ∧ (rest = [] ∨ Malformed rest) := by
  induction hn : b.length using Nat.strong_induction_on generalizing b with
  | _ n ih =>
    subst hn
    by_cases hnil : b = []
    · exact ⟨[], b, .done b, .inl hnil⟩
    by_cases hbad : Malformed b
    · exact ⟨[], b, .done b, .inr hbad⟩
    have hvalid : ¬ (b.length < headerMinimum ∨
        (Header.ofBytes (b.take headerMinimum)).refused b.length) := fun h => hbad ⟨hnil, h⟩
    obtain ⟨hlong, hvalid⟩ := not_or.mp hvalid
    generalize hh : Header.ofBytes (b.take headerMinimum) = h at hvalid
    unfold Header.refused at hvalid
    have hmin : headerMinimum = 18 := rfl
    let size := h.hdrlen + h.caplen
    have halign := le_wordAlign size
    have hpos : 0 < size := by omega
    let header := b.take h.hdrlen
    let frame := (b.drop h.hdrlen).take h.caplen
    let padding := (b.drop size).take (wordAlign size - size)
    let more := b.drop (wordAlign size)
    have hheader : header.length = h.hdrlen := by
      rw [List.length_take]
      omega
    have hframe : frame.length = h.caplen := by
      rw [List.length_take, List.length_drop]
      omega
    have hpadding : padding.length = min (wordAlign size - size) (b.length - size) := by
      rw [List.length_take, List.length_drop]
    have hmore : padding ++ more = b.drop size := by
      have hsplit : more = (b.drop size).drop (wordAlign size - size) := by
        rw [List.drop_drop, Nat.add_sub_cancel' halign]
      rw [hsplit, List.take_append_drop]
    have hb : header ++ (frame ++ (padding ++ more)) = b := by
      rw [hmore, ← List.drop_drop, List.take_append_drop, List.take_append_drop]
    obtain ⟨frames, rest, hc, hrest⟩ := ih more.length
      (by rw [List.length_drop]; have := List.length_pos_iff.mpr hnil; omega) more rfl
    refine ⟨frame :: frames, rest, ?_, hrest⟩
    rw [← hb]
    refine .record (by omega) ?_ (by omega) ?_ hc
    · have htake := Header.ofBytes_take (frame ++ (padding ++ more)) (b := header) (by omega)
      rw [hb, hh] at htake
      have hagree : h.datalen = h.caplen := by omega
      have heta : h = { caplen := h.caplen, datalen := h.caplen, hdrlen := h.hdrlen } :=
        congrArg (fun n => { h with datalen := n }) hagree
      rw [← htake, Header.telling, hheader, hframe, ← heta]
    · rw [hheader, hframe, hpadding]
      by_cases hcut : b.length < wordAlign size
      · refine .inr ⟨?_, List.drop_eq_nil_of_le (by omega)⟩
        show size + _ < wordAlign size
        omega
      · refine .inl ?_
        show size + _ = wordAlign size
        omega

/-! ### The walk -/

/-- The two vectors of each frame of a group. -/
def group (frames : List (List UInt8)) : List (List UInt8) :=
  frames.flatMap fun f => [bigEndian 4 f.length, f]

theorem group_flatten (frames : List (List UInt8)) : (group frames).flatten = encodeAll frames := by
  induction frames with
  | nil => rfl
  | cons f frames ih =>
    rw [group] at ih
    simp [group, encode, ih]

/-- Where the walk stands: `left` is what it has not walked over, the frames `sent` have arrived, and
the group holds `pending`, which is sent at the latest where nothing is left. -/
structure Walked (buffer : List UInt8) (c0 : Counters) (received0 : List UInt8)
    (sent pending : List (List UInt8)) (left : List UInt8) (w : Walk) : Prop where
  drop : buffer.drop w.offset = left
  vectors : w.vectors = group pending
  frames : w.frames = pending.length
  few : pending.length < vectorFrames
  flushed : left = [] → pending = []
  received : w.client.received = received0 ++ encodeAll sent
  captured : w.counters.captured = c0.captured + sent.length
  reads : w.counters.bpfReads = c0.bpfReads
  outcomes : .failed ∉ w.client.outcomes

variable {buffer received0 left rest : List UInt8} {c0 : Counters}
  {sent pending frames : List (List UInt8)} {w : Walk}

/-- A group is sent whole. -/
theorem Walk.flush_sends (hv : w.vectors = group pending) (hf : w.frames = pending.length)
    (ho : .failed ∉ w.client.outcomes) :
    ∃ n rest, rest <:+ w.client.outcomes ∧ w.flush = (true, { w with
      client := { outcomes := rest, received := w.client.received ++ encodeAll pending }
      counters := { w.counters with
        socketWrites := n
        captured := w.counters.captured + pending.length }
      frames := 0
      vectors := [] }) := by
  obtain ⟨n, rest, hsuf, heq⟩ :=
    writevLoop_sends w.vectors w.counters w.client.received w.client.outcomes ho
  refine ⟨n, rest, hsuf, ?_⟩
  rw [flush, writevAll, heq, hv, group_flatten, hf]

/-- What the walk has left is as long as the count says. -/
theorem Walked.length (h : Walked buffer c0 received0 sent pending left w) :
    left.length = buffer.length - w.offset := by
  rw [← h.drop, List.length_drop]

theorem Walked.slice_left (h : Walked buffer c0 received0 sent pending left w) {a b c : List UInt8}
    (hleft : left = a ++ (b ++ c)) (hb : b ≠ []) :
    slice buffer (w.offset + a.length) b.length = some b := by
  have hlen := h.length
  have hpos : 0 < b.length := List.length_pos_iff.mpr hb
  rw [hleft, List.length_append, List.length_append] at hlen
  rw [slice_of_le (by omega), ← List.drop_drop, h.drop, hleft, List.drop_left, List.take_left]

/-- The next record goes into the group, and the group is sent where it is full or nothing is left. -/
theorem walk_record {header frame padding more : List UInt8} (fuel : Nat)
    (h : Walked buffer c0 received0 sent pending (header ++ (frame ++ (padding ++ more))) w)
    (long : headerMinimum ≤ header.length)
    (tells : Header.ofBytes header = .telling header frame)
    (sized : 14 ≤ frame.length ∧ frame.length ≤ maxFrame)
    (aligned : header.length + frame.length + padding.length =
        wordAlign (header.length + frame.length) ∨
      header.length + frame.length + padding.length <
        wordAlign (header.length + frame.length) ∧ more = []) :
    ∃ sent' pending' w', sent' ++ pending' = sent ++ pending ++ [frame] ∧
      Walked buffer c0 received0 sent' pending' more w' ∧
      walk buffer (fuel + 1) w = walk buffer fuel w' := by
  have hlen := h.length
  simp only [List.length_append] at hlen
  have hne : frame ≠ [] := by
    rintro rfl
    simp at sized
  have hmin : headerMinimum = 18 := rfl
  have hopen : ¬ buffer.length ≤ w.offset := by omega
  have hhead : ¬ buffer.length - w.offset < headerMinimum := by omega
  have hslice1 : slice buffer w.offset headerMinimum =
      some ((header ++ (frame ++ (padding ++ more))).take headerMinimum) := by
    rw [slice_of_le (by omega), h.drop]
  have htells := (Header.ofBytes_take (frame ++ (padding ++ more)) long).trans tells
  have hvalid : ¬ (Header.telling header frame).refused (buffer.length - w.offset) := by
    unfold Header.refused Header.telling
    dsimp only
    omega
  have hslice2 : slice buffer (w.offset + header.length) frame.length = some frame :=
    h.slice_left rfl hne
  have hroom : w.frames < vectorFrames := by rw [h.frames]; exact h.few
  -- the loop's body up to the question whether the group is sent
  let next : Walk := { w with
    offset := w.offset + wordAlign (header.length + frame.length)
    frames := w.frames + 1
    vectors := w.vectors ++ [bigEndian 4 frame.length, frame] }
  have hbody : walk buffer (fuel + 1) w =
      if next.frames = vectorFrames ∨ buffer.length ≤ next.offset then
        match next.flush with
        | (false, w) => some (false, w)
        | (true, w) => walk buffer fuel w
      else walk buffer fuel next := by
    rw [walk, if_neg hopen, if_neg hhead, hslice1]
    show (if (Header.ofBytes _).refused _ then _ else _) = _
    rw [htells, if_neg hvalid]
    show (slice buffer (w.offset + header.length) frame.length >>= _) = _
    rw [hslice2]
    show (w.push frame >>= _) = _
    rw [Walk.push, if_pos hroom]
    rfl
  have hvectors : next.vectors = group (pending ++ [frame]) := by
    simp [next, group, h.vectors]
  have hframes : next.frames = (pending ++ [frame]).length := by
    simp [next, h.frames]
  -- the padding of the record before the end of the buffer is complete
  have hdrop : buffer.drop next.offset = more := by
    rw [← List.drop_drop, h.drop]
    have hsplit : header ++ (frame ++ (padding ++ more)) = (header ++ frame ++ padding) ++ more := by
      simp
    rcases aligned with haligned | ⟨hshort, rfl⟩
    · rw [hsplit, List.drop_left' (by simpa [Nat.add_assoc] using haligned)]
    · exact List.drop_eq_nil_of_le (by simp only [List.length_append, List.length_nil]; omega)
  rw [hbody]
  by_cases hsend : next.frames = vectorFrames ∨ buffer.length ≤ next.offset
  · obtain ⟨n, outcomes, hsuf, hflush⟩ := Walk.flush_sends hvectors hframes h.outcomes
    refine ⟨sent ++ (pending ++ [frame]), [], { next with
      client := { outcomes, received := next.client.received ++ encodeAll (pending ++ [frame]) }
      counters := { next.counters with
        socketWrites := n
        captured := next.counters.captured + (pending ++ [frame]).length }
      frames := 0
      vectors := [] }, by simp, ?_, by rw [if_pos hsend, hflush]⟩
    exact {
      drop := hdrop
      vectors := rfl
      frames := rfl
      few := by decide
      flushed := fun _ => rfl
      received := by simp [next, h.received]
      captured := by simp [next, h.captured, Nat.add_assoc]
      reads := h.reads
      outcomes := fun hm => h.outcomes (hsuf.mem hm) }
  · refine ⟨sent, pending ++ [frame], next, by simp, ?_, by rw [if_neg hsend]⟩
    obtain ⟨hfull, hmore⟩ := not_or.mp hsend
    exact {
      drop := hdrop
      vectors := hvectors
      frames := hframes
      few := by
        have := h.few
        rw [hframes] at hfull
        simp only [List.length_append, List.length_singleton] at hfull ⊢
        omega
      flushed := fun hnil => by
        rw [hnil, List.drop_eq_nil_iff] at hdrop
        exact absurd hdrop hmore
      received := h.received
      captured := h.captured
      reads := h.reads
      outcomes := h.outcomes }

/-- A header that is cut off or refused ends the walk in an error, and the group is not sent. -/
theorem walk_malformed (h : Walked buffer c0 received0 sent pending left w) (hbad : Malformed left)
    (fuel : Nat) : walk buffer (fuel + 1) w = some (false, w) := by
  obtain ⟨hne, hbad⟩ := hbad
  have hlen := h.length
  have hpos : 0 < left.length := List.length_pos_iff.mpr hne
  rw [walk, if_neg (by omega)]
  by_cases hshort : buffer.length - w.offset < headerMinimum
  · rw [if_pos hshort]
  · rcases hbad with hbad | hbad
    · omega
    · have hmin : headerMinimum = 18 := rfl
      rw [if_neg hshort, slice_of_le (by omega), h.drop]
      show (if (Header.ofBytes _).refused _ then _ else _) = _
      rw [if_pos (by rw [← hlen]; exact hbad)]

/-- The walk over a capture: it ends at the end of the records, or at the first thing behind them
that is none. -/
theorem walk_capture {fuel : Nat} (hc : Capture left frames rest)
    (h : Walked buffer c0 received0 sent pending left w) (hfuel : left.length < fuel)
    (hrest : rest = [] ∨ Malformed rest) :
    ∃ sent' pending' w', sent' ++ pending' = sent ++ pending ++ frames ∧
      Walked buffer c0 received0 sent' pending' rest w' ∧
      walk buffer fuel w = some (decide (rest = []), w') := by
  induction hc generalizing sent pending w fuel with
  | done rest =>
    obtain ⟨fuel, rfl⟩ : ∃ m, fuel = m + 1 := ⟨fuel - 1, by omega⟩
    refine ⟨sent, pending, w, by simp, h, ?_⟩
    rcases hrest with rfl | hbad
    · have hlen := h.length
      rw [List.length_nil] at hlen
      rw [walk, if_pos (by omega)]
      rfl
    · rw [walk_malformed h hbad, decide_eq_false hbad.1]
  | @record header frame padding more rest frames long tells sized aligned next ih =>
    obtain ⟨fuel, rfl⟩ : ∃ m, fuel = m + 1 := ⟨fuel - 1, by omega⟩
    obtain ⟨sent1, pending1, w1, hsent1, hw1, hstep⟩ :=
      walk_record fuel h long tells sized aligned
    have hmore : more.length < fuel := by
      simp only [List.length_append] at hfuel
      omega
    obtain ⟨sent2, pending2, w2, hsent2, hw2, hwalk⟩ := ih hw1 hmore hrest
    refine ⟨sent2, pending2, w2, ?_, hw2, hstep.trans hwalk⟩
    rw [hsent2, hsent1]
    simp

/-- The walk starts with nothing in its group. -/
theorem Walked.start (buffer : List UInt8) (c : Counters) {client : Client}
    (ho : .failed ∉ client.outcomes) :
    Walked buffer c client.received [] [] buffer { client := client, counters := c } where
  drop := rfl
  vectors := rfl
  frames := rfl
  few := by decide
  flushed := fun _ => rfl
  received := by simp
  captured := rfl
  reads := rfl
  outcomes := ho

/-- What `pump_bpf_to_stream` sends of a read that returned records: all of their frames where the
records are the whole buffer, and otherwise the first frames, with an error. -/
theorem pump_capture (buffer rest : List UInt8) (frames : List (List UInt8))
    (hc : Capture buffer frames rest) (hrest : rest = [] ∨ Malformed rest) (client : Client)
    (ho : .failed ∉ client.outcomes) (c : Counters) :
    ∃ r c' client' sent kept, pumpBPFToStream (.bytes buffer) client c = some (r, c', client') ∧
      client'.received = client.received ++ encodeAll sent ∧ frames = sent ++ kept ∧
      c'.captured = c.captured + sent.length ∧
      (rest = [] → kept = [] ∧ (buffer ≠ [] → r = .more)) ∧ (rest ≠ [] → r = .error) := by
  cases buffer with
  | nil =>
    -- a read that returns nothing is fatal, and there is no frame to be sent
    obtain ⟨hempty, hnone⟩ := hc.nothing rfl
    exact ⟨.exited, _, client, [], [], rfl, by simp, by simp [hempty], rfl,
      fun _ => ⟨rfl, fun h => absurd rfl h⟩, fun h => absurd hnone h⟩
  | cons b0 bs =>
    obtain ⟨sent, pending, w, hsent, hw, hwalk⟩ := walk_capture hc
      (Walked.start (b0 :: bs) { c with bpfReads := c.bpfReads + 1 } ho) (Nat.lt_succ_self _) hrest
    have hframes : frames = sent ++ pending := by simpa using hsent.symm
    refine ⟨if decide (rest = []) then .more else .error, w.counters, w.client, sent, pending, ?_,
      hw.received, hframes, hw.captured, fun hnil => ⟨?_, ?_⟩, ?_⟩
    · show (walk _ _ _ >>= _) = _
      rw [hwalk]
      rfl
    · exact hw.flushed hnil
    · intro hne
      simp [hnil]
    · intro hne
      simp [hne]

/-- Every read of BPF returns capture records up to the end of the buffer or up to something that is
none.  In the first case the stream that reaches the client decodes to exactly their frames; in the
second the helper ends in an error, with whole frames from the front of them sent.  Nothing past
the end of the buffer is read in either. -/
theorem pumpBPFToStream_exact (buffer : List UInt8) (client : Client)
    (ho : .failed ∉ client.outcomes) (c : Counters) :
    (∃ frames rest, Capture buffer frames rest ∧ (rest = [] ∨ Malformed rest)) ∧
    (∀ frames, Capture buffer frames [] →
      ∃ r c' client' written, pumpBPFToStream (.bytes buffer) client c = some (r, c', client') ∧
        client'.received = client.received ++ written ∧ decodeAll written = some frames ∧
        (buffer ≠ [] → r = .more)) ∧
    ∀ frames rest, Capture buffer frames rest → Malformed rest →
      ∃ c' client' written sent, pumpBPFToStream (.bytes buffer) client c =
          some (.error, c', client') ∧
        client'.received = client.received ++ written ∧ decodeAll written = some sent ∧
        sent <+: frames := by
  have hmax : maxFrame < 256 ^ 4 := by decide
  refine ⟨Capture.total buffer, fun frames hc => ?_, fun frames rest hc hbad => ?_⟩
  · obtain ⟨r, c', client', sent, kept, hpump, hreceived, hframes, -, hwhole, -⟩ :=
      pump_capture buffer [] frames hc (.inl rfl) client ho c
    obtain ⟨rfl, hmore⟩ := hwhole rfl
    rw [List.append_nil] at hframes
    subst hframes
    exact ⟨r, c', client', encodeAll frames, hpump, hreceived, decodeAll_encodeAll hmax hc.sized,
      hmore⟩
  · obtain ⟨r, c', client', sent, kept, hpump, hreceived, hframes, -, -, herror⟩ :=
      pump_capture buffer rest frames hc (.inr hbad) client ho c
    obtain rfl := herror hbad.1
    have hsized : Sized 14 maxFrame sent := fun f hf =>
      hc.sized f (by rw [hframes]; exact List.mem_append_left _ hf)
    exact ⟨c', client', encodeAll sent, sent, hpump, hreceived, decodeAll_encodeAll hmax hsized,
      kept, hframes.symm⟩

/-- A buffer of one record and a cut one, through an interrupted and two partial writes. -/
theorem pumpBPFToStream_one :
    ∃ c' client' written sent,
      pumpBPFToStream (.bytes (record (List.replicate 14 7) ++ [1, 2, 3]))
        { outcomes := [.interrupted, .took 2, .took 6] } {} = some (.error, c', client') ∧
      client'.received = written ∧ decodeAll written = some sent ∧
      sent <+: [List.replicate 14 7] := by
  have htells : Header.ofBytes (Header.bytes { hdrlen := 20, caplen := 14, datalen := 14 }) =
      .telling (Header.bytes { hdrlen := 20, caplen := 14, datalen := 14 })
        (List.replicate 14 7) := by decide
  have hc : Capture (record (List.replicate 14 7) ++ [1, 2, 3]) [List.replicate 14 7] [1, 2, 3] :=
    @Capture.record _ _ [0, 0] _ _ _ (by decide) htells (by decide) (.inl (by decide)) (.done _)
  exact (pumpBPFToStream_exact _ { outcomes := [.interrupted, .took 2, .took 6] } (by decide) {}).2.2
    _ _ hc ⟨by decide, .inl (by decide)⟩

end Maco.L2
