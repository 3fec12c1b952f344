import Maco.Lib.Framing

/-! The helper that joins a QEMU stream socket to an Ethernet interface: `pump_stream_to_bpf`, which
cuts the stream into frames and writes them to BPF in batches, and `bpf_inject`.  Both work on two
buffers of a fixed size; every copy checks the bounds that the C code leaves to its arithmetic, and
a copy past an end has no result.  The kernel's side of a batch write is a parameter. -/

namespace Maco.L2

open Framing

/-- `MACO_MAX_FRAME`. -/
def maxFrame : Nat := 16384

/-- `MACO_BATCH_SIZE`, the size of both buffers. -/
def batchSize : Nat := 65536

/-- `BPF_WORDALIGN`, for records aligned to four bytes. -/
def wordAlign (n : Nat) : Nat := (n + 3) / 4 * 4

/-- The members of `struct bpf_hdr` that the helper sets. -/
structure Header where
  caplen : Nat
  datalen : Nat
  hdrlen : Nat
  deriving DecidableEq, Repr

/-- `sizeof(struct bpf_hdr)`. -/
def headerSize : Nat := 20

/-- The header in memory: a time stamp of eight bytes, two lengths of four and one of two, the lowest
byte first, and two bytes of padding. -/
def Header.bytes (h : Header) : List UInt8 :=
  List.replicate 8 0 ++ (bigEndian 4 h.caplen).reverse ++ (bigEndian 4 h.datalen).reverse ++
    (bigEndian 2 h.hdrlen).reverse ++ [0, 0]

def Header.ofBytes (b : List UInt8) : Header where
  caplen := number ((b.drop 8).take 4).reverse
  datalen := number ((b.drop 12).take 4).reverse
  hdrlen := number ((b.drop 16).take 2).reverse

/-- A BPF port; `wire` is what has been put on the interface. -/
structure Port where
  wire : List (List UInt8) := []

structure Pump where
  stream : List UInt8
  injection : List UInt8
  used : Nat := 0
  batchEnabled : Bool
  injected : Nat := 0
  socketReads : Nat := 0
  bpfWrites : Nat := 0

/-- What the kernel does with writes to BPF: the frames that it sends for a batch, and how often the
write that is made when the counter stands at `n` is interrupted first. -/
structure Kernel where
  batch : List UInt8 → List (List UInt8)
  interrupts : Nat → Nat

/-- A complete write: the interrupted attempts and the one that succeeds. -/
def Pump.countWrite (k : Kernel) (p : Pump) : Pump :=
  { p with bpfWrites := p.bpfWrites + k.interrupts p.bpfWrites + 1 }

def Port.send (port : Port) (frames : List (List UInt8)) : Port :=
  { port with wire := port.wire ++ frames }

/-- The loop of `bpf_inject` that writes one frame at a time; `fuel` bounds its rounds. -/
def injectEach (k : Kernel) (length : Nat) : Nat → Nat → Pump → Port → Option (Pump × Port)
  | 0, _, _, _ => none
  | fuel + 1, offset, p, port =>
    if offset < length then do
      let header := Header.ofBytes (← slice p.injection offset headerSize)
      let frame ← slice p.injection (offset + header.hdrlen) header.caplen
      injectEach k length fuel (offset + wordAlign (header.hdrlen + header.caplen))
        (p.countWrite k) (port.send [frame])
    else some (p, port)

def bpfInject (k : Kernel) (p : Pump) (port : Port) (length packets : Nat) :
    Option (Pump × Port) :=
  if length = 0 then some (p, port)
  else do
    let (p, port) ←
      if p.batchEnabled then do
        let written ← slice p.injection 0 length
        some (p.countWrite k, port.send (k.batch written))
      else injectEach k length (length + 1) 0 p port
    some ({ p with injected := p.injected + packets }, port)

/-- The variables of the loop of `pump_stream_to_bpf`. -/
structure Scan where
  pump : Pump
  port : Port
  offset : Nat := 0
  batch : Nat := 0
  packets : Nat := 0

/-- The batch is injected where the next record does not fit behind it. -/
def Scan.makeRoom (k : Kernel) (s : Scan) (record : Nat) : Option Scan :=
  if batchSize < s.batch + record then do
    let (p, port) ← bpfInject k s.pump s.port s.batch s.packets
    some { s with pump := p, port := port, batch := 0, packets := 0 }
  else some s

/-- The record of the next frame is written behind the batch. -/
def Scan.append (s : Scan) (length : Nat) : Option Scan := do
  let record := wordAlign (headerSize + length)
  let header : Header := { hdrlen := headerSize, caplen := length, datalen := length }
  let injection ← store s.pump.injection s.batch header.bytes
  let frame ← slice s.pump.stream (s.offset + 4) length
  let injection ← store injection (s.batch + headerSize) frame
  let injection ← store injection (s.batch + headerSize + length)
    (List.replicate (record - headerSize - length) 0)
  some { s with
    pump := { s.pump with injection := injection }
    offset := s.offset + length + 4
    batch := s.batch + record
    packets := s.packets + 1 }

/-- The loop of `pump_stream_to_bpf`; `false` is the early return on an invalid length, and `fuel`
bounds the rounds. -/
def scan (k : Kernel) : Nat → Scan → Option (Bool × Scan)
  | 0, _ => none
  | fuel + 1, s =>
    if s.pump.used - s.offset < 4 then some (true, s)
    else do
      let length := number (← slice s.pump.stream s.offset 4)
      if length < 14 ∨ maxFrame < length then some (false, s)
      else if s.pump.used - s.offset < length + 4 then some (true, s)
      else do
        let s ← s.makeRoom k (wordAlign (headerSize + length))
        scan k fuel (← s.append length)

/-- What a read of the stream socket gives; no bytes mean that the peer has closed. -/
inductive Read where
  | interrupted
  | failed
  | bytes (b : List UInt8)

/-- The result of a pump: 0, 1, -1, or the exit of the process. -/
inductive Result where
  | more
  | ended
  | error
  | exited
  deriving DecidableEq, Repr

def pumpStreamToBPF (k : Kernel) (read : Read) (p : Pump) (port : Port) :
    Option (Result × Pump × Port) :=
  let p := { p with socketReads := p.socketReads + 1 }
  match read with
  | .interrupted => some (.more, p, port)
  | .failed => some (.exited, p, port)
  | .bytes [] => some (if p.used ≠ 0 then .error else .ended, p, port)
  | .bytes b => do
    let stream ← store p.stream p.used b
    let p := { p with stream := stream, used := p.used + b.length }
    let (valid, s) ← scan k (p.used + 1) { pump := p, port := port }
    if !valid then some (.error, s.pump, s.port)
    else do
      let (p, port) ← bpfInject k s.pump s.port s.batch s.packets
      let left ← slice p.stream s.offset (p.used - s.offset)
      let stream ← store p.stream 0 left
      some (.more, { p with used := p.used - s.offset, stream := stream }, port)

/-- How a read of the socket turns out: interrupted, or with up to `n + 1` bytes at hand. -/
inductive Arrival where
  | interrupted
  | ready (n : Nat)

/-- The helper as it drains a client that sends `sent` and closes: each read takes what is at hand of
the bytes that it asks for, and the first result that is not 0 ends the loop.  The bytes that are
not read yet come back with the result. -/
def pumpAll (k : Kernel) : List Arrival → List UInt8 → Pump → Port →
    Option (Result × List UInt8 × Pump × Port)
  | [], sent, p, port => some (.more, sent, p, port)
  | .interrupted :: rest, sent, p, port => do
    match ← pumpStreamToBPF k .interrupted p port with
    | (.more, p, port) => pumpAll k rest sent p port
    | (r, p, port) => some (r, sent, p, port)
  | .ready n :: rest, sent, p, port => do
    let count := min (batchSize - p.used) (n + 1)
    match ← pumpStreamToBPF k (.bytes (sent.take count)) p port with
    | (.more, p, port) => pumpAll k rest (sent.drop count) p port
    | (r, p, port) => some (r, sent.drop count, p, port)

/-- The helper at its start. -/
def Pump.start (batchEnabled : Bool) : Pump where
  stream := List.replicate batchSize 0
  injection := List.replicate batchSize 0
  batchEnabled := batchEnabled

/-! ### Records -/

theorem le_wordAlign (n : Nat) : n ≤ wordAlign n := by
  unfold wordAlign
  omega

theorem record_pos (n : Nat) : 0 < wordAlign (headerSize + n) := by
  unfold wordAlign headerSize
  omega

/-- A frame as the injection buffer has it. -/
def record (f : List UInt8) : List UInt8 :=
  Header.bytes { hdrlen := headerSize, caplen := f.length, datalen := f.length } ++ f ++
    List.replicate (wordAlign (headerSize + f.length) - headerSize - f.length) 0

def records (fs : List (List UInt8)) : List UInt8 := fs.flatMap record

@[simp] theorem Header.bytes_length (h : Header) : h.bytes.length = headerSize := by
  simp [Header.bytes, headerSize]

@[simp] theorem record_length (f : List UInt8) :
    (record f).length = wordAlign (headerSize + f.length) := by
  have := le_wordAlign (headerSize + f.length)
  simp only [record, List.length_append, Header.bytes_length, List.length_replicate]
  omega

@[simp] theorem records_cons (f : List UInt8) (fs : List (List UInt8)) :
    records (f :: fs) = record f ++ records fs := rfl

@[simp] theorem records_append (fs gs : List (List UInt8)) :
    records (fs ++ gs) = records fs ++ records gs := by simp [records]

/-- A header is read back as it was written. -/
theorem Header.ofBytes_bytes {h : Header} (hc : h.caplen < 256 ^ 4) (hd : h.datalen < 256 ^ 4)
    (hl : h.hdrlen < 256 ^ 2) : Header.ofBytes h.bytes = h := by
  have h8 : (h.bytes.drop 8).take 4 = (bigEndian 4 h.caplen).reverse := by
    simp [Header.bytes, List.drop_append]
  have h12 : (h.bytes.drop 12).take 4 = (bigEndian 4 h.datalen).reverse := by
    simp [Header.bytes]
  have h16 : (h.bytes.drop 16).take 2 = (bigEndian 2 h.hdrlen).reverse := by
    simp [Header.bytes, List.drop_append, List.take_append]
  simp [Header.ofBytes, h8, h12, h16, number_bigEndian hc, number_bigEndian hd,
    number_bigEndian hl]

/-- The kernel takes a batch as records and sends the frame of each. -/
structure Kernel.ReadsRecords (k : Kernel) : Prop where
  nil : k.batch [] = []
  cons : ∀ f rest, 14 ≤ f.length → f.length ≤ maxFrame →
    k.batch (record f ++ rest) = f :: k.batch rest

variable {k : Kernel} {p : Pump} {port : Port} {fs pending : List (List UInt8)}

theorem Kernel.ReadsRecords.batch_records (hk : k.ReadsRecords) (hfs : Sized 14 maxFrame fs) :
    k.batch (records fs) = fs := by
  induction fs with
  | nil => exact hk.nil
  | cons f fs ih =>
    have hf := hfs f List.mem_cons_self
    rw [records_cons, hk.cons f _ hf.1 hf.2, ih fun g hg => hfs g (List.mem_cons_of_mem _ hg)]

@[simp] theorem Port.send_nil (port : Port) : port.send [] = port := by simp [Port.send]

@[simp] theorem Port.send_send (port : Port) (gs : List (List UInt8)) :
    (port.send fs).send gs = port.send (fs ++ gs) := by simp [Port.send]

/-- The single-frame loop sends the frames of the records, one after the other. -/
theorem injectEach_records (hfs : Sized 14 maxFrame fs) {a c : List UInt8} {offset length fuel : Nat}
    (hinj : p.injection = a ++ (records fs ++ c)) (hoff : offset = a.length)
    (hlen : length = offset + (records fs).length) (hfuel : (records fs).length < fuel) :
    ∃ n, injectEach k length fuel offset p port =
      some ({ p with bpfWrites := n }, port.send fs) := by
  induction fs generalizing a offset p port fuel with
  | nil =>
    obtain ⟨fuel, rfl⟩ := Nat.exists_eq_add_of_lt hfuel
    have hend : ¬ offset < length := by
      rw [hlen]
      simp [records]
    exact ⟨p.bpfWrites, by simp [injectEach, hend]⟩
  | cons f fs ih =>
    have hf := hfs f List.mem_cons_self
    have hrec := record_pos f.length
    obtain ⟨fuel, rfl⟩ : ∃ m, fuel = m + 1 := ⟨fuel - 1, by omega⟩
    let header : Header := { hdrlen := headerSize, caplen := f.length, datalen := f.length }
    have hmax : f.length < 256 ^ 4 := by
      have := hf.2
      unfold maxFrame at this
      omega
    have hhead : Header.ofBytes header.bytes = header :=
      Header.ofBytes_bytes hmax hmax (show headerSize < 256 ^ 2 by decide)
    obtain ⟨pad, hpad⟩ : ∃ pad, record f = header.bytes ++ (f ++ pad) :=
      ⟨_, by rw [record, List.append_assoc]⟩
    have hslice1 : slice p.injection offset headerSize = some header.bytes := by
      rw [hinj, hoff, records_cons, hpad, ← header.bytes_length]
      simp only [List.append_assoc]
      exact slice_append _ _ _
    have hslice2 : slice p.injection (offset + headerSize) f.length = some f := by
      have hpre : offset + headerSize = (a ++ header.bytes).length := by simp [hoff]
      rw [hinj, hpre, records_cons, hpad]
      have := slice_append (a ++ header.bytes) f (pad ++ (records fs ++ c))
      simpa only [List.append_assoc] using this
    have hlt : offset < length := by
      rw [hlen, records_cons, List.length_append, record_length]
      omega
    rw [records_cons, List.length_append, record_length] at hfuel hlen
    have hrest : (p.countWrite k).injection = (a ++ record f) ++ (records fs ++ c) := by
      rw [Pump.countWrite, hinj, records_cons, List.append_assoc, List.append_assoc]
    have hoff' : offset + wordAlign (headerSize + f.length) = (a ++ record f).length := by
      simp [hoff]
    obtain ⟨n, hn⟩ : ∃ n, injectEach k length fuel (offset + wordAlign (headerSize + f.length))
        (p.countWrite k) (port.send [f]) =
          some ({ p.countWrite k with bpfWrites := n }, (port.send [f]).send fs) :=
      ih (fun g hg => hfs g (List.mem_cons_of_mem _ hg)) hrest hoff' (by omega) (by omega)
    refine ⟨n, ?_⟩
    rw [injectEach, if_pos hlt, hslice1]
    show (do
      let frame ← slice p.injection (offset + (Header.ofBytes header.bytes).hdrlen)
        (Header.ofBytes header.bytes).caplen
      injectEach k length fuel (offset + wordAlign ((Header.ofBytes header.bytes).hdrlen +
        (Header.ofBytes header.bytes).caplen)) (p.countWrite k) (port.send [frame])) = _
    rw [hhead, hslice2]
    show injectEach k length fuel (offset + wordAlign (headerSize + f.length)) (p.countWrite k)
      (port.send [f]) = _
    rw [hn]
    simp [Pump.countWrite]

/-- What `bpf_inject` does with a buffer that starts with records. -/
theorem bpfInject_records (hk : k.ReadsRecords) (hfs : Sized 14 maxFrame fs) {length : Nat}
    (hinj : p.injection.take length = records fs) (hlen : length = (records fs).length)
    (hle : length ≤ p.injection.length) :
    ∃ n, bpfInject k p port length fs.length =
      some ({ p with bpfWrites := n, injected := p.injected + fs.length }, port.send fs) := by
  rw [bpfInject]
  by_cases hz : length = 0
  · have hnil : fs = [] := by
      cases fs with
      | nil => rfl
      | cons f fs =>
        have := record_pos f.length
        rw [records_cons, List.length_append, record_length] at hlen
        omega
    subst hnil
    exact ⟨p.bpfWrites, by simp [hz]⟩
  · rw [if_neg hz]
    cases hb : p.batchEnabled with
    | true =>
      have hslice : slice p.injection 0 length = some (records fs) := by
        rw [slice_of_le (by omega), List.drop_zero, hinj]
      exact ⟨p.bpfWrites + k.interrupts p.bpfWrites + 1,
        by simp [hslice, hk.batch_records hfs, Pump.countWrite, hb]⟩
    | false =>
      have hsplit : p.injection = [] ++ (records fs ++ p.injection.drop length) := by
        rw [List.nil_append, ← hinj, List.take_append_drop]
      obtain ⟨n, hn⟩ : ∃ n, injectEach k length (length + 1) 0 p port =
          some ({ p with bpfWrites := n }, port.send fs) :=
        injectEach_records hfs hsplit rfl (by omega) (by omega)
      exact ⟨n, by simp [hn, hb]⟩

/-! ### The loop -/

/-- What the loop has done with the bytes `u`: the frames `fs` are sent, the frames `pending` are in
the injection buffer, and the rest begins at the offset. -/
structure Scanned (u : List UInt8) (p0 : Pump) (port0 : Port) (fs pending : List (List UInt8))
    (s : Scan) : Prop where
  stream_length : s.pump.stream.length = batchSize
  injection_length : s.pump.injection.length = batchSize
  used : s.pump.used = u.length
  stream : s.pump.stream.take u.length = u
  sized : Sized 14 maxFrame (fs ++ pending)
  offset : s.offset = (encodeAll (fs ++ pending)).length
  taken : encodeAll (fs ++ pending) ++ u.drop s.offset = u
  injection : s.pump.injection.take s.batch = records pending
  batch : s.batch = (records pending).length
  fits : s.batch ≤ batchSize
  packets : s.packets = pending.length
  port : s.port = port0.send fs
  injected : s.pump.injected = p0.injected + fs.length
  mode : s.pump.batchEnabled = p0.batchEnabled

variable {u : List UInt8} {p0 : Pump} {port0 : Port} {s : Scan}

theorem Scanned.offset_le (h : Scanned u p0 port0 fs pending s) : s.offset ≤ u.length := by
  have := congrArg List.length h.taken
  rw [List.length_append, ← h.offset] at this
  omega

/-- The bytes that the loop reads from the stream buffer are those of `u`. -/
theorem Scanned.slice_stream (h : Scanned u p0 port0 fs pending s) {a n : Nat}
    (hle : a + n ≤ u.length) : slice s.pump.stream a n = some ((u.drop a).take n) := by
  have hu : u.length ≤ batchSize := by
    have := congrArg List.length h.stream
    rw [List.length_take, h.stream_length] at this
    omega
  rw [slice_of_le (by rw [h.stream_length]; omega)]
  conv_rhs => rw [← h.stream]
  rw [List.drop_take, List.take_take, Nat.min_eq_left (by omega)]

/-- A full batch is sent and the buffer is empty again. -/
theorem Scanned.flush (hk : k.ReadsRecords) (h : Scanned u p0 port0 fs pending s) :
    ∃ p port, bpfInject k s.pump s.port s.batch s.packets = some (p, port) ∧
      Scanned u p0 port0 (fs ++ pending) []
        { s with pump := p, port := port, batch := 0, packets := 0 } ∧
      p.stream = s.pump.stream ∧ p.used = s.pump.used := by
  have hsized : Sized 14 maxFrame pending := fun f hf => h.sized f (List.mem_append_right _ hf)
  obtain ⟨n, hn⟩ := bpfInject_records hk hsized h.injection h.batch
    (by rw [h.injection_length]; exact h.fits)
  rw [h.packets, hn]
  refine ⟨_, _, rfl, ⟨h.stream_length, h.injection_length, h.used, h.stream, ?_, ?_, ?_, rfl, rfl,
    Nat.zero_le _, rfl, ?_, ?_, h.mode⟩, rfl, rfl⟩
  · simpa using h.sized
  · simpa using h.offset
  · simpa using h.taken
  · simp [h.port]
  · show s.pump.injected + pending.length = _
    rw [h.injected, List.length_append]
    omega

theorem Scanned.makeRoom (hk : k.ReadsRecords) (h : Scanned u p0 port0 fs pending s)
    {record : Nat} (hrecord : record ≤ batchSize) :
    ∃ s' fs' pending', s.makeRoom k record = some s' ∧ Scanned u p0 port0 fs' pending' s' ∧
      s'.offset = s.offset ∧ s'.batch + record ≤ batchSize := by
  rw [Scan.makeRoom]
  split
  · obtain ⟨p, port, hp, hs, -, -⟩ := h.flush hk
    rw [hp]
    exact ⟨_, _, _, rfl, hs, rfl, by simpa using hrecord⟩
  · exact ⟨s, fs, pending, rfl, h, rfl, by omega⟩

/-- A whole frame goes from the stream buffer behind the batch. -/
theorem Scanned.append (h : Scanned u p0 port0 fs pending s)
    (hsize : 14 ≤ front (u.drop s.offset) ∧ front (u.drop s.offset) ≤ maxFrame)
    (hwhole : front (u.drop s.offset) + 4 ≤ (u.drop s.offset).length)
    (hfits : s.batch + wordAlign (headerSize + front (u.drop s.offset)) ≤ batchSize) :
    ∃ s' pending', s.append (front (u.drop s.offset)) = some s' ∧
      Scanned u p0 port0 fs pending' s' ∧ s.offset < s'.offset := by
  obtain ⟨n, hn⟩ : ∃ n, n = front (u.drop s.offset) := ⟨_, rfl⟩
  obtain ⟨f, hf⟩ : ∃ f, f = ((u.drop s.offset).drop 4).take n := ⟨_, rfl⟩
  rw [← hn] at hsize hwhole hfits ⊢
  have hdrop : (u.drop s.offset).length = u.length - s.offset := List.length_drop
  have hoff := h.offset_le
  have hflen : f.length = n := by
    rw [hf, List.length_take, List.length_drop]
    omega
  have hslice : slice s.pump.stream (s.offset + 4) n = some f := by
    rw [h.slice_stream (by omega), hf, List.drop_drop]
  have hrest : u.drop s.offset = encode f ++ u.drop (s.offset + n + 4) := by
    have := encode_front (s := u.drop s.offset) (by omega)
    rw [← hn, ← hf, List.drop_drop] at this
    rw [← this, Nat.add_assoc]
  have hrec := le_wordAlign (headerSize + n)
  let header : Header := { hdrlen := headerSize, caplen := n, datalen := n }
  -- the three writes lie inside the buffer
  have hi := h.injection_length
  obtain ⟨i1, h1⟩ : ∃ i, store s.pump.injection s.batch header.bytes = some i :=
    ⟨_, store_of_le (by rw [Header.bytes_length]; omega)⟩
  have hi1 := store_length h1
  obtain ⟨i2, h2⟩ : ∃ i, store i1 (s.batch + headerSize) f = some i :=
    ⟨_, store_of_le (by omega)⟩
  have hi2 := store_length h2
  let pad : List UInt8 := List.replicate (wordAlign (headerSize + n) - headerSize - n) 0
  have hpad : pad.length = wordAlign (headerSize + n) - headerSize - n := List.length_replicate
  obtain ⟨i3, h3⟩ : ∃ i, store i2 (s.batch + headerSize + n) pad = some i :=
    ⟨_, store_of_le (by omega)⟩
  have hi3 := store_length h3
  have htake : i3.take (s.batch + wordAlign (headerSize + n)) = records (pending ++ [f]) := by
    have t1 := store_take h1
    have t2 := store_take h2
    have t3 := store_take h3
    rw [Header.bytes_length] at t1
    rw [hflen] at t2
    have hend : s.batch + headerSize + n + pad.length =
        s.batch + wordAlign (headerSize + n) := by omega
    rw [hend, t2, t1, h.injection] at t3
    rw [t3, records_append, records_cons, record, hflen]
    simp [records, header, pad]
  refine ⟨_, pending ++ [f], by
    simp only [Scan.append]
    rw [h1]
    show (slice s.pump.stream (s.offset + 4) n >>= _) = _
    rw [hslice]
    show (store i1 (s.batch + headerSize) f >>= _) = _
    rw [h2]
    show (store i2 (s.batch + headerSize + n) pad >>= _) = _
    rw [h3]
    rfl, ?_, by simp only; omega⟩
  refine ⟨h.stream_length, by simp only; omega, h.used, h.stream, ?_, ?_, ?_, htake, ?_, hfits, ?_,
    h.port, h.injected, h.mode⟩
  · intro g hg
    rw [← List.append_assoc, List.mem_append, List.mem_singleton] at hg
    rcases hg with hg | rfl
    · exact h.sized g hg
    · omega
  · rw [← List.append_assoc, encodeAll_append, List.length_append, ← h.offset]
    simp [hflen, Nat.add_assoc]
  · rw [← List.append_assoc, encodeAll_append, List.append_assoc]
    simpa [← hrest] using h.taken
  · rw [records_append, List.length_append, ← h.batch]
    simp [records, hflen]
  · simp [h.packets]

/-- The loop stops where no whole frame is left, or at a length that no frame has. -/
theorem scan_stops (hk : k.ReadsRecords) {fuel : Nat} (h : Scanned u p0 port0 fs pending s)
    (hfuel : u.length - s.offset < fuel) :
    ∃ valid s' fs' pending', scan k fuel s = some (valid, s') ∧
      Scanned u p0 port0 fs' pending' s' ∧
      (if valid then Short 14 maxFrame (u.drop s'.offset)
        else Broken 14 maxFrame (u.drop s'.offset)) := by
  induction fuel generalizing s fs pending with
  | zero => omega
  | succ fuel ih =>
    have hdrop : (u.drop s.offset).length = u.length - s.offset := List.length_drop
    rw [scan, h.used]
    split
    · rename_i hlt
      exact ⟨true, s, fs, pending, rfl, h, .inl (by omega)⟩
    · rename_i hge
      rw [h.slice_stream (by omega)]
      simp only [Option.bind_eq_bind, Option.bind_some]
      rw [show number ((u.drop s.offset).take 4) = front (u.drop s.offset) from rfl]
      split
      · rename_i hbad
        exact ⟨false, s, fs, pending, rfl, h, by omega, by omega⟩
      · rename_i hsize
        split
        · rename_i hpart
          exact ⟨true, s, fs, pending, rfl, h, .inr ⟨by omega, by omega⟩⟩
        · rename_i hwhole
          have hroom : wordAlign (headerSize + front (u.drop s.offset)) ≤ batchSize := by
            have hmax : front (u.drop s.offset) ≤ 16384 := by
              have : maxFrame = 16384 := rfl
              omega
            unfold wordAlign headerSize batchSize
            omega
          obtain ⟨s1, fs1, pending1, hs1, h1, hoff1, hfits⟩ := h.makeRoom hk hroom
          rw [← hoff1] at hfits hsize hwhole
          obtain ⟨s2, pending2, hs2, h2, hlt⟩ := h1.append (by omega)
            (by rw [List.length_drop]; omega) hfits
          have hnext := ih h2 (by omega)
          rw [hs1, ← hoff1]
          simp only [Option.bind_some]
          rw [hs2]
          exact hnext

/-! ### Runs -/

/-- Between two calls the stream buffer holds `left`, the start of a frame. -/
structure Pump.Ready (p : Pump) (left : List UInt8) : Prop where
  stream_length : p.stream.length = batchSize
  injection_length : p.injection.length = batchSize
  used : p.used = left.length
  stream : p.stream.take left.length = left
  short : Short 14 maxFrame left

theorem Pump.start_ready (batchEnabled : Bool) : (Pump.start batchEnabled).Ready [] :=
  ⟨List.length_replicate, List.length_replicate, rfl, rfl, .inl (by decide)⟩

theorem Pump.Ready.used_lt {left : List UInt8} (h : p.Ready left) : p.used < 16388 := by
  rw [h.used]
  exact h.short.length_lt

/-- One call cuts the whole frames off what is left and what has come. -/
theorem pump_bytes (hk : k.ReadsRecords) {left b : List UInt8} (h : p.Ready left) (hb : b ≠ [])
    (hroom : left.length + b.length ≤ batchSize) :
    ∃ r p' port' fs t, pumpStreamToBPF k (.bytes b) p port = some (r, p', port') ∧
      left ++ b = encodeAll fs ++ t ∧ Sized 14 maxFrame fs ∧
      (r = .more ∧ p'.Ready t ∧ port' = port.send fs ∨ r = .error ∧ Broken 14 maxFrame t) := by
  obtain ⟨x, b', rfl⟩ := List.exists_cons_of_ne_nil hb
  obtain ⟨stream, hstream⟩ : ∃ i, store p.stream p.used (x :: b') = some i :=
    ⟨_, store_of_le (by rw [h.stream_length, h.used]; exact hroom)⟩
  have hlen : (left ++ x :: b').length = p.used + (x :: b').length := by
    rw [List.length_append, h.used]
  have htake : stream.take (left ++ x :: b').length = left ++ x :: b' := by
    rw [hlen, store_take hstream, h.used, h.stream]
  have h0 : Scanned (left ++ x :: b') p port [] []
      { pump := { p with
          stream := stream, used := p.used + (x :: b').length, socketReads := p.socketReads + 1 }
        port := port } :=
    ⟨(store_length hstream).trans h.stream_length, h.injection_length, hlen.symm, htake,
      fun f hf => absurd hf List.not_mem_nil, rfl, rfl, rfl, rfl, Nat.zero_le _, rfl,
      (port.send_nil).symm, rfl, rfl⟩
  obtain ⟨valid, s, fs, pending, hs, h1, hstop⟩ :=
    scan_stops hk h0 (show _ < p.used + (x :: b').length + 1 by rw [hlen]; omega)
  simp only [pumpStreamToBPF, hstream, Option.bind_eq_bind, Option.bind_some, hs]
  cases valid with
  | false => exact ⟨_, _, _, fs ++ pending, _, rfl, h1.taken.symm, h1.sized, .inr ⟨rfl, hstop⟩⟩
  | true =>
    obtain ⟨p2, port2, hp2, h2, hstream2, hused2⟩ := h1.flush hk
    have hoff := h1.offset_le
    have hu : p2.used = (left ++ x :: b').length := hused2.trans h1.used
    have hl2 : p2.stream.length = batchSize := h2.stream_length
    have hdrop : ((left ++ x :: b').drop s.offset).length = p2.used - s.offset := by
      rw [List.length_drop, hu]
    have hslice : slice p2.stream s.offset (p2.used - s.offset) =
        some ((left ++ x :: b').drop s.offset) := by
      rw [hstream2, h1.slice_stream (by omega), ← hdrop, List.take_length]
    have hle : p2.used ≤ batchSize := by
      rw [hu, List.length_append]
      exact hroom
    obtain ⟨stream3, hstream3⟩ :
        ∃ i, store p2.stream 0 ((left ++ x :: b').drop s.offset) = some i :=
      ⟨_, store_of_le (by rw [hl2]; omega)⟩
    refine ⟨.more, { p2 with used := p2.used - s.offset, stream := stream3 }, port2, fs ++ pending,
      _, ?_, h1.taken.symm, h1.sized, .inl ⟨rfl, ⟨(store_length hstream3).trans hl2,
        h2.injection_length, hdrop.symm, ?_, hstop⟩, h2.port⟩⟩
    · simp [hp2, hslice, hstream3]
    · have := store_take hstream3
      rwa [Nat.zero_add, List.take_zero, List.nil_append] at this

/-- How a run over a stream that begins with the frames `fs` and `t` ends. -/
inductive Outcome (port : Port) (fs : List (List UInt8)) (t unread : List UInt8) :
    Result → Pump → Port → Prop
  | more {p : Pump} (ready : p.Ready t) : Outcome port fs t unread .more p (port.send fs)
  | ended {p : Pump} (read : unread = []) (none : t = []) (used : p.used = 0) :
      Outcome port fs t unread .ended p (port.send fs)
  | broken {p : Pump} {port' : Port} (broken : Broken 14 maxFrame t) :
      Outcome port fs t unread .error p port'
  | cut {p : Pump} {port' : Port} (read : unread = []) (some : t ≠ [])
      (short : Short 14 maxFrame t) : Outcome port fs t unread .error p port'

/-- Whatever arrives when, the helper cuts the stream into its frames. -/
theorem pumpAll_run (hk : k.ReadsRecords) (arrivals : List Arrival) {left sent : List UInt8}
    (h : p.Ready left) :
    ∃ r unread p' port' fs t, pumpAll k arrivals sent p port = some (r, unread, p', port') ∧
      left ++ sent = encodeAll fs ++ (t ++ unread) ∧ Sized 14 maxFrame fs ∧
      Outcome port fs t unread r p' port' := by
  induction arrivals generalizing left sent p port with
  | nil =>
    refine ⟨.more, sent, p, port, [], left, rfl, rfl, fun f hf => absurd hf List.not_mem_nil, ?_⟩
    have := @Outcome.more port [] left sent p h
    rwa [Port.send_nil] at this
  | cons arrival arrivals ih =>
    cases arrival with
    | interrupted =>
      have hready : Pump.Ready { p with socketReads := p.socketReads + 1 } left :=
        ⟨h.stream_length, h.injection_length, h.used, h.stream, h.short⟩
      exact ih hready
    | ready n =>
      have hused := h.used_lt
      have hcount : 0 < min (batchSize - p.used) (n + 1) := by
        unfold batchSize
        omega
      simp only [pumpAll]
      by_cases hempty : sent = []
      · subst hempty
        by_cases hz : p.used = 0
        · have hleft : left = [] := List.length_eq_zero_iff.mp (h.used ▸ hz)
          subst hleft
          refine ⟨.ended, [], { p with socketReads := p.socketReads + 1 }, port, [], [], ?_, rfl,
            fun f hf => absurd hf List.not_mem_nil, ?_⟩
          · simp [pumpStreamToBPF, hz]
          · have := @Outcome.ended port [] [] [] { p with socketReads := p.socketReads + 1 } rfl rfl hz
            rwa [Port.send_nil] at this
        · have hleft : left ≠ [] := fun hnil => hz (by rw [h.used, hnil]; rfl)
          refine ⟨.error, [], { p with socketReads := p.socketReads + 1 }, port, [], left, ?_, by simp,
            fun f hf => absurd hf List.not_mem_nil, .cut rfl hleft h.short⟩
          simp [pumpStreamToBPF, hz]
      · obtain ⟨count, hc⟩ : ∃ count, count = min (batchSize - p.used) (n + 1) := ⟨_, rfl⟩
        rw [← hc] at hcount ⊢
        have hb : sent.take count ≠ [] := by
          rw [Ne, List.take_eq_nil_iff]
          rintro (h0 | h0)
          · omega
          · exact hempty h0
        have hroom : left.length + (sent.take count).length ≤ batchSize := by
          have := List.length_take_le count sent
          unfold batchSize at *
          rw [← h.used]
          omega
        obtain ⟨r, p1, port1, fs, t, hp1, hcut, hsized, hout⟩ :=
          pump_bytes hk h hb hroom
        rw [hp1]
        have hsplit : left ++ sent = encodeAll fs ++ (t ++ sent.drop count) := by
          rw [← List.append_assoc, ← hcut, List.append_assoc, List.take_append_drop]
        rcases hout with ⟨rfl, hready, rfl⟩ | ⟨rfl, hbroken⟩
        · obtain ⟨r, unread, p2, port2, gs, t2, hp2, hcut2, hsized2, hout2⟩ :=
            ih hready
          refine ⟨r, unread, p2, port2, fs ++ gs, t2, hp2, ?_, ?_, ?_⟩
          · rw [hsplit, hcut2, encodeAll_append, List.append_assoc]
          · intro f hf
            rcases List.mem_append.mp hf with hf | hf
            · exact hsized f hf
            · exact hsized2 f hf
          · cases hout2 with
            | more hr => rw [Port.send_send]; exact .more hr
            | ended hu ht hz => rw [Port.send_send]; exact .ended hu ht hz
            | broken hb => exact .broken hb
            | cut hu ht hs => exact .cut hu ht hs
        · exact ⟨.error, sent.drop count, p1, port1, fs, t, rfl, hsplit, hsized, .broken hbroken⟩

/-- The helper sends exactly the frames of its client's stream, in order, however the stream is cut
into reads and in both modes of injection; between two calls fewer bytes are left than the longest
frame has with its prefix, so each read asks for some; and a prefix that no frame has makes it end
in an error as soon as it is read. -/
theorem pumpAll_exact (k : Kernel) (hk : k.ReadsRecords) (batchEnabled : Bool)
    (frames : List (List UInt8)) (hframes : Sized 14 maxFrame frames) (arrivals : List Arrival) :
    (∃ r unread p port, pumpAll k arrivals (encodeAll frames) (Pump.start batchEnabled) {} =
        some (r, unread, p, port) ∧ (r = .more ∨ r = .ended) ∧ p.used < 16388 ∧
      (∃ rest, frames = port.wire ++ rest ∧ p.stream.take p.used ++ unread = encodeAll rest) ∧
      (unread = [] → port.wire = frames ∧ p.used = 0) ∧ (r = .ended → unread = [])) ∧
    ∀ n more, n < 256 ^ 4 → ¬ (14 ≤ n ∧ n ≤ maxFrame) →
      ∃ r unread p port, pumpAll k arrivals (encodeAll frames ++ (bigEndian 4 n ++ more))
          (Pump.start batchEnabled) {} = some (r, unread, p, port) ∧
        (r ≠ .error → p.used < 16388) ∧ (unread.length ≤ more.length → r = .error) := by
  have hmax : maxFrame < 256 ^ 4 := by decide
  constructor
  · obtain ⟨r, unread, p, port, fs, t, hp, hcut, hsized, hout⟩ :=
      pumpAll_run hk arrivals (Pump.start_ready batchEnabled)
    refine ⟨r, unread, p, port, hp, ?_⟩
    rw [List.nil_append] at hcut
    obtain ⟨rest, hrest, hleft⟩ := encodeAll_prefix hmax hsized hframes
      (by rw [← hcut, List.append_nil]) fun _ => .inl (.inl (by decide))
    rw [List.append_nil] at hleft
    have hrestSized : Sized 14 maxFrame rest := fun f hf =>
      hframes f (by rw [hrest]; exact List.mem_append_right _ hf)
    -- a stream that ends before a frame does holds no whole frame
    have hshort : unread = [] → Short 14 maxFrame t → rest = [] := by
      intro hu hs
      rw [hu, List.append_nil] at hleft
      cases rest with
      | nil => rfl
      | cons f rest =>
        exfalso
        have hf := hrestSized f List.mem_cons_self
        have hfront : front t = f.length := by rw [hleft, encodeAll_cons, front_encode hmax hf.2]
        have hlen : f.length + 4 ≤ t.length := by
          rw [hleft, encodeAll_cons, List.length_append, encode_length]
          omega
        rcases hs with hs | ⟨-, hs⟩ <;> omega
    cases hout with
    | more hready =>
      have hstream : p.stream.take p.used = t := by rw [hready.used, hready.stream]
      refine ⟨.inl rfl, hready.used_lt, ⟨rest, by simpa [Port.send] using hrest,
        by rw [hstream, hleft]⟩, fun hu => ?_, fun h => by contradiction⟩
      obtain rfl := hshort hu hready.short
      have ht : t = [] := by simpa [hu] using hleft
      exact ⟨by simpa [Port.send] using hrest.symm, by rw [hready.used, ht]; rfl⟩
    | ended hu ht hz =>
      obtain rfl := hshort hu (by rw [ht]; exact .inl (by decide))
      refine ⟨.inr rfl, by omega, ⟨[], by simpa [Port.send] using hrest, by simp [hz, hu]⟩,
        fun _ => ⟨by simpa [Port.send] using hrest.symm, hz⟩, fun _ => hu⟩
    | broken hb => exact absurd hb (not_broken hmax hrestSized hleft)
    | cut hu ht hs =>
      obtain rfl := hshort hu hs
      exact absurd (List.append_eq_nil_iff.mp hleft).1 ht
  · intro n more hn hbad
    have hfront : front (bigEndian 4 n ++ more) = n := by
      rw [front, List.take_left' (by simp), number_bigEndian hn]
    have hbroken : Broken 14 maxFrame (bigEndian 4 n ++ more) :=
      ⟨by simp, by rw [hfront]; exact hbad⟩
    obtain ⟨r, unread, p, port, fs, t, hp, hcut, hsized, hout⟩ :=
      pumpAll_run hk arrivals (Pump.start_ready batchEnabled)
    refine ⟨r, unread, p, port, hp, ?_⟩
    rw [List.nil_append] at hcut
    obtain ⟨rest, hrest, hleft⟩ := encodeAll_prefix hmax hsized hframes hcut.symm
      fun _ => .inr hbroken
    have hrestSized : Sized 14 maxFrame rest := fun f hf =>
      hframes f (by rw [hrest]; exact List.mem_append_right _ hf)
    -- with the bad prefix read, what is left starts with a frame or with that prefix
    have hread : unread.length ≤ more.length → ¬ Short 14 maxFrame t := by
      intro hle hs
      have hlen := congrArg List.length hleft
      simp only [List.length_append, bigEndian_length] at hlen
      have h4 : 4 ≤ t.length := by omega
      have hfrontT : front t = front (t ++ unread) := by
        rw [front, front, List.take_append_of_le_length h4]
      cases rest with
      | nil =>
        rw [hleft, encodeAll_nil, List.nil_append, hfront] at hfrontT
        rcases hs with hs | ⟨hs, -⟩
        · omega
        · exact hbad (hfrontT ▸ hs)
      | cons f rest =>
        have hf := hrestSized f List.mem_cons_self
        rw [hleft, encodeAll_cons, List.append_assoc, front_encode hmax hf.2] at hfrontT
        simp only [encodeAll_cons, List.length_append, encode_length] at hlen
        rcases hs with hs | ⟨-, hs⟩ <;> omega
    cases hout with
    | more hready =>
      exact ⟨fun _ => hready.used_lt, fun hle => absurd hready.short (hread hle)⟩
    | ended hu ht hz =>
      refine ⟨fun _ => by omega, fun hle => absurd ?_ (hread hle)⟩
      rw [ht]
      exact .inl (by decide)
    | broken hb => exact ⟨fun h => absurd rfl h, fun _ => rfl⟩
    | cut hu ht hs => exact ⟨fun h => absurd rfl h, fun _ => rfl⟩

/-- A kernel that reads a batch record by record. -/
def walkBatch (b : List UInt8) : List (List UInt8) :=
  if b.length < headerSize then []
  else
    let h := Header.ofBytes (b.take headerSize)
    (b.drop h.hdrlen).take h.caplen ::
      walkBatch (b.drop (max headerSize (wordAlign (h.hdrlen + h.caplen))))
termination_by b.length
decreasing_by
  rw [List.length_drop]
  unfold headerSize at *
  omega

theorem walkBatch_reads (interrupts : Nat → Nat) :
    Kernel.ReadsRecords { batch := walkBatch, interrupts := interrupts } := by
  refine ⟨by show walkBatch [] = []; rw [walkBatch]; rfl, fun f rest hlo hhi => ?_⟩
  have hmax : f.length < 256 ^ 4 := by
    unfold maxFrame at hhi
    omega
  let header : Header := { hdrlen := headerSize, caplen := f.length, datalen := f.length }
  obtain ⟨pad, hpad⟩ : ∃ pad, record f = header.bytes ++ (f ++ pad) :=
    ⟨_, by rw [record, List.append_assoc]⟩
  have hhead : Header.ofBytes ((record f ++ rest).take headerSize) = header := by
    rw [hpad, List.append_assoc, List.take_left' header.bytes_length]
    exact Header.ofBytes_bytes hmax hmax (show headerSize < 256 ^ 2 by decide)
  have hrec := le_wordAlign (headerSize + f.length)
  have hframe : ((record f ++ rest).drop headerSize).take f.length = f := by
    rw [hpad, List.append_assoc, List.drop_left' header.bytes_length, List.append_assoc,
      List.take_left]
  have hrest : (record f ++ rest).drop (wordAlign (headerSize + f.length)) = rest :=
    List.drop_left' (record_length f)
  have hlong : ¬ (record f ++ rest).length < headerSize := by
    rw [List.length_append, record_length]
    omega
  show walkBatch (record f ++ rest) = f :: walkBatch rest
  rw [walkBatch, if_neg hlong]
  simp only [hhead]
  show List.take f.length (List.drop headerSize (record f ++ rest)) ::
    walkBatch (List.drop (max headerSize (wordAlign (headerSize + f.length))) _) = _
  rw [Nat.max_eq_right (by omega), hframe, hrest]

theorem pumpAll_two_frames :
    ∃ r unread p port, pumpAll { batch := walkBatch, interrupts := fun _ => 0 }
        [.ready 20, .interrupted, .ready 100, .ready 0]
        (encodeAll [List.replicate 14 1, List.replicate 60 2]) (Pump.start true) {} =
          some (r, unread, p, port) ∧
      (unread = [] → port.wire = [List.replicate 14 1, List.replicate 60 2]) := by
  have hsized : Sized 14 maxFrame [List.replicate 14 1, List.replicate 60 2] := by
    unfold Sized
    decide
  obtain ⟨r, unread, p, port, hp, -, -, -, hall, -⟩ :=
    (pumpAll_exact _ (walkBatch_reads fun _ => 0) true _ hsized
      [.ready 20, .interrupted, .ready 100, .ready 0]).1
  exact ⟨r, unread, p, port, hp, fun hu => (hall hu).1⟩

end Maco.L2
