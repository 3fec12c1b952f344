import Mathlib.Data.List.Basic

/-! The console's input.  The loop passes what is typed on, byte by byte; Ctrl+A stands before the
next byte as an escape, and Ctrl+A Q ends it. -/

namespace Maco.VM

def consoleEscape : UInt8 := 0x01

/-- The letter q, and Q. -/
def consoleQuit : UInt8 := 0x71

def consoleQuitUpper : UInt8 := 0x51

/-- What `src.Read` gives for one byte of room: a byte, an error, both or neither. -/
structure ConsoleRead where
  byte : Option UInt8 := none
  err : Option String := none

/-- Where the loop stands: it waits for the next read, or it has returned. -/
inductive ConsoleState where
  | waiting (escaped : Bool)
  | returned (err : Option String)
  deriving DecidableEq, Repr

/-- What the loop does with one byte, before it looks at the error of the read; `write` is
`dst.Write`, which may fail. -/
def proxyByte (write : UInt8 → Option String) (escaped : Bool) (b : UInt8) :
    List UInt8 × ConsoleState :=
  let forward := fun b =>
    match write b with
    | some e => ([], .returned (some e))
    | none => ([b], .waiting false)
  if escaped && (b = consoleQuit || b = consoleQuitUpper) then ([], .returned none)
  else if escaped && b = consoleEscape then forward consoleEscape
  else if escaped then forward b
  else if b = consoleEscape then ([], .waiting true)
  else forward b

/-- `proxyConsoleInput` over the reads that it makes: the bytes that it forwards, and where it
stands after the reads. -/
def proxyConsoleInput (write : UInt8 → Option String) (escaped : Bool) :
    List ConsoleRead → List UInt8 × ConsoleState
  | [] => ([], .waiting escaped)
  | read :: reads =>
    let (sent, state) := match read.byte with
      | some b => proxyByte write escaped b
      | none => ([], .waiting escaped)
    match state with
    | .returned e => (sent, .returned e)
    | .waiting escaped =>
      match read.err with
      | some e => (sent, .returned (some e))
      | none =>
        let (later, state) := proxyConsoleInput write escaped reads
        (sent ++ later, state)

/-! ### What is typed -/

/-- A text with each escape doubled. -/
def doubled (text : List UInt8) : List UInt8 :=
  text.flatMap fun b => if b = consoleEscape then [b, b] else [b]

/-- Bytes that are typed outside of an escape and do not end the console, and the text that they
stand for. -/
inductive Typed : List UInt8 → List UInt8 → Prop
  | nil : Typed [] []
  | plain {b : UInt8} {bytes text : List UInt8} :
      b ≠ consoleEscape → Typed bytes text → Typed (b :: bytes) (b :: text)
  | escaped {b : UInt8} {bytes text : List UInt8} :
      b ≠ consoleQuit → b ≠ consoleQuitUpper → Typed bytes text →
      Typed (consoleEscape :: b :: bytes) (b :: text)

/-- The reads that bring these bytes: any number of them come back empty, and none fails. -/
inductive Brings : List ConsoleRead → List UInt8 → Prop
  | nil : Brings [] []
  | empty {reads : List ConsoleRead} {bytes : List UInt8} :
      Brings reads bytes → Brings ({} :: reads) bytes
  | byte {b : UInt8} {reads : List ConsoleRead} {bytes : List UInt8} :
      Brings reads bytes → Brings ({ byte := some b } :: reads) (b :: bytes)

section Loop

variable {write : UInt8 → Option String} {reads later : List ConsoleRead}
  {bytes text rest : List UInt8} {b : UInt8}

theorem proxyByte_plain (hw : write b = none) (hb : b ≠ consoleEscape) :
    proxyByte write false b = ([b], .waiting false) := by
  simp [proxyByte, hw, hb]

theorem proxyByte_escape : proxyByte write false consoleEscape = ([], .waiting true) := by
  simp [proxyByte]

theorem proxyByte_escaped (hw : write b = none) (hq : b ≠ consoleQuit)
    (hq' : b ≠ consoleQuitUpper) : proxyByte write true b = ([b], .waiting false) := by
  by_cases hb : b = consoleEscape
  · subst hb
    simp [proxyByte, hw, hq, hq']
  · simp [proxyByte, hw, hq, hq', hb]

theorem proxyByte_quit (hq : b = consoleQuit ∨ b = consoleQuitUpper) :
    proxyByte write true b = ([], .returned none) := by
  simp [proxyByte, hq]

/-- Reads that come back empty change nothing. -/
theorem proxy_empty (escaped : Bool) :
    proxyConsoleInput write escaped ({} :: reads) = proxyConsoleInput write escaped reads := by
  simp [proxyConsoleInput]

/-- A byte after which the loop goes on. -/
theorem proxy_byte {escaped escaped' : Bool} {sent : List UInt8}
    (h : proxyByte write escaped b = (sent, .waiting escaped')) :
    proxyConsoleInput write escaped ({ byte := some b } :: reads) =
      (sent ++ (proxyConsoleInput write escaped' reads).1,
        (proxyConsoleInput write escaped' reads).2) := by
  simp [proxyConsoleInput, h]

/-- Reads that bring what was typed, with one byte of it before the rest. -/
theorem Brings.cons (write : UInt8 → Option String) (h : Brings reads (b :: bytes)) :
    ∃ rest, Brings rest bytes ∧ ∀ escaped later,
      proxyConsoleInput write escaped (reads ++ later) =
        proxyConsoleInput write escaped ({ byte := some b } :: (rest ++ later)) := by
  generalize hall : b :: bytes = all at h
  induction h with
  | nil => cases hall
  | empty h ih =>
    obtain ⟨rest, hrest, hsame⟩ := ih hall
    refine ⟨rest, hrest, fun escaped later => ?_⟩
    rw [List.cons_append, proxy_empty, hsame]
  | @byte b' reads bytes' h ih =>
    cases hall
    exact ⟨reads, h, fun _ _ => rfl⟩

/-- Reads that bring nothing more. -/
theorem Brings.proxy_nil (h : Brings reads []) (escaped : Bool) :
    proxyConsoleInput write escaped (reads ++ later) = proxyConsoleInput write escaped later := by
  generalize hall : ([] : List UInt8) = all at h
  induction h with
  | nil => rfl
  | empty h ih => rw [List.cons_append, proxy_empty, ih hall]
  | byte h ih => cases hall

/-- What is typed outside of an escape is forwarded, and the loop then goes on outside of an escape
with the reads that bring the rest. -/
theorem Typed.forwarded (h : Typed bytes text) (hw : ∀ b, write b = none)
    (hreads : Brings reads (bytes ++ rest)) :
    ∃ reads', Brings reads' rest ∧ ∀ later,
      proxyConsoleInput write false (reads ++ later) =
        (text ++ (proxyConsoleInput write false (reads' ++ later)).1,
          (proxyConsoleInput write false (reads' ++ later)).2) := by
  induction h generalizing reads with
  | nil => exact ⟨reads, hreads, fun later => by simp⟩
  | @plain b bytes text hb _ ih =>
    obtain ⟨reads1, hreads1, hsame⟩ := hreads.cons write
    obtain ⟨reads2, hreads2, hrest⟩ := ih hreads1
    refine ⟨reads2, hreads2, fun later => ?_⟩
    rw [hsame, proxy_byte (proxyByte_plain (hw b) hb), hrest]
    simp
  | @escaped b bytes text hq hq' _ ih =>
    obtain ⟨reads1, hreads1, hsame⟩ := hreads.cons write
    obtain ⟨reads2, hreads2, hsame'⟩ := hreads1.cons write
    obtain ⟨reads3, hreads3, hrest⟩ := ih hreads2
    refine ⟨reads3, hreads3, fun later => ?_⟩
    rw [hsame, proxy_byte proxyByte_escape, hsame',
      proxy_byte (proxyByte_escaped (hw b) hq hq'), hrest]
    simp

/-- A doubled text is typed outside of an escape, and stands for the text. -/
theorem typed_doubled (text : List UInt8) : Typed (doubled text) text := by
  induction text with
  | nil => exact .nil
  | cons b text ih =>
    rw [doubled, List.flatMap_cons]
    split
    · rename_i hb
      subst hb
      exact .escaped (by decide) (by decide) ih
    · rename_i hb
      exact .plain hb ih

/-- What is typed stands for all of its bytes but the escapes. -/
theorem Typed.nothing_lost (h : Typed bytes text) :
    text.Sublist bytes ∧
      text.filter (· ≠ consoleEscape) = bytes.filter (· ≠ consoleEscape) := by
  induction h with
  | nil => exact ⟨.refl [], rfl⟩
  | plain hb _ ih =>
    exact ⟨ih.1.cons_cons _, by simp only [List.filter_cons, ih.2]⟩
  | @escaped b bytes text _ _ _ ih =>
    refine ⟨(ih.1.cons_cons _).cons _, ?_⟩
    have hescape : (consoleEscape :: b :: bytes).filter (· ≠ consoleEscape) =
        (b :: bytes).filter (· ≠ consoleEscape) := by simp
    rw [hescape, List.filter_cons, List.filter_cons, ih.2]

end Loop

/-- A text whose escapes are doubled is forwarded as it is, and the loop goes on; and where an escape
that is not itself escaped comes before q or Q, the loop returns with everything typed before it
forwarded, less the escapes, and nothing after. -/
theorem proxyConsoleInput_exact (write : UInt8 → Option String) (hw : ∀ b, write b = none) :
    (∀ text reads, Brings reads (doubled text) →
      proxyConsoleInput write false reads = (text, .waiting false)) ∧
    ∀ bytes text q err reads later, Typed bytes text → (q = consoleQuit ∨ q = consoleQuitUpper) →
      Brings reads (bytes ++ [consoleEscape]) →
      proxyConsoleInput write false (reads ++ { byte := some q, err } :: later) =
          (text, .returned none) ∧
        text.Sublist bytes ∧
        text.filter (· ≠ consoleEscape) = bytes.filter (· ≠ consoleEscape) := by
  refine ⟨fun text reads hreads => ?_, fun bytes text q err reads later htyped hq hreads => ?_⟩
  · have hdoubled : Brings reads (doubled text ++ []) := by simpa using hreads
    obtain ⟨reads', hreads', hsame⟩ := (typed_doubled text).forwarded hw hdoubled
    have hend : proxyConsoleInput write false (reads' ++ []) = ([], .waiting false) :=
      hreads'.proxy_nil false
    have hall := hsame []
    rw [hend, List.append_nil] at hall
    simpa using hall
  · refine ⟨?_, htyped.nothing_lost⟩
    obtain ⟨reads1, hreads1, hsame⟩ := htyped.forwarded hw hreads
    obtain ⟨reads2, hreads2, hsame'⟩ := hreads1.cons write
    rw [hsame, hsame', proxy_byte proxyByte_escape, hreads2.proxy_nil true]
    simp [proxyConsoleInput, proxyByte_quit hq]

/-- Ctrl+A twice, an x and Ctrl+A Q, where every write succeeds. -/
theorem proxyConsoleInput_exact_quit :
    proxyConsoleInput (fun _ => none) false
      [{ byte := some 1 }, {}, { byte := some 1 }, { byte := some 0x78 }, { byte := some 1 },
        { byte := some 0x51 }, { byte := some 0x79 }] = ([1, 0x78], .returned none) :=
  ((proxyConsoleInput_exact (fun _ => none) fun _ => rfl).2 [1, 1, 0x78] [1, 0x78] 0x51 none
    [{ byte := some 1 }, {}, { byte := some 1 }, { byte := some 0x78 }, { byte := some 1 }]
    [{ byte := some 0x79 }]
    (.escaped (by decide) (by decide) (.plain (by decide) .nil)) (.inr rfl)
    (.byte (.empty (.byte (.byte (.byte .nil)))))).1

end Maco.VM
