import Mathlib.Computability.RegularExpressions

/-! A part of YAML 1.1: block mappings and block sequences of plain scalars without blanks, and the
empty flow mapping.  Plain scalars are typed by patterns, as the default resolver of PyYAML does; a
text outside of this part is not read. -/

namespace Yaml

open RegularExpression

/-! ### Patterns -/

abbrev Pattern := RegularExpression Char

/-- One of the characters. -/
def oneOf (cs : String) : Pattern := cs.toList.foldr (fun c P => char c + P) 0

/-- The text itself. -/
def word (s : String) : Pattern := s.toList.foldr (fun c P => char c * P) 1

def opt (P : Pattern) : Pattern := 1 + P

/-- At least once. -/
def many (P : Pattern) : Pattern := P * P.star

/-- One of the texts. -/
def anyOf (ss : List String) : Pattern := ss.foldr (fun s P => word s + P) 0

/-- Some character of every match is `c`. -/
def requires (c : Char) : Pattern → Bool
  | .zero => true
  | .epsilon => false
  | .char a => a = c
  | .plus P Q => requires c P && requires c Q
  | .comp P Q => requires c P || requires c Q
  | .star _ => false

/-- A match can have the character `c`. -/
def mentions (c : Char) : Pattern → Bool
  | .zero | .epsilon => false
  | .char a => a = c
  | .plus P Q | .comp P Q => mentions c P || mentions c Q
  | .star P => mentions c P

section Patterns

variable {c : Char} {P : Pattern} {x : List Char}

theorem mem_of_requires (h : requires c P = true) (hx : x ∈ P.matches') : c ∈ x := by
  induction P generalizing x with
  | zero => cases hx
  | epsilon => cases h
  | char a =>
    obtain rfl : x = [a] := hx
    obtain rfl : a = c := by simpa [requires] using h
    exact List.mem_singleton_self a
  | plus P Q ihP ihQ =>
    rw [requires, Bool.and_eq_true] at h
    obtain hx | hx := (Language.mem_add _ _ _).mp hx
    · exact ihP h.1 hx
    · exact ihQ h.2 hx
  | comp P Q ihP ihQ =>
    rw [requires, Bool.or_eq_true] at h
    obtain ⟨a, ha, b, hb, rfl⟩ := Language.mem_mul.mp hx
    obtain h | h := h
    · exact List.mem_append_left b (ihP h ha)
    · exact List.mem_append_right a (ihQ h hb)
  | star P => cases h

theorem mentions_of_mem (hx : x ∈ P.matches') (hc : c ∈ x) : mentions c P = true := by
  induction P generalizing x with
  | zero => cases hx
  | epsilon =>
    obtain rfl : x = [] := hx
    cases hc
  | char a =>
    obtain rfl : x = [a] := hx
    obtain rfl := List.mem_singleton.mp hc
    simp [mentions]
  | plus P Q ihP ihQ =>
    rw [mentions, Bool.or_eq_true]
    exact ((Language.mem_add _ _ _).mp hx).imp (fun hx => ihP hx hc) fun hx => ihQ hx hc
  | comp P Q ihP ihQ =>
    rw [mentions, Bool.or_eq_true]
    obtain ⟨a, ha, b, hb, rfl⟩ := Language.mem_mul.mp hx
    exact (List.mem_append.mp hc).imp (ihP ha) (ihQ hb)
  | star P ihP =>
    obtain ⟨l, rfl, hl⟩ := Language.mem_kstar.mp hx
    obtain ⟨y, hy, hcy⟩ := List.mem_flatten.mp hc
    exact ihP (hl y hy) hcy

/-- A text with a character that the pattern does not mention is no match. -/
theorem rmatch_of_mem (hc : c ∈ x) (h : mentions c P = false) : P.rmatch x = false := by
  rw [← Bool.not_eq_true, rmatch_iff_matches']
  intro hx
  rw [mentions_of_mem hx hc] at h
  cases h

/-- A text without a character that the pattern requires is no match. -/
theorem rmatch_of_not_mem (hc : c ∉ x) (h : requires c P = true) : P.rmatch x = false := by
  rw [← Bool.not_eq_true, rmatch_iff_matches']
  exact fun hx => hc (mem_of_requires h hx)

theorem mem_oneOf {cs : String} : x ∈ (oneOf cs).matches' ↔ ∃ c ∈ cs.toList, x = [c] := by
  unfold oneOf
  induction cs.toList with
  | nil =>
    constructor
    · intro h
      cases h
    · rintro ⟨c, hc, -⟩
      cases hc
  | cons a l ih =>
    rw [List.foldr_cons, matches'_add, Language.mem_add, ih]
    constructor
    · rintro (rfl | ⟨c, hc, rfl⟩)
      · exact ⟨a, List.mem_cons_self, rfl⟩
      · exact ⟨c, List.mem_cons_of_mem a hc, rfl⟩
    · rintro ⟨c, hc, rfl⟩
      obtain rfl | hc := List.mem_cons.mp hc
      · exact .inl rfl
      · exact .inr ⟨c, hc, rfl⟩

theorem mem_opt : x ∈ (opt P).matches' ↔ x = [] ∨ x ∈ P.matches' := Iff.rfl

end Patterns

/-! ### The types of plain scalars -/

inductive Tag where
  | str
  | bool
  | float
  | int
  | merge
  | null
  | timestamp
  | value
  deriving DecidableEq, Repr

def digit : Pattern := oneOf "0123456789"

/-- A digit or an underscore. -/
def digit_ : Pattern := oneOf "0123456789_"

def sign : Pattern := opt (oneOf "-+")

def nonzero : Pattern := oneOf "123456789"

/-- `:[0-5]?[0-9]`. -/
def sixtieth : Pattern := char ':' * (opt (oneOf "012345") * digit)

def boolean : Pattern :=
  anyOf ["yes", "Yes", "YES", "no", "No", "NO", "true", "True", "TRUE", "false", "False", "FALSE",
    "on", "On", "ON", "off", "Off", "OFF"]

/-- `[eE][-+][0-9]+`. -/
def exponent : Pattern := oneOf "eE" * (oneOf "-+" * many digit)

def float60 : Pattern :=
  sign * (digit * (digit_.star * (many sixtieth * (char '.' * digit_.star))))

def float : Pattern :=
  sign * (digit * (digit_.star * (char '.' * (digit_.star * opt exponent)))) +
  (char '.' * (digit * (digit_.star * opt exponent)) +
  (float60 +
  (sign * (char '.' * anyOf ["inf", "Inf", "INF"]) +
  char '.' * anyOf ["nan", "NaN", "NAN"])))

/-- An integer in base 60. -/
def int60 : Pattern := sign * (nonzero * (digit_.star * many sixtieth))

/-- An integer in another base. -/
def integer : Pattern :=
  sign * (word "0b" * many (oneOf "01_")) +
  (sign * (char '0' * many (oneOf "01234567_")) +
  (sign * (char '0' + nonzero * digit_.star) +
  sign * (word "0x" * many (oneOf "0123456789abcdefABCDEF_"))))

def null : Pattern := anyOf ["~", "null", "Null", "NULL", ""]

/-- `[0-9][0-9]?`. -/
def oneOrTwo : Pattern := digit * opt digit

def blank : Pattern := oneOf " \t"

def zone : Pattern :=
  blank.star * (char 'Z' + oneOf "-+" * (oneOrTwo * opt (char ':' * (digit * digit))))

def date : Pattern :=
  digit * (digit * (digit * (digit * (char '-' * (digit * (digit * (char '-' *
    (digit * digit))))))))

def dateTime : Pattern :=
  digit * (digit * (digit * (digit * (char '-' * (oneOrTwo * (char '-' * (oneOrTwo *
    ((oneOf "Tt" + many blank) * (oneOrTwo * (char ':' * (digit * (digit * (char ':' *
      (digit * (digit * (opt (char '.' * digit.star) * opt zone))))))))))))))))

/-- The type of a plain scalar: the first pattern that it matches decides. -/
def resolve (text : List Char) : Tag :=
  if boolean.rmatch text then .bool
  else if float.rmatch text then .float
  else if int60.rmatch text || integer.rmatch text then .int
  else if text = ['<', '<'] then .merge
  else if null.rmatch text then .null
  else if (date + dateTime).rmatch text then .timestamp
  else if text = ['='] then .value
  else .str

/-- A text with a character that no pattern mentions is a string. -/
theorem resolve_of_mem {c : Char} {text : List Char} (hc : c ∈ text)
    (h : (mentions c boolean || mentions c float || mentions c int60 || mentions c integer ||
      mentions c null || mentions c (date + dateTime) || c = '<' || c = '=') = false) :
    resolve text = .str := by
  simp only [Bool.or_eq_false_iff, decide_eq_false_iff_not] at h
  obtain ⟨⟨⟨⟨⟨⟨⟨hbool, hfloat⟩, hint60⟩, hint⟩, hnull⟩, hdate⟩, hmerge⟩, hvalue⟩ := h
  have hne : ∀ d : Char, ¬(c = d) → text ≠ [d] ∧ text ≠ [d, d] := by
    intro d hd
    refine ⟨?_, ?_⟩
    · rintro rfl
      simp [hd] at hc
    · rintro rfl
      simp [hd] at hc
  rw [resolve, rmatch_of_mem hc hbool, rmatch_of_mem hc hfloat, rmatch_of_mem hc hint60,
    rmatch_of_mem hc hint, rmatch_of_mem hc hnull, rmatch_of_mem hc hdate]
  simp [(hne '<' hmerge).2, (hne '=' hvalue).1]

/-- No match by a character of the text that the pattern does not mention, or by one that it
requires. -/
def excluded (P : Pattern) (text : List Char) : Bool :=
  text.any (fun c => !mentions c P) || (decide ('-' ∉ text) && requires '-' P) ||
    decide ('.' ∉ text) && requires '.' P

theorem rmatch_of_excluded {P : Pattern} {text : List Char} (h : excluded P text = true) :
    P.rmatch text = false := by
  simp only [excluded, Bool.or_eq_true, Bool.and_eq_true, List.any_eq_true, decide_eq_true_eq,
    Bool.not_eq_true'] at h
  obtain (⟨c, hc, hmentions⟩ | ⟨hc, hrequires⟩) | ⟨hc, hrequires⟩ := h
  · exact rmatch_of_mem hc hmentions
  · exact rmatch_of_not_mem hc hrequires
  · exact rmatch_of_not_mem hc hrequires

/-- No pattern matches the text. -/
def untyped (text : List Char) : Bool :=
  excluded boolean text && excluded float text && excluded int60 text && excluded integer text &&
    excluded null text && excluded (date + dateTime) text && decide (text ≠ ['<', '<']) &&
    decide (text ≠ ['='])

theorem resolve_of_untyped {text : List Char} (h : untyped text = true) : resolve text = .str := by
  simp only [untyped, Bool.and_eq_true, decide_eq_true_eq] at h
  obtain ⟨⟨⟨⟨⟨⟨⟨hbool, hfloat⟩, hint60⟩, hint⟩, hnull⟩, hdate⟩, hmerge⟩, hvalue⟩ := h
  rw [resolve, rmatch_of_excluded hbool, rmatch_of_excluded hfloat, rmatch_of_excluded hint60,
    rmatch_of_excluded hint, rmatch_of_excluded hnull, rmatch_of_excluded hdate]
  simp [hmerge, hvalue]

/-! ### Numbers in base 60 -/

section Base60

/-- A colon comes next, or the end. -/
def Colon (x : List Char) : Prop := x.head?.all (· = ':') = true

theorem takeWhile_colon {a r : List Char} (ha : ':' ∉ a) (hr : Colon r) :
    (a ++ r).takeWhile (· ≠ ':') = a := by
  have hplain : ∀ c ∈ a, decide (c ≠ ':') = true := fun c hc =>
    decide_eq_true fun heq => ha (heq ▸ hc)
  rw [List.takeWhile_append_of_pos hplain]
  cases r with
  | nil => simp
  | cons c r =>
    obtain rfl : c = ':' := by simpa [Colon] using hr
    simp

theorem dropWhile_colon {a r : List Char} (ha : ':' ∉ a) (hr : Colon r) :
    (a ++ r).dropWhile (· ≠ ':') = r := by
  have h := List.takeWhile_append_dropWhile (p := (· ≠ ':')) (l := a ++ r)
  rw [takeWhile_colon ha hr] at h
  exact List.append_cancel_left h

theorem append_colon_inj {a b r t : List Char} (ha : ':' ∉ a) (hb : ':' ∉ b) (hr : Colon r)
    (ht : Colon t) (h : a ++ r = b ++ t) : a = b ∧ r = t := by
  have hab : a = b := by rw [← takeWhile_colon ha hr, h, takeWhile_colon hb ht]
  subst hab
  exact ⟨rfl, List.append_cancel_left h⟩

theorem mem_sixtieth {x : List Char} (h : x ∈ sixtieth.matches') :
    ∃ p, x = ':' :: p ∧ ':' ∉ p := by
  obtain ⟨a, rfl, p, hp, rfl⟩ := Language.mem_mul.mp h
  refine ⟨p, rfl, fun hmem => ?_⟩
  have hmentions := mentions_of_mem hp hmem
  revert hmentions
  decide +kernel

theorem colon_flatten {L : List (List Char)} (h : ∀ x ∈ L, x ∈ sixtieth.matches') :
    Colon L.flatten := by
  cases L with
  | nil => rfl
  | cons x L =>
    obtain ⟨p, rfl, -⟩ := mem_sixtieth (h x List.mem_cons_self)
    rfl

theorem colon_flatMap (ps : List (List Char)) : Colon (ps.flatMap (':' :: ·)) := by
  cases ps <;> rfl

/-- What stands between colons is matched part by part. -/
theorem mem_sixtieths {ps : List (List Char)} (hps : ∀ p ∈ ps, ':' ∉ p) :
    ps.flatMap (':' :: ·) ∈ sixtieth.star.matches' ↔ ∀ p ∈ ps, ':' :: p ∈ sixtieth.matches' := by
  rw [matches'_star, Language.mem_kstar]
  constructor
  · rintro ⟨L, hL, hmatch⟩
    induction ps generalizing L with
    | nil => exact fun p hp => absurd hp List.not_mem_nil
    | cons p ps ih =>
      cases L with
      | nil => cases hL
      | cons x L =>
        obtain ⟨q, rfl, hq⟩ := mem_sixtieth (hmatch x List.mem_cons_self)
        rw [List.flatMap_cons, List.flatten_cons, List.cons_append, List.cons_append] at hL
        obtain ⟨rfl, hrest⟩ := append_colon_inj (hps p List.mem_cons_self) hq (colon_flatMap ps)
          (colon_flatten fun x hx => hmatch x (List.mem_cons_of_mem _ hx)) (List.cons.inj hL).2
        have hall := ih (fun q hq => hps q (List.mem_cons_of_mem p hq)) L hrest
          fun x hx => hmatch x (List.mem_cons_of_mem _ hx)
        exact List.forall_mem_cons.mpr ⟨hmatch _ List.mem_cons_self, hall⟩
  · intro h
    refine ⟨ps.map (':' :: ·), List.flatMap_def, fun x hx => ?_⟩
    obtain ⟨p, hp, rfl⟩ := List.mem_map.mp hx
    exact h p hp

theorem mem_int60 {first : List Char} {ps : List (List Char)} (hfirst : ':' ∉ first)
    (hps : ∀ p ∈ ps, ':' ∉ p) (hne : ps ≠ []) :
    first ++ ps.flatMap (':' :: ·) ∈ int60.matches' ↔
      first ∈ (sign * (nonzero * digit_.star)).matches' ∧ ∀ p ∈ ps, ':' :: p ∈ sixtieth.matches' := by
  have hint : int60.matches' =
      (sign * (nonzero * digit_.star)).matches' * (sixtieth.matches' * sixtieth.star.matches') := by
    simp only [int60, many, matches'_mul, mul_assoc]
  have hplain : ∀ x ∈ (sign * (nonzero * digit_.star)).matches', ':' ∉ x := fun x hx hmem => by
    have hmentions := mentions_of_mem hx hmem
    revert hmentions
    decide +kernel
  rw [hint, Language.mem_mul]
  constructor
  · rintro ⟨a, ha, b, hb, h⟩
    obtain ⟨y, hy, z, hz, rfl⟩ := Language.mem_mul.mp hb
    have hstar : y ++ z ∈ sixtieth.star.matches' := by
      obtain ⟨L, rfl, hL⟩ := Language.mem_kstar.mp hz
      exact Language.mem_kstar.mpr ⟨y :: L, rfl, List.forall_mem_cons.mpr ⟨hy, hL⟩⟩
    have hcolon : Colon (y ++ z) := by
      obtain ⟨p, rfl, -⟩ := mem_sixtieth hy
      rfl
    obtain ⟨rfl, hrest⟩ := append_colon_inj (hplain a ha) hfirst hcolon (colon_flatMap ps) h
    rw [hrest] at hstar
    exact ⟨ha, (mem_sixtieths hps).mp hstar⟩
  · rintro ⟨ha, h⟩
    refine ⟨first, ha, _, ?_, rfl⟩
    cases ps with
    | nil => exact absurd rfl hne
    | cons p ps =>
      rw [List.flatMap_cons]
      obtain ⟨hp, h⟩ := List.forall_mem_cons.mp h
      exact Language.mem_mul.mpr
        ⟨_, hp, _, (mem_sixtieths fun q hq => hps q (List.mem_cons_of_mem p hq)).mpr h, rfl⟩

end Base60

/-! ### Lines -/

/-- The lines of a text, each without its end. -/
def lines : List Char → List (List Char)
  | [] => []
  | c :: cs =>
    if c = '\n' then [] :: lines cs
    else
      match lines cs with
      | [] => [[c]]
      | l :: ls => (c :: l) :: ls

theorem lines_append {l : List Char} (h : '\n' ∉ l) (rest : List Char) :
    lines (l ++ '\n' :: rest) = l :: lines rest := by
  induction l with
  | nil => rfl
  | cons c l ih =>
    rw [List.mem_cons, not_or] at h
    rw [List.cons_append, lines, if_neg fun hc => h.1 hc.symm, ih h.2]

/-- The lines by their indentation: below a line stand those that are indented more. -/
inductive Forest where
  | nil
  | cons (indent : Nat) (text : List Char) (children rest : Forest)
  deriving DecidableEq, Repr

namespace Forest

/-- The trees in front that are indented more than `n`, and the others. -/
def split (n : Nat) : Forest → Forest × Forest
  | nil => (nil, nil)
  | cons k text children rest =>
    if n < k then (cons k text children (rest.split n).1, (rest.split n).2)
    else (nil, cons k text children rest)

/-- The trees of one forest before those of another. -/
def append (f g : Forest) : Forest :=
  match f with
  | nil => g
  | cons k text children rest => cons k text children (rest.append g)

/-- Every tree is indented more than `n`. -/
def Deeper (n : Nat) : Forest → Prop
  | nil => True
  | cons k _ _ rest => n < k ∧ rest.Deeper n

/-- The first tree is indented no more than `n`. -/
def Shallow (n : Nat) : Forest → Prop
  | nil => True
  | cons k _ _ _ => k ≤ n

theorem split_append {n : Nat} {f g : Forest} (hf : f.Deeper n) (hg : g.Shallow n) :
    (f.append g).split n = (f, g) := by
  induction f with
  | nil =>
    cases g with
    | nil => rfl
    | cons k text children rest => exact if_neg (Nat.not_lt.mpr hg)
  | cons k text children rest _ ih =>
    rw [append, split, if_pos hf.1, ih hf.2]

end Forest

/-- A line before the trees of the lines after it. -/
def plant (line : List Char) (f : Forest) : Forest :=
  let n := (line.takeWhile (· = ' ')).length
  .cons n (line.dropWhile (· = ' ')) (f.split n).1 (f.split n).2

def forest (ls : List (List Char)) : Forest := ls.foldr plant .nil

/-- A text after `n` blanks. -/
def indented (n : Nat) (text : List Char) : List Char := List.replicate n ' ' ++ text

/-- The text starts with a character that is no blank. -/
def starts (text : List Char) : Bool := text.head?.any (· ≠ ' ')

theorem starts_append {a : List Char} (h : starts a = true) (b : List Char) :
    starts (a ++ b) = true := by
  cases a with
  | nil => cases h
  | cons c a => exact h

theorem plant_indented {n : Nat} {text : List Char} {f g : Forest} (h : starts text = true)
    (hf : f.Deeper n) (hg : g.Shallow n) :
    plant (indented n text) (f.append g) = .cons n text f g := by
  cases text with
  | nil => cases h
  | cons c text =>
    have hc : c ≠ ' ' := by simpa [starts] using h
    have hblank : ∀ a ∈ List.replicate n ' ', decide (a = ' ') = true := fun a ha =>
      decide_eq_true (List.eq_of_mem_replicate ha)
    have htake : (indented n (c :: text)).takeWhile (· = ' ') = List.replicate n ' ' := by
      rw [indented, List.takeWhile_append_of_pos hblank, List.takeWhile_cons_of_neg (by simpa using hc),
        List.append_nil]
    have hdrop : (indented n (c :: text)).dropWhile (· = ' ') = c :: text := by
      rw [indented, List.dropWhile_append_of_pos hblank, List.dropWhile_cons_of_neg (by simpa using hc)]
    rw [plant, htake, hdrop, List.length_replicate]
    simp only [Forest.split_append hf hg]

theorem Forest.Shallow.mono {m n : Nat} {g : Forest} (h : g.Shallow m) (hmn : m ≤ n) :
    g.Shallow n := by
  cases g with
  | nil => exact trivial
  | cons k text children rest => exact Nat.le_trans h hmn

/-! ### Blocks -/

inductive Node where
  | scalar (tag : Tag) (text : String)
  | seq (items : List Node)
  | map (entries : List (String × Node))

/-- The value of a key of a mapping. -/
def Node.get (key : String) : Node → Option Node
  | .map entries => entries.lookup key
  | _ => none

inductive Line where
  | item (value : List Char)
  | entry (key : List Char) (value : Option (List Char))

/-- The text can stand as a plain scalar in a block: it has no blanks, it starts with no indicator,
and no colon ends it. -/
def isPlain (text : List Char) : Bool :=
  text.all (fun c => '!' ≤ c && c ≤ '~') &&
  match text with
  | [] => false
  | [c] => c ∉ "-?:,[]{}#&*!|>'\"%@".toList && c.toNat ≠ 0x60
  | c :: cs => c ∉ ",[]{}#&*!|>'\"%@".toList && c.toNat ≠ 0x60 && cs.getLast? ≠ some ':'

/-- The value of an entry or an item that stands on its line. -/
def value (text : List Char) : Option Node :=
  if text = ['{', '}'] then some (.map [])
  else if isPlain text then some (.scalar (resolve text) (.ofList text))
  else none

def readLine : List Char → Option Line
  | '-' :: ' ' :: text => some (.item text)
  | text =>
    let key := text.takeWhile (· ≠ ':')
    if isPlain key && resolve key = .str then
      match text.dropWhile (· ≠ ':') with
      | [':'] => some (.entry key none)
      | ':' :: ' ' :: text => some (.entry key (some text))
      | _ => none
    else none

/-- A block as far as it has been read. -/
inductive Block where
  | empty
  | items (l : List Node)
  | entries (l : List (String × Node))

def Block.node : Block → Node
  | .empty => .scalar .null ""
  | .items l => .seq l
  | .entries l => .map l

def Block.item (v : Node) : Block → Option Block
  | .empty => some (.items [v])
  | .items l => some (.items (v :: l))
  | .entries _ => none

def Block.entry (key : List Char) (v : Node) : Block → Option Block
  | .empty => some (.entries [(.ofList key, v)])
  | .items _ => none
  | .entries l => some (.entries ((.ofList key, v) :: l))

/-- One line with the block below it and the block of the lines after it. -/
def Block.add : Line → Block → Block → Option Block
  | .item text, .empty, after => (value text).bind fun v => after.item v
  | .entry key none, below, after => after.entry key below.node
  | .entry key (some text), .empty, after => (value text).bind fun v => after.entry key v
  | _, _, _ => none

/-- The trees stand at one indentation. -/
def aligned (n : Nat) : Forest → Bool
  | .nil => true
  | .cons k _ _ _ => k = n

def readBlock : Forest → Option Block
  | .nil => some .empty
  | .cons n text children rest =>
    if aligned n rest then
      match readLine text, readBlock children, readBlock rest with
      | some line, some below, some after => Block.add line below after
      | _, _, _ => none
    else none

/-- The text can stand as a key, and no pattern matches it. -/
def isKey (key : List Char) : Bool := isPlain key && decide (':' ∉ key) && untyped key

/-- The block of some items. -/
def Block.ofItems : List Node → Block
  | [] => .empty
  | v :: l => .items (v :: l)

/-- The block of some entries. -/
def Block.ofEntries : List (String × Node) → Block
  | [] => .empty
  | e :: l => .entries (e :: l)

section Reading

theorem Block.item_ofItems (v : Node) (l : List Node) :
    (ofItems l).item v = some (ofItems (v :: l)) := by
  cases l <;> rfl

theorem Block.entry_ofEntries (key : List Char) (v : Node) (l : List (String × Node)) :
    (ofEntries l).entry key v = some (ofEntries ((.ofList key, v) :: l)) := by
  cases l <;> rfl

variable {n : Nat} {key text : List Char} {children rest : Forest} {below : Block} {v : Node}
  {l : List (String × Node)}

theorem value_plain (h : isPlain text = true) :
    value text = some (.scalar (resolve text) (.ofList text)) := by
  have hne : text ≠ ['\x7b', '\x7d'] := by
    rintro rfl
    revert h
    decide +kernel
  rw [value, if_neg hne, if_pos h]

/-- The line of a key is no item. -/
theorem not_item (hkey : isPlain key = true) (rest text : List Char) :
    key ++ ':' :: rest ≠ '-' :: ' ' :: text := by
  intro h
  match key, hkey with
  | [], hkey => cases h
  | [c], hkey =>
    obtain rfl : c = '-' := (List.cons.inj h).1
    revert hkey
    decide +kernel
  | c :: d :: key, hkey =>
    obtain rfl : d = ' ' := (List.cons.inj (List.cons.inj h).2).1
    simp [isPlain] at hkey

theorem isKey_spec (h : isKey key = true) :
    isPlain key = true ∧ ':' ∉ key ∧ resolve key = .str := by
  simp only [isKey, Bool.and_eq_true, decide_eq_true_eq] at h
  exact ⟨h.1.1, h.1.2, resolve_of_untyped h.2⟩

theorem readLine_key (h : isKey key = true) :
    readLine (key ++ [':']) = some (.entry key none) := by
  obtain ⟨hkey, hcolon, hres⟩ := isKey_spec h
  have htake : (key ++ [':']).takeWhile (· ≠ ':') = key := takeWhile_colon hcolon rfl
  have hdrop : (key ++ [':']).dropWhile (· ≠ ':') = [':'] := dropWhile_colon hcolon rfl
  rw [readLine, htake, hdrop, hkey, hres]
  · rfl
  · exact not_item hkey []

theorem readLine_entry (h : isKey key = true) (text : List Char) :
    readLine (key ++ ':' :: ' ' :: text) = some (.entry key (some text)) := by
  obtain ⟨hkey, hcolon, hres⟩ := isKey_spec h
  have htake : (key ++ ':' :: ' ' :: text).takeWhile (· ≠ ':') = key := takeWhile_colon hcolon rfl
  have hdrop : (key ++ ':' :: ' ' :: text).dropWhile (· ≠ ':') = ':' :: ' ' :: text :=
    dropWhile_colon hcolon rfl
  rw [readLine, htake, hdrop, hkey, hres]
  · rfl
  · exact not_item hkey _

theorem readBlock_nil : readBlock .nil = some (.ofEntries []) := rfl

/-- A key whose value stands below it. -/
theorem readBlock_key (hkey : isKey key = true) (hbelow : readBlock children = some below)
    (halign : aligned n rest = true) (hafter : readBlock rest = some (.ofEntries l)) :
    readBlock (.cons n (key ++ [':']) children rest) =
      some (.ofEntries ((.ofList key, below.node) :: l)) := by
  rw [readBlock, if_pos halign, readLine_key hkey, hbelow, hafter]
  exact Block.entry_ofEntries key below.node l

/-- A key with its value on the line. -/
theorem readBlock_entry (hkey : isKey key = true) (hvalue : value text = some v)
    (halign : aligned n rest = true) (hafter : readBlock rest = some (.ofEntries l)) :
    readBlock (.cons n (key ++ ':' :: ' ' :: text) .nil rest) =
      some (.ofEntries ((.ofList key, v) :: l)) := by
  rw [readBlock, if_pos halign, readLine_entry hkey, hafter]
  show (value text).bind _ = _
  rw [hvalue]
  exact Block.entry_ofEntries key v l

theorem readBlock_item {items : List Node} (hvalue : value text = some v)
    (halign : aligned n rest = true) (hafter : readBlock rest = some (.ofItems items)) :
    readBlock (.cons n ('-' :: ' ' :: text) .nil rest) = some (.ofItems (v :: items)) := by
  rw [readBlock, if_pos halign, hafter]
  show (value text).bind _ = _
  rw [hvalue]
  exact Block.item_ofItems v items

end Reading

/-- The document that a text is, where it lies in this part of the language. -/
def parse (text : List Char) : Option Node := (readBlock (forest (lines text))).map Block.node

end Yaml
