import Workflow.Proofs.Grammar
import Workflow.Proofs.Rounding

/-!
Reading strings and numbers. Every character of a string comes back from its escapes, those beyond
the basic plane from their two units, and every number from its digits: a whole number exactly, any
other as the binary value that is nearest to the decimal, which is the value that was written. Only
the payloads of what is not a number are not written.
-/

namespace Workflow

open Grammar (Digits Whole Fraction Power Shows)

/-- Which number is written: one that is none has no payload. -/
def Number.plain : Number → Number
  | .float (.nan _) => .float (.nan 0)
  | n => n

namespace Reader

section Strings

def hexDigit? (c : Char) : Option Nat :=
  if c.isDigit then some (c.toNat - 48)
  else if 'a' ≤ c ∧ c ≤ 'f' then some (c.toNat - 87)
  else if 'A' ≤ c ∧ c ≤ 'F' then some (c.toNat - 55)
  else none

def hexValue? (digits : List Char) : Option Nat :=
  digits.foldlM (fun n c => (hexDigit? c).map (16 * n + ·)) 0

/-- The character that a letter after a backslash stands for. -/
def escaped? (c : Char) : Option Char :=
  [('"', '"'), ('\\', '\\'), ('/', '/'), ('b', '\x08'), ('f', '\x0c'), ('n', '\n'), ('r', '\r'),
    ('t', '\t')].lookup c

/-- Reads up to the closing quote. An escape in hexadecimal digits is one UTF-16 unit, any other
character its code point. -/
def readUnits : List Char → Option (List Nat × List Char)
  | '"' :: rest => some ([], rest)
  | '\\' :: 'u' :: a :: b :: c :: d :: rest => do
    let unit ← hexValue? [a, b, c, d]
    let (units, rest) ← readUnits rest
    return (unit :: units, rest)
  | '\\' :: c :: rest => do
    let c ← escaped? c
    let (units, rest) ← readUnits rest
    return (c.toNat :: units, rest)
  | c :: rest =>
    if c.toNat < 0x20 then none
    else do
      let (units, rest) ← readUnits rest
      return (c.toNat :: units, rest)
  | [] => none

def charOf? (n : Nat) : Option Char := if n.isValidChar then some (Char.ofNat n) else none

/-- Joins the surrogates of a pair. One without the other is no character. -/
def decode : List Nat → Option (List Char)
  | high :: low :: units =>
    if 0xd800 ≤ high ∧ high < 0xdc00 ∧ 0xdc00 ≤ low ∧ low < 0xe000 then do
      let c ← charOf? (0x10000 + (high - 0xd800) * 0x400 + (low - 0xdc00))
      return c :: (← decode units)
    else do
      let c ← charOf? high
      return c :: (← decode (low :: units))
  | [unit] => (charOf? unit).map ([·])
  | [] => some []

def readString (cs : List Char) : Option (String × List Char) := do
  let (units, rest) ← readUnits cs
  let chars ← decode units
  return (String.ofList chars, rest)

theorem hexValue?_hex (width n : Nat) : hexValue? (Text.hex width n) = some (n % 16 ^ width) := by
  induction width generalizing n with
  | zero => simp [Text.hex, hexValue?, Nat.mod_one]
  | succ width ih =>
    have digit : ∀ n < 16, hexDigit? n.digitChar = some n := by decide
    have front := ih (n / 16)
    unfold hexValue? at front ⊢
    rw [Text.hex, List.foldlM_append, front, Nat.pow_succ', Nat.mod_mul]
    simp [digit (n % 16) (Nat.mod_lt n (by decide)), Nat.add_comm]

/-- The UTF-16 units of a character. -/
def unitsOf (c : Char) : List Nat :=
  if c.toNat < 0x10000 then [c.toNat]
  else [0xd800 + (c.toNat - 0x10000) / 0x400, 0xdc00 + (c.toNat - 0x10000) % 0x400]

variable {rest left : List Char} {units : List Nat}

theorem readUnits_unitEscape {unit : Nat} (basic : unit < 16 ^ 4)
    (read : readUnits rest = some (units, left)) :
    readUnits (Json.unitEscape unit ++ rest) = some (unit :: units, left) := by
  obtain ⟨a, b, c, d, digits⟩ := List.length_eq_four.mp (Grammar.hex_spec 4 unit).1
  have value := hexValue?_hex 4 unit
  rw [Nat.mod_eq_of_lt basic, digits] at value
  rw [Json.unitEscape, digits]
  change (hexValue? [a, b, c, d]).bind _ = _
  rw [value, Option.bind_some]
  change (readUnits rest).bind _ = _
  rw [read]
  rfl

theorem readUnits_plain {c : Char} (printable : 0x20 ≤ c.toNat) (quote : c ≠ '"')
    (backslash : c ≠ '\\') (read : readUnits rest = some (units, left)) :
    readUnits (c :: rest) = some (c.toNat :: units, left) := by
  rw [readUnits.eq_4 c rest quote (fun _ _ _ _ _ same _ => backslash same)
    (fun _ _ same _ => backslash same), if_neg (Nat.not_lt.mpr printable), read]
  rfl

theorem readUnits_letter {c letter : Char} (member : (c, letter) ∈ Grammar.letters)
    (read : readUnits rest = some (units, left)) :
    readUnits ('\\' :: letter :: rest) = some (c.toNat :: units, left) := by
  have known : ∀ pair ∈ Grammar.letters, escaped? pair.2 = some pair.1 ∧ pair.2 ≠ 'u' := by decide
  obtain ⟨stands, other⟩ := known _ member
  rw [readUnits.eq_3 letter rest fun _ _ _ _ _ same _ => other same, stands, read]
  rfl

theorem readUnits_escape (c : Char) (read : readUnits rest = some (units, left)) :
    readUnits (Json.escape c ++ rest) = some (unitsOf c ++ units, left) := by
  have range : c.toNat < 0xd800 ∨ 0xdfff < c.toNat ∧ c.toNat < 0x110000 := c.valid
  have escaped := Grammar.escaped_escape c
  generalize Json.escape c = cs at escaped
  unfold unitsOf
  cases escaped with
  | letter member =>
    have known : ∀ pair ∈ Grammar.letters, pair.1.toNat < 0x10000 := by decide
    rw [if_pos (known _ member)]
    exact readUnits_letter member read
  | plain printable basic quote backslash =>
    rw [if_pos basic]
    exact readUnits_plain printable quote backslash read
  | unit basic =>
    rw [if_pos basic]
    exact readUnits_unitEscape basic read
  | pair beyond =>
    rw [if_neg (by omega), List.append_assoc]
    exact readUnits_unitEscape (by omega) (readUnits_unitEscape (by omega) read)

theorem readUnits_body (cs rest : List Char) :
    readUnits (cs.flatMap Json.escape ++ '"' :: rest) = some (cs.flatMap unitsOf, rest) := by
  induction cs with
  | nil => rfl
  | cons c cs ih =>
    rw [List.flatMap_cons, List.append_assoc, List.flatMap_cons]
    exact readUnits_escape c ih

theorem charOf?_toNat (c : Char) : charOf? c.toNat = some c := by
  have valid : c.toNat.isValidChar := c.valid
  rw [charOf?, if_pos valid, Char.ofNat_toNat]

theorem decode_unitsOf (c : Char) (units : List Nat) :
    decode (unitsOf c ++ units) = (decode units).map (c :: ·) := by
  have range : c.toNat < 0xd800 ∨ 0xdfff < c.toNat ∧ c.toNat < 0x110000 := c.valid
  unfold unitsOf
  split
  case isTrue basic =>
    cases units with
    | nil => simp [decode, charOf?_toNat]
    | cons low units =>
      rw [List.singleton_append, decode, if_neg (by omega), charOf?_toNat]
      cases decode (low :: units) <;> rfl
  case isFalse beyond =>
    have joined : 0x10000 + (0xd800 + (c.toNat - 0x10000) / 0x400 - 0xd800) * 0x400 +
        (0xdc00 + (c.toNat - 0x10000) % 0x400 - 0xdc00) = c.toNat := by omega
    rw [List.cons_append, List.singleton_append, decode, if_pos (by omega), joined, charOf?_toNat]
    cases decode units <;> rfl

theorem decode_flatMap (cs : List Char) : decode (cs.flatMap unitsOf) = some cs := by
  induction cs with
  | nil => rfl
  | cons c cs ih => rw [List.flatMap_cons, decode_unitsOf, ih, Option.map_some]

theorem readString_writeString (s : String) (rest : List Char) :
    readString (s.toList.flatMap Json.escape ++ '"' :: rest) = some (s, rest) := by
  simp [readString, readUnits_body, decode_flatMap]

end Strings

section Atoms

/-- Words and numbers reach as far as these characters. -/
def isAtomic (c : Char) : Bool := c.isAlphanum || c ∈ ['+', '-', '.']

/-- A number is whole unless it has a fraction or a power of ten. -/
def unsigned? (negative : Bool) (token : List Char) : Option Number :=
  let whole := token.takeWhile Char.isDigit
  let rest := token.dropWhile Char.isDigit
  if whole = [] ∨ whole.head? = some '0' ∧ whole ≠ ['0'] then none
  else if rest = [] then
    let n : Int := Nat.ofDigitChars 10 whole 0
    some (.int (if negative then -n else n))
  else if rest.head? = some '.' ∧ rest.tail.takeWhile Char.isDigit = [] then none
  else (Decimal.parse? token).map fun d => .float (d.toBinary64 negative)

def number? : List Char → Option Number
  | '-' :: token => unsigned? true token
  | token => unsigned? false token

def words : List (String × Json) :=
  [("null", .null), ("true", .bool true), ("false", .bool false),
    ("NaN", .number (.float (.nan 0))), ("Infinity", .number (.float (.infinite false))),
    ("-Infinity", .number (.float (.infinite true)))]

def atom? (token : List Char) : Option Json :=
  ((number? token).map .number).or (words.lookup (String.ofList token))

variable {p : Char → Bool} {front rest : List Char}

/-- The front of a text, all of which satisfies what the rest does not start with. -/
theorem takeWhile_append (all : ∀ c ∈ front, p c = true)
    (ends : ∀ c ∈ rest.head?, p c = false) : (front ++ rest).takeWhile p = front := by
  rw [List.takeWhile_append_of_pos all]
  cases rest with
  | nil => simp
  | cons c rest => simp [ends c rfl]

theorem dropWhile_append (all : ∀ c ∈ front, p c = true)
    (ends : ∀ c ∈ rest.head?, p c = false) : (front ++ rest).dropWhile p = rest := by
  rw [List.dropWhile_append_of_pos all]
  cases rest with
  | nil => rfl
  | cons c rest => simp [ends c rfl]

theorem digits_of_whole {whole : List Char} (numeral : Whole whole) : Digits whole := by
  cases numeral with
  | zero => exact Grammar.digits_zeros 1
  | leading digit _ digits => exact List.forall_mem_cons.mpr ⟨digit, digits⟩

theorem head_power {power : List Char} (numeral : Power power) :
    ∀ c ∈ power.head?, c.isDigit = false ∧ c ≠ '.' := by
  cases numeral with
  | none => simp
  | digits mark =>
    intro c head
    cases head
    simp only [List.mem_cons, List.not_mem_nil, or_false] at mark
    rcases mark with rfl | rfl <;> decide

theorem head_fraction_append {fraction power : List Char} (numeral : Fraction fraction)
    (more : Power power) : ∀ c ∈ (fraction ++ power).head?, c.isDigit = false := by
  cases numeral with
  | none => exact fun c head => (head_power more c head).1
  | digits =>
    intro c head
    cases head
    decide

variable {whole fraction power : List Char}

theorem parse?_of_parts (numeral : Whole whole) (part : Fraction fraction)
    (more : Power power) {exponent : Int}
    (shown : Decimal.exponent? power = some exponent) :
    Decimal.parse? (whole ++ fraction ++ power) =
      some ⟨Nat.ofDigitChars 10 (whole ++ fraction.tail) 0, exponent - fraction.tail.length⟩ := by
  have ends := head_fraction_append part more
  have digits := digits_of_whole numeral
  have start : whole ≠ [] := by cases numeral <;> simp
  rw [Decimal.parse?, List.append_assoc, takeWhile_append digits ends, dropWhile_append digits ends]
  cases part with
  | none =>
    have point : power.head? ≠ some '.' := fun head => (head_power more _ head).2 rfl
    simp [point, shown, start]
  | digits _ digits =>
    have ends : ∀ c ∈ power.head?, c.isDigit = false := fun c head => (head_power more c head).1
    simp [takeWhile_append digits ends, dropWhile_append digits ends, shown, start]

theorem unsigned?_of_parts (negative : Bool) (numeral : Whole whole) (part : Fraction fraction)
    (more : Power power) :
    unsigned? negative (whole ++ fraction ++ power) =
      if fraction ++ power = [] then
        some (.int (if negative then -Nat.ofDigitChars 10 whole 0 else Nat.ofDigitChars 10 whole 0))
      else (Decimal.parse? (whole ++ fraction ++ power)).map fun d =>
        .float (d.toBinary64 negative) := by
  have ends := head_fraction_append part more
  have digits := digits_of_whole numeral
  have leading : ¬ (whole = [] ∨ whole.head? = some '0' ∧ whole ≠ ['0']) := by
    cases numeral with
    | zero => simp
    | leading _ other => simp [other]
  have pointed : ¬ ((fraction ++ power).head? = some '.' ∧
      (fraction ++ power).tail.takeWhile Char.isDigit = []) := by
    cases part with
    | none => exact fun point => (head_power more _ point.1).2 rfl
    | digits some digits =>
      have ends : ∀ c ∈ power.head?, c.isDigit = false := fun c head => (head_power more c head).1
      simp [takeWhile_append digits ends, some]
  rw [unsigned?, List.append_assoc, takeWhile_append digits ends, dropWhile_append digits ends,
    if_neg leading, if_neg pointed]

theorem number?_of_whole (negative : Bool) (numeral : Whole whole) (rest : List Char) :
    number? ((if negative then ['-'] else []) ++ (whole ++ rest)) =
      unsigned? negative (whole ++ rest) := by
  cases negative with
  | true => rfl
  | false =>
    cases numeral with
    | zero => rfl
    | leading digit =>
      rw [if_neg Bool.false_ne_true, List.nil_append, List.cons_append, number?]
      intro _ same
      obtain ⟨rfl, -⟩ := List.cons.inj same
      cases digit

theorem number?_int (n : Int) : number? ((Number.int n).text Json.numberWords) = some (.int n) := by
  have sign : (if n < 0 then ['-'] else []) = if decide (n < 0) then ['-'] else [] := by simp
  have whole := Grammar.whole_toDigits n.natAbs
  have read := unsigned?_of_parts (decide (n < 0)) whole .none .none
  rw [if_pos (List.append_nil []), List.append_assoc, ← number?_of_whole _ whole,
    Nat.ofDigitChars_ten_toDigits, List.append_nil, List.append_nil] at read
  simp only [Number.text, sign, read, decide_eq_true_eq]
  congr 2
  split <;> omega

/-- A text is read as the digits that it shows. -/
theorem number?_of_shows (negative : Bool) {ds cs : List Char} {point : Int}
    (shown : Shows ds point cs) :
    number? ((if negative then ['-'] else []) ++ cs) =
      some (.float ((Decimal.mk (Nat.ofDigitChars 10 ds 0)
        (point - ds.length)).toBinary64 negative)) := by
  obtain @⟨front, back, whole, fraction, power, exponent, numeral, part, more, some, read, digits,
    place⟩ := shown
  have value : Decimal.mk (Nat.ofDigitChars 10 (whole ++ fraction.tail) 0)
      (exponent - fraction.tail.length) =
        (Decimal.mk (Nat.ofDigitChars 10 ds 0) (point - ds.length)).shift back := by
    have exponent : exponent - fraction.tail.length = point - ds.length - back := by omega
    rw [digits, exponent, Nat.ofDigitChars_append, Nat.ofDigitChars_replicate_zero,
      Nat.ofDigitChars_append, Nat.ofDigitChars_replicate_zero, Nat.mul_zero, Nat.mul_comm,
      Decimal.shift]
  rw [List.append_assoc, number?_of_whole negative numeral, ← List.append_assoc,
    unsigned?_of_parts negative numeral part more, if_neg some,
    parse?_of_parts numeral part more read, Option.map_some, value, Decimal.toBinary64_shift]

/-- The digits of a decimal are its significant ones and zeros. -/
theorem toDigits_eq_significant (d : Decimal) :
    ∃ zeros, Nat.toDigits 10 d.digits = d.significant ++ List.replicate zeros '0' := by
  refine ⟨((Nat.toDigits 10 d.digits).reverse.takeWhile (· == '0')).length, ?_⟩
  have zeros := List.eq_replicate_of_mem (a := '0')
    (l := (Nat.toDigits 10 d.digits).reverse.takeWhile (· == '0'))
    fun c member => eq_of_beq (List.mem_takeWhile_imp (p := (· == '0')) member)
  rw [Decimal.significant, ← List.reverse_replicate, ← zeros, ← List.reverse_append,
    List.takeWhile_append_dropWhile, List.reverse_reverse]

theorem number?_decimal (negative : Bool) (d : Decimal) :
    number? ((if negative then ['-'] else []) ++ d.text) =
      some (.float (d.toBinary64 negative)) := by
  rcases Nat.eq_zero_or_pos d.digits with zero | positive
  · rw [number?_of_shows negative (Grammar.shows_zero zero)]
    simp [Decimal.toBinary64, zero, Nat.ofDigitChars]
  · obtain ⟨zeros, digits⟩ := toDigits_eq_significant d
    have same : d = (Decimal.mk (Nat.ofDigitChars 10 d.significant 0)
        (d.point - d.significant.length)).shift zeros := by
      have value : d.digits = Nat.ofDigitChars 10 d.significant 0 * 10 ^ zeros := by
        rw [← Nat.ofDigitChars_ten_toDigits (n := d.digits), digits, Nat.ofDigitChars_append,
          Nat.ofDigitChars_replicate_zero, Nat.mul_comm]
      have exponent : d.exponent = d.point - d.significant.length - zeros := by
        rw [Decimal.point, digits, List.length_append, List.length_replicate]
        omega
      rw [Decimal.shift, ← value, ← exponent]
    rw [number?_of_shows negative (Grammar.shows_text positive),
      ← Decimal.toBinary64_shift negative _ zeros, ← same]

theorem atom?_number (n : Number) :
    atom? (n.text Json.numberWords) = some (.number n.plain) := by
  cases n with
  | int n => rw [atom?, number?_int]; rfl
  | float x =>
    cases x with
    | finite negative rank =>
      rw [atom?, Number.text, Binary64.text, number?_decimal, Decimal.toBinary64_shortest]
      rfl
    | infinite negative => cases negative <;> rfl
    | nan payload => rfl

theorem isAtomic_text (n : Number) : ∀ c ∈ n.text Json.numberWords, isAtomic c = true := by
  cases finite : n.isFinite with
  | true =>
    intro c member
    rcases (Grammar.numeral_text finite _).chars c member with digit | sign
    · simp [isAtomic, Char.isAlphanum, digit]
    · have known : ['-', '+', '.', 'e', 'E'].all isAtomic = true := by decide
      exact List.all_eq_true.mp known c sign
  | false =>
    cases n with
    | int n => cases finite
    | float x =>
      cases x with
      | finite negative rank => cases finite
      | infinite negative => cases negative <;> exact List.all_eq_true.mp (by decide)
      | nan payload =>
        have known : ['N', 'a', 'N'].all isAtomic = true := by decide
        exact List.all_eq_true.mp known

end Atoms

end Reader
end Workflow
