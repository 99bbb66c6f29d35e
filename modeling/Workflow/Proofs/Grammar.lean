import Mathlib.Data.List.DropRight
import Workflow.Json.Printer

/-!
The grammar of JSON texts, and that what is written of a value is derived by it. Blanks may stand
next to every token that brackets or separates. A number that is written as a decimal has no zeros
that lead others, a digit at least on either side of its point, and an exponent if any; nothing but
decimals is a number, so that only values whose numbers are finite have a text.
-/

namespace Workflow

def Number.isFinite : Number → Bool
  | .int _ | .float (.finite _ _) => true
  | .float _ => false

mutual
/-- Whether all numbers in a value are finite. -/
def Json.isFinite : Json → Bool
  | .number n => n.isFinite
  | .array items => Json.areFinite items
  | .object fields => Json.haveFinite fields
  | .null | .bool _ | .string _ => true

def Json.areFinite : List Json → Bool
  | [] => true
  | item :: items => item.isFinite && Json.areFinite items

def Json.haveFinite : List (String × Json) → Bool
  | [] => true
  | (_, value) :: fields => value.isFinite && Json.haveFinite fields
end

namespace Grammar

def Blank (cs : List Char) : Prop := ∀ c ∈ cs, c ∈ [' ', '\t', '\n', '\r']

def Digits (cs : List Char) : Prop := ∀ c ∈ cs, c.isDigit = true

inductive Whole : List Char → Prop
  | zero : Whole ['0']
  | leading {c : Char} {cs : List Char} : c.isDigit = true → c ≠ '0' → Digits cs → Whole (c :: cs)

inductive Fraction : List Char → Prop
  | none : Fraction []
  | digits {cs : List Char} : cs ≠ [] → Digits cs → Fraction ('.' :: cs)

inductive Power : List Char → Prop
  | none : Power []
  | digits {mark : Char} {sign cs : List Char} : mark ∈ ['e', 'E'] → sign ∈ [[], ['+'], ['-']] →
      cs ≠ [] → Digits cs → Power (mark :: sign ++ cs)

inductive Numeral : List Char → Prop
  | of {sign whole fraction power : List Char} : sign ∈ [[], ['-']] → Whole whole →
      Fraction fraction → Power power → Numeral (sign ++ whole ++ fraction ++ power)

/-- What stands for one character of a string. -/
inductive Written : List Char → Prop
  | plain {c : Char} : 0x20 ≤ c.toNat → c ≠ '"' → c ≠ '\\' → Written [c]
  | escape {c : Char} : c ∈ ['"', '\\', '/', 'b', 'f', 'n', 'r', 't'] → Written ['\\', c]
  | unit {digits : List Char} : digits.length = 4 →
      (∀ c ∈ digits, c ∈ "0123456789abcdefABCDEF".toList) → Written ('\\' :: 'u' :: digits)

inductive Body : List Char → Prop
  | nil : Body []
  | cons {cs rest : List Char} : Written cs → Body rest → Body (cs ++ rest)

inductive Quoted : List Char → Prop
  | of {cs : List Char} : Body cs → Quoted ('"' :: cs ++ ['"'])

mutual
inductive Value : List Char → Prop
  | null : Value "null".toList
  | true : Value "true".toList
  | false : Value "false".toList
  | number {cs : List Char} : Numeral cs → Value cs
  | string {cs : List Char} : Quoted cs → Value cs
  | emptyArray {blank : List Char} : Blank blank → Value ('[' :: blank ++ [']'])
  | array {cs : List Char} : Items cs → Value ('[' :: cs ++ [']'])
  | emptyObject {blank : List Char} : Blank blank → Value ('{' :: blank ++ ['}'])
  | object {cs : List Char} : Fields cs → Value ('{' :: cs ++ ['}'])

/-- The items of an array, of which there is one at least. -/
inductive Items : List Char → Prop
  | last {before cs after : List Char} : Blank before → Value cs → Blank after →
      Items (before ++ cs ++ after)
  | cons {before cs after rest : List Char} : Blank before → Value cs → Blank after → Items rest →
      Items (before ++ cs ++ after ++ ',' :: rest)

inductive Fields : List Char → Prop
  | last {before key gap gap' cs after : List Char} : Blank before → Quoted key → Blank gap →
      Blank gap' → Value cs → Blank after →
      Fields (before ++ key ++ gap ++ ':' :: gap' ++ cs ++ after)
  | cons {before key gap gap' cs after rest : List Char} : Blank before → Quoted key → Blank gap →
      Blank gap' → Value cs → Blank after → Fields rest →
      Fields (before ++ key ++ gap ++ ':' :: gap' ++ cs ++ after ++ ',' :: rest)
end

/-- Whether a text is a value with blanks around it. -/
def Accepts (text : String) : Prop :=
  ∃ before cs after, Blank before ∧ Value cs ∧ Blank after ∧ text.toList = before ++ cs ++ after

section Numerals

theorem Numeral.chars {cs : List Char} (numeral : Numeral cs) :
    ∀ c ∈ cs, c.isDigit = true ∨ c ∈ ['-', '+', '.', 'e', 'E'] := by
  obtain ⟨signed, whole, fraction, power⟩ := numeral
  refine List.forall_mem_append.mpr ⟨List.forall_mem_append.mpr ⟨List.forall_mem_append.mpr
    ⟨?_, ?_⟩, ?_⟩, ?_⟩
  · simp only [List.mem_cons, List.not_mem_nil, or_false] at signed
    rcases signed with rfl | rfl <;> simp
  · rcases whole with _ | ⟨digit, -, digits⟩
    · simp
    · exact List.forall_mem_cons.mpr ⟨.inl digit, fun c member => .inl (digits c member)⟩
  · rcases fraction with _ | ⟨-, digits⟩
    · simp
    · exact List.forall_mem_cons.mpr ⟨.inr (by simp), fun c member => .inl (digits c member)⟩
  · rcases power with _ | ⟨mark, signed, -, digits⟩
    · simp
    · refine List.forall_mem_append.mpr ⟨List.forall_mem_cons.mpr ⟨.inr ?_, ?_⟩,
        fun c member => .inl (digits c member)⟩
      · simp only [List.mem_cons, List.not_mem_nil, or_false] at mark ⊢
        rcases mark with rfl | rfl <;> simp
      · simp only [List.mem_cons, List.not_mem_nil, or_false] at signed
        rcases signed with rfl | rfl | rfl <;> simp

theorem digits_toDigits (n : Nat) : Digits (Nat.toDigits 10 n) := fun _ member =>
  Nat.isDigit_of_mem_toDigits (by decide) (by decide) member

theorem digits_nil : Digits [] := by simp [Digits]

theorem Digits.append {cs rest : List Char} (first : Digits cs) (second : Digits rest) :
    Digits (cs ++ rest) :=
  List.forall_mem_append.mpr ⟨first, second⟩

theorem digits_zeros (n : Nat) : Digits (List.replicate n '0') := by
  intro c member
  rw [List.eq_of_mem_replicate member]
  decide

/-- Digits of which the first is not zero. -/
inductive Leading : List Char → Prop
  | of {c : Char} {cs : List Char} : c ≠ '0' → Digits (c :: cs) → Leading (c :: cs)

theorem Leading.whole {digits rest : List Char} (leading : Leading digits) (more : Digits rest) :
    Whole (digits ++ rest) := by
  obtain ⟨first, digits⟩ := leading
  obtain ⟨digit, digits⟩ := List.forall_mem_cons.mp digits
  exact .leading digit first (Digits.append digits more)

theorem leading_toDigits {n : Nat} (positive : 0 < n) : Leading (Nat.toDigits 10 n) := by
  have head : ∃ c cs, Nat.toDigits 10 n = c :: cs ∧ c ≠ '0' := by
    induction n using Nat.strongRecOn with
    | ind n ih =>
      rcases Nat.lt_or_ge n 10 with small | large
      · have different : ∀ n < 10, 0 < n → n.digitChar ≠ '0' := by decide
        exact ⟨_, [], Nat.toDigits_of_lt_base small, different n small positive⟩
      · obtain ⟨c, cs, digits, different⟩ := ih (n / 10) (by omega) (by omega)
        rw [Nat.toDigits_of_base_le (by decide) large, digits]
        exact ⟨c, _, rfl, different⟩
  obtain ⟨c, cs, digits, different⟩ := head
  have all := digits_toDigits n
  rw [digits] at all ⊢
  exact .of different all

theorem whole_toDigits (n : Nat) : Whole (Nat.toDigits 10 n) := by
  rcases Nat.eq_zero_or_pos n with rfl | positive
  · rw [Nat.toDigits_zero]
    exact .zero
  · have whole := (leading_toDigits positive).whole digits_nil
    rwa [List.append_nil] at whole

/-- What is left of digits when zeros at their end are dropped. -/
theorem Leading.rdropWhile {digits : List Char} (leading : Leading digits) :
    Leading (digits.rdropWhile (· == '0')) := by
  obtain ⟨first, all⟩ := leading
  rename_i c cs
  have part := List.rdropWhile_prefix (· == '0') (l := c :: cs)
  cases kept : (c :: cs).rdropWhile (· == '0') with
  | nil =>
    have zeros := List.rdropWhile_eq_nil_iff.mp kept c List.mem_cons_self
    exact absurd (by simpa using zeros) first
  | cons d ds =>
    rw [kept] at part
    obtain ⟨rfl, -⟩ := List.cons_prefix_cons.mp part
    exact .of first fun x member => all x (part.subset member)

theorem leading_significant {d : Decimal} (positive : 0 < d.digits) : Leading d.significant :=
  (leading_toDigits positive).rdropWhile

/-- What the text of a decimal shows: digits, with zeros before and behind them, and where the
point stands among them. It is not all of it whole. -/
inductive Shows (digits : List Char) (point : Int) : List Char → Prop
  | of (front back : Nat) {whole fraction power : List Char} {exponent : Int} : Whole whole →
      Fraction fraction → Power power → fraction ++ power ≠ [] →
      Decimal.exponent? power = some exponent →
      whole ++ fraction.tail = List.replicate front '0' ++ digits ++ List.replicate back '0' →
      digits.length + back + exponent - fraction.tail.length = point →
      Shows digits point (whole ++ fraction ++ power)

theorem Shows.numeral {sign digits cs : List Char} {point : Int} (signed : sign ∈ [[], ['-']])
    (shown : Shows digits point cs) : Numeral (sign ++ cs) := by
  obtain ⟨_, _, whole, fraction, power⟩ := shown
  simpa using Numeral.of signed whole fraction power

theorem shows_positional {digits : List Char} (leading : Leading digits) (point : Int) :
    Shows digits point (Decimal.positional digits point) := by
  obtain ⟨first, all⟩ := leading
  rename_i c cs
  unfold Decimal.positional
  split
  case isTrue low =>
    have fraction : Fraction ('.' :: (List.replicate (-point).toNat '0' ++ c :: cs)) :=
      .digits (by simp) ((digits_zeros _).append all)
    have shown : Shows (c :: cs) point _ := .of ((-point).toNat + 1) 0 .zero fraction .none
      (by simp) rfl (by simp [List.replicate_succ]) (by simp; omega)
    simpa using shown
  case isFalse high =>
    obtain ⟨k, size⟩ : ∃ k, point.toNat = k + 1 := ⟨point.toNat - 1, by omega⟩
    rw [size, List.take_succ_cons, List.drop_succ_cons]
    have front : Digits (c :: cs.take k) := fun x member =>
      all x (((List.take_sublist k cs).cons_cons c).subset member)
    have whole := (Leading.of first front).whole (digits_zeros (k + 1 - (c :: cs).length))
    by_cases rest : cs.drop k = []
    case pos =>
      have short : cs.length ≤ k := List.drop_eq_nil_iff.mp rest
      have zero : Fraction ['.', '0'] := .digits (by simp) (digits_zeros 1)
      have shown : Shows (c :: cs) point _ := .of 0 (k - cs.length + 1) whole zero .none (by simp)
        rfl (by simp [List.take_of_length_le short, List.replicate_succ']) (by simp; omega)
      simpa [rest] using shown
    case neg =>
      have long : k < cs.length := by
        by_contra short
        exact rest (List.drop_eq_nil_iff.mpr (by omega))
      have digits : Digits (cs.drop k) := fun x member =>
        all x (List.mem_cons_of_mem _ (List.mem_of_mem_drop member))
      have shown : Shows (c :: cs) point _ := .of 0 0 whole (.digits rest digits) .none (by simp)
        rfl (by simp [show k - cs.length = 0 by omega]) (by simp; omega)
      simpa [rest] using shown

/-- An exponent is read as the power whose size its digits show. -/
theorem exponent?_of_digits {power : Int} {digits : List Char} (size : Digits digits)
    (some : digits ≠ []) (value : Nat.ofDigitChars 10 digits 0 = power.natAbs) :
    Decimal.exponent? ('e' :: (if power < 0 then '-' else '+') :: digits) = .some power := by
  have split : Decimal.splitSign ((if power < 0 then '-' else '+') :: digits) =
      (decide (power < 0), digits) := by
    by_cases negative : power < 0 <;> simp [negative, Decimal.splitSign]
  rw [Decimal.exponent?, split]
  simp only [some, ne_eq, not_false_eq_true, true_or, List.all_eq_true.mpr size, and_self, if_true,
    value, decide_eq_true_eq, Option.some.injEq]
  split <;> omega

theorem shows_scientific {digits : List Char} (leading : Leading digits) (power : Int) :
    Shows digits (power + 1) (Decimal.scientific digits power) := by
  obtain ⟨first, all⟩ := leading
  rename_i c cs
  obtain ⟨digit, rest⟩ := List.forall_mem_cons.mp all
  have whole : Whole [c] := .leading digit first digits_nil
  obtain ⟨ds, padded⟩ : ∃ ds, ds = List.replicate (2 - (Nat.toDigits 10 power.natAbs).length) '0' ++
      Nat.toDigits 10 power.natAbs := ⟨_, rfl⟩
  have size : Digits ds := padded ▸ (digits_zeros _).append (digits_toDigits _)
  have some : ds ≠ [] := by simp [padded, Nat.toDigits_ne_nil]
  have value : Nat.ofDigitChars 10 ds 0 = power.natAbs := by
    rw [padded, Nat.ofDigitChars_append, Nat.ofDigitChars_replicate_zero, Nat.mul_zero,
      Nat.ofDigitChars_ten_toDigits]
  have exponent : Power ('e' :: [if power < 0 then '-' else '+'] ++ ds) :=
    .digits (by simp) (by split <;> simp) some size
  have read := exponent?_of_digits size some value
  cases cs with
  | nil =>
    have shown : Shows [c] (power + 1) _ :=
      .of 0 0 whole .none exponent (by simp) read (by simp) (by simp; omega)
    simpa [Decimal.scientific, padded] using shown
  | cons c' cs =>
    have shown : Shows (c :: c' :: cs) (power + 1) _ :=
      .of 0 0 whole (.digits (by simp) rest) exponent (by simp) read (by simp) (by simp; omega)
    simpa [Decimal.scientific, padded] using shown

theorem shows_zero {d : Decimal} (zero : d.digits = 0) : Shows ['0'] 1 d.text := by
  have fraction : Fraction ['.', '0'] := .digits (by simp) (digits_zeros 1)
  rw [Decimal.text, if_pos zero]
  exact .of 0 1 .zero fraction .none (by simp) rfl rfl rfl

theorem shows_text {d : Decimal} (positive : 0 < d.digits) :
    Shows d.significant d.point d.text := by
  have leading := leading_significant positive
  rw [Decimal.text, if_neg positive.ne']
  split
  · exact shows_positional leading d.point
  · simpa using shows_scientific leading (d.point - 1)

theorem numeral_decimal {sign : List Char} (signed : sign ∈ [[], ['-']]) (d : Decimal) :
    Numeral (sign ++ d.text) := by
  rcases Nat.eq_zero_or_pos d.digits with zero | positive
  · exact (shows_zero zero).numeral signed
  · exact (shows_text positive).numeral signed

theorem numeral_text {n : Number} (finite : n.isFinite = true) (words : Binary64.Words) :
    Numeral (n.text words) := by
  have signed (negative : Prop) [Decidable negative] :
      (if negative then ['-'] else []) ∈ [[], ['-']] := by split <;> simp
  cases n with
  | int n =>
    simpa [Number.text] using Numeral.of (signed (n < 0)) (whole_toDigits n.natAbs) .none .none
  | float x =>
    cases x with
    | finite negative rank => exact numeral_decimal (signed (negative = true)) _
    | infinite negative => cases finite
    | nan payload => cases finite

end Numerals

section Strings

theorem hex_spec (width n : Nat) : (Text.hex width n).length = width ∧
    ∀ c ∈ Text.hex width n, c ∈ "0123456789abcdefABCDEF".toList := by
  induction width generalizing n with
  | zero => exact ⟨rfl, by simp [Text.hex]⟩
  | succ width ih =>
    obtain ⟨length, members⟩ := ih (n / 16)
    have digit : ∀ n < 16, n.digitChar ∈ "0123456789abcdefABCDEF".toList := by decide
    refine ⟨by simp [Text.hex, length], ?_⟩
    rw [Text.hex, List.forall_mem_append]
    exact ⟨members, by simpa using digit (n % 16) (Nat.mod_lt n (by decide))⟩

theorem written_unitEscape (unit : Nat) : Written (Json.unitEscape unit) :=
  .unit (hex_spec 4 unit).1 (hex_spec 4 unit).2

theorem Written.body {cs : List Char} (written : Written cs) : Body cs := by
  simpa using Body.cons written .nil

theorem Body.append {cs rest : List Char} (first : Body cs) (second : Body rest) :
    Body (cs ++ rest) := by
  induction first with
  | nil => exact second
  | cons written _ ih => simpa using Body.cons written ih

/-- The characters that are written as a letter after a backslash. -/
def letters : List (Char × Char) :=
  [('"', '"'), ('\\', '\\'), ('\n', 'n'), ('\r', 'r'), ('\t', 't'), ('\x08', 'b'), ('\x0c', 'f')]

/-- The ways in which a character is written. -/
inductive Escaped (c : Char) : List Char → Prop
  | letter {letter : Char} : (c, letter) ∈ letters → Escaped c ['\\', letter]
  | plain : 0x20 ≤ c.toNat → c.toNat < 0x10000 → c ≠ '"' → c ≠ '\\' → Escaped c [c]
  | unit : c.toNat < 0x10000 → Escaped c (Json.unitEscape c.toNat)
  | pair : 0x10000 ≤ c.toNat →
      Escaped c (Json.unitEscape (0xd800 + (c.toNat - 0x10000) / 0x400) ++
        Json.unitEscape (0xdc00 + (c.toNat - 0x10000) % 0x400))

theorem escaped_escape (c : Char) : Escaped c (Json.escape c) := by
  by_cases short : c ∈ letters.map Prod.fst
  · obtain ⟨⟨c, letter⟩, member, rfl⟩ := List.mem_map.mp short
    have written : ∀ pair ∈ letters, Json.escape pair.1 = ['\\', pair.2] := by decide
    exact written _ member ▸ .letter member
  · have others : c ≠ '"' ∧ c ≠ '\\' ∧ c ≠ '\n' ∧ c ≠ '\r' ∧ c ≠ '\t' ∧ c ≠ '\x08' ∧
        c ≠ '\x0c' := by
      simpa only [letters, List.map_cons, List.map_nil, List.mem_cons, List.not_mem_nil, or_false,
        not_or] using short
    obtain ⟨quote, backslash, newline, carriage, tab, backspace, feed⟩ := others
    rw [Json.escape, if_neg quote, if_neg backslash, if_neg newline, if_neg carriage, if_neg tab,
      if_neg backspace, if_neg feed]
    split_ifs with plain basic
    · exact .plain plain.1 (by omega) quote backslash
    · exact .unit basic
    · exact .pair (Nat.le_of_not_lt basic)

theorem body_escape (c : Char) : Body (Json.escape c) := by
  have escaped := escaped_escape c
  generalize Json.escape c = cs at escaped
  cases escaped with
  | letter member =>
    have known : ∀ pair ∈ letters, pair.2 ∈ ['"', '\\', '/', 'b', 'f', 'n', 'r', 't'] := by decide
    exact (Written.escape (known _ member)).body
  | plain printable _ quote backslash => exact (Written.plain printable quote backslash).body
  | unit => exact (written_unitEscape _).body
  | pair => exact (written_unitEscape _).body.append (written_unitEscape _).body

theorem quoted_writeString (s : String) : Quoted (Json.writeString s) := by
  have body : Body (s.toList.flatMap Json.escape) := by
    induction s.toList with
    | nil => exact .nil
    | cons c cs ih => exact (body_escape c).append ih
  exact .of body

end Strings

section Values

theorem Value.numeral_or_head {cs : List Char} (value : Value cs) :
    Numeral cs ∨ ∃ c ∈ ['n', 't', 'f', '"', '[', '{'], cs.head? = some c := by
  cases value with
  | number numeral => exact .inl numeral
  | string quoted =>
    obtain ⟨-⟩ := quoted
    exact .inr ⟨'"', by simp, rfl⟩
  | null => exact .inr ⟨'n', by simp, rfl⟩
  | true => exact .inr ⟨'t', by simp, rfl⟩
  | false => exact .inr ⟨'f', by simp, rfl⟩
  | emptyArray | array => exact .inr ⟨'[', by simp, rfl⟩
  | emptyObject | object => exact .inr ⟨'{', by simp, rfl⟩

/-- The words for what no decimal denotes are no values. -/
theorem not_value_of_word {word : String} (special : word ∈ ["NaN", "Infinity", "-Infinity"]) :
    ¬ Value word.toList := by
  intro value
  simp only [List.mem_cons, List.not_mem_nil, or_false] at special
  rcases value.numeral_or_head with numeral | ⟨c, start, head⟩
  · have letter : ∃ c ∈ word.toList,
        c.isDigit = false ∧ c ∉ ['-', '+', '.', 'e', 'E'] := by
      rcases special with rfl | rfl | rfl
      · exact ⟨'N', by decide, by decide⟩
      · exact ⟨'I', by decide, by decide⟩
      · exact ⟨'I', by decide, by decide⟩
    obtain ⟨c, member, other, apart⟩ := letter
    rcases numeral.chars c member with digit | sign
    · rw [other] at digit
      cases digit
    · exact apart sign
  · rcases special with rfl | rfl | rfl <;> cases head <;> revert start <;> decide

theorem blank_nil : Blank [] := by simp [Blank]

theorem blank_space : Blank [' '] := by simp [Blank]

/-- Whether a layout puts in nothing but blanks. -/
structure Blanks (layout : Json.Layout) : Prop where
  margin (depth : Nat) : Blank (layout.margin depth)
  gap (depth : Nat) : Blank (layout.gap depth)

theorem blanks_line : Blanks .line := ⟨fun _ => blank_nil, fun _ => blank_space⟩

theorem blanks_indented : Blanks .indented := by
  have newline (depth : Nat) : Blank ('\n' :: List.replicate (2 * depth) ' ') := by
    refine List.forall_mem_cons.mpr ⟨by simp, fun c member => ?_⟩
    rw [List.eq_of_mem_replicate member]
    simp
  exact ⟨newline, newline⟩

variable {layout : Json.Layout}

theorem items_append {items : List Json} (blanks : Blanks layout) (depth : Nat)
    (each : ∀ item ∈ items, Value (item.write layout depth)) {before cs after : List Char}
    (first : Blank before) (value : Value cs) (last : Blank after) :
    Items (before ++ cs ++ Json.writeItems layout depth items ++ after) := by
  induction items generalizing before cs with
  | nil => simpa [Json.writeItems] using Items.last first value last
  | cons item items ih =>
    obtain ⟨here, rest⟩ := List.forall_mem_cons.mp each
    have more := ih rest (blanks.gap depth) here
    simpa [Json.writeItems] using Items.cons first value blank_nil more

theorem fields_append {fields : List (String × Json)} (blanks : Blanks layout) (depth : Nat)
    (each : ∀ field ∈ fields, Value (field.2.write layout depth)) (key : String)
    {before cs after : List Char} (first : Blank before) (value : Value cs) (last : Blank after) :
    Fields (before ++ Json.writeString key ++ ':' :: ' ' :: cs ++
      Json.writeFields layout depth fields ++ after) := by
  induction fields generalizing key before cs with
  | nil =>
    simpa [Json.writeFields] using
      Fields.last first (quoted_writeString key) blank_nil blank_space value last
  | cons field fields ih =>
    obtain ⟨key', value'⟩ := field
    obtain ⟨here, rest⟩ := List.forall_mem_cons.mp each
    have more := ih rest key' (blanks.gap depth) here
    simpa [Json.writeFields] using
      Fields.cons first (quoted_writeString key) blank_nil blank_space value blank_nil more

mutual
/-- What is written of a value is derived as one, whatever blanks the layout puts in. -/
theorem value_write (blanks : Blanks layout) (depth : Nat) :
    (v : Json) → v.isFinite = true → Value (v.write layout depth)
  | .null, _ => .null
  | .bool true, _ => .true
  | .bool false, _ => .false
  | .number _, finite => .number (numeral_text finite _)
  | .string s, _ => .string (quoted_writeString s)
  | .array [], _ => .emptyArray blank_nil
  | .array (item :: items), finite => by
    obtain ⟨first, rest⟩ := Bool.and_eq_true_iff.mp finite
    have items := items_append blanks (depth + 1) (values_write blanks (depth + 1) items rest)
      (blanks.margin (depth + 1)) (value_write blanks (depth + 1) item first) (blanks.margin depth)
    simpa [Json.write] using Value.array items
  | .object [], _ => .emptyObject blank_nil
  | .object ((key, value) :: fields), finite => by
    obtain ⟨first, rest⟩ := Bool.and_eq_true_iff.mp finite
    have fields := fields_append blanks (depth + 1) (fields_write blanks (depth + 1) fields rest)
      key (blanks.margin (depth + 1)) (value_write blanks (depth + 1) value first)
      (blanks.margin depth)
    simpa [Json.write] using Value.object fields

theorem values_write (blanks : Blanks layout) (depth : Nat) :
    (items : List Json) → Json.areFinite items = true →
      ∀ item ∈ items, Value (item.write layout depth)
  | [], _ => by simp
  | item :: items, finite => by
    obtain ⟨first, rest⟩ := Bool.and_eq_true_iff.mp finite
    exact List.forall_mem_cons.mpr
      ⟨value_write blanks depth item first, values_write blanks depth items rest⟩

theorem fields_write (blanks : Blanks layout) (depth : Nat) :
    (fields : List (String × Json)) → Json.haveFinite fields = true →
      ∀ field ∈ fields, Value (field.2.write layout depth)
  | [], _ => by simp
  | (_, value) :: fields, finite => by
    obtain ⟨first, rest⟩ := Bool.and_eq_true_iff.mp finite
    exact List.forall_mem_cons.mpr
      ⟨value_write blanks depth value first, fields_write blanks depth fields rest⟩
end

theorem accepts_compact {value : Json} (finite : value.isFinite = true) :
    Accepts value.compact := by
  have written : Value (value.write .line 0) :=
    value_write blanks_line 0 value finite
  exact ⟨[], _, [], blank_nil, written, blank_nil, by simp [Json.compact, Json.text]⟩

end Values

end Grammar
end Workflow
