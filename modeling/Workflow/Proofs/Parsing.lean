import Mathlib.Data.List.TakeWhile
import Workflow.Proofs.Tokens

/-!
A reader of JSON texts, and that it undoes what is written. It takes any text of the grammar, the
words for values that no decimal denotes besides; blanks may stand between all tokens, a field that
comes again replaces the value that was read before, and what is left over is refused. A text that
was written of a value, under any layout of blanks, is read as the value, with the fields of every
object in their order.
-/

namespace Workflow

open Grammar (Blank Blanks)

namespace Reader

def isBlank (c : Char) : Bool := c ∈ [' ', '\t', '\n', '\r']

def skipBlanks (cs : List Char) : List Char := cs.dropWhile isBlank

/-- The fields of an object that are left of those that were read. -/
def distinct (fields : List (String × Json)) : List (String × Json) :=
  fields.foldl (fun kept field => Json.setField kept field.1 field.2) []

mutual
/-- Reads a value of at most as many characters as there is fuel. -/
def readValue : Nat → List Char → Option (Json × List Char)
  | 0, _ => none
  | fuel + 1, cs =>
    match skipBlanks cs with
    | '"' :: rest => (readString rest).map fun (s, rest) => (.string s, rest)
    | '[' :: rest =>
      match skipBlanks rest with
      | ']' :: rest => some (.array [], rest)
      | _ => (readItems fuel rest).map fun (items, rest) => (.array items, rest)
    | '{' :: rest =>
      match skipBlanks rest with
      | '}' :: rest => some (.object [], rest)
      | _ => (readFields fuel rest).map fun (fields, rest) => (.object (distinct fields), rest)
    | rest => (atom? (rest.takeWhile isAtomic)).map (·, rest.dropWhile isAtomic)

def readItems : Nat → List Char → Option (List Json × List Char)
  | 0, _ => none
  | fuel + 1, cs => do
    let (item, rest) ← readValue fuel cs
    match skipBlanks rest with
    | ',' :: rest =>
      let (items, rest) ← readItems fuel rest
      return (item :: items, rest)
    | ']' :: rest => return ([item], rest)
    | _ => none

def readFields : Nat → List Char → Option (List (String × Json) × List Char)
  | 0, _ => none
  | fuel + 1, cs =>
    match skipBlanks cs with
    | '"' :: rest => do
      let (key, rest) ← readString rest
      match skipBlanks rest with
      | ':' :: rest =>
        let (value, rest) ← readValue fuel rest
        match skipBlanks rest with
        | ',' :: rest =>
          let (fields, rest) ← readFields fuel rest
          return ((key, value) :: fields, rest)
        | '}' :: rest => return ([(key, value)], rest)
        | _ => none
      | _ => none
    | _ => none
end

end Reader

mutual
/-- A value without the payloads of what is not a number. -/
def Json.plain : Json → Json
  | .number n => .number n.plain
  | .array items => .array (Json.plainItems items)
  | .object fields => .object (Json.plainFields fields)
  | .null => .null
  | .bool b => .bool b
  | .string s => .string s

def Json.plainItems : List Json → List Json
  | [] => []
  | item :: items => item.plain :: Json.plainItems items

def Json.plainFields : List (String × Json) → List (String × Json)
  | [] => []
  | (key, value) :: fields => (key, value.plain) :: Json.plainFields fields
end

mutual
/-- Only what is not a number has a payload to lose. -/
theorem Json.plain_of_isFinite : (v : Json) → v.isFinite = true → v.plain = v
  | .null, _ | .bool _, _ | .string _, _ => rfl
  | .number (.int _), _ | .number (.float (.finite _ _)), _ => rfl
  | .array items, finite => congrArg Json.array (plainItems_of_areFinite items finite)
  | .object fields, finite => congrArg Json.object (plainFields_of_haveFinite fields finite)

theorem Json.plainItems_of_areFinite :
    (items : List Json) → Json.areFinite items = true → Json.plainItems items = items
  | [], _ => rfl
  | item :: items, finite => by
    obtain ⟨first, rest⟩ := Bool.and_eq_true_iff.mp finite
    rw [Json.plainItems, plain_of_isFinite item first, plainItems_of_areFinite items rest]

theorem Json.plainFields_of_haveFinite :
    (fields : List (String × Json)) → Json.haveFinite fields = true →
      Json.plainFields fields = fields
  | [], _ => rfl
  | (key, value) :: fields, finite => by
    obtain ⟨first, rest⟩ := Bool.and_eq_true_iff.mp finite
    rw [Json.plainFields, plain_of_isFinite value first, plainFields_of_haveFinite fields rest]
end

mutual
/-- Whether no object has two fields of one key. -/
def Json.isKeyed : Json → Bool
  | .array items => Json.areKeyed items
  | .object fields => (fields.map Prod.fst).Nodup && Json.haveKeys fields
  | .null | .bool _ | .number _ | .string _ => true

def Json.areKeyed : List Json → Bool
  | [] => true
  | item :: items => item.isKeyed && Json.areKeyed items

def Json.haveKeys : List (String × Json) → Bool
  | [] => true
  | (_, value) :: fields => value.isKeyed && Json.haveKeys fields
end

/-- The value that a text is read as. -/
def Json.parse (text : String) : Option Json := do
  let (value, rest) ← Reader.readValue text.toList.length text.toList
  if Reader.skipBlanks rest = [] then some value else none


namespace Reader

section Values

variable {layout : Json.Layout} {before after rest : List Char}

theorem skipBlanks_append (blank : Blank before) (start : ∀ c ∈ rest.head?, isBlank c = false) :
    skipBlanks (before ++ rest) = rest :=
  dropWhile_append (fun c member => decide_eq_true (blank c member)) start

/-- Whether no word or number can go on with a text. -/
def Ends (rest : List Char) : Prop := ∀ c ∈ rest.head?, isAtomic c = false

/-- Whether a text is read as a value wherever it stands. -/
def Reads (cs : List Char) (value : Json) : Prop :=
  ∀ fuel before rest, cs.length ≤ fuel → Blank before → Ends rest →
    readValue fuel (before ++ cs ++ rest) = some (value, rest)

theorem not_isAtomic_of_blank {c : Char} (blank : c ∈ [' ', '\t', '\n', '\r']) :
    isAtomic c = false := by
  have known : [' ', '\t', '\n', '\r'].all (fun c => !isAtomic c) = true := by decide
  simpa using List.all_eq_true.mp known c blank

theorem isBlank_of_isAtomic {c : Char} (atomic : isAtomic c = true) : isBlank c = false := by
  refine decide_eq_false fun blank => ?_
  rw [not_isAtomic_of_blank blank] at atomic
  cases atomic

theorem reads_atom {token : List Char} {value : Json}
    (atomic : ∀ c ∈ token, isAtomic c = true) (stands : atom? token = some value) :
    Reads token value := by
  intro fuel before rest enough blank ends
  obtain ⟨c, cs, rfl⟩ : ∃ c cs, token = c :: cs := by
    cases token with
    | nil => cases stands
    | cons c cs => exact ⟨c, cs, rfl⟩
  obtain ⟨fuel, rfl⟩ : ∃ k, fuel = k + 1 := ⟨fuel - 1, by rw [List.length_cons] at enough; omega⟩
  have first := atomic c List.mem_cons_self
  have skipped : skipBlanks (before ++ (c :: cs ++ rest)) = c :: cs ++ rest := by
    refine skipBlanks_append blank fun d head => ?_
    cases head
    exact isBlank_of_isAtomic first
  have other {d : Char} {left : List Char} (special : isAtomic d = false) :
      c :: cs ++ rest ≠ d :: left := by
    intro same
    obtain ⟨rfl, -⟩ := List.cons.inj same
    rw [first] at special
    cases special
  rw [readValue, List.append_assoc, skipped]
  split
  case h_1 same => exact absurd same (other rfl)
  case h_2 same => exact absurd same (other rfl)
  case h_3 same => exact absurd same (other rfl)
  case h_4 =>
    rw [takeWhile_append atomic ends, dropWhile_append atomic ends, stands, Option.map_some]

theorem reads_null : Reads "null".toList .null :=
  reads_atom (List.all_eq_true.mp (by decide)) rfl

theorem reads_bool (b : Bool) : Reads (if b then "true" else "false").toList (.bool b) := by
  cases b <;> exact reads_atom (List.all_eq_true.mp (by decide)) rfl

theorem reads_string (s : String) : Reads (Json.writeString s) (.string s) := by
  intro fuel before rest enough blank ends
  obtain ⟨fuel, rfl⟩ : ∃ k, fuel = k + 1 := ⟨fuel - 1, by simp [Json.writeString] at enough; omega⟩
  have skipped : skipBlanks (before ++ (Json.writeString s ++ rest)) = Json.writeString s ++ rest :=
    skipBlanks_append blank fun d head => by cases head; rfl
  rw [readValue, List.append_assoc, skipped]
  simp [Json.writeString, readString_writeString]

theorem ends_append {c : Char} (blank : Blank after) (special : isAtomic c = false) :
    Ends (after ++ c :: rest) := by
  cases after with
  | nil => exact fun _ head => Option.some.inj head ▸ special
  | cons d ds =>
    intro _ head
    cases head
    exact not_isAtomic_of_blank (blank d List.mem_cons_self)

theorem ends_comma (rest : List Char) : Ends (',' :: rest) := fun _ head =>
  Option.some.inj head ▸ rfl

theorem skipBlanks_comma (rest : List Char) : skipBlanks (',' :: rest) = ',' :: rest := rfl

theorem skipBlanks_cons {c : Char} (blank : Blank before) (other : isBlank c = false) :
    skipBlanks (before ++ c :: rest) = c :: rest :=
  skipBlanks_append blank fun _ head => Option.some.inj head ▸ other

section Steps

variable {fuel : Nat} {cs left more : List Char} {key : String} {value : Json}

theorem readItems_last (first : readValue fuel cs = some (value, left))
    (close : skipBlanks left = ']' :: rest) : readItems (fuel + 1) cs = some ([value], rest) := by
  simp [readItems, first, close]

theorem readItems_cons {items : List Json} (first : readValue fuel cs = some (value, left))
    (comma : skipBlanks left = ',' :: more) (others : readItems fuel more = some (items, rest)) :
    readItems (fuel + 1) cs = some (value :: items, rest) := by
  simp [readItems, first, comma, others]

/-- The name of a field is read up to its colon. -/
theorem readFields_key (blank : Blank before) (fuel : Nat) (key : String) (cs : List Char) :
    readFields (fuel + 1) (before ++ (Json.writeString key ++ ':' :: cs)) = (do
      let (value, rest) ← readValue fuel cs
      match skipBlanks rest with
      | ',' :: rest =>
        let (fields, rest) ← readFields fuel rest
        return ((key, value) :: fields, rest)
      | '}' :: rest => return ([(key, value)], rest)
      | _ => none) := by
  have quoted : skipBlanks (before ++ (Json.writeString key ++ ':' :: cs)) =
      '"' :: (key.toList.flatMap Json.escape ++ '"' :: ':' :: cs) := by
    simpa [Json.writeString] using skipBlanks_cons blank rfl
  have colon : skipBlanks (':' :: cs) = ':' :: cs := rfl
  simp [readFields, quoted, readString_writeString, colon]

theorem readFields_last (blank : Blank before) (first : readValue fuel cs = some (value, left))
    (close : skipBlanks left = '}' :: rest) :
    readFields (fuel + 1) (before ++ (Json.writeString key ++ ':' :: cs)) =
      some ([(key, value)], rest) := by
  simp [readFields_key blank, first, close]

theorem readFields_cons {fields : List (String × Json)} (blank : Blank before)
    (first : readValue fuel cs = some (value, left)) (comma : skipBlanks left = ',' :: more)
    (others : readFields fuel more = some (fields, rest)) :
    readFields (fuel + 1) (before ++ (Json.writeString key ++ ':' :: cs)) =
      some ((key, value) :: fields, rest) := by
  simp [readFields_key blank, first, comma, others]

/-- A text of which items are read does not start by closing an array. -/
theorem not_close_of_readItems {items : List Json} (read : readItems fuel cs = some (items, rest)) :
    ∀ left, skipBlanks cs ≠ ']' :: left := by
  intro left closed
  have nothing : ∀ fuel, readValue fuel cs = none
    | 0 => rfl
    | fuel + 1 => by
      rw [readValue, closed]
      rfl
  cases fuel with
  | zero => cases read
  | succ fuel =>
    rw [readItems, nothing] at read
    cases read

theorem not_close_of_readFields {fields : List (String × Json)}
    (read : readFields fuel cs = some (fields, rest)) : ∀ left, skipBlanks cs ≠ '}' :: left := by
  intro left closed
  cases fuel with
  | zero => cases read
  | succ fuel =>
    rw [readFields, closed] at read
    cases read

theorem readValue_items {items : List Json} (blank : Blank before)
    (read : readItems fuel cs = some (items, rest)) :
    readValue (fuel + 1) (before ++ '[' :: cs) = some (.array items, rest) := by
  have opened : readValue (fuel + 1) (before ++ '[' :: cs) =
      match skipBlanks cs with
      | ']' :: rest => some (.array [], rest)
      | _ => (readItems fuel cs).map fun (items, rest) => (.array items, rest) := by
    rw [readValue, skipBlanks_cons blank rfl]
    rfl
  rw [opened]
  split
  case h_1 closed => exact absurd closed (not_close_of_readItems read _)
  case h_2 => rw [read, Option.map_some]

theorem readValue_fields {fields : List (String × Json)} (blank : Blank before)
    (read : readFields fuel cs = some (fields, rest)) :
    readValue (fuel + 1) (before ++ '{' :: cs) = some (.object (distinct fields), rest) := by
  have opened : readValue (fuel + 1) (before ++ '{' :: cs) =
      match skipBlanks cs with
      | '}' :: rest => some (.object [], rest)
      | _ => (readFields fuel cs).map fun (fields, rest) => (.object (distinct fields), rest) := by
    rw [readValue, skipBlanks_cons blank rfl]
    rfl
  rw [opened]
  split
  case h_1 closed => exact absurd closed (not_close_of_readFields read _)
  case h_2 => rw [read, Option.map_some]

end Steps

/-- What is read up to the closing bracket, of a value and those that are written after it. -/
theorem readItems_append {items : List Json} (blanks : Blanks layout) (depth : Nat)
    (each : ∀ item ∈ items, Reads (item.write layout depth) item.plain) {cs : List Char}
    {value : Json} (first : Reads cs value) {fuel : Nat}
    (enough : (cs ++ Json.writeItems layout depth items).length < fuel) (blank : Blank before)
    (last : Blank after) :
    readItems fuel (before ++ cs ++ (Json.writeItems layout depth items ++ after ++ ']' :: rest)) =
      some (value :: items.map Json.plain, rest) := by
  induction items generalizing before cs value fuel with
  | nil =>
    obtain ⟨fuel, rfl⟩ : ∃ k, fuel = k + 1 := ⟨fuel - 1, by omega⟩
    rw [Json.writeItems, List.append_nil] at enough
    rw [Json.writeItems, List.nil_append]
    exact readItems_last (first fuel before _ (by omega) blank (ends_append last rfl))
      (skipBlanks_cons last rfl)
  | cons item items ih =>
    obtain ⟨fuel, rfl⟩ : ∃ k, fuel = k + 1 := ⟨fuel - 1, by omega⟩
    obtain ⟨second, others⟩ := List.forall_mem_cons.mp each
    simp only [Json.writeItems, List.length_append, List.length_cons] at enough
    have size : (item.write layout depth ++ Json.writeItems layout depth items).length < fuel := by
      rw [List.length_append]
      omega
    have here (more : List Char) :=
      first fuel before (',' :: more) (by omega) blank (ends_comma more)
    simpa [Json.writeItems] using
      readItems_cons (here _) (skipBlanks_comma _) (ih others second size (blanks.gap depth))

/-- What is read up to the closing bracket, of a field and those that are written after it. -/
theorem readFields_append {fields : List (String × Json)} (blanks : Blanks layout) (depth : Nat)
    (each : ∀ field ∈ fields, Reads (field.2.write layout depth) field.2.plain) (key : String)
    {cs : List Char} {value : Json} (first : Reads cs value) {fuel : Nat}
    (enough : (cs ++ Json.writeFields layout depth fields).length < fuel) (blank : Blank before)
    (last : Blank after) :
    readFields fuel (before ++ (Json.writeString key ++ ':' :: ' ' ::
        (cs ++ (Json.writeFields layout depth fields ++ after ++ '}' :: rest)))) =
      some ((key, value) :: fields.map fun field => (field.1, field.2.plain), rest) := by
  induction fields generalizing before cs key value fuel with
  | nil =>
    obtain ⟨fuel, rfl⟩ : ∃ k, fuel = k + 1 := ⟨fuel - 1, by omega⟩
    rw [Json.writeFields, List.append_nil] at enough
    rw [Json.writeFields, List.nil_append]
    exact readFields_last blank
      (first fuel [' '] _ (by omega) Grammar.blank_space (ends_append last rfl))
      (skipBlanks_cons last rfl)
  | cons field fields ih =>
    obtain ⟨fuel, rfl⟩ : ∃ k, fuel = k + 1 := ⟨fuel - 1, by omega⟩
    obtain ⟨key', value'⟩ := field
    obtain ⟨second, others⟩ := List.forall_mem_cons.mp each
    simp only [Json.writeFields, List.length_append, List.length_cons] at enough
    have size : (value'.write layout depth ++ Json.writeFields layout depth fields).length <
        fuel := by
      rw [List.length_append]
      omega
    have here (more : List Char) :=
      first fuel [' '] (',' :: more) (by omega) Grammar.blank_space (ends_comma more)
    simpa [Json.writeFields] using
      readFields_cons blank (here _) (skipBlanks_comma _)
        (ih others key' second size (blanks.gap depth))

theorem setField_of_notMem {fields : List (String × Json)} {key : String} {value : Json}
    (fresh : key ∉ fields.map Prod.fst) :
    Json.setField fields key value = fields ++ [(key, value)] := by
  induction fields with
  | nil => rfl
  | cons field fields ih =>
    obtain ⟨other, old⟩ := field
    rw [List.map_cons, List.mem_cons, not_or] at fresh
    rw [Json.setField, if_neg (Ne.symm fresh.1), ih fresh.2, List.cons_append]

/-- Fields of different keys are all left, in their order. -/
theorem distinct_of_nodup {fields : List (String × Json)} (keyed : (fields.map Prod.fst).Nodup) :
    distinct fields = fields := by
  induction fields using List.reverseRecOn with
  | nil => rfl
  | append_singleton fields field ih =>
    rw [List.map_append, List.map_singleton] at keyed
    obtain ⟨kept, -, apart⟩ := List.nodup_append.mp keyed
    have fresh : field.1 ∉ fields.map Prod.fst := fun member =>
      apart _ member _ (List.mem_singleton_self _) rfl
    unfold distinct at ih ⊢
    rw [List.foldl_append, ih kept, List.foldl_cons, List.foldl_nil, setField_of_notMem fresh]

theorem reads_empty {c d : Char} {value : Json} (empty : ∀ fuel before rest, Blank before →
      readValue (fuel + 1) (before ++ c :: d :: rest) = some (value, rest)) :
    Reads [c, d] value := by
  intro fuel before rest enough blank _
  obtain ⟨fuel, rfl⟩ : ∃ k, fuel = k + 1 := ⟨fuel - 1, by simp at enough; omega⟩
  simpa using empty fuel before rest blank

theorem plainItems_eq_map (items : List Json) : Json.plainItems items = items.map Json.plain := by
  induction items with
  | nil => rfl
  | cons item items ih => rw [Json.plainItems, ih, List.map_cons]

theorem plainFields_eq_map (fields : List (String × Json)) :
    Json.plainFields fields = fields.map fun field => (field.1, field.2.plain) := by
  induction fields with
  | nil => rfl
  | cons field fields ih => rw [Json.plainFields, ih, List.map_cons]

variable {depth : Nat}

theorem reads_array {item : Json} {items : List Json} (blanks : Blanks layout)
    (each : ∀ i ∈ item :: items, Reads (i.write layout (depth + 1)) i.plain) :
    Reads ((Json.array (item :: items)).write layout depth) (Json.array (item :: items)).plain := by
  intro fuel before rest enough blank _
  obtain ⟨first, others⟩ := List.forall_mem_cons.mp each
  simp only [Json.write, List.length_append, List.length_cons] at enough
  obtain ⟨fuel, rfl⟩ : ∃ k, fuel = k + 1 := ⟨fuel - 1, by omega⟩
  have size : (item.write layout (depth + 1) ++ Json.writeItems layout (depth + 1) items).length <
      fuel := by
    rw [List.length_append]
    omega
  simpa [Json.write, Json.plain, plainItems_eq_map] using readValue_items blank
    (readItems_append blanks (depth + 1) others first size (blanks.margin (depth + 1))
      (blanks.margin depth))

theorem reads_object {key : String} {value : Json} {fields : List (String × Json)}
    (blanks : Blanks layout) (keyed : (key :: fields.map Prod.fst).Nodup)
    (first : Reads (value.write layout (depth + 1)) value.plain)
    (others : ∀ field ∈ fields, Reads (field.2.write layout (depth + 1)) field.2.plain) :
    Reads ((Json.object ((key, value) :: fields)).write layout depth)
      (Json.object ((key, value) :: fields)).plain := by
  intro fuel before rest enough blank _
  simp only [Json.write, List.length_append, List.length_cons] at enough
  obtain ⟨fuel, rfl⟩ : ∃ k, fuel = k + 1 := ⟨fuel - 1, by omega⟩
  have size : (value.write layout (depth + 1) ++
      Json.writeFields layout (depth + 1) fields).length < fuel := by
    rw [List.length_append]
    omega
  have kept : distinct ((key, value.plain) :: fields.map fun field => (field.1, field.2.plain)) =
      _ := distinct_of_nodup (by simpa [Function.comp_def] using keyed)
  have read : readValue (fuel + 1) _ = some (_, rest) := readValue_fields blank
    (readFields_append blanks (depth + 1) others key first size (blanks.margin (depth + 1))
      (blanks.margin depth))
  rw [kept] at read
  simpa [Json.write, Json.plain, Json.plainFields, plainFields_eq_map] using read

mutual
/-- What is written of a value is read as the value, whatever blanks the layout puts in. -/
theorem reads_write (blanks : Blanks layout) (depth : Nat) :
    (v : Json) → v.isKeyed = true → Reads (v.write layout depth) v.plain
  | .null, _ => reads_null
  | .bool b, _ => reads_bool b
  | .number n, _ => reads_atom (isAtomic_text n) (atom?_number n)
  | .string s, _ => reads_string s
  | .array [], _ => reads_empty fun fuel before rest blank => by
    rw [readValue, skipBlanks_cons blank rfl]
    rfl
  | .array (item :: items), keyed => reads_array blanks
      (reads_items blanks (depth + 1) (item :: items) keyed)
  | .object [], _ => reads_empty fun fuel before rest blank => by
    rw [readValue, skipBlanks_cons blank rfl]
    rfl
  | .object ((key, value) :: fields), keyed => by
    obtain ⟨keyed, inner⟩ := Bool.and_eq_true_iff.mp keyed
    obtain ⟨first, others⟩ := Bool.and_eq_true_iff.mp inner
    exact reads_object blanks (of_decide_eq_true keyed) (reads_write blanks _ value first)
      (reads_fields blanks _ fields others)

theorem reads_items (blanks : Blanks layout) (depth : Nat) :
    (items : List Json) → Json.areKeyed items = true →
      ∀ item ∈ items, Reads (item.write layout depth) item.plain
  | [], _ => by simp
  | item :: items, keyed => by
    obtain ⟨first, rest⟩ := Bool.and_eq_true_iff.mp keyed
    exact List.forall_mem_cons.mpr
      ⟨reads_write blanks depth item first, reads_items blanks depth items rest⟩

theorem reads_fields (blanks : Blanks layout) (depth : Nat) :
    (fields : List (String × Json)) → Json.haveKeys fields = true →
      ∀ field ∈ fields, Reads (field.2.write layout depth) field.2.plain
  | [], _ => by simp
  | (_, value) :: fields, keyed => by
    obtain ⟨first, rest⟩ := Bool.and_eq_true_iff.mp keyed
    exact List.forall_mem_cons.mpr
      ⟨reads_write blanks depth value first, reads_fields blanks depth fields rest⟩
end

end Values

end Reader

namespace Json

/-- The text of a value is read as the value. -/
theorem parse_text {layout : Layout} {value : Json} (blanks : Blanks layout)
    (keyed : value.isKeyed = true) : parse (value.text layout) = some value.plain := by
  have read := Reader.reads_write blanks 0 value keyed (value.write layout 0).length [] []
    (Nat.le_refl _) Grammar.blank_nil (by simp [Reader.Ends])
  rw [List.nil_append, List.append_nil] at read
  rw [parse, text, String.toList_ofList, read]
  rfl

theorem parse_compact {value : Json} (keyed : value.isKeyed = true) :
    parse value.compact = some value.plain :=
  parse_text Grammar.blanks_line keyed

theorem parse_indented {value : Json} (keyed : value.isKeyed = true) :
    parse (value.text .indented) = some value.plain :=
  parse_text Grammar.blanks_indented keyed

end Json
end Workflow
