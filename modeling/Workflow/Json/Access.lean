import Workflow.Fault

/-!
Looking into values that ought to have a certain form: fields that have to be there, items at an
index, elements of what has to be a list, and texts to be put together. Every value holds a number
of lists and objects, and a field of an object holds fewer of them than the object.
-/

namespace Workflow.Json

/-- The elements of a value that has to be listed. -/
def elements (value : Json) : Except Fault (List Json) :=
  match value.elements? with
  | some items => .ok items
  | none => .error (.notIterable value.typeName)

/-- How many elements a value has. -/
def count (value : Json) : Except Fault Nat :=
  match value.elements? with
  | some items => .ok items.length
  | none => .error (.notCounted value.typeName)

/-- Why a value has nothing under a key. Only objects have keys. -/
def lack (key : String) : Json → Fault
  | .object _ => .missingKey key
  | .array _ => .listIndex (Json.string key).typeName
  | .string _ => .textKey
  | value => .notKeyed value.typeName

/-- A field that has to be there. -/
def required (key : String) (value : Json) : Except Fault Json :=
  match value.field? key with
  | some found => .ok found
  | none => .error (value.lack key)

/-- A field that may be missing from a value that can be searched. Items and characters are no
fields. -/
def sought (key : String) : Json → Except Fault (Option Json)
  | .object fields => .ok (fields.lookup key)
  | .array _ | .string _ => .ok none
  | value => .error (.notSearched value.typeName)

/-- The elements of a field, of which there are none when it is missing. -/
def listed (key : String) (value : Json) : Except Fault (List Json) :=
  match value.field? key with
  | some found => found.elements
  | none => .ok []

/-- The whole number that a value is as an index. -/
def index? : Json → Option Int
  | .bool b => some (if b then 1 else 0)
  | .number (.int n) => some n
  | _ => none

/-- Indices are words of 64 bits with a sign. -/
def indexLimit : Int := 0x8000000000000000

/-- The item at an index, which is counted from the end if it is negative. -/
def item (items : List Json) (index : Json) : Except Fault Json :=
  match index.index? with
  | none => .error (.listIndex index.typeName)
  | some n =>
    if n < -indexLimit ∨ indexLimit ≤ n then .error .indexTooLarge
    else
      let position := if n < 0 then n + items.length else n
      if position < 0 then .error .indexOutOfRange
      else
        match items[position.toNat]? with
        | some found => .ok found
        | none => .error .indexOutOfRange

/-- Texts with commas between them. -/
def joined (items : List Json) : Except Fault String := do
  let texts ← items.zipIdx.mapM fun
    | (.string s, _) => .ok s
    | (item, i) => .error (.notText i item.typeName)
  return ", ".intercalate texts

mutual
/-- How many lists and objects a value holds, itself among them. -/
def containers : Json → Nat
  | .array items => 1 + itemContainers items
  | .object fields => 1 + fieldContainers fields
  | _ => 0

def itemContainers : List Json → Nat
  | [] => 0
  | item :: items => containers item + itemContainers items

def fieldContainers : List (String × Json) → Nat
  | [] => 0
  | (_, value) :: fields => containers value + fieldContainers fields
end

theorem containers_le_itemContainers {item : Json} {items : List Json} (h : item ∈ items) :
    item.containers ≤ itemContainers items := by
  induction items with
  | nil => cases h
  | cons first items ih =>
    rw [itemContainers]
    cases h with
    | head => omega
    | tail _ h =>
      have := ih h
      omega

theorem containers_le_fieldContainers {field : String × Json} {fields : List (String × Json)}
    (h : field ∈ fields) : field.2.containers ≤ fieldContainers fields := by
  induction fields with
  | nil => cases h
  | cons first fields ih =>
    obtain ⟨key, value⟩ := first
    rw [fieldContainers]
    cases h with
    | head => dsimp only; omega
    | tail _ h =>
      have := ih h
      omega

theorem mem_of_lookup {key : String} {value : Json} {fields : List (String × Json)}
    (h : fields.lookup key = some value) : (key, value) ∈ fields := by
  induction fields with
  | nil => cases h
  | cons first fields ih =>
    obtain ⟨k, v⟩ := first
    rw [List.lookup_cons] at h
    split at h
    · rename_i same
      cases h
      rw [beq_iff_eq.mp same]
      exact List.mem_cons_self
    · exact List.mem_cons_of_mem _ (ih h)

theorem containers_field?_lt {key : String} {object value : Json}
    (h : object.field? key = some value) : value.containers < object.containers := by
  cases object <;> simp only [field?, reduceCtorEq] at h
  have : value.containers ≤ _ := containers_le_fieldContainers (mem_of_lookup h)
  simp only [containers]
  omega

theorem containers_required_lt {key : String} {object value : Json}
    (h : object.required key = .ok value) : value.containers < object.containers := by
  unfold required at h
  split at h
  · rename_i found
    cases h
    exact containers_field?_lt found
  · cases h

theorem containers_le_of_mem_elements {value part : Json} {parts : List Json}
    (h : value.elements = .ok parts) (member : part ∈ parts) :
    part.containers ≤ value.containers := by
  cases value <;> simp only [elements, elements?, Except.ok.injEq, reduceCtorEq] at h <;> subst h
  · obtain ⟨c, -, rfl⟩ := List.mem_map.mp member
    simp only [containers]
    omega
  · have := containers_le_itemContainers member
    simp only [containers]
    omega
  · obtain ⟨field, -, rfl⟩ := List.mem_map.mp member
    simp only [containers]
    omega

theorem containers_item_le {items : List Json} {index value : Json}
    (h : item items index = .ok value) : value.containers ≤ itemContainers items := by
  unfold item at h
  dsimp only at h
  repeat' split at h
  all_goals cases h
  all_goals exact containers_le_itemContainers (List.mem_of_getElem? ‹items[_]? = some _›)

end Workflow.Json
