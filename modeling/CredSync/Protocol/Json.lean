import CredSync.Library.SortedMap
import CredSync.Protocol.Canonical
import Mathlib.Data.String.Basic

/-! The text a decoder reads, as the tree of what stands in it, and the `Value` that
`serde_json` makes of such a tree. Reading goes only so many levels down. -/

namespace CredSync

namespace Value

mutual

/-- How many arrays and objects stand inside one another. -/
def depth : Value → Nat
  | .array items => depthItems items + 1
  | .object fields => depthFields fields + 1
  | _ => 0

def depthItems : List Value → Nat
  | [] => 0
  | item :: rest => Nat.max (depth item) (depthItems rest)

def depthFields : List (String × Value) → Nat
  | [] => 0
  | (_, value) :: rest => Nat.max (depth value) (depthFields rest)

end

mutual

/-- Every object is a `BTreeMap`: its keys ascend strictly. -/
def Mapped : Value → Prop
  | .array items => MappedItems items
  | .object fields => SortedMap.Sorted fields ∧ MappedFields fields
  | _ => True

def MappedItems : List Value → Prop
  | [] => True
  | item :: rest => Mapped item ∧ MappedItems rest

def MappedFields : List (String × Value) → Prop
  | [] => True
  | (_, value) :: rest => Mapped value ∧ MappedFields rest

end

theorem depthItems_le {n : Nat} {items : List Value} :
    depthItems items ≤ n ↔ ∀ item ∈ items, item.depth ≤ n := by
  induction items with
  | nil => simp [depthItems]
  | cons item rest ih => simp [depthItems, ih]

theorem depthFields_le {n : Nat} {fields : List (String × Value)} :
    depthFields fields ≤ n ↔ ∀ field ∈ fields, field.2.depth ≤ n := by
  induction fields with
  | nil => simp [depthFields]
  | cons field rest ih =>
    obtain ⟨key, value⟩ := field
    simp [depthFields, ih]

@[simp] theorem depth_array_le {n : Nat} {items : List Value} :
    (array items).depth ≤ n + 1 ↔ ∀ item ∈ items, item.depth ≤ n := by
  simp [depth, depthItems_le]

@[simp] theorem depth_object_le {n : Nat} {fields : List (String × Value)} :
    (object fields).depth ≤ n + 1 ↔ ∀ field ∈ fields, field.2.depth ≤ n := by
  simp [depth, depthFields_le]

theorem mappedFields_iff {fields : List (String × Value)} :
    MappedFields fields ↔ ∀ field ∈ fields, field.2.Mapped := by
  induction fields with
  | nil => simp [MappedFields]
  | cons field rest ih =>
    obtain ⟨key, value⟩ := field
    simp [MappedFields, ih]

end Value

/-- What stands in a JSON text, the fields of an object in the order they come. A value
that a decoder can skip but not read, such as a number beyond every float or a lone
surrogate, is `unreadable`. -/
inductive Json where
  | null
  | bool (b : Bool)
  | number (n : Number)
  | string (s : String)
  | array (items : List Json)
  | object (fields : List (String × Json))
  | unreadable

namespace Json

mutual

/-- What stands in the text a `Value` prints as. -/
def ofValue : Value → Json
  | .null => null
  | .bool b => bool b
  | .number n => number n
  | .string s => string s
  | .array items => array (ofItems items)
  | .object fields => object (ofFields fields)

def ofItems : List Value → List Json
  | [] => []
  | item :: rest => ofValue item :: ofItems rest

def ofFields : List (String × Value) → List (String × Json)
  | [] => []
  | (key, value) :: rest => (key, ofValue value) :: ofFields rest

end

mutual

/-- `Value::deserialize`, with `room` levels left to enter. Of two fields with one key the
later one stays. -/
def value : Nat → Json → Option Value
  | _, null => some .null
  | _, bool b => some (.bool b)
  | _, number n => some (.number n)
  | _, string s => some (.string s)
  | room + 1, array items => (values room items).map .array
  | room + 1, object fields =>
    (valueFields room fields).map fun read => .object (SortedMap.ofList read)
  | _, _ => none

def values : Nat → List Json → Option (List Value)
  | _, [] => some []
  | room, item :: rest => do
    let read ← value room item
    let others ← values room rest
    some (read :: others)

def valueFields : Nat → List (String × Json) → Option (List (String × Value))
  | _, [] => some []
  | room, (key, item) :: rest => do
    let read ← value room item
    let others ← valueFields room rest
    some ((key, read) :: others)

end

theorem ofItems_eq (items : List Value) : ofItems items = items.map ofValue := by
  induction items with
  | nil => rfl
  | cons item rest ih => rw [ofItems, ih, List.map_cons]

theorem ofFields_eq (fields : List (String × Value)) :
    ofFields fields = fields.map fun field => (field.1, ofValue field.2) := by
  induction fields with
  | nil => rfl
  | cons field rest ih =>
    obtain ⟨key, value⟩ := field
    rw [ofFields, ih, List.map_cons]

mutual

/-- A value within the room left is read back as it was printed. -/
theorem value_ofValue {room : Nat} {v : Value} (mapped : v.Mapped) (fits : v.depth ≤ room) :
    value room (ofValue v) = some v := by
  cases v with
  | null | bool | number | string => cases room <;> rfl
  | array items =>
    cases room with
    | zero => exact absurd fits (Nat.not_succ_le_zero _)
    | succ room =>
      rw [ofValue, value, values_ofItems mapped (Nat.le_of_succ_le_succ fits), Option.map_some]
  | object fields =>
    cases room with
    | zero => exact absurd fits (Nat.not_succ_le_zero _)
    | succ room =>
      rw [ofValue, value, valueFields_ofFields mapped.2 (Nat.le_of_succ_le_succ fits),
        Option.map_some, SortedMap.ofList_of_sorted mapped.1]

theorem values_ofItems {room : Nat} {items : List Value} (mapped : Value.MappedItems items)
    (fits : Value.depthItems items ≤ room) : values room (ofItems items) = some items := by
  cases items with
  | nil => rfl
  | cons item rest =>
    have first := value_ofValue mapped.1 (Nat.le_trans (Nat.le_max_left ..) fits)
    have others := values_ofItems mapped.2 (Nat.le_trans (Nat.le_max_right ..) fits)
    simp [ofItems, values, first, others]

theorem valueFields_ofFields {room : Nat} {fields : List (String × Value)}
    (mapped : Value.MappedFields fields) (fits : Value.depthFields fields ≤ room) :
    valueFields room (ofFields fields) = some fields := by
  cases fields with
  | nil => rfl
  | cons field rest =>
    obtain ⟨key, held⟩ := field
    have first := value_ofValue mapped.1 (Nat.le_trans (Nat.le_max_left ..) fits)
    have others := valueFields_ofFields mapped.2 (Nat.le_trans (Nat.le_max_right ..) fits)
    simp [ofFields, valueFields, first, others]

end

mutual

/-- What is read is a map throughout, and no deeper than the room there was. -/
theorem value_sound {room : Nat} {json : Json} {v : Value} (read : value room json = some v) :
    v.Mapped ∧ v.depth ≤ room := by
  cases json with
  | null | bool | number | string =>
    cases room <;> cases read <;> exact ⟨trivial, Nat.zero_le _⟩
  | unreadable => cases room <;> cases read
  | array items =>
    cases room with
    | zero => cases read
    | succ room =>
      obtain ⟨held, readItems, rfl⟩ := Option.map_eq_some_iff.mp read
      obtain ⟨mapped, fits⟩ := values_sound readItems
      exact ⟨mapped, Nat.succ_le_succ fits⟩
  | object fields =>
    cases room with
    | zero => cases read
    | succ room =>
      obtain ⟨held, readFields, rfl⟩ := Option.map_eq_some_iff.mp read
      have sound := valueFields_sound readFields
      constructor
      · refine ⟨SortedMap.ofList_sorted held, Value.mappedFields_iff.mpr fun field member => ?_⟩
        exact (sound field (SortedMap.mem_of_mem_ofList held member)).1
      · apply Value.depth_object_le.mpr
        intro field member
        exact (sound field (SortedMap.mem_of_mem_ofList held member)).2

theorem values_sound {room : Nat} {items : List Json} {held : List Value}
    (read : values room items = some held) :
    Value.MappedItems held ∧ Value.depthItems held ≤ room := by
  cases items with
  | nil =>
    cases read
    exact ⟨trivial, Nat.zero_le _⟩
  | cons item rest =>
    simp only [values, Option.bind_eq_bind, Option.bind_eq_some_iff, Option.some.injEq] at read
    obtain ⟨first, readFirst, others, readOthers, rfl⟩ := read
    obtain ⟨mapped, fits⟩ := value_sound readFirst
    obtain ⟨mappedOthers, fitOthers⟩ := values_sound readOthers
    exact ⟨⟨mapped, mappedOthers⟩, Nat.max_le.mpr ⟨fits, fitOthers⟩⟩

theorem valueFields_sound {room : Nat} {fields : List (String × Json)}
    {held : List (String × Value)} (read : valueFields room fields = some held) :
    ∀ field ∈ held, field.2.Mapped ∧ field.2.depth ≤ room := by
  cases fields with
  | nil =>
    cases read
    exact fun _ member => absurd member List.not_mem_nil
  | cons field rest =>
    obtain ⟨key, item⟩ := field
    simp only [valueFields, Option.bind_eq_bind, Option.bind_eq_some_iff,
      Option.some.injEq] at read
    obtain ⟨first, readFirst, others, readOthers, rfl⟩ := read
    intro field member
    cases List.mem_cons.mp member with
    | inl same => exact same ▸ value_sound readFirst
    | inr later => exact valueFields_sound readOthers field later

end

end Json

end CredSync
