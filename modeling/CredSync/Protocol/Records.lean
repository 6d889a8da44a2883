import CredSync.Protocol.Laws

/-! Lists, enumerations and derived structs keep the laws their parts keep. A struct is
read from the object it is written as because a sorted map holds each of its columns
under its own name and nothing else there. -/

namespace CredSync

open Checked (Valid)

namespace Canonical

theorem anyFloat_eq_false {items : List Value} :
    anyFloat items = false ↔ ∀ item ∈ items, hasFloat item = false := by
  induction items with
  | nil => simp [anyFloat]
  | cons item rest ih => simp [anyFloat, ih]

theorem anyFieldFloat_eq_false {fields : List (String × Value)} :
    anyFieldFloat fields = false ↔ ∀ field ∈ fields, hasFloat field.2 = false := by
  induction fields with
  | nil => simp [anyFieldFloat]
  | cons field rest ih =>
    obtain ⟨key, value⟩ := field
    simp [anyFieldFloat, ih]

end Canonical

/-! ## Enumerations -/

theorem Json.enumeration_name {α : Type} {variants : List (String × α)} {name : String} {a : α}
    (found : variants.lookup name = some a) (room : Nat) :
    enumeration variants room (string name) = some a := by
  cases room <;> exact found

instance : Checked Op := ⟨fun _ => True⟩
instance : Lawful Op where
  reads {room op} _ _ := by cases op <;> exact Json.enumeration_name rfl room
  sound {_ _ op} _ := by cases op <;> exact ⟨trivial, Nat.zero_le _⟩
  notNull op := by cases op <;> nofun
  floatless op := by cases op <;> rfl

instance : Checked Status := ⟨fun _ => True⟩
instance : Lawful Status where
  reads {room status} _ _ := by cases status <;> exact Json.enumeration_name rfl room
  sound {_ _ status} _ := by cases status <;> exact ⟨trivial, Nat.zero_le _⟩
  notNull status := by cases status <;> nofun
  floatless status := by cases status <;> rfl

instance : Checked ConflictClass := ⟨fun _ => True⟩
instance : Lawful ConflictClass where
  reads {room conflictClass} _ _ := by
    cases conflictClass <;> exact Json.enumeration_name rfl room
  sound {_ _ conflictClass} _ := by cases conflictClass <;> exact ⟨trivial, Nat.zero_le _⟩
  notNull conflictClass := by cases conflictClass <;> nofun
  floatless conflictClass := by cases conflictClass <;> rfl

/-! ## Lists -/

section Lists

variable {α : Type} [Serialize α] [Deserialize α] [Checked α] [Lawful α]

omit [Deserialize α] [Checked α] [Lawful α] in
@[simp] theorem depth_list_le {room : Nat} {items : List α} :
    (Serialize.toValue items).depth ≤ room + 1 ↔
      ∀ item ∈ items, (Serialize.toValue item).depth ≤ room := by
  change (Value.array (items.map Serialize.toValue)).depth ≤ room + 1 ↔ _
  simp

theorem mapM_reads {room : Nat} {items : List α} (valid : ∀ item ∈ items, Valid item)
    (fits : ∀ item ∈ items, (Serialize.toValue item).depth ≤ room) :
    (Json.ofItems (items.map Serialize.toValue)).mapM (Deserialize.read room) = some items := by
  induction items with
  | nil => rfl
  | cons item rest ih =>
    have first := Lawful.reads (valid item List.mem_cons_self) (fits item List.mem_cons_self)
    have others := ih (fun other member => valid other (List.mem_cons_of_mem _ member))
      fun other member => fits other (List.mem_cons_of_mem _ member)
    simp [Json.ofItems, first, others]

theorem mapM_sound {room : Nat} {json : List Json} {items : List α}
    (read : json.mapM (Deserialize.read room) = some items) :
    items.length = json.length ∧
      ∀ item ∈ items, Valid item ∧ (Serialize.toValue item).depth ≤ room := by
  induction json generalizing items with
  | nil =>
    cases read
    exact ⟨rfl, fun _ member => absurd member List.not_mem_nil⟩
  | cons part rest ih =>
    simp only [List.mapM_cons, Option.bind_eq_bind, Option.bind_eq_some_iff] at read
    obtain ⟨first, readFirst, others, readOthers, same⟩ := read
    cases same
    obtain ⟨width, sound⟩ := ih readOthers
    refine ⟨congrArg Nat.succ width, fun item member => ?_⟩
    cases List.mem_cons.mp member with
    | inl same => exact same ▸ Lawful.sound readFirst
    | inr later => exact sound item later

instance : Checked (List α) := ⟨fun items => ∀ item ∈ items, Valid item⟩

instance : Lawful (List α) where
  reads {room items} valid fits := by
    cases room with
    | zero => exact absurd fits (Nat.not_succ_le_zero _)
    | succ room => exact mapM_reads valid (depth_list_le.mp fits)
  sound {room json items} read := by
    cases room with
    | zero => cases json <;> cases read
    | succ room =>
      cases json with
      | array parts =>
        have sound := (mapM_sound read).2
        exact ⟨fun item member => (sound item member).1,
          depth_list_le.mpr fun item member => (sound item member).2⟩
      | _ => cases read
  notNull _ := nofun
  floatless items := by
    apply Canonical.anyFloat_eq_false.mpr
    intro value member
    obtain ⟨item, _, rfl⟩ := List.mem_map.mp member
    exact Lawful.floatless item

omit [Serialize α] [Checked α] [Lawful α] in
/-- Stopping at the limit is refusing what is longer. -/
theorem Bounded.visitSeq_eq (room left : Nat) (json : List Json) :
    visitSeq room left json =
      if json.length ≤ left then json.mapM (Deserialize.read room : Json → Option α) else none := by
  induction json generalizing left with
  | nil => cases left <;> rfl
  | cons part rest ih =>
    cases left with
    | zero => rfl
    | succ left =>
      rw [visitSeq, ih left]
      by_cases short : rest.length ≤ left
      · simp [short]
      · simp [short]

instance {max : Nat} : Checked (Bounded α max) :=
  ⟨fun bounded => Valid bounded.items ∧ bounded.items.length ≤ max⟩

instance {max : Nat} : Lawful (Bounded α max) where
  reads {room bounded} valid fits := by
    cases room with
    | zero => exact absurd fits (Nat.not_succ_le_zero _)
    | succ room =>
      have short : (Json.ofItems (bounded.items.map Serialize.toValue)).length ≤ max := by
        rw [Json.ofItems_eq, List.length_map, List.length_map]
        exact valid.2
      change (Bounded.visitSeq room max (Json.ofItems (bounded.items.map Serialize.toValue))).map
        Bounded.mk = some bounded
      rw [Bounded.visitSeq_eq, if_pos short, mapM_reads valid.1 (depth_list_le.mp fits)]
      rfl
  sound {room json bounded} read := by
    cases room with
    | zero => cases json <;> cases read
    | succ room =>
      cases json with
      | array parts =>
        obtain ⟨items, visited, rfl⟩ := Option.map_eq_some_iff.mp read
        rw [Bounded.visitSeq_eq] at visited
        split at visited
        case isTrue short =>
          obtain ⟨width, sound⟩ := mapM_sound visited
          exact ⟨⟨fun item member => (sound item member).1, width ▸ short⟩,
            depth_list_le.mpr fun item member => (sound item member).2⟩
        case isFalse => cases visited
      | _ => cases read
  notNull _ := nofun
  floatless bounded := Lawful.floatless bounded.items

end Lists

/-! ## Columns -/

namespace Columns

/-- What holds of every value a row writes. -/
def All {ρ : Type} [Columns ρ] (P : Value → Prop) (row : ρ) : Prop :=
  ∀ v, some v ∈ write row → P v

variable {α ρ : Type} [Serialize α] [Deserialize α] [Columns ρ] {P : Value → Prop}

@[simp] theorem all_unit {row : Unit} : All P row := fun _ member =>
  absurd member List.not_mem_nil

@[simp] theorem all_field {row : α × ρ} :
    All P row ↔ P (Serialize.toValue row.1) ∧ All P row.2 := by
  simp [All, write]

@[simp] theorem all_default {row : Option α × ρ} :
    All P row ↔ (∀ a, row.1 = some a → P (Serialize.toValue a)) ∧ All P row.2 := by
  obtain ⟨held, others⟩ := row
  cases held <;> simp [All, write]

end Columns

/-- The laws of `Lawful` for columns, each within the room the struct leaves. -/
class LawfulColumns (ρ : Type) [Columns ρ] [Checked ρ] : Prop where
  reads : ∀ {room : Nat} {row : ρ}, Valid row → Columns.All (·.depth ≤ room) row →
    Columns.read room ((Columns.write row).map (Option.map .ofValue)) = some row
  sound : ∀ {room : Nat} {cells : List (Option Json)} {row : ρ},
    Columns.read room cells = some row → Valid row ∧ Columns.All (·.depth ≤ room) row
  floatless : ∀ row : ρ, Columns.All (Canonical.hasFloat · = false) row

instance : Checked Unit := ⟨fun _ => True⟩
instance : LawfulColumns Unit where
  reads _ _ := rfl
  sound _ := ⟨trivial, Columns.all_unit⟩
  floatless _ := Columns.all_unit

section Products

variable {α ρ : Type} [Serialize α] [Deserialize α] [Checked α] [Lawful α]
variable [Columns ρ] [Checked ρ] [LawfulColumns ρ]

instance : Checked (α × ρ) := ⟨fun row => Valid row.1 ∧ Valid row.2⟩

instance : LawfulColumns (α × ρ) where
  reads {room row} valid fits := by
    obtain ⟨fits, fitOthers⟩ := Columns.all_field.mp fits
    have first := Lawful.reads valid.1 fits
    have others := LawfulColumns.reads valid.2 fitOthers
    simp only [Columns.write, List.map_cons, Option.map_some, Columns.read, first, others,
      Option.bind_eq_bind, Option.bind_some]
  sound {room cells row} read := by
    cases cells with
    | nil => cases read
    | cons cell rest =>
      cases cell with
      | none => cases read
      | some json =>
        simp only [Columns.read, Option.bind_eq_bind, Option.bind_eq_some_iff] at read
        obtain ⟨first, readFirst, others, readOthers, same⟩ := read
        cases same
        obtain ⟨valid, fits⟩ := Lawful.sound readFirst
        obtain ⟨validOthers, fitOthers⟩ := LawfulColumns.sound readOthers
        exact ⟨⟨valid, validOthers⟩, Columns.all_field.mpr ⟨fits, fitOthers⟩⟩
  floatless row := Columns.all_field.mpr ⟨Lawful.floatless row.1, LawfulColumns.floatless row.2⟩

instance : Checked (Option α × ρ) := ⟨fun row => (∀ a, row.1 = some a → Valid a) ∧ Valid row.2⟩

/-- `null` stands for a missing value, and no value is written as `null`. -/
instance : LawfulColumns (Option α × ρ) where
  reads {room row} valid fits := by
    obtain ⟨held, others⟩ := row
    obtain ⟨fits, fitOthers⟩ := Columns.all_default.mp fits
    have readOthers := LawfulColumns.reads valid.2 fitOthers
    cases held with
    | none =>
      simp only [Columns.write, List.map_cons, Option.map_none, Columns.read, readOthers,
        Option.map_some]
    | some a =>
      have first := Lawful.reads (valid.1 a rfl) (fits a rfl)
      have present := Lawful.notNull a
      simp only [Columns.write, List.map_cons, Option.map_some]
      generalize Serialize.toValue a = v at first present
      cases v with
      | null => exact absurd rfl present
      | _ =>
        simp only [Json.ofValue, Columns.read] at first ⊢
        simp [first, readOthers]
  sound {room cells row} read := by
    have missing : ∀ rest, (Columns.read room rest).map (fun others => ((none : Option α), others)) =
        some row → Valid row ∧ Columns.All (·.depth ≤ room) row := by
      intro rest skipped
      obtain ⟨others, readOthers, same⟩ := Option.map_eq_some_iff.mp skipped
      cases same
      obtain ⟨validOthers, fitOthers⟩ := LawfulColumns.sound readOthers
      exact ⟨⟨nofun, validOthers⟩, Columns.all_default.mpr ⟨nofun, fitOthers⟩⟩
    have present : ∀ json rest, ((Deserialize.read room json).bind fun first =>
        (Columns.read room rest).bind fun others => some ((some first : Option α), others)) =
          some row → Valid row ∧ Columns.All (·.depth ≤ room) row := by
      intro json rest readBoth
      simp only [Option.bind_eq_some_iff] at readBoth
      obtain ⟨first, readFirst, others, readOthers, same⟩ := readBoth
      cases same
      obtain ⟨valid, fits⟩ := Lawful.sound readFirst
      obtain ⟨validOthers, fitOthers⟩ := LawfulColumns.sound readOthers
      refine ⟨⟨fun a same => ?_, validOthers⟩, Columns.all_default.mpr ⟨fun a same => ?_, fitOthers⟩⟩
      · exact Option.some.inj same ▸ valid
      · exact Option.some.inj same ▸ fits
    cases cells with
    | nil => cases read
    | cons cell rest =>
      cases cell with
      | none => exact missing rest read
      | some json =>
        cases json with
        | null => exact missing rest read
        | _ => exact present _ rest read
  floatless row := Columns.all_default.mpr
    ⟨fun a _ => Lawful.floatless a, LawfulColumns.floatless row.2⟩

end Products

/-! ## Structs -/

section Structs

variable {names : List String} {cells : List (Option Value)}

theorem Value.present_cons (name : String) (cell : Option Value) :
    present (name :: names) (cell :: cells) =
      (cell.map fun value => (name, value)).toList ++ present names cells := by
  cases cell <;> rfl

theorem Value.present_names (names : List String) (cells : List (Option Value)) :
    ((present names cells).map Prod.fst).Sublist names := by
  induction names generalizing cells with
  | nil => exact List.Sublist.refl _
  | cons name names ih =>
    cases cells with
    | nil => exact List.nil_sublist _
    | cons cell cells =>
      rw [present_cons]
      cases cell with
      | none => exact (ih cells).cons name
      | some value => exact (ih cells).cons_cons name

/-- The entries written are the columns that hold something. -/
theorem Value.present_forall {P : Value → Prop} (width : cells.length = names.length) :
    (∀ field ∈ present names cells, P field.2) ↔ ∀ v, some v ∈ cells → P v := by
  induction names generalizing cells with
  | nil =>
    cases List.eq_nil_of_length_eq_zero width
    simp [present]
  | cons name names ih =>
    cases cells with
    | nil => cases width
    | cons cell cells =>
      have others := ih (Nat.succ.inj width)
      cases cell with
      | none => simpa [present_cons] using others
      | some value =>
        have entries : present (name :: names) (some value :: cells) =
            (name, value) :: present names cells := present_cons name (some value)
        rw [entries, List.forall_mem_cons, others]
        simp

/-- Under the name of a column stands what the column holds. -/
theorem Value.filter_present (distinct : names.Nodup) {name : String} {cell : Option Value}
    (member : (name, cell) ∈ names.zip cells) :
    ((present names cells).filter fun field => field.1 = name) =
      (cell.map fun value => (name, value)).toList := by
  induction names generalizing cells with
  | nil => cases member
  | cons first names ih =>
    cases cells with
    | nil => cases member
    | cons other cells =>
      obtain ⟨absent, distinct⟩ := List.nodup_cons.mp distinct
      rw [present_cons, List.filter_append]
      cases List.mem_cons.mp member with
      | inl same =>
        cases same
        have nowhere : ((present names cells).filter fun field => field.1 = name) = [] := by
          apply List.filter_eq_nil_iff.mpr
          intro field held named
          have key := (present_names names cells).subset (List.mem_map_of_mem held)
          exact absent (of_decide_eq_true named ▸ key)
        rw [nowhere, List.append_nil]
        cases cell <;> simp
      | inr later =>
        have elsewhere : first ≠ name := fun same => absent (same ▸ (List.of_mem_zip later).1)
        rw [ih distinct later]
        cases other <;> simp [elsewhere]

/-- The same in the sorted map, whose entries are these in another order. -/
theorem Value.filter_ofList_present (distinct : names.Nodup) {name : String} {cell : Option Value}
    (member : (name, cell) ∈ names.zip cells) :
    ((SortedMap.ofList (present names cells)).filter fun field => field.1 = name) =
      (cell.map fun value => (name, value)).toList := by
  have keys := distinct.sublist (present_names names cells)
  have permuted := (SortedMap.ofList_perm keys).filter fun field => field.1 = name
  rw [filter_present distinct member] at permuted
  cases cell with
  | none => exact permuted.eq_nil
  | some value => exact List.perm_singleton.mp permuted

theorem Json.field_present (distinct : names.Nodup) {name : String} {cell : Option Value}
    (member : (name, cell) ∈ names.zip cells) :
    field (ofFields (SortedMap.ofList (Value.present names cells))) name =
      some (cell.map ofValue) := by
  have held := Value.filter_ofList_present distinct member
  have shown : ((ofFields (SortedMap.ofList (Value.present names cells))).filter
      fun field => field.1 = name) = (cell.map fun value => (name, ofValue value)).toList := by
    rw [ofFields_eq, List.filter_map]
    have same : ((fun field : String × Json => decide (field.1 = name)) ∘
        fun field : String × Value => (field.1, ofValue field.2)) =
          fun field : String × Value => decide (field.1 = name) := rfl
    rw [same, held]
    cases cell <;> rfl
  rw [field, shown]
  cases cell <;> rfl

/-- A written struct is taken apart into its columns again. -/
theorem Json.cells_present (distinct : names.Nodup) (width : cells.length = names.length) :
    Json.cells names (ofValue (.object (SortedMap.ofList (Value.present names cells)))) =
      some (cells.map (Option.map ofValue)) := by
  have walk : ∀ (f : String → Option (Option Json)) (names : List String)
      (cells : List (Option Value)), cells.length = names.length →
      (∀ entry ∈ names.zip cells, f entry.1 = some (entry.2.map ofValue)) →
      names.mapM f = some (cells.map (Option.map ofValue)) := by
    intro f names
    induction names with
    | nil =>
      intro cells width _
      cases List.eq_nil_of_length_eq_zero width
      rfl
    | cons name names ih =>
      intro cells width found
      cases cells with
      | nil => cases width
      | cons cell cells =>
        have first := found (name, cell) List.mem_cons_self
        have others := ih cells (Nat.succ.inj width) fun entry member =>
          found entry (List.mem_cons_of_mem _ member)
        simp [first, others]
  exact walk _ names cells width fun entry member => field_present distinct member

end Structs

section Derived

variable {σ ρ : Type} [Columns ρ] [Record σ ρ]

theorem Record.written (P : Value → Prop) (value : σ) :
    (∀ field ∈ SortedMap.ofList (Value.present (names σ) (Columns.write (row value))), P field.2) ↔
      Columns.All P (row value) := by
  have keys := (@distinct σ ρ _ _).sublist
    (Value.present_names (names σ) (Columns.write (row value)))
  have entries := SortedMap.ofList_perm keys
  rw [Columns.All, ← Value.present_forall (@width σ ρ _ _ (row value))]
  constructor
  · exact fun every field member => every field (entries.mem_iff.mpr member)
  · exact fun every field member => every field (entries.mem_iff.mp member)

/-- A struct nests one level deeper than its deepest column. -/
theorem Record.depth_toValue_le {room : Nat} {value : σ} :
    (Record.toValue value).depth ≤ room + 1 ↔ Columns.All (·.depth ≤ room) (row value) := by
  rw [Record.toValue, Value.depth_object_le]
  exact Record.written (fun v => v.depth ≤ room) value

variable [Serialize σ] [Deserialize σ] [Checked σ] [Checked ρ] [LawfulColumns ρ]

/-- A derived struct is lawful when its rules are those of its columns and its check. -/
theorem Record.lawful (encodes : ∀ value : σ, Serialize.toValue value = Record.toValue value)
    (decodes : ∀ room json, (Deserialize.read room json : Option σ) = Record.read room json)
    (rules : ∀ value : σ, Valid value ↔ Valid (row value) ∧ validate value = .ok ()) :
    Lawful σ where
  reads {room value} valid fits := by
    obtain ⟨columns, passes⟩ := (rules value).mp valid
    rw [encodes] at fits ⊢
    rw [decodes]
    cases room with
    | zero => exact absurd fits (Nat.not_succ_le_zero _)
    | succ room =>
      have taken := Json.cells_present (@distinct σ ρ _ _) (@width σ ρ _ _ (row value))
      have back := LawfulColumns.reads columns (Record.depth_toValue_le.mp fits)
      rw [Record.toValue, Record.read, taken]
      simp only [Option.bind_eq_bind, Option.bind_some, back, ofRow_row, passes]
  sound {room json value} read := by
    rw [decodes] at read
    rw [encodes]
    cases room with
    | zero => cases read
    | succ room =>
      simp only [Record.read, Option.bind_eq_bind, Option.bind_eq_some_iff] at read
      obtain ⟨cells, _, columns, readColumns, checked⟩ := read
      split at checked
      case h_2 => cases checked
      case h_1 passes =>
        cases checked
        obtain ⟨valid, fits⟩ := LawfulColumns.sound readColumns
        constructor
        · apply (rules _).mpr
          rw [row_ofRow]
          exact ⟨valid, passes⟩
        · apply Record.depth_toValue_le.mpr
          rwa [row_ofRow]
  notNull value := by
    rw [encodes]
    nofun
  floatless value := by
    rw [encodes]
    apply Canonical.anyFieldFloat_eq_false.mpr
    exact (Record.written _ value).mpr (LawfulColumns.floatless (row value))

end Derived

end CredSync
