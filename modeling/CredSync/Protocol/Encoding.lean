import CredSync.Protocol.Wire

/-! How canonical encodings of lists grow item by item, as the loops that fill a request
or a batch measure them, and how long single encodings get. -/

namespace CredSync

namespace Canonical

theorem joinComma_concat (parts : List Bytes) (one : Bytes) :
    joinComma (parts ++ [one]) = joinComma parts ++ (if parts.isEmpty then [] else [44]) ++ one := by
  induction parts with
  | nil => rfl
  | cons part rest ih =>
    cases rest with
    | nil => simp [joinComma]
    | cons next rest =>
      have step : joinComma (part :: (next :: rest ++ [one])) =
          part ++ 44 :: joinComma (next :: rest ++ [one]) := rfl
      rw [List.cons_append, step, ih]
      simp [joinComma]

theorem toVec_list [Serialize α] (items : List α) :
    toVec items = 91 :: joinComma (items.map toVec) ++ [93] := by
  change print (.array (items.map Serialize.toValue)) = _
  rw [print, printItems_eq, List.map_map]
  rfl

/-- Appending an item to an encoded list: open it at the end, and close it again. -/
theorem toVec_concat [Serialize α] (items : List α) (item : α) :
    toVec (items ++ [item]) =
      (toVec items).dropLast ++ (if items.isEmpty then [] else [44]) ++ toVec item ++ [93] := by
  have opened : (toVec items).dropLast = 91 :: joinComma (items.map toVec) := by
    rw [toVec_list, List.dropLast_concat]
  rw [opened, toVec_list, List.map_append, List.map_singleton, joinComma_concat, List.isEmpty_map]
  simp only [List.cons_append, List.append_assoc]

theorem length_escapeChar (c : Char) : (escapeChar c).length ≤ 6 := by
  unfold escapeChar
  split_ifs <;> try simp
  exact Nat.le_trans (Char.utf8Size_le_four c) (by decide)

theorem length_quote (s : String) : (quote s).length ≤ 6 * s.toList.length + 2 := by
  have escaped : (s.toList.flatMap escapeChar).length ≤ 6 * s.toList.length := by
    induction s.toList with
    | nil => exact Nat.zero_le _
    | cons c rest ih =>
      rw [List.flatMap_cons, List.length_append, List.length_cons]
      have := length_escapeChar c
      omega
  simp only [quote, List.length_append, List.length_cons, List.length_nil]
  omega

theorem length_quote_asText (s : Bytes) : (quote (asText s)).length ≤ 6 * s.length + 2 := by
  have quoted := length_quote (asText s)
  rwa [asText, String.toList_ofList, List.length_map] at quoted

theorem length_joinComma (parts : List Bytes) :
    (joinComma parts).length ≤ parts.flatten.length + parts.length := by
  induction parts with
  | nil => exact Nat.zero_le _
  | cons part rest ih =>
    cases rest with
    | nil => simp [joinComma]
    | cons next rest =>
      have step : joinComma (part :: next :: rest) = part ++ 44 :: joinComma (next :: rest) := rfl
      rw [List.flatten_cons, step, List.length_append, List.length_append, List.length_cons]
      simp only [List.length_cons] at ih ⊢
      omega

theorem length_ascii_repr (n width : Nat) (positive : 0 < width) (small : n < 10 ^ width) :
    (ascii (toString n)).length ≤ width := by
  rw [ascii, List.length_map]
  exact (Nat.length_repr_le_iff positive).mpr small

end Canonical

/-- One measurement of a loop that fills a buffer: what it holds, what would join, and
the bytes that are measured. -/
structure Measurement (α : Type) where
  taken : List α
  candidate : α
  buf : Bytes

/-- The bytes measured are those of a full encoding. -/
def Measurement.Exact [Serialize α] (measured : Measurement α) : Prop :=
  measured.buf = Canonical.toVec (measured.taken ++ [measured.candidate])

variable {field expected : String} {max : Nat} {ok : UInt8 → Bool}

theorem BoundedString.length_toVec (s : BoundedString field expected max ok) :
    (Canonical.toVec s).length ≤ 6 * max + 2 := by
  have short : s.bytes.length ≤ max := (checked_ok_iff.mp s.valid).2.1
  have quoted := Canonical.length_quote_asText s.bytes
  apply Nat.le_trans quoted
  omega

theorem HexString.length_toVec (s : HexString) : (Canonical.toVec s).length ≤ 6 * 32 + 2 := by
  have quoted := Canonical.length_quote_asText s.bytes
  rw [s.width] at quoted
  exact quoted

/-- Where the digits of byte `k`, with the hyphen before them if there is one, begin. -/
def CommandId.offset (k : Nat) : Nat := 2 * k + min 4 ((k - 3) / 2)

/-- How one byte is written, at its place among the sixteen. -/
def CommandId.piece (byte : UInt8) (k : Nat) : Bytes :=
  (if k = 4 ∨ k = 6 ∨ k = 8 ∨ k = 10 then [45] else []) ++
    [Canonical.nibble (byte.toNat / 16), Canonical.nibble (byte.toNat % 16)]

theorem CommandId.length_pieces (bytes : Bytes) (k : Nat) :
    offset k + ((bytes.zipIdx k).flatMap fun entry => piece entry.1 entry.2).length =
      offset (k + bytes.length) := by
  induction bytes generalizing k with
  | nil => rfl
  | cons byte rest ih =>
    have one : offset k + (piece byte k).length = offset (k + 1) := by
      by_cases hyphen : k = 4 ∨ k = 6 ∨ k = 8 ∨ k = 10
      · rcases hyphen with rfl | rfl | rfl | rfl <;> rfl
      · simp only [piece, if_neg hyphen, offset, List.nil_append, List.length_cons,
          List.length_nil]
        omega
    have others := ih (k + 1)
    rw [List.zipIdx_cons, List.flatMap_cons, List.length_append, List.length_cons, ← Nat.add_assoc,
      one, others]
    congr 1
    omega

theorem CommandId.length_display (id : CommandId) : id.display.length = uuidLen := by
  have shown := length_pieces id.bytes.toList 0
  rw [Vector.length_toList] at shown
  exact (Nat.zero_add _).symm.trans shown

theorem CommandId.length_toVec (id : CommandId) : (Canonical.toVec id).length ≤ 6 * 36 + 2 := by
  have quoted := Canonical.length_quote_asText id.display
  rwa [id.length_display] at quoted

theorem length_toVec_int64 (n : Int64) : (Canonical.toVec n).length ≤ 21 := by
  change (Canonical.print (if 0 ≤ n.toInt then _ else _)).length ≤ 21
  split
  · have digits := Canonical.length_ascii_repr (UInt64.ofNat n.toInt.toNat).toNat 20 (by decide)
      (Nat.lt_trans (UInt64.toNat_lt _) (by decide))
    exact Nat.le_succ_of_le digits
  · have digits := Canonical.length_ascii_repr
      ((Fin.ofNat (2 ^ 63) (-n.toInt - 1).toNat).val + 1) 20 (by decide)
      (Nat.lt_of_le_of_lt (Fin.isLt _) (by decide))
    rw [Canonical.print, Canonical.printNumber, List.length_cons]
    omega

theorem Document.length_toVec (document : Document max field) :
    (Canonical.toVec document).length ≤ max := by
  have valid := document.valid
  unfold Document.check at valid
  split at valid
  · cases valid
  · split at valid
    · cases valid
    · split at valid
      · cases valid
      · exact Nat.le_of_not_lt ‹_›

/-- No command alone comes near the limit of a push. -/
theorem Command.length_toVec (command : Command) :
    (Canonical.toVec [command]).length ≤ Limits.commandsMaxTotalBytes := by
  have checksum := command.checksum.length_toVec
  have clientTs := length_toVec_int64 command.clientTs
  have id := command.id.length_toVec
  have name := command.name.length_toVec
  have payload := command.payload.length_toVec
  have scope := command.scope.length_toVec
  have fields := Canonical.length_joinComma (Canonical.printFields
    [("checksum", Serialize.toValue command.checksum),
      ("client_ts", Serialize.toValue command.clientTs),
      ("id", Serialize.toValue command.id),
      ("name", Serialize.toValue command.name),
      ("payload", Serialize.toValue command.payload),
      ("scope", Serialize.toValue command.scope)])
  have keys : (Canonical.quote "checksum").length + (Canonical.quote "client_ts").length +
      (Canonical.quote "id").length + (Canonical.quote "name").length +
      (Canonical.quote "payload").length + (Canonical.quote "scope").length = 47 := by decide
  simp only [Canonical.printFields, List.flatten_cons, List.flatten_nil, List.length_append,
    List.length_cons, List.length_nil] at fields
  simp only [Canonical.toVec] at checksum clientTs id name payload scope
  have whole : (Canonical.toVec command).length ≤ 100000 := by
    change (123 :: Canonical.joinComma _ ++ [125]).length ≤ _
    simp only [Canonical.printFields, List.length_append, List.length_cons, List.length_nil]
    simp only [Limits.payloadMaxBytes, Limits.scopeMaxBytes, Limits.commandNameMaxBytes] at *
    omega
  rw [Canonical.toVec_list]
  simp only [List.map_cons, List.map_nil, Canonical.joinComma, List.length_append,
    List.length_cons, List.length_nil, Limits.commandsMaxTotalBytes]
  omega

end CredSync
