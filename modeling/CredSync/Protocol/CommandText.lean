import CredSync.Protocol.Laws

/-! The text form of a command identifier. The parser walks positions, one for a hyphen and
two for a byte, and the printer walks bytes; each undoes the other. -/

namespace CredSync

namespace CommandId

/-! ### The loop as it indexes -/

/-- The loop of `parse` over positions, filling the bytes in place. `none` is an index out
of range, which would panic. -/
def parseLoop (s : Bytes) (i outI : Nat) (out : Vector UInt8 16) :
    Option (Except ProtocolError CommandId) :=
  if i < uuidLen then
    if i ∈ hyphensAt then
      match s[i]? with
      | none => none
      | some byte =>
        if byte ≠ 45 then some (.error .malformedUuid) else parseLoop s (i + 1) outI out
    else
      match s[i]? with
      | none => none
      | some byte =>
        -- The second digit is fetched with `get`, which does not panic.
        match hexNibble byte, s[i + 1]?.bind hexNibble with
        | some hi, some lo =>
          if room : outI < 16 then
            parseLoop s (i + 2) (outI + 1) (out.set outI (UInt8.ofNat (hi <<< 4 ||| lo)))
          else some (.error .malformedUuid)
        | _, _ => some (.error .malformedUuid)
  else if outI ≠ 16 then some (.error .malformedUuid)
  else some (fromBytes out)
termination_by uuidLen - i

/-- `CommandId::parse` with every index it takes. -/
def parseIndexed (s : Bytes) : Option (Except ProtocolError CommandId) :=
  if s.length ≠ uuidLen then some (.error .malformedUuid)
  else parseLoop s 0 0 (Vector.replicate 16 0)

/-- What `parse` makes of the bytes read so far and of those still to come. -/
def settle (read : Bytes) : Except ProtocolError Bytes → Except ProtocolError CommandId
  | .error e => .error e
  | .ok rest =>
    if width : (read ++ rest).toArray.size = 16 then fromBytes ⟨(read ++ rest).toArray, width⟩
    else .error .malformedUuid

theorem parse_eq_settle {s : Bytes} (width : s.length = uuidLen) :
    parse s = settle [] (parseFrom 0 s) := by
  unfold parse
  rw [if_neg (not_not_intro width)]
  cases parseFrom 0 s <;> rfl

theorem parseFrom_error {i : Nat} {s : Bytes} {e : ProtocolError}
    (refused : parseFrom i s = .error e) : e = .malformedUuid := by
  fun_induction parseFrom i s with
  | case1 => cases refused
  | case2 i rest here ih => exact ih refused
  | case3 =>
    cases refused
    rfl
  | case4 i byte digits hi next rest high lo low ih =>
    cases later : parseFrom (i + 2) rest with
    | error e' =>
      rw [later] at refused ih
      cases refused
      exact ih rfl
    | ok out =>
      rw [later] at refused
      cases refused
  | case5 =>
    cases refused
    rfl
  | case6 =>
    cases refused
    rfl

/-- Past the sixteenth byte nothing can be accepted. -/
theorem settle_full {read : Bytes} (full : 16 < read.length) (rest : Except ProtocolError Bytes)
    (error : ∀ e, rest = .error e → e = .malformedUuid) :
    settle read rest = .error .malformedUuid := by
  cases rest with
  | error e => rw [settle, error e rfl]
  | ok rest =>
    apply dif_neg
    rw [List.size_toArray, List.length_append]
    omega

theorem settle_short {read : Bytes} (short : read.length ≠ 16) :
    settle read (.ok []) = .error .malformedUuid := by
  apply dif_neg
  rwa [List.append_nil, List.size_toArray]

theorem settle_whole (out : Vector UInt8 16) : settle out.toList (.ok []) = fromBytes out := by
  have filled : (out.toList ++ []).toArray.size = 16 := by
    rw [List.append_nil, List.size_toArray, Vector.length_toList]
  have same : (⟨(out.toList ++ []).toArray, filled⟩ : Vector UInt8 16) = out := by
    apply Vector.toArray_inj.mp
    exact (congrArg List.toArray (List.append_nil _)).trans Array.toArray_toList
  exact (dif_pos filled).trans (congrArg fromBytes same)

theorem settle_map (read : Bytes) (byte : UInt8) (rest : Except ProtocolError Bytes) :
    settle read (rest.map (byte :: ·)) = settle (read ++ [byte]) rest := by
  cases rest with
  | error e => rfl
  | ok rest => simp only [Except.map, settle, List.append_assoc, List.cons_append, List.nil_append]

theorem parseFrom_other {i : Nat} (here : i ∈ hyphensAt) {byte : UInt8} (other : byte ≠ 45)
    (rest : Bytes) : parseFrom i (byte :: rest) = .error .malformedUuid := by
  rw [parseFrom.eq_def]
  simp only [if_pos here, if_neg other]

theorem parseFrom_pair {i : Nat} (digits : i ∉ hyphensAt) {byte next : UInt8}
    (high : hexNibble byte = some hi) (low : hexNibble next = some lo) (rest : Bytes) :
    parseFrom i (byte :: next :: rest) =
      (parseFrom (i + 2) rest).map (UInt8.ofNat (hi <<< 4 ||| lo) :: ·) := by
  rw [parseFrom.eq_def]
  simp only [if_neg digits, high, low]

theorem parseFrom_unpaired {i : Nat} (digits : i ∉ hyphensAt) {byte : UInt8} {rest : Bytes}
    (unpaired : ∀ hi lo, hexNibble byte = some hi → rest.head?.bind hexNibble = some lo → False) :
    parseFrom i (byte :: rest) = .error .malformedUuid := by
  rw [parseFrom.eq_def]
  simp only [if_neg digits]
  cases high : hexNibble byte with
  | none => rfl
  | some hi =>
    cases rest with
    | nil => rfl
    | cons next rest =>
      cases low : hexNibble next with
      | none => simp only [low]
      | some lo => exact absurd low (unpaired hi lo high)

private theorem drop_of_getElem? {s : Bytes} {i : Nat} {byte : UInt8} (found : s[i]? = some byte) :
    s.drop i = byte :: s.drop (i + 1) := by
  obtain ⟨inside, same⟩ := List.getElem?_eq_some_iff.mp found
  rw [List.drop_eq_getElem_cons inside, same]

private theorem take_set {out : Vector UInt8 16} {outI : Nat} (room : outI < 16) (byte : UInt8) :
    (out.set outI byte).toList.take (outI + 1) = out.toList.take outI ++ [byte] := by
  have inside : outI < out.toList.length := by rwa [Vector.length_toList]
  rw [Vector.toList_set, List.set_eq_take_append_cons_drop, if_pos inside, List.append_cons]
  apply List.take_left'
  rw [List.length_append, List.length_take, List.length_singleton]
  omega

/-- No index of the loop is ever out of range, and the loop reads what `parseFrom` reads. -/
theorem parseLoop_eq {s : Bytes} (width : s.length = uuidLen) {i outI : Nat} (here : i ≤ uuidLen)
    (room : outI ≤ 16) (out : Vector UInt8 16) :
    parseLoop s i outI out = some (settle (out.toList.take outI) (parseFrom i (s.drop i))) := by
  induction i, outI, out using parseLoop.induct s with
  | case1 i outI out below hyphen outside =>
    exact absurd (List.getElem?_eq_none_iff.mp outside) (by omega)
  | case2 i outI out below hyphen byte found other =>
    rw [parseLoop, if_pos below, if_pos hyphen, drop_of_getElem? found, parseFrom_other hyphen other]
    simp only [found, if_pos other]
    rfl
  | case3 i outI out below hyphen byte found same ih =>
    have dash : byte = 45 := not_not.mp same
    subst dash
    rw [parseLoop, if_pos below, if_pos hyphen, drop_of_getElem? found, parseFrom_hyphen hyphen]
    simp only [found, if_neg same]
    exact ih below room
  | case4 i outI out below digits outside =>
    exact absurd (List.getElem?_eq_none_iff.mp outside) (by omega)
  | case5 i outI out below digits byte found hi lo low high free ih =>
    obtain ⟨next, second, low'⟩ := Option.bind_eq_some_iff.mp low
    have inside : i + 1 < s.length := (List.getElem?_eq_some_iff.mp second).1
    rw [parseLoop, if_pos below, if_neg digits, drop_of_getElem? found, drop_of_getElem? second,
      parseFrom_pair digits high low', settle_map, ← take_set free]
    simp only [found, high, low, dif_pos free]
    exact ih (by omega) free
  | case6 i outI out below digits byte found hi lo low high full =>
    obtain ⟨next, second, low'⟩ := Option.bind_eq_some_iff.mp low
    have filled : outI = 16 := by omega
    subst filled
    rw [parseLoop, if_pos below, if_neg digits, drop_of_getElem? found, drop_of_getElem? second,
      parseFrom_pair digits high low', settle_map, settle_full _ _ fun e => parseFrom_error]
    · simp only [found, high, low, dif_neg full]
    · simp
  | case7 i outI out below digits byte found unpaired =>
    have refused : parseFrom i (byte :: s.drop (i + 1)) = .error .malformedUuid := by
      apply parseFrom_unpaired digits
      rw [List.head?_drop]
      exact unpaired
    rw [parseLoop, if_pos below, if_neg digits, drop_of_getElem? found, refused]
    simp only [found]
    rfl
  | case8 i outI out finished short =>
    have all : s.drop i = [] := List.drop_eq_nil_of_le (by omega)
    have taken : (out.toList.take outI).length ≠ 16 := by
      rw [List.length_take, Vector.length_toList]
      omega
    rw [parseLoop, if_neg finished, if_pos short, all, parseFrom, settle_short taken]
  | case9 i outI out finished full =>
    have all : s.drop i = [] := List.drop_eq_nil_of_le (by omega)
    have whole : outI = 16 := not_not.mp full
    have taken : out.toList.take outI = out.toList :=
      List.take_of_length_le (by rw [Vector.length_toList, whole])
    rw [parseLoop, if_neg finished, if_neg full, all, parseFrom, taken, settle_whole]

/-- `parse` never panics. -/
theorem parseIndexed_eq (s : Bytes) : parseIndexed s = some (parse s) := by
  unfold parseIndexed
  by_cases width : s.length = uuidLen
  · rw [if_neg (not_not_intro width), parseLoop_eq width (Nat.zero_le _) (Nat.zero_le _),
      parse_eq_settle width]
    rfl
  · rw [if_pos width, parse, if_pos width]

/-! ### What is accepted -/

/-- What may stand at a position: a hyphen where one belongs, a digit everywhere else. -/
def Fits (position : Nat) (byte : UInt8) : Prop :=
  if position ∈ hyphensAt then byte = 45 else isLowerHex byte = true

/-- A hyphenated lowercase UUIDv7. -/
structure Written (s : Bytes) : Prop where
  width : s.length = uuidLen
  fits : ∀ position byte, s[position]? = some byte → Fits position byte
  version : s[14]? = some 55

/-- The positions the loop stops at: where the digits of a byte, or the hyphen before them,
begin, and where they begin after the hyphen. -/
def stops : List Nat := [0, 2, 4, 6, 8, 9, 11, 13, 14, 16, 18, 19, 21, 23, 24, 26, 28, 30, 32, 34, 36]

private theorem stops_hyphen : ∀ i ∈ stops, i ∈ hyphensAt → i + 1 ∈ stops := by decide

private theorem stops_digits : ∀ i ∈ stops, i ∉ hyphensAt → i < uuidLen →
    i + 1 < uuidLen ∧ i + 1 ∉ hyphensAt ∧ i + 2 ∈ stops := by decide

private theorem fits_cons {i : Nat} {byte : UInt8} {rest : Bytes} :
    (∀ j b, (byte :: rest)[j]? = some b → Fits (i + j) b) ↔
      Fits i byte ∧ ∀ j b, rest[j]? = some b → Fits (i + 1 + j) b := by
  constructor
  · intro fits
    refine ⟨fits 0 byte rfl, ?_⟩
    intro j b found
    rw [Nat.add_right_comm i 1 j]
    exact fits (j + 1) b found
  · intro ⟨head, tail⟩ j b found
    cases j with
    | zero =>
      cases found
      exact head
    | succ j =>
      rw [← Nat.add_assoc, Nat.add_right_comm i j 1]
      exact tail j b found

private theorem isLowerHex_iff {byte : UInt8} :
    isLowerHex byte = true ↔ ∃ digit, hexNibble byte = some digit :=
  Option.isSome_iff_exists

/-- The loop accepts a rest of the right width when every position of it fits. -/
theorem parseFrom_ok_iff {i : Nat} (stop : i ∈ stops) {s : Bytes} (width : i + s.length = uuidLen) :
    (∃ out, parseFrom i s = .ok out) ↔ ∀ j byte, s[j]? = some byte → Fits (i + j) byte := by
  induction i, s using parseFrom.induct with
  | case1 i =>
    constructor
    · intro _ j byte found
      cases found
    · intro _
      exact ⟨[], by rw [parseFrom]⟩
  | case2 i rest here ih =>
    have later := ih (stops_hyphen i stop here) (by rw [← width, List.length_cons]; omega)
    rw [parseFrom_hyphen here, later, fits_cons, Fits, if_pos here]
    exact (and_iff_right rfl).symm
  | case3 i byte rest here other =>
    rw [parseFrom_other here other, fits_cons, Fits, if_pos here]
    constructor
    · rintro ⟨out, impossible⟩
      cases impossible
    · rintro ⟨dash, _⟩
      exact absurd dash other
  | case4 i byte digits hi next rest high lo low ih =>
    have below : i < uuidLen := by
      rw [← width, List.length_cons]
      omega
    obtain ⟨_, second, onward⟩ := stops_digits i stop digits below
    have later := ih onward (by rw [← width, List.length_cons, List.length_cons]; omega)
    rw [parseFrom_pair digits high low, fits_cons, fits_cons, Fits, Fits, if_neg digits,
      if_neg second, ← later, isLowerHex_iff, isLowerHex_iff]
    constructor
    · rintro ⟨out, read⟩
      cases rest' : parseFrom (i + 2) rest with
      | error e =>
        rw [rest'] at read
        cases read
      | ok out => exact ⟨⟨hi, high⟩, ⟨lo, low⟩, out, rfl⟩
    · rintro ⟨_, _, out, read⟩
      rw [read]
      exact ⟨_, rfl⟩
  | case5 i byte digits hi next rest high unread =>
    have below : i < uuidLen := by
      rw [← width, List.length_cons]
      omega
    obtain ⟨_, second, _⟩ := stops_digits i stop digits below
    have refused : parseFrom i (byte :: next :: rest) = .error .malformedUuid := by
      apply parseFrom_unpaired digits
      intro _ lo _ low
      rw [List.head?_cons, Option.bind_some, unread] at low
      cases low
    rw [refused, fits_cons, fits_cons]
    constructor
    · rintro ⟨out, impossible⟩
      cases impossible
    · rintro ⟨_, fits, _⟩
      rw [Fits, if_neg second, isLowerHex, unread] at fits
      cases fits
  | case6 i byte rest digits unpaired =>
    have below : i < uuidLen := by
      rw [← width, List.length_cons]
      omega
    obtain ⟨room, _, _⟩ := stops_digits i stop digits below
    cases rest with
    | nil =>
      rw [← width] at room
      exact absurd room (lt_irrefl _)
    | cons next rest =>
      have refused : parseFrom i (byte :: next :: rest) = .error .malformedUuid := by
        apply parseFrom_unpaired digits
        intro hi _ high _
        exact unpaired hi next rest high rfl
      rw [refused, fits_cons]
      constructor
      · rintro ⟨out, impossible⟩
        cases impossible
      · rintro ⟨fits, _⟩
        rw [Fits, if_neg digits] at fits
        obtain ⟨hi, high⟩ := isLowerHex_iff.mp fits
        exact (unpaired hi next rest high rfl).elim

/-! ### What is printed back -/

private theorem nibble_of_hexNibble {byte : UInt8} {digit : Nat} (read : hexNibble byte = some digit) :
    digit < 16 ∧ Canonical.nibble digit = byte := by
  unfold hexNibble isAsciiDigit at read
  split at read
  · rename_i decimal
    cases read
    obtain ⟨lower, upper⟩ := Bool.and_eq_true_iff.mp decimal
    have lower : 48 ≤ byte.toNat := UInt8.le_iff_toNat_le.mp (of_decide_eq_true lower)
    have upper : byte.toNat ≤ 57 := UInt8.le_iff_toNat_le.mp (of_decide_eq_true upper)
    have whole : 48 + (byte.toNat - 48) = byte.toNat := by omega
    refine ⟨by omega, ?_⟩
    rw [Canonical.nibble, if_pos (by omega), whole, UInt8.ofNat_toNat]
  · split at read
    · rename_i letter
      cases read
      obtain ⟨lower, upper⟩ := Bool.and_eq_true_iff.mp letter
      have lower : 97 ≤ byte.toNat := UInt8.le_iff_toNat_le.mp (of_decide_eq_true lower)
      have upper : byte.toNat ≤ 102 := UInt8.le_iff_toNat_le.mp (of_decide_eq_true upper)
      have whole : 97 + (byte.toNat - 97 + 10) - 10 = byte.toNat := by omega
      refine ⟨by omega, ?_⟩
      rw [Canonical.nibble, if_neg (by omega), whole, UInt8.ofNat_toNat]
    · cases read

private theorem packed_nibbles {hi lo : Nat} (high : hi < 16) (low : lo < 16) :
    (UInt8.ofNat (hi <<< 4 ||| lo)).toNat = hi * 16 + lo := by
  have whole : hi <<< 4 ||| lo = hi * 16 + lo := by
    rw [← Nat.shiftLeft_add_eq_or_of_lt low, Nat.shiftLeft_eq]
  rw [whole]
  exact Nat.mod_eq_of_lt (by omega)

/-- Two digits that were read are the two digits of the byte they became. -/
theorem digits_of_pair {byte next : UInt8} (high : hexNibble byte = some hi)
    (low : hexNibble next = some lo) :
    [byte, next] = [Canonical.nibble ((UInt8.ofNat (hi <<< 4 ||| lo)).toNat / 16),
      Canonical.nibble ((UInt8.ofNat (hi <<< 4 ||| lo)).toNat % 16)] := by
  obtain ⟨highSmall, first⟩ := nibble_of_hexNibble high
  obtain ⟨lowSmall, second⟩ := nibble_of_hexNibble low
  have upper : (hi * 16 + lo) / 16 = hi := by omega
  have lower : (hi * 16 + lo) % 16 = lo := by omega
  rw [packed_nibbles highSmall lowSmall, upper, lower, first, second]

/-- What was read at the place of two digits is a byte written there. -/
theorem parseFrom_digits_inv {i : Nat} (digits : i ∉ hyphensAt) {s out : Bytes} (more : s ≠ [])
    (read : parseFrom i s = .ok out) :
    ∃ byte rest later, s = Canonical.nibble (byte.toNat / 16) ::
      Canonical.nibble (byte.toNat % 16) :: rest ∧ out = byte :: later ∧
      parseFrom (i + 2) rest = .ok later := by
  cases s with
  | nil => exact absurd rfl more
  | cons first tail =>
    have paired : ∃ hi lo, hexNibble first = some hi ∧ tail.head?.bind hexNibble = some lo := by
      by_contra unpaired
      rw [parseFrom_unpaired digits fun hi lo high low => unpaired ⟨hi, lo, high, low⟩] at read
      cases read
    obtain ⟨hi, lo, high, found⟩ := paired
    obtain ⟨second, head, low⟩ := Option.bind_eq_some_iff.mp found
    obtain ⟨rest, rfl⟩ := List.head?_eq_some_iff.mp head
    have printed := digits_of_pair high low
    rw [parseFrom_pair digits high low] at read
    cases later : parseFrom (i + 2) rest with
    | error e =>
      rw [later] at read
      cases read
    | ok out =>
      rw [later] at read
      cases read
      exact ⟨_, rest, out, congrArg (· ++ rest) printed, rfl, later⟩

theorem parseFrom_hyphen_inv {i : Nat} (here : i ∈ hyphensAt) {s out : Bytes} (more : s ≠ [])
    (read : parseFrom i s = .ok out) :
    ∃ rest, s = 45 :: rest ∧ parseFrom (i + 1) rest = .ok out := by
  cases s with
  | nil => exact absurd rfl more
  | cons byte rest =>
    by_cases dash : byte = 45
    · subst dash
      rw [parseFrom_hyphen here] at read
      exact ⟨rest, rfl, read⟩
    · rw [parseFrom_other here dash] at read
      cases read

/-- What was read from the place of byte `k` on is what its bytes are printed as. -/
theorem pieces_of_parseFrom {k : Nat} (small : k ≤ 16) {s out : Bytes}
    (width : offset k + s.length = uuidLen) (read : parseFrom (offset k) s = .ok out) :
    s = (out.zipIdx k).flatMap fun entry => piece entry.1 entry.2 := by
  induction left : 16 - k generalizing k s out with
  | zero =>
    have final : k = 16 := by omega
    subst final
    have empty : s = [] := List.length_eq_zero_iff.mp (Nat.add_left_cancel (k := 0) width)
    subst empty
    cases read
    rfl
  | succ left ih =>
    have next : k + 1 ≤ 16 := by omega
    have inside : offset k < uuidLen := by
      simp only [offset, uuidLen]
      omega
    have more : s ≠ [] := by
      rintro rfl
      exact absurd width (Nat.ne_of_lt inside)
    by_cases hyphen : k = 4 ∨ k = 6 ∨ k = 8 ∨ k = 10
    · obtain ⟨here, digits, after, short⟩ := offset_hyphen hyphen
      obtain ⟨tail, rfl, behind⟩ := parseFrom_hyphen_inv here more read
      have left : tail ≠ [] := by
        rintro rfl
        exact absurd width (Nat.ne_of_lt short)
      obtain ⟨byte, rest, later, rfl, rfl, onward⟩ := parseFrom_digits_inv digits left behind
      rw [after] at onward
      have remaining : offset (k + 1) + rest.length = uuidLen := by
        rw [← after, ← width, List.length_cons, List.length_cons, List.length_cons]
        omega
      rw [List.zipIdx_cons, List.flatMap_cons, ← ih next remaining onward (by omega), piece,
        if_pos hyphen]
      rfl
    · obtain ⟨here, after⟩ := offset_plain hyphen
      obtain ⟨byte, rest, later, rfl, rfl, onward⟩ := parseFrom_digits_inv here more read
      rw [after] at onward
      have remaining : offset (k + 1) + rest.length = uuidLen := by
        rw [← after, ← width, List.length_cons, List.length_cons]
        omega
      rw [List.zipIdx_cons, List.flatMap_cons, ← ih next remaining onward (by omega), piece,
        if_neg hyphen]
      rfl

/-- The character at position 14 is the high half of byte 6. -/
private theorem pieces_version (out : Bytes) (width : out.length = 16) :
    ((out.zipIdx 0).flatMap fun entry => piece entry.1 entry.2)[14]? =
      some (Canonical.nibble (out[6].toNat / 16)) := by
  have split : out = out.take 6 ++ out[6] :: out.drop 7 := by
    rw [← List.drop_eq_getElem_cons, List.take_append_drop]
  have before := length_pieces (out.take 6) 0
  have taken : (out.take 6).length = 6 := by
    rw [List.length_take]
    omega
  have start : offset 0 = 0 ∧ offset (0 + 6) = 13 := by decide
  rw [taken, start.1, start.2, Nat.zero_add] at before
  have here : ((out.zipIdx 0).flatMap fun entry => piece entry.1 entry.2) =
      ((out.take 6).zipIdx 0).flatMap (fun entry => piece entry.1 entry.2) ++
        (piece out[6] 6 ++ ((out.drop 7).zipIdx 7).flatMap fun entry => piece entry.1 entry.2) := by
    conv_lhs => rw [split]
    rw [List.zipIdx_append, List.flatMap_append, taken, List.zipIdx_cons, List.flatMap_cons]
  rw [here, List.getElem?_append_right (by omega), before]
  rfl

private theorem version_iff (byte : UInt8) :
    byte >>> 4 = 7 ↔ Canonical.nibble (byte.toNat / 16) = 55 := by
  have seven : ∀ digit < 16, Canonical.nibble digit = 55 ↔ digit = 7 := by decide
  have small : byte.toNat / 16 < 16 := by
    have := byte.toNat_lt
    omega
  have shifted : (byte >>> 4).toNat = byte.toNat / 16 := by
    rw [UInt8.toNat_shiftRight]
    exact Nat.shiftRight_eq_div_pow byte.toNat 4
  rw [seven _ small, ← shifted]
  exact UInt8.toNat_inj.symm

/-- What an accepted text was read as. -/
theorem parse_ok {s : Bytes} {id : CommandId} (accepted : parse s = .ok id) :
    s.length = uuidLen ∧ parseFrom 0 s = .ok id.bytes.toList := by
  unfold parse at accepted
  split at accepted
  · cases accepted
  · rename_i width
    split at accepted
    · cases accepted
    · rename_i out read
      split at accepted
      · rename_i filled
        unfold fromBytes at accepted
        split at accepted
        · cases accepted
          exact ⟨not_not.mp width, read⟩
        · cases accepted
      · cases accepted

/-- Printing undoes parsing. -/
theorem display_of_parse {s : Bytes} {id : CommandId} (accepted : parse s = .ok id) :
    id.display = s := by
  obtain ⟨width, read⟩ := parse_ok accepted
  exact (pieces_of_parseFrom (k := 0) (Nat.zero_le _) ((Nat.zero_add _).trans width) read).symm

theorem parse_ok_iff (s : Bytes) : (∃ id, parse s = .ok id) ↔ Written s := by
  constructor
  · rintro ⟨id, accepted⟩
    obtain ⟨width, read⟩ := parse_ok accepted
    refine ⟨width, ?_, ?_⟩
    · have fits := (parseFrom_ok_iff (by decide) ((Nat.zero_add _).trans width)).mp ⟨_, read⟩
      intro position byte found
      have here := fits position byte found
      rwa [Nat.zero_add] at here
    · rw [← display_of_parse accepted]
      have printed := pieces_version id.bytes.toList Vector.length_toList
      refine printed.trans (congrArg some ?_)
      rw [Vector.getElem_toList]
      exact (version_iff _).mp id.version
  · intro written
    have width := (Nat.zero_add _).trans written.width
    have fits : ∀ j byte, s[j]? = some byte → Fits (0 + j) byte := by
      intro j byte found
      rw [Nat.zero_add]
      exact written.fits j byte found
    obtain ⟨out, read⟩ := (parseFrom_ok_iff (by decide) width).mpr fits
    have printed := pieces_of_parseFrom (k := 0) (Nat.zero_le _) width read
    have filled : out.length = 16 := by
      have whole := length_pieces out 0
      rw [← printed, written.width] at whole
      simp only [offset, uuidLen] at whole
      omega
    have version := pieces_version out filled
    rw [← printed, written.version] at version
    have seven : out[6] >>> 4 = 7 := (version_iff _).mpr (Option.some.inj version).symm
    refine ⟨⟨⟨out.toArray, filled⟩, seven⟩, ?_⟩
    unfold parse
    rw [if_neg (not_not_intro written.width), read]
    exact (dif_pos filled).trans (dif_pos seven)

end CommandId

/-- The text form of a command identifier is exact: the parser takes no index out of range,
accepts the hyphenated lowercase UUIDv7s and nothing else, and is the inverse of the printer
on both sides. -/
theorem command_text_exact :
    (∀ s : Bytes, CommandId.parseIndexed s = some (CommandId.parse s) ∧
      ((∃ id, CommandId.parse s = .ok id) ↔ CommandId.Written s) ∧
      ∀ id, CommandId.parse s = .ok id → id.display = s) ∧
    ∀ (bytes : Vector UInt8 16) (id : CommandId), CommandId.fromBytes bytes = .ok id →
      id.bytes = bytes ∧ CommandId.parse id.display = .ok id := by
  constructor
  · intro s
    exact ⟨CommandId.parseIndexed_eq s, CommandId.parse_ok_iff s,
      fun id accepted => CommandId.display_of_parse accepted⟩
  · intro bytes id made
    refine ⟨?_, id.parse_display⟩
    unfold CommandId.fromBytes at made
    split at made
    · cases made
      rfl
    · cases made

namespace Sample

/-- The text of the first command's identifier. -/
def firstCommandText : Bytes := ascii "01020304-0506-7008-090a-0b0c0d0e0f10"

theorem firstCommandText_exact :
    firstCommand.display = firstCommandText ∧
      CommandId.parse firstCommand.display = .ok firstCommand := by
  have written : firstCommandText = firstCommand.display := by decide
  refine ⟨(command_text_exact.1 firstCommandText).2.2 firstCommand ?_,
    (command_text_exact.2 firstCommand.bytes firstCommand firstCommand.fromBytes_bytes).2⟩
  rw [written]
  exact firstCommand.parse_display

end Sample

end CredSync
