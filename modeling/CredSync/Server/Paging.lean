import CredSync.Core.ApplySpec
import CredSync.Library.Packing
import CredSync.Protocol.Encoding
import CredSync.Server.Pull

/-! One page of a pull against the plain algorithm, and the pages that follow it until
every change is delivered. -/

namespace CredSync

open Packing

variable {compressedLen : Bytes → Nat} {budgetBytes : Nat}

/-- Whether some changes together are over the budget. -/
def BatchExceeds (compressedLen : Bytes → Nat) (budgetBytes : Nat) (changes : List Change) : Prop :=
  budgetBytes < compressedLen (Canonical.toVec changes)

instance : DecidablePred (BatchExceeds compressedLen budgetBytes) :=
  fun _ => inferInstanceAs (Decidable (_ < _))

/-- The loop of `fill_batch`, with each measurement it makes. -/
def fillChangesMeasured (compressedLen : Bytes → Nat) (budgetBytes : Nat) :
    List Change → BatchFill → BatchFill × List (Measurement Change)
  | [], fill => (fill, [])
  | change :: rest, fill =>
    let buf := fill.splice (Canonical.toVec change)
    if budgetBytes < compressedLen buf ∧ fill.chosen ≠ [] then
      ({ fill with buf := buf.take (fill.buf.length - 1) ++ [93] }, [⟨fill.chosen, change, buf⟩])
    else
      let (final, later) := fillChangesMeasured compressedLen budgetBytes rest
        { chosen := fill.chosen ++ [change], buf := buf }
      (final, ⟨fill.chosen, change, buf⟩ :: later)

theorem fillChangesMeasured_fst (candidates : List Change) (fill : BatchFill) :
    (fillChangesMeasured compressedLen budgetBytes candidates fill).1 =
      fillChanges compressedLen budgetBytes candidates fill := by
  induction candidates generalizing fill with
  | nil => rfl
  | cons change rest ih =>
    unfold fillChangesMeasured fillChanges
    simp only
    split
    · rfl
    · exact ih _

theorem BatchFill.splice_eq {fill : BatchFill} (encoded : fill.buf = Canonical.toVec fill.chosen)
    (change : Change) :
    fill.splice (Canonical.toVec change) = Canonical.toVec (fill.chosen ++ [change]) := by
  rw [BatchFill.splice, encoded, Canonical.toVec_concat]

theorem fillChangesMeasured_exact (candidates : List Change) (fill : BatchFill)
    (encoded : fill.buf = Canonical.toVec fill.chosen) :
    ∀ measured ∈ (fillChangesMeasured compressedLen budgetBytes candidates fill).2,
      measured.Exact := by
  induction candidates generalizing fill with
  | nil => exact List.forall_mem_nil _
  | cons change rest ih =>
    have spliced := fill.splice_eq encoded change
    unfold fillChangesMeasured
    simp only
    split
    · exact List.forall_mem_singleton.mpr spliced
    · intro measured member
      rcases List.mem_cons.mp member with rfl | later
      · exact spliced
      · exact ih _ spliced measured later

/-- Filling a batch is greedy packing. -/
theorem fillChanges_pack (candidates : List Change) (fill : BatchFill)
    (encoded : fill.buf = Canonical.toVec fill.chosen) :
    (fillChanges compressedLen budgetBytes candidates fill).chosen =
      pack (BatchExceeds compressedLen budgetBytes) fill.chosen candidates := by
  induction candidates generalizing fill with
  | nil => rfl
  | cons change rest ih =>
    have spliced := fill.splice_eq encoded change
    have stops : budgetBytes < compressedLen (fill.splice (Canonical.toVec change)) ∧
        fill.chosen ≠ [] ↔ fill.chosen ≠ [] ∧
          BatchExceeds compressedLen budgetBytes (fill.chosen ++ [change]) := by
      rw [spliced, and_comm]
      rfl
    unfold fillChanges pack
    simp only [← stops]
    split
    · rfl
    · exact ih { chosen := fill.chosen ++ [change], buf := _ } spliced

/-! ### One page -/

/-- The changes a page may be filled from. -/
structure Candidates (cursor : Cursor) (changes : List Change) : Prop where
  valid : ∀ change ∈ changes, change.validate = .ok ()
  ascending : changes.Pairwise fun first second => first.seq.get < second.seq.get
  above : ∀ change ∈ changes, cursor.get < change.seq.get

section Pages

variable {scope : ScopeId} {cursor : Cursor} {candidates : List Change} {moreBeyond : Bool}
  {digest : HexString}

/-- A batch cut from candidates covers what it carries, and what is left lies behind it. -/
theorem Batch.Cut.divides {batch : Batch} {rest : List Change}
    (cut : batch.Cut scope cursor candidates rest moreBeyond digest)
    (sound : Candidates cursor candidates) :
    batch.Ordered cursor.get ∧ Candidates batch.nextCursor rest ∧
      candidates.filter (batch.nextCursor.get < ·.seq.get) = rest := by
  have split := cut.split
  have ascending := sound.ascending
  rw [split] at ascending
  obtain ⟨early, late, across⟩ := List.pairwise_append.mp ascending
  have within : ∀ change ∈ batch.changes, change.seq.get ≤ batch.nextCursor.get := by
    intro change member
    rw [cut.nextCursor]
    exact KeyedLog.Ascending.le_reached early member
  have beyond : ∀ change ∈ rest, batch.nextCursor.get < change.seq.get := by
    intro change member
    rw [cut.nextCursor, KeyedLog.reached]
    cases last : batch.changes.getLast? with
    | none => exact sound.above change (by simp [split, member])
    | some final => exact across final (List.mem_of_getLast? last) change member
  refine ⟨?_, ?_, ?_⟩
  · refine ⟨?_, ?_, early, within⟩
    · intro change member
      exact sound.above change (by simp [split, member])
    · intro change member
      exact sound.valid change (by simp [split, member])
  · refine ⟨?_, late, beyond⟩
    intro change member
    exact sound.valid change (by simp [split, member])
  · rw [split, List.filter_append]
    have dropped : batch.changes.filter (batch.nextCursor.get < ·.seq.get) = [] := by
      apply List.filter_eq_nil_iff.mpr
      intro change member
      simpa using within change member
    have kept : rest.filter (batch.nextCursor.get < ·.seq.get) = rest := by
      apply List.filter_eq_self.mpr
      intro change member
      simpa using beyond change member
    rw [dropped, kept, List.nil_append]

variable [Hashing]

theorem fillBatch_packs :
    Packs (BatchExceeds compressedLen budgetBytes) candidates
      (fillBatch compressedLen scope cursor candidates moreBeyond budgetBytes digest).changes := by
  rw [fillBatch, fillChanges_pack candidates {} rfl]
  exact pack_packs candidates

/-! ### All pages -/

/-- Asks again from each batch's cursor until nothing is left, in a number of rounds;
each batch with the cursor it was asked from. -/
def deliver (compressedLen : Bytes → Nat) (scope : ScopeId) (moreBeyond : Bool)
    (budgetBytes : Nat) (digest : HexString) :
    Nat → Cursor → List Change → Option (List (Cursor × Batch))
  | _, _, [] => some []
  | 0, _, _ :: _ => none
  | rounds + 1, cursor, first :: others =>
    let candidates := first :: others
    let batch := fillBatch compressedLen scope cursor candidates moreBeyond budgetBytes digest
    (deliver compressedLen scope moreBeyond budgetBytes digest rounds batch.nextCursor
      (candidates.filter (batch.nextCursor.get < ·.seq.get))).map ((cursor, batch) :: ·)

/-- As many rounds as there are changes deliver each of them once, in order. -/
theorem deliver_all (rounds : Nat) (enough : candidates.length ≤ rounds)
    (sound : Candidates cursor candidates) :
    ∃ pages, deliver compressedLen scope moreBeyond budgetBytes digest rounds cursor candidates =
        some pages ∧
      pages.flatMap (fun page => page.2.changes) = candidates ∧
      ∀ page ∈ pages, page.2.changes ≠ [] ∧ page.2.validateOrdering = .ok () ∧
        validateOrdering page.2 page.1.get = .ok () := by
  induction rounds generalizing cursor candidates with
  | zero =>
    have empty : candidates = [] := List.eq_nil_of_length_eq_zero (Nat.le_zero.mp enough)
    subst empty
    exact ⟨[], rfl, rfl, List.forall_mem_nil _⟩
  | succ rounds ih =>
    cases present : candidates with
    | nil => exact ⟨[], rfl, rfl, List.forall_mem_nil _⟩
    | cons first others =>
      rw [← present]
      obtain ⟨rest, cut⟩ :=
        fillBatch_cut compressedLen scope cursor candidates moreBeyond budgetBytes digest
      obtain ⟨ordered, remaining, left⟩ := cut.divides sound
      have carried := cut.progress (by simp [present])
      have fewer : rest.length ≤ rounds := by
        have total := congrArg List.length cut.split
        rw [List.length_append] at total
        have := List.length_pos_iff.mpr carried
        omega
      obtain ⟨pages, delivered, whole, valid⟩ := ih fewer remaining
      refine ⟨(cursor, fillBatch compressedLen scope cursor candidates moreBeyond budgetBytes
        digest) :: pages, ?_, ?_, ?_⟩
      · rw [present, deliver]
        simp only [← present, left, delivered]
        rfl
      · rw [List.flatMap_cons, whole]
        exact cut.split.symm
      · intro page member
        rcases List.mem_cons.mp member with rfl | later
        · exact ⟨carried, Batch.validateOrdering_ok_iff.mpr ordered.ascending,
            (validateOrdering_ok_iff _ _).mpr ordered⟩
        · exact valid page later

/-- A page of a pull is what the plain algorithm makes of its candidates, both sides
accept its order, and asking again from its cursor delivers every candidate once. -/
theorem fillBatch_pages (compressedLen : Bytes → Nat) (scope : ScopeId) (cursor : Cursor)
    (candidates : List Change) (moreBeyond : Bool) (budgetBytes : Nat) (digest : HexString)
    (sound : Candidates cursor candidates) :
    let batch := fillBatch compressedLen scope cursor candidates moreBeyond budgetBytes digest
    let measured := fillChangesMeasured compressedLen budgetBytes candidates {}
    (measured.1 = fillChanges compressedLen budgetBytes candidates {} ∧
      ∀ step ∈ measured.2, step.Exact) ∧
    Packs (BatchExceeds compressedLen budgetBytes) candidates batch.changes ∧
    batch.nextCursor.get = (batch.changes.getLast?.map fun change => change.seq.get).getD cursor.get ∧
    (batch.hasMore = true ↔ batch.changes ≠ candidates ∨ moreBeyond = true) ∧
    batch.validateOrdering = .ok () ∧ validateOrdering batch cursor.get = .ok () ∧
    ∀ rounds, candidates.length ≤ rounds →
      ∃ pages, deliver compressedLen scope moreBeyond budgetBytes digest rounds cursor candidates =
          some pages ∧
        pages.flatMap (fun page => page.2.changes) = candidates ∧
        ∀ page ∈ pages, page.2.changes ≠ [] ∧ page.2.validateOrdering = .ok () ∧
          validateOrdering page.2 page.1.get = .ok () := by
  intro batch measured
  obtain ⟨rest, cut⟩ :=
    fillBatch_cut compressedLen scope cursor candidates moreBeyond budgetBytes digest
  obtain ⟨ordered, -, -⟩ := cut.divides sound
  have left : rest = [] ↔ batch.changes = candidates := by
    have split := cut.split
    constructor
    · rintro rfl
      rw [split, List.append_nil]
    · intro same
      change candidates = batch.changes ++ rest at split
      rw [same] at split
      exact List.self_eq_append_right.mp split
  refine ⟨⟨fillChangesMeasured_fst _ _, fillChangesMeasured_exact _ _ rfl⟩, fillBatch_packs,
    cut.nextCursor, ?_, Batch.validateOrdering_ok_iff.mpr ordered.ascending,
    (validateOrdering_ok_iff _ _).mpr ordered, fun rounds enough => deliver_all rounds enough sound⟩
  change (fillBatch _ _ _ _ _ _ _).hasMore = true ↔ _
  rw [cut.hasMore, Bool.or_eq_true, Bool.not_eq_true', List.isEmpty_eq_false_iff, ne_eq, left]

end Pages

namespace Sample

attribute [local instance] noteHashes

/-- Two notes in pages of one: no budget holds even the first. -/
theorem twoNotes_paged : ∃ pages,
    deliver List.length scope false 0 (hexU128 0) 2 Cursor.start [noteA, noteB] = some pages ∧
    pages.flatMap (fun page => page.2.changes) = [noteA, noteB] := by
  have sound : Candidates Cursor.start [noteA, noteB] := by
    refine ⟨?_, ?_, ?_⟩
    · intro change member
      rcases List.mem_pair.mp member with rfl | rfl <;> rfl
    · exact List.pairwise_pair.mpr (by decide)
    · intro change member
      rcases List.mem_pair.mp member with rfl | rfl <;> decide
  obtain ⟨-, -, -, -, -, -, delivers⟩ :=
    fillBatch_pages List.length scope Cursor.start [noteA, noteB] false 0 (hexU128 0) sound
  obtain ⟨pages, delivered, whole, -⟩ := delivers 2 (Nat.le_refl 2)
  exact ⟨pages, delivered, whole⟩

end Sample

end CredSync
