import CredSync.Server.Watermark

/-! Calls that share a database session, as the handlers of the daemon share its
one client. A call's statements may then run in a transaction another call has
begun, and its lock goes when another call ends that transaction. -/

namespace CredSync

universe u v

section World

variable {Session : Type u} {Client : Type v} [DecidableEq Session] [DecidableEq Client] [Hashing]

/-- Where every watermark is raised while its session still holds the exclusive
lock, a watermark that a call returned is below every row still undecided, and no
change at or below it becomes visible later. -/
theorem returned_watermark_is_safe (writers : Set Session) (scopes : Client → ScopeId)
    (labels labels' : List (Event Session Client)) (before after : World Session Client)
    (client : Client) (pull : Pull Session) (watermark : Int)
    (run : Transition.Run (Transition.Guarded (World.Step writers) World.RaisesLocked)
      (World.start scopes) labels before)
    (active : (before.walkers client).pull = some pull)
    (returned : pull.stage = .reading watermark)
    (rest : Transition.Run (Transition.Guarded (World.Step writers) World.RaisesLocked)
      before labels' after) :
    after.db.Safe watermark ∧ ∀ change : SyncChange, change.row.seq ≤ watermark →
      (change ∈ after.db.committed ↔ change ∈ before.db.committed) := by
  have steps : ∀ (before : World Session Client) label after, before.Keeps writers →
      Transition.Guarded (World.Step writers) World.RaisesLocked before label after →
      after.Keeps writers :=
    fun before label after keeps taken => (taken.2.keeps taken.1 keeps).1
  have grows : ∀ (before : World Session Client) label after, before.Keeps writers →
      Transition.Guarded (World.Step writers) World.RaisesLocked before label after →
      before.Grows after :=
    fun before label after keeps taken => (taken.2.keeps taken.1 keeps).2
  have keeps := run.invariant steps (World.start_keeps writers scopes)
  have safe : before.db.Safe watermark :=
    (keeps.walkers client).returned pull watermark active (by rw [returned]; rfl)
  have grown := rest.relates World.Grows.refl World.Grows.trans steps grows keeps
  exact ⟨grown.safe _ safe, grown.settled _ safe⟩

end World

namespace Sample

def pulled : Change := upsert 1 first 1

/-- No batch is made here. -/
local instance sharedHashes : Hashing := .ofTable [] []

def whole : PullRequest where
  limit := 500
  budgetBytes := 1024
  compressedLen := List.length
  digest := ScopeDigest.empty.toHex

/-- Two calls on the one session `false`, each raising the watermark before the
other ends the transaction they share. -/
def takingTurns : List (Event Bool Bool) :=
  [.write true .begin, .write true .lockShared,
    .write true (.insertChange ⟨scope.bytes, pulled.toRow⟩), .write true .commit,
    .pull false false whole, .pull true false whole,
    .answer false, .answer true, .answer false, .answer true,
    .answer false, .answer false, .answer true, .answer true,
    .answer false, .answer true]

theorem takingTurns_safe : ∃ (world : World Bool Bool) (pull : Pull Bool),
    (world.walkers true).pull = some pull ∧ pull.stage = .reading 1 ∧ world.db.Safe 1 := by
  have followed : (Transition.follow
      (fun world event => decide (world.RaisesLocked event ∧ World.Enabled {true} world event))
      World.next (World.start fun _ => scope) takingTurns).any (fun world : World Bool Bool =>
        (world.walkers true).pull.any (·.stage = .reading 1)) = true := by
    decide +kernel
  have taken : ∀ (before : World Bool Bool) label after,
      decide (before.RaisesLocked label ∧ before.Enabled {true} label) = true →
      before.next label = some after →
      Transition.Guarded (World.Step {true}) World.RaisesLocked before label after :=
    fun _ _ _ allowed goes => ⟨(of_decide_eq_true allowed).1, (of_decide_eq_true allowed).2, goes⟩
  obtain ⟨world, run, holds⟩ := Transition.Run.of_follow_any taken followed
  obtain ⟨pull, active, stage⟩ := (Option.any_eq_true ..).mp holds
  have returned : pull.stage = .reading 1 := of_decide_eq_true stage
  exact ⟨world, pull, active, returned, (returned_watermark_is_safe {true} (fun _ => scope)
    takingTurns [] world world true pull 1 run active returned .done).1⟩

/-- The second call raises the watermark after the first has committed: its lock is
gone, and the value handed out to the open writer is counted in. -/
def lockLost : List (Event Bool Bool) :=
  [.pull false false whole, .pull true false whole,
    .answer false, .answer true, .answer false, .answer true, .answer false, .answer true,
    .answer false, .answer false,
    .write true .begin, .write true .lockShared,
    .write true (.insertChange ⟨scope.bytes, pulled.toRow⟩),
    .answer true, .answer true]

theorem lockLost_unsafe : ∃ (before after : World Bool Bool) (pull : Pull Bool)
    (change : SyncChange),
    Transition.Run (World.Step {true}) (World.start fun _ => scope) lockLost before ∧
    (before.walkers true).pull = some pull ∧ pull.stage = .reading 1 ∧ ¬ before.db.Safe 1 ∧
    Transition.Run (World.Step {true}) before [.write true .commit] after ∧
    change.row.seq ≤ 1 ∧ change ∉ before.db.committed ∧ change ∈ after.db.committed := by
  let next := Transition.follow (fun world event => decide (World.Enabled {true} world event))
    (World.next : World Bool Bool → Event Bool Bool → Option (World Bool Bool))
  have followed : (next (World.start fun _ => scope) lockLost).any (fun before =>
      (before.walkers true).pull.any (·.stage = .reading 1) && before.db.committed.isEmpty &&
        before.db.log.any (fun row => row.fate = .pending && row.seq ≤ 1) &&
        (next before [.write true .commit]).any fun after =>
          after.db.committed.any (·.row.seq ≤ 1)) = true := by
    decide +kernel
  have taken : ∀ (before : World Bool Bool) label after,
      decide (before.Enabled {true} label) = true → before.next label = some after →
      World.Step {true} before label after :=
    fun _ _ _ allowed goes => ⟨of_decide_eq_true allowed, goes⟩
  obtain ⟨before, run, holds⟩ := Transition.Run.of_follow_any taken followed
  simp only [Bool.and_eq_true] at holds
  obtain ⟨⟨⟨reading, nothing⟩, undecided⟩, commits⟩ := holds
  obtain ⟨pull, active, stage⟩ := (Option.any_eq_true ..).mp reading
  obtain ⟨row, member, pending⟩ := List.any_eq_true.mp undecided
  obtain ⟨after, run', committed⟩ := Transition.Run.of_follow_any taken commits
  obtain ⟨change, inside, below⟩ := List.any_eq_true.mp committed
  simp only [Bool.and_eq_true, decide_eq_true_eq] at pending below
  refine ⟨before, after, pull, change, run, active, of_decide_eq_true stage, fun safe => ?_, run',
    below, ?_, inside⟩
  · exact absurd (safe.settled row member pending.1) (not_lt.mpr pending.2)
  · rw [List.isEmpty_iff.mp nothing]
    exact List.not_mem_nil

end Sample

end CredSync
