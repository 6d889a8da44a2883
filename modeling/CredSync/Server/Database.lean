import CredSync.Library.Session
import CredSync.Server.Query
import Mathlib.Order.Basic

/-! The server's database as its sessions use it: the change log, whose rows take
their `seq` when they are inserted and are visible once they are committed, and
the one row of `sync_watermark`. -/

namespace CredSync

universe u

/-- What became of an inserted row. -/
inductive Fate where
  | pending
  | committed
  | aborted
  deriving DecidableEq

/-- A row of `sync_changes` and the session that inserted it. -/
structure Allocation (Session : Type u) where
  change : SyncChange
  session : Session
  fate : Fate

/-- The sequence behind `seq` hands out its values outside any transaction. The
watermark's new value is staged by the transaction that wrote it. -/
structure Database (Session : Type u) where
  sessions : Sessions Session := {}
  lastValue : Int := 0
  log : List (Allocation Session) := []
  watermark : Int := 0
  staged : Option (Session × Int) := none

inductive Statement where
  | begin
  | setLocalLockTimeout
  | lockShared
  | lockExclusive
  | insertChange (change : SyncChange)
  | raiseWatermark
  | readWatermark
  | readChanges
  | commit
  | rollback

inductive Reply where
  | done
  | value (value : Int)
  | rows (table : List SyncChange)
  | error

namespace Allocation

variable {Session : Type u} [DecidableEq Session]

def seq (row : Allocation Session) : Int := row.change.row.seq

/-- The end of the transaction that inserted the row. -/
def settled (session : Session) (fate : Fate) (row : Allocation Session) : Allocation Session :=
  if row.session = session ∧ row.fate = .pending then { row with fate := fate } else row

def visible (session : Session) (row : Allocation Session) : Bool :=
  row.fate = .committed || (row.fate = .pending && row.session = session)

end Allocation

namespace Database

variable {Session : Type u} [DecidableEq Session] (db : Database Session) (session : Session)

/-- The committed change log. -/
def committed : List SyncChange := (db.log.filter (·.fate = .committed)).map (·.change)

/-- The change log as a statement of the session sees it. -/
def visible : List SyncChange := (db.log.filter (·.visible session)).map (·.change)

/-- The watermark as a statement of the session sees it. -/
def watermarkSeen : Int :=
  match db.staged with
  | some (owner, value) => if owner = session then value else db.watermark
  | none => db.watermark

/-- The end of a session's transaction. -/
def ending (fate : Fate) : Database Session :=
  { db with
    sessions := db.sessions.ended session
    log := db.log.map (·.settled session fate)
    staged := db.staged.filter (·.1 ≠ session) }

/-- `COMMIT` of an open transaction. -/
def committing : Database Session :=
  { db.ending session .committed with watermark := db.watermarkSeen session }

/-- `ROLLBACK`, and `COMMIT` of a failed transaction. -/
def aborting : Database Session := db.ending session .aborted

/-- `GREATEST(sync_watermark.value, EXCLUDED.value)`, the sequence's `last_value`
being the value excluded. -/
def raised : Int := max (db.watermarkSeen session) db.lastValue

/-- A statement in a session whose transaction has not failed. Outside a
transaction it is one of its own. -/
def perform : Statement → Option (Reply × Database Session)
  | .begin => some (.done, { db with sessions := db.sessions.begun session })
  | .setLocalLockTimeout => some (.done, db)
  | .lockShared => (db.sessions.lockShared session).map fun sessions =>
      (.done, { db with sessions := sessions })
  | .lockExclusive => (db.sessions.lockExclusive session).map fun sessions =>
      (.done, { db with sessions := sessions })
  | .insertChange change =>
    if change.row.seq ≤ db.lastValue then none
    else
      let fate := if db.sessions.tx session = .opened then .pending else .committed
      some (.value change.row.seq,
        { db with lastValue := change.row.seq, log := db.log ++ [⟨change, session, fate⟩] })
  | .raiseWatermark =>
    if db.staged.any (·.1 ≠ session) then none
    else if db.sessions.tx session = .opened then
      some (.value (db.raised session), { db with staged := some (session, db.raised session) })
    else some (.value (db.raised session), { db with watermark := db.raised session })
  | .readWatermark => some (.value (db.watermarkSeen session), db)
  | .readChanges => some (.rows (db.visible session), db)
  | .commit => some (.done, if db.sessions.tx session = .opened then db.committing session else db)
  | .rollback => some (.done, if db.sessions.tx session = .opened then db.aborting session else db)

/-- A statement in a session; `none` while it waits for a lock. -/
def execute (statement : Statement) : Option (Reply × Database Session) :=
  if db.sessions.tx session = .failed then
    match statement with
    | .commit | .rollback => some (.done, db.aborting session)
    | _ => some (.error, db)
  else db.perform session statement

/-- A statement that ends in an error: a lock not granted in time, a deadlock, a
constraint. A `COMMIT` that fails has rolled back. -/
def interrupt : Statement → Database Session
  | .commit | .rollback => db.aborting session
  | _ => { db with sessions := db.sessions.interrupted session }

/-- A value of the sequence that no row will carry. -/
def skip (value : Int) : Database Session := { db with lastValue := max db.lastValue value }

/-! ### Watermarks -/

/-- No row at or below the position is still to be decided, or to come. -/
structure Safe (position : Int) : Prop where
  handedOut : position ≤ db.lastValue
  settled : ∀ row ∈ db.log, row.fate = .pending → position < row.seq

/-- What a step of the database leaves alone: safe positions stay safe, and the
committed log below them stays as it is. -/
structure Extends (before after : Database Session) : Prop where
  safe : ∀ position, before.Safe position → after.Safe position
  settled : ∀ position, before.Safe position → ∀ change : SyncChange, change.row.seq ≤ position →
    (change ∈ after.committed ↔ change ∈ before.committed)

variable {db session} {before middle after : Database Session}

omit [DecidableEq Session] in
theorem Extends.refl : Extends before before := ⟨fun _ safe => safe, fun _ _ _ _ => .rfl⟩

omit [DecidableEq Session] in
theorem Extends.trans (first : Extends before middle) (second : Extends middle after) :
    Extends before after where
  safe := fun position safe => second.safe position (first.safe position safe)
  settled := fun position safe change below =>
    (second.settled position (first.safe position safe) change below).trans
      (first.settled position safe change below)

omit [DecidableEq Session] in
theorem Safe.of_log (safe : before.Safe position) (log : after.log = before.log)
    (handedOut : before.lastValue ≤ after.lastValue) : after.Safe position where
  handedOut := safe.handedOut.trans handedOut
  settled := log ▸ safe.settled

omit [DecidableEq Session] in
theorem Extends.of_log (log : after.log = before.log)
    (handedOut : before.lastValue ≤ after.lastValue) : Extends before after where
  safe := fun _ safe => safe.of_log log handedOut
  settled := fun _ _ _ _ => by rw [committed, committed, log]

omit [DecidableEq Session] in
theorem mem_committed : change ∈ db.committed ↔
    ∃ row ∈ db.log, row.fate = .committed ∧ row.change = change := by
  simp [committed, and_assoc]

/-- A row keeps its place and its text when its transaction ends. -/
@[simp] theorem settled_change (row : Allocation Session) :
    (row.settled session fate).change = row.change := by
  unfold Allocation.settled
  split <;> rfl

@[simp] theorem settled_seq (row : Allocation Session) :
    (row.settled session fate).seq = row.seq := by
  rw [Allocation.seq, settled_change, Allocation.seq]

theorem settled_of_decided {row : Allocation Session} (decided : row.fate ≠ .pending) :
    row.settled session fate = row :=
  if_neg fun both => decided both.2

/-- A row still pending is not the ended session's. -/
theorem pending_of_settled {row : Allocation Session} (decides : fate ≠ .pending)
    (pending : (row.settled session fate).fate = .pending) :
    row.fate = .pending ∧ row.session ≠ session ∧ row.settled session fate = row := by
  unfold Allocation.settled at pending ⊢
  split at pending
  · exact absurd pending decides
  · rename_i other
    exact ⟨pending, fun same => other ⟨same, pending⟩, if_neg other⟩

theorem Extends.ending (decides : fate ≠ .pending) : Extends before (before.ending session fate) where
  safe := by
    intro position safe
    refine ⟨safe.handedOut, fun row member pending => ?_⟩
    obtain ⟨inserted, inside, rfl⟩ := List.mem_map.mp member
    rw [settled_seq]
    exact safe.settled inserted inside (pending_of_settled decides pending).1
  settled := by
    intro position safe change below
    -- a row at or below a safe position has been decided before
    have decided : ∀ row ∈ before.log, row.change = change → row.fate ≠ .pending := by
      rintro row member rfl pending
      exact absurd below (not_le.mpr (safe.settled row member pending))
    rw [mem_committed, mem_committed]
    constructor
    · rintro ⟨_, member, kept, said⟩
      obtain ⟨row, inside, rfl⟩ := List.mem_map.mp member
      rw [settled_change] at said
      rw [settled_of_decided (decided row inside said)] at kept
      exact ⟨row, inside, kept, said⟩
    · rintro ⟨row, inside, kept, said⟩
      refine ⟨row, List.mem_map.mpr ⟨row, inside, ?_⟩, kept, said⟩
      exact settled_of_decided (decided row inside said)

omit [DecidableEq Session] in
theorem Extends.insert (change : SyncChange) (session : Session) (fate : Fate)
    (above : before.lastValue < change.row.seq) :
    Extends before { before with
      lastValue := change.row.seq, log := before.log ++ [⟨change, session, fate⟩] } where
  safe := by
    intro position safe
    refine ⟨safe.handedOut.trans above.le, fun row member pending => ?_⟩
    rcases List.mem_append.mp member with member | member
    · exact safe.settled row member pending
    · rw [List.mem_singleton.mp member]
      exact safe.handedOut.trans_lt above
  settled := by
    intro position safe other below
    have different : change ≠ other := by
      rintro rfl
      exact absurd (below.trans safe.handedOut) (not_le.mpr above)
    simp [mem_committed, or_and_right, exists_or, different]

/-! ### What the sessions keep -/

variable (writers : Set Session)

/-- Undecided rows belong to holders of the shared lock, which only writers take,
and every recorded watermark is safe. -/
structure Sound (db : Database Session) : Prop where
  exclusion : db.sessions.Exclusion
  sharing : ∀ holder ∈ db.sessions.shared, holder ∈ writers
  excluding : ∀ holder ∈ db.sessions.exclusive, holder ∉ writers
  ordered : db.log.Pairwise fun first second => first.seq < second.seq
  counted : 0 ≤ db.lastValue
  within : ∀ row ∈ db.log, 0 < row.seq ∧ row.seq ≤ db.lastValue
  guarded : ∀ row ∈ db.log, row.fate = .pending → row.session ∈ db.sessions.shared
  recorded : db.Safe db.watermark
  staged : ∀ owner value, db.staged = some (owner, value) → db.Safe value

/-- The discipline of the change log: a row is inserted under the shared lock, and
the watermark raised under the exclusive one. -/
def Permits (db : Database Session) (session : Session) : Statement → Prop
  | .lockShared => session ∈ writers
  | .lockExclusive => session ∉ writers
  | .insertChange _ => session ∈ db.sessions.shared
  | .raiseWatermark => db.sessions.tx session = .failed ∨ session ∈ db.sessions.exclusive
  | _ => True

variable {writers}

/-- While the lock is held exclusively no row is undecided. -/
theorem Sound.decided (sound : db.Sound writers) (held : session ∈ db.sessions.exclusive)
    (row : Allocation Session) (member : row ∈ db.log) : row.fate ≠ .pending := by
  intro pending
  have shared := sound.guarded row member pending
  have same := sound.exclusion.alone session held row.session (Finset.mem_union_left _ shared)
  exact sound.excluding session held (same ▸ sound.sharing _ shared)

theorem Sound.seen (sound : db.Sound writers) (session : Session) :
    db.Safe (db.watermarkSeen session) := by
  unfold watermarkSeen
  split
  · rename_i owner value staged
    split
    · exact sound.staged owner value staged
    · exact sound.recorded
  · exact sound.recorded

theorem Sound.raised (sound : db.Sound writers) (held : session ∈ db.sessions.exclusive) :
    db.Safe (db.raised session) where
  handedOut := max_le (sound.seen session).handedOut le_rfl
  settled := fun row member pending => absurd pending (sound.decided held row member)

/-- Steps that leave the log alone keep what the sessions keep. -/
theorem Sound.of_log (sound : before.Sound writers) (exclusion : after.sessions.Exclusion)
    (shared : ∀ holder, holder ∈ before.sessions.shared → holder ∈ after.sessions.shared)
    (sharing : ∀ holder ∈ after.sessions.shared, holder ∈ writers)
    (excluding : ∀ holder ∈ after.sessions.exclusive, holder ∉ writers)
    (log : after.log = before.log) (handedOut : before.lastValue ≤ after.lastValue)
    (recorded : before.Safe after.watermark)
    (staged : ∀ owner value, after.staged = some (owner, value) → before.Safe value) :
    after.Sound writers where
  exclusion := exclusion
  sharing := sharing
  excluding := excluding
  ordered := log ▸ sound.ordered
  counted := sound.counted.trans handedOut
  within := fun row member =>
    (sound.within row (log ▸ member)).imp_right fun below => below.trans handedOut
  guarded := fun row member pending => shared _ (sound.guarded row (log ▸ member) pending)
  recorded := recorded.of_log log handedOut
  staged := fun owner value same => (staged owner value same).of_log log handedOut

theorem Sound.ending (sound : db.Sound writers) (decides : fate ≠ .pending)
    (safe : db.Safe position) :
    Sound writers { db.ending session fate with watermark := position } where
  exclusion := sound.exclusion.ended
  sharing := fun holder member => sound.sharing holder (Finset.mem_of_mem_erase member)
  excluding := fun holder member => sound.excluding holder (Finset.mem_of_mem_erase member)
  ordered := List.pairwise_map.mpr (by simpa using sound.ordered)
  counted := sound.counted
  within := by
    intro row member
    obtain ⟨inserted, inside, rfl⟩ := List.mem_map.mp member
    rw [settled_seq]
    exact sound.within inserted inside
  guarded := by
    intro row member pending
    obtain ⟨inserted, inside, rfl⟩ := List.mem_map.mp member
    obtain ⟨undecided, different, same⟩ := pending_of_settled decides pending
    rw [same]
    exact Finset.mem_erase.mpr ⟨different, sound.guarded inserted inside undecided⟩
  recorded := ((Extends.ending decides).safe _ safe).of_log rfl le_rfl
  staged := by
    intro owner value same
    have before := (Option.filter_eq_some_iff.mp same).1
    exact ((Extends.ending decides).safe _ (sound.staged owner value before)).of_log rfl le_rfl

theorem Sound.insert (sound : db.Sound writers) (held : session ∈ db.sessions.shared)
    (change : SyncChange) (fate : Fate) (above : db.lastValue < change.row.seq) :
    Sound writers { db with
      lastValue := change.row.seq, log := db.log ++ [⟨change, session, fate⟩] } where
  exclusion := sound.exclusion
  sharing := sound.sharing
  excluding := sound.excluding
  ordered := by
    refine List.pairwise_append.mpr ⟨sound.ordered, List.pairwise_singleton _ _, ?_⟩
    intro earlier member later last
    rw [List.mem_singleton.mp last]
    exact (sound.within earlier member).2.trans_lt above
  counted := sound.counted.trans above.le
  within := by
    intro row member
    rcases List.mem_append.mp member with member | member
    · exact (sound.within row member).imp_right fun below => below.trans above.le
    · rw [List.mem_singleton.mp member]
      exact ⟨sound.counted.trans_lt above, le_rfl⟩
  guarded := by
    intro row member pending
    rcases List.mem_append.mp member with member | member
    · exact sound.guarded row member pending
    · rw [List.mem_singleton.mp member]
      exact held
  recorded := (Extends.insert change session fate above).safe _ sound.recorded
  staged := fun owner value same =>
    (Extends.insert change session fate above).safe _ (sound.staged owner value same)

/-- To a session that inserts nothing, the change log is what is committed. -/
theorem Sound.visible (sound : db.Sound writers) (reads : session ∉ writers) :
    db.visible session = db.committed := by
  refine congrArg (List.map _) (List.filter_congr fun row member => ?_)
  have foreign : ¬ (row.fate = .pending ∧ row.session = session) := by
    rintro ⟨pending, rfl⟩
    exact reads (sound.sharing _ (sound.guarded row member pending))
  simp only [Allocation.visible, Bool.or_eq_left_iff_imp, Bool.and_eq_true, decide_eq_true_eq]
  exact fun both => absurd both foreign

/-- What a statement keeps; and a watermark it reports is safe. -/
structure Keeps (writers : Set Session) (statement : Statement) (before : Database Session)
    (reply : Reply) (after : Database Session) : Prop where
  sound : after.Sound writers
  grows : Extends before after
  reported : ∀ value, statement = .raiseWatermark ∨ statement = .readWatermark →
    reply = .value value → after.Safe value

variable {statement : Statement} {reply : Reply}

/-- A statement that answers nothing and leaves the database as it is. -/
private theorem Sound.keeps (sound : db.Sound writers) (reply : Reply)
    (silent : ∀ value, reply ≠ .value value) : Keeps writers statement db reply db :=
  ⟨sound, .refl, fun value _ same => absurd same (silent value)⟩

private theorem Sound.keeps_ending (sound : db.Sound writers) :
    Keeps writers statement db .done (db.committing session) ∧
      Keeps writers statement db .done (db.aborting session) := by
  have committed : Extends db (db.committing session) :=
    (Extends.ending (show Fate.committed ≠ .pending by decide)).trans (.of_log rfl le_rfl)
  have aborted : Extends db (db.aborting session) := .ending (by decide)
  exact ⟨⟨sound.ending (by decide) (sound.seen session), committed, fun _ _ same => nomatch same⟩,
    ⟨sound.ending (by decide) sound.recorded, aborted, fun _ _ same => nomatch same⟩⟩

theorem perform_keeps (sound : before.Sound writers)
    (permitted : before.Permits writers session statement)
    (live : before.sessions.tx session ≠ .failed)
    (ran : before.perform session statement = some (reply, after)) :
    Keeps writers statement before reply after := by
  cases statement with
  | begin =>
    cases ran
    exact ⟨sound.of_log sound.exclusion.begun (fun _ held => held) sound.sharing sound.excluding rfl
      le_rfl sound.recorded sound.staged, .of_log rfl le_rfl, fun _ _ same => nomatch same⟩
  | setLocalLockTimeout =>
    cases ran
    exact sound.keeps _ fun _ same => nomatch same
  | lockShared =>
    obtain ⟨sessions, granted, same⟩ := Option.map_eq_some_iff.mp ran
    cases same
    have exclusion := sound.exclusion.lockShared granted
    obtain ⟨_, ⟨_, rfl⟩ | ⟨_, rfl⟩⟩ := Sessions.lockShared_some granted
    · refine ⟨sound.of_log exclusion (fun _ held => Finset.mem_insert_of_mem held) ?_
        sound.excluding rfl le_rfl sound.recorded sound.staged, .of_log rfl le_rfl,
        fun _ _ same => nomatch same⟩
      intro holder member
      rcases Finset.mem_insert.mp member with rfl | member
      · exact permitted
      · exact sound.sharing holder member
    · exact sound.keeps _ fun _ same => nomatch same
  | lockExclusive =>
    obtain ⟨sessions, granted, same⟩ := Option.map_eq_some_iff.mp ran
    cases same
    have exclusion := sound.exclusion.lockExclusive granted
    obtain ⟨_, ⟨_, rfl⟩ | ⟨_, rfl⟩⟩ := Sessions.lockExclusive_some granted
    · refine ⟨sound.of_log exclusion (fun _ held => held) sound.sharing ?_ rfl le_rfl
        sound.recorded sound.staged, .of_log rfl le_rfl, fun _ _ same => nomatch same⟩
      intro holder member
      rcases Finset.mem_insert.mp member with rfl | member
      · exact permitted
      · exact sound.excluding holder member
    · exact sound.keeps _ fun _ same => nomatch same
  | insertChange change =>
    simp only [perform] at ran
    split at ran
    · cases ran
    · rename_i above
      cases ran
      exact ⟨sound.insert permitted change _ (not_le.mp above),
        .insert change session _ (not_le.mp above), fun _ watermark _ => by simp at watermark⟩
  | raiseWatermark =>
    have held := Or.resolve_left permitted live
    have safe := sound.raised held
    simp only [perform] at ran
    split at ran
    · cases ran
    · split at ran <;> cases ran
      · refine ⟨sound.of_log sound.exclusion (fun _ held => held) sound.sharing sound.excluding rfl
          le_rfl sound.recorded ?_, .of_log rfl le_rfl, ?_⟩
        · rintro owner value same
          cases same
          exact safe
        · rintro value _ same
          cases same
          exact safe.of_log rfl le_rfl
      · refine ⟨sound.of_log sound.exclusion (fun _ held => held) sound.sharing sound.excluding rfl
          le_rfl safe sound.staged, .of_log rfl le_rfl, ?_⟩
        rintro value _ same
        cases same
        exact safe.of_log rfl le_rfl
  | readWatermark =>
    cases ran
    refine ⟨sound, .refl, ?_⟩
    rintro value _ same
    cases same
    exact sound.seen session
  | readChanges =>
    cases ran
    exact sound.keeps _ fun _ same => nomatch same
  | commit =>
    cases ran
    split
    · exact sound.keeps_ending.1
    · exact sound.keeps _ fun _ same => nomatch same
  | rollback =>
    cases ran
    split
    · exact sound.keeps_ending.2
    · exact sound.keeps _ fun _ same => nomatch same

/-- Statements that keep to the discipline keep the watermarks safe. -/
theorem execute_keeps (sound : before.Sound writers)
    (permitted : before.Permits writers session statement)
    (ran : before.execute session statement = some (reply, after)) :
    Keeps writers statement before reply after := by
  unfold execute at ran
  split at ran
  · split at ran <;> cases ran
    · exact sound.keeps_ending.2
    · exact sound.keeps_ending.2
    · exact sound.keeps _ fun _ same => nomatch same
  · exact perform_keeps sound permitted ‹_› ran

theorem interrupt_keeps (sound : before.Sound writers) (statement : Statement) :
    Keeps writers statement before .error (before.interrupt session statement) := by
  have interrupted : Keeps writers statement before .error
      { before with sessions := before.sessions.interrupted session } := by
    have kept : (before.sessions.interrupted session).Exclusion := sound.exclusion.interrupted
    refine ⟨?_, .of_log rfl le_rfl, fun _ _ same => nomatch same⟩
    unfold Sessions.interrupted at kept ⊢
    split
    · rw [if_pos ‹_›] at kept
      exact sound.of_log kept (fun _ held => held) sound.sharing sound.excluding rfl le_rfl
        sound.recorded sound.staged
    · exact sound
  have ended : Keeps writers statement before .done (before.aborting session) := sound.keeps_ending.2
  have aborted : Keeps writers statement before .error (before.aborting session) :=
    ⟨ended.sound, ended.grows, fun _ _ same => nomatch same⟩
  cases statement <;> first | exact aborted | exact interrupted

theorem skip_keeps (sound : before.Sound writers) (value : Int) :
    (before.skip value).Sound writers ∧ Extends before (before.skip value) :=
  ⟨sound.of_log sound.exclusion (fun _ held => held) sound.sharing sound.excluding rfl
    (le_max_left _ _) sound.recorded sound.staged, .of_log rfl (le_max_left _ _)⟩

/-! ### One session's statements -/

theorem execute_elsewhere (ran : before.execute session statement = some (reply, after)) :
    Sessions.Elsewhere session before.sessions after.sessions := by
  unfold execute at ran
  split at ran
  · split at ran <;> cases ran
    · exact Sessions.elsewhere_ended
    · exact Sessions.elsewhere_ended
    · exact .refl
  · cases statement <;> simp only [perform] at ran
    case begin =>
      cases ran
      exact Sessions.elsewhere_begun
    case lockShared =>
      obtain ⟨sessions, granted, same⟩ := Option.map_eq_some_iff.mp ran
      cases same
      exact Sessions.elsewhere_lockShared granted
    case lockExclusive =>
      obtain ⟨sessions, granted, same⟩ := Option.map_eq_some_iff.mp ran
      cases same
      exact Sessions.elsewhere_lockExclusive granted
    case insertChange change =>
      split at ran <;> cases ran
      exact .refl
    case raiseWatermark =>
      split at ran
      · cases ran
      · split at ran <;> cases ran <;> exact .refl
    case commit =>
      cases ran
      split
      · exact Sessions.elsewhere_ended
      · exact .refl
    case rollback =>
      cases ran
      split
      · exact Sessions.elsewhere_ended
      · exact .refl
    all_goals
      cases ran
      exact .refl

theorem interrupt_elsewhere (statement : Statement) :
    Sessions.Elsewhere session before.sessions (before.interrupt session statement).sessions := by
  cases statement <;> first | exact Sessions.elsewhere_ended | exact Sessions.elsewhere_interrupted

theorem execute_begin (ran : before.execute session .begin = some (reply, after))
    (done : reply ≠ .error) : after.sessions.tx session = .opened := by
  unfold execute at ran
  split at ran <;> cases ran
  · exact absurd rfl done
  · exact Sessions.begun_tx

theorem execute_setLocal (ran : before.execute session .setLocalLockTimeout = some (reply, after)) :
    after = before := by
  unfold execute at ran
  split at ran <;> cases ran <;> rfl

theorem execute_rows (ran : before.execute session statement = some (.rows table, after)) :
    table = before.visible session ∧ after = before := by
  unfold execute at ran
  split at ran
  · split at ran <;> cases ran
  · cases statement <;> simp only [perform] at ran
    case readChanges =>
      cases ran
      exact ⟨rfl, rfl⟩
    case lockShared | lockExclusive =>
      obtain ⟨_, _, same⟩ := Option.map_eq_some_iff.mp ran
      cases same
    case insertChange change =>
      split at ran <;> cases ran
    case raiseWatermark =>
      split at ran
      · cases ran
      · split at ran <;> cases ran
    all_goals cases ran

/-- Inside a transaction the exclusive lock, once granted, is held. -/
theorem execute_lockExclusive (opened : before.sessions.tx session = .opened)
    (ran : before.execute session .lockExclusive = some (reply, after)) :
    session ∈ after.sessions.exclusive := by
  have live : before.sessions.tx session ≠ .failed := by
    rw [opened]
    decide
  unfold execute at ran
  rw [if_neg live] at ran
  obtain ⟨sessions, granted, same⟩ := Option.map_eq_some_iff.mp ran
  cases same
  obtain ⟨_, ⟨_, rfl⟩ | ⟨idle, _⟩⟩ := Sessions.lockExclusive_some granted
  · exact Finset.mem_insert_self ..
  · exact absurd opened idle

end Database

end CredSync
