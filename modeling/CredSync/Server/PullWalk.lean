import CredSync.Server.Watermark
import Mathlib.Data.Fintype.Basic

/-! A client that pulls a scope page after page while the log is written to, every
pull on a database session of its own. -/

namespace CredSync

universe u v

section World

variable {Session : Type u} {Client : Type v} [DecidableEq Session] [DecidableEq Client]
  {writers : Set Session} {before after : World Session Client} {db : Database Session} [Hashing]

/-- A pull takes a session that no other pull is using. -/
def World.OwnSession (world : World Session Client) : Event Session Client → Prop
  | .pull _ session _ => ∀ other, ∀ pull ∈ (world.walkers other).pull, pull.session ≠ session
  | _ => True

instance [Fintype Client] (world : World Session Client) : DecidablePred world.OwnSession
  | .pull _ session _ => inferInstanceAs (Decidable (∀ other,
      ∀ pull ∈ (world.walkers other).pull, pull.session ≠ session))
  | .write .. | .writeFails .. | .skip _ | .answer _ | .fail _ | .drop _ => isTrue trivial

/-- What a session's own transaction is at each stage of its pull. -/
def Stage.Inside (sessions : Sessions Session) (session : Session) : Stage → Prop
  | .settingTimeout | .locking => sessions.tx session = .opened
  | .raising => session ∈ sessions.exclusive
  | _ => True

/-- No session is shared, so each transaction is as its pull left it. -/
structure World.Owns (world : World Session Client) : Prop where
  apart : ∀ first second pull other, (world.walkers first).pull = some pull →
    (world.walkers second).pull = some other → pull.session = other.session → first = second
  inside : ∀ client pull, (world.walkers client).pull = some pull →
    pull.stage.Inside world.db.sessions pull.session

omit [DecidableEq Session] [DecidableEq Client] [Hashing] in
theorem Stage.Inside.elsewhere {sessions after : Sessions Session} {session other : Session}
    {stage : Stage} (inside : stage.Inside sessions other) (different : other ≠ session)
    (unchanged : Sessions.Elsewhere session sessions after) : stage.Inside after other := by
  cases stage with
  | settingTimeout | locking => exact (unchanged.tx other different).trans inside
  | raising => exact (unchanged.exclusive other different).mpr inside
  | beginning | closing _ | rollingBack | recorded | reading _ => trivial

omit [DecidableEq Client] [Hashing] in
/-- The next stage finds its session's transaction as the last statement left it. -/
theorem Stage.Inside.next {stage after : Stage} {session : Session} {reply : Reply}
    {db' : Database Session} (inside : stage.Inside db.sessions session)
    (goes : stage.next reply = some after)
    (ran : db.execute session stage.statement = some (reply, db') ∨ reply = .error) :
    after.Inside db'.sessions session := by
  by_cases failed : reply = .error
  · subst failed
    cases stage with
    | closing established =>
      cases established with
      | none =>
        cases goes
        trivial
      | some _ => cases goes
    | _ => cases goes <;> trivial
  · have ran := ran.resolve_right failed
    cases stage with
    | beginning =>
      have opened := Database.execute_begin ran failed
      cases reply <;> cases goes <;> exact opened
    | settingTimeout =>
      cases Database.execute_setLocal ran
      cases reply <;> cases goes <;> first | exact inside | exact absurd rfl failed
    | locking =>
      have held := Database.execute_lockExclusive inside ran
      cases reply <;> cases goes <;> first | exact held | exact absurd rfl failed
    | closing established => cases established <;> cases reply <;> cases goes <;> trivial
    | raising | rollingBack | recorded | reading _ => cases reply <;> cases goes <;> trivial

omit [DecidableEq Session] in
/-- A pull still under way after a reply is the same pull at its next stage. -/
theorem Walker.resume_pull {walker : Walker Session} {pull later : Pull Session} {reply : Reply}
    (active : (walker.resume pull reply).pull = some later) :
    ∃ stage, pull.stage.next reply = some stage ∧ later = { pull with stage := stage } := by
  cases reply with
  | rows table =>
    simp only [Walker.resume] at active
    split at active
    · split at active <;> cases active
    · cases active
  | done | value _ | error =>
    obtain ⟨stage, goes, same⟩ := Option.map_eq_some_iff.mp active
    exact ⟨stage, goes, same.symm⟩

/-- One client goes on, in its own session. -/
private theorem World.Owns.resume (owns : before.Owns) {client : Client} {pull : Pull Session}
    {reply : Reply} (active : (before.walkers client).pull = some pull)
    (ran : before.db.execute pull.session pull.stage.statement = some (reply, db) ∨ reply = .error)
    (unchanged : Sessions.Elsewhere pull.session before.db.sessions db.sessions) :
    (before.with db client ((before.walkers client).resume pull reply)).Owns := by
  -- every pull under way was under way before, in the same session
  have came : ∀ other later,
      ((before.with db client ((before.walkers client).resume pull reply)).walkers other).pull =
        some later → ∃ earlier, (before.walkers other).pull = some earlier ∧
          earlier.session = later.session ∧ later.stage.Inside db.sessions later.session := by
    intro other later same
    by_cases mine : other = client
    · subst mine
      simp only [World.with, Function.update_self] at same
      obtain ⟨stage, goes, rfl⟩ := Walker.resume_pull same
      exact ⟨pull, active, rfl, (owns.inside other pull active).next goes ran⟩
    · simp only [World.with, Function.update_of_ne mine] at same
      have different : later.session ≠ pull.session :=
        fun equal => mine (owns.apart other client later pull same active equal)
      exact ⟨later, same, rfl, (owns.inside other later same).elsewhere different unchanged⟩
  constructor
  · intro first second pull other active active' same
    obtain ⟨earlier, before, session, _⟩ := came first pull active
    obtain ⟨earlier', before', session', _⟩ := came second other active'
    exact owns.apart first second earlier earlier' before before' (by rw [session, session', same])
  · intro client pull active
    exact (came client pull active).elim fun _ found => found.2.2

omit [DecidableEq Client] [Hashing] in
/-- A writer's statement, in a session of its own. -/
private theorem World.Owns.write (owns : before.Owns) (keeps : before.Keeps writers)
    {session : Session} (writer : session ∈ writers)
    (unchanged : Sessions.Elsewhere session before.db.sessions db.sessions) :
    World.Owns { before with db := db } where
  apart := owns.apart
  inside := by
    intro client pull active
    have different : pull.session ≠ session :=
      fun same => (keeps.walkers client).reads pull active (same ▸ writer)
    exact (owns.inside client pull active).elsewhere different unchanged

theorem World.Step.owns {event : Event Session Client} (step : World.Step writers before event after)
    (own : before.OwnSession event) (keeps : before.Keeps writers) (owns : before.Owns) :
    after.Owns := by
  obtain ⟨enabled, goes⟩ := step
  cases event with
  | write session statement =>
    obtain ⟨answer, ran, rfl⟩ := Option.map_eq_some_iff.mp goes
    exact owns.write keeps enabled.1 (Database.execute_elsewhere ran)
  | writeFails session statement =>
    cases goes
    exact owns.write keeps enabled (Database.interrupt_elsewhere statement)
  | skip value =>
    cases goes
    exact ⟨owns.apart, owns.inside⟩
  | pull client session request =>
    simp only [World.next] at goes
    split at goes <;> cases goes
    constructor
    · intro first second pull other active active' same
      by_cases mine : first = client <;> by_cases mine' : second = client
      · rw [mine, mine']
      · simp only [World.with, mine, Function.update_self, Function.update_of_ne mine'] at active active'
        cases active
        exact absurd same.symm (own second other active')
      · simp only [World.with, mine', Function.update_self, Function.update_of_ne mine] at active active'
        cases active'
        exact absurd same (own first pull active)
      · simp only [World.with, Function.update_of_ne mine, Function.update_of_ne mine'] at active active'
        exact owns.apart first second pull other active active' same
    · intro other pull active
      by_cases mine : other = client
      · simp only [World.with, mine, Function.update_self] at active
        cases active
        trivial
      · simp only [World.with, Function.update_of_ne mine] at active
        exact owns.inside other pull active
  | answer client =>
    obtain ⟨pull, active, moves⟩ := Option.bind_eq_some_iff.mp goes
    obtain ⟨⟨reply, db⟩, ran, rfl⟩ := Option.map_eq_some_iff.mp moves
    exact owns.resume active (.inl ran) (Database.execute_elsewhere ran)
  | fail client =>
    obtain ⟨pull, active, rfl⟩ := Option.map_eq_some_iff.mp goes
    exact owns.resume active (.inr rfl) (Database.interrupt_elsewhere _)
  | drop client =>
    cases goes
    have kept : ∀ other pull, ((before.with before.db client
        { before.walkers client with pull := none }).walkers other).pull = some pull →
        (before.walkers other).pull = some pull := by
      intro other pull active
      by_cases mine : other = client
      · simp only [World.with, mine, Function.update_self] at active
        cases active
      · simpa only [World.with, Function.update_of_ne mine] using active
    exact ⟨fun first second pull other active active' =>
      owns.apart first second pull other (kept first pull active) (kept second other active'),
      fun client pull active => owns.inside client pull (kept client pull active)⟩

omit [DecidableEq Session] [DecidableEq Client] [Hashing] in
theorem World.Owns.raisesLocked (owns : before.Owns) (event : Event Session Client) :
    before.RaisesLocked event := by
  cases event with
  | answer client =>
    intro pull active raising
    have inside := owns.inside client pull active
    rw [raising] at inside
    exact .inr inside
  | _ => trivial

/-- A pull walk skips nothing and repeats nothing: however writers and pulls
interleave, a client has received exactly the committed changes of its scope up to
its cursor, in order and once each, and no other will be committed there. -/
theorem walk_skips_and_repeats_nothing (writers : Set Session) (scopes : Client → ScopeId)
    (labels : List (Event Session Client)) (world : World Session Client) (client : Client)
    (run : Transition.Run (Transition.Guarded (World.Step writers) World.OwnSession)
      (World.start scopes) labels world) :
    let walker := world.walkers client
    walker.received.map Change.toRow =
        scopeLog world.db.committed walker.scope walker.cursor.get ∧
      (walker.received.Pairwise fun first second => first.seq.get < second.seq.get) ∧
      ∀ later labels', Transition.Run (Transition.Guarded (World.Step writers) World.OwnSession)
        world labels' later → ∀ change : SyncChange, change.row.seq ≤ walker.cursor.get →
          (change ∈ later.db.committed ↔ change ∈ world.db.committed) := by
  have steps : ∀ (before : World Session Client) label after,
      (before.Keeps writers ∧ before.Owns) →
      Transition.Guarded (World.Step writers) World.OwnSession before label after →
      after.Keeps writers ∧ after.Owns := by
    rintro before label after ⟨keeps, owns⟩ ⟨own, step⟩
    exact ⟨(step.keeps (owns.raisesLocked label) keeps).1, step.owns own keeps owns⟩
  have grows : ∀ (before : World Session Client) label after,
      (before.Keeps writers ∧ before.Owns) →
      Transition.Guarded (World.Step writers) World.OwnSession before label after →
      before.Grows after := by
    rintro before label after ⟨keeps, owns⟩ ⟨own, step⟩
    exact (step.keeps (owns.raisesLocked label) keeps).2
  have start : (World.start scopes : World Session Client).Keeps writers ∧
      (World.start scopes : World Session Client).Owns :=
    ⟨World.start_keeps writers scopes, (fun _ _ _ _ impossible => nomatch impossible),
      fun _ _ impossible => nomatch impossible⟩
  have kept := run.invariant steps start
  have walker := kept.1.walkers client
  refine ⟨walker.received, ?_, fun later labels' rest => ?_⟩
  · have ascending := kept.1.sound.sequenced.ascending (world.walkers client).scope
      (world.walkers client).cursor.get
    rw [← walker.received, List.pairwise_map] at ascending
    exact ascending.imp fun below => Int.ofNat_lt.mp below
  · have grown := rest.relates World.Grows.refl World.Grows.trans steps grows kept
    exact grown.settled _ walker.safe

end World

namespace Sample

attribute [local instance] noteHashes

/-- The later row commits first, and the pull in between times out on the lock. -/
def outOfOrder : List (Event (Fin 3) Unit) :=
  let request := { limit := 500, budgetBytes := 1024, compressedLen := List.length,
                   digest := ScopeDigest.empty.toHex }
  [.write 1 .begin, .write 1 .lockShared, .write 1 (.insertChange ⟨scope.bytes, noteA.toRow⟩),
    .write 2 .begin, .write 2 .lockShared, .write 2 (.insertChange ⟨scope.bytes, noteB.toRow⟩),
    .write 2 .commit,
    .pull () 0 request, .answer (), .answer (), .fail (), .answer (), .answer (), .answer (), .answer (),
    .write 1 .commit,
    .pull () 0 request, .answer (), .answer (), .answer (), .answer (), .answer (), .answer ()]

theorem outOfOrder_received : ∃ world : World (Fin 3) Unit,
    Transition.Run (Transition.Guarded (World.Step {1, 2}) World.OwnSession)
      (World.start fun _ => scope) outOfOrder world ∧
    ((world.walkers ()).received.map fun change => change.seq.get) = [1, 2] ∧
    (world.walkers ()).received.map Change.toRow =
      scopeLog world.db.committed (world.walkers ()).scope (world.walkers ()).cursor.get := by
  have followed : (Transition.follow
      (fun world event => decide (World.OwnSession world event ∧ World.Enabled {1, 2} world event))
      World.next (World.start fun _ => scope) outOfOrder).any (fun world =>
        ((world.walkers ()).received.map fun change => change.seq.get) = [1, 2]) = true := by
    decide +kernel
  have taken : ∀ (before : World (Fin 3) Unit) label after,
      decide (before.OwnSession label ∧ before.Enabled {1, 2} label) = true →
      before.next label = some after →
      Transition.Guarded (World.Step {1, 2}) World.OwnSession before label after :=
    fun _ _ _ allowed goes => ⟨(of_decide_eq_true allowed).1, (of_decide_eq_true allowed).2, goes⟩
  obtain ⟨world, run, received⟩ := Transition.Run.of_follow_any taken followed
  exact ⟨world, run, of_decide_eq_true received,
    (walk_skips_and_repeats_nothing {1, 2} (fun _ => scope) outOfOrder world () run).1⟩

end Sample

end CredSync
