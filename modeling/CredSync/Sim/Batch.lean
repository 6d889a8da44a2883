import CredSync.Library.Positional
import CredSync.Library.SortedMap
import CredSync.Sim.Invariants
import Mathlib.Data.String.Basic
import Mathlib.Data.UInt

/-! A batch of simulator runs over a range of seeds, split into stripes that run at once.
Every seed is run by some stripe up to the first failure, and the report does not show
how the range was split. -/

namespace CredSync.Sim

/-- `SIM_VERSION`. -/
def simVersion : Nat := 2

/-- What the world may do to a device. -/
inductive Fault where
  | dropped
  | duplicated
  | reordered
  | severed
  | malformed
  | flap
  | storageFailed
  | storageCommittedThenKilled
  | serverRestarted
  | deviceRestarted
  | protocolViolation
  | slowCommit
  | overloaded
  | storageLiedAboutCommit

namespace Fault

def name : Fault → String
  | dropped => "dropped"
  | duplicated => "duplicated"
  | reordered => "reordered"
  | severed => "severed"
  | malformed => "malformed"
  | flap => "flap"
  | storageFailed => "storage-failed"
  | storageCommittedThenKilled => "storage-committed-then-killed"
  | serverRestarted => "server-restarted"
  | deviceRestarted => "device-restarted"
  | overloaded => "overloaded"
  | storageLiedAboutCommit => "storage-lied-about-commit"
  | protocolViolation => "protocol-violation"
  | slowCommit => "slow-commit"

/-- `Fault::ALL`. -/
def all : List Fault :=
  [dropped, duplicated, reordered, severed, malformed, flap, storageFailed,
    storageCommittedThenKilled, serverRestarted, deviceRestarted, protocolViolation, slowCommit,
    overloaded, storageLiedAboutCommit]

end Fault

/-- What running a world on one seed comes to: the time it simulated, how often each fault
fired, and the violations found. -/
structure SeedRun where
  elapsedMs : Int64
  faults : List (String × UInt64)
  violations : List Violation

def SeedRun.holds (run : SeedRun) : Bool := run.violations.isEmpty

/-- A failing seed and what failed. -/
abbrev Failure := Option (Nat × List Violation)

/-- `keep_lowest`. -/
def keepLowest : Failure → Failure → Failure
  | none, other => other
  | other, none => other
  | some a, some b => some (if b.1 < a.1 then b else a)

/-- What one stripe of seeds produced. -/
structure Stripe where
  simulatedMs : Int64
  faults : List (String × UInt64)
  failure : Failure

/-! ### Saturating `u64` arithmetic -/

def u64Max : Nat := 2 ^ 64 - 1
def saturatingAdd (a b : Nat) : Nat := min (a + b) u64Max
def saturatingMul (a b : Nat) : Nat := min (a * b) u64Max
/-- Division rounded up. -/
def divCeil (a b : Nat) : Nat := if 0 < a % b then a / b + 1 else a / b

section Batch

variable (world : Nat → SeedRun)

/-- The loop of `run_stripe` over its seeds; it stops at the first failure. -/
def runSeeds : List Nat → Int64 → List (String × UInt64) → Stripe
  | [], simulatedMs, totals => ⟨simulatedMs, totals, none⟩
  | seed :: rest, simulatedMs, totals =>
    let run := world seed
    let simulatedMs := simulatedMs + run.elapsedMs
    let totals := run.faults.foldl SortedMap.tally totals
    if !run.holds then ⟨simulatedMs, totals, some (seed, run.violations)⟩
    else runSeeds rest simulatedMs totals

def seedsOf (stripe : Nat × Nat) : List Nat := List.range' stripe.1 (stripe.2 - stripe.1)

def runStripe (stripe : Nat × Nat) : Stripe := runSeeds world (seedsOf stripe) 0 []

/-- The seeds that loop gets to. -/
def seedsRun : List Nat → List Nat
  | [] => []
  | seed :: rest => seed :: if (world seed).holds then seedsRun rest else []

/-- The bounds `run_batch` computes for the stripes from one on, until one is empty. -/
def stripesFrom (first seeds width : Nat) : Nat → Nat → List (Nat × Nat)
  | 0, _ => []
  | jobs + 1, stripe =>
    let lo := saturatingAdd first (saturatingMul stripe width)
    let hi := min (saturatingAdd first seeds) (saturatingAdd lo width)
    if hi ≤ lo then [] else (lo, hi) :: stripesFrom first seeds width jobs (stripe + 1)

def stripeWidth (seeds jobs : Nat) : Nat := max (divCeil seeds jobs) 1

def stripes (first seeds jobs : Nat) : List (Nat × Nat) :=
  stripesFrom first seeds (stripeWidth seeds jobs) jobs 0

/-- What a batch reports. -/
inductive BatchReport where
  | failed (green seed : Nat) (violations : List Violation)
  | passed (simulatedMs : Int64) (coverage : List (String × UInt64))

/-- `run_batch` from its first seed: the stripes are joined in order. -/
def runBatch (first seeds jobs : Nat) : BatchReport :=
  let outcomes := (stripes first seeds jobs).map (runStripe world)
  let simulatedMs := outcomes.foldl (fun total outcome => total + outcome.simulatedMs) 0
  let totals := outcomes.foldl (fun totals outcome => outcome.faults.foldl SortedMap.tally totals) []
  match outcomes.foldl (fun failure outcome => keepLowest failure outcome.failure) none with
  | some (seed, violations) => .failed (seed - first) seed violations
  | none => .passed simulatedMs (Fault.all.map fun fault => (fault.name, SortedMap.count fault.name totals))

end Batch

/-! ### What is printed -/

inductive ExitCode where
  | success
  | failure
  deriving DecidableEq

def BatchReport.exit : BatchReport → ExitCode
  | failed .. => .failure
  | passed .. => .success

/-- `{:x}`, and padded with zeros to sixteen digits. -/
def hex (n : Nat) : String := String.ofList (Nat.toDigits 16 n)
def hex16 (n : Nat) : String := asText ((Positional.digits 16 16 n).map Canonical.nibble)

def humanDuration (ms : Int64) : String :=
  let days := ms / (24 * 60 * 60 * 1000)
  if 0 < days then s!"{days}d" else s!"{ms / (60 * 60 * 1000)}h"

/-- Padded with blanks to 32 characters. -/
def padded (name : String) : String := name ++ String.ofList (List.replicate (32 - name.length) ' ')

/-- The report of a failing seed. -/
def reportLines (seed : Nat) (violations : List Violation) : List String :=
  [s!"  simulator v{simVersion}", "", s!"FAILED at seed 0x{hex16 seed}"] ++
    ((violations.take 20).map fun violation => s!"  {violation}") ++
    (if 20 < violations.length then [s!"  ... and {violations.length - 20} more"] else []) ++
    ["", "replay it exactly:",
      s!"  cargo run --release -p credsync-sim -- --seed 0x{hex seed} --trace"]

/-- Standard output and standard error, without the time taken. -/
def BatchReport.output (first seeds : Nat) : BatchReport → List String × List String
  | failed green seed violations =>
    ([s!"{green}/{seeds} seeds green, then:"], reportLines seed violations)
  | passed simulatedMs coverage =>
    let silent := (coverage.filter fun entry => entry.2 = 0).map Prod.fst
    ([s!"{seeds}/{seeds} seeds green  (0x{hex16 first}..=0x{hex16 (saturatingAdd first seeds - 1)})",
        s!"simulated {humanDuration simulatedMs} of device life across the batch",
        "fault coverage:"] ++ coverage.map (fun entry => s!"  {padded entry.1} {entry.2}"),
      if silent.isEmpty then []
      else ["", s!"warning: {silent.length} fault(s) never fired: " ++ ", ".intercalate silent,
        "a fault that never fires is a fault this simulator does not have."])

/-! ### The stripes -/

theorem seeds_le_stripes (seeds : Nat) {jobs : Nat} (workers : 0 < jobs) :
    seeds ≤ jobs * stripeWidth seeds jobs := by
  have whole := Nat.div_add_mod seeds jobs
  have part := Nat.mod_lt seeds workers
  have enough : seeds ≤ jobs * divCeil seeds jobs := by
    unfold divCeil
    split
    · rw [Nat.mul_succ]
      omega
    · omega
  exact enough.trans (Nat.mul_le_mul_left jobs (Nat.le_max_left _ _))

section Bounds

variable {first seeds width : Nat}

variable (width) in
/-- While seeds are left, nothing saturates. -/
theorem stripe_bounds (fits : first + seeds ≤ u64Max) {stripe : Nat} (left : stripe * width < seeds) :
    saturatingAdd first (saturatingMul stripe width) = first + stripe * width ∧
      min (saturatingAdd first seeds) (saturatingAdd (first + stripe * width) width) =
        min (first + seeds) (first + (stripe + 1) * width) := by
  rw [Nat.succ_mul]
  unfold saturatingAdd saturatingMul
  omega

/-- Afterwards every stripe is empty. -/
theorem stripe_empty (fits : first + seeds ≤ u64Max) {stripe : Nat} (done : seeds ≤ stripe * width) :
    min (saturatingAdd first seeds)
        (saturatingAdd (saturatingAdd first (saturatingMul stripe width)) width) ≤
      saturatingAdd first (saturatingMul stripe width) := by
  unfold saturatingAdd saturatingMul
  omega

theorem stripesFrom_cases (fits : first + seeds ≤ u64Max) (positive : 0 < width) (jobs stripe : Nat) :
    stripesFrom first seeds width (jobs + 1) stripe =
      if stripe * width < seeds then
        (first + stripe * width, min (first + seeds) (first + (stripe + 1) * width)) ::
          stripesFrom first seeds width jobs (stripe + 1)
      else [] := by
  rw [stripesFrom]
  by_cases left : stripe * width < seeds
  · obtain ⟨lo, hi⟩ := stripe_bounds width fits left
    have nonempty : ¬ min (first + seeds) (first + (stripe + 1) * width) ≤ first + stripe * width := by
      rw [Nat.succ_mul]
      omega
    simp only [lo, hi, if_neg nonempty, if_pos left]
  · rw [if_neg left]
    exact if_pos (stripe_empty fits (Nat.le_of_not_lt left))

/-- The stripes follow one another without a gap. -/
theorem stripesFrom_seeds (fits : first + seeds ≤ u64Max) (positive : 0 < width) (jobs stripe : Nat) :
    (stripesFrom first seeds width jobs stripe).flatMap seedsOf =
      List.range' (first + stripe * width)
        (min seeds ((stripe + jobs) * width) - stripe * width) := by
  induction jobs generalizing stripe with
  | zero =>
    have none : min seeds ((stripe + 0) * width) - stripe * width = 0 :=
      Nat.sub_eq_zero_of_le (Nat.min_le_right _ _)
    rw [none]
    rfl
  | succ jobs ih =>
    have reach : (stripe + 1 + jobs) * width = (stripe + (jobs + 1)) * width := by
      rw [Nat.add_assoc, Nat.add_comm 1 jobs]
    rw [stripesFrom_cases fits positive]
    split
    · rename_i left
      have further : (stripe + 1) * width ≤ (stripe + (jobs + 1)) * width :=
        Nat.mul_le_mul_right width (by omega)
      rw [List.flatMap_cons, ih, reach, seedsOf]
      rw [Nat.succ_mul] at further ⊢
      simp only
      by_cases last : seeds ≤ stripe * width + width
      · have rest : min seeds ((stripe + (jobs + 1)) * width) - (stripe * width + width) = 0 := by
          omega
        have whole : min (first + seeds) (first + (stripe * width + width)) - (first + stripe * width) =
            min seeds ((stripe + (jobs + 1)) * width) - stripe * width := by omega
        rw [rest, whole]
        exact List.append_nil _
      · have here : min (first + seeds) (first + (stripe * width + width)) - (first + stripe * width) =
            width := by omega
        have more : min seeds ((stripe + (jobs + 1)) * width) - stripe * width =
            width + (min seeds ((stripe + (jobs + 1)) * width) - (stripe * width + width)) := by omega
        rw [here, more, ← Nat.add_assoc]
        exact List.range'_append_1
    · rename_i done
      have none : min seeds ((stripe + (jobs + 1)) * width) - stripe * width = 0 := by omega
      rw [none]
      rfl

/-- The stripes from one on begin where it begins, and each ends before the next begins. -/
theorem stripesFrom_ordered (fits : first + seeds ≤ u64Max) (positive : 0 < width) (jobs stripe : Nat) :
    (∀ bounds ∈ stripesFrom first seeds width jobs stripe,
      first + stripe * width ≤ bounds.1 ∧ bounds.1 < bounds.2) ∧
    (stripesFrom first seeds width jobs stripe).Pairwise fun earlier later => earlier.2 ≤ later.1 := by
  induction jobs generalizing stripe with
  | zero => exact ⟨List.forall_mem_nil _, .nil⟩
  | succ jobs ih =>
    obtain ⟨begins, ordered⟩ := ih (stripe + 1)
    rw [stripesFrom_cases fits positive]
    split
    · rename_i left
      have step : (stripe + 1) * width = stripe * width + width := Nat.succ_mul stripe width
      refine ⟨List.forall_mem_cons.mpr ⟨⟨Nat.le_refl _, ?_⟩, ?_⟩, List.pairwise_cons.mpr ⟨?_, ordered⟩⟩
      · simp only [step]
        omega
      · intro bounds member
        have later := begins bounds member
        omega
      · intro later member
        exact (Nat.min_le_right _ _).trans (begins later member).1
    · exact ⟨List.forall_mem_nil _, .nil⟩

end Bounds

theorem stripeWidth_pos (seeds jobs : Nat) : 0 < stripeWidth seeds jobs := Nat.le_max_right _ _

theorem stripes_seeds (fits : first + seeds ≤ u64Max) (workers : 0 < jobs) :
    (stripes first seeds jobs).flatMap seedsOf = List.range' first seeds := by
  have enough := seeds_le_stripes seeds workers
  rw [stripes, stripesFrom_seeds fits (stripeWidth_pos seeds jobs), Nat.zero_mul, Nat.zero_add, Nat.add_zero,
    Nat.sub_zero, Nat.min_eq_left enough]

/-! ### What the stripes find -/

section Findings

variable (world : Nat → SeedRun)

/-- The first failure along some seeds. -/
def firstFailure (seeds : List Nat) : Failure :=
  (seeds.find? fun seed => !(world seed).holds).map fun seed => (seed, (world seed).violations)

theorem firstFailure_cons (seed : Nat) (rest : List Nat) :
    firstFailure world (seed :: rest) =
      if (world seed).holds then firstFailure world rest else some (seed, (world seed).violations) := by
  rw [firstFailure, List.find?_cons]
  cases (world seed).holds <;> rfl

/-- How often a fault fired along some seeds. -/
def fired (name : String) (seeds : List Nat) : UInt64 :=
  ((seeds.flatMap fun seed => (world seed).faults).map (SortedMap.share name)).sum

theorem fired_append (name : String) (before after : List Nat) :
    fired world name (before ++ after) = fired world name before + fired world name after := by
  rw [fired, List.flatMap_append, List.map_append, List.sum_append]
  rfl

/-- The time simulated along some seeds, on top of a time before. -/
def simulated (before : Int64) (seeds : List Nat) : Int64 :=
  seeds.foldl (fun total seed => total + (world seed).elapsedMs) before

theorem simulated_add (before more : Int64) (seeds : List Nat) :
    simulated world (before + more) seeds = before + simulated world more seeds := by
  induction seeds generalizing more with
  | nil => rfl
  | cons seed rest ih =>
    rw [simulated, List.foldl_cons, Int64.add_assoc]
    exact ih _

/-- A stripe reports its first failure, and counts the seeds it ran and no others. -/
theorem runSeeds_eq (seeds : List Nat) (before : Int64) (totals : List (String × UInt64)) :
    runSeeds world seeds before totals =
      { simulatedMs := simulated world before (seedsRun world seeds)
        faults := ((seedsRun world seeds).flatMap fun seed => (world seed).faults).foldl
          SortedMap.tally totals
        failure := firstFailure world seeds } := by
  induction seeds generalizing before totals with
  | nil => rfl
  | cons seed rest ih =>
    rw [runSeeds, seedsRun, firstFailure_cons]
    cases (world seed).holds with
    | true =>
      simp only [Bool.not_true, Bool.false_eq_true, if_false, if_true, ih, List.flatMap_cons,
        List.foldl_append]
      rfl
    | false =>
      simp only [Bool.not_false, if_true, Bool.false_eq_true, if_false, List.flatMap_cons,
        List.flatMap_nil, List.append_nil]
      rfl

/-- Without a failure every seed is run. -/
theorem seedsRun_all {seeds : List Nat} (green : firstFailure world seeds = none) :
    seedsRun world seeds = seeds := by
  induction seeds with
  | nil => rfl
  | cons seed rest ih =>
    rw [firstFailure_cons] at green
    rw [seedsRun]
    split
    · rename_i passes
      rw [if_pos passes] at green
      rw [ih green]
    · rename_i fails
      rw [if_neg fails] at green
      cases green

theorem firstFailure_append (before after : List Nat) :
    firstFailure world (before ++ after) = (firstFailure world before).or (firstFailure world after) := by
  rw [firstFailure, List.find?_append]
  unfold firstFailure
  cases before.find? fun seed => !(world seed).holds <;> rfl

theorem firstFailure_some {seeds : List Nat} {seed : Nat} {violations : List Violation}
    (found : firstFailure world seeds = some (seed, violations)) :
    seed ∈ seeds ∧ (world seed).holds = false ∧ (world seed).violations = violations := by
  obtain ⟨first, here, same⟩ := Option.map_eq_some_iff.mp found
  cases same
  have fails := List.find?_some here
  exact ⟨List.mem_of_find?_eq_some here, by simpa using fails, rfl⟩

/-- Of two failures the one along the earlier seeds is kept. -/
theorem keepLowest_firstFailure {before after : List Nat} (below : ∀ a ∈ before, ∀ b ∈ after, a < b) :
    keepLowest (firstFailure world before) (firstFailure world after) =
      firstFailure world (before ++ after) := by
  rw [firstFailure_append]
  cases first : firstFailure world before with
  | none => rfl
  | some a =>
    cases second : firstFailure world after with
    | none => rfl
    | some b =>
      have lower := below a.1 (firstFailure_some world first).1 b.1 (firstFailure_some world second).1
      exact congrArg some (if_neg (Nat.lt_asymm lower))

/-- Joining the stripes in order keeps the first failure along all their seeds. -/
theorem foldl_keepLowest (before : List Nat) (rest : List (Nat × Nat))
    (ascending : (before ++ rest.flatMap seedsOf).Pairwise (· < ·)) :
    (rest.map (runStripe world)).foldl (fun failure outcome => keepLowest failure outcome.failure)
        (firstFailure world before) =
      firstFailure world (before ++ rest.flatMap seedsOf) := by
  induction rest generalizing before with
  | nil => rw [List.flatMap_nil, List.append_nil]; rfl
  | cons stripe rest ih =>
    rw [List.flatMap_cons, ← List.append_assoc] at ascending ⊢
    have below := (List.pairwise_append.mp (List.pairwise_append.mp ascending).1).2.2
    have here : (runStripe world stripe).failure = firstFailure world (seedsOf stripe) := by
      rw [runStripe, runSeeds_eq]
    rw [List.map_cons, List.foldl_cons, here, keepLowest_firstFailure world below]
    exact ih _ ascending

theorem foldl_simulated {rest : List (Nat × Nat)} (before : Int64)
    (green : firstFailure world (rest.flatMap seedsOf) = none) :
    (rest.map (runStripe world)).foldl (fun total outcome => total + outcome.simulatedMs) before =
      simulated world before (rest.flatMap seedsOf) := by
  induction rest generalizing before with
  | nil => rfl
  | cons stripe rest ih =>
    rw [List.flatMap_cons, firstFailure_append, Option.or_eq_none_iff] at green
    have here : (runStripe world stripe).simulatedMs = simulated world 0 (seedsOf stripe) := by
      rw [runStripe, runSeeds_eq, seedsRun_all world green.1]
    rw [List.map_cons, List.foldl_cons, ih _ green.2, here, ← simulated_add, Int64.add_zero,
      List.flatMap_cons]
    exact (List.foldl_append ..).symm

theorem count_foldl_stripes {rest : List (Nat × Nat)} (name : String) (totals : List (String × UInt64))
    (green : firstFailure world (rest.flatMap seedsOf) = none) :
    SortedMap.count name ((rest.map (runStripe world)).foldl
        (fun totals outcome => outcome.faults.foldl SortedMap.tally totals) totals) =
      SortedMap.count name totals + fired world name (rest.flatMap seedsOf) := by
  induction rest generalizing totals with
  | nil => exact (add_zero _).symm
  | cons stripe rest ih =>
    rw [List.flatMap_cons, firstFailure_append, Option.or_eq_none_iff] at green
    have here : (runStripe world stripe).faults =
        ((seedsOf stripe).flatMap fun seed => (world seed).faults).foldl SortedMap.tally [] := by
      rw [runStripe, runSeeds_eq, seedsRun_all world green.1]
    have sorted : SortedMap.Sorted (runStripe world stripe).faults := by
      rw [here]
      exact SortedMap.Sorted.foldl_tally .nil _
    have counted : SortedMap.count name (runStripe world stripe).faults =
        fired world name (seedsOf stripe) := by
      rw [here, SortedMap.count_foldl]
      exact zero_add _
    rw [List.map_cons, List.foldl_cons, ih _ green.2, SortedMap.count_foldl, sorted.sum_share, counted,
      List.flatMap_cons, fired_append, add_assoc]

/-- The batch as one pass over the range. -/
def sweep (first seeds : Nat) : BatchReport :=
  let range := List.range' first seeds
  match firstFailure world range with
  | some (seed, violations) => .failed (seed - first) seed violations
  | none => .passed (simulated world 0 range)
      (Fault.all.map fun fault => (fault.name, fired world fault.name range))

/-- However the range is split, the report is that of one pass. -/
theorem runBatch_eq {first seeds jobs : Nat} (fits : first + seeds ≤ u64Max) (workers : 0 < jobs) :
    runBatch world first seeds jobs = sweep world first seeds := by
  have whole := stripes_seeds fits workers
  have ascending : ([] ++ (stripes first seeds jobs).flatMap seedsOf).Pairwise (· < ·) := by
    rw [whole]
    exact List.pairwise_lt_range'
  have found := foldl_keepLowest world [] _ ascending
  rw [List.nil_append, whole] at found
  unfold runBatch sweep
  simp only
  rw [show (none : Failure) = firstFailure world [] from rfl, found]
  cases green : firstFailure world (List.range' first seeds) with
  | some failure => rfl
  | none =>
    rw [← whole] at green
    have blank (name : String) : SortedMap.count name ([] : List (String × UInt64)) = 0 := rfl
    simp only [foldl_simulated world 0 green, count_foldl_stripes world _ _ green, whole, blank,
      zero_add]

/-- The seeds that some stripe of a batch gets to. -/
def batchRuns (first seeds jobs : Nat) : List Nat :=
  (stripes first seeds jobs).flatMap fun stripe => seedsRun world (seedsOf stripe)

/-- A loop gets to every seed that only passing ones come before. -/
theorem mem_seedsRun {seeds : List Nat} {seed : Nat} (member : seed ∈ seeds)
    (ascending : seeds.Pairwise (· < ·)) (passed : ∀ lower ∈ seeds, lower < seed → (world lower).holds) :
    seed ∈ seedsRun world seeds := by
  induction seeds with
  | nil => cases member
  | cons head rest ih =>
    obtain ⟨above, ascending⟩ := List.pairwise_cons.mp ascending
    rw [seedsRun]
    rcases List.mem_cons.mp member with same | later
    · exact same ▸ List.mem_cons_self
    · rw [if_pos (passed head List.mem_cons_self (above seed later))]
      apply List.mem_cons_of_mem
      exact ih later ascending fun lower within => passed lower (List.mem_cons_of_mem _ within)

theorem mem_batchRuns {first seeds jobs seed : Nat} (fits : first + seeds ≤ u64Max)
    (workers : 0 < jobs) (member : seed ∈ List.range' first seeds)
    (passed : ∀ lower ∈ List.range' first seeds, lower < seed → (world lower).holds) :
    seed ∈ batchRuns world first seeds jobs := by
  rw [← stripes_seeds fits workers] at member passed
  obtain ⟨stripe, mine, within⟩ := List.mem_flatMap.mp member
  apply List.mem_flatMap.mpr
  refine ⟨stripe, mine, mem_seedsRun world within List.pairwise_lt_range' ?_⟩
  intro lower below
  exact passed lower (List.mem_flatMap.mpr ⟨stripe, mine, below⟩)

/-- The first failure of an ascending range is its lowest. -/
theorem firstFailure_lowest {seeds : List Nat} {seed : Nat} {violations : List Violation}
    (ascending : seeds.Pairwise (· < ·)) (found : firstFailure world seeds = some (seed, violations)) :
    ∀ lower ∈ seeds, lower < seed → (world lower).holds = true := by
  induction seeds with
  | nil => exact fun lower member => nomatch member
  | cons head rest ih =>
    obtain ⟨above, ascending⟩ := List.pairwise_cons.mp ascending
    rw [firstFailure_cons] at found
    split at found
    · rename_i passes
      intro lower member below
      rcases List.mem_cons.mp member with same | later
      · rw [same]
        exact passes
      · exact ih ascending found lower later below
    · cases found
      intro lower member below
      rcases List.mem_cons.mp member with same | later
      · exact absurd below (same ▸ Nat.lt_irrefl _)
      · exact absurd (above lower later) (Nat.lt_asymm below)

theorem firstFailure_none {seeds : List Nat} :
    firstFailure world seeds = none ↔ ∀ seed ∈ seeds, (world seed).holds = true := by
  rw [firstFailure, Option.map_eq_none_iff, List.find?_eq_none]
  simp only [Bool.not_eq_true', Bool.not_eq_false]

/-- The stripes of a batch cut the range into disjoint parts. The batch succeeds exactly when
every seed passes. Otherwise it reports the lowest failing seed, with the number of seeds
below it, each of which was run and passed. How many jobs there were does not show. -/
theorem batch_covers_every_seed {first seeds jobs : Nat} (fits : first + seeds ≤ u64Max)
    (workers : 0 < jobs) :
    (stripes first seeds jobs).flatMap seedsOf = List.range' first seeds ∧
    ((stripes first seeds jobs).Pairwise fun stripe other =>
      ∀ seed ∈ seedsOf stripe, seed ∉ seedsOf other) ∧
    ((runBatch world first seeds jobs).exit = .success ↔
      ∀ seed, first ≤ seed → seed < first + seeds → (world seed).holds = true) ∧
    (∀ green seed violations, runBatch world first seeds jobs = .failed green seed violations →
      first ≤ seed ∧ seed < first + seeds ∧ (world seed).holds = false ∧
        (world seed).violations = violations ∧ green = seed - first ∧
        ∀ lower, first ≤ lower → lower < seed →
          (world lower).holds = true ∧ lower ∈ batchRuns world first seeds jobs) ∧
    ∀ jobs', 0 < jobs' → runBatch world first seeds jobs' = runBatch world first seeds jobs := by
  have ascending : (List.range' first seeds).Pairwise (· < ·) := List.pairwise_lt_range'
  have whole := stripes_seeds fits workers
  refine ⟨whole, ?_, ?_, ?_, ?_⟩
  · have ordered := (stripesFrom_ordered fits (stripeWidth_pos seeds jobs) jobs 0).2
    apply ordered.imp
    intro stripe other apart seed here there
    obtain ⟨_, below⟩ := List.mem_range'_1.mp here
    obtain ⟨above, _⟩ := List.mem_range'_1.mp there
    omega
  · have passes : (∀ seed, first ≤ seed → seed < first + seeds → (world seed).holds = true) ↔
        firstFailure world (List.range' first seeds) = none := by
      rw [firstFailure_none]
      simp only [List.mem_range'_1, and_imp]
    rw [passes, runBatch_eq world fits workers, sweep]
    cases firstFailure world (List.range' first seeds) with
    | none => exact iff_of_true rfl rfl
    | some failure => exact iff_of_false (fun same => nomatch same) (fun same => nomatch same)
  · intro green seed violations reported
    rw [runBatch_eq world fits workers, sweep] at reported
    cases found : firstFailure world (List.range' first seeds) with
    | none =>
      rw [found] at reported
      cases reported
    | some failure =>
      rw [found] at reported
      cases reported
      obtain ⟨member, fails, same⟩ := firstFailure_some world found
      obtain ⟨above, below⟩ := List.mem_range'_1.mp member
      have lowest := firstFailure_lowest world ascending found
      refine ⟨above, below, fails, same, rfl, ?_⟩
      intro lower reached under
      have within : lower ∈ List.range' first seeds := List.mem_range'_1.mpr ⟨reached, by omega⟩
      refine ⟨lowest lower within under, mem_batchRuns world fits workers within ?_⟩
      intro earlier here before
      exact lowest earlier here (before.trans under)
  · intro jobs' workers'
    rw [runBatch_eq world fits workers', runBatch_eq world fits workers]

end Findings

end CredSync.Sim

namespace CredSync.Sample

open Sim

/-- Every fourth seed violates an invariant, starting from 5. -/
def everyFourth (seed : Nat) : SeedRun where
  elapsedMs := 1000
  faults := [("dropped", 2), ("reordered", 1)]
  violations := if seed % 4 = 1 then [⟨"no-loss", some 0, "a command vanished", 12⟩] else []

theorem everyFourth_reports :
    (∀ lower, 2 ≤ lower → lower < 5 →
      (everyFourth lower).holds = true ∧ lower ∈ batchRuns everyFourth 2 9 4) ∧
    runBatch everyFourth 2 9 1 = runBatch everyFourth 2 9 4 := by
  obtain ⟨_, _, _, lowest, same⟩ :=
    @batch_covers_every_seed everyFourth 2 9 4 (by decide) (by decide)
  have reported : runBatch everyFourth 2 9 4 =
      .failed 3 5 [⟨"no-loss", some 0, "a command vanished", 12⟩] := rfl
  exact ⟨(lowest 3 5 _ reported).2.2.2.2.2, same 1 (by decide)⟩

end CredSync.Sample
