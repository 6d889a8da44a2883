import CredSync.Library.FiniteMap
import Mathlib.Algebra.BigOperators.Group.Finset.Piecewise
import Mathlib.Data.List.Sort
import Mathlib.Tactic.Abel

/-! An append-only log of keyed writes, and readers that follow it by position.
A reader need not apply every entry: it is enough that, up to its position, it
has what each key was last written to. -/

universe u v w

namespace KeyedLog

/-- One write: its position, the key it writes, and the new value or its removal. -/
structure Entry (Key : Type u) (Value : Type v) where
  seq : Nat
  key : Key
  value : Option Value

/-! ### Lists in ascending order of position -/

section Position

variable {Item : Type w} (seq : Item → Nat)

/-- Positions strictly increase. -/
def Ascending (items : List Item) : Prop := items.Pairwise fun first second => seq first < seq second

/-- The items up to a position. -/
def upTo (position : Nat) (items : List Item) : List Item := items.filter (seq · ≤ position)

/-- The items after one position, up to another. -/
def between (low high : Nat) (items : List Item) : List Item :=
  items.filter fun item => low < seq item && seq item ≤ high

variable {seq} {items : List Item}

theorem mem_upTo : item ∈ upTo seq position items ↔ item ∈ items ∧ seq item ≤ position := by
  simp [upTo]

theorem mem_between :
    item ∈ between seq low high items ↔ item ∈ items ∧ low < seq item ∧ seq item ≤ high := by
  simp [between]

theorem Ascending.filter (ascending : Ascending seq items) (test : Item → Bool) :
    Ascending seq (items.filter test) :=
  List.Pairwise.filter test ascending

theorem Ascending.sublist (ascending : Ascending seq items) (within : List.Sublist part items) :
    Ascending seq part :=
  List.Pairwise.sublist within ascending

theorem Ascending.append_iff : Ascending seq (first ++ second) ↔
    Ascending seq first ∧ Ascending seq second ∧
      ∀ earlier ∈ first, ∀ later ∈ second, seq earlier < seq later :=
  List.pairwise_append

/-- A position holds at most one item. -/
theorem Ascending.unique (ascending : Ascending seq items) (member : item ∈ items)
    (other : item' ∈ items) (same : seq item = seq item') : item = item' := by
  have distinct : (items.map seq).Nodup := List.pairwise_map.mpr (ascending.imp fun lower => lower.ne)
  exact List.inj_on_of_nodup_map distinct member other same

/-- Ascending lists with the same items are the same. -/
theorem Ascending.ext {others : List Item} (ascending : Ascending seq items)
    (ascending' : Ascending seq others) (same : ∀ item, item ∈ items ↔ item ∈ others) :
    items = others := by
  have _ : Std.Asymm fun first second => seq first < seq second := ⟨fun _ _ => Nat.lt_asymm⟩
  exact List.Pairwise.eq_of_mem_iff ascending ascending' same

/-- Scanning an ascending list to a position finds everything up to it. -/
theorem Ascending.takeWhile_eq (ascending : Ascending seq items) (position : Nat) :
    items.takeWhile (fun item => decide (seq item ≤ position)) = upTo seq position items := by
  induction items with
  | nil => rfl
  | cons item rest ih =>
    obtain ⟨below, ascending⟩ := List.pairwise_cons.mp ascending
    by_cases within : seq item ≤ position
    · have continues := ih ascending
      simp_all [upTo]
    · have beyond : upTo seq position rest = [] :=
        List.filter_eq_nil_iff.mpr fun later member => by
          have above := below later member
          simp only [decide_eq_true_eq]
          omega
      simp_all [upTo]

/-- Scanning an ascending list past a position leaves everything after it. -/
theorem Ascending.drop_takeWhile (ascending : Ascending seq items) (position : Nat) :
    items.drop (items.takeWhile fun item => decide (seq item ≤ position)).length =
      items.filter (position < seq ·) := by
  induction items with
  | nil => rfl
  | cons item rest ih =>
    obtain ⟨below, ascending⟩ := List.pairwise_cons.mp ascending
    by_cases within : seq item ≤ position
    · have notAfter : ¬ position < seq item := Nat.not_lt.mpr within
      simpa [within, notAfter] using ih ascending
    · have above : position < seq item := Nat.lt_of_not_le within
      have kept : rest.filter (position < seq ·) = rest :=
        List.filter_eq_self.mpr fun later member => by simpa using above.trans (below later member)
      simp [within, above, kept]

/-- An ascending list is cut at any position in two. -/
theorem Ascending.upTo_append_between (ascending : Ascending seq items) (ordered : low ≤ high) :
    upTo seq low items ++ between seq low high items = upTo seq high items := by
  induction items with
  | nil => rfl
  | cons item rest ih =>
    obtain ⟨below, ascending⟩ := List.pairwise_cons.mp ascending
    by_cases lower : seq item ≤ low
    · have reached : seq item ≤ high := lower.trans ordered
      have notAfter : ¬ low < seq item := Nat.not_lt.mpr lower
      have split := ih ascending
      simp only [upTo, between] at split
      simp [upTo, between, lower, reached, notAfter, split]
    · have above : low < seq item := Nat.lt_of_not_le lower
      have beyond : ∀ later ∈ item :: rest, low < seq later := by
        intro later member
        rcases List.mem_cons.mp member with rfl | member
        · exact above
        · exact above.trans (below later member)
      have nothing : upTo seq low (item :: rest) = [] :=
        List.filter_eq_nil_iff.mpr fun later member => by
          simpa using beyond later member
      rw [nothing, List.nil_append, between, upTo]
      exact List.filter_congr fun later member => by simp [beyond later member]

/-- The position of the last item of a page, or where the page was requested. -/
def reached (seq : Item → Nat) (low : Nat) (page : List Item) : Nat :=
  (page.getLast?.map seq).getD low

@[simp] theorem reached_nil : reached seq low [] = low := rfl

theorem reached_append (seq : Item → Nat) (low : Nat) (page rest : List Item) :
    reached seq low (page ++ rest) = reached seq (reached seq low page) rest := by
  cases rest using List.reverseRecOn with
  | nil => rw [List.append_nil, reached_nil]
  | append_singleton earlier last => simp [reached, ← List.append_assoc]

theorem Ascending.le_reached (ascending : Ascending seq page) (member : item ∈ page) :
    seq item ≤ reached seq low page := by
  obtain ⟨earlier, last, rfl⟩ := List.eq_nil_or_concat page |>.resolve_left
    (List.ne_nil_of_mem member)
  rw [List.concat_eq_append] at ascending member ⊢
  obtain ⟨_, _, below⟩ := Ascending.append_iff.mp ascending
  rw [reached, List.getLast?_concat, Option.map_some, Option.getD_some]
  rcases List.mem_append.mp member with member | member
  · exact (below item member last List.mem_cons_self).le
  · rw [List.mem_singleton.mp member]

theorem reached_eq_low_or_mem (seq : Item → Nat) (low : Nat) (page : List Item) :
    (page = [] ∧ reached seq low page = low) ∨ ∃ item ∈ page, reached seq low page = seq item := by
  cases last : page.getLast? with
  | none => exact .inl ⟨List.getLast?_eq_none_iff.mp last, by simp [reached, last]⟩
  | some item => exact .inr ⟨item, List.mem_of_getLast? last, by simp [reached, last]⟩

theorem le_reached_of_above (above : ∀ item ∈ page, low < seq item) : low ≤ reached seq low page := by
  rcases reached_eq_low_or_mem seq low page with ⟨_, same⟩ | ⟨item, member, same⟩
  · exact same.ge
  · exact same ▸ (above item member).le

/-- A first part of an ascending list is what it holds up to the last position taken. -/
theorem Ascending.cut (ascending : Ascending seq (page ++ rest))
    (above : ∀ item ∈ page ++ rest, low < seq item) :
    page = upTo seq (reached seq low page) (page ++ rest) := by
  obtain ⟨taken, _, below⟩ := Ascending.append_iff.mp ascending
  have kept : upTo seq (reached seq low page) page = page :=
    List.filter_eq_self.mpr fun item member => by simpa using taken.le_reached member
  have dropped : upTo seq (reached seq low page) rest = [] := by
    refine List.filter_eq_nil_iff.mpr fun item member => ?_
    rcases reached_eq_low_or_mem seq low page with ⟨_, same⟩ | ⟨last, inside, same⟩
    · simpa [same] using above item (List.mem_append_right _ member)
    · simpa [same] using below last inside item member
  calc page = upTo seq (reached seq low page) page ++ upTo seq (reached seq low page) rest := by
        rw [kept, dropped, List.append_nil]
    _ = upTo seq (reached seq low page) (page ++ rest) := (List.filter_append ..).symm

/-- A first part of an ascending list reaches no further than the list. -/
theorem Ascending.reached_mono (ascending : Ascending seq items)
    (above : ∀ item ∈ items, low < seq item) (begins : part <+: items) :
    reached seq low part ≤ reached seq low items := by
  obtain ⟨rest, rfl⟩ := begins
  obtain ⟨_, _, below⟩ := Ascending.append_iff.mp ascending
  rw [reached_append]
  refine le_reached_of_above fun item member => ?_
  rcases reached_eq_low_or_mem seq low part with ⟨_, same⟩ | ⟨last, inside, same⟩
  · rw [same]
    exact above item (List.mem_append_right _ member)
  · rw [same]
    exact below last inside item member

/-- Of two first parts of an ascending list, the one that reaches less far begins the other. -/
theorem Ascending.begins_of_reached (ascending : Ascending seq items)
    (above : ∀ item ∈ items, low < seq item) (first : part <+: items) (second : other <+: items)
    (ordered : reached seq low part ≤ reached seq low other) : part <+: other := by
  obtain ⟨beyond, rfl⟩ := second
  obtain ⟨rest, whole⟩ := first
  have cut : other = upTo seq (reached seq low other) (other ++ beyond) := ascending.cut above
  have shorter : part = upTo seq (reached seq low part) (other ++ beyond) := by
    rw [← whole] at ascending above ⊢
    exact ascending.cut above
  refine ⟨between seq (reached seq low part) (reached seq low other) (other ++ beyond), ?_⟩
  calc part ++ between seq (reached seq low part) (reached seq low other) (other ++ beyond)
      = upTo seq (reached seq low part) (other ++ beyond) ++
          between seq (reached seq low part) (reached seq low other) (other ++ beyond) := by
        rw [← shorter]
    _ = other := by rw [ascending.upTo_append_between ordered, ← cut]

end Position

/-! ### Replaying a log -/

section Replay

variable {Key : Type u} {Value : Type v} [DecidableEq Key]

/-- What a reader holds for each key. -/
abbrev Holding (Key : Type u) (Value : Type v) := Key → Option Value

def write (state : Holding Key Value) (entry : Entry Key Value) : Holding Key Value :=
  Function.update state entry.key entry.value

def replay (state : Holding Key Value) (entries : List (Entry Key Value)) : Holding Key Value :=
  entries.foldl write state

/-- What a log leaves behind when it is replayed from nothing. -/
def live (log : List (Entry Key Value)) : Holding Key Value := replay (fun _ => none) log

/-- The live rows of a log as a finite table. -/
def liveTable (log : List (Entry Key Value)) : Table Key Value :=
  log.foldl (fun table entry => match entry.value with
    | some value => table.insert entry.key value
    | none => Finmap.erase entry.key table) ∅

variable {state : Holding Key Value} {log page entries : List (Entry Key Value)}

@[simp] theorem replay_nil : replay state ([] : List (Entry Key Value)) = state := rfl

theorem replay_cons : replay state (entry :: entries) = replay (write state entry) entries := rfl

theorem replay_append : replay state (page ++ entries) = replay (replay state page) entries :=
  List.foldl_append

theorem replay_concat : replay state (entries ++ [entry]) = write (replay state entries) entry :=
  List.foldl_concat ..

@[simp] theorem write_same : write state entry entry.key = entry.value := Function.update_self ..

theorem write_other (different : key ≠ entry.key) : write state entry key = state key :=
  Function.update_of_ne different ..

theorem replay_absent (absent : ∀ entry ∈ entries, entry.key ≠ key) :
    replay state entries key = state key := by
  induction entries generalizing state with
  | nil => rfl
  | cons entry rest ih =>
    rw [replay_cons, ih fun later member => absent later (List.mem_cons_of_mem _ member)]
    exact write_other (absent entry List.mem_cons_self).symm

/-- A key that is written no longer depends on what it started from. -/
theorem replay_written (written : ∃ entry ∈ entries, entry.key = key)
    (state other : Holding Key Value) : replay state entries key = replay other entries key := by
  induction entries using List.reverseRecOn with
  | nil =>
    obtain ⟨_, impossible, _⟩ := written
    cases impossible
  | append_singleton rest last ih =>
    rw [replay_concat, replay_concat]
    by_cases here : key = last.key
    · subst key
      rw [write_same, write_same]
    · rw [write_other here, write_other here]
      apply ih
      obtain ⟨entry, member, same⟩ := written
      rcases List.mem_append.mp member with earlier | final
      · exact ⟨entry, earlier, same⟩
      · rw [List.mem_singleton.mp final] at same
        exact absurd same.symm here

/-- Replaying at one key depends on the starting state at that key only. -/
theorem replay_at (same : state key = other key) :
    replay state entries key = replay other entries key := by
  induction entries generalizing state other with
  | nil => exact same
  | cons entry rest ih =>
    apply ih
    by_cases here : key = entry.key
    · subst key
      rw [write_same, write_same]
    · rw [write_other here, write_other here]
      exact same

/-- Looking at values through a function commutes with replaying them. -/
theorem replay_map {Other : Type w} (view : Value → Other) (state : Holding Key Value)
    (entries : List (Entry Key Value)) :
    (fun key => (replay state entries key).map view) =
      replay (fun key => (state key).map view)
        (entries.map fun entry => ⟨entry.seq, entry.key, entry.value.map view⟩) := by
  induction entries generalizing state with
  | nil => rfl
  | cons entry rest ih =>
    rw [List.map_cons, replay_cons, replay_cons, ih]
    congr 1
    funext key
    by_cases here : key = entry.key
    · subst key
      simp [write]
    · simp [write, here]

theorem lookup_liveTable (log : List (Entry Key Value)) (key : Key) :
    (liveTable log).lookup key = live log key := by
  induction log using List.reverseRecOn with
  | nil => rfl
  | append_singleton rest entry ih =>
    rw [live, replay_concat, liveTable, List.foldl_concat]
    by_cases here : key = entry.key
    · subst key
      rw [write_same]
      cases entry.value with
      | some value => exact Finmap.lookup_insert _
      | none => exact Finmap.lookup_erase _ _
    · rw [write_other here]
      refine Eq.trans ?_ ih
      cases entry.value with
      | some value => exact Finmap.lookup_insert_of_ne _ here
      | none => exact Finmap.lookup_erase_ne here

/-- A key is left at the last entry that writes it. -/
theorem live_eq_last (log : List (Entry Key Value)) (key : Key) :
    live log key = (log.filter fun entry => entry.key = key).getLast?.bind (·.value) := by
  induction log using List.reverseRecOn with
  | nil => rfl
  | append_singleton rest entry ih =>
    rw [live, replay_concat, List.filter_append]
    by_cases here : entry.key = key
    · subst key
      simp
    · rw [write_other (Ne.symm here)]
      simpa [here, live] using ih

/-- The entry a key was last written by. -/
def Latest (log : List (Entry Key Value)) (entry : Entry Key Value) : Prop :=
  entry ∈ log ∧ ∀ other ∈ log, other.key = entry.key → other.seq ≤ entry.seq

theorem exists_latest (ascending : Ascending Entry.seq log) (member : entry ∈ log) :
    ∃ latest, Latest log latest ∧ latest.key = entry.key := by
  induction log using List.reverseRecOn with
  | nil => cases member
  | append_singleton rest last ih =>
    obtain ⟨earlier, _, below⟩ := Ascending.append_iff.mp ascending
    by_cases here : last.key = entry.key
    · refine ⟨last, ⟨by simp, fun other member _ => ?_⟩, here⟩
      rcases List.mem_append.mp member with member | member
      · exact (below other member last List.mem_cons_self).le
      · rw [List.mem_singleton.mp member]
    · rcases List.mem_append.mp member with member | member
      · obtain ⟨latest, ⟨inside, highest⟩, same⟩ := ih earlier member
        refine ⟨latest, ⟨List.mem_append_left _ inside, fun other member equal => ?_⟩, same⟩
        rcases List.mem_append.mp member with member | member
        · exact highest other member equal
        · rw [List.mem_singleton.mp member] at equal
          exact absurd (equal.trans same) here
      · exact absurd (congrArg Entry.key (List.mem_singleton.mp member)).symm here

/-- Replaying an ascending log leaves each key at its latest entry. -/
theorem replay_latest (ascending : Ascending Entry.seq log) (latest : Latest log entry) :
    replay state log entry.key = entry.value := by
  induction log using List.reverseRecOn with
  | nil => exact nomatch latest.1
  | append_singleton rest last ih =>
    obtain ⟨earlier, _, below⟩ := Ascending.append_iff.mp ascending
    rw [replay_concat]
    rcases List.mem_append.mp latest.1 with member | member
    · have later : entry.key ≠ last.key := by
        intro same
        have bound := latest.2 last (by simp) same.symm
        exact absurd (below entry member last List.mem_cons_self) (Nat.not_lt.mpr bound)
      rw [write_other later]
      exact ih earlier ⟨member, fun other inside => latest.2 other (List.mem_append_left _ inside)⟩
    · rw [List.mem_singleton.mp member]
      exact write_same

theorem live_latest (ascending : Ascending Entry.seq log) (latest : Latest log entry) :
    live log entry.key = entry.value :=
  replay_latest ascending latest

section Weight

variable {Sum : Type w} [AddCommGroup Sum]

/-- What one key contributes to a running total. -/
def share (weight : Key → Value → Sum) (key : Key) (value : Option Value) : Sum :=
  value.elim 0 (weight key)

/-- The running total over a finite set of keys. -/
def weigh (weight : Key → Value → Sum) (keys : Finset Key) (state : Holding Key Value) : Sum :=
  ∑ key ∈ keys, share weight key (state key)

variable (weight : Key → Value → Sum)

/-- A write moves the total by the share of the one key it writes. -/
theorem weigh_write (keys : Finset Key) (inside : entry.key ∈ keys) :
    weigh weight keys (write state entry) =
      weigh weight keys state - share weight entry.key (state entry.key) +
        share weight entry.key entry.value := by
  have moved : (fun key => share weight key (write state entry key)) =
      Function.update (fun key => share weight key (state key)) entry.key
        (share weight entry.key entry.value) := by
    funext key
    by_cases here : key = entry.key
    · subst key
      rw [write_same, Function.update_self]
    · rw [write_other here, Function.update_of_ne here]
  have split := Finset.sum_eq_add_sum_sdiff_singleton_of_mem inside
    fun key => share weight key (state key)
  rw [weigh, weigh, moved, Finset.sum_update_of_mem inside, split]
  abel

/-- A table's total is the running total of what it holds. -/
theorem total_eq_weigh (table : Table Key Value) (keys : Finset Key) (covers : table.keys ⊆ keys) :
    table.total weight = weigh weight keys fun key => table.lookup key :=
  Table.total_eq_sum weight table keys covers

omit [DecidableEq Key] in
theorem weigh_congr (keys : Finset Key) (same : ∀ key ∈ keys, state key = other key) :
    weigh weight keys state = weigh weight keys other :=
  Finset.sum_congr rfl fun key inside => congrArg (share weight key) (same key inside)

end Weight

/-! ### Readers -/

/-- What a reader at a position has to hold: the last value of every key that
was not written after it. -/
def Settled (keys : Set Key) (state : Holding Key Value) (log : List (Entry Key Value))
    (position : Nat) : Prop :=
  ∀ key ∈ keys, (∀ entry ∈ log, entry.key = key → entry.seq ≤ position) → state key = live log key

/-- Entries that take a settled reader from one position to another: drawn from
the log, and missing no key's last write in between, unless it removes a key the
reader does not hold. -/
structure Advances (keys : Set Key) (state : Holding Key Value) (log page : List (Entry Key Value))
    (low high : Nat) : Prop where
  drawn : ∀ entry ∈ page, entry ∈ log ∧ low < entry.seq
  ascending : Ascending Entry.seq page
  complete : ∀ entry, Latest log entry → entry.key ∈ keys → low < entry.seq → entry.seq ≤ high →
    entry ∈ page ∨
      entry.value = none ∧ state entry.key = none ∧ ∀ other ∈ page, other.key ≠ entry.key

variable {keys : Set Key}

theorem Settled.empty (nothing : ∀ key ∈ keys, state key = none)
    (positive : ∀ entry ∈ log, position < entry.seq) : Settled keys state log position := by
  intro key inside below
  have absent : ∀ entry ∈ log, entry.key ≠ key := fun entry member same =>
    Nat.not_lt.mpr (below entry member same) (positive entry member)
  rw [nothing key inside, live, replay_absent absent]

theorem Settled.advance (settled : Settled keys state log low) (ordered : Ascending Entry.seq log)
    (page : Advances keys state log entries low high) :
    Settled keys (replay state entries) log high := by
  intro key inside below
  by_cases written : ∃ entry ∈ log, entry.key = key
  · obtain ⟨entry, member, rfl⟩ := written
    obtain ⟨latest, last, same⟩ := exists_latest ordered member
    rw [← same] at inside below ⊢
    rw [live_latest ordered last]
    by_cases known : latest.seq ≤ low
    · have absent : ∀ other ∈ entries, other.key ≠ latest.key := by
        intro other taken equal
        obtain ⟨drawn, after⟩ := page.drawn other taken
        exact Nat.not_lt.mpr ((last.2 other drawn equal).trans known) after
      rw [replay_absent absent, ← live_latest ordered last]
      exact settled latest.key inside fun other drawn equal => (last.2 other drawn equal).trans known
    · rcases page.complete latest last inside (Nat.lt_of_not_le known) (below latest last.1 rfl) with
        carried | ⟨removed, missing, absent⟩
      · exact replay_latest page.ascending
          ⟨carried, fun other taken equal => last.2 other (page.drawn other taken).1 equal⟩
      · rw [replay_absent absent, missing, removed]
  · have absent : ∀ entry ∈ log, entry.key ≠ key := fun entry member same =>
      written ⟨entry, member, same⟩
    have untouched : ∀ entry ∈ entries, entry.key ≠ key := fun entry member =>
      absent entry (page.drawn entry member).1
    rw [replay_absent untouched]
    exact settled key inside fun entry member same => absurd same (absent entry member)

/-- A reader settled at one position is settled at every earlier one. -/
theorem Settled.weaken (settled : Settled keys state log high) (ordered : low ≤ high) :
    Settled keys state log low := fun key inside below =>
  settled key inside fun entry member same => (below entry member same).trans ordered

/-- A reader stays settled while the log grows past its position, also on other keys
as long as the ones it gains are those just written. -/
theorem Settled.grow_within {keys' : Set Key} (settled : Settled keys state log position)
    (newer : ∀ entry ∈ extra, position < entry.seq)
    (known : ∀ key ∈ keys', (∀ entry ∈ extra, entry.key ≠ key) → key ∈ keys) :
    Settled keys' state (log ++ extra) position := by
  intro key inside below
  have absent : ∀ entry ∈ extra, entry.key ≠ key := fun entry member same =>
    Nat.not_lt.mpr (below entry (List.mem_append_right _ member) same) (newer entry member)
  rw [live, replay_append, replay_absent absent]
  exact settled key (known key inside absent)
    fun entry member => below entry (List.mem_append_left _ member)

theorem Settled.grow (settled : Settled keys state log position)
    (newer : ∀ entry ∈ extra, position < entry.seq) :
    Settled keys state (log ++ extra) position :=
  settled.grow_within newer fun _ inside _ => inside

/-- A reader settled past the end of the log holds exactly its live rows. -/
theorem Settled.total (settled : Settled keys state log position)
    (finished : ∀ entry ∈ log, entry.seq ≤ position) (inside : key ∈ keys) :
    state key = live log key :=
  settled key inside fun entry member _ => finished entry member

end Replay

end KeyedLog
