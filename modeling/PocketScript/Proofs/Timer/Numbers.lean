import Mathlib.Data.List.Infix
import Mathlib.Data.List.Nodup
import Mathlib.Data.List.Perm.Subperm
import PocketScript.Proofs.Timer.Schedule

/-!
# The numbers of timers

Timers get their numbers from a counter of 32 bits that turns around. It passes over zero and over the
numbers of the timers that are active, and comes to a free one whenever fewer are active than there
are numbers (`TimerList.search_freeId`). So active timers have different numbers, however many were
started before them; a number leads to the timer that was started under it as long as that is active,
and the timers stay in the order in which they were started (`TimerRecord.numbers_apart`).
-/

namespace PocketScript

namespace TimerList

variable {list : TimerList} {id : UInt32}

/-- The number is not one for a new timer. -/
def Taken (list : TimerList) (id : UInt32) : Prop := id = 0 ∨ list.contains id = true

/-- The search for a number that is not taken, begun at one number, ends at another. -/
inductive Search (list : TimerList) : UInt32 → UInt32 → Prop
  | free {id : UInt32} : ¬ list.Taken id → Search list id id
  | next {id found : UInt32} : list.Taken id → Search list (id + 1) found → Search list id found

theorem Search.not_taken {found : UInt32} (search : list.Search id found) : ¬ list.Taken found := by
  induction search with
  | free free => exact free
  | next _ _ ih => exact ih

theorem taken_iff_mem : list.Taken id ↔ id ∈ 0 :: list.timers.map (·.id) := by
  simp [Taken, contains]

/-- Of so many numbers in a row one is free, as there are not as many that are taken. -/
theorem exists_not_taken (few : list.timers.length < UInt32.size - 1) (id : UInt32) :
    ∃ passed ≤ list.timers.length + 1, ¬ list.Taken (id + UInt32.ofNat passed) := by
  by_contra all
  push Not at all
  let row := (List.range (list.timers.length + 2)).map fun passed => id + UInt32.ofNat passed
  have inside : row ⊆ 0 :: list.timers.map (·.id) := by
    intro number member
    obtain ⟨passed, before, rfl⟩ := List.mem_map.mp member
    exact taken_iff_mem.mp (all passed (Nat.le_of_lt_succ (List.mem_range.mp before)))
  have apart : row.Nodup := by
    refine List.Nodup.map_on (fun one before two before' same => ?_) List.nodup_range
    have small : ∀ passed ∈ List.range (list.timers.length + 2),
        (UInt32.ofNat passed).toNat = passed := fun passed before =>
      UInt32.toNat_ofNat_of_lt' (by have := List.mem_range.mp before; omega)
    rw [← small one before, ← small two before', UInt32.add_right_inj .. |>.mp same]
  have count := (List.subperm_of_subset apart inside).length_le
  simp only [row, List.length_map, List.length_range, List.length_cons] at count
  omega

theorem search_freeIdFrom {attempts passed : Nat} (within : passed ≤ attempts)
    (free : ¬ list.Taken (id + UInt32.ofNat passed)) :
    list.Search id (list.freeIdFrom attempts id) := by
  induction attempts generalizing id passed with
  | zero =>
      obtain rfl := Nat.le_zero.mp within
      exact .free (UInt32.add_zero id ▸ free)
  | succ attempts ih =>
      unfold freeIdFrom
      split
      case isFalse here => exact .free here
      case isTrue taken =>
        cases passed with
        | zero => exact absurd taken (UInt32.add_zero id ▸ free)
        | succ passed =>
            refine .next taken (ih (Nat.le_of_succ_le_succ within) ?_)
            rwa [UInt32.add_assoc, ← UInt32.ofNat_one, ← UInt32.ofNat_add, Nat.add_comm 1]

/-- The search for the next number comes to an end, with the number that a new timer gets. -/
theorem search_freeId (few : list.timers.length < UInt32.size - 1) :
    list.Search (list.lastId + 1) list.freeId := by
  obtain ⟨passed, within, free⟩ := exists_not_taken few (list.lastId + 1)
  exact search_freeIdFrom within free

end TimerList

/-! ## The record of all timers -/

/-- A list of timers with the record of all that were ever started. -/
structure TimerRecord where
  list : TimerList := {}
  /-- The timers as they were started, the first one first, with the numbers they were given. -/
  started : List Timer := []
  /-- The active timers, each with its place among the started ones. -/
  active : List (Nat × Timer) := []

namespace TimerRecord

/-- The list and the record after one more event. -/
def observe (record : TimerRecord) : TimerEvent → TimerRecord
  | .start tick timer =>
      let timer := { timer with origin := UInt32.ofNat tick }
      let (id, list) := record.list.start timer
      { list
        started := record.started ++ [{ timer with id }]
        active := record.active ++ [(record.started.length, { timer with id })] }
  | .stop id =>
      { record with
        list := (record.list.stop id).2
        active := record.active.filter fun entry => entry.2.id != id }
  | .stopWhere wanted =>
      { record with
        list := (record.list.stopWhere wanted).2
        active := record.active.filter fun entry => !wanted entry.2 }
  | .poll tick =>
      { record with
        list := (record.list.takeDue (UInt32.ofNat tick)).2
        active := record.active.filterMap fun entry =>
          (entry.2.remaining? (UInt32.ofNat tick)).map (entry.1, ·) }

def after (events : List TimerEvent) : TimerRecord := events.foldl observe {}

/-- At no time are as many timers active as there are numbers for them. -/
def Uncrowded (events : List TimerEvent) : Prop :=
  ∀ before, before <+: events → (after before).list.timers.length < UInt32.size - 1

variable {record : TimerRecord} {id : UInt32}

/-- The active timers are those of the list, in the order in which they were started, as they were
started but for the origin, which polls move on; and their numbers are different. -/
structure Orderly (record : TimerRecord) : Prop where
  timers : record.list.timers = record.active.map (·.2)
  ordered : record.active.Pairwise (·.1 < ·.1)
  started : ∀ entry ∈ record.active, ∃ timer, record.started[entry.1]? = some timer ∧
    entry.2 = { timer with origin := entry.2.origin }
  apart : record.active.Pairwise (·.2.id ≠ ·.2.id)
  nonzero : ∀ entry ∈ record.active, entry.2.id ≠ 0

/-- When all numbers are different, one of them leads to one timer. -/
theorem eraseP_map_eq_filter {entries : List (Nat × Timer)}
    (apart : entries.Pairwise (·.2.id ≠ ·.2.id)) (id : UInt32) :
    (entries.map (·.2)).eraseP (·.id == id) =
      (entries.filter fun entry => entry.2.id != id).map (·.2) := by
  induction entries with
  | nil => rfl
  | cons entry rest ih =>
      obtain ⟨others, apart⟩ := List.pairwise_cons.mp apart
      by_cases here : entry.2.id = id
      · have kept : rest.filter (fun entry => entry.2.id != id) = rest :=
          List.filter_eq_self.mpr fun other member =>
            bne_iff_ne.mpr fun same => others other member (here.trans same.symm)
        simp [here, kept]
      · simp [here, ih apart]

/-- What a poll leaves of a timer is the timer with another origin. -/
theorem remaining?_eq_some {timer left : Timer} {now : UInt32}
    (remains : timer.remaining? now = some left) : left = { timer with origin := left.origin } := by
  unfold Timer.remaining? at remains
  split at remains
  · split at remains
    · cases remains
      rfl
    · cases remains
  · cases remains
    rfl

/-- Timers that are left, whatever became of their origins, are in order as all of them were. -/
theorem Orderly.left (orderly : record.Orderly) {list : TimerList}
    {keep : Nat × Timer → Option (Nat × Timer)}
    (same : ∀ entry left, keep entry = some left →
      left = (entry.1, { entry.2 with origin := left.2.origin }))
    (timers : list.timers = (record.active.filterMap keep).map (·.2)) :
    Orderly { record with list, active := record.active.filterMap keep } where
  timers := timers
  ordered := by
    refine orderly.ordered.filterMap keep fun one two less left kept left' kept' => ?_
    rw [same one left kept, same two left' kept']
    exact less
  started left member := by
    obtain ⟨entry, listed, kept⟩ := List.mem_filterMap.mp member
    obtain ⟨timer, there, equal⟩ := orderly.started entry listed
    rw [same entry left kept]
    exact ⟨timer, there, by rw [equal]⟩
  apart := by
    refine orderly.apart.filterMap keep fun one two apart left kept left' kept' => ?_
    rw [same one left kept, same two left' kept']
    exact apart
  nonzero left member := by
    obtain ⟨entry, listed, kept⟩ := List.mem_filterMap.mp member
    rw [same entry left kept]
    exact orderly.nonzero entry listed

/-- Timers that are taken out leave the others as they are. -/
theorem Orderly.without (orderly : record.Orderly) {list : TimerList} (keep : Nat × Timer → Bool)
    (timers : list.timers = (record.active.filter keep).map (·.2)) :
    Orderly { record with list, active := record.active.filter keep } := by
  rw [← List.filterMap_eq_filter] at timers ⊢
  refine orderly.left (fun entry left kept => ?_) timers
  rw [← (Option.guard_eq_some_iff.mp kept).1]

theorem Orderly.observe (orderly : record.Orderly)
    (few : record.list.timers.length < UInt32.size - 1) (event : TimerEvent) :
    (record.observe event).Orderly := by
  have timers := orderly.timers
  cases event with
  | start tick timer =>
      have free := (TimerList.search_freeId few).not_taken
      have other : ∀ entry ∈ record.active, entry.2.id ≠ record.list.freeId := by
        intro entry member same
        refine free (TimerList.taken_iff_mem.mpr (List.mem_cons_of_mem _ ?_))
        rw [timers, ← same, List.map_map]
        exact List.mem_map_of_mem (f := fun entry : Nat × Timer => entry.2.id) member
      refine ⟨?_, ?_, fun entry member => ?_, ?_, fun entry member => ?_⟩
      · change record.list.timers ++ [_] = (record.active ++ [_]).map Prod.snd
        rw [timers, List.map_append]
        rfl
      · refine List.pairwise_append.mpr ⟨orderly.ordered, List.pairwise_singleton _ _, ?_⟩
        intro entry member new there
        rw [List.mem_singleton.mp there]
        obtain ⟨_, found, -⟩ := orderly.started entry member
        exact (List.getElem?_eq_some_iff.mp found).1
      · rcases List.mem_append.mp member with before | new
        · obtain ⟨timer, found, same⟩ := orderly.started entry before
          exact ⟨timer, by
            rw [TimerRecord.observe, List.getElem?_append_left
              (List.getElem?_eq_some_iff.mp found).1, found], same⟩
        · rw [List.mem_singleton.mp new]
          exact ⟨_, List.getElem?_concat_length, rfl⟩
      · refine List.pairwise_append.mpr ⟨orderly.apart, List.pairwise_singleton _ _, ?_⟩
        intro entry member new there
        rw [List.mem_singleton.mp there]
        exact other entry member
      · rcases List.mem_append.mp member with before | new
        · exact orderly.nonzero entry before
        · rw [List.mem_singleton.mp new]
          exact fun zero => free (.inl zero)
  | stop id =>
      refine orderly.without _ ?_
      change record.list.timers.eraseP _ = _
      rw [timers, eraseP_map_eq_filter orderly.apart]
  | stopWhere wanted =>
      refine orderly.without _ ?_
      change record.list.timers.filter _ = _
      rw [timers, List.filter_map]
      rfl
  | poll tick =>
      refine orderly.left (fun entry left kept => ?_) ?_
      · obtain ⟨timer, remains, rfl⟩ := Option.map_eq_some_iff.mp kept
        exact congrArg (entry.1, ·) (remaining?_eq_some remains)
      · change record.list.timers.filterMap _ = _
        rw [timers, List.filterMap_map, List.map_filterMap]
        refine List.filterMap_congr fun entry _ => ?_
        rw [Option.map_map]
        exact Option.map_id'.symm

theorem orderly_new : Orderly {} :=
  ⟨rfl, .nil, fun _ impossible => absurd impossible List.not_mem_nil, .nil,
    fun _ impossible => absurd impossible List.not_mem_nil⟩

theorem orderly_after {events : List TimerEvent} (uncrowded : Uncrowded events) :
    (after events).Orderly := by
  induction events using List.reverseRecOn with
  | nil => exact orderly_new
  | append_singleton events event ih =>
      have early : events <+: events ++ [event] := List.prefix_append _ _
      rw [after, List.foldl_append]
      exact (ih fun before within => uncrowded before (within.trans early)).observe
        (uncrowded events early) event

/-- An active timer is told from the others by its number, and by its place as well. -/
theorem Orderly.eq_of_same (orderly : record.Orderly) {one two : Nat × Timer}
    (listed : one ∈ record.active) (listed' : two ∈ record.active)
    (same : one.2.id = two.2.id ∨ one.1 = two.1) : one = two := by
  have ids : (record.active.map (·.2.id)).Nodup := List.pairwise_map.mpr orderly.apart
  have places : (record.active.map (·.1)).Nodup :=
    List.pairwise_map.mpr (orderly.ordered.imp Nat.ne_of_lt)
  rcases same with same | same
  · exact List.inj_on_of_nodup_map ids listed listed' same
  · exact List.inj_on_of_nodup_map places listed listed' same

/-- The number of an active timer leads to this one, and stopping it leaves the others alone. -/
theorem Orderly.stop (orderly : record.Orderly) {entry : Nat × Timer}
    (listed : entry ∈ record.active) :
    (record.list.stop entry.2.id).1 = some entry.2 ∧
      (record.list.stop entry.2.id).2.timers =
        (record.active.filter (·.1 != entry.1)).map (·.2) := by
  constructor
  · change record.list.timers.find? _ = _
    rw [orderly.timers, List.find?_map]
    have here : ((·.id == entry.2.id) ∘ Prod.snd) entry = true := beq_self_eq_true entry.2.id
    obtain ⟨other, found⟩ :=
      Option.isSome_iff_exists.mp (List.find?_isSome.mpr ⟨entry, listed, here⟩)
    have same : other.2.id = entry.2.id := eq_of_beq (List.find?_some found :)
    have equal := orderly.eq_of_same (List.mem_of_find?_eq_some found) listed (.inl same)
    exact congrArg (Option.map Prod.snd) (found.trans (congrArg some equal))
  · change record.list.timers.eraseP _ = _
    rw [orderly.timers, eraseP_map_eq_filter orderly.apart]
    refine congrArg (List.map Prod.snd) (List.filter_congr fun other listed' => ?_)
    rw [Bool.eq_iff_iff, bne_iff_ne, bne_iff_ne]
    exact not_congr ⟨fun same => congrArg (·.1) (orderly.eq_of_same listed' listed (.inl same)),
      fun same => congrArg (·.2.id) (orderly.eq_of_same listed' listed (.inr same))⟩

/-- A number that no active timer has leads nowhere. -/
theorem Orderly.stop_unknown (orderly : record.Orderly)
    (unknown : ∀ entry ∈ record.active, entry.2.id ≠ id) :
    record.list.stop id = (none, record.list) := by
  have absent : ∀ timer ∈ record.list.timers, ¬ (timer.id == id) = true := by
    intro timer listed same
    rw [orderly.timers] at listed
    obtain ⟨entry, there, rfl⟩ := List.mem_map.mp listed
    exact unknown entry there (eq_of_beq same)
  rw [TimerList.stop, List.find?_eq_none.mpr absent, List.eraseP_of_forall_not absent]

/-- However many timers are started, stopped and taken by polls, as long as there are numbers left the
active ones have different numbers, none of them zero, and stand in the order in which they were
started. The search for the next number ends. The number of an active timer stops the timer that was
started under it and no other; any other number stops none. -/
theorem numbers_apart (events : List TimerEvent) (uncrowded : Uncrowded events) :
    let record := after events
    (record.list.timers.map (·.id)).Nodup ∧ (∀ timer ∈ record.list.timers, timer.id ≠ 0) ∧
      record.list.Search (record.list.lastId + 1) record.list.freeId ∧
      record.list.timers = record.active.map (·.2) ∧
      record.active.Pairwise (·.1 < ·.1) ∧
      (∀ entry ∈ record.active, ∃ timer, record.started[entry.1]? = some timer ∧
        entry.2 = { timer with origin := entry.2.origin }) ∧
      (∀ entry ∈ record.active,
        (record.list.stop entry.2.id).1 = some entry.2 ∧
          (record.list.stop entry.2.id).2.timers =
            (record.active.filter (·.1 != entry.1)).map (·.2)) ∧
      ∀ id, (∀ entry ∈ record.active, entry.2.id ≠ id) →
        record.list.stop id = (none, record.list) := by
  have orderly := orderly_after uncrowded
  refine ⟨?_, fun timer listed => ?_, TimerList.search_freeId (uncrowded events List.prefix_rfl),
    orderly.timers, orderly.ordered, orderly.started, fun _ listed => orderly.stop listed,
    fun _ unknown => orderly.stop_unknown unknown⟩
  · rw [orderly.timers, List.map_map]
    exact List.pairwise_map.mpr orderly.apart
  · rw [orderly.timers] at listed
    obtain ⟨entry, there, rfl⟩ := List.mem_map.mp listed
    exact orderly.nonzero entry there

/-- The second of three timers is stopped, and a fourth one is started before a poll takes the first. -/
def mixed : List TimerEvent :=
  [.start 7 ⟨0, 3, 0, false, .undefined, .undefined, ⟨0, 0, 0⟩⟩,
    .start 7 ⟨0, 9, 0, true, .undefined, .undefined, ⟨0, 0, 1⟩⟩,
    .start 8 ⟨0, 1, 0, true, .undefined, .undefined, ⟨0, 0, 2⟩⟩,
    .stop 2, .start 9 ⟨0, 5, 0, false, .undefined, .undefined, ⟨0, 0, 1⟩⟩, .poll 10]

theorem numbers_apart_mixed :
    Uncrowded mixed ∧ (after mixed).active.map (fun entry => (entry.1, entry.2.id)) =
        [(2, 3), (3, 4)] ∧
      ((after mixed).list.stop 2).1.isNone = true ∧
      (after mixed).list.Search 5 (after mixed).list.freeId := by
  have uncrowded : Uncrowded mixed := by
    intro before within
    have all : ∀ before ∈ mixed.inits,
        (after before).list.timers.length < UInt32.size - 1 := by decide
    exact all before (List.mem_inits before mixed |>.mpr within)
  obtain ⟨-, -, search, -, -, -, -, unknown⟩ := numbers_apart mixed uncrowded
  refine ⟨uncrowded, by decide, ?_, search⟩
  rw [unknown 2 (by decide)]
  rfl

end TimerRecord

end PocketScript
