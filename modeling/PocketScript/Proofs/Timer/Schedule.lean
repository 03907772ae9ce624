import Mathlib.Data.List.Induction
import PocketScript.Timer

/-!
# The schedule of timers

Seen from outside, a timer was started at a tick, and polls came at later ones. Ticks are counted here
without a bound and nothing is forgotten: the journal of a list of timers keeps for every timer the
tick it was started at and the ticks of all polls since. From these alone it is told which timers a
poll takes (`Registration.fires`), and lists of timers, which know a 32-bit clock and move the origins
of repeating timers about, take just those (`TimerHistory.takeDue_eq`). What a poll takes it takes
before any function runs, so one that is aborted does not give a turn back
(`TimerList.takeDue_again`).
-/

namespace PocketScript

/-- A timer that was started and has not been stopped. -/
structure Registration where
  /-- The number of timers that were started before. -/
  number : Nat
  /-- The timer as it was started. -/
  timer : Timer
  /-- The tick at which it was started. -/
  tick : Nat
  /-- The ticks of the polls since then, the last one first. -/
  polls : List Nat := []

namespace Registration

variable (registration : Registration)

/-- The ticks for which the timer waits. -/
def wait : Nat := registration.timer.wait.toNat

/-- The number of whole waits that had passed by a tick. -/
def beats (tick : Nat) : Nat := (tick - registration.tick) / registration.wait

/-- The number of whole waits that had passed by the last poll. -/
def beatsPolled : Nat := registration.polls.head?.elim 0 registration.beats

/-- No poll so far has come after the wait had passed. -/
def isAwaited : Bool :=
  registration.polls.all fun poll => decide (poll - registration.tick < registration.wait)

/-- The timer goes on for ever, or it has not yet been taken. -/
def isActive : Bool := registration.timer.repeats || registration.isAwaited

/-- A poll takes a timer that runs once when the wait has passed, and had not passed at any poll
before. It takes a repeating timer when more whole waits have passed than at the poll before, or at
any rate when there is nothing to wait for. -/
def fires (tick : Nat) : Bool :=
  if registration.timer.repeats then
    registration.wait = 0 || registration.beatsPolled < registration.beats tick
  else registration.isAwaited && decide (registration.wait ≤ tick - registration.tick)

/-- The tick at which the present wait began: a whole number of waits after the start. -/
def origin : Nat :=
  if registration.timer.repeats then
    if registration.wait = 0 then registration.polls.head?.getD registration.tick
    else registration.tick + registration.beatsPolled * registration.wait
  else registration.tick

/-- The timer as it is now. -/
def now : Timer := { registration.timer with origin := UInt32.ofNat registration.origin }

/-- Another poll has come. -/
def polled (tick : Nat) : Registration :=
  { registration with polls := tick :: registration.polls }

/-- What a poll takes of the timer. -/
def due : DueTimer where
  id := registration.timer.id
  callback := registration.timer.callback
  param := registration.timer.param
  block := if registration.timer.repeats then none else some registration.timer.block

end Registration

/-- What happens to a list of timers. -/
inductive TimerEvent where
  | start (tick : Nat) (timer : Timer)
  | stop (id : UInt32)
  | stopWhere (wanted : Timer → Bool)
  | poll (tick : Nat)

/-- The tick of an event that has one. -/
def TimerEvent.tick? : TimerEvent → Option Nat
  | start tick _ | poll tick => some tick
  | stop _ | stopWhere _ => none

/-- The tick of a poll. -/
def TimerEvent.poll? : TimerEvent → Option Nat
  | poll tick => some tick
  | start _ _ | stop _ | stopWhere _ => none

/-- A list of timers with its journal. -/
structure TimerHistory where
  list : TimerList := {}
  /-- The timers that were started and have not been stopped, the first one first. -/
  journal : List Registration := []
  /-- The number of timers that have been started. -/
  started : Nat := 0
  /-- The tick of the last event. -/
  tick : Nat := 0

namespace TimerHistory

/-- The list and its journal after one more event. -/
def observe (history : TimerHistory) : TimerEvent → TimerHistory
  | .start tick timer =>
      let timer := { timer with origin := UInt32.ofNat tick }
      let (id, list) := history.list.start timer
      let registration := { number := history.started, timer := { timer with id }, tick }
      { list, journal := history.journal ++ [registration], started := history.started + 1, tick }
  | .stop id =>
      { history with
        list := (history.list.stop id).2
        journal := history.journal.eraseP fun registration =>
          registration.isActive && registration.timer.id == id }
  | .stopWhere wanted =>
      { history with
        list := (history.list.stopWhere wanted).2
        journal := history.journal.filter fun registration =>
          !(registration.isActive && wanted registration.now) }
  | .poll tick =>
      { history with
        list := (history.list.takeDue (UInt32.ofNat tick)).2
        journal := history.journal.map (·.polled tick)
        tick }

def after (events : List TimerEvent) : TimerHistory := events.foldl observe {}

/-- An event does not come before the last one, and a poll comes fewer than `2 ^ 32` ticks after the
origin of every timer. -/
structure Timely (history : TimerHistory) (event : TimerEvent) : Prop where
  le : ∀ tick ∈ event.tick?, history.tick ≤ tick
  near : ∀ tick ∈ event.poll?, ∀ registration ∈ history.journal, registration.isActive = true →
    tick < registration.origin + UInt32.size

instance (history : TimerHistory) (event : TimerEvent) : Decidable (history.Timely event) :=
  decidable_of_iff (_ ∧ _) ⟨fun both => ⟨both.1, both.2⟩, fun timely => ⟨timely.le, timely.near⟩⟩

/-- All events of a sequence come in time. -/
def AllTimely (history : TimerHistory) : List TimerEvent → Prop
  | [] => True
  | event :: rest => history.Timely event ∧ (history.observe event).AllTimely rest

instance decidableAllTimely (history : TimerHistory) :
    (events : List TimerEvent) → Decidable (history.AllTimely events)
  | [] => .isTrue trivial
  | event :: rest =>
      haveI := decidableAllTimely (history.observe event) rest
      inferInstanceAs (Decidable (history.Timely event ∧ (history.observe event).AllTimely rest))

end TimerHistory

/-! ## A poll of one timer -/

namespace Registration

variable {registration : Registration} {tick : Nat}

/-- The timer was started, and polled so far, up to a tick. -/
structure Until (registration : Registration) (tick : Nat) : Prop where
  started : registration.tick ≤ tick
  polled : ∀ poll ∈ registration.polls, poll ≤ tick

/-- The last poll was not later. -/
theorem Until.head (known : registration.Until tick) {poll : Nat}
    (last : registration.polls.head? = some poll) : poll ≤ tick :=
  known.polled poll (List.mem_of_head? last)

theorem Until.mono {later : Nat} (known : registration.Until tick) (le : tick ≤ later) :
    registration.Until later :=
  ⟨Nat.le_trans known.started le, fun poll member => Nat.le_trans (known.polled poll member) le⟩

/-- A timer counts from a tick that has passed. -/
theorem Until.origin_le (known : registration.Until tick) : registration.origin ≤ tick := by
  unfold origin
  split
  · split
    · cases last : registration.polls.head? with
      | none => exact known.started
      | some poll => exact known.head last
    · unfold beatsPolled
      cases last : registration.polls.head? with
      | none => simpa using known.started
      | some poll =>
          have whole := Nat.div_mul_le_self (poll - registration.tick) registration.wait
          have bound := known.head last
          have start := known.started
          simp only [Option.elim_some, beats]
          omega
  · exact known.started

/-- As long as it has fewer ticks than its range, the clock measures what has passed. -/
theorem toNat_elapsed (known : registration.Until tick)
    (near : tick < registration.origin + UInt32.size) :
    (registration.now.elapsed (UInt32.ofNat tick)).toNat = tick - registration.origin := by
  rw [Timer.elapsed, now, ← UInt32.ofNat_sub known.origin_le]
  exact UInt32.toNat_ofNat_of_lt' (Nat.sub_lt_left_of_lt_add known.origin_le near)

theorem isDue_iff (known : registration.Until tick)
    (near : tick < registration.origin + UInt32.size) :
    registration.now.isDue (UInt32.ofNat tick) = true ↔
      registration.wait ≤ tick - registration.origin := by
  rw [Timer.isDue, decide_eq_true_iff, UInt32.le_iff_toNat_le, toNat_elapsed known near]
  rfl

/-- The ticks since the start, in whole waits up to the present one and what has passed of it. -/
theorem beats_eq (known : registration.Until tick) (repeats : registration.timer.repeats = true)
    (waits : 0 < registration.wait) :
    registration.beats tick =
      registration.beatsPolled + (tick - registration.origin) / registration.wait := by
  have le := known.origin_le
  have origin : registration.origin =
      registration.tick + registration.beatsPolled * registration.wait := by
    rw [Registration.origin, if_pos repeats, if_neg (Nat.ne_of_gt waits)]
  have split : tick - registration.tick =
      tick - registration.origin + registration.beatsPolled * registration.wait := by
    omega
  rw [beats, split, Nat.add_mul_div_right _ _ waits, Nat.add_comm]

/-- A timer that can be taken is due at a poll just when the journal says so. -/
theorem isDue_eq_fires (known : registration.Until tick)
    (near : tick < registration.origin + UInt32.size) (active : registration.isActive = true) :
    registration.now.isDue (UInt32.ofNat tick) = registration.fires tick := by
  rw [Bool.eq_iff_iff, isDue_iff known near]
  unfold fires
  by_cases repeats : registration.timer.repeats = true
  · rw [if_pos repeats, Bool.or_eq_true, decide_eq_true_iff, decide_eq_true_iff]
    by_cases idle : registration.wait = 0
    · simp [idle]
    · have waits := Nat.pos_of_ne_zero idle
      have more : 0 < (tick - registration.origin) / registration.wait ↔
        0 < registration.wait ∧ registration.wait ≤ tick - registration.origin := Nat.div_pos_iff
      rw [beats_eq known repeats waits]
      omega
  · have awaited : registration.isAwaited = true := by
      rw [isActive, Bool.or_eq_true] at active
      exact active.resolve_left repeats
    rw [if_neg repeats, awaited, Bool.true_and, decide_eq_true_iff, origin, if_neg repeats]

/-- So it is handed out when it fires. -/
theorem due?_eq (known : registration.Until tick)
    (near : tick < registration.origin + UInt32.size) (active : registration.isActive = true) :
    registration.now.due? (UInt32.ofNat tick) =
      if registration.fires tick then some registration.due else none := by
  rw [Timer.due?, isDue_eq_fires known near active]
  rfl

/-- A poll moves the origin of a repeating timer on by whole waits. -/
theorem origin_polled (known : registration.Until tick)
    (repeats : registration.timer.repeats = true) :
    (registration.polled tick).origin =
      if registration.wait = 0 then tick
      else registration.origin +
        (tick - registration.origin) / registration.wait * registration.wait := by
  change (if registration.timer.repeats = true then if registration.wait = 0 then tick else
    registration.tick + registration.beats tick * registration.wait else _) = _
  rw [if_pos repeats]
  by_cases idle : registration.wait = 0
  · rw [if_pos idle, if_pos idle]
  · have start : registration.origin =
        registration.tick + registration.beatsPolled * registration.wait := by
      rw [origin, if_pos repeats, if_neg idle]
    rw [if_neg idle, if_neg idle, beats_eq known repeats (Nat.pos_of_ne_zero idle), Nat.add_mul,
      ← Nat.add_assoc, ← start]

/-- So does a timer that counts with the clock. -/
theorem lastBeat_eq (known : registration.Until tick)
    (near : tick < registration.origin + UInt32.size)
    (repeats : registration.timer.repeats = true) :
    registration.now.lastBeat (UInt32.ofNat tick) =
      UInt32.ofNat (registration.polled tick).origin := by
  have zero : registration.now.wait = 0 ↔ registration.wait = 0 := UInt32.toNat_inj.symm
  rw [origin_polled known repeats, Timer.lastBeat]
  by_cases idle : registration.wait = 0
  · rw [if_pos (zero.mpr idle), if_pos idle]
  · have quotient : registration.now.elapsed (UInt32.ofNat tick) / registration.now.wait =
        UInt32.ofNat ((tick - registration.origin) / registration.wait) := by
      rw [← UInt32.toNat_inj, UInt32.toNat_div, toNat_elapsed known near]
      have small := Nat.sub_lt_left_of_lt_add known.origin_le near
      exact (UInt32.toNat_ofNat_of_lt' (Nat.lt_of_le_of_lt (Nat.div_le_self _ _) small)).symm
    have wait : registration.now.wait = UInt32.ofNat registration.wait := UInt32.ofNat_toNat.symm
    rw [if_neg (mt zero.mp idle), if_neg idle, quotient, UInt32.ofNat_add, UInt32.ofNat_mul, ← wait]
    rfl

theorem isAwaited_polled (registration : Registration) (tick : Nat) :
    (registration.polled tick).isAwaited =
      (decide (tick - registration.tick < registration.wait) && registration.isAwaited) := rfl

/-- An active timer stays active unless it is taken and runs only once. -/
theorem isActive_polled (active : registration.isActive = true) :
    (registration.polled tick).isActive =
      (registration.timer.repeats || !registration.fires tick) := by
  change (registration.timer.repeats || (registration.polled tick).isAwaited) = _
  unfold fires
  rw [isAwaited_polled]
  cases repeats : registration.timer.repeats with
  | true => rfl
  | false =>
      rw [isActive, repeats, Bool.false_or] at active
      rw [active, Bool.and_true, Bool.false_or, Bool.false_or, if_neg Bool.false_ne_true,
        Bool.true_and, ← decide_not]
      exact decide_eq_decide.mpr Nat.not_le.symm

/-- A poll that does not take a timer leaves it as it is. -/
theorem now_polled_of_not_fires (known : registration.Until tick)
    (near : tick < registration.origin + UInt32.size) (active : registration.isActive = true)
    (passedOver : registration.fires tick = false) :
    (registration.polled tick).now = registration.now := by
  suffices same : (registration.polled tick).origin = registration.origin by
    rw [now, now, same]
    rfl
  by_cases repeats : registration.timer.repeats = true
  · have early : ¬ registration.wait ≤ tick - registration.origin := by
      rw [← isDue_iff known near, isDue_eq_fires known near active, passedOver]
      exact Bool.false_ne_true
    rw [origin_polled known repeats, if_neg (by omega), Nat.div_eq_of_lt (Nat.lt_of_not_le early),
      Nat.zero_mul, Nat.add_zero]
  · rw [origin, origin, if_neg repeats, if_neg (by exact repeats)]
    rfl

/-- It remains in the list while it is active. -/
theorem remaining?_eq (known : registration.Until tick)
    (near : tick < registration.origin + UInt32.size) (active : registration.isActive = true) :
    registration.now.remaining? (UInt32.ofNat tick) =
      if (registration.polled tick).isActive then some (registration.polled tick).now else none := by
  rw [Timer.remaining?, isDue_eq_fires known near active, isActive_polled active]
  cases taken : registration.fires tick with
  | false =>
      rw [now_polled_of_not_fires known near active taken]
      simp
  | true =>
      cases repeats : registration.timer.repeats with
      | true =>
          simp only [Bool.true_or, if_true]
          rw [if_pos (by exact repeats), lastBeat_eq known near repeats]
          rfl
      | false =>
          simp only [Bool.not_true, Bool.or_false, if_true]
          rw [if_neg (by rw [now, repeats]; exact Bool.false_ne_true), if_neg Bool.false_ne_true]

end Registration

/-! ## Lists of timers -/

namespace TimerHistory

variable {history : TimerHistory}

/-- The list holds the timers of the journal that are active, in the order in which they were
started. -/
structure Kept (history : TimerHistory) : Prop where
  timers : history.list.timers = (history.journal.filter (·.isActive)).map (·.now)
  ordered : history.journal.Pairwise (·.number < ·.number)
  numbered : ∀ registration ∈ history.journal, registration.number < history.started
  untilNow : ∀ registration ∈ history.journal, registration.Until history.tick

theorem filterMap_filter_map {β γ δ : Type} {items : List β} {keep : β → Bool} {view : β → γ}
    {pick : γ → Option δ} {wanted : β → Bool} {result : β → δ}
    (same : ∀ item ∈ items, keep item = true →
      pick (view item) = if wanted item then some (result item) else none)
    (implied : ∀ item ∈ items, wanted item = true → keep item = true) :
    ((items.filter keep).map view).filterMap pick = (items.filter wanted).map result := by
  induction items with
  | nil => rfl
  | cons item rest ih =>
      have ih := ih (fun item member => same item (List.mem_cons_of_mem _ member))
        (fun item member => implied item (List.mem_cons_of_mem _ member))
      cases kept : keep item with
      | true =>
          have told := same item List.mem_cons_self kept
          cases wants : wanted item with
          | true => simp [kept, wants, told, ih]
          | false => simp [kept, wants, told, ih]
      | false =>
          have unwanted : wanted item = false := by
            refine Bool.eq_false_iff.mpr fun wants => ?_
            rw [implied item List.mem_cons_self wants] at kept
            cases kept
          simp [kept, unwanted, ih]

/-- A poll takes what the journal says, and leaves what the journal says. -/
theorem Kept.takeDue (kept : history.Kept) {tick : Nat} (timely : history.Timely (.poll tick)) :
    history.list.takeDue (UInt32.ofNat tick) =
      ((history.journal.filter (·.fires tick)).map (·.due),
        { history.list with
          timers := ((history.journal.map (·.polled tick)).filter (·.isActive)).map (·.now) }) := by
  have known : ∀ registration ∈ history.journal, registration.Until tick := fun registration member =>
    (kept.untilNow registration member).mono (timely.le tick rfl)
  have near := timely.near tick rfl
  have taken : ∀ registration : Registration, registration.fires tick = true →
      registration.isActive = true := by
    intro registration fires
    unfold Registration.fires at fires
    unfold Registration.isActive
    split at fires
    · next repeats => rw [repeats, Bool.true_or]
    · rw [(Bool.and_eq_true_iff.mp fires).1, Bool.or_true]
  have stays : ∀ registration : Registration, (registration.polled tick).isActive = true →
      registration.isActive = true := by
    intro registration active
    rw [Registration.isActive, Registration.isAwaited_polled, Bool.or_eq_true, Bool.and_eq_true]
      at active
    rw [Registration.isActive, Bool.or_eq_true]
    exact active.imp_right And.right
  rw [TimerList.takeDue, kept.timers]
  refine Prod.ext ?_ (congrArg (TimerList.mk · _) ?_)
  · exact filterMap_filter_map (fun registration member active =>
      Registration.due?_eq (known registration member) (near registration member active) active)
      fun registration _ => taken registration
  · rw [List.filter_map, List.map_map]
    exact filterMap_filter_map (fun registration member active =>
      Registration.remaining?_eq (known registration member) (near registration member active)
        active) fun registration _ => stays registration

/-- What is taken from the list is taken from them. -/
theorem eraseP_filter_map {β γ : Type} (items : List β) (keep : β → Bool) (view : β → γ)
    (unwanted : γ → Bool) :
    ((items.filter keep).map view).eraseP unwanted =
      ((items.eraseP fun item => keep item && unwanted (view item)).filter keep).map view := by
  induction items with
  | nil => rfl
  | cons item rest ih =>
      cases kept : keep item with
      | true =>
          cases wants : unwanted (view item) with
          | true => simp [kept, wants]
          | false => simp [kept, wants, ih]
      | false => simp [kept, ih]

/-- And so are all that are not wanted. -/
theorem filter_filter_map {β γ : Type} (items : List β) (keep : β → Bool) (view : β → γ)
    (unwanted : γ → Bool) :
    ((items.filter keep).map view).filter (fun item => !unwanted item) =
      ((items.filter fun item => !(keep item && unwanted (view item))).filter keep).map view := by
  rw [List.filter_map, List.filter_filter, List.filter_filter]
  refine congrArg (List.map view) (List.filter_congr fun item _ => ?_)
  cases keep item <;> simp

/-- A timely event keeps the list in step with the journal. -/
theorem Kept.observe (kept : history.Kept) {event : TimerEvent} (timely : history.Timely event) :
    (history.observe event).Kept := by
  cases event with
  | start tick timer =>
      have known : ∀ registration ∈ history.journal, registration.Until tick :=
        fun registration member => (kept.untilNow registration member).mono (timely.le tick rfl)
      refine ⟨?_, ?_, fun registration member => ?_, fun registration member => ?_⟩
      · change history.list.timers ++ [_] = ((history.journal ++ [_]).filter _).map _
        rw [List.filter_append, List.map_append, ← kept.timers]
        refine congrArg (history.list.timers ++ ·) ?_
        simp [Registration.isActive, Registration.isAwaited, Registration.now, Registration.origin,
          Registration.beatsPolled]
      · refine List.pairwise_append.mpr ⟨kept.ordered, List.pairwise_singleton _ _, ?_⟩
        intro registration member new there
        rw [List.mem_singleton.mp there]
        exact kept.numbered registration member
      · rcases List.mem_append.mp member with before | new
        · exact Nat.lt_succ_of_lt (kept.numbered registration before)
        · rw [List.mem_singleton.mp new]
          exact Nat.lt_succ_self _
      · rcases List.mem_append.mp member with before | new
        · exact known registration before
        · rw [List.mem_singleton.mp new]
          exact ⟨Nat.le_refl tick, fun _ impossible => absurd impossible List.not_mem_nil⟩
  | stop id =>
      have fewer := List.eraseP_sublist (l := history.journal)
        (p := fun registration => registration.isActive && registration.timer.id == id)
      refine ⟨?_, kept.ordered.sublist fewer, fun registration member =>
        kept.numbered registration (fewer.subset member), fun registration member =>
        kept.untilNow registration (fewer.subset member)⟩
      change history.list.timers.eraseP _ = _
      rw [kept.timers]
      exact eraseP_filter_map history.journal _ _ _
  | stopWhere wanted =>
      have fewer : (history.observe (.stopWhere wanted)).journal.Sublist history.journal :=
        List.filter_sublist
      refine ⟨?_, kept.ordered.sublist fewer, fun registration member =>
        kept.numbered registration (fewer.subset member), fun registration member =>
        kept.untilNow registration (fewer.subset member)⟩
      change history.list.timers.filter _ = _
      rw [kept.timers]
      exact filter_filter_map history.journal _ _ _
  | poll tick =>
      refine ⟨congrArg (·.2.timers) (kept.takeDue timely), List.pairwise_map.mpr kept.ordered,
        fun registration member => ?_, fun registration member => ?_⟩
      · obtain ⟨before, there, rfl⟩ := List.mem_map.mp member
        exact kept.numbered before there
      · obtain ⟨before, there, rfl⟩ := List.mem_map.mp member
        have known := (kept.untilNow before there).mono (timely.le tick rfl)
        refine ⟨known.started, fun poll polled => ?_⟩
        rcases List.mem_cons.mp polled with rfl | earlier
        · exact Nat.le_refl _
        · exact known.polled poll earlier

/-- And so do any number of them. -/
theorem Kept.run (kept : history.Kept) {events : List TimerEvent}
    (timely : history.AllTimely events) : (events.foldl TimerHistory.observe history).Kept := by
  induction events generalizing history with
  | nil => exact kept
  | cons event rest ih => exact ih (kept.observe timely.1) timely.2

theorem kept_new : Kept {} :=
  ⟨rfl, .nil, fun _ member => absurd member List.not_mem_nil,
    fun _ member => absurd member List.not_mem_nil⟩

/-- Events are timely in two parts. -/
theorem allTimely_append {events later : List TimerEvent} :
    history.AllTimely (events ++ later) ↔
      history.AllTimely events ∧ (events.foldl observe history).AllTimely later := by
  induction events generalizing history with
  | nil => exact (and_iff_right trivial).symm
  | cons event rest ih => exact (and_congr_right fun _ => ih).trans and_assoc.symm

/-- The registration goes back to a start among some events, and knows all polls that came later. -/
def Traced (events : List TimerEvent) (registration : Registration) : Prop :=
  ∃ before timer later id, events = before ++ .start registration.tick timer :: later ∧
    registration.polls = (later.filterMap TimerEvent.poll?).reverse ∧
    registration.timer = { timer with id, origin := UInt32.ofNat registration.tick }

/-- An event that is no poll adds nothing to a registration. -/
theorem Traced.concat {events : List TimerEvent} {registration : Registration}
    (traced : Traced events registration) {event : TimerEvent} (noPoll : event.poll? = none) :
    Traced (events ++ [event]) registration := by
  obtain ⟨before, timer, later, id, rfl, polls, same⟩ := traced
  refine ⟨before, timer, later ++ [event], id, by simp, ?_, same⟩
  rw [List.filterMap_append, List.filterMap_cons_none noPoll, polls]
  simp

theorem traced_of_mem_journal (events : List TimerEvent) :
    ∀ registration ∈ (after events).journal, Traced events registration := by
  induction events using List.reverseRecOn with
  | nil => exact fun _ member => absurd member List.not_mem_nil
  | append_singleton events event ih =>
      rw [after, List.foldl_append]
      intro registration member
      cases event with
      | start tick timer =>
          rcases List.mem_append.mp member with before | new
          · exact (ih registration before).concat rfl
          · rw [List.mem_singleton.mp new]
            exact ⟨events, timer, [], _, rfl, rfl, rfl⟩
      | stop id => exact (ih registration (List.mem_of_mem_eraseP member)).concat rfl
      | stopWhere wanted => exact (ih registration (List.mem_filter.mp member).1).concat rfl
      | poll tick =>
          obtain ⟨earlier, there, rfl⟩ := List.mem_map.mp member
          obtain ⟨before, timer, later, id, rfl, polls, same⟩ := ih earlier there
          refine ⟨before, timer, later ++ [.poll tick], id, by simp [Registration.polled], ?_, same⟩
          rw [List.filterMap_append, List.reverse_append, ← polls]
          rfl

/-- A poll takes the timers that the journal says are to be taken, each once and in the order in which
they were started: one that runs once at the first poll after its wait has passed and at no other, and
a repeating one whenever more whole waits have passed since its start than at the poll before. The
others stay in that order, with an origin that lies whole waits after the start. -/
theorem takeDue_eq (events : List TimerEvent) (tick : Nat)
    (timely : AllTimely {} (events ++ [.poll tick])) :
    let history := after events
    (history.list.takeDue (UInt32.ofNat tick)).1 =
        (history.journal.filter (·.fires tick)).map (·.due) ∧
      history.list.timers = (history.journal.filter (·.isActive)).map (·.now) ∧
      (history.list.takeDue (UInt32.ofNat tick)).2.timers =
        ((history.journal.map (·.polled tick)).filter (·.isActive)).map (·.now) ∧
      history.journal.Pairwise (·.number < ·.number) ∧
      ∀ registration ∈ history.journal, Traced events registration := by
  obtain ⟨before, timely⟩ := allTimely_append.mp timely
  have kept : (after events).Kept := kept_new.run before
  have taken := kept.takeDue timely.1
  exact ⟨congrArg Prod.fst taken, kept.timers, congrArg (·.2.timers) taken, kept.ordered,
    traced_of_mem_journal events⟩

/-- A timer that repeats and one that runs once, started shortly before the clock turns around; both
are taken by the second poll, which comes late, and none by the third one. -/
def turning : List TimerEvent :=
  [.start 4294967290 ⟨0, 10, 0, true, .undefined, .undefined, ⟨0, 0, 0⟩⟩,
    .start 4294967292 ⟨0, 5, 0, false, .undefined, .undefined, ⟨0, 0, 1⟩⟩,
    .poll 4294967296, .poll 4294967315, .stop 7, .poll 4294967319]

theorem takeDue_eq_turning :
    AllTimely {} (turning ++ [.poll 4294967320]) ∧
      ((after turning).list.takeDue (UInt32.ofNat 4294967320)).1.map (·.id) = [1] := by
  have timely : AllTimely {} (turning ++ [.poll 4294967320]) := by decide
  refine ⟨timely, ?_⟩
  rw [(takeDue_eq turning 4294967320 timely).1]
  decide

end TimerHistory

/-! ## The turn of a repeating timer -/

namespace Timer

variable {timer left : Timer} {now : UInt32}

/-- Behind the last beat of a repeating timer lies what has passed of its present wait. -/
theorem sub_lastBeat (timer : Timer) (now : UInt32) (waits : timer.wait ≠ 0) :
    now - timer.lastBeat now = timer.elapsed now % timer.wait := by
  have whole : timer.elapsed now % timer.wait + timer.elapsed now / timer.wait * timer.wait =
      now - timer.origin := by
    change _ = timer.elapsed now
    rw [← UInt32.toNat_inj, UInt32.toNat_add, UInt32.toNat_mul, UInt32.toNat_div, UInt32.toNat_mod,
      Nat.add_mod_mod, Nat.mod_add_div']
    exact Nat.mod_eq_of_lt (timer.elapsed now).toNat_lt
  rw [lastBeat, if_neg waits]
  grind

/-- What a poll has left of a timer is due at the same tick only when there is nothing to wait for. -/
theorem isDue_remaining (remains : timer.remaining? now = some left) (due : left.isDue now = true) :
    timer.isDue now = true ∧ timer.repeats = true ∧ timer.wait = 0 ∧
      left = { timer with origin := timer.lastBeat now } := by
  unfold remaining? at remains
  split at remains
  case isFalse early =>
    cases remains
    exact absurd due early
  case isTrue wasDue =>
    split at remains
    case isFalse => cases remains
    case isTrue repeats =>
      cases remains
      refine ⟨wasDue, repeats, ?_, rfl⟩
      by_contra waits
      have late : timer.wait ≤ now - timer.lastBeat now := of_decide_eq_true due
      rw [sub_lastBeat timer now waits, UInt32.le_iff_toNat_le, UInt32.toNat_mod] at late
      exact Nat.not_le.mpr
        (Nat.mod_lt _ (Nat.pos_of_ne_zero fun zero => waits (UInt32.toNat_inj.mp zero))) late

end Timer

namespace TimerList

/-- A second poll at the same tick takes nothing but repeating timers that have nothing to wait for.
So a repeating timer whose function a poll did not get to, as another one had failed, has lost its
turn: the poll that took it has moved its origin on before any function ran. -/
theorem takeDue_again {list : TimerList} {now : UInt32} {due : DueTimer}
    (taken : due ∈ ((list.takeDue now).2.takeDue now).1) :
    ∃ timer ∈ list.timers, timer.due? now = some due ∧ timer.repeats = true ∧ timer.wait = 0 := by
  obtain ⟨left, listed, taken⟩ := List.mem_filterMap.mp taken
  obtain ⟨timer, there, remains⟩ := List.mem_filterMap.mp listed
  have again : left.isDue now = true := by
    by_contra early
    rw [Timer.due?, if_neg early] at taken
    cases taken
  obtain ⟨wasDue, repeats, idle, same⟩ := Timer.isDue_remaining remains again
  refine ⟨timer, there, ?_, repeats, idle⟩
  rw [Timer.due?, if_pos again, same] at taken
  rw [Timer.due?, if_pos wasDue]
  exact taken

/-- A timer that repeats every ten ticks, and one that is due whenever it is asked for. -/
def idling : TimerList where
  timers := [⟨1, 10, 0, true, .native 0, .undefined, ⟨0, 0, 0⟩⟩,
    ⟨2, 0, 3, true, .native 1, .undefined, ⟨0, 0, 1⟩⟩]
  lastId := 2

theorem takeDue_again_idling :
    (idling.takeDue 10).1.map (·.id) = [1, 2] ∧
      ((idling.takeDue 10).2.takeDue 10).1.map (·.id) = [2] ∧
      ∃ timer ∈ idling.timers, timer.id = 2 ∧ timer.repeats = true ∧ timer.wait = 0 := by
  refine ⟨rfl, rfl, ?_⟩
  have taken : (⟨2, .native 1, .undefined, none⟩ : DueTimer) ∈
      ((idling.takeDue 10).2.takeDue 10).1 := List.mem_singleton_self _
  obtain ⟨timer, listed, due, repeats, idle⟩ := takeDue_again taken
  refine ⟨timer, listed, ?_, repeats, idle⟩
  unfold Timer.due? at due
  split at due
  · exact congrArg DueTimer.id (Option.some.inj due)
  · cases due

end TimerList

end PocketScript
