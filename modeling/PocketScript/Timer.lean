import PocketScript.Value

/-!
# Timers

A timer runs a function once its wait has passed, or again and again. Ticks are counted by a 32-bit
clock that wraps around, so a wait is always measured from the tick it began at. A poll takes what
is due in the order in which the timers were started.
-/

namespace PocketScript

/-- A started timer. It owns a reference to its function and to its parameter, and a block. -/
structure Timer where
  id : UInt32
  wait : UInt32
  /-- The tick from which the wait counts. -/
  origin : UInt32
  repeats : Bool
  callback : Value
  param : Value
  block : Handle
  deriving Repr

/-- What a poll takes of a due timer. A timer that runs only once has ended, and hands over what it
owned; one that repeats still owns it and shows no block. -/
structure DueTimer where
  id : UInt32
  callback : Value
  param : Value
  block : Option Handle
  deriving Repr

namespace Timer

/-- The ticks since the timer's origin. -/
def elapsed (timer : Timer) (now : UInt32) : UInt32 := now - timer.origin

def isDue (timer : Timer) (now : UInt32) : Bool := timer.wait ≤ timer.elapsed now

/-- The last tick up to now that lies a whole number of waits behind the origin. -/
def lastBeat (timer : Timer) (now : UInt32) : UInt32 :=
  if timer.wait = 0 then now
  else timer.origin + timer.elapsed now / timer.wait * timer.wait

/-- What a poll takes of the timer. -/
def due? (timer : Timer) (now : UInt32) : Option DueTimer :=
  if timer.isDue now then
    some
      { id := timer.id
        callback := timer.callback
        param := timer.param
        block := if timer.repeats then none else some timer.block }
  else none

/-- What a poll leaves of the timer. -/
def remaining? (timer : Timer) (now : UInt32) : Option Timer :=
  if timer.isDue now then
    if timer.repeats then some { timer with origin := timer.lastBeat now } else none
  else some timer

end Timer

/-- The started timers, the first one first, and the number last given to one. -/
structure TimerList where
  timers : List Timer := []
  lastId : UInt32 := 0
  deriving Repr

namespace TimerList

def contains (list : TimerList) (id : UInt32) : Bool := list.timers.any (·.id == id)

/-- The first number from `id` on that is not zero and not taken, after passing over at most so
many others. -/
def freeIdFrom (list : TimerList) : Nat → UInt32 → UInt32
  | 0, id => id
  | attempts + 1, id =>
      if id = 0 ∨ list.contains id then list.freeIdFrom attempts (id + 1) else id

/-- The number of the next timer. Zero and the numbers of the started timers are passed over. -/
def freeId (list : TimerList) : UInt32 :=
  list.freeIdFrom (list.timers.length + 1) (list.lastId + 1)

/-- Adds a timer, whatever number it carries, under the next free one. -/
def start (list : TimerList) (timer : Timer) : UInt32 × TimerList :=
  let id := list.freeId
  (id, { timers := list.timers ++ [{ timer with id }], lastId := id })

/-- Takes a timer out. -/
def stop (list : TimerList) (id : UInt32) : Option Timer × TimerList :=
  (list.timers.find? (·.id == id),
    { list with timers := list.timers.eraseP (·.id == id) })

/-- Takes out the timers that are wanted. -/
def stopWhere (list : TimerList) (wanted : Timer → Bool) : List Timer × TimerList :=
  (list.timers.filter wanted, { list with timers := list.timers.filter fun timer => !wanted timer })

/-- Takes all timers out. -/
def stopAll (list : TimerList) : List Timer × TimerList :=
  (list.timers, { list with timers := [] })

/-- Takes what is due. -/
def takeDue (list : TimerList) (now : UInt32) : List DueTimer × TimerList :=
  (list.timers.filterMap (·.due? now),
    { list with timers := list.timers.filterMap (·.remaining? now) })

end TimerList

end PocketScript
