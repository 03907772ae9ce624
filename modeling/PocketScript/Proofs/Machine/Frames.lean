import PocketScript.Proofs.Environment.Answers

/-!
# The frames of a call

The frames that a call puts on the frame stack lie one above the other: each one's callee lies above
the variables of the frame below it, and the callee of the first one where the stack ended before the
call (`Environment.Stacked`). Entering a function from a place above all variables keeps this, and so
does leaving the topmost one.
-/

namespace PocketScript

namespace Environment

variable {env before middle after : Environment} {first last depth bare height : Nat}

/-- At an index of the frame stack there is a frame of a known function. -/
structure Lies (env : Environment) (index : Nat) (frame : Frame) (function : FunctionDef) :
    Prop where
  there : env.frames[index]? = some frame
  known : env.function? frame.target = some function

/-- The frames from `first` up to `last` belong to a call in front of which the stack was `depth`
high. -/
structure Stacked (env : Environment) (first last depth : Nat) : Prop where
  order : first ≤ last
  inside : last ≤ env.frames.size
  frame : ∀ index, first ≤ index → index < last → ∃ frame function,
    env.Lies index frame function ∧ depth < frame.base ∧
      (index = first → frame.base = depth + 1) ∧
      ∀ next, index + 1 < last → env.frames[index + 1]? = some next →
        frame.base + function.varCount.toNat < next.base

/-- A height of the stack reaches above the variables of all these frames; when there are none of
them, it is as given. -/
def Clear (env : Environment) (first last bare height : Nat) : Prop :=
  (last = first ∧ height = bare) ∨
    (first < last ∧ ∃ frame function, env.Lies (last - 1) frame function ∧
      frame.base + function.varCount.toNat ≤ height)

/-- The frames below an index are the same, and every function that was known still is. -/
structure Keeps (last : Nat) (before after : Environment) : Prop where
  frames : ∀ index, index < last → after.frames[index]? = before.frames[index]?
  functions : ∀ target function, before.function? target = some function →
    after.function? target = some function

theorem Keeps.refl (last : Nat) (env : Environment) : Keeps last env env :=
  ⟨fun _ _ => rfl, fun _ _ => id⟩

theorem Keeps.trans (one : Keeps last before middle) (two : Keeps last middle after) :
    Keeps last before after :=
  ⟨fun index below => (two.frames index below).trans (one.frames index below),
    fun target function known => two.functions target function (one.functions target function known)⟩

theorem Keeps.weaken (keeps : Keeps last before after) (low : first ≤ last) :
    Keeps first before after :=
  ⟨fun index below => keeps.frames index (Nat.lt_of_lt_of_le below low), keeps.functions⟩

theorem Keeps.size (keeps : Keeps last before after) (inside : last ≤ before.frames.size) :
    last ≤ after.frames.size := by
  cases last with
  | zero => exact Nat.zero_le _
  | succ top =>
      have same := keeps.frames top (Nat.lt_succ_self top)
      rw [Array.getElem?_eq_getElem inside] at same
      exact (Array.getElem?_eq_some_iff.mp same).1

theorem Keeps.lies (keeps : Keeps last before after) {index : Nat} (below : index < last)
    {frame : Frame} {function : FunctionDef} (lies : before.Lies index frame function) :
    after.Lies index frame function :=
  ⟨(keeps.frames index below).trans lies.there, keeps.functions _ _ lies.known⟩

theorem Backstage.keeps (backstage : Backstage before after) (last : Nat) : Keeps last before after :=
  ⟨fun index _ => by rw [backstage.frames], backstage.functions⟩

theorem function?_of_programs (same : after.programs = before.programs) (target : FunctionRef) :
    after.function? target = before.function? target := by
  rw [function?_eq, function?_eq, same]

theorem KeepsBelow.keeps (keeps : KeepsBelow before after) :
    Keeps (before.frames.size - 1) before after :=
  ⟨fun index below => keeps.frames index (by omega), fun target function known =>
    (function?_of_programs keeps.programs target).trans known⟩

theorem Stacked.mono (stacked : before.Stacked first last depth) (keeps : Keeps last before after) :
    after.Stacked first last depth where
  order := stacked.order
  inside := keeps.size stacked.inside
  frame index low high := by
    obtain ⟨frame, function, lies, above, lowest, rising⟩ := stacked.frame index low high
    exact ⟨frame, function, keeps.lies high lies, above, lowest, fun next below there =>
      rising next below ((keeps.frames _ below).symm.trans there)⟩

theorem Clear.mono (clear : before.Clear first last bare height) (keeps : Keeps last before after) :
    after.Clear first last bare height := by
  obtain ended | ⟨more, frame, function, lies, above⟩ := clear
  · exact .inl ended
  · exact .inr ⟨more, frame, function, keeps.lies (by omega) lies, above⟩

/-- A value in a free place is all that is there when there are no frames. -/
theorem Clear.succ {place : Nat} (clear : env.Clear first last depth place) :
    env.Clear first last (depth + 1) (place + 1) := by
  obtain ⟨none, rfl⟩ | ⟨more, frame, function, lies, above⟩ := clear
  · exact .inl ⟨none, rfl⟩
  · exact .inr ⟨more, frame, function, lies, Nat.le_succ_of_le above⟩

/-- No frame of the call reaches down to what was there before the call. -/
theorem Stacked.depth_le (stacked : env.Stacked first last depth) (low : depth ≤ bare)
    (clear : env.Clear first last bare height) : depth ≤ height := by
  obtain ⟨-, rfl⟩ | ⟨more, frame, function, lies, above⟩ := clear
  · exact low
  · obtain ⟨frame', function', lies', above', -⟩ := stacked.frame (last - 1) (by omega) (by omega)
    have same : frame = frame' := Option.some.inj (lies.there.symm.trans lies'.there)
    subst same
    omega

/-- Wherever the running function is, its frame lies in the same place. -/
theorem SameFrames.lies (same : SameFrames before after)
    (programs : after.programs = before.programs) {index : Nat} {frame : Frame}
    {function : FunctionDef} (lies : before.Lies index frame function) :
    ∃ pc, after.Lies index { frame with pc } function := by
  have known : after.function? frame.target = some function :=
    (function?_of_programs programs _).trans lies.known
  obtain same | ⟨pc, same⟩ := same
  · exact ⟨frame.pc, by rw [same, lies.there], known⟩
  · by_cases top : before.frames.size - 1 = index
    · exact ⟨pc, by rw [same, Array.getElem?_modify, if_pos top, lies.there]; rfl, known⟩
    · exact ⟨frame.pc, by rw [same, Array.getElem?_modify, if_neg top, lies.there], known⟩

/-- Nor do other frames come to lie anywhere. -/
theorem SameFrames.base (same : SameFrames before after) {index : Nat} {frame : Frame}
    (there : after.frames[index]? = some frame) :
    ∃ old, before.frames[index]? = some old ∧ old.base = frame.base := by
  obtain same | ⟨pc, same⟩ := same
  · exact ⟨frame, by rw [← same, there], rfl⟩
  · rw [same, Array.getElem?_modify] at there
    split at there
    · obtain ⟨old, found, rfl⟩ := Option.map_eq_some_iff.mp there
      exact ⟨old, found, rfl⟩
    · exact ⟨frame, there, rfl⟩

theorem Stacked.goesOn (stacked : before.Stacked first last depth) (same : SameFrames before after)
    (programs : after.programs = before.programs) : after.Stacked first last depth where
  order := stacked.order
  inside := same.size ▸ stacked.inside
  frame index low high := by
    obtain ⟨frame, function, lies, above, lowest, rising⟩ := stacked.frame index low high
    obtain ⟨pc, lies'⟩ := same.lies programs lies
    refine ⟨{ frame with pc }, function, lies', above, lowest, fun next below there => ?_⟩
    obtain ⟨old, found, base⟩ := same.base there
    exact base ▸ rising old below found

theorem clear_goesOn (same : SameFrames before after) (programs : after.programs = before.programs)
    (more : first < before.frames.size) {frame : Frame} {function : FunctionDef}
    (lies : before.Lies (before.frames.size - 1) frame function)
    (above : frame.base + function.varCount.toNat ≤ height) :
    after.Clear first before.frames.size bare height := by
  obtain ⟨pc, lies'⟩ := same.lies programs lies
  exact .inr ⟨more, { frame with pc }, function, lies', above⟩

/-- No frames, at the end of the frame stack. -/
theorem stacked_none (env : Environment) (depth : Nat) :
    env.Stacked env.frames.size env.frames.size depth :=
  ⟨Nat.le_refl _, Nat.le_refl _, fun _ low high => absurd high (Nat.not_lt.mpr low)⟩

/-- A further frame whose callee lies above the variables of the others. -/
theorem Stacked.push {place : Nat} {frame : Frame} {function : FunctionDef}
    (stacked : before.Stacked first before.frames.size depth)
    (clear : before.Clear first before.frames.size depth place)
    (functions : ∀ target function, before.function? target = some function →
      after.function? target = some function)
    (frames : after.frames = before.frames.push frame) (base : frame.base = place + 1)
    (known : after.function? frame.target = some function) :
    after.Stacked first after.frames.size depth ∧
      after.Clear first after.frames.size (depth + 1) (frame.base + function.varCount.toNat) := by
  have size : after.frames.size = before.frames.size + 1 := by rw [frames, Array.size_push]
  have order := stacked.order
  have keeps : Keeps before.frames.size before after := by
    refine ⟨fun index below => ?_, functions⟩
    rw [frames, Array.getElem?_push, if_neg (by omega)]
  have top : after.Lies before.frames.size frame function :=
    ⟨by rw [frames, Array.getElem?_push, if_pos rfl], known⟩
  have high : depth ≤ place := stacked.depth_le (Nat.le_refl _) clear
  refine ⟨⟨by omega, Nat.le_refl _, fun index low below => ?_⟩, ?_⟩
  · by_cases last : index = before.frames.size
    · subst last
      refine ⟨frame, function, top, by omega, fun none => ?_, fun next beyond => by omega⟩
      obtain ⟨-, same⟩ | ⟨more, -⟩ := clear
      · omega
      · omega
    · obtain ⟨old, oldFunction, lies, above, lowest, rising⟩ := stacked.frame index low (by omega)
      refine ⟨old, oldFunction, keeps.lies (by omega) lies, above, lowest, fun next _ there => ?_⟩
      by_cases second : index + 1 = before.frames.size
      · rw [second, top.there] at there
        obtain rfl : frame = next := Option.some.inj there
        obtain ⟨none, -⟩ | ⟨-, topmost, topFunction, topLies, topAbove⟩ := clear
        · omega
        · rw [show before.frames.size - 1 = index by omega] at topLies
          obtain rfl : old = topmost := Option.some.inj (lies.there.symm.trans topLies.there)
          obtain rfl : oldFunction = topFunction :=
            Option.some.inj (lies.known.symm.trans topLies.known)
          omega
      · exact rising next (by omega) ((keeps.frames _ (by omega)).symm.trans there)
  · refine .inr ⟨by omega, frame, function, ?_, Nat.le_refl _⟩
    rw [size, Nat.add_sub_cancel]
    exact top

/-- The topmost frame gone, what its callee's place now holds lies above the variables of the
others. -/
theorem Stacked.pop (stacked : before.Stacked first before.frames.size depth)
    (more : first < before.frames.size) {frame : Frame}
    (last : before.frames[before.frames.size - 1]? = some frame)
    (keeps : Keeps (before.frames.size - 1) before after)
    (size : after.frames.size = before.frames.size - 1) :
    after.Stacked first after.frames.size depth ∧
      after.Clear first after.frames.size (depth + 1) frame.base := by
  have fewer : before.Stacked first (before.frames.size - 1) depth := by
    refine ⟨by omega, Nat.sub_le _ _, fun index low below => ?_⟩
    obtain ⟨old, function, lies, above, lowest, rising⟩ := stacked.frame index low (by omega)
    exact ⟨old, function, lies, above, lowest, fun next beyond => rising next (by omega)⟩
  rw [size]
  refine ⟨fewer.mono keeps, ?_⟩
  by_cases only : before.frames.size - 1 = first
  · refine .inl ⟨only, ?_⟩
    obtain ⟨same, function, lies, -, lowest, -⟩ :=
      stacked.frame (before.frames.size - 1) (by omega) (by omega)
    obtain rfl : frame = same := Option.some.inj (last.symm.trans lies.there)
    exact lowest only
  · obtain ⟨below, function, lies, -, -, rising⟩ :=
      stacked.frame (before.frames.size - 2) (by omega) (by omega)
    refine .inr ⟨by omega, below, function, ?_, Nat.le_of_lt (rising frame (by omega) ?_)⟩
    · exact keeps.lies (by omega) lies
    · rw [show before.frames.size - 2 + 1 = before.frames.size - 1 by omega]
      exact last

end Environment

end PocketScript
