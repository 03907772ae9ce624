import Mathlib.Data.List.Forall2
import PocketScript.Proofs.Compile.Captures

/-!
# Chains of captures

A function sees a variable of a function around it through a chain: its own capture, and one capture
of each function in between, up to a slot. `Scopes.follow?` goes along such a chain. Chains of one
function that end at the same variable start with the same capture (`Scopes.follow?_inj`), no chain
breaks when functions get further slots and captures (`Scopes.follow?_widened`), and the capture that
is found for a name leads to the nearest function that declares it
(`Scopes.follow?_captureFrom`).
-/

namespace PocketScript

/-- A variable: how many functions are around the one that declares it, and its slot there. -/
structure Variable where
  level : Nat
  slot : Nat
  deriving DecidableEq, Repr

namespace FunctionScope

variable {scope scope' : FunctionScope} {limit place : Nat} {source : CaptureSource}
  {index : UInt16} {name : String}

/-- No slot and no capture is there twice, and there are not too many captures. -/
structure Distinct (limit : Nat) (scope : FunctionScope) : Prop where
  slots : scope.slots.toList.Nodup
  captures : scope.captures.toList.Nodup
  few : scope.captures.size ≤ limit

/-- The names of the parameters. -/
def parameters (scope : FunctionScope) : List String := scope.slots.toList.take scope.argCount.toNat

theorem getElem?_of_widens (widens : scope.Widens scope')
    (there : scope.captures[place]? = some source) : scope'.captures[place]? = some source := by
  obtain ⟨more, same⟩ := widens.captures
  obtain ⟨inside, -⟩ := Array.getElem?_eq_some_iff.mp there
  rw [same, Array.getElem?_append_left inside, there]

/-- A source stands at one place only. -/
theorem place_unique (distinct : scope.Distinct limit) {one two : Nat}
    (here : scope.captures[one]? = some source) (there : scope.captures[two]? = some source) :
    one = two := by
  obtain ⟨inside, -⟩ := Array.getElem?_eq_some_iff.mp here
  rw [← Array.getElem?_toList] at here there
  exact (List.getElem?_inj inside distinct.captures).mp (here.trans there.symm)

/-- A captured source stands at the place that is told. -/
theorem getElem?_of_capture (captured : scope.capture limit source = .ok (index, scope'))
    (numbered : scope'.captures.size ≤ 65536) :
    scope'.captures[index.toNat]? = some source := by
  obtain ⟨-, place, found, rfl⟩ := capture_eq_ok captured
  obtain ⟨inside, same, -⟩ := Array.findIdx?_eq_some_iff_getElem.mp found
  rw [UInt16.toNat_ofNat_of_lt' (show place < 65536 by omega), Array.getElem?_eq_getElem inside,
    eq_of_beq same]

theorem Distinct.capture (distinct : scope.Distinct limit)
    (captured : scope.capture limit source = .ok (index, scope')) : scope'.Distinct limit := by
  unfold FunctionScope.capture at captured
  split at captured
  · cases captured
    exact distinct
  · rename_i missing
    dsimp only at captured
    split at captured
    · cases captured
    · rename_i room
      cases captured
      refine ⟨distinct.slots, ?_, by rw [Array.size_push]; omega⟩
      have absent : source ∉ scope.captures.toList := fun member => by
        have none := Array.findIdx?_eq_none_iff.mp missing source (Array.mem_def.mpr member)
        simp at none
      rw [Array.toList_push]
      refine List.nodup_append.mpr ⟨distinct.captures, List.pairwise_singleton _ _,
        fun one member other last same => ?_⟩
      exact absent (List.mem_singleton.mp last ▸ same ▸ member)

theorem Distinct.markCaptured (distinct : scope.Distinct limit) (slot : Nat) :
    (scope.markCaptured slot).Distinct limit :=
  ⟨distinct.slots, distinct.captures, distinct.few⟩

/-- Only a function that is full has no room for a capture, unless it has that already. -/
theorem full_of_capture {complaint : Complaint}
    (failed : scope.capture limit source = .error complaint) :
    complaint = .tooManyCaptures ∧ limit ≤ scope.captures.size ∧ source ∉ scope.captures := by
  unfold FunctionScope.capture at failed
  split at failed
  · cases failed
  · rename_i missing
    dsimp only at failed
    split at failed
    · rename_i full
      cases failed
      refine ⟨rfl, full, fun member => ?_⟩
      have none := Array.findIdx?_eq_none_iff.mp missing source member
      simp at none
    · cases failed

end FunctionScope

namespace Scopes

/-- The variable of a name in the nearest function that declares it. -/
def nearest? (name : String) : Scopes → Option Variable
  | [] => none
  | scope :: outer =>
      match scope.find? name with
      | some slot => some ⟨outer.length, slot⟩
      | none => nearest? name outer

/-- The variable that a capture of the innermost function leads to. -/
def follow? : Scopes → Nat → Option Variable
  | [], _ => none
  | scope :: outer, place =>
      match scope.captures[place]? with
      | none => none
      | some (.outerSlot slot) =>
          match outer with
          | [] => none
          | around :: rest =>
              if slot.toNat < around.slots.size then some ⟨rest.length, slot.toNat⟩ else none
      | some (.outerCapture through) => follow? outer through.toNat

/-- The function with so many functions around it. -/
def functionAt? (level : Nat) : Scopes → Option FunctionScope
  | [] => none
  | scope :: outer => if level = outer.length then some scope else functionAt? level outer

/-- The variable is known to be captured. -/
def Marks (scopes : Scopes) (target : Variable) : Prop :=
  ∃ scope, scopes.functionAt? target.level = some scope ∧ scope.Captured target.slot

/-- Every function has further slots and captures behind those it had. -/
abbrev Widened (before after : Scopes) : Prop := List.Forall₂ FunctionScope.Widens before after

variable {before middle after outer outer' scopes : Scopes} {scope scope' : FunctionScope}
  {limit place : Nat} {name : String} {target : Variable}

theorem Widened.refl (scopes : Scopes) : Widened scopes scopes :=
  List.forall₂_same.mpr fun scope _ => .refl scope

theorem Widened.trans (first : Widened before middle) (second : Widened middle after) :
    Widened before after := by
  induction first generalizing after with
  | nil => exact second
  | cons head _ ih =>
      cases second with
      | cons head' tail' => exact .cons (head.trans head') (ih tail')

/-! ## Following -/

/-- The first capture of a chain leads to a slot of the next function, or to a capture there. -/
theorem follow?_cases (found : follow? (scope :: outer) place = some target) :
    (∃ slot, scope.captures[place]? = some (.outerSlot slot) ∧
      target.level + 1 = outer.length ∧ target.slot = slot.toNat ∧
        ∃ around rest, outer = around :: rest ∧ slot.toNat < around.slots.size) ∨
    ∃ through, scope.captures[place]? = some (.outerCapture through) ∧
      follow? outer through.toNat = some target := by
  rw [follow?] at found
  split at found
  · cases found
  · rename_i slot there
    cases outer with
    | nil => cases found
    | cons around rest =>
        dsimp only at found
        split at found
        · rename_i inside
          cases found
          exact .inl ⟨slot, there, rfl, rfl, around, rest, rfl, inside⟩
        · cases found
  · rename_i through there
    exact .inr ⟨through, there, found⟩

theorem follow?_of_slot {slot : UInt16} {around : FunctionScope} {rest : Scopes}
    (there : scope.captures[place]? = some (.outerSlot slot))
    (inside : slot.toNat < around.slots.size) :
    follow? (scope :: around :: rest) place = some ⟨rest.length, slot.toNat⟩ := by
  rw [follow?, there]
  exact if_pos inside

theorem follow?_of_capture {through : UInt16}
    (there : scope.captures[place]? = some (.outerCapture through)) :
    follow? (scope :: outer) place = follow? outer through.toNat := by
  rw [follow?, there]

/-- A chain ends in a function around its first one. -/
theorem level_of_follow? (found : follow? (scope :: outer) place = some target) :
    target.level < outer.length := by
  induction outer generalizing scope place with
  | nil =>
      obtain ⟨slot, -, level, -⟩ | ⟨through, -, inner⟩ := follow?_cases found
      · cases level
      · cases inner
  | cons around rest ih =>
      obtain ⟨slot, -, level, -⟩ | ⟨through, -, inner⟩ := follow?_cases found
      · exact Nat.lt_of_succ_le (Nat.le_of_eq level)
      · exact Nat.lt_succ_of_lt (ih inner)

/-- A variable belongs to one of the functions. -/
theorem level_of_nearest? (nearest : nearest? name scopes = some target) :
    target.level < scopes.length := by
  induction scopes with
  | nil => cases nearest
  | cons scope outer ih =>
      rw [nearest?] at nearest
      split at nearest
      · cases nearest
        exact Nat.lt_succ_self _
      · exact Nat.lt_succ_of_lt (ih nearest)

/-- No chain breaks when functions get further slots and captures. -/
theorem follow?_widened (widened : Widened before after)
    (found : follow? before place = some target) : follow? after place = some target := by
  induction widened generalizing place with
  | nil => cases found
  | cons head tail ih =>
      obtain ⟨slot, there, level, same, around, rest, rfl, inside⟩ | ⟨through, there, inner⟩ :=
        follow?_cases found
      · cases tail with
        | cons head' tail' =>
            rw [follow?_of_slot (FunctionScope.getElem?_of_widens head there)
              (Nat.lt_of_lt_of_le inside head'.slots_le), ← same, ← tail'.length_eq]
            cases target
            cases level
            rfl
      · rw [follow?_of_capture (FunctionScope.getElem?_of_widens head there)]
        exact ih inner

/-- Captures of one function that lead to the same variable are the same capture. -/
theorem follow?_inj (distinct : ∀ scope ∈ scopes, scope.Distinct limit) {one two : Nat}
    (first : follow? scopes one = some target) (second : follow? scopes two = some target) :
    one = two := by
  induction scopes generalizing one two with
  | nil => cases first
  | cons scope outer ih =>
      -- A variable of the next function is captured from its slot, any other one from a capture.
      have further {through : Nat} (inner : follow? outer through = some target) :
          target.level + 1 ≠ outer.length := by
        cases outer with
        | nil => cases inner
        | cons around rest => exact Nat.ne_of_lt (Nat.succ_lt_succ (level_of_follow? inner))
      obtain ⟨slot, here, level, same, -⟩ | ⟨through, here, inner⟩ := follow?_cases first
      · obtain ⟨slot', there, -, same', -⟩ | ⟨through', -, inner'⟩ := follow?_cases second
        · obtain rfl : slot = slot' := UInt16.toNat_inj.mp (same.symm.trans same')
          exact FunctionScope.place_unique (distinct scope List.mem_cons_self) here there
        · exact absurd level (further inner')
      · obtain ⟨slot', -, level', -⟩ | ⟨through', there, inner'⟩ := follow?_cases second
        · exact absurd level' (further inner)
        · obtain rfl : through = through' := UInt16.toNat_inj.mp
            (ih (fun scope member => distinct scope (List.mem_cons_of_mem _ member)) inner inner')
          exact FunctionScope.place_unique (distinct scope List.mem_cons_self) here there

/-! ## Capturing -/

/-- Captures have numbers of their own: there are no more of them than 16 bits can tell apart. -/
def Numbered (scopes : Scopes) : Prop := ∀ scope ∈ scopes, scope.captures.size ≤ 65536

theorem foundIn_widened (widened : Widened before after) {source : CaptureSource}
    (found : source.FoundIn before) : source.FoundIn after := by
  cases widened with
  | nil => exact found
  | cons head tail =>
      cases source with
      | outerSlot index => exact head.captured _ found
      | outerCapture index => exact Nat.lt_of_lt_of_le found head.captures_le

/-- What a function captures is found in the functions around it also when these get further slots
and captures. -/
theorem Sane.around (sane : Sane (scope :: outer)) (widened : Widened outer outer')
    (around : Sane outer') : Sane (scope :: outer') :=
  ⟨sane.1, fun source member => foundIn_widened widened (sane.2.1 source member), around⟩

theorem lt_of_functionAt? {level : Nat} (found : functionAt? level scopes = some scope) :
    level < scopes.length := by
  induction scopes with
  | nil => cases found
  | cons first outer ih =>
      rw [functionAt?] at found
      split at found
      · rename_i here
        exact here ▸ Nat.lt_succ_self _
      · exact Nat.lt_succ_of_lt (ih found)

theorem Marks.cons (marks : Marks outer target) (scope : FunctionScope) :
    Marks (scope :: outer) target := by
  obtain ⟨found, there, captured⟩ := marks
  refine ⟨found, ?_, captured⟩
  rw [functionAt?, if_neg (Nat.ne_of_lt (lt_of_functionAt? there))]
  exact there

/-- Adds a capture to a function. One that has no room for it stays as it is. -/
def keep (limit : Nat) (scope : FunctionScope) (outer : Scopes) (source : CaptureSource) :
    Except Complaint (Option UInt16) × FunctionScope × Scopes :=
  match scope.capture limit source with
  | .ok (index, captured) => (.ok (some index), captured, outer)
  | .error complaint => (.error complaint, scope, outer)

/-- What `captureFrom` does, with what it leaves when a function on the way has no room for another
capture: the functions around that one have got theirs. -/
def tryCapture (limit : Nat) (name : String) (scope : FunctionScope) :
    Scopes → Except Complaint (Option UInt16) × FunctionScope × Scopes
  | [] => (.ok none, scope, [])
  | next :: rest =>
      match next.find? name with
      | some slot =>
          keep limit scope (next.markCaptured slot :: rest) (.outerSlot (UInt16.ofNat slot))
      | none =>
          match tryCapture limit name next rest with
          | (.ok (some through), next, rest) =>
              keep limit scope (next :: rest) (.outerCapture through)
          | (outcome, next, rest) => (outcome, scope, next :: rest)

theorem captureFrom_eq (limit : Nat) (name : String) (scope : FunctionScope) (outer : Scopes) :
    captureFrom limit name scope outer =
      (tryCapture limit name scope outer).1.map fun through =>
        (through, (tryCapture limit name scope outer).2) := by
  induction outer generalizing scope with
  | nil => rfl
  | cons next rest ih =>
      rw [captureFrom, tryCapture]
      cases next.find? name with
      | some slot =>
          dsimp only
          unfold keep
          cases scope.capture limit (.outerSlot (UInt16.ofNat slot)) <;> rfl
      | none =>
          dsimp only
          rw [ih next]
          obtain ⟨outcome, next', rest'⟩ := tryCapture limit name next rest
          cases outcome with
          | error complaint => rfl
          | ok through =>
              cases through with
              | none => rfl
              | some through =>
                  dsimp only
                  unfold keep
                  change (scope.capture limit (.outerCapture through) >>= _) = _
                  cases scope.capture limit (.outerCapture through) <;> rfl

/-- A function on the way to a variable has as many captures as it may have, and none that leads
there. -/
def IsFull (limit : Nat) (scopes : Scopes) (target : Variable) : Prop :=
  ∃ inner own around, scopes = inner ++ own :: around ∧ target.level < around.length ∧
    limit ≤ own.captures.size ∧ ∀ place, follow? (own :: around) place ≠ some target

theorem IsFull.cons (full : IsFull limit outer target) (scope : FunctionScope) :
    IsFull limit (scope :: outer) target := by
  obtain ⟨inner, own, around, rfl, further⟩ := full
  exact ⟨scope :: inner, own, around, rfl, further⟩

theorem exists_follow? {inner around : Scopes} {own : FunctionScope}
    (found : follow? (inner ++ own :: around) place = some target)
    (further : target.level < around.length) :
    ∃ through, follow? (own :: around) through = some target := by
  induction inner generalizing place with
  | nil => exact ⟨place, found⟩
  | cons first inner ih =>
      obtain ⟨slot, -, level, -⟩ | ⟨through, -, found⟩ := follow?_cases found
      · have longer : around.length < (inner ++ own :: around).length := by
          rw [List.length_append, List.length_cons]
          omega
        exact absurd level (Nat.ne_of_lt (Nat.lt_of_le_of_lt further longer))
      · exact ih found

theorem IsFull.not_follow? (full : IsFull limit scopes target) (place : Nat) :
    follow? scopes place ≠ some target := by
  obtain ⟨inner, own, around, rfl, further, -, none⟩ := full
  intro found
  obtain ⟨through, found⟩ := exists_follow? found further
  exact none through found

/-- What becomes of some functions in the search for a name: they get the captures on the way to the
variable, if there is one, unless one of them is full. -/
structure Sought (limit : Nat) (name : String) (before : Scopes)
    (outcome : Except Complaint (Option UInt16)) (after : Scopes) : Prop where
  sane : Sane after
  distinct : ∀ scope ∈ after, scope.Distinct limit
  widened : Widened before after
  parameters : after.map FunctionScope.parameters = before.map FunctionScope.parameters
  missed : outcome = .ok none → nearest? name before.tail = none ∧ after = before
  found : ∀ index, outcome = .ok (some index) →
    (CaptureSource.outerCapture index).FoundIn after ∧
      ∃ target, nearest? name before.tail = some target ∧ Marks after target ∧
        (Numbered after → follow? after index.toNat = some target)
  failed : ∀ complaint, outcome = .error complaint → complaint = .tooManyCaptures ∧
    ∃ target, nearest? name before.tail = some target ∧
      (Numbered after → IsFull limit before target)

/-- A function keeps a capture that leads to the variable of a name. -/
theorem sought_keep {source : CaptureSource} (sane : Sane (scope :: outer'))
    (distinct : ∀ one ∈ scope :: outer', one.Distinct limit) (widened : Widened outer outer')
    (parameters : outer'.map FunctionScope.parameters = outer.map FunctionScope.parameters)
    (there : source.FoundIn outer') (nearest : nearest? name outer = some target)
    (marks : Marks outer' target)
    (leads : ∀ (scope' : FunctionScope) place, Numbered outer' →
      scope'.captures[place]? = some source → follow? (scope' :: outer') place = some target)
    (only : ∀ place, Numbered outer' → follow? (scope :: outer) place = some target →
      scope.captures[place]? = some source) :
    Sought limit name (scope :: outer) (keep limit scope outer' source).1
      ((keep limit scope outer' source).2.1 :: (keep limit scope outer' source).2.2) := by
  obtain ⟨here, around⟩ := List.forall_mem_cons.mp distinct
  unfold keep
  cases captured : scope.capture limit source with
  | error complaint =>
      obtain ⟨same, full, missing⟩ := FunctionScope.full_of_capture captured
      exact
        { sane
          distinct
          widened := .cons (.refl scope) widened
          parameters := congrArg (scope.parameters :: ·) parameters
          missed := nofun
          found := nofun
          failed := fun _ told => by
            cases told
            refine ⟨same, target, nearest, fun numbered => ⟨[], scope, outer, rfl,
              level_of_nearest? nearest, full, fun place found => ?_⟩⟩
            have there := only place (List.forall_mem_cons.mp numbered).2 found
            exact missing (Array.mem_of_getElem? there) }
  | ok pair =>
      obtain ⟨index, scope'⟩ := pair
      obtain ⟨widens, slots, marked, args, -, told, sources⟩ := FunctionScope.capture_widens captured
      obtain ⟨proper, found, sane'⟩ := sane
      exact
        { sane :=
            ⟨⟨by rw [marked, slots]; exact proper.captured, by rw [slots]; exact proper.small,
              by rw [args, slots]; exact proper.args⟩, fun other member => by
                obtain before | rfl := sources other member
                · exact found other before
                · exact there, sane'⟩
          distinct := List.forall_mem_cons.mpr ⟨here.capture captured, around⟩
          widened := .cons widens widened
          parameters := by
            rw [List.map_cons, List.map_cons, parameters, FunctionScope.parameters, slots, args,
              FunctionScope.parameters]
          missed := nofun
          found := fun _ same => by
            cases same
            refine ⟨told, target, nearest, marks.cons scope', fun numbered => ?_⟩
            obtain ⟨small, numbered⟩ := List.forall_mem_cons.mp numbered
            exact leads scope' _ numbered (FunctionScope.getElem?_of_capture captured small)
          failed := nofun }

/-- The search for a name finds a capture that leads to the nearest function around that declares it;
where there is none it leaves everything as it is. -/
theorem sought_tryCapture (sane : Sane (scope :: outer))
    (distinct : ∀ one ∈ scope :: outer, one.Distinct limit) :
    Sought limit name (scope :: outer) (tryCapture limit name scope outer).1
      ((tryCapture limit name scope outer).2.1 :: (tryCapture limit name scope outer).2.2) := by
  induction outer generalizing scope with
  | nil =>
      exact
        { sane, distinct, widened := .refl _, parameters := rfl
          missed := fun _ => ⟨rfl, rfl⟩
          found := nofun
          failed := nofun }
  | cons next rest ih =>
      obtain ⟨here, around⟩ := List.forall_mem_cons.mp distinct
      rw [tryCapture]
      cases there : next.find? name with
      | some slot =>
          -- The next function declares the name in a slot, which is captured from now on.
          have properNext := sane.2.2.1
          have inside := FunctionScope.find?_lt there
          obtain ⟨proper, marks⟩ := FunctionScope.markCaptured_widens properNext inside
          have small := properNext.small
          have index : (UInt16.ofNat slot).toNat = slot :=
            UInt16.toNat_ofNat_of_lt' (show slot < 65536 by omega)
          have marked : (next.markCaptured slot).Captured slot :=
            (FunctionScope.captured_markCaptured properNext inside).mpr (.inl rfl)
          have widened : Widened (next :: rest) (next.markCaptured slot :: rest) :=
            .cons marks (Widened.refl rest)
          have nearest : nearest? name (next :: rest) = some ⟨rest.length, slot⟩ := by
            rw [nearest?, there]
          refine sought_keep (sane.around widened ⟨proper, sane.2.2.2.1, sane.2.2.2.2⟩) ?_ widened
            rfl ?_ nearest ?_ ?_ ?_
          · obtain ⟨distinctNext, distinctRest⟩ := List.forall_mem_cons.mp around
            exact List.forall_mem_cons.mpr ⟨here,
              List.forall_mem_cons.mpr ⟨distinctNext.markCaptured slot, distinctRest⟩⟩
          · change (next.markCaptured slot).Captured (UInt16.ofNat slot).toNat
            rw [index]
            exact marked
          · exact ⟨_, if_pos rfl, marked⟩
          · intro scope' place _ source
            rw [follow?_of_slot source (by rw [index]; exact inside), index]
          · intro place _ found
            obtain ⟨slot', there, -, same, -⟩ | ⟨through, -, found⟩ := follow?_cases found
            · rw [there, UInt16.toNat_inj.mp (same.symm.trans index.symm)]
            · exact absurd (level_of_follow? found) (Nat.lt_irrefl _)
      | none =>
          -- The next function captures the name itself, if it is declared at all.
          have step := ih sane.2.2 around
          dsimp only
          generalize tryCapture limit name next rest = result at step
          obtain ⟨outcome, next', rest'⟩ := result
          have same : nearest? name (next :: rest) = nearest? name rest := by rw [nearest?, there]
          have aside : Sane (scope :: next' :: rest') := sane.around step.widened step.sane
          have apart : ∀ one ∈ scope :: next' :: rest', one.Distinct limit :=
            List.forall_mem_cons.mpr ⟨here, step.distinct⟩
          cases outcome with
          | error complaint =>
              obtain ⟨told, target, nearest, full⟩ := step.failed complaint rfl
              exact
                { sane := aside
                  distinct := apart
                  widened := .cons (.refl scope) step.widened
                  parameters := congrArg (scope.parameters :: ·) step.parameters
                  missed := nofun
                  found := nofun
                  failed := fun _ wrong => by
                    cases wrong
                    exact ⟨told, target, same.trans nearest, fun numbered =>
                      (full (List.forall_mem_cons.mp numbered).2).cons scope⟩ }
          | ok through =>
              cases through with
              | none =>
                  obtain ⟨missing, unchanged⟩ := step.missed rfl
                  exact
                    { sane := aside
                      distinct := apart
                      widened := .cons (.refl scope) step.widened
                      parameters := congrArg (scope.parameters :: ·) step.parameters
                      missed := fun _ => ⟨same.trans missing, congrArg (scope :: ·) unchanged⟩
                      found := nofun
                      failed := nofun }
              | some through =>
                  obtain ⟨there, target, nearest, marks, leads⟩ := step.found through rfl
                  refine sought_keep aside apart step.widened step.parameters there
                    (same.trans nearest) marks (fun scope' place numbered source => ?_)
                    fun place numbered found => ?_
                  · rw [follow?_of_capture source]
                    exact leads numbered
                  · -- Another capture of the next function would lead to the variable too.
                    obtain ⟨slot, -, level, -⟩ | ⟨through', there, found⟩ := follow?_cases found
                    · have low := level_of_nearest? nearest
                      rw [List.tail_cons] at low
                      exact absurd (Nat.succ.inj level) (Nat.ne_of_lt low)
                    · have again := follow?_widened step.widened found
                      rw [there, UInt16.toNat_inj.mp
                        (follow?_inj step.distinct again (leads numbered))]

end Scopes

end PocketScript
