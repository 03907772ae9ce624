import PocketScript.Proofs.Environment.Requests

/-!
# Careful host programs

A host program is careful (`Host.Careful`) when it hands over only references that it owns, asks only
about values that somebody keeps, and calls only such values. What it owns changes with each answer;
what it has borrowed, as a native function has its arguments, is kept by others until it has
finished. A native function is careful when it ends with its result as the only reference that it
owns (`NativeFunction.IsCareful`).
-/

namespace PocketScript

/-- The fault means that code is malformed. -/
def Fault.isInternal : Fault → Bool
  | stackUnderflow | invalidOpcode _ | invalidOperand => true
  | _ => false

theorem Fault.isInternal_of_isOrdinary {fault : Fault} (ordinary : fault.isOrdinary = true) :
    fault.isInternal = false := by
  cases fault <;> first | rfl | cases ordinary

/-- What is agreed on for a machine: whether the functions that values refer to are trusted to be
there, and which faults native functions report. Among trusted functions these do not mean that code
is malformed. -/
structure Terms where
  trusted : Prop
  reports : Fault → Prop
  proper : ∀ fault, reports fault → trusted → fault.isInternal = false

/-- On these terms the fault may arise. -/
def Terms.Admits (terms : Terms) (fault : Fault) : Prop :=
  terms.trusted → fault.isInternal = false

open Environment

namespace Host

variable {α β : Type} {terms : Terms} {borrowed : List Value} {owned : List Reference}

/-- The program takes care of what it owns. What it ends with, and what it then owns, is as
described. -/
def Careful (terms : Terms) (borrowed : List Value) (post : α → List Reference → Prop) :
    Host α → List Reference → Prop
  | .done result, owned => post result owned
  | .ask request next, owned => ∃ rest, owned.Perm (request.takes ++ rest) ∧ request.IsSound ∧
      (∀ value ∈ request.reads, Covers (rest ++ borrowed.map .value) value) ∧
        ∀ answer, request.Fair answer →
          (next answer).Careful terms borrowed post (request.gives answer ++ rest)
  | .call callee args next, owned =>
      (∀ value ∈ callee :: args, Covers (owned ++ borrowed.map .value) value) ∧
        (∀ value, (next (.ok value)).Careful terms borrowed post (.value value :: owned)) ∧
          ∀ fault, terms.Admits fault →
            (next (.error fault)).Careful terms borrowed post owned

variable {middle : α → List Reference → Prop} {post : β → List Reference → Prop}

theorem Careful.bind {program : Host α} {next : α → Host β}
    (careful : program.Careful terms borrowed middle owned)
    (rest : ∀ result owned, middle result owned → (next result).Careful terms borrowed post owned) :
    (program.bind next).Careful terms borrowed post owned := by
  induction program generalizing owned with
  | done result => exact rest result owned careful
  | ask request continuation ih =>
      obtain ⟨others, split, sound, covers, goesOn⟩ := careful
      exact ⟨others, split, sound, covers, fun answer fair => ih answer (goesOn answer fair)⟩
  | call callee args continuation ih =>
      obtain ⟨covers, succeeds, fails⟩ := careful
      exact ⟨covers, fun value => ih _ (succeeds value), fun fault admits => ih _ (fails fault admits)⟩

theorem Careful.weaken {program : Host α} {last : α → List Reference → Prop}
    (careful : program.Careful terms borrowed middle owned)
    (weaker : ∀ result owned, middle result owned → last result owned) :
    program.Careful terms borrowed last owned := by
  rw [← bind_done program]
  exact careful.bind weaker

/-- What follows a call. -/
def Awaits (terms : Terms) (borrowed : List Value) (post : α → List Reference → Prop)
    (owned : List Reference) (resume : Except Fault Value → Host α) : Prop :=
  (∀ value, (resume (.ok value)).Careful terms borrowed post (.value value :: owned)) ∧
    ∀ fault, terms.Admits fault → (resume (.error fault)).Careful terms borrowed post owned

end Host

/-- Nothing but the result is owned at the end, and a failure is one that may be reported. -/
def Delivers (terms : Terms) (result : Except Fault Value) (owned : List Reference) : Prop :=
  match result with
  | .ok value => ∃ idle, (∀ reference ∈ idle, reference.block? = none) ∧
      (owned.Perm (.value value :: idle) ∨ value.IsPlain ∧ owned = idle)
  | .error fault => terms.reports fault ∧ ∀ reference ∈ owned, reference.block? = none

/-- Whatever the arguments are, the function takes care of what it owns. -/
def NativeFunction.IsCareful (terms : Terms) (native : NativeFunction) : Prop :=
  ∀ args, (native args).run.Careful terms args (Delivers terms) []

end PocketScript
