import PocketScript.Proofs.Compile.Leads

/-!
# Expressions that do not compile

A broken expression does not compile, and no expression does that has a part that does not. Reading
goes on behind a broken part, and whatever it reads there, the broken part stays in the tree: every
further operand and access only adds to it (`Parser.fails_moreInfixes`,
`Parser.fails_morePostfixes`).
-/

namespace PocketScript

namespace Compiling

variable {left right condition whenTrue whenFalse container key value : Expr}

theorem fails_broken (error : CompileError) : Fails (expr (.broken error)) := by
  intro context before result after leads
  rw [expr] at leads
  exact not_leads_throw leads

theorem fails_unary {op : UnaryOp} (failing : Fails (expr value)) :
    Fails (expr (.unary op value)) := by
  intro context before result after leads
  obtain ⟨middle, inner, -⟩ := leads_unary.mp leads
  exact failing _ _ _ _ inner

theorem fails_binary {op : BinaryOp} (failing : Fails (expr left) ∨ Fails (expr right)) :
    Fails (expr (.binary op left right)) := by
  intro context before result after leads
  obtain ⟨first, one, second, two, -⟩ := leads_binary.mp leads
  rcases failing with failing | failing
  · exact failing _ _ _ _ one
  · exact failing _ _ _ _ two

theorem fails_logical {op : LogicalOp} (failing : Fails (expr left) ∨ Fails (expr right)) :
    Fails (expr (.logical op left right)) := by
  intro context before result after leads
  obtain ⟨first, one, second, two, -⟩ := leads_logical.mp leads
  rcases failing with failing | failing
  · exact failing _ _ _ _ one
  · exact failing _ _ _ _ two

theorem fails_conditional
    (failing : Fails (expr condition) ∨ Fails (expr whenTrue) ∨ Fails (expr whenFalse)) :
    Fails (expr (.conditional condition whenTrue whenFalse)) := by
  intro context before result after leads
  obtain ⟨first, one, second, two, third, three, -⟩ := leads_conditional.mp leads
  rcases failing with failing | failing | failing
  · exact failing _ _ _ _ one
  · exact failing _ _ _ _ two
  · exact failing _ _ _ _ three

theorem fails_assignName {name : String} {span : Span} {op : Option BinaryOp}
    (failing : Fails (expr value)) : Fails (expr (.assignName name span op value)) := by
  intro context before result after leads
  cases op with
  | none =>
      obtain ⟨place, first, -, second, inner, -⟩ := leads_assignName.mp leads
      exact failing _ _ _ _ inner
  | some op =>
      obtain ⟨place, first, -, loaded, -, second, inner, -⟩ := leads_updateName.mp leads
      exact failing _ _ _ _ inner

theorem fails_element (failing : Fails (expr container) ∨ Fails (expr key)) :
    Fails (expr (.element container key)) := by
  intro context before result after leads
  obtain ⟨first, one, second, two, -⟩ := leads_element.mp leads
  rcases failing with failing | failing
  · exact failing _ _ _ _ one
  · exact failing _ _ _ _ two

theorem fails_assignElement {op : Option BinaryOp}
    (failing : Fails (expr container) ∨ Fails (expr key) ∨ Fails (expr value)) :
    Fails (expr (.assignElement container key op value)) := by
  intro context before result after leads
  cases op with
  | none =>
      obtain ⟨first, one, second, two, third, three, -⟩ := leads_assignElement.mp leads
      rcases failing with failing | failing | failing
      · exact failing _ _ _ _ one
      · exact failing _ _ _ _ two
      · exact failing _ _ _ _ three
  | some op =>
      obtain ⟨first, one, second, two, third, three, -⟩ := leads_updateElement.mp leads
      rcases failing with failing | failing | failing
      · exact failing _ _ _ _ one
      · exact failing _ _ _ _ two
      · exact failing _ _ _ _ three

theorem fails_call {args : List Expr} {span : Span} (failing : Fails (expr value)) :
    Fails (expr (.call value args span)) := by
  intro context before result after leads
  obtain ⟨first, one, -⟩ := leads_call.mp leads
  exact failing _ _ _ _ one

/-- Expressions in a row do not compile when one of them does not. -/
theorem fails_exprs {trees : List Expr} (inside : value ∈ trees) (failing : Fails (expr value)) :
    Fails (exprs trees) := by
  induction trees with
  | nil => cases inside
  | cons first rest ih =>
      intro context before result after leads
      obtain ⟨middle, one, more⟩ := leads_exprs_cons.mp leads
      rcases List.mem_cons.mp inside with rfl | later
      · exact failing _ _ _ _ one
      · exact ih later _ _ _ _ more

/-- Nor an array when its elements do not. -/
theorem fails_array {trees : List Expr} {span : Span} (failing : Fails (exprs trees)) :
    Fails (expr (.array trees span)) := by
  intro context before result after leads
  obtain ⟨middle, inner, -⟩ := leads_array.mp leads
  exact failing _ _ _ _ inner

/-- Entries in a row do not compile when one of them does not. -/
theorem fails_entries {trees : List Entry} {tree : Entry} (inside : tree ∈ trees)
    (failing : Fails (entry tree)) : Fails (entries trees) := by
  induction trees with
  | nil => cases inside
  | cons first rest ih =>
      intro context before result after leads
      rw [entries, leads_seq] at leads
      obtain ⟨middle, one, more⟩ := leads
      rcases List.mem_cons.mp inside with rfl | later
      · exact failing _ _ _ _ one
      · exact ih later _ _ _ _ more

/-- A broken property raises its error. -/
theorem fails_entry_broken (error : CompileError) : Fails (entry (.broken error)) := by
  intro context before result after leads
  rw [entry] at leads
  exact not_leads_throw leads

theorem fails_property {name : String} {span : Span} (failing : Fails (expr value)) :
    Fails (entry (.property name span value)) := by
  intro context before result after leads
  rw [entry, leads_seq] at leads
  obtain ⟨middle, -, inner⟩ := leads
  exact failing _ _ _ _ inner

theorem fails_object {trees : List Entry} {span : Span} (failing : Fails (entries trees)) :
    Fails (expr (.object trees span)) := by
  intro context before result after leads
  obtain ⟨middle, inner, -⟩ := leads_object.mp leads
  exact failing _ _ _ _ inner

end Compiling

open Compiling

namespace Access

/-- Whatever becomes of the access, it does not compile. -/
def Fails : Access → Prop
  | .value tree => Compiling.Fails (expr tree)
  | .name _ _ => False
  | .element container key => Compiling.Fails (expr container) ∨ Compiling.Fails (expr key)

variable {access : Access}

theorem Fails.read (failing : access.Fails) : Compiling.Fails (expr access.read) := by
  cases access with
  | value tree => exact failing
  | name ident span => exact failing.elim
  | element container key => exact fails_element failing

theorem fails_stopBefore (access : Access) (error : CompileError) :
    Compiling.Fails (expr (access.stopBefore error)) := by
  cases access with
  | value tree => exact fails_element (.inr (fails_broken error))
  | name ident span => exact fails_assignName (fails_broken error)
  | element container key => exact fails_assignElement (.inr (.inr (fails_broken error)))

theorem Fails.settle (failing : access.Fails) (tokens : TokenStream) :
    Compiling.Fails (expr (access.settle tokens)) := by
  cases tokens with
  | token head rest => exact failing.read
  | ended position => exact failing.read
  | flawed error beyond => exact fails_stopBefore access error

end Access

namespace Parser

variable {access : Access} (limit : Nat)

theorem fails_brokenAccess (error : CompileError) : (brokenAccess error).1.Fails :=
  fails_broken error

theorem Infix.fails_apply {op : Infix} {left right : Expr}
    (failing : Fails (expr left) ∨ Fails (expr right)) : Fails (expr (op.apply left right)) := by
  cases op with
  | binary op => exact fails_binary failing
  | logical op => exact fails_logical failing

/-- Further operands do not mend an operand. -/
theorem fails_moreInfixes {fuel depth level : Nat} {tokens : TokenStream}
    (failing : access.Fails) : (moreInfixes limit fuel depth level access tokens).1.Fails := by
  induction fuel generalizing access tokens with
  | zero =>
      rw [moreInfixes]
      exact fails_brokenAccess _
  | succ fuel ih =>
      unfold moreInfixes
      split
      · split
        · exact failing
        · exact ih (Infix.fails_apply (.inl failing.read))
      · exact failing

/-- Further calls and accesses do not mend what they start with. -/
theorem fails_morePostfixes {fuel depth : Nat} {tokens : TokenStream} (failing : access.Fails) :
    (morePostfixes limit fuel depth access tokens).1.Fails := by
  induction fuel generalizing access tokens with
  | zero =>
      rw [morePostfixes]
      exact fails_brokenAccess _
  | succ fuel ih =>
      unfold morePostfixes
      split
      · exact ih (fails_call failing.read)
      · simp only
        split
        · exact fails_element (.inl (fails_element (.inl failing.read)))
        · exact ih (.inl failing.read)
      · split
        · exact fails_element (.inl failing.read)
        · exact ih (.inl failing.read)
      · exact failing

end Parser

end PocketScript
