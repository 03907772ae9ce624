import PocketScript.Proofs.Environment.Accounts

/-!
# Callees, arguments and results

A function is entered while its callee lies below the arguments. The arguments it expects become its
first variables where they are, the others are given up, and further variables are undefined
(`Environment.toList_laidOut`). When the function is left, the result takes the place of the callee
and of all that lies above it (`Environment.leaveFunction_of`). The accounts stay in order
(`Environment.KeepsAccounts`).
-/

namespace PocketScript

namespace Environment

variable {env before after : Environment} {trusted : Prop} {below above args : List Value}
  {callee : Value} {others : List Reference} {argCount varCount : Nat}

/-! ## Entering -/

/-- The values of a function's variables in front of its first instruction. -/
def initialVariables (args : List Value) (argCount varCount : Nat) : List Value :=
  args.take argCount ++ List.replicate (varCount - min argCount args.length) .undefined

theorem length_initialVariables (few : argCount ≤ varCount) :
    (initialVariables args argCount varCount).length = varCount := by
  unfold initialVariables
  rw [List.length_append, List.length_replicate, List.length_take]
  omega

section Entering

variable (stack : env.stack.toList = below ++ callee :: args)

include stack

/-- The callee and the arguments that are expected. -/
theorem toList_expected (argCount : Nat) :
    (env.stack.shrink (below.length + 1 + argCount)).toList =
      below ++ callee :: args.take argCount := by
  rw [Array.toList_shrink, stack, Nat.add_assoc, List.take_length_add_append, Nat.add_comm 1,
    List.take_succ_cons]

/-- The arguments that are not. -/
theorem toList_surplus (argCount : Nat) :
    (env.stack.extract (below.length + 1 + argCount)).toList = args.drop argCount := by
  rw [toList_extract_from, stack, Nat.add_assoc, List.drop_length_add_append, Nat.add_comm 1,
    List.drop_succ_cons]

/-- What lies on the stack in front of the first instruction of a function. -/
theorem toList_laidOut (argCount varCount : Nat) :
    (env.laidOut (below.length + 1) argCount varCount).stack.toList =
      below ++ callee :: initialVariables args argCount varCount := by
  have kept := toList_expected stack argCount
  have missing : below.length + 1 + varCount -
      (env.stack.shrink (below.length + 1 + argCount)).size =
        varCount - min argCount args.length := by
    rw [← Array.length_toList, kept, List.length_append, List.length_cons, List.length_take]
    omega
  rw [stack_laidOut, Array.toList_append, kept, missing, Array.toList_replicate, initialVariables,
    List.append_assoc, List.cons_append]

theorem heap_laidOut (argCount varCount : Nat) :
    (env.laidOut (below.length + 1) argCount varCount).heap =
      env.heap.releaseAll (args.drop argCount).reverse := by
  rw [← toList_surplus stack argCount]
  rfl

theorem laidOut_of_args (argCount varCount : Nat) :
    env.laidOut (below.length + 1) argCount varCount =
      { env with
        stack := (below ++ callee :: initialVariables args argCount varCount).toArray
        heap := env.heap.releaseAll (args.drop argCount).reverse } := by
  have values := Array.toList_inj.mp (toList_laidOut stack argCount varCount)
  rw [laidOut_eq, heap_laidOut stack, values]

/-- The surplus arguments no longer count, and all others do as before. -/
theorem balanced_laidOut (argCount varCount : Nat)
    (balanced : env.Balanced trusted (args.map .value ++ others)) :
    (env.laidOut (below.length + 1) argCount varCount).Balanced trusted
      ((initialVariables args argCount varCount).map .value ++ others) := by
  have parted : env.Balanced trusted ((args.drop argCount).reverse.map .value ++
      ((args.take argCount).map .value ++ others)) := by
    refine balanced.perm (perm_of_count fun reference => ?_)
    have reversed := ((args.drop argCount).reverse_perm.map Reference.value).count_eq reference
    have split := congrArg (fun list => (list.map Reference.value).count reference)
      (List.take_append_drop argCount args)
    simp only [List.map_append, List.count_append] at reversed split ⊢
    omega
  unfold Balanced at parted
  rw [List.append_assoc] at parted
  have released := parted.releaseAll.addUndefined (varCount - min argCount args.length)
  rw [← heap_laidOut stack argCount varCount] at released
  refine released.perm (perm_of_count fun reference => ?_)
  have kept : (env.laidOut (below.length + 1) argCount varCount).kept =
    env.kept := rfl
  simp only [initialVariables, kept, List.map_append, List.count_append]
  omega

end Entering

/-- A value is put on top. -/
theorem push_of_room (value : Value) (room : env.stack.size < env.config.stackSize) :
    push value env =
      (.ok (), { env with stack := env.stack.push value }) := by
  rw [push_eq, if_pos room]

/-- As long as there is room, values can be put on top of each other. -/
theorem pushEach_of_room (values : List Value) (env : Environment)
    (room : env.stack.size + values.length ≤ env.config.stackSize) :
    (values.forM push : Action Unit) env =
      (.ok (), { env with stack := env.stack ++ values.toArray }) := by
  induction values generalizing env with
  | nil =>
      rw [Array.append_empty]
      rfl
  | cons value rest ih =>
      rw [List.length_cons] at room
      have first : env.stack.size < env.config.stackSize := by omega
      change (push value >>= fun _ => rest.forM push) env = _
      rw [action_bind_ok (push_of_room value first), ih]
      · rw [← Array.append_singleton, Array.append_assoc, List.append_toArray [value],
          List.singleton_append]
      · change (env.stack.push value).size + rest.length ≤ env.config.stackSize
        rw [Array.size_push]
        omega

/-! ## Leaving -/

section Leaving

variable (stack : env.stack.toList = below ++ above)

include stack

theorem stack_dropped : (env.dropped below.length).stack = below.toArray := by
  apply Array.toList_inj.mp
  change (env.stack.shrink below.length).toList = below
  rw [Array.toList_shrink, stack, List.take_left]

theorem heap_dropped :
    (env.dropped below.length).heap = env.heap.releaseAll above := by
  have taken : (env.stack.extract below.length).toList = above := by
    rw [toList_extract_from, stack, List.drop_left]
  change env.heap.releaseAll _ = _
  rw [taken]

/-- What is dropped no longer counts. -/
theorem balanced_dropped (balanced : env.Balanced trusted (above.map .value ++ others)) :
    (env.dropped below.length).Balanced trusted others := by
  unfold Balanced at balanced ⊢
  rw [heap_dropped stack]
  rw [List.append_assoc] at balanced
  exact balanced.releaseAll

/-- The result of a function takes the place of its callee. -/
theorem leaveFunction_of (result : Value) (room : below.length < env.config.stackSize) :
    leaveFunction (below.length + 1) result env =
      (.ok (), { env with
        stack := (below ++ [result]).toArray
        heap := env.heap.releaseAll above
        frames := env.frames.pop }) := by
  have bottom := stack_dropped stack
  have heap := heap_dropped stack
  rw [leaveFunction_eq, Nat.add_sub_cancel, push_of_room]
  · rw [← heap, ← List.push_toArray, ← bottom]
    rfl
  · change (env.dropped below.length).stack.size < env.config.stackSize
    rw [bottom]
    exact room

end Leaving

/-! ## Accounts -/

/-- When the values on the stack had all their references, and others did too, then they have them
still. -/
def KeepsAccounts (before after : Environment) : Prop :=
  ∀ trusted others, before.Balanced trusted (before.stack.toList.map .value ++ others) →
    after.Balanced trusted (after.stack.toList.map .value ++ others)

theorem keepsAccounts_entered {target : FunctionRef} {closure : Option Handle}
    (stack : env.stack.toList = below ++ callee :: args) (argCount varCount : Nat) :
    KeepsAccounts env
      { env.laidOut (below.length + 1) argCount varCount with
        frames := env.frames.push (entered target closure below.length) } := by
  intro trusted others balanced
  have parted : env.Balanced trusted
      (args.map .value ++ ((below ++ [callee]).map .value ++ others)) := by
    rw [stack] at balanced
    refine balanced.perm (perm_of_count fun reference => ?_)
    simp only [List.map_append, List.map_cons, List.map_nil, List.count_append, List.count_cons,
      List.count_nil]
    omega
  have laid := balanced_laidOut stack argCount varCount parted
  change (env.laidOut (below.length + 1) argCount varCount).Balanced trusted
    ((env.laidOut (below.length + 1) argCount varCount).stack.toList.map .value ++ others)
  rw [toList_laidOut stack]
  refine laid.perm (perm_of_count fun reference => ?_)
  simp only [List.map_append, List.map_cons, List.map_nil, List.count_append, List.count_cons,
    List.count_nil]
  omega

/-- The result was the topmost value, or it is undefined. -/
theorem keepsAccounts_left {given : List Value} {result : Value} {frames : Array Frame}
    (stack : env.stack.toList = below ++ (above ++ given))
    (gives : given = [result] ∨ given = [] ∧ result = .undefined) :
    KeepsAccounts env
      { env with
        stack := (below ++ [result]).toArray
        heap := env.heap.releaseAll above
        frames } := by
  intro trusted others balanced
  have parted : env.Balanced trusted
      (above.map .value ++ ((below ++ given).map .value ++ others)) := by
    rw [stack] at balanced
    refine balanced.perm (perm_of_count fun reference => ?_)
    simp only [List.map_append, List.count_append]
    omega
  unfold Balanced at parted
  rw [List.append_assoc] at parted
  have released := parted.releaseAll
  rcases gives with rfl | ⟨rfl, rfl⟩
  · exact released
  · refine (released.addUndefined 1).perm (perm_of_count fun reference => ?_)
    change _ = List.count reference
      ((below ++ [Value.undefined]).map Reference.value ++ others ++ env.kept)
    simp only [List.replicate_succ, List.replicate_zero, List.map_append, List.map_cons,
      List.map_nil, List.count_append, List.count_cons, List.count_nil]
    omega

end Environment

end PocketScript
