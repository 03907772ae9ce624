import PocketScript.Proofs.Expression.Variables
import PocketScript.Proofs.Number.Small

/-!
# Compiled terms perform their evaluation

By recursion over the tree of a term: code that has the shape of the tree performs the evaluation of
the term (`Scene.performs_eval`).
-/

namespace PocketScript

open Environment

namespace Scene

variable {scene : Scene} {code : CompleteCode} {function : FunctionDef} {depth start stop : Nat}

/-- Zero and small positive whole numbers are part of their instruction. -/
theorem performs_zero (runs : scene.Runs code function) (holds : code.Holds start .pushZero)
    (room : code.HasRoom (depth + 1)) :
    scene.Performs code function depth [] start (pure (Value.ofNumber Number.zero))
      (fun result => [result]) fun _ => start + 1 :=
  performs_push (runs.decode holds (by decide) ⟨nofun, nofun⟩) nofun (runs.room room) rfl

theorem performs_small (runs : scene.Runs code function) {value : Number}
    (small : value.isIntegral ∧ 0 < value.truncated ∧ value.truncated ≤ 65535)
    (holds : code.Holds start .pushInt (UInt16.ofNat value.wholePart))
    (room : code.HasRoom (depth + 1)) :
    scene.Performs code function depth [] start (pure (Value.ofNumber value))
      (fun result => [result]) fun _ => start + 1 := by
  obtain ⟨integral, positive, bound⟩ := small
  obtain ⟨-, same⟩ := Number.truncated_of_pos positive
  refine performs_push (runs.decode holds ⟨nofun, fun _ => rfl⟩ ⟨nofun, nofun⟩) nofun
    (runs.room room) ?_
  change push (Value.ofNat (UInt16.ofNat value.wholePart).toNat) = _
  rw [UInt16.toNat_ofNat', Nat.mod_eq_of_lt (by omega), Value.ofNat,
    Number.ofNat_wholePart integral positive bound, Value.ofNumber,
    Number.isNaN_of_isIntegral integral]
  rfl

/-- The left operand of a logical operator decides, or the right one does. -/
theorem performs_logical (runs : scene.Runs code function) {op : LogicalOp} {middle : Nat}
    {left right : Action Value}
    (one : scene.Performs code function depth [] start left (fun result => [result])
      fun _ => middle)
    (jumps : code.Jumps middle op.jump stop) (inside : stop ≤ code.assembler.pending.size)
    (two : scene.Performs code function depth [] (middle + 1) right (fun result => [result])
      fun _ => stop) :
    scene.Performs code function depth [] start
      (do
        let left ← left
        if (← view (·.isTruthy left)) = op.decides then return left
        else
          release left
          right)
      (fun result => [result]) fun _ => stop := by
  refine one.bind fun value => ?_
  have split : (do
      if (← view (·.isTruthy value)) = op.decides then return value
      else
        release value
        right : Action Value) =
      decided op value >>= fun decides => if decides then pure value else right := by
    unfold decided
    rw [bind_assoc]
    congr 1
    funext truthy
    split
    · rfl
    · rw [bind_assoc]
      rfl
  rw [split]
  refine (performs_decided runs jumps inside).bind fun decides => ?_
  cases decides with
  | false => exact two
  | true => exact performs_pure value rfl rfl

theorem length_evalAll {terms : List Term} {env after : Environment} {values : List Value}
    (done : Term.evalAll scene terms env = (.ok values, after)) :
    values.length = terms.length := by
  induction terms generalizing env after values with
  | nil =>
      cases done
      rfl
  | cons first rest ih =>
      rw [Term.evalAll] at done
      obtain ⟨value, middle, -, done⟩ := action_bind_eq_ok.mp done
      obtain ⟨others, last, evaluated, done⟩ := action_bind_eq_ok.mp done
      cases done
      rw [List.length_cons, List.length_cons, ih evaluated]

theorem keys_evalProperties {properties : List Property} {env after : Environment}
    {values : List (String × Value)}
    (done : Term.evalProperties scene properties env = (.ok values, after)) :
    values.map (·.1) = properties.map Property.key := by
  induction properties generalizing env after values with
  | nil =>
      cases done
      rfl
  | cons first rest ih =>
      obtain ⟨key, term⟩ := first
      rw [Term.evalProperties] at done
      obtain ⟨value, middle, -, done⟩ := action_bind_eq_ok.mp done
      obtain ⟨others, last, evaluated, done⟩ := action_bind_eq_ok.mp done
      cases done
      rw [List.map_cons, List.map_cons, ih evaluated]
      rfl

/-- Actions one behind the other may be grouped. -/
theorem Performs.regroup {α β γ : Type} {taken : List Value} {one : Action α} {two : α → Action β}
    {three : β → Action γ} {results : γ → List Value} {ends : γ → Nat}
    (performs : scene.Performs code function depth taken start
      ((one >>= two) >>= three) results ends) :
    scene.Performs code function depth taken start
      (one >>= fun result => two result >>= three) results ends := by
  rw [← bind_assoc]
  exact performs

theorem length_denotesAll {terms : List Term} {trees : List Expr}
    (denotes : Term.DenotesAll terms trees) : trees.length = terms.length := by
  induction terms generalizing trees with
  | nil =>
      cases denotes
      rfl
  | cons first rest ih =>
      cases denotes with
      | cons one others => rw [List.length_cons, List.length_cons, ih others]

/-- Every key has a string constant in the code. -/
theorem isString_of_entries {properties : List Property} {entries : List Entry}
    (denotes : Term.DenotesProperties properties entries)
    (layout : code.EntriesAt depth entries start stop) :
    entries.length = properties.length ∧
      ∀ key ∈ properties.map Property.key, ∃ constant, code.isString constant key := by
  induction properties generalizing entries depth start with
  | nil =>
      cases denotes
      exact ⟨rfl, nofun⟩
  | cons first rest ih =>
      cases denotes with
      | cons one others =>
          cases layout with
          | cons holds is value layout =>
              obtain ⟨length, known⟩ := ih others layout
              refine ⟨by rw [List.length_cons, List.length_cons, length], fun key member => ?_⟩
              rcases List.mem_cons.mp member with rfl | member
              · exact ⟨_, is⟩
              · exact known key member

mutual

/-- Code that has the shape of a term's tree performs the evaluation of the term. -/
theorem performs_eval (runs : scene.Runs code function) {depth start stop : Nat} {term : Term}
    {tree : Expr} (denotes : term.Denotes tree) (layout : code.ExprAt depth tree start stop) :
    scene.Performs code function depth [] start (term.eval scene) (fun result => [result])
      fun _ => stop := by
  cases denotes with
  | literal =>
      cases layout with
      | literal holds room => exact performs_literal runs holds room
  | number =>
      cases layout with
      | zero holds room => exact performs_zero runs holds room
      | small small holds room => exact performs_small runs small holds room
      | number holds is room => exact performs_number runs holds is room
  | string =>
      cases layout with
      | string holds is room => exact performs_string runs holds is room
  | «variable» =>
      cases layout with
      | name resolves holds room => exact performs_load runs resolves holds room
  | unary operand =>
      cases layout with
      | unary inner holds =>
          exact (performs_eval runs operand inner).bind fun value =>
            performs_unary runs holds inner.bounds.2.2
  | binary left right =>
      cases layout with
      | binary first second holds =>
          exact (performs_eval runs left first).bind fun value =>
            ((performs_eval runs right second).below [value]).bind fun other =>
              performs_binary runs holds first.bounds.2.2
  | logical left right =>
      cases layout with
      | logical first jumps second =>
          exact performs_logical runs (performs_eval runs left first) jumps second.bounds.2.1
            (performs_eval runs right second)
  | conditional condition whenTrue whenFalse =>
      cases layout with
      | conditional test jumps first jumpsOver second =>
          have inside := second.bounds
          refine (performs_eval runs condition test).bind fun value =>
            (performs_test runs jumps (by omega)).bind fun truthy => ?_
          cases truthy with
          | true =>
              exact (performs_eval runs whenTrue first).jumped runs jumpsOver inside.2.1
          | false => exact performs_eval runs whenFalse second
  | @assign name op value span tree inner =>
      cases layout with
      | assignName resolves layout stores =>
          exact (performs_eval runs inner layout).bind fun value =>
            performs_store runs resolves stores
      | updateName resolves loads room layout holds stores =>
          refine (performs_load runs resolves loads room).bind fun old => ?_
          refine ((performs_eval runs inner layout).below [old]).bind fun value => ?_
          exact (performs_binary runs holds room).bind fun value =>
            performs_store runs resolves stores
  | assignElement container key value =>
      cases layout with
      | assignElement first second third holds =>
          refine (performs_eval runs container first).bind fun container => ?_
          refine ((performs_eval runs key second).below [container]).bind fun key => ?_
          exact ((performs_eval runs value third).below [container, key]).bind fun value =>
            performs_setElement runs holds first.bounds.2.2
      | @updateElement _ _ _ op _ _ _ _ _ first second dup room get third apply set =>
          refine (performs_eval runs container first).bind fun container => ?_
          refine ((performs_eval runs key second).below [container]).bind fun key => ?_
          have held := room.mono (show depth + 2 + 1 ≤ depth + 4 by omega)
          refine Performs.regroup ((performs_dup2 runs dup room).bind fun _ => ?_)
          refine ((performs_element runs get held).below [container, key]).bind fun old => ?_
          refine ((performs_eval runs value third).below [container, key, old]).bind fun value => ?_
          refine ((performs_binary runs apply held).below [container, key]).bind fun value => ?_
          exact performs_setElement runs set first.bounds.2.2
  | element container key =>
      cases layout with
      | element first second holds =>
          exact (performs_eval runs container first).bind fun value =>
            ((performs_eval runs key second).below [value]).bind fun other =>
              performs_element runs holds first.bounds.2.2
  | array items =>
      cases layout with
      | array layout few holds room =>
          refine (performs_evalAll runs items layout).bindGiven fun values given => ?_
          obtain ⟨env, after, done⟩ := given
          refine performs_array runs holds ?_ room
          rw [length_evalAll done, ← length_denotesAll items, UInt16.toNat_ofNat',
            Nat.mod_eq_of_lt (by omega)]
  | @object properties _ _ denotes =>
      cases layout with
      | object layout few holds room =>
          refine (performs_evalProperties runs denotes layout).bindGiven fun values given => ?_
          obtain ⟨env, after, done⟩ := given
          obtain ⟨length, known⟩ := isString_of_entries denotes layout
          have keys := keys_evalProperties done
          have count := congrArg List.length keys
          rw [List.length_map, List.length_map] at count
          refine performs_object runs holds ?_ (fun property member => ?_) room
          · rw [count, ← length, UInt16.toNat_ofNat', Nat.mod_eq_of_lt (by omega)]
          · apply known
            rw [← keys]
            exact List.mem_map_of_mem member

theorem performs_evalAll (runs : scene.Runs code function) {depth start stop : Nat}
    {terms : List Term} {trees : List Expr} (denotes : Term.DenotesAll terms trees)
    (layout : code.ExprsAt depth trees start stop) :
    scene.Performs code function depth [] start (Term.evalAll scene terms) (fun values => values)
      fun _ => stop := by
  cases denotes with
  | nil =>
      cases layout
      exact performs_pure [] rfl rfl
  | cons first rest =>
      cases layout with
      | cons one others =>
          refine (performs_eval runs first one).bind fun value => ?_
          exact ((performs_evalAll runs rest others).below [value]).bind fun values =>
            performs_pure (value :: values) rfl rfl

theorem performs_evalProperties (runs : scene.Runs code function) {depth start stop : Nat}
    {properties : List Property} {entries : List Entry}
    (denotes : Term.DenotesProperties properties entries)
    (layout : code.EntriesAt depth entries start stop) :
    scene.Performs code function depth [] start (Term.evalProperties scene properties)
      (fun values => scene.keyed values) fun _ => stop := by
  cases denotes with
  | nil =>
      cases layout
      exact performs_pure [] rfl rfl
  | @cons key _ _ _ _ _ first rest =>
      cases layout with
      | cons holds is one others =>
          have room := one.bounds.2.2.mono (Nat.le_succ (depth + 1))
          rw [Term.evalProperties, ← pure_bind (scene.constant key)
            fun _ => Term.eval scene _ >>= _]
          refine (performs_string runs holds is room).bindGiven fun constant given => ?_
          obtain ⟨env, after, done⟩ := given
          cases done
          refine ((performs_eval runs first one).below [scene.constant key]).bind fun value => ?_
          exact ((performs_evalProperties runs rest others).below
            [scene.constant key, value]).bind fun values =>
              performs_pure ((key, value) :: values) rfl rfl

end

end Scene

end PocketScript
