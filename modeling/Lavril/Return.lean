import Lavril.CallTarget
import Lavril.Compiler
import Lavril.Machine

/-!
# The value of a return statement

`RETURN` is added after the code of its expression. The optimiser may turn a
`CALL` before it into a `TAILCALL`, whose callee answers for the function, or
let it take the place of a `CLOSE`. The function still returns the value of the
register `RETURN` reads exactly when that register is the target of such a call.
-/

namespace Lavril

open LVCompiler LVVM

section

variable {v v₁ v₂ v₃ : LVVM} {ci : CallInfo} {rest : List CallInfo}

/-- `RETURN` of a register delivers the register. -/
theorem return_delivers {arg0 : Nat} {arg1 : Int} (frame : v.callsstack = ci :: rest)
    (notRoot : ci.root = false) (target : ci.target ≠ -1) (below : ci.target < ci.prevtop)
    (ret : v.return_ arg0 arg1 = some v₁) :
    v₁.stack (v.stackbase - ci.prevstkbase + ci.target) = v.resultValue arg0 arg1 := by
  obtain ⟨-, -, stack⟩ := return_with_target frame notRoot target ret
  rw [stack _ (by omega), if_pos rfl]

/-- The frame of a tail call is the frame of its caller. -/
theorem startCall_tail {clo : LVObject} {closure : LVClosure} {target : Int} {args : Nat}
    {newbase : Int} (frame : v.callsstack = ci :: rest)
    (plain : closure.function.bgenerator = false)
    (run : v.startCall clo closure target args newbase true = some v₁) :
    v₁.stackbase = newbase ∧ ∃ ci₁, v₁.callsstack = ci₁ :: rest ∧
      ci₁.linkage = (ci.prevstkbase, ci.prevtop, target, ci.root) := by
  simp only [startCall, startFrame, plain, Bool.false_eq_true, if_false, Option.bind_eq_bind,
    Option.bind_eq_some_iff, Option.pure_def, Option.some.injEq] at run
  obtain ⟨called, ⟨bound, bind, entered, enter, rfl⟩, rfl⟩ := run
  obtain ⟨same, -⟩ := bindParameters_spec bind
  have calls : (bound.setEnv closure.env newbase).callsstack = ci :: rest := by
    rw [setEnv_callsstack, same.callsstack, frame]
  have entry : entered.stackbase = newbase ∧
      entered.callsstack = { ci with ncalls := ci.ncalls + 1 } :: rest := by
    simp only [enterFrame, calls, if_true, Option.bind_some] at enter
    split at enter
    · split at enter
      · cases enter
      · cases enter
        exact ⟨rfl, rfl⟩
    · cases enter
      exact ⟨rfl, rfl⟩
  refine ⟨entry.1, _, by simp only [entry.2, List.modifyHead_cons]; rfl, rfl⟩

/-- What the callee of a tail call returns is delivered where the caller's own
`RETURN` would have delivered its value. -/
theorem tailcall_delivers {i : LVInstruction} {k : LVClosure} {arg0 : Nat} {arg1 : Int}
    (frame : v.callsstack = ci :: rest) (notRoot : ci.root = false) (target : ci.target ≠ -1)
    (below : ci.target < ci.prevtop)
    (callee : v.lookup (v.register i.arg1) = some (.closure k))
    (plain : k.function.bgenerator = false) (call : v.tailcallOp i = some (.script, v₁))
    (body : Body .script v₁ v₂) (ret : v₂.return_ arg0 arg1 = some v₃) :
    v₃.stack (v.stackbase - ci.prevstkbase + ci.target) = v₂.resultValue arg0 arg1 := by
  simp only [tailcallOp, callee, frame, plain, Bool.false_eq_true, if_false,
    Option.map_eq_some_iff, Prod.mk.injEq, true_and] at call
  obtain ⟨_, start, rfl⟩ := call
  obtain ⟨base, ci₁, frames, linkage⟩ :=
    @startCall_tail _ _ ci rest _ _ _ _ _ (by exact frame) plain start
  obtain ⟨ci₂, rest₂, frame₂, linkage₂⟩ := body.frame frames
  rw [linkage] at linkage₂
  simp only [CallInfo.linkage, Prod.mk.injEq] at linkage₂
  obtain ⟨eqBase, eqTop, eqTarget, eqRoot⟩ := linkage₂
  have delivered := return_delivers frame₂ (eqRoot.trans notRoot) (by rwa [eqTarget])
    (by rwa [eqTarget, eqTop]) ret
  rwa [body.stackbase, base, eqBase, eqTarget] at delivered

end

/-! ## Straight code with calls -/

section

-- what a call returns, given the callee and the arguments
variable (Call : LVObject → List LVObject → LVObject)

/-- The value of the call `i`. -/
def callValue (i : LVInstruction) (regs : Registers) : LVObject :=
  Call (regs i.arg1.toNat) ((List.range i.arg3).map fun n => regs (i.arg2 + n))

/-- A call leaves its value in its target. -/
def afterCall (i : LVInstruction) (regs : Registers) : Registers :=
  if i.arg0 ≠ 0xFF then Function.update regs i.arg0 (callValue Call i regs) else regs

/-- The registers after calls and `CLOSE`s. -/
def registersAfter : List LVInstruction → Registers → Option Registers
  | [], regs => some regs
  | i :: code, regs =>
    match i.op with
    | .OP_CALL => registersAfter code (afterCall Call i regs)
    | .OP_CLOSE => registersAfter code regs
    | _ => none

/-- What code of calls and `CLOSE`s returns; `script` tells the script functions
that are no generators. -/
def resultOf (script : LVObject → Bool) : List LVInstruction → Registers → Option LVObject
  | [], _ => none
  | i :: code, regs =>
    match i.op with
    | .OP_RETURN => some (if i.arg0 ≠ 0xFF then regs i.arg1.toNat else .null)
    | .OP_TAILCALL =>
      if script (regs i.arg1.toNat) then some (callValue Call i regs)
      else resultOf script code (afterCall Call i regs)
    | .OP_CALL => resultOf script code (afterCall Call i regs)
    | .OP_CLOSE => resultOf script code regs
    | _ => none

end

/-- How far two pieces of code are the same. -/
def agreement : List LVInstruction → List LVInstruction → Nat
  | i :: s, j :: t => if i = j then agreement s t + 1 else 0
  | _, _ => 0

theorem agreement_append (s t : List LVInstruction) : agreement s (s ++ t) = s.length := by
  induction s with
  | nil => cases t <;> rfl
  | cons i s ih => simp [agreement, ih]

theorem agreement_differ (s : List LVInstruction) {i j : LVInstruction} (ne : i ≠ j)
    (t u : List LVInstruction) : agreement (s ++ i :: t) (s ++ j :: u) = s.length := by
  induction s with
  | nil => simp [agreement, ne]
  | cons k s ih => simp [agreement, ih]

/-- `after` is `before` with a `RETURN` of the register `r` added. From the place
where the two differ, `after` returns the value `r` has after `before`. -/
def ReturnFollows (before after : FunctionState) (r : Nat) : Prop :=
  let differ := agreement before.instructions after.instructions
  ∀ Call script regs regs',
    registersAfter Call (before.instructions.drop differ) regs = some regs' →
    resultOf Call script (after.instructions.drop differ) regs = some (regs' r)

/-- A call that answers for the `return` of `r` has `r` as its target. -/
def AnswersReturn (fs : FunctionState) (r : Nat) : Prop :=
  ∀ pi, fs.optimization = true → fs.instructions.getLast? = some pi → fs.parent = true →
    pi.op = .OP_CALL → fs.returnexp < (fs.instructions.length : Int) - 1 → pi.arg0 = r ∧ r ≠ 0xFF

theorem returnFollows_appended {before after : FunctionState} {r : Nat} (size : Int)
    (h : after.instructions = before.instructions ++ [instruction .OP_RETURN 1 r size]) :
    ReturnFollows before after r := by
  intro Call script regs regs' run
  rw [h, agreement_append] at run ⊢
  rw [List.drop_length] at run
  cases run
  simp [resultOf, instruction, uchar]

theorem returnFollows_closed {before after : FunctionState} {r : Nat} (size : Int)
    {code : List LVInstruction} {pi : LVInstruction} (close : pi.op = .OP_CLOSE)
    (hb : before.instructions = code ++ [pi])
    (ha : after.instructions = code ++ [instruction .OP_RETURN 1 r size]) :
    ReturnFollows before after r := by
  have ne : pi ≠ instruction .OP_RETURN 1 r size := by
    rintro rfl
    cases close
  intro Call script regs regs' run
  rw [hb, ha, agreement_differ code ne, List.drop_left] at run ⊢
  simp only [registersAfter, close, Option.some.injEq] at run
  subst run
  simp [resultOf, instruction, uchar]

/-- A call that was turned into a tail call. -/
theorem returnFollows_answered {before after : FunctionState} {r : Nat} (size : Int)
    {code : List LVInstruction} {pi : LVInstruction} (call : pi.op = .OP_CALL)
    (hb : before.instructions = code ++ [pi])
    (ha : after.instructions =
      code ++ [{ pi with op := .OP_TAILCALL }, instruction .OP_RETURN 1 r size]) :
    ReturnFollows before after r ↔ pi.arg0 = r ∧ r ≠ 0xFF := by
  have ne : pi ≠ { pi with op := .OP_TAILCALL } := by
    intro eq
    have op := congrArg LVInstruction.op eq
    rw [call] at op
    cases op
  have differ : agreement before.instructions after.instructions = code.length := by
    rw [hb, ha, agreement_differ code ne]
  have rest : before.instructions.drop code.length = [pi] := by rw [hb, List.drop_left]
  constructor
  · intro follows
    -- the callee returns 1 and every register holds null
    have same := follows (fun _ _ => .integer 1) (fun _ => true) (fun _ => .null) _
      (by rw [differ, rest, registersAfter, call]; rfl)
    rw [differ, ha, List.drop_left] at same
    simp only [resultOf, if_true, callValue, Option.some.injEq, afterCall] at same
    by_contra other
    split at same
    · rename_i stored
      by_cases eq : r = pi.arg0
      · exact other ⟨eq.symm, eq ▸ stored⟩
      · rw [Function.update_of_ne eq] at same
        cases same
    · cases same
  · rintro ⟨rfl, stored⟩ Call script regs regs' run
    rw [differ, rest] at run
    simp only [registersAfter, call, Option.some.injEq] at run
    subst run
    rw [differ, ha, List.drop_left]
    by_cases tail : script (regs pi.arg1.toNat) = true
    · simp [resultOf, tail, afterCall, stored, callValue]
    · simp [resultOf, tail, instruction, uchar]
      rfl

/-- `return e` up to the addition of its `RETURN`, with the register it reads. -/
def returnValue (e : CommaExpr) : CompilerM Nat := do
  let retexp ← getCurrentPos
  commaExpr e
  let fs := (← get).fs
  if fs.traps > 0 then addInstruction .OP_POPTRAP fs.traps 0
  updateFs ({ · with returnexp := retexp + 1 })
  popTarget

theorem return_eq (closeframe : Bool) (e : CommaExpr) :
    statementKind closeframe (.return (some e)) = (do
      let src ← returnValue e
      addInstruction .OP_RETURN 1 src (← get).fs.getStackSize) := by
  simp only [statementKind, emitReturn, returnValue, bind_assoc, true_and]
  refine bind_congr fun _ => bind_congr fun _ => bind_congr fun c => ?_
  split <;> simp only [bind_assoc]

/-- What the optimiser does to a `RETURN` of a register. -/
theorem rewriting_return (fs : FunctionState) (pi : LVInstruction) (r size : Nat) :
    fs.rewriting pi (instruction .OP_RETURN 1 r size) =
      if fs.parent = true ∧ pi.op = .OP_CALL ∧ fs.returnexp < (fs.instructions.length : Int) - 1
      then .both { pi with op := .OP_TAILCALL } (instruction .OP_RETURN 1 r size)
      else if pi.op = .OP_CLOSE then .merged (instruction .OP_RETURN 1 r size) true
      else .both pi (instruction .OP_RETURN 1 r size) := by
  have value : uchar 1 ≠ MAX_FUNC_STACKSIZE := by decide
  simp only [FunctionState.rewriting, instruction, ne_eq, value, not_false_eq_true, true_and]

theorem addReturn_answers {fs : FunctionState} (r size : Nat) :
    ReturnFollows fs (fs.addInstruction (instruction .OP_RETURN 1 r size)) r ↔
      AnswersReturn fs r := by
  cases hopt : fs.optimization with
  | false =>
    refine iff_of_true (returnFollows_appended size ?_) fun pi on => by simp [hopt] at on
    rw [fs.addInstruction_off _ hopt]
    rfl
  | true =>
    cases hlast : fs.instructions.getLast? with
    | none =>
      refine iff_of_true (returnFollows_appended size ?_) fun pi _ last => ?_
      · rw [fs.addInstruction_first _ hlast]
        rfl
      · simp [hlast] at last
    | some pi =>
      obtain ⟨code, split_last⟩ := List.getLast?_eq_some_iff.mp hlast
      have front : fs.instructions.dropLast = code := by rw [split_last, List.dropLast_concat]
      by_cases merged : fs.parent = true ∧ pi.op = .OP_CALL ∧
          fs.returnexp < (fs.instructions.length : Int) - 1
      · rw [returnFollows_answered size merged.2.1 split_last]
        · constructor
          · intro answers other _ last _ _ _
            rw [hlast] at last
            cases last
            exact answers
          · intro answers
            exact answers pi hopt hlast merged.1 merged.2.1 merged.2.2
        · simp only [fs.addInstruction_on _ hopt hlast, rewriting_return, if_pos merged, front]
      · have answers : AnswersReturn fs r := by
          intro other _ last parent call before
          rw [hlast] at last
          cases last
          exact absurd ⟨parent, call, before⟩ merged
        refine iff_of_true ?_ answers
        by_cases close : pi.op = .OP_CLOSE
        · refine returnFollows_closed size close split_last ?_
          simp only [fs.addInstruction_on _ hopt hlast, rewriting_return, if_neg merged,
            if_pos close, front]
        · refine returnFollows_appended size ?_
          simp only [fs.addInstruction_on _ hopt hlast, rewriting_return, if_neg merged,
            if_neg close, front]
          simp [split_last]

/-- `return e₁, …, eₙ` returns the value of `eₙ` exactly when the call its `RETURN`
is merged with, if there is one, is the call that gives this value. -/
theorem return_value_iff (closeframe : Bool) (e : CommaExpr) {c before after : LVCompiler}
    {r : Nat} (value : returnValue e c = .ok (r, before))
    (compiled : statementKind closeframe (.return (some e)) c = .ok ((), after)) :
    ReturnFollows before.fs after.fs r ↔ AnswersReturn before.fs r := by
  rw [return_eq] at compiled
  obtain ⟨_, _, value₂, compiled⟩ := bind_ok.mp compiled
  rw [value] at value₂
  cases value₂
  obtain ⟨_, _, ⟨⟩, ⟨⟩⟩ := bind_ok.mp compiled
  exact addReturn_answers r before.fs.getStackSize

instance (fs : FunctionState) (r : Nat) : Decidable (AnswersReturn fs r) :=
  match last : fs.instructions.getLast? with
  | none => .isTrue fun pi _ some_last => by simp [last] at some_last
  | some pi => decidable_of_iff (fs.optimization = true → fs.parent = true → pi.op = .OP_CALL →
      fs.returnexp < (fs.instructions.length : Int) - 1 → pi.arg0 = r ∧ r ≠ 0xFF) (by
    constructor
    · intro answers other on some_last
      rw [last] at some_last
      cases some_last
      exact answers on
    · intro answers on
      exact answers pi on last)

/-- `function (f, x) { return f(), x; }` -/
def returnComma : FunctionDef :=
  .simple ["f", "x"]
    [.return (some (.cons (.plain (.prefixed (.mk (.identifier "f") [.call []] none)))
      (.last (.name "x"))))]

/-- It returns what `f` returns, here 1, and not `x`, here null. -/
theorem returnComma_returns_call :
    (compileFunction returnComma).map (fun p =>
      resultOf (fun _ _ => .integer 1) (fun _ => true) (p.instructions.drop 1)
        (Frame.run (fun _ _ => none) p.literals p.instructions 1 ⟨0, fun _ => .null⟩).regs) =
      some (some (.integer 1)) := by
  decide +kernel

/-- `return x, f()` returns what `f` returns. -/
theorem return_call_last :
    match returnValue (.cons (.name "x")
        (.last (.plain (.prefixed (.mk (.identifier "f") [.call []] none))))) (bodyState ["f", "x"]),
      statementKind true (.return (some (.cons (.name "x")
        (.last (.plain (.prefixed (.mk (.identifier "f") [.call []] none))))))) (bodyState ["f", "x"]) with
    | .ok (r, before), .ok (_, after) => ReturnFollows before.fs after.fs r
    | _, _ => False := by
  have answers : (match returnValue (.cons (.name "x")
        (.last (.plain (.prefixed (.mk (.identifier "f") [.call []] none))))) (bodyState ["f", "x"]),
      statementKind true (.return (some (.cons (.name "x")
        (.last (.plain (.prefixed (.mk (.identifier "f") [.call []] none))))))) (bodyState ["f", "x"]) with
    | .ok (r, before), .ok (_, after) => decide (AnswersReturn before.fs r)
    | _, _ => false) = true := by decide +kernel
  split at answers
  · rename_i value compiled
    exact (return_value_iff true _ value compiled).mpr (of_decide_eq_true answers)
  · cases answers

end Lavril
