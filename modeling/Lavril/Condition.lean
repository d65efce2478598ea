import Lavril.Compiler
import Lavril.Machine

/-!
# Conditions

A condition is compiled and its value tested with `JZ`. While the optimiser is
on `JZ` is merged into a comparison that was emitted last, whichever register
that comparison writes: the branch is the right one exactly when it writes the
register `JZ` was to test.
-/

namespace Lavril

open LVCompiler

/-- What stands in the condition of `if`, `while`, `do` and `for`, or before `?`. -/
inductive Condition where
  | comma (e : CommaExpr)
  | test (e : LogicalOrExp)

def Condition.compile : Condition → CompilerM Unit
  | .comma e => commaExpr e
  | .test e => logicalOrExp .other e

/-- The code of `fs`, once the jump it ends in has its offset. -/
def FunctionState.patched (fs : FunctionState) (offset : Int) : List LVInstruction :=
  (fs.setArg1 (fs.instructions.length - 1) offset).instructions

/-- `after` is `before` with a test of register `r` added. Wherever the test is
reached, it branches on the value `r` has once the rest of `before` - at most the
instruction the test was merged with - has been executed. -/
def BranchFollows (before after : FunctionState) (r : Nat) : Prop :=
  ∀ Get literals offset (f f' : Frame), f.ip = (after.instructions.length - 1 : Nat) →
    (before.instructions.drop (after.instructions.length - 1)).foldlM
      (Frame.execNext Get literals) f = some f' →
    ((Frame.step Get literals (after.patched offset) f).map Frame.ip) =
      some (after.instructions.length + if isFalse (f'.regs r) then offset else 0)

/-- A comparison the machine can execute. -/
def Executable (pi : LVInstruction) : Prop :=
  0 ≤ pi.arg1 ∧ pi.arg3 ∈ [CMP_G, CMP_GE, CMP_L, CMP_LE, CMP_3W].map Int.toNat

/-- The test of `r` that `AddInstruction` emits after `fs` tests `r`: when it is
merged into a comparison the comparison writes `r`, and otherwise `r` fits the
eight bits of the operand. -/
def TestsRegister (fs : FunctionState) (r : Nat) : Prop :=
  match fs.optimization, fs.instructions.getLast? with
  | true, some pi =>
    if pi.op = .OP_CMP ∧ pi.arg1 < 0xFF then Executable pi → pi.arg0 = r else r < 256
  | _, _ => r < 256

instance (pi : LVInstruction) : Decidable (Executable pi) := inferInstanceAs (Decidable (_ ∧ _))

instance (fs : FunctionState) (r : Nat) : Decidable (TestsRegister fs r) := by
  unfold TestsRegister
  split <;> infer_instance

theorem patched_append (fs : FunctionState) {code : List LVInstruction} {i : LVInstruction}
    (h : fs.instructions = code ++ [i]) (offset : Int) :
    fs.patched offset = code ++ [{ i with arg1 := offset }] := by
  simp only [FunctionState.patched, FunctionState.setArg1, FunctionState.modifyInstruction, h]
  rw [List.length_append, List.length_singleton, Nat.add_sub_cancel,
    List.modify_eq_take_cons_drop (by simp)]
  simp

/-- A test that is an instruction of its own. -/
theorem branchFollows_appended {before after : FunctionState} {r : Nat} (a1 : Int)
    (h : after.instructions = before.instructions ++ [instruction .OP_JZ r a1]) :
    BranchFollows before after r ↔ r < 256 := by
  have last : after.instructions.length - 1 = before.instructions.length := by simp [h]
  have taken : ∀ Get literals offset (f : Frame), f.ip = before.instructions.length →
      ((Frame.step Get literals (after.patched offset) f).map Frame.ip) =
        some (after.instructions.length + if isFalse (f.regs (uchar r)) then offset else 0) := by
    intro Get literals offset f ip
    rw [patched_append after h, Frame.step_eq Get literals ip List.getElem?_concat_length]
    by_cases false_r : isFalse (f.regs (uchar r)) = true <;>
      simp [Frame.execNext, Frame.exec, instruction, Frame.jump, h, ip, false_r]
  constructor
  · intro follows
    by_contra big
    have other : uchar r ≠ r := by have := uchar_lt r; omega
    have same := follows (fun _ _ => none) [] 1
      ⟨before.instructions.length, fun n => if n = r then .integer 1 else .null⟩
      ⟨before.instructions.length, fun n => if n = r then .integer 1 else .null⟩
      (by rw [last]) (by rw [last, List.drop_length]; rfl)
    rw [taken _ _ _ _ rfl] at same
    simp only [if_neg other, if_pos] at same
    have truthy : isFalse (.integer 1) = false := by decide
    have falsy : isFalse .null = true := by decide
    rw [truthy, falsy] at same
    simp at same
  · intro lt Get literals offset f f' ip rest
    rw [last] at ip rest
    rw [List.drop_length] at rest
    obtain rfl := Option.some.inj rest
    rw [taken Get literals offset f ip, uchar_of_lt lt]

theorem popTarget_code {c c' : LVCompiler} {r : Nat} (h : popTarget c = .ok (r, c')) :
    c'.fs.instructions = c.fs.instructions ∧ c'.fs.optimization = c.fs.optimization := by
  simp only [popTarget, liftFs, FunctionState.popTarget] at h
  split at h
  · next run =>
    split at run
    · cases run
    · split at run
      · cases run
      · cases run
        cases h
        exact ⟨rfl, rfl⟩
  · cases h

theorem cmpOp_op {op : Nat} {a b o : LVObject} (h : cmpOp op a b = some o) :
    op ∈ [CMP_G, CMP_GE, CMP_L, CMP_LE, CMP_3W].map Int.toNat := by
  obtain ⟨r, _, h⟩ := Option.bind_eq_some_iff.mp h
  simp only [List.map_cons, List.map_nil, List.mem_cons, List.not_mem_nil, or_false]
  by_contra other
  simp only [not_or] at other
  simp [other] at h

/-- A test that was merged into the comparison `pi`. -/
theorem branchFollows_merged {before after : FunctionState} {r : Nat} (a1 : Int)
    {code : List LVInstruction} {pi : LVInstruction} (cmp : pi.op = .OP_CMP)
    (small : pi.arg1 < 0xFF) (hb : before.instructions = code ++ [pi])
    (ha : after.instructions =
      code ++ [{ pi with op := .OP_JCMP, arg0 := uchar pi.arg1, arg1 := a1 }]) :
    BranchFollows before after r ↔ (Executable pi → pi.arg0 = r) := by
  have last : after.instructions.length - 1 = code.length := by simp [ha]
  have rest : before.instructions.drop (after.instructions.length - 1) = [pi] := by
    rw [last, hb, List.drop_left]
  have compare : ∀ Get literals (f : Frame), 0 ≤ pi.arg1 → Frame.execNext Get literals f pi =
      (cmpOp pi.arg3 (f.regs pi.arg2) (f.regs pi.arg1.toNat)).map
        ({ f with ip := f.ip + 1 }.set pi.arg0) := by
    intro Get literals f pos
    simp [Frame.execNext, Frame.exec, cmp, not_lt.mpr pos]
  have taken : ∀ Get literals offset (f : Frame), f.ip = code.length → 0 ≤ pi.arg1 →
      ((Frame.step Get literals (after.patched offset) f).map Frame.ip) =
        (cmpOp pi.arg3 (f.regs pi.arg2) (f.regs pi.arg1.toNat)).map fun o =>
          after.instructions.length + if isFalse o then offset else 0 := by
    intro Get literals offset f ip pos
    have same : uchar pi.arg1 = pi.arg1.toNat := by unfold uchar; omega
    rw [patched_append after ha, Frame.step_eq Get literals ip List.getElem?_concat_length]
    simp only [Frame.execNext, Frame.exec, same, ha, List.length_append, List.length_singleton]
    cases cmpOp pi.arg3 (f.regs pi.arg2) (f.regs pi.arg1.toNat) with
    | none => rfl
    | some o =>
      by_cases false_o : isFalse o = true <;> simp [Frame.jump, ip, false_o]
  constructor
  · rintro follows ⟨pos, op⟩
    by_contra other
    -- all registers hold the same integer, so the comparison only depends on its kind
    obtain ⟨x, o, result, differ⟩ : ∃ (x : BitVec 64) (o : LVObject),
        cmpOp pi.arg3 (.integer x) (.integer x) = some o ∧
          isFalse o ≠ isFalse (.integer x) := by
      simp only [List.map_cons, List.map_nil, List.mem_cons, List.not_mem_nil, or_false] at op
      rcases op with op | op | op | op | op <;> rw [op]
      · exact ⟨1, .bool false, by decide, by decide⟩
      · exact ⟨0, .bool true, by decide, by decide⟩
      · exact ⟨1, .bool false, by decide, by decide⟩
      · exact ⟨0, .bool true, by decide, by decide⟩
      · exact ⟨1, .integer 0, by decide, by decide⟩
    have same := follows (fun _ _ => none) [] 1 ⟨code.length, fun _ => .integer x⟩
      (({ ip := code.length + 1, regs := fun _ => .integer x } : Frame).set pi.arg0 o)
      (by rw [last]) (by rw [rest, List.foldlM_cons, compare _ _ _ pos, result]; rfl)
    rw [taken _ _ _ _ rfl pos, result] at same
    simp only [Option.map_some, Frame.set, Function.update_of_ne (Ne.symm other)] at same
    cases ho : isFalse o <;> cases hx : isFalse (.integer x) <;> simp_all
  · intro follows Get literals offset f f' ip run
    rw [last] at ip
    have run : Frame.execNext Get literals f pi = some f' := by
      rw [rest, List.foldlM_cons] at run
      obtain ⟨g, exec, same⟩ := Option.bind_eq_some_iff.mp run
      rw [exec, Option.some.inj same]
    have pos : 0 ≤ pi.arg1 := by
      by_contra neg
      simp [Frame.execNext, Frame.exec, cmp, not_le.mp neg] at run
    rw [compare _ _ _ pos, Option.map_eq_some_iff] at run
    obtain ⟨o, result, rfl⟩ := run
    have target := follows ⟨pos, cmpOp_op result⟩
    rw [taken _ _ _ _ ip pos, result, Option.map_some]
    simp [Frame.set, target]

/-- What `if`, `while`, `do`, `for` and `?:` do first, with the state in which
the condition left the code and the register its value is in. -/
def testCondition (cond : Condition) (a1 : Int) : CompilerM (FunctionState × Nat) := do
  cond.compile
  let before ← get
  let r ← popTarget
  addInstruction .OP_JZ r a1
  return (before.fs, r)

/-- Every condition branches on the value of its last expression, exactly when
the test of that expression's register is not merged into a comparison that
writes another one. -/
theorem condition_branch_iff (cond : Condition) (a1 : Int) {c c' : LVCompiler}
    {before : FunctionState} {r : Nat}
    (compiled : testCondition cond a1 c = .ok ((before, r), c')) :
    BranchFollows before c'.fs r ↔ TestsRegister before r := by
  obtain ⟨_, c₁, _, compiled⟩ := bind_ok.mp compiled
  obtain ⟨_, _, ⟨⟩, compiled⟩ := bind_ok.mp compiled
  obtain ⟨r, c₂, last, compiled⟩ := bind_ok.mp compiled
  obtain ⟨_, c₃, ⟨⟩, compiled⟩ := bind_ok.mp compiled
  obtain ⟨⟨⟩, rfl⟩ := pure_ok.mp compiled
  obtain ⟨code, opt⟩ := popTarget_code last
  rw [TestsRegister]
  cases hopt : c₁.fs.optimization with
  | false =>
    refine branchFollows_appended a1 ?_
    simp [FunctionState.addInstruction, opt, hopt, FunctionState.pushInstruction, code]
  | true =>
    cases hlast : c₁.fs.instructions.getLast? with
    | none =>
      refine branchFollows_appended a1 ?_
      simp [FunctionState.addInstruction, opt, hopt, code, hlast, FunctionState.pushInstruction]
    | some pi =>
      obtain ⟨front, split_last⟩ := List.getLast?_eq_some_iff.mp hlast
      dsimp only
      split
      · next fused =>
        refine branchFollows_merged a1 fused.1 fused.2 split_last ?_
        simp [FunctionState.addInstruction, opt, hopt, code, FunctionState.rewriting,
          instruction, fused, split_last]
      · next separate =>
        refine branchFollows_appended a1 ?_
        simp [FunctionState.addInstruction, opt, hopt, code, FunctionState.rewriting,
          instruction, separate, split_last]

/-- `function (a, b, c, x) { if (a < b, c) x = 1; }` -/
def ifComma : FunctionDef :=
  .simple ["a", "b", "c", "x"]
    [.ifThen (.cons (.plain (.bin .lt (.name "a") (.name "b"))) (.last (.name "c")))
      (.single (.set "x" (.integer 1)))]

/-- With `a < b` and `c` false `x` is set: the branch does not look at `c`. -/
theorem ifComma_ignores_last :
    (compileFunction ifComma).map (fun p =>
      ((Frame.run (fun _ _ => none) p.literals p.instructions 2
        ⟨0, fun r => .integer (if r = 1 then 1 else if r = 2 then 2 else 0)⟩).regs 4)) =
      some (.integer 1) := by
  decide +kernel

/-- `(a + b, c)` is tested as it should be. -/
theorem add_before_last :
    match testCondition (.comma (.cons (.plain (.bin .add (.name "a") (.name "b")))
      (.last (.name "c")))) 0 (bodyState ["a", "b", "c"]) with
    | .ok ((before, r), c') => BranchFollows before c'.fs r
    | .error _ => False := by
  have tests : (match testCondition (.comma (.cons (.plain (.bin .add (.name "a") (.name "b")))
      (.last (.name "c")))) 0 (bodyState ["a", "b", "c"]) with
    | .ok ((before, r), _) => decide (TestsRegister before r)
    | .error _ => false) = true := by decide +kernel
  split at tests
  · next h => exact (condition_branch_iff _ _ h).mpr (of_decide_eq_true tests)
  · cases tests

end Lavril
