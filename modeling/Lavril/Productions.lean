import Lavril.Opening

/-!
# Every production is an emission

The triple of `Emits` for each function of the compiler, by recursion on the
derivation.
-/

namespace Lavril

open LVCompiler

section

variable {α β : Type} {lvl : Level} {b : Nat} {B C : List Nat}

/-! ## What the productions share -/

theorem emits_moveIfCurrentTargetIsLocal : Emits lvl b B C moveIfCurrentTargetIsLocal :=
  .seq emits_topTarget fun _ => .seq emits_isLocal fun _ => .ite
    (.seq emits_popTarget fun _ => .seq emits_pushTarget fun _ => emits_addInstruction rfl)
    (.pure trivial)

theorem opens_emitDerefOp {op : Opcode} (h : op.plain = true) :
    Opens lvl b B C (emitDerefOp op) :=
  .then emits_popTarget fun _ => .then emits_popTarget fun _ => .then emits_popTarget fun _ =>
    .then emits_pushTarget fun _ => opens_addInstruction h

theorem opens_emit2ArgsOP {op : Opcode} {p3 : Int}
    (h : op.plain = true) : Opens lvl b B C (emit2ArgsOP op p3) :=
  .then emits_popTarget fun _ => .then emits_popTarget fun _ => .then emits_pushTarget fun _ =>
    opens_addInstruction h

theorem opens_loadConstant {cons : LVObject} : Opens lvl b B C (loadConstant cons) :=
  .then emits_pushTarget fun _ => .then emits_getConstant fun _ => opens_addInstruction rfl

theorem opens_emitLoadConstInt {value : Int} {target : Nat} :
    Opens lvl b B C (emitLoadConstInt value target) :=
  .ite (opens_addInstruction rfl) (.then emits_getConstant fun _ => opens_addInstruction rfl)

theorem opens_emitLoadConstFloat {bits : Int} {target : Nat} :
    Opens lvl b B C (emitLoadConstFloat bits target) := opens_addInstruction rfl

theorem BinaryOp.opcode_plain (op : BinaryOp) : op.opcode.plain = true := by
  cases op <;> rfl

theorem UnaryOp.opcode_plain (op : UnaryOp) : op.opcode.plain = true := by
  cases op <;> rfl

theorem AssignOp.arithOp_plain (op : AssignOp) :
    op.arithOp.plain = true := by
  cases op <;> rfl

theorem opens_emitCompoundArith {op : AssignOp} {ds : ExpType} {pos : Int} (assignable : ds ≠ .EXPR) :
    Opens lvl b B C (emitCompoundArith op ds pos) := by
  cases ds with
  | EXPR => exact absurd rfl assignable
  | OBJECT | BASE =>
    exact .then emits_popTarget fun _ => .then emits_popTarget fun _ => .then emits_popTarget fun _ =>
      .then emits_pushTarget fun _ => opens_addInstruction rfl
  | LOCAL =>
    exact .then emits_popTarget fun _ => .then emits_popTarget fun _ =>
      .then emits_pushTargetAt fun _ =>
      .seq (opens_addInstruction op.arithOp_plain) fun _ => emits_snoozeOpt
  | OUTER =>
    exact .then emits_topTarget fun _ => .then emits_pushTarget fun _ =>
      .seq (opens_addInstruction rfl) fun _ => .seq (emits_addInstruction op.arithOp_plain) fun _ =>
      .seq emits_popTarget fun _ => .seq emits_popTarget fun _ =>
      .seq emits_pushTarget fun _ => emits_addInstruction rfl

theorem opens_emitAssign {op : AssignOp} {ds : ExpType} {pos : Int} (assignable : ds ≠ .EXPR) :
    Opens lvl b B C (emitAssign op ds pos) := by
  cases op with
  | newslot => cases ds <;> first | exact opens_emitDerefOp rfl | exact .fail
  | assign =>
    cases ds with
    | EXPR => exact absurd rfl assignable
    | OBJECT | BASE => exact opens_emitDerefOp rfl
    | LOCAL =>
      exact .then emits_popTarget fun _ => .then emits_topTarget fun _ => opens_addInstruction rfl
    | OUTER =>
      exact .then emits_popTarget fun _ => .then emits_pushTarget fun _ => opens_addInstruction rfl
  | minuseq | pluseq | muleq | diveq | modeq => exact opens_emitCompoundArith assignable

theorem emits_checkAssignable {ds : ExpType} :
    Emits lvl b B C (checkAssignable ds) fun _ => ds ≠ .EXPR := by
  cases ds <;> first | exact .fail | exact .pure (by simp)

theorem opens_emitBinary {op : BinaryOp} : Opens lvl b B C (emitBinary op) :=
  .then emits_popTarget fun _ => .then emits_popTarget fun _ => .then emits_pushTarget fun _ =>
    opens_addInstruction op.opcode_plain

theorem emits_emitAccess {next : Lookahead} : Emits lvl b B C (emitAccess next) := by
  have object : Emits lvl b B C (setEtype .OBJECT) := emits_setEtype
  exact .seq emits_getEs fun _ => .ite
    (.seq (opens_emit2ArgsOP rfl).emits fun _ => .seq emits_topTarget fun _ => emits_setEs)
    (.ite (.seq (opens_emit2ArgsOP rfl).emits fun _ => object) object)

theorem opens_emitPostfix {diff : Int} : Opens lvl b B C (emitPostfix diff) := by
  refine .then emits_getEs fun es => ?_
  cases es.etype with
  | EXPR => exact .fail
  | OBJECT | BASE => exact .ite .fail (opens_emit2ArgsOP rfl)
  | LOCAL =>
    exact .then emits_popTarget fun _ => .then emits_pushTarget fun _ => opens_addInstruction rfl
  | OUTER =>
    exact .then emits_pushTarget fun _ => .then emits_pushTarget fun _ =>
      .seq (opens_addInstruction rfl) fun _ => .seq (emits_addInstruction rfl) fun _ =>
      .seq (emits_addInstruction rfl) fun _ => .seq emits_popTarget fun _ => .pure trivial

theorem opens_emitPrepareCall : Opens lvl b B C emitPrepareCall := by
  have plain : Emits lvl b B C (setEtype .EXPR) := emits_setEtype
  refine .then emits_getEs fun es => ?_
  cases es.etype with
  | OBJECT =>
    exact .then emits_popTarget fun _ => .then emits_popTarget fun _ => .then emits_pushTarget fun _ =>
      .then emits_pushTarget fun _ => .seq (opens_addInstruction rfl) fun _ => plain
  | OUTER =>
    exact .then emits_pushTarget fun _ => .seq (opens_addInstruction rfl) fun _ =>
      .seq emits_pushTarget fun _ => .seq (emits_addInstruction rfl) fun _ => plain
  | EXPR | BASE | LOCAL =>
    exact .then emits_pushTarget fun _ => .seq (opens_addInstruction rfl) fun _ => plain

theorem emits_popTargets (n : Nat) : Emits lvl b B C (popTargets n) := by
  induction n with
  | zero => exact .pure trivial
  | succ n ih => exact .seq emits_popTarget fun _ => ih

theorem emits_emitCall {nargs : Nat} : Emits lvl b B C (emitCall nargs) :=
  .seq (emits_popTargets _) fun _ => .seq emits_popTarget fun _ => .seq emits_popTarget fun _ =>
    .seq emits_pushTarget fun _ => emits_addInstruction rfl

theorem emits_constantValue {id : String} {key : Option String} {constant : Constant} :
    Emits lvl b B C (constantValue id key constant) := by
  cases constant with
  | scalar val => exact .pure trivial
  | table entries =>
    cases key with
    | none => exact .fail
    | some key =>
      simp only [constantValue]
      split
      · exact .pure trivial
      · exact .fail

theorem opens_emitConstantValue {constval : LVObject} {epos : Nat} :
    Opens lvl b B C (emitConstantValue constval epos) := by
  unfold emitConstantValue
  split
  · exact opens_emitLoadConstInt
  · exact opens_emitLoadConstFloat
  · exact opens_addInstruction rfl
  · exact .then emits_getConstant fun _ => opens_addInstruction rfl

theorem emits_identifier {id : String} {next : Lookahead} {key : Option String} :
    Emits lvl b B C (identifier id next key) := by
  refine .seq emits_getLocalVariable fun pos => ?_
  cases pos with
  | some pos =>
    exact .seq emits_pushTargetAt fun _ => .seq emits_setEtype fun _ => .seq emits_setEpos fun _ =>
      .pure trivial
  | none =>
  refine .seq emits_getOuterVariable fun pos => ?_
  cases pos with
  | some pos =>
    refine .seq emits_getEs fun es => .ite ?_ ?_
    · exact .seq emits_pushTarget fun _ => .seq emits_setEpos fun _ =>
        .seq (emits_addInstruction rfl) fun _ => .pure trivial
    · exact .seq emits_setEtype fun _ => .seq emits_setEpos fun _ => .pure trivial
  | none =>
  refine .seq emits_isConstant fun constant => ?_
  cases constant with
  | some constant =>
    refine .seq emits_constantValue fun r => .seq emits_pushTarget fun _ =>
      .seq emits_setEpos fun _ => .seq opens_emitConstantValue.emits fun _ => .seq emits_setEtype fun _ => ?_
    exact .pure trivial
  | none =>
    refine .seq emits_pushTargetAt fun _ => .seq opens_loadConstant.emits fun _ => .seq emits_getEs fun _ => ?_
    exact .ite (.seq (opens_emit2ArgsOP rfl).emits fun _ => .seq emits_setEtype fun _ => .pure trivial)
      (.seq emits_setEtype fun _ => .pure trivial)

theorem emits_emitMember {isclass isstatic : Bool} :
    Emits lvl b B C (emitMember isclass isstatic) :=
  .seq emits_popTarget fun _ => .seq emits_popTarget fun _ => .seq emits_topTarget fun _ =>
    .ite (emits_addInstruction rfl) (emits_addInstruction rfl)

theorem opens_emitClosure {lambda : Bool} : Opens lvl b B C (emitClosure lambda) :=
  .then emits_pushTarget fun _ => .get fun _ => opens_addInstruction rfl

theorem emits_functionPath (id : String) (path : List String) :
    Emits lvl b B C (functionPath id path) := by
  induction path generalizing id with
  | nil => exact opens_loadConstant.emits
  | cons next path ih =>
    exact .seq opens_loadConstant.emits fun _ => .seq (opens_emit2ArgsOP rfl).emits fun _ => ih next

theorem emits_invokeExp {f : CompilerM Unit} (h : Emits lvl b B C f) :
    Emits lvl b B C (invokeExp f) :=
  .seq emits_getEs fun _ => .seq emits_setEs fun _ => .seq h fun _ => emits_setEs

theorem opens_shortCircuit {op : Opcode} {second : CompilerM Unit}
    (h : op.plain = true) (hs : Emits lvl b B C second) :
    Opens lvl b B C (shortCircuit op second) := by
  refine .then emits_popTarget fun first_exp => .then emits_pushTarget fun trg =>
    .bind (opens_emit h) fun jpos above => .guarded (emits_addInstruction rfl) ?_
  refine .seq (emits_invokeExp hs) fun _ => .seq emits_snoozeOpt fun _ =>
    .seq emits_popTarget fun second_exp => .guarded (emits_addInstruction rfl) ?_
  exact .seq emits_snoozeOpt fun _ => .seq emits_getCurrentPos fun _ => emits_setArg1 above

theorem emits_moveToTarget {trg : Nat} : Emits lvl b B C (moveToTarget trg) :=
  .seq emits_popTarget fun _ => .ite (emits_addInstruction rfl) (.pure trivial)

theorem emits_emitDeclarator {name : String} : Emits lvl b B C (emitDeclarator name) :=
  .seq emits_popTarget fun _ => .seq emits_pushLocalVariable fun _ => .pure trivial

theorem opens_emitCaseTest {expr : Nat} : Opens lvl b B C (emitCaseTest expr) (b ≤ ·) := by
  refine .then emits_popTarget fun trg => .then emits_isLocal fun islocal => .ite ?_ ?_
  · exact .then emits_pushTarget fun _ => .seq (opens_addInstruction rfl) fun _ =>
      .bind (emits_emit rfl) fun jz above => .seq emits_popTarget fun _ => .pure above
  · exact .seq (opens_addInstruction rfl) fun _ => emits_emit rfl

/-! ## What statements add -/

theorem emits_statementInstruction {op : Opcode} {a0 a1 a2 a3 : Int} :
    Emits .statement b B C (addInstruction op a0 a1 a2 a3) := emits_instruction trivial

/-- Line information adds at most a `LINE`. -/
theorem addLineInfos_same (fs : FunctionState) (line : Int) (lineop force : Bool) :
    SameCode (if (fs.lastline ≠ line ∨ force = true) ∧ lineop = true
      then fs.addInstruction (instruction .OP_LINE 0 line) else fs)
      (fs.addLineInfos line lineop force) := by
  by_cases new : fs.lastline ≠ line ∨ force = true
  · simp only [FunctionState.addLineInfos, new, true_and]
    generalize (if lineop = true then fs.addInstruction (instruction .OP_LINE 0 line) else fs) = fs₁
    exact ⟨rfl, rfl, rfl⟩
  · rw [FunctionState.addLineInfos, if_neg new, if_neg fun h => new h.1]
    exact SameCode.refl fs

theorem emits_addLineInfos {line : Int} {lineop force : Bool} :
    Emits .statement b B C (updateFs (·.addLineInfos line lineop force)) := by
  intro c a c' ready run
  cases run
  have same := addLineInfos_same c.fs line lineop force
  split at same
  · obtain ⟨steps, marked, ready₁, -⟩ :=
      @emits_instruction .statement _ _ _ (instruction .OP_LINE 0 line) trivial c () _ ready rfl
    exact ⟨by rw [same.code]; exact steps, marked, ready₁.congr same, trivial⟩
  · exact ⟨by rw [same.code], forall₂_marked_refl _, ready.congr same, trivial⟩

theorem emits_emitReturn {op : Opcode} {retexp : Option Int} :
    Emits .statement b B C (emitReturn op retexp) := by
  refine .seq .get fun c => .guarded emits_statementInstruction ?_
  cases retexp with
  | some retexp =>
    exact .seq (.updateFs fun _ => ⟨rfl, rfl, rfl⟩) fun _ => .seq emits_popTarget fun _ =>
      .seq .get fun _ => emits_statementInstruction
  | none =>
    exact .seq (.updateFs fun _ => ⟨rfl, rfl, rfl⟩) fun _ => .seq .get fun _ =>
      emits_statementInstruction

theorem emits_addBreak {pos : Nat} (above : b ≤ pos) : Emits lvl b B C
    (updateFs fun fs => { fs with unresolvedbreaks := pos :: fs.unresolvedbreaks }) := by
  intro c a c' ready run
  cases run
  exact ⟨.refl, forall₂_marked_refl _, ⟨ready.floor, ready.breaks.cons above, ready.continues⟩,
    trivial⟩

theorem emits_addContinue {pos : Nat} (above : b ≤ pos) : Emits lvl b B C
    (updateFs fun fs => { fs with unresolvedcontinues := pos :: fs.unresolvedcontinues }) := by
  intro c a c' ready run
  cases run
  exact ⟨.refl, forall₂_marked_refl _, ⟨ready.floor, ready.breaks, ready.continues.cons above⟩,
    trivial⟩

/-- A nested function leaves the code of the outer one alone. -/
theorem emits_nested {funcstate : FunctionState} {body : CompilerM Unit} {endline : Int}
    (fresh : funcstate.unresolvedbreaks = [] ∧ funcstate.unresolvedcontinues = [])
    (hb : Emits .statement 0 [] [] body) :
    Emits lvl b B C (do enterFunction funcstate; body; leaveFunction endline) := by
  intro c a c' ready run
  obtain ⟨_, c₁, ⟨⟩, run⟩ := bind_ok.mp run
  obtain ⟨_, c₂, inner, run⟩ := bind_ok.mp run
  have start : Ready .statement 0 [] []
      { c with fs := funcstate, parents := c.fs :: c.parents } := by
    refine ⟨Nat.zero_le _, ?_, ?_⟩
    · rw [fresh.1]
      exact Above.refl 0 []
    · rw [fresh.2]
      exact Above.refl 0 []
  obtain ⟨-, marked, -, -⟩ := hb _ _ c₂ start inner
  unfold leaveFunction at run
  cases parents : c₂.parents with
  | nil => simp [parents] at run
  | cons parent rest =>
    simp only [parents, Except.ok.injEq, Prod.mk.injEq] at run
    obtain ⟨-, rfl⟩ := run
    rw [parents] at marked
    cases marked with
    | cons mark others =>
      have same := mark.sameCode
      refine ⟨?_, others, ready.congr ⟨same.code, same.breaks, same.continues⟩, trivial⟩
      change Steps lvl b c.fs.code parent.code
      rw [same.code]

end

/-! ## Operators -/

section

variable {lvl : Level} {b : Nat} {B C : List Nat} {next : Lookahead}

theorem opens_assign {target : LogicalOrExp} {op : AssignOp} {value : Expression}
    (ht : Emits .expression b B C (logicalOrExp .assign target))
    (hv : Emits .expression b B C (expression value)) :
    Opens lvl b B C (expression (.assign target op value)) := by
  unfold expression
  exact .then emits_getEs fun _ => .then emits_setEs fun _ => .then ht fun _ =>
    .then emits_getEs fun _ => .after emits_checkAssignable fun _ assignable => .then hv fun _ =>
    .seq (opens_emitAssign assignable) fun _ => emits_setEs

theorem opens_cond {test : LogicalOrExp} {first second : Expression}
    (ht : Emits .expression b B C (logicalOrExp .other test))
    (hf : Emits lvl b B C (expression first)) (hs : Emits lvl b B C (expression second)) :
    Opens lvl b B C (expression (.cond test first second)) := by
  unfold expression
  exact .then emits_getEs fun _ => .then emits_setEs fun _ => .then ht fun _ =>
    .then emits_popTarget fun _ => .bind (opens_emit rfl) fun jzpos jz =>
    .seq emits_pushTarget fun _ => .seq hf fun _ => .seq emits_moveToTarget fun _ =>
    .seq emits_getCurrentPos fun _ => .bind (emits_emit rfl) fun jmppos jmp =>
    .seq hs fun _ => .seq emits_moveToTarget fun _ =>
    .seq emits_getCurrentPos fun _ => .seq (emits_setArg1 jmp) fun _ =>
    .seq (emits_setArg1 jz) fun _ => .seq emits_snoozeOpt fun _ => emits_setEs

theorem opens_or {first second : LogicalOrExp}
    (hf : Emits .expression b B C (logicalOrExp .other first))
    (hs : Emits lvl b B C (logicalOrExp next second)) :
    Opens lvl b B C (logicalOrExp next (.or first second)) := by
  unfold logicalOrExp
  exact .then hf fun _ => opens_shortCircuit rfl hs

theorem opens_and {first second : LogicalOrExp}
    (hf : Emits .expression b B C (logicalOrExp .other first))
    (hs : Emits lvl b B C (logicalOrExp next second)) :
    Opens lvl b B C (logicalOrExp next (.and first second)) := by
  unfold logicalOrExp
  exact .then hf fun _ => opens_shortCircuit rfl hs

theorem opens_bin {op : BinaryOp} {left right : LogicalOrExp}
    (hl : Emits .expression b B C (logicalOrExp .other left))
    (hr : Emits .expression b B C (logicalOrExp next right)) :
    Opens lvl b B C (logicalOrExp next (.bin op left right)) := by
  unfold logicalOrExp
  exact .then hl fun _ => .then (emits_invokeExp hr) fun _ => opens_emitBinary

end

/-! ## The parts of a `switch` -/

/-- The tests and their blocks: the number of breaks before them and the jump of
the last test, which leads to what comes after its block. -/
def switchTests (cases : List SwitchCase) : CompilerM (Nat × Option Nat) := do
  let expr ← topTarget
  let nbreaks := (← get).fs.unresolvedbreaks.length
  updateFs fun fs => { fs with breaktargets := 0 :: fs.breaktargets }
  let tonextcondjmp ← switchCases expr none cases
  match tonextcondjmp with
  | some pos => setArg1 pos ((← getCurrentPos) - pos)
  | none => pure ()
  return (nbreaks, tonextcondjmp)

/-- What follows the default part. -/
def switchTail (nbreaks : Nat) : CompilerM Unit := do
  let _ ← popTarget
  updateFs fun fs =>
    let fs := resolveBreaks fs (fs.unresolvedbreaks.length - nbreaks)
    { fs with breaktargets := fs.breaktargets.tail }

theorem switch_eq (closeframe : Bool) (e : CommaExpr) (cases : List SwitchCase)
    (default : Option (List Statement)) :
    statementKind closeframe (.switch e cases default) = (do
      commaExpr e
      let (nbreaks, _) ← switchTests cases
      switchDefault default
      switchTail nbreaks) := by
  simp only [statementKind, switchTests, switchTail, bind_assoc]
  repeat refine bind_congr fun _ => ?_
  split <;> simp only [bind_assoc, pure_bind]

/-! ## Statements that start with an instruction of their own -/

section

variable {b : Nat} {B C : List Nat} {closeframe : Bool}

theorem opens_ifThen {cond : CommaExpr} {block : IfBlock}
    (hc : Emits .expression b B C (commaExpr cond)) (hb : Emits .statement b B C (ifBlock block)) :
    Opens .statement b B C (statementKind closeframe (.ifThen cond block)) := by
  exact .then hc fun _ => .then emits_popTarget fun _ =>
    .bind (opens_emit rfl) fun jnepos jne => .seq hb fun _ =>
    .seq emits_getCurrentPos fun _ => emits_setArg1 jne

theorem opens_ifElse {cond : CommaExpr} {block else_ : IfBlock}
    (hc : Emits .expression b B C (commaExpr cond)) (hb : Emits .statement b B C (ifBlock block))
    (he : Emits .statement b B C (ifBlock else_)) :
    Opens .statement b B C (statementKind closeframe (.ifElse cond block else_)) := by
  exact .then hc fun _ => .then emits_popTarget fun _ =>
    .bind (opens_emit rfl) fun jnepos jne => .seq hb fun _ =>
    .seq emits_getCurrentPos fun _ => .bind (emits_emit rfl) fun jmppos jmp =>
    .seq he fun _ => .seq emits_getCurrentPos fun _ =>
    .seq (emits_setArg1 jmp) fun _ => emits_setArg1 jne

theorem opens_while {cond : CommaExpr} {body : Statement}
    (hc : Emits .expression b B C (commaExpr cond))
    (hb : Emits .statement b B C (statement true body)) :
    Opens .statement b B C (statementKind closeframe (.while cond body)) := by
  exact .then emits_getCurrentPos fun _ => .then hc fun _ =>
    .after emits_beginBreakableBlock fun start few => .then emits_popTarget fun _ =>
    .bind (opens_emit rfl) fun jzpos jz => .seq emits_beginScope fun _ => .seq hb fun _ =>
    .seq emits_endScope fun _ => .seq emits_getCurrentPos fun _ =>
    .seq (emits_addInstruction rfl) fun _ => .seq emits_getCurrentPos fun _ =>
    .seq (emits_setArg1 jz) fun _ => emits_endBreakableBlock few

/-- The optimiser sleeps before the condition. -/
theorem opens_for {init : ForInit} {cond inc : Option CommaExpr} {body : Statement}
    (hi : Emits .expression b B C (forInit init))
    (hc : Emits .statement b B C (forCond cond) fun jzpos => jzpos > 0 → b ≤ jzpos.toNat)
    (hn : Emits .statement b B C (forInc inc)) (hb : Emits .statement b B C (statement true body)) :
    Opens .statement b B C (statementKind closeframe (.for init cond inc body)) := by
  refine .then emits_beginScope fun _ => .then hi fun _ => .seq opens_snoozeOpt
    fun _ => .seq emits_getCurrentPos fun _ => .bind hc fun jzpos jz =>
    .seq emits_snoozeOpt fun _ => .bind emits_getCurrentPos fun expstart above =>
    .seq hn fun _ => .takeInstructions above fun exp => ?_
  refine .bind emits_beginBreakableBlock fun start few => .seq hb fun _ =>
    .seq emits_getCurrentPos fun _ => .seq (emits_replay exp) fun _ =>
    .seq emits_getCurrentPos fun _ => .seq (emits_addInstruction rfl) fun _ => ?_
  have rest : ∀ scope target, Emits .statement b B C (do
      endScope scope; endBreakableBlock start target) := fun scope target =>
    .seq emits_endScope fun _ => emits_endBreakableBlock few
  by_cases positive : jzpos > 0
  · rw [if_pos positive]
    exact .seq emits_getCurrentPos fun _ => .seq (emits_setArg1 (jz positive)) fun _ => rest _ _
  · rw [if_neg positive]
    exact rest _ _

theorem opens_forEach {idxname : Option String} {valname : String} {container : Expression}
    {body : Statement} (he : Emits .expression b B C (expression container))
    (hb : Emits .statement b B C (statement true body)) :
    Opens .statement b B C (statementKind closeframe (.forEach idxname valname container body)) := by
  exact .then emits_beginScope fun _ => .then he fun _ =>
    .then emits_topTarget fun _ => .then emits_pushLocalVariable fun _ =>
    .seq (opens_addInstruction rfl) fun _ => .seq emits_pushLocalVariable fun _ =>
    .seq (emits_addInstruction rfl) fun _ => .seq emits_pushLocalVariable fun _ =>
    .seq (emits_addInstruction rfl) fun _ => .seq emits_getCurrentPos fun _ =>
    .bind (emits_emit rfl) fun foreachpos above => .seq (emits_addInstruction rfl) fun _ =>
    .bind emits_beginBreakableBlock fun start few => .seq hb fun _ =>
    .seq emits_getCurrentPos fun _ => .seq (emits_addInstruction rfl) fun _ =>
    .seq emits_getCurrentPos fun _ => .seq (emits_setArg1 above) fun _ =>
    .seq emits_getCurrentPos fun _ => .seq (emits_setArg1 (Nat.le_succ_of_le above)) fun _ =>
    .seq (emits_endBreakableBlock few) fun _ => .seq emits_popTarget fun _ => emits_endScope

/-- A `yield` leaves no trap and is a plain instruction. -/
theorem opens_emitYield {retexp : Option Int} : Opens .statement b B C (emitReturn .OP_YIELD retexp) := by
  refine .get fun c => .guarded (emits_addInstruction rfl) ?_
  cases retexp with
  | some retexp =>
    exact .then (.updateFs fun _ => ⟨rfl, rfl, rfl⟩) fun _ => .then emits_popTarget fun _ =>
      .get fun _ => opens_addInstruction rfl
  | none =>
    exact .then (.updateFs fun _ => ⟨rfl, rfl, rfl⟩) fun _ => .get fun _ =>
      opens_addInstruction rfl

theorem opens_yield {e : Option CommaExpr}
    (he : ∀ e', e = some e' → Emits .expression b B C (commaExpr e')) :
    Opens .statement b B C (statementKind closeframe (.yield e)) := by
  cases e with
  | none =>
    exact .then (.updateFs fun _ => ⟨rfl, rfl, rfl⟩) fun _ => opens_emitYield
  | some e =>
    exact .then (.updateFs fun _ => ⟨rfl, rfl, rfl⟩) fun _ => .then emits_getCurrentPos fun _ =>
      .then (he e rfl) fun _ => opens_emitYield

theorem opens_emitBreak : Opens .statement b B C emitBreak := by
  refine .get fun c => ?_
  split
  · exact .fail
  · refine .guarded (emits_addInstruction rfl) ?_
    exact .then emits_resolveOuters fun _ => .bind (opens_emit rfl) fun pos above =>
      emits_addBreak above

theorem opens_emitContinue : Opens .statement b B C emitContinue := by
  refine .get fun c => ?_
  split
  · exact .fail
  · refine .guarded (emits_addInstruction rfl) ?_
    exact .then emits_resolveOuters fun _ => .bind (opens_emit rfl) fun pos above =>
      emits_addContinue above

theorem opens_function {id : String} {path : List String} {f : FunctionDef}
    (hf : Emits .expression b B C (createFunction f)) :
    Opens .statement b B C (statementKind closeframe (.function id path f)) := by
  exact .then emits_pushTargetAt fun _ => .then (emits_functionPath id path) fun _ =>
    .then hf fun _ => .seq opens_emitClosure fun _ =>
    .seq (opens_emitDerefOp rfl).emits fun _ => .seq emits_popTarget fun _ => .pure trivial

theorem opens_class {isabstract : Bool} {name : PrefixedExpr} {c : ClassDef}
    (hn : Emits .expression b B C (prefixedExpr .other name))
    (hc : ∀ abstract, Emits .expression b B C (classExp abstract c)) :
    Opens .statement b B C (statementKind closeframe (.class isabstract name c)) := by
  refine .then emits_getEs fun es => .then emits_setEs fun _ => .then hn
    fun _ => .then emits_getEs fun inner => ?_
  cases inner.etype with
  | OBJECT | BASE =>
    exact .then (hc _) fun _ => .seq (opens_emitDerefOp rfl) fun _ =>
      .seq emits_popTarget fun _ => emits_setEs
  | EXPR | LOCAL | OUTER => exact .seq (P := fun _ => True) .fail fun _ => emits_setEs

theorem opens_tryCatch {body handler : Statement} {exid : String}
    (hb : Emits .statement b B C (statement true body))
    (hh : Emits .statement b B C (statement true handler)) :
    Opens .statement b B C (statementKind closeframe (.tryCatch body exid handler)) := by
  exact .bind (opens_emit rfl) fun trappos above => .seq (.updateFs fun _ => ⟨rfl, rfl, rfl⟩) fun _ =>
    .seq emits_beginScope fun _ => .seq hb fun _ =>
    .seq emits_endScope fun _ => .seq (.updateFs fun _ => ⟨rfl, rfl, rfl⟩) fun _ =>
    .seq (emits_addInstruction rfl) fun _ => .bind (emits_emit rfl) fun jmppos jmp =>
    .seq emits_getCurrentPos fun _ => .seq (emits_setArg1 above) fun _ =>
    .seq emits_beginScope fun _ => .seq emits_pushLocalVariable fun _ =>
    .seq (emits_setArg0 above) fun _ => .seq hh fun _ =>
    .seq emits_getCurrentPos fun _ => .seq (emits_modify jmp fun _ => rfl) fun _ => emits_endScope

theorem opens_throw {e : CommaExpr} (he : Emits .expression b B C (commaExpr e)) :
    Opens .statement b B C (statementKind closeframe (.throw e)) := by
  exact .then he fun _ => .then emits_popTarget fun _ => opens_addInstruction rfl

/-- The end of a `do` loop, after its body. -/
theorem emits_doWhileTail {lvl : Level} {start : Nat × Nat} {scope : Scope} {jmptrg : Int}
    {cond : CommaExpr} (few : B.length ≤ start.1 ∧ C.length ≤ start.2)
    (hc : Emits lvl b B C (commaExpr cond)) :
    Emits lvl b B C (do
      endScope scope
      let continuetrg ← getCurrentPos
      commaExpr cond
      addInstruction .OP_JZ (← popTarget) 1
      addInstruction .OP_JMP 0 (jmptrg - (← getCurrentPos) - 1)
      endBreakableBlock start continuetrg) :=
  .seq emits_endScope fun _ => .seq emits_getCurrentPos fun _ => .seq hc fun _ =>
    .seq emits_popTarget fun _ => .seq (emits_addInstruction rfl) fun _ =>
    .seq emits_getCurrentPos fun _ => .seq (emits_addInstruction rfl) fun _ =>
    emits_endBreakableBlock few

theorem emits_switchTests {lvl : Level} {cases : List SwitchCase}
    (hc : ∀ expr, Emits lvl b B C (switchCases expr none cases) fun last =>
      ∀ pos, last = some pos → b ≤ pos) :
    Emits lvl b B C (switchTests cases) fun parts => B.length ≤ parts.1 := by
  refine .seq emits_topTarget fun expr => .bind .get fun c ready =>
    .seq (.updateFs fun _ => ⟨rfl, rfl, rfl⟩) fun _ => .bind (hc expr) fun tonext above => ?_
  cases tonext with
  | none => exact .pure ready.breaks.length
  | some pos =>
    exact .seq emits_getCurrentPos fun _ => .seq (emits_setArg1 (above pos rfl)) fun _ =>
      .pure ready.breaks.length

theorem emits_switchTail {lvl : Level} {nbreaks : Nat} (few : B.length ≤ nbreaks) :
    Emits lvl b B C (switchTail nbreaks) :=
  .seq emits_popTarget fun _ => emits_resolveBreaks few

end

/-- A function state with no jumps to resolve. -/
def NoJumps (fs : FunctionState) : Prop :=
  fs.unresolvedbreaks = [] ∧ fs.unresolvedcontinues = []

/-- Names, and what parentheses hold, may be in a register already. -/
def Factor.names : Factor → Bool
  | .identifier _ | .paren _ => true
  | _ => false

/-- A production that starts with an instruction of its own, unless it is a name. -/
structure Starts {α : Type} (named : Bool) (lvl : Level) (b : Nat) (B C : List Nat)
    (m : CompilerM α) : Prop where
  emits : Emits lvl b B C m
  opens : named = false → Opens lvl b B C m

theorem Starts.own {α : Type} {named : Bool} {lvl : Level} {b : Nat} {B C : List Nat}
    {m : CompilerM α} (h : Opens lvl b B C m) : Starts named lvl b B C m := ⟨h.emits, fun _ => h⟩

/-! ## The productions -/

mutual

theorem emits_expression {lvl : Level} {b : Nat} {B C : List Nat} :
    (e : Expression) → Emits lvl b B C (expression e)
  | .plain e => by
    unfold expression
    exact .seq emits_getEs fun _ => .seq emits_setEs fun _ => .seq (emits_logicalOrExp _ e) fun _ =>
      emits_setEs
  | .assign target _ value => (opens_assign (emits_logicalOrExp _ target) (emits_expression value)).emits
  | .cond test first second =>
    (opens_cond (emits_logicalOrExp _ test) (emits_expression first) (emits_expression second)).emits

theorem emits_logicalOrExp {lvl : Level} {b : Nat} {B C : List Nat} (next : Lookahead) :
    (e : LogicalOrExp) → Emits lvl b B C (logicalOrExp next e)
  | .or first second => (opens_or (emits_logicalOrExp _ first) (emits_logicalOrExp _ second)).emits
  | .and first second => (opens_and (emits_logicalOrExp _ first) (emits_logicalOrExp _ second)).emits
  | .bin _ left right => (opens_bin (emits_logicalOrExp _ left) (emits_logicalOrExp _ right)).emits
  | .prefixed e => by
    unfold logicalOrExp
    exact emits_prefixedExpr next e

theorem emits_prefixedExpr {lvl : Level} {b : Nat} {B C : List Nat} (next : Lookahead) :
    (e : PrefixedExpr) → Emits lvl b B C (prefixedExpr next e)
  | .mk f suffixes incdec => by
    unfold prefixedExpr
    refine .seq (factor_starts _ _ f).emits fun read => .seq (emits_suffixLoop next incdec read suffixes)
      fun _ => ?_
    cases incdec with
    | none => exact .pure trivial
    | some diff => exact opens_emitPostfix.emits

theorem emits_suffixLoop {lvl : Level} {b : Nat} {B C : List Nat} (next : Lookahead)
    (incdec : Option Int) : (read : Bool) → (suffixes : List Suffix) →
      Emits lvl b B C (suffixLoop next incdec read suffixes)
  | _, [] => by
    unfold suffixLoop
    exact .pure trivial
  | true, _ :: rest => by
    unfold suffixLoop
    exact emits_suffixLoop next incdec false rest
  | false, suffix :: rest => by
    unfold suffixLoop
    exact .seq (emits_applySuffix _ suffix) fun _ => emits_suffixLoop next incdec false rest

theorem emits_applySuffix {lvl : Level} {b : Nat} {B C : List Nat} (next : Lookahead) :
    (suffix : Suffix) → Emits lvl b B C (applySuffix next suffix)
  | .field id => by
    unfold applySuffix
    exact .seq opens_loadConstant.emits fun _ => emits_emitAccess
  | .index key => by
    unfold applySuffix
    exact .seq (emits_expression key) fun _ => emits_emitAccess
  | .arrow id => by
    unfold applySuffix
    exact .seq opens_loadConstant.emits fun _ => emits_emitAccess
  | .call args => by
    unfold applySuffix
    exact .seq opens_emitPrepareCall.emits fun _ => .seq (emits_functionCallArgs args) fun _ =>
      emits_emitCall

theorem emits_functionCallArgs {lvl : Level} {b : Nat} {B C : List Nat} :
    (args : List Expression) → Emits lvl b B C (functionCallArgs args)
  | [] => by
    unfold functionCallArgs
    exact .pure trivial
  | e :: rest => by
    unfold functionCallArgs
    exact .seq (emits_expression e) fun _ => .seq emits_moveIfCurrentTargetIsLocal fun _ =>
      .seq (emits_functionCallArgs rest) fun _ => .pure trivial

theorem factor_starts {lvl : Level} {b : Nat} {B C : List Nat} (next : Lookahead)
    (key : Option String) : (f : Factor) → Starts f.names lvl b B C (factor next key f)
  | .identifier id => by
    unfold factor
    exact ⟨emits_identifier, fun other => by cases other⟩
  | .paren e => by
    unfold factor
    exact ⟨.seq (emits_commaExpr e) fun _ => .seq emits_setEtype fun _ => .pure trivial,
      fun other => by cases other⟩
  | .stringLiteral text => by
    unfold factor
    exact .own (.seq opens_loadConstant fun _ => .seq emits_setEtype fun _ => .pure trivial)
  | .base => by
    unfold factor
    exact .own (.then emits_pushTarget fun _ => .seq (opens_addInstruction rfl) fun _ =>
      .seq emits_setEtype fun _ => .seq emits_topTarget fun _ => .seq emits_setEpos fun _ =>
      .pure trivial)
  | .doubleColon => by
    unfold factor
    exact .own (.then emits_pushTarget fun _ => .seq (opens_addInstruction rfl) fun _ =>
      .seq emits_setEtype fun _ => .seq emits_setEpos fun _ => .pure trivial)
  | .null => by
    unfold factor
    exact .own (.then emits_pushTarget fun _ => .seq (opens_addInstruction rfl) fun _ =>
      .seq emits_setEtype fun _ => .pure trivial)
  | .integer value => by
    unfold factor
    exact .own (.then emits_pushTarget fun _ => .seq opens_emitLoadConstInt fun _ =>
      .seq emits_setEtype fun _ => .pure trivial)
  | .float bits => by
    unfold factor
    exact .own (.then emits_pushTarget fun _ => .seq opens_emitLoadConstFloat fun _ =>
      .seq emits_setEtype fun _ => .pure trivial)
  | .bool value => by
    unfold factor
    exact .own (.then emits_pushTarget fun _ => .seq (opens_addInstruction rfl) fun _ =>
      .seq emits_setEtype fun _ => .pure trivial)
  | .array elements => by
    unfold factor
    exact .own (.then emits_pushTarget fun _ => .bind (opens_emit rfl) fun apos above =>
      .seq (emits_arrayElements elements) fun _ => .seq (emits_setArg1 above) fun _ =>
      .seq emits_setEtype fun _ => .pure trivial)
  | .table ms => by
    unfold factor
    exact .own (.then emits_pushTarget fun _ => .bind (opens_emit rfl) fun tpos above =>
      .seq (emits_members false ms) fun _ => .seq (emits_setArg1 above) fun _ =>
      .seq emits_setEtype fun _ => .pure trivial)
  | .function f => by
    unfold factor
    exact .own (.then (emits_createFunction f) fun _ => .seq opens_emitClosure fun _ =>
      .seq emits_setEtype fun _ => .pure trivial)
  | .lambda f => by
    unfold factor
    exact .own (.then (emits_createFunction f) fun _ => .seq opens_emitClosure fun _ =>
      .seq emits_setEtype fun _ => .pure trivial)
  | .class c => by
    unfold factor
    exact .own (.seq (opens_classExp _ c) fun _ => .seq emits_setEtype fun _ => .pure trivial)
  | .unary op e => by
    unfold factor
    exact .own (.then (emits_prefixedExpr next e) fun _ => .then emits_popTarget fun _ =>
      .then emits_pushTarget fun _ => .seq (opens_addInstruction op.opcode_plain) fun _ =>
      .seq emits_setEtype fun _ => .pure trivial)
  | .prefixIncDec diff e => by
    unfold factor
    refine .own (.then emits_getEs fun es => .then emits_setEs fun _ =>
      .then (emits_prefixedExpr next e) fun _ => .then emits_getEs fun inner => ?_)
    have rest : Emits lvl b B C (do setEs es; setEtype .EXPR; return false) :=
      .seq emits_setEs fun _ => .seq emits_setEtype fun _ => .pure trivial
    cases inner.etype with
    | EXPR => exact .seq (P := fun _ => True) .fail fun _ => rest
    | OBJECT | BASE => exact .seq (opens_emit2ArgsOP rfl) fun _ => rest
    | LOCAL => exact .then emits_topTarget fun _ => .seq (opens_addInstruction rfl) fun _ => rest
    | OUTER =>
      exact .then emits_pushTarget fun _ => .seq (opens_addInstruction rfl) fun _ =>
        .seq (emits_addInstruction rfl) fun _ => .seq (emits_addInstruction rfl) fun _ => rest
  | .delete e => by
    unfold factor
    refine .own (.then emits_getEs fun es => .then emits_setEs fun _ =>
      .then (emits_prefixedExpr next e) fun _ => .then emits_getEs fun inner => ?_)
    have rest : Emits lvl b B C (do setEs es; setEtype .EXPR; return false) :=
      .seq emits_setEs fun _ => .seq emits_setEtype fun _ => .pure trivial
    cases inner.etype with
    | OBJECT | BASE => exact .seq (opens_emit2ArgsOP rfl) fun _ => rest
    | EXPR | LOCAL | OUTER => exact .seq (P := fun _ => True) .fail fun _ => rest

theorem emits_arrayElements {lvl : Level} {b : Nat} {B C : List Nat} :
    (elements : List Expression) → Emits lvl b B C (arrayElements elements)
  | [] => by
    unfold arrayElements
    exact .pure trivial
  | e :: rest => by
    unfold arrayElements
    exact .seq (emits_expression e) fun _ => .seq emits_popTarget fun _ =>
      .seq emits_topTarget fun _ => .seq (emits_addInstruction rfl) fun _ =>
      .seq (emits_arrayElements rest) fun _ => .pure trivial

theorem emits_commaExpr {lvl : Level} {b : Nat} {B C : List Nat} :
    (e : CommaExpr) → Emits lvl b B C (commaExpr e)
  | .last e => by
    unfold commaExpr
    exact emits_expression e
  | .cons e rest => by
    unfold commaExpr
    exact .seq (emits_expression e) fun _ => .seq emits_popTarget fun _ => emits_commaExpr rest

theorem emits_members {lvl : Level} {b : Nat} {B C : List Nat} (isclass : Bool) :
    (ms : List Member) → Emits lvl b B C (members isclass ms)
  | [] => by
    unfold members
    exact .pure trivial
  | m :: rest => by
    unfold members
    exact .seq (emits_member m) fun _ => .seq emits_emitMember fun _ =>
      .seq (emits_members isclass rest) fun _ => .pure trivial

theorem emits_member {lvl : Level} {b : Nat} {B C : List Nat} :
    (m : Member) → Emits lvl b B C (member m)
  | .method isstatic id f => by
    unfold member
    exact .seq opens_loadConstant.emits fun _ => .seq (emits_createFunction f) fun _ =>
      .seq opens_emitClosure.emits fun _ => .pure trivial
  | .computed isstatic key value => by
    unfold member
    exact .seq (emits_commaExpr key) fun _ => .seq (emits_expression value) fun _ => .pure trivial
  | .named isstatic key value => by
    unfold member
    exact .seq opens_loadConstant.emits fun _ => .seq (emits_expression value) fun _ => .pure trivial

theorem opens_classExp {lvl : Level} {b : Nat} {B C : List Nat} (abstract : Int) :
    (c : ClassDef) → Opens lvl b B C (classExp abstract c)
  | .mk none ms => by
    unfold classExp
    exact .then emits_pushTarget fun _ => .seq (opens_addInstruction rfl) fun _ =>
      .seq (emits_members true ms) fun _ => .pure trivial
  | .mk (some e) ms => by
    unfold classExp
    exact .then (emits_expression e) fun _ => .then emits_topTarget fun _ =>
      .then emits_popTarget fun _ => .then emits_pushTarget fun _ =>
      .seq (opens_addInstruction rfl) fun _ => .seq (emits_members true ms) fun _ => .pure trivial

theorem emits_createFunction {lvl : Level} {b : Nat} {B C : List Nat} :
    (f : FunctionDef) → Emits lvl b B C (createFunction f)
  | .mk ps varparams body endline => by
    unfold createFunction
    refine .bind (emits_params _ ⟨rfl, rfl⟩ ps) fun r fresh => .seq (emits_popTargets _) fun _ => ?_
    refine emits_nested ?_ (emits_functionBody body)
    split
    · exact fresh
    · exact fresh

theorem emits_params {lvl : Level} {b : Nat} {B C : List Nat} (funcstate : FunctionState)
    (fresh : NoJumps funcstate) :
    (ps : List Param) → Emits lvl b B C (params funcstate ps) fun r => NoJumps r.1
  | [] => by
    unfold params
    exact .pure fresh
  | p :: rest => by
    unfold params
    exact .bind (emits_param funcstate fresh p) fun r fresh' =>
      .bind (emits_params r.1 fresh' rest) fun r' fresh'' => .pure fresh''

theorem emits_param {lvl : Level} {b : Nat} {B C : List Nat} (funcstate : FunctionState)
    (fresh : NoJumps funcstate) :
    (p : Param) → Emits lvl b B C (param funcstate p) fun r => NoJumps r.1
  | .mk name none => by
    unfold param
    exact .pure fresh
  | .mk name (some e) => by
    unfold param
    exact .seq (emits_expression e) fun _ => .seq emits_topTarget fun _ => .pure fresh

theorem emits_functionBody {b : Nat} {B C : List Nat} :
    (body : FunctionBody) → Emits .statement b B C (functionBody body)
  | .statement body => by
    unfold functionBody
    exact emits_statement false body
  | .expression e => by
    unfold functionBody
    exact .seq (emits_expression e) fun _ => .seq emits_popTarget fun _ => emits_statementInstruction

theorem emits_statement {b : Nat} {B C : List Nat} (closeframe : Bool) :
    (s : Statement) → Emits .statement b B C (statement closeframe s)
  | .mk line kind => by
    unfold statement
    exact .seq .get fun _ => .seq emits_addLineInfos fun _ =>
      .seq (emits_statementKind closeframe kind) fun _ => emits_snoozeOpt

theorem emits_statements {b : Nat} {B C : List Nat} :
    (body : List Statement) → Emits .statement b B C (statements body)
  | [] => by
    unfold statements
    exact .pure trivial
  | s :: rest => by
    unfold statements
    exact .seq (emits_statement true s) fun _ => emits_statements rest

theorem emits_statementKind {b : Nat} {B C : List Nat} (closeframe : Bool) :
    (kind : StatementKind) → Emits .statement b B C (statementKind closeframe kind)
  | .empty => by
    unfold statementKind
    exact .pure trivial
  | .ifThen cond block => (opens_ifThen (emits_commaExpr cond) (emits_ifBlock block)).emits
  | .ifElse cond block else_ =>
    (opens_ifElse (emits_commaExpr cond) (emits_ifBlock block) (emits_ifBlock else_)).emits
  | .while cond body => (opens_while (emits_commaExpr cond) (emits_statement true body)).emits
  | .doWhile body cond => by
    unfold statementKind
    exact .seq emits_getCurrentPos fun _ => .bind emits_beginBreakableBlock fun start few =>
      .seq emits_beginScope fun _ => .seq (emits_statement true body) fun _ =>
      emits_doWhileTail few (emits_commaExpr cond)
  | .for init cond inc body =>
    (opens_for (emits_forInit init) (emits_forCond cond) (emits_forInc inc)
      (emits_statement true body)).emits
  | .forEach idxname valname container body =>
    (opens_forEach (emits_expression container) (emits_statement true body)).emits
  | .switch e cases default => by
    rw [switch_eq]
    exact .seq (emits_commaExpr e) fun _ =>
      .bind (emits_switchTests fun expr => emits_switchCases expr none (by simp) cases)
        fun parts few => .seq (emits_switchDefault default) fun _ => emits_switchTail few
  | .localDecl d => by
    unfold statementKind
    exact emits_localDeclStatement d
  | .return none => by
    unfold statementKind
    exact emits_emitReturn
  | .return (some e) => by
    unfold statementKind
    exact .seq emits_getCurrentPos fun _ => .seq (emits_commaExpr e) fun _ => emits_emitReturn
  | .yield none => (opens_yield (by simp)).emits
  | .yield (some e) => (opens_yield fun _ eq => by cases eq; exact emits_commaExpr e).emits
  | .break => by
    unfold statementKind
    exact opens_emitBreak.emits
  | .continue => by
    unfold statementKind
    exact opens_emitContinue.emits
  | .function id path f => (opens_function (emits_createFunction f)).emits
  | .class isabstract name c =>
    (opens_class (emits_prefixedExpr _ name) fun abstract => (opens_classExp abstract c).emits).emits
  | .enum id entries => by
    unfold statementKind
    exact emits_addConstant
  | .block body => by
    unfold statementKind
    exact .seq emits_beginScope fun _ => .seq (emits_statements body) fun _ =>
      .ite emits_endScope emits_endScopeNoClose
  | .tryCatch body exid handler =>
    (opens_tryCatch (emits_statement true body) (emits_statement true handler)).emits
  | .throw e => (opens_throw (emits_commaExpr e)).emits
  | .const id value => by
    unfold statementKind
    exact emits_addConstant
  | .expression e => by
    unfold statementKind
    exact .seq (emits_commaExpr e) fun _ => emits_discardTarget

theorem emits_ifBlock {b : Nat} {B C : List Nat} :
    (block : IfBlock) → Emits .statement b B C (ifBlock block)
  | .braces body => by
    unfold ifBlock
    exact .seq emits_beginScope fun _ => .seq (emits_statements body) fun _ => emits_endScope
  | .single s => by
    unfold ifBlock
    exact emits_statement true s

theorem emits_forInit {lvl : Level} {b : Nat} {B C : List Nat} :
    (init : ForInit) → Emits lvl b B C (forInit init)
  | .none => by
    unfold forInit
    exact .pure trivial
  | .decl d => by
    unfold forInit
    exact emits_localDeclStatement d
  | .expression e => by
    unfold forInit
    exact .seq (emits_commaExpr e) fun _ => .seq emits_popTarget fun _ => .pure trivial

theorem emits_forCond {b : Nat} {B C : List Nat} : (cond : Option CommaExpr) →
    Emits .statement b B C (forCond cond) fun jzpos => jzpos > 0 → b ≤ jzpos.toNat
  | none => by
    unfold forCond
    exact .pure (by intro positive; omega)
  | some e => by
    unfold forCond
    exact .seq (emits_commaExpr e) fun _ => .seq emits_popTarget fun _ =>
      .bind (emits_emit rfl) fun jzpos above => .pure fun _ => above

theorem emits_forInc {b : Nat} {B C : List Nat} :
    (inc : Option CommaExpr) → Emits .statement b B C (forInc inc)
  | none => by
    unfold forInc
    exact .pure trivial
  | some e => by
    unfold forInc
    exact .seq (emits_commaExpr e) fun _ => .seq emits_popTarget fun _ => .pure trivial

theorem emits_switchCases {b : Nat} {B C : List Nat} (expr : Nat) (tonext : Option Nat)
    (above : ∀ pos, tonext = some pos → b ≤ pos) : (cases : List SwitchCase) →
      Emits .statement b B C (switchCases expr tonext cases) fun last =>
        ∀ pos, last = some pos → b ≤ pos
  | [] => by
    unfold switchCases
    exact .pure above
  | c :: rest => by
    unfold switchCases
    have body : ∀ skip, (∀ pos, skip = some pos → b ≤ pos) → Emits .statement b B C (do
        let jz ← switchCase expr skip c
        switchCases expr (some jz) rest) fun last => ∀ pos, last = some pos → b ≤ pos :=
      fun skip skips => .bind (opens_switchCase expr skip skips c).emits fun jz jump =>
        emits_switchCases expr (some jz) (by simpa using jump) rest
    cases tonext with
    | none => exact body none (by simp)
    | some pos =>
      exact .bind (emits_emit rfl) fun skip jmp => .seq emits_getCurrentPos fun _ =>
        .seq (emits_setArg1 (above pos rfl)) fun _ => body (some skip) (by simpa using jmp)

theorem opens_switchCase {b : Nat} {B C : List Nat} (expr : Nat) (skip : Option Nat)
    (above : ∀ pos, skip = some pos → b ≤ pos) :
    (c : SwitchCase) → Opens .statement b B C (switchCase expr skip c) (b ≤ ·)
  | .mk label body => by
    unfold switchCase
    refine .then (emits_expression label) fun _ => .bind opens_emitCaseTest fun jz jump => ?_
    have rest : Emits .statement b B C (do
        let scope ← beginScope
        statements body
        endScope scope
        return jz) (b ≤ ·) :=
      .seq emits_beginScope fun _ => .seq (emits_statements body) fun _ =>
        .seq emits_endScope fun _ => .pure jump
    cases skip with
    | none => exact rest
    | some pos =>
      exact .seq emits_getCurrentPos fun _ => .seq (emits_setArg1 (above pos rfl)) fun _ => rest

theorem emits_switchDefault {b : Nat} {B C : List Nat} :
    (default : Option (List Statement)) → Emits .statement b B C (switchDefault default)
  | none => by
    unfold switchDefault
    exact .pure trivial
  | some body => by
    unfold switchDefault
    exact .seq emits_beginScope fun _ => .seq (emits_statements body) fun _ => emits_endScope

theorem emits_localDeclStatement {lvl : Level} {b : Nat} {B C : List Nat} :
    (d : LocalDecl) → Emits lvl b B C (localDeclStatement d)
  | .function name f => by
    unfold localDeclStatement
    exact .seq (emits_createFunction f) fun _ => .seq opens_emitClosure.emits fun _ =>
      .seq emits_popTarget fun _ => .seq emits_pushLocalVariable fun _ => .pure trivial
  | .vars first rest => by
    unfold localDeclStatement
    exact .seq (emits_declarator first) fun _ => emits_declarators rest

theorem emits_declarators {lvl : Level} {b : Nat} {B C : List Nat} :
    (ds : List Declarator) → Emits lvl b B C (declarators ds)
  | [] => by
    unfold declarators
    exact .pure trivial
  | d :: rest => by
    unfold declarators
    exact .seq (emits_declarator d) fun _ => emits_declarators rest

theorem emits_declarator {lvl : Level} {b : Nat} {B C : List Nat} :
    (d : Declarator) → Emits lvl b B C (declarator d)
  | .mk name none => by
    unfold declarator
    exact .seq emits_pushTarget fun _ => .seq (emits_addInstruction rfl) fun _ => emits_emitDeclarator
  | .mk name (some e) => by
    unfold declarator
    exact .seq (emits_expression e) fun _ => .seq emits_popTarget fun _ =>
      .seq emits_pushTarget fun _ => .guarded (emits_addInstruction rfl) emits_emitDeclarator

end

end Lavril
