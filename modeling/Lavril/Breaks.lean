import Lavril.ForLoop
import Lavril.Slots

/-!
# Where the jumps of a `break` are

The jumps that wait for the end of their loop or `switch` are instructions that
later productions leave alone: each is below the floor.
-/

namespace Lavril

open LVCompiler

/-- An expression leaves no jump. -/
theorem breaks_same {α : Type} {m : CompilerM α} {Q : α → Prop} {marks : α → List Mark}
    {c c' : LVCompiler} {a : α}
    (within : Within .expression ⟨1, Nat.one_pos, by decide⟩ [] False m Q marks)
    (run : m c = .ok (a, c')) : c'.fs.unresolvedbreaks = c.fs.unresolvedbreaks :=
  ((within c a c' run).1.jumps rfl).1

/-- Of the jumps that wait after a production, those that have not waited before it are
below the floor. -/
def Bounded {α : Type} (m : CompilerM α) : Prop :=
  ∀ c a c', m c = .ok (a, c') →
    c.fs.code.floor .statement ≤ c'.fs.code.floor .statement ∧
    ∃ new old, c'.fs.unresolvedbreaks = new ++ old ∧ old <:+ c.fs.unresolvedbreaks ∧
      ∀ pos ∈ new, pos < c'.fs.code.floor .statement

namespace Bounded

variable {α β : Type}

theorem seq {m : CompilerM α} {f : α → CompilerM β} (hm : Bounded m) (hf : ∀ a, Bounded (f a)) :
    Bounded (m >>= f) := by
  intro c b c' run
  obtain ⟨a, c₁, first, second⟩ := bind_ok.mp run
  obtain ⟨grows, new₁, old₁, eq₁, suffix₁, below₁⟩ := hm c a c₁ first
  obtain ⟨grows', new₂, old₂, eq₂, suffix₂, below₂⟩ := hf a c₁ b c' second
  refine ⟨grows.trans grows', ?_⟩
  rw [eq₁] at suffix₂
  rcases List.suffix_or_suffix_of_suffix suffix₂ (List.suffix_append new₁ old₁) with inner | outer
  · exact ⟨new₂, old₂, eq₂, inner.trans suffix₁, below₂⟩
  · -- some of the jumps of the first production wait on
    obtain ⟨kept, rfl⟩ := outer
    obtain ⟨gone, split⟩ := suffix₂
    rw [← List.append_assoc, List.append_cancel_right_eq] at split
    refine ⟨new₂ ++ kept, old₁, by rw [eq₂, List.append_assoc], suffix₁, ?_⟩
    rw [List.forall_mem_append]
    refine ⟨below₂, fun pos mem => (below₁ pos ?_).trans_le grows'⟩
    rw [← split]
    exact List.mem_append_right _ mem

/-- No jump is left. -/
theorem of_suffix {m : CompilerM α} (h : ∀ c a c', m c = .ok (a, c') →
    c.fs.code.floor .statement ≤ c'.fs.code.floor .statement ∧
      c'.fs.unresolvedbreaks <:+ c.fs.unresolvedbreaks) : Bounded m := by
  intro c a c' run
  obtain ⟨grows, suffix⟩ := h c a c' run
  exact ⟨grows, [], _, rfl, suffix, by simp⟩

theorem pure {a : α} : Bounded (Pure.pure a : CompilerM α) := by
  refine .of_suffix fun c b c' run => ?_
  obtain ⟨rfl, rfl⟩ := pure_ok.mp run
  exact ⟨le_rfl, List.suffix_refl _⟩

theorem fail {message : String} : Bounded (LVCompiler.fail message : CompilerM α) := by
  intro c b c' run
  cases run

theorem ite {p : Prop} [Decidable p] {m m' : CompilerM α} (h : Bounded m) (h' : Bounded m') :
    Bounded (if p then m else m') := by
  split
  · exact h
  · exact h'

theorem guarded {p : Prop} [Decidable p] {m : CompilerM PUnit} {f : PUnit → CompilerM α}
    (hm : Bounded m) (hf : Bounded (f ⟨⟩)) : Bounded (if p then m >>= f else f ⟨⟩) :=
  .ite (hm.seq fun _ => hf) hf

theorem get : Bounded (MonadState.get : CompilerM LVCompiler) := by
  refine .of_suffix fun c a c' run => ?_
  cases run
  exact ⟨le_rfl, List.suffix_refl _⟩

/-- Neither the code nor the jumps change. -/
theorem updateFs {f : FunctionState → FunctionState} (h : ∀ fs, SameCode fs (f fs)) :
    Bounded (LVCompiler.updateFs f) := by
  refine .of_suffix fun c a c' run => ?_
  cases run
  dsimp only
  rw [(h c.fs).code, (h c.fs).breaks]
  exact ⟨le_rfl, List.suffix_refl _⟩

/-- What an expression does. -/
theorem of {m : CompilerM α} {P : Nat → List Nat → List Nat → α → Prop} {Q : α → Prop}
    {marks : α → List Mark} (emits : ∀ {b B C}, Emits .statement b B C m (P b B C))
    (within : Within .expression ⟨1, Nat.one_pos, by decide⟩ [] False m Q marks) : Bounded m := by
  refine .of_suffix fun c a c' run => ⟨(Emits.agree emits run).2, ?_⟩
  rw [breaks_same within run]

theorem modify {pos : Nat} {f : LVInstruction → LVInstruction} (keeps : ∀ i, (f i).op = i.op) :
    Bounded (LVCompiler.updateFs (·.modifyInstruction pos f)) := by
  refine .of_suffix fun c a c' run => ?_
  cases run
  have floor : (c.fs.modifyInstruction pos f).code.floor .statement = c.fs.code.floor .statement :=
    Code.floor_congr (map_modify_of_keeps _ pos keeps) rfl
  exact ⟨floor.ge, List.suffix_refl _⟩

theorem setArg1 {pos : Nat} {val : Int} : Bounded (setArg1 pos val) := .modify fun _ => rfl
theorem setArg0 {pos : Nat} {val : Int} : Bounded (setArg0 pos val) := .modify fun _ => rfl

end Bounded

/-! ## Resolving -/

/-- What resolving jumps does to the code: it sets the targets of some that wait. -/
structure Targets (fs fs' : FunctionState) : Prop where
  ops : fs'.instructions.map (·.op) = fs.instructions.map (·.op)
  optimization : fs'.optimization = fs.optimization
  breaks : fs'.unresolvedbreaks <:+ fs.unresolvedbreaks

theorem Targets.refl (fs : FunctionState) : Targets fs fs := ⟨rfl, rfl, List.suffix_refl _⟩

theorem Targets.trans {s t u : FunctionState} (h : Targets s t) (h' : Targets t u) : Targets s u :=
  ⟨h'.ops.trans h.ops, h'.optimization.trans h.optimization, h'.breaks.trans h.breaks⟩

theorem Targets.bounded {f : FunctionState → FunctionState} (h : ∀ fs, Targets fs (f fs)) :
    Bounded (updateFs f) := by
  refine .of_suffix fun c a c' run => ?_
  cases run
  have floor := @Code.floor_congr .statement c.fs.code (f c.fs).code (h c.fs).ops
    (h c.fs).optimization
  exact ⟨floor.ge, (h c.fs).breaks⟩

theorem resolveBreaks_targets (fs : FunctionState) (n : Nat) : Targets fs (resolveBreaks fs n) := by
  induction n generalizing fs with
  | zero => exact .refl fs
  | succ n ih =>
    unfold resolveBreaks
    split
    · exact .refl fs
    · rename_i pos rest eq
      dsimp only
      refine .trans ?_ (ih _)
      refine ⟨?_, rfl, ?_⟩
      · exact map_modify_of_keeps fs.instructions pos fun _ => rfl
      · rw [eq]
        exact List.suffix_cons pos rest

theorem resolveContinues_targets (target : Int) (fs : FunctionState) (n : Nat) :
    Targets fs (resolveContinues target fs n) := by
  induction n generalizing fs with
  | zero => exact .refl fs
  | succ n ih =>
    unfold resolveContinues
    split
    · exact .refl fs
    · rename_i pos rest eq
      dsimp only
      refine .trans ?_ (ih _)
      exact ⟨map_modify_of_keeps fs.instructions pos fun _ => rfl, rfl, List.suffix_refl _⟩

/-- Only the jumps that are resolved change. -/
theorem resolveBreaks_frame (fs : FunctionState) (n : Nat) {k : Nat}
    (other : k ∉ fs.unresolvedbreaks.take n) :
    (resolveBreaks fs n).instructions[k]? = fs.instructions[k]? := by
  induction n generalizing fs with
  | zero => rfl
  | succ n ih =>
    unfold resolveBreaks
    split
    · rfl
    · rename_i pos rest eq
      rw [eq, List.take_succ_cons, List.mem_cons, not_or] at other
      rw [ih _ other.2]
      exact List.getElem?_modify_ne _ _ (Ne.symm other.1)

section

theorem floor_last {fs : FunctionState} {front : List LVInstruction} {i : LVInstruction}
    (eq : fs.instructions = front ++ [i]) (free : fusable .statement i.op = false) :
    fs.code.floor .statement = front.length + 1 := by
  unfold FunctionState.code
  rw [eq]
  cases fs.optimization with
  | true => rw [Code.floor_append, if_neg (by simp [free])]
  | false => simp

theorem bounded_endBreakableBlock {start : Nat × Nat} {target : Int} :
    Bounded (endBreakableBlock start target) := by
  refine Targets.bounded fun fs => ?_
  have continued := resolveContinues_targets target fs (fs.unresolvedcontinues.length - start.2)
  have targets := continued.trans (resolveBreaks_targets _ (fs.unresolvedbreaks.length - start.1))
  exact ⟨targets.ops, targets.optimization, targets.breaks⟩

theorem bounded_snoozeOpt : Bounded snoozeOpt := .of emits_snoozeOpt within_snoozeOpt
theorem bounded_getCurrentPos : Bounded getCurrentPos :=
  .of emits_getCurrentPos within_getCurrentPos
theorem bounded_beginScope : Bounded beginScope := .of emits_beginScope within_beginScope
theorem bounded_endScope {scope : Scope} : Bounded (endScope scope) :=
  .of emits_endScope within_endScope
theorem bounded_beginBreakableBlock : Bounded beginBreakableBlock :=
  .of emits_beginBreakableBlock within_beginBreakableBlock
theorem bounded_pushLocalVariable {name : String} : Bounded (pushLocalVariable name) :=
  .of emits_pushLocalVariable within_pushLocalVariable
theorem bounded_popTarget : Bounded popTarget := .of emits_popTarget within_popTarget
theorem bounded_commaExpr (e : CommaExpr) : Bounded (commaExpr e) :=
  .of (emits_commaExpr e) (within_commaExpr e)

/-- The optimiser may only rewrite what stands before the instruction. -/
theorem bounded_addInstruction {op : Opcode} {a0 a1 a2 a3 : Int} :
    Bounded (addInstruction op a0 a1 a2 a3) :=
  .of emits_statementInstruction (within_addInstruction False.elim)

theorem bounded_emit {op : Opcode} {a0 a1 a2 a3 : Int} : Bounded (emit op a0 a1 a2 a3) :=
  .seq bounded_addInstruction fun _ => .seq .get fun _ => .pure

/-- The jump is the last instruction. -/
theorem bounded_emitBreak : Bounded emitBreak := by
  refine .seq .get fun c => ?_
  split
  · exact .fail
  · refine .guarded bounded_addInstruction (.seq (.of emits_resolveOuters within_resolveOuters)
      fun _ => ?_)
    intro c u c' run
    obtain ⟨pos, c₁, emitted, run⟩ := bind_ok.mp run
    obtain ⟨grows, new, old, eq, suffix, below⟩ := bounded_emit c pos c₁ emitted
    cases run
    refine ⟨grows, pos :: new, old, congrArg (pos :: ·) eq, suffix, List.forall_mem_cons.mpr
      ⟨?_, below⟩⟩
    obtain ⟨_, _, ⟨⟩, emitted⟩ := bind_ok.mp emitted
    obtain ⟨_, _, ⟨⟩, emitted⟩ := bind_ok.mp emitted
    obtain ⟨rfl, rfl⟩ := pure_ok.mp emitted
    have last := addJMP c.fs (-1234)
    change _ < (c.fs.addInstruction (instruction .OP_JMP 0 (-1234))).code.floor .statement
    rw [floor_last last rfl, last]
    simp

/-- Only the jumps of a `continue` change. -/
theorem bounded_addContinue {pos : Nat} : Bounded
    (updateFs fun fs => { fs with unresolvedcontinues := pos :: fs.unresolvedcontinues }) := by
  refine .of_suffix fun c a c' run => ?_
  cases run
  exact ⟨le_rfl, List.suffix_refl _⟩

theorem bounded_emitContinue : Bounded emitContinue := by
  refine .seq .get fun c => ?_
  split
  · exact .fail
  · exact .guarded bounded_addInstruction (.seq (.of emits_resolveOuters within_resolveOuters)
      fun _ => .seq bounded_emit fun _ => bounded_addContinue)

theorem bounded_switchTests {cases : List SwitchCase}
    (hc : ∀ expr, Bounded (switchCases expr none cases)) : Bounded (switchTests cases) := by
  refine .seq (.of emits_topTarget within_topTarget) fun expr => .seq .get fun _ =>
    .seq (.updateFs fun _ => ⟨rfl, rfl, rfl⟩) fun _ => .seq (hc expr) fun tonext => ?_
  cases tonext with
  | none => exact .pure
  | some pos => exact .seq bounded_getCurrentPos fun _ => .seq .setArg1 fun _ => .pure

theorem bounded_switchTail {nbreaks : Nat} : Bounded (switchTail nbreaks) :=
  .seq bounded_popTarget fun _ => Targets.bounded fun fs => by
    have targets := resolveBreaks_targets fs (fs.unresolvedbreaks.length - nbreaks)
    exact ⟨targets.ops, targets.optimization, targets.breaks⟩

/-- Taking the increment of a `for` loop out again leaves the code before it. -/
theorem bounded_taken (inc : Option CommaExpr) {f : List LVInstruction → CompilerM Unit}
    (hf : ∀ exp, Bounded (f exp)) : Bounded (do
    let expstart ← getCurrentPos
    forInc inc
    snoozeOpt
    let exp ← takeInstructions (expstart + 1).toNat
    f exp) := by
  have taken : Bounded (do
      let expstart ← getCurrentPos
      forInc inc
      snoozeOpt
      takeInstructions (expstart + 1).toNat) := by
    refine .of_suffix fun c exp c' run => ?_
    obtain ⟨_, c₀, position, run⟩ := bind_ok.mp run
    obtain ⟨_, _, ⟨⟩, position⟩ := bind_ok.mp position
    obtain ⟨rfl, rfl⟩ := pure_ok.mp position
    obtain ⟨_, c₁, inner, run⟩ := bind_ok.mp run
    obtain ⟨_, _, ⟨⟩, run⟩ := bind_ok.mp run
    cases run
    have within : Within .expression ⟨1, Nat.one_pos, by decide⟩ [] False (forInc inc) :=
      within_forInc inc
    obtain ⟨-, grows⟩ := (emits_forInc inc).agree inner
    refine ⟨?_, ?_⟩
    · have start := Code.floor_le .statement c₀.fs.code
      have end_ := Code.floor_le .statement c₁.fs.code
      simp only [FunctionState.code, FunctionState.popInstructions, FunctionState.snoozeOpt,
        FunctionState.getCurrentPos, Code.floor_off, List.length_take] at start end_ grows ⊢
      omega
    · exact breaks_same within inner ▸ List.suffix_refl _
  intro c u c' run
  obtain ⟨pos, c₁, first, run⟩ := bind_ok.mp run
  obtain ⟨_, c₂, second, run⟩ := bind_ok.mp run
  obtain ⟨_, c₃, third, run⟩ := bind_ok.mp run
  obtain ⟨exp, c₄, fourth, run⟩ := bind_ok.mp run
  refine (taken.seq hf) c u c' (bind_ok.mpr ⟨exp, c₄, ?_, run⟩)
  exact bind_ok.mpr ⟨pos, c₁, first, bind_ok.mpr ⟨_, c₂, second,
    bind_ok.mpr ⟨_, c₃, third, fourth⟩⟩⟩

end

/-! ## Statements -/

mutual

theorem bounded_statement (closeframe : Bool) :
    (s : Statement) → Bounded (statement closeframe s)
  | .mk line kind => by
    unfold statement
    exact .seq .get fun _ => .seq (.of emits_addLineInfos within_addLineInfos) fun _ =>
      .seq (bounded_statementKind closeframe kind) fun _ => bounded_snoozeOpt

theorem bounded_statements : (body : List Statement) → Bounded (statements body)
  | [] => by
    unfold statements
    exact .pure
  | s :: rest => by
    unfold statements
    exact .seq (bounded_statement true s) fun _ => bounded_statements rest

theorem bounded_statementKind (closeframe : Bool) :
    (kind : StatementKind) → Bounded (statementKind closeframe kind)
  | .empty => by
    unfold statementKind
    exact .pure
  | .ifThen cond block => by
    unfold statementKind
    exact .seq (bounded_commaExpr cond) fun _ => .seq bounded_popTarget fun _ =>
      .seq bounded_emit fun _ => .seq (bounded_ifBlock block) fun _ =>
      .seq bounded_getCurrentPos fun _ => .setArg1
  | .ifElse cond block else_ => by
    unfold statementKind
    exact .seq (bounded_commaExpr cond) fun _ => .seq bounded_popTarget fun _ =>
      .seq bounded_emit fun _ => .seq (bounded_ifBlock block) fun _ =>
      .seq bounded_getCurrentPos fun _ => .seq bounded_emit fun _ =>
      .seq (bounded_ifBlock else_) fun _ => .seq bounded_getCurrentPos fun _ =>
      .seq .setArg1 fun _ => .setArg1
  | .while cond body => by
    unfold statementKind
    exact .seq bounded_getCurrentPos fun _ => .seq (bounded_commaExpr cond) fun _ =>
      .seq bounded_beginBreakableBlock fun _ => .seq bounded_popTarget fun _ =>
      .seq bounded_emit fun _ => .seq bounded_beginScope fun _ =>
      .seq (bounded_statement true body) fun _ => .seq bounded_endScope fun _ =>
      .seq bounded_getCurrentPos fun _ => .seq bounded_addInstruction fun _ =>
      .seq bounded_getCurrentPos fun _ => .seq .setArg1 fun _ => bounded_endBreakableBlock
  | .doWhile body cond => by
    unfold statementKind
    exact .seq bounded_getCurrentPos fun _ => .seq bounded_beginBreakableBlock fun _ =>
      .seq bounded_beginScope fun _ => .seq (bounded_statement true body) fun _ =>
      .seq bounded_endScope fun _ => .seq bounded_getCurrentPos fun _ =>
      .seq (bounded_commaExpr cond) fun _ => .seq bounded_popTarget fun _ =>
      .seq bounded_addInstruction fun _ => .seq bounded_getCurrentPos fun _ =>
      .seq bounded_addInstruction fun _ => bounded_endBreakableBlock
  | .for init cond inc body => by
    unfold statementKind
    refine .seq bounded_beginScope fun _ => .seq (.of (emits_forInit init) (within_forInit init))
      fun _ => .seq bounded_snoozeOpt fun _ => .seq bounded_getCurrentPos fun _ =>
      .seq (.of (emits_forCond cond) (within_forCond cond)) fun jzpos =>
      .seq bounded_snoozeOpt fun _ => bounded_taken inc fun exp => ?_
    refine .seq bounded_beginBreakableBlock fun start => .seq (bounded_statement true body) fun _ =>
      .seq bounded_getCurrentPos fun _ => .seq (.of (emits_replay exp) (within_replay False.elim))
      fun _ => .seq bounded_getCurrentPos fun _ => .seq bounded_addInstruction fun _ => ?_
    have rest : ∀ scope target, Bounded (do endScope scope; endBreakableBlock start target) :=
      fun _ _ => .seq bounded_endScope fun _ => bounded_endBreakableBlock
    exact .ite (.seq bounded_getCurrentPos fun _ => .seq .setArg1 fun _ => rest _ _) (rest _ _)
  | .forEach idxname valname container body => by
    unfold statementKind
    exact .seq bounded_beginScope fun _ =>
      .seq (.of (emits_expression container) (within_expression container)) fun _ =>
      .seq (.of emits_topTarget within_topTarget) fun _ => .seq bounded_pushLocalVariable fun _ =>
      .seq bounded_addInstruction fun _ => .seq bounded_pushLocalVariable fun _ =>
      .seq bounded_addInstruction fun _ => .seq bounded_pushLocalVariable fun _ =>
      .seq bounded_addInstruction fun _ => .seq bounded_getCurrentPos fun _ =>
      .seq bounded_emit fun _ => .seq bounded_addInstruction fun _ =>
      .seq bounded_beginBreakableBlock fun _ => .seq (bounded_statement true body) fun _ =>
      .seq bounded_getCurrentPos fun _ => .seq bounded_addInstruction fun _ =>
      .seq bounded_getCurrentPos fun _ => .seq .setArg1 fun _ =>
      .seq bounded_getCurrentPos fun _ => .seq .setArg1 fun _ =>
      .seq bounded_endBreakableBlock fun _ => .seq bounded_popTarget fun _ => bounded_endScope
  | .switch e cases default => by
    rw [switch_eq]
    exact .seq (bounded_commaExpr e) fun _ =>
      .seq (bounded_switchTests fun expr => bounded_switchCases expr none cases) fun _ =>
      .seq (bounded_switchDefault default) fun _ => bounded_switchTail
  | .localDecl d => by
    unfold statementKind
    exact .of (emits_localDeclStatement d) (within_localDeclStatement d)
  | .return none => by
    unfold statementKind
    exact .of emits_emitReturn (within_emitReturn (.inl rfl))
  | .return (some e) => by
    unfold statementKind
    exact .seq bounded_getCurrentPos fun _ => .seq (bounded_commaExpr e) fun _ =>
      .of emits_emitReturn (within_emitReturn (.inl rfl))
  | .yield none => by
    unfold statementKind
    exact .seq (.updateFs fun _ => ⟨rfl, rfl, rfl⟩) fun _ =>
      .of emits_emitReturn (within_emitReturn (.inr rfl))
  | .yield (some e) => by
    unfold statementKind
    exact .seq (.updateFs fun _ => ⟨rfl, rfl, rfl⟩) fun _ => .seq bounded_getCurrentPos fun _ =>
      .seq (bounded_commaExpr e) fun _ => .of emits_emitReturn (within_emitReturn (.inr rfl))
  | .break => by
    unfold statementKind
    exact bounded_emitBreak
  | .continue => by
    unfold statementKind
    exact bounded_emitContinue
  | .function id path f => by
    unfold statementKind
    exact .seq (.updateFs fun _ => ⟨rfl, rfl, rfl⟩) fun _ =>
      .seq (.of (emits_functionPath id path) (within_functionPath id path)) fun _ =>
      .seq (.of (emits_createFunction f) (within_createFunction f)) fun _ =>
      .seq (.of opens_emitClosure.emits within_emitClosure) fun _ =>
      .seq (.of (opens_emitDerefOp rfl).emits (within_emitDerefOp (.inr rfl))) fun _ =>
      .seq bounded_popTarget fun _ => .pure
  | .class isabstract name k => by
    unfold statementKind
    have restore : ∀ es, Bounded (setEs es) := fun es => .of emits_setEs within_setEs
    refine .seq (.of emits_getEs within_getEs) fun es => .seq (restore _) fun _ =>
      .seq (.of (emits_prefixedExpr _ name) (within_prefixedExpr _ name)) fun _ =>
      .seq (.of emits_getEs within_getEs) fun inner => ?_
    cases inner.etype with
    | OBJECT | BASE =>
      exact .seq (.of (opens_classExp _ k).emits (within_classExp _ k)) fun _ =>
        .seq (.of (opens_emitDerefOp rfl).emits (within_emitDerefOp (.inr rfl))) fun _ =>
        .seq bounded_popTarget fun _ => restore es
    | EXPR | LOCAL | OUTER => exact .seq .fail fun _ => restore es
  | .enum id entries => by
    unfold statementKind
    exact .of emits_addConstant within_addConstant
  | .block body => by
    unfold statementKind
    exact .seq bounded_beginScope fun _ => .seq (bounded_statements body) fun _ =>
      .ite bounded_endScope (.of emits_endScopeNoClose within_endScopeNoClose)
  | .tryCatch body exid handler => by
    unfold statementKind
    exact .seq bounded_emit fun _ => .seq (.updateFs fun _ => ⟨rfl, rfl, rfl⟩) fun _ =>
      .seq bounded_beginScope fun _ => .seq (bounded_statement true body) fun _ =>
      .seq bounded_endScope fun _ => .seq (.updateFs fun _ => ⟨rfl, rfl, rfl⟩) fun _ =>
      .seq bounded_addInstruction fun _ => .seq bounded_emit fun _ =>
      .seq bounded_getCurrentPos fun _ => .seq .setArg1 fun _ => .seq bounded_beginScope fun _ =>
      .seq bounded_pushLocalVariable fun _ => .seq .setArg0 fun _ =>
      .seq (bounded_statement true handler) fun _ => .seq bounded_getCurrentPos fun _ =>
      .seq (.modify fun _ => rfl) fun _ => bounded_endScope
  | .throw e => by
    unfold statementKind
    exact .seq (bounded_commaExpr e) fun _ => .seq bounded_popTarget fun _ => bounded_addInstruction
  | .const id value => by
    unfold statementKind
    exact .of emits_addConstant within_addConstant
  | .expression e => by
    unfold statementKind
    exact .seq (bounded_commaExpr e) fun _ => .of emits_discardTarget within_discardTarget

theorem bounded_ifBlock : (block : IfBlock) → Bounded (ifBlock block)
  | .braces body => by
    unfold ifBlock
    exact .seq bounded_beginScope fun _ => .seq (bounded_statements body) fun _ => bounded_endScope
  | .single s => by
    unfold ifBlock
    exact bounded_statement true s

theorem bounded_switchCases (expr : Nat) (tonext : Option Nat) : (cases : List SwitchCase) →
    Bounded (switchCases expr tonext cases)
  | [] => by
    unfold switchCases
    exact .pure
  | case :: rest => by
    unfold switchCases
    have tested : ∀ skip, Bounded (do
        let jz ← switchCase expr skip case
        switchCases expr (some jz) rest) := fun skip =>
      .seq (bounded_switchCase expr skip case) fun jz => bounded_switchCases expr (some jz) rest
    cases tonext with
    | none => exact tested none
    | some pos =>
      exact .seq bounded_emit fun skip => .seq bounded_getCurrentPos fun _ =>
        .seq .setArg1 fun _ => tested (some skip)

theorem bounded_switchCase (expr : Nat) (skip : Option Nat) : (case : SwitchCase) →
    Bounded (switchCase expr skip case)
  | .mk label body => by
    unfold switchCase
    have block : ∀ jz, Bounded (do
        let scope ← beginScope
        statements body
        endScope scope
        return jz : CompilerM Nat) := fun jz =>
      .seq bounded_beginScope fun _ => .seq (bounded_statements body) fun _ =>
        .seq bounded_endScope fun _ => .pure
    refine .seq (.of (emits_expression label) (within_expression label)) fun _ =>
      .seq (.of opens_emitCaseTest.emits (within_emitCaseTest False.elim)) fun jz => ?_
    cases skip with
    | none => exact block jz
    | some pos =>
      exact .seq bounded_getCurrentPos fun _ => .seq .setArg1 fun _ => block jz

theorem bounded_switchDefault : (default : Option (List Statement)) →
    Bounded (switchDefault default)
  | none => by
    unfold switchDefault
    exact .pure
  | some body => by
    unfold switchDefault
    exact .seq bounded_beginScope fun _ => .seq (bounded_statements body) fun _ => bounded_endScope

end

/-! ## The jumps of one block -/

/-- The jumps that wait, but for the outer ones `N`, are such. -/
def Waiting (N : List Nat) (P : Nat → Prop) (c : LVCompiler) : Prop :=
  ∃ new, c.fs.unresolvedbreaks = new ++ N ∧ ∀ pos ∈ new, P pos

section

variable {α : Type} {m : CompilerM α} {Q : α → Prop} {N : List Nat} {c c' : LVCompiler} {a : α}

theorem Waiting.congr {P : Nat → Prop} (waits : Waiting N P c)
    (same : c'.fs.unresolvedbreaks = c.fs.unresolvedbreaks) : Waiting N P c' := by
  rw [Waiting, same]
  exact waits

theorem Waiting.mono {P P' : Nat → Prop} (waits : Waiting N P c) (imp : ∀ pos, P pos → P' pos) :
    Waiting N P' c := by
  obtain ⟨new, eq, such⟩ := waits
  exact ⟨new, eq, fun pos mem => imp pos (such pos mem)⟩

/-- The jumps that wait after a production come before those of `c`. -/
theorem Emits.waiting {b : Nat} (h : Emits .statement b c.fs.unresolvedbreaks
      c.fs.unresolvedcontinues m Q) (le : b ≤ c.fs.code.floor .statement)
    (run : m c = .ok (a, c')) : Above b c.fs.unresolvedbreaks c'.fs.unresolvedbreaks := by
  obtain ⟨-, -, ready, -⟩ := h c a c' ⟨le, .refl _ _, .refl _ _⟩ run
  exact ready.breaks

/-- A position below `b` is none of theirs. -/
theorem Waiting.spares {pos b : Nat} (waits : Waiting N (· ≠ pos) c) (below : pos < b)
    (le : b ≤ c.fs.code.floor .statement)
    (h : Emits .statement b c.fs.unresolvedbreaks c.fs.unresolvedcontinues m Q)
    (run : m c = .ok (a, c')) : Waiting N (· ≠ pos) c' := by
  obtain ⟨old, eq, others⟩ := waits
  obtain ⟨new, eq', above⟩ := h.waiting le run
  refine ⟨new ++ old, by rw [eq', eq, List.append_assoc], ?_⟩
  rw [List.forall_mem_append]
  exact ⟨fun k mem => (below.trans_le (above k mem)).ne', others⟩

theorem Bounded.waiting (bounded : Bounded m) (waits : Waiting N (· < c.fs.code.floor .statement) c)
    (h : Emits .statement (c.fs.code.floor .statement) c.fs.unresolvedbreaks
      c.fs.unresolvedcontinues m Q) (run : m c = .ok (a, c')) :
    Waiting N (· < c'.fs.code.floor .statement) c' := by
  obtain ⟨before, eq, below⟩ := waits
  obtain ⟨new, eq', -⟩ := h.waiting le_rfl run
  obtain ⟨grows, new', old', eq'', ⟨gone, suffix⟩, below'⟩ := bounded c a c' run
  refine ⟨new ++ before, by rw [eq', eq, List.append_assoc], ?_⟩
  rw [List.forall_mem_append]
  refine ⟨fun pos mem => below' pos ?_, fun pos mem => (below pos mem).trans_le grows⟩
  -- what is new waits before the jumps that were there
  have split : (new ++ gone) ++ old' = new' ++ old' := by
    rw [List.append_assoc, suffix, ← eq', eq'']
  rw [← List.append_cancel_right split]
  exact List.mem_append_left _ mem

end

end Lavril
