import Lavril.Bare
import Lavril.Breaks
import Lavril.Machine
import Mathlib.Data.List.Chain

/-!
# The default part of a `switch`

A test that fails jumps behind the block of its case, and the last one to the
default part. Where that block ends in a `CLOSE` and the default part starts with
a `RETURN`, the optimiser puts the `RETURN` in the place of the `CLOSE`, in front
of the target of the jump.
-/

namespace Lavril

open LVCompiler

/-! ## Statements that start with a `RETURN` -/

/-- What decides, where a statement starts, which instruction it emits first. -/
structure Point where
  locals : String → Bool
  traps : Int
  /-- The line of the last `LINE`, where lines are recorded. -/
  line : Option Int

def LVCompiler.point (c : LVCompiler) : Point where
  locals := c.locals
  traps := c.fs.traps
  line := if c.lineinfo then some c.fs.lastline else none

mutual

def Statement.returnsAtOnce (p : Point) : Statement → Bool
  | .mk line kind => p.line.all (· = line) && kind.returnsAtOnce p

def StatementKind.returnsAtOnce (p : Point) : StatementKind → Bool
  | .return none => p.traps ≤ 0
  | .return (some e) => decide (p.traps ≤ 0) && e.bare p.locals
  | .block body => startsWithReturn p body
  | .doWhile body _ => body.returnsAtOnce p
  | .switch e [] (some body) => e.bare p.locals && startsWithReturn p body
  | _ => false

def startsWithReturn (p : Point) : List Statement → Bool
  | [] => false
  | s :: _ => s.returnsAtOnce p

end

section

variable {b : Nat} {B C : List Nat} {c c' : LVCompiler}

/-- The code ends at `b` in a `CLOSE` that the optimiser may still replace. -/
structure Sealed (b : Nat) (B C : List Nat) (c : LVCompiler) : Prop where
  unopened : Unopened b B C c
  optimization : c.fs.optimization = true
  last : c.fs.instructions.getLast?.map (·.op) = some .OP_CLOSE

/-- A `RETURN` stands where the `CLOSE` was. -/
structure Returned (b : Nat) (B C : List Nat) (c' : LVCompiler) : Prop where
  ready : Ready .statement b B C c'
  replaced : c'.fs.instructions[b - 1]?.map (·.op) = some .OP_RETURN

theorem Sealed.congr (closed : Sealed b B C c) (same : SameCode c.fs c'.fs) : Sealed b B C c' := by
  have instructions := congrArg Code.instructions same.code
  have length := congrArg List.length instructions
  refine ⟨⟨closed.unopened.ready.congr same, length.trans closed.unopened.length⟩, ?_, ?_⟩
  · exact (congrArg Code.optimization same.code).trans closed.optimization
  · rw [show c'.fs.instructions = c.fs.instructions from instructions]
    exact closed.last

theorem Sealed.front (closed : Sealed b B C c) : ∃ front pi,
    c.fs.instructions = front ++ [pi] ∧ pi.op = .OP_CLOSE ∧ b = front.length + 1 := by
  obtain ⟨pi, last, op⟩ := Option.map_eq_some_iff.mp closed.last
  obtain ⟨front, eq⟩ := List.getLast?_eq_some_iff.mp last
  refine ⟨front, pi, eq, op, ?_⟩
  rw [← closed.unopened.length, eq]
  simp

theorem Returned.trans {α : Type} {m : CompilerM α} {Q : α → Prop} {c₁ c₂ : LVCompiler} {a : α}
    (returned : Returned b B C c₁) (pos : 0 < b) (h : Emits .statement b B C m Q)
    (run : m c₁ = .ok (a, c₂)) : Returned b B C c₂ := by
  obtain ⟨steps, -, ready, -⟩ := h c₁ a c₂ returned.ready run
  have agree := (steps.preserves returned.ready.floor).1 (b - 1) (by omega)
  refine ⟨ready, ?_⟩
  rw [← returned.replaced]
  exact congrArg (Option.map (·.op)) agree

/-- Nothing stands between the `CLOSE` and the `RETURN`. -/
theorem return_replaces (closed : Sealed b B C c) {i : LVInstruction} (op : i.op = .OP_RETURN) :
    Returned b B C { c with fs := c.fs.addInstruction i } := by
  obtain ⟨front, pi, eq, close, rfl⟩ := closed.front
  have last : c.fs.instructions.getLast? = some pi := by simp [eq]
  have merged : c.fs.rewriting pi i = .merged i true := by
    simp [FunctionState.rewriting, op, close]
  have code : c.fs.addInstruction i =
      { c.fs with instructions := front ++ [i], optimization := true } := by
    rw [c.fs.addInstruction_on i closed.optimization last, merged, eq, List.dropLast_concat]
  have ready := closed.unopened.ready
  refine ⟨⟨?_, ?_, ?_⟩, ?_⟩
  · rw [code]
    simp [FunctionState.code, Code.floor, fusable, op, FunctionState.retargetable, discardable]
  · rw [code]
    exact ready.breaks
  · rw [code]
    exact ready.continues
  · simp [code, op]

/-- Line information comes behind a `CLOSE`. -/
theorem line_opens (closed : Sealed b B C c) (line : Int) :
    Opened b B C c { c with fs := c.fs.addInstruction (instruction .OP_LINE 0 line) } := by
  obtain ⟨front, pi, eq, close, rfl⟩ := closed.front
  have last : c.fs.instructions.getLast? = some pi := by simp [eq]
  have both : c.fs.rewriting pi (instruction .OP_LINE 0 line) =
      .both pi (instruction .OP_LINE 0 line) := by
    simp [FunctionState.rewriting, instruction, close]
  have code : c.fs.addInstruction (instruction .OP_LINE 0 line) =
      { c.fs with
        optimization := true
        instructions := front ++ [pi, instruction .OP_LINE 0 line] } := by
    rw [c.fs.addInstruction_on _ closed.optimization last, both, eq, List.dropLast_concat]
  have ready := closed.unopened.ready
  refine ⟨?_, ⟨?_, ?_, ?_⟩⟩
  · rw [code]
    intro k lt
    simp only [FunctionState.code, eq]
    rw [show front ++ [pi, instruction .OP_LINE 0 line] =
        (front ++ [pi]) ++ [instruction .OP_LINE 0 line] by simp,
      List.getElem?_append_left (by simpa using lt)]
  · rw [code]
    refine le_trans ?_ (Code.length_pred_le_floor .statement _)
    simp [FunctionState.code]
  · rw [code]
    exact ready.breaks
  · rw [code]
    exact ready.continues

/-- What becomes of a `CLOSE` at the end of the code. -/
structure Begins (returns : Bool) (b : Nat) (B C : List Nat) (c c' : LVCompiler) : Prop where
  returned : returns = true → Returned b B C c'
  kept : returns = false → Opened b B C c c' ∨ Still b B C c c'

theorem Begins.opened (opened : Opened b B C c c') : Begins false b B C c c' :=
  ⟨fun returns => (Bool.false_ne_true returns).elim, fun _ => .inl opened⟩

theorem Begins.quiet (h : Opened b B C c c' ∨ Still b B C c c') : Begins false b B C c c' :=
  ⟨fun returns => (Bool.false_ne_true returns).elim, fun _ => h⟩

theorem Begins.opens {α : Type} {lvl : Level} {m : CompilerM α} {a : α} (closed : Sealed b B C c)
    (run : m c = .ok (a, c')) (h : Opens lvl b B C m) : Begins false b B C c c' :=
  .opened (h.opened _ _ _ closed.unopened run).1

theorem Begins.still (still : Still b B C c c') : Begins false b B C c c' :=
  ⟨fun returns => (Bool.false_ne_true returns).elim, fun _ => .inr still⟩

theorem Still.begins {returns : Bool} {c₁ : LVCompiler} (still : Still b B C c c₁)
    (begins : Begins returns b B C c₁ c') : Begins returns b B C c c' :=
  ⟨begins.returned, fun other => (begins.kept other).imp still.opened still.trans⟩

theorem Sealed.pos (closed : Sealed b B C c) : 0 < b := by
  obtain ⟨front, -, -, -, rfl⟩ := closed.front
  omega

theorem Still.closed (still : Still b B C c c') (closed : Sealed b B C c) : Sealed b B C c' := by
  have instructions : c'.fs.instructions = c.fs.instructions := congrArg Code.instructions still.2
  refine ⟨still.1, (congrArg Code.optimization still.2).trans closed.optimization, ?_⟩
  rw [instructions]
  exact closed.last

theorem PushesLocal.point (pushed : PushesLocal c c') : c'.point = c.point := by
  obtain ⟨⟨n, lvi, -, -, eq⟩, line, -⟩ := pushed
  have locals : c'.locals = c.locals := by
    funext id
    rw [LVCompiler.locals, eq]
    rfl
  simp only [LVCompiler.point, locals, eq, line]
  rfl

theorem Begins.then {α : Type} {returns : Bool} {m : CompilerM α} {Q : α → Prop} {a : α}
    {c₁ : LVCompiler} (begins : Begins returns b B C c c₁) (closed : Sealed b B C c)
    (h : Emits .expression b B C m Q) (run : m c₁ = .ok (a, c')) : Begins returns b B C c c' := by
  refine ⟨fun ret => (begins.returned ret).trans closed.pos h.statement run, fun other => ?_⟩
  rcases begins.kept other with opened | still
  · exact .inl (opened.trans h run).1
  · exact (h.starts still.1 run).imp still.opened still.trans

/-- Where no `LINE` is due, line information changes neither the code nor the point. -/
theorem addLineInfos_quiet {line : Int} (here : c.point.line.all (· = line) = true) :
    SameCode c.fs (c.fs.addLineInfos line c.lineinfo) ∧
      ({ c with fs := c.fs.addLineInfos line c.lineinfo } : LVCompiler).point = c.point := by
  cases lines : c.lineinfo with
  | false =>
    unfold FunctionState.addLineInfos
    split
    · refine ⟨⟨rfl, rfl, rfl⟩, ?_⟩
      simp only [LVCompiler.point, lines]
      rfl
    · exact ⟨.refl _, by rw [← lines]⟩
  | true =>
    simp only [LVCompiler.point, lines, if_true, Option.all_some, decide_eq_true_eq] at here
    have same : c.fs.addLineInfos line true = c.fs := by
      rw [FunctionState.addLineInfos, if_neg (by simp [here])]
    rw [same]
    exact ⟨.refl _, by rw [← lines]⟩

theorem addLineInfos_due {line : Int} (closed : Sealed b B C c)
    (due : c.point.line.all (· = line) = false) :
    Opened b B C c { c with fs := c.fs.addLineInfos line c.lineinfo } := by
  cases lines : c.lineinfo with
  | false => simp [LVCompiler.point, lines] at due
  | true =>
    simp only [LVCompiler.point, lines, if_true, Option.all_some, decide_eq_false_iff_not] at due
    have opened := line_opens closed line
    have same := addLineInfos_same c.fs line true false
    rw [if_pos ⟨.inl due, rfl⟩] at same
    refine ⟨?_, opened.ready.congr same⟩
    intro k lt
    exact (congrArg (·.instructions[k]?) same.code).trans (opened.agree k lt)

/-- A bare expression leaves the end of the code as it is, any other one opens it. -/
theorem commaExpr_begins {e : CommaExpr} (closed : Sealed b B C c)
    (run : commaExpr e c = .ok ((), c')) :
    Opened b B C c c' ∧ e.bare c.point.locals = false ∨
      Sealed b B C c' ∧ Still b B C c c' ∧ c'.point = c.point ∧ e.bare c.point.locals = true := by
  cases bare : e.bare c.locals with
  | false => exact .inl ⟨commaExpr_opens e closed.unopened bare run, bare⟩
  | true =>
    have pushed := commaExpr_bare e bare run
    have still := pushed.still closed.unopened
    exact .inr ⟨still.closed closed, still, pushed.point, bare⟩

theorem popTarget_keeps {n : Nat} (run : popTarget c = .ok (n, c')) : SameCode c.fs c'.fs := by
  unfold popTarget liftFs at run
  split at run
  · rename_i popped
    cases run
    exact popTarget_same popped
  · cases run

theorem return_begins {i : LVInstruction} {c₁ : LVCompiler} (closed : Sealed b B C c)
    (same : SameCode c.fs c₁.fs) (op : i.op = .OP_RETURN) :
    Begins true b B C c { c₁ with fs := c₁.fs.addInstruction i } :=
  ⟨fun _ => return_replaces (closed.congr same) op, fun kept => (Bool.false_ne_true kept.symm).elim⟩

/-- Only the traps of the function come before the `RETURN`. -/
theorem emitReturn_begins {retexp : Option Int} {u : Unit} (closed : Sealed b B C c)
    (run : emitReturn .OP_RETURN retexp c = .ok (u, c')) :
    Begins (decide (c.point.traps ≤ 0)) b B C c c' := by
  unfold emitReturn at run
  obtain ⟨c₀, c₁, ⟨⟩, run⟩ := bind_ok.mp run
  by_cases traps : c.fs.traps > 0
  · rw [if_pos ⟨rfl, traps⟩] at run
    rw [show decide (c.point.traps ≤ 0) = false from decide_eq_false (not_le.mpr traps)]
    refine .opened (@Opens.opened _ .statement _ _ _ _ (fun _ => True)
      (.seq (opens_addInstruction rfl) fun _ => ?_) _ _ _ closed.unopened run).1
    cases retexp with
    | none =>
      exact .seq (.updateFs fun _ => ⟨rfl, rfl, rfl⟩) fun _ => .seq .get fun _ =>
        emits_statementInstruction
    | some retexp =>
      exact .seq (.updateFs fun _ => ⟨rfl, rfl, rfl⟩) fun _ => .seq emits_popTarget fun _ =>
        .seq .get fun _ => emits_statementInstruction
  · rw [if_neg fun h => traps h.2] at run
    rw [show decide (c.point.traps ≤ 0) = true from decide_eq_true (not_lt.mp traps)]
    cases retexp with
    | none =>
      obtain ⟨_, _, ⟨⟩, run⟩ := bind_ok.mp run
      obtain ⟨_, _, ⟨⟩, run⟩ := bind_ok.mp run
      cases run
      exact return_begins closed ⟨rfl, rfl, rfl⟩ rfl
    | some retexp =>
      obtain ⟨_, _, ⟨⟩, run⟩ := bind_ok.mp run
      obtain ⟨src, c₂, pop, run⟩ := bind_ok.mp run
      obtain ⟨_, _, ⟨⟩, run⟩ := bind_ok.mp run
      cases run
      have same := popTarget_keeps pop
      exact return_begins closed ⟨same.code, same.breaks, same.continues⟩ rfl

theorem pushTarget_code {n : Nat} (run : pushTarget c = .ok (n, c')) :
    SameCode c.fs c'.fs ∧ n = c.fs.vlocals.length := by
  unfold pushTarget liftFs FunctionState.pushTarget at run
  cases alloc : c.fs.allocStackPos with
  | error e => rw [alloc] at run; cases run
  | ok r =>
    rw [alloc] at run
    cases run
    have same := allocStackPos_same alloc
    refine ⟨⟨same.code, same.breaks, same.continues⟩, ?_⟩
    simp only [FunctionState.allocStackPos] at alloc
    split at alloc
    · split at alloc
      · cases alloc
      · cases alloc
        rfl
    · cases alloc
      rfl

/-- Entering a scope is no step of the code, and the statements in it start where it does. -/
theorem beginScope_quiet {scope : Scope} (run : beginScope c = .ok (scope, c')) :
    SameCode c.fs c'.fs ∧ c'.point = c.point := by
  cases run
  exact ⟨.refl _, rfl⟩

theorem beginBreakableBlock_quiet {start : Nat × Nat}
    (run : beginBreakableBlock c = .ok (start, c')) :
    SameCode c.fs c'.fs ∧ c'.point = c.point ∧
      start = (c.fs.unresolvedbreaks.length, c.fs.unresolvedcontinues.length) := by
  cases run
  exact ⟨⟨rfl, rfl, rfl⟩, rfl, rfl⟩

/-- The value of a local is moved to the new one. -/
theorem declarator_opens {d : Declarator} {u : Unit} (start : Unopened b B C c)
    (run : declarator d c = .ok (u, c')) : Opened b B C c c' := by
  obtain ⟨name, value⟩ := d
  cases value with
  | none =>
    unfold declarator at run
    exact Still.opens ⟨start, rfl⟩ run (.then emits_pushTarget fun _ =>
      .seq (opens_addInstruction rfl) fun _ => emits_emitDeclarator)
  | some e =>
    unfold declarator at run
    obtain ⟨_, c₁, value, run⟩ := bind_ok.mp run
    cases bare : e.bare c.locals with
    | false =>
      have opened := expression_opens e start bare value
      refine (opened.trans (?_ : Emits .expression _ _ _ _) run).1
      exact .seq emits_popTarget fun _ => .seq emits_pushTarget fun _ =>
        .guarded (emits_addInstruction rfl) emits_emitDeclarator
    | true =>
      have pushed := expression_bare e bare value
      obtain ⟨src, c₂, pop, run⟩ := bind_ok.mp run
      obtain ⟨dest, c₃, push, run⟩ := bind_ok.mp run
      obtain ⟨fs, -, -, below⟩ := pushed.pop pop
      obtain ⟨same, rfl⟩ := pushTarget_code push
      have ne : c₂.fs.vlocals.length ≠ src := by
        rw [fs]
        exact below.ne'
      rw [if_pos ne] at run
      have still : Still b B C c c₃ := .of_same start (fs ▸ same)
      exact still.opens run (.seq (opens_addInstruction rfl) fun _ => emits_emitDeclarator)

theorem localDeclStatement_opens {d : LocalDecl} {u : Unit} (start : Unopened b B C c)
    (run : localDeclStatement d c = .ok (u, c')) : Opened b B C c c' := by
  cases d with
  | function name f =>
    unfold localDeclStatement at run
    exact Still.opens ⟨start, rfl⟩ run (.then (emits_createFunction f) fun _ =>
      .seq opens_emitClosure fun _ => .seq emits_popTarget fun _ => .seq emits_pushLocalVariable
        fun _ => .pure trivial)
  | vars first rest =>
    unfold localDeclStatement at run
    obtain ⟨_, c₁, declared, run⟩ := bind_ok.mp run
    have opened := declarator_opens start declared
    exact (opened.trans (emits_declarators rest : Emits .expression _ _ _ _) run).1

theorem opens_switchTests {case : SwitchCase} {rest : List SwitchCase} :
    Opens .statement b B C (switchTests (case :: rest)) fun parts => B.length ≤ parts.1 := by
  have jumps : ∀ expr, Opens .statement b B C (switchCases expr none (case :: rest)) fun last =>
      ∀ pos, last = some pos → b ≤ pos := by
    intro expr
    have first : Opens .statement b B C (do
        let jz ← switchCase expr none case
        switchCases expr (some jz) rest) fun last => ∀ pos, last = some pos → b ≤ pos :=
      .bind (opens_switchCase expr none (by simp) case) fun jz above =>
        emits_switchCases expr (some jz) (by simpa using above) rest
    unfold switchCases
    exact first
  refine .then emits_topTarget fun expr => .after .get fun c ready =>
    .then (.updateFs fun _ => ⟨rfl, rfl, rfl⟩) fun _ => .bind (jumps expr) fun tonext above => ?_
  cases tonext with
  | none => exact .pure ready.breaks.length
  | some pos =>
    exact .seq emits_getCurrentPos fun _ => .seq (emits_setArg1 (above pos rfl)) fun _ =>
      .pure ready.breaks.length

theorem topTarget_quiet {n : Nat} (run : topTarget c = .ok (n, c')) : c' = c := by
  unfold topTarget liftFs at run
  cases top : c.fs.topTarget with
  | error e => simp [top, bind, Except.bind] at run
  | ok n =>
    simp only [top, bind, Except.bind, pure, Except.pure] at run
    cases run
    rfl

/-- Without tests nothing is emitted. -/
theorem switchTests_quiet {nbreaks : Nat} {last : Option Nat}
    (run : switchTests [] c = .ok ((nbreaks, last), c')) :
    SameCode c.fs c'.fs ∧ c'.point = c.point ∧ nbreaks = c.fs.unresolvedbreaks.length := by
  unfold switchTests at run
  obtain ⟨expr, c₁, top, rest⟩ := bind_ok.mp run
  obtain rfl := topTarget_quiet top
  obtain ⟨_, _, ⟨⟩, rest⟩ := bind_ok.mp rest
  obtain ⟨_, _, ⟨⟩, rest⟩ := bind_ok.mp rest
  unfold switchCases at rest
  cases rest
  exact ⟨⟨rfl, rfl, rfl⟩, rfl, rfl⟩

theorem emits_noStatements {lvl : Level} : Emits lvl b B C (statements []) := by
  unfold statements
  exact .pure trivial

theorem discardTarget_still {u : Unit} (closed : Sealed b B C c)
    (run : discardTarget c = .ok (u, c')) : Still b B C c c' := by
  unfold discardTarget liftFs at run
  cases discarded : c.fs.discardTarget with
  | error e => simp [discarded, bind, Except.bind] at run
  | ok fs =>
    simp only [discarded, bind, Except.bind, pure, Except.pure] at run
    cases run
    obtain ⟨n, fs₁, popped, eq | ⟨code, pi, start, kind, -, -⟩⟩ := discardTarget_cases discarded
    · subst eq
      exact .of_same closed.unopened (popTarget_same popped)
    · rw [(popTarget_same popped).code] at start
      obtain ⟨front, pi', eq, close, -⟩ := closed.front
      have last := congrArg Code.instructions start
      simp only [FunctionState.code, eq] at last
      obtain ⟨-, rfl⟩ := List.append_singleton_inj.mp last
      rw [close] at kind
      cases kind

mutual

theorem statement_begins {b : Nat} {B C : List Nat} {c c' : LVCompiler} {closeframe : Bool} :
    (s : Statement) → Sealed b B C c → statement closeframe s c = .ok ((), c') →
      (s.returnsAtOnce c.point = true → Returned b B C c') ∧
      (s.returnsAtOnce c.point = false → Opened b B C c c')
  | .mk line kind, closed, run => by
    unfold statement at run
    unfold Statement.returnsAtOnce
    obtain ⟨_, _, ⟨⟩, run⟩ := bind_ok.mp run
    obtain ⟨_, _, ⟨⟩, run⟩ := bind_ok.mp run
    obtain ⟨_, c₂, inner, snooze⟩ := bind_ok.mp run
    cases due : c.point.line.all (· = line) with
    | false =>
      have opened := addLineInfos_due closed due
      refine ⟨fun returns => by simp at returns, fun _ => ?_⟩
      have opened := (opened.trans (emits_statementKind closeframe kind) inner).1
      exact (opened.trans (emits_snoozeOpt : Emits .statement _ _ _ _) snooze).1
    | true =>
      obtain ⟨same, point⟩ := addLineInfos_quiet due
      have begins := statementKind_begins kind (closed.congr same) inner
      rw [point] at begins
      rw [Bool.true_and]
      refine ⟨fun returns => (begins.returned returns).trans closed.pos emits_snoozeOpt snooze,
        fun other => ?_⟩
      have before : Still b B C c { c with fs := c.fs.addLineInfos line c.lineinfo } :=
        .of_same closed.unopened same
      rcases begins.kept other with opened | still
      · exact ((before.opened opened).trans (emits_snoozeOpt : Emits .statement _ _ _ _) snooze).1
      · exact before.opened (still.opens snooze opens_snoozeOpt)

theorem statements_begins {b : Nat} {B C : List Nat} {c c' : LVCompiler} :
    (body : List Statement) → Sealed b B C c → statements body c = .ok ((), c') →
      Begins (startsWithReturn c.point body) b B C c c'
  | [], closed, run => .quiet (emits_noStatements.starts closed.unopened run)
  | s :: rest, closed, run => by
    unfold statements at run
    unfold startsWithReturn
    obtain ⟨_, c₁, first, run⟩ := bind_ok.mp run
    obtain ⟨returned, opened⟩ := statement_begins s closed first
    exact ⟨fun returns => (returned returns).trans closed.pos (emits_statements rest) run,
      fun other => .inl ((opened other).trans (emits_statements rest) run).1⟩

theorem statementKind_begins {b : Nat} {B C : List Nat} {c c' : LVCompiler} {closeframe : Bool} :
    (kind : StatementKind) → Sealed b B C c → statementKind closeframe kind c = .ok ((), c') →
      Begins (kind.returnsAtOnce c.point) b B C c c'
  | .empty, closed, run => by
    unfold statementKind at run
    obtain ⟨-, rfl⟩ := pure_ok.mp run
    exact .still (.of_same closed.unopened (.refl _))
  | .enum _ _, closed, run | .const _ _, closed, run => by
    unfold statementKind at run
    cases run
    exact .still (.of_same closed.unopened (.refl _))
  | .ifThen cond block, closed, run =>
    .opens closed run (opens_ifThen (emits_commaExpr cond) (emits_ifBlock block))
  | .ifElse cond block else_, closed, run =>
    .opens closed run
      (opens_ifElse (emits_commaExpr cond) (emits_ifBlock block) (emits_ifBlock else_))
  | .while cond body, closed, run =>
    .opens closed run (opens_while (emits_commaExpr cond) (emits_statement true body))
  | .for init cond inc body, closed, run =>
    .opens closed run (opens_for (emits_forInit init) (emits_forCond cond) (emits_forInc inc)
      (emits_statement true body))
  | .forEach _ _ container body, closed, run =>
    .opens closed run (opens_forEach (emits_expression container) (emits_statement true body))
  | .yield none, closed, run => .opens closed run (opens_yield (by simp))
  | .yield (some e), closed, run =>
    .opens closed run (opens_yield fun _ eq => by cases eq; exact emits_commaExpr e)
  | .break, closed, run => by
    unfold statementKind at run
    exact .opens closed run opens_emitBreak
  | .continue, closed, run => by
    unfold statementKind at run
    exact .opens closed run opens_emitContinue
  | .function _ _ f, closed, run => .opens closed run (opens_function (emits_createFunction f))
  | .class _ name k, closed, run =>
    .opens closed run
      (opens_class (emits_prefixedExpr _ name) fun abstract => (opens_classExp abstract k).emits)
  | .tryCatch body _ handler, closed, run =>
    .opens closed run (opens_tryCatch (emits_statement true body) (emits_statement true handler))
  | .throw e, closed, run => .opens closed run (opens_throw (emits_commaExpr e))
  | .localDecl d, closed, run => by
    unfold statementKind at run
    exact .opened (localDeclStatement_opens closed.unopened run)
  | .return none, closed, run => by
    unfold statementKind at run
    exact emitReturn_begins closed run
  | .return (some e), closed, run => by
    unfold statementKind at run
    unfold StatementKind.returnsAtOnce
    obtain ⟨_, _, position, run⟩ := bind_ok.mp run
    obtain ⟨_, _, ⟨⟩, position⟩ := bind_ok.mp position
    cases position
    obtain ⟨_, c₁, value, run⟩ := bind_ok.mp run
    rcases commaExpr_begins closed value with ⟨opened, bare⟩ | ⟨closed₁, still, point, bare⟩
    · rw [bare, Bool.and_false]
      exact .opened (opened.trans emits_emitReturn run).1
    · have begins := emitReturn_begins closed₁ run
      rw [point] at begins
      rw [bare, Bool.and_true]
      exact ⟨begins.returned, fun other => (begins.kept other).imp still.opened still.trans⟩
  | .expression e, closed, run => by
    unfold statementKind at run
    obtain ⟨_, c₁, value, run⟩ := bind_ok.mp run
    rcases commaExpr_begins closed value with ⟨opened, -⟩ | ⟨closed₁, still, -⟩
    · exact .opened (opened.trans emits_discardTarget run).1
    · exact .still (still.trans (discardTarget_still closed₁ run))
  | .block body, closed, run => by
    unfold statementKind at run
    unfold StatementKind.returnsAtOnce
    obtain ⟨scope, c₁, enter, run⟩ := bind_ok.mp run
    obtain ⟨_, c₂, inner, run⟩ := bind_ok.mp run
    obtain ⟨same, point⟩ := beginScope_quiet enter
    have begins := statements_begins body (closed.congr same) inner
    rw [point] at begins
    exact ((Still.of_same closed.unopened same).begins begins).then closed
      (.ite emits_endScope emits_endScopeNoClose) run
  | .doWhile body cond, closed, run => by
    unfold statementKind at run
    unfold StatementKind.returnsAtOnce
    obtain ⟨_, _, position, run⟩ := bind_ok.mp run
    obtain ⟨_, _, ⟨⟩, position⟩ := bind_ok.mp position
    cases position
    obtain ⟨start, c₁, enter, run⟩ := bind_ok.mp run
    obtain ⟨scope, c₂, enter', run⟩ := bind_ok.mp run
    obtain ⟨_, c₃, inner, run⟩ := bind_ok.mp run
    obtain ⟨same, point, rfl⟩ := beginBreakableBlock_quiet enter
    obtain ⟨same', point'⟩ := beginScope_quiet enter'
    have same := same.trans same'
    obtain ⟨returned, opened⟩ := statement_begins body (closed.congr same) inner
    rw [point', point] at returned opened
    have begins := (Still.of_same closed.unopened same).begins
      ⟨returned, fun other => .inl (opened other)⟩
    exact begins.then closed (emits_doWhileTail ⟨closed.unopened.ready.breaks.length,
      closed.unopened.ready.continues.length⟩ (emits_commaExpr cond)) run
  | .switch e (case :: rest) default, closed, run => by
    rw [switch_eq] at run
    have opens : Opens .statement b B C (do
        commaExpr e
        let (nbreaks, _) ← switchTests (case :: rest)
        switchDefault default
        switchTail nbreaks) :=
      .then (emits_commaExpr e) fun _ => .bind opens_switchTests fun parts few =>
        .seq (emits_switchDefault default) fun _ => emits_switchTail few
    exact .opens closed run opens
  | .switch e [] none, closed, run => by
    rw [switch_eq] at run
    unfold switchDefault at run
    refine .quiet (@Emits.starts _ _ _ _ _ _ _ (fun _ => True) _
      (.seq (emits_commaExpr e) fun _ => ?_) closed.unopened run)
    exact .bind (emits_switchTests fun expr => by unfold switchCases; exact .pure (by simp))
      fun parts few => emits_switchTail few
  | .switch e [] (some body), closed, run => by
    rw [switch_eq] at run
    unfold StatementKind.returnsAtOnce
    obtain ⟨_, c₁, value, run⟩ := bind_ok.mp run
    rcases commaExpr_begins closed value with ⟨opened, bare⟩ | ⟨closed₁, still, point, bare⟩
    · rw [bare, Bool.false_and]
      refine .opened (@Opened.trans _ .statement _ _ _ _ (fun _ => True) _ _ _ _ opened ?_ run).1
      exact .bind (emits_switchTests fun expr => emits_switchCases expr none (by simp) [])
        fun parts few => .seq (emits_switchDefault (some body)) fun _ => emits_switchTail few
    · rw [bare, Bool.true_and]
      obtain ⟨⟨nbreaks, last⟩, c₂, tests, run⟩ := bind_ok.mp run
      obtain ⟨_, c₃, inner, run⟩ := bind_ok.mp run
      obtain ⟨same, point', rfl⟩ := switchTests_quiet tests
      have begins := switchDefault_begins (some body) (closed₁.congr same) inner
      rw [Option.getD_some, point', point] at begins
      have begins := still.begins ((Still.of_same closed₁.unopened same).begins begins)
      exact begins.then closed (emits_switchTail closed₁.unopened.ready.breaks.length) run

theorem switchDefault_begins {b : Nat} {B C : List Nat} {c c' : LVCompiler} :
    (default : Option (List Statement)) → Sealed b B C c → switchDefault default c = .ok ((), c') →
      Begins (startsWithReturn c.point (default.getD [])) b B C c c'
  | none, closed, run => by
    unfold switchDefault at run
    obtain ⟨-, rfl⟩ := pure_ok.mp run
    exact .still (.of_same closed.unopened (.refl _))
  | some body, closed, run => by
    unfold switchDefault at run
    obtain ⟨scope, c₁, enter, run⟩ := bind_ok.mp run
    obtain ⟨_, c₂, inner, leave⟩ := bind_ok.mp run
    obtain ⟨same, point⟩ := beginScope_quiet enter
    have begins := statements_begins body (closed.congr same) inner
    rw [point] at begins
    exact ((Still.of_same closed.unopened same).begins begins).then closed emits_endScope leave

end

end

/-! ## The tests -/

/-- The test whose jump is at `pos` continues at `target` when it fails. -/
def FailsTo (code : List LVInstruction) (pos target : Nat) : Prop :=
  ∃ jz, code[pos]? = some jz ∧ jz.op = .OP_JZ ∧ (pos : Int) + 1 + jz.arg1 = target

/-- A false value in the register of the test makes a frame go there. -/
theorem FailsTo.step {code : List LVInstruction} {pos target : Nat}
    (fails : FailsTo code pos target) (Get : LVObject → LVObject → Option LVObject) (literals : List LVObject) :
    ∃ r, ∀ f : Frame, f.ip = pos → isFalse (f.regs r) = true →
      f.step Get literals code = some { f with ip := target } := by
  obtain ⟨jz, fetch, op, jump⟩ := fails
  refine ⟨jz.arg0, fun f ip false_ => ?_⟩
  rw [Frame.step_eq Get literals ip fetch]
  simp only [Frame.execNext, Frame.exec, op, false_, if_true, Frame.jump]
  rw [ip, ← jump]

/-- A failed test at `pos` continues at the label of the test at `next`, behind the
jump over it. -/
def LeadsTo (code : List LVInstruction) (pos next : Nat) : Prop :=
  ∃ start, pos < start ∧ start < next ∧ FailsTo code pos (start + 1) ∧
    code[start]?.map (·.op) = some .OP_JMP

/-- The code below `n` is that of `before`, but for the targets of the jumps that wait there. -/
def FrontKept (before : FunctionState) (n : Nat) (code : List LVInstruction) : Prop :=
  ∀ k < n, code[k]?.map (·.op) = before.instructions[k]?.map (·.op) ∧
    (k ∉ before.unresolvedbreaks → code[k]? = before.instructions[k]?)

/-- A value equal to no label goes from test to test and on to where the code of the
cases ends. There the default part starts: nothing of it stands before. -/
def ContinuesAtDefault (ncases : Nat) (tested : FunctionState) (code : List LVInstruction) : Prop :=
  ∃ tests : List Nat, tests.length = ncases ∧ tests.IsChain (LeadsTo code) ∧
    ∀ last ∈ tests.getLast?, FailsTo code last tested.instructions.length ∧
      FrontKept tested tested.instructions.length code

/-- A test that has been compiled, but whose jump has no target yet. -/
structure Untargeted (N : List Nat) (c : LVCompiler) (pos : Nat) : Prop where
  test : c.fs.instructions[pos]?.map (·.op) = some .OP_JZ
  below : pos < c.fs.code.floor .statement
  spared : Waiting N (· ≠ pos) c

section

variable {N : List Nat} {c c' : LVCompiler}

theorem rewriting_EQ (fs : FunctionState) (pi : LVInstruction) (a0 a1 a2 : Int) :
    (∃ eq opt, fs.rewriting pi (instruction .OP_EQ a0 a1 a2) = .merged eq opt ∧ eq.op = .OP_EQ) ∨
    fs.rewriting pi (instruction .OP_EQ a0 a1 a2) = .both pi (instruction .OP_EQ a0 a1 a2) := by
  have op : (instruction .OP_EQ a0 a1 a2).op = .OP_EQ := rfl
  unfold FunctionState.rewriting
  simp only [op]
  by_cases loaded : pi.op = .OP_LOAD ∧ (pi.arg0 : Int) = (instruction .OP_EQ a0 a1 a2).arg1 ∧
      ¬ fs.isLocal pi.arg0 = true
  · rw [if_pos loaded]
    exact .inl ⟨_, _, rfl, rfl⟩
  · rw [if_neg loaded]
    exact .inr rfl

theorem addEQ_last (fs : FunctionState) (a0 a1 a2 : Int) : ∃ front eq,
    (fs.addInstruction (instruction .OP_EQ a0 a1 a2)).instructions = front ++ [eq] ∧
      eq.op = .OP_EQ := by
  rcases addInstruction_instructions fs (instruction .OP_EQ a0 a1 a2) with eq | ⟨code, pi, -, eq⟩
  · exact ⟨_, _, eq, rfl⟩
  · rcases rewriting_EQ fs pi a0 a1 a2 with ⟨last, opt, merged, op⟩ | both
    · rw [merged] at eq
      exact ⟨code, last, eq, op⟩
    · rw [both] at eq
      exact ⟨code ++ [pi], instruction .OP_EQ a0 a1 a2,
        by rw [eq]; simp [FunctionState.Rewriting.instructions], rfl⟩

/-- Only behind a comparison is a `JZ` merged. -/
theorem addJZ_behind (fs : FunctionState) (r : Int) {front : List LVInstruction}
    {pi : LVInstruction} (eq : fs.instructions = front ++ [pi]) (other : pi.op ≠ .OP_CMP) :
    (fs.addInstruction (instruction .OP_JZ r)).instructions =
      fs.instructions ++ [instruction .OP_JZ r] := by
  rcases addInstruction_instructions fs (instruction .OP_JZ r) with added | ⟨code, last, eq', added⟩
  · exact added
  · obtain ⟨rfl, rfl⟩ := List.append_singleton_inj.mp (eq.symm.trans eq')
    have both : fs.rewriting pi (instruction .OP_JZ r) = .both pi (instruction .OP_JZ r) := by
      simp [FunctionState.rewriting, instruction, other]
    rw [added, both, eq]
    simp [FunctionState.Rewriting.instructions]

/-- The jump of a test is the last instruction when the test has been compiled. -/
theorem jump_untargeted {a0 a1 a2 r : Int} {pos : Nat} (run : (do
      addInstruction .OP_EQ a0 a1 a2
      emit .OP_JZ r 0 : CompilerM Nat) c = .ok (pos, c')) :
    c'.fs.instructions[pos]?.map (·.op) = some .OP_JZ ∧ pos < c'.fs.code.floor .statement ∧
      c'.fs.instructions.length = pos + 1 := by
  obtain ⟨_, _, ⟨⟩, run⟩ := bind_ok.mp run
  obtain ⟨_, _, ⟨⟩, run⟩ := bind_ok.mp run
  obtain ⟨_, _, ⟨⟩, run⟩ := bind_ok.mp run
  obtain ⟨rfl, rfl⟩ := pure_ok.mp run
  obtain ⟨front, eq, code, op⟩ := addEQ_last c.fs a0 a1 a2
  have last := addJZ_behind (c.fs.addInstruction (instruction .OP_EQ a0 a1 a2)) r code
    (by rw [op]; decide)
  refine ⟨?_, ?_, ?_⟩
  · simp [last]
    rfl
  · rw [floor_last last rfl]
    simp [last]
  · simp [last]

theorem emitCaseTest_jump {expr pos : Nat} (run : emitCaseTest expr c = .ok (pos, c')) :
    c'.fs.instructions[pos]?.map (·.op) = some .OP_JZ ∧ pos < c'.fs.code.floor .statement ∧
      c'.fs.instructions.length = pos + 1 := by
  unfold emitCaseTest at run
  obtain ⟨trg, c₁, _, run⟩ := bind_ok.mp run
  obtain ⟨islocal, c₂, _, run⟩ := bind_ok.mp run
  split at run
  · obtain ⟨eqtarget, c₃, _, run⟩ := bind_ok.mp run
    obtain ⟨_, c₄, eq, run⟩ := bind_ok.mp run
    obtain ⟨jz, c₅, emitted, run⟩ := bind_ok.mp run
    obtain ⟨_, c₆, pop, run⟩ := bind_ok.mp run
    obtain ⟨rfl, rfl⟩ := pure_ok.mp run
    obtain ⟨test, below, length⟩ := jump_untargeted (bind_ok.mpr ⟨_, _, eq, emitted⟩)
    have same := (popTarget_keeps pop).code
    have instructions : c'.fs.instructions = c₅.fs.instructions := congrArg Code.instructions same
    rw [instructions, same]
    exact ⟨test, below, length⟩
  · exact jump_untargeted run

/-- What is compiled later, from `b` on, leaves a test alone. -/
theorem Untargeted.kept {α : Type} {pos b : Nat} {m : CompilerM α} {Q : α → Prop} {a : α}
    (test : Untargeted N c pos) (behind : pos < b) (le : b ≤ c.fs.code.floor .statement)
    (h : Emits .statement b c.fs.unresolvedbreaks c.fs.unresolvedcontinues m Q)
    (run : m c = .ok (a, c')) :
    Untargeted N c' pos ∧ ∀ k ≤ pos, c'.fs.instructions[k]? = c.fs.instructions[k]? := by
  obtain ⟨steps, -, ready, -⟩ := h c a c' ⟨le, .refl _ _, .refl _ _⟩ run
  have same : ∀ k ≤ pos, c'.fs.instructions[k]? = c.fs.instructions[k]? :=
    fun k le' => (steps.preserves le).1 k (le'.trans_lt behind)
  refine ⟨⟨?_, behind.trans_le ready.floor, test.spared.spares behind le h run⟩, same⟩
  rw [same pos le_rfl]
  exact test.test

theorem setArg1_ok {pos : Nat} {val : Int} {u : Unit} (run : setArg1 pos val c = .ok (u, c')) :
    c'.fs = c.fs.modifyInstruction pos ({ · with arg1 := val }) := by
  cases run
  rfl

theorem modified_floor {target : Nat} {val : Int}
    (same : c'.fs = c.fs.modifyInstruction target ({ · with arg1 := val })) :
    c'.fs.instructions.map (·.op) = c.fs.instructions.map (·.op) ∧
      c'.fs.code.floor .statement = c.fs.code.floor .statement := by
  have ops : c'.fs.instructions.map (·.op) = c.fs.instructions.map (·.op) := by
    rw [same]
    exact map_modify_of_keeps _ target fun _ => rfl
  exact ⟨ops, Code.floor_congr ops (by rw [same]; rfl)⟩

/-- Setting a target is no step of the optimiser. -/
theorem Untargeted.modified {pos target : Nat} {val : Int} (test : Untargeted N c pos)
    (same : c'.fs = c.fs.modifyInstruction target ({ · with arg1 := val })) :
    Untargeted N c' pos := by
  obtain ⟨ops, floor⟩ := modified_floor same
  refine ⟨?_, floor ▸ test.below, test.spared.congr (by rw [same]; rfl)⟩
  rw [← test.test, ← List.getElem?_map, ← List.getElem?_map, ops]

/-- The block of a case. -/
theorem Untargeted.block {pos result : Nat} {body : List Statement} (test : Untargeted N c pos)
    (waits : Waiting N (· < c.fs.code.floor .statement) c)
    (run : (do
      let scope ← beginScope
      statements body
      endScope scope
      return pos : CompilerM Nat) c = .ok (result, c')) :
    result = pos ∧ Untargeted N c' pos ∧ Waiting N (· < c'.fs.code.floor .statement) c' ∧
      ∀ k ≤ pos, c'.fs.instructions[k]? = c.fs.instructions[k]? := by
  have emits : ∀ {b B C}, Emits .statement b B C (do
      let scope ← beginScope
      statements body
      endScope scope
      return pos : CompilerM Nat) (· = pos) :=
    .seq emits_beginScope fun _ => .seq (emits_statements body) fun _ => .seq emits_endScope
      fun _ => .pure rfl
  have bounded : Bounded (do
      let scope ← beginScope
      statements body
      endScope scope
      return pos : CompilerM Nat) :=
    .seq bounded_beginScope fun _ => .seq (bounded_statements body) fun _ =>
      .seq bounded_endScope fun _ => .pure
  obtain ⟨-, -, -, rfl⟩ := emits c result c' ⟨le_rfl, .refl _ _, .refl _ _⟩ run
  obtain ⟨test', same⟩ := test.kept test.below le_rfl emits run
  exact ⟨rfl, test', bounded.waiting waits emits run, same⟩

theorem switchCase_first {expr pos : Nat} {case : SwitchCase}
    (start : c.fs.unresolvedbreaks = N) (run : switchCase expr none case c = .ok (pos, c')) :
    Untargeted N c' pos ∧ Waiting N (· < c'.fs.code.floor .statement) c' := by
  obtain ⟨label, body⟩ := case
  unfold switchCase at run
  obtain ⟨_, c₁, value, run⟩ := bind_ok.mp run
  obtain ⟨jz, c₂, tested, run⟩ := bind_ok.mp run
  obtain ⟨test, below, -⟩ := emitCaseTest_jump tested
  have same : c₂.fs.unresolvedbreaks = N := by
    rw [breaks_same (within_emitCaseTest False.elim) tested,
      breaks_same (within_expression label) value, start]
  have none_ : ∀ P, Waiting N P c₂ := fun P => ⟨[], same, by simp⟩
  obtain ⟨rfl, test', waits, -⟩ := Untargeted.block ⟨test, below, none_ _⟩ (none_ _) run
  exact ⟨test', waits⟩

/-- A case behind the jump `jmp` over its test. -/
theorem switchCase_next {expr pos : Nat} {case : SwitchCase} {code : List LVInstruction}
    {jmp : LVInstruction} (front : c.fs.instructions = code ++ [jmp]) (op : jmp.op = .OP_JMP)
    (waits : Waiting N (· < code.length) c)
    (run : switchCase expr (some code.length) case c = .ok (pos, c')) :
    Untargeted N c' pos ∧ Waiting N (· < c'.fs.code.floor .statement) c' ∧ code.length < pos ∧
      (∀ k < code.length, c'.fs.instructions[k]? = c.fs.instructions[k]?) ∧
      c'.fs.instructions[code.length]?.map (·.op) = some .OP_JMP := by
  obtain ⟨label, body⟩ := case
  unfold switchCase at run
  obtain ⟨_, c₁, value, run⟩ := bind_ok.mp run
  obtain ⟨jz, c₂, tested, run⟩ := bind_ok.mp run
  obtain ⟨_, _, position, run⟩ := bind_ok.mp run
  obtain ⟨_, _, ⟨⟩, position⟩ := bind_ok.mp position
  cases position
  obtain ⟨_, c₃, skip, run⟩ := bind_ok.mp run
  have floor := floor_last front (by rw [op]; rfl)
  obtain ⟨same₁, grows₁⟩ := (emits_expression label : Emits .statement _ _ _ _).agree value
  obtain ⟨same₂, grows₂⟩ := (opens_emitCaseTest.emits : Emits .statement _ _ _ _ _).agree tested
  obtain ⟨test, below, length⟩ := emitCaseTest_jump tested
  have same₃ := setArg1_ok skip
  rw [floor] at same₁ grows₁
  have same : ∀ k ≤ code.length, c₂.fs.instructions[k]? = c.fs.instructions[k]? := fun k le =>
    (same₂ k (by omega)).trans (same₁ k (by omega))
  have le : code.length ≤ jz := by
    have := c₂.fs.code.floor_le .statement
    simp only [FunctionState.code] at this grows₁ grows₂
    omega
  have jump : c₂.fs.instructions[code.length]? = some jmp := by
    rw [same _ le_rfl, front]
    simp
  have ne : code.length ≠ jz := by
    intro eq
    rw [← eq, jump, Option.map_some, op] at test
    cases test
  have waits₂ : Waiting N (· < code.length) c₂ :=
    waits.congr ((breaks_same (within_emitCaseTest False.elim) tested).trans
      (breaks_same (within_expression label) value))
  have test₂ : Untargeted N c₂ jz := ⟨test, below, waits₂.mono fun k lt => by omega⟩
  have waits₃ : Waiting N (· < c₃.fs.code.floor .statement) c₃ := by
    rw [(modified_floor same₃).2]
    exact (waits₂.congr (by rw [same₃]; rfl)).mono fun k lt => by omega
  obtain ⟨rfl, test', waits', same₄⟩ := (test₂.modified same₃).block waits₃ run
  have skipped : ∀ k, c₃.fs.instructions[k]? = (if code.length = k then
      (c₂.fs.instructions[k]?).map ({ · with arg1 := c₂.fs.getCurrentPos - code.length })
      else c₂.fs.instructions[k]?) := by
    intro k
    rw [same₃, FunctionState.modifyInstruction, List.getElem?_modify]
    split <;> simp
  refine ⟨test', waits', by omega, fun k lt => ?_, ?_⟩
  · rw [same₄ k (by omega), skipped, if_neg (by omega), same k lt.le]
  · rw [same₄ _ le, skipped, if_pos rfl, jump]
    exact congrArg some op

/-- The code after the target of the test at `pos` has been set, behind a jump over the
next test. -/
def targeted (code : List LVInstruction) (pos : Nat) : List LVInstruction :=
  code.modify pos ({ · with arg1 := (code.length : Int) - pos }) ++ [instruction .OP_JMP]

theorem targeted_below {code : List LVInstruction} {pos k : Nat} (below : pos < code.length)
    (lt : k < pos) : (targeted code pos)[k]? = code[k]? := by
  rw [targeted, List.getElem?_append_left (by simp; omega), List.getElem?_modify_ne _ _ lt.ne']

theorem targeted_at {code : List LVInstruction} {pos : Nat} {jz : LVInstruction}
    (fetch : code[pos]? = some jz) :
    (targeted code pos)[pos]? = some { jz with arg1 := (code.length : Int) - pos } := by
  have below := (List.getElem?_eq_some_iff.mp fetch).1
  rw [targeted, List.getElem?_append_left (by simpa using below), List.getElem?_modify_eq, fetch]
  rfl

theorem switchCases_cons {expr pos : Nat} {case : SwitchCase} {rest : List SwitchCase}
    {last : Option Nat} (below : pos < c.fs.instructions.length)
    (run : switchCases expr (some pos) (case :: rest) c = .ok (last, c')) :
    ∃ c₁ c₂ jz, c₁.fs.instructions = targeted c.fs.instructions pos ∧
      c₁.fs.unresolvedbreaks = c.fs.unresolvedbreaks ∧
      switchCase expr (some c.fs.instructions.length) case c₁ = .ok (jz, c₂) ∧
      switchCases expr (some jz) rest c₂ = .ok (last, c') := by
  unfold switchCases at run
  obtain ⟨skip, c₀, emitted, run⟩ := bind_ok.mp run
  obtain ⟨now, _, position, run⟩ := bind_ok.mp run
  obtain ⟨_, c₁, target, run⟩ := bind_ok.mp run
  obtain ⟨skip', c₁', keep, run⟩ := bind_ok.mp run
  obtain ⟨jz, c₂, compiled, others⟩ := bind_ok.mp run
  obtain ⟨rfl, same⟩ := pure_ok.mp keep
  subst c₁'
  obtain ⟨_, _, ⟨⟩, position⟩ := bind_ok.mp position
  obtain ⟨rfl, rfl⟩ := pure_ok.mp position
  obtain ⟨_, _, ⟨⟩, emitted⟩ := bind_ok.mp emitted
  obtain ⟨_, _, ⟨⟩, emitted⟩ := bind_ok.mp emitted
  obtain ⟨rfl, rfl⟩ := pure_ok.mp emitted
  have added := addJMP c.fs 0
  have set_ := setArg1_ok target
  have size : (c.fs.addInstruction (instruction .OP_JMP)).instructions.length - 1 =
      c.fs.instructions.length := by
    rw [added]
    simp
  have jumps : c₁.fs.unresolvedbreaks = c.fs.unresolvedbreaks := by
    rw [set_]
    exact (addInstruction_jumps c.fs (instruction .OP_JMP)).1
  refine ⟨c₁, c₂, jz, ?_, jumps, size ▸ compiled, others⟩
  have now : (c.fs.addInstruction (instruction .OP_JMP)).getCurrentPos =
      c.fs.instructions.length := by
    rw [FunctionState.getCurrentPos, added]
    simp
  have code : c₁.fs.instructions =
      (c.fs.addInstruction (instruction .OP_JMP)).instructions.modify pos
        ({ · with arg1 := (c.fs.addInstruction (instruction .OP_JMP)).getCurrentPos - pos }) := by
    rw [set_]
    rfl
  rw [code, now, added, targeted]
  apply List.ext_getElem?
  intro k
  by_cases inside : k < c.fs.instructions.length
  · rw [List.getElem?_modify, List.getElem?_append_left inside,
      List.getElem?_append_left (by simpa using inside), List.getElem?_modify]
  · have ne : pos ≠ k := by omega
    rw [List.getElem?_modify_ne _ _ ne, List.getElem?_append_right (by omega),
      List.getElem?_append_right (by simp; omega), List.length_modify]

/-- The chain of the tests from the one at `pos` on. Later code may set the targets of
other jumps and change what comes behind the last test. -/
theorem switchCases_chain (expr : Nat) {last : Option Nat} : (cases : List SwitchCase) →
    ∀ {c c' : LVCompiler} {pos : Nat}, Untargeted N c pos →
      Waiting N (· < c.fs.code.floor .statement) c →
      switchCases expr (some pos) cases c = .ok (last, c') →
      ∃ tests l, last = some l ∧ tests.length = cases.length ∧ (pos :: tests).getLast? = some l ∧
        pos ≤ l ∧ (∀ t ∈ pos :: tests, Untargeted N c' t) ∧
        (∀ k < pos, c'.fs.instructions[k]? = c.fs.instructions[k]?) ∧
        ∀ code : List LVInstruction,
          (∀ k < l, code[k]?.map (·.op) = c'.fs.instructions[k]?.map (·.op)) →
          (∀ t ∈ pos :: tests, t < l → code[t]? = c'.fs.instructions[t]?) →
          (pos :: tests).IsChain (LeadsTo code)
  | [], c, c', pos, test, _, run => by
    unfold switchCases at run
    obtain ⟨rfl, rfl⟩ := pure_ok.mp run
    exact ⟨[], pos, rfl, rfl, rfl, le_rfl, by simpa using test, fun _ _ => rfl,
      fun _ _ _ => by simp⟩
  | case :: rest, c, c', pos, test, waits, run => by
    have below : pos < c.fs.instructions.length := test.below.trans_le (c.fs.code.floor_le _)
    obtain ⟨jz, fetch, op⟩ := Option.map_eq_some_iff.mp test.test
    obtain ⟨c₁, c₂, next, code₁, jumps, compiled, run⟩ := switchCases_cons below run
    have floor₁ := floor_last code₁ rfl
    have size : (c.fs.instructions.modify pos
        ({ · with arg1 := (c.fs.instructions.length : Int) - pos })).length =
          c.fs.instructions.length := by simp
    rw [size] at floor₁
    have test₁ : Untargeted N c₁ pos := by
      refine ⟨?_, by omega, test.spared.congr jumps⟩
      rw [code₁, targeted_at fetch]
      exact congrArg some op
    have tested : Emits .statement (pos + 1) c₁.fs.unresolvedbreaks c₁.fs.unresolvedcontinues
        (switchCase expr (some c.fs.instructions.length) case) (pos + 1 ≤ ·) :=
      (opens_switchCase expr _ (by rintro _ ⟨⟩; omega) case).emits
    obtain ⟨test₁, -⟩ := test₁.kept pos.lt_succ_self (by omega) tested compiled
    rw [← size] at compiled
    have waits₁ : Waiting N (· < (c.fs.instructions.modify pos
        ({ · with arg1 := (c.fs.instructions.length : Int) - pos })).length) c₁ := by
      rw [size]
      exact (waits.congr jumps).mono fun k lt => lt.trans_le (c.fs.code.floor_le _)
    obtain ⟨test₂, waits₂, behind, same₂, jump⟩ := switchCase_next code₁ rfl waits₁ compiled
    rw [size] at behind same₂ jump
    have after : Emits .statement (pos + 1) c₂.fs.unresolvedbreaks c₂.fs.unresolvedcontinues
        (switchCases expr (some next) rest) fun _ => True :=
      (emits_switchCases expr (some next) (by rintro _ ⟨⟩; omega) rest).weaken fun _ _ => trivial
    obtain ⟨others, -⟩ := test₁.kept pos.lt_succ_self test₁.below after run
    obtain ⟨tests, l, some_, count, end_, le, tests', same', chain⟩ :=
      switchCases_chain expr rest test₂ waits₂ run
    refine ⟨next :: tests, l, some_, by simp [count], by simpa using end_, by omega,
      List.forall_mem_cons.mpr ⟨others, tests'⟩, ?_, ?_⟩
    · intro k lt
      rw [same' k (by omega), same₂ k (by omega), code₁, targeted_below below lt]
    · intro code ops same
      refine List.isChain_cons_cons.mpr ⟨?_, chain code ops fun t mem => same t (.tail _ mem)⟩
      refine ⟨c.fs.instructions.length, below, behind,
        ⟨{ jz with arg1 := c.fs.instructions.length - pos }, ?_, op, ?_⟩, ?_⟩
      · rw [same pos (.head _) (by omega), same' pos (by omega), same₂ pos below, code₁,
          targeted_at fetch]
      · simp
        omega
      · rw [ops _ (by omega), same' _ (by omega)]
        exact jump

/-! ## The end of the cases -/

theorem addCLOSE (fs : FunctionState) (a1 : Int) :
    (fs.addInstruction (instruction .OP_CLOSE 0 a1)).optimization = true ∧
      (fs.addInstruction (instruction .OP_CLOSE 0 a1)).instructions =
        fs.instructions ++ [instruction .OP_CLOSE 0 a1] := by
  cases on : fs.optimization with
  | false =>
    rw [fs.addInstruction_off _ on]
    exact ⟨rfl, rfl⟩
  | true =>
    cases last : fs.instructions.getLast? with
    | none =>
      rw [fs.addInstruction_first _ last]
      exact ⟨rfl, rfl⟩
    | some pi =>
      obtain ⟨code, eq⟩ := List.getLast?_eq_some_iff.mp last
      rw [fs.addInstruction_on _ on last]
      simp [FunctionState.rewriting, instruction, eq]

/-- The code ends in a `CLOSE` that the optimiser may still replace. -/
def LVCompiler.EndsInClose (c : LVCompiler) : Prop :=
  c.fs.optimization = true ∧ c.fs.instructions.getLast?.map (·.op) = some .OP_CLOSE

instance (c : LVCompiler) : Decidable c.EndsInClose := by
  unfold LVCompiler.EndsInClose
  infer_instance

/-- Nothing of the code can change any more. -/
def LVCompiler.Settled (c : LVCompiler) : Prop :=
  c.fs.code.floor .statement = c.fs.instructions.length

theorem settled_asleep (asleep : c.fs.optimization = false) : c.Settled := by
  unfold LVCompiler.Settled FunctionState.code
  rw [asleep]
  rfl

theorem settled_congr (same : c'.fs.code = c.fs.code) (settled : c.Settled) : c'.Settled := by
  have instructions : c'.fs.instructions = c.fs.instructions := congrArg Code.instructions same
  unfold LVCompiler.Settled
  rw [same, instructions]
  exact settled

theorem statements_settled {u : Unit} : (body : List Statement) → ∀ {c c' : LVCompiler},
    c.Settled → statements body c = .ok (u, c') → c'.Settled
  | [], c, c', settled, run => by
    unfold statements at run
    obtain ⟨-, rfl⟩ := pure_ok.mp run
    exact settled
  | s :: rest, c, c', _, run => by
    unfold statements at run
    obtain ⟨_, c₁, first, run⟩ := bind_ok.mp run
    exact statements_settled rest (settled_asleep (statement_asleep first)) run

/-- The end of a scope emits a `CLOSE` or nothing. -/
theorem endScope_ends {scope : Scope} {u : Unit} (settled : c.Settled)
    (run : endScope scope c = .ok (u, c')) : c'.EndsInClose ∨ c'.Settled := by
  unfold endScope at run
  obtain ⟨_, _, ⟨⟩, run⟩ := bind_ok.mp run
  split at run
  · obtain ⟨_, _, ⟨⟩, run⟩ := bind_ok.mp run
    obtain ⟨_, _, ⟨⟩, run⟩ := bind_ok.mp run
    split at run
    · obtain ⟨_, _, ⟨⟩, run⟩ := bind_ok.mp run
      cases run
      obtain ⟨on, code⟩ := addCLOSE (c.fs.setStackSize c.scope.stacksize) c.scope.stacksize
      refine .inl ⟨on, ?_⟩
      dsimp only
      rw [code]
      simp [instruction]
    · cases run
      exact .inr (settled_congr rfl settled)
  · cases run
    exact .inr (settled_congr rfl settled)

theorem block_ends {pos result : Nat} {body : List Statement} (settled : c.Settled) (run : (do
      let scope ← beginScope
      statements body
      endScope scope
      return pos : CompilerM Nat) c = .ok (result, c')) : c'.EndsInClose ∨ c'.Settled := by
  obtain ⟨_, c₁, enter, run⟩ := bind_ok.mp run
  obtain ⟨_, c₂, inner, run⟩ := bind_ok.mp run
  obtain ⟨_, c₃, leave, run⟩ := bind_ok.mp run
  obtain ⟨-, rfl⟩ := pure_ok.mp run
  have entered := settled_congr (beginScope_quiet enter).1.code settled
  exact endScope_ends (statements_settled body entered inner) leave

theorem switchCase_ends {expr pos : Nat} {skip : Option Nat} {case : SwitchCase}
    (run : switchCase expr skip case c = .ok (pos, c')) : c'.EndsInClose ∨ c'.Settled := by
  obtain ⟨label, body⟩ := case
  unfold switchCase at run
  obtain ⟨_, c₁, _, run⟩ := bind_ok.mp run
  obtain ⟨jz, c₂, tested, run⟩ := bind_ok.mp run
  obtain ⟨-, below, length⟩ := emitCaseTest_jump tested
  have settled : c₂.Settled := by
    have := Code.floor_le .statement c₂.fs.code
    simp only [FunctionState.code] at this below
    simp only [LVCompiler.Settled, FunctionState.code]
    omega
  cases skip with
  | none => exact block_ends settled run
  | some pos =>
    obtain ⟨_, _, position, run⟩ := bind_ok.mp run
    obtain ⟨_, _, ⟨⟩, position⟩ := bind_ok.mp position
    cases position
    obtain ⟨_, c₃, target, run⟩ := bind_ok.mp run
    obtain ⟨ops, floor⟩ := modified_floor (setArg1_ok target)
    refine block_ends ?_ run
    have length := congrArg List.length ops
    rw [List.length_map, List.length_map] at length
    rw [LVCompiler.Settled, floor, length]
    exact settled

theorem switchCases_ends (expr : Nat) {last : Option Nat} : (cases : List SwitchCase) →
    ∀ {tonext c c'}, c.EndsInClose ∨ c.Settled → switchCases expr tonext cases c = .ok (last, c') →
      c'.EndsInClose ∨ c'.Settled
  | [], _, c, c', ends, run => by
    unfold switchCases at run
    obtain ⟨-, rfl⟩ := pure_ok.mp run
    exact ends
  | case :: rest, tonext, c, c', _, run => by
    unfold switchCases at run
    have tested : ∀ {skip c₁}, (do
        let jz ← switchCase expr skip case
        switchCases expr (some jz) rest) c₁ = .ok (last, c') → c'.EndsInClose ∨ c'.Settled := by
      intro skip c₁ run
      obtain ⟨jz, c₂, compiled, run⟩ := bind_ok.mp run
      exact switchCases_ends expr rest (switchCase_ends compiled) run
    cases tonext with
    | none => exact tested run
    | some pos =>
      obtain ⟨_, c₁, _, run⟩ := bind_ok.mp run
      obtain ⟨_, c₂, _, run⟩ := bind_ok.mp run
      obtain ⟨_, c₃, _, run⟩ := bind_ok.mp run
      obtain ⟨_, c₄, _, run⟩ := bind_ok.mp run
      exact tested run

/-! ## From the tests to the default part -/

/-- The tests are chained, and the last one continues behind the code of the cases. -/
structure Chained (N : List Nat) (tests : List Nat) (c : LVCompiler) : Prop where
  untargeted : ∀ t ∈ tests, Untargeted N c t
  chain : ∀ code : List LVInstruction,
    (∀ k < c.fs.instructions.length,
      code[k]?.map (·.op) = c.fs.instructions[k]?.map (·.op)) →
    (∀ t ∈ tests, code[t]? = c.fs.instructions[t]?) →
    tests.IsChain (LeadsTo code) ∧
      ∀ last ∈ tests.getLast?, FailsTo code last c.fs.instructions.length

theorem switchTests_spec {case : SwitchCase} {rest : List SwitchCase} {nbreaks : Nat}
    {last : Option Nat} (run : switchTests (case :: rest) c = .ok ((nbreaks, last), c')) :
    nbreaks = c.fs.unresolvedbreaks.length ∧ (c'.EndsInClose ∨ c'.Settled) ∧
      ∃ tests, tests.length = rest.length + 1 ∧ Chained c.fs.unresolvedbreaks tests c' := by
  unfold switchTests at run
  obtain ⟨expr, c₁, top, run⟩ := bind_ok.mp run
  have start := topTarget_quiet top
  obtain ⟨_, _, ⟨⟩, run⟩ := bind_ok.mp run
  obtain ⟨_, c₂, ⟨⟩, run⟩ := bind_ok.mp run
  obtain ⟨tonext, c₃, compiled, run⟩ := bind_ok.mp run
  unfold switchCases at compiled
  obtain ⟨_, _, ⟨⟩, compiled⟩ := bind_ok.mp compiled
  obtain ⟨pos, c₄, first, compiled⟩ := bind_ok.mp compiled
  obtain ⟨test, waits⟩ := switchCase_first rfl first
  have ends := switchCases_ends expr rest (switchCase_ends first) compiled
  obtain ⟨tests, l, rfl, count, end_, -, tests', -, chain⟩ :=
    switchCases_chain expr rest test waits compiled
  obtain ⟨now, _, position, run⟩ := bind_ok.mp run
  obtain ⟨_, _, ⟨⟩, position⟩ := bind_ok.mp position
  cases position
  obtain ⟨_, c₅, target, run⟩ := bind_ok.mp run
  cases run
  have same := setArg1_ok target
  obtain ⟨ops, floor⟩ := modified_floor same
  have size : c'.fs.instructions.length = c₃.fs.instructions.length := by
    simpa using congrArg List.length ops
  subst start
  have fetch : ∀ k : Nat, c'.fs.instructions[k]? = (if l = k then
      (c₃.fs.instructions[k]?).map ({ · with arg1 := c₃.fs.getCurrentPos - l })
      else c₃.fs.instructions[k]?) := by
    intro k
    rw [same, FunctionState.modifyInstruction, List.getElem?_modify]
    split <;> simp
  have opOf : ∀ k : Nat, c'.fs.instructions[k]?.map (·.op) = c₃.fs.instructions[k]?.map (·.op) := by
    intro k
    rw [← List.getElem?_map, ← List.getElem?_map, ops]
  have memLast : l ∈ pos :: tests := List.mem_of_getLast? end_
  have lastTest := tests' l memLast
  have inside := lastTest.below.trans_le (c₃.fs.code.floor_le _)
  simp only [FunctionState.code] at inside
  refine ⟨rfl, ?_, pos :: tests, by simp [count], ⟨fun t mem => (tests' t mem).modified same, ?_⟩⟩
  · rcases ends with ⟨on, close⟩ | settled
    · refine .inl ⟨?_, ?_⟩
      · rw [same]
        exact on
      · rw [← close, ← List.getLast?_map, ← List.getLast?_map, ops]
    · refine .inr ?_
      rw [LVCompiler.Settled, floor, size]
      exact settled
  · intro code kept exact_
    refine ⟨chain code (fun k lt => (kept k (by omega)).trans (opOf k)) fun t mem lt => ?_, ?_⟩
    · rw [exact_ t mem, fetch, if_neg lt.ne']
    · intro last mem
      rw [end_] at mem
      cases mem
      obtain ⟨jz, at_, op⟩ := Option.map_eq_some_iff.mp lastTest.test
      refine ⟨{ jz with arg1 := c₃.fs.getCurrentPos - l }, ?_, op, ?_⟩
      · rw [exact_ l memLast, fetch, if_pos rfl, at_]
        rfl
      · simp only [FunctionState.getCurrentPos, size]
        omega

/-- The end of a `switch` only sets the targets of its breaks. -/
theorem switchTail_frame {nbreaks : Nat} {u : Unit} (run : switchTail nbreaks c = .ok (u, c')) :
    c'.fs.instructions.map (·.op) = c.fs.instructions.map (·.op) ∧
      ∀ k : Nat, k ∉ c.fs.unresolvedbreaks.take (c.fs.unresolvedbreaks.length - nbreaks) →
        c'.fs.instructions[k]? = c.fs.instructions[k]? := by
  unfold switchTail at run
  obtain ⟨_, c₁, pop, run⟩ := bind_ok.mp run
  cases run
  have same := popTarget_keeps pop
  have code : c₁.fs.instructions = c.fs.instructions := congrArg Code.instructions same.code
  rw [← same.breaks, ← code]
  have targets := resolveBreaks_targets c₁.fs (c₁.fs.unresolvedbreaks.length - nbreaks)
  exact ⟨targets.ops, fun k other => resolveBreaks_frame c₁.fs _ other⟩

theorem LVCompiler.EndsInClose.closed (closes : c.EndsInClose) :
    Sealed c.fs.instructions.length c.fs.unresolvedbreaks c.fs.unresolvedcontinues c := by
  obtain ⟨on, last⟩ := closes
  obtain ⟨pi, last', op⟩ := Option.map_eq_some_iff.mp last
  obtain ⟨front, eq⟩ := List.getLast?_eq_some_iff.mp last'
  refine ⟨⟨⟨?_, .refl _ _, .refl _ _⟩, rfl⟩, on, last⟩
  rw [FunctionState.code, on, eq, Code.floor_append, op]
  simp [fusable, FunctionState.retargetable]

/-- Where the default part leaves the code of the cases alone, a value equal to no label
goes there. -/
theorem Chained.continues {tests : List Nat} {filled after : LVCompiler} {nbreaks : Nat}
    (chained : Chained N tests c) (count : nbreaks = N.length)
    (same : ∀ k < c.fs.instructions.length, filled.fs.instructions[k]? = c.fs.instructions[k]?)
    (above : Above c.fs.instructions.length c.fs.unresolvedbreaks filled.fs.unresolvedbreaks)
    (tail : switchTail nbreaks filled = .ok ((), after)) :
    ContinuesAtDefault tests.length c.fs after.fs.instructions := by
  obtain ⟨ops, frame⟩ := switchTail_frame tail
  obtain ⟨new, breaks, high⟩ := above
  have kept : ∀ k < c.fs.instructions.length,
      after.fs.instructions[k]?.map (·.op) = c.fs.instructions[k]?.map (·.op) := by
    intro k lt
    rw [← same k lt, ← List.getElem?_map, ← List.getElem?_map, ops]
  have exact_ : ∀ t ∈ tests, after.fs.instructions[t]? = c.fs.instructions[t]? := by
    intro t mem
    obtain ⟨-, below, old, waits, others⟩ := chained.untargeted t mem
    have inside : t < c.fs.instructions.length := below.trans_le (c.fs.code.floor_le _)
    rw [frame t, same t inside]
    rw [breaks, waits, count, ← List.append_assoc, List.length_append, Nat.add_sub_cancel,
      List.take_left, List.mem_append, not_or]
    exact ⟨fun mem => absurd (high t mem) (by omega), fun mem => others t mem rfl⟩
  obtain ⟨chain, fails⟩ := chained.chain after.fs.instructions kept exact_
  refine ⟨tests, rfl, chain, fun last mem => ⟨fails last mem, fun k lt => ⟨kept k lt, ?_⟩⟩⟩
  intro other
  rw [frame k, same k lt]
  intro mem
  have mem := List.mem_of_mem_take mem
  rw [breaks, List.mem_append] at mem
  exact mem.elim (fun mem => absurd (high k mem) (by omega)) other

theorem ContinuesAtDefault.front {ncases : Nat} {before : FunctionState}
    {code : List LVInstruction} (h : ContinuesAtDefault (ncases + 1) before code) :
    FrontKept before before.instructions.length code := by
  obtain ⟨tests, length, -, leads⟩ := h
  cases tests with
  | nil => simp at length
  | cons first others =>
    exact (leads _ (List.getLast?_eq_some_getLast (List.cons_ne_nil first others))).2

/-- A value equal to no label continues at the default part, unless the code of the
cases ends in a `CLOSE` and the default part starts with a `RETURN`. -/
theorem switch_default_iff {cases : List SwitchCase} {default : Option (List Statement)}
    {tested filled after : LVCompiler} {nbreaks : Nat} {last : Option Nat}
    (tests : switchTests cases c = .ok ((nbreaks, last), tested))
    (body : switchDefault default tested = .ok ((), filled))
    (tail : switchTail nbreaks filled = .ok ((), after)) :
    ContinuesAtDefault cases.length tested.fs after.fs.instructions ↔
      ¬ (cases ≠ [] ∧ tested.EndsInClose ∧
        startsWithReturn tested.point (default.getD []) = true) := by
  cases cases with
  | nil => exact iff_of_true ⟨[], rfl, by simp, by simp⟩ (by simp)
  | cons case rest =>
    obtain ⟨count, ends, positions, length, chained⟩ := switchTests_spec tests
    rw [List.length_cons, ← length]
    by_cases closes : tested.EndsInClose
    · have closed := closes.closed
      have begins := switchDefault_begins default closed body
      cases returns : startsWithReturn tested.point (default.getD []) with
      | true =>
        -- the `RETURN` stands where the `CLOSE` was, before the target of the last test
        have returned := (begins.returned returns).replaced
        refine iff_of_false (fun continues => ?_) (by simp [closes])
        have pos := closed.pos
        rw [length] at continues
        have kept := (continues.front (tested.fs.instructions.length - 1) (by omega)).1
        rw [← List.getLast?_eq_getElem?, closes.2, ← List.getElem?_map, (switchTail_frame tail).1,
          List.getElem?_map, returned] at kept
        cases kept
      | false =>
        refine iff_of_true ?_ (by simp)
        rcases begins.kept returns with opened | ⟨unopened, same⟩
        · exact chained.continues count (fun k lt => opened.agree k lt) opened.ready.breaks tail
        · have code : filled.fs.instructions = tested.fs.instructions :=
            congrArg Code.instructions same
          exact chained.continues count (fun k _ => by rw [code]) unopened.ready.breaks tail
    · refine iff_of_true ?_ fun h => closes h.2.1
      have settled := ends.resolve_left closes
      have emits : Emits .statement (tested.fs.code.floor .statement) tested.fs.unresolvedbreaks
          tested.fs.unresolvedcontinues (switchDefault default) := emits_switchDefault default
      have agree := (emits.agree body).1
      have breaks := emits.waiting le_rfl body
      rw [settled] at agree breaks
      exact chained.continues count agree breaks tail

end

/-! ## Two statements -/

/-- Compiles the parts of a `switch` statement, and what a predicate says of them. -/
@[irreducible] def switchParts (e : CommaExpr) (cases : List SwitchCase)
    (default : Option (List Statement)) (c : LVCompiler) (P : LVCompiler → LVCompiler → Prop) :
    Prop :=
  match commaExpr e c with
  | .error _ => False
  | .ok (_, valued) =>
    match switchTests cases valued with
    | .error _ => False
    | .ok ((nbreaks, _), tested) =>
      match switchDefault default tested with
      | .error _ => False
      | .ok (_, filled) =>
        match switchTail nbreaks filled with
        | .error _ => False
        | .ok (_, after) => P tested after

instance (e : CommaExpr) (cases : List SwitchCase) (default : Option (List Statement))
    (c : LVCompiler) (P : LVCompiler → LVCompiler → Prop)
    [∀ tested after, Decidable (P tested after)] :
    Decidable (switchParts e cases default c P) := by
  unfold switchParts
  split
  · infer_instance
  · split
    · infer_instance
    · split
      · infer_instance
      · split <;> infer_instance

theorem switchParts_imp {e : CommaExpr} {cases : List SwitchCase}
    {default : Option (List Statement)} {c : LVCompiler} {P Q : LVCompiler → LVCompiler → Prop}
    (imp : ∀ valued nbreaks last tested filled after,
      switchTests cases valued = .ok ((nbreaks, last), tested) →
      switchDefault default tested = .ok ((), filled) →
      switchTail nbreaks filled = .ok ((), after) → P tested after → Q tested after)
    (h : switchParts e cases default c P) : switchParts e cases default c Q := by
  unfold switchParts at h ⊢
  split at h
  · exact h
  · split at h
    · exact h
    · rename_i tests
      split at h
      · exact h
      · rename_i body
        split at h
        · exact h
        · rename_i tail
          exact imp _ _ _ _ _ _ tests body tail h

/-- `case 1: x = 2;` -/
def caseSet : SwitchCase := .mk (.integer 1) [.set "x" (.integer 2)]

/-- `case 1: var y = 2; var function f() { return y }` -/
def caseCapturing : SwitchCase :=
  .mk (.integer 1)
    [.mk 1 (.localDecl (.vars (.mk "y" (some (.integer 2))) [])),
      .mk 1 (.localDecl (.function "f" (.simple [] [.return (some (.last (.name "y")))])))]

/-- `default: return x` -/
def defaultReturn : Option (List Statement) := some [.mk 1 (.return (some (.last (.name "x"))))]

/-- `switch (x) { case 1: x = 2; default: return x }` -/
theorem switch_default_set :
    switchParts (.last (.name "x")) [caseSet] defaultReturn (bodyState ["x"])
      fun tested after => ContinuesAtDefault 1 tested.fs after.fs.instructions := by
  have open_ : switchParts (.last (.name "x")) [caseSet] defaultReturn (bodyState ["x"])
      fun tested _ => ¬ tested.EndsInClose := by
    decide +kernel
  refine switchParts_imp ?_ open_
  intro _ _ _ _ _ _ tests body tail notClosed
  exact (switch_default_iff tests body tail).mpr fun h => notClosed h.2.1

/-- `switch (x) { case 1: var y = 2; var function f() { return y } default: return x }`: a value
other than 1 does not reach the `return`. -/
theorem switch_default_skipped :
    switchParts (.last (.name "x")) [caseCapturing] defaultReturn (bodyState ["x"])
      fun tested after => ¬ ContinuesAtDefault 1 tested.fs after.fs.instructions := by
  have merged : switchParts (.last (.name "x")) [caseCapturing] defaultReturn (bodyState ["x"])
      fun tested after => 0 < tested.fs.instructions.length ∧
        after.fs.instructions[tested.fs.instructions.length - 1]?.map (·.op) ≠
          tested.fs.instructions[tested.fs.instructions.length - 1]?.map (·.op) := by
    decide +kernel
  refine switchParts_imp ?_ merged
  rintro _ _ _ _ _ _ - - - ⟨some_, other⟩ continues
  exact other (continues.front _ (by omega)).1

end Lavril
