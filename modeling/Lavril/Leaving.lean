import Lavril.Compiler
import Lavril.Returns

/-!
# Blocks that `break` and `continue` leave

`RESOLVE_OUTERS` looks at the innermost block only, whatever the number of
blocks that the jump leaves.
-/

namespace Lavril

inductive JumpKind where
  | break | continue

def JumpKind.emit : JumpKind → CompilerM Unit
  | .break => LVCompiler.emitBreak
  | .continue => LVCompiler.emitContinue

namespace LVCompiler

/-- The compiler is at the statement that a loop repeats or at those of a part of a
`switch`. The blocks that the jump leaves begin at that size of the stack. -/
inductive LoopBody : JumpKind → LVCompiler → Nat → Prop
  | while {kind c c' scope} (cond : CommaExpr)
      (run : (do
        commaExpr cond
        let _ ← beginBreakableBlock
        let _ ← emit .OP_JZ (← popTarget)
        beginScope) c = .ok (scope, c')) : LoopBody kind c' c'.scope.stacksize
  | doWhile {kind c c' scope}
      (run : (do
        let _ ← beginBreakableBlock
        beginScope) c = .ok (scope, c')) : LoopBody kind c' c'.scope.stacksize
  /-- A `break` leaves the scope of the loop as well. -/
  | for {kind c c' start} (init : ForInit) (cond inc : Option CommaExpr)
      (run : (do
        let _ ← beginScope
        forInit init
        snoozeOpt
        let _ ← forCond cond
        snoozeOpt
        let expstart ← getCurrentPos
        forInc inc
        snoozeOpt
        let _ ← takeInstructions (expstart + 1).toNat
        beginBreakableBlock) c = .ok (start, c')) :
      LoopBody kind c' (match kind with
        | .break => c'.scope.stacksize
        | .continue => c'.fs.getStackSize)
  /-- Both jumps stay in the scope of the loop, which ends after them. -/
  | forEach {kind c c' start} (idxname : Option String) (valname : String) (container : Expression)
      (run : (do
        let _ ← beginScope
        expression container
        let container ← topTarget
        let indexpos ← pushLocalVariable (idxname.getD "@INDEX@")
        addInstruction .OP_LOADNULLS indexpos 1
        let valuepos ← pushLocalVariable valname
        addInstruction .OP_LOADNULLS valuepos 1
        let itrpos ← pushLocalVariable "@ITERATOR@"
        addInstruction .OP_LOADNULLS itrpos 1
        let _ ← emit .OP_FOREACH container 0 indexpos
        addInstruction .OP_POSTFOREACH container 0 indexpos
        beginBreakableBlock) c = .ok (start, c')) : LoopBody kind c' c'.fs.getStackSize
  | case {c c' scope} (expr : Nat) (label : Expression)
      (run : (do
        expression label
        let _ ← emitCaseTest expr
        beginScope) c = .ok (scope, c')) : LoopBody .break c' c'.scope.stacksize
  | default {c c' scope} (run : beginScope c = .ok (scope, c')) : LoopBody .break c' c'.scope.stacksize

/-- From a statement to one inside it. A `continue` passes through a `switch`. -/
inductive Enters : JumpKind → LVCompiler → LVCompiler → Prop
  | statement {kind c c'} (line : Int)
      (run : updateFs (·.addLineInfos line c.lineinfo) c = .ok ((), c')) : Enters kind c c'
  | block {kind c c'} (before : List Statement)
      (run : (do
        let _ ← beginScope
        statements before) c = .ok ((), c')) : Enters kind c c'
  | ifThen {kind c c' jnepos} (cond : CommaExpr)
      (run : (do
        commaExpr cond
        emit .OP_JZ (← popTarget)) c = .ok (jnepos, c')) : Enters kind c c'
  | ifElse {kind c c' jmppos} (cond : CommaExpr) (block : IfBlock)
      (run : (do
        commaExpr cond
        let _ ← emit .OP_JZ (← popTarget)
        ifBlock block
        emit .OP_JMP) c = .ok (jmppos, c')) : Enters kind c c'
  | try {kind c c' scope}
      (run : (do
        let _ ← emit .OP_PUSHTRAP 0 0
        updateFs (adjustTraps 1)
        beginScope) c = .ok (scope, c')) : Enters kind c c'
  | catch {kind c c'} (body : Statement) (exid : String)
      (run : (do
        let trappos ← emit .OP_PUSHTRAP 0 0
        updateFs (adjustTraps 1)
        let scope ← beginScope
        statement true body
        endScope scope
        updateFs (adjustTraps (-1))
        addInstruction .OP_POPTRAP 1 0
        let _ ← emit .OP_JMP 0 0
        setArg1 trappos ((← getCurrentPos) - trappos)
        let _ ← beginScope
        let ex_target ← pushLocalVariable exid
        setArg0 trappos ex_target) c = .ok ((), c')) : Enters kind c c'
  | switch {c c' tonextcondjmp} (e : CommaExpr) (before : List SwitchCase)
      (run : (do
        commaExpr e
        let expr ← topTarget
        updateFs fun fs => { fs with breaktargets := 0 :: fs.breaktargets }
        switchCases expr none before) c = .ok (tonextcondjmp, c')) : Enters .continue c c'
  | case {c c' scope} (expr : Nat) (label : Expression)
      (run : (do
        expression label
        let _ ← emitCaseTest expr
        beginScope) c = .ok (scope, c')) : Enters .continue c c'

end LVCompiler

namespace FunctionState

variable (fs : FunctionState)

/-- The local in register `r` has been captured. -/
def Captured (r : Nat) : Prop := ∃ lvi, fs.vlocals[r]? = some lvi ∧ lvi.end_op = UINT_MINUS_ONE

theorem countOuters_ne_zero {stacksize : Nat} :
    fs.countOuters stacksize ≠ 0 ↔ ∃ r, fs.Captured r ∧ stacksize ≤ r := by
  rw [countOuters, ← Nat.pos_iff_ne_zero, List.countP_pos_iff]
  constructor
  · rintro ⟨lvi, mem, captured⟩
    obtain ⟨n, at_⟩ := List.mem_iff_getElem?.mp mem
    rw [List.getElem?_drop] at at_
    exact ⟨stacksize + n, ⟨lvi, at_, by simpa using captured⟩, Nat.le_add_right ..⟩
  · rintro ⟨r, ⟨lvi, at_, captured⟩, le⟩
    refine ⟨lvi, List.mem_iff_getElem?.mpr ⟨r - stacksize, ?_⟩, by simpa using captured⟩
    rw [List.getElem?_drop, Nat.add_sub_cancel' le, at_]

theorem Captured.lt {r : Nat} (captured : fs.Captured r) : r < fs.getStackSize := by
  obtain ⟨lvi, at_, -⟩ := captured
  exact (List.getElem?_eq_some_iff.mp at_).1

/-- The optimiser leaves a jump, `CLOSE` or `POPTRAP` as it is, and what is before it. -/
theorem addInstruction_plain {i : LVInstruction}
    (op : i.op = .OP_JMP ∨ i.op = .OP_CLOSE ∨ i.op = .OP_POPTRAP) :
    (fs.addInstruction i).instructions = fs.instructions ++ [i] ∧
      (fs.addInstruction i).vlocals = fs.vlocals := by
  unfold addInstruction
  split
  · rename_i pi on last
    have both : fs.rewriting pi i = .both pi i := by
      rcases op with op | op | op <;> simp only [rewriting, op]
    have split : fs.instructions = fs.instructions.dropLast ++ [pi] :=
      (List.dropLast_append_getLast? pi last).symm
    rw [both]
    refine ⟨?_, rfl⟩
    conv_rhs => rw [split]
    simp
  · exact ⟨rfl, rfl⟩

end FunctionState

namespace LVCompiler

/-- What is emitted before a jump out of blocks. -/
def resolveCode (c : LVCompiler) (traps : Int) : List LVInstruction :=
  (if traps > 0 then [instruction .OP_POPTRAP traps 0] else []) ++
  (if c.fs.getStackSize ≠ c.scope.stacksize ∧ c.fs.countOuters c.scope.stacksize ≠ 0 then
    [instruction .OP_CLOSE 0 c.scope.stacksize] else [])

def exitCode (c : LVCompiler) (traps distance : Int) : List LVInstruction :=
  c.resolveCode traps ++ [instruction .OP_JMP 0 distance]

variable {c c' : LVCompiler}

theorem addInstruction_run {op : Opcode} {a0 a1 a2 a3 : Int} {u : Unit}
    (plain : op = .OP_JMP ∨ op = .OP_CLOSE ∨ op = .OP_POPTRAP)
    (run : addInstruction op a0 a1 a2 a3 c = .ok (u, c')) :
    c'.fs.instructions = c.fs.instructions ++ [instruction op a0 a1 a2 a3] ∧
      c'.fs.vlocals = c.fs.vlocals ∧ c'.scope = c.scope := by
  cases run
  obtain ⟨code, vlocals⟩ := c.fs.addInstruction_plain (i := instruction op a0 a1 a2 a3) plain
  exact ⟨code, vlocals, rfl⟩

theorem resolveOuters_run {u : Unit} (run : resolveOuters c = .ok (u, c')) :
    c'.fs.instructions = c.fs.instructions ++
      (if c.fs.getStackSize ≠ c.scope.stacksize ∧ c.fs.countOuters c.scope.stacksize ≠ 0 then
        [instruction .OP_CLOSE 0 c.scope.stacksize] else []) := by
  rw [resolveOuters, bind_ok] at run
  obtain ⟨c₁, c₂, get, run⟩ := run
  cases get
  split at run
  · rename_i captured
    rw [if_pos captured]
    exact (addInstruction_run (.inr (.inl rfl)) run).1
  · rename_i none
    cases run
    rw [if_neg none, List.append_nil]

theorem emit_run {op : Opcode} {a0 a1 a2 a3 : Int} {pos : Nat}
    (plain : op = .OP_JMP ∨ op = .OP_CLOSE ∨ op = .OP_POPTRAP)
    (run : emit op a0 a1 a2 a3 c = .ok (pos, c')) :
    c'.fs.instructions = c.fs.instructions ++ [instruction op a0 a1 a2 a3] := by
  rw [emit, bind_ok] at run
  obtain ⟨u, c₁, add, run⟩ := run
  cases run
  exact (addInstruction_run plain add).1

/-- `POPTRAP`, when the jump leaves `try` blocks, `RESOLVE_OUTERS` and the jump. -/
theorem exit_run {traps : Int} {f : Nat → CompilerM Unit} {u : Unit}
    (keeps : ∀ pos c u c', f pos c = .ok (u, c') → c'.fs.instructions = c.fs.instructions)
    (run : (do
      if traps > 0 then addInstruction .OP_POPTRAP traps 0
      resolveOuters
      let pos ← emit .OP_JMP 0 (-1234)
      f pos) c = .ok (u, c')) :
    c'.fs.instructions = c.fs.instructions ++ c.exitCode traps (-1234) := by
  have jump : ∀ {c c' : LVCompiler}, (do
      resolveOuters
      let pos ← emit .OP_JMP 0 (-1234)
      f pos) c = .ok (u, c') → c'.fs.instructions = c.fs.instructions ++
        ((if c.fs.getStackSize ≠ c.scope.stacksize ∧ c.fs.countOuters c.scope.stacksize ≠ 0 then
          [instruction .OP_CLOSE 0 c.scope.stacksize] else []) ++
        [instruction .OP_JMP 0 (-1234)]) := by
    intro c c' run
    obtain ⟨_, c₁, resolve, run⟩ := bind_ok.mp run
    obtain ⟨pos, c₂, emit, run⟩ := bind_ok.mp run
    rw [keeps pos c₂ u c' run, emit_run (.inl rfl) emit, resolveOuters_run resolve, List.append_assoc]
  unfold exitCode resolveCode
  split at run
  · rename_i positive
    obtain ⟨_, c₁, pop, run⟩ := bind_ok.mp run
    obtain ⟨code, vlocals, scope⟩ := addInstruction_run (.inr (.inr rfl)) pop
    have size : c₁.fs.getStackSize = c.fs.getStackSize := congrArg List.length vlocals
    have count : c₁.fs.countOuters c.scope.stacksize = c.fs.countOuters c.scope.stacksize := by
      simp only [FunctionState.countOuters, vlocals]
    rw [jump run, code, if_pos positive, scope, size, count]
    simp only [List.append_assoc]
  · rename_i none
    rw [jump run, if_neg none, List.nil_append]

theorem modify_last {α : Type} (l : List α) (a : α) (f : α → α) :
    (l ++ [a]).modify l.length f = l ++ [f a] := by
  rw [List.modify_eq_take_cons_drop (by simp)]
  simp

/-- The instructions that a `break` or `continue` adds, with the distance that is
filled in later. -/
def emitted (c c' : LVCompiler) (distance : Int) : List LVInstruction :=
  (c'.fs.setIntructionParams (c'.fs.instructions.length - 1) 0 distance).instructions.drop
    c.fs.instructions.length

end LVCompiler

open LVCompiler

variable {kind : JumpKind} {c c' : LVCompiler}

theorem JumpKind.emitted_code (run : kind.emit c = .ok ((), c')) : ∃ traps, ∀ distance,
    emitted c c' distance = c.exitCode traps distance := by
  have code : ∃ traps, c'.fs.instructions = c.fs.instructions ++ c.exitCode traps (-1234) := by
    cases kind with
    | «break» =>
      rw [JumpKind.emit, emitBreak] at run
      obtain ⟨_, _, get, run⟩ := bind_ok.mp run
      cases get
      cases targets : c.fs.breaktargets with
      | nil =>
        rw [targets] at run
        cases run
      | cons traps rest =>
        rw [targets] at run
        refine ⟨traps, exit_run (fun pos c u c' run => ?_) run⟩
        cases run
        rfl
    | «continue» =>
      rw [JumpKind.emit, emitContinue] at run
      obtain ⟨_, _, get, run⟩ := bind_ok.mp run
      cases get
      cases targets : c.fs.continuetargets with
      | nil =>
        rw [targets] at run
        cases run
      | cons traps rest =>
        rw [targets] at run
        refine ⟨traps, exit_run (fun pos c u c' run => ?_) run⟩
        cases run
        rfl
  obtain ⟨traps, code⟩ := code
  refine ⟨traps, fun distance => ?_⟩
  have split : ∀ distance, c.fs.instructions ++ c.exitCode traps distance =
      (c.fs.instructions ++ c.resolveCode traps) ++ [instruction .OP_JMP 0 distance] :=
    fun distance => (List.append_assoc ..).symm
  rw [emitted, FunctionState.setIntructionParams, FunctionState.modifyInstruction, code, split,
    List.length_append, List.length_singleton, Nat.add_sub_cancel, modify_last]
  simp only [List.append_assoc, List.drop_left]
  rfl

/-! ## The open outers after the jump -/

namespace LVVM

variable {v v₁ v₂ v' : LVVM} {alive : LVVM → LVObject → Bool} {i : LVInstruction}
  {code : List LVInstruction}

/-- The machine runs through `code`, which the running function has at `ip`. -/
def executes (alive : LVVM → LVObject → Bool) : List LVInstruction → LVVM → Option LVVM
  | [], v => some v
  | i :: code, v =>
    match v.fetch with
    | none => none
    | some (j, v₁) =>
      if j = i then
        match v₁.instruction (alive v₁) i with
        | some (.next v₂ _) => executes alive code v₂
        | _ => none
      else none

theorem executes_cons (run : executes alive (i :: code) v = some v') : ∃ v₁ v₂ n,
    v.fetch = some (i, v₁) ∧ v₁.instruction (alive v₁) i = some (.next v₂ n) ∧
      executes alive code v₂ = some v' := by
  unfold executes at run
  split at run
  · cases run
  · rename_i j v₁ fetch
    split at run
    · rename_i same
      subst same
      split at run
      · rename_i v₂ n ran
        exact ⟨v₁, v₂, n, fetch, ran, run⟩
      · cases run
    · cases run

/-- An instruction that leaves the outers open. -/
theorem plain_outers {n : Int} {al : LVObject → Bool} (wf : v.WF)
    (op : i.op = .OP_JMP ∨ i.op = .OP_POPTRAP) (run : v.instruction al i = some (.next v' n)) :
    v'.WF ∧ v'.stackbase = v.stackbase ∧ v'.openouters = v.openouters := by
  rcases op with op | op
  · have run : (v.registerOp i).map (Ran.next · 0) = some (.next v' n) := by
      simpa only [LVVM.instruction, op] using run
    obtain ⟨w, moved, eq⟩ := Option.map_eq_some_iff.mp run
    cases eq
    unfold registerOp at moved
    split at moved
    · cases moved
    · simp only [Option.bind_eq_bind, Option.bind_eq_some_iff, Option.pure_def,
        Option.some.injEq] at moved
      obtain ⟨f, -, rfl⟩ := moved
      exact ⟨wf.of_eq rfl rfl rfl, rfl, rfl⟩
  · have run : some (Ran.next (v.popTrapOp i) (-i.arg0)) = some (.next v' n) := by
      simpa only [LVVM.instruction, op] using run
    cases run
    exact ⟨wf.of_eq rfl rfl rfl, rfl, rfl⟩

theorem fetch_outers (wf : v.WF) (fetch : v.fetch = some (i, v₁)) :
    v₁.WF ∧ v₁.stackbase = v.stackbase ∧ v₁.openouters = v.openouters := by
  have wf₁ := (wf.fetch (W := ∅) fetch).1.wf
  simp only [LVVM.fetch, Option.bind_eq_bind, Option.bind_eq_some_iff] at fetch
  obtain ⟨k, -, fetch⟩ := fetch
  split at fetch
  · cases fetch
  · simp only [Option.bind_eq_some_iff, Option.pure_def, Option.some.injEq, Prod.mk.injEq] at fetch
    obtain ⟨i, -, -, rfl⟩ := fetch
    exact ⟨wf₁, rfl, rfl⟩

/-- After `POPTRAP`, `CLOSE` and the jump. -/
theorem executes_exit {traps distance : Int} (wf : v.WF)
    (run : executes alive (c.exitCode traps distance) v = some v') (o : Nat × Int) :
    o ∈ v'.openouters ↔ o ∈ v.openouters ∧
      (c.fs.getStackSize ≠ c.scope.stacksize ∧ c.fs.countOuters c.scope.stacksize ≠ 0 →
        o.2 < v.stackbase + c.scope.stacksize) := by
  have jump : ∀ {v : LVVM}, v.WF → executes alive [Lavril.instruction .OP_JMP 0 distance] v = some v' →
      v'.openouters = v.openouters := by
    intro v wf run
    obtain ⟨v₁, v₂, n, fetch, ran, run⟩ := executes_cons run
    cases run
    obtain ⟨wf₁, -, same⟩ := fetch_outers wf fetch
    exact (plain_outers wf₁ (.inl rfl) ran).2.2.trans same
  have resolve : ∀ {v : LVVM}, v.WF → executes alive
      ((if c.fs.getStackSize ≠ c.scope.stacksize ∧ c.fs.countOuters c.scope.stacksize ≠ 0 then
        [Lavril.instruction .OP_CLOSE 0 c.scope.stacksize] else []) ++ [Lavril.instruction .OP_JMP 0 distance]) v =
          some v' → (o ∈ v'.openouters ↔ o ∈ v.openouters ∧
      (c.fs.getStackSize ≠ c.scope.stacksize ∧ c.fs.countOuters c.scope.stacksize ≠ 0 →
        o.2 < v.stackbase + c.scope.stacksize)) := by
    intro v wf run
    split at run
    · rename_i captured
      obtain ⟨v₁, v₂, n, fetch, ran, run⟩ := executes_cons run
      obtain ⟨wf₁, base, same⟩ := fetch_outers wf fetch
      have ran : some (Ran.next (v₁.closeOp (Lavril.instruction .OP_CLOSE 0 c.scope.stacksize)) 0) =
        some (.next v₂ n) := ran
      cases ran
      rw [jump (wf₁.closeOuters _) run, wf₁.mem_closeOuters, same, base]
      simp [captured, Lavril.instruction]
    · rename_i none
      rw [jump wf run]
      simp [none]
  rw [exitCode, resolveCode, List.append_assoc] at run
  split at run
  · obtain ⟨v₁, v₂, n, fetch, ran, run⟩ := executes_cons run
    obtain ⟨wf₁, base, same⟩ := fetch_outers wf fetch
    obtain ⟨wf₂, base₂, same₂⟩ := plain_outers wf₁ (.inr rfl) ran
    rw [resolve wf₂ run, same₂, same, base₂, base]
  · exact resolve wf run

/-- A frame that is at instruction `n` of `code` and whose register `r` has been
captured. -/
structure AtCode (code : List LVInstruction) (r n : Nat) (v : LVVM) : Prop where
  frame : ∃ ci, v.callsstack = [ci] ∧ ci.closure = .ofAddress .OT_CLOSURE 0 ∧ ci.ip = n
  stackbase : v.stackbase = 0
  openouters : v.openouters = [(1, (r : Int))]
  closure : v.heap 0 = some (.closure (Exec.functionOf false [] code))

theorem AtCode.fetch {r n : Nat} (at_ : AtCode code r n v) (here : code[n]? = some i) :
    ∃ w ci, v.fetch = some (i, w) ∧ AtCode code r (n + 1) w ∧ w.callsstack = [ci] := by
  obtain ⟨⟨ci, frames, closure, rfl⟩, base, outers, heap⟩ := at_
  have found : v.lookup (.ofAddress .OT_CLOSURE 0) =
      some (.closure (Exec.functionOf false [] code)) := by
    change (v.heap 0).filter _ = _
    rw [heap]
    rfl
  have current : v.currentClosure = some (Exec.functionOf false [] code) := by
    simp only [currentClosure, frames, closure, found]
  refine ⟨{ v with callsstack := [{ ci with ip := ci.ip + 1 }] }, _, ?_,
    ⟨⟨_, rfl, closure, rfl⟩, base, outers, heap⟩, rfl⟩
  have at_ : (Exec.functionOf false [] code).function.instructions[ci.ip]? = some i := here
  simp only [LVVM.fetch, current, frames, Option.bind_eq_bind, Option.bind_some, at_]
  rfl

/-- The frame goes through an instruction that closes no outer of its registers up
to `r`. -/
theorem AtCode.step {r n : Nat} (al : LVObject → Bool) (at_ : AtCode code r n v)
    (op : i.op = .OP_POPTRAP ∨ i.op = .OP_CLOSE ∧ (r : Int) < i.arg1) :
    ∃ w m, v.instruction al i = some (.next w m) ∧ AtCode code r n w := by
  obtain ⟨⟨ci, frames, closure, rfl⟩, base, outers, heap⟩ := at_
  rcases op with op | ⟨op, above⟩
  · refine ⟨v.popTrapOp i, _, by rw [LVVM.instruction, op],
      ⟨{ ci with etraps := ci.etraps + -i.arg0 }, ?_, closure, rfl⟩, base, outers, heap⟩
    simp [popTrapOp, addEtraps, frames]
  · refine ⟨v.closeOp i, _, by rw [LVVM.instruction, op], ⟨_, frames, closure, rfl⟩, base, ?_, ?_⟩
    all_goals
      have below : ¬ v.stackbase + i.arg1 ≤ r := by omega
      simp [closeOp, closeOuters, outers, below, heap]

theorem executes_of {w : LVVM} {n : Int} (fetch : v.fetch = some (i, v₁))
    (ran : v₁.instruction (alive v₁) i = some (.next w n)) :
    executes alive (i :: code) v = executes alive code w := by
  simp only [executes, fetch, ran, if_true]

/-- It goes through the code before a jump, and through the jump. -/
theorem AtCode.executes {r n : Nat} {mid : List LVInstruction} {jump : LVInstruction}
    (at_ : AtCode code r n v) (rest : code.drop n = mid ++ [jump]) (op : jump.op = .OP_JMP)
    (keeps : ∀ i ∈ mid, i.op = .OP_POPTRAP ∨ i.op = .OP_CLOSE ∧ (r : Int) < i.arg1) :
    ∃ v', LVVM.executes alive (mid ++ [jump]) v = some v' := by
  induction mid generalizing n v with
  | nil =>
    have here : code[n]? = some jump := by
      rw [← List.head?_drop, rest]
      rfl
    obtain ⟨w, ci, fetch, -, frames⟩ := at_.fetch here
    have ran : ∃ w', w.registerOp jump = some w' := by
      simp only [registerOp, frames, Frame.exec, op]
      exact ⟨_, rfl⟩
    obtain ⟨w', ran⟩ := ran
    refine ⟨w', ?_⟩
    have jumps : w.instruction (alive w) jump = some (.next w' 0) := by
      simp only [LVVM.instruction, op, ran, Option.map_some]
    rw [List.nil_append, executes_of fetch jumps]
    rfl
  | cons i mid ih =>
    obtain ⟨first, keeps⟩ := List.forall_mem_cons.mp keeps
    have here : code[n]? = some i := by
      rw [← List.head?_drop, rest]
      rfl
    have tail : code.drop (n + 1) = mid ++ [jump] := by
      rw [← List.tail_drop, rest]
      rfl
    obtain ⟨w, ci, fetch, at₁, -⟩ := at_.fetch here
    obtain ⟨w', m, ran, at₂⟩ := at₁.step (alive w) first
    rw [List.cons_append, executes_of fetch ran]
    exact ih at₂ tail keeps

end LVVM

namespace LVVM

/-- A machine with that frame. -/
def holdsOuter (code : List LVInstruction) (r : Nat) : LVVM :=
  { Exec.hostCall.vm with
    callsstack := [⟨.ofAddress .OT_CLOSURE 0, [], 0, none, 0, 0, 0, 0, 1, true⟩]
    openouters := [(1, r)]
    heap := fun address =>
      match address with
      | 0 => some (.closure (Exec.functionOf false [] code))
      | 1 => some (.outer none)
      | _ => none
    next := 2 }

theorem holdsOuter_wf (code : List LVInstruction) (r : Nat) : (holdsOuter code r).WF where
  fresh a le := by match a, le with | a + 2, _ => rfl
  outers o mem := by
    obtain rfl := List.mem_singleton.mp mem
    rfl
  sorted := List.pairwise_singleton ..
  nodup := List.nodup_singleton _

theorem holdsOuter_atCode (code : List LVInstruction) (r : Nat) :
    AtCode code r 0 (holdsOuter code r) :=
  ⟨⟨_, rfl, rfl, rfl⟩, rfl, rfl, rfl⟩

end LVVM

open LVVM

/-- The open outers of the running frame are those of captured locals of `fs`. -/
def LVVM.OuterRegisters (fs : FunctionState) (v : LVVM) : Prop :=
  ∀ o ∈ v.openouters, v.stackbase ≤ o.2 → ∃ r, fs.Captured r ∧ o.2 = v.stackbase + r

/-- After a `break` or `continue`, at any depth in a loop, no local of the blocks it
has left is still captured, exactly when none of them was captured but in the
innermost block. -/
theorem JumpKind.closes_iff {alive : LVVM → LVObject → Bool} {body : LVCompiler} {L : Nat}
    (_loop : LoopBody kind body L) (_inside : Relation.ReflTransGen (Enters kind) body c)
    (run : kind.emit c = .ok ((), c')) :
    (∀ (distance : Int) (v v' : LVVM), v.WF → v.OuterRegisters c.fs →
      v.executes alive (emitted c c' distance) = some v' →
        ∀ o ∈ v'.openouters, o.2 < v.stackbase + L) ↔
    ∀ r, c.fs.Captured r → L ≤ r → c.scope.stacksize ≤ r := by
  obtain ⟨traps, code⟩ := JumpKind.emitted_code run
  simp only [code]
  constructor
  · intro closes r captured left
    by_contra outside
    have kept : ∀ i ∈ c.resolveCode traps, i.op = .OP_POPTRAP ∨ i.op = .OP_CLOSE ∧ (r : Int) < i.arg1 := by
      intro i mem
      rcases List.mem_append.mp mem with mem | mem
      · split at mem
        · obtain rfl := List.mem_singleton.mp mem
          exact .inl rfl
        · cases mem
      · split at mem
        · obtain rfl := List.mem_singleton.mp mem
          refine .inr ⟨rfl, ?_⟩
          simp only [instruction]
          omega
        · cases mem
    have wf : (holdsOuter (c.exitCode traps 0) r).WF := holdsOuter_wf _ r
    obtain ⟨v', run⟩ : ∃ v', executes alive (c.exitCode traps 0) _ = some v' :=
      (holdsOuter_atCode (c.exitCode traps 0) r).executes rfl rfl kept
    have registers : (holdsOuter (c.exitCode traps 0) r).OuterRegisters c.fs := by
      intro o mem _
      obtain rfl := List.mem_singleton.mp mem
      exact ⟨r, captured, (Int.zero_add _).symm⟩
    have stillOpen : (1, (r : Int)) ∈ v'.openouters := by
      refine (executes_exit wf run _).mpr ⟨List.mem_singleton_self _, fun _ => ?_⟩
      change (r : Int) < 0 + c.scope.stacksize
      omega
    have below := closes 0 _ v' wf registers run _ stillOpen
    change (r : Int) < 0 + L at below
    omega
  · intro condition distance v v' wf registers run o isOpen
    obtain ⟨was, closed⟩ := (executes_exit wf run o).mp isOpen
    by_contra above
    obtain ⟨r, captured, at_⟩ := registers o was (by omega)
    have inner := condition r captured (by omega)
    have counted : c.fs.countOuters c.scope.stacksize ≠ 0 :=
      c.fs.countOuters_ne_zero.mpr ⟨r, captured, inner⟩
    have declared := captured.lt
    have := closed ⟨by omega, counted⟩
    omega

/-- `do break; while (…)` in a function without parameters. -/
theorem JumpKind.closes_iff_doWhile : ∃ body c',
    LoopBody .break body body.scope.stacksize ∧ JumpKind.break.emit body = .ok ((), c') ∧
    ∀ (distance : Int) (v v' : LVVM), v.WF → v.OuterRegisters body.fs →
      v.executes (fun _ _ => true) (emitted body c' distance) = some v' →
        ∀ o ∈ v'.openouters, o.2 < v.stackbase + body.scope.stacksize := by
  have loop : LoopBody .break _ _ := .doWhile (c := bodyState []) rfl
  exact ⟨_, _, loop, rfl, (JumpKind.closes_iff loop .refl rfl).mpr fun _ _ le => le⟩

namespace LVVM

/-- The machine after `n` instructions. -/
def runFor (alive : LVVM → LVObject → Bool) : Nat → LVVM → Option LVVM
  | 0, v => some v
  | n + 1, v =>
    match v.fetch with
    | none => none
    | some (i, v₁) =>
      match v₁.instruction (alive v₁) i with
      | some (.next v₂ _) => runFor alive n v₂
      | _ => none

/-- A function is called. -/
def entered (p : FunctionPrototype) (this : 0 < p.parameters.length) : LVVM :=
  { Exec.hostCall.vm with
    callsstack := [⟨.ofAddress .OT_CLOSURE 0, p.literals, 0, none, 0, 0, 0, 0, 1, true⟩]
    heap := fun address => if address = 0 then some (.closure ⟨p, this, none, [], []⟩) else none }

end LVVM

/-- `while (1) { var x = 1; f = function () { return x; }; { break; } }` -/
def breakOut : FunctionDef :=
  .simple ["f"] [.while (.last (.integer 1)) (.mk 1 (.block [
    .mk 1 (.localDecl (.vars (.mk "x" (some (.integer 1))) [])),
    .set "f" (.plain (.prefixed (.mk (.function (.simple [] [.return (some (.last (.name "x")))]))
      [] none))),
    .mk 1 (.block [.mk 1 .break])]))]

/-- The loop has been left, and register 2, where `x` was, has still an open outer. -/
theorem breakOut_leaves_open :
    (compileFunction breakOut).map (fun p =>
      if this : 0 < p.parameters.length then
        (runFor (fun _ _ => true) 6 (entered p this)).map fun v =>
          (v.callsstack.map (p.instructions.length - ·.ip), v.openouters)
      else none) = some (some ([1], [(2, 2)])) := by
  decide +kernel

end Lavril
