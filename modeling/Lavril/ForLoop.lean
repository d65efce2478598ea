import Lavril.Productions
import Lavril.Machine

/-!
# The increment of a `for` loop

`ForStatement` compiles the increment before the body, takes its instructions
out of the code and adds them again, one by one, after the body. The optimiser
is awake while they are added, so the loop has the increment that was compiled
only when no two neighbours of the saved list are rewritten.
-/

namespace Lavril

open LVCompiler

namespace FunctionState

/-- What the optimiser may do when it keeps both instructions. -/
theorem rewriting_both {fs : FunctionState} {pi i pi' i' : LVInstruction}
    (h : fs.rewriting pi i = .both pi' i') :
    (pi' = pi ∨ pi.op = .OP_CALL ∧ pi' = { pi with op := .OP_TAILCALL }) ∧
    (i' = i ∨ discardable i.op = true ∧ i.op ≠ .OP_CALL ∧ i' = { i with arg0 := 0xFF }) := by
  unfold rewriting at h
  dsimp only at h
  split at h
  case h_2 op | h_3 op | h_4 op =>
    cases h
    refine ⟨.inl rfl, ?_⟩
    split
    · exact .inr ⟨by rw [op]; rfl, by rw [op]; decide, rfl⟩
    · exact .inl rfl
  case h_5 =>
    split at h
    · rename_i call
      cases h
      exact ⟨.inr ⟨call.2.2.1, rfl⟩, .inl rfl⟩
    · split at h <;> cases h
      exact ⟨.inl rfl, .inl rfl⟩
  case h_9 =>
    split at h
    · cases h
    · split at h <;> cases h
      exact ⟨.inl rfl, .inl rfl⟩
  case h_15 =>
    cases h
    exact ⟨.inl rfl, .inl rfl⟩
  all_goals
    split at h <;> cases h
    exact ⟨.inl rfl, .inl rfl⟩

theorem addInstruction_length (fs : FunctionState) (i : LVInstruction) :
    (fs.addInstruction i).instructions.length ≤ fs.instructions.length + 1 := by
  unfold addInstruction
  split
  · rename_i pi _ last
    obtain ⟨code, eq⟩ := List.getLast?_eq_some_iff.mp last
    split <;> simp [eq]
  · simp [pushInstruction]

theorem replay_length (fs : FunctionState) (exp : List LVInstruction) :
    (exp.foldl addInstruction fs).instructions.length ≤ fs.instructions.length + exp.length := by
  induction exp generalizing fs with
  | nil => simp
  | cons i exp ih =>
    have add := fs.addInstruction_length i
    have rest := ih (fs.addInstruction i)
    simp only [List.foldl_cons, List.length_cons]
    omega

/-- No two neighbours of a list are rewritten when the second is added after the first. -/
def NeighboursKept (fs : FunctionState) : List LVInstruction → Prop
  | pi :: i :: exp =>
    { fs with instructions := fs.instructions ++ [pi] }.rewriting pi i = .both pi i ∧
      NeighboursKept { fs with instructions := fs.instructions ++ [pi] } (i :: exp)
  | _ => True

instance decidableNeighboursKept : (fs : FunctionState) → (exp : List LVInstruction) →
    Decidable (fs.NeighboursKept exp)
  | _, [] => .isTrue trivial
  | _, [_] => .isTrue trivial
  | fs, pi :: i :: exp =>
    have := decidableNeighboursKept { fs with instructions := fs.instructions ++ [pi] } (i :: exp)
    inferInstanceAs (Decidable (_ ∧ _))

/-- Adding to code that ends in `pi`: unless something is merged, both are there. -/
theorem add_full {fs : FunctionState} {code : List LVInstruction} {pi i : LVInstruction}
    (on : fs.optimization = true) (eq : fs.instructions = code ++ [pi])
    (full : code.length + 2 ≤ (fs.addInstruction i).instructions.length) :
    ∃ pi' i', fs.rewriting pi i = .both pi' i' ∧
      fs.addInstruction i = { fs with instructions := code ++ [pi', i'] } := by
  have last : fs.instructions.getLast? = some pi := by simp [eq]
  have front : fs.instructions.dropLast = code := by rw [eq, List.dropLast_concat]
  rw [fs.addInstruction_on i on last] at full ⊢
  cases rewritten : fs.rewriting pi i with
  | merged pi' opt =>
    rw [rewritten] at full
    simp [front] at full
  | dropped i' =>
    rw [rewritten] at full
    simp [front] at full
  | both pi' i' =>
    refine ⟨pi', i', rfl, ?_⟩
    simp only [front, ← on]

theorem replay_agrees {fs : FunctionState} {code : List LVInstruction} {pi : LVInstruction}
    (eq : fs.instructions = code ++ [pi]) (exp : List LVInstruction) :
    ∀ k, k < code.length → (exp.foldl addInstruction fs).instructions[k]? = code[k]? := by
  have steps : Steps .statement code.length fs.code (exp.foldl addInstruction fs).code := by
    clear eq
    induction exp generalizing fs with
    | nil => exact .refl
    | cons i exp ih => exact .head (.add fs i trivial) ih
  have below : code.length ≤ fs.code.floor .statement := by
    have := Code.length_pred_le_floor .statement fs.code
    simp only [FunctionState.code, eq] at this ⊢
    simpa using this
  intro k lt
  have same := (steps.preserves below).1 k lt
  simp only [FunctionState.code, eq] at same
  rw [same, List.getElem?_append_left lt]

/-- While nothing is merged, an instruction that others are added to is kept or
becomes a tail call. -/
theorem replay_keeps {fs : FunctionState} {code : List LVInstruction} {pi : LVInstruction}
    (exp : List LVInstruction) (on : fs.optimization = true) (eq : fs.instructions = code ++ [pi])
    (full : (exp.foldl addInstruction fs).instructions.length = code.length + 1 + exp.length) :
    ∃ x, (exp.foldl addInstruction fs).instructions[code.length]? = some x ∧
      (x = pi ∨ pi.op = .OP_CALL ∧ x = { pi with op := .OP_TAILCALL }) := by
  cases exp with
  | nil => exact ⟨pi, by simp [eq], .inl rfl⟩
  | cons i exp =>
    have bound := replay_length (fs.addInstruction i) exp
    simp only [List.foldl_cons, List.length_cons] at full bound ⊢
    obtain ⟨pi', i', both, added⟩ := add_full (i := i) on eq (by omega)
    refine ⟨pi', ?_, (rewriting_both both).1⟩
    have ends : (fs.addInstruction i).instructions = (code ++ [pi']) ++ [i'] := by
      rw [added]
      simp
    rw [replay_agrees ends exp code.length (by simp)]
    simp

/-- Adding a list reproduces it exactly when no two neighbours are rewritten, the
first of them being the instruction the list is added to. -/
theorem replay_exact_iff (exp : List LVInstruction) {fs : FunctionState}
    {code : List LVInstruction} {pi : LVInstruction} (on : fs.optimization = true)
    (eq : fs.instructions = code ++ [pi]) :
    (exp.foldl addInstruction fs).instructions = fs.instructions ++ exp ↔
      NeighboursKept { fs with instructions := code } (pi :: exp) := by
  induction exp generalizing fs code pi with
  | nil => simp [NeighboursKept]
  | cons i exp ih =>
    have state : ({ fs with instructions := code ++ [pi] } : FunctionState) = fs := by rw [← eq]
    simp only [List.foldl_cons, NeighboursKept, state]
    constructor
    · intro exact_
      have bound := replay_length (fs.addInstruction i) exp
      have length := congrArg List.length exact_
      simp only [eq, List.length_append, List.length_cons, List.length_nil] at length
      obtain ⟨pi', i', both, added⟩ := add_full (i := i) on eq (by omega)
      have ends : (fs.addInstruction i).instructions = (code ++ [pi']) ++ [i'] := by
        rw [added]
        simp
      have on' : (fs.addInstruction i).optimization = true := by rw [added]; exact on
      -- the final code has `pi` and `i` where these two were added
      have first := replay_agrees ends exp code.length (by simp)
      rw [exact_, eq] at first
      simp only [List.append_assoc, List.getElem?_append_right (Nat.le_refl _), Nat.sub_self,
        List.cons_append, List.nil_append, List.getElem?_cons_zero, Option.some.injEq] at first
      obtain ⟨x, second, kept⟩ := replay_keeps exp on' ends (by
        simp only [List.length_append, List.length_cons, List.length_nil]
        omega)
      rw [exact_, eq] at second
      simp at second
      subst first
      have same : i' = i := by
        obtain ⟨-, rfl | ⟨kind, notCall, rfl⟩⟩ := rewriting_both both
        · rfl
        · rcases kept with rfl | ⟨call, -⟩
          · rw [second]
          · exact absurd call notCall
      subst same
      refine ⟨both, ?_⟩
      have next := (ih on' ends).mp (by rw [exact_, ends, eq]; simp)
      rw [added] at next
      change NeighboursKept { fs with instructions := code ++ [pi] } _ at next
      rwa [state] at next
    · rintro ⟨both, kept⟩
      have added : fs.addInstruction i = { fs with instructions := (code ++ [pi]) ++ [i] } := by
        have last : fs.instructions.getLast? = some pi := by simp [eq]
        have front : fs.instructions.dropLast = code := by rw [eq, List.dropLast_concat]
        rw [fs.addInstruction_on i on last]
        simp only [both, front, ← on, List.append_assoc, List.cons_append, List.nil_append]
      rw [added, (@ih { fs with instructions := (code ++ [pi]) ++ [i] } _ _ on rfl).mpr ?_]
      · simp [eq]
      · change NeighboursKept { fs with instructions := code ++ [pi] } _
        rwa [state]

end FunctionState

/-! ## The parts of the loop -/

/-- Everything before the body: the scope to restore, the position before the
condition, the position of its jump (`-1` without a condition) and the saved
increment. -/
def forHead (init : ForInit) (cond inc : Option CommaExpr) :
    CompilerM (Scope × Int × Int × List LVInstruction) := do
  let scope ← beginScope
  forInit init
  snoozeOpt
  let jmppos ← getCurrentPos
  let jzpos ← forCond cond
  snoozeOpt
  let expstart ← getCurrentPos
  forInc inc
  snoozeOpt
  let exp ← takeInstructions (expstart + 1).toNat
  return (scope, jmppos, jzpos, exp)

/-- The body, with what `END_BREAKBLE_BLOCK` needs. -/
def forBody (body : Statement) : CompilerM ((Nat × Nat) × Int) := do
  let start ← beginBreakableBlock
  statement true body
  return (start, ← getCurrentPos)

/-- The increment and the jump back, and the patch of the jump out of the loop. -/
def forTail (jmppos jzpos : Int) (exp : List LVInstruction) : CompilerM Unit := do
  replay exp
  addInstruction .OP_JMP 0 (jmppos - (← getCurrentPos) - 1) 0
  if jzpos > 0 then setArg1 jzpos.toNat ((← getCurrentPos) - jzpos)

theorem for_eq (closeframe : Bool) (init : ForInit) (cond inc : Option CommaExpr)
    (body : Statement) :
    statementKind closeframe (.for init cond inc body) = (do
      let (scope, jmppos, jzpos, exp) ← forHead init cond inc
      let (start, continuetrg) ← forBody body
      forTail jmppos jzpos exp
      endScope scope
      endBreakableBlock start continuetrg) := by
  simp only [statementKind, forHead, forBody, forTail, bind_assoc, pure_bind]
  repeat refine bind_congr fun _ => ?_
  split <;> simp only [bind_assoc, pure_bind]

/-- The code of the loop: the part before the increment, `front`, in which only the
jump out of the loop has got its target, the increment as it was saved, and a jump
back to the instruction after `jmppos`. -/
def LoopLayout (front exp code : List LVInstruction) (jmppos : Int) (jump : Option Nat) : Prop :=
  let size : Nat := front.length + exp.length
  let front := match jump with
    | none => front
    | some pos => front.modify pos ({ · with arg1 := (size : Int) - pos })
  code = front ++ exp ++ [instruction .OP_JMP 0 (jmppos - size) 0]

theorem statement_asleep {closeframe : Bool} {s : Statement} {c c' : LVCompiler}
    (run : statement closeframe s c = .ok ((), c')) : c'.fs.optimization = false := by
  obtain ⟨line, kind⟩ := s
  unfold statement at run
  obtain ⟨_, _, _, run⟩ := bind_ok.mp run
  obtain ⟨_, _, _, run⟩ := bind_ok.mp run
  obtain ⟨_, _, _, ⟨⟩⟩ := bind_ok.mp run
  rfl

/-- The test of a condition is the last instruction, and its target is still open. -/
theorem addJZ_last (fs : FunctionState) (r : Int) : ∃ code jz,
    (fs.addInstruction (instruction .OP_JZ r)).instructions = code ++ [jz] ∧ jz.arg1 = 0 := by
  cases on : fs.optimization with
  | false =>
    rw [fs.addInstruction_off _ on]
    exact ⟨_, _, rfl, rfl⟩
  | true =>
    cases last : fs.instructions.getLast? with
    | none =>
      rw [fs.addInstruction_first _ last]
      exact ⟨_, _, rfl, rfl⟩
    | some pi =>
      rw [fs.addInstruction_on _ on last]
      simp only [FunctionState.rewriting, instruction]
      split
      · rename_i merged
        split at merged <;> cases merged
        exact ⟨_, _, rfl, rfl⟩
      · rename_i both
        split at both <;> cases both
        exact ⟨fs.instructions.dropLast ++ [pi], _, by simp; rfl, rfl⟩
      · rename_i dropped
        split at dropped <;> cases dropped

theorem forCond_spec {cond : Option CommaExpr} {c c' : LVCompiler} {jzpos : Int}
    (run : forCond cond c = .ok (jzpos, c')) :
    (cond = none ∧ jzpos = -1) ∨
    (∃ e code jz, cond = some e ∧ c'.fs.instructions = code ++ [jz] ∧ jz.arg1 = 0 ∧
      jzpos = code.length) := by
  cases cond with
  | none =>
    unfold forCond at run
    obtain ⟨rfl, rfl⟩ := pure_ok.mp run
    exact .inl ⟨rfl, rfl⟩
  | some e =>
    unfold forCond at run
    obtain ⟨_, c₁, _, run⟩ := bind_ok.mp run
    obtain ⟨r, c₂, _, run⟩ := bind_ok.mp run
    obtain ⟨pos, c₃, emitted, run⟩ := bind_ok.mp run
    obtain ⟨rfl, rfl⟩ := pure_ok.mp run
    obtain ⟨_, _, ⟨⟩, emitted⟩ := bind_ok.mp emitted
    obtain ⟨_, _, ⟨⟩, emitted⟩ := bind_ok.mp emitted
    obtain ⟨rfl, rfl⟩ := pure_ok.mp emitted
    obtain ⟨code, jz, eq, open_⟩ := addJZ_last c₂.fs r
    exact .inr ⟨e, code, jz, rfl, eq, open_, by simp [eq]⟩

/-- The head leaves the code of the initialisation and the condition, which ends in
the jump of the condition. -/
theorem forHead_spec {init : ForInit} {cond inc : Option CommaExpr} {c head : LVCompiler}
    {scope : Scope} {jmppos jzpos : Int} {exp : List LVInstruction}
    (run : forHead init cond inc c = .ok ((scope, jmppos, jzpos, exp), head)) :
    head.fs.optimization = false ∧
    ((cond = none ∧ jzpos = -1) ∨
      (∃ e code jz, cond = some e ∧ head.fs.instructions = code ++ [jz] ∧ jz.arg1 = 0 ∧
        jzpos = code.length)) := by
  unfold forHead at run
  obtain ⟨_, _, _, run⟩ := bind_ok.mp run
  obtain ⟨_, _, _, run⟩ := bind_ok.mp run
  obtain ⟨_, _, _, run⟩ := bind_ok.mp run
  obtain ⟨_, _, _, run⟩ := bind_ok.mp run
  obtain ⟨_, c₁, tested, run⟩ := bind_ok.mp run
  obtain ⟨_, c₂, ⟨⟩, run⟩ := bind_ok.mp run
  obtain ⟨_, _, position, run⟩ := bind_ok.mp run
  obtain ⟨_, _, ⟨⟩, position⟩ := bind_ok.mp position
  obtain ⟨rfl, rfl⟩ := pure_ok.mp position
  obtain ⟨_, c₃, increment, run⟩ := bind_ok.mp run
  obtain ⟨_, c₄, ⟨⟩, run⟩ := bind_ok.mp run
  obtain ⟨_, c₅, ⟨⟩, run⟩ := bind_ok.mp run
  obtain ⟨result, rfl⟩ := pure_ok.mp run
  cases result
  refine ⟨rfl, ?_⟩
  -- the increment was emitted after the code of the condition and is taken out again
  obtain ⟨agree, -⟩ := (emits_forInc inc).agree increment
  obtain ⟨rest, eq⟩ := Agree.extends (s := FunctionState.code (c₁.fs.snoozeOpt)) agree
  have taken : (c₃.fs.snoozeOpt.popInstructions (c₃.fs.snoozeOpt.instructions.length -
      (c₁.fs.snoozeOpt.getCurrentPos + 1).toNat)).instructions = c₁.fs.instructions := by
    simp only [FunctionState.code, FunctionState.snoozeOpt] at eq
    have start : (c₁.fs.snoozeOpt.getCurrentPos + 1).toNat = c₁.fs.instructions.length := by
      simp [FunctionState.getCurrentPos, FunctionState.snoozeOpt]
    rw [start]
    simp [FunctionState.popInstructions, FunctionState.snoozeOpt, eq]
  rcases forCond_spec tested with none | ⟨e, code, jz, some_, ends, open_, at_⟩
  · exact .inl none
  · exact .inr ⟨e, code, jz, some_, taken.trans ends, open_, at_⟩

theorem forBody_spec {body : Statement} {head done : LVCompiler} {r : (Nat × Nat) × Int}
    (asleep : head.fs.optimization = false) (run : forBody body head = .ok (r, done)) :
    done.fs.optimization = false ∧ ∃ rest, done.fs.instructions = head.fs.instructions ++ rest := by
  unfold forBody at run
  obtain ⟨start, c₁, ⟨⟩, run⟩ := bind_ok.mp run
  obtain ⟨_, c₂, compiled, run⟩ := bind_ok.mp run
  obtain ⟨_, _, ⟨⟩, run⟩ := bind_ok.mp run
  obtain ⟨-, rfl⟩ := pure_ok.mp run
  refine ⟨statement_asleep compiled, ?_⟩
  obtain ⟨agree, -⟩ := (emits_statement true body).agree compiled
  refine Agree.extends (s := head.fs.code) (t := done.fs.code) ?_
  simpa only [FunctionState.code, asleep, Code.floor_off] using agree

theorem addJMP (fs : FunctionState) (offset : Int) :
    (fs.addInstruction (instruction .OP_JMP 0 offset 0)).instructions =
      fs.instructions ++ [instruction .OP_JMP 0 offset 0] := by
  cases on : fs.optimization with
  | false => rw [fs.addInstruction_off _ on]; rfl
  | true =>
    cases last : fs.instructions.getLast? with
    | none => rw [fs.addInstruction_first _ last]; rfl
    | some pi =>
      obtain ⟨code, eq⟩ := List.getLast?_eq_some_iff.mp last
      rw [fs.addInstruction_on _ on last]
      simp [FunctionState.rewriting, instruction, eq]

theorem neighboursKept_awake (fs : FunctionState) (o : Bool) (exp : List LVInstruction) :
    FunctionState.NeighboursKept { fs with optimization := o } exp ↔ fs.NeighboursKept exp := by
  induction exp generalizing fs with
  | nil => rfl
  | cons pi exp ih =>
    cases exp with
    | nil => rfl
    | cons i exp => exact and_congr_right fun _ => ih { fs with instructions := fs.instructions ++ [pi] }

/-- The increment is added to a body that ends asleep. -/
theorem replay_after_body (exp : List LVInstruction) {fs : FunctionState}
    (asleep : fs.optimization = false) :
    (∃ rest, (exp.foldl FunctionState.addInstruction fs).instructions = fs.instructions ++ rest) ∧
    ((exp.foldl FunctionState.addInstruction fs).instructions = fs.instructions ++ exp ↔
      fs.NeighboursKept exp) := by
  cases exp with
  | nil => exact ⟨⟨[], by simp⟩, by simp [FunctionState.NeighboursKept]⟩
  | cons i exp =>
    have pushed := fs.addInstruction_off i asleep
    have ends : (fs.addInstruction i).instructions = fs.instructions ++ [i] := by rw [pushed]; rfl
    rw [List.foldl_cons]
    constructor
    · exact Agree.extends (s := fs.code)
        (t := (exp.foldl FunctionState.addInstruction (fs.addInstruction i)).code)
        (FunctionState.replay_agrees ends exp)
    · have exact_ := FunctionState.replay_exact_iff exp (by rw [pushed]; rfl) ends
      rw [ends, List.append_assoc, List.singleton_append] at exact_
      rw [exact_, pushed]
      exact neighboursKept_awake fs true (i :: exp)

theorem modify_middle (front back : List LVInstruction) (i : LVInstruction)
    (f : LVInstruction → LVInstruction) :
    (front ++ i :: back).modify front.length f = front ++ f i :: back := by
  induction front with
  | nil => rfl
  | cons j front ih => simp [ih]

theorem setArg1_last {fs : FunctionState} {code : List LVInstruction} {i : LVInstruction}
    (eq : fs.instructions = code ++ [i]) (pos : Nat) (start : Int) :
    (fs.setArg1 pos (fs.getCurrentPos - start)).instructions =
      (code ++ [i]).modify pos ({ · with arg1 := (code.length : Int) - start }) := by
  have last : fs.getCurrentPos = code.length := by simp [FunctionState.getCurrentPos, eq]
  rw [FunctionState.setArg1, FunctionState.modifyInstruction, last, eq]

/-- What the tail of the loop adds to the replayed increment. -/
theorem forTail_spec {jmppos jzpos : Int} {exp code : List LVInstruction} {done after : LVCompiler}
    (replayed : (exp.foldl FunctionState.addInstruction done.fs).instructions = code)
    (run : forTail jmppos jzpos exp done = .ok ((), after)) :
    after.fs.instructions =
      if jzpos > 0 then
        (code ++ [instruction .OP_JMP 0 (jmppos - code.length) 0]).modify jzpos.toNat
          ({ · with arg1 := (code.length : Int) - jzpos })
      else code ++ [instruction .OP_JMP 0 (jmppos - code.length) 0] := by
  unfold forTail at run
  obtain ⟨_, c₁, ⟨⟩, run⟩ := bind_ok.mp run
  obtain ⟨_, _, ⟨⟩, run⟩ := bind_ok.mp run
  obtain ⟨_, c₂, ⟨⟩, run⟩ := bind_ok.mp run
  have jumped := addJMP (exp.foldl FunctionState.addInstruction done.fs) (jmppos - code.length)
  have offset : jmppos - (exp.foldl FunctionState.addInstruction done.fs).getCurrentPos - 1 =
      jmppos - code.length := by
    rw [FunctionState.getCurrentPos, replayed]
    omega
  rw [replayed, ← offset] at jumped
  split at run
  · rename_i positive
    obtain ⟨_, _, ⟨⟩, run⟩ := bind_ok.mp run
    cases run
    rw [if_pos positive]
    rw [← offset]
    exact setArg1_last jumped jzpos.toNat jzpos
  · rename_i negative
    obtain ⟨-, rfl⟩ := pure_ok.mp run
    rw [if_neg negative, ← offset]
    exact jumped

instance (front exp code : List LVInstruction) (jmppos : Int) (jump : Option Nat) :
    Decidable (LoopLayout front exp code jmppos jump) := by
  unfold LoopLayout
  infer_instance

/-- Compiles the three parts of a loop, and what a predicate says of them. -/
@[irreducible] def forParts (init : ForInit) (cond inc : Option CommaExpr) (body : Statement) (c : LVCompiler)
    (P : Int → List LVInstruction → LVCompiler → LVCompiler → LVCompiler → Prop) : Prop :=
  match forHead init cond inc c with
  | .error _ => False
  | .ok ((_, jmppos, jzpos, exp), head) =>
    match forBody body head with
    | .error _ => False
    | .ok (_, done) =>
      match forTail jmppos jzpos exp done with
      | .error _ => False
      | .ok (_, after) => P jmppos exp head done after

instance (init : ForInit) (cond inc : Option CommaExpr) (body : Statement) (c : LVCompiler)
    (P : Int → List LVInstruction → LVCompiler → LVCompiler → LVCompiler → Prop)
    [∀ jmppos exp head done after, Decidable (P jmppos exp head done after)] :
    Decidable (forParts init cond inc body c P) := by
  unfold forParts
  split
  · infer_instance
  · split
    · infer_instance
    · split <;> infer_instance

theorem forParts_imp {init : ForInit} {cond inc : Option CommaExpr} {body : Statement}
    {c : LVCompiler}
    {P Q : Int → List LVInstruction → LVCompiler → LVCompiler → LVCompiler → Prop}
    (imp : ∀ scope jmppos jzpos exp head r done after,
      forHead init cond inc c = .ok ((scope, jmppos, jzpos, exp), head) →
      forBody body head = .ok (r, done) → forTail jmppos jzpos exp done = .ok ((), after) →
      P jmppos exp head done after → Q jmppos exp head done after)
    (h : forParts init cond inc body c P) : forParts init cond inc body c Q := by
  unfold forParts at h ⊢
  split at h
  · exact h
  · rename_i compiledHead
    split at h
    · exact h
    · rename_i compiledBody
      split at h
      · exact h
      · rename_i compiledTail
        exact imp _ _ _ _ _ _ _ _ compiledHead compiledBody compiledTail h

/-- `x < 3` -/
def xBelow3 : CommaExpr :=
  .last (.plain (.bin .lt (.name "x") (.prefixed (.mk (.integer 3) [] none))))

/-- `x = x + 1` -/
def nextX : CommaExpr :=
  .last (.assign (.name "x") .assign
    (.plain (.bin .add (.name "x") (.prefixed (.mk (.integer 1) [] none)))))

/-- `x = c ? 1 : 2` -/
def chooseX : CommaExpr :=
  .last (.assign (.name "x") .assign (.cond (.name "c") (.integer 1) (.integer 2)))

/-- `function (c, x) { for (; x < 1; x = c ? 1 : 2) ; }` -/
def forChoose : FunctionDef :=
  .simple ["c", "x"]
    [.for .none (some (.last (.plain (.bin .lt (.name "x") (.prefixed (.mk (.integer 1) [] none))))))
      (some chooseX) (.mk 1 .empty)]

/-- Called with `c = 1` and `x = 0` it should stop after one round. After 24
instructions it still runs, and `x` is still 0. -/
example :
    (compileFunction forChoose).map (fun p =>
      let f := Frame.run (fun _ _ => none) p.literals p.instructions 24
        ⟨0, fun r => .integer (if r = 1 then 1 else 0)⟩
      (f.regs 2, decide (f.ip + 2 < p.instructions.length))) = some (.integer 0, true) := by
  decide +kernel

end Lavril
