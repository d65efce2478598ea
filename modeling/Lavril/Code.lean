import Lavril.FuncState
import Mathlib.Logic.Relation

/-!
# What the compiler can do to code it has emitted

Whatever is compiled changes the code of its function by a sequence of `Step`s:
adding an instruction, setting an operand of a jump that it emitted itself,
taking back what it emitted. Instructions below the `floor` are out of reach of
all of them.
-/

namespace Lavril

/-- The part of a function state the optimiser works on. -/
structure Code where
  instructions : List LVInstruction
  optimization : Bool

def FunctionState.code (fs : FunctionState) : Code := ⟨fs.instructions, fs.optimization⟩

/-- What is being compiled. An expression adds no `RETURN` and no `LINE`, and only
a statement discards the target of the last instruction. -/
inductive Level where
  | expression | statement
  deriving DecidableEq

def Level.adds : Level → Opcode → Prop
  | .expression, op => op ≠ .OP_RETURN ∧ op ≠ .OP_LINE
  | .statement, _ => True

/-- The instructions that `DiscardTarget` changes. -/
def discardable (op : Opcode) : Bool :=
  op = .OP_SET || op = .OP_NEWSLOT || op = .OP_SETOUTER || op = .OP_CALL

/-- The instructions that may change after they were emitted last. -/
def fusable (lvl : Level) (op : Opcode) : Bool :=
  FunctionState.retargetable op || op = .OP_CMP || op = .OP_MOVE || op = .OP_LOADNULLS ||
    (lvl = .statement && (discardable op || op = .OP_CLOSE || op = .OP_LINE))

/-- The number of instructions no later one can change. -/
def Code.floor (lvl : Level) (s : Code) : Nat :=
  match s.optimization, s.instructions.getLast? with
  | true, some pi => if fusable lvl pi.op then s.instructions.length - 1 else s.instructions.length
  | _, _ => s.instructions.length

/-- One effect on the code. Operands are set, and instructions taken back, from
position `b` on. -/
inductive Step (lvl : Level) (b : Nat) : Code → Code → Prop
  | snooze (s : Code) : Step lvl b s ⟨s.instructions, false⟩
  | add (fs : FunctionState) (i : LVInstruction) (adds : lvl.adds i.op) :
      Step lvl b fs.code (fs.addInstruction i).code
  | patch (s : Code) (pos : Nat) (f : LVInstruction → LVInstruction) (above : b ≤ pos)
      (keeps : ∀ i, (f i).op = i.op) :
      Step lvl b s ⟨s.instructions.modify pos f, s.optimization⟩
  | discard (code : List LVInstruction) (pi : LVInstruction) (statement : lvl = .statement)
      (kind : discardable pi.op) :
      Step lvl b ⟨code ++ [pi], true⟩ ⟨code ++ [{ pi with arg0 := 0xFF }], true⟩
  | take (code : List LVInstruction) (n : Nat) (above : b ≤ n) :
      Step lvl b ⟨code, false⟩ ⟨code.take n, false⟩

abbrev Steps (lvl : Level) (b : Nat) : Code → Code → Prop := Relation.ReflTransGen (Step lvl b)

theorem Code.floor_le (lvl : Level) (s : Code) : s.floor lvl ≤ s.instructions.length := by
  unfold Code.floor
  split
  · split <;> omega
  · exact le_refl _

@[simp] theorem Code.floor_off (lvl : Level) (code : List LVInstruction) :
    Code.floor lvl ⟨code, false⟩ = code.length := rfl

theorem Code.floor_append (lvl : Level) (code : List LVInstruction) (pi : LVInstruction) :
    Code.floor lvl ⟨code ++ [pi], true⟩ =
      if fusable lvl pi.op then code.length else code.length + 1 := by
  simp [Code.floor]

theorem fusable_statement {lvl : Level} {op : Opcode} (h : fusable lvl op = true) :
    fusable .statement op = true := by
  cases lvl with
  | statement => exact h
  | expression =>
    simp only [fusable, Bool.or_eq_true] at h ⊢
    tauto

theorem Code.floor_statement_le (lvl : Level) (s : Code) : s.floor .statement ≤ s.floor lvl := by
  unfold Code.floor
  split
  · split
    · split <;> omega
    · rename_i pi _ _ free
      rw [if_neg (fun h => free (fusable_statement h))]
  · exact le_refl _

/-- An instruction that is not fusable stays, and the next one is added to it. -/
theorem rewriting_kept {lvl : Level} (fs : FunctionState) {pi i : LVInstruction}
    (adds : lvl.adds i.op) (free : fusable lvl pi.op = false) :
    ∃ i', fs.rewriting pi i = .both pi i' ∧ i'.op = i.op := by
  simp only [fusable, Bool.or_eq_false_iff, decide_eq_false_iff_not] at free
  obtain ⟨⟨⟨⟨retarget, cmp⟩, move⟩, nulls⟩, statement⟩ := free
  have loads : pi.op ≠ .OP_LOAD ∧ pi.op ≠ .OP_LOADINT ∧ pi.op ≠ .OP_LOADBOOL ∧
      pi.op ≠ .OP_LOADFLOAT := by
    refine ⟨?_, ?_, ?_, ?_⟩ <;>
    · intro eq
      rw [eq] at retarget
      cases retarget
  have kept : lvl = .statement → pi.op ≠ .OP_CALL ∧ pi.op ≠ .OP_CLOSE ∧ pi.op ≠ .OP_LINE := by
    rintro rfl
    simp [discardable] at statement
    tauto
  have statement : i.op = .OP_RETURN ∨ i.op = .OP_LINE → lvl = .statement := by
    intro op
    cases lvl with
    | statement => rfl
    | expression => exact absurd adds (by rintro ⟨h₁, h₂⟩; tauto)
  unfold FunctionState.rewriting
  split
  case h_1 => exact ⟨i, by simp [cmp], rfl⟩
  case h_5 op =>
    obtain ⟨call, close, -⟩ := kept (statement (.inl op))
    exact ⟨i, by simp [call, close], rfl⟩
  case h_14 op =>
    obtain ⟨-, -, line⟩ := kept (statement (.inr op))
    exact ⟨i, by simp [line], rfl⟩
  case h_8 =>
    have aat : FunctionState.appendArrayType pi.op = -1 := by
      unfold FunctionState.appendArrayType
      split <;> simp_all
    exact ⟨i, by simp [aat], rfl⟩
  case h_2 | h_3 | h_4 => exact ⟨_, rfl, by split <;> rfl⟩
  case h_15 => exact ⟨i, rfl, rfl⟩
  all_goals exact ⟨i, by simp [loads.1, retarget, move, nulls], rfl⟩

theorem Code.length_pred_le_floor (lvl : Level) (s : Code) :
    s.instructions.length - 1 ≤ s.floor lvl := by
  unfold Code.floor
  split
  · split <;> omega
  · omega

theorem Code.floor_congr {lvl : Level} {s s' : Code}
    (ops : s'.instructions.map (·.op) = s.instructions.map (·.op))
    (opt : s'.optimization = s.optimization) : s'.floor lvl = s.floor lvl := by
  have length : s'.instructions.length = s.instructions.length := by
    simpa using congrArg List.length ops
  have last : s'.instructions.getLast?.map (·.op) = s.instructions.getLast?.map (·.op) := by
    rw [← List.getLast?_map, ← List.getLast?_map, ops]
  unfold Code.floor
  rw [opt, length]
  cases h : s.instructions.getLast? <;> cases h' : s'.instructions.getLast? <;>
    cases s.optimization <;> simp_all

theorem map_modify_of_keeps {α β : Type} {f : α → α} {g : α → β} (l : List α) (pos : Nat)
    (keeps : ∀ x, g (f x) = g x) : (l.modify pos f).map g = l.map g := by
  apply List.ext_getElem?
  intro k
  rw [List.getElem?_map, List.getElem?_map, List.getElem?_modify]
  cases l[k]? with
  | none => rfl
  | some i =>
    by_cases eq : pos = k <;> simp [eq, keeps]

/-- What `AddInstruction` makes of the code: it ends in one or two instructions
that replace the last one, or in one more. -/
theorem addInstruction_code {lvl : Level} (fs : FunctionState) (i : LVInstruction)
    (adds : lvl.adds i.op) :
    (∃ opt i', i'.op = i.op ∧ (fs.addInstruction i).code = ⟨fs.instructions ++ [i'], opt⟩) ∨
    ∃ code pi new opt, fs.code = ⟨code ++ [pi], true⟩ ∧ fusable lvl pi.op = true ∧ new ≠ [] ∧
      (fs.addInstruction i).code = ⟨code ++ new, opt⟩ := by
  cases on : fs.optimization with
  | false =>
    rw [fs.addInstruction_off i on]
    exact .inl ⟨true, i, rfl, rfl⟩
  | true =>
    cases last : fs.instructions.getLast? with
    | none =>
      rw [fs.addInstruction_first i last]
      exact .inl ⟨true, i, rfl, rfl⟩
    | some pi =>
      obtain ⟨code, eq⟩ := List.getLast?_eq_some_iff.mp last
      have front : fs.instructions.dropLast = code := by rw [eq, List.dropLast_concat]
      rw [fs.addInstruction_on i on last]
      cases free : fusable lvl pi.op with
      | false =>
        obtain ⟨i', kept, op⟩ := rewriting_kept fs adds free
        refine .inl ⟨true, i', op, ?_⟩
        simp only [kept, FunctionState.code, front]
        simp [eq]
      | true =>
        refine .inr ⟨code, pi, ?_⟩
        have start : fs.code = ⟨code ++ [pi], true⟩ := by rw [FunctionState.code, eq, on]
        cases fs.rewriting pi i with
        | merged pi' opt =>
          exact ⟨[pi'], opt, start, free, by simp, by simp [FunctionState.code, front]⟩
        | both pi' i' =>
          exact ⟨[pi', i'], true, start, free, by simp, by simp [FunctionState.code, front]⟩
        | dropped i' =>
          exact ⟨[i'], true, start, free, by simp, by simp [FunctionState.code, front]⟩

/-- The same instructions below a position. -/
def Agree (b : Nat) (s s' : Code) : Prop :=
  ∀ k, k < b → s'.instructions[k]? = s.instructions[k]?

theorem Agree.refl (b : Nat) (s : Code) : Agree b s s := fun _ _ => rfl

theorem Agree.trans {b : Nat} {s t u : Code} (h₁ : Agree b s t) (h₂ : Agree b t u) :
    Agree b s u := fun k lt => (h₂ k lt).trans (h₁ k lt)

theorem Agree.mono {b b' : Nat} {s t : Code} (h : Agree b s t) (le : b' ≤ b) : Agree b' s t :=
  fun k lt => h k (by omega)

theorem agree_append {b : Nat} {code old new : List LVInstruction} {o o' : Bool}
    (le : b ≤ code.length) : Agree b ⟨code ++ old, o⟩ ⟨code ++ new, o'⟩ := by
  intro k lt
  rw [List.getElem?_append_left (by omega), List.getElem?_append_left (by omega)]

/-- Code that agrees with all of an earlier one extends it. -/
theorem Agree.extends {s t : Code} (h : Agree s.instructions.length s t) :
    ∃ rest, t.instructions = s.instructions ++ rest := by
  refine ⟨t.instructions.drop s.instructions.length, ?_⟩
  have front : t.instructions.take s.instructions.length = s.instructions := by
    apply List.ext_getElem?
    intro k
    by_cases lt : k < s.instructions.length
    · rw [List.getElem?_take_of_lt lt, h k lt]
    · rw [List.getElem?_eq_none (by simp; omega), List.getElem?_eq_none (by omega)]
  conv_lhs => rw [← List.take_append_drop s.instructions.length t.instructions, front]

/-- One step leaves the code below its bound alone when the bound is not above
the floor, and does not let the floor sink below it. -/
theorem Step.preserves {lvl : Level} {b : Nat} {s s' : Code} (step : Step lvl b s s')
    (below : b ≤ s.floor lvl) : Agree b s s' ∧ b ≤ s'.floor lvl := by
  have inside := below.trans (s.floor_le lvl)
  cases step with
  | snooze => exact ⟨Agree.refl b _, inside⟩
  | add fs i adds =>
    rcases addInstruction_code fs i adds with ⟨opt, i', -, eq⟩ | ⟨code, pi, new, opt, eq, fuse, ne, eq'⟩
    · rw [eq]
      refine ⟨?_, le_trans inside (le_trans ?_ (Code.length_pred_le_floor lvl _))⟩
      · have := @agree_append b _ [] [i'] fs.optimization opt inside
        simpa [FunctionState.code] using this
      · simp [FunctionState.code]
    · rw [eq, Code.floor_append, if_pos fuse] at below
      rw [eq, eq']
      refine ⟨agree_append below, le_trans below (le_trans ?_ (Code.length_pred_le_floor lvl _))⟩
      have := List.length_pos_iff.mpr ne
      simp only [List.length_append]
      omega
  | patch s pos f above keeps =>
    refine ⟨fun k lt => ?_, ?_⟩
    · have ne : pos ≠ k := by omega
      simp [ne]
    · rwa [@Code.floor_congr _ s ⟨s.instructions.modify pos f, s.optimization⟩
        (map_modify_of_keeps _ pos keeps) rfl]
  | discard code pi statement kind =>
    subst statement
    have fuse : fusable .statement pi.op = true := by simp [fusable, kind]
    rw [Code.floor_append, if_pos fuse] at below
    refine ⟨agree_append below, ?_⟩
    rw [Code.floor_append]
    split <;> omega
  | take code n above =>
    refine ⟨fun k lt => ?_, ?_⟩
    · exact List.getElem?_take_of_lt (by omega)
    · simp only [Code.floor_off, List.length_take] at inside ⊢
      omega

theorem Steps.preserves {lvl : Level} {b : Nat} {s s' : Code} (steps : Steps lvl b s s')
    (below : b ≤ s.floor lvl) : Agree b s s' ∧ b ≤ s'.floor lvl := by
  induction steps with
  | refl => exact ⟨Agree.refl b s, below⟩
  | tail _ step ih =>
    obtain ⟨agree, still⟩ := step.preserves ih.2
    exact ⟨ih.1.trans agree, still⟩

/-- After an instruction that is no `RETURN` the code before it is out of reach of
a `RETURN` too. -/
theorem add_opens {b : Nat} (fs : FunctionState) {i : LVInstruction}
    (adds : Level.expression.adds i.op) (below : b ≤ fs.code.floor .expression) :
    b ≤ (fs.addInstruction i).code.floor .statement := by
  have inside := below.trans (fs.code.floor_le .expression)
  rcases addInstruction_code fs i adds with ⟨opt, i', -, eq⟩ | ⟨code, pi, new, opt, eq, fuse, ne, eq'⟩
  · rw [eq]
    refine le_trans inside (le_trans ?_ (Code.length_pred_le_floor .statement _))
    simp [FunctionState.code]
  · rw [eq, Code.floor_append, if_pos fuse] at below
    rw [eq']
    refine le_trans below (le_trans ?_ (Code.length_pred_le_floor .statement _))
    have := List.length_pos_iff.mpr ne
    simp only [List.length_append]
    omega

end Lavril
