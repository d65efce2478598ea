import Lavril.Code

/-!
# Registers in instructions

A register is the number of a slot of the frame. Three of the four operands are
bytes, and in some of them `0xFF` says that there is no register. `registers`
reads them the way the loop of `Execute` does. The registers of a call's
arguments are no operands: the instructions that compute them name them.
-/

namespace Lavril

/-- An operand that names a register unless it is `0xFF`. -/
def optionalRegister (arg : Nat) : List Int := if arg = 0xFF then [] else [(arg : Int)]

/-- The registers an instruction reads or writes. -/
def LVInstruction.registers (i : LVInstruction) : List Int :=
  match i.op with
  | .OP_LINE | .OP_JMP | .OP_POPTRAP | .OP_CLOSE => []
  | .OP_LOAD | .OP_LOADINT | .OP_LOADFLOAT | .OP_LOADROOT | .OP_LOADBOOL | .OP_JZ | .OP_GETOUTER
  | .OP_CLOSURE | .OP_POSTFOREACH | .OP_PUSHTRAP | .OP_THROW | .OP_GETBASE => [(i.arg0 : Int)]
  | .OP_INCL => [i.arg1]
  | .OP_MOVE | .OP_NEG | .OP_NOT | .OP_BWNOT | .OP_RESUME | .OP_CLONE | .OP_TYPEOF | .OP_PINCL =>
    [(i.arg0 : Int), i.arg1]
  | .OP_DLOAD | .OP_GETK | .OP_JCMP | .OP_AND | .OP_OR => [(i.arg0 : Int), (i.arg2 : Int)]
  | .OP_DELETE | .OP_GET | .OP_ADD | .OP_SUB | .OP_MUL | .OP_DIV | .OP_MOD | .OP_BITW | .OP_INC
  | .OP_PINC | .OP_CMP | .OP_EXISTS | .OP_INSTANCEOF => [(i.arg0 : Int), i.arg1, (i.arg2 : Int)]
  | .OP_PREPCALLK => [(i.arg0 : Int), (i.arg2 : Int), (i.arg3 : Int)]
  | .OP_PREPCALL | .OP_DMOVE => [(i.arg0 : Int), i.arg1, (i.arg2 : Int), (i.arg3 : Int)]
  | .OP_CALL | .OP_TAILCALL => optionalRegister i.arg0 ++ [i.arg1, (i.arg2 : Int)]
  | .OP_NEWSLOT | .OP_SET => optionalRegister i.arg0 ++ [i.arg1, (i.arg2 : Int), (i.arg3 : Int)]
  | .OP_SETOUTER => optionalRegister i.arg0 ++ [(i.arg2 : Int)]
  | .OP_NEWSLOTA => [i.arg1, (i.arg2 : Int), (i.arg3 : Int)]
  | .OP_EQ | .OP_NE =>
    (i.arg0 : Int) :: (i.arg2 : Int) :: if i.arg3 = 0 then [i.arg1] else []
  | .OP_RETURN => if i.arg0 = 0xFF then [] else [i.arg1]
  | .OP_YIELD => if i.arg1 = MAX_FUNC_STACKSIZE then [] else [i.arg1]
  | .OP_LOADNULLS => [(i.arg0 : Int), i.arg0 + i.arg1 - 1]
  | .OP_NEWOBJ => (i.arg0 : Int) :: if i.arg3 = NOT_CLASS ∧ i.arg1 ≠ -1 then [i.arg1] else []
  | .OP_APPENDARRAY => (i.arg0 : Int) :: if i.arg2 = AAT_STACK then [i.arg1] else []
  | .OP_COMPARITH => [(i.arg0 : Int), i.arg1 / 0x10000, i.arg1 % 0x10000, (i.arg2 : Int)]
  | .OP_FOREACH => [(i.arg0 : Int), (i.arg2 : Int), i.arg2 + 1, i.arg2 + 2]

namespace FunctionPrototype

/-- The registers of a function are the numbers below its `stacksize`. Each of
them survives the cast to a byte and differs from the marker, and no instruction
names another. -/
def RegistersRight (f : FunctionPrototype) : Prop :=
  (∀ r < f.stacksize, uchar r = r ∧ r ≠ 0xFF) ∧
  ∀ i ∈ f.instructions, ∀ r ∈ i.registers, 0 ≤ r ∧ r < f.stacksize

mutual

/-- A function and all those nested in it. -/
def All (P : FunctionPrototype → Prop) : FunctionPrototype → Prop
  | ⟨a, b, c, d, e, functions, g, h, i, j⟩ =>
    P ⟨a, b, c, d, e, functions, g, h, i, j⟩ ∧ AllIn P functions

def AllIn (P : FunctionPrototype → Prop) : List FunctionPrototype → Prop
  | [] => True
  | f :: rest => All P f ∧ AllIn P rest

end

theorem allIn_iff {P : FunctionPrototype → Prop} (fs : List FunctionPrototype) :
    AllIn P fs ↔ ∀ f ∈ fs, All P f := by
  induction fs with
  | nil => simp [AllIn]
  | cons f rest ih => simp [AllIn, ih]

theorem all_iff {P : FunctionPrototype → Prop} (f : FunctionPrototype) :
    All P f ↔ P f ∧ ∀ g ∈ f.functions, All P g := by
  obtain ⟨a, b, c, d, e, functions, g, h, i, j⟩ := f
  rw [All, allIn_iff]
  rfl

/-- No function has more than 255 slots in use at once. -/
def Fits (f : FunctionPrototype) : Prop := f.All fun g => g.stacksize ≤ MAX_FUNC_STACKSIZE

/-- The registers of a function and of all those nested in it are right. -/
def Right (f : FunctionPrototype) : Prop := f.All RegistersRight

theorem All.imp {P Q : FunctionPrototype → Prop} (imp : ∀ f, P f → Q f) :
    (f : FunctionPrototype) → f.All P → f.All Q
  | ⟨a, b, c, d, e, functions, g, h, i, j⟩ => by
    intro all
    rw [All] at all ⊢
    refine ⟨imp _ all.1, ?_⟩
    rw [allIn_iff] at all ⊢
    intro g mem
    exact All.imp imp g (all.2 g mem)

theorem RegistersRight.stacksize_le {f : FunctionPrototype} (right : f.RegistersRight) :
    f.stacksize ≤ MAX_FUNC_STACKSIZE := by
  by_contra more
  exact (right.1 0xFF (by simp only [MAX_FUNC_STACKSIZE] at more; omega)).2 rfl

theorem Right.fits {f : FunctionPrototype} (right : f.Right) : f.Fits :=
  right.imp fun _ h => h.stacksize_le

end FunctionPrototype

/-- The size of a frame whose registers all fit in a byte. -/
structure FrameSize where
  size : Nat
  this : 0 < size
  fits : size ≤ MAX_FUNC_STACKSIZE

/-- A register of a frame of that size. -/
def FrameSize.Has (L : FrameSize) (r : Int) : Prop := 0 ≤ r ∧ r < L.size

/-- Only registers of the frame are named. -/
def LVInstruction.Uses (L : FrameSize) (i : LVInstruction) : Prop := ∀ r ∈ i.registers, L.Has r

section

variable {L : FrameSize}

theorem FrameSize.has {n : Nat} (h : n < L.size) : L.Has n := by
  simp only [FrameSize.Has]
  omega

/-- The cast to a byte does not lead out of the frame. -/
theorem FrameSize.Has.byte {r : Int} (h : L.Has r) : L.Has (uchar r) := by
  simp only [FrameSize.Has, uchar] at h ⊢
  omega

theorem FrameSize.has_byte {n : Nat} (h : n < L.size) : L.Has (uchar n) := (FrameSize.has h).byte

theorem has_optional {arg : Nat} (h : L.Has arg) : ∀ r ∈ optionalRegister arg, L.Has r := by
  unfold optionalRegister
  split
  · simp
  · simpa using h

theorem uses_one {i : LVInstruction} {x : Int} (eq : i.registers = [x]) (hx : L.Has x) :
    i.Uses L := by
  rw [LVInstruction.Uses, eq]
  simpa using hx

theorem uses_two {i : LVInstruction} {x y : Int} (eq : i.registers = [x, y]) (hx : L.Has x)
    (hy : L.Has y) : i.Uses L := by
  rw [LVInstruction.Uses, eq]
  simpa using ⟨hx, hy⟩

theorem uses_three {i : LVInstruction} {x y z : Int} (eq : i.registers = [x, y, z])
    (hx : L.Has x) (hy : L.Has y) (hz : L.Has z) : i.Uses L := by
  rw [LVInstruction.Uses, eq]
  simpa using ⟨hx, hy, hz⟩

theorem uses_four {i : LVInstruction} {x y z w : Int} (eq : i.registers = [x, y, z, w])
    (hx : L.Has x) (hy : L.Has y) (hz : L.Has z) (hw : L.Has w) : i.Uses L := by
  rw [LVInstruction.Uses, eq]
  simpa using ⟨hx, hy, hz, hw⟩

end

/-! ## What the optimiser does to them -/

/-- The second operand is a number, not a register, and may be set later. -/
def LVInstruction.offset (i : LVInstruction) : Bool :=
  match i.op with
  | .OP_JMP | .OP_JZ | .OP_JCMP | .OP_AND | .OP_OR | .OP_PUSHTRAP | .OP_FOREACH
  | .OP_POSTFOREACH => true
  | .OP_NEWOBJ => i.arg3 ≠ NOT_CLASS
  | _ => false

/-- What replaces the last instruction. -/
def FunctionState.Rewriting.instructions : FunctionState.Rewriting → List LVInstruction
  | .merged pi _ => [pi]
  | .both pi i => [pi, i]
  | .dropped i => [i]

section

variable {L : FrameSize}

theorem uses_both {pi i : LVInstruction} (hp : pi.Uses L) (hi : i.Uses L) :
    ∀ j ∈ (FunctionState.Rewriting.both pi i).instructions, j.Uses L := by
  intro j mem
  simp only [FunctionState.Rewriting.instructions, List.mem_cons, List.not_mem_nil, or_false] at mem
  rcases mem with rfl | rfl
  · exact hp
  · exact hi

theorem uses_merged {pi : LVInstruction} {opt : Bool} (hp : pi.Uses L) :
    ∀ j ∈ (FunctionState.Rewriting.merged pi opt).instructions, j.Uses L := by
  intro j mem
  simp only [FunctionState.Rewriting.instructions, List.mem_singleton] at mem
  subst mem
  exact hp

theorem uses_ite {p : Prop} [Decidable p] {r r' : FunctionState.Rewriting}
    (h : p → ∀ j ∈ r.instructions, j.Uses L) (h' : ∀ j ∈ r'.instructions, j.Uses L) :
    ∀ j ∈ (if p then r else r').instructions, j.Uses L := by
  split
  · rename_i holds
    exact h holds
  · exact h'

/-- The registers of an instruction whose opcode is known, one by one. -/
theorem LVInstruction.Uses.all {i : LVInstruction} {rs : List Int} (h : i.Uses L)
    (eq : i.registers = rs) : ∀ r ∈ rs, L.Has r := by
  rw [← eq]
  exact h

/-- The marker in place of the target names one register less. -/
theorem uses_marker {i : LVInstruction} {rs : List Int}
    (eq : ∀ arg, { i with arg0 := arg }.registers = optionalRegister arg ++ rs) (h : i.Uses L) :
    { i with arg0 := 0xFF }.Uses L := by
  rw [LVInstruction.Uses, eq 0xFF]
  intro r mem
  exact h.all (eq i.arg0) r (List.mem_append_right _ mem)

/-- Another target for an instruction that only sets it. -/
theorem uses_retarget {i : LVInstruction} {rs : List Int} {arg : Nat}
    (eq : ∀ arg : Nat, { i with arg0 := arg }.registers = (arg : Int) :: rs) (h : i.Uses L)
    (ha : L.Has arg) : { i with arg0 := arg }.Uses L := by
  rw [LVInstruction.Uses, eq arg, List.forall_mem_cons]
  exact ⟨ha, (List.forall_mem_cons.mp (h.all (eq i.arg0))).2⟩

theorem appendArrayType_byte {op : Opcode} (appends : FunctionState.appendArrayType op ≠ -1) :
    (uchar (FunctionState.appendArrayType op) : Int) ≠ AAT_STACK := by
  cases op <;> decide +revert

/-- The target of what a `MOVE` may retarget comes first. -/
theorem retargetable_registers {i : LVInstruction} (h : FunctionState.retargetable i.op = true) :
    ∃ rs, ∀ arg : Nat, { i with arg0 := arg }.registers = (arg : Int) :: rs := by
  obtain ⟨op, a0, a1, a2, a3⟩ := i
  cases op <;> first | exact ⟨[], fun _ => rfl⟩ | exact ⟨[a1, a2], fun _ => rfl⟩ | cases h

/-- The optimiser names no other register. -/
theorem rewriting_uses (fs : FunctionState) {pi i : LVInstruction} (hp : pi.Uses L)
    (hi : i.Uses L) : ∀ j ∈ (fs.rewriting pi i).instructions, j.Uses L := by
  have kept := uses_both hp hi
  unfold FunctionState.rewriting
  split
  case h_1 op =>
    refine uses_ite ?_ kept
    rintro ⟨cmp, -⟩
    have had := hp
    simp only [LVInstruction.Uses, LVInstruction.registers, cmp, List.forall_mem_cons] at had
    exact uses_merged (uses_two rfl had.2.1.byte had.2.2.1)
  case h_2 op | h_3 op | h_4 op =>
    refine uses_both hp ?_
    split
    · exact uses_marker (by simp only [LVInstruction.registers, op]; exact fun _ => rfl) hi
    · exact hi
  case h_5 op =>
    refine uses_ite ?_ (uses_ite ?_ kept)
    · rintro ⟨-, -, call, -⟩
      refine uses_both ?_ hi
      have had := hp
      simp only [LVInstruction.Uses, LVInstruction.registers, call] at had
      simp only [LVInstruction.Uses, LVInstruction.registers]
      exact had
    · intro _
      exact uses_merged hi
  case h_6 op =>
    refine uses_ite ?_ kept
    intro _
    have had := hi
    simp only [LVInstruction.Uses, LVInstruction.registers, op, List.forall_mem_cons] at had
    exact uses_merged (uses_two rfl had.1 had.2.1.byte)
  case h_7 op =>
    refine uses_ite ?_ kept
    intro _
    have had := hi
    simp only [LVInstruction.Uses, LVInstruction.registers, op, List.forall_mem_cons] at had
    exact uses_merged (uses_three rfl had.1 had.2.2.1 had.2.2.2.1)
  case h_8 op =>
    refine uses_ite ?_ kept
    rintro ⟨appends, -⟩
    have had := hi
    simp only [LVInstruction.Uses, LVInstruction.registers, op, List.forall_mem_cons] at had
    have literal := appendArrayType_byte appends
    refine uses_merged (uses_one ?_ had.1)
    simp only [LVInstruction.registers, literal, if_false]
  case h_9 op =>
    have had := hi
    simp only [LVInstruction.Uses, LVInstruction.registers, op, List.forall_mem_cons] at had
    refine uses_ite ?_ (uses_ite ?_ kept)
    · rintro ⟨retarget, -⟩
      obtain ⟨rs, eq⟩ := retargetable_registers retarget
      exact uses_merged (uses_retarget eq hp had.1)
    · intro move
      have first := hp
      simp only [LVInstruction.Uses, LVInstruction.registers, move, List.forall_mem_cons] at first
      exact uses_merged (uses_four rfl first.1 first.2.1 had.1 had.2.1.byte)
  case h_10 op =>
    refine uses_ite ?_ kept
    rintro ⟨load, -⟩
    have first := hp
    simp only [LVInstruction.Uses, LVInstruction.registers, load, List.forall_mem_cons] at first
    have second := hi
    simp only [LVInstruction.Uses, LVInstruction.registers, op, List.forall_mem_cons] at second
    exact uses_merged (uses_two rfl first.1 second.1)
  case h_11 op | h_12 op =>
    refine uses_ite ?_ kept
    intro _
    have had := hi
    simp only [LVInstruction.Uses, LVInstruction.registers, op, List.forall_mem_cons] at had
    refine uses_merged (uses_two ?_ had.1 had.2.1)
    simp only [LVInstruction.registers, op, MAX_FUNC_STACKSIZE]
    rfl
  case h_13 op =>
    refine uses_ite ?_ kept
    rintro ⟨nulls, next⟩
    have first := hp
    simp only [LVInstruction.Uses, LVInstruction.registers, nulls, List.forall_mem_cons] at first
    have second := hi
    simp only [LVInstruction.Uses, LVInstruction.registers, op, List.forall_mem_cons] at second
    refine uses_merged (uses_two rfl first.1 ?_)
    have last : (pi.arg0 : Int) + (pi.arg1 + 1) - 1 = i.arg0 := by omega
    exact last ▸ second.1
  case h_14 op =>
    split
    · simpa [FunctionState.Rewriting.instructions] using hi
    · exact kept
  case h_15 => exact kept

theorem addInstruction_instructions (fs : FunctionState) (i : LVInstruction) :
    (fs.addInstruction i).instructions = fs.instructions ++ [i] ∨
    ∃ code pi, fs.instructions = code ++ [pi] ∧
      (fs.addInstruction i).instructions = code ++ (fs.rewriting pi i).instructions := by
  cases on : fs.optimization with
  | false =>
    rw [fs.addInstruction_off i on]
    exact .inl rfl
  | true =>
    cases last : fs.instructions.getLast? with
    | none =>
      rw [fs.addInstruction_first i last]
      exact .inl rfl
    | some pi =>
      obtain ⟨code, eq⟩ := List.getLast?_eq_some_iff.mp last
      refine .inr ⟨code, pi, eq, ?_⟩
      rw [fs.addInstruction_on i on last]
      have front : fs.instructions.dropLast = code := by rw [eq, List.dropLast_concat]
      cases fs.rewriting pi i <;> simp [FunctionState.Rewriting.instructions, front]

theorem addInstruction_uses (fs : FunctionState) {i : LVInstruction}
    (code : ∀ j ∈ fs.instructions, j.Uses L) (hi : i.Uses L) :
    ∀ j ∈ (fs.addInstruction i).instructions, j.Uses L := by
  rcases addInstruction_instructions fs i with eq | ⟨front, pi, eq, eq'⟩
  · rw [eq, List.forall_mem_append]
    exact ⟨code, by simpa using hi⟩
  · rw [eq, List.forall_mem_append] at code
    rw [eq', List.forall_mem_append]
    exact ⟨code.1, rewriting_uses fs (code.2 pi (by simp)) hi⟩

/-! ## Instructions whose operands are set later -/

/-- Setting its second operand changes no register. -/
theorem registers_setArg1 {i : LVInstruction} (offset : i.offset = true) (val : Int) :
    { i with arg1 := val }.registers = i.registers := by
  obtain ⟨op, a0, a1, a2, a3⟩ := i
  cases op <;> first | rfl | cases offset | skip
  simp only [LVInstruction.offset, decide_eq_true_eq] at offset
  simp only [LVInstruction.registers, offset, false_and, if_false]

theorem uses_setArg1 {i : LVInstruction} (offset : i.offset = true) (val : Int) (h : i.Uses L) :
    { i with arg1 := val }.Uses L := by
  rw [LVInstruction.Uses, registers_setArg1 offset]
  exact h

/-- Its first operand is a register, if it names any. -/
theorem offset_registers {i : LVInstruction} (offset : i.offset = true) (jump : i.op ≠ .OP_JMP) :
    ∃ rs, ∀ arg : Nat, { i with arg0 := arg }.registers = (arg : Int) :: rs := by
  obtain ⟨op, a0, a1, a2, a3⟩ := i
  cases op <;> first
    | exact ⟨[], fun _ => rfl⟩
    | exact ⟨[(a2 : Int)], fun _ => rfl⟩
    | exact ⟨[(a2 : Int), a2 + 1, a2 + 2], fun _ => rfl⟩
    | exact ⟨if a3 = NOT_CLASS ∧ a1 ≠ -1 then [a1] else [], fun _ => rfl⟩
    | exact absurd rfl jump
    | exact absurd offset Bool.false_ne_true

theorem uses_setArg0 {i : LVInstruction} (offset : i.offset = true) {r : Nat} (hr : r < L.size)
    (h : i.Uses L) : { i with arg0 := uchar r }.Uses L := by
  by_cases jump : i.op = .OP_JMP
  · intro r mem
    simp only [LVInstruction.registers, jump, List.not_mem_nil] at mem
  · obtain ⟨rs, eq⟩ := offset_registers offset jump
    exact uses_retarget eq h (FrameSize.has_byte hr)

theorem uses_jump {i : LVInstruction} (jump : i.op = .OP_JMP) : i.Uses L := by
  intro r mem
  simp only [LVInstruction.registers, jump, List.not_mem_nil] at mem

end

/-- It stays when another instruction is added. -/
theorem rewriting_offset (fs : FunctionState) {pi : LVInstruction} (i : LVInstruction)
    (offset : pi.offset = true) : ∃ i', fs.rewriting pi i = .both pi i' := by
  have free : fusable .statement pi.op = false := by
    obtain ⟨op, a0, a1, a2, a3⟩ := pi
    cases op <;> first | rfl | exact absurd offset Bool.false_ne_true
  obtain ⟨i', eq, -⟩ := @rewriting_kept .statement fs pi i trivial free
  exact ⟨i', eq⟩

/-- A new one is the last, if perhaps as a `JCMP`. -/
theorem rewriting_last (fs : FunctionState) (pi : LVInstruction) {i : LVInstruction}
    (offset : i.offset = true) :
    ∃ front last, (fs.rewriting pi i).instructions = front ++ [last] ∧ last.offset = true ∧
      (last = i ∨ i.op = .OP_JZ) := by
  have both : fs.rewriting pi i = .both pi i → ∃ front last,
      (fs.rewriting pi i).instructions = front ++ [last] ∧ last.offset = true ∧
        (last = i ∨ i.op = .OP_JZ) := by
    intro eq
    exact ⟨[pi], i, by rw [eq]; rfl, offset, .inl rfl⟩
  by_cases jz : i.op = .OP_JZ
  · by_cases cmp : pi.op = .OP_CMP ∧ pi.arg1 < 0xFF
    · refine ⟨[], { pi with op := .OP_JCMP, arg0 := uchar pi.arg1, arg1 := i.arg1 }, ?_, rfl,
        .inr jz⟩
      simp only [FunctionState.rewriting, jz, cmp, and_self, if_true]
      rfl
    · exact both (by simp only [FunctionState.rewriting, jz, cmp, if_false])
  · refine both ?_
    obtain ⟨op, a0, a1, a2, a3⟩ := i
    cases op <;> first | rfl | exact absurd rfl jz | exact absurd offset Bool.false_ne_true

end Lavril
