import Lavril.Condition
import Lavril.ForLoop
import Lavril.RelativeCode

/-!
# Emitted code and what it computes

The code of an expression is a piece at the end of what has been emitted. `AddInstruction` may
merge an instruction with the last one of the piece; what the piece computes is then the same
but for a temporary that nothing reads any more.
-/

namespace Lavril

open LVCompiler FunctionState RelativeCode

variable {G : LVObject → LVObject → Option LVObject} {L : List LVObject}

namespace Frame

/-- What an instruction does to the registers, and the offset it jumps by. -/
def effect (G : LVObject → LVObject → Option LVObject) (L : List LVObject) (i : LVInstruction)
    (r : Registers) : Option (Int × Registers) := (exec G L i ⟨0, r⟩).map fun f => (f.ip, f.regs)

theorem map_set (ip : Int) (r : Registers) (a : Nat) (o : Option LVObject) :
    o.map (set ⟨ip, r⟩ a) = (o.map fun v => (ip, Function.update r a v)).map fun next =>
      (⟨next.1, next.2⟩ : Frame) := by
  cases o <;> rfl

/-- Where the instruction stands does not matter. -/
theorem exec_eq (i : LVInstruction) (ip : Int) (r : Registers) :
    exec G L i ⟨ip, r⟩ = (effect G L i r).map fun next => ⟨ip + next.1, next.2⟩ := by
  obtain ⟨op, a0, a1, a2, a3⟩ := i
  cases op <;> simp only [effect, exec, map_set]
  case OP_JZ | OP_AND | OP_OR => split <;> simp [set, jump]
  case OP_JCMP => cases cmpOp a3 (r a2) (r a0) with
    | none => rfl
    | some o => by_cases falsy : isFalse o <;> simp [jump, falsy]
  case OP_JMP | OP_LOADNULLS => simp [jump]
  case OP_LOAD | OP_DLOAD | OP_GETK => cases literal L a1 <;> simp [set, Function.comp_def]
  case OP_EQ | OP_NE => by_cases literal : a3 = 0 <;> simp [literal, Function.comp_def]
  all_goals first
    | rfl
    | (by_cases neg : a1 < 0 <;> simp [neg, set, Function.comp_def])

theorem step_eq_step (code : List LVInstruction) (ip : Int) (r : Registers) :
    step G L code ⟨ip, r⟩ =
      (RelativeCode.step (effect G L) code (ip, r)).map fun c => ⟨c.1, c.2⟩ := by
  simp only [step, RelativeCode.step]
  split
  · rfl
  · cases code[ip.toNat]? with
    | none => rfl
    | some i =>
      simp only [Option.bind_some, execNext, exec_eq, Option.map_map]
      rfl

end Frame

open Frame

/-! ## Registers that are in use -/

/-- The registers below `m` are the same. -/
def Live (m : Nat) (r r' : Registers) : Prop := ∀ k < m, r k = r' k

theorem Live.refl (m : Nat) (r : Registers) : Live m r r := fun _ _ => rfl

theorem Live.trans {m : Nat} {r r₁ r₂ : Registers} (h : Live m r r₁) (h' : Live m r₁ r₂) :
    Live m r r₂ := fun k lt => (h k lt).trans (h' k lt)

theorem Live.symm {m : Nat} {r r' : Registers} (h : Live m r r') : Live m r' r :=
  fun k lt => (h k lt).symm

theorem Live.mono {m n : Nat} {r r' : Registers} (h : Live n r r') (le : m ≤ n) : Live m r r' :=
  fun k lt => h k (lt_of_lt_of_le lt le)

theorem Live.update {m n : Nat} {r r' : Registers} (h : Live m r r') (t : Nat) (v : LVObject)
    (le : n ≤ m + 1) (last : m < n → t = m) :
    Live n (Function.update r t v) (Function.update r' t v) := by
  intro k lt
  by_cases same : k = t
  · rw [same, Function.update_self, Function.update_self]
  · rw [Function.update_of_ne same, Function.update_of_ne same]
    exact h k (by omega)

/-- Both computations fail, or the registers below `m` are the same. -/
def Same (m : Nat) : Option Registers → Option Registers → Prop := Option.Rel (Live m)

theorem Same.refl {m : Nat} (x : Option Registers) : Same m x x := by
  cases x with
  | none => exact .none
  | some r => exact .some (Live.refl m r)

theorem Same.trans {m : Nat} {x y z : Option Registers} (h : Same m x y) (h' : Same m y z) :
    Same m x z := by
  cases h with
  | none => exact h'
  | some live =>
    cases h' with
    | some live' => exact .some (live.trans live')

theorem Same.bind {m n : Nat} {x y : Option Registers} {f g : Registers → Option Registers}
    (h : Same m x y) (next : ∀ r r', Live m r r' → Same n (f r) (g r')) :
    Same n (x.bind f) (y.bind g) := by
  cases h with
  | none => exact .none
  | some live => exact next _ _ live

/-! ## Instructions that set one register -/

/-- The instruction sets the register `t`. -/
def Sets (G : LVObject → LVObject → Option LVObject) (L : List LVObject) (i : LVInstruction)
    (t : Nat) (value : Registers → Option LVObject) : Prop :=
  ∀ r, effect G L i r = (value r).map fun v => (0, Function.update r t v)

theorem Sets.straight {i : LVInstruction} {t : Nat} {value : Registers → Option LVObject}
    (sets : Sets G L i t value) : Jumps (effect G L) 0 i := by
  intro r d r' runs
  rw [sets r] at runs
  obtain ⟨v, -, eq⟩ := Option.map_eq_some_iff.mp runs
  cases eq
  omega

/-- The register in an operand that names one. -/
def operand (a : Int) (r : Registers) : Option LVObject := if a < 0 then none else some (r a.toNat)

theorem operand_nat (n : Nat) (r : Registers) : operand n r = some (r n) := by
  rw [operand, if_neg (by omega), Int.toNat_natCast]

/-- What an instruction that sets the register in its first operand computes. -/
def computed (G : LVObject → LVObject → Option LVObject) (L : List LVObject)
    (i : LVInstruction) (r : Registers) : Option LVObject :=
  match i.op with
  | .OP_LOAD => literal L i.arg1
  | .OP_LOADINT => some (.integer (BitVec.ofInt 64 i.arg1))
  | .OP_LOADFLOAT => some (.float ((BitVec.ofInt 32 i.arg1).setWidth 64))
  | .OP_LOADBOOL => some (.bool (decide (i.arg1 ≠ 0)))
  | .OP_MOVE => operand i.arg1 r
  | .OP_GET => (operand i.arg1 r).bind fun o => G o (r i.arg2)
  | .OP_EQ | .OP_NE => (if i.arg3 ≠ 0 then literal L i.arg1 else operand i.arg1 r).bind fun o =>
      (isEqual (r i.arg2) o).map fun b => .bool (if i.op = .OP_EQ then b else !b)
  | .OP_ADD | .OP_SUB | .OP_MUL | .OP_DIV | .OP_MOD => (operand i.arg1 r).bind (arith i.op (r i.arg2))
  | .OP_BITW => (operand i.arg1 r).bind (bwOp i.arg3 (r i.arg2))
  | .OP_CMP => (operand i.arg1 r).bind (cmpOp i.arg3 (r i.arg2))
  | .OP_NOT => (operand i.arg1 r).map fun o => .bool (isFalse o)
  | _ => none

/-- These instructions set the register in their first operand and do nothing else. -/
def setsOne (op : Opcode) : Bool :=
  match op with
  | .OP_LOAD | .OP_LOADINT | .OP_LOADFLOAT | .OP_LOADBOOL | .OP_MOVE | .OP_GET | .OP_EQ | .OP_NE
  | .OP_ADD | .OP_SUB | .OP_MUL | .OP_DIV | .OP_MOD | .OP_BITW | .OP_CMP | .OP_NOT => true
  | _ => false

theorem effect_target (r : Registers) (a : Nat) (o : Option LVObject) :
    (o.map (Frame.set ⟨0, r⟩ a)).map (fun f => (f.ip, f.regs)) =
      o.map fun v => ((0 : Int), Function.update r a v) := by
  cases o <;> rfl

theorem sets_computed {i : LVInstruction} (kind : setsOne i.op = true) :
    Sets G L i i.arg0 (computed G L i) := by
  intro r
  obtain ⟨op, a0, a1, a2, a3⟩ := i
  cases op <;> first | exact absurd kind Bool.false_ne_true | simp only [effect, exec, computed]
  case OP_LOAD | OP_MOVE => exact effect_target r a0 _
  case OP_LOADINT | OP_LOADFLOAT | OP_LOADBOOL => rfl
  case OP_NOT => by_cases neg : a1 < 0 <;> simp [neg, operand, Frame.set]
  case OP_EQ | OP_NE =>
    by_cases stored : a3 = 0
    · by_cases neg : a1 < 0
      · simp [stored, neg, operand]
      · simp [stored, neg, operand]
        rfl
    · cases literal L a1 with
      | none => simp [stored]
      | some o =>
        simp [stored]
        rfl
  all_goals
    by_cases neg : a1 < 0
    · simp [neg, operand]
    · simp [neg, operand]
      rfl

/-! ## What the optimiser may merge -/

/-- What an instruction that does not jump makes of the registers. -/
def runs (G : LVObject → LVObject → Option LVObject) (L : List LVObject) (i : LVInstruction)
    (r : Registers) : Option Registers := (effect G L i r).map Prod.snd

theorem Sets.runs {i : LVInstruction} {t : Nat} {value : Registers → Option LVObject}
    (sets : Sets G L i t value) (r : Registers) :
    runs G L i r = (value r).map (Function.update r t) := by
  rw [Lavril.runs, sets r]
  cases value r <;> rfl

/-- The instructions that expressions are made of, none of which returns, calls or stores. -/
structure Ordinary (i : LVInstruction) : Prop where
  kind : i.op ≠ .OP_RETURN ∧ discardable i.op = false ∧ i.op ≠ .OP_CLOSE
  register : i.op = .OP_CMP ∨ i.op = .OP_LOADNULLS → 0 ≤ i.arg1

/-- An instruction that sets one register and may be merged with the one before it. -/
structure Added (i : LVInstruction) : Prop where
  kind : i.op = .OP_LOADNULLS ∨ setsOne i.op = true ∧ i.op ≠ .OP_GET
  nulls : i.op = .OP_LOADNULLS → i.arg1 = 1
  register : 0 ≤ i.arg1 ∨ i.op = .OP_LOADINT ∨ i.op = .OP_LOADFLOAT
  byte : i.op = .OP_MOVE → i.arg1 < 256
  compares : i.op = .OP_EQ ∨ i.op = .OP_NE → i.arg3 = 0

/-- The register that is lost when `i` is merged with `pi` is not in use below `m`. -/
structure Idle (m : Nat) (fs : FunctionState) (pi i : LVInstruction) : Prop where
  move : i.op = .OP_MOVE → retargetable pi.op = true → pi.arg0 = i.arg1 →
    m ≤ pi.arg0 ∨ pi.arg0 = i.arg0
  compare : i.op = .OP_EQ ∨ i.op = .OP_NE → pi.op = .OP_LOAD → pi.arg0 = i.arg1 →
    fs.isLocal pi.arg0 = false → i.arg2 ≠ pi.arg0 ∧ (m ≤ pi.arg0 ∨ pi.arg0 = i.arg0)

theorem sets_nulls {i : LVInstruction} (op : i.op = .OP_LOADNULLS) (one : i.arg1 = 1) :
    Sets G L i i.arg0 fun _ => some .null := by
  intro r
  obtain ⟨_, a0, a1, a2, a3⟩ := i
  subst op one
  simp only [effect, exec, Option.map_some, Option.some.injEq, Prod.mk.injEq, true_and]
  funext k
  by_cases same : k = a0
  · rw [same, Function.update_self, if_pos (by omega)]
  · rw [Function.update_of_ne same, if_neg (by omega)]

theorem retargetable_setsOne {op : Opcode} (h : retargetable op = true) : setsOne op = true := by
  cases op <;> first | rfl | cases h

theorem Added.sets {i : LVInstruction} (added : Added i) : ∃ value, Sets G L i i.arg0 value := by
  rcases added.kind with op | ⟨one, -⟩
  · exact ⟨_, sets_nulls op (added.nulls op)⟩
  · exact ⟨_, sets_computed one⟩

/-- A value that goes to `t` by way of a register that is not in use. -/
theorem same_retarget {m t u : Nat} {value : Registers → Option LVObject} (r : Registers)
    (idle : m ≤ u ∨ u = t) :
    Same m ((value r).map (Function.update r t)) (((value r).map (Function.update r u)).bind fun r' =>
      some (Function.update r' t (r' u))) := by
  cases value r with
  | none => exact .none
  | some v =>
    refine .some fun k lt => ?_
    rw [Function.update_self]
    by_cases same : k = t
    · rw [same, Function.update_self, Function.update_self]
    · rw [Function.update_of_ne same, Function.update_of_ne same, Function.update_of_ne (by omega)]

/-- The merged instruction does what the two do. -/
structure Merges (G : LVObject → LVObject → Option LVObject) (L : List LVObject) (m : Nat)
    (pi i pi' : LVInstruction) : Prop where
  straight : Jumps (effect G L) 0 pi'
  ordinary : Ordinary pi'
  other : pi'.op ≠ .OP_CMP
  same : ∀ r, Same m (runs G L pi' r) ((runs G L pi r).bind (runs G L i))

theorem jumps_update {i : LVInstruction} {f : Registers → Option Registers}
    (eq : ∀ r, effect G L i r = (f r).map fun r' => (0, r')) : Jumps (effect G L) 0 i := by
  intro r d r' runs
  rw [eq r] at runs
  obtain ⟨r'', -, eq⟩ := Option.map_eq_some_iff.mp runs
  cases eq
  omega

theorem merges_move {m : Nat} {fs : FunctionState} {pi i pi' : LVInstruction} {opt : Bool}
    (op : i.op = .OP_MOVE) (h : fs.rewriting pi i = .merged pi' opt) (added : Added i)
    (old : Ordinary pi) (idle : Idle m fs pi i) : Merges G L m pi i pi' := by
  have nonneg : 0 ≤ i.arg1 := by simpa [op] using added.register
  have byte := added.byte op
  have moves : Sets G L i i.arg0 fun r => some (r i.arg1.toNat) := by
    intro r
    have one : setsOne i.op = true := by rw [op]; rfl
    rw [sets_computed one r, computed, op]
    simp only [operand, if_neg (not_lt.mpr nonneg)]
  rw [rewriting, op] at h
  dsimp only at h
  split at h
  · rename_i retargets
    cases h
    obtain ⟨retargets, target⟩ := retargets
    have one := retargetable_setsOne retargets
    have sets : Sets G L { pi with arg0 := i.arg0 } i.arg0 (computed G L pi) := sets_computed one
    have kinds : ∀ {op}, pi.op = op → retargetable op = true := fun eq => by rwa [eq] at retargets
    refine ⟨sets.straight, ⟨⟨?_, old.kind.2.1, ?_⟩, old.register⟩, ?_, fun r => ?_⟩
    · exact fun eq => absurd (kinds eq) Bool.false_ne_true
    · exact fun eq => absurd (kinds eq) Bool.false_ne_true
    · exact fun eq => absurd (kinds eq) Bool.false_ne_true
    · rw [sets.runs, (sets_computed one).runs]
      have through := @same_retarget _ _ _ (computed G L pi) r (idle.move op retargets target)
      refine through.trans ?_
      have next : runs G L i = fun r' => some (Function.update r' i.arg0 (r' pi.arg0)) := by
        funext r'
        rw [moves.runs, ← target, Int.toNat_natCast]
        rfl
      rw [next]
      exact Same.refl _
  · split at h
    · rename_i move
      cases h
      have first : Sets G L pi pi.arg0 (operand pi.arg1) := by
        intro r
        have one : setsOne pi.op = true := by rw [move]; rfl
        rw [sets_computed one r, computed, move]
      have same : ∀ r, effect G L { pi with op := .OP_DMOVE, arg2 := i.arg0, arg3 := uchar i.arg1 } r =
          ((runs G L pi r).bind (runs G L i)).map fun r' => (0, r') := by
        intro r
        have which : uchar i.arg1 = i.arg1.toNat := by unfold uchar; omega
        rw [first.runs]
        simp only [effect, exec, operand, which]
        by_cases neg : pi.arg1 < 0
        · simp [neg]
        · simp [neg, moves.runs, Frame.set]
      refine ⟨jumps_update same, ⟨⟨by simp, rfl, by simp⟩, by simp⟩, by simp, fun r => ?_⟩
      rw [runs, same r, Option.map_map]
      simpa [Function.comp_def] using Same.refl _
    · cases h

theorem sets_load {i : LVInstruction} (op : i.op = .OP_LOAD) :
    Sets G L i i.arg0 fun _ => literal L i.arg1 := by
  intro r
  have one : setsOne i.op = true := by rw [op]; rfl
  rw [sets_computed one r, computed, op]

theorem merges_load {m : Nat} {fs : FunctionState} {pi i pi' : LVInstruction} {opt : Bool}
    (op : i.op = .OP_LOAD) (h : fs.rewriting pi i = .merged pi' opt) (added : Added i) :
    Merges G L m pi i pi' := by
  have nonneg : 0 ≤ i.arg1 := by simpa [op] using added.register
  rw [rewriting, op] at h
  dsimp only at h
  split at h
  · rename_i loads
    cases h
    have same : ∀ r, effect G L { pi with op := .OP_DLOAD, arg2 := i.arg0, arg3 := uchar i.arg1 } r =
        ((runs G L pi r).bind (runs G L i)).map fun r' => (0, r') := by
      intro r
      have which : ((uchar i.arg1 : Nat) : Int) = i.arg1 := by unfold uchar; omega
      rw [(sets_load loads.1).runs]
      simp only [effect, exec, which]
      cases literal L pi.arg1 with
      | none => rfl
      | some o =>
        simp only [Option.bind_some, Option.map_some, (sets_load op).runs]
        cases literal L i.arg1 <;> rfl
    refine ⟨jumps_update same, ⟨⟨by simp, rfl, by simp⟩, by simp⟩, by simp, fun r => ?_⟩
    rw [runs, same r, Option.map_map]
    simpa [Function.comp_def] using Same.refl _
  · cases h

theorem merges_nulls {m : Nat} {fs : FunctionState} {pi i pi' : LVInstruction} {opt : Bool}
    (op : i.op = .OP_LOADNULLS) (h : fs.rewriting pi i = .merged pi' opt) (added : Added i)
    (old : Ordinary pi) : Merges G L m pi i pi' := by
  have one := added.nulls op
  rw [rewriting, op] at h
  dsimp only at h
  split at h
  · rename_i nulls
    cases h
    obtain ⟨nulls, adjacent⟩ := nulls
    have nonneg := old.register (.inr nulls)
    have same : ∀ r, effect G L { pi with arg1 := pi.arg1 + 1, op := .OP_LOADNULLS } r =
        ((runs G L pi r).bind (runs G L i)).map fun r' => (0, r') := by
      intro r
      have first : runs G L pi r = some fun k =>
          if pi.arg0 ≤ k ∧ (k : Int) < pi.arg0 + pi.arg1 then .null else r k := by
        simp only [runs, effect, exec, nulls, Option.map_some]
      rw [first, Option.bind_some, (sets_nulls op one).runs]
      simp only [effect, exec, Option.map_some, Option.some.injEq, Prod.mk.injEq, true_and]
      funext k
      by_cases last : k = i.arg0
      · rw [last, Function.update_self, if_pos (by omega)]
      · rw [Function.update_of_ne last]
        have iff : (pi.arg0 ≤ k ∧ (k : Int) < pi.arg0 + (pi.arg1 + 1)) ↔
            (pi.arg0 ≤ k ∧ (k : Int) < pi.arg0 + pi.arg1) := by omega
        simp only [iff]
    refine ⟨jumps_update same, ⟨⟨by simp, rfl, by simp⟩, fun _ => by dsimp only; omega⟩, by simp,
      fun r => ?_⟩
    rw [runs, same r, Option.map_map]
    simpa [Function.comp_def] using Same.refl _
  · cases h

/-- The test of a register that was only loaded to be compared with. -/
theorem merges_compare {m : Nat} {fs : FunctionState} {pi i pi' : LVInstruction} {opt : Bool}
    (op : i.op = .OP_EQ ∨ i.op = .OP_NE) (h : fs.rewriting pi i = .merged pi' opt) (added : Added i)
    (idle : Idle m fs pi i) : Merges G L m pi i pi' := by
  have one : setsOne i.op = true := by rcases op with op | op <;> rw [op] <;> rfl
  have register := added.compares op
  have loads : pi.op = .OP_LOAD ∧ pi.arg0 = i.arg1 ∧ fs.isLocal pi.arg0 = false ∧ pi' =
      { pi with op := i.op, arg0 := i.arg0, arg2 := i.arg2, arg3 := MAX_FUNC_STACKSIZE } := by
    rcases op with op | op <;>
    · rw [rewriting, op] at h
      dsimp only at h
      split at h
      · rename_i loads
        cases h
        exact ⟨loads.1, loads.2.1, by simpa using loads.2.2, by rw [op]⟩
      · cases h
  obtain ⟨load, target, temporary, rfl⟩ := loads
  obtain ⟨other, idle⟩ := idle.compare op load target temporary
  have merged : Sets G L
      { pi with op := i.op, arg0 := i.arg0, arg2 := i.arg2, arg3 := MAX_FUNC_STACKSIZE } i.arg0
      fun r => (literal L pi.arg1).bind fun o =>
        (isEqual (r i.arg2) o).map fun b => .bool (if i.op = .OP_EQ then b else !b) := by
    intro r
    have kept : setsOne i.op = true := one
    rw [sets_computed (i := { pi with
      op := i.op, arg0 := i.arg0, arg2 := i.arg2, arg3 := MAX_FUNC_STACKSIZE }) kept r]
    rcases op with op | op <;> simp [computed, op, MAX_FUNC_STACKSIZE]
  have compares : Sets G L i i.arg0 fun r =>
      (isEqual (r i.arg2) (r pi.arg0)).map fun b => .bool (if i.op = .OP_EQ then b else !b) := by
    intro r
    rw [sets_computed one r]
    rcases op with op | op <;> simp [computed, op, register, ← target, operand_nat]
  refine ⟨merged.straight, ⟨?_, ?_⟩, ?_, fun r => ?_⟩
  · rcases op with op | op <;> simp [op, discardable]
  · rcases op with op | op <;> simp [op]
  · rcases op with op | op <;> simp [op]
  · rw [merged.runs, (sets_load load).runs]
    cases literal L pi.arg1 with
    | none => exact .none
    | some o =>
      simp only [Option.bind_some, Option.map_some, compares.runs, Function.update_self,
        Function.update_of_ne other]
      cases isEqual (r i.arg2) o with
      | none => exact .none
      | some b =>
        refine .some fun k lt => ?_
        by_cases same : k = i.arg0
        · rw [same, Function.update_self, Function.update_self]
        · rw [Function.update_of_ne same, Function.update_of_ne same,
            Function.update_of_ne (by omega)]

/-- Whatever is merged with the last instruction is executed all the same. -/
theorem merges {m : Nat} {fs : FunctionState} {pi i pi' : LVInstruction} {opt : Bool}
    (h : fs.rewriting pi i = .merged pi' opt) (added : Added i) (old : Ordinary pi)
    (idle : Idle m fs pi i) : Merges G L m pi i pi' := by
  rcases added.kind with op | ⟨one, notGet⟩
  · exact merges_nulls op h added old
  · cases op : i.op with
    | OP_MOVE => exact merges_move op h added old idle
    | OP_LOAD => exact merges_load op h added
    | OP_EQ => exact merges_compare (.inl op) h added idle
    | OP_NE => exact merges_compare (.inr op) h added idle
    | OP_GET => exact absurd op notGet
    | OP_LOADINT | OP_LOADFLOAT | OP_LOADBOOL | OP_ADD | OP_SUB | OP_MUL | OP_DIV | OP_MOD
    | OP_BITW | OP_CMP | OP_NOT =>
      rw [rewriting, op] at h
      cases h
    | _ => rw [op] at one; cases one

end Lavril
