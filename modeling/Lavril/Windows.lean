import Lavril.Instructions
import Lavril.Compiler

/-!
# What the optimiser merges does what it did before

`AddInstruction` may merge an instruction with the last one, or change its
target. For each pair it is compared what the two instructions do and what has
become of them. They do the same when the operands that move to a narrower
place fit there: the number of a register in the 32-bit operand goes to a byte
without a test.
-/

namespace Lavril

open Interpreter FunctionState

namespace Window

/-- The pairs of this account: an instruction and the one that follows it. -/
def Claimed (pi i : LVInstruction) : Prop :=
  match i.op with
  | .OP_GET | .OP_PREPCALL | .OP_EQ | .OP_NE | .OP_LOAD => pi.op = .OP_LOAD
  | .OP_APPENDARRAY => appendArrayType pi.op ≠ -1
  | .OP_MOVE => pi.op = .OP_MOVE
  | .OP_LOADNULLS => pi.op = .OP_LOADNULLS
  | .OP_SET | .OP_NEWSLOT | .OP_SETOUTER => True
  | _ => False

/-- The instructions that take over what `LOAD` and the like have loaded. -/
def takesOver (op : Opcode) : Bool :=
  match op with
  | .OP_GET | .OP_PREPCALL | .OP_EQ | .OP_NE | .OP_APPENDARRAY => true
  | _ => false

/-- The register of what is taken over. -/
def Temporary (pi i : LVInstruction) (r : Int) : Prop := takesOver i.op ∧ r = pi.arg0

/-- The registers such an instruction writes. -/
def targets (i : LVInstruction) : List Nat :=
  match i.op with
  | .OP_GET | .OP_EQ | .OP_NE => [i.arg0]
  | .OP_PREPCALL => [i.arg0, i.arg3]
  | _ => []

/-- The second instruction reads the temporary in one place only. -/
def ReadOnce (pi i : LVInstruction) : Prop :=
  match i.op with
  | .OP_GET => i.arg1 ≠ pi.arg0
  | .OP_PREPCALL => i.arg2 ≠ pi.arg0
  | .OP_EQ | .OP_NE => i.arg2 ≠ pi.arg0 ∧ i.arg3 = 0
  | .OP_APPENDARRAY => i.arg0 ≠ pi.arg0 ∧ i.arg2 = AAT_STACK
  | _ => True

/-- The widths of the operands. -/
structure Fields (i : LVInstruction) : Prop where
  arg0 : i.arg0 < 256
  arg1 : -2 ^ 31 ≤ i.arg1 ∧ i.arg1 < 2 ^ 31
  arg2 : i.arg2 < 256
  arg3 : i.arg3 < 256

/-- A number that is the same in a byte. -/
def Byte (n : Int) : Prop := (uchar n : Int) = n

/-- The operands of the pair fit where the merged instruction has them. -/
def Encodes (fs : FunctionState) (pi i : LVInstruction) : Prop :=
  match i.op with
  | .OP_GET => pi.arg0 = i.arg2 → ¬ fs.isLocal pi.arg0 → Byte i.arg1
  | .OP_MOVE => Byte i.arg1 ∨ uchar i.arg1 = pi.arg0 ∧ pi.arg1 = i.arg1
  | .OP_LOAD => i.arg1 < 256 → Byte i.arg1
  | .OP_APPENDARRAY => pi.op = .OP_LOADBOOL → pi.arg0 = i.arg1 → ¬ fs.isLocal pi.arg0 →
      pi.arg1 = 0 ∨ pi.arg1 = 1
  | .OP_LOADNULLS => pi.arg0 + pi.arg1 = i.arg0 →
      if pi.arg1 < 0 then i.arg1 ≤ 0 else i.arg1 = 1
  | _ => True

section

variable {captured : Int → Prop} [DecidablePred captured] {World : Type}

/-- Instructions one after the other. -/
def executeAll (ops : Operations captured World) (literals : Int → LVObject) :
    List LVInstruction → EStateM Abort (Interpreter World) Unit
  | [] => pure ⟨⟩
  | i :: rest => do
    execute ops literals i
    executeAll ops literals rest

end

/-- The instructions `new` do in every frame what `pi` and `i` do, but for the temporary.
Only locals are captured. -/
def SameCode (fs : FunctionState) (pi i : LVInstruction) (new : List LVInstruction) : Prop :=
  ∀ (captured : Int → Prop) (_ : DecidablePred captured) (World : Type)
    (ops : Operations captured World) (literals : Int → LVObject) (f : Interpreter World),
    (∀ r, captured r → ∃ n : Nat, r = n ∧ fs.isLocal n) →
    SameResult (fun r => Temporary pi i r ∧ ∀ n ∈ targets i, r ≠ n) (Temporary pi i)
      (executeAll ops literals [pi, i] f) (executeAll ops literals new f)

/-- What `AddInstruction` makes of `i` after the instructions `code` and `pi` does the same. -/
def Preserves (fs : FunctionState) (code : List LVInstruction) (pi i : LVInstruction) : Prop :=
  SameCode fs pi i ((fs.addInstruction i).instructions.drop code.length)

/-! ## The instructions of a pair -/

def rewritten : Rewriting → List LVInstruction
  | .merged pi _ => [pi]
  | .both pi i => [pi, i]
  | .dropped i => [i]

theorem addInstruction_drop {fs : FunctionState} {code : List LVInstruction} {pi : LVInstruction}
    (on : fs.optimization = true) (last : fs.instructions = code ++ [pi]) (i : LVInstruction) :
    (fs.addInstruction i).instructions.drop code.length = rewritten (fs.rewriting pi i) := by
  rw [fs.addInstruction_on i on (by rw [last, List.getLast?_concat])]
  cases fs.rewriting pi i <;> simp [rewritten, last]

/-- What a load stores. -/
def loaded (literals : Int → LVObject) (pi : LVInstruction) : LVObject :=
  match pi.op with
  | .OP_LOADINT => .integer (BitVec.ofInt 64 pi.arg1)
  | .OP_LOADFLOAT => .float ((BitVec.ofInt 32 pi.arg1).setWidth 64)
  | .OP_LOADBOOL => .bool (decide (pi.arg1 ≠ 0))
  | _ => literals pi.arg1

section

variable {captured : Int → Prop} [DecidablePred captured] {World : Type}
  (ops : Operations captured World) (literals : Int → LVObject) {f : Interpreter World}
  {pi i : LVInstruction} {free freed : Int → Prop}

theorem sameResult_refl {α : Type} (x : EStateM.Result Abort (Interpreter World) α) :
    SameResult free freed x x := by
  cases x with
  | ok a f => exact .ok (SameOff.refl f)
  | error e f =>
    cases e with
    | raised => exact .raised (SameOff.refl f)
    | fault => exact .fault

theorem executeAll_one (i : LVInstruction) : executeAll ops literals [i] = execute ops literals i :=
  bind_pure _

theorem executeAll_load (load : appendArrayType pi.op ≠ -1) (i : LVInstruction) :
    executeAll ops literals [pi, i] f =
      execute ops literals i (f.setReg pi.arg0 (loaded literals pi)) := by
  have first : execute ops literals pi f = .ok ⟨⟩ (f.setReg pi.arg0 (loaded literals pi)) := by
    obtain ⟨op, a0, a1, a2, a3⟩ := pi
    cases op <;> first | rfl | exact absurd rfl load
  change (execute ops literals pi >>= fun _ => executeAll ops literals [i]) f = _
  rw [then_ok first, executeAll_one]

/-- The frame before the load differs from the one after it in the temporary. -/
theorem sameOff_load (f : Interpreter World) (t : Int) (o : LVObject) :
    SameOff (· = t) (f.setReg t o) f := by
  refine SameOff.store_left (SameOff.refl f) ?_ o
  rfl

theorem get_same (load : pi.op = .OP_LOAD) (get : i.op = .OP_GET) (guard : pi.arg0 = i.arg2)
    (hidden : ¬ captured pi.arg0) (readOnce : i.arg1 ≠ pi.arg0) (byte : Byte i.arg1) :
    SameResult (fun r => r = pi.arg0 ∧ r ≠ i.arg0) (· = (pi.arg0 : Int))
      (execute ops literals i (f.setReg pi.arg0 (loaded literals pi)))
      (execute ops literals { pi with arg2 := uchar i.arg1, op := .OP_GETK, arg0 := i.arg0 } f) := by
  obtain ⟨_, t, n, b, c⟩ := pi
  obtain ⟨_, target, self, key, d⟩ := i
  cases load
  cases get
  cases guard
  have same := sameOff_load f t (literals n)
  have performed : SameResult (· = (t : Int)) (· = (t : Int))
      (perform (fun f => ops.get (f.operand self) (f.operand t) self) (f.setReg t (literals n)))
      (perform (fun f => ops.get (f.operand (uchar self)) (.value (literals n)) (uchar self)) f) := by
    refine same.perform (fun r eq => eq ▸ hidden) ?_
    have eq : (uchar self : Int) = self := byte
    rw [eq, same.operand readOnce, operand_of_not hidden, setReg_self]
  exact performed.bind fun o f₁ f₁' _ _ same₁ => same₁.store target o

theorem prepCall_same (load : pi.op = .OP_LOAD) (prepCall : i.op = .OP_PREPCALL)
    (guard : (pi.arg0 : Int) = i.arg1) (hidden : ¬ captured pi.arg0)
    (readOnce : i.arg2 ≠ pi.arg0) :
    SameResult (fun r => (r = pi.arg0 ∧ r ≠ i.arg3) ∧ r ≠ i.arg0) (· = (pi.arg0 : Int))
      (execute ops literals i (f.setReg pi.arg0 (loaded literals pi)))
      (execute ops literals
        { pi with op := .OP_PREPCALLK, arg0 := i.arg0, arg2 := i.arg2, arg3 := i.arg3 } f) := by
  obtain ⟨_, t, n, b, c⟩ := pi
  obtain ⟨_, target, key, self, copy⟩ := i
  cases load
  cases prepCall
  cases guard
  have same := sameOff_load f t (literals n)
  have notTemporary : ¬ (self : Int) = t := fun eq => readOnce (Int.ofNat.inj eq)
  have performed : SameResult (· = (t : Int)) (· = (t : Int))
      (perform (fun f => ops.get (f.operand self) (f.operand t) self) (f.setReg t (literals n)))
      (perform (fun f => ops.get (f.operand self) (.value (literals n)) self) f) := by
    refine same.perform (fun r eq => eq ▸ hidden) ?_
    rw [same.operand notTemporary, operand_of_not hidden, setReg_self]
  refine performed.bind fun o f₁ f₁' _ _ same₁ => ?_
  have moved : SameResult (fun r => r = (t : Int) ∧ r ≠ copy) (· = (t : Int))
      (move copy self f₁) (move copy self f₁') := by
    unfold move
    rw [same₁.regs self notTemporary]
    exact same₁.store copy _
  exact moved.bind fun _ f₂ f₂' _ _ same₂ => same₂.store target o

theorem compare_same (load : pi.op = .OP_LOAD) (compare : i.op = .OP_EQ ∨ i.op = .OP_NE)
    (guard : (pi.arg0 : Int) = i.arg1) (readOnce : i.arg2 ≠ pi.arg0) (register : i.arg3 = 0) :
    SameResult (fun r => r = pi.arg0 ∧ r ≠ i.arg0) (· = (pi.arg0 : Int))
      (execute ops literals i (f.setReg pi.arg0 (loaded literals pi)))
      (execute ops literals
        { pi with op := i.op, arg0 := i.arg0, arg2 := i.arg2, arg3 := MAX_FUNC_STACKSIZE } f) := by
  obtain ⟨_, t, n, b, c⟩ := pi
  obtain ⟨op, target, right, left, d⟩ := i
  cases load
  cases guard
  cases register
  have same := sameOff_load f t (literals n)
  have leftEq : f.regs left = (f.setReg t (literals n)).regs left :=
    same.regs left fun eq => readOnce (Int.ofNat.inj eq)
  have rightEq : (f.setReg t (literals n)).regs t = literals n := setReg_self f t _
  have stored (o : LVObject) : SameResult (fun r => r = (t : Int) ∧ r ≠ target) (· = (t : Int))
      (store target o (f.setReg t (literals n))) (store target o f) := same.store target o
  rcases compare with eq | eq
  · cases eq
    change SameResult _ _
      (store target (.bool (ops.isEqual ((f.setReg t (literals n)).regs left)
        ((f.setReg t (literals n)).regs t))) (f.setReg t (literals n)))
      (store target (.bool (ops.isEqual (f.regs left) (literals n))) f)
    rw [rightEq, leftEq]
    exact stored _
  · cases eq
    change SameResult _ _
      (store target (.bool (!ops.isEqual ((f.setReg t (literals n)).regs left)
        ((f.setReg t (literals n)).regs t))) (f.setReg t (literals n)))
      (store target (.bool (!ops.isEqual (f.regs left) (literals n))) f)
    rw [rightEq, leftEq]
    exact stored _

/-- What is appended when the value is taken over. -/
theorem appended_eq (load : appendArrayType pi.op ≠ -1)
    (bool : pi.op = .OP_LOADBOOL → pi.arg1 = 0 ∨ pi.arg1 = 1) (target c : Nat) :
    appended literals ⟨.OP_APPENDARRAY, target, pi.arg1, uchar (appendArrayType pi.op), c⟩ f =
      loaded literals pi := by
  obtain ⟨op, t, n, b, d⟩ := pi
  cases op <;> first | rfl | exact absurd rfl load | skip
  rcases bool rfl with eq | eq
  · cases eq
    rfl
  · cases eq
    rfl

theorem append_same (load : appendArrayType pi.op ≠ -1) (append : i.op = .OP_APPENDARRAY)
    (guard : (pi.arg0 : Int) = i.arg1) (hidden : ¬ captured pi.arg0)
    (readOnce : i.arg0 ≠ pi.arg0) (stack : i.arg2 = AAT_STACK)
    (bool : pi.op = .OP_LOADBOOL → pi.arg1 = 0 ∨ pi.arg1 = 1) :
    SameResult (· = (pi.arg0 : Int)) (· = (pi.arg0 : Int))
      (execute ops literals i (f.setReg pi.arg0 (loaded literals pi)))
      (execute ops literals { pi with
        op := .OP_APPENDARRAY, arg0 := i.arg0, arg2 := uchar (appendArrayType pi.op)
        arg3 := MAX_FUNC_STACKSIZE } f) := by
  obtain ⟨_, target, value, kind, d⟩ := i
  cases append
  cases guard
  have same := sameOff_load f pi.arg0 (loaded literals pi)
  have notTemporary : ¬ (target : Int) = pi.arg0 := fun eq => readOnce (Int.ofNat.inj eq)
  have run (i : LVInstruction) (eq : i.op = .OP_APPENDARRAY) : execute ops literals i =
      perform fun f => ops.append (f.operand i.arg0) (appended literals i f) := by
    obtain ⟨_, a, b, c, d⟩ := i
    cases eq
    rfl
  rw [run _ rfl, run _ rfl]
  refine same.perform (fun r eq => eq ▸ hidden) ?_
  have value : appended literals ⟨.OP_APPENDARRAY, target, pi.arg0, kind, d⟩
      (f.setReg pi.arg0 (loaded literals pi)) = loaded literals pi := by
    unfold appended
    rw [if_pos stack]
    exact setReg_self f _ _
  change ops.append (f.operand target) (appended literals _ f) =
    ops.append ((f.setReg pi.arg0 (loaded literals pi)).operand target) (appended literals
      ⟨.OP_APPENDARRAY, target, pi.arg0, kind, d⟩ (f.setReg pi.arg0 (loaded literals pi)))
  rw [value, appended_eq literals load bool, same.operand notTemporary]

/-! ## Pairs without a temporary -/

theorem load_same (first : pi.op = .OP_LOAD) (second : i.op = .OP_LOAD) (byte : Byte i.arg1) :
    execute ops literals i (f.setReg pi.arg0 (loaded literals pi)) =
      execute ops literals { pi with op := .OP_DLOAD, arg2 := i.arg0, arg3 := uchar i.arg1 } f := by
  obtain ⟨_, t, n, b, c⟩ := pi
  obtain ⟨_, target, m, d, e⟩ := i
  cases first
  cases second
  have eq : (uchar m : Int) = m := byte
  change _ = store target (literals (uchar m)) (f.setReg t (literals n))
  rw [eq]
  rfl

theorem executeAll_move (first : pi.op = .OP_MOVE) (second : i.op = .OP_MOVE) :
    executeAll ops literals [pi, i] f = move i.arg0 i.arg1 (f.setReg pi.arg0 (f.regs pi.arg1)) := by
  obtain ⟨_, a, b, c, d⟩ := pi
  obtain ⟨_, a', b', c', d'⟩ := i
  cases first
  cases second
  rfl

theorem move_same (first : pi.op = .OP_MOVE) (second : i.op = .OP_MOVE)
    (encodes : Byte i.arg1 ∨ uchar i.arg1 = pi.arg0 ∧ pi.arg1 = i.arg1) :
    executeAll ops literals [pi, i] f =
      execute ops literals { pi with op := .OP_DMOVE, arg2 := i.arg0, arg3 := uchar i.arg1 } f := by
  rw [executeAll_move ops literals first second]
  change move i.arg0 i.arg1 (f.setReg pi.arg0 (f.regs pi.arg1)) =
    move i.arg0 (uchar i.arg1) (f.setReg pi.arg0 (f.regs pi.arg1))
  rcases encodes with byte | ⟨same, source⟩
  · have eq : (uchar i.arg1 : Int) = i.arg1 := byte
    rw [eq]
  · -- the second source has just been copied to where the byte points
    unfold move
    rw [same, setReg_self, source]
    by_cases eq : i.arg1 = pi.arg0
    · rw [eq, setReg_self]
    · rw [setReg_of_ne f _ eq]

theorem executeAll_loadNulls (first : pi.op = .OP_LOADNULLS) (second : i.op = .OP_LOADNULLS) :
    executeAll ops literals [pi, i] f = .ok ⟨⟩ { f with regs := fun r =>
      if i.arg0 ≤ r ∧ r < i.arg0 + i.arg1 then .null
      else if pi.arg0 ≤ r ∧ r < pi.arg0 + pi.arg1 then .null else f.regs r } := by
  obtain ⟨_, a, b, c, d⟩ := pi
  obtain ⟨_, a', b', c', d'⟩ := i
  cases first
  cases second
  rfl

theorem loadNulls_same (first : pi.op = .OP_LOADNULLS) (second : i.op = .OP_LOADNULLS)
    (adjacent : pi.arg0 + pi.arg1 = i.arg0)
    (one : if pi.arg1 < 0 then i.arg1 ≤ 0 else i.arg1 = 1) :
    executeAll ops literals [pi, i] f =
      execute ops literals { pi with arg1 := pi.arg1 + 1, op := .OP_LOADNULLS } f := by
  rw [executeAll_loadNulls ops literals first second]
  change _ = EStateM.Result.ok PUnit.unit { f with regs := fun r =>
    if pi.arg0 ≤ r ∧ r < pi.arg0 + (pi.arg1 + 1) then .null else f.regs r }
  congr 2
  funext r
  split at one
  · rw [if_neg (by omega), if_neg (by omega), if_neg (by omega)]
  · by_cases last : r = i.arg0
    · rw [if_pos (by omega), if_pos (by omega)]
    · rw [if_neg (by omega)]
      by_cases before : pi.arg0 ≤ r ∧ r < pi.arg0 + pi.arg1
      · rw [if_pos before, if_pos (by omega)]
      · rw [if_neg before, if_neg (by omega)]

/-- A target that is the register of the value need not be written. -/
theorem move_self (r : Int) (f : Interpreter World) : move r r f = .ok ⟨⟩ f := by
  unfold move store setReg
  rw [Function.update_eq_self]

theorem move_self' (r : Int) : (move r r : EStateM Abort (Interpreter World) Unit) = pure ⟨⟩ :=
  funext (move_self r)

theorem set_same (set : i.op = .OP_SET ∨ i.op = .OP_NEWSLOT) (same : i.arg0 = i.arg3) :
    execute ops literals i = execute ops literals { i with arg0 := 0xFF } := by
  obtain ⟨op, target, self, key, value⟩ := i
  cases same
  by_cases none : target = 0xFF
  · rw [none]
  have written {x : EStateM Abort (Interpreter World) Unit} :
      (do x; if target ≠ 0xFF then move target target) = (do
        x; if (0xFF : Nat) ≠ 0xFF then move 0xFF target) := by
    rw [if_pos none, if_neg (by decide), move_self']
  rcases set with eq | eq
  · cases eq
    exact written
  · cases eq
    exact written

theorem setOuter_same (setOuter : i.op = .OP_SETOUTER) (same : i.arg0 = i.arg2) :
    execute ops literals i = execute ops literals { i with arg0 := 0xFF } := by
  obtain ⟨op, target, outer, value, d⟩ := i
  cases same
  cases setOuter
  by_cases none : target = 0xFF
  · rw [none]
  have written {x : EStateM Abort (Interpreter World) Unit} :
      (do x; if target ≠ 0xFF then move target target) = (do
        x; if (0xFF : Nat) ≠ 0xFF then move 0xFF target) := by
    rw [if_pos none, if_neg (by decide), move_self']
  exact written

end

/-! ## Operands that do not fit -/

/-- `get` gives its operand and `append` leaves what it is given. -/
def echo : Operations (fun _ => False) LVObject where
  get o _ _ := fun s => .ok (o.read s) s
  set _ _ _ _ := pure ⟨⟩
  newSlot _ _ _ := pure ⟨⟩
  append _ o := fun s => .ok ⟨⟩ { s with world := o }
  setOuter _ _ := pure ⟨⟩
  arithObjects _ _ _ := pure .null
  floatArith _ _ _ := .null
  floatEq _ _ := false
  other _ := pure ⟨⟩

/-- Registers that hold 1 in one place. -/
def marked (r : Int) : Interpreter LVObject :=
  ⟨fun s => if s = r then .integer 1 else .null, .null, .null⟩

section

variable {fs : FunctionState} {code : List LVInstruction} {pi i : LVInstruction}

theorem preserves_iff (on : fs.optimization = true) (last : fs.instructions = code ++ [pi])
    {guard : Prop} [Decidable guard] {j : LVInstruction} {opt : Bool}
    (rewrite : fs.rewriting pi i = if guard then .merged j opt else .both pi i) :
    Preserves fs code pi i ↔ (guard → SameCode fs pi i [j]) := by
  unfold Preserves
  rw [addInstruction_drop on last i, rewrite]
  by_cases h : guard
  · rw [if_pos h]
    exact ⟨fun same _ => same, fun same => same h⟩
  · rw [if_neg h]
    exact ⟨fun _ isGuard => absurd isGuard h, fun _ _ _ _ _ _ _ _ => sameResult_refl _⟩

theorem hidden_of_notLocal {captured : Int → Prop} {t : Nat}
    (locals : ∀ r, captured r → ∃ n : Nat, r = n ∧ fs.isLocal n) (notLocal : ¬ fs.isLocal t) :
    ¬ captured t := by
  intro h
  obtain ⟨n, eq, isLocal⟩ := locals _ h
  rw [← Int.ofNat.inj eq] at isLocal
  exact notLocal isLocal

theorem get_iff (get : i.op = .OP_GET) (load : pi.op = .OP_LOAD) (readOnce : i.arg1 ≠ pi.arg0)
    (guard : pi.arg0 = i.arg2) (notLocal : ¬ fs.isLocal pi.arg0) :
    SameCode fs pi i [{ pi with arg2 := uchar i.arg1, op := .OP_GETK, arg0 := i.arg0 }] ↔
      Byte i.arg1 := by
  have loads : appendArrayType pi.op ≠ -1 := by rw [load]; decide
  refine ⟨fun same => ?_, fun byte captured _ World ops literals f locals => ?_⟩
  · -- what is read is the object itself
    have ran := same (fun _ => False) inferInstance LVObject echo (fun _ => .null)
      (marked i.arg1) (fun _ => False.elim)
    rw [executeAll_load _ _ loads, executeAll_one] at ran
    obtain ⟨_, t, n, b, c⟩ := pi
    obtain ⟨_, target, self, key, d⟩ := i
    cases load
    cases get
    have left : execute echo (fun _ => .null) ⟨.OP_GET, target, self, key, d⟩
        ((marked self).setReg t .null) = .ok ⟨⟩ (((marked self).setReg t .null).setReg target
          (((marked self).setReg t .null).regs self)) := rfl
    have right : execute echo (fun _ => .null) ⟨.OP_GETK, target, n, uchar self, c⟩ (marked self) =
        .ok ⟨⟩ ((marked self).setReg target ((marked self).regs (uchar self))) := rfl
    have equal := (ran.sameOff left right).regs target
      (fun h => h.2 target (List.mem_singleton_self _) rfl)
    rw [setReg_self, setReg_self, setReg_of_ne _ _ readOnce] at equal
    by_contra notByte
    have other : (marked self).regs (uchar self) = .null := if_neg notByte
    have one : (marked self).regs self = .integer 1 := if_pos rfl
    rw [other, one] at equal
    exact absurd equal (by decide)
  · rw [executeAll_load _ _ loads, executeAll_one]
    have hidden := hidden_of_notLocal locals notLocal
    refine (get_same ops literals load get guard hidden readOnce byte).mono ?_ ?_
    · rintro r ⟨eq, ne⟩
      refine ⟨⟨by rw [get]; rfl, eq⟩, ?_⟩
      simpa [targets, get] using ne
    · exact fun r eq => ⟨by rw [get]; rfl, eq⟩

theorem prepCall_sameCode (prepCall : i.op = .OP_PREPCALL) (load : pi.op = .OP_LOAD)
    (readOnce : i.arg2 ≠ pi.arg0) (guard : (pi.arg0 : Int) = i.arg1)
    (notLocal : ¬ fs.isLocal pi.arg0) :
    SameCode fs pi i
      [{ pi with op := .OP_PREPCALLK, arg0 := i.arg0, arg2 := i.arg2, arg3 := i.arg3 }] := by
  intro captured _ World ops literals f locals
  have loads : appendArrayType pi.op ≠ -1 := by rw [load]; decide
  rw [executeAll_load _ _ loads, executeAll_one]
  have hidden := hidden_of_notLocal locals notLocal
  refine (prepCall_same ops literals load prepCall guard hidden readOnce).mono ?_ ?_
  · rintro r ⟨⟨eq, ne⟩, ne'⟩
    refine ⟨⟨by rw [prepCall]; rfl, eq⟩, ?_⟩
    simpa [targets, prepCall] using ⟨ne', ne⟩
  · exact fun r eq => ⟨by rw [prepCall]; rfl, eq⟩

theorem compare_sameCode (compare : i.op = .OP_EQ ∨ i.op = .OP_NE) (load : pi.op = .OP_LOAD)
    (readOnce : i.arg2 ≠ pi.arg0 ∧ i.arg3 = 0) (guard : (pi.arg0 : Int) = i.arg1) :
    SameCode fs pi i
      [{ pi with op := i.op, arg0 := i.arg0, arg2 := i.arg2, arg3 := MAX_FUNC_STACKSIZE }] := by
  intro captured _ World ops literals f locals
  have loads : appendArrayType pi.op ≠ -1 := by rw [load]; decide
  rw [executeAll_load _ _ loads, executeAll_one]
  have takes : takesOver i.op = true := by rcases compare with eq | eq <;> rw [eq] <;> rfl
  have target : targets i = [i.arg0] := by unfold targets; rcases compare with eq | eq <;> rw [eq]
  refine (compare_same ops literals load compare guard readOnce.1 readOnce.2).mono ?_ ?_
  · rintro r ⟨eq, ne⟩
    rw [target]
    exact ⟨⟨takes, eq⟩, by simpa using ne⟩
  · exact fun r eq => ⟨takes, eq⟩

theorem append_iff (append : i.op = .OP_APPENDARRAY) (load : appendArrayType pi.op ≠ -1)
    (readOnce : i.arg0 ≠ pi.arg0 ∧ i.arg2 = AAT_STACK) (guard : (pi.arg0 : Int) = i.arg1)
    (notLocal : ¬ fs.isLocal pi.arg0) (width : -2 ^ 31 ≤ pi.arg1 ∧ pi.arg1 < 2 ^ 31) :
    SameCode fs pi i [{ pi with
      op := .OP_APPENDARRAY, arg0 := i.arg0, arg2 := uchar (appendArrayType pi.op)
      arg3 := MAX_FUNC_STACKSIZE }] ↔ (pi.op = .OP_LOADBOOL → pi.arg1 = 0 ∨ pi.arg1 = 1) := by
  refine ⟨fun same bool => ?_, fun bool captured _ World ops literals f locals => ?_⟩
  · have ran := same (fun _ => False) inferInstance LVObject echo (fun _ => .null)
      (marked 0) (fun _ => False.elim)
    rw [executeAll_load _ _ load, executeAll_one] at ran
    obtain ⟨_, t, n, b, c⟩ := pi
    obtain ⟨_, array, value, kind, d⟩ := i
    cases bool
    cases append
    cases guard
    obtain rfl : kind = 0 := Int.ofNat.inj readOnce.2
    dsimp only at width ran
    -- what is appended is now in `world`
    have left : execute echo (fun _ => .null) ⟨.OP_APPENDARRAY, array, t, 0, d⟩
        ((marked 0).setReg t (.bool (decide (n ≠ 0)))) = .ok ⟨⟩ { (marked 0).setReg t
          (.bool (decide (n ≠ 0))) with
          world := ((marked 0).setReg t (.bool (decide (n ≠ 0)))).regs t } := rfl
    have right : execute echo (fun _ => .null) ⟨.OP_APPENDARRAY, array, n, 4, 255⟩ (marked 0) =
        .ok ⟨⟩ { marked 0 with world := ⟨.OT_BOOL, .raw (BitVec.ofInt 64 n)⟩ } := rfl
    have equal := (ran.sameOff left right).world
    simp only [setReg_self, LVObject.bool, LVObject.mk.injEq, true_and,
      LVObjectValue.raw.injEq] at equal
    by_cases zero : n = 0
    · exact Or.inl zero
    · refine Or.inr ?_
      rw [decide_eq_true zero, if_pos rfl] at equal
      have one := congrArg BitVec.toInt equal
      rw [BitVec.toInt_ofInt, Int.bmod_eq_of_le (by omega) (by omega)] at one
      exact one
  · rw [executeAll_load _ _ load, executeAll_one]
    have hidden := hidden_of_notLocal locals notLocal
    refine (append_same ops literals load append guard hidden readOnce.1 readOnce.2 bool).mono ?_ ?_
    · intro r eq
      refine ⟨⟨by rw [append]; rfl, eq⟩, ?_⟩
      simp [targets, append]
    · exact fun r eq => ⟨by rw [append]; rfl, eq⟩

theorem load_iff (second : i.op = .OP_LOAD) (first : pi.op = .OP_LOAD) :
    SameCode fs pi i [{ pi with op := .OP_DLOAD, arg2 := i.arg0, arg3 := uchar i.arg1 }] ↔
      Byte i.arg1 := by
  have loads : appendArrayType pi.op ≠ -1 := by rw [first]; decide
  refine ⟨fun same => ?_, fun byte captured _ World ops literals f _ => ?_⟩
  · have ran := same (fun _ => False) inferInstance LVObject echo
      (fun n => if n = i.arg1 then .integer 1 else .null) (marked 0) (fun _ => False.elim)
    rw [executeAll_load _ _ loads, executeAll_one] at ran
    obtain ⟨_, t, n, b, c⟩ := pi
    obtain ⟨_, target, m, d, e⟩ := i
    cases first
    cases second
    have equal : (if (uchar m : Int) = m then LVObject.integer 1 else .null) =
        if m = m then LVObject.integer 1 else .null := by
      have written := (ran.sameOff rfl rfl).regs target fun h => Bool.noConfusion h.1.1
      change Function.update _ _ _ _ = Function.update _ _ _ _ at written
      rw [Function.update_self, Function.update_self] at written
      exact written
    by_contra notByte
    have other : ¬ (uchar m : Int) = m := notByte
    rw [if_pos rfl, if_neg other] at equal
    exact absurd equal (by decide)
  · rw [executeAll_load _ _ loads, executeAll_one, load_same ops literals first second byte]
    exact sameResult_refl _

theorem move_iff (second : i.op = .OP_MOVE) (first : pi.op = .OP_MOVE) (width : pi.arg0 < 256) :
    SameCode fs pi i [{ pi with op := .OP_DMOVE, arg2 := i.arg0, arg3 := uchar i.arg1 }] ↔
      Byte i.arg1 ∨ uchar i.arg1 = pi.arg0 ∧ pi.arg1 = i.arg1 := by
  refine ⟨fun same => ?_, fun encodes captured _ World ops literals f _ => ?_⟩
  · have ran := same (fun _ => False) inferInstance LVObject echo (fun _ => .null)
      (marked i.arg1) (fun _ => False.elim)
    rw [executeAll_move _ _ first second, executeAll_one] at ran
    obtain ⟨_, a, b, c, d⟩ := pi
    obtain ⟨_, target, source, e, g⟩ := i
    cases first
    cases second
    have equal := (ran.sameOff rfl rfl).regs target fun h => Bool.noConfusion h.1.1
    change Function.update _ _ _ _ = Function.update _ _ _ _ at equal
    rw [Function.update_self, Function.update_self] at equal
    by_cases byte : Byte source
    · exact Or.inl byte
    refine Or.inr ?_
    -- the source is no byte, so it is not the first target
    have ne : ¬ source = (a : Int) := by
      rintro rfl
      exact byte (congrArg Nat.cast (uchar_of_lt width))
    have one : ((marked source).setReg a ((marked source).regs b)).regs source = .integer 1 := by
      rw [setReg_of_ne _ _ ne]
      exact if_pos rfl
    change ((marked source).setReg a ((marked source).regs b)).regs (uchar source) =
      ((marked source).setReg a ((marked source).regs b)).regs source at equal
    rw [one] at equal
    by_cases overlap : uchar source = a
    · rw [overlap, setReg_self] at equal
      refine ⟨overlap, ?_⟩
      by_contra other
      rw [show (marked source).regs b = .null from if_neg other] at equal
      exact absurd equal (by decide)
    · have away : ¬ (uchar source : Int) = a := fun eq => overlap (Int.ofNat.inj eq)
      rw [setReg_of_ne _ _ away,
        show (marked source).regs (uchar source) = .null from if_neg byte] at equal
      exact absurd equal (by decide)
  · rw [executeAll_one, move_same ops literals first second encodes]
    exact sameResult_refl _

theorem loadNulls_iff (second : i.op = .OP_LOADNULLS) (first : pi.op = .OP_LOADNULLS)
    (adjacent : pi.arg0 + pi.arg1 = i.arg0) :
    SameCode fs pi i [{ pi with arg1 := pi.arg1 + 1, op := .OP_LOADNULLS }] ↔
      if pi.arg1 < 0 then i.arg1 ≤ 0 else i.arg1 = 1 := by
  refine ⟨fun same => ?_, fun one captured _ World ops literals f _ => ?_⟩
  · have ran := same (fun _ => False) inferInstance LVObject echo (fun _ => .null)
      ⟨fun _ => .integer 1, .null, .null⟩ (fun _ => False.elim)
    rw [executeAll_loadNulls _ _ first second, executeAll_one] at ran
    obtain ⟨_, a, n, c, d⟩ := pi
    obtain ⟨_, b, m, e, g⟩ := i
    cases first
    cases second
    have equal (r : Int) := (ran.sameOff rfl rfl).regs r fun h => Bool.noConfusion h.1.1
    dsimp only at adjacent equal ⊢
    have nulled (r : Int) : (a ≤ r ∧ r < a + (n + 1)) ↔
        (b ≤ r ∧ r < b + m) ∨ (a ≤ r ∧ r < a + n) := by
      have eq := equal r
      constructor
      · intro h
        rw [if_pos h] at eq
        by_contra neither
        obtain ⟨h₁, h₂⟩ := not_or.mp neither
        rw [if_neg h₁, if_neg h₂] at eq
        exact absurd eq (by decide)
      · intro h
        by_contra outside
        rw [if_neg outside] at eq
        rcases h with h | h
        · rw [if_pos h] at eq
          exact absurd eq (by decide)
        · by_cases h' : b ≤ r ∧ r < b + m
          · rw [if_pos h'] at eq
            exact absurd eq (by decide)
          · rw [if_neg h', if_pos h] at eq
            exact absurd eq (by decide)
    have here := nulled b
    have next := nulled (b + 1)
    split <;> omega
  · rw [executeAll_one, loadNulls_same ops literals first second adjacent one]
    exact sameResult_refl _

theorem rewriting_target (op : i.op = .OP_SET ∨ i.op = .OP_NEWSLOT) : fs.rewriting pi i =
    .both pi (if i.arg0 = i.arg3 then { i with arg0 := 0xFF } else i) := by
  obtain ⟨_, a, b, c, d⟩ := i
  rcases op with op | op <;> cases op <;> rfl

theorem rewriting_setOuter (op : i.op = .OP_SETOUTER) : fs.rewriting pi i =
    .both pi (if i.arg0 = i.arg2 then { i with arg0 := 0xFF } else i) := by
  obtain ⟨_, a, b, c, d⟩ := i
  cases op
  rfl

theorem target_preserves (op : (i.op = .OP_SET ∨ i.op = .OP_NEWSLOT) ∨ i.op = .OP_SETOUTER)
    (on : fs.optimization = true) (last : fs.instructions = code ++ [pi]) :
    Preserves fs code pi i := by
  intro captured _ World ops literals f _
  rw [addInstruction_drop on last i]
  suffices same : executeAll ops literals (rewritten (fs.rewriting pi i)) =
      executeAll ops literals [pi, i] by
    rw [same]
    exact sameResult_refl _
  have unwritten {j : LVInstruction} (eq : execute ops literals i = execute ops literals j) :
      executeAll ops literals [pi, j] = executeAll ops literals [pi, i] := by
    simp only [executeAll, eq]
  rcases op with op | op
  · rw [rewriting_target op]
    change executeAll ops literals [pi, _] = _
    by_cases same : i.arg0 = i.arg3
    · rw [if_pos same]
      exact unwritten (set_same ops literals op same)
    · rw [if_neg same]
  · rw [rewriting_setOuter op]
    change executeAll ops literals [pi, _] = _
    by_cases same : i.arg0 = i.arg2
    · rw [if_pos same]
      exact unwritten (setOuter_same ops literals op same)
    · rw [if_neg same]

theorem get_preserves_iff (on : fs.optimization = true) (last : fs.instructions = code ++ [pi])
    (get : i.op = .OP_GET) (load : pi.op = .OP_LOAD) (readOnce : i.arg1 ≠ pi.arg0) :
    Preserves fs code pi i ↔ (pi.arg0 = i.arg2 → ¬ fs.isLocal pi.arg0 → Byte i.arg1) := by
  have rewrite : fs.rewriting pi i =
      if pi.op = .OP_LOAD ∧ pi.arg0 = i.arg2 ∧ ¬ fs.isLocal pi.arg0 then
        .merged { pi with arg2 := uchar i.arg1, op := .OP_GETK, arg0 := i.arg0 } true
      else .both pi i := by
    obtain ⟨_, a, b, c, d⟩ := i
    cases get
    rfl
  rw [preserves_iff on last rewrite]
  constructor
  · exact fun same guard notLocal =>
      (get_iff get load readOnce guard notLocal).mp (same ⟨load, guard, notLocal⟩)
  · exact fun byte ⟨_, guard, notLocal⟩ =>
      (get_iff get load readOnce guard notLocal).mpr (byte guard notLocal)

theorem prepCall_preserves (on : fs.optimization = true) (last : fs.instructions = code ++ [pi])
    (prepCall : i.op = .OP_PREPCALL) (load : pi.op = .OP_LOAD) (readOnce : i.arg2 ≠ pi.arg0) :
    Preserves fs code pi i := by
  have rewrite : fs.rewriting pi i =
      if pi.op = .OP_LOAD ∧ pi.arg0 = i.arg1 ∧ ¬ fs.isLocal pi.arg0 then
        .merged { pi with
          op := .OP_PREPCALLK, arg0 := i.arg0, arg2 := i.arg2, arg3 := i.arg3 } true
      else .both pi i := by
    obtain ⟨_, a, b, c, d⟩ := i
    cases prepCall
    rfl
  exact (preserves_iff on last rewrite).mpr fun ⟨_, guard, notLocal⟩ =>
    prepCall_sameCode prepCall load readOnce guard notLocal

theorem compare_preserves (on : fs.optimization = true) (last : fs.instructions = code ++ [pi])
    (compare : i.op = .OP_EQ ∨ i.op = .OP_NE) (load : pi.op = .OP_LOAD)
    (readOnce : i.arg2 ≠ pi.arg0 ∧ i.arg3 = 0) : Preserves fs code pi i := by
  have rewrite : fs.rewriting pi i =
      if pi.op = .OP_LOAD ∧ pi.arg0 = i.arg1 ∧ ¬ fs.isLocal pi.arg0 then
        .merged { pi with
          op := i.op, arg0 := i.arg0, arg2 := i.arg2, arg3 := MAX_FUNC_STACKSIZE } true
      else .both pi i := by
    obtain ⟨_, a, b, c, d⟩ := i
    rcases compare with eq | eq <;> cases eq <;> rfl
  exact (preserves_iff on last rewrite).mpr fun ⟨_, guard, _⟩ =>
    compare_sameCode compare load readOnce guard

theorem append_preserves_iff (on : fs.optimization = true) (last : fs.instructions = code ++ [pi])
    (append : i.op = .OP_APPENDARRAY) (load : appendArrayType pi.op ≠ -1)
    (readOnce : i.arg0 ≠ pi.arg0 ∧ i.arg2 = AAT_STACK)
    (width : -2 ^ 31 ≤ pi.arg1 ∧ pi.arg1 < 2 ^ 31) :
    Preserves fs code pi i ↔ (pi.op = .OP_LOADBOOL → pi.arg0 = i.arg1 → ¬ fs.isLocal pi.arg0 →
      pi.arg1 = 0 ∨ pi.arg1 = 1) := by
  have rewrite : fs.rewriting pi i =
      if appendArrayType pi.op ≠ -1 ∧ pi.arg0 = i.arg1 ∧ ¬ fs.isLocal pi.arg0 then
        .merged { pi with
          op := .OP_APPENDARRAY, arg0 := i.arg0, arg2 := uchar (appendArrayType pi.op)
          arg3 := MAX_FUNC_STACKSIZE } true
      else .both pi i := by
    obtain ⟨_, a, b, c, d⟩ := i
    cases append
    rfl
  rw [preserves_iff on last rewrite]
  constructor
  · exact fun same bool guard notLocal =>
      (append_iff append load readOnce guard notLocal width).mp (same ⟨load, guard, notLocal⟩) bool
  · exact fun bool ⟨_, guard, notLocal⟩ =>
      (append_iff append load readOnce guard notLocal width).mpr fun h => bool h guard notLocal

theorem load_preserves_iff (on : fs.optimization = true) (last : fs.instructions = code ++ [pi])
    (second : i.op = .OP_LOAD) (first : pi.op = .OP_LOAD) :
    Preserves fs code pi i ↔ (i.arg1 < 256 → Byte i.arg1) := by
  have rewrite : fs.rewriting pi i =
      if pi.op = .OP_LOAD ∧ i.arg1 < 256 then
        .merged { pi with op := .OP_DLOAD, arg2 := i.arg0, arg3 := uchar i.arg1 } true
      else .both pi i := by
    obtain ⟨_, a, b, c, d⟩ := i
    cases second
    rfl
  rw [preserves_iff on last rewrite]
  constructor
  · exact fun same lt => (load_iff second first).mp (same ⟨first, lt⟩)
  · exact fun byte ⟨_, lt⟩ => (load_iff second first).mpr (byte lt)

theorem move_preserves_iff (on : fs.optimization = true) (last : fs.instructions = code ++ [pi])
    (second : i.op = .OP_MOVE) (first : pi.op = .OP_MOVE) (width : pi.arg0 < 256) :
    Preserves fs code pi i ↔ Byte i.arg1 ∨ uchar i.arg1 = pi.arg0 ∧ pi.arg1 = i.arg1 := by
  have notLoad : ¬ (retargetable pi.op ∧ pi.arg0 = i.arg1) := by
    rw [first]
    exact fun h => Bool.noConfusion h.1
  have rewrite : fs.rewriting pi i =
      if retargetable pi.op ∧ pi.arg0 = i.arg1 then .merged { pi with arg0 := i.arg0 } false
      else if pi.op = .OP_MOVE then
        .merged { pi with op := .OP_DMOVE, arg2 := i.arg0, arg3 := uchar i.arg1 } true
      else .both pi i := by
    obtain ⟨_, a, b, c, d⟩ := i
    cases second
    rfl
  rw [if_neg notLoad] at rewrite
  rw [preserves_iff on last rewrite]
  constructor
  · exact fun same => (move_iff second first width).mp (same first)
  · exact fun encodes _ => (move_iff second first width).mpr encodes

theorem loadNulls_preserves_iff (on : fs.optimization = true)
    (last : fs.instructions = code ++ [pi]) (second : i.op = .OP_LOADNULLS)
    (first : pi.op = .OP_LOADNULLS) :
    Preserves fs code pi i ↔ (pi.arg0 + pi.arg1 = i.arg0 →
      if pi.arg1 < 0 then i.arg1 ≤ 0 else i.arg1 = 1) := by
  have rewrite : fs.rewriting pi i =
      if pi.op = .OP_LOADNULLS ∧ pi.arg0 + pi.arg1 = i.arg0 then
        .merged { pi with arg1 := pi.arg1 + 1, op := .OP_LOADNULLS } true
      else .both pi i := by
    obtain ⟨_, a, b, c, d⟩ := i
    cases second
    rfl
  rw [preserves_iff on last rewrite]
  constructor
  · exact fun same adjacent => (loadNulls_iff second first adjacent).mp (same ⟨first, adjacent⟩)
  · exact fun one ⟨_, adjacent⟩ => (loadNulls_iff second first adjacent).mpr (one adjacent)

/-- A pair does the same after the optimiser exactly when its operands fit. -/
theorem preserves_iff_encodes (fs : FunctionState) (code : List LVInstruction)
    (pi i : LVInstruction) (on : fs.optimization = true)
    (last : fs.instructions = code ++ [pi]) (claimed : Claimed pi i) (readOnce : ReadOnce pi i)
    (fields : Fields pi) : Preserves fs code pi i ↔ Encodes fs pi i := by
  unfold Claimed at claimed
  unfold ReadOnce at readOnce
  unfold Encodes
  cases op : i.op <;> rw [op] at claimed readOnce <;> first | exact absurd claimed id | skip
  case OP_GET => exact get_preserves_iff on last op claimed readOnce
  case OP_PREPCALL => exact iff_of_true (prepCall_preserves on last op claimed readOnce) trivial
  case OP_EQ => exact iff_of_true (compare_preserves on last (Or.inl op) claimed readOnce) trivial
  case OP_NE => exact iff_of_true (compare_preserves on last (Or.inr op) claimed readOnce) trivial
  case OP_LOAD => exact load_preserves_iff on last op claimed
  case OP_APPENDARRAY => exact append_preserves_iff on last op claimed readOnce fields.arg1
  case OP_MOVE => exact move_preserves_iff on last op claimed fields.arg0
  case OP_LOADNULLS => exact loadNulls_preserves_iff on last op claimed
  case OP_SET => exact iff_of_true (target_preserves (Or.inl (Or.inl op)) on last) trivial
  case OP_NEWSLOT => exact iff_of_true (target_preserves (Or.inl (Or.inr op)) on last) trivial
  case OP_SETOUTER => exact iff_of_true (target_preserves (Or.inr op) on last) trivial

end

/-- A state with one instruction. -/
def after (pi : LVInstruction) : FunctionState := { FunctionState.new true with instructions := [pi] }

/-- The literal's number is above 255. -/
theorem preserves_load_get :
    Preserves (after ⟨.OP_LOAD, 1, 300, 0, 0⟩) [] ⟨.OP_LOAD, 1, 300, 0, 0⟩ ⟨.OP_GET, 1, 0, 1, 0⟩ :=
  have claimed : Claimed ⟨.OP_LOAD, 1, 300, 0, 0⟩ ⟨.OP_GET, 1, 0, 1, 0⟩ := rfl
  have readOnce : ReadOnce ⟨.OP_LOAD, 1, 300, 0, 0⟩ ⟨.OP_GET, 1, 0, 1, 0⟩ :=
    fun eq => Int.noConfusion eq fun eq => Nat.noConfusion eq
  (preserves_iff_encodes _ _ _ _ rfl rfl claimed readOnce
    ⟨by decide, by decide, by decide, by decide⟩).mpr fun _ _ => rfl

/-- `function f(b, c, a, …, a, d) { b = a, c = d }` with 300 parameters. -/
def twoAssignments : Statement :=
  .mk 1 (.function "f" [] (.simple (["b", "c"] ++ List.replicate 297 "a" ++ ["d"])
    [.expression (.cons (.assign (.name "b") .assign (.name "a"))
      (.last (.assign (.name "c") .assign (.name "d"))))]))

/-- The last parameter is register 300; what is compiled copies register 44 instead. -/
example : (LVCompiler.startCompiler false [] [twoAssignments] 1).toOption.map
    (fun proto => proto.functions.map (·.instructions)) =
    some [[⟨.OP_DMOVE, 1, 299, 2, 44⟩, instruction .OP_RETURN 0xFF]] := by
  decide +kernel

theorem move_not_preserved : ((after ⟨.OP_MOVE, 1, 299, 0, 0⟩).addInstruction
      ⟨.OP_MOVE, 2, 300, 0, 0⟩).instructions = [⟨.OP_DMOVE, 1, 299, 2, 44⟩] ∧
    ¬ Preserves (after ⟨.OP_MOVE, 1, 299, 0, 0⟩) [] ⟨.OP_MOVE, 1, 299, 0, 0⟩
      ⟨.OP_MOVE, 2, 300, 0, 0⟩ := by
  refine ⟨by decide, fun same => ?_⟩
  rcases (move_preserves_iff rfl rfl rfl rfl (by decide)).mp same with byte | overlap
  · exact absurd byte (by unfold Byte; decide)
  · exact absurd overlap.1 (by decide)

end Window

end Lavril
