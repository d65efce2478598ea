import Lavril.Instructions
import Lavril.CompilerState

/-!
# The two implementations of arithmetic

An arithmetic instruction computes on integers by itself, or calls `ARITH_OP`
and does not look at what it answers; `COMPARITH` calls `ARITH_OP` for
everything. They differ where `ARITH_OP` takes the quotient of the least 32-bit
number for an overflow, and where the error of a remainder by zero is dropped.
-/

namespace Lavril

open Interpreter

namespace Arithmetic

/-- The instruction `a op= b` stands for, on registers. -/
def plain (op : AssignOp) (target left right : Nat) : LVInstruction :=
  ⟨op.arithOp, target, right, left, 0⟩

/-- `COMPARITH`, as it is emitted for `self[key] op= value`. -/
def comparith (op : AssignOp) (target self key value : Nat) : LVInstruction :=
  ⟨.OP_COMPARITH, target, (self <<< 16 ||| value : Nat), key, uchar op.compArithChar⟩

def operator (op : AssignOp) : Char := Char.ofNat (uchar op.compArithChar)

/-- An operator that computes something. -/
def Computes (op : AssignOp) : Prop := op ≠ .assign ∧ op ≠ .newslot

section

variable {captured : Int → Prop} [DecidablePred captured] {World : Type}
  (ops : Operations captured World) (literals : Int → LVObject)

/-- What `ARITH_OP` produces on two registers, as a guarded call stores or throws it. -/
def guarded (op : AssignOp) (target left right : Nat) : EStateM Abort (Interpreter World) Unit := do
  let result ← perform fun f => arithOp ops (operator op) (f.operand left) (f.operand right)
  store target result

/-- `self[key] = self[key] op value`, with a register for what is read. -/
def expanded (op : AssignOp) (target self key value tmp : Nat) :
    EStateM Abort (Interpreter World) Unit := do
  execute ops literals ⟨.OP_GET, tmp, self, key, 0⟩
  execute ops literals (plain op tmp tmp value)
  execute ops literals ⟨.OP_SET, target, self, key, tmp⟩

end

/-- The instruction produces what `ARITH_OP` does. -/
def PlainAgrees (op : AssignOp) (i1 i2 : BitVec 64) : Prop :=
  ∀ (captured : Int → Prop) (_ : DecidablePred captured) (World : Type)
    (ops : Operations captured World) (literals : Int → LVObject) (f : Interpreter World)
    (target left right : Nat), f.regs left = .integer i1 → f.regs right = .integer i2 →
    execute ops literals (plain op target left right) f = guarded ops op target left right f

/-- The registers of a compound assignment, none of them captured. `tmp` is a free one. -/
structure Separate (captured : Int → Prop) (target self key value tmp : Nat) : Prop where
  hidden : ∀ r ∈ [target, self, key, value, tmp], ¬ captured (r : Nat)
  packed : self < 2 ^ 16 ∧ value < 2 ^ 16
  stored : target ≠ 0xFF
  fresh : tmp ≠ self ∧ tmp ≠ key ∧ tmp ≠ value
  result : target ≠ tmp

/-- A compound assignment to a slot that holds an integer does what the assignment
written out does. -/
def CompoundAgrees (op : AssignOp) (i1 i2 : BitVec 64) : Prop :=
  ∀ (captured : Int → Prop) (_ : DecidablePred captured) (World : Type)
    (ops : Operations captured World) (literals : Int → LVObject) (f : Interpreter World)
    (target self key value tmp : Nat), Separate captured target self key value tmp →
    f.regs value = .integer i2 →
    (∀ o s, ops.get (.value (f.regs self)) (.value (f.regs key)) self f.visible = .ok o s →
      o = .integer i1) →
    SameResult (· = tmp) (fun r => r = tmp ∨ r = target)
      (execute ops literals (comparith op target self key value) f)
      (expanded ops literals op target self key value tmp f)

/-- The operands on which the two implementations do the same. -/
def Agreeing (op : AssignOp) (i1 i2 : BitVec 64) : Prop :=
  ¬ (op = .diveq ∧ i1 = INT_MIN ∧ i2 = -1) ∧ ¬ (op = .modeq ∧ i2 = 0)

section

variable {captured : Int → Prop} {World : Type} {op : AssignOp} {i1 i2 : BitVec 64}

theorem integers_eq {integers : BitVec 64 → BitVec 64 → Operation captured World LVObject}
    (ops : Operations captured World) (c : Char) {o1 o2 : Operand captured}
    {s : Visible captured World} (left : o1.read s = .integer i1) (right : o2.read s = .integer i2) :
    arithMacro ops integers c o1 o2 s = integers i1 i2 s := by
  unfold arithMacro
  rw [left, right]
  rfl

theorem arithOp_eq (ops : Operations captured World) (c : Char) {o1 o2 : Operand captured}
    {s : Visible captured World} (left : o1.read s = .integer i1) (right : o2.read s = .integer i2) :
    arithOp ops c o1 o2 s = arithIntegers c i1 i2 s := by
  unfold arithOp
  rw [left, right]
  rfl

/-- What the macros of the plain operators compute for integers. -/
def macroIntegers (op : AssignOp) (i1 i2 : BitVec 64) : Operation captured World LVObject :=
  match op with
  | .minuseq => pure (.integer (i1 - i2))
  | .muleq => pure (.integer (i1 * i2))
  | .diveq => divideNoZero i1 i2
  | _ => pure (.integer (i1 + i2))

theorem macroIntegers_eq (computes : Computes op) (notMod : op ≠ .modeq)
    (agrees : Agreeing op i1 i2) :
    (macroIntegers op i1 i2 : Operation captured World LVObject) =
      arithIntegers (operator op) i1 i2 := by
  cases op with
  | assign => exact absurd rfl computes.1
  | newslot => exact absurd rfl computes.2
  | modeq => exact absurd rfl notMod
  | pluseq | minuseq | muleq => rfl
  | diveq =>
    have notLimit : ¬ (i2 = -1 ∧ i1 = INT_MIN) := fun h => agrees.1 ⟨rfl, h.2, h.1⟩
    change divideNoZero i1 i2 = if i2 = 0 then _ else if i2 = -1 ∧ i1 = INT_MIN then _ else _
    rw [if_neg notLimit]
    rfl

theorem arithIntegers_mod : (arithIntegers '%' i1 i2 : Operation captured World LVObject) =
    if i2 = 0 then Visible.raiseError "modulo by zero"
    else if i2 = -1 ∧ i1 = INT_MIN then pure (.integer 0) else machineDivide BitVec.srem i1 i2 := rfl

theorem modulo_not_raised (ne : i2 ≠ 0) (s s' : Visible captured World) :
    arithIntegers '%' i1 i2 s ≠ .error .raised s' := by
  intro raised
  rw [arithIntegers_mod, if_neg ne] at raised
  split at raised
  · cases raised
  · unfold machineDivide at raised
    split at raised <;> cases raised

variable [DecidablePred captured] (ops : Operations captured World) (literals : Int → LVObject)
  {f : Interpreter World} {target left right : Nat}

theorem execute_arithMacro (computes : Computes op) (notMod : op ≠ .modeq) :
    execute ops literals (plain op target left right) = (do
      let result ← perform fun f =>
        arithMacro ops (macroIntegers op) (operator op) (f.operand left) (f.operand right)
      store target result) := by
  cases op with
  | assign => exact absurd rfl computes.1
  | newslot => exact absurd rfl computes.2
  | modeq => exact absurd rfl notMod
  | pluseq | minuseq | muleq | diveq => rfl

theorem execute_mod : execute ops literals (plain .modeq target left right) =
    unguarded (guarded ops .modeq target left right) := rfl

/-- The frame after an operation whose result goes to a register. -/
def afterStore (f : Interpreter World) (target : Int) :
    EStateM.Result Abort (Visible captured World) LVObject →
      EStateM.Result Abort (Interpreter World) Unit
  | .ok o s => .ok ⟨⟩ ((f.update s).setReg target o)
  | .error e s => .error e (f.update s)

theorem perform_store {operation : Interpreter World → Operation captured World LVObject} :
    (do let result ← perform operation; store target result) f =
      afterStore f target (operation f f.visible) := by
  change EStateM.bind _ _ _ = _
  unfold EStateM.bind perform
  cases operation f f.visible <;> rfl

/-- What the guarded call does on integers. -/
theorem guarded_eq (leftInt : f.regs left = .integer i1) (rightInt : f.regs right = .integer i2) :
    guarded ops op target left right f = afterStore f target
      ((arithIntegers (operator op) i1 i2 : Operation captured World LVObject) f.visible) := by
  unfold guarded
  rw [perform_store, arithOp_eq ops _ ((operand_read f left).trans leftInt)
    ((operand_read f right).trans rightInt)]

theorem plain_eq_guarded (computes : Computes op) (agrees : Agreeing op i1 i2)
    (leftInt : f.regs left = .integer i1) (rightInt : f.regs right = .integer i2) :
    execute ops literals (plain op target left right) f = guarded ops op target left right f := by
  by_cases isMod : op = .modeq
  · subst isMod
    have ne : i2 ≠ 0 := fun eq => agrees.2 ⟨rfl, eq⟩
    rw [execute_mod]
    unfold unguarded
    have percent : operator .modeq = '%' := rfl
    rw [guarded_eq ops leftInt rightInt, percent]
    cases result : (arithIntegers '%' i1 i2 : Operation captured World LVObject) f.visible with
    | ok a s => rfl
    | error e s =>
      cases e with
      | raised => exact absurd result (modulo_not_raised ne _ _)
      | fault => rfl
  · rw [execute_arithMacro ops literals computes isMod, perform_store, guarded_eq ops leftInt rightInt,
      integers_eq ops _ ((operand_read f left).trans leftInt)
        ((operand_read f right).trans rightInt), macroIntegers_eq computes isMod agrees]

end

/-! ## Compound assignment -/

theorem unpack {self value : Nat} (selfLt : self < 2 ^ 16) (valueLt : value < 2 ^ 16) :
    (BitVec.ofInt 32 (self <<< 16 ||| value : Nat) >>> 16).toNat = self ∧
    (BitVec.ofInt 32 (self <<< 16 ||| value : Nat) &&& 0xFFFF#32).toNat = value := by
  rw [← Nat.shiftLeft_add_eq_or_of_lt valueLt, Nat.shiftLeft_eq, BitVec.ofInt_natCast]
  constructor
  · rw [BitVec.toNat_ushiftRight, BitVec.toNat_ofNat, Nat.shiftRight_eq_div_pow]
    omega
  · have mask : (self * 2 ^ 16 + value) % 2 ^ 32 &&& 65535 =
        (self * 2 ^ 16 + value) % 2 ^ 32 % 2 ^ 16 := Nat.and_two_pow_sub_one_eq_mod _ 16
    rw [BitVec.toNat_and, BitVec.toNat_ofNat]
    change (self * 2 ^ 16 + value) % 2 ^ 32 &&& 65535 = value
    omega

section

variable {captured : Int → Prop} {World : Type} {op : AssignOp} {i1 i2 : BitVec 64}
  [DecidablePred captured] (ops : Operations captured World) (literals : Int → LVObject)
  {f : Interpreter World} {target self key value tmp : Nat}

theorem execute_comparith (selfLt : self < 2 ^ 16) (valueLt : value < 2 ^ 16) :
    execute ops literals (comparith op target self key value) f =
      derefInc ops (operator op) target self key value f := by
  obtain ⟨high, low⟩ := unpack selfLt valueLt
  change derefInc ops (operator op) target
    (BitVec.ofInt 32 (self <<< 16 ||| value : Nat) >>> 16).toNat key
    (BitVec.ofInt 32 (self <<< 16 ||| value : Nat) &&& 0xFFFF#32).toNat f = _
  rw [high, low]

theorem expanded_eq (stored : target ≠ 0xFF) :
    expanded ops literals op target self key value tmp = (do
      let o ← perform fun f => ops.get (f.operand self) (f.operand key) self
      store tmp o
      execute ops literals (plain op tmp tmp value)
      perform fun f => ops.set (f.operand self) (f.operand key) (f.operand tmp) self
      move target tmp) := by
  have set : execute ops literals ⟨.OP_SET, target, self, key, tmp⟩ = (do
      perform fun f => ops.set (f.operand self) (f.operand key) (f.operand tmp) self
      if target ≠ 0xFF then move target tmp) := rfl
  have get : execute ops literals ⟨.OP_GET, tmp, self, key, 0⟩ = (do
      let o ← perform fun f => ops.get (f.operand self) (f.operand key) self
      store tmp o) := rfl
  unfold expanded
  rw [get, set, if_pos stored, bind_assoc]

/-- The last step, from where the result is in the target on one side and in the free
register on the other. -/
theorem set_eq {f' : Interpreter World} {r tself tkey : LVObject}
    (separate : Separate captured target self key value tmp)
    (same : SameOff (fun s => s = tmp ∨ s = target) f f') (inTarget : f.regs target = r)
    (inTmp : f'.regs tmp = r) (selfEq : f'.regs self = tself) (keyEq : f'.regs key = tkey) :
    SameResult (· = (tmp : Int)) (fun s => s = tmp ∨ s = target)
      (perform (fun f => ops.set (.value tself) (.value tkey) (f.operand target) self) f)
      ((do
        perform fun f => ops.set (f.operand self) (f.operand key) (f.operand tmp) self
        move target tmp) f') := by
  obtain ⟨hidden, -, -, -, result⟩ := separate
  simp only [List.mem_cons, List.not_mem_nil, or_false, forall_eq_or_imp, forall_eq] at hidden
  obtain ⟨hTarget, hSelf, hKey, -, hTmp⟩ := hidden
  rw [← bind_pure (perform fun f => ops.set (.value tself) (.value tkey) (f.operand target) self)]
  have performed : SameResult (fun s => s = tmp ∨ s = target) (fun s => s = tmp ∨ s = target)
      (perform (fun f => ops.set (.value tself) (.value tkey) (f.operand target) self) f)
      (perform (fun f => ops.set (f.operand self) (f.operand key) (f.operand tmp) self) f') := by
    refine same.perform ?_ ?_
    · rintro s (rfl | rfl)
      · exact hTmp
      · exact hTarget
    · rw [operand_of_not hSelf, operand_of_not hKey, operand_of_not hTmp, operand_of_not hTarget,
        inTarget, inTmp, selfEq, keyEq]
  refine performed.bind fun _ f₁ f₁' run run' same₁ => ?_
  have target₁ : f₁.regs target = r := (perform_regs run hTarget).trans inTarget
  have tmp₁ : f₁'.regs tmp = r := (perform_regs run' hTmp).trans inTmp
  refine .ok ⟨fun s ne => ?_, same₁.lasterror, same₁.world⟩
  by_cases eq : s = target
  · rw [eq, setReg_self, tmp₁, target₁]
  · rw [setReg_of_ne f₁' _ eq]
    exact same₁.regs s (not_or.mpr ⟨ne, eq⟩)

theorem compound_eq (computes : Computes op) (agrees : Agreeing op i1 i2)
    (separate : Separate captured target self key value tmp)
    (valueInt : f.regs value = .integer i2)
    (held : ∀ o s, ops.get (.value (f.regs self)) (.value (f.regs key)) self f.visible = .ok o s →
      o = .integer i1) :
    SameResult (· = (tmp : Int)) (fun r => r = tmp ∨ r = target)
      (execute ops literals (comparith op target self key value) f)
      (expanded ops literals op target self key value tmp f) := by
  obtain ⟨hidden, ⟨selfLt, valueLt⟩, stored, ⟨neSelf, neKey, neValue⟩, -⟩ := id separate
  simp only [List.mem_cons, List.not_mem_nil, or_false, forall_eq_or_imp, forall_eq] at hidden
  obtain ⟨hTarget, hSelf, hKey, hValue, hTmp⟩ := hidden
  rw [execute_comparith ops literals selfLt valueLt, expanded_eq ops literals stored]
  have first : perform (fun f => ops.get (f.operand self) (f.operand key) self) f =
      perform (fun _ => ops.get (.value (f.regs self)) (.value (f.regs key)) self) f :=
    perform_congr (by rw [operand_of_not hSelf, operand_of_not hKey])
  change SameResult _ _ (EStateM.bind _ _ f) (EStateM.bind _ _ f)
  unfold EStateM.bind
  rw [first]
  cases read : perform (fun _ => ops.get (.value (f.regs self)) (.value (f.regs key)) self) f with
  | error e f₁ =>
    cases e with
    | raised => exact .raised (SameOff.refl f₁)
    | fault => exact .fault
  | ok o f₁ =>
    have isInt : o = .integer i1 := by
      unfold perform at read
      split at read
      · rename_i a s run
        cases read
        exact held _ _ run
      · cases read
    have keeps : ∀ r : Int, ¬ captured r → r ≠ tmp → (f₁.setReg tmp o).regs r = f.regs r :=
      fun r hidden ne => (setReg_of_ne f₁ o ne).trans (perform_regs read hidden)
    have value₁ : f₁.regs value = .integer i2 := (perform_regs read hValue).trans valueInt
    have value₂ : (f₁.setReg tmp o).regs value = .integer i2 :=
      (keeps value hValue (by omega)).trans valueInt
    have right : execute ops literals (plain op tmp tmp value) (f₁.setReg tmp o) =
        guarded ops op tmp tmp value (f₁.setReg tmp o) :=
      plain_eq_guarded ops literals computes agrees ((setReg_self f₁ tmp o).trans isInt) value₂
    rw [guarded_eq ops ((setReg_self f₁ tmp o).trans isInt) value₂] at right
    have operands : arithOp ops (operator op) (.value o) (f₁.operand value) f₁.visible =
        arithIntegers (operator op) i1 i2 f₁.visible :=
      arithOp_eq ops _ isInt ((operand_read f₁ value).trans value₁)
    have same : SameOff (· = (tmp : Int)) f₁ (f₁.setReg tmp o) :=
      ⟨fun s ne => setReg_of_ne f₁ o ne, rfl, rfl⟩
    have seen : (f₁.setReg tmp o).visible = (f₁.visible : Visible captured World) :=
      same.visible fun s eq => eq ▸ hTmp
    have updated (s : Visible captured World) :
        SameOff (· = (tmp : Int)) (f₁.update s) ((f₁.setReg tmp o).update s) := same.update s
    rw [seen] at right
    change SameResult _ _ (EStateM.bind _ _ f₁) (EStateM.bind _ _ (f₁.setReg tmp o))
    unfold EStateM.bind perform
    simp only [operands, right]
    cases arithIntegers (operator op) i1 i2 f₁.visible with
    | error e s =>
      cases e with
      | raised => exact .raised ((updated s).mono fun _ => Or.inl)
      | fault => exact .fault
    | ok r s =>
      refine set_eq ops separate (r := r) ⟨fun t ne => ?_, rfl, rfl⟩ (setReg_self _ _ _)
        (setReg_self _ _ _) ?_ ?_
      · obtain ⟨neTmp, neTarget⟩ := not_or.mp ne
        rw [setReg_of_ne _ r neTmp, setReg_of_ne _ r neTarget]
        exact (updated s).regs t neTmp
      · rw [setReg_of_ne _ r (by omega), update_regs _ s hSelf, keeps self hSelf (by omega)]
      · rw [setReg_of_ne _ r (by omega), update_regs _ s hKey, keeps key hKey (by omega)]

end
/-! ## Where the two agree -/

/-- Operations that do nothing; what is read is always `o`. -/
def idle (o : LVObject) : Operations (fun _ => False) Unit where
  get _ _ _ := pure o
  set _ _ _ _ := pure ⟨⟩
  newSlot _ _ _ := pure ⟨⟩
  append _ _ := pure ⟨⟩
  setOuter _ _ := pure ⟨⟩
  arithObjects _ _ _ := pure .null
  floatArith _ _ _ := .null
  floatEq _ _ := false
  other _ := pure ⟨⟩

/-- Two operands in the registers 1 and 2. -/
def operands (i1 i2 : BitVec 64) : Interpreter Unit where
  regs r := if r = 1 then .integer i1 else if r = 2 then .integer i2 else .null
  lasterror := .null
  world := ⟨⟩

def raises {σ α : Type} : EStateM.Result Abort σ α → Bool
  | .error .raised _ => true
  | _ => false

theorem agrees_iff (op : AssignOp) (computes : Computes op) (i1 i2 : BitVec 64) :
    PlainAgrees op i1 i2 ∧ CompoundAgrees op i1 i2 ↔ Agreeing op i1 i2 := by
  refine ⟨fun ⟨agrees, _⟩ => ⟨?_, ?_⟩, fun agreeing => ⟨?_, ?_⟩⟩
  · rintro ⟨rfl, rfl, rfl⟩
    have same := agrees _ inferInstance Unit (idle .null) (fun _ => .null) (operands INT_MIN (-1))
      0 1 2 rfl rfl
    exact absurd (congrArg raises same) (by decide)
  · rintro ⟨rfl, rfl⟩
    have same := agrees _ inferInstance Unit (idle .null) (fun _ => .null) (operands i1 0)
      0 1 2 rfl rfl
    have left : raises (execute (idle .null) (fun _ => .null) (plain .modeq 0 1 2)
      (operands i1 0)) = false := rfl
    have right : raises (guarded (idle .null) .modeq 0 1 2 (operands i1 0)) = true := rfl
    rw [same, right] at left
    cases left
  · intro captured _ World ops literals f target left right leftInt rightInt
    exact plain_eq_guarded ops literals computes agreeing leftInt rightInt
  · intro captured _ World ops literals f target self key value tmp separate valueInt held
    exact compound_eq ops literals computes agreeing separate valueInt held

theorem agrees_add : PlainAgrees .pluseq 1 2 ∧ CompoundAgrees .pluseq 1 2 :=
  (agrees_iff .pluseq ⟨by decide, by decide⟩ 1 2).mpr
    ⟨fun h => AssignOp.noConfusion h.1, fun h => AssignOp.noConfusion h.1⟩

/-- The quotient of the least 32-bit number by -1 is there with one implementation and an
error with the other. -/
theorem divide_disagrees :
    (∃ f, execute (idle .null) (fun _ => .null) (plain .diveq 0 1 2) (operands INT_MIN (-1)) =
      .ok ⟨⟩ f ∧ f.regs 0 = .integer 2147483648) ∧
    (∃ f, guarded (idle .null) .diveq 0 1 2 (operands INT_MIN (-1)) = .error .raised f ∧
      f.lasterror = .string "integer overflow") ∧
    ¬ PlainAgrees .diveq INT_MIN (-1) := by
  refine ⟨⟨_, rfl, by decide⟩, ⟨_, rfl, rfl⟩, fun agrees => ?_⟩
  have same := agrees _ inferInstance Unit (idle .null) (fun _ => .null) (operands INT_MIN (-1))
    0 1 2 rfl rfl
  exact absurd (congrArg raises same) (by decide)

/-! ## What the processor is asked to divide -/

/-- The instructions that divide or take a remainder. -/
inductive DivisionPath where
  | div | mod
  /-- `COMPARITH` with that operator. -/
  | comparith (remainder : Bool)
  deriving DecidableEq

def DivisionPath.op : DivisionPath → AssignOp
  | .div | .comparith false => .diveq
  | .mod | .comparith true => .modeq

/-- The instruction of that path has been executed on the operands `i1` and `i2`. For a
compound assignment `i1` is what is read, and storing the result traps nothing. -/
inductive Divided (i1 i2 : BitVec 64) : DivisionPath → Nat → {World : Type} →
    EStateM.Result Abort (Interpreter World) Unit → Prop
  | plain {captured : Int → Prop} [DecidablePred captured] {World : Type}
      {ops : Operations captured World} {literals : Int → LVObject} {f : Interpreter World}
      {path : DivisionPath} {target left right : Nat} (path_eq : path = .div ∨ path = .mod)
      (leftInt : f.regs left = .integer i1) (rightInt : f.regs right = .integer i2) :
      Divided i1 i2 path target (execute ops literals (plain path.op target left right) f)
  | comparith {captured : Int → Prop} [DecidablePred captured] {World : Type}
      {ops : Operations captured World} {literals : Int → LVObject} {f f₁ : Interpreter World}
      {target self key value tmp : Nat} {remainder : Bool}
      (separate : Separate captured target self key value tmp)
      (valueInt : f.regs value = .integer i2)
      (read : perform (fun _ => ops.get (.value (f.regs self)) (.value (f.regs key)) self) f =
        .ok (.integer i1) f₁)
      (set : ∀ o o' o'' n s s', ops.set o o' o'' n s ≠ .error .fault s') :
      Divided i1 i2 (.comparith remainder) target (execute ops literals
        (comparith (DivisionPath.comparith remainder).op target self key value) f)

/-- The processor divides nothing that it traps, and there is an error or a result that
depends on the operands only. -/
def DivisionSafe (path : DivisionPath) (i1 i2 : BitVec 64) : Prop :=
  ∃ r : BitVec 64, ∀ (target : Nat) (World : Type)
    (result : EStateM.Result Abort (Interpreter World) Unit), Divided i1 i2 path target result →
    (∃ f, result = .error .raised f) ∨ ∃ f, result = .ok ⟨⟩ f ∧ f.regs target = .integer r

def quotient (op : AssignOp) (i1 i2 : BitVec 64) : BitVec 64 :=
  if op = .diveq then i1.sdiv i2 else i1.srem i2

section

variable {captured : Int → Prop} {World : Type} {op : AssignOp} {i1 i2 : BitVec 64}

theorem machineDivide_eq {divide : BitVec 64 → BitVec 64 → BitVec 64} (ne : i2 ≠ 0)
    (noOverflow : ¬ (i1 = BitVec.intMin 64 ∧ i2 = -1)) (s : Visible captured World) :
    machineDivide divide i1 i2 s = .ok (.integer (divide i1 i2)) s := by
  unfold machineDivide
  rw [if_neg (not_or.mpr ⟨ne, noOverflow⟩)]

theorem divideNoZero_cases (noOverflow : ¬ (i1 = BitVec.intMin 64 ∧ i2 = -1))
    (s : Visible captured World) :
    (∃ s', divideNoZero i1 i2 s = .error .raised s') ∨
      divideNoZero i1 i2 s = .ok (.integer (quotient .diveq i1 i2)) s := by
  unfold divideNoZero
  by_cases zero : i2 = 0
  · rw [if_pos zero]
    exact Or.inl ⟨_, rfl⟩
  · rw [if_neg zero]
    exact Or.inr (machineDivide_eq zero noOverflow s)

theorem arithIntegers_div : (arithIntegers '/' i1 i2 : Operation captured World LVObject) =
    if i2 = 0 then Visible.raiseError "division by zero"
    else if i2 = -1 ∧ i1 = INT_MIN then Visible.raiseError "integer overflow"
    else machineDivide BitVec.sdiv i1 i2 := rfl

/-- `ARITH_OP` raises an error when the divisor is zero, and in one more case of a quotient. -/
theorem arithIntegers_cases (division : op = .diveq ∨ op = .modeq)
    (noOverflow : ¬ (i1 = BitVec.intMin 64 ∧ i2 = -1)) (s : Visible captured World) :
    ((op = .modeq → i2 = 0) ∧ ∃ s', arithIntegers (operator op) i1 i2 s = .error .raised s') ∨
      arithIntegers (operator op) i1 i2 s = .ok (.integer (quotient op i1 i2)) s := by
  rcases division with rfl | rfl
  · change (_ ∧ ∃ s', arithIntegers '/' i1 i2 s = _) ∨ arithIntegers '/' i1 i2 s = _
    rw [arithIntegers_div]
    by_cases zero : i2 = 0
    · rw [if_pos zero]
      exact Or.inl ⟨fun _ => zero, _, rfl⟩
    rw [if_neg zero]
    split
    · exact Or.inl ⟨fun h => AssignOp.noConfusion h, _, rfl⟩
    · exact Or.inr (machineDivide_eq zero noOverflow s)
  · change (_ ∧ ∃ s', arithIntegers '%' i1 i2 s = _) ∨ arithIntegers '%' i1 i2 s = _
    rw [arithIntegers_mod]
    by_cases zero : i2 = 0
    · rw [if_pos zero]
      exact Or.inl ⟨fun _ => zero, _, rfl⟩
    rw [if_neg zero]
    split
    · rename_i limit
      have remainder : quotient .modeq INT_MIN (-1) = 0 := by decide
      refine Or.inr ?_
      rw [limit.1, limit.2, remainder]
      rfl
    · exact Or.inr (machineDivide_eq zero noOverflow s)

variable [DecidablePred captured] {ops : Operations captured World} {literals : Int → LVObject}
  {f f₁ : Interpreter World} {target left right self key value tmp : Nat}

theorem divided_div (noOverflow : ¬ (i1 = BitVec.intMin 64 ∧ i2 = -1))
    (leftInt : f.regs left = .integer i1) (rightInt : f.regs right = .integer i2) :
    (∃ f', execute ops literals (plain .diveq target left right) f = .error .raised f') ∨
    ∃ f', execute ops literals (plain .diveq target left right) f = .ok ⟨⟩ f' ∧
      f'.regs target = .integer (quotient .diveq i1 i2) := by
  have run : execute ops literals (plain .diveq target left right) f = afterStore f target
      ((divideNoZero i1 i2 : Operation captured World LVObject) f.visible) := by
    rw [execute_arithMacro ops literals ⟨by decide, by decide⟩ (by decide), perform_store,
      integers_eq ops _ ((operand_read f left).trans leftInt)
        ((operand_read f right).trans rightInt)]
    rfl
  rw [run]
  have outcome := divideNoZero_cases noOverflow (f.visible : Visible captured World)
  rcases outcome with ⟨s, raised⟩ | eq
  · rw [raised]
    exact Or.inl ⟨_, rfl⟩
  · rw [eq]
    exact Or.inr ⟨_, rfl, setReg_self _ _ _⟩

theorem divided_mod (noOverflow : ¬ (i1 = BitVec.intMin 64 ∧ i2 = -1)) (ne : i2 ≠ 0)
    (leftInt : f.regs left = .integer i1) (rightInt : f.regs right = .integer i2) :
    ∃ f', execute ops literals (plain .modeq target left right) f = .ok ⟨⟩ f' ∧
      f'.regs target = .integer (quotient .modeq i1 i2) := by
  rw [plain_eq_guarded ops literals ⟨by decide, by decide⟩
    ⟨fun h => AssignOp.noConfusion h.1, fun h => ne h.2⟩ leftInt rightInt,
    guarded_eq ops leftInt rightInt]
  rcases arithIntegers_cases (Or.inr rfl) noOverflow f.visible with ⟨zero, -⟩ | eq
  · exact absurd (zero rfl) ne
  · rw [eq]
    exact ⟨_, rfl, setReg_self _ _ _⟩

theorem divided_comparith (division : op = .diveq ∨ op = .modeq)
    (noOverflow : ¬ (i1 = BitVec.intMin 64 ∧ i2 = -1))
    (separate : Separate captured target self key value tmp)
    (valueInt : f.regs value = .integer i2)
    (read : perform (fun _ => ops.get (.value (f.regs self)) (.value (f.regs key)) self) f =
      .ok (.integer i1) f₁)
    (set : ∀ o o' o'' n s s', ops.set o o' o'' n s ≠ .error .fault s') :
    (∃ f', execute ops literals (comparith op target self key value) f = .error .raised f') ∨
    ∃ f', execute ops literals (comparith op target self key value) f = .ok ⟨⟩ f' ∧
      f'.regs target = .integer (quotient op i1 i2) := by
  obtain ⟨hidden, ⟨selfLt, valueLt⟩, -, -, -⟩ := separate
  simp only [List.mem_cons, List.not_mem_nil, or_false, forall_eq_or_imp, forall_eq] at hidden
  obtain ⟨hTarget, -, -, hValue, -⟩ := hidden
  have value₁ : f₁.regs value = .integer i2 := (perform_regs read hValue).trans valueInt
  have operands : arithOp ops (operator op) (.value (.integer i1)) (f₁.operand value) f₁.visible =
      arithIntegers (operator op) i1 i2 f₁.visible :=
    arithOp_eq ops _ rfl ((operand_read f₁ value).trans value₁)
  have run : execute ops literals (comparith op target self key value) f =
      (do
        let result ← perform fun f => arithOp ops (operator op) (.value (.integer i1)) (f.operand value)
        store target result
        perform fun f₂ => ops.set (.value (f.regs self)) (.value (f.regs key)) (f₂.operand target) self)
      f₁ := by
    rw [execute_comparith ops literals selfLt valueLt]
    exact then_ok read
  rw [run]
  rcases arithIntegers_cases division noOverflow f₁.visible with ⟨-, s, raised⟩ | eq
  · exact Or.inl ⟨_, then_error (perform_error (operands.trans raised))⟩
  · have stored (o : LVObject) (g : Interpreter World) :
        store target o g = .ok ⟨⟩ (g.setReg target o) := rfl
    rw [then_ok (perform_ok (operands.trans eq)), then_ok (stored _ _)]
    -- the result is in the target when it is stored in the object
    cases set_eq : perform (fun f₂ => ops.set (.value (f.regs self)) (.value (f.regs key))
      (f₂.operand target) self) ((f₁.update (f₁.visible : Visible captured World)).setReg target
        (.integer (quotient op i1 i2))) with
    | ok _ f' => exact Or.inr ⟨f', rfl, (perform_regs set_eq hTarget).trans (setReg_self _ _ _)⟩
    | error e f' =>
      cases e with
      | raised => exact Or.inl ⟨f', rfl⟩
      | fault =>
        unfold perform at set_eq
        split at set_eq
        · cases set_eq
        · rename_i error
          cases set_eq
          exact absurd error (set _ _ _ _ _ _)

end

def faults {σ α : Type} : EStateM.Result Abort σ α → Bool
  | .error .fault _ => true
  | _ => false

theorem separate_idle : Separate (fun _ => False) 0 3 4 2 5 :=
  ⟨fun _ _ => id, ⟨by decide, by decide⟩, by decide, ⟨by decide, by decide, by decide⟩, by decide⟩

/-- Every path asks for the quotient of the least integer by -1. -/
theorem overflow_faults (path : DivisionPath) :
    ∃ result : EStateM.Result Abort (Interpreter Unit) Unit,
      Divided (BitVec.intMin 64) (-1) path 0 result ∧ faults result = true := by
  have leftInt : (operands (BitVec.intMin 64) (-1)).regs (1 : Nat) = .integer (BitVec.intMin 64) := rfl
  have rightInt : (operands (BitVec.intMin 64) (-1)).regs (2 : Nat) = .integer (-1) := rfl
  have set : ∀ o o' o'' n s s',
      (idle (.integer (BitVec.intMin 64))).set o o' o'' n s ≠ .error .fault s' := by
    intro o o' o'' n s s' eq
    cases eq
  cases path with
  | div =>
    exact ⟨execute (idle .null) (fun _ => .null) (plain .diveq 0 1 2) _,
      .plain (Or.inl rfl) leftInt rightInt, by decide⟩
  | mod =>
    exact ⟨execute (idle .null) (fun _ => .null) (plain .modeq 0 1 2) _,
      .plain (Or.inr rfl) leftInt rightInt, by decide⟩
  | comparith remainder =>
    refine ⟨execute (idle (.integer (BitVec.intMin 64))) (fun _ => .null)
      (comparith (DivisionPath.comparith remainder).op 0 3 4 2) _,
      .comparith separate_idle rightInt rfl set, ?_⟩
    cases remainder <;> decide

/-- The least integer divided by -1. -/
theorem division_faults :
    faults (execute (idle .null) (fun _ => .null) (plain .diveq 0 1 2)
      (operands (BitVec.intMin 64) (-1))) = true ∧
    ¬ DivisionSafe .div (BitVec.intMin 64) (-1) := by
  refine ⟨by decide, fun ⟨r, safe⟩ => ?_⟩
  obtain ⟨result, ran, fault⟩ := overflow_faults .div
  rcases safe 0 Unit result ran with ⟨f, rfl⟩ | ⟨f, rfl, -⟩
  · cases fault
  · cases fault

theorem divisionSafe_iff (path : DivisionPath) (i1 i2 : BitVec 64) : DivisionSafe path i1 i2 ↔
    ¬ (i1 = BitVec.intMin 64 ∧ i2 = -1) ∧ ¬ (path = .mod ∧ i2 = 0) := by
  refine ⟨fun ⟨r, safe⟩ => ⟨?_, ?_⟩, fun ⟨noOverflow, nonzero⟩ => ?_⟩
  · rintro ⟨rfl, rfl⟩
    obtain ⟨result, ran, fault⟩ := overflow_faults path
    rcases safe 0 Unit result ran with ⟨f, rfl⟩ | ⟨f, rfl, -⟩
    · cases fault
    · cases fault
  · rintro ⟨rfl, rfl⟩
    have ran : Divided i1 0 .mod 0
        (execute (idle .null) (fun _ => .null) (plain .modeq 0 1 2) (operands i1 0)) :=
      .plain (Or.inr rfl) rfl rfl
    -- the error is dropped and the target keeps what it held
    have dropped : execute (idle .null) (fun _ => .null) (plain .modeq 0 1 2) (operands i1 0) =
        .ok ⟨⟩ { operands i1 0 with lasterror := .string "modulo by zero" } := rfl
    rw [dropped] at ran
    rcases safe 0 Unit _ ran with ⟨f, eq⟩ | ⟨f, eq, value⟩
    · cases eq
    · cases eq
      cases value
  · refine ⟨quotient path.op i1 i2, fun target World result ran => ?_⟩
    cases ran with
    | plain path_eq leftInt rightInt =>
      rcases path_eq with rfl | rfl
      · exact divided_div noOverflow leftInt rightInt
      · exact Or.inr (divided_mod noOverflow (fun zero => nonzero ⟨rfl, zero⟩) leftInt rightInt)
    | @comparith _ _ _ _ _ _ _ _ _ _ _ _ remainder separate valueInt read set =>
      refine divided_comparith ?_ noOverflow separate valueInt read set
      cases remainder
      · exact Or.inl rfl
      · exact Or.inr rfl

end Arithmetic

end Lavril
