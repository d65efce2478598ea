import Lavril.Allocation

/-!
# Every production stays within its frame

The triple of `Within` for each function of the compiler, by recursion on the
derivation, and what it says of a whole program: its registers are right exactly
when no function has more than 255 slots in use at once.
-/

namespace Lavril

open LVCompiler

section

variable {α β : Type} {lvl : Level} {L : FrameSize} {S : List Mark} {pre : Prop}

/-! ## The registers of what is emitted -/

theorem uses_target {i : LVInstruction} {n : Nat} (eq : i.registers = [(uchar n : Int)])
    (h : n < L.size) : i.Uses L := uses_one eq (FrameSize.has_byte h)

theorem uses_pair {i : LVInstruction} {n k : Nat} (eq : i.registers = [(uchar n : Int), (k : Int)])
    (hn : n < L.size) (hk : k < L.size) : i.Uses L :=
  uses_two eq (FrameSize.has_byte hn) (FrameSize.has hk)

theorem uses_operands {i : LVInstruction} {n k l : Nat}
    (eq : i.registers = [(uchar n : Int), (k : Int), (uchar l : Int)]) (hn : n < L.size)
    (hk : k < L.size) (hl : l < L.size) : i.Uses L :=
  uses_three eq (FrameSize.has_byte hn) (FrameSize.has hk) (FrameSize.has_byte hl)

theorem uses_optional {i : LVInstruction} {arg : Nat} {rs : List Int}
    (eq : i.registers = optionalRegister arg ++ rs) (h : L.Has arg) (hr : ∀ r ∈ rs, L.Has r) :
    i.Uses L := by
  rw [LVInstruction.Uses, eq, List.forall_mem_append]
  exact ⟨has_optional h, hr⟩

theorem UnaryOp.uses (op : UnaryOp) {n k : Nat} (hn : n < L.size) (hk : k < L.size) :
    (instruction op.opcode n k).Uses L := by
  cases op <;> exact uses_pair rfl hn hk

theorem AssignOp.uses (op : AssignOp) {n k l : Nat} (hn : n < L.size) (hk : k < L.size)
    (hl : l < L.size) : (instruction op.arithOp n k l 0).Uses L := by
  cases op <;> exact uses_operands rfl hn hk hl

theorem BinaryOp.uses (op : BinaryOp) {n k l : Nat} (hn : n < L.size) (hk : k < L.size)
    (hl : l < L.size) : (instruction op.opcode n k l op.op3).Uses L := by
  cases op <;> first
    | exact uses_operands rfl hn hk hl
    | exact uses_three rfl (FrameSize.has_byte hn) (FrameSize.has_byte hl) (FrameSize.has hk)

theorem uses_eq {n k l : Nat} (hn : n < L.size) (hk : k < L.size) (hl : l < L.size) :
    (instruction .OP_EQ n k l).Uses L :=
  uses_three rfl (FrameSize.has_byte hn) (FrameSize.has_byte hl) (FrameSize.has hk)

theorem uses_setouter {n l : Nat} {index : Int} (hn : n < L.size) (hl : l < L.size) :
    (instruction .OP_SETOUTER n index l).Uses L :=
  uses_optional rfl (FrameSize.has_byte hn)
    (List.forall_mem_singleton.mpr (FrameSize.has_byte hl))

theorem uses_call {n k l : Nat} {nargs : Int} (hn : n < L.size) (hk : k < L.size)
    (hl : l < L.size) : (instruction .OP_CALL n k l nargs).Uses L :=
  uses_optional rfl (FrameSize.has_byte hn) (by
    simpa using ⟨FrameSize.has hk, FrameSize.has_byte hl⟩)

/-- `COMPARITH` keeps two registers in one operand. -/
theorem uses_comparith {n src val l : Nat} {op : Int} (hn : n < L.size) (hs : src < L.size)
    (hv : val < L.size) (hl : l < L.size) :
    (instruction .OP_COMPARITH n (src <<< 16 ||| val : Nat) l op).Uses L := by
  have fits := L.fits
  rw [MAX_FUNC_STACKSIZE] at fits
  have packed : (src <<< 16 ||| val : Nat) = src * 0x10000 + val := by
    rw [← Nat.shiftLeft_add_eq_or_of_lt (by omega), Nat.shiftLeft_eq]
  rw [packed]
  refine uses_four rfl (FrameSize.has_byte hn) ?_ ?_ (FrameSize.has_byte hl)
  · have eq : ((src * 0x10000 + val : Nat) : Int) / 0x10000 = src := by omega
    exact eq ▸ FrameSize.has hs
  · have eq : ((src * 0x10000 + val : Nat) : Int) % 0x10000 = val := by omega
    exact eq ▸ FrameSize.has hv

/-! ## What the productions share -/

theorem within_moveIfCurrentTargetIsLocal : Within lvl L S pre moveIfCurrentTargetIsLocal :=
  .seq within_topTarget fun _ => .seq within_isLocal fun _ => .ite
    (.bind within_popTarget fun _ => .bind within_pushTarget fun _ =>
      within_addInstruction fun h => uses_pair rfl h.2 h.1.2)
    .done

theorem within_emitDerefOp {op : Opcode} (h : op = .OP_SET ∨ op = .OP_NEWSLOT) :
    Within lvl L S pre (emitDerefOp op) := by
  refine .bind within_popTarget fun val => .bind within_popTarget fun key =>
    .bind within_popTarget fun src => .bind within_pushTarget fun trg =>
    within_addInstruction fun known => ?_
  have rest : ∀ r ∈ [(src : Int), (uchar key : Int), (uchar val : Int)], L.Has r := by
    simpa using ⟨FrameSize.has known.1.2, FrameSize.has_byte known.1.1.2,
      FrameSize.has_byte known.1.1.1.2⟩
  rcases h with rfl | rfl <;> exact uses_optional rfl (FrameSize.has_byte known.2) rest

theorem within_emit2ArgsOP {op : Opcode} {p3 : Int}
    (eq : ∀ n k l : Int, (instruction op n k l p3).registers = [(uchar n : Int), k, (uchar l : Int)]) :
    Within lvl L S pre (emit2ArgsOP op p3) :=
  .bind within_popTarget fun _ => .bind within_popTarget fun _ => .bind within_pushTarget fun _ =>
    within_addInstruction fun h => uses_operands (eq _ _ _) h.2 h.1.2 h.1.1.2

theorem within_loadConstant {cons : LVObject} : Within lvl L S pre (loadConstant cons) :=
  .bind within_pushTarget fun _ => .seq within_getConstant fun _ =>
    within_addInstruction fun h => uses_target rfl h.2

theorem within_emitLoadConstInt {value : Int} {target : Nat} (h : pre → target < L.size) :
    Within lvl L S pre (emitLoadConstInt value target) :=
  .ite (within_addInstruction fun known => uses_target rfl (h known))
    (.seq within_getConstant fun _ => within_addInstruction fun known => uses_target rfl (h known))

theorem within_emitLoadConstFloat {bits : Int} {target : Nat} (h : pre → target < L.size) :
    Within lvl L S pre (emitLoadConstFloat bits target) :=
  within_addInstruction fun known => uses_target rfl (h known)

theorem within_emitCompoundArith {op : AssignOp} {ds : ExpType} {pos : Int} :
    Within lvl L S pre (emitCompoundArith op ds pos) := by
  cases ds with
  | EXPR => exact .done
  | OBJECT | BASE =>
    exact .bind within_popTarget fun _ => .bind within_popTarget fun _ =>
      .bind within_popTarget fun _ => .bind within_pushTarget fun _ =>
      within_addInstruction fun h => uses_comparith h.2 h.1.2 h.1.1.1.2 h.1.1.2
  | LOCAL =>
    exact .bind within_popTarget fun _ => .bind within_popTarget fun _ =>
      .seq (within_pushTargetAt fun h => h.2) fun _ =>
      .seq (within_addInstruction fun h => op.uses h.2 h.1.2 h.2) fun _ => within_snoozeOpt
  | OUTER =>
    exact .bind within_topTarget fun _ => .bind within_pushTarget fun _ =>
      .seq (within_addInstruction fun h => uses_target rfl h.2) fun _ =>
      .seq (within_addInstruction fun h => op.uses h.2 h.1.2 h.2) fun _ =>
      .seq within_popTarget fun _ => .seq within_popTarget fun _ =>
      .bind within_pushTarget fun _ => within_addInstruction fun h => uses_setouter h.2 h.1.2

theorem within_emitAssign {op : AssignOp} {ds : ExpType} {pos : Int} :
    Within lvl L S pre (emitAssign op ds pos) := by
  cases op with
  | newslot => cases ds <;> first | exact within_emitDerefOp (.inr rfl) | exact .fail
  | assign =>
    cases ds with
    | EXPR => exact .done
    | OBJECT | BASE => exact within_emitDerefOp (.inl rfl)
    | LOCAL =>
      exact .bind within_popTarget fun _ => .bind within_topTarget fun _ =>
        within_addInstruction fun h => uses_pair rfl h.2 h.1.2
    | OUTER =>
      exact .bind within_popTarget fun _ => .bind within_pushTarget fun _ =>
        within_addInstruction fun h => uses_setouter h.2 h.1.2
  | minuseq | pluseq | muleq | diveq | modeq => exact within_emitCompoundArith

theorem within_checkAssignable {ds : ExpType} : Within lvl L S pre (checkAssignable ds) := by
  cases ds <;> first | exact .fail | exact .done

theorem within_emitBinary {op : BinaryOp} : Within lvl L S pre (emitBinary op) :=
  .bind within_popTarget fun _ => .bind within_popTarget fun _ => .bind within_pushTarget fun _ =>
    within_addInstruction fun h => op.uses h.2 h.1.1.2 h.1.2

theorem within_get2Args : Within lvl L S pre (emit2ArgsOP .OP_GET) :=
  within_emit2ArgsOP fun _ _ _ => rfl

theorem within_emitAccess {next : Lookahead} : Within lvl L S pre (emitAccess next) := by
  have object : Within lvl L S pre (setEtype .OBJECT) := within_setEtype
  exact .seq within_getEs fun _ => .ite
    (.seq within_get2Args fun _ => .seq within_topTarget fun _ => within_setEs)
    (.ite (.seq within_get2Args fun _ => object) object)

theorem within_emitPostfix {diff : Int} : Within lvl L S pre (emitPostfix diff) := by
  refine .seq within_getEs fun es => ?_
  cases es.etype with
  | EXPR => exact .fail
  | OBJECT | BASE => exact .ite .fail (within_emit2ArgsOP fun _ _ _ => rfl)
  | LOCAL =>
    exact .bind within_popTarget fun _ => .bind within_pushTarget fun _ =>
      within_addInstruction fun h => uses_pair rfl h.2 h.1.2
  | OUTER =>
    exact .bind within_pushTarget fun _ => .bind within_pushTarget fun _ =>
      .seq (within_addInstruction fun h => uses_target rfl h.2) fun _ =>
      .seq (within_addInstruction fun h => uses_pair rfl h.1.2 h.2) fun _ =>
      .seq (within_addInstruction fun h => uses_setouter h.2 h.2) fun _ =>
      .seq within_popTarget fun _ => .done

theorem within_emitPrepareCall : Within lvl L S pre emitPrepareCall := by
  have plain : ∀ {pre}, Within lvl L S pre (setEtype .EXPR) := within_setEtype
  have this : ∀ {pre} {n : Nat}, (pre → n < L.size) →
      Within lvl L S pre (addInstruction .OP_MOVE n 0) := fun h =>
    within_addInstruction fun known =>
      uses_two rfl (FrameSize.has_byte (h known)) (FrameSize.has (n := 0) L.this)
  refine .seq within_getEs fun es => ?_
  cases es.etype with
  | OBJECT =>
    refine .bind within_popTarget fun key => .bind within_popTarget fun table =>
      .bind within_pushTarget fun closure => .bind within_pushTarget fun ttarget =>
      .seq (within_addInstruction fun h => ?_) fun _ => plain
    exact uses_four rfl (FrameSize.has_byte h.1.2) (FrameSize.has h.1.1.1.2)
      (FrameSize.has_byte h.1.1.2) (FrameSize.has_byte h.2)
  | OUTER =>
    exact .bind within_pushTarget fun _ =>
      .seq (within_addInstruction fun h => uses_target rfl h.2) fun _ =>
      .bind within_pushTarget fun _ => .seq (this fun h => h.2) fun _ => plain
  | EXPR | BASE | LOCAL =>
    exact .bind within_pushTarget fun _ => .seq (this fun h => h.2) fun _ => plain

theorem within_popTargets (n : Nat) : Within lvl L S pre (popTargets n) := by
  induction n with
  | zero => exact .done
  | succ n ih => exact .seq within_popTarget fun _ => ih

theorem within_emitCall {nargs : Nat} : Within lvl L S pre (emitCall nargs) :=
  .seq (within_popTargets _) fun _ => .bind within_popTarget fun _ => .bind within_popTarget fun _ =>
    .bind within_pushTarget fun _ => within_addInstruction fun h => uses_call h.2 h.1.2 h.1.1.2

theorem within_constantValue {id : String} {key : Option String} {constant : Constant} :
    Within lvl L S pre (constantValue id key constant) := by
  cases constant with
  | scalar val => exact .done
  | table entries =>
    cases key with
    | none => exact .fail
    | some key =>
      simp only [constantValue]
      split
      · exact .done
      · exact .fail

theorem within_emitConstantValue {constval : LVObject} {epos : Nat} (h : pre → epos < L.size) :
    Within lvl L S pre (emitConstantValue constval epos) := by
  unfold emitConstantValue
  split
  · exact within_emitLoadConstInt h
  · exact within_emitLoadConstFloat h
  · exact within_addInstruction fun known => uses_target rfl (h known)
  · exact .seq within_getConstant fun _ =>
      within_addInstruction fun known => uses_target rfl (h known)

theorem within_identifier {id : String} {next : Lookahead} {key : Option String} :
    Within lvl L S pre (identifier id next key) := by
  refine .bind within_getLocalVariable fun pos => ?_
  cases pos with
  | some pos =>
    exact .seq (within_pushTargetAt fun h => h.2 pos rfl) fun _ => .seq within_setEtype fun _ =>
      .seq within_setEpos fun _ => .done
  | none =>
  refine .seq within_getOuterVariable fun pos => ?_
  cases pos with
  | some pos =>
    refine .seq within_getEs fun es => .ite ?_ ?_
    · exact .bind within_pushTarget fun _ => .seq within_setEpos fun _ =>
        .seq (within_addInstruction fun h => uses_target rfl h.2) fun _ => .done
    · exact .seq within_setEtype fun _ => .seq within_setEpos fun _ => .done
  | none =>
  refine .seq within_isConstant fun constant => ?_
  cases constant with
  | some constant =>
    refine .seq within_constantValue fun r => .bind within_pushTarget fun _ =>
      .seq within_setEpos fun _ => .seq (within_emitConstantValue fun h => h.2) fun _ =>
      .seq within_setEtype fun _ => ?_
    exact .done
  | none =>
    refine .seq (within_pushTargetAt fun _ => L.this) fun _ => .seq within_loadConstant fun _ =>
      .seq within_getEs fun _ => ?_
    exact .ite (.seq within_get2Args fun _ => .seq within_setEtype fun _ => .done)
      (.seq within_setEtype fun _ => .done)

theorem within_emitMember {isclass isstatic : Bool} :
    Within lvl L S pre (emitMember isclass isstatic) :=
  .bind within_popTarget fun _ => .bind within_popTarget fun _ => .bind within_topTarget fun _ =>
    .ite (within_addInstruction fun h => uses_three rfl (FrameSize.has h.2)
        (FrameSize.has_byte h.1.2) (FrameSize.has_byte h.1.1.2))
      (within_addInstruction fun h => uses_three rfl (FrameSize.has h.2)
        (FrameSize.has_byte h.1.2) (FrameSize.has_byte h.1.1.2))

theorem within_emitClosure {lambda : Bool} : Within lvl L S pre (emitClosure lambda) :=
  .bind within_pushTarget fun _ => .seq .get fun _ =>
    within_addInstruction fun h => uses_target rfl h.2

theorem within_functionPath (id : String) (path : List String) :
    Within lvl L S pre (functionPath id path) := by
  induction path generalizing id with
  | nil => exact within_loadConstant
  | cons next path ih =>
    exact .seq within_loadConstant fun _ => .seq within_get2Args fun _ => ih next

theorem within_invokeExp {f : CompilerM Unit} (h : Within lvl L S pre f) :
    Within lvl L S pre (invokeExp f) :=
  .seq within_getEs fun _ => .seq within_setEs fun _ => .seq h fun _ => within_setEs

theorem within_move {n k : Nat} (hn : pre → n < L.size) (hk : pre → k < L.size) :
    Within lvl L S pre (addInstruction .OP_MOVE n k) :=
  within_addInstruction fun known => uses_pair rfl (hn known) (hk known)

theorem within_shortCircuit {op : Opcode} {second : CompilerM Unit}
    (h : op = .OP_OR ∨ op = .OP_AND) (hs : ∀ S pre, Within lvl L S pre second) :
    Within lvl L S pre (shortCircuit op second) := by
  have offset : ∀ trg first : Nat, (instruction op trg 0 first 0).offset = true := by
    intro trg first
    rcases h with rfl | rfl <;> rfl
  refine .bind within_popTarget fun first_exp => .bind within_pushTarget fun trg =>
    .mark (within_emit (offset trg first_exp) fun known => ?_) fun jpos =>
    .guarded (within_move (fun known => known.1.2) fun known => known.1.1.2) ?_
  · rcases h with rfl | rfl <;>
      exact uses_two rfl (FrameSize.has_byte known.2) (FrameSize.has_byte known.1.2)
  · refine .seq (within_invokeExp (hs _ _)) fun _ => .seq within_snoozeOpt fun _ =>
      .bind within_popTarget fun second_exp =>
      .guarded (within_move (fun known => known.1.1.2) fun known => known.2) ?_
    exact .seq within_snoozeOpt fun _ => .seq within_getCurrentPos fun _ =>
      within_setArg1 (.head _)

theorem within_moveToTarget {trg : Nat} (h : pre → trg < L.size) :
    Within lvl L S pre (moveToTarget trg) :=
  .bind within_popTarget fun _ => .ite (within_move (fun known => h known.1) fun known => known.2)
    .done

theorem within_emitDeclarator {name : String} : Within lvl L S pre (emitDeclarator name) :=
  .seq within_popTarget fun _ => .seq within_pushLocalVariable fun _ => .done

theorem within_jz {n : Nat} (h : pre → n < L.size) :
    Within lvl L S pre (emit .OP_JZ n 0) (fun _ => True) fun pos => [⟨pos, false⟩] :=
  within_emit rfl fun known => uses_target rfl (h known)

theorem within_jmp {a1 : Int} :
    Within lvl L S pre (emit .OP_JMP 0 a1) (fun _ => True) fun pos => [⟨pos, true⟩] :=
  within_emit rfl fun _ => uses_jump rfl

theorem within_emitCaseTest {expr : Nat} (h : pre → expr < L.size) :
    Within lvl L S pre (emitCaseTest expr) (fun _ => True) fun pos => [⟨pos, false⟩] := by
  refine .bind within_popTarget fun trg => .seq within_isLocal fun islocal => .ite ?_ ?_
  · exact .bind within_pushTarget fun _ =>
      .seq (within_addInstruction fun known => uses_eq known.2 known.1.2 (h known.1.1)) fun _ =>
      .mark (within_jz fun known => known.2) fun jz => .seq within_popTarget fun _ =>
      .pure (fun _ => trivial) (by simp)
  · exact .seq (within_addInstruction fun known => uses_eq known.2 known.2 (h known.1)) fun _ =>
      within_jz fun known => known.2

/-! ## Statements -/

theorem within_popTrap {n : Int} : Within lvl L S pre (addInstruction .OP_POPTRAP n 0) :=
  within_addInstruction fun _ r mem => by cases mem

theorem uses_returned {op : Opcode} {src : Nat} {size : Int} (h : op = .OP_RETURN ∨ op = .OP_YIELD)
    (lt : src < L.size) : (instruction op 1 src size).Uses L := by
  rcases h with rfl | rfl
  · exact uses_one rfl (FrameSize.has lt)
  · have named : (instruction .OP_YIELD 1 src size).registers =
        if (src : Int) = MAX_FUNC_STACKSIZE then [] else [(src : Int)] := rfl
    rw [LVInstruction.Uses, named]
    split
    · exact List.forall_mem_nil _
    · exact List.forall_mem_singleton.mpr (FrameSize.has lt)

theorem uses_nothing {op : Opcode} {size : Int} (h : op = .OP_RETURN ∨ op = .OP_YIELD) :
    (instruction op 0xFF 0 size).Uses L := by
  rcases h with rfl | rfl
  · intro r mem
    cases mem
  · exact uses_one rfl (FrameSize.has (n := 0) L.this)

theorem within_emitReturn {op : Opcode} {retexp : Option Int} (h : op = .OP_RETURN ∨ op = .OP_YIELD) :
    Within lvl L S pre (emitReturn op retexp) := by
  refine .seq .get fun c => .guarded within_popTrap ?_
  cases retexp with
  | some retexp =>
    exact .seq (.updateSlack fun _ => ⟨le_refl _, rfl, rfl, rfl, rfl, rfl, rfl⟩) fun _ =>
      .bind within_popTarget fun _ => .seq .get fun _ =>
      within_addInstruction fun known => uses_returned h known.2
  | none =>
    exact .seq (.updateSlack fun _ => ⟨le_refl _, rfl, rfl, rfl, rfl, rfl, rfl⟩) fun _ =>
      .seq .get fun _ => within_addInstruction fun _ => uses_nothing h

theorem within_emitBreak : Within .statement L S pre emitBreak := by
  refine .seq .get fun c => ?_
  split
  · exact .fail
  · refine .guarded within_popTrap ?_
    exact .seq within_resolveOuters fun _ => .mark within_jmp fun pos => within_addBreak (.head _)

theorem within_emitContinue : Within .statement L S pre emitContinue := by
  refine .seq .get fun c => ?_
  split
  · exact .fail
  · refine .guarded within_popTrap ?_
    exact .seq within_resolveOuters fun _ => .mark within_jmp fun pos =>
      within_addContinue (.head _)

/-- A jump back, which is complete. -/
theorem within_jump {a1 : Int} : Within lvl L S pre (addInstruction .OP_JMP 0 a1) :=
  within_addInstruction fun _ => uses_jump rfl

theorem within_pushtrap : Within lvl L S pre (emit .OP_PUSHTRAP 0 0) (fun _ => True)
    fun pos => [⟨pos, false⟩] :=
  within_emit rfl fun _ => @uses_target L _ 0 rfl L.this

/-- A class and the register of its base. -/
theorem uses_class {n k : Nat} {abstract : Int} (hn : n < L.size) (hk : k < L.size) :
    (instruction .OP_NEWOBJ n k abstract NOT_CLASS).Uses L := by
  refine uses_two ?_ (FrameSize.has_byte hn) (FrameSize.has hk)
  have base : (k : Int) ≠ -1 := by omega
  simp [LVInstruction.registers, instruction, base]
  decide

/-! ## The parameters of a function -/

theorem blank_this : Blank ((FunctionState.new true).addParameter "this") :=
  addParameter_blank "this" rfl rfl rfl rfl rfl

theorem Blank.vargv {fs : FunctionState} (blank : Blank fs) :
    Blank { fs.addParameter "vargv" with varparams := true } :=
  { blank.addParameter "vargv" with }

theorem params_blank {funcstate : FunctionState} {c c' : LVCompiler} {r : FunctionState × Nat}
    (ps : List Param) (blank : Blank funcstate) (run : params funcstate ps c = .ok (r, c')) :
    Blank r.1 := by
  induction ps generalizing funcstate c c' r with
  | nil =>
    unfold params at run
    obtain ⟨rfl, -⟩ := pure_ok.mp run
    exact blank
  | cons p rest ih =>
    unfold params at run
    obtain ⟨⟨funcstate₁, n⟩, c₁, first, run⟩ := bind_ok.mp run
    obtain ⟨⟨funcstate₂, m⟩, c₂, second, run⟩ := bind_ok.mp run
    obtain ⟨rfl, -⟩ := pure_ok.mp run
    have next : Blank funcstate₁ → Blank funcstate₂ := fun blank₁ => ih blank₁ second
    refine next ?_
    obtain ⟨name, default⟩ := p
    unfold param at first
    cases default with
    | none =>
      obtain ⟨eq, -⟩ := pure_ok.mp first
      cases eq
      exact blank.addParameter name
    | some e =>
      obtain ⟨_, c₃, -, first⟩ := bind_ok.mp first
      obtain ⟨_, c₄, -, first⟩ := bind_ok.mp first
      obtain ⟨eq, -⟩ := pure_ok.mp first
      cases eq
      exact { blank.addParameter name with }

end

/-! ## The productions -/

mutual

theorem within_expression {lvl : Level} {L : FrameSize} {S : List Mark} {pre : Prop} :
    (e : Expression) → Within lvl L S pre (expression e)
  | .plain e => by
    unfold expression
    exact .seq within_getEs fun _ => .seq within_setEs fun _ =>
      .seq (within_logicalOrExp _ e) fun _ => within_setEs
  | .assign target op value => by
    unfold expression
    exact .seq within_getEs fun _ => .seq within_setEs fun _ =>
      .seq (within_logicalOrExp _ target) fun _ => .seq within_getEs fun _ =>
      .seq within_checkAssignable fun _ => .seq (within_expression value) fun _ =>
      .seq within_emitAssign fun _ => within_setEs
  | .cond test first second => by
    unfold expression
    exact .seq within_getEs fun _ => .seq within_setEs fun _ =>
      .seq (within_logicalOrExp _ test) fun _ => .bind within_popTarget fun _ =>
      .mark (within_jz fun h => h.2) fun jzpos => .bind within_pushTarget fun _ =>
      .seq (within_expression first) fun _ => .seq (within_moveToTarget fun h => h.2) fun _ =>
      .seq within_getCurrentPos fun _ => .mark within_jmp fun jmppos =>
      .seq (within_expression second) fun _ => .seq (within_moveToTarget fun h => h.1.2) fun _ =>
      .seq within_getCurrentPos fun _ => .seq (within_setArg1 (.head _)) fun _ =>
      .seq (within_setArg1 (.tail _ (.head _))) fun _ => .seq within_snoozeOpt fun _ => within_setEs

theorem within_logicalOrExp {lvl : Level} {L : FrameSize} {S : List Mark} {pre : Prop}
    (next : Lookahead) :
    (e : LogicalOrExp) → Within lvl L S pre (logicalOrExp next e)
  | .or first second => by
    unfold logicalOrExp
    exact .seq (within_logicalOrExp _ first) fun _ =>
      within_shortCircuit (.inl rfl) fun _ _ => within_logicalOrExp next second
  | .and first second => by
    unfold logicalOrExp
    exact .seq (within_logicalOrExp _ first) fun _ =>
      within_shortCircuit (.inr rfl) fun _ _ => within_logicalOrExp next second
  | .bin op left right => by
    unfold logicalOrExp
    exact .seq (within_logicalOrExp _ left) fun _ =>
      .seq (within_invokeExp (within_logicalOrExp next right)) fun _ => within_emitBinary
  | .prefixed e => by
    unfold logicalOrExp
    exact within_prefixedExpr next e

theorem within_prefixedExpr {lvl : Level} {L : FrameSize} {S : List Mark} {pre : Prop}
    (next : Lookahead) :
    (e : PrefixedExpr) → Within lvl L S pre (prefixedExpr next e)
  | .mk f suffixes incdec => by
    unfold prefixedExpr
    refine .seq (within_factor _ _ f) fun read => .seq (within_suffixLoop next incdec read suffixes)
      fun _ => ?_
    cases incdec with
    | none => exact .done
    | some diff => exact within_emitPostfix

theorem within_suffixLoop {lvl : Level} {L : FrameSize} {S : List Mark} {pre : Prop}
    (next : Lookahead)
    (incdec : Option Int) : (read : Bool) → (suffixes : List Suffix) →
      Within lvl L S pre (suffixLoop next incdec read suffixes)
  | _, [] => by
    unfold suffixLoop
    exact .done
  | true, _ :: rest => by
    unfold suffixLoop
    exact within_suffixLoop next incdec false rest
  | false, suffix :: rest => by
    unfold suffixLoop
    exact .seq (within_applySuffix _ suffix) fun _ => within_suffixLoop next incdec false rest

theorem within_applySuffix {lvl : Level} {L : FrameSize} {S : List Mark} {pre : Prop}
    (next : Lookahead) :
    (suffix : Suffix) → Within lvl L S pre (applySuffix next suffix)
  | .field id => by
    unfold applySuffix
    exact .seq within_loadConstant fun _ => within_emitAccess
  | .index key => by
    unfold applySuffix
    exact .seq (within_expression key) fun _ => within_emitAccess
  | .arrow id => by
    unfold applySuffix
    exact .seq within_loadConstant fun _ => within_emitAccess
  | .call args => by
    unfold applySuffix
    exact .seq within_emitPrepareCall fun _ => .seq (within_functionCallArgs args) fun _ =>
      within_emitCall

theorem within_functionCallArgs {lvl : Level} {L : FrameSize} {S : List Mark} {pre : Prop} :
    (args : List Expression) → Within lvl L S pre (functionCallArgs args)
  | [] => by
    unfold functionCallArgs
    exact .done
  | e :: rest => by
    unfold functionCallArgs
    exact .seq (within_expression e) fun _ => .seq within_moveIfCurrentTargetIsLocal fun _ =>
      .seq (within_functionCallArgs rest) fun _ => .done

theorem within_factor {lvl : Level} {L : FrameSize} {S : List Mark} {pre : Prop}
    (next : Lookahead)
    (key : Option String) : (f : Factor) → Within lvl L S pre (factor next key f)
  | .stringLiteral text => by
    unfold factor
    exact .seq within_loadConstant fun _ => .seq within_setEtype fun _ => .done
  | .base => by
    unfold factor
    exact .bind within_pushTarget fun _ =>
      .seq (within_addInstruction fun h => uses_target rfl h.2) fun _ =>
      .seq within_setEtype fun _ => .seq within_topTarget fun _ => .seq within_setEpos fun _ =>
      .done
  | .identifier id => by
    unfold factor
    exact within_identifier
  | .doubleColon => by
    unfold factor
    exact .bind within_pushTarget fun _ =>
      .seq (within_addInstruction fun h => uses_target rfl h.2) fun _ =>
      .seq within_setEtype fun _ => .seq within_setEpos fun _ => .done
  | .null => by
    unfold factor
    exact .bind within_pushTarget fun _ =>
      .seq (within_addInstruction fun h => uses_null h.2) fun _ =>
      .seq within_setEtype fun _ => .done
  | .integer value => by
    unfold factor
    exact .bind within_pushTarget fun _ => .seq (within_emitLoadConstInt fun h => h.2) fun _ =>
      .seq within_setEtype fun _ => .done
  | .float bits => by
    unfold factor
    exact .bind within_pushTarget fun _ => .seq (within_emitLoadConstFloat fun h => h.2) fun _ =>
      .seq within_setEtype fun _ => .done
  | .bool value => by
    unfold factor
    exact .bind within_pushTarget fun _ =>
      .seq (within_addInstruction fun h => uses_target rfl h.2) fun _ =>
      .seq within_setEtype fun _ => .done
  | .array elements => by
    unfold factor
    exact .bind within_pushTarget fun _ =>
      .mark (within_emit rfl fun h => uses_target rfl h.2) fun apos =>
      .seq (within_arrayElements elements) fun _ => .seq (within_setArg1 (.head _)) fun _ =>
      .seq within_setEtype fun _ => .done
  | .table ms => by
    unfold factor
    exact .bind within_pushTarget fun _ =>
      .mark (within_emit rfl fun h => uses_target rfl h.2) fun tpos =>
      .seq (within_members false ms) fun _ => .seq (within_setArg1 (.head _)) fun _ =>
      .seq within_setEtype fun _ => .done
  | .function f => by
    unfold factor
    exact .seq (within_createFunction f) fun _ => .seq within_emitClosure fun _ =>
      .seq within_setEtype fun _ => .done
  | .lambda f => by
    unfold factor
    exact .seq (within_createFunction f) fun _ => .seq within_emitClosure fun _ =>
      .seq within_setEtype fun _ => .done
  | .class c => by
    unfold factor
    exact .seq (within_classExp _ c) fun _ => .seq within_setEtype fun _ => .done
  | .unary op e => by
    unfold factor
    exact .seq (within_prefixedExpr next e) fun _ => .bind within_popTarget fun _ =>
      .bind within_pushTarget fun _ => .seq (within_addInstruction fun h => op.uses h.2 h.1.2) fun _ =>
      .seq within_setEtype fun _ => .done
  | .prefixIncDec diff e => by
    unfold factor
    refine .seq within_getEs fun es => .seq within_setEs fun _ => .seq (within_prefixedExpr next e)
      fun _ => .seq within_getEs fun inner => ?_
    have rest : ∀ {pre}, Within lvl L S pre (do setEs es; setEtype .EXPR; return false) :=
      .seq within_setEs fun _ => .seq within_setEtype fun _ => .done
    cases inner.etype with
    | EXPR => exact .seq (P := fun _ => True) .fail fun _ => rest
    | OBJECT | BASE => exact .seq (within_emit2ArgsOP fun _ _ _ => rfl) fun _ => rest
    | LOCAL =>
      exact .bind within_topTarget fun _ =>
        .seq (within_addInstruction fun h => uses_one rfl (FrameSize.has h.2)) fun _ => rest
    | OUTER =>
      exact .bind within_pushTarget fun _ =>
        .seq (within_addInstruction fun h => uses_target rfl h.2) fun _ =>
        .seq (within_addInstruction fun h => uses_one rfl (FrameSize.has h.2)) fun _ =>
        .seq (within_addInstruction fun h => uses_setouter h.2 h.2) fun _ => rest
  | .delete e => by
    unfold factor
    refine .seq within_getEs fun es => .seq within_setEs fun _ => .seq (within_prefixedExpr next e)
      fun _ => .seq within_getEs fun inner => ?_
    have rest : ∀ {pre}, Within lvl L S pre (do setEs es; setEtype .EXPR; return false) :=
      .seq within_setEs fun _ => .seq within_setEtype fun _ => .done
    cases inner.etype with
    | OBJECT | BASE => exact .seq (within_emit2ArgsOP fun _ _ _ => rfl) fun _ => rest
    | EXPR | LOCAL | OUTER => exact .seq (P := fun _ => True) .fail fun _ => rest
  | .paren e => by
    unfold factor
    exact .seq (within_commaExpr e) fun _ => .seq within_setEtype fun _ => .done

theorem within_arrayElements {lvl : Level} {L : FrameSize} {S : List Mark} {pre : Prop} :
    (elements : List Expression) → Within lvl L S pre (arrayElements elements)
  | [] => by
    unfold arrayElements
    exact .done
  | e :: rest => by
    unfold arrayElements
    exact .seq (within_expression e) fun _ => .bind within_popTarget fun _ =>
      .bind within_topTarget fun _ =>
      .seq (within_addInstruction fun h =>
        uses_two rfl (FrameSize.has_byte h.2) (FrameSize.has h.1.2)) fun _ =>
      .seq (within_arrayElements rest) fun _ => .done

theorem within_commaExpr {lvl : Level} {L : FrameSize} {S : List Mark} {pre : Prop} :
    (e : CommaExpr) → Within lvl L S pre (commaExpr e)
  | .last e => by
    unfold commaExpr
    exact within_expression e
  | .cons e rest => by
    unfold commaExpr
    exact .seq (within_expression e) fun _ => .seq within_popTarget fun _ => within_commaExpr rest

theorem within_members {lvl : Level} {L : FrameSize} {S : List Mark} {pre : Prop}
    (isclass : Bool) :
    (ms : List Member) → Within lvl L S pre (members isclass ms)
  | [] => by
    unfold members
    exact .done
  | m :: rest => by
    unfold members
    exact .seq (within_member m) fun _ => .seq within_emitMember fun _ =>
      .seq (within_members isclass rest) fun _ => .done

theorem within_member {lvl : Level} {L : FrameSize} {S : List Mark} {pre : Prop} :
    (m : Member) → Within lvl L S pre (member m)
  | .method isstatic id f => by
    unfold member
    exact .seq within_loadConstant fun _ => .seq (within_createFunction f) fun _ =>
      .seq within_emitClosure fun _ => .done
  | .computed isstatic key value => by
    unfold member
    exact .seq (within_commaExpr key) fun _ => .seq (within_expression value) fun _ => .done
  | .named isstatic key value => by
    unfold member
    exact .seq within_loadConstant fun _ => .seq (within_expression value) fun _ => .done

theorem within_classExp {lvl : Level} {L : FrameSize} {S : List Mark} {pre : Prop}
    (abstract : Int) :
    (c : ClassDef) → Within lvl L S pre (classExp abstract c)
  | .mk none ms => by
    unfold classExp
    exact .bind within_pushTarget fun _ =>
      .seq (within_addInstruction fun h => uses_target rfl h.2) fun _ =>
      .seq (within_members true ms) fun _ => .done
  | .mk (some e) ms => by
    unfold classExp
    exact .seq (within_expression e) fun _ => .bind within_topTarget fun _ =>
      .seq within_popTarget fun _ => .bind within_pushTarget fun _ =>
      .seq (within_addInstruction fun h => uses_class h.2 h.1.2) fun _ =>
      .seq (within_members true ms) fun _ => .done

theorem within_createFunction {lvl : Level} {L : FrameSize} {S : List Mark} {pre : Prop} :
    (f : FunctionDef) → Within lvl L S pre (createFunction f)
  | .mk ps varparams body endline => by
    unfold createFunction
    refine .known (fun c r c' run => params_blank ps blank_this run) (within_params _ ps)
      fun r blank => .seq (within_popTargets _) fun _ => ?_
    refine within_nested ?_ (emits_functionBody body) fun _ => within_functionBody body
    split
    · exact blank.vargv
    · exact blank

theorem within_params {lvl : Level} {L : FrameSize} {S : List Mark} {pre : Prop}
    (funcstate : FunctionState) :
    (ps : List Param) → Within lvl L S pre (params funcstate ps)
  | [] => by
    unfold params
    exact .done
  | p :: rest => by
    unfold params
    exact .seq (within_param funcstate p) fun r => .seq (within_params r.1 rest) fun r' => .done

theorem within_param {lvl : Level} {L : FrameSize} {S : List Mark} {pre : Prop}
    (funcstate : FunctionState) :
    (p : Param) → Within lvl L S pre (param funcstate p)
  | .mk name none => by
    unfold param
    exact .done
  | .mk name (some e) => by
    unfold param
    exact .seq (within_expression e) fun _ => .seq within_topTarget fun _ => .done

theorem within_functionBody {L : FrameSize} {S : List Mark} {pre : Prop} :
    (body : FunctionBody) → Within .statement L S pre (functionBody body)
  | .statement body => by
    unfold functionBody
    exact within_statement false body
  | .expression e => by
    unfold functionBody
    exact .seq (within_expression e) fun _ => .bind within_popTarget fun _ =>
      within_addInstruction fun h => uses_one rfl (FrameSize.has h.2)

theorem within_statement {L : FrameSize} {S : List Mark} {pre : Prop} (closeframe : Bool) :
    (s : Statement) → Within .statement L S pre (statement closeframe s)
  | .mk line kind => by
    unfold statement
    exact .seq .get fun _ => .seq within_addLineInfos fun _ =>
      .seq (within_statementKind closeframe kind) fun _ => within_snoozeOpt

theorem within_statements {L : FrameSize} {S : List Mark} {pre : Prop} :
    (body : List Statement) → Within .statement L S pre (statements body)
  | [] => by
    unfold statements
    exact .done
  | s :: rest => by
    unfold statements
    exact .seq (within_statement true s) fun _ => within_statements rest

theorem within_statementKind {L : FrameSize} {S : List Mark} {pre : Prop} (closeframe : Bool) :
    (kind : StatementKind) → Within .statement L S pre (statementKind closeframe kind)
  | .empty => by
    unfold statementKind
    exact .done
  | .ifThen cond block => by
    unfold statementKind
    exact .seq (within_commaExpr cond) fun _ => .bind within_popTarget fun _ =>
      .mark (within_jz fun h => h.2) fun jnepos => .seq (within_ifBlock block) fun _ =>
      .seq within_getCurrentPos fun _ => within_setArg1 (.head _)
  | .ifElse cond block else_ => by
    unfold statementKind
    exact .seq (within_commaExpr cond) fun _ => .bind within_popTarget fun _ =>
      .mark (within_jz fun h => h.2) fun jnepos => .seq (within_ifBlock block) fun _ =>
      .seq within_getCurrentPos fun _ => .mark within_jmp fun jmppos =>
      .seq (within_ifBlock else_) fun _ => .seq within_getCurrentPos fun _ =>
      .seq (within_setArg1 (.head _)) fun _ => within_setArg1 (.tail _ (.head _))
  | .while cond body => by
    unfold statementKind
    exact .seq within_getCurrentPos fun _ => .seq (within_commaExpr cond) fun _ =>
      .seq within_beginBreakableBlock fun start => .bind within_popTarget fun _ =>
      .mark (within_jz fun h => h.2) fun jzpos => .seq within_beginScope fun _ =>
      .seq (within_statement true body) fun _ => .seq within_endScope fun _ =>
      .seq within_getCurrentPos fun _ => .seq within_jump fun _ =>
      .seq within_getCurrentPos fun _ => .seq (within_setArg1 (.head _)) fun _ =>
      within_endBreakableBlock
  | .doWhile body cond => by
    unfold statementKind
    exact .seq within_getCurrentPos fun _ => .seq within_beginBreakableBlock fun start =>
      .seq within_beginScope fun _ => .seq (within_statement true body) fun _ =>
      .seq within_endScope fun _ => .seq within_getCurrentPos fun _ =>
      .seq (within_commaExpr cond) fun _ => .bind within_popTarget fun _ =>
      .seq (within_addInstruction fun h => uses_target rfl h.2) fun _ =>
      .seq within_getCurrentPos fun _ => .seq within_jump fun _ => within_endBreakableBlock
  | .for init cond inc body => by
    unfold statementKind
    refine .seq within_beginScope fun _ => .seq (within_forInit init) fun _ =>
      .seq within_snoozeOpt fun _ => .seq within_getCurrentPos fun _ =>
      .mark (within_forCond cond) fun jzpos => .seq within_snoozeOpt fun _ =>
      .taken (within_forInc inc) fun exp => ?_
    refine .seq within_beginBreakableBlock fun start => .seq (within_statement true body) fun _ =>
      .seq within_getCurrentPos fun _ => .seq (within_replay fun h => h.2) fun _ =>
      .seq within_getCurrentPos fun _ => .seq within_jump fun _ => ?_
    have rest : ∀ {S pre} scope target, Within .statement L S pre (do
        endScope scope; endBreakableBlock start target) := fun scope target =>
      .seq within_endScope fun _ => within_endBreakableBlock
    by_cases positive : jzpos > 0
    · rw [if_pos positive, if_pos positive]
      exact .seq within_getCurrentPos fun _ => .seq (within_setArg1 (.head _)) fun _ => rest _ _
    · rw [if_neg positive, if_neg positive]
      exact rest _ _
  | .forEach idxname valname container body => by
    unfold statementKind
    exact .seq within_beginScope fun _ => .seq (within_expression container) fun _ =>
      .bind within_topTarget fun _ => .nullLocals fun indexpos => .seq within_getCurrentPos fun _ =>
      .foreachPair (fun h => h.1.2) (fun h => h.2) fun foreachpos =>
      .seq within_beginBreakableBlock fun start => .seq (within_statement true body) fun _ =>
      .seq within_getCurrentPos fun _ => .seq within_jump fun _ =>
      .seq within_getCurrentPos fun _ => .seq (within_setArg1 (.tail _ (.head _))) fun _ =>
      .seq within_getCurrentPos fun _ => .seq (within_setArg1 (.head _)) fun _ =>
      .seq within_endBreakableBlock fun _ => .seq within_popTarget fun _ => within_endScope
  | .switch e cases default => by
    unfold statementKind
    refine .seq (within_commaExpr e) fun _ => .bind within_topTarget fun expr => .seq .get fun c =>
      .seq (.updateSlack fun _ => ⟨le_refl _, rfl, rfl, rfl, rfl, rfl, rfl⟩) fun _ =>
      .mark (within_switchCases expr none (fun h => h.2) (by simp) cases) fun tonext => ?_
    have rest : ∀ {S pre}, Within .statement L S pre (do
        switchDefault default
        let _ ← popTarget
        updateFs fun fs =>
          let fs := resolveBreaks fs (fs.unresolvedbreaks.length - c.fs.unresolvedbreaks.length)
          { fs with breaktargets := fs.breaktargets.tail }) :=
      .seq (within_switchDefault default) fun _ => .seq within_popTarget fun _ => within_resolveBreaks
    cases tonext with
    | none => exact rest
    | some pos =>
      exact .seq within_getCurrentPos fun _ => .seq (within_setArg1 (.head _)) fun _ => rest
  | .localDecl d => by
    unfold statementKind
    exact within_localDeclStatement d
  | .return none => by
    unfold statementKind
    exact within_emitReturn (.inl rfl)
  | .return (some e) => by
    unfold statementKind
    exact .seq within_getCurrentPos fun _ => .seq (within_commaExpr e) fun _ =>
      within_emitReturn (.inl rfl)
  | .yield none => by
    unfold statementKind
    exact .seq (.updateSlack fun _ => ⟨le_refl _, rfl, rfl, rfl, rfl, rfl, rfl⟩) fun _ =>
      within_emitReturn (.inr rfl)
  | .yield (some e) => by
    unfold statementKind
    exact .seq (.updateSlack fun _ => ⟨le_refl _, rfl, rfl, rfl, rfl, rfl, rfl⟩) fun _ =>
      .seq within_getCurrentPos fun _ =>
      .seq (within_commaExpr e) fun _ => within_emitReturn (.inr rfl)
  | .break => by
    unfold statementKind
    exact within_emitBreak
  | .continue => by
    unfold statementKind
    exact within_emitContinue
  | .function id path f => by
    unfold statementKind
    exact .seq (within_pushTargetAt fun _ => L.this) fun _ =>
      .seq (within_functionPath id path) fun _ =>
      .seq (within_createFunction f) fun _ => .seq within_emitClosure fun _ =>
      .seq (within_emitDerefOp (.inr rfl)) fun _ => .seq within_popTarget fun _ => .done
  | .class isabstract name c => by
    unfold statementKind
    refine .seq within_getEs fun es => .seq within_setEs fun _ => .seq (within_prefixedExpr _ name)
      fun _ => .seq within_getEs fun inner => ?_
    cases inner.etype with
    | OBJECT | BASE =>
      exact .seq (within_classExp _ c) fun _ => .seq (within_emitDerefOp (.inr rfl)) fun _ =>
        .seq within_popTarget fun _ => within_setEs
    | EXPR | LOCAL | OUTER => exact .seq (P := fun _ => True) .fail fun _ => within_setEs
  | .enum id entries => by
    unfold statementKind
    exact within_addConstant
  | .block body => by
    unfold statementKind
    exact .seq within_beginScope fun _ => .seq (within_statements body) fun _ =>
      .ite within_endScope within_endScopeNoClose
  | .tryCatch body exid handler => by
    unfold statementKind
    exact .mark within_pushtrap fun trappos =>
      .seq (.updateSlack fun _ => ⟨le_refl _, rfl, rfl, rfl, rfl, rfl, rfl⟩) fun _ =>
      .seq within_beginScope fun _ => .seq (within_statement true body) fun _ =>
      .seq within_endScope fun _ =>
      .seq (.updateSlack fun _ => ⟨le_refl _, rfl, rfl, rfl, rfl, rfl, rfl⟩) fun _ =>
      .seq within_popTrap fun _ => .mark within_jmp fun jmppos =>
      .seq within_getCurrentPos fun _ => .seq (within_setArg1 (.tail _ (.head _))) fun _ =>
      .seq within_beginScope fun _ => .bind within_pushLocalVariable fun _ =>
      .seq (within_setArg0 (.tail _ (.head _)) fun h => h.2) fun _ =>
      .seq (within_statement true handler) fun _ => .seq within_getCurrentPos fun _ =>
      .seq (within_setIntructionParams (.head _)) fun _ => within_endScope
  | .throw e => by
    unfold statementKind
    exact .seq (within_commaExpr e) fun _ => .bind within_popTarget fun _ =>
      within_addInstruction fun h => uses_target rfl h.2
  | .const id value => by
    unfold statementKind
    exact within_addConstant
  | .expression e => by
    unfold statementKind
    exact .seq (within_commaExpr e) fun _ => within_discardTarget

theorem within_ifBlock {L : FrameSize} {S : List Mark} {pre : Prop} :
    (block : IfBlock) → Within .statement L S pre (ifBlock block)
  | .braces body => by
    unfold ifBlock
    exact .seq within_beginScope fun _ => .seq (within_statements body) fun _ => within_endScope
  | .single s => by
    unfold ifBlock
    exact within_statement true s

theorem within_forInit {lvl : Level} {L : FrameSize} {S : List Mark} {pre : Prop} :
    (init : ForInit) → Within lvl L S pre (forInit init)
  | .none => by
    unfold forInit
    exact .done
  | .decl d => by
    unfold forInit
    exact within_localDeclStatement d
  | .expression e => by
    unfold forInit
    exact .seq (within_commaExpr e) fun _ => .seq within_popTarget fun _ => .done

theorem within_forCond {lvl : Level} {L : FrameSize} {S : List Mark} {pre : Prop} :
    (cond : Option CommaExpr) → Within lvl L S pre (forCond cond) (fun _ => True)
      fun jzpos => if jzpos > 0 then [⟨jzpos.toNat, false⟩] else []
  | none => by
    unfold forCond
    exact .pure (fun _ => trivial) (by simp)
  | some e => by
    unfold forCond
    refine .seq (within_commaExpr e) fun _ => .bind within_popTarget fun _ =>
      .mark (within_jz fun h => h.2) fun jzpos => .pure (fun _ => trivial) ?_
    intro m mem
    split at mem
    · exact List.mem_append_left _ mem
    · cases mem

theorem within_forInc {lvl : Level} {L : FrameSize} {S : List Mark} {pre : Prop} :
    (inc : Option CommaExpr) → Within lvl L S pre (forInc inc)
  | none => by
    unfold forInc
    exact .done
  | some e => by
    unfold forInc
    exact .seq (within_commaExpr e) fun _ => .seq within_popTarget fun _ => .done

theorem within_switchCases {L : FrameSize} {S : List Mark} {pre : Prop} (expr : Nat)
    (tonext : Option Nat) (small : pre → expr < L.size)
    (known : ∀ pos, tonext = some pos → ⟨pos, false⟩ ∈ S) : (cases : List SwitchCase) →
      Within .statement L S pre (switchCases expr tonext cases) (fun _ => True)
        fun last => last.toList.map fun pos => ⟨pos, false⟩
  | [] => by
    unfold switchCases
    refine .pure (fun _ => trivial) ?_
    cases tonext with
    | none => simp
    | some pos => simpa using known pos rfl
  | c :: rest => by
    unfold switchCases
    have body : ∀ {S pre} skip, (pre → expr < L.size) →
        (∀ pos, skip = some pos → ∃ jump, ⟨pos, jump⟩ ∈ S) → Within .statement L S pre (do
        let jz ← switchCase expr skip c
        switchCases expr (some jz) rest) (fun _ => True)
          fun last => last.toList.map fun pos => ⟨pos, false⟩ :=
      fun skip small known => .mark (within_switchCase expr skip small known c) fun jz =>
        within_switchCases expr (some jz) (fun h => small h.1) (by simp) rest
    cases tonext with
    | none => exact body none small (by simp)
    | some pos =>
      exact .mark within_jmp fun skip => .seq within_getCurrentPos fun _ =>
        .seq (within_setArg1 (.tail _ (known pos rfl))) fun _ =>
        body (some skip) (fun h => small h.1) (by simp)

theorem within_switchCase {L : FrameSize} {S : List Mark} {pre : Prop} (expr : Nat)
    (skip : Option Nat) (small : pre → expr < L.size)
    (known : ∀ pos, skip = some pos → ∃ jump, ⟨pos, jump⟩ ∈ S) : (c : SwitchCase) →
      Within .statement L S pre (switchCase expr skip c) (fun _ => True) fun jz => [⟨jz, false⟩]
  | .mk label body => by
    unfold switchCase
    refine .seq (within_expression label) fun _ => .mark (within_emitCaseTest small) fun jz => ?_
    have rest : ∀ {pre}, Within .statement L (⟨jz, false⟩ :: S) pre (do
        let scope ← beginScope
        statements body
        endScope scope
        return jz) (fun _ => True) fun jz => [⟨jz, false⟩] :=
      .seq within_beginScope fun _ => .seq (within_statements body) fun _ =>
        .seq within_endScope fun _ => .pure (fun _ => trivial) (by simp)
    cases skip with
    | none => exact rest
    | some pos =>
      obtain ⟨jump, mem⟩ := known pos rfl
      exact .seq within_getCurrentPos fun _ => .seq (within_setArg1 (.tail _ mem)) fun _ => rest

theorem within_switchDefault {L : FrameSize} {S : List Mark} {pre : Prop} :
    (default : Option (List Statement)) → Within .statement L S pre (switchDefault default)
  | none => by
    unfold switchDefault
    exact .done
  | some body => by
    unfold switchDefault
    exact .seq within_beginScope fun _ => .seq (within_statements body) fun _ => within_endScope

theorem within_localDeclStatement {lvl : Level} {L : FrameSize} {S : List Mark} {pre : Prop} :
    (d : LocalDecl) → Within lvl L S pre (localDeclStatement d)
  | .function name f => by
    unfold localDeclStatement
    exact .seq (within_createFunction f) fun _ => .seq within_emitClosure fun _ =>
      .seq within_popTarget fun _ => .seq within_pushLocalVariable fun _ => .done
  | .vars first rest => by
    unfold localDeclStatement
    exact .seq (within_declarator first) fun _ => within_declarators rest

theorem within_declarators {lvl : Level} {L : FrameSize} {S : List Mark} {pre : Prop} :
    (ds : List Declarator) → Within lvl L S pre (declarators ds)
  | [] => by
    unfold declarators
    exact .done
  | d :: rest => by
    unfold declarators
    exact .seq (within_declarator d) fun _ => within_declarators rest

theorem within_declarator {lvl : Level} {L : FrameSize} {S : List Mark} {pre : Prop} :
    (d : Declarator) → Within lvl L S pre (declarator d)
  | .mk name none => by
    unfold declarator
    exact .bind within_pushTarget fun _ =>
      .seq (within_addInstruction fun h => uses_null h.2) fun _ =>
      within_emitDeclarator
  | .mk name (some e) => by
    unfold declarator
    exact .seq (within_expression e) fun _ => .bind within_popTarget fun _ =>
      .bind within_pushTarget fun _ =>
      .guarded (within_move (fun h => h.2) fun h => h.1.2) within_emitDeclarator

end

/-! ## Whole programs -/

/-- The registers of an accepted program are right exactly when none of its
functions has more than 255 slots in use at once. -/
theorem startCompiler_registers {lineinfo : Bool} {consts : List (String × Constant)}
    {program : List Statement} {line : Int} {proto : FunctionPrototype}
    (accepted : startCompiler lineinfo consts program line = .ok proto) :
    proto.Right ↔ proto.Fits := by
  refine ⟨FunctionPrototype.Right.fits, ?_⟩
  unfold startCompiler at accepted
  extract_lets fs c₀ at accepted
  have blank : Blank c₀.fs :=
    { (addParameter_blank "this" rfl rfl rfl rfl rfl).addParameter "vargv" with }
  cases run : statements program c₀ with
  | error e => simp [StateT.run, run, bind, Except.bind] at accepted
  | ok r =>
    obtain ⟨_, c⟩ := r
    simp only [StateT.run, run, bind, Except.bind, pure, Except.pure, Except.ok.injEq] at accepted
    rw [← accepted]
    have body : ∀ L, Within .statement L [] True (statements program) := fun _ =>
      within_statements program
    have slack := setStackSize_slack c.fs fs.getStackSize
    refine closed_right line lineinfo rfl ?_ ?_
    · rw [slack.stacksize]
      have grows := (body ⟨1, Nat.one_pos, by decide⟩ _ _ _ run).1
      exact lt_of_lt_of_le blank.this grows.stacksize
    · intro L fits
      rw [slack.stacksize] at fits
      exact slack.inside ((body L _ _ _ run).2 trivial fits blank.inside (by simp [Holds])).1

theorem startCompiler_registers_assignment : ∃ proto,
    startCompiler false [] [.set "x" (.integer 1)] 1 = .ok proto ∧ (proto.Right ↔ proto.Fits) := by
  have accepted : (startCompiler false [] [.set "x" (.integer 1)] 1).isOk = true := by decide +kernel
  cases run : startCompiler false [] [.set "x" (.integer 1)] 1 with
  | error e =>
    rw [run] at accepted
    cases accepted
  | ok proto => exact ⟨proto, rfl, startCompiler_registers run⟩

/-- `function f(a, …, a, b) { b = a }` with 300 parameters. -/
def manyParameters : Statement :=
  .mk 1 (.function "f" [] (.simple (List.replicate 299 "a" ++ ["b"])
    [.expression (.last (.assign (.name "b") .assign (.name "a")))]))

/-- The last parameter is register 300; the function assigns to register 44 instead. -/
theorem compiled_manyParameters : (startCompiler false [] [manyParameters] 1).toOption.map
    (fun proto => proto.functions.map fun f => (f.stacksize, f.instructions)) =
    some [(301, [⟨.OP_MOVE, 44, 299, 0, 0⟩, instruction .OP_RETURN 0xFF])] := by
  decide +kernel

theorem startCompiler_wrongRegister : ∃ proto,
    startCompiler false [] [manyParameters] 1 = .ok proto ∧ ¬ proto.Right := by
  have compiled := compiled_manyParameters
  cases run : startCompiler false [] [manyParameters] 1 with
  | error e =>
    rw [run] at compiled
    cases compiled
  | ok proto =>
    refine ⟨proto, rfl, ?_⟩
    intro right
    rw [run] at compiled
    have one := Option.some.inj compiled
    obtain ⟨f, mem, same⟩ := List.mem_map.mp (one ▸ List.mem_singleton_self _)
    have fits := ((FunctionPrototype.all_iff f).mp
      (((FunctionPrototype.all_iff proto).mp right.fits).2 f mem)).1
    have size : f.stacksize = 301 := congrArg Prod.fst same
    rw [size] at fits
    exact absurd fits (by decide)

end Lavril
