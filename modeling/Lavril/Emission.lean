import Lavril.Code
import Lavril.Compiler

/-!
# What a production emits

`Emits` is a triple for the compiler: a production that starts with its code
out of reach below `b` changes the code by `Step`s from `b` on, leaves no jump
to be resolved below `b`, and only marks locals of the enclosing functions as
captured.
-/

namespace Lavril

open LVCompiler

/-- All that compiling a nested function changes in the state of an outer one. -/
structure Marked (p p' : FunctionState) : Prop where
  same : p' = { p with vlocals := p'.vlocals, outers := p'.outers, outervalues := p'.outervalues }
  names : p'.vlocals.map (·.name) = p.vlocals.map (·.name)

theorem Marked.refl (p : FunctionState) : Marked p p := ⟨rfl, rfl⟩

theorem Marked.trans {p q r : FunctionState} (h₁ : Marked p q) (h₂ : Marked q r) : Marked p r where
  same := by rw [h₂.same, h₁.same]
  names := h₂.names.trans h₁.names

/-- The unresolved jumps are those of `old` and others from `b` on. -/
def Above (b : Nat) (old jumps : List Nat) : Prop :=
  ∃ new, jumps = new ++ old ∧ ∀ p ∈ new, b ≤ p

theorem Above.refl (b : Nat) (old : List Nat) : Above b old old := ⟨[], rfl, by simp⟩

theorem Above.length {b : Nat} {old jumps : List Nat} (h : Above b old jumps) :
    old.length ≤ jumps.length := by
  obtain ⟨new, rfl, -⟩ := h
  simp

theorem Above.cons {b pos : Nat} {old jumps : List Nat} (h : Above b old jumps) (le : b ≤ pos) :
    Above b old (pos :: jumps) := by
  obtain ⟨new, rfl, above⟩ := h
  exact ⟨pos :: new, rfl, by simpa [le] using above⟩

/-- The next jump of a list that is longer than `old` is a new one. -/
theorem Above.uncons {b pos : Nat} {old jumps : List Nat} (h : Above b old (pos :: jumps))
    (longer : old.length < (pos :: jumps).length) : b ≤ pos ∧ Above b old jumps := by
  obtain ⟨new, eq, above⟩ := h
  cases new with
  | nil =>
    rw [List.nil_append] at eq
    rw [eq] at longer
    omega
  | cons p new =>
    rw [List.cons_append, List.cons.injEq] at eq
    obtain ⟨rfl, rfl⟩ := eq
    exact ⟨above pos (by simp), new, rfl, fun q mem => above q (List.mem_cons_of_mem _ mem)⟩

/-- Where a production may start. -/
structure Ready (lvl : Level) (b : Nat) (B C : List Nat) (c : LVCompiler) : Prop where
  floor : b ≤ c.fs.code.floor lvl
  breaks : Above b B c.fs.unresolvedbreaks
  continues : Above b C c.fs.unresolvedcontinues

/-- The triple. `B` and `C` are the jumps that stay unresolved. -/
def Emits {α : Type} (lvl : Level) (b : Nat) (B C : List Nat) (m : CompilerM α)
    (Q : α → Prop := fun _ => True) : Prop :=
  ∀ c a c', Ready lvl b B C c → m c = .ok (a, c') →
    Steps lvl b c.fs.code c'.fs.code ∧ List.Forall₂ Marked c.parents c'.parents ∧
      Ready lvl b B C c' ∧ Q a

section

variable {α β : Type} {lvl : Level} {b : Nat} {B C : List Nat}

theorem forall₂_marked_refl (ps : List FunctionState) : List.Forall₂ Marked ps ps :=
  List.forall₂_same.mpr fun p _ => Marked.refl p

theorem forall₂_marked_trans {ps qs rs : List FunctionState} (h₁ : List.Forall₂ Marked ps qs)
    (h₂ : List.Forall₂ Marked qs rs) : List.Forall₂ Marked ps rs := by
  induction h₁ generalizing rs with
  | nil => exact h₂
  | cons head _ ih =>
    cases h₂ with
    | cons head' tail' => exact .cons (head.trans head') (ih tail')

theorem Emits.bind {m : CompilerM α} {f : α → CompilerM β} {P : α → Prop} {Q : β → Prop}
    (hm : Emits lvl b B C m P) (hf : ∀ a, P a → Emits lvl b B C (f a) Q) :
    Emits lvl b B C (m >>= f) Q := by
  intro c b' c' ready run
  obtain ⟨a, c₁, first, second⟩ := bind_ok.mp run
  obtain ⟨steps, marked, ready, post⟩ := hm c a c₁ ready first
  obtain ⟨steps', marked', ready', post'⟩ := hf a post c₁ b' c' ready second
  exact ⟨steps.trans steps', forall₂_marked_trans marked marked', ready', post'⟩

/-- The code below the floor is the same after a production. -/
theorem Emits.agree {m : CompilerM α} {Q : α → Prop} {c c' : LVCompiler} {a : α}
    (h : Emits lvl (c.fs.code.floor lvl) c.fs.unresolvedbreaks c.fs.unresolvedcontinues m Q)
    (run : m c = .ok (a, c')) :
    Agree (c.fs.code.floor lvl) c.fs.code c'.fs.code ∧
      c.fs.code.floor lvl ≤ c'.fs.code.floor lvl := by
  obtain ⟨steps, -, ready, -⟩ := h c a c' ⟨le_refl _, .refl _ _, .refl _ _⟩ run
  exact ⟨(steps.preserves (le_refl _)).1, ready.floor⟩

theorem Emits.seq {m : CompilerM α} {f : α → CompilerM β} {P : α → Prop} {Q : β → Prop}
    (hm : Emits lvl b B C m P) (hf : ∀ a, Emits lvl b B C (f a) Q) :
    Emits lvl b B C (m >>= f) Q := hm.bind fun a _ => hf a

theorem Emits.pure {a : α} {Q : α → Prop} (h : Q a) :
    Emits lvl b B C (Pure.pure a : CompilerM α) Q := by
  intro c b' c' ready run
  obtain ⟨rfl, rfl⟩ := pure_ok.mp run
  exact ⟨.refl, forall₂_marked_refl _, ready, h⟩

theorem Emits.fail {message : String} {Q : α → Prop} :
    Emits lvl b B C (LVCompiler.fail message : CompilerM α) Q := by
  intro c b' c' _ run
  cases run

theorem Emits.ite {p : Prop} [Decidable p] {m m' : CompilerM α} {Q : α → Prop}
    (h : Emits lvl b B C m Q) (h' : Emits lvl b B C m' Q) :
    Emits lvl b B C (if p then m else m') Q := by
  split
  · exact h
  · exact h'

/-- `if p then m`, before the rest. -/
theorem Emits.guarded {p : Prop} [Decidable p] {m : CompilerM PUnit} {f : PUnit → CompilerM α}
    {Q : α → Prop} (hm : Emits lvl b B C m) (hf : Emits lvl b B C (f ⟨⟩) Q) :
    Emits lvl b B C (if p then m >>= f else f ⟨⟩) Q :=
  .ite (hm.seq fun _ => hf) hf

theorem Emits.weaken {m : CompilerM α} {P Q : α → Prop} (h : Emits lvl b B C m P)
    (imp : ∀ a, P a → Q a) : Emits lvl b B C m Q := by
  intro c a c' ready run
  obtain ⟨steps, marked, ready, post⟩ := h c a c' ready run
  exact ⟨steps, marked, ready, imp a post⟩

/-! ## Operations that emit nothing -/

/-- The code and the unresolved jumps are the same. -/
structure SameCode (fs fs' : FunctionState) : Prop where
  code : fs'.code = fs.code
  breaks : fs'.unresolvedbreaks = fs.unresolvedbreaks
  continues : fs'.unresolvedcontinues = fs.unresolvedcontinues

theorem SameCode.refl (fs : FunctionState) : SameCode fs fs := ⟨rfl, rfl, rfl⟩

theorem SameCode.trans {fs fs₁ fs₂ : FunctionState} (h : SameCode fs fs₁) (h' : SameCode fs₁ fs₂) :
    SameCode fs fs₂ :=
  ⟨h'.code.trans h.code, h'.breaks.trans h.breaks, h'.continues.trans h.continues⟩

theorem Ready.congr {c c' : LVCompiler} (ready : Ready lvl b B C c) (same : SameCode c.fs c'.fs) :
    Ready lvl b B C c' :=
  ⟨by rw [same.code]; exact ready.floor, by rw [same.breaks]; exact ready.breaks,
    by rw [same.continues]; exact ready.continues⟩

theorem Emits.quiet {m : CompilerM α}
    (h : ∀ c a c', m c = .ok (a, c') → SameCode c.fs c'.fs ∧ c'.parents = c.parents) :
    Emits lvl b B C m := by
  intro c a c' ready run
  obtain ⟨same, parents⟩ := h c a c' run
  refine ⟨by rw [same.code], by rw [parents]; exact forall₂_marked_refl _, ready.congr same, trivial⟩

theorem Emits.get : Emits lvl b B C (MonadState.get : CompilerM LVCompiler) (Ready lvl b B C) := by
  intro c a c' ready run
  cases run
  exact ⟨.refl, forall₂_marked_refl _, ready, ready⟩

theorem Emits.liftFs {f : FunctionState → Except CompileError (α × FunctionState)}
    (h : ∀ fs a fs', f fs = .ok (a, fs') → SameCode fs fs') :
    Emits lvl b B C (LVCompiler.liftFs f) := by
  refine .quiet fun c a c' run => ?_
  unfold LVCompiler.liftFs at run
  split at run
  · rename_i a' fs eq
    cases run
    exact ⟨h _ _ _ eq, rfl⟩
  · cases run

theorem Emits.updateFs {f : FunctionState → FunctionState} (h : ∀ fs, SameCode fs (f fs)) :
    Emits lvl b B C (LVCompiler.updateFs f) := by
  refine .quiet fun c a c' run => ?_
  cases run
  exact ⟨h _, rfl⟩

theorem emits_snoozeOpt : Emits lvl b B C snoozeOpt := by
  intro c a c' ready run
  cases run
  have step : Step lvl b c.fs.code (c.fs.snoozeOpt).code := .snooze c.fs.code
  exact ⟨.single step, forall₂_marked_refl _,
    ⟨(step.preserves ready.floor).2, ready.breaks, ready.continues⟩, trivial⟩

theorem addInstruction_jumps (fs : FunctionState) (i : LVInstruction) :
    (fs.addInstruction i).unresolvedbreaks = fs.unresolvedbreaks ∧
    (fs.addInstruction i).unresolvedcontinues = fs.unresolvedcontinues := by
  unfold FunctionState.addInstruction
  split
  · split <;> exact ⟨rfl, rfl⟩
  · exact ⟨rfl, rfl⟩

theorem emits_instruction {i : LVInstruction} (adds : lvl.adds i.op) :
    Emits lvl b B C (LVCompiler.updateFs (·.addInstruction i)) := by
  intro c a c' ready run
  cases run
  have step : Step lvl b c.fs.code (c.fs.addInstruction i).code := .add c.fs i adds
  have jumps := addInstruction_jumps c.fs i
  refine ⟨.single step, forall₂_marked_refl _, ⟨(step.preserves ready.floor).2, ?_, ?_⟩, trivial⟩
  · rw [jumps.1]
    exact ready.breaks
  · rw [jumps.2]
    exact ready.continues

/-- Everything but `RETURN` and `LINE`, which only statements add. -/
def Opcode.plain (op : Opcode) : Bool := op ≠ .OP_RETURN ∧ op ≠ .OP_LINE

theorem Level.adds_of_plain {op : Opcode} (h : op.plain = true) : lvl.adds op := by
  cases lvl with
  | expression => exact (of_decide_eq_true h : op ≠ .OP_RETURN ∧ op ≠ .OP_LINE)
  | statement => trivial

theorem emits_addInstruction {op : Opcode} {a0 a1 a2 a3 : Int}
    (h : op.plain = true) :
    Emits lvl b B C (addInstruction op a0 a1 a2 a3) :=
  emits_instruction (Level.adds_of_plain h)

/-- The position of an instruction that was just emitted. -/
theorem emits_emit {op : Opcode} {a0 a1 a2 a3 : Int}
    (h : op.plain = true) :
    Emits lvl b B C (emit op a0 a1 a2 a3) (b ≤ ·) := by
  intro c a c' ready run
  obtain ⟨_, c₁, add, run⟩ := bind_ok.mp run
  obtain ⟨_, _, ⟨⟩, run⟩ := bind_ok.mp run
  obtain ⟨rfl, rfl⟩ := pure_ok.mp run
  obtain ⟨steps, marked, ready', -⟩ := emits_addInstruction h c _ c' ready add
  cases add
  refine ⟨steps, marked, ready', ?_⟩
  have inside := ready.floor.trans (Code.floor_le lvl _)
  have below := ready.floor
  rcases addInstruction_code c.fs (instruction op a0 a1 a2 a3) (@Level.adds_of_plain lvl _ h) with
    ⟨opt, i', -, eq⟩ | ⟨code, pi, new, opt, eq, fuse, ne, eq'⟩
  · have eq := congrArg Code.instructions eq
    simp only [FunctionState.code] at eq inside
    rw [eq]
    simpa using inside
  · rw [eq, Code.floor_append, if_pos fuse] at below
    have eq' := congrArg Code.instructions eq'
    simp only [FunctionState.code] at eq'
    have := List.length_pos_iff.mpr ne
    rw [eq', List.length_append]
    omega

theorem emits_modify {pos : Nat} {f : LVInstruction → LVInstruction} (above : b ≤ pos)
    (keeps : ∀ i, (f i).op = i.op) :
    Emits lvl b B C (LVCompiler.updateFs (·.modifyInstruction pos f)) := by
  intro c a c' ready run
  cases run
  have step : Step lvl b c.fs.code (c.fs.modifyInstruction pos f).code :=
    .patch c.fs.code pos f above keeps
  exact ⟨.single step, forall₂_marked_refl _,
    ⟨(step.preserves ready.floor).2, ready.breaks, ready.continues⟩, trivial⟩

theorem emits_setArg0 {pos : Nat} {val : Int} (above : b ≤ pos) :
    Emits lvl b B C (setArg0 pos val) := emits_modify above fun _ => rfl

theorem emits_setArg1 {pos : Nat} {val : Int} (above : b ≤ pos) :
    Emits lvl b B C (setArg1 pos val) := emits_modify above fun _ => rfl

theorem emits_getCurrentPos :
    Emits lvl b B C getCurrentPos fun pos => b ≤ (pos + 1).toNat := by
  intro c a c' ready run
  obtain ⟨_, _, ⟨⟩, run⟩ := bind_ok.mp run
  obtain ⟨rfl, rfl⟩ := pure_ok.mp run
  refine ⟨.refl, forall₂_marked_refl _, ready, ?_⟩
  have inside := ready.floor.trans (Code.floor_le lvl _)
  simp only [FunctionState.code] at inside
  simp only [FunctionState.getCurrentPos]
  omega

theorem allocStackPos_same {fs fs' : FunctionState} {n : Nat}
    (run : fs.allocStackPos = .ok (n, fs')) : SameCode fs fs' := by
  simp only [FunctionState.allocStackPos] at run
  split at run
  · split at run
    · cases run
    · cases run
      exact ⟨rfl, rfl, rfl⟩
  · cases run
    exact ⟨rfl, rfl, rfl⟩

theorem emits_pushTarget : Emits lvl b B C pushTarget := by
  refine .liftFs fun fs n fs' run => ?_
  unfold FunctionState.pushTarget at run
  cases alloc : fs.allocStackPos with
  | error e => rw [alloc] at run; cases run
  | ok r =>
    rw [alloc] at run
    cases run
    have same := allocStackPos_same alloc
    exact ⟨same.code, same.breaks, same.continues⟩

theorem emits_pushTargetAt {n : Nat} : Emits lvl b B C (pushTargetAt n) :=
  .updateFs fun _ => ⟨rfl, rfl, rfl⟩

theorem popTarget_same {fs fs' : FunctionState} {n : Nat}
    (run : fs.popTarget = .ok (n, fs')) : SameCode fs fs' := by
  unfold FunctionState.popTarget at run
  split at run
  · cases run
  · split at run
    · cases run
    · cases run
      exact ⟨rfl, rfl, rfl⟩

theorem emits_popTarget : Emits lvl b B C popTarget := .liftFs fun _ _ _ run => popTarget_same run

theorem emits_topTarget : Emits lvl b B C topTarget := by
  refine .liftFs fun fs n fs' run => ?_
  unfold FunctionState.topTarget at run
  split at run
  · cases run
  · cases run
    exact SameCode.refl fs

theorem emits_isLocal {n : Nat} : Emits lvl b B C (isLocal n) :=
  .seq .get fun _ => .pure trivial

theorem emits_getConstant {cons : LVObject} : Emits lvl b B C (getConstant cons) := by
  refine .liftFs fun fs n fs' run => ?_
  unfold FunctionState.getConstant at run
  split at run
  · cases run
    exact SameCode.refl fs
  · split at run
    · cases run
    · cases run
      exact ⟨rfl, rfl, rfl⟩

theorem emits_pushLocalVariable {name : String} : Emits lvl b B C (pushLocalVariable name) := by
  refine .liftFs fun fs n fs' run => ?_
  cases run
  exact ⟨rfl, rfl, rfl⟩

theorem emits_modifyGet {f : LVCompiler → LVCompiler} (fs : ∀ c, (f c).fs = c.fs)
    (parents : ∀ c, (f c).parents = c.parents) : Emits lvl b B C (modify f : CompilerM PUnit) := by
  refine .quiet fun c a c' run => ?_
  cases run
  exact ⟨by rw [fs]; exact SameCode.refl _, parents c⟩

theorem emits_getEs : Emits lvl b B C getEs := .seq .get fun _ => .pure trivial
theorem emits_setEs {es : ExpState} : Emits lvl b B C (setEs es) :=
  emits_modifyGet (fun _ => rfl) fun _ => rfl
theorem emits_setEtype {etype : ExpType} : Emits lvl b B C (setEtype etype) :=
  emits_modifyGet (fun _ => rfl) fun _ => rfl
theorem emits_setEpos {epos : Int} : Emits lvl b B C (setEpos epos) :=
  emits_modifyGet (fun _ => rfl) fun _ => rfl
theorem emits_getLocalVariable {name : String} : Emits lvl b B C (getLocalVariable name) :=
  .seq .get fun _ => .pure trivial
theorem emits_isConstant {name : String} : Emits lvl b B C (isConstant name) :=
  .seq .get fun _ => .pure trivial
theorem emits_addConstant {name : String} {value : Constant} :
    Emits lvl b B C (addConstant name value) :=
  emits_modifyGet (fun _ => rfl) fun _ => rfl

/-- A free name adds outer variables and marks a local. -/
theorem outerVariable_marks (name : String) (fs : FunctionState) (parents : List FunctionState) :
    Marked fs (outerVariable name fs parents).2.1 ∧
    List.Forall₂ Marked parents (outerVariable name fs parents).2.2 := by
  induction parents generalizing fs with
  | nil =>
    unfold outerVariable
    split
    · exact ⟨Marked.refl fs, .nil⟩
    · exact ⟨Marked.refl fs, .nil⟩
  | cons parent rest ih =>
    unfold outerVariable
    split
    · exact ⟨Marked.refl fs, forall₂_marked_refl _⟩
    · dsimp only
      split
      · exact ⟨⟨rfl, rfl⟩, .cons ⟨rfl, map_modify_of_keeps _ _ fun _ => rfl⟩
          (forall₂_marked_refl rest)⟩
      · have marks := ih parent
        split
        · rename_i eq
          rw [eq] at marks
          exact ⟨⟨rfl, rfl⟩, .cons marks.1 marks.2⟩
        · rename_i eq
          rw [eq] at marks
          exact ⟨⟨rfl, rfl⟩, .cons marks.1 marks.2⟩

theorem Marked.sameCode {p p' : FunctionState} (h : Marked p p') : SameCode p p' := by
  rw [h.same]
  exact ⟨rfl, rfl, rfl⟩

theorem emits_getOuterVariable {name : String} : Emits lvl b B C (getOuterVariable name) := by
  intro c a c' ready run
  cases run
  have marks := outerVariable_marks name c.fs c.parents
  have same := marks.1.sameCode
  exact ⟨by rw [same.code], marks.2, ready.congr same, trivial⟩

/-! ## Scopes and jumps -/

theorem emits_beginScope : Emits lvl b B C beginScope := by
  refine .quiet fun c a c' run => ?_
  cases run
  exact ⟨SameCode.refl _, rfl⟩

theorem emits_resolveOuters : Emits lvl b B C resolveOuters :=
  .seq .get fun _ => .ite (emits_addInstruction rfl) (.pure trivial)

theorem setStackSize_same (fs : FunctionState) (n : Nat) : SameCode fs (fs.setStackSize n) :=
  ⟨rfl, rfl, rfl⟩

theorem emits_endScopeNoClose {scope : Scope} : Emits lvl b B C (endScopeNoClose scope) := by
  refine .quiet fun c a c' run => ?_
  cases run
  refine ⟨?_, rfl⟩
  dsimp only
  split
  · exact setStackSize_same _ _
  · exact SameCode.refl _

theorem emits_endScope {scope : Scope} : Emits lvl b B C (endScope scope) := by
  have restore : Emits lvl b B C (modify fun c => { c with scope := scope } : CompilerM PUnit) :=
    emits_modifyGet (fun _ => rfl) fun _ => rfl
  refine .seq .get fun c => .ite ?_ restore
  refine .seq (.updateFs fun fs => setStackSize_same fs _) fun _ => .seq .get fun c' => ?_
  exact .ite (.seq (emits_addInstruction rfl) fun _ => restore) restore

theorem emits_beginBreakableBlock :
    Emits lvl b B C beginBreakableBlock fun start => B.length ≤ start.1 ∧ C.length ≤ start.2 := by
  intro c a c' ready run
  cases run
  exact ⟨.refl, forall₂_marked_refl _, ⟨ready.floor, ready.breaks, ready.continues⟩,
    ready.breaks.length, ready.continues.length⟩

theorem ready_patch {fs : FunctionState} {c : LVCompiler} {pos : Nat}
    {f : LVInstruction → LVInstruction} (ready : Ready lvl b B C { c with fs := fs })
    (above : b ≤ pos) (keeps : ∀ i, (f i).op = i.op) :
    Steps lvl b fs.code (fs.modifyInstruction pos f).code ∧
    Ready lvl b B C { c with fs := fs.modifyInstruction pos f } := by
  have step : Step lvl b fs.code (fs.modifyInstruction pos f).code :=
    .patch fs.code pos f above keeps
  exact ⟨.single step, (step.preserves ready.floor).2, ready.breaks, ready.continues⟩

/-- Resolving no more jumps than are new. -/
theorem resolveBreaks_ready (c : LVCompiler) (fs : FunctionState) (n : Nat)
    (ready : Ready lvl b B C { c with fs := fs })
    (few : n + B.length ≤ fs.unresolvedbreaks.length) :
    Steps lvl b fs.code (resolveBreaks fs n).code ∧
    Ready lvl b B C { c with fs := resolveBreaks fs n } := by
  induction n generalizing fs with
  | zero => exact ⟨.refl, ready⟩
  | succ n ih =>
    unfold resolveBreaks
    split
    · exact ⟨.refl, ready⟩
    · rename_i pos rest eq
      have jumps := ready.breaks
      rw [show ({ c with fs := fs } : LVCompiler).fs.unresolvedbreaks = pos :: rest from eq] at jumps
      rw [eq] at few
      obtain ⟨above, still⟩ := jumps.uncons (by omega)
      have popped : Ready lvl b B C { c with fs := { fs with unresolvedbreaks := rest } } :=
        ⟨ready.floor, still, ready.continues⟩
      obtain ⟨steps, patched⟩ := ready_patch (f := fun i => { i with
        arg0 := uchar 0, arg1 := fs.getCurrentPos - pos, arg2 := uchar 0, arg3 := uchar 0 })
        popped above fun _ => rfl
      obtain ⟨steps', done⟩ := ih _ patched (by
        simp only [List.length_cons] at few
        simp only [FunctionState.modifyInstruction]
        omega)
      exact ⟨steps.trans steps', done⟩

theorem resolveContinues_ready (c : LVCompiler) (target : Int) (fs : FunctionState) (n : Nat)
    (ready : Ready lvl b B C { c with fs := fs })
    (few : n + C.length ≤ fs.unresolvedcontinues.length) :
    Steps lvl b fs.code (resolveContinues target fs n).code ∧
    Ready lvl b B C { c with fs := resolveContinues target fs n } ∧
    (resolveContinues target fs n).unresolvedbreaks = fs.unresolvedbreaks := by
  induction n generalizing fs with
  | zero => exact ⟨.refl, ready, rfl⟩
  | succ n ih =>
    unfold resolveContinues
    split
    · exact ⟨.refl, ready, rfl⟩
    · rename_i pos rest eq
      have jumps := ready.continues
      rw [show ({ c with fs := fs } : LVCompiler).fs.unresolvedcontinues = pos :: rest from eq]
        at jumps
      rw [eq] at few
      obtain ⟨above, still⟩ := jumps.uncons (by omega)
      have popped : Ready lvl b B C { c with fs := { fs with unresolvedcontinues := rest } } :=
        ⟨ready.floor, ready.breaks, still⟩
      obtain ⟨steps, patched⟩ := ready_patch (f := fun i => { i with
        arg0 := uchar 0, arg1 := target - pos, arg2 := uchar 0, arg3 := uchar 0 })
        popped above fun _ => rfl
      obtain ⟨steps', done, same⟩ := ih _ patched (by
        simp only [List.length_cons] at few
        simp only [FunctionState.modifyInstruction]
        omega)
      exact ⟨steps.trans steps', done, same⟩

theorem emits_endBreakableBlock {start : Nat × Nat} {target : Int}
    (le : B.length ≤ start.1 ∧ C.length ≤ start.2) :
    Emits lvl b B C (endBreakableBlock start target) := by
  intro c a c' ready run
  cases run
  have longBreaks := ready.breaks.length
  have longContinues := ready.continues.length
  obtain ⟨steps, continued, same⟩ := resolveContinues_ready c target c.fs
    (c.fs.unresolvedcontinues.length - start.2) ready (by omega)
  obtain ⟨steps', broken⟩ := resolveBreaks_ready c _ (c.fs.unresolvedbreaks.length - start.1)
    continued (by rw [same]; omega)
  exact ⟨steps.trans steps', forall₂_marked_refl _,
    ⟨broken.floor, broken.breaks, broken.continues⟩, trivial⟩

theorem emits_resolveBreaks {n : Nat} (le : B.length ≤ n) : Emits lvl b B C
    (LVCompiler.updateFs fun fs =>
      let fs := resolveBreaks fs (fs.unresolvedbreaks.length - n)
      { fs with breaktargets := fs.breaktargets.tail }) := by
  intro c a c' ready run
  cases run
  have long := ready.breaks.length
  obtain ⟨steps, broken⟩ := resolveBreaks_ready c c.fs (c.fs.unresolvedbreaks.length - n) ready
    (by omega)
  exact ⟨steps, forall₂_marked_refl _, ⟨broken.floor, broken.breaks, broken.continues⟩, trivial⟩

theorem discardTarget_cases {fs fs' : FunctionState} (run : fs.discardTarget = .ok fs') :
    ∃ n fs₁, fs.popTarget = .ok (n, fs₁) ∧ (fs' = fs₁ ∨
      ∃ code pi, fs₁.code = ⟨code ++ [pi], true⟩ ∧ discardable pi.op = true ∧ pi.arg0 = n ∧
        fs' = { fs₁ with instructions := code ++ [{ pi with arg0 := 0xFF }] }) := by
  unfold FunctionState.discardTarget at run
  cases popped : fs.popTarget with
  | error e => simp [popped, bind, Except.bind] at run
  | ok r =>
    obtain ⟨n, fs₁⟩ := r
    refine ⟨n, fs₁, rfl, ?_⟩
    simp only [popped, bind, Except.bind, pure, Except.pure] at run
    split at run
    · rename_i pi on last
      obtain ⟨code, eq⟩ := List.getLast?_eq_some_iff.mp last
      split at run
      · rename_i kind
        refine .inr ⟨code, pi, by rw [FunctionState.code, eq, on], ?_, kind.2, ?_⟩
        · simp only [discardable, Bool.or_eq_true, decide_eq_true_eq]
          tauto
        · cases run
          rw [eq, List.dropLast_concat]
      · cases run
        exact .inl rfl
    · cases run
      exact .inl rfl

theorem emits_discardTarget : Emits .statement b B C discardTarget := by
  intro c a c' ready run
  simp only [discardTarget, LVCompiler.liftFs] at run
  cases discarded : c.fs.discardTarget with
  | error e => simp [discarded, bind, Except.bind] at run
  | ok fs =>
    simp only [discarded, bind, Except.bind, pure, Except.pure, Except.ok.injEq, Prod.mk.injEq,
      true_and] at run
    subst run
    obtain ⟨n, fs₁, popped, eq | ⟨code, pi, start, kind, -, eq⟩⟩ := discardTarget_cases discarded
    · subst eq
      have same := popTarget_same popped
      exact ⟨by rw [same.code], forall₂_marked_refl _, ready.congr same, trivial⟩
    · have same := popTarget_same popped
      have ready₁ : Ready .statement b B C { c with fs := fs₁ } := ready.congr same
      have step : Step .statement b c.fs.code fs.code := by
        rw [← same.code, start, eq]
        have on := congrArg Code.optimization start
        simp only [FunctionState.code] at on ⊢
        rw [on]
        exact .discard code pi rfl kind
      subst eq
      exact ⟨.single step, forall₂_marked_refl _,
        ⟨(step.preserves ready.floor).2, ready₁.breaks, ready₁.continues⟩, trivial⟩

theorem emits_replay (exp : List LVInstruction) : Emits .statement b B C (replay exp) := by
  induction exp with
  | nil => exact .updateFs fun fs => SameCode.refl fs
  | cons i exp ih =>
    intro c a c' ready run
    obtain ⟨steps, marked, ready₁, -⟩ :=
      @emits_instruction .statement _ _ _ i trivial c () _ ready rfl
    obtain ⟨steps', marked', ready', -⟩ := ih _ a c' ready₁ run
    exact ⟨steps.trans steps', forall₂_marked_trans marked marked', ready', trivial⟩

/-- The increment of a `for` loop is taken out after the optimiser was put to sleep. -/
theorem Emits.takeInstructions {n : Nat} {f : List LVInstruction → CompilerM α} {Q : α → Prop}
    (above : b ≤ n) (hf : ∀ exp, Emits lvl b B C (f exp) Q) :
    Emits lvl b B C (LVCompiler.snoozeOpt >>= fun _ => LVCompiler.takeInstructions n >>= f) Q := by
  intro c a c' ready run
  obtain ⟨_, c₁, ⟨⟩, run⟩ := bind_ok.mp run
  obtain ⟨exp, c₂, ⟨⟩, run⟩ := bind_ok.mp run
  have snooze : Step lvl b c.fs.code ⟨c.fs.instructions, false⟩ := .snooze c.fs.code
  have take : Step lvl b ⟨c.fs.instructions, false⟩ ⟨c.fs.instructions.take n, false⟩ :=
    .take _ n above
  have steps : Steps lvl b c.fs.code ⟨c.fs.instructions.take n, false⟩ :=
    .tail (.single snooze) take
  have size : c.fs.instructions.length - (c.fs.instructions.length - n) =
      min n c.fs.instructions.length := by omega
  have taken : c.fs.instructions.take (c.fs.instructions.length -
      (c.fs.instructions.length - n)) = c.fs.instructions.take n := by
    rw [size, List.take_eq_take_iff]
    omega
  have code : (c.fs.snoozeOpt.popInstructions (c.fs.snoozeOpt.instructions.length - n)).code =
      ⟨c.fs.instructions.take n, false⟩ := by
    simp only [FunctionState.snoozeOpt, FunctionState.popInstructions, FunctionState.code, taken]
  have ready₂ : Ready lvl b B C { c with
      fs := c.fs.snoozeOpt.popInstructions (c.fs.snoozeOpt.instructions.length - n) } :=
    ⟨by rw [code]; exact (steps.preserves ready.floor).2, ready.breaks, ready.continues⟩
  obtain ⟨steps', marked, ready', post⟩ := hf _ _ a c' ready₂ run
  rw [code] at steps'
  exact ⟨steps.trans steps', marked, ready', post⟩

end

end Lavril
