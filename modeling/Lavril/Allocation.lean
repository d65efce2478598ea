import Lavril.Productions
import Lavril.Registers

/-!
# Which registers a production hands out

`Within` is a triple for the compiler, for a frame that turns out to be large
enough: a production that starts with all its registers inside the frame ends so,
and names no other in the code. The frame is known only at the end, so what a
production returns is known to be inside it only when the slots it has used fit;
`pre` is what is known so from the productions before it.
-/

namespace Lavril

open LVCompiler

/-- The position of an instruction that is completed later. -/
structure Mark where
  pos : Nat
  jump : Bool

def Mark.Holds (m : Mark) (code : List LVInstruction) : Prop :=
  ∃ i, code[m.pos]? = some i ∧ i.offset = true ∧ (m.jump = true → i.op = .OP_JMP)

def Holds (S : List Mark) (fs : FunctionState) : Prop := ∀ m ∈ S, m.Holds fs.instructions

/-- Every mark on `code` holds on `code'`. -/
def Keeps (code code' : List LVInstruction) : Prop := ∀ m : Mark, m.Holds code → m.Holds code'

/-- A function under construction inside a frame of size `L`. -/
structure Inside (L : FrameSize) (fs : FunctionState) : Prop where
  locals : fs.vlocals.length ≤ fs.stacksize
  targets : ∀ n ∈ fs.targetstack, n < L.size
  code : ∀ i ∈ fs.instructions, i.Uses L
  breaks : ∀ pos ∈ fs.unresolvedbreaks, Mark.Holds ⟨pos, true⟩ fs.instructions
  continues : ∀ pos ∈ fs.unresolvedcontinues, Mark.Holds ⟨pos, true⟩ fs.instructions
  functions : ∀ f ∈ fs.functions, f.Fits → f.Right

/-- `stacksize` never shrinks, and an expression leaves no jump to be resolved. -/
structure Grows (lvl : Level) (fs fs' : FunctionState) : Prop where
  stacksize : fs.stacksize ≤ fs'.stacksize
  jumps : lvl = .expression → fs'.unresolvedbreaks = fs.unresolvedbreaks ∧
    fs'.unresolvedcontinues = fs.unresolvedcontinues

theorem Grows.refl (lvl : Level) (fs : FunctionState) : Grows lvl fs fs :=
  ⟨le_refl _, fun _ => ⟨rfl, rfl⟩⟩

theorem Grows.trans {lvl : Level} {s t u : FunctionState} (h₁ : Grows lvl s t)
    (h₂ : Grows lvl t u) : Grows lvl s u where
  stacksize := h₁.stacksize.trans h₂.stacksize
  jumps expression :=
    ⟨(h₂.jumps expression).1.trans (h₁.jumps expression).1,
      (h₂.jumps expression).2.trans (h₁.jumps expression).2⟩

/-- The triple. `marks` are the positions a production returns. -/
def Within {α : Type} (lvl : Level) (L : FrameSize) (S : List Mark) (pre : Prop)
    (m : CompilerM α) (Q : α → Prop := fun _ => True) (marks : α → List Mark := fun _ => []) :
    Prop :=
  ∀ c a c', m c = .ok (a, c') → Grows lvl c.fs c'.fs ∧
    (pre → c'.fs.stacksize ≤ L.size → Inside L c.fs → Holds S c.fs →
      Inside L c'.fs ∧ Holds (marks a ++ S) c'.fs ∧ Q a)

section

variable {α β : Type} {lvl : Level} {L : FrameSize} {S : List Mark} {pre : Prop}

/-! ## Rules -/

/-- The production returns positions to be completed later. -/
theorem Within.mark {m : CompilerM α} {f : α → CompilerM β} {P : α → Prop}
    {marks : α → List Mark} {Q : β → Prop} {marks' : β → List Mark}
    (hm : Within lvl L S pre m P marks)
    (hf : ∀ a, Within lvl L (marks a ++ S) (pre ∧ P a) (f a) Q marks') :
    Within lvl L S pre (m >>= f) Q marks' := by
  intro c b c' run
  obtain ⟨a, c₁, first, second⟩ := bind_ok.mp run
  obtain ⟨grows, keeps⟩ := hm c a c₁ first
  obtain ⟨grows', keeps'⟩ := hf a c₁ b c' second
  refine ⟨grows.trans grows', ?_⟩
  intro before fits inside holds
  obtain ⟨inside₁, holds₁, post⟩ := keeps before (grows'.stacksize.trans fits) inside holds
  obtain ⟨inside', holds', post'⟩ := keeps' ⟨before, post⟩ fits inside₁ holds₁
  refine ⟨inside', ?_, post'⟩
  intro m mem
  apply holds' m
  rw [List.mem_append] at mem ⊢
  rcases mem with new | old
  · exact .inl new
  · exact .inr (List.mem_append_right _ old)

theorem Within.bind {m : CompilerM α} {f : α → CompilerM β} {P : α → Prop} {Q : β → Prop}
    {marks : β → List Mark} (hm : Within lvl L S pre m P)
    (hf : ∀ a, Within lvl L S (pre ∧ P a) (f a) Q marks) :
    Within lvl L S pre (m >>= f) Q marks := hm.mark hf

theorem Within.weaken {pre' : Prop} {m : CompilerM α} {P Q : α → Prop} {marks : α → List Mark}
    (h : Within lvl L S pre' m P marks) (before : pre → pre') (after : ∀ a, pre → P a → Q a) :
    Within lvl L S pre m Q marks := by
  intro c a c' run
  obtain ⟨grows, keeps⟩ := h c a c' run
  refine ⟨grows, ?_⟩
  intro known fits inside holds
  obtain ⟨inside', holds', post⟩ := keeps (before known) fits inside holds
  exact ⟨inside', holds', after a known post⟩

theorem Within.seq {m : CompilerM α} {f : α → CompilerM β} {P : α → Prop} {Q : β → Prop}
    {marks : β → List Mark} (hm : Within lvl L S pre m P)
    (hf : ∀ a, Within lvl L S pre (f a) Q marks) : Within lvl L S pre (m >>= f) Q marks :=
  hm.bind fun a => (hf a).weaken And.left fun _ _ post => post

theorem Within.pure {a : α} {Q : α → Prop} {marks : α → List Mark} (h : pre → Q a)
    (known : ∀ m ∈ marks a, m ∈ S) : Within lvl L S pre (Pure.pure a : CompilerM α) Q marks := by
  intro c b c' run
  obtain ⟨rfl, rfl⟩ := pure_ok.mp run
  refine ⟨Grows.refl _ _, ?_⟩
  intro before _ inside holds
  refine ⟨inside, ?_, h before⟩
  intro m mem
  rcases List.mem_append.mp mem with new | old
  · exact holds m (known m new)
  · exact holds m old

theorem Within.done {a : α} : Within lvl L S pre (Pure.pure a : CompilerM α) :=
  .pure (fun _ => trivial) (by simp)

theorem Within.fail {message : String} {Q : α → Prop} {marks : α → List Mark} :
    Within lvl L S pre (LVCompiler.fail message : CompilerM α) Q marks := by
  intro c b c' run
  cases run

theorem Within.ite {p : Prop} [Decidable p] {m m' : CompilerM α} {Q : α → Prop}
    {marks : α → List Mark} (h : Within lvl L S pre m Q marks)
    (h' : Within lvl L S pre m' Q marks) :
    Within lvl L S pre (if p then m else m') Q marks := by
  split
  · exact h
  · exact h'

/-- `if p then m`, before the rest. -/
theorem Within.guarded {p : Prop} [Decidable p] {m : CompilerM PUnit} {f : PUnit → CompilerM α}
    {Q : α → Prop} {marks : α → List Mark} (hm : Within lvl L S pre m)
    (hf : Within lvl L S pre (f ⟨⟩) Q marks) :
    Within lvl L S pre (if p then m >>= f else f ⟨⟩) Q marks :=
  .ite (hm.seq fun _ => hf) hf

/-! ## Operations that add no instruction -/

/-- No slot, target, instruction or jump more. -/
structure Slack (fs fs' : FunctionState) : Prop where
  locals : fs'.vlocals.length ≤ fs.vlocals.length
  stacksize : fs'.stacksize = fs.stacksize
  targets : fs'.targetstack = fs.targetstack
  code : fs'.instructions = fs.instructions
  breaks : fs'.unresolvedbreaks = fs.unresolvedbreaks
  continues : fs'.unresolvedcontinues = fs.unresolvedcontinues
  functions : fs'.functions = fs.functions

theorem Slack.refl (fs : FunctionState) : Slack fs fs := ⟨le_refl _, rfl, rfl, rfl, rfl, rfl, rfl⟩

theorem Slack.grows {fs fs' : FunctionState} (h : Slack fs fs') : Grows lvl fs fs' :=
  ⟨le_of_eq h.stacksize.symm, fun _ => ⟨h.breaks, h.continues⟩⟩

theorem Slack.inside {fs fs' : FunctionState} (h : Slack fs fs') (inside : Inside L fs) :
    Inside L fs' where
  locals := by
    rw [h.stacksize]
    exact h.locals.trans inside.locals
  targets := by
    rw [h.targets]
    exact inside.targets
  code := by
    rw [h.code]
    exact inside.code
  breaks := by
    rw [h.breaks, h.code]
    exact inside.breaks
  continues := by
    rw [h.continues, h.code]
    exact inside.continues
  functions := by
    rw [h.functions]
    exact inside.functions

theorem Slack.holds {fs fs' : FunctionState} (h : Slack fs fs') (holds : Holds S fs) :
    Holds S fs' := by
  rw [Holds, h.code]
  exact holds

theorem Within.slack {m : CompilerM α} {Q : α → Prop}
    (h : ∀ c a c', m c = .ok (a, c') → Slack c.fs c'.fs)
    (post : ∀ c a c', m c = .ok (a, c') → c'.fs.stacksize ≤ L.size → Inside L c.fs → Q a) :
    Within lvl L S pre m Q := by
  intro c a c' run
  have same := h c a c' run
  refine ⟨same.grows, ?_⟩
  intro _ fits inside holds
  exact ⟨same.inside inside, same.holds holds, post c a c' run fits inside⟩

theorem Within.updateSlack {f : FunctionState → FunctionState} (h : ∀ fs, Slack fs (f fs)) :
    Within lvl L S pre (updateFs f) := by
  refine .slack ?_ fun _ _ _ _ _ _ => trivial
  intro c a c' run
  cases run
  exact h c.fs

theorem Within.get : Within lvl L S pre (MonadState.get : CompilerM LVCompiler) := by
  refine .slack ?_ fun _ _ _ _ _ _ => trivial
  intro c a c' run
  cases run
  exact Slack.refl _

theorem Within.modifyGet {f : LVCompiler → LVCompiler} (h : ∀ c, Slack c.fs (f c).fs) :
    Within lvl L S pre (modify f : CompilerM PUnit) := by
  refine .slack ?_ fun _ _ _ _ _ _ => trivial
  intro c a c' run
  cases run
  exact h c

theorem Within.liftFs {f : FunctionState → Except CompileError (α × FunctionState)} {Q : α → Prop}
    (h : ∀ fs a fs', f fs = .ok (a, fs') → Grows lvl fs fs' ∧
      (fs'.stacksize ≤ L.size → Inside L fs → Holds S fs → Inside L fs' ∧ Holds S fs' ∧ Q a)) :
    Within lvl L S pre (LVCompiler.liftFs f) Q := by
  intro c a c' run
  unfold LVCompiler.liftFs at run
  split at run
  · rename_i eq
    cases run
    obtain ⟨grows, keeps⟩ := h _ _ _ eq
    exact ⟨grows, fun _ => keeps⟩
  · cases run

theorem Within.liftSlack {f : FunctionState → Except CompileError (α × FunctionState)}
    {Q : α → Prop} (h : ∀ fs a fs', f fs = .ok (a, fs') → Slack fs fs')
    (post : ∀ fs a fs', f fs = .ok (a, fs') → Inside L fs → Q a) :
    Within lvl L S pre (LVCompiler.liftFs f) Q := by
  refine .liftFs ?_
  intro fs a fs' run
  have same := h fs a fs' run
  refine ⟨same.grows, ?_⟩
  intro _ inside holds
  exact ⟨same.inside inside, same.holds holds, post fs a fs' run inside⟩

theorem within_getEs : Within lvl L S pre getEs := .seq .get fun _ => .done
theorem within_setEs {es : ExpState} : Within lvl L S pre (setEs es) :=
  .modifyGet fun _ => Slack.refl _
theorem within_setEtype {etype : ExpType} : Within lvl L S pre (setEtype etype) :=
  .modifyGet fun _ => Slack.refl _
theorem within_setEpos {epos : Int} : Within lvl L S pre (setEpos epos) :=
  .modifyGet fun _ => Slack.refl _
theorem within_isConstant {name : String} : Within lvl L S pre (isConstant name) :=
  .seq .get fun _ => .done
theorem within_addConstant {name : String} {value : Constant} :
    Within lvl L S pre (addConstant name value) := .modifyGet fun _ => Slack.refl _
theorem within_isLocal {n : Nat} : Within lvl L S pre (isLocal n) := .seq .get fun _ => .done
theorem within_getCurrentPos : Within lvl L S pre getCurrentPos := .seq .get fun _ => .done
theorem within_snoozeOpt : Within lvl L S pre snoozeOpt :=
  .updateSlack fun _ => ⟨le_refl _, rfl, rfl, rfl, rfl, rfl, rfl⟩

theorem within_getConstant {cons : LVObject} : Within lvl L S pre (getConstant cons) := by
  refine .liftSlack ?_ fun _ _ _ _ _ => trivial
  intro fs a fs' run
  unfold FunctionState.getConstant at run
  split at run
  · cases run
    exact Slack.refl _
  · split at run
    · cases run
    · cases run
      exact ⟨le_refl _, rfl, rfl, rfl, rfl, rfl, rfl⟩

/-! ## Targets and locals -/

theorem topTarget_cases {fs fs' : FunctionState} {n : Nat}
    (run : (do return (← fs.topTarget, fs)) = Except.ok (n, fs')) :
    n ∈ fs.targetstack ∧ fs' = fs := by
  unfold FunctionState.topTarget at run
  split at run
  · cases run
  · rename_i eq
    cases run
    exact ⟨by simp [eq], rfl⟩

theorem within_topTarget : Within lvl L S pre topTarget (· < L.size) := by
  refine .liftSlack ?_ ?_
  · intro fs n fs' run
    rw [(topTarget_cases run).2]
    exact Slack.refl fs
  · intro fs n fs' run inside
    exact inside.targets n (topTarget_cases run).1

theorem within_pushTargetAt {n : Nat} (h : pre → n < L.size) :
    Within lvl L S pre (pushTargetAt n) := by
  intro c a c' run
  cases run
  refine ⟨⟨le_refl _, fun _ => ⟨rfl, rfl⟩⟩, ?_⟩
  intro before _ inside holds
  refine ⟨{ inside with targets := ?_ }, holds, trivial⟩
  intro k mem
  rcases List.mem_cons.mp mem with rfl | old
  · exact h before
  · exact inside.targets k old

theorem popTarget_cases {fs fs' : FunctionState} {n : Nat} (run : fs.popTarget = .ok (n, fs')) :
    n ∈ fs.targetstack ∧ ∃ vlocals rest, vlocals.length ≤ fs.vlocals.length ∧
      fs.targetstack = n :: rest ∧ fs' = { fs with vlocals := vlocals, targetstack := rest } := by
  unfold FunctionState.popTarget at run
  split at run
  · cases run
  · rename_i npos rest eq
    split at run
    · cases run
    · cases run
      refine ⟨by simp [eq], _, rest, ?_, eq, rfl⟩
      split
      · rw [List.length_dropLast]
        omega
      · exact le_refl _

theorem popTarget_inside {fs fs' : FunctionState} {n : Nat} (run : fs.popTarget = .ok (n, fs'))
    (inside : Inside L fs) : Inside L fs' ∧ n < L.size := by
  obtain ⟨mem, vlocals, rest, length, eq, rfl⟩ := popTarget_cases run
  refine ⟨{ inside with locals := length.trans inside.locals, targets := ?_ },
    inside.targets n mem⟩
  intro k old
  exact inside.targets k (by rw [eq]; exact List.mem_cons_of_mem _ old)

theorem within_popTarget : Within lvl L S pre popTarget (· < L.size) := by
  refine .liftFs ?_
  intro fs n fs' run
  obtain ⟨-, vlocals, rest, -, -, after⟩ := popTarget_cases run
  refine ⟨?_, ?_⟩
  · rw [after]
    exact ⟨le_refl _, fun _ => ⟨rfl, rfl⟩⟩
  · intro _ inside holds
    obtain ⟨inside', lt⟩ := popTarget_inside run inside
    refine ⟨inside', ?_, lt⟩
    rw [after]
    exact holds

/-- The slot that `AllocStackPos` hands out. -/
theorem pushTarget_cases {fs fs' : FunctionState} {n : Nat} (run : fs.pushTarget = .ok (n, fs')) :
    n = fs.vlocals.length ∧ fs' = { fs with
      vlocals := fs.vlocals ++ [⟨none, 0⟩], targetstack := n :: fs.targetstack
      stacksize := max fs.stacksize (n + 1) } := by
  simp only [FunctionState.pushTarget, FunctionState.allocStackPos, List.length_append,
    List.length_singleton] at run
  by_cases more : fs.vlocals.length + 1 > fs.stacksize
  · by_cases full : fs.stacksize > MAX_FUNC_STACKSIZE
    · rw [if_pos more, if_pos full] at run
      cases run
    · rw [if_pos more, if_neg full] at run
      cases run
      exact ⟨rfl, by rw [max_eq_right (by omega)]⟩
  · rw [if_neg more] at run
    cases run
    exact ⟨rfl, by rw [max_eq_left (by omega)]⟩

theorem within_pushTarget : Within lvl L S pre pushTarget (· < L.size) := by
  refine .liftFs ?_
  intro fs n fs' run
  obtain ⟨new, after⟩ := pushTarget_cases run
  rw [after]
  refine ⟨⟨le_max_left _ _, fun _ => ⟨rfl, rfl⟩⟩, ?_⟩
  intro fits inside holds
  have lt : n < L.size := (le_max_right fs.stacksize (n + 1)).trans fits
  refine ⟨{ inside with locals := ?_, targets := ?_ }, holds, lt⟩
  · simp only [List.length_append, List.length_singleton]
    have := inside.locals
    omega
  · intro k mem
    rcases List.mem_cons.mp mem with rfl | old
    · exact lt
    · exact inside.targets k old

theorem within_pushLocalVariable {name : String} :
    Within lvl L S pre (pushLocalVariable name) (· < L.size) := by
  refine .liftFs ?_
  intro fs n fs' run
  cases run
  refine ⟨⟨le_max_left _ _, fun _ => ⟨rfl, rfl⟩⟩, ?_⟩
  intro fits inside holds
  simp only [List.length_append, List.length_singleton] at fits
  refine ⟨{ inside with locals := ?_ }, holds, ?_⟩
  · exact le_max_right _ _
  · exact (le_max_right fs.stacksize _).trans fits

theorem within_getLocalVariable {name : String} :
    Within lvl L S pre (getLocalVariable name) fun r => ∀ pos, r = some pos → pos < L.size := by
  refine .slack ?_ ?_
  · intro c a c' run
    cases run
    exact Slack.refl _
  · intro c a c' run fits inside pos eq
    cases run
    have mem := List.mem_of_find?_eq_some eq
    simp only [List.mem_reverse, List.mem_range] at mem
    have := inside.locals
    omega

theorem Marked.slack {p p' : FunctionState} (h : Marked p p') : Slack p p' := by
  have length : p'.vlocals.length = p.vlocals.length := by
    simpa using congrArg List.length h.names
  rw [h.same]
  exact ⟨le_of_eq length, rfl, rfl, rfl, rfl, rfl, rfl⟩

theorem within_getOuterVariable {name : String} : Within lvl L S pre (getOuterVariable name) := by
  refine .slack ?_ fun _ _ _ _ _ _ => trivial
  intro c a c' run
  cases run
  exact (outerVariable_marks name c.fs c.parents).1.slack

/-! ## Instructions -/

theorem Keeps.refl (code : List LVInstruction) : Keeps code code := fun _ h => h

theorem keeps_append (code new : List LVInstruction) : Keeps code (code ++ new) := by
  intro m holds
  obtain ⟨i, at', offset⟩ := holds
  have lt : m.pos < code.length := (List.getElem?_eq_some_iff.mp at').1
  exact ⟨i, by rw [List.getElem?_append_left lt, at'], offset⟩

/-- The code may change where no mark is lost. -/
theorem Inside.recode {fs : FunctionState} (inside : Inside L fs) {code : List LVInstruction}
    (opt : Bool) (lines : List LVLineInfo) (uses : ∀ i ∈ code, i.Uses L)
    (keeps : Keeps fs.instructions code) :
    Inside L { fs with instructions := code, optimization := opt, lineinfos := lines } :=
  { inside with
    code := uses
    breaks := fun pos mem => keeps _ (inside.breaks pos mem)
    continues := fun pos mem => keeps _ (inside.continues pos mem) }

theorem addInstruction_recode (fs : FunctionState) (i : LVInstruction) : ∃ opt lines,
    fs.addInstruction i = { fs with
      instructions := (fs.addInstruction i).instructions, optimization := opt, lineinfos := lines } := by
  unfold FunctionState.addInstruction
  split
  · split
    · exact ⟨_, _, rfl⟩
    · exact ⟨_, _, rfl⟩
    · exact ⟨_, _, rfl⟩
  · exact ⟨_, _, rfl⟩

theorem addInstruction_keeps (fs : FunctionState) (i : LVInstruction) :
    Keeps fs.instructions (fs.addInstruction i).instructions := by
  rcases addInstruction_instructions fs i with eq | ⟨code, pi, eq, eq'⟩
  · rw [eq]
    exact keeps_append _ _
  · rw [eq, eq']
    intro m holds
    obtain ⟨j, at', offset, jump⟩ := holds
    refine ⟨j, ?_, offset, jump⟩
    by_cases front : m.pos < code.length
    · rw [List.getElem?_append_left front] at at' ⊢
      exact at'
    · rw [List.getElem?_append_right (by omega)] at at' ⊢
      obtain ⟨zero, rfl⟩ : m.pos - code.length = 0 ∧ pi = j := by
        rw [List.getElem?_singleton] at at'
        split at at'
        · exact ⟨‹_›, Option.some.inj at'⟩
        · cases at'
      obtain ⟨i', both⟩ := rewriting_offset fs i offset
      rw [both, zero]
      rfl

theorem addInstruction_grows (fs : FunctionState) (i : LVInstruction) :
    Grows lvl fs (fs.addInstruction i) := by
  obtain ⟨opt, lines, eq⟩ := addInstruction_recode fs i
  rw [eq]
  exact ⟨le_refl _, fun _ => ⟨rfl, rfl⟩⟩

theorem addInstruction_inside {fs : FunctionState} {i : LVInstruction} (inside : Inside L fs)
    (uses : i.Uses L) : Inside L (fs.addInstruction i) := by
  obtain ⟨opt, lines, eq⟩ := addInstruction_recode fs i
  rw [eq]
  exact inside.recode opt lines (addInstruction_uses fs inside.code uses) (addInstruction_keeps fs i)

theorem within_instruction {i : LVInstruction} (uses : pre → i.Uses L) :
    Within lvl L S pre (updateFs (·.addInstruction i)) := by
  intro c a c' run
  cases run
  refine ⟨addInstruction_grows c.fs i, ?_⟩
  intro before _ inside holds
  refine ⟨addInstruction_inside inside (uses before), ?_, trivial⟩
  intro m mem
  exact addInstruction_keeps c.fs i m (holds m mem)

theorem within_addInstruction {op : Opcode} {a0 a1 a2 a3 : Int}
    (uses : pre → (instruction op a0 a1 a2 a3).Uses L) :
    Within lvl L S pre (addInstruction op a0 a1 a2 a3) := within_instruction uses

/-- The last instruction is the new one, if it is one to be completed. -/
theorem addInstruction_last (fs : FunctionState) {i : LVInstruction} (offset : i.offset = true) :
    ∃ front last, (fs.addInstruction i).instructions = front ++ [last] ∧ last.offset = true ∧
      (last = i ∨ i.op = .OP_JZ) := by
  rcases addInstruction_instructions fs i with eq | ⟨code, pi, -, eq⟩
  · exact ⟨fs.instructions, i, eq, offset, .inl rfl⟩
  · obtain ⟨front, last, new, offset', same⟩ := rewriting_last fs pi offset
    exact ⟨code ++ front, last, by rw [eq, new, List.append_assoc], offset', same⟩

theorem within_emit {op : Opcode} {a0 a1 a2 a3 : Int}
    (offset : (instruction op a0 a1 a2 a3).offset = true)
    (uses : pre → (instruction op a0 a1 a2 a3).Uses L) :
    Within lvl L S pre (emit op a0 a1 a2 a3) (fun _ => True)
      fun pos => [⟨pos, decide (op = .OP_JMP)⟩] := by
  intro c pos c' run
  obtain ⟨_, c₁, add, run⟩ := bind_ok.mp run
  obtain ⟨_, _, ⟨⟩, run⟩ := bind_ok.mp run
  obtain ⟨rfl, rfl⟩ := pure_ok.mp run
  obtain ⟨grows, keeps⟩ := @within_addInstruction lvl L S pre op a0 a1 a2 a3 uses c _ c' add
  cases add
  refine ⟨grows, ?_⟩
  intro before fits inside holds
  obtain ⟨inside', holds', -⟩ := keeps before fits inside holds
  refine ⟨inside', ?_, trivial⟩
  rw [Holds, List.forall_mem_append]
  refine ⟨?_, holds'⟩
  simp only [List.mem_singleton, forall_eq]
  obtain ⟨front, last, eq, offset', same⟩ :=
    addInstruction_last c.fs (i := instruction op a0 a1 a2 a3) offset
  refine ⟨last, ?_, offset', ?_⟩
  · simp [eq]
  · intro jump
    rcases same with rfl | jz
    · exact of_decide_eq_true jump
    · rw [show op = .OP_JZ from jz] at jump
      cases jump

/-! ## Completing an instruction -/

theorem modify_forall {code : List LVInstruction} {pos : Nat} {f : LVInstruction → LVInstruction}
    {P : LVInstruction → Prop} (h : ∀ i ∈ code, P i) (hf : ∀ i, code[pos]? = some i → P (f i)) :
    ∀ i ∈ code.modify pos f, P i := by
  intro i mem
  obtain ⟨k, lt, eq⟩ := List.getElem_of_mem mem
  have some := List.getElem?_eq_getElem lt
  rw [eq, List.getElem?_modify] at some
  cases old : code[k]? with
  | none => simp [old] at some
  | some j =>
    simp only [old, Option.map_eq_map, Option.map_some, Option.some.injEq] at some
    by_cases same : pos = k
    · rw [if_pos same] at some
      rw [← some]
      exact hf j (by rw [same]; exact old)
    · rw [if_neg same] at some
      rw [← some]
      exact h j (List.mem_of_getElem? old)

theorem modify_keeps {code : List LVInstruction} {pos : Nat} {f : LVInstruction → LVInstruction}
    (kind : ∀ i, (f i).op = i.op ∧ (i.offset = true → (f i).offset = true)) :
    Keeps code (code.modify pos f) := by
  intro m holds
  obtain ⟨i, at', offset, jump⟩ := holds
  by_cases same : pos = m.pos
  · refine ⟨f i, ?_, (kind i).2 offset, fun h => (kind i).1.trans (jump h)⟩
    simp [same, at']
  · exact ⟨i, by simp [same, at'], offset, jump⟩

theorem modifyInstruction_inside {fs : FunctionState} {pos : Nat}
    {f : LVInstruction → LVInstruction} (inside : Inside L fs)
    (kind : ∀ i, (f i).op = i.op ∧ (i.offset = true → (f i).offset = true))
    (uses : ∀ i, fs.instructions[pos]? = some i → i.Uses L → (f i).Uses L) :
    Inside L (fs.modifyInstruction pos f) :=
  inside.recode fs.optimization fs.lineinfos
    (modify_forall inside.code fun i at' => uses i at' (inside.code i (List.mem_of_getElem? at')))
    (modify_keeps kind)

theorem within_modify {pos : Nat} {jump : Bool} {f : LVInstruction → LVInstruction}
    (known : ⟨pos, jump⟩ ∈ S) (kind : ∀ i, (f i).op = i.op ∧ (i.offset = true → (f i).offset = true))
    (uses : pre → ∀ i, i.offset = true → (jump = true → i.op = .OP_JMP) → i.Uses L → (f i).Uses L) :
    Within lvl L S pre (updateFs (·.modifyInstruction pos f)) := by
  intro c a c' run
  cases run
  refine ⟨⟨le_refl _, fun _ => ⟨rfl, rfl⟩⟩, ?_⟩
  intro before _ inside holds
  refine ⟨modifyInstruction_inside inside kind ?_, ?_, trivial⟩
  · intro i at' used
    obtain ⟨j, at'', offset, isJump⟩ := holds _ known
    rw [at'] at at''
    cases at''
    exact uses before i offset isJump used
  · intro m mem
    exact modify_keeps kind m (holds m mem)

theorem within_setArg1 {pos : Nat} {jump : Bool} {val : Int} (known : ⟨pos, jump⟩ ∈ S) :
    Within lvl L S pre (setArg1 pos val) :=
  within_modify known (fun _ => ⟨rfl, fun offset => offset⟩) fun _ _ offset _ used =>
    uses_setArg1 offset val used

theorem within_setArg0 {pos : Nat} {jump : Bool} {r : Nat} (known : ⟨pos, jump⟩ ∈ S)
    (lt : pre → r < L.size) : Within lvl L S pre (setArg0 pos r) :=
  within_modify known (fun _ => ⟨rfl, fun offset => offset⟩) fun before _ offset _ used =>
    uses_setArg0 offset (lt before) used

/-! ## Scopes and jumps -/

theorem within_beginScope : Within lvl L S pre beginScope := by
  refine .slack ?_ fun _ _ _ _ _ _ => trivial
  intro c a c' run
  cases run
  exact Slack.refl _

theorem setStackSize_slack (fs : FunctionState) (n : Nat) : Slack fs (fs.setStackSize n) :=
  ⟨List.length_take_le' n fs.vlocals, rfl, rfl, rfl, rfl, rfl, rfl⟩

theorem within_endScopeNoClose {scope : Scope} : Within lvl L S pre (endScopeNoClose scope) := by
  refine .modifyGet ?_
  intro c
  dsimp only
  split
  · exact setStackSize_slack _ _
  · exact Slack.refl _

/-- `CLOSE` names the limit of a scope, not a register. -/
theorem uses_close {a1 : Int} : (instruction .OP_CLOSE 0 a1).Uses L := by
  intro r mem
  cases mem

theorem within_resolveOuters : Within lvl L S pre resolveOuters :=
  .seq .get fun _ => .ite (within_addInstruction fun _ => uses_close) .done

theorem within_endScope {scope : Scope} : Within lvl L S pre (endScope scope) := by
  have restore : Within lvl L S pre (modify fun c => { c with scope := scope } : CompilerM PUnit) :=
    .modifyGet fun _ => Slack.refl _
  refine .seq .get fun c => .ite ?_ restore
  refine .seq (.updateSlack fun fs => setStackSize_slack fs _) fun _ => .seq .get fun c' => ?_
  exact .ite (.seq (within_addInstruction fun _ => uses_close) fun _ => restore) restore

theorem within_beginBreakableBlock : Within lvl L S pre beginBreakableBlock := by
  refine .slack ?_ fun _ _ _ _ _ _ => trivial
  intro c a c' run
  cases run
  exact ⟨le_refl _, rfl, rfl, rfl, rfl, rfl, rfl⟩

/-- Completing a jump keeps its kind, and that of any other instruction. -/
theorem offset_setParams {i : LVInstruction} (offset : i.offset = true) (a1 : Int) :
    { i with arg0 := uchar 0, arg1 := a1, arg2 := uchar 0, arg3 := uchar 0 }.offset = true := by
  obtain ⟨op, b0, b1, b2, b3⟩ := i
  cases op <;> first | rfl | exact absurd offset Bool.false_ne_true

theorem setIntructionParams_inside {fs : FunctionState} {pos : Nat} (a1 : Int)
    (inside : Inside L fs) (jump : Mark.Holds ⟨pos, true⟩ fs.instructions) :
    Inside L (fs.setIntructionParams pos 0 a1 0) := by
  obtain ⟨j, at', -, isJump⟩ := jump
  refine modifyInstruction_inside inside (fun i => ⟨rfl, (offset_setParams · a1)⟩) ?_
  intro i at'' _
  rw [at'] at at''
  cases at''
  exact uses_jump (isJump rfl)

theorem setIntructionParams_keeps (fs : FunctionState) (pos : Nat) (a1 : Int) :
    Keeps fs.instructions (fs.setIntructionParams pos 0 a1 0).instructions :=
  modify_keeps fun _ => ⟨rfl, (offset_setParams · a1)⟩

theorem within_setIntructionParams {pos : Nat} {a1 : Int} (known : ⟨pos, true⟩ ∈ S) :
    Within lvl L S pre (updateFs (·.setIntructionParams pos 0 a1 0)) := by
  intro c a c' run
  cases run
  refine ⟨⟨le_refl _, fun _ => ⟨rfl, rfl⟩⟩, ?_⟩
  intro _ _ inside holds
  refine ⟨setIntructionParams_inside a1 inside (holds _ known), ?_, trivial⟩
  intro m mem
  exact setIntructionParams_keeps c.fs pos a1 m (holds m mem)

/-- What resolving jumps does to a state. -/
structure Resolves (L : FrameSize) (fs fs' : FunctionState) : Prop where
  stacksize : fs'.stacksize = fs.stacksize
  inside : Inside L fs → Inside L fs'
  keeps : Inside L fs → Keeps fs.instructions fs'.instructions

theorem Resolves.refl (fs : FunctionState) : Resolves L fs fs := ⟨rfl, fun h => h, fun _ => .refl _⟩

theorem Resolves.trans {s t u : FunctionState} (h₁ : Resolves L s t) (h₂ : Resolves L t u) :
    Resolves L s u where
  stacksize := h₂.stacksize.trans h₁.stacksize
  inside h := h₂.inside (h₁.inside h)
  keeps h := fun m holds => h₂.keeps (h₁.inside h) m (h₁.keeps h m holds)

theorem resolveBreaks_resolves (fs : FunctionState) (n : Nat) :
    Resolves L fs (resolveBreaks fs n) := by
  induction n generalizing fs with
  | zero => exact .refl fs
  | succ n ih =>
    unfold resolveBreaks
    split
    · exact .refl fs
    · rename_i pos rest eq
      dsimp only
      refine .trans ?_ (ih _)
      refine ⟨rfl, ?_, ?_⟩
      · intro inside
        have popped : Inside L { fs with unresolvedbreaks := rest } :=
          { inside with breaks := fun p mem =>
              inside.breaks p (by rw [eq]; exact List.mem_cons_of_mem _ mem) }
        exact setIntructionParams_inside _ popped (inside.breaks pos (by simp [eq]))
      · intro _
        exact setIntructionParams_keeps { fs with unresolvedbreaks := rest } pos _

theorem resolveContinues_resolves (target : Int) (fs : FunctionState) (n : Nat) :
    Resolves L fs (resolveContinues target fs n) := by
  induction n generalizing fs with
  | zero => exact .refl fs
  | succ n ih =>
    unfold resolveContinues
    split
    · exact .refl fs
    · rename_i pos rest eq
      dsimp only
      refine .trans ?_ (ih _)
      refine ⟨rfl, ?_, ?_⟩
      · intro inside
        have popped : Inside L { fs with unresolvedcontinues := rest } :=
          { inside with continues := fun p mem =>
              inside.continues p (by rw [eq]; exact List.mem_cons_of_mem _ mem) }
        exact setIntructionParams_inside _ popped (inside.continues pos (by simp [eq]))
      · intro _
        exact setIntructionParams_keeps { fs with unresolvedcontinues := rest } pos _

theorem Within.resolves {f : FunctionState → FunctionState} (h : ∀ fs, Resolves L fs (f fs)) :
    Within .statement L S pre (updateFs f) := by
  intro c a c' run
  cases run
  refine ⟨⟨le_of_eq (h c.fs).stacksize.symm, fun expression => by cases expression⟩, ?_⟩
  intro _ _ inside holds
  refine ⟨(h c.fs).inside inside, ?_, trivial⟩
  intro m mem
  exact (h c.fs).keeps inside m (holds m mem)

theorem Slack.resolves {fs fs' : FunctionState} (h : Slack fs fs') : Resolves L fs fs' where
  stacksize := h.stacksize
  inside inside := h.inside inside
  keeps _ := by
    rw [h.code]
    exact .refl _

theorem within_endBreakableBlock {start : Nat × Nat} {target : Int} :
    Within .statement L S pre (endBreakableBlock start target) := by
  refine .resolves ?_
  intro fs
  dsimp only
  refine .trans (resolveContinues_resolves target fs (fs.unresolvedcontinues.length - start.2))
    (.trans (resolveBreaks_resolves _ (fs.unresolvedbreaks.length - start.1)) ?_)
  exact Slack.resolves ⟨le_refl _, rfl, rfl, rfl, rfl, rfl, rfl⟩

theorem within_resolveBreaks {n : Nat} : Within .statement L S pre
    (updateFs fun fs =>
      let fs := resolveBreaks fs (fs.unresolvedbreaks.length - n)
      { fs with breaktargets := fs.breaktargets.tail }) := by
  refine .resolves ?_
  intro fs
  dsimp only
  refine .trans (resolveBreaks_resolves fs (fs.unresolvedbreaks.length - n)) ?_
  exact Slack.resolves ⟨le_refl _, rfl, rfl, rfl, rfl, rfl, rfl⟩

theorem within_addBreak {pos : Nat} (known : ⟨pos, true⟩ ∈ S) : Within .statement L S pre
    (updateFs fun fs => { fs with unresolvedbreaks := pos :: fs.unresolvedbreaks }) := by
  intro c a c' run
  cases run
  refine ⟨⟨le_refl _, fun expression => by cases expression⟩, ?_⟩
  intro _ _ inside holds
  refine ⟨{ inside with breaks := ?_ }, holds, trivial⟩
  exact List.forall_mem_cons.mpr ⟨holds _ known, inside.breaks⟩

theorem within_addContinue {pos : Nat} (known : ⟨pos, true⟩ ∈ S) : Within .statement L S pre
    (updateFs fun fs => { fs with unresolvedcontinues := pos :: fs.unresolvedcontinues }) := by
  intro c a c' run
  cases run
  refine ⟨⟨le_refl _, fun expression => by cases expression⟩, ?_⟩
  intro _ _ inside holds
  refine ⟨{ inside with continues := ?_ }, holds, trivial⟩
  exact List.forall_mem_cons.mpr ⟨holds _ known, inside.continues⟩

/-! ## What statements do to instructions -/

theorem modify_last (code : List LVInstruction) (pi : LVInstruction)
    (f : LVInstruction → LVInstruction) :
    (code ++ [pi]).modify code.length f = code ++ [f pi] := by
  induction code with
  | nil => rfl
  | cons i code ih => simpa using ih

/-- `DiscardTarget` puts the marker in place of a target. -/
theorem uses_discarded {pi : LVInstruction} (kind : discardable pi.op = true) (h : pi.Uses L) :
    { pi with arg0 := 0xFF }.Uses L := by
  obtain ⟨op, a0, a1, a2, a3⟩ := pi
  cases op <;> first
    | exact absurd kind Bool.false_ne_true
    | exact @uses_marker L _ [(a2 : Int)] (fun _ => rfl) h
    | exact @uses_marker L _ [a1, (a2 : Int)] (fun _ => rfl) h
    | exact @uses_marker L _ [a1, (a2 : Int), (a3 : Int)] (fun _ => rfl) h

theorem within_discardTarget : Within lvl L S pre discardTarget := by
  refine .liftFs ?_
  intro fs a fs' run
  cases discarded : fs.discardTarget with
  | error e => simp [discarded, bind, Except.bind] at run
  | ok after =>
    simp only [discarded, bind, Except.bind, pure, Except.pure, Except.ok.injEq, Prod.mk.injEq,
      true_and] at run
    subst run
    obtain ⟨n, fs₁, popped, changed⟩ := discardTarget_cases discarded
    obtain ⟨-, vlocals, rest, -, -, eq⟩ := popTarget_cases popped
    rcases changed with rfl | ⟨code, pi, start, kind, -, rfl⟩
    · refine ⟨by rw [eq]; exact ⟨le_refl _, fun _ => ⟨rfl, rfl⟩⟩, ?_⟩
      intro _ inside holds
      refine ⟨(popTarget_inside popped inside).1, ?_, trivial⟩
      rw [eq]
      exact holds
    · have front : fs₁.instructions = code ++ [pi] := congrArg Code.instructions start
      have same : fs₁.instructions = fs.instructions := by rw [eq]
      have keeps : Keeps fs₁.instructions (code ++ [{ pi with arg0 := 0xFF }]) := by
        rw [front, ← modify_last code pi ({ · with arg0 := 0xFF })]
        exact modify_keeps fun _ => ⟨rfl, fun offset => offset⟩
      refine ⟨by rw [eq]; exact ⟨le_refl _, fun _ => ⟨rfl, rfl⟩⟩, ?_⟩
      intro _ inside holds
      have inside₁ := (popTarget_inside popped inside).1
      have uses := inside₁.code
      rw [front, List.forall_mem_append, List.forall_mem_singleton] at uses
      refine ⟨inside₁.recode fs₁.optimization fs₁.lineinfos ?_ keeps, ?_, trivial⟩
      · rw [List.forall_mem_append, List.forall_mem_singleton]
        exact ⟨uses.1, uses_discarded kind uses.2⟩
      · intro m mem
        exact keeps m (by rw [same]; exact holds m mem)

theorem uses_line {line : Int} : (instruction .OP_LINE 0 line).Uses L := by
  intro r mem
  cases mem

/-- The state after `AddLineInfos`. -/
theorem addLineInfos_cases (fs : FunctionState) (line : Int) (lineop force : Bool) :
    Slack fs (fs.addLineInfos line lineop force) ∨
    Slack (fs.addInstruction (instruction .OP_LINE 0 line)) (fs.addLineInfos line lineop force) := by
  unfold FunctionState.addLineInfos
  split
  · cases lineop with
    | true => exact .inr ⟨le_refl _, rfl, rfl, rfl, rfl, rfl, rfl⟩
    | false => exact .inl ⟨le_refl _, rfl, rfl, rfl, rfl, rfl, rfl⟩
  · exact .inl (Slack.refl fs)

theorem addLineInfos_grows (fs : FunctionState) (line : Int) (lineop force : Bool) :
    Grows lvl fs (fs.addLineInfos line lineop force) := by
  rcases addLineInfos_cases fs line lineop force with slack | slack
  · exact slack.grows
  · exact (addInstruction_grows fs _).trans slack.grows

theorem addLineInfos_inside {fs : FunctionState} (inside : Inside L fs) (line : Int)
    (lineop force : Bool) : Inside L (fs.addLineInfos line lineop force) := by
  rcases addLineInfos_cases fs line lineop force with slack | slack
  · exact slack.inside inside
  · exact slack.inside (addInstruction_inside inside uses_line)

theorem within_addLineInfos {line : Int} {lineop force : Bool} :
    Within lvl L S pre (updateFs (·.addLineInfos line lineop force)) := by
  intro c a c' run
  cases run
  refine ⟨addLineInfos_grows c.fs line lineop force, ?_⟩
  intro _ _ inside holds
  refine ⟨addLineInfos_inside inside line lineop force, ?_, trivial⟩
  rcases addLineInfos_cases c.fs line lineop force with slack | slack
  · exact slack.holds holds
  · refine slack.holds ?_
    intro m mem
    exact addInstruction_keeps c.fs _ m (holds m mem)

theorem within_replay {exp : List LVInstruction} (uses : pre → ∀ i ∈ exp, i.Uses L) :
    Within lvl L S pre (replay exp) := by
  induction exp with
  | nil => exact .updateSlack Slack.refl
  | cons i exp ih =>
    have first : Within lvl L S pre (updateFs (·.addInstruction i)) :=
      within_instruction fun before => uses before i (by simp)
    have rest := ih fun before j mem => uses before j (List.mem_cons_of_mem _ mem)
    intro c a c' run
    exact (first.seq fun _ => rest) c a c' (bind_ok.mpr ⟨(), _, rfl, run⟩)

/-- The code that is left when all from position `n` on is taken out. -/
def FunctionState.cut (fs : FunctionState) (n : Nat) : FunctionState :=
  fs.snoozeOpt.popInstructions (fs.instructions.length - n)

/-- A mark that was there before an expression survives taking the expression out. -/
theorem cut_holds {code : List LVInstruction} {fs : FunctionState} {m : Mark}
    (before : m.Holds code) (after : m.Holds fs.instructions) :
    m.Holds (fs.cut code.length).instructions := by
  obtain ⟨j, at', -⟩ := before
  obtain ⟨i, there, offset⟩ := after
  have old := (List.getElem?_eq_some_iff.mp at').1
  have lt := (List.getElem?_eq_some_iff.mp there).1
  refine ⟨i, ?_, offset⟩
  simp only [FunctionState.cut, FunctionState.snoozeOpt, FunctionState.popInstructions]
  rw [List.getElem?_take_of_lt (by omega)]
  exact there

theorem cut_inside {fs fs₁ : FunctionState} (grows : Grows .expression fs fs₁)
    (before : Inside L fs) (after : Inside L fs₁) :
    Inside L (fs₁.cut fs.instructions.length) where
  locals := after.locals
  targets := after.targets
  code i mem := after.code i (List.mem_of_mem_take mem)
  breaks pos mem := by
    have old : pos ∈ fs.unresolvedbreaks := by
      rw [← (grows.jumps rfl).1]
      exact mem
    exact cut_holds (before.breaks pos old) (after.breaks pos mem)
  continues pos mem := by
    have old : pos ∈ fs.unresolvedcontinues := by
      rw [← (grows.jumps rfl).2]
      exact mem
    exact cut_holds (before.continues pos old) (after.continues pos mem)
  functions := after.functions

/-- The increment of a `for` loop: an expression whose code is taken out again. -/
theorem Within.taken {m : CompilerM Unit} {f : List LVInstruction → CompilerM α} {Q : α → Prop}
    {marks : α → List Mark} (hm : Within .expression L S pre m)
    (hf : ∀ exp, Within .statement L S (pre ∧ ∀ i ∈ exp, i.Uses L) (f exp) Q marks) :
    Within .statement L S pre (do
      let expstart ← getCurrentPos
      m
      snoozeOpt
      let exp ← takeInstructions (expstart + 1).toNat
      f exp) Q marks := by
  intro c b c' run
  obtain ⟨_, c₀, start, run⟩ := bind_ok.mp run
  obtain ⟨_, _, ⟨⟩, start⟩ := bind_ok.mp start
  obtain ⟨rfl, rfl⟩ := pure_ok.mp start
  obtain ⟨_, c₁, first, run⟩ := bind_ok.mp run
  obtain ⟨_, _, ⟨⟩, run⟩ := bind_ok.mp run
  obtain ⟨exp, c₂, ⟨⟩, second⟩ := bind_ok.mp run
  obtain ⟨grows, keeps⟩ := hm c₀ () c₁ first
  obtain ⟨grows', keeps'⟩ := hf _ _ b c' second
  have size : (c₀.fs.getCurrentPos + 1).toNat = c₀.fs.instructions.length := by
    simp only [FunctionState.getCurrentPos]
    omega
  rw [size] at grows' keeps'
  refine ⟨⟨grows.stacksize.trans grows'.stacksize, fun expression => by cases expression⟩, ?_⟩
  intro before fits inside holds
  obtain ⟨inside₁, holds₁, -⟩ := keeps before (grows'.stacksize.trans fits) inside holds
  refine keeps' ⟨before, ?_⟩ fits (cut_inside grows inside inside₁) ?_
  · intro i mem
    exact inside₁.code i (List.mem_of_mem_drop mem)
  · intro m mem
    exact cut_holds (holds m mem) (holds₁ m mem)

/-! ## The variables of a `foreach` -/

/-- What is known of every run of a production may be assumed. -/
theorem Within.ofRun {m m' : CompilerM α} {Q : α → Prop} {marks : α → List Mark}
    (same : ∀ c a c', m c = .ok (a, c') → m' c = .ok (a, c')) (h : Within lvl L S pre m' Q marks) :
    Within lvl L S pre m Q marks := fun c a c' run => h c a c' (same c a c' run)

theorem pushLocalVariable_value {name : String} {c c' : LVCompiler} {pos : Nat}
    (run : pushLocalVariable name c = .ok (pos, c')) :
    pos = c.fs.vlocals.length ∧ c'.fs.vlocals.length = pos + 1 := by
  cases run
  exact ⟨rfl, by simp⟩

theorem addInstruction_vlocals {op : Opcode} {a0 a1 a2 a3 : Int} {c c' : LVCompiler}
    (run : addInstruction op a0 a1 a2 a3 c = .ok ((), c')) : c'.fs.vlocals = c.fs.vlocals := by
  cases run
  obtain ⟨opt, lines, eq⟩ := addInstruction_recode c.fs (instruction op a0 a1 a2 a3)
  have vlocals := congrArg FunctionState.vlocals eq
  exact vlocals

/-- Each local set to null is a register of its own. -/
theorem uses_null {pos : Nat} (h : pos < L.size) : (instruction .OP_LOADNULLS pos 1).Uses L := by
  refine uses_two rfl (FrameSize.has_byte h) ?_
  rw [show (instruction .OP_LOADNULLS pos 1).arg1 = 1 from rfl, add_sub_cancel_right]
  exact FrameSize.has_byte h

/-- What every value a production returns satisfies. -/
theorem Within.known {m : CompilerM α} {f : α → CompilerM β} {P R : α → Prop} {Q : β → Prop}
    {marks : β → List Mark} (returns : ∀ c a c', m c = .ok (a, c') → R a)
    (hm : Within lvl L S pre m P) (hf : ∀ a, R a → Within lvl L S (pre ∧ P a) (f a) Q marks) :
    Within lvl L S pre (m >>= f) Q marks := by
  intro c b c' run
  obtain ⟨a, c₁, first, second⟩ := bind_ok.mp run
  obtain ⟨grows, keeps⟩ := hm c a c₁ first
  obtain ⟨grows', keeps'⟩ := hf a (returns c a c₁ first) c₁ b c' second
  refine ⟨grows.trans grows', ?_⟩
  intro before fits inside holds
  obtain ⟨inside₁, holds₁, post⟩ := keeps before (grows'.stacksize.trans fits) inside holds
  exact keeps' ⟨before, post⟩ fits inside₁ holds₁

/-- Three locals in a row, each set to null. -/
theorem Within.nullLocals {name₁ name₂ name₃ : String} {f : Nat → CompilerM α} {Q : α → Prop}
    {marks : α → List Mark}
    (hf : ∀ pos, Within lvl L S (pre ∧ pos + 2 < L.size) (f pos) Q marks) :
    Within lvl L S pre (do
      let indexpos ← pushLocalVariable name₁
      addInstruction .OP_LOADNULLS indexpos 1
      let valuepos ← pushLocalVariable name₂
      addInstruction .OP_LOADNULLS valuepos 1
      let itrpos ← pushLocalVariable name₃
      addInstruction .OP_LOADNULLS itrpos 1
      f indexpos) Q marks := by
  have known : Within lvl L S pre (do
      let indexpos ← pushLocalVariable name₁
      addInstruction .OP_LOADNULLS indexpos 1
      let valuepos ← pushLocalVariable name₂
      addInstruction .OP_LOADNULLS valuepos 1
      let itrpos ← pushLocalVariable name₃
      addInstruction .OP_LOADNULLS itrpos 1
      if itrpos = indexpos + 2 then f indexpos else LVCompiler.fail "") Q marks := by
    refine .bind within_pushLocalVariable fun indexpos =>
      .seq (within_addInstruction fun h => uses_null h.2) fun _ =>
      .bind within_pushLocalVariable fun valuepos =>
      .seq (within_addInstruction fun h => uses_null h.2) fun _ =>
      .bind within_pushLocalVariable fun itrpos =>
      .seq (within_addInstruction fun h => uses_null h.2) fun _ => ?_
    split
    · rename_i last
      refine (hf indexpos).weaken ?_ fun _ _ post => post
      intro h
      exact ⟨h.1.1.1, last ▸ h.2⟩
    · exact .fail
  refine known.ofRun ?_
  intro c a c' run
  obtain ⟨index, c₁, push₁, run⟩ := bind_ok.mp run
  obtain ⟨_, c₂, add₁, run⟩ := bind_ok.mp run
  obtain ⟨value, c₃, push₂, run⟩ := bind_ok.mp run
  obtain ⟨_, c₄, add₂, run⟩ := bind_ok.mp run
  obtain ⟨itr, c₅, push₃, run⟩ := bind_ok.mp run
  obtain ⟨_, c₆, add₃, run⟩ := bind_ok.mp run
  have last : itr = index + 2 := by
    rw [(pushLocalVariable_value push₃).1, addInstruction_vlocals add₂,
      (pushLocalVariable_value push₂).2, (pushLocalVariable_value push₂).1,
      addInstruction_vlocals add₁, (pushLocalVariable_value push₁).2]
  refine bind_ok.mpr ⟨index, c₁, push₁, bind_ok.mpr ⟨(), c₂, add₁, bind_ok.mpr ⟨value, c₃, push₂,
    bind_ok.mpr ⟨(), c₄, add₂, bind_ok.mpr ⟨itr, c₅, push₃, bind_ok.mpr ⟨(), c₆, add₃, ?_⟩⟩⟩⟩⟩⟩
  rw [if_pos last]
  exact run

/-- A `POSTFOREACH` is added after the code there is. -/
theorem addInstruction_postforeach (fs : FunctionState) {i : LVInstruction}
    (op : i.op = .OP_POSTFOREACH) : (fs.addInstruction i).instructions = fs.instructions ++ [i] := by
  rcases addInstruction_instructions fs i with eq | ⟨code, pi, eq, eq'⟩
  · exact eq
  · rw [eq', eq, FunctionState.rewriting, op, List.append_assoc]
    rfl

theorem emit_value {op : Opcode} {a0 a1 a2 a3 : Int} {c c' : LVCompiler} {pos : Nat}
    (run : emit op a0 a1 a2 a3 c = .ok (pos, c')) :
    addInstruction op a0 a1 a2 a3 c = .ok ((), c') ∧ pos = c'.fs.instructions.length - 1 ∧
      0 < c'.fs.instructions.length := by
  obtain ⟨_, c₁, add, run⟩ := bind_ok.mp run
  obtain ⟨_, _, ⟨⟩, run⟩ := bind_ok.mp run
  obtain ⟨rfl, rfl⟩ := pure_ok.mp run
  refine ⟨add, rfl, ?_⟩
  cases add
  rcases addInstruction_instructions c.fs (instruction op a0 a1 a2 a3) with eq | ⟨code, pi, -, eq⟩
  · simp [eq]
  · have new : 0 < (c.fs.rewriting pi (instruction op a0 a1 a2 a3)).instructions.length := by
      cases c.fs.rewriting pi (instruction op a0 a1 a2 a3) <;>
        simp [FunctionState.Rewriting.instructions]
    simp only [eq, List.length_append]
    omega

/-- `FOREACH` and the `POSTFOREACH` after it are both completed later. -/
theorem Within.foreachPair {container indexpos : Nat} {f : Nat → CompilerM α} {Q : α → Prop}
    {marks : α → List Mark} (first : pre → container < L.size) (second : pre → indexpos + 2 < L.size)
    (hf : ∀ pos, Within lvl L (⟨pos + 1, false⟩ :: ⟨pos, false⟩ :: S) pre (f pos) Q marks) :
    Within lvl L S pre (do
      let foreachpos ← emit .OP_FOREACH container 0 indexpos
      addInstruction .OP_POSTFOREACH container 0 indexpos
      f foreachpos) Q marks := by
  have usesFirst : pre → (instruction .OP_FOREACH container 0 indexpos).Uses L := by
    intro before
    have fits := L.fits
    have less := second before
    rw [MAX_FUNC_STACKSIZE] at fits
    refine uses_four rfl (FrameSize.has_byte (first before)) (FrameSize.has_byte (by omega)) ?_ ?_
    · rw [show (instruction .OP_FOREACH container 0 indexpos).arg2 = indexpos from
        uchar_of_lt (by omega)]
      exact FrameSize.has (n := indexpos + 1) (by omega)
    · rw [show (instruction .OP_FOREACH container 0 indexpos).arg2 = indexpos from
        uchar_of_lt (by omega)]
      exact FrameSize.has (n := indexpos + 2) less
  have known : Within lvl L S pre (do
      let foreachpos ← emit .OP_FOREACH container 0 indexpos
      let next ← emit .OP_POSTFOREACH container 0 indexpos
      if next = foreachpos + 1 then f foreachpos else LVCompiler.fail "") Q marks := by
    refine .mark (within_emit rfl usesFirst) fun foreachpos =>
      .mark (within_emit rfl fun h => uses_one rfl (FrameSize.has_byte (first h.1))) fun next => ?_
    split
    · rename_i eq
      rw [eq]
      exact (hf foreachpos).weaken (fun h => h.1.1) fun _ _ post => post
    · exact .fail
  refine known.ofRun ?_
  intro c a c' run
  obtain ⟨pos, c₁, emitted, run⟩ := bind_ok.mp run
  obtain ⟨_, c₂, add, run⟩ := bind_ok.mp run
  obtain ⟨-, here, some⟩ := emit_value emitted
  have length : c₂.fs.instructions.length = c₁.fs.instructions.length + 1 := by
    cases add
    simp [addInstruction_postforeach c₁.fs (i := instruction .OP_POSTFOREACH container 0 indexpos) rfl]
  refine bind_ok.mpr ⟨pos, c₁, emitted, bind_ok.mpr ⟨c₂.fs.instructions.length - 1, c₂, ?_, ?_⟩⟩
  · exact bind_ok.mpr ⟨(), c₂, add, bind_ok.mpr ⟨c₂, c₂, rfl, rfl⟩⟩
  · rw [if_pos (by omega)]
    exact run

/-! ## Nested functions -/

/-- The state of a function whose parameters are known and whose body is not compiled yet. -/
structure Blank (fs : FunctionState) : Prop where
  locals : fs.vlocals.length ≤ fs.stacksize
  this : 0 < fs.stacksize
  targets : fs.targetstack = []
  code : fs.instructions = []
  breaks : fs.unresolvedbreaks = []
  continues : fs.unresolvedcontinues = []
  functions : fs.functions = []

theorem Blank.inside {fs : FunctionState} (blank : Blank fs) : Inside L fs where
  locals := blank.locals
  targets := by simp [blank.targets]
  code := by simp [blank.code]
  breaks := by simp [blank.breaks]
  continues := by simp [blank.continues]
  functions := by simp [blank.functions]

theorem addParameter_blank {fs : FunctionState} (name : String) (targets : fs.targetstack = [])
    (code : fs.instructions = []) (breaks : fs.unresolvedbreaks = [])
    (continues : fs.unresolvedcontinues = []) (functions : fs.functions = []) :
    Blank (fs.addParameter name) where
  locals := le_max_right _ _
  this := by
    simp only [FunctionState.addParameter, FunctionState.pushLocalVariable, List.length_append,
      List.length_singleton]
    omega
  targets := targets
  code := code
  breaks := breaks
  continues := continues
  functions := functions

theorem Blank.addParameter {fs : FunctionState} (blank : Blank fs) (name : String) :
    Blank (fs.addParameter name) :=
  addParameter_blank name blank.targets blank.code blank.breaks blank.continues blank.functions

/-- The registers of a function that ends inside its frame are right. -/
theorem right_of_inside {fs : FunctionState} (this : 0 < fs.stacksize)
    (inside : ∀ L : FrameSize, L.size = fs.stacksize → Inside L fs)
    (fits : fs.buildProto.Fits) : fs.buildProto.Right := by
  rw [FunctionPrototype.Fits, FunctionPrototype.all_iff] at fits
  obtain ⟨small, nested⟩ := fits
  have within := inside ⟨fs.stacksize, this, small⟩ rfl
  rw [FunctionPrototype.Right, FunctionPrototype.all_iff]
  refine ⟨⟨?_, within.code⟩, fun f mem => within.functions f mem (nested f mem)⟩
  intro r lt
  have bound : fs.stacksize ≤ 255 := small
  have lt : r < fs.stacksize := lt
  exact ⟨uchar_of_lt (by omega), by omega⟩

/-- A `RETURN` without a value names no register. -/
theorem uses_returnNull {a0 : Int} (marker : uchar a0 = 0xFF) :
    (instruction .OP_RETURN a0).Uses L := by
  intro r mem
  simp only [LVInstruction.registers, instruction, marker, if_true, List.not_mem_nil] at mem

/-- A function is closed with its last line and a `RETURN`. -/
theorem closed_right {fs : FunctionState} (endline : Int) (lineinfo : Bool) {a0 : Int}
    (marker : uchar a0 = 0xFF) (this : 0 < fs.stacksize)
    (inside : ∀ L : FrameSize, fs.stacksize ≤ L.size → Inside L fs) :
    (((fs.addLineInfos endline lineinfo true).addInstruction
      (instruction .OP_RETURN a0)).setStackSize 0).buildProto.Fits →
    (((fs.addLineInfos endline lineinfo true).addInstruction
      (instruction .OP_RETURN a0)).setStackSize 0).buildProto.Right := by
  have lines := @addLineInfos_grows .statement fs endline lineinfo true
  have returns := @addInstruction_grows .statement (fs.addLineInfos endline lineinfo true)
    (instruction .OP_RETURN a0)
  have more := (lines.trans returns).stacksize
  refine right_of_inside ?_ ?_
  · exact lt_of_lt_of_le this more
  · intro L size
    have before := inside L (by rw [size]; exact more)
    refine (setStackSize_slack _ 0).inside ?_
    exact addInstruction_inside (addLineInfos_inside before endline lineinfo true)
      (uses_returnNull marker)

theorem within_nested {funcstate : FunctionState} {body : CompilerM Unit} {endline : Int}
    (blank : Blank funcstate) (emits : Emits .statement 0 [] [] body)
    (hb : ∀ L, Within .statement L [] True body) :
    Within lvl L S pre (do enterFunction funcstate; body; leaveFunction endline) := by
  intro c a c' run
  obtain ⟨_, c₁, ⟨⟩, run⟩ := bind_ok.mp run
  obtain ⟨_, c₂, inner, run⟩ := bind_ok.mp run
  have start : Ready .statement 0 [] [] { c with fs := funcstate, parents := c.fs :: c.parents } := by
    refine ⟨Nat.zero_le _, ?_, ?_⟩
    · rw [blank.breaks]
      exact Above.refl 0 []
    · rw [blank.continues]
      exact Above.refl 0 []
  obtain ⟨-, marked, -, -⟩ := emits _ _ c₂ start inner
  unfold leaveFunction at run
  cases parents : c₂.parents with
  | nil => simp [parents] at run
  | cons parent rest =>
    simp only [parents, Except.ok.injEq, Prod.mk.injEq] at run
    obtain ⟨-, rfl⟩ := run
    rw [parents] at marked
    cases marked with
    | cons mark others =>
      have slack := mark.slack
      refine ⟨⟨le_of_eq slack.stacksize.symm, fun _ => ⟨slack.breaks, slack.continues⟩⟩, ?_⟩
      intro _ _ inside holds
      refine ⟨{ slack.inside inside with functions := ?_ }, slack.holds holds, trivial⟩
      rw [List.forall_mem_append, List.forall_mem_singleton]
      refine ⟨(slack.inside inside).functions, ?_⟩
      refine closed_right endline c₂.lineinfo rfl ?_ ?_
      · have grows := ((hb ⟨1, Nat.one_pos, by decide⟩) _ _ c₂ inner).1
        exact lt_of_lt_of_le blank.this grows.stacksize
      · intro L' fits
        exact (((hb L') _ _ c₂ inner).2 trivial fits blank.inside (by simp [Holds])).1

end

end Lavril
