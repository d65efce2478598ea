import Lavril.Expressions

/-!
# What the code of a statement does

A local variable is in the register of its position; the names and the registers are an
environment. A statement starts where nothing emitted before it changes any more, and its code is
a piece with holes for the jumps of `break` and `continue`.
-/

namespace Lavril

open LVCompiler FunctionState RelativeCode Frame

variable {G : LVObject → LVObject → Option LVObject} {L : List LVObject}
  {fs fs₁ fs₂ fs' : FunctionState} {pre seg : List LVInstruction} {names names' outer : List String}

/-! ## Environments in registers -/

/-- The virtual stack that holds just these variables. -/
def localsOf (names : List String) : List LVLocalVarInfo := names.reverse.map (⟨some ·, 0⟩)

def envOf : List String → Registers → Env
  | [], _ => []
  | name :: rest, r => (name, r rest.length) :: envOf rest r

theorem localsOf_cons (name : String) (names : List String) :
    localsOf (name :: names) = localsOf names ++ [⟨some name, 0⟩] := by
  rw [localsOf, List.reverse_cons, List.map_append]
  rfl

theorem localsOf_length (names : List String) : (localsOf names).length = names.length := by
  rw [localsOf, List.length_map, List.length_reverse]

theorem envOf_length (names : List String) (r : Registers) : (envOf names r).length = names.length := by
  induction names with
  | nil => rfl
  | cons name rest ih => rw [envOf, List.length_cons, List.length_cons, ih]

theorem envOf_live {r r' : Registers} (live : Live names.length r r') : envOf names r = envOf names r' := by
  induction names with
  | nil => rfl
  | cons name rest ih =>
    rw [envOf, envOf, live rest.length (Nat.lt_succ_self _), ih (live.mono (Nat.le_succ _))]

/-- Leaving the inner variables gives the environment of the outer ones. -/
theorem envOf_drop (suffix : outer <:+ names) (r : Registers) :
    (envOf names r).drop (names.length - outer.length) = envOf outer r := by
  obtain ⟨inner, rfl⟩ := suffix
  rw [List.length_append, Nat.add_sub_cancel]
  induction inner with
  | nil => rfl
  | cons name rest ih => rw [List.cons_append, envOf, List.length_cons, List.drop_succ_cons, ih]

theorem envOf_leave (suffix : outer <:+ names) (r r' : Registers) :
    Env.leave (envOf outer r) (envOf names r') = envOf outer r' := by
  rw [Env.leave, envOf_length, envOf_length, envOf_drop suffix]

/-- The innermost variable of a name is in the register that the compiler finds. -/
theorem getLocalVariable_cons (name id : String) (same : fs.vlocals = localsOf (name :: names))
    (same' : fs'.vlocals = localsOf names) : fs.getLocalVariable id =
      if id = name then some names.length else fs'.getLocalVariable id := by
  rw [localsOf_cons] at same
  rw [FunctionState.getLocalVariable, FunctionState.getLocalVariable, same, same', List.length_append,
    List.length_singleton, List.range_succ, List.reverse_concat]
  split
  · rename_i found
    rw [List.find?_cons_of_pos (by simp [found]), localsOf_length]
  · rename_i other
    rw [List.find?_cons_of_neg (by simpa using fun eq => other eq.symm)]
    refine List.find?_congr fun pos mem => ?_
    rw [List.mem_reverse, List.mem_range] at mem
    rw [List.getElem?_append_left mem]

theorem lookup_envOf (same : fs.vlocals = localsOf names) (r : Registers) :
    localValue fs r = (envOf names r).value := by
  funext id
  rw [Env.value, localValue]
  induction names generalizing fs with
  | nil =>
    rw [FunctionState.getLocalVariable, same]
    rfl
  | cons name rest ih =>
    rw [@getLocalVariable_cons fs { fs with vlocals := localsOf rest } _ name id same rfl, envOf,
      List.lookup_cons]
    by_cases found : id = name
    · rw [if_pos found, found, beq_self_eq_true, Option.map_some]
    · rw [if_neg found, beq_eq_false_iff_ne.mpr found]
      exact @ih { fs with vlocals := localsOf rest } rfl

theorem envOf_update_above {pos : Nat} (above : names.length ≤ pos) (r : Registers) (v : LVObject) :
    envOf names (Function.update r pos v) = envOf names r :=
  envOf_live fun k lt => Function.update_of_ne (by omega) v r

theorem envOf_assign {id : String} {pos : Nat} (same : fs.vlocals = localsOf names)
    (at_ : fs.getLocalVariable id = some pos) (r : Registers) (v : LVObject) :
    envOf names (Function.update r pos v) = (envOf names r).assign id v := by
  induction names generalizing fs with
  | nil =>
    rw [FunctionState.getLocalVariable, same] at at_
    cases at_
  | cons name rest ih =>
    rw [@getLocalVariable_cons fs { fs with vlocals := localsOf rest } _ name id same rfl] at at_
    by_cases found : id = name
    · rw [if_pos found, Option.some.injEq] at at_
      subst at_
      rw [envOf, envOf, Env.assign, if_pos found, Function.update_self, envOf_update_above (le_refl _)]
    · rw [if_neg found] at at_
      have lt := (getLocalVariable_lt at_).1
      change pos < (localsOf rest).length at lt
      rw [localsOf_length] at lt
      rw [envOf, envOf, Env.assign, if_neg found, Function.update_of_ne (by omega),
        @ih { fs with vlocals := localsOf rest } rfl at_]

theorem getLocalVariable_isSome (same : fs.vlocals = localsOf names) :
    ∀ id ∈ names, (fs.getLocalVariable id).isSome := by
  induction names generalizing fs with
  | nil => simp
  | cons name rest ih =>
    intro id mem
    rw [@getLocalVariable_cons fs { fs with vlocals := localsOf rest } _ name id same rfl]
    split
    · rfl
    · rename_i other
      exact @ih { fs with vlocals := localsOf rest } rfl id
        ((List.mem_cons.mp mem).resolve_left other)

/-! ## What stands before a statement and after it -/

/-- What was emitted last does not change any more. -/
def Barrier (fs : FunctionState) : Prop :=
  fs.optimization = true → ∀ pi, fs.instructions.getLast? = some pi → fusable .statement pi.op = false

theorem Barrier.segment (barrier : Barrier fs) : Segment G L fs fs.instructions [] where
  code := (List.append_nil _).symm
  closed := .nil
  ordinary := by simp
  open_ _ := .nil
  fixed on _ := barrier on

theorem Barrier.snoozed : Barrier fs.snoozeOpt := by rintro ⟨⟩

theorem Barrier.after {j : LVInstruction} {code : List LVInstruction}
    (eq : fs.instructions = code ++ [j]) (free : fusable .statement j.op = false) : Barrier fs := by
  intro _ pi last
  rw [eq, List.getLast?_concat, Option.some.injEq] at last
  rwa [← last]

theorem Barrier.addInstruction_alone {i : LVInstruction} (barrier : Barrier fs)
    (alone : standsAlone i.op = true) : (fs.addInstruction i).instructions = fs.instructions ++ [i] := by
  have segment : Segment (fun _ _ => none) [] fs fs.instructions [] := barrier.segment
  rw [(segment.addInstruction_alone alone).1, List.append_nil]

/-- The state in which a statement is compiled: there are only variables on the virtual stack. -/
structure Placed (names : List String) (c : LVCompiler) : Prop where
  vlocals : c.fs.vlocals = localsOf names
  sized : names.length ≤ c.fs.stacksize
  traps : c.fs.traps = 0
  breaktargets : ∀ t ∈ c.fs.breaktargets, t = 0
  continuetargets : ∀ t ∈ c.fs.continuetargets, t = 0
  lineinfo : c.lineinfo = false

theorem Placed.height {c : LVCompiler} (placed : Placed names c) : c.fs.vlocals.length = names.length := by
  rw [placed.vlocals, localsOf_length]

/-- What statements leave as it was. -/
structure Carried (c c' : LVCompiler) : Prop where
  scope : c'.scope = c.scope
  lineinfo : c'.lineinfo = c.lineinfo
  traps : c'.fs.traps = c.fs.traps
  breaktargets : c'.fs.breaktargets = c.fs.breaktargets
  continuetargets : c'.fs.continuetargets = c.fs.continuetargets
  stacksize : c.fs.stacksize ≤ c'.fs.stacksize
  literals : c.fs.literals <+: c'.fs.literals

theorem Carried.refl (c : LVCompiler) : Carried c c :=
  ⟨rfl, rfl, rfl, rfl, rfl, le_refl _, List.prefix_rfl⟩

theorem Carried.trans {c c₁ c' : LVCompiler} (h : Carried c c₁) (h' : Carried c₁ c') : Carried c c' where
  scope := h'.scope.trans h.scope
  lineinfo := h'.lineinfo.trans h.lineinfo
  traps := h'.traps.trans h.traps
  breaktargets := h'.breaktargets.trans h.breaktargets
  continuetargets := h'.continuetargets.trans h.continuetargets
  stacksize := h.stacksize.trans h'.stacksize
  literals := h.literals.trans h'.literals

theorem Carried.fits {c c' : LVCompiler} (h : Carried c c') (fits : Fits L c'.fs) : Fits L c.fs :=
  ⟨h.stacksize.trans fits.stacksize, h.literals.trans fits.literals⟩

theorem Carried.placed {c c' : LVCompiler} (h : Carried c c') (placed : Placed names c)
    (vlocals : c'.fs.vlocals = localsOf names') (sized : names'.length ≤ c'.fs.stacksize) :
    Placed names' c' where
  vlocals := vlocals
  sized := sized
  traps := h.traps.trans placed.traps
  breaktargets := by
    rw [h.breaktargets]
    exact placed.breaktargets
  continuetargets := by
    rw [h.continuetargets]
    exact placed.continuetargets
  lineinfo := h.lineinfo.trans placed.lineinfo

/-- `break` and `continue`, while their targets are not known. -/
def unresolved : LVInstruction := instruction .OP_JMP 0 (-1234)

def jmp (d : Int) : LVInstruction := { instruction .OP_JMP with arg1 := d }

/-- The value that an instruction returns. -/
def returns (i : LVInstruction) (r : Registers) : Option LVObject :=
  if i.op = .OP_RETURN then some (if i.arg0 = 0xFF then .null else r i.arg1.toNat) else none

/-- The code added does what the command says. -/
structure Adds (G : LVObject → LVObject → Option LVObject) (L : List LVObject)
    (outer names names' : List String) (fs fs' : FunctionState) (command : Command Env LVObject)
    (code : List (Slot LVInstruction)) : Prop where
  emitted : fs'.instructions = fs.instructions ++ code.map (Slot.raw unresolved)
  breaks : fs'.unresolvedbreaks = holes true fs.instructions.length code ++ fs.unresolvedbreaks
  continues : fs'.unresolvedcontinues =
    holes false fs.instructions.length code ++ fs.unresolvedcontinues
  /-- There are holes only inside of loops. -/
  filled : fs.breaktargets = [] → fs.continuetargets = [] → ∃ whole : List LVInstruction, code = whole.map .instr
  implements : Implements (effect G L) returns code.length (fill jmp code) (envOf names)
    (envOf names') (envOf outer) command

/-- What a statement compiles to. -/
structure Translated (G : LVObject → LVObject → Option LVObject) (L : List LVObject)
    (outer names names' : List String) (c c' : LVCompiler) (command : Command Env LVObject) : Prop where
  carried : Carried c c'
  placed : Placed names' c'
  adds : Fits L c'.fs → ∃ code, Adds G L outer names names' c.fs c'.fs command code

def Translates (G : LVObject → LVObject → Option LVObject) (L : List LVObject)
    (outer names names' : List String) (m : CompilerM Unit) (command : Command Env LVObject) : Prop :=
  ∀ c c', m c = .ok ((), c') → Placed names c → Barrier c.fs →
    Translated G L outer names names' c c' command ∧ Barrier c'.fs

variable {m m' : CompilerM Unit} {first second command : Command Env LVObject} {mid : List String}

/-- After a statement nothing changes any more. -/
theorem translates_snoozed (h : ∀ c c', m c = .ok ((), c') → Placed names c → Barrier c.fs →
    Translated G L outer names names' c c' command) :
    Translates G L outer names names' (do m; LVCompiler.snoozeOpt) command := by
  intro c c' run placed barrier
  obtain ⟨_, c₁, compiled, run⟩ := bind_ok.mp run
  cases run
  obtain ⟨carried, placed', adds⟩ := h c c₁ compiled placed barrier
  refine ⟨⟨⟨carried.scope, carried.lineinfo, carried.traps, carried.breaktargets,
    carried.continuetargets, carried.stacksize, carried.literals⟩, ⟨placed'.vlocals, placed'.sized,
    placed'.traps, placed'.breaktargets, placed'.continuetargets, placed'.lineinfo⟩, fun fits => ?_⟩,
    Barrier.snoozed⟩
  obtain ⟨code, added⟩ := adds ⟨fits.stacksize, fits.literals⟩
  exact ⟨code, added.emitted, added.breaks, added.continues, added.filled, added.implements⟩

/-! ## No code, and one piece after the other -/

theorem translated_skip {c : LVCompiler} (placed : Placed names c) :
    Translated G L outer names names c c Command.skip where
  carried := .refl c
  placed := placed
  adds _ := ⟨[], (List.append_nil _).symm, rfl, rfl, fun _ _ => ⟨[], rfl⟩, .skip⟩

theorem Adds.seq {code code' : List (Slot LVInstruction)}
    (h : Adds G L outer names mid fs fs₁ first code)
    (h' : Adds G L outer mid names' fs₁ fs₂ second code')
    (targets : fs₁.breaktargets = fs.breaktargets ∧ fs₁.continuetargets = fs.continuetargets) :
    Adds G L outer names names' fs fs₂ (.Seq first second) (code ++ code') := by
  have length : fs₁.instructions.length = fs.instructions.length + code.length := by
    rw [h.emitted, List.length_append, List.length_map]
  refine ⟨?_, ?_, ?_, fun breaks continues => ?_, ?_⟩
  · rw [h'.emitted, h.emitted, List.map_append, List.append_assoc]
  · rw [h'.breaks, h.breaks, length, holes_append, List.append_assoc]
  · rw [h'.continues, h.continues, length, holes_append, List.append_assoc]
  · obtain ⟨whole, rfl⟩ := h.filled breaks continues
    obtain ⟨whole', rfl⟩ := h'.filled (targets.1.trans breaks) (targets.2.trans continues)
    exact ⟨whole ++ whole', List.map_append.symm⟩
  · have both := (h.implements.seq h'.implements).congr fun b k => fill_append b k
    rwa [← List.length_append] at both

theorem Translates.seq (h : Translates G L outer names mid m first)
    (h' : Translates G L outer mid names' m' second) :
    Translates G L outer names names' (do m; m') (.Seq first second) := by
  intro c c' run placed barrier
  obtain ⟨_, c₁, run, run'⟩ := bind_ok.mp run
  obtain ⟨translated, barrier₁⟩ := h c c₁ run placed barrier
  obtain ⟨translated', barrier'⟩ := h' c₁ c' run' translated.placed barrier₁
  refine ⟨⟨translated.carried.trans translated'.carried, translated'.placed, fun fits => ?_⟩, barrier'⟩
  obtain ⟨code, adds⟩ := translated.adds (translated'.carried.fits fits)
  obtain ⟨code', adds'⟩ := translated'.adds fits
  exact ⟨_, adds.seq adds' ⟨translated.carried.breaktargets, translated.carried.continuetargets⟩⟩

/-! ## Scopes -/

theorem setStackSize_localsOf (suffix : names <:+ names') (vlocals : fs.vlocals = localsOf names') :
    (fs.setStackSize names.length).vlocals = localsOf names ∧
      (fs.setStackSize names.length).outers = fs.outers := by
  obtain ⟨inner, rfl⟩ := suffix
  constructor
  · rw [FunctionState.setStackSize, vlocals, localsOf, List.reverse_append, List.map_append]
    exact List.take_left' (by simp)
  · have none : (fs.vlocals.drop names.length).countP (fun lvi =>
        decide (lvi.name ≠ Option.none) && decide (lvi.end_op = UINT_MINUS_ONE)) = 0 := by
      rw [List.countP_eq_zero]
      intro lvi mem
      have mem := List.mem_of_mem_drop mem
      rw [vlocals, localsOf, List.mem_map] at mem
      obtain ⟨name, -, rfl⟩ := mem
      simp [UINT_MINUS_ONE]
    rw [FunctionState.setStackSize, none, Nat.cast_zero, sub_zero]

/-- The state after a scope: only the variables declared outside are left. -/
def closed (fs : FunctionState) (names : List String) : FunctionState :=
  { fs with vlocals := localsOf names }

theorem endScope_run {c c' : LVCompiler} {oldscope : Scope} (suffix : names <:+ names')
    (vlocals : c.fs.vlocals = localsOf names') (size : c.scope.stacksize = names.length)
    (run : endScope oldscope c = .ok ((), c')) :
    c' = { c with fs := closed c.fs names, scope := oldscope } := by
  obtain ⟨vlocals', outers⟩ := setStackSize_localsOf suffix vlocals
  have left : c.fs.setStackSize names.length = closed c.fs names := by
    rw [closed, ← vlocals']
    conv_rhs => rw [← outers]
    rfl
  have height : c.fs.getStackSize = names'.length := by
    rw [FunctionState.getStackSize, vlocals, localsOf_length]
  obtain ⟨_, _, ⟨⟩, run⟩ := bind_ok.mp run
  rw [size, height] at run
  split at run
  · obtain ⟨_, c₁, ⟨⟩, run⟩ := bind_ok.mp run
    obtain ⟨_, _, ⟨⟩, run⟩ := bind_ok.mp run
    have same : ¬ c.fs.outers ≠ (c.fs.setStackSize names.length).outers := by rw [outers]; simp
    rw [if_neg same] at run
    cases run
    exact congrArg (fun fs => ({ c with fs := fs, scope := oldscope } : LVCompiler)) left
  · rename_i same
    rw [not_not] at same
    have eq : names' = names := (suffix.eq_of_length same.symm).symm
    subst eq
    cases run
    rw [closed, ← vlocals]

theorem endScopeNoClose_run {c c' : LVCompiler} {oldscope : Scope} (suffix : names <:+ names')
    (vlocals : c.fs.vlocals = localsOf names') (size : c.scope.stacksize = names.length)
    (run : endScopeNoClose oldscope c = .ok ((), c')) :
    c' = { c with fs := closed c.fs names, scope := oldscope } := by
  obtain ⟨vlocals', outers⟩ := setStackSize_localsOf suffix vlocals
  have left : c.fs.setStackSize names.length = closed c.fs names := by
    rw [closed, ← vlocals']
    conv_rhs => rw [← outers]
    rfl
  have height : c.fs.getStackSize = names'.length := by
    rw [FunctionState.getStackSize, vlocals, localsOf_length]
  cases run
  refine congrArg (fun fs => ({ c with fs := fs, scope := oldscope } : LVCompiler)) ?_
  rw [size, height]
  split
  · exact left
  · rename_i same
    rw [not_not] at same
    have eq : names' = names := (suffix.eq_of_length same.symm).symm
    subst eq
    rw [closed, ← vlocals]

/-- A block, whether its end closes the frame or not. -/
theorem Translates.scoped {leave : Scope → CompilerM Unit}
    (h : Translates G L outer names names' m command) (suffix : names <:+ names')
    (leaves : ∀ c c' oldscope, c.fs.vlocals = localsOf names' → c.scope.stacksize = names.length →
      leave oldscope c = .ok ((), c') → c' = { c with fs := closed c.fs names, scope := oldscope }) :
    Translates G L outer names names (do let scope ← beginScope; m; leave scope)
      (.Scoped Env.leave command) := by
  intro c c' run placed barrier
  obtain ⟨oldscope, c₁, begun, run⟩ := bind_ok.mp run
  cases begun
  obtain ⟨_, c₂, run, left⟩ := bind_ok.mp run
  obtain ⟨⟨carried, placed', adds⟩, barrier'⟩ := h _ c₂ run
    ⟨placed.vlocals, placed.sized, placed.traps, placed.breaktargets, placed.continuetargets,
      placed.lineinfo⟩ barrier
  have size : c₂.scope.stacksize = names.length := by
    rw [carried.scope, ← placed.height]
    rfl
  obtain rfl := leaves c₂ c' c.scope placed'.vlocals size left
  have whole : Carried c { c₂ with fs := closed c₂.fs names, scope := c.scope } :=
    ⟨rfl, carried.lineinfo, carried.traps, carried.breaktargets, carried.continuetargets,
      carried.stacksize, carried.literals⟩
  refine ⟨⟨whole, whole.placed placed rfl (placed.sized.trans carried.stacksize), fun fits => ?_⟩, barrier'⟩
  obtain ⟨code, added⟩ := adds ⟨fits.stacksize, fits.literals⟩
  exact ⟨code, added.emitted, added.breaks, added.continues, added.filled,
    added.implements.scoped fun r r' => envOf_leave suffix r r'⟩

/-! ## Tests -/

variable {named : Bool} {eval : (String → Option LVObject) → Option LVObject} {t : Nat}

theorem Computes.placed {α : Type} {m : CompilerM α} (h : Computes G L names m named eval)
    {c c' : LVCompiler} {a : α} (run : m c = .ok (a, c')) (placed : Placed names c) :
    Beside c c' ∧ ∃ t, Yields G L c.fs c'.fs named (fun r => eval (envOf names r).value) t := by
  have sized : c.fs.vlocals.length ≤ c.fs.stacksize := by
    rw [placed.height]
    exact placed.sized
  obtain ⟨beside, t, yields⟩ := h c a c' run sized (getLocalVariable_isSome placed.vlocals)
  have same : (fun r => eval (localValue c.fs r)) = fun r => eval (envOf names r).value := by
    funext r
    rw [lookup_envOf placed.vlocals]
  rw [same] at yields
  exact ⟨beside, t, yields⟩

theorem Barrier.test (fs : FunctionState) (t a1 : Int) :
    Barrier (fs.addInstruction (instruction .OP_JZ t a1)) := by
  have alone : Barrier (fs.pushInstruction (instruction .OP_JZ t a1)) := .after rfl rfl
  cases on : fs.optimization with
  | false => rwa [fs.addInstruction_off _ on]
  | true =>
    cases last : fs.instructions.getLast? with
    | none => rwa [fs.addInstruction_first _ last]
    | some pi =>
      rw [fs.addInstruction_on _ on last, FunctionState.rewriting, instruction]
      dsimp only
      split
      · rename_i merged
        split at merged <;> cases merged
        exact .after rfl rfl
      · rename_i both
        split at both <;> cases both
        refine @Barrier.after _ (instruction .OP_JZ t a1) (fs.instructions.dropLast ++ [pi]) ?_ rfl
        rw [List.append_assoc]
        rfl
      · rename_i dropped
        split at dropped <;> cases dropped

theorem quiet_ordinary {code : List LVInstruction} (ordinary : ∀ i ∈ code, Ordinary i) :
    RelativeCode.Quiet returns code := by
  intro i mem r
  rw [returns, if_neg (ordinary i mem).kind.1]

/-- The test of a statement that branches. -/
theorem Yields.tests (h : Yields G L fs fs₁ named (fun r => eval (envOf names r).value) t) (a1 : Int)
    (code_eq : fs₂.instructions = fs₁.instructions) (opt_eq : fs₂.optimization = fs₁.optimization)
    (fits : Fits L fs₁) (height : fs.vlocals.length = names.length) (barrier : Barrier fs) :
    ∃ front j, (fs₂.addInstruction (instruction .OP_JZ t a1)).instructions =
        fs.instructions ++ front ++ [j] ∧ j.arg1 = a1 ∧
      Tests (effect G L) returns front (fun d => { j with arg1 := d }) (envOf names)
        fun env => (eval env.value).map (!isFalse ·) := by
  obtain ⟨front, j, code, -, arg1, closed, ordinary, kind, jumps⟩ :=
    h.tested a1 code_eq opt_eq fits barrier.segment fun _ => rfl
  refine ⟨front, j, code, arg1, closed, quiet_ordinary ordinary, fun d r => ?_, fun d r fails => ?_,
    fun d r b decides => ?_⟩
  · rcases kind with op | op <;> rw [returns, op, if_neg (by simp)]
  · have jump := jumps d r
    rw [flow_nil, Option.bind_some, Option.map_eq_none_iff.mp fails] at jump
    exact jump.of_none
  · obtain ⟨v, known, rfl⟩ := Option.map_eq_some_iff.mp decides
    have jump := jumps d r
    rw [flow_nil, Option.bind_some, known, Option.map_some] at jump
    obtain ⟨r', goes, live⟩ := jump.of_some
    rw [height] at live
    refine ⟨r', ?_, envOf_live live⟩
    rw [goes]
    cases isFalse v <;> rfl

/-- The state in which what is inside of `n` more loops is compiled. -/
def inLoops (n : Nat) (fs : FunctionState) : FunctionState :=
  { fs with
    breaktargets := List.replicate n 0 ++ fs.breaktargets
    continuetargets := List.replicate n 0 ++ fs.continuetargets }

theorem Placed.inLoops {c : LVCompiler} (placed : Placed names c) (n : Nat) :
    Placed names { c with fs := inLoops n c.fs } := by
  have zeros : ∀ targets : List Int, (∀ t ∈ targets, t = 0) →
      ∀ t ∈ List.replicate n 0 ++ targets, t = 0 := by
    intro targets old t mem
    rcases List.mem_append.mp mem with new | mem
    · exact List.eq_of_mem_replicate new
    · exact old t mem
  exact ⟨placed.vlocals, placed.sized, placed.traps, zeros _ placed.breaktargets,
    zeros _ placed.continuetargets, placed.lineinfo⟩

/-- A test, and the jump that is not patched yet. -/
structure Branching (G : LVObject → LVObject → Option LVObject) (L : List LVObject)
    (names : List String) (c c' : LVCompiler) (a1 : Int) (test : Env → Option Bool) : Prop where
  carried : Carried c c'
  placed : Placed names c'
  barrier : Barrier c'.fs
  breaks : c'.fs.unresolvedbreaks = c.fs.unresolvedbreaks
  continues : c'.fs.unresolvedcontinues = c.fs.unresolvedcontinues
  tests : Fits L c'.fs → ∃ front j, c'.fs.instructions = c.fs.instructions ++ front ++ [j] ∧
    j.arg1 = a1 ∧ Tests (effect G L) returns front (fun d => { j with arg1 := d }) (envOf names) test

theorem branching (n : Nat) {e : CommaExpr} {a1 : Int} (simple : e.simple names = true)
    {c c₁ c₂ c₃ : LVCompiler} (placed : Placed names c) (barrier : Barrier c.fs)
    (run : commaExpr e c = .ok ((), c₁))
    (pop : LVCompiler.popTarget { c₁ with fs := inLoops n c₁.fs } = .ok (t, c₂))
    (added : LVCompiler.addInstruction .OP_JZ t a1 0 0 c₂ = .ok ((), c₃)) :
    Branching G L names { c with fs := inLoops n c.fs } c₃ a1 e.test := by
  obtain ⟨beside, t, yields⟩ := (computes_commaExpr e simple).placed (G := G) (L := L) run placed
  obtain ⟨rfl, rfl⟩ := yields.popTarget_run pop rfl rfl
  obtain rfl := addInstruction_run added
  obtain ⟨fs₂, fs₂_eq⟩ : ∃ fs₂, fs₂ = dropped c.fs (inLoops n c₁.fs) := ⟨_, rfl⟩
  obtain ⟨fs₃, fs₃_eq⟩ : ∃ fs₃, fs₃ = fs₂.addInstruction (instruction .OP_JZ t a1) := ⟨_, rfl⟩
  have grown := yields.kept
  obtain ⟨kept, vlocals, -, size⟩ := kept_addInstruction fs₂ (instruction .OP_JZ t a1)
  rw [← fs₃_eq] at kept vlocals size
  have whole : Branching G L names { c with fs := inLoops n c.fs } { c₁ with fs := fs₃ } a1 e.test := by
    have stacksize : c₁.fs.stacksize = fs₃.stacksize := by rw [size, fs₂_eq]; rfl
    have literals : c₁.fs.literals <+: fs₃.literals := by
      refine List.IsPrefix.trans ?_ kept.literals
      rw [fs₂_eq]
      exact List.prefix_rfl
    have carried : Carried { c with fs := inLoops n c.fs } { c₁ with fs := fs₃ } := by
      refine ⟨beside.scope, beside.lineinfo, ?_, ?_, ?_, grown.stacksize.trans stacksize.le,
        grown.literals.trans literals⟩
      · rw [kept.traps, fs₂_eq]
        exact grown.traps
      · rw [kept.breaktargets, fs₂_eq]
        exact congrArg (List.replicate n 0 ++ ·) grown.breaktargets
      · rw [kept.continuetargets, fs₂_eq]
        exact congrArg (List.replicate n 0 ++ ·) grown.continuetargets
    refine ⟨carried, carried.placed (placed.inLoops n) ?_ (placed.sized.trans carried.stacksize), ?_, ?_,
      ?_, fun fits => ?_⟩
    · rw [vlocals, fs₂_eq]
      exact placed.vlocals
    · rw [fs₃_eq]
      exact .test _ _ _
    · rw [kept.unresolvedbreaks, fs₂_eq]
      exact grown.unresolvedbreaks
    · rw [kept.unresolvedcontinues, fs₂_eq]
      exact grown.unresolvedcontinues
    · rw [fs₃_eq]
      exact @Yields.tests G L c.fs c₁.fs fs₂ names _ e.eval t yields a1 (by rw [fs₂_eq]; rfl)
        (by rw [fs₂_eq]; rfl) ⟨stacksize.le.trans fits.stacksize, literals.trans fits.literals⟩
        placed.height barrier
  subst fs₃_eq fs₂_eq
  exact whole

/-! ## Branches -/

variable {front : List LVInstruction} {j : LVInstruction} {code code' : List (Slot LVInstruction)}
  {test : Env → Option Bool}

theorem setArg1_middle {before back : List LVInstruction} {pos : Nat} (d : Int)
    (eq : fs.instructions = before ++ j :: back) (at_ : pos = before.length) :
    (fs.setArg1 pos d).instructions = before ++ { j with arg1 := d } :: back := by
  rw [FunctionState.setArg1, modifyInstruction, eq, at_]
  exact modify_middle before back j _

theorem Adds.ifThen (emitted : fs₁.instructions = fs.instructions ++ front ++ [j])
    (breaks : fs₁.unresolvedbreaks = fs.unresolvedbreaks)
    (continues : fs₁.unresolvedcontinues = fs.unresolvedcontinues)
    (targets : fs₁.breaktargets = fs.breaktargets ∧ fs₁.continuetargets = fs.continuetargets)
    (tests : Tests (effect G L) returns front (fun d => { j with arg1 := d }) (envOf names) test)
    (h : Adds G L outer names names fs₁ fs₂ command code) :
    Adds G L outer names names fs (fs₂.setArg1 (fs₁.instructions.length - 1)
        (fs₂.getCurrentPos - (fs₁.instructions.length - 1 : Nat))) (.branch test command .skip)
      (front.map .instr ++ .instr { j with arg1 := code.length } :: code) := by
  have length : fs₁.instructions.length = fs.instructions.length + front.length + 1 := by
    rw [emitted, List.length_append, List.length_append, List.length_singleton]
  have whole : fs₂.instructions = (fs.instructions ++ front) ++ j :: code.map (Slot.raw unresolved) := by
    rw [h.emitted, emitted, List.append_assoc _ [j], List.singleton_append]
  have place : fs₁.instructions.length - 1 = (fs.instructions ++ front).length := by
    rw [length, List.length_append, Nat.add_sub_cancel]
  have offset : fs₂.getCurrentPos - (fs₁.instructions.length - 1 : Nat) = code.length := by
    rw [FunctionState.getCurrentPos, h.emitted, length, List.length_append, List.length_map, length]
    omega
  refine ⟨?_, ?_, ?_, fun noBreak noContinue => ?_, ?_⟩
  · rw [setArg1_middle _ whole place, offset, List.map_append, raw_instr, List.append_assoc]
    rfl
  · rw [holes_after, ← length, ← breaks]
    exact h.breaks
  · rw [holes_after, ← length, ← continues]
    exact h.continues
  · obtain ⟨inner, rfl⟩ := h.filled (targets.1.trans noBreak) (targets.2.trans noContinue)
    exact ⟨front ++ { j with arg1 := (inner.map Slot.instr).length } :: inner, by simp⟩
  · have branch := (h.implements.ifThen tests).congr fun b k =>
      fill_after front { j with arg1 := code.length } b k
    have size : (front.map Slot.instr ++ Slot.instr { j with arg1 := (code.length : Int) } :: code).length =
        front.length + 1 + code.length := by
      rw [List.length_append, List.length_map, List.length_cons]
      omega
    rwa [← size] at branch

theorem translated_ifThen {cond : CommaExpr} {block : IfBlock} {c c' : LVCompiler} {closeframe : Bool}
    (simple : cond.simple names = true)
    (h : Translates G L outer names names (LVCompiler.ifBlock block) command)
    (run : statementKind closeframe (.ifThen cond block) c = .ok ((), c')) (placed : Placed names c)
    (barrier : Barrier c.fs) :
    Translated G L outer names names c c' (.branch cond.test command .skip) := by
  unfold statementKind at run
  obtain ⟨_, c₁, run₁, run⟩ := bind_ok.mp run
  obtain ⟨t, c₂, pop, run⟩ := bind_ok.mp run
  obtain ⟨jnepos, c₃, emitted, run⟩ := bind_ok.mp run
  obtain ⟨added, rfl, -⟩ := emit_value emitted
  have branching : Branching G L names c c₃ 0 cond.test := branching 0 simple placed barrier run₁ pop added
  obtain ⟨_, c₄, inner, run⟩ := bind_ok.mp run
  obtain ⟨⟨carried, placed', adds⟩, -⟩ := h c₃ c₄ inner branching.placed branching.barrier
  obtain ⟨_, _, ⟨⟩, run⟩ := bind_ok.mp run
  cases run
  have whole := branching.carried.trans carried
  refine ⟨⟨whole.scope, whole.lineinfo, whole.traps, whole.breaktargets, whole.continuetargets,
    whole.stacksize, whole.literals⟩, ⟨placed'.vlocals, placed'.sized, placed'.traps,
    placed'.breaktargets, placed'.continuetargets, placed'.lineinfo⟩, fun fits => ?_⟩
  have fits : Fits L c₄.fs := ⟨fits.stacksize, fits.literals⟩
  obtain ⟨front, j, emitted, -, tests⟩ := branching.tests (carried.fits fits)
  obtain ⟨code, added⟩ := adds fits
  exact ⟨_, added.ifThen emitted branching.breaks branching.continues
    ⟨branching.carried.breaktargets, branching.carried.continuetargets⟩ tests⟩

/-- A jump on its own. -/
theorem add_jmp {c c' : LVCompiler} {d : Int} (placed : Placed names c) (barrier : Barrier c.fs)
    (added : LVCompiler.addInstruction .OP_JMP 0 d 0 0 c = .ok ((), c')) :
    Carried c c' ∧ Placed names c' ∧ Barrier c'.fs ∧
      c'.fs.instructions = c.fs.instructions ++ [jmp d] ∧
      c'.fs.unresolvedbreaks = c.fs.unresolvedbreaks ∧
      c'.fs.unresolvedcontinues = c.fs.unresolvedcontinues := by
  obtain rfl := addInstruction_run added
  obtain ⟨kept, vlocals, -, size⟩ := kept_addInstruction c.fs (instruction .OP_JMP 0 d 0 0)
  have alone : (c.fs.addInstruction (jmp d)).instructions = c.fs.instructions ++ [jmp d] :=
    barrier.addInstruction_alone rfl
  have carried : Carried c { c with fs := c.fs.addInstruction (instruction .OP_JMP 0 d 0 0) } :=
    ⟨rfl, rfl, kept.traps, kept.breaktargets, kept.continuetargets, kept.stacksize, kept.literals⟩
  exact ⟨carried, carried.placed placed (vlocals.trans placed.vlocals)
    (placed.sized.trans kept.stacksize), .after alone rfl, alone, kept.unresolvedbreaks,
    kept.unresolvedcontinues⟩

theorem effect_jmp' (d : Int) (r : Registers) : effect G L (jmp d) r = some (d, r) := effect_jmp d r

theorem Adds.ifElse {fs₃ fs₄ : FunctionState}
    (emitted : fs₁.instructions = fs.instructions ++ front ++ [j])
    (breaks : fs₁.unresolvedbreaks = fs.unresolvedbreaks)
    (continues : fs₁.unresolvedcontinues = fs.unresolvedcontinues)
    (targets : fs₁.breaktargets = fs.breaktargets ∧ fs₁.continuetargets = fs.continuetargets)
    (tests : Tests (effect G L) returns front (fun d => { j with arg1 := d }) (envOf names) test)
    (h : Adds G L outer names names fs₁ fs₂ first code)
    (jump : fs₃.instructions = fs₂.instructions ++ [jmp 0])
    (breaks' : fs₃.unresolvedbreaks = fs₂.unresolvedbreaks)
    (continues' : fs₃.unresolvedcontinues = fs₂.unresolvedcontinues)
    (targets' : fs₃.breaktargets = fs.breaktargets ∧ fs₃.continuetargets = fs.continuetargets)
    (h' : Adds G L outer names names fs₃ fs₄ second code') :
    Adds G L outer names names fs ((fs₄.setArg1 (fs₃.instructions.length - 1)
        (fs₄.getCurrentPos - (fs₃.instructions.length - 1 : Nat))).setArg1 (fs₁.instructions.length - 1)
        (fs₂.getCurrentPos - (fs₁.instructions.length - 1 : Nat) + 1)) (.branch test first second)
      (front.map .instr ++ .instr { j with arg1 := (code.length + 1 : Nat) } ::
        (code ++ .instr (jmp code'.length) :: code')) := by
  have length : fs₁.instructions.length = fs.instructions.length + front.length + 1 := by
    rw [emitted, List.length_append, List.length_append, List.length_singleton]
  have length₂ : fs₂.instructions.length = fs.instructions.length + front.length + 1 + code.length := by
    rw [h.emitted, List.length_append, List.length_map, length]
  have length₃ : fs₃.instructions.length =
      fs.instructions.length + front.length + 1 + code.length + 1 := by
    rw [jump, List.length_append, List.length_singleton, length₂]
  have whole : fs₄.instructions = fs₂.instructions ++ jmp 0 :: code'.map (Slot.raw unresolved) := by
    rw [h'.emitted, jump, List.append_assoc, List.singleton_append]
  have place : fs₃.instructions.length - 1 = fs₂.instructions.length := by
    rw [length₃, length₂, Nat.add_sub_cancel]
  have offset : fs₄.getCurrentPos - (fs₃.instructions.length - 1 : Nat) = code'.length := by
    rw [FunctionState.getCurrentPos, h'.emitted, place, List.length_append, List.length_map, length₃,
      length₂]
    omega
  have place' : fs₁.instructions.length - 1 = (fs.instructions ++ front).length := by
    rw [length, List.length_append, Nat.add_sub_cancel]
  have offset' : fs₂.getCurrentPos - (fs₁.instructions.length - 1 : Nat) + 1 = (code.length + 1 : Nat) := by
    rw [FunctionState.getCurrentPos, length₂, length]
    omega
  rw [offset, offset']
  have patched : (fs₄.setArg1 (fs₃.instructions.length - 1) code'.length).instructions =
      (fs.instructions ++ front) ++ j :: (code.map (Slot.raw unresolved) ++
        jmp code'.length :: code'.map (Slot.raw unresolved)) := by
    rw [setArg1_middle _ whole place, h.emitted, emitted]
    simp only [jmp, List.append_assoc, List.cons_append, List.nil_append]
  have size : (front.map Slot.instr ++ Slot.instr { j with arg1 := ((code.length + 1 : Nat) : Int) } ::
      (code ++ Slot.instr (jmp code'.length) :: code')).length =
        front.length + 1 + code.length + (1 + code'.length) := by
    simp only [List.length_append, List.length_map, List.length_cons]
    omega
  have positions : ∀ w, holes w fs.instructions.length (front.map Slot.instr ++
      Slot.instr { j with arg1 := ((code.length + 1 : Nat) : Int) } ::
        (code ++ Slot.instr (jmp code'.length) :: code')) =
          holes w fs₃.instructions.length code' ++ holes w fs₁.instructions.length code := by
    intro w
    rw [holes_after, holes_append, holes, length₃, length]
  refine ⟨?_, ?_, ?_, fun noBreak noContinue => ?_, ?_⟩
  · rw [setArg1_middle _ patched place', List.map_append, raw_instr, List.append_assoc, List.map_cons,
      List.map_append, List.map_cons]
    rfl
  · rw [positions, List.append_assoc, ← breaks, ← h.breaks, ← breaks']
    exact h'.breaks
  · rw [positions, List.append_assoc, ← continues, ← h.continues, ← continues']
    exact h'.continues
  · obtain ⟨inner, rfl⟩ := h.filled (targets.1.trans noBreak) (targets.2.trans noContinue)
    obtain ⟨inner', rfl⟩ := h'.filled (targets'.1.trans noBreak) (targets'.2.trans noContinue)
    exact ⟨front ++ { j with arg1 := ((inner.map Slot.instr).length + 1 : Nat) } ::
      (inner ++ jmp (inner'.map Slot.instr).length :: inner'), by simp⟩
  · rw [size]
    refine (h.implements.ifElse tests effect_jmp' h'.implements).congr fun b k => ?_
    rw [fill_after, shift_fill_append, shift_fill, List.append_assoc, List.cons_append]

theorem translated_ifElse {cond : CommaExpr} {block else_ : IfBlock} {c c' : LVCompiler}
    {closeframe : Bool} (simple : cond.simple names = true)
    (h : Translates G L outer names names (LVCompiler.ifBlock block) first)
    (h' : Translates G L outer names names (LVCompiler.ifBlock else_) second)
    (run : statementKind closeframe (.ifElse cond block else_) c = .ok ((), c'))
    (placed : Placed names c) (barrier : Barrier c.fs) :
    Translated G L outer names names c c' (.branch cond.test first second) := by
  unfold statementKind at run
  obtain ⟨_, c₁, run₁, run⟩ := bind_ok.mp run
  obtain ⟨t, c₂, pop, run⟩ := bind_ok.mp run
  obtain ⟨jnepos, c₃, emitted, run⟩ := bind_ok.mp run
  obtain ⟨added, rfl, -⟩ := emit_value emitted
  have branching : Branching G L names c c₃ 0 cond.test := branching 0 simple placed barrier run₁ pop added
  obtain ⟨_, c₄, inner, run⟩ := bind_ok.mp run
  obtain ⟨⟨carried, placed', adds⟩, barrier'⟩ := h c₃ c₄ inner branching.placed branching.barrier
  obtain ⟨_, _, ⟨⟩, run⟩ := bind_ok.mp run
  obtain ⟨jmppos, c₅, emitted', run⟩ := bind_ok.mp run
  obtain ⟨jumped, rfl, -⟩ := emit_value emitted'
  obtain ⟨carried₅, placed₅, barrier₅, jump, breaks, continues⟩ := add_jmp placed' barrier' jumped
  obtain ⟨_, c₆, inner', run⟩ := bind_ok.mp run
  obtain ⟨⟨carried₆, placed₆, adds'⟩, -⟩ := h' c₅ c₆ inner' placed₅ barrier₅
  obtain ⟨_, _, ⟨⟩, run⟩ := bind_ok.mp run
  obtain ⟨_, _, ⟨⟩, run⟩ := bind_ok.mp run
  cases run
  have most := branching.carried.trans (carried.trans carried₅)
  have whole := most.trans carried₆
  refine ⟨⟨whole.scope, whole.lineinfo, whole.traps, whole.breaktargets, whole.continuetargets,
    whole.stacksize, whole.literals⟩, ⟨placed₆.vlocals, placed₆.sized, placed₆.traps,
    placed₆.breaktargets, placed₆.continuetargets, placed₆.lineinfo⟩, fun fits => ?_⟩
  have fits : Fits L c₆.fs := ⟨fits.stacksize, fits.literals⟩
  have fits₄ := carried₅.fits (carried₆.fits fits)
  obtain ⟨front, j, emitted, -, tests⟩ := branching.tests (carried.fits fits₄)
  obtain ⟨code, added⟩ := adds fits₄
  obtain ⟨code', added'⟩ := adds' fits
  exact ⟨_, added.ifElse emitted branching.breaks branching.continues
    ⟨branching.carried.breaktargets, branching.carried.continuetargets⟩ tests jump breaks continues
    ⟨most.breaktargets, most.continuetargets⟩ added'⟩

/-! ## Loops -/

/-- `SetIntructionParams`, as it patches a `break` or a `continue`. -/
def patched (target : Int) (pos : Nat) (i : LVInstruction) : LVInstruction :=
  { i with arg0 := uchar 0, arg1 := target - pos, arg2 := uchar 0, arg3 := uchar 0 }

theorem resolveBreaks_eq {ps rest : List Nat} (unresolved : fs.unresolvedbreaks = ps ++ rest) :
    resolveBreaks fs ps.length = { fs with
      instructions := ps.foldl (fun code p => code.modify p (patched fs.getCurrentPos p)) fs.instructions
      unresolvedbreaks := rest } := by
  induction ps generalizing fs with
  | nil =>
    rw [List.nil_append] at unresolved
    rw [List.length_nil, resolveBreaks, List.foldl_nil, ← unresolved]
  | cons p ps ih =>
    rw [List.cons_append] at unresolved
    rw [List.length_cons, resolveBreaks, unresolved]
    dsimp only
    rw [ih rfl, List.foldl_cons]
    simp only [FunctionState.getCurrentPos, FunctionState.setIntructionParams, modifyInstruction,
      List.length_modify]
    rfl

theorem resolveContinues_eq {ps rest : List Nat} (target : Int)
    (unresolved : fs.unresolvedcontinues = ps ++ rest) :
    resolveContinues target fs ps.length = { fs with
      instructions := ps.foldl (fun code p => code.modify p (patched target p)) fs.instructions
      unresolvedcontinues := rest } := by
  induction ps generalizing fs with
  | nil =>
    rw [List.nil_append] at unresolved
    rw [List.length_nil, resolveContinues, List.foldl_nil, ← unresolved]
  | cons p ps ih =>
    rw [List.cons_append] at unresolved
    rw [List.length_cons, resolveContinues, unresolved]
    dsimp only
    rw [ih rfl, List.foldl_cons]
    rfl

/-- At the end of a loop the holes are filled. -/
theorem endBreakableBlock_run {c c' : LVCompiler} {start : Nat × Nat} {target : Int}
    {post : List LVInstruction} {breaks continues : List Nat}
    (emitted : c.fs.instructions = pre ++ code.map (Slot.raw unresolved) ++ post)
    (breaks_eq : c.fs.unresolvedbreaks = holes true pre.length code ++ breaks)
    (continues_eq : c.fs.unresolvedcontinues = holes false pre.length code ++ continues)
    (start_eq : start = (breaks.length, continues.length))
    (run : endBreakableBlock start target c = .ok ((), c')) :
    c' = { c with fs := { c.fs with
      instructions := pre ++ fill jmp code (code.length + post.length) (target + 1 - pre.length) ++ post
      unresolvedbreaks := breaks
      unresolvedcontinues := continues
      breaktargets := c.fs.breaktargets.tail
      continuetargets := c.fs.continuetargets.tail } } := by
  have jumps : ∀ (t : Int) (p : Nat), patched (t - 1) p unresolved = jmp (t - p - 1) := by
    intro t p
    rw [patched, show t - 1 - (p : Int) = t - p - 1 by omega]
    rfl
  have counted : ∀ {ps rest : List Nat}, (ps ++ rest).length - rest.length = ps.length := by simp
  obtain ⟨fs₁, fs₁_eq⟩ : ∃ fs₁ : FunctionState, fs₁ = { c.fs with
      instructions := pre ++ (patch jmp false (target + 1 - pre.length) code).map (Slot.raw unresolved) ++ post
      unresolvedcontinues := continues } := ⟨_, rfl⟩
  have first : resolveContinues target c.fs (c.fs.unresolvedcontinues.length - start.2) = fs₁ := by
    rw [start_eq, continues_eq, counted, resolveContinues_eq target continues_eq, emitted, fs₁_eq]
    have patches := @patch_positions _ _ _ false code _ _ (jumps (target + 1)) pre post
    rw [add_sub_cancel_right] at patches
    rw [patches]
  have last : fs₁.getCurrentPos = pre.length + (code.length + post.length : Int) - 1 := by
    rw [FunctionState.getCurrentPos, fs₁_eq]
    simp only [List.length_append, List.length_map, patch_length]
    omega
  have second : resolveBreaks fs₁ (c.fs.unresolvedbreaks.length - start.1) = { fs₁ with
      instructions := pre ++ fill jmp code (code.length + post.length) (target + 1 - pre.length) ++ post
      unresolvedbreaks := breaks } := by
    have breaks₁ : fs₁.unresolvedbreaks = holes true pre.length code ++ breaks := by
      rw [fs₁_eq]
      exact breaks_eq
    have patches := @patch_positions _ _ _ true (patch jmp false (target + 1 - pre.length) code) _ _
      (jumps (pre.length + (code.length + post.length : Int))) pre post
    rw [add_sub_cancel_left, raw_patch, holes_patch (by simp)] at patches
    rw [start_eq, breaks_eq, counted, resolveBreaks_eq breaks₁, last, ← patches, fs₁_eq]
  cases run
  refine congrArg (fun fs => ({ c with fs := fs } : LVCompiler)) ?_
  dsimp only
  rw [first, second, fs₁_eq]

/-- Resolving changes nothing but the code and the lists of what is unresolved. -/
theorem resolveBreaks_resolved (fs : FunctionState) (n : Nat) : ∃ instructions breaks,
    resolveBreaks fs n = { fs with instructions := instructions, unresolvedbreaks := breaks } := by
  induction n generalizing fs with
  | zero => exact ⟨_, _, rfl⟩
  | succ n ih =>
    rw [resolveBreaks]
    split
    · exact ⟨_, _, rfl⟩
    · obtain ⟨instructions, breaks, eq⟩ := ih _
      exact ⟨instructions, breaks, eq⟩

theorem resolveContinues_frame (target : Int) (fs : FunctionState) (n : Nat) :
    ∃ instructions continues, resolveContinues target fs n =
      { fs with instructions := instructions, unresolvedcontinues := continues } := by
  induction n generalizing fs with
  | zero => exact ⟨_, _, rfl⟩
  | succ n ih =>
    rw [resolveContinues]
    split
    · exact ⟨_, _, rfl⟩
    · obtain ⟨instructions, continues, eq⟩ := ih _
      exact ⟨instructions, continues, eq⟩

/-- After a loop, in the loops it stands in. -/
theorem endBreakableBlock_carried {c₀ c c' : LVCompiler} {start : Nat × Nat} {target : Int}
    (run : endBreakableBlock start target c = .ok ((), c'))
    (carried : Carried { c₀ with fs := inLoops 1 c₀.fs } c) (placed₀ : Placed names c₀)
    (placed : Placed names c) :
    Carried c₀ c' ∧ Placed names c' ∧ (Fits L c'.fs → Fits L c.fs) := by
  cases run
  obtain ⟨code, continues, eq⟩ := resolveContinues_frame target c.fs
    (c.fs.unresolvedcontinues.length - start.2)
  obtain ⟨code', breaks, eq'⟩ := resolveBreaks_resolved (resolveContinues target c.fs
    (c.fs.unresolvedcontinues.length - start.2)) (c.fs.unresolvedbreaks.length - start.1)
  have whole : Carried c₀ { c with fs :=
      let fs₁ := resolveContinues target c.fs (c.fs.unresolvedcontinues.length - start.2)
      let fs₂ := resolveBreaks fs₁ (c.fs.unresolvedbreaks.length - start.1)
      { fs₂ with breaktargets := fs₂.breaktargets.tail, continuetargets := fs₂.continuetargets.tail } } := by
    dsimp only
    rw [eq', eq]
    exact ⟨carried.scope, carried.lineinfo, carried.traps, congrArg List.tail carried.breaktargets,
      congrArg List.tail carried.continuetargets, carried.stacksize, carried.literals⟩
  refine ⟨whole, whole.placed placed₀ ?_ (placed₀.sized.trans whole.stacksize), fun fits => ?_⟩
  · dsimp only
    rw [eq', eq]
    exact placed.vlocals
  · dsimp only at fits
    rw [eq', eq] at fits
    exact ⟨fits.stacksize, fits.literals⟩

/-- A whole loop, with no holes left. -/
theorem Adds.whole {whole : List LVInstruction} {n : Nat}
    (implements : Implements (effect G L) returns n (fun _ _ => whole) (envOf names) (envOf names')
      (envOf outer) command)
    (emitted : fs'.instructions = fs.instructions ++ whole)
    (breaks : fs'.unresolvedbreaks = fs.unresolvedbreaks)
    (continues : fs'.unresolvedcontinues = fs.unresolvedcontinues) :
    Adds G L outer names names' fs fs' command (whole.map .instr) := by
  obtain rfl : whole.length = n := implements.length 0 0
  refine ⟨?_, ?_, ?_, fun _ _ => ⟨whole, rfl⟩, ?_⟩
  · rw [raw_instr, emitted]
  · rw [holes_instr, breaks, List.nil_append]
  · rw [holes_instr, continues, List.nil_append]
  · rw [List.length_map]
    exact implements.congr fun b k => fill_instr whole b k

/-- The code of a `while` loop, once its test, its body and the jump back stand. -/
theorem Adds.whileDo {fs₃ : FunctionState} {c c' : LVCompiler} {start : Nat × Nat}
    (emitted : fs₁.instructions = fs.instructions ++ front ++ [j])
    (breaks : fs₁.unresolvedbreaks = fs.unresolvedbreaks)
    (continues : fs₁.unresolvedcontinues = fs.unresolvedcontinues)
    (tests : Tests (effect G L) returns front (fun d => { j with arg1 := d }) (envOf names) test)
    (h : Adds G L names names names fs₁ fs₂ command code)
    (jump : fs₃.instructions = fs₂.instructions ++ [jmp (fs.getCurrentPos - fs₂.getCurrentPos - 1)])
    (breaks' : fs₃.unresolvedbreaks = fs₂.unresolvedbreaks)
    (continues' : fs₃.unresolvedcontinues = fs₂.unresolvedcontinues)
    (patched : c.fs = fs₃.setArg1 (fs₁.instructions.length - 1)
      (fs₃.getCurrentPos - (fs₁.instructions.length - 1 : Nat)))
    (start_eq : start = (fs.unresolvedbreaks.length, fs.unresolvedcontinues.length))
    (ends : endBreakableBlock start fs.getCurrentPos c = .ok ((), c')) :
    ∃ code, Adds G L outer names names fs c'.fs (.Loop test command) code := by
  have length₁ : fs₁.instructions.length = fs.instructions.length + front.length + 1 := by
    rw [emitted, List.length_append, List.length_append, List.length_singleton]
  have length₂ : fs₂.instructions.length =
      fs.instructions.length + front.length + 1 + code.length := by
    rw [h.emitted, List.length_append, List.length_map, length₁]
  have length₃ : fs₃.instructions.length =
      fs.instructions.length + front.length + 1 + code.length + 1 := by
    rw [jump, List.length_append, List.length_singleton, length₂]
  have distance : fs.getCurrentPos - fs₂.getCurrentPos - 1 =
      -(front.length + 1 + code.length + 1 : Nat) := by
    rw [FunctionState.getCurrentPos, FunctionState.getCurrentPos, length₂]
    omega
  have offset : fs₃.getCurrentPos - (fs₁.instructions.length - 1 : Nat) = (code.length + 1 : Nat) := by
    rw [FunctionState.getCurrentPos, length₃, length₁]
    omega
  have place : fs₁.instructions.length - 1 = (fs.instructions ++ front).length := by
    rw [length₁, List.length_append, Nat.add_sub_cancel]
  have before : fs₃.instructions = (fs.instructions ++ front) ++ j ::
      (code.map (Slot.raw unresolved) ++ [jmp (-(front.length + 1 + code.length + 1 : Nat))]) := by
    rw [jump, distance, h.emitted, emitted]
    simp
  let first := fs.instructions ++ front ++ [{ j with arg1 := ((code.length + 1 : Nat) : Int) }]
  have length : first.length = fs₁.instructions.length := by
    rw [length₁, List.length_append, List.length_append, List.length_singleton]
  have standing : c.fs.instructions = first ++ code.map (Slot.raw unresolved) ++
      [jmp (-(front.length + 1 + code.length + 1 : Nat))] := by
    rw [patched, setArg1_middle _ before place, offset]
    simp [first]
  have unresolvedbreaks : c.fs.unresolvedbreaks = holes true first.length code ++ fs.unresolvedbreaks := by
    rw [patched, length, ← breaks, ← h.breaks, ← breaks']
    rfl
  have unresolvedcontinues :
      c.fs.unresolvedcontinues = holes false first.length code ++ fs.unresolvedcontinues := by
    rw [patched, length, ← continues, ← h.continues, ← continues']
    rfl
  have filled := endBreakableBlock_run standing unresolvedbreaks unresolvedcontinues start_eq ends
  refine ⟨_, .whole (h.implements.whileDo tests effect_jmp') ?_ ?_ ?_⟩
  · have back : fs.getCurrentPos + 1 - first.length = -(front.length + 1 : Nat) := by
      rw [FunctionState.getCurrentPos, length, length₁]
      omega
    rw [filled, back]
    simp [first, whileCode]
  · rw [filled]
  · rw [filled]

theorem translated_while {cond : CommaExpr} {body : Statement} {c c' : LVCompiler} {closeframe : Bool}
    (simple : cond.simple names = true)
    (h : Translates G L names names names
      (do let scope ← beginScope; LVCompiler.statement true body; endScope scope) command)
    (run : statementKind closeframe (.while cond body) c = .ok ((), c')) (placed : Placed names c)
    (barrier : Barrier c.fs) :
    Translated G L outer names names c c' (.Loop cond.test command) := by
  unfold statementKind at run
  obtain ⟨jmppos, _, ⟨⟩, run⟩ := bind_ok.mp run
  obtain ⟨_, c₁, run₁, run⟩ := bind_ok.mp run
  obtain ⟨-, _, yields⟩ := (computes_commaExpr cond simple).placed (G := G) (L := L) run₁ placed
  obtain ⟨start, c₂, begun, run⟩ := bind_ok.mp run
  cases begun
  obtain ⟨t, c₃, pop, run⟩ := bind_ok.mp run
  obtain ⟨jzpos, c₄, emitted, run⟩ := bind_ok.mp run
  obtain ⟨added, rfl, -⟩ := emit_value emitted
  have branching : Branching G L names { c with fs := inLoops 1 c.fs } c₄ 0 cond.test :=
    branching 1 simple placed barrier run₁ pop added
  obtain ⟨scope, c₅, begun, run⟩ := bind_ok.mp run
  obtain ⟨_, c₆, inner, run⟩ := bind_ok.mp run
  obtain ⟨_, c₇, ended, run⟩ := bind_ok.mp run
  obtain ⟨⟨carried, placed', adds⟩, barrier'⟩ := h c₄ c₇
    (bind_ok.mpr ⟨_, _, begun, bind_ok.mpr ⟨_, _, inner, ended⟩⟩) branching.placed branching.barrier
  obtain ⟨_, _, ⟨⟩, run⟩ := bind_ok.mp run
  obtain ⟨_, c₈, jumped, run⟩ := bind_ok.mp run
  obtain ⟨carried₈, placed₈, -, jump, breaks, continues⟩ := add_jmp placed' barrier' jumped
  obtain ⟨_, _, ⟨⟩, run⟩ := bind_ok.mp run
  obtain ⟨_, c₉, patched, ends⟩ := bind_ok.mp run
  cases patched
  have most := branching.carried.trans (carried.trans carried₈)
  obtain ⟨whole, placed', back⟩ := endBreakableBlock_carried (L := L) ends ⟨most.scope, most.lineinfo,
      most.traps, most.breaktargets, most.continuetargets, most.stacksize, most.literals⟩ placed
    ⟨placed₈.vlocals, placed₈.sized, placed₈.traps, placed₈.breaktargets, placed₈.continuetargets,
      placed₈.lineinfo⟩
  refine ⟨whole, placed', fun fits => ?_⟩
  have fits₈ : Fits L c₈.fs := ⟨(back fits).stacksize, (back fits).literals⟩
  have fits₇ := carried₈.fits fits₈
  obtain ⟨front, j, test, -, tests⟩ := branching.tests (carried.fits fits₇)
  obtain ⟨code, added⟩ := adds fits₇
  refine added.whileDo test branching.breaks branching.continues tests jump breaks continues ?_ ?_ ends
  · rfl
  · rw [yields.kept.unresolvedbreaks, yields.kept.unresolvedcontinues]

/-- The code of a `do` loop, once its body, its test and the jump back stand. -/
theorem Adds.doWhile {c c' : LVCompiler} {start : Nat × Nat}
    (h : Adds G L names names names (inLoops 1 fs) fs₁ command code)
    (emitted : fs₂.instructions = fs₁.instructions ++ front ++ [j]) (arg1 : j.arg1 = 1)
    (breaks : fs₂.unresolvedbreaks = fs₁.unresolvedbreaks)
    (continues : fs₂.unresolvedcontinues = fs₁.unresolvedcontinues)
    (tests : Tests (effect G L) returns front (fun d => { j with arg1 := d }) (envOf names) test)
    (jump : c.fs.instructions = fs₂.instructions ++ [jmp (fs.getCurrentPos - fs₂.getCurrentPos - 1)])
    (breaks' : c.fs.unresolvedbreaks = fs₂.unresolvedbreaks)
    (continues' : c.fs.unresolvedcontinues = fs₂.unresolvedcontinues)
    (start_eq : start = (fs.unresolvedbreaks.length, fs.unresolvedcontinues.length))
    (ends : endBreakableBlock start fs₁.getCurrentPos c = .ok ((), c')) :
    ∃ code, Adds G L outer names names fs c'.fs (.Round command (.Loop test command)) code := by
  have emitted₁ : fs₁.instructions = fs.instructions ++ code.map (Slot.raw unresolved) := h.emitted
  have length₁ : fs₁.instructions.length = fs.instructions.length + code.length := by
    rw [emitted₁, List.length_append, List.length_map]
  have length₂ : fs₂.instructions.length =
      fs.instructions.length + code.length + front.length + 1 := by
    rw [emitted, List.length_append, List.length_append, List.length_singleton, length₁]
  have distance : fs.getCurrentPos - fs₂.getCurrentPos - 1 = -(code.length + front.length + 2 : Nat) := by
    rw [FunctionState.getCurrentPos, FunctionState.getCurrentPos, length₂]
    omega
  have same : ({ j with arg1 := 1 } : LVInstruction) = j := by rw [← arg1]
  have standing : c.fs.instructions = fs.instructions ++ code.map (Slot.raw unresolved) ++
      (front ++ [j, jmp (-(code.length + front.length + 2 : Nat))]) := by
    rw [jump, distance, emitted, emitted₁]
    simp
  have unresolvedbreaks : c.fs.unresolvedbreaks =
      holes true fs.instructions.length code ++ fs.unresolvedbreaks := by
    rw [breaks', breaks]
    exact h.breaks
  have unresolvedcontinues : c.fs.unresolvedcontinues =
      holes false fs.instructions.length code ++ fs.unresolvedcontinues := by
    rw [continues', continues]
    exact h.continues
  have filled := endBreakableBlock_run standing unresolvedbreaks unresolvedcontinues start_eq ends
  refine ⟨_, .whole (h.implements.doWhile tests effect_jmp') ?_ ?_ ?_⟩
  · have stop : (code.length : Int) + (front ++ [j, jmp (-(code.length + front.length + 2 : Nat))]).length =
        (code.length + front.length + 2 : Nat) := by
      simp only [List.length_append, List.length_cons, List.length_nil]
      omega
    have again : fs₁.getCurrentPos + 1 - fs.instructions.length = code.length := by
      rw [FunctionState.getCurrentPos, length₁]
      omega
    rw [filled, stop, again, doWhileCode, same]
    simp only [List.append_assoc]
  · rw [filled]
  · rw [filled]

theorem translated_doWhile {cond : CommaExpr} {body : Statement} {c c' : LVCompiler} {closeframe : Bool}
    (simple : cond.simple names = true)
    (h : Translates G L names names names
      (do let scope ← beginScope; LVCompiler.statement true body; endScope scope) command)
    (run : statementKind closeframe (.doWhile body cond) c = .ok ((), c')) (placed : Placed names c)
    (barrier : Barrier c.fs) :
    Translated G L outer names names c c' (.Round command (.Loop cond.test command)) := by
  unfold statementKind at run
  obtain ⟨jmptrg, _, ⟨⟩, run⟩ := bind_ok.mp run
  obtain ⟨start, c₁, begun, run⟩ := bind_ok.mp run
  cases begun
  obtain ⟨scope, _, begun, run⟩ := bind_ok.mp run
  obtain ⟨_, _, inner, run⟩ := bind_ok.mp run
  obtain ⟨_, c₂, ended, run⟩ := bind_ok.mp run
  obtain ⟨⟨carried, placed₂, adds⟩, barrier₂⟩ := h _ c₂
    (bind_ok.mpr ⟨_, _, begun, bind_ok.mpr ⟨_, _, inner, ended⟩⟩) (placed.inLoops 1) barrier
  obtain ⟨continuetrg, _, ⟨⟩, run⟩ := bind_ok.mp run
  obtain ⟨_, c₃, run₃, run⟩ := bind_ok.mp run
  obtain ⟨t, c₄, pop, run⟩ := bind_ok.mp run
  obtain ⟨_, c₅, added, run⟩ := bind_ok.mp run
  have branching : Branching G L names c₂ c₅ 1 cond.test :=
    branching 0 simple placed₂ barrier₂ run₃ pop added
  obtain ⟨_, _, ⟨⟩, run⟩ := bind_ok.mp run
  obtain ⟨_, c₆, jumped, ends⟩ := bind_ok.mp run
  obtain ⟨carried₆, placed₆, -, jump, breaks, continues⟩ :=
    add_jmp branching.placed branching.barrier jumped
  have most := carried.trans (branching.carried.trans carried₆)
  obtain ⟨whole, placed', back⟩ := endBreakableBlock_carried (L := L) ends most placed placed₆
  refine ⟨whole, placed', fun fits => ?_⟩
  have fits₅ := carried₆.fits (back fits)
  obtain ⟨front, j, test, arg1, tests⟩ := branching.tests fits₅
  obtain ⟨code, added⟩ := adds (branching.carried.fits fits₅)
  exact added.doWhile test arg1 branching.breaks branching.continues tests jump breaks continues rfl ends

/-! ## Leaving -/

theorem resolveOuters_run {c c' : LVCompiler} (placed : Placed names c)
    (run : resolveOuters c = .ok ((), c')) : c' = c := by
  have none : c.fs.countOuters c.scope.stacksize = 0 := by
    rw [FunctionState.countOuters, List.countP_eq_zero]
    intro lvi mem
    have mem := List.mem_of_mem_drop mem
    rw [placed.vlocals, localsOf, List.mem_map] at mem
    obtain ⟨name, -, rfl⟩ := mem
    simp [UINT_MINUS_ONE]
  obtain ⟨_, _, ⟨⟩, run⟩ := bind_ok.mp run
  rw [if_neg (by simp [none])] at run
  cases run
  rfl

theorem translated_break {c c' : LVCompiler} (suffix : outer <:+ names)
    (run : emitBreak c = .ok ((), c')) (placed : Placed names c) (barrier : Barrier c.fs) :
    Translated G L outer names names c c' fun env o => o = .broke (env.drop (env.length - outer.length)) := by
  obtain ⟨_, _, ⟨⟩, run⟩ := bind_ok.mp run
  cases targets : c.fs.breaktargets with
  | nil =>
    simp only [targets] at run
    cases run
  | cons traps rest =>
    simp only [targets] at run
    have zero := placed.breaktargets traps (by rw [targets]; exact List.mem_cons_self)
    rw [if_neg (by omega)] at run
    obtain ⟨_, c₁, resolved, emits⟩ := bind_ok.mp run
    obtain rfl := resolveOuters_run placed resolved
    obtain ⟨pos, c₂, emitted, pushed⟩ := bind_ok.mp emits
    cases pushed
    obtain ⟨jumped, rfl, -⟩ := emit_value emitted
    obtain ⟨carried, placed₂, -, jump, breaks, continues⟩ := add_jmp placed barrier jumped
    have whole : Carried c₁ { c₂ with fs := { c₂.fs with
        unresolvedbreaks := (c₂.fs.instructions.length - 1) :: c₂.fs.unresolvedbreaks } } :=
      ⟨carried.scope, carried.lineinfo, carried.traps, carried.breaktargets, carried.continuetargets,
        carried.stacksize, carried.literals⟩
    have last : c₂.fs.instructions.length - 1 = c₁.fs.instructions.length := by
      rw [jump, List.length_append, List.length_singleton, Nat.add_sub_cancel]
    refine ⟨whole, whole.placed placed placed₂.vlocals placed₂.sized, fun _ => ⟨[.hole true], jump, ?_,
      continues, fun noBreak => ?_, ?_⟩⟩
    · exact congrArg₂ List.cons last breaks
    · rw [noBreak] at targets
      cases targets
    · refine (Implements.breaks effect_jmp' fun r => ?_).congr fun b k => rfl
      rw [envOf_length, envOf_drop suffix]

theorem translated_continue {c c' : LVCompiler} (suffix : outer <:+ names)
    (run : emitContinue c = .ok ((), c')) (placed : Placed names c) (barrier : Barrier c.fs) :
    Translated G L outer names names c c'
      fun env o => o = .continued (env.drop (env.length - outer.length)) := by
  obtain ⟨_, _, ⟨⟩, run⟩ := bind_ok.mp run
  cases targets : c.fs.continuetargets with
  | nil =>
    simp only [targets] at run
    cases run
  | cons traps rest =>
    simp only [targets] at run
    have zero := placed.continuetargets traps (by rw [targets]; exact List.mem_cons_self)
    rw [if_neg (by omega)] at run
    obtain ⟨_, c₁, resolved, emits⟩ := bind_ok.mp run
    obtain rfl := resolveOuters_run placed resolved
    obtain ⟨pos, c₂, emitted, pushed⟩ := bind_ok.mp emits
    cases pushed
    obtain ⟨jumped, rfl, -⟩ := emit_value emitted
    obtain ⟨carried, placed₂, -, jump, breaks, continues⟩ := add_jmp placed barrier jumped
    have whole : Carried c₁ { c₂ with fs := { c₂.fs with
        unresolvedcontinues := (c₂.fs.instructions.length - 1) :: c₂.fs.unresolvedcontinues } } :=
      ⟨carried.scope, carried.lineinfo, carried.traps, carried.breaktargets, carried.continuetargets,
        carried.stacksize, carried.literals⟩
    have last : c₂.fs.instructions.length - 1 = c₁.fs.instructions.length := by
      rw [jump, List.length_append, List.length_singleton, Nat.add_sub_cancel]
    refine ⟨whole, whole.placed placed placed₂.vlocals placed₂.sized, fun _ => ⟨[.hole false], jump,
      breaks, ?_, fun _ noContinue => ?_, ?_⟩⟩
    · exact congrArg₂ List.cons last continues
    · rw [noContinue] at targets
      cases targets
    · refine (Implements.continues effect_jmp' fun r => ?_).congr fun b k => rfl
      rw [envOf_length, envOf_drop suffix]

theorem returns_value (t : Nat) (size : Int) (r : Registers) :
    returns (instruction .OP_RETURN 1 t size) r = some (r t) := by
  simp [returns, instruction, uchar]

theorem returns_null (size : Int) (r : Registers) :
    returns (instruction .OP_RETURN 0xFF 0 size) r = some .null := by
  simp [returns, instruction, uchar]

theorem Barrier.returns {i : LVInstruction} (op : i.op = .OP_RETURN)
    (code : fs'.instructions = pre ++ [i]) : Barrier fs' := .after code (by rw [op]; rfl)

theorem translated_returnNull {c c' : LVCompiler} (run : emitReturn .OP_RETURN none c = .ok ((), c'))
    (placed : Placed names c) (barrier : Barrier c.fs) :
    Translated G L outer names names c c' fun _ o => o = returned (some .null) := by
  obtain ⟨_, _, ⟨⟩, run⟩ := bind_ok.mp run
  rw [if_neg (by rw [placed.traps]; simp)] at run
  obtain ⟨_, c₁, ⟨⟩, run⟩ := bind_ok.mp run
  obtain ⟨_, _, ⟨⟩, run⟩ := bind_ok.mp run
  obtain rfl := addInstruction_run run
  obtain ⟨fs₁, fs₁_eq⟩ : ∃ fs₁ : FunctionState, fs₁ = { c.fs with returnexp := -1 } := ⟨_, rfl⟩
  obtain ⟨fs₂, fs₂_eq⟩ : ∃ fs₂, fs₂ =
      fs₁.addInstruction (instruction .OP_RETURN 0xFF 0 fs₁.getStackSize) := ⟨_, rfl⟩
  have code : fs₂.instructions =
      c.fs.instructions ++ [instruction .OP_RETURN 0xFF 0 fs₁.getStackSize] := by
    have barrier₁ : Barrier fs₁ := by rw [fs₁_eq]; exact barrier
    rw [fs₂_eq, barrier₁.addInstruction_alone rfl, fs₁_eq]
  obtain ⟨kept, vlocals, -, -⟩ :=
    kept_addInstruction fs₁ (instruction .OP_RETURN 0xFF 0 fs₁.getStackSize)
  rw [← fs₂_eq] at kept vlocals
  have whole : Translated G L outer names names c { c with fs := fs₂ } fun _ o => o = returned (some .null) := by
    have grown : Carried c { c with fs := fs₁ } := by
      rw [fs₁_eq]
      exact ⟨rfl, rfl, rfl, rfl, rfl, le_refl _, List.prefix_rfl⟩
    have carried : Carried c { c with fs := fs₂ } :=
      grown.trans ⟨rfl, rfl, kept.traps, kept.breaktargets, kept.continuetargets, kept.stacksize,
        kept.literals⟩
    refine ⟨carried, carried.placed placed ?_ (placed.sized.trans carried.stacksize), fun _ => ⟨_,
      .whole ((Implements.returnValue (f := fun _ => some .null) .nil (by simp [RelativeCode.Quiet]) (by simp) ?_).same
        ?_) code ?_ ?_⟩⟩
    · rw [vlocals, fs₁_eq]
      exact placed.vlocals
    · rintro r v ⟨⟩
      exact ⟨r, flow_nil, returns_null _ r⟩
    · exact fun _ _ => Iff.rfl
    · rw [kept.unresolvedbreaks, fs₁_eq]
    · rw [kept.unresolvedcontinues, fs₁_eq]
  subst fs₂_eq fs₁_eq
  exact whole

/-- The code that returns the value of an expression. -/
theorem Yields.returned (h : Yields G L fs fs₁ named (fun r => eval (envOf names r).value) t)
    (fits : Fits L fs₁) (barrier : Barrier fs) (code_eq : fs₂.instructions = fs₁.instructions)
    (opt_eq : fs₂.optimization = fs₁.optimization) (size : Int) :
    (∃ code, (fs₂.addInstruction (instruction .OP_RETURN 1 t size)).instructions =
      code ++ [instruction .OP_RETURN 1 t size]) ∧
    ∃ (whole : List LVInstruction) (n : Nat),
      (fs₂.addInstruction (instruction .OP_RETURN 1 t size)).instructions = fs.instructions ++ whole ∧
      Implements (effect G L) returns n (fun _ _ => whole) (envOf names) (envOf names) (envOf outer)
        fun env o => o = Lavril.returned (eval env.value) := by
  obtain ⟨seg, segment, same, -⟩ := h.code fits _ _ (barrier.segment (G := G) (L := L))
  have segment₂ : Segment G L fs₂ fs.instructions seg := segment.congr code_eq opt_eq
  obtain ⟨code, -⟩ := segment₂.addInstruction_alone (i := instruction .OP_RETURN 1 t size) rfl
  refine ⟨⟨_, code⟩, ?_⟩
  rw [List.append_assoc] at code
  refine ⟨_, _, code, (Implements.returnValue (f := fun env => eval env.value) segment.closed
    (quiet_ordinary segment.ordinary) ?_ ?_).same ?_⟩
  · intro r fails
    have result := same r
    rw [flow_nil, Option.bind_some, fails] at result
    cases flows : flow (effect G L) seg r with
    | none => rfl
    | some r' =>
      rw [flows] at result
      cases result
  · intro r v known
    have result := same r
    rw [flow_nil, Option.bind_some, known, Option.map_some] at result
    cases flows : flow (effect G L) seg r with
    | none =>
      rw [flows] at result
      cases result
    | some r' =>
      rw [flows] at result
      cases result with
      | some live =>
        refine ⟨r', rfl, ?_⟩
        rw [returns_value, live t h.height.2.2, Function.update_self]
  · intro r o
    cases eval (envOf names r).value <;> rfl

theorem translated_return {e : CommaExpr} {retexp : Int} {c c₁ c' : LVCompiler}
    (simple : e.simple names = true) (run : commaExpr e c = .ok ((), c₁))
    (run' : emitReturn .OP_RETURN (some retexp) c₁ = .ok ((), c')) (placed : Placed names c)
    (barrier : Barrier c.fs) :
    Translated G L outer names names c c' fun env o => o = returned (e.eval env.value) := by
  obtain ⟨beside, t, yields⟩ := (computes_commaExpr e simple).placed (G := G) (L := L) run placed
  have grown := yields.kept
  obtain ⟨_, _, ⟨⟩, run'⟩ := bind_ok.mp run'
  rw [if_neg (by rw [grown.traps, placed.traps]; simp)] at run'
  obtain ⟨_, c₂, ⟨⟩, run'⟩ := bind_ok.mp run'
  obtain ⟨src, c₃, pop, run'⟩ := bind_ok.mp run'
  obtain ⟨rfl, rfl⟩ := yields.popTarget_run pop rfl rfl
  obtain ⟨_, _, ⟨⟩, run'⟩ := bind_ok.mp run'
  obtain rfl := addInstruction_run run'
  obtain ⟨fs₂, fs₂_eq⟩ : ∃ fs₂, fs₂ = dropped c.fs { c₁.fs with returnexp := retexp } := ⟨_, rfl⟩
  obtain ⟨fs₃, fs₃_eq⟩ : ∃ fs₃, fs₃ =
      fs₂.addInstruction (instruction .OP_RETURN 1 src fs₂.getStackSize) := ⟨_, rfl⟩
  obtain ⟨kept, vlocals, -, -⟩ :=
    kept_addInstruction fs₂ (instruction .OP_RETURN 1 src fs₂.getStackSize)
  rw [← fs₃_eq] at kept vlocals
  have whole : Translated G L outer names names c { c₁ with fs := fs₃ }
      fun env o => o = returned (e.eval env.value) := by
    have first : Carried c { c₁ with fs := fs₂ } := by
      rw [fs₂_eq]
      exact ⟨beside.scope, beside.lineinfo, grown.traps, grown.breaktargets, grown.continuetargets,
        grown.stacksize, grown.literals⟩
    have last : Carried { c₁ with fs := fs₂ } { c₁ with fs := fs₃ } :=
      ⟨rfl, rfl, kept.traps, kept.breaktargets, kept.continuetargets, kept.stacksize, kept.literals⟩
    have carried := first.trans last
    refine ⟨carried, carried.placed placed ?_ (placed.sized.trans carried.stacksize), fun fits => ?_⟩
    · rw [vlocals, fs₂_eq]
      exact placed.vlocals
    have fits₁ : Fits L c₁.fs := by
      have before := last.fits fits
      rw [fs₂_eq] at before
      exact ⟨before.stacksize, before.literals⟩
    obtain ⟨-, code, n, emitted, implements⟩ := @Yields.returned G L c.fs c₁.fs fs₂ names outer _ e.eval
      src yields fits₁ barrier (by rw [fs₂_eq]; rfl) (by rw [fs₂_eq]; rfl) fs₂.getStackSize
    rw [← fs₃_eq] at emitted
    refine ⟨_, .whole implements emitted ?_ ?_⟩
    · rw [kept.unresolvedbreaks, fs₂_eq]
      exact grown.unresolvedbreaks
    · rw [kept.unresolvedcontinues, fs₂_eq]
      exact grown.unresolvedcontinues
  subst fs₃_eq fs₂_eq
  exact whole

/-! ## Assignments -/

theorem name_run {id : String} {pos : Nat} {next : Lookahead} {c c' : LVCompiler}
    (at_ : c.fs.getLocalVariable id = some pos)
    (run : prefixedExpr next (.mk (.identifier id) [] none) c = .ok ((), c')) :
    c' = { c with fs := c.fs.pushTargetAt pos, es := { c.es with etype := .LOCAL, epos := pos } } := by
  unfold prefixedExpr factor at run
  obtain ⟨read, c₁, first, run⟩ := bind_ok.mp run
  obtain ⟨pos', _, found, first⟩ := bind_ok.mp first
  cases found
  rw [at_] at first
  obtain ⟨_, c₂, ⟨⟩, first⟩ := bind_ok.mp first
  obtain ⟨_, c₃, ⟨⟩, first⟩ := bind_ok.mp first
  obtain ⟨_, c₄, ⟨⟩, first⟩ := bind_ok.mp first
  obtain ⟨rfl, rfl⟩ := pure_ok.mp first
  obtain ⟨_, c₅, loop, run⟩ := bind_ok.mp run
  unfold suffixLoop at loop
  obtain ⟨-, rfl⟩ := pure_ok.mp loop
  obtain ⟨-, rfl⟩ := pure_ok.mp run
  rfl

/-- A value that has been computed is stored in a variable. -/
theorem Yields.stored {value : Registers → Option LVObject} {i : LVInstruction} {pos : Nat}
    {val : Registers → Option LVObject} (h : Yields G L fs fs₁ named value t) (fits : Fits L fs₁)
    (barrier : Barrier fs) (code_eq : fs₂.instructions = fs₁.instructions)
    (opt_eq : fs₂.optimization = fs₁.optimization) (added : Added i) (target : i.arg0 = pos)
    (sets : Sets G L i i.arg0 val) (move : i.op = .OP_MOVE → i.arg1 = t)
    (compares : i.op ≠ .OP_EQ ∧ i.op ≠ .OP_NE)
    (uses : ∀ r r', Live fs₁.vlocals.length r r' → val r = val r') :
    ∃ seg, Segment G L (fs₂.addInstruction i) fs.instructions seg ∧
      ∀ r, Same fs.vlocals.length (flow (effect G L) seg r)
        ((value r).bind fun v => (val (Function.update r t v)).map (Function.update r pos)) := by
  have height := h.height
  obtain ⟨seg, segment, same, -⟩ := h.code fits _ _ (barrier.segment (G := G) (L := L))
  have segment₂ : Segment G L fs₂ fs.instructions seg := segment.congr code_eq opt_eq
  obtain ⟨seg', segment', same', -⟩ := @Segment.add _ _ _ _ _ _ fs.vlocals.length segment₂ added (by
    intro front pi eq _
    refine ⟨fun op _ target => .inl ?_, fun op => absurd op (by simp [compares])⟩
    cases named with
    | true =>
      obtain ⟨-, -, unchanged, -⟩ := h.variable_ rfl
      have none := segment.code
      rw [unchanged, List.self_eq_append_right] at none
      rw [none] at eq
      simp at eq
    | false =>
      have := move op
      have := (h.temporary rfl).1
      omega)
  refine ⟨seg', segment', fun r => ?_⟩
  have first := same r
  rw [flow_nil, Option.bind_some] at first
  have next : ∀ r r', Live fs₁.vlocals.length r r' →
      Same fs.vlocals.length (runs G L i r) (runs G L i r') := by
    intro r r' live
    rw [sets.runs, sets.runs, uses r r' live]
    cases val r' with
    | none => exact .none
    | some v => exact .some ((live.mono height.1).update _ v (Nat.le_succ _) fun lt => by omega)
  refine (same' r).trans ((first.bind next).trans ?_)
  cases known : value r with
  | none => exact .none
  | some v =>
    rw [Option.map_some, Option.bind_some, Option.bind_some, sets.runs, target]
    cases val (Function.update r t v) with
    | none => exact .none
    | some w => exact .some ((h.update_live known).symm.update pos w (Nat.le_succ _) fun lt => by omega)

/-- The instruction of an assignment, and what it stores. -/
theorem AssignOp.stores {op : AssignOp} (computes : op.computes = true) {pos t : Nat} (byte : uchar t = t)
    (byte' : uchar pos = pos) :
    ∃ i, (i = if op = .assign then instruction .OP_MOVE pos t
        else instruction op.arithOp pos t pos 0) ∧ Added i ∧ i.arg0 = pos ∧
      Sets G L i i.arg0 (fun r => op.eval (r pos) (r t)) ∧ (i.op = .OP_MOVE → i.arg1 = t) ∧
      i.op ≠ .OP_EQ ∧ i.op ≠ .OP_NE := by
  have arithmetic : op ≠ .assign → setsOne op.arithOp = true ∧ op.arithOp ≠ .OP_GET ∧
      op.arithOp ≠ .OP_LOADNULLS ∧ op.arithOp ≠ .OP_MOVE ∧ op.arithOp ≠ .OP_EQ ∧ op.arithOp ≠ .OP_NE := by
    cases op <;> simp [arithOp, setsOne]
  by_cases assigns : op = .assign
  · subst assigns
    refine ⟨_, rfl, added_move byte, byte', ?_, fun _ => rfl, by simp [instruction], by simp [instruction]⟩
    rw [if_pos rfl, show (instruction .OP_MOVE pos t).arg0 = pos from byte']
    exact sets_move byte'
  · obtain ⟨one, notGet, notNulls, notMove, notEq, notNe⟩ := arithmetic assigns
    refine ⟨_, rfl, ?_⟩
    rw [if_neg assigns]
    refine ⟨⟨.inr ⟨one, notGet⟩, fun nulls => absurd nulls notNulls, .inl (by simp [instruction]),
      fun move => absurd move notMove, ?_⟩, byte', fun r => ?_, fun move => absurd move notMove, notEq,
      notNe⟩
    · rintro (eq | ne)
      · exact absurd eq notEq
      · exact absurd ne notNe
    · rw [sets_computed one r]
      congr 1
      rw [instruction, byte']
      cases op <;> first
        | exact absurd rfl assigns
        | exact absurd computes Bool.false_ne_true
        | simp [computed, arithOp, AssignOp.eval, operand_nat]

/-- The state after the instruction of an assignment. -/
def storedBy (fs fs₁ : FunctionState) (op : AssignOp) (pos t : Nat) : FunctionState :=
  if op = .assign then (dropped fs fs₁).addInstruction (instruction .OP_MOVE pos t)
  else ((dropped fs fs₁).addInstruction (instruction op.arithOp pos t pos 0)).snoozeOpt

theorem storedBy_kept (fs fs₁ : FunctionState) (op : AssignOp) (pos t : Nat) :
    Kept fs₁ (storedBy fs fs₁ op pos t) ∧ (storedBy fs fs₁ op pos t).vlocals = fs.vlocals ∧
      (storedBy fs fs₁ op pos t).targetstack = fs.targetstack := by
  rw [storedBy]
  split
  · obtain ⟨kept, vlocals, targets, -⟩ := kept_addInstruction (dropped fs fs₁) (instruction .OP_MOVE pos t)
    exact ⟨⟨kept.traps, kept.breaktargets, kept.continuetargets, kept.outers, kept.unresolvedbreaks,
      kept.unresolvedcontinues, kept.stacksize, kept.literals⟩, vlocals, targets⟩
  · obtain ⟨kept, vlocals, targets, -⟩ :=
      kept_addInstruction (dropped fs fs₁) (instruction op.arithOp pos t pos 0)
    exact ⟨⟨kept.traps, kept.breaktargets, kept.continuetargets, kept.outers, kept.unresolvedbreaks,
      kept.unresolvedcontinues, kept.stacksize, kept.literals⟩, vlocals, targets⟩

theorem emitAssign_run {op : AssignOp} (computes : op.computes = true) {pos : Nat} {epos : Int}
    {value : Registers → Option LVObject} {c c' : LVCompiler} {targets : List Nat}
    (h : Yields G L fs c.fs named value t) (targets_eq : fs.targetstack = pos :: targets)
    (loc : fs.isLocal pos = true) (run : emitAssign op .LOCAL epos c = .ok ((), c')) :
    c' = { c with fs := storedBy fs c.fs op pos t } := by
  have top : (dropped fs c.fs).targetstack = pos :: targets := targets_eq
  have still : (dropped fs c.fs).popTarget = .ok (pos, { dropped fs c.fs with targetstack := targets }) := by
    rw [FunctionState.isLocal] at loc
    rw [FunctionState.popTarget, top]
    cases at_ : fs.vlocals[pos]? with
    | none =>
      rw [at_] at loc
      cases loc
    | some lvi =>
      rw [at_] at loc
      obtain ⟨name, is⟩ := Option.isSome_iff_exists.mp loc
      have found : (dropped fs c.fs).vlocals[pos]? = some lvi := at_
      simp only [found, is, reduceCtorEq, if_false]
  by_cases assigns : op = .assign
  · subst assigns
    obtain ⟨src, c₁, pop, run⟩ := bind_ok.mp run
    obtain ⟨rfl, rfl⟩ := h.popTarget_run pop rfl rfl
    obtain ⟨dst, c₂, read, run⟩ := bind_ok.mp run
    rw [LVCompiler.topTarget, liftFs] at read
    simp only [FunctionState.topTarget, top] at read
    cases read
    obtain rfl := addInstruction_run run
    rw [storedBy, if_pos rfl]
  · have compound : emitAssign op .LOCAL epos = emitCompoundArith op .LOCAL epos := by
      cases op <;> first | rfl | exact absurd rfl assigns | exact absurd computes Bool.false_ne_true
    rw [compound] at run
    obtain ⟨p2, c₁, pop, run⟩ := bind_ok.mp run
    obtain ⟨rfl, rfl⟩ := h.popTarget_run pop rfl rfl
    obtain ⟨p1, c₂, pop', run⟩ := bind_ok.mp run
    rw [LVCompiler.popTarget, liftFs] at pop'
    dsimp only at pop'
    rw [still] at pop'
    cases pop'
    obtain ⟨_, c₃, ⟨⟩, run⟩ := bind_ok.mp run
    obtain ⟨_, c₄, added, run⟩ := bind_ok.mp run
    obtain rfl := addInstruction_run added
    cases run
    rw [storedBy, if_neg assigns, dropped, targets_eq]
    rfl

theorem addInstruction_move_last {i : LVInstruction} (op : i.op = .OP_MOVE)
    (on : (fs.addInstruction i).optimization = true) {pi : LVInstruction}
    (last : (fs.addInstruction i).instructions.getLast? = some pi) :
    pi.op = .OP_MOVE ∨ pi.op = .OP_DMOVE := by
  have alone : (fs.pushInstruction i).instructions.getLast? = some pi → pi.op = .OP_MOVE := by
    intro eq
    rw [FunctionState.pushInstruction, List.getLast?_concat, Option.some.injEq] at eq
    rwa [← eq]
  cases awake : fs.optimization with
  | false =>
    rw [fs.addInstruction_off i awake] at last
    exact .inl (alone last)
  | true =>
    cases old : fs.instructions.getLast? with
    | none =>
      rw [fs.addInstruction_first i old] at last
      exact .inl (alone last)
    | some pi' =>
      rw [fs.addInstruction_on i awake old, FunctionState.rewriting, op] at last on
      dsimp only at last on
      split at last
      · rename_i merged
        rw [merged] at on
        rw [List.getLast?_concat, Option.some.injEq] at last
        split at merged
        · cases merged
          cases on
        · split at merged <;> cases merged
          rw [← last]
          exact .inr rfl
      · rename_i both
        split at both
        · cases both
        · split at both <;> cases both
          rw [List.getLast?_append_cons, List.getLast?_cons_cons, List.getLast?_singleton,
            Option.some.injEq] at last
          rw [← last]
          exact .inl op
      · rename_i dropped
        split at dropped
        · cases dropped
        · split at dropped <;> cases dropped

/-- What an assignment leaves on the target stack is dropped, and no instruction with it. -/
theorem storedBy_discard {op : AssignOp} {pos t : Nat} {targets : List Nat}
    (targets_eq : fs.targetstack = pos :: targets) (loc : fs.isLocal pos = true) :
    (storedBy fs fs₁ op pos t).discardTarget =
      .ok { storedBy fs fs₁ op pos t with targetstack := targets } := by
  obtain ⟨-, vlocals, targets'⟩ := storedBy_kept fs fs₁ op pos t
  have kept : (storedBy fs fs₁ op pos t).vlocals = fs.vlocals ∧
      (storedBy fs fs₁ op pos t).targetstack = pos :: targets := ⟨vlocals, targets'.trans targets_eq⟩
  have stays : (storedBy fs fs₁ op pos t).optimization = true → ∀ pi,
      (storedBy fs fs₁ op pos t).instructions.getLast? = some pi → discardable pi.op = false := by
    rw [storedBy]
    split
    · intro on pi last
      rcases addInstruction_move_last rfl on last with op | op <;> rw [op] <;> rfl
    · rintro ⟨⟩
  generalize storedBy fs fs₁ op pos t = fs₂ at kept stays
  have popped : fs₂.popTarget = .ok (pos, { fs₂ with targetstack := targets }) := by
    rw [FunctionState.isLocal, ← kept.1] at loc
    rw [FunctionState.popTarget, kept.2]
    dsimp only
    split at loc
    · cases loc
    · rename_i lvi at_
      obtain ⟨name, is⟩ := Option.isSome_iff_exists.mp loc
      simp only [is, reduceCtorEq, if_false]
  rw [FunctionState.discardTarget, popped]
  simp only [bind, Except.bind]
  cases on : fs₂.optimization with
  | false => rfl
  | true =>
    cases last : fs₂.instructions.getLast? with
    | none => rfl
    | some pi =>
      have stores := stays on pi last
      simp only [discardable, Bool.or_eq_false_iff, decide_eq_false_iff_not] at stores
      dsimp only
      rw [if_neg (by simp [stores])]
      rfl

theorem Same.envOf {x y : Option Registers} (h : Same names.length x y) :
    x.map (envOf names) = y.map (envOf names) := by
  cases h with
  | none => rfl
  | some live => rw [Option.map_some, Option.map_some, envOf_live live]

theorem translated_assign {id : String} {op : AssignOp} {e : Expression} {c c' : LVCompiler}
    {closeframe : Bool} (mem : id ∈ names) (computes : op.computes = true) (simple : e.simple names = true)
    (run : statementKind closeframe (.expression (.last (.assign (.name id) op e))) c = .ok ((), c'))
    (placed : Placed names c) (barrier : Barrier c.fs) :
    Translated G L outer names names c c'
      (.compute fun env => CommaExpr.changes env (.last (.assign (.name id) op e))) := by
  obtain ⟨pos, at_⟩ := Option.isSome_iff_exists.mp (getLocalVariable_isSome placed.vlocals id mem)
  obtain ⟨lt, loc⟩ := getLocalVariable_lt at_
  unfold statementKind commaExpr expression LogicalOrExp.name logicalOrExp at run
  obtain ⟨_, c₁, run, discards⟩ := bind_ok.mp run
  obtain ⟨es, _, ⟨⟩, run⟩ := bind_ok.mp run
  obtain ⟨_, _, ⟨⟩, run⟩ := bind_ok.mp run
  obtain ⟨_, c₂, named, run⟩ := bind_ok.mp run
  obtain rfl := name_run (c := { c with es := freshEs }) at_ named
  obtain ⟨left, _, ⟨⟩, run⟩ := bind_ok.mp run
  obtain ⟨_, _, ⟨⟩, run⟩ := bind_ok.mp run
  obtain ⟨_, c₃, compiled, run⟩ := bind_ok.mp run
  obtain ⟨fs₁, fs₁_eq⟩ : ∃ fs₁, fs₁ = c.fs.pushTargetAt pos := ⟨_, rfl⟩
  have placed₁ : Placed names { c with fs := fs₁ } := by
    rw [fs₁_eq]
    exact ⟨placed.vlocals, placed.sized, placed.traps, placed.breaktargets, placed.continuetargets,
      placed.lineinfo⟩
  have after : Beside { c with fs := fs₁ } c₃ ∧ ∃ t, Yields G L fs₁ c₃.fs e.isName
      (fun r => e.eval (envOf names r).value) t := by
    have value := (computes_expression (G := G) (L := L) e simple).placed compiled
      ⟨placed.vlocals, placed.sized, placed.traps, placed.breaktargets, placed.continuetargets,
        placed.lineinfo⟩
    rw [fs₁_eq]
    exact ⟨⟨value.1.scope, value.1.lineinfo⟩, value.2⟩
  obtain ⟨beside, t, yields⟩ := after
  have targets : fs₁.targetstack = pos :: c.fs.targetstack := by rw [fs₁_eq]; rfl
  have loc₁ : fs₁.isLocal pos = true := by rw [fs₁_eq]; exact loc
  obtain ⟨_, c₄, stored, run⟩ := bind_ok.mp run
  obtain rfl := emitAssign_run computes yields targets loc₁ stored
  cases run
  rw [LVCompiler.discardTarget, liftFs] at discards
  dsimp only at discards
  rw [storedBy_discard targets loc₁] at discards
  cases discards
  obtain ⟨kept, vlocals, -⟩ := storedBy_kept fs₁ c₃.fs op pos t
  obtain ⟨fs₂, fs₂_eq⟩ : ∃ fs₂, fs₂ = storedBy fs₁ c₃.fs op pos t := ⟨_, rfl⟩
  rw [← fs₂_eq] at kept vlocals
  have grown := yields.kept.trans kept
  rw [fs₁_eq] at grown
  have whole : Translated G L outer names names c
      { c₃ with fs := { fs₂ with targetstack := c.fs.targetstack }, es := c.es }
      (.compute fun env => CommaExpr.changes env (.last (.assign (.name id) op e))) := by
    have carried : Carried c { c₃ with fs := { fs₂ with targetstack := c.fs.targetstack }, es := c.es } :=
      ⟨beside.scope, beside.lineinfo, grown.traps, grown.breaktargets, grown.continuetargets,
        grown.stacksize, grown.literals⟩
    refine ⟨carried, carried.placed placed ?_ (placed.sized.trans carried.stacksize), fun fits => ?_⟩
    · rw [vlocals, fs₁_eq]
      exact placed.vlocals
    have fits₃ : Fits L c₃.fs :=
      ⟨kept.stacksize.trans fits.stacksize, kept.literals.trans fits.literals⟩
    have small := fits₃.stacksize
    have sized := yields.sized
    have height := yields.height
    have height₁ : fs₁.vlocals.length = names.length := placed₁.height
    rw [MAX_FUNC_STACKSIZE] at small
    rw [placed.height] at lt
    obtain ⟨i, i_eq, added, target, sets, move, compares⟩ := AssignOp.stores (G := G) (L := L) computes
      (uchar_of_lt (show t < 256 by omega)) (uchar_of_lt (show pos < 256 by omega))
    have barrier₁ : Barrier fs₁ := by rw [fs₁_eq]; exact barrier
    have same : (dropped fs₁ c₃.fs).instructions = c₃.fs.instructions := rfl
    obtain ⟨seg, segment, flows⟩ := yields.stored fits₃ barrier₁ same rfl added target sets move compares
      fun r r' live => by rw [live t height.2.2, live pos (by omega)]
    have emitted : fs₂.instructions = c.fs.instructions ++ seg := by
      have code := segment.code
      rw [fs₁_eq, i_eq] at code
      rw [fs₂_eq, storedBy, fs₁_eq]
      split
      · rename_i assigns
        rw [if_pos assigns] at code
        exact code
      · rename_i compound
        rw [if_neg compound] at code
        exact code
    refine ⟨_, .whole (.ofFlow segment.closed (quiet_ordinary segment.ordinary) fun r => ?_) emitted ?_ ?_⟩
    · have result := flows r
      rw [height₁] at result
      rw [result.envOf]
      have old : (envOf names r).value id = some (r pos) := by
        rw [← lookup_envOf placed.vlocals, localValue, at_, Option.map_some]
      change _ = ((e.eval (envOf names r).value).bind fun v => ((envOf names r).value id).bind fun old =>
        (op.eval old v).bind fun w => some ((envOf names r).assign id w))
      cases known : e.eval (envOf names r).value with
      | none => rfl
      | some v =>
        have live := yields.update_live known
        rw [Option.bind_some, Option.bind_some, old, Option.bind_some, Function.update_self,
          ← live pos (by omega)]
        cases op.eval (r pos) v with
        | none => rfl
        | some w =>
          rw [Option.map_some, Option.map_some, Option.bind_some, envOf_assign placed.vlocals at_]
    · exact grown.unresolvedbreaks
    · exact grown.unresolvedcontinues
  subst fs₂_eq fs₁_eq
  exact whole

/-! ## Declarations -/

/-- What declarations compile to; `start` says where that may be. -/
structure Declared (G : LVObject → LVObject → Option LVObject) (L : List LVObject)
    (names names' : List String) (c c' : LVCompiler) (start : List LVInstruction → Prop)
    (f : Env → Option Env) : Prop where
  carried : Carried c c'
  placed : Placed names' c'
  breaks : c'.fs.unresolvedbreaks = c.fs.unresolvedbreaks
  continues : c'.fs.unresolvedcontinues = c.fs.unresolvedcontinues
  code : Fits L c'.fs → ∀ pre seg, Segment G L c.fs pre seg → start seg →
    ∃ seg', Segment G L c'.fs pre seg' ∧
      ∀ r, (flow (effect G L) seg' r).map (envOf names') =
        ((flow (effect G L) seg r).map (envOf names)).bind f

theorem emitDeclarator_run {name : String} {c c' : LVCompiler} {V : List LVLocalVarInfo}
    {targets : List Nat} (vlocals : c.fs.vlocals = V ++ [⟨none, 0⟩])
    (targets_eq : c.fs.targetstack = V.length :: targets) (run : emitDeclarator name c = .ok ((), c')) :
    c' = { c with fs := { c.fs with
      vlocals := V ++ [⟨some name, 0⟩]
      targetstack := targets
      stacksize := max c.fs.stacksize (V.length + 1) } } := by
  have popped : c.fs.popTarget = .ok (V.length, { c.fs with vlocals := V, targetstack := targets }) := by
    simp [FunctionState.popTarget, targets_eq, vlocals]
  obtain ⟨_, c₁, pop, run⟩ := bind_ok.mp run
  rw [LVCompiler.popTarget, liftFs, popped] at pop
  cases pop
  obtain ⟨_, c₂, pushed, run⟩ := bind_ok.mp run
  cases pushed
  cases run
  simp

theorem declared_value {name : String} {value : Env → Option LVObject} {c c₂ c' : LVCompiler}
    {start : List LVInstruction → Prop} (placed : Placed names c) (beside : Beside c c₂)
    (kept : Kept c.fs c₂.fs) (vlocals : c₂.fs.vlocals = c.fs.vlocals ++ [⟨none, 0⟩])
    (targets : c₂.fs.targetstack = c.fs.vlocals.length :: c.fs.targetstack)
    (run : emitDeclarator name c₂ = .ok ((), c'))
    (code : Fits L c₂.fs → ∀ pre seg, Segment G L c.fs pre seg → start seg →
      ∃ seg', Segment G L c₂.fs pre seg' ∧ ∀ r, Same (names.length + 1) (flow (effect G L) seg' r)
        ((flow (effect G L) seg r).bind fun r =>
          (value (envOf names r)).map (Function.update r names.length))) :
    Declared G L names (name :: names) c c' start
      fun env => (value env).map fun v => (name, v) :: env := by
  obtain rfl := emitDeclarator_run vlocals targets run
  have carried : Carried c { c₂ with fs := { c₂.fs with
      vlocals := c.fs.vlocals ++ [⟨some name, 0⟩]
      targetstack := c.fs.targetstack
      stacksize := max c₂.fs.stacksize (c.fs.vlocals.length + 1) } } :=
    ⟨beside.scope, beside.lineinfo, kept.traps, kept.breaktargets, kept.continuetargets,
      kept.stacksize.trans (le_max_left _ _), kept.literals⟩
  refine ⟨carried, carried.placed placed ?_ ?_, kept.unresolvedbreaks, kept.unresolvedcontinues, ?_⟩
  · rw [localsOf_cons, ← placed.vlocals]
  · rw [List.length_cons, ← placed.height]
    exact le_max_right _ _
  · intro fits pre seg segment starts
    obtain ⟨seg', segment', same⟩ := code ⟨(le_max_left _ _).trans fits.stacksize, fits.literals⟩ pre seg
      segment starts
    refine ⟨seg', segment'.congr rfl rfl, fun r => ?_⟩
    have height : (name :: names).length = names.length + 1 := rfl
    have result := same r
    rw [← height] at result
    rw [result.envOf]
    cases flow (effect G L) seg r with
    | none => rfl
    | some r =>
      rw [Option.bind_some, Option.map_some, Option.bind_some, Option.map_map]
      congr 1
      funext v
      rw [Function.comp_apply, envOf, Function.update_self, envOf_update_above (le_refl _)]

theorem declared_declarator {d : Declarator} {c c' : LVCompiler} (simple : d.simple names = true)
    (run : LVCompiler.declarator d c = .ok ((), c')) (placed : Placed names c) :
    Declared G L names (d.name :: names) c c' (fun seg => d.copies = true → seg = [])
      fun env => d.declares env := by
  obtain ⟨name, value⟩ := d
  have height := placed.height
  cases value with
  | none =>
    unfold LVCompiler.declarator at run
    rw [← bind_assoc] at run
    obtain ⟨_, c₁, loads, run⟩ := bind_ok.mp run
    obtain ⟨beside, t, yields⟩ := computes_loadNull.placed (G := G) (L := L) loads placed
    obtain ⟨new, vlocals⟩ := yields.temporary rfl
    have declared := @declared_value _ _ _ _ (fun _ => some .null) _ _ _ (fun _ => True) placed beside
      yields.kept vlocals (by rw [yields.target, new]) run (by
        intro fits pre seg segment _
        obtain ⟨seg', segment', same, -⟩ := yields.code fits pre seg segment
        refine ⟨seg', segment', fun r => ?_⟩
        have result := same r
        rw [vlocals, List.length_append, List.length_singleton, height, new, height] at result
        exact result)
    exact ⟨declared.carried, declared.placed, declared.breaks, declared.continues,
      fun fits pre seg segment _ => declared.code fits pre seg segment trivial⟩
  | some e =>
    unfold LVCompiler.declarator at run
    obtain ⟨_, c₁, compiled, run⟩ := bind_ok.mp run
    obtain ⟨beside, t, yields⟩ := (computes_expression (G := G) (L := L) e simple).placed compiled placed
    obtain ⟨src, c₂, pop, run⟩ := bind_ok.mp run
    obtain ⟨rfl, rfl⟩ := yields.popTarget_run pop rfl rfl
    obtain ⟨dest, c₃, push, run⟩ := bind_ok.mp run
    obtain ⟨rfl, rfl⟩ := pushTarget_run push
    obtain ⟨fs₂, fs₂_eq⟩ : ∃ fs₂, fs₂ = addressed c.fs c₁.fs := ⟨_, rfl⟩
    have kept : Kept c.fs fs₂ := by
      rw [fs₂_eq]
      have grown := yields.kept
      exact ⟨grown.traps, grown.breaktargets, grown.continuetargets, grown.outers, grown.unresolvedbreaks,
        grown.unresolvedcontinues, grown.stacksize.trans (le_max_left _ _), grown.literals⟩
    have fitsValue : Fits L fs₂ → Fits L c₁.fs := by
      rw [fs₂_eq]
      exact fun fits => ⟨(le_max_left _ _).trans fits.stacksize, fits.literals⟩
    have byte : Fits L fs₂ → uchar c.fs.vlocals.length = c.fs.vlocals.length := by
      rw [fs₂_eq]
      exact fun fits => fits.target
    cases copies : e.isName with
    | false =>
      rw [copies] at yields
      obtain ⟨new, vlocals⟩ := yields.temporary rfl
      have run := addInstruction_passed run (not_not.mpr new.symm)
      have ends : emitDeclarator name { c₁ with fs := fs₂ } = .ok ((), c') := by
        rw [fs₂_eq]
        exact run
      have beside₂ : Beside c { c₁ with fs := fs₂ } := ⟨beside.scope, beside.lineinfo⟩
      have declared := @declared_value _ _ _ _ (fun env => e.eval env.value) _ _ _ (fun _ => True) placed
        beside₂ kept (by rw [fs₂_eq]; rfl) (by rw [fs₂_eq]; rfl) ends (by
          intro fits pre seg segment _
          obtain ⟨seg', segment', same, -⟩ := yields.code (fitsValue fits) pre seg segment
          refine ⟨seg', by rw [fs₂_eq]; exact segment'.congr rfl rfl, fun r => ?_⟩
          have result := same r
          rw [vlocals, List.length_append, List.length_singleton, height, new, height] at result
          exact result)
      exact ⟨declared.carried, declared.placed, declared.breaks, declared.continues,
        fun fits pre seg segment _ => declared.code fits pre seg segment trivial⟩
    | true =>
      rw [copies] at yields
      obtain ⟨same, loc, code, opt, reads⟩ := yields.variable_ rfl
      have ne : c.fs.vlocals.length ≠ src := by
        have := isLocal_lt loc
        omega
      have run := addInstruction_taken run ne
      obtain ⟨fs₃, fs₃_eq⟩ : ∃ fs₃, fs₃ = fs₂.addInstruction
          (instruction .OP_MOVE c.fs.vlocals.length src) := ⟨_, rfl⟩
      obtain ⟨kept', vlocals', targets', -⟩ := kept_addInstruction fs₂
        (instruction .OP_MOVE c.fs.vlocals.length src)
      rw [← fs₃_eq] at kept' vlocals' targets'
      have ends : emitDeclarator name { c₁ with fs := fs₃ } = .ok ((), c') := by
        rw [fs₃_eq, fs₂_eq]
        exact run
      have beside₃ : Beside c { c₁ with fs := fs₃ } := ⟨beside.scope, beside.lineinfo⟩
      refine @declared_value _ _ _ _ (fun env => e.eval env.value) _ _ _ _ placed beside₃
        (kept.trans kept') (by rw [vlocals', fs₂_eq]; rfl) (by rw [targets', fs₂_eq]; rfl) ends ?_
      intro fits pre seg segment starts
      obtain rfl := starts copies
      have fits₂ := kept'.fits fits
      have small : src < 256 := by
        have le := (fitsValue fits₂).stacksize
        have := yields.sized
        have := yields.height
        rw [MAX_FUNC_STACKSIZE] at le
        omega
      have segment₂ : Segment G L fs₂ pre [] := by
        rw [fs₂_eq]
        exact segment.congr code opt
      obtain ⟨seg', segment', flows, -⟩ := @Segment.add _ _ _ _ _ _ (names.length + 1) segment₂
        (added_move (uchar_of_lt small)) (by
          intro front pi eq
          simp at eq)
      refine ⟨seg', by rw [fs₃_eq]; exact segment', fun r => ?_⟩
      have result := flows r
      rw [flow_nil, Option.bind_some, (sets_move (byte fits₂)).runs, height] at result
      rw [flow_nil, Option.bind_some, reads r]
      exact result

theorem Declared.seq {c c₁ c' : LVCompiler} {start : List LVInstruction → Prop} {f g : Env → Option Env}
    (h : Declared G L names mid c c₁ start f) (h' : Declared G L mid names' c₁ c' (fun _ => True) g) :
    Declared G L names names' c c' start fun env => (f env).bind g where
  carried := h.carried.trans h'.carried
  placed := h'.placed
  breaks := h'.breaks.trans h.breaks
  continues := h'.continues.trans h.continues
  code fits pre seg segment starts := by
    obtain ⟨seg₁, segment₁, same⟩ := h.code (h'.carried.fits fits) pre seg segment starts
    obtain ⟨seg₂, segment₂, same'⟩ := h'.code fits pre seg₁ segment₁ trivial
    refine ⟨seg₂, segment₂, fun r => ?_⟩
    rw [same', same, Option.bind_assoc]

theorem declared_declarators {c c' : LVCompiler} (ds : List Declarator)
    (simple : simpleDeclarators names ds = true) (run : LVCompiler.declarators ds c = .ok ((), c'))
    (placed : Placed names c) :
    Declared G L names (declaredNames names ds) c c' (fun _ => True) (declares ds) := by
  induction ds generalizing names c with
  | nil =>
    unfold LVCompiler.declarators at run
    obtain ⟨-, rfl⟩ := pure_ok.mp run
    refine ⟨.refl _, placed, rfl, rfl, fun _ pre seg segment _ => ⟨seg, segment, fun r => ?_⟩⟩
    exact (Option.bind_fun_some _).symm
  | cons d rest ih =>
    rw [simpleDeclarators, Bool.and_eq_true, Bool.and_eq_true, Bool.not_eq_true'] at simple
    obtain ⟨⟨simple, fresh⟩, simple'⟩ := simple
    unfold LVCompiler.declarators at run
    obtain ⟨_, c₁, run, run'⟩ := bind_ok.mp run
    have first := declared_declarator (G := G) (L := L) simple run placed
    have anywhere : Declared G L names (d.name :: names) c c₁ (fun _ => True) fun env => d.declares env :=
      ⟨first.carried, first.placed, first.breaks, first.continues, fun fits pre seg segment _ =>
        first.code fits pre seg segment fun copies => by rw [fresh] at copies; cases copies⟩
    exact anywhere.seq (ih simple' run' first.placed)

theorem translated_localDecl {first : Declarator} {rest : List Declarator} {c c' : LVCompiler}
    {closeframe : Bool} (simple : first.simple names = true)
    (simple' : simpleDeclarators (first.name :: names) rest = true)
    (run : statementKind closeframe (.localDecl (.vars first rest)) c = .ok ((), c'))
    (placed : Placed names c) (barrier : Barrier c.fs) :
    Translated G L outer names (declaredNames names (first :: rest)) c c'
      (.compute (declares (first :: rest))) := by
  unfold statementKind localDeclStatement at run
  obtain ⟨_, c₁, run, run'⟩ := bind_ok.mp run
  have declared := declared_declarator (G := G) (L := L) simple run placed
  have whole := declared.seq (declared_declarators rest simple' run' declared.placed)
  refine ⟨whole.carried, whole.placed, fun fits => ?_⟩
  obtain ⟨seg, segment, same⟩ := whole.code fits _ _ barrier.segment fun _ => rfl
  refine ⟨_, .whole (.ofFlow segment.closed (quiet_ordinary segment.ordinary) fun r => ?_) segment.code
    whole.breaks whole.continues⟩
  have result := same r
  rwa [flow_nil, Option.map_some, Option.bind_some] at result

/-! ## Every statement -/

theorem declared_suffix (names : List String) (ds : List Declarator) :
    names <:+ declaredNames names ds := by
  induction ds generalizing names with
  | nil => exact List.suffix_rfl
  | cons d rest ih => exact (List.suffix_cons d.name names).trans (ih (d.name :: names))

theorem Statement.declared_suffix (names : List String) (s : Statement) :
    names <:+ s.declared names := by
  obtain ⟨line, kind⟩ := s
  change names <:+ kind.declared names
  unfold StatementKind.declared
  split
  · exact Lavril.declared_suffix names _
  · exact List.suffix_rfl

/-- The names after the statements of a block. -/
def declaredAll (names : List String) (body : List Statement) : List String :=
  body.foldl (fun names s => s.declared names) names

theorem declaredAll_suffix (names : List String) (body : List Statement) :
    names <:+ declaredAll names body := by
  induction body generalizing names with
  | nil => exact List.suffix_rfl
  | cons s rest ih => exact (s.declared_suffix names).trans (ih (s.declared names))

theorem Translated.same {command' : Command Env LVObject} {c c' : LVCompiler}
    (h : Translated G L outer names names' c c' command)
    (same : ∀ r o, command' (envOf names r) o ↔ command (envOf names r) o) :
    Translated G L outer names names' c c' command' := by
  refine ⟨h.carried, h.placed, fun fits => ?_⟩
  obtain ⟨code, adds⟩ := h.adds fits
  exact ⟨code, adds.emitted, adds.breaks, adds.continues, adds.filled, adds.implements.same same⟩

/-- The line of a statement is only noted. -/
theorem Translates.line {line : Int} (h : Translates G L outer names names' m command) :
    Translates G L outer names names'
      (do let c ← get; updateFs (·.addLineInfos line c.lineinfo); m) command := by
  intro c c' run placed barrier
  obtain ⟨_, _, ⟨⟩, run⟩ := bind_ok.mp run
  obtain ⟨_, c₁, ⟨⟩, run⟩ := bind_ok.mp run
  obtain ⟨infos, last, noted⟩ : ∃ infos last, c.fs.addLineInfos line c.lineinfo =
      { c.fs with lineinfos := infos, lastline := last } := by
    rw [placed.lineinfo, FunctionState.addLineInfos]
    split
    · exact ⟨_, _, rfl⟩
    · exact ⟨_, _, rfl⟩
  have run : m { c with fs := { c.fs with lineinfos := infos, lastline := last } } = .ok ((), c') := by
    rw [← noted]
    exact run
  obtain ⟨⟨carried, placed', adds⟩, barrier'⟩ := h _ c' run ⟨placed.vlocals, placed.sized, placed.traps,
    placed.breaktargets, placed.continuetargets, placed.lineinfo⟩ barrier
  refine ⟨⟨⟨carried.scope, carried.lineinfo, carried.traps, carried.breaktargets, carried.continuetargets,
    carried.stacksize, carried.literals⟩, placed', fun fits => ?_⟩, barrier'⟩
  obtain ⟨code, added⟩ := adds fits
  exact ⟨code, added.emitted, added.breaks, added.continues, added.filled, added.implements⟩

theorem Translates.block (h : Translates G L outer names names' m command) (suffix : names <:+ names') :
    Translates G L outer names names (do let scope ← beginScope; m; endScope scope)
      (.Scoped Env.leave command) :=
  h.scoped suffix fun _ _ _ vlocals size run => endScope_run suffix vlocals size run

theorem CommaExpr.assigns_cases (e : CommaExpr) (h : e.assigns names = true) : ∃ id op value,
    e = .last (.assign (.name id) op value) ∧ id ∈ names ∧ op.computes = true ∧
      value.simple names = true := by
  unfold CommaExpr.assigns at h
  split at h
  · obtain ⟨h, simple⟩ := (Bool.and_eq_true _ _).mp h
    obtain ⟨mem, computes⟩ := (Bool.and_eq_true _ _).mp h
    exact ⟨_, _, _, rfl, List.contains_iff_mem.mp mem, computes, simple⟩
  · cases h

mutual

theorem translates_statement (closeframe : Bool) : (s : Statement) → (names outer : List String) →
    s.simple names = true → outer <:+ names →
    Translates G L outer names (s.declared names) (LVCompiler.statement closeframe s)
      (s.runs outer.length)
  | .mk line kind, names, outer, simple, suffix => by
    unfold LVCompiler.statement
    exact (translates_snoozed fun c c' run placed barrier =>
      translated_kind closeframe kind names outer simple suffix c c' run placed barrier).line

theorem translated_kind (closeframe : Bool) : (kind : StatementKind) → (names outer : List String) →
    kind.simple names = true → outer <:+ names → ∀ c c', statementKind closeframe kind c = .ok ((), c') →
    Placed names c → Barrier c.fs →
    Translated G L outer names (kind.declared names) c c' (kind.runs outer.length)
  | .empty, names, outer, _, _, c, c', run, placed, _ => by
    unfold statementKind at run
    obtain ⟨-, rfl⟩ := pure_ok.mp run
    exact translated_skip placed
  | .ifThen cond block, names, outer, simple, suffix, c, c', run, placed, barrier => by
    obtain ⟨simple, simple'⟩ := (Bool.and_eq_true _ _).mp simple
    exact translated_ifThen simple (translates_ifBlock block names outer simple' suffix) run placed barrier
  | .ifElse cond block else_, names, outer, simple, suffix, c, c', run, placed, barrier => by
    obtain ⟨simple, simple₂⟩ := (Bool.and_eq_true _ _).mp simple
    obtain ⟨simple, simple₁⟩ := (Bool.and_eq_true _ _).mp simple
    exact translated_ifElse simple (translates_ifBlock block names outer simple₁ suffix)
      (translates_ifBlock else_ names outer simple₂ suffix) run placed barrier
  | .while cond body, names, outer, simple, suffix, c, c', run, placed, barrier => by
    obtain ⟨simple, simple'⟩ := (Bool.and_eq_true _ _).mp simple
    have inner : Translates G L names names names
        (do let scope ← beginScope; LVCompiler.statement true body; endScope scope)
        (.Scoped Env.leave (body.runs names.length)) :=
      (translates_statement true body names names simple' List.suffix_rfl).block
        (body.declared_suffix names)
    exact (translated_while simple inner run placed barrier).same fun r o => by
      simp only [StatementKind.runs, envOf_length]
  | .doWhile body cond, names, outer, simple, suffix, c, c', run, placed, barrier => by
    obtain ⟨simple', simple⟩ := (Bool.and_eq_true _ _).mp simple
    have inner : Translates G L names names names
        (do let scope ← beginScope; LVCompiler.statement true body; endScope scope)
        (.Scoped Env.leave (body.runs names.length)) :=
      (translates_statement true body names names simple' List.suffix_rfl).block
        (body.declared_suffix names)
    exact (translated_doWhile simple inner run placed barrier).same fun r o => by
      simp only [StatementKind.runs, envOf_length]
  | .localDecl (.vars first rest), names, outer, simple, _, c, c', run, placed, barrier => by
    obtain ⟨simple, simple'⟩ := (Bool.and_eq_true _ _).mp simple
    exact translated_localDecl simple simple' run placed barrier
  | .return none, names, outer, _, _, c, c', run, placed, barrier => by
    unfold statementKind at run
    exact translated_returnNull run placed barrier
  | .return (some e), names, outer, simple, _, c, c', run, placed, barrier => by
    unfold statementKind at run
    obtain ⟨retexp, _, ⟨⟩, run⟩ := bind_ok.mp run
    obtain ⟨_, c₁, run, run'⟩ := bind_ok.mp run
    exact translated_return simple run run' placed barrier
  | .break, names, outer, _, suffix, c, c', run, placed, barrier => by
    unfold statementKind at run
    exact translated_break suffix run placed barrier
  | .continue, names, outer, _, suffix, c, c', run, placed, barrier => by
    unfold statementKind at run
    exact translated_continue suffix run placed barrier
  | .block body, names, outer, simple, suffix, c, c', run, placed, barrier => by
    unfold statementKind at run
    have inner : Translates G L outer names (declaredAll names body) (LVCompiler.statements body)
        (runsAll outer.length body) := translates_statements body names outer simple suffix
    have inside := declaredAll_suffix names body
    refine (inner.scoped inside (fun c c' oldscope vlocals size left => ?_) c c' run placed barrier).1
    cases closeframe with
    | true => exact endScope_run inside vlocals size left
    | false => exact endScopeNoClose_run inside vlocals size left
  | .expression e, names, outer, simple, _, c, c', run, placed, barrier => by
    obtain ⟨id, op, value, rfl, mem, computes, simple⟩ := e.assigns_cases simple
    exact translated_assign mem computes simple run placed barrier

theorem translates_ifBlock : (block : IfBlock) → (names outer : List String) →
    block.simple names = true → outer <:+ names →
    Translates G L outer names names (LVCompiler.ifBlock block) (block.runs outer.length)
  | .braces body, names, outer, simple, suffix => by
    unfold LVCompiler.ifBlock
    exact (translates_statements body names outer simple suffix).block (declaredAll_suffix names body)
  | .single s, names, outer, simple, suffix => by
    obtain ⟨simple, same⟩ := (Bool.and_eq_true _ _).mp simple
    unfold LVCompiler.ifBlock
    have inner : Translates G L outer names (s.declared names) (LVCompiler.statement true s)
        (s.runs outer.length) := translates_statement true s names outer simple suffix
    rwa [beq_iff_eq.mp same] at inner

theorem translates_statements : (body : List Statement) → (names outer : List String) →
    simpleStatements names body = true → outer <:+ names →
    Translates G L outer names (declaredAll names body) (LVCompiler.statements body)
      (runsAll outer.length body)
  | [], names, outer, _, _ => by
    intro c c' run placed barrier
    unfold LVCompiler.statements at run
    obtain ⟨-, rfl⟩ := pure_ok.mp run
    exact ⟨translated_skip placed, barrier⟩
  | s :: rest, names, outer, simple, suffix => by
    obtain ⟨simple, simple'⟩ := (Bool.and_eq_true _ _).mp simple
    unfold LVCompiler.statements
    exact (translates_statement true s names outer simple suffix).seq
      (translates_statements rest (s.declared names) outer simple'
        (suffix.trans (s.declared_suffix names)))

end

end Lavril
