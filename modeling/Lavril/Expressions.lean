import Lavril.Allocation
import Lavril.Meaning
import Lavril.Segments
import Mathlib.Data.List.Find

/-!
# What the code of an expression computes

An expression leaves its value in a register on the target stack: in that of a variable when
the expression is its name, and in the next free one otherwise.
-/

namespace Lavril

open LVCompiler FunctionState RelativeCode Frame

variable {G : LVObject → LVObject → Option LVObject} {L : List LVObject}
  {fs fs₁ fs₂ fs' : FunctionState} {pre seg : List LVInstruction}

/-! ## What compiling an expression keeps -/

structure Kept (fs fs' : FunctionState) : Prop where
  traps : fs'.traps = fs.traps
  breaktargets : fs'.breaktargets = fs.breaktargets
  continuetargets : fs'.continuetargets = fs.continuetargets
  outers : fs'.outers = fs.outers
  unresolvedbreaks : fs'.unresolvedbreaks = fs.unresolvedbreaks
  unresolvedcontinues : fs'.unresolvedcontinues = fs.unresolvedcontinues
  stacksize : fs.stacksize ≤ fs'.stacksize
  literals : fs.literals <+: fs'.literals

theorem Kept.refl (fs : FunctionState) : Kept fs fs :=
  ⟨rfl, rfl, rfl, rfl, rfl, rfl, le_refl _, List.prefix_rfl⟩

theorem Kept.trans (h : Kept fs fs₁) (h' : Kept fs₁ fs₂) : Kept fs fs₂ where
  traps := h'.traps.trans h.traps
  breaktargets := h'.breaktargets.trans h.breaktargets
  continuetargets := h'.continuetargets.trans h.continuetargets
  outers := h'.outers.trans h.outers
  unresolvedbreaks := h'.unresolvedbreaks.trans h.unresolvedbreaks
  unresolvedcontinues := h'.unresolvedcontinues.trans h.unresolvedcontinues
  stacksize := h.stacksize.trans h'.stacksize
  literals := h.literals.trans h'.literals

/-- The registers fit the byte of an operand, and the constants are those of the function. -/
structure Fits (L : List LVObject) (fs : FunctionState) : Prop where
  stacksize : fs.stacksize ≤ MAX_FUNC_STACKSIZE
  literals : fs.literals <+: L

theorem Kept.fits (h : Kept fs fs') (fits : Fits L fs') : Fits L fs :=
  ⟨h.stacksize.trans fits.stacksize, h.literals.trans fits.literals⟩

/-- What lies beside the function state. -/
structure Beside (c c' : LVCompiler) : Prop where
  scope : c'.scope = c.scope
  lineinfo : c'.lineinfo = c.lineinfo

theorem Beside.refl (c : LVCompiler) : Beside c c := ⟨rfl, rfl⟩

theorem Beside.trans {c c₁ c' : LVCompiler} (h : Beside c c₁) (h' : Beside c₁ c') : Beside c c' :=
  ⟨h'.scope.trans h.scope, h'.lineinfo.trans h.lineinfo⟩

theorem kept_addInstruction (fs : FunctionState) (i : LVInstruction) :
    Kept fs (fs.addInstruction i) ∧ (fs.addInstruction i).vlocals = fs.vlocals ∧
      (fs.addInstruction i).targetstack = fs.targetstack ∧
      (fs.addInstruction i).stacksize = fs.stacksize := by
  obtain ⟨opt, lines, eq⟩ := addInstruction_recode fs i
  rw [eq]
  exact ⟨⟨rfl, rfl, rfl, rfl, rfl, rfl, le_refl _, List.prefix_rfl⟩, rfl, rfl, rfl⟩

/-! ## Variables -/

/-- The value of a variable. -/
def localValue (fs : FunctionState) (r : Registers) (id : String) : Option LVObject :=
  (fs.getLocalVariable id).map r

theorem getLocalVariable_lt {id : String} {pos : Nat} (h : fs.getLocalVariable id = some pos) :
    pos < fs.vlocals.length ∧ fs.isLocal pos = true := by
  have mem := List.mem_of_find?_eq_some h
  have found := List.find?_some h
  rw [List.mem_reverse, List.mem_range] at mem
  refine ⟨mem, ?_⟩
  rw [FunctionState.isLocal]
  cases at_ : fs.vlocals[pos]? with
  | none => simp [at_] at found
  | some lvi =>
    have name : lvi.name = some id := by simpa [at_] using found
    simp [name]

theorem getLocalVariable_congr (id : String) (same : fs'.vlocals = fs.vlocals) :
    fs'.getLocalVariable id = fs.getLocalVariable id := by
  rw [FunctionState.getLocalVariable, FunctionState.getLocalVariable, same]

/-- A temporary has no name. -/
theorem getLocalVariable_temp (id : String) (same : fs'.vlocals = fs.vlocals ++ [⟨none, 0⟩]) :
    fs'.getLocalVariable id = fs.getLocalVariable id := by
  rw [FunctionState.getLocalVariable, FunctionState.getLocalVariable, same, List.length_append,
    List.length_singleton, List.range_succ, List.reverse_concat, List.find?_cons_of_neg (by simp)]
  refine List.find?_congr fun pos mem => ?_
  rw [List.mem_reverse, List.mem_range] at mem
  rw [List.getElem?_append_left mem]

theorem lookup_live {r r' : Registers} (live : Live fs.vlocals.length r r') :
    localValue fs r = localValue fs r' := by
  funext id
  cases at_ : fs.getLocalVariable id with
  | none => rw [localValue, localValue, at_, Option.map_none, Option.map_none]
  | some pos =>
    rw [localValue, localValue, at_, Option.map_some, Option.map_some, live pos (getLocalVariable_lt at_).1]

theorem isLocal_lt {t : Nat} (h : fs.isLocal t = true) : t < fs.vlocals.length := by
  rw [FunctionState.isLocal] at h
  split at h
  · cases h
  · rename_i at_
    exact (List.getElem?_eq_some_iff.mp at_).1

theorem isLocal_congr {t : Nat} (same : fs'.vlocals = fs.vlocals) : fs'.isLocal t = fs.isLocal t := by
  rw [FunctionState.isLocal, FunctionState.isLocal, same]

theorem isLocal_append {t : Nat} {more : List LVLocalVarInfo} (h : fs.isLocal t = true)
    (same : fs'.vlocals = fs.vlocals ++ more) : fs'.isLocal t = true := by
  have lt := isLocal_lt h
  rwa [FunctionState.isLocal, same, List.getElem?_append_left lt, ← FunctionState.isLocal]

/-! ## The value of an expression -/

/-- The value of an expression computed from `fs` to `fs'` is in the register `t`. -/
structure Yields (G : LVObject → LVObject → Option LVObject) (L : List LVObject)
    (fs fs' : FunctionState) (named : Bool) (value : Registers → Option LVObject) (t : Nat) : Prop where
  kept : Kept fs fs'
  sized : fs'.vlocals.length ≤ fs'.stacksize
  target : fs'.targetstack = t :: fs.targetstack
  variable_ : named = true → fs'.vlocals = fs.vlocals ∧ fs.isLocal t = true ∧
    fs'.instructions = fs.instructions ∧ fs'.optimization = fs.optimization ∧
    ∀ r, value r = some (r t)
  temporary : named = false → t = fs.vlocals.length ∧ fs'.vlocals = fs.vlocals ++ [⟨none, 0⟩]
  /-- Only the variables are read. -/
  reads : ∀ r r', Live fs.vlocals.length r r' → value r = value r'
  code : Fits L fs' → ∀ pre seg, Segment G L fs pre seg → ∃ seg', Segment G L fs' pre seg' ∧
    (∀ r, Same fs'.vlocals.length (flow (effect G L) seg' r)
      ((flow (effect G L) seg r).bind fun r => (value r).map (Function.update r t))) ∧
    (named = false → ∀ front pi, seg' = front ++ [pi] → fs'.optimization = true →
      pi.op = .OP_CMP → pi.arg0 = t)

variable {named named' : Bool} {value value' : Registers → Option LVObject} {t t' : Nat}

theorem Yields.height (h : Yields G L fs fs' named value t) :
    fs.vlocals.length ≤ fs'.vlocals.length ∧ fs'.vlocals.length ≤ fs.vlocals.length + 1 ∧
      t < fs'.vlocals.length := by
  cases named with
  | true =>
    obtain ⟨same, loc, -⟩ := h.variable_ rfl
    rw [same]
    exact ⟨le_refl _, Nat.le_succ _, isLocal_lt loc⟩
  | false =>
    obtain ⟨new, same⟩ := h.temporary rfl
    rw [same, List.length_append, List.length_singleton]
    omega

theorem Yields.getLocalVariable (h : Yields G L fs fs' named value t) :
    fs'.getLocalVariable = fs.getLocalVariable := by
  funext id
  cases named with
  | true => exact getLocalVariable_congr id (h.variable_ rfl).1
  | false => exact getLocalVariable_temp id (h.temporary rfl).2

theorem lookup_congr (same : fs'.getLocalVariable = fs.getLocalVariable) : localValue fs' = localValue fs := by
  funext r id
  rw [localValue, localValue, same]

/-- The function state after the value was taken off the target stack. -/
def dropped (fs fs' : FunctionState) : FunctionState :=
  { fs' with vlocals := fs.vlocals, targetstack := fs.targetstack }

theorem Yields.popTarget (h : Yields G L fs fs' named value t) (vlocals : fs₂.vlocals = fs'.vlocals)
    (targets : fs₂.targetstack = fs'.targetstack) : fs₂.popTarget = .ok (t, dropped fs fs₂) := by
  rw [FunctionState.popTarget, targets, h.target, vlocals]
  cases named with
  | true =>
    obtain ⟨same, loc, -⟩ := h.variable_ rfl
    rw [FunctionState.isLocal, ← same] at loc
    dsimp only
    split at loc
    · cases loc
    · rename_i lvi at_
      obtain ⟨name, named⟩ := Option.isSome_iff_exists.mp loc
      simp only [named, reduceCtorEq, if_false, dropped, same]
  | false =>
    obtain ⟨new, same⟩ := h.temporary rfl
    simp [new, same, dropped]

theorem Yields.popTarget_run {c c' : LVCompiler} {n : Nat} (h : Yields G L fs fs' named value t)
    (run : LVCompiler.popTarget c = .ok (n, c')) (vlocals : c.fs.vlocals = fs'.vlocals)
    (targets : c.fs.targetstack = fs'.targetstack) :
    n = t ∧ c' = { c with fs := dropped fs c.fs } := by
  rw [LVCompiler.popTarget, liftFs, h.popTarget vlocals targets] at run
  cases run
  exact ⟨rfl, rfl⟩

/-- The state in which the target of the instruction on the operands is the next free register. -/
def addressed (fs fs' : FunctionState) : FunctionState :=
  { fs' with
    vlocals := fs.vlocals ++ [⟨none, 0⟩]
    targetstack := fs.vlocals.length :: fs.targetstack
    stacksize := max fs'.stacksize (fs.vlocals.length + 1) }

theorem pushTarget_run {c c' : LVCompiler} {n : Nat} (run : LVCompiler.pushTarget c = .ok (n, c')) :
    n = c.fs.vlocals.length ∧ c' = { c with fs := addressed c.fs c.fs } := by
  rw [LVCompiler.pushTarget, liftFs] at run
  cases pushed : c.fs.pushTarget with
  | error e =>
    rw [pushed] at run
    cases run
  | ok a =>
    obtain ⟨n', fs'⟩ := a
    obtain ⟨rfl, rfl⟩ := pushTarget_cases pushed
    rw [pushed] at run
    cases run
    exact ⟨rfl, rfl⟩

theorem addInstruction_run {c c' : LVCompiler} {op : Opcode} {a0 a1 a2 a3 : Int} {a : Unit}
    (run : LVCompiler.addInstruction op a0 a1 a2 a3 c = .ok (a, c')) :
    c' = { c with fs := c.fs.addInstruction (instruction op a0 a1 a2 a3) } := by
  cases run
  rfl

theorem targeted_literals (fs : FunctionState) (literals : List LVObject) :
    { addressed fs fs with literals := literals } = addressed fs { fs with literals := literals } := rfl

/-! ## Operands and an instruction on them -/

/-- The code from `fs` to `fs'` computes `F`; the registers below `n` are in use. -/
structure Prepared (G : LVObject → LVObject → Option LVObject) (L : List LVObject)
    (fs fs' : FunctionState) (n : Nat) (F : Registers → Option Registers) : Prop where
  kept : Kept fs fs'
  le : fs.vlocals.length ≤ n
  frame : ∀ r r', F r = some r' → Live fs.vlocals.length r r'
  code : Fits L fs' → ∀ pre seg, Segment G L fs pre seg → ∃ seg', Segment G L fs' pre seg' ∧
    ∀ r, Same n (flow (effect G L) seg' r) ((flow (effect G L) seg r).bind F)

theorem Prepared.nothing (kept : Kept fs fs') (code : fs'.instructions = fs.instructions)
    (opt : fs'.optimization = fs.optimization) : Prepared G L fs fs' fs.vlocals.length some where
  kept := kept
  le := le_refl _
  frame := by
    rintro r _ ⟨⟩
    exact Live.refl _ r
  code _ pre seg segment := by
    refine ⟨seg, segment.congr code opt, fun r => ?_⟩
    rw [Option.bind_fun_some]
    exact Same.refl _

theorem Yields.update_live (h : Yields G L fs fs' named value t) {r : Registers} {v : LVObject}
    (known : value r = some v) : Live fs.vlocals.length r (Function.update r t v) := by
  intro k lt
  cases named with
  | true =>
    obtain ⟨-, -, -, -, reads⟩ := h.variable_ rfl
    rw [reads r, Option.some.injEq] at known
    rw [← known, Function.update_eq_self]
  | false =>
    obtain ⟨new, -⟩ := h.temporary rfl
    rw [Function.update_of_ne (by omega)]

theorem Yields.prepared (h : Yields G L fs fs' named value t) :
    Prepared G L fs fs' fs'.vlocals.length fun r => (value r).map (Function.update r t) where
  kept := h.kept
  le := h.height.1
  frame r r' eq := by
    obtain ⟨v, known, rfl⟩ := Option.map_eq_some_iff.mp eq
    exact h.update_live known
  code fits pre seg segment := by
    obtain ⟨seg', segment', same, -⟩ := h.code fits pre seg segment
    exact ⟨seg', segment', same⟩

/-- The second operand is computed after the first. -/
theorem Yields.both (h : Yields G L fs fs₁ named value t)
    (h' : Yields G L fs₁ fs₂ named' value' t')
    (reads : ∀ r r', Live fs.vlocals.length r r' → value' r = value' r') :
    Prepared G L fs fs₂ fs₂.vlocals.length fun r => (value r).bind fun v => (value' r).map fun w =>
      Function.update (Function.update r t v) t' w where
  kept := h.kept.trans h'.kept
  le := h.height.1.trans h'.height.1
  frame r r' eq := by
    obtain ⟨v, known, eq⟩ := Option.bind_eq_some_iff.mp eq
    obtain ⟨w, known', rfl⟩ := Option.map_eq_some_iff.mp eq
    have live := h.update_live known
    rw [reads r _ live] at known'
    exact live.trans ((h'.update_live known').mono h.height.1)
  code fits pre seg segment := by
    obtain ⟨seg₁, segment₁, same, -⟩ := h.code (h'.kept.fits fits) pre seg segment
    obtain ⟨seg₂, segment₂, same', -⟩ := h'.code fits pre seg₁ segment₁
    refine ⟨seg₂, segment₂, fun r => (same' r).trans ?_⟩
    have next : ∀ r r', Live fs₁.vlocals.length r r' →
        Same fs₂.vlocals.length ((value' r).map (Function.update r t'))
          ((value' r').map (Function.update r' t')) := by
      intro r r' live
      rw [h'.reads r r' live]
      cases value' r' with
      | none => exact .none
      | some w =>
        refine .some (live.update t' w h'.height.2.1 fun lt => ?_)
        cases named' with
        | true => rw [(h'.variable_ rfl).1] at lt; omega
        | false => exact (h'.temporary rfl).1
    refine ((same r).bind next).trans ?_
    rw [Option.bind_assoc]
    have steps : ∀ r, (((value r).map (Function.update r t)).bind fun r =>
        (value' r).map (Function.update r t')) = (value r).bind fun v => (value' r).map fun w =>
          Function.update (Function.update r t v) t' w := by
      intro r
      cases known : value r with
      | none => rfl
      | some v =>
        rw [Option.map_some, Option.bind_some, Option.bind_some,
          ← reads r _ (h.update_live known)]
    simp only [steps]
    exact Same.refl _

theorem Prepared.yields {n : Nat} {F : Registers → Option Registers} {i : LVInstruction}
    {val : Registers → Option LVObject} (h : Prepared G L fs fs₁ n F)
    (reads : ∀ r r', Live fs.vlocals.length r r' → value r = value r')
    (known : Fits L (addressed fs fs₁) → Added i ∧ i.arg0 = fs.vlocals.length ∧
      Sets G L i i.arg0 val ∧ (∀ r, (F r).bind val = value r) ∧
      ∀ pi, Idle (fs.vlocals.length + 1) (addressed fs fs₁) pi i)
    (uses : ∀ r r', Live n r r' → val r = val r') :
    Yields G L fs ((addressed fs fs₁).addInstruction i) false value fs.vlocals.length := by
  obtain ⟨added, vlocals, targets, size⟩ := kept_addInstruction (addressed fs fs₁) i
  have kept : Kept fs₁ (addressed fs fs₁) :=
    ⟨rfl, rfl, rfl, rfl, rfl, rfl, le_max_left _ _, List.prefix_rfl⟩
  refine ⟨h.kept.trans (kept.trans added), ?_, ?_, by simp, ?_, reads, ?_⟩
  · rw [vlocals, size, addressed]
    simp
  · rw [targets]
    rfl
  · exact fun _ => ⟨rfl, by rw [vlocals]; rfl⟩
  · intro fits pre seg segment
    obtain ⟨ordinary, target, sets, computes, idle⟩ := known (added.fits fits)
    obtain ⟨seg₁, segment₁, same⟩ := h.code (kept.fits (added.fits fits)) pre seg segment
    have segment₂ : Segment G L (addressed fs fs₁) pre seg₁ := segment₁.congr rfl rfl
    obtain ⟨seg₂, segment₂, same', last⟩ := segment₂.add ordinary fun _ pi _ _ => idle pi
    refine ⟨seg₂, segment₂, fun r => ?_, ?_⟩
    · rw [vlocals, addressed, List.length_append, List.length_singleton]
      have next : ∀ r r', Live n r r' → Same (fs.vlocals.length + 1) (runs G L i r) (runs G L i r') := by
        intro r r' live
        rw [sets.runs, sets.runs, uses r r' live]
        cases val r' with
        | none => exact .none
        | some v => exact .some ((live.mono h.le).update i.arg0 v (le_refl _) fun _ => target)
      refine (same' r).trans (((same r).bind next).trans ?_)
      rw [Option.bind_assoc]
      cases flow (effect G L) seg r with
      | none => exact .none
      | some r =>
        rw [Option.bind_some, Option.bind_some, ← computes r]
        cases done : F r with
        | none => exact .none
        | some r' =>
          rw [Option.bind_some, Option.bind_some, sets.runs, target]
          cases val r' with
          | none => exact .none
          | some v => exact .some ((h.frame r r' done).symm.update _ v (le_refl _) fun _ => rfl)
    · intro _ front pi eq _ cmp
      rw [last front pi eq cmp, target]

/-! ## Constants -/

theorem Fits.target (fits : Fits L (addressed fs fs₁)) : uchar fs.vlocals.length = fs.vlocals.length := by
  refine uchar_of_lt ?_
  have le := (le_max_right fs₁.stacksize (fs.vlocals.length + 1)).trans fits.stacksize
  rw [MAX_FUNC_STACKSIZE] at le
  omega

theorem Idle.other {m : Nat} {pi i : LVInstruction} (move : i.op ≠ .OP_MOVE) (eq : i.op ≠ .OP_EQ)
    (ne : i.op ≠ .OP_NE) : Idle m fs pi i where
  move op := absurd op move
  compare op := by
    rcases op with op | op
    · exact absurd op eq
    · exact absurd op ne

/-- What an expression compiles to, in a function with these variables. -/
def Computes {α : Type} (G : LVObject → LVObject → Option LVObject) (L : List LVObject)
    (names : List String) (m : CompilerM α) (named : Bool)
    (eval : (String → Option LVObject) → Option LVObject) : Prop :=
  ∀ c a c', m c = .ok (a, c') → c.fs.vlocals.length ≤ c.fs.stacksize →
    (∀ id ∈ names, (c.fs.getLocalVariable id).isSome) →
    Beside c c' ∧ ∃ t, Yields G L c.fs c'.fs named (fun r => eval (localValue c.fs r)) t

theorem getConstant_run {c c' : LVCompiler} {cons : LVObject} {n : Nat}
    (run : LVCompiler.getConstant cons c = .ok (n, c')) :
    ∃ literals, c' = { c with fs := { c.fs with literals := literals } } ∧
      c.fs.literals <+: literals ∧ literals[n]? = some cons := by
  rw [LVCompiler.getConstant, liftFs] at run
  cases got : c.fs.getConstant cons with
  | error e =>
    rw [got] at run
    cases run
  | ok a =>
    obtain ⟨n', fs'⟩ := a
    rw [got] at run
    cases run
    rw [FunctionState.getConstant] at got
    split at got
    · rename_i found
      cases got
      refine ⟨c.fs.literals, rfl, List.prefix_rfl, ?_⟩
      obtain ⟨lt, same, -⟩ := List.findIdx?_eq_some_iff_getElem.mp found
      rw [List.getElem?_eq_getElem lt]
      simpa using same
    · split at got
      · cases got
      · cases got
        exact ⟨_, rfl, List.prefix_append _ _, by simp⟩

/-- A constant is loaded into the next free register. -/
theorem yields_constant {i : LVInstruction} {v : LVObject} {literals : List LVObject}
    (eq_ : fs₁ = addressed fs { fs with literals := literals }) (more : fs.literals <+: literals)
    (known : Fits L (addressed fs { fs with literals := literals }) → Added i ∧
      i.arg0 = fs.vlocals.length ∧ Sets G L i i.arg0 fun _ => some v)
    (move : i.op ≠ .OP_MOVE) (eq : i.op ≠ .OP_EQ) (ne : i.op ≠ .OP_NE) :
    Yields G L fs (fs₁.addInstruction i) false (fun _ => some v) fs.vlocals.length := by
  subst eq_
  refine @Prepared.yields _ _ _ _ _ _ _ _ (fun _ => some v)
    (.nothing ⟨rfl, rfl, rfl, rfl, rfl, rfl, le_refl _, more⟩ rfl rfl) (fun _ _ _ => rfl) (fun fits => ?_)
    (fun _ _ _ => rfl)
  obtain ⟨added, target, sets⟩ := known fits
  exact ⟨added, target, sets, fun _ => rfl, fun _ => .other move eq ne⟩

theorem literal_of_initial {literals : List LVObject} {n : Nat} {cons : LVObject}
    (le : literals <+: L) (at_ : literals[n]? = some cons) : literal L n = some cons := by
  rw [literal, if_neg (by omega), Int.toNat_natCast]
  obtain ⟨rest, rfl⟩ := le
  rw [List.getElem?_append_left (List.getElem?_eq_some_iff.mp at_).1, at_]

theorem yields_load {literals : List LVObject} {n : Nat} {cons : LVObject}
    (eq_ : fs₁ = addressed fs { fs with literals := literals }) (more : fs.literals <+: literals)
    (at_ : literals[n]? = some cons) :
    Yields G L fs (fs₁.addInstruction (instruction .OP_LOAD fs.vlocals.length n)) false
      (fun _ => some cons) fs.vlocals.length := by
  refine yields_constant eq_ more (fun fits => ⟨⟨.inr ⟨rfl, by simp [instruction]⟩, ?_, .inl ?_, ?_, ?_⟩,
    fits.target, fun r => ?_⟩) (by simp [instruction]) (by simp [instruction]) (by simp [instruction])
  · simp [instruction]
  · simp [instruction]
  · simp [instruction]
  · simp [instruction]
  · rw [sets_load rfl r]
    exact congrArg _ (literal_of_initial fits.literals at_)

theorem yields_loaded {op : Opcode} {a1 : Int} {v : LVObject} (eq_ : fs₁ = addressed fs fs)
    (kind : op = .OP_LOADINT ∨ op = .OP_LOADFLOAT ∨ op = .OP_LOADBOOL ∧ 0 ≤ a1)
    (result : ∀ a0 r, computed G L (instruction op a0 a1) r = some v) :
    Yields G L fs (fs₁.addInstruction (instruction op fs.vlocals.length a1)) false
      (fun _ => some v) fs.vlocals.length := by
  have one : setsOne op = true := by rcases kind with rfl | rfl | ⟨rfl, -⟩ <;> rfl
  have others : op ≠ .OP_MOVE ∧ op ≠ .OP_EQ ∧ op ≠ .OP_NE ∧ op ≠ .OP_GET ∧ op ≠ .OP_LOADNULLS := by
    rcases kind with rfl | rfl | ⟨rfl, -⟩ <;> simp
  refine yields_constant eq_ List.prefix_rfl (fun fits => ⟨⟨.inr ⟨one, others.2.2.2.1⟩, ?_, ?_, ?_, ?_⟩,
    fits.target, fun r => ?_⟩) others.1 others.2.1 others.2.2.1
  · exact fun op => absurd op others.2.2.2.2
  · rcases kind with op | op | ⟨-, nonneg⟩
    · exact .inr (.inl op)
    · exact .inr (.inr op)
    · exact .inl nonneg
  · exact fun op => absurd op others.1
  · rintro (op | op)
    · exact absurd op others.2.1
    · exact absurd op others.2.2.1
  · rw [sets_computed one r, result _ r]

variable {names : List String}

theorem computes_loadConstant (cons : LVObject) :
    Computes G L names (loadConstant cons) false fun _ => some cons := by
  intro c a c' run sized scope
  obtain ⟨target, c₁, push, run⟩ := bind_ok.mp run
  obtain ⟨n, c₂, got, run⟩ := bind_ok.mp run
  obtain ⟨rfl, rfl⟩ := pushTarget_run push
  obtain ⟨literals, rfl, more, at_⟩ := getConstant_run got
  obtain rfl := addInstruction_run run
  exact ⟨⟨rfl, rfl⟩, _, yields_load (targeted_literals c.fs literals) more at_⟩

theorem computes_emitLoadConstInt (n : Int) :
    Computes G L names (do emitLoadConstInt n (← pushTarget)) false fun _ =>
      some (.integer (BitVec.ofInt 64 n)) := by
  intro c a c' run sized scope
  obtain ⟨target, c₁, push, run⟩ := bind_ok.mp run
  obtain ⟨rfl, rfl⟩ := pushTarget_run push
  unfold emitLoadConstInt at run
  split at run
  · obtain rfl := addInstruction_run run
    exact ⟨⟨rfl, rfl⟩, _, yields_loaded rfl (.inl rfl) fun _ _ => rfl⟩
  · obtain ⟨k, c₂, got, run⟩ := bind_ok.mp run
    obtain ⟨literals, rfl, more, at_⟩ := getConstant_run got
    obtain rfl := addInstruction_run run
    exact ⟨⟨rfl, rfl⟩, _, yields_load (targeted_literals c.fs literals) more at_⟩

theorem computes_emitLoadConstFloat (bits : Int) :
    Computes G L names (do emitLoadConstFloat bits (← pushTarget)) false fun _ =>
      some (.float ((BitVec.ofInt 32 bits).setWidth 64)) := by
  intro c a c' run sized scope
  obtain ⟨target, c₁, push, run⟩ := bind_ok.mp run
  obtain ⟨rfl, rfl⟩ := pushTarget_run push
  obtain rfl := addInstruction_run run
  exact ⟨⟨rfl, rfl⟩, _, yields_loaded rfl (.inr (.inl rfl)) fun _ _ => rfl⟩

theorem computes_loadBool (b : Bool) :
    Computes G L names (do addInstruction .OP_LOADBOOL (← pushTarget) (if b then 1 else 0)) false
      fun _ => some (.bool b) := by
  intro c a c' run sized scope
  obtain ⟨target, c₁, push, run⟩ := bind_ok.mp run
  obtain ⟨rfl, rfl⟩ := pushTarget_run push
  obtain rfl := addInstruction_run run
  refine ⟨⟨rfl, rfl⟩, _, yields_loaded rfl (.inr (.inr ⟨rfl, ?_⟩)) fun _ _ => ?_⟩
  · cases b <;> decide
  · cases b <;> rfl

theorem computes_loadNull :
    Computes G L names (do addInstruction .OP_LOADNULLS (← pushTarget) 1) false
      fun _ => some .null := by
  intro c a c' run sized scope
  obtain ⟨target, c₁, push, run⟩ := bind_ok.mp run
  obtain ⟨rfl, rfl⟩ := pushTarget_run push
  obtain rfl := addInstruction_run run
  refine ⟨⟨rfl, rfl⟩, _, yields_constant rfl List.prefix_rfl (fun fits => ⟨⟨.inl rfl, fun _ => rfl,
    .inl (by simp [instruction]), by simp [instruction], by simp [instruction]⟩, fits.target, sets_nulls rfl rfl⟩)
    ?_ ?_ ?_⟩ <;>
  simp [instruction]

/-! ## Operators -/

theorem BinaryOp.setsOne {op : BinaryOp} (h : op.computes = true) : setsOne op.opcode = true := by
  cases op <;> first | rfl | cases h

theorem BinaryOp.op3_byte (op : BinaryOp) : uchar op.op3 = op.op3.toNat := by
  cases op <;> rfl

theorem BinaryOp.computed {op : BinaryOp} (h : op.computes = true) (a0 k : Nat) {l : Nat}
    (byte : uchar l = l) (r : Registers) :
    computed G L (instruction op.opcode a0 k l op.op3) r = op.eval (r l) (r k) := by
  have zero : BinaryOp.eq.op3.toNat = 0 ∧ BinaryOp.ne.op3.toNat = 0 := ⟨rfl, rfl⟩
  rw [instruction, byte, op.op3_byte]
  cases op <;> first
    | exact absurd h Bool.false_ne_true
    | simp [Lavril.computed, opcode, eval, operand_nat, zero]

/-- The registers handed out fit the byte of an operand. -/
theorem Yields.byte (h : Yields G L fs fs₁ named value t)
    (fits : Fits L (addressed fs fs₁)) : uchar t = t := by
  refine uchar_of_lt ?_
  have le := (le_max_right fs₁.stacksize (fs.vlocals.length + 1)).trans fits.stacksize
  have := h.height
  rw [MAX_FUNC_STACKSIZE] at le
  omega

theorem Yields.not (h : Yields G L fs fs₁ named value t) :
    Yields G L fs ((addressed fs fs₁).addInstruction (instruction .OP_NOT fs.vlocals.length t)) false
      (fun r => (value r).map fun v => .bool (isFalse v)) fs.vlocals.length := by
  have reads : ∀ r, computed G L (instruction .OP_NOT fs.vlocals.length t) r =
      some (.bool (isFalse (r t))) := by
    intro r
    simp only [computed, instruction, operand_nat, Option.map_some]
  refine @Prepared.yields _ _ _ _ _ _ _ _ (fun r => some (.bool (isFalse (r t)))) h.prepared ?_
    (fun fits => ⟨⟨.inr ⟨rfl, by simp [instruction]⟩, ?_, .inl ?_, ?_, ?_⟩, fits.target, fun r => ?_, ?_,
      fun pi => ?_⟩) ?_
  · intro r r' live
    rw [h.reads r r' live]
  · simp [instruction]
  · simp [instruction]
  · simp [instruction]
  · simp [instruction]
  · rw [sets_computed rfl r, reads]
  · intro r
    cases value r with
    | none => rfl
    | some v => simp only [Option.map_some, Option.bind_some, Function.update_self]
  · exact .other (by simp [instruction]) (by simp [instruction]) (by simp [instruction])
  · intro r r' live
    rw [live t h.height.2.2]

theorem Yields.binary {op : BinaryOp} (computes : op.computes = true)
    (h : Yields G L fs fs₁ named value t) (h' : Yields G L fs₁ fs₂ named' value' t')
    (reads : ∀ r r', Live fs.vlocals.length r r' → value' r = value' r') :
    Yields G L fs ((addressed fs fs₂).addInstruction
      (instruction op.opcode fs.vlocals.length t' t op.op3)) false
      (fun r => (value r).bind fun v => (value' r).bind fun w => op.eval v w) fs.vlocals.length := by
  have below : t < fs₂.vlocals.length := h.height.2.2.trans_le h'.height.1
  have byte : Fits L (addressed fs fs₂) → uchar t = t := by
    intro fits
    have le := (le_max_right fs₂.stacksize (fs.vlocals.length + 1)).trans fits.stacksize
    have := h.height
    rw [MAX_FUNC_STACKSIZE] at le
    exact uchar_of_lt (by omega)
  refine @Prepared.yields _ _ _ _ _ _ _ _ (fun r => op.eval (r t) (r t')) (h.both h' reads) ?_
    (fun fits => ⟨⟨.inr ⟨BinaryOp.setsOne computes, ?_⟩, ?_, .inl ?_, ?_, ?_⟩, fits.target, fun r => ?_,
      ?_, fun pi => ⟨?_, ?_⟩⟩) ?_
  · intro r r' live
    rw [h.reads r r' live, reads r r' live]
  · intro get
    cases op <;> cases get
  · intro nulls
    cases op <;> cases nulls
  · simp [instruction]
  · intro move
    cases op <;> cases move
  · rintro (eq | ne)
    · cases op <;> first | rfl | cases eq
    · cases op <;> first | rfl | cases ne
  · rw [sets_computed (BinaryOp.setsOne computes) r, BinaryOp.computed computes _ _ (byte fits)]
  · intro r
    cases known : value r with
    | none => rfl
    | some v =>
      simp only [Option.bind_some]
      cases known' : value' r with
      | none => rfl
      | some w =>
        simp only [Option.map_some, Option.bind_some, Function.update_self]
        congr 1
        by_cases same : t = t'
        · -- both operands are the same variable
          subst same
          rw [Function.update_self]
          cases named' with
          | true =>
            obtain ⟨-, -, -, -, is⟩ := h'.variable_ rfl
            have there := is (Function.update r t v)
            rw [← reads r _ (h.update_live known), known', Function.update_self] at there
            exact Option.some.inj there
          | false =>
            have := (h'.temporary rfl).1
            have := h.height
            omega
        · rw [Function.update_of_ne same, Function.update_self]
  · intro move
    cases op <;> cases move
  · intro _ _ target temporary
    have target : pi.arg0 = t' := by simpa [instruction] using target
    rw [target] at temporary ⊢
    cases named' with
    | true =>
      obtain ⟨-, loc, -⟩ := h'.variable_ rfl
      have still : (addressed fs fs₂).isLocal t' = true := by
        cases named with
        | true => exact isLocal_append (isLocal_congr (h.variable_ rfl).1 ▸ loc) rfl
        | false =>
          have same : (addressed fs fs₂).vlocals = fs₁.vlocals := (h.temporary rfl).2.symm
          rwa [isLocal_congr same]
      rw [still] at temporary
      cases temporary
    | false =>
      obtain ⟨new, -⟩ := h'.temporary rfl
      have := h.height
      have target : (instruction op.opcode fs.vlocals.length t' t op.op3).arg0 = fs.vlocals.length :=
        fits.target
      have left : (instruction op.opcode fs.vlocals.length t' t op.op3).arg2 = t := byte fits
      rw [target, left]
      omega
  · intro r r' live
    rw [live t below, live t' h'.height.2.2]

/-! ## `||` and `&&` -/

/-- Whether the first operand is the value. -/
def decidesAlone (op : Opcode) (v : LVObject) : Bool := if op = .OP_AND then isFalse v else !isFalse v

theorem effect_shortCircuit {op : Opcode} (kind : op = .OP_OR ∨ op = .OP_AND) {trg t : Nat}
    (byte : uchar trg = trg) (byte' : uchar t = t) (d : Int) (r : Registers) :
    effect G L { instruction op trg 0 t 0 with arg1 := d } r =
      some (if decidesAlone op (r t) then (d, Function.update r trg (r t)) else (0, r)) := by
  rcases kind with rfl | rfl <;>
  · simp only [effect, exec, instruction, byte, byte', decidesAlone]
    by_cases falsy : isFalse (r t) = true <;> simp [falsy, Frame.set, Frame.jump]

/-- A value is moved to where it is wanted. -/
theorem sets_move {trg t : Nat} (byte : uchar trg = trg) :
    Sets G L (instruction .OP_MOVE trg t) trg fun r => some (r t) := by
  intro r
  have sets := sets_computed (G := G) (L := L) (i := instruction .OP_MOVE trg t) rfl r
  have target : (instruction .OP_MOVE trg t).arg0 = trg := byte
  rw [target] at sets
  rw [sets]
  simp only [computed, instruction, operand_nat]

theorem added_move {trg t : Nat} (byte : uchar t = t) : Added (instruction .OP_MOVE trg t) where
  kind := .inr ⟨rfl, by simp [instruction]⟩
  nulls := by simp [instruction]
  register := .inl (by simp [instruction])
  byte _ := by
    have := uchar_lt t
    simp only [instruction]
    omega
  compares := by simp [instruction]

/-- The state after a value was taken off the target stack and moved to `trg`. -/
def movedTo (fs fs' : FunctionState) (opt : Bool) (trg t : Nat) : FunctionState :=
  { dropped fs fs' with optimization := opt }.addInstruction (instruction .OP_MOVE trg t)

theorem Yields.ne_temporary (h : Yields G L fs fs' named value t) {V : List LVLocalVarInfo}
    (temp : fs.vlocals = V ++ [⟨none, 0⟩]) : V.length ≠ t := by
  rintro rfl
  cases named with
  | true =>
    obtain ⟨-, loc, -⟩ := h.variable_ rfl
    simp [FunctionState.isLocal, temp] at loc
  | false =>
    obtain ⟨new, -⟩ := h.temporary rfl
    simp [temp] at new

theorem movedTo_kept (h : Yields G L fs fs' named value t) (opt : Bool) (trg : Nat) :
    Kept fs (movedTo fs fs' opt trg t) ∧ (movedTo fs fs' opt trg t).vlocals = fs.vlocals ∧
      (movedTo fs fs' opt trg t).targetstack = fs.targetstack ∧
      (movedTo fs fs' opt trg t).stacksize = fs'.stacksize := by
  obtain ⟨added, vlocals, targets, size⟩ := kept_addInstruction
    { dropped fs fs' with optimization := opt } (instruction .OP_MOVE trg t)
  have kept : Kept fs' { dropped fs fs' with optimization := opt } :=
    ⟨rfl, rfl, rfl, rfl, rfl, rfl, le_refl _, List.prefix_rfl⟩
  exact ⟨h.kept.trans (kept.trans added), vlocals, targets, size⟩

/-- The code of a value that is wanted in the temporary `trg`. -/
theorem Yields.moved (h : Yields G L fs fs' named value t) {opt : Bool} {trg : Nat}
    (last : fs.vlocals.length = trg + 1) (awake : opt = fs'.optimization ∨ opt = false)
    (fits : Fits L (movedTo fs fs' opt trg t)) (segment : Segment G L fs pre seg)
    (start : named = true → seg = [] ∨ opt = false) :
    ∃ seg', Segment G L (movedTo fs fs' opt trg t) pre seg' ∧
      ∀ r, Same (trg + 1) (flow (effect G L) seg' r)
        ((flow (effect G L) seg r).bind fun r => (value r).map (Function.update r trg)) := by
  obtain ⟨-, -, -, size⟩ := movedTo_kept h opt trg
  have small : t < 256 ∧ trg < 256 := by
    have le := fits.stacksize
    have sized := h.sized
    have height := h.height
    rw [size, MAX_FUNC_STACKSIZE] at le
    omega
  have added : Added (instruction .OP_MOVE trg t) := added_move (uchar_of_lt small.1)
  have sets : Sets G L (instruction .OP_MOVE trg t) trg fun r => some (r t) :=
    sets_move (uchar_of_lt small.2)
  have kept := kept_addInstruction { dropped fs fs' with optimization := opt } (instruction .OP_MOVE trg t)
  have fits' : Fits L fs' := ⟨kept.1.stacksize.trans fits.stacksize, kept.1.literals.trans fits.literals⟩
  obtain ⟨seg₁, segment₁, same, -⟩ := h.code fits' pre seg segment
  have segment₂ : Segment G L { dropped fs fs' with optimization := opt } pre seg₁ := by
    rcases awake with awake | asleep
    · exact segment₁.congr rfl awake
    · rw [asleep]
      exact segment₁.snooze.congr rfl rfl
  obtain ⟨seg₂, segment₃, same', -⟩ := @Segment.add _ _ _ _ _ _ (trg + 1) segment₂ added (by
    intro front pi eq on
    refine ⟨fun _ _ target => ?_, by simp [instruction]⟩
    have target : pi.arg0 = t := by simpa [instruction] using target
    cases named with
    | true =>
      obtain ⟨-, -, code, -⟩ := h.variable_ rfl
      have unchanged : seg₁ = seg := by
        have := segment₁.code
        rwa [code, segment.code, List.append_cancel_left_eq, eq_comm] at this
      rcases start rfl with none | asleep
      · rw [unchanged, none] at eq
        simp at eq
      · rw [asleep] at on
        cases on
    | false =>
      obtain ⟨new, -⟩ := h.temporary rfl
      left
      omega)
  refine ⟨seg₂, segment₃, fun r => ?_⟩
  have height := h.height
  have next : ∀ r r', Live fs'.vlocals.length r r' →
      Same (trg + 1) (runs G L (instruction .OP_MOVE trg t) r)
        (runs G L (instruction .OP_MOVE trg t) r') := by
    intro r r' live
    rw [sets.runs, sets.runs, Option.map_some, Option.map_some, live t height.2.2]
    exact .some ((live.mono (by omega)).update trg _ (le_refl _) fun _ => rfl)
  refine (same' r).trans (((same r).bind next).trans ?_)
  rw [Option.bind_assoc]
  cases flow (effect G L) seg r with
  | none => exact .none
  | some r =>
    rw [Option.bind_some, Option.bind_some]
    cases known : value r with
    | none => exact .none
    | some v =>
      rw [Option.map_some, Option.map_some, Option.bind_some, sets.runs, Option.map_some,
        Function.update_self]
      have live : Live (trg + 1) (Function.update r t v) r := last ▸ (h.update_live known).symm
      exact .some (live.update trg v (by omega) fun lt => by omega)

/-- The jump over the second operand. -/
def jumpTo (fs fs₁ : FunctionState) (op : Opcode) (t : Nat) : FunctionState :=
  (addressed fs fs₁).addInstruction (instruction op fs.vlocals.length 0 t 0)

/-- The state in which the second operand is compiled. -/
def started (fs fs₁ : FunctionState) (op : Opcode) (t : Nat) : FunctionState :=
  if fs.vlocals.length ≠ t then
    (jumpTo fs fs₁ op t).addInstruction (instruction .OP_MOVE fs.vlocals.length t)
  else jumpTo fs fs₁ op t

theorem started_kept (fs fs₁ : FunctionState) (op : Opcode) (t : Nat) :
    Kept fs₁ (started fs fs₁ op t) ∧ (started fs fs₁ op t).vlocals = fs.vlocals ++ [⟨none, 0⟩] ∧
      (started fs fs₁ op t).targetstack = fs.vlocals.length :: fs.targetstack ∧
      (started fs fs₁ op t).stacksize = max fs₁.stacksize (fs.vlocals.length + 1) := by
  have kept : Kept fs₁ (addressed fs fs₁) :=
    ⟨rfl, rfl, rfl, rfl, rfl, rfl, le_max_left _ _, List.prefix_rfl⟩
  obtain ⟨jump, vlocals, targets, size⟩ := kept_addInstruction (addressed fs fs₁)
    (instruction op fs.vlocals.length 0 t 0)
  rw [started]
  split
  · obtain ⟨move, vlocals', targets', size'⟩ := kept_addInstruction (jumpTo fs fs₁ op t)
      (instruction .OP_MOVE fs.vlocals.length t)
    exact ⟨kept.trans (jump.trans move), vlocals'.trans vlocals, targets'.trans targets,
      size'.trans size⟩
  · exact ⟨kept.trans jump, vlocals, targets, size⟩

theorem started_code {op : Opcode} (kind : op = .OP_OR ∨ op = .OP_AND) (byte : uchar t = t)
    (byte' : uchar fs.vlocals.length = fs.vlocals.length) (segment : Segment G L fs₁ pre seg) :
    (jumpTo fs fs₁ op t).instructions = pre ++ seg ++ [instruction op fs.vlocals.length 0 t 0] ∧
    ∃ seg', Segment G L (started fs fs₁ op t)
        (pre ++ seg ++ [instruction op fs.vlocals.length 0 t 0]) seg' ∧
      ∀ r, ∃ r', flow (effect G L) seg' r = some r' ∧ Live fs.vlocals.length r r' := by
  have segment₁ : Segment G L (addressed fs fs₁) pre seg := segment.congr rfl rfl
  have alone : standsAlone (instruction op fs.vlocals.length 0 t 0).op = true := by
    rcases kind with rfl | rfl <;> rfl
  obtain ⟨code, -⟩ := segment₁.addInstruction_alone alone
  have free : fusable .statement (instruction op fs.vlocals.length 0 t 0).op = false := by
    rcases kind with rfl | rfl <;> rfl
  have after : Segment G L (jumpTo fs fs₁ op t)
      (pre ++ seg ++ [instruction op fs.vlocals.length 0 t 0]) [] := Segment.after code free
  refine ⟨code, ?_⟩
  rw [started]
  split
  · obtain ⟨seg', segment', same, -⟩ := @Segment.add _ _ _ _ _ _ (fs.vlocals.length + 1) after
      (added_move byte) (by
        intro front pi eq
        simp at eq)
    refine ⟨seg', segment', fun r => ?_⟩
    have moved := same r
    rw [flow_nil, Option.bind_some, (sets_move byte').runs, Option.map_some] at moved
    cases flows : flow (effect G L) seg' r with
    | none =>
      rw [flows] at moved
      cases moved
    | some r' =>
      rw [flows] at moved
      cases moved with
      | some live =>
        refine ⟨r', rfl, fun k lt => ?_⟩
        rw [live k (by omega), Function.update_of_ne (by omega)]
  · exact ⟨[], after, fun r => ⟨r, flow_nil, Live.refl _ r⟩⟩

/-- The jump, once its offset is known. -/
def jumped (fs fs₁ fs₂ : FunctionState) (op : Opcode) (t t' : Nat) : FunctionState :=
  let moved := (movedTo (started fs fs₁ op t) fs₂ false fs.vlocals.length t').snoozeOpt
  moved.setArg1 ((jumpTo fs fs₁ op t).instructions.length - 1)
    (moved.getCurrentPos - ((jumpTo fs fs₁ op t).instructions.length - 1 : Nat))

/-- What the jump and the second operand compute depends only on the registers in use. -/
theorem jumped_same {op : Opcode} {m n t : Nat} {jump : LVInstruction} {code : List LVInstruction}
    {value' : Registers → Option LVObject}
    (skips : ∀ r, effect G L jump r = some (if decidesAlone op (r t) then
      ((code.length : Int), Function.update r m (r t)) else (0, r)))
    (second : ∀ r, Same (m + 1) (flow (effect G L) code r) ((value' r).map (Function.update r m)))
    (reads : ∀ r r', Live m r r' → value' r = value' r') (le : m ≤ n) (lt : t < n)
    {r r' : Registers} (live : Live n r r') : Same (m + 1) (flow (effect G L) (jump :: code) r)
      (if decidesAlone op (r' t) then some (Function.update r' m (r' t))
        else (value' r').map (Function.update r' m)) := by
  have below : Live m r r' := live.mono le
  have skip := skips r
  rw [live t lt] at skip
  by_cases alone : decidesAlone op (r' t) = true
  · rw [if_pos alone] at skip ⊢
    rw [flow_skip skip]
    exact .some (below.update _ _ (le_refl _) fun _ => rfl)
  · rw [if_neg alone] at skip ⊢
    rw [flow_straight skip]
    refine (second r).trans ?_
    rw [reads r r' below]
    cases value' r' with
    | none => exact .none
    | some v => exact .some (below.update _ v (le_refl _) fun _ => rfl)

theorem Yields.shortCircuit {op : Opcode} (kind : op = .OP_OR ∨ op = .OP_AND)
    (h : Yields G L fs fs₁ named value t)
    (h' : Yields G L (started fs fs₁ op t) fs₂ named' value' t')
    (reads : ∀ r r', Live fs.vlocals.length r r' → value' r = value' r') :
    Yields G L fs (jumped fs fs₁ fs₂ op t t') false
      (fun r => (value r).bind fun v => if decidesAlone op v then some v else value' r)
      fs.vlocals.length := by
  obtain ⟨begun, vlocals, targets, size⟩ := started_kept fs fs₁ op t
  obtain ⟨moved, vlocals', targets', size'⟩ := movedTo_kept h' false fs.vlocals.length
  have last : (started fs fs₁ op t).vlocals.length = fs.vlocals.length + 1 := by
    rw [vlocals, List.length_append, List.length_singleton]
  have kept : Kept fs₁ (jumped fs fs₁ fs₂ op t t') := by
    have := begun.trans moved
    exact ⟨this.traps, this.breaktargets, this.continuetargets, this.outers, this.unresolvedbreaks,
      this.unresolvedcontinues, this.stacksize, this.literals⟩
  refine ⟨h.kept.trans kept, ?_, ?_, by simp, fun _ => ⟨rfl, vlocals'.trans vlocals⟩, ?_, ?_⟩
  · have sized := h'.sized
    have height := h'.height
    rw [← size'] at sized
    change (movedTo (started fs fs₁ op t) fs₂ false fs.vlocals.length t').vlocals.length ≤
      (movedTo (started fs fs₁ op t) fs₂ false fs.vlocals.length t').stacksize
    rw [vlocals']
    omega
  · exact targets'.trans targets
  · intro r r' live
    rw [h.reads r r' live, reads r r' live]
  · intro fits pre seg segment
    have fitsMoved : Fits L (movedTo (started fs fs₁ op t) fs₂ false fs.vlocals.length t') :=
      ⟨fits.stacksize, fits.literals⟩
    have fitsStarted := moved.fits fitsMoved
    have small := fitsStarted.stacksize
    have height := h.height
    rw [size, MAX_FUNC_STACKSIZE] at small
    have byte : uchar t = t := uchar_of_lt (by omega)
    have byte' : uchar fs.vlocals.length = fs.vlocals.length := uchar_of_lt (by omega)
    obtain ⟨seg₁, segment₁, same, -⟩ := h.code (begun.fits fitsStarted) pre seg segment
    obtain ⟨code, seg₂, segment₂, starts⟩ := started_code kind byte byte' segment₁
    obtain ⟨seg₃, segment₃, same'⟩ := h'.moved last (.inr rfl) fitsMoved segment₂ fun _ => .inr rfl
    -- the code of the second operand, wherever it starts from
    have second : ∀ r, Same (fs.vlocals.length + 1) (flow (effect G L) seg₃ r)
        ((value' r).map (Function.update r fs.vlocals.length)) := by
      intro r
      obtain ⟨r', flows, live⟩ := starts r
      refine (same' r).trans ?_
      rw [flows, Option.bind_some, ← reads r r' live]
      cases value' r with
      | none => exact .none
      | some v => exact .some (live.symm.update _ v (le_refl _) fun _ => rfl)
    let jump : LVInstruction :=
      { instruction op fs.vlocals.length 0 t 0 with arg1 := (seg₃.length : Int) }
    have place : (jumpTo fs fs₁ op t).instructions.length - 1 = (pre ++ seg₁).length := by
      rw [code, List.length_append, List.length_singleton, Nat.add_sub_cancel]
    have patched : (jumped fs fs₁ fs₂ op t t').instructions = pre ++ (seg₁ ++ jump :: seg₃) := by
      have whole := segment₃.code
      rw [List.append_assoc _ [_], List.singleton_append] at whole
      have offset : (movedTo (started fs fs₁ op t) fs₂ false fs.vlocals.length t').snoozeOpt.getCurrentPos -
          ((pre ++ seg₁).length : Nat) = (seg₃.length : Int) := by
        rw [FunctionState.getCurrentPos, FunctionState.snoozeOpt, whole]
        simp only [List.length_append, List.length_cons]
        omega
      simp only [jumped, FunctionState.setArg1, modifyInstruction, place, offset]
      rw [FunctionState.snoozeOpt, whole, modify_middle, List.append_assoc]
    have skips : ∀ r, effect G L jump r = some (if decidesAlone op (r t) then
        ((seg₃.length : Int), Function.update r fs.vlocals.length (r t)) else (0, r)) :=
      effect_shortCircuit kind byte' byte _
    refine ⟨seg₁ ++ jump :: seg₃, ⟨patched, segment₁.closed.append (.cons ?_ segment₃.closed), ?_,
      by rintro ⟨⟩, by rintro ⟨⟩⟩, fun r => ?_, ?_⟩
    · intro r d r' runs
      rw [skips] at runs
      split at runs <;> cases runs <;> omega
    · intro i mem
      rcases List.mem_append.mp mem with old | new
      · exact segment₁.ordinary i old
      · rcases List.mem_cons.mp new with rfl | rest
        · rcases kind with rfl | rfl <;>
          exact ⟨⟨by simp [jump, instruction], rfl, by simp [jump, instruction]⟩,
            by simp [jump, instruction]⟩
        · exact segment₃.ordinary i rest
    · have height' : (jumped fs fs₁ fs₂ op t t').vlocals.length = fs.vlocals.length + 1 :=
        (congrArg List.length vlocals').trans last
      rw [height', flow_append segment₁.closed]
      have next : ∀ r r', Live fs₁.vlocals.length r r' →
          Same (fs.vlocals.length + 1) (flow (effect G L) (jump :: seg₃) r)
            (if decidesAlone op (r' t) then some (Function.update r' fs.vlocals.length (r' t))
              else (value' r').map (Function.update r' fs.vlocals.length)) :=
        fun r r' live => jumped_same skips second reads height.1 height.2.2 live
      refine ((same r).bind next).trans ?_
      rw [Option.bind_assoc]
      cases flow (effect G L) seg r with
      | none => exact .none
      | some r =>
        rw [Option.bind_some, Option.bind_some]
        cases known : value r with
        | none => exact .none
        | some v =>
          have live := h.update_live known
          rw [Option.map_some, Option.bind_some, Option.bind_some, Function.update_self,
            ← reads r _ live]
          split
          · exact .some (live.symm.update _ v (le_refl _) fun _ => rfl)
          · cases value' r with
            | none => exact .none
            | some w => exact .some (live.symm.update _ w (le_refl _) fun _ => rfl)
    · rintro _ front pi eq ⟨⟩

/-! ## `?:` -/

theorem branch_effect {j : LVInstruction} (kind : j.op = .OP_JZ ∨ j.op = .OP_JCMP) {r r' : Registers}
    {d : Int} (run : effect G L j r = some (d, r')) : (d = 0 ∨ d = j.arg1) ∧ r' = r := by
  obtain ⟨op, a0, a1, a2, a3⟩ := j
  rcases kind with rfl | rfl
  · simp only [effect, exec, Option.map_some] at run
    split at run <;> cases run <;> simp [Frame.jump]
  · rw [effect_jcmp] at run
    obtain ⟨o, -, eq⟩ := Option.map_eq_some_iff.mp run
    split at eq <;> cases eq <;> simp

/-- The state after the test of a condition. -/
def afterTest (fs fs₁ : FunctionState) (t : Nat) : FunctionState :=
  (dropped fs fs₁).addInstruction (instruction .OP_JZ t)

theorem afterTest_kept (h : Yields G L fs fs₁ named value t) :
    Kept fs (afterTest fs fs₁ t) ∧ (afterTest fs fs₁ t).vlocals = fs.vlocals ∧
      (afterTest fs fs₁ t).targetstack = fs.targetstack ∧
      (afterTest fs fs₁ t).stacksize = fs₁.stacksize := by
  obtain ⟨jump, vlocals, targets, size⟩ := kept_addInstruction (dropped fs fs₁) (instruction .OP_JZ t)
  have kept : Kept fs₁ (dropped fs fs₁) := ⟨rfl, rfl, rfl, rfl, rfl, rfl, le_refl _, List.prefix_rfl⟩
  exact ⟨h.kept.trans (kept.trans jump), vlocals, targets, size⟩

/-- The test that a condition ends in. -/
theorem Yields.tested (h : Yields G L fs fs₁ named value t) (a1 : Int)
    (code_eq : fs₂.instructions = fs₁.instructions) (opt_eq : fs₂.optimization = fs₁.optimization)
    (fits : Fits L fs₁) (segment : Segment G L fs pre seg) (start : named = true → seg = []) :
    ∃ front j, (fs₂.addInstruction (instruction .OP_JZ t a1)).instructions = pre ++ front ++ [j] ∧
      (fs₂.addInstruction (instruction .OP_JZ t a1)).optimization = true ∧ j.arg1 = a1 ∧
      Closed (effect G L) front ∧ (∀ i ∈ front, Ordinary i) ∧ (j.op = .OP_JZ ∨ j.op = .OP_JCMP) ∧
      ∀ d r, SameJump fs.vlocals.length
        ((flow (effect G L) front r).bind (effect G L { j with arg1 := d }))
        ((flow (effect G L) seg r).bind fun r => (value r).map fun v =>
          (if isFalse v then d else 0, r)) := by
  have small := fits.stacksize
  have sized := h.sized
  have height := h.height
  rw [MAX_FUNC_STACKSIZE] at small
  obtain ⟨seg₁, segment₁, same, last⟩ := h.code fits pre seg segment
  have segment₂ : Segment G L fs₂ pre seg₁ := segment₁.congr code_eq opt_eq
  obtain ⟨front, j, code, opt, arg1, branches⟩ := @Segment.test _ _ _ _ _ fs.vlocals.length segment₂ t a1
    (by omega) (by
      intro front pi eq on cmp
      cases named with
      | true =>
        obtain ⟨-, -, unchanged, -⟩ := h.variable_ rfl
        have none := segment₁.code
        rw [unchanged, segment.code, start rfl, List.append_cancel_left_eq] at none
        rw [← none] at eq
        simp at eq
      | false =>
        refine ⟨last rfl front pi eq (opt_eq.symm.trans on) cmp, ?_⟩
        rw [(h.temporary rfl).1])
  refine ⟨front, j, code, opt, arg1, branches.closed, branches.ordinary, branches.kind, fun d r => ?_⟩
  have jumps := branches.same d r
  have after := same r
  have tests : ((flow (effect G L) seg r).bind fun r => (value r).map (Function.update r t)).bind
      (jumpsOn t d) = (flow (effect G L) seg r).bind fun r => (value r).map fun v =>
        (if isFalse v then d else 0, Function.update r t v) := by
    rw [Option.bind_assoc]
    congr 1
    funext r
    cases value r with
    | none => rfl
    | some v => simp only [Option.map_some, Option.bind_some, jumpsOn, Function.update_self]
  have trans : SameJump fs.vlocals.length ((flow (effect G L) seg₁ r).bind (jumpsOn t d))
      (((flow (effect G L) seg r).bind fun r => (value r).map (Function.update r t)).bind
        (jumpsOn t d)) := after.jumps d height.1 height.2.2
  rw [tests] at trans
  have done : SameJump fs.vlocals.length
      ((flow (effect G L) seg r).bind fun r => (value r).map fun v =>
        (if isFalse v then d else 0, Function.update r t v))
      ((flow (effect G L) seg r).bind fun r => (value r).map fun v =>
        (if isFalse v then d else 0, r)) := by
    cases flow (effect G L) seg r with
    | none => exact .none
    | some r =>
      rw [Option.bind_some, Option.bind_some]
      cases known : value r with
      | none => exact .none
      | some v => exact .some ⟨rfl, (h.update_live known).symm⟩
  exact (jumps.trans trans).trans done

/-- The state after `?:`, when `fs₂` is the one after its test, `moved₁` and `moved₂` those after
its branches and `other` the one before the second. -/
def decided (fs₂ moved₁ other moved₂ : FunctionState) : FunctionState :=
  let jmppos := other.instructions.length - 1
  let jzpos := fs₂.instructions.length - 1
  ((moved₂.setArg1 jmppos (moved₂.getCurrentPos - jmppos)).setArg1 jzpos
    (moved₁.getCurrentPos - jzpos + 1)).snoozeOpt

theorem effect_jmp (d : Int) (r : Registers) :
    effect G L { instruction .OP_JMP with arg1 := d } r = some (d, r) := by
  simp [effect, exec, instruction, Frame.jump]

/-- One branch of `?:`, at the start of a segment. -/
theorem Yields.arm {trg : Nat} {code : List LVInstruction}
    (h : Yields G L fs fs' named value t) (last : fs.vlocals.length = trg + 1)
    (fits : Fits L (movedTo fs fs' fs'.optimization trg t)) (segment : Segment G L fs code [])
    (reads : ∀ r r', Live trg r r' → value r = value r') :
    ∃ seg, Segment G L (movedTo fs fs' fs'.optimization trg t) code seg ∧
      ∀ r r', Live trg r r' → Same (trg + 1) (flow (effect G L) seg r)
        ((value r').map (Function.update r' trg)) := by
  obtain ⟨seg, segment', same⟩ := h.moved last (.inl rfl) fits segment fun _ => .inl rfl
  refine ⟨seg, segment', fun r r' live => ?_⟩
  have runs := same r
  rw [flow_nil, Option.bind_some, reads r r' live] at runs
  refine runs.trans ?_
  cases value r' with
  | none => exact .none
  | some v => exact .some (live.update trg v (le_refl _) fun _ => rfl)

/-- The code of the two branches after the test. -/
theorem decided_code {moved₁ other moved₂ : FunctionState} {front A B : List LVInstruction}
    {j : LVInstruction} (code : fs₂.instructions = pre ++ front ++ [j])
    (code₁ : moved₁.instructions = pre ++ front ++ [j] ++ A)
    (code₂ : other.instructions = pre ++ front ++ [j] ++ A ++ [instruction .OP_JMP])
    (code₃ : moved₂.instructions = pre ++ front ++ [j] ++ A ++ [instruction .OP_JMP] ++ B) :
    (decided fs₂ moved₁ other moved₂).instructions = pre ++ (front ++
      { j with arg1 := (A.length : Int) + 1 } ::
        (A ++ { instruction .OP_JMP with arg1 := (B.length : Int) } :: B)) := by
  have jzpos : fs₂.instructions.length - 1 = (pre ++ front).length := by
    rw [code, List.length_append, List.length_singleton, Nat.add_sub_cancel]
  have jmppos : other.instructions.length - 1 = (pre ++ front ++ [j] ++ A).length := by
    rw [code₂, List.length_append, List.length_singleton, Nat.add_sub_cancel]
  have endfirst : moved₁.getCurrentPos - ((pre ++ front).length : Nat) + 1 = (A.length : Int) + 1 := by
    rw [FunctionState.getCurrentPos, code₁]
    simp only [List.length_append, List.length_singleton]
    omega
  have endsecond : moved₂.getCurrentPos - ((pre ++ front ++ [j] ++ A).length : Nat) =
      (B.length : Int) := by
    rw [FunctionState.getCurrentPos, code₃]
    simp only [List.length_append, List.length_singleton]
    omega
  simp only [decided, FunctionState.snoozeOpt, FunctionState.setArg1, modifyInstruction, jzpos,
    jmppos, endfirst, endsecond, code₃]
  rw [List.append_assoc _ [_] B, List.singleton_append, modify_middle]
  simp only [List.append_assoc, List.cons_append, List.nil_append]
  rw [← List.append_assoc pre front, modify_middle, List.append_assoc]

/-- The test and the branches behind it compute what the operands of `?:` do. -/
theorem decided_same {m : Nat} {front seg A B : List LVInstruction} {j : LVInstruction}
    {value value₁ value₂ : Registers → Option LVObject} (closed : Closed (effect G L) front)
    (closedA : Closed (effect G L) A)
    (jumps : ∀ d r, SameJump m ((flow (effect G L) front r).bind (effect G L { j with arg1 := d }))
      ((flow (effect G L) seg r).bind fun r => (value r).map fun v =>
        (if isFalse v then d else 0, r)))
    (armA : ∀ r r', Live m r r' → Same (m + 1) (flow (effect G L) A r)
      ((value₁ r').map (Function.update r' m)))
    (armB : ∀ r r', Live m r r' → Same (m + 1) (flow (effect G L) B r)
      ((value₂ r').map (Function.update r' m))) (r : Registers) :
    Same (m + 1) (flow (effect G L) (front ++ { j with arg1 := (A.length : Int) + 1 } ::
        (A ++ { instruction .OP_JMP with arg1 := (B.length : Int) } :: B)) r)
      ((flow (effect G L) seg r).bind fun r =>
        ((value r).bind fun v => if isFalse v then value₂ r else value₁ r).map
          (Function.update r m)) := by
  rw [flow_append closed]
  have jump := jumps ((A.length : Int) + 1) r
  cases begun : flow (effect G L) seg r with
  | none =>
    rw [begun] at jump
    rw [bind_flow_fails jump.of_none]
    exact .none
  | some s =>
    rw [begun, Option.bind_some] at jump
    rw [Option.bind_some]
    cases known : value s with
    | none =>
      rw [known] at jump
      rw [bind_flow_fails jump.of_none]
      exact .none
    | some v =>
      rw [known, Option.map_some] at jump
      obtain ⟨s', goes, live⟩ := jump.of_some
      rw [Option.bind_some]
      cases falsy : isFalse v with
      | true =>
        have second : (A ++ { instruction .OP_JMP with arg1 := (B.length : Int) } :: B).drop
            (A.length + 1) = B := by
          rw [← List.singleton_append, ← List.append_assoc]
          exact List.drop_left' (by simp)
        have taken : (flow (effect G L) front r).bind
            (effect G L { j with arg1 := (A.length : Int) + 1 }) =
            some (((A.length + 1 : Nat) : Int), s') := by rw [goes, falsy]; rfl
        rw [bind_flow_jump taken (by simp only [List.length_append, List.length_cons]; omega),
          second]
        exact armB s' s live
      | false =>
        have taken : (flow (effect G L) front r).bind
            (effect G L { j with arg1 := (A.length : Int) + 1 }) =
            some (((0 : Nat) : Int), s') := by rw [goes, falsy]; rfl
        have skips : flow (effect G L) ({ instruction .OP_JMP with arg1 := (B.length : Int) } :: B) =
            some := by
          funext s
          exact flow_skip (effect_jmp _ s)
        rw [bind_flow_jump taken (Nat.zero_le _), List.drop_zero, flow_append closedA, skips,
          Option.bind_fun_some]
        exact armA s' s live

theorem Yields.cond {fs₃ fs₄ there moved₁ other moved₂ : FunctionState} {t₁ t₂ : Nat}
    {named₁ named₂ : Bool} {value₁ value₂ : Registers → Option LVObject}
    (h : Yields G L fs fs₁ false value t) (test_eq : fs₂ = afterTest fs fs₁ t)
    (there_eq : there = addressed fs₂ fs₂) (h₁ : Yields G L there fs₃ named₁ value₁ t₁)
    (moved₁_eq : moved₁ = movedTo there fs₃ fs₃.optimization fs.vlocals.length t₁)
    (other_eq : other = moved₁.addInstruction (instruction .OP_JMP))
    (h₂ : Yields G L other fs₄ named₂ value₂ t₂)
    (moved₂_eq : moved₂ = movedTo other fs₄ fs₄.optimization fs.vlocals.length t₂)
    (reads₁ : ∀ r r', Live fs.vlocals.length r r' → value₁ r = value₁ r')
    (reads₂ : ∀ r r', Live fs.vlocals.length r r' → value₂ r = value₂ r') :
    Yields G L fs (decided fs₂ moved₁ other moved₂) false
      (fun r => (value r).bind fun v => if isFalse v then value₂ r else value₁ r)
      fs.vlocals.length := by
  obtain ⟨testKept, vlocals, targets, size⟩ := afterTest_kept h
  obtain ⟨kept₁, vlocals₁, targets₁, size₁⟩ := movedTo_kept h₁ fs₃.optimization fs.vlocals.length
  obtain ⟨kept₂, vlocals₂, targets₂, size₂⟩ := movedTo_kept h₂ fs₄.optimization fs.vlocals.length
  obtain ⟨jump, vlocals', targets', size'⟩ := kept_addInstruction moved₁ (instruction .OP_JMP)
  rw [← test_eq] at testKept vlocals targets size
  rw [← moved₁_eq] at kept₁ vlocals₁ targets₁ size₁
  rw [← moved₂_eq] at kept₂ vlocals₂ targets₂ size₂
  rw [← other_eq] at jump vlocals' targets' size'
  have freeKept : Kept fs₂ there := by
    rw [there_eq]
    exact ⟨rfl, rfl, rfl, rfl, rfl, rfl, le_max_left _ _, List.prefix_rfl⟩
  have new : there.vlocals = fs.vlocals ++ [⟨none, 0⟩] := by rw [there_eq, addressed, vlocals]
  have last : there.vlocals.length = fs.vlocals.length + 1 := by
    rw [new, List.length_append, List.length_singleton]
  have last₁ : other.vlocals.length = fs.vlocals.length + 1 := by rw [vlocals', vlocals₁, last]
  have whole : Kept fs moved₂ :=
    testKept.trans (freeKept.trans (kept₁.trans (jump.trans kept₂)))
  have names : moved₂.vlocals = fs.vlocals ++ [⟨none, 0⟩] := by
    rw [vlocals₂, vlocals', vlocals₁, new]
  refine ⟨⟨whole.traps, whole.breaktargets, whole.continuetargets, whole.outers,
    whole.unresolvedbreaks, whole.unresolvedcontinues, whole.stacksize, whole.literals⟩, ?_, ?_,
    by simp, fun _ => ⟨rfl, names⟩, ?_, ?_⟩
  · have sized := h₂.sized
    have height := h₂.height
    rw [← size₂] at sized
    change moved₂.vlocals.length ≤ moved₂.stacksize
    rw [vlocals₂]
    omega
  · change moved₂.targetstack = _
    rw [targets₂, targets', targets₁, there_eq, addressed, vlocals, targets]
  · intro r r' live
    rw [h.reads r r' live, reads₁ r r' live, reads₂ r r' live]
  · intro fits pre seg segment
    have fits₂ : Fits L moved₂ := ⟨fits.stacksize, fits.literals⟩
    have fits₁ := jump.fits (kept₂.fits fits₂)
    have fitsTest := freeKept.fits (kept₁.fits fits₁)
    rw [test_eq] at fitsTest
    have fitsDropped := (kept_addInstruction (dropped fs fs₁) (instruction .OP_JZ t)).1.fits fitsTest
    have fitsValue : Fits L fs₁ := ⟨fitsDropped.stacksize, fitsDropped.literals⟩
    obtain ⟨front, j, code, -, -, closed, ordinary, kind, jumps⟩ :=
      @Yields.tested _ _ _ _ (dropped fs fs₁) _ _ _ _ _ h 0 rfl rfl fitsValue segment (by simp)
    rw [← afterTest, ← test_eq] at code
    have free : fusable .statement j.op = false := by rcases kind with op | op <;> rw [op] <;> rfl
    have start : Segment G L there (pre ++ front ++ [j]) [] := by
      rw [there_eq]
      exact (Segment.after code free).congr rfl rfl
    rw [moved₁_eq] at fits₁
    obtain ⟨A, segA, armA⟩ := h₁.arm last fits₁ start reads₁
    rw [← moved₁_eq] at segA
    obtain ⟨codeA, -⟩ := segA.addInstruction_alone (i := instruction .OP_JMP) rfl
    rw [← other_eq] at codeA
    have startB : Segment G L other (pre ++ front ++ [j] ++ A ++ [instruction .OP_JMP]) [] :=
      Segment.after codeA rfl
    rw [moved₂_eq] at fits₂
    obtain ⟨B, segB, armB⟩ := h₂.arm last₁ fits₂ startB reads₂
    rw [← moved₂_eq] at segB
    let j' : LVInstruction := { j with arg1 := (A.length : Int) + 1 }
    let jmp : LVInstruction := { instruction .OP_JMP with arg1 := (B.length : Int) }
    have passes : ∀ r, effect G L jmp r = some ((B.length : Int), r) := effect_jmp _
    refine ⟨front ++ j' :: (A ++ jmp :: B), ⟨decided_code code segA.code codeA segB.code,
      closed.append (.cons ?_ (segA.closed.append (.cons ?_ segB.closed))), ?_, by rintro ⟨⟩,
      by rintro ⟨⟩⟩, fun r => ?_, by rintro _ _ _ _ ⟨⟩⟩
    · intro r d r' run
      have := (branch_effect (j := j') kind run).1
      simp only [j', List.length_append, List.length_cons] at this ⊢
      omega
    · intro r d r' run
      rw [passes] at run
      cases run
      omega
    · intro i mem
      simp only [List.mem_append, List.mem_cons] at mem
      rcases mem with old | rfl | inA | rfl | inB
      · exact ordinary i old
      · rcases kind with op | op <;> exact ⟨by simp [j', op, discardable], by simp [j', op]⟩
      · exact segA.ordinary i inA
      · exact ⟨⟨by simp [jmp, instruction], rfl, by simp [jmp, instruction]⟩,
          by simp [jmp, instruction]⟩
      · exact segB.ordinary i inB
    · change Same moved₂.vlocals.length _ _
      rw [names, List.length_append, List.length_singleton]
      exact decided_same closed segA.closed jumps armA armB r

/-! ## Every expression -/

theorem Computes.run {α : Type} {m : CompilerM α} {eval : (String → Option LVObject) → Option LVObject}
    (h : Computes G L names m named eval) {c c₀ c' : LVCompiler} {a : α}
    (run : m c = .ok (a, c')) (same : c.fs = c₀.fs) (scope : c.scope = c₀.scope)
    (lineinfo : c.lineinfo = c₀.lineinfo) (sized : c₀.fs.vlocals.length ≤ c₀.fs.stacksize)
    (known : ∀ id ∈ names, (c₀.fs.getLocalVariable id).isSome) :
    Beside c₀ c' ∧ ∃ t, Yields G L c₀.fs c'.fs named (fun r => eval (localValue c₀.fs r)) t := by
  rw [← same] at sized known ⊢
  obtain ⟨beside, yields⟩ := h c a c' run sized known
  exact ⟨⟨beside.scope.trans scope, beside.lineinfo.trans lineinfo⟩, yields⟩

/-- `INVOKE_EXP`, and what `Expression` does about `_es`. -/
theorem Computes.fresh {m : CompilerM Unit} {eval : (String → Option LVObject) → Option LVObject}
    (h : Computes G L names m named eval) : Computes G L names (invokeExp m) named eval := by
  intro c a c' run sized known
  obtain ⟨es, c₁, ⟨⟩, run⟩ := bind_ok.mp run
  obtain ⟨_, c₂, ⟨⟩, run⟩ := bind_ok.mp run
  obtain ⟨_, c₃, first, run⟩ := bind_ok.mp run
  cases run
  obtain ⟨beside, yields⟩ := h.run first rfl rfl rfl sized known
  exact ⟨⟨beside.scope, beside.lineinfo⟩, yields⟩

theorem computes_identifier {id : String} {next : Lookahead} {key : Option String} (mem : id ∈ names) :
    Computes G L names (identifier id next key) true fun value => value id := by
  intro c a c' run sized known
  obtain ⟨pos, at_⟩ := Option.isSome_iff_exists.mp (known id mem)
  obtain ⟨pos', c₁, found, run⟩ := bind_ok.mp run
  cases found
  rw [at_] at run
  obtain ⟨_, c₂, ⟨⟩, run⟩ := bind_ok.mp run
  obtain ⟨_, c₃, ⟨⟩, run⟩ := bind_ok.mp run
  obtain ⟨_, c₄, ⟨⟩, run⟩ := bind_ok.mp run
  obtain ⟨rfl, rfl⟩ := pure_ok.mp run
  obtain ⟨lt, loc⟩ := getLocalVariable_lt at_
  have value : ∀ r, localValue c.fs r id = some (r pos) := fun r => by rw [localValue, at_, Option.map_some]
  refine ⟨⟨rfl, rfl⟩, pos, ⟨rfl, rfl, rfl, rfl, rfl, rfl, le_refl _, List.prefix_rfl⟩, sized, rfl,
    fun _ => ⟨rfl, loc, rfl, rfl, value⟩, by simp, ?_, ?_⟩
  · intro r r' live
    rw [lookup_live live]
  · intro _ pre seg segment
    refine ⟨seg, segment.congr rfl rfl, fun r => ?_, by simp⟩
    have same : (fun r => (localValue c.fs r id).map (Function.update r pos)) = some := by
      funext r
      rw [value, Option.map_some, Function.update_eq_self]
    rw [same, Option.bind_fun_some]
    exact Same.refl _

theorem computes_not {e : PrefixedExpr} {next : Lookahead}
    {eval : (String → Option LVObject) → Option LVObject}
    (h : Computes G L names (prefixedExpr next e) named eval) :
    Computes G L names (factor next none (.unary .not e)) false fun value =>
      (eval value).map fun v => .bool (isFalse v) := by
  intro c a c' run sized known
  unfold factor at run
  obtain ⟨_, c₁, first, run⟩ := bind_ok.mp run
  obtain ⟨src, c₂, pop, run⟩ := bind_ok.mp run
  obtain ⟨trg, c₃, push, run⟩ := bind_ok.mp run
  obtain ⟨_, c₄, add, run⟩ := bind_ok.mp run
  obtain ⟨_, c₅, ⟨⟩, run⟩ := bind_ok.mp run
  obtain ⟨rfl, rfl⟩ := pure_ok.mp run
  obtain ⟨beside, t, yields⟩ := h c _ c₁ first sized known
  obtain ⟨rfl, rfl⟩ := yields.popTarget_run pop rfl rfl
  obtain ⟨rfl, rfl⟩ := pushTarget_run push
  obtain rfl := addInstruction_run add
  exact ⟨⟨beside.scope, beside.lineinfo⟩, _, yields.not⟩

theorem computes_binary {op : BinaryOp} {left right : CompilerM Unit}
    {evalL evalR : (String → Option LVObject) → Option LVObject} (computes : op.computes = true)
    (h : Computes G L names left named evalL) (h' : Computes G L names right named' evalR) :
    Computes G L names (do left; invokeExp right; emitBinary op) false fun value =>
      (evalL value).bind fun v => (evalR value).bind fun w => op.eval v w := by
  intro c a c' run sized known
  obtain ⟨_, c₁, first, run⟩ := bind_ok.mp run
  obtain ⟨_, c₂, second, run⟩ := bind_ok.mp run
  obtain ⟨beside, t, yields⟩ := h c _ c₁ first sized known
  have names₁ := yields.getLocalVariable
  obtain ⟨beside', t', yields'⟩ := h'.fresh c₁ _ c₂ second yields.sized (by rwa [names₁])
  rw [lookup_congr names₁] at yields'
  obtain ⟨op1, c₃, pop, run⟩ := bind_ok.mp run
  obtain ⟨rfl, rfl⟩ := yields'.popTarget_run pop rfl rfl
  obtain ⟨op2, c₄, pop', run⟩ := bind_ok.mp run
  obtain ⟨trg, c₅, push, run⟩ := bind_ok.mp run
  obtain ⟨rfl, rfl⟩ := yields.popTarget_run pop' rfl rfl
  obtain ⟨rfl, rfl⟩ := pushTarget_run push
  obtain rfl := addInstruction_run run
  have result := yields.binary computes yields' (fun r r' live => by rw [lookup_live live])
  exact ⟨⟨beside'.scope.trans beside.scope, beside'.lineinfo.trans beside.lineinfo⟩, _, result⟩

theorem addInstruction_step {α : Type} {c : LVCompiler} {i : LVInstruction} {p : Prop} [Decidable p]
    {f : Unit → CompilerM α} {c' : LVCompiler} {a : α}
    (run : (if p then (updateFs (·.addInstruction i) >>= f) else f ()) c = .ok (a, c')) :
    f () { c with fs := if p then c.fs.addInstruction i else c.fs } = .ok (a, c') := by
  split at run
  · rename_i holds
    obtain ⟨_, c₁, ⟨⟩, run⟩ := bind_ok.mp run
    rwa [if_pos holds]
  · rename_i fails
    rwa [if_neg fails]

theorem addInstruction_taken {α : Type} {c : LVCompiler} {i : LVInstruction} {p : Prop} [Decidable p]
    {f : Unit → CompilerM α} {c' : LVCompiler} {a : α}
    (run : (if p then (updateFs (·.addInstruction i) >>= f) else f ()) c = .ok (a, c')) (holds : p) :
    f () { c with fs := c.fs.addInstruction i } = .ok (a, c') := by
  have run := addInstruction_step run
  rwa [if_pos holds] at run

theorem addInstruction_passed {α : Type} {c : LVCompiler} {i : LVInstruction} {p : Prop} [Decidable p]
    {f : Unit → CompilerM α} {c' : LVCompiler} {a : α}
    (run : (if p then (updateFs (·.addInstruction i) >>= f) else f ()) c = .ok (a, c')) (fails : ¬ p) :
    f () c = .ok (a, c') := by
  rwa [if_neg fails] at run

theorem computes_shortCircuit {op : Opcode} (kind : op = .OP_OR ∨ op = .OP_AND)
    {left right : CompilerM Unit} {evalL evalR : (String → Option LVObject) → Option LVObject}
    (h : Computes G L names left named evalL) (h' : Computes G L names right named' evalR) :
    Computes G L names (do left; shortCircuit op right) false fun value =>
      (evalL value).bind fun v => if decidesAlone op v then some v else evalR value := by
  intro c a c' run sized known
  obtain ⟨_, c₁, first, run⟩ := bind_ok.mp run
  obtain ⟨beside, t, yields⟩ := h c _ c₁ first sized known
  have names₁ := yields.getLocalVariable
  unfold shortCircuit at run
  obtain ⟨first_exp, c₂, pop, run⟩ := bind_ok.mp run
  obtain ⟨rfl, rfl⟩ := yields.popTarget_run pop rfl rfl
  obtain ⟨trg, c₃, push, run⟩ := bind_ok.mp run
  obtain ⟨rfl, rfl⟩ := pushTarget_run push
  obtain ⟨jpos, c₄, emitted, run⟩ := bind_ok.mp run
  obtain ⟨added, rfl, -⟩ := emit_value emitted
  obtain rfl := addInstruction_run added
  have run := addInstruction_step run
  obtain ⟨_, c₅, second, run⟩ := bind_ok.mp run
  obtain ⟨-, vlocals, -, size⟩ := started_kept c.fs c₁.fs op first_exp
  have height := yields.height
  have names₂ : (started c.fs c₁.fs op first_exp).getLocalVariable = c.fs.getLocalVariable := by
    funext id
    exact getLocalVariable_temp id vlocals
  have sized₂ : (started c.fs c₁.fs op first_exp).vlocals.length ≤
      (started c.fs c₁.fs op first_exp).stacksize := by
    rw [vlocals, size, List.length_append, List.length_singleton]
    exact le_max_right _ _
  have after : Beside { c₁ with fs := started c.fs c₁.fs op first_exp } c₅ ∧ ∃ t',
      Yields G L (started c.fs c₁.fs op first_exp) c₅.fs named'
        (fun r => evalR (localValue (started c.fs c₁.fs op first_exp) r)) t' :=
    h'.fresh.run second rfl rfl rfl sized₂ (by
      change ∀ id ∈ names, ((started c.fs c₁.fs op first_exp).getLocalVariable id).isSome
      rwa [names₂])
  rw [lookup_congr names₂] at after
  obtain ⟨beside', t', yields'⟩ := after
  obtain ⟨_, c₆, ⟨⟩, run⟩ := bind_ok.mp run
  obtain ⟨second_exp, c₇, pop', run⟩ := bind_ok.mp run
  obtain ⟨rfl, rfl⟩ := yields'.popTarget_run pop' rfl rfl
  have run := addInstruction_taken run (yields'.ne_temporary vlocals)
  obtain ⟨_, c₈, ⟨⟩, run⟩ := bind_ok.mp run
  obtain ⟨pos, c₉, ⟨⟩, run⟩ := bind_ok.mp run
  cases run
  have result := yields.shortCircuit kind yields' (fun r r' live => by rw [lookup_live live])
  exact ⟨⟨beside'.scope.trans beside.scope, beside'.lineinfo.trans beside.lineinfo⟩, _, result⟩

theorem Yields.moveToTarget_run {trg : Nat} {c c' : LVCompiler} {a : Unit}
    (h : Yields G L fs c.fs named value t) (ne : trg ≠ t)
    (run : moveToTarget trg c = .ok (a, c')) :
    c' = { c with fs := movedTo fs c.fs c.fs.optimization trg t } := by
  unfold moveToTarget at run
  obtain ⟨exp, c₁, pop, run⟩ := bind_ok.mp run
  obtain ⟨rfl, rfl⟩ := h.popTarget_run pop rfl rfl
  rw [if_pos ne] at run
  exact addInstruction_run run

theorem computes_cond {test : CompilerM Unit} {first second : Expression}
    {evalT eval₁ eval₂ : (String → Option LVObject) → Option LVObject} {named₁ named₂ : Bool}
    (h : Computes G L names test false evalT)
    (h₁ : Computes G L names (expression first) named₁ eval₁)
    (h₂ : Computes G L names (expression second) named₂ eval₂) :
    Computes G L names (do
      test
      let jzpos ← emit .OP_JZ (← popTarget)
      let trg ← pushTarget
      expression first
      moveToTarget trg
      let endfirstexp ← LVCompiler.getCurrentPos
      let jmppos ← emit .OP_JMP
      expression second
      moveToTarget trg
      LVCompiler.setArg1 jmppos ((← LVCompiler.getCurrentPos) - jmppos)
      LVCompiler.setArg1 jzpos (endfirstexp - jzpos + 1)
      LVCompiler.snoozeOpt) false fun value =>
        (evalT value).bind fun v => if isFalse v then eval₂ value else eval₁ value := by
  intro c a c' run sized known
  obtain ⟨_, c₁, tested, run⟩ := bind_ok.mp run
  obtain ⟨beside, t, yields⟩ := h c _ c₁ tested sized known
  obtain ⟨exp, c₂, pop, run⟩ := bind_ok.mp run
  obtain ⟨rfl, rfl⟩ := yields.popTarget_run pop rfl rfl
  obtain ⟨jzpos, c₃, emitted, run⟩ := bind_ok.mp run
  obtain ⟨added, rfl, -⟩ := emit_value emitted
  obtain rfl := addInstruction_run added
  obtain ⟨trg, c₄, push, run⟩ := bind_ok.mp run
  obtain ⟨trg_eq, rfl⟩ := pushTarget_run push
  obtain ⟨-, vlocals, targets, size⟩ := afterTest_kept yields
  obtain rfl : trg = c.fs.vlocals.length := trg_eq.trans (congrArg List.length vlocals)
  -- the first branch
  obtain ⟨there, there_eq⟩ : ∃ there, there = addressed (afterTest c.fs c₁.fs exp) (afterTest c.fs c₁.fs exp) :=
    ⟨_, rfl⟩
  have new : there.vlocals = c.fs.vlocals ++ [⟨none, 0⟩] := by rw [there_eq, addressed, vlocals]
  have scope₁ : there.getLocalVariable = c.fs.getLocalVariable := by
    funext id
    exact getLocalVariable_temp id new
  have sized₁ : there.vlocals.length ≤ there.stacksize := by
    rw [there_eq, addressed, List.length_append, List.length_singleton]
    exact le_max_right _ _
  obtain ⟨_, c₅, compiled, run⟩ := bind_ok.mp run
  have after : Beside { c₁ with fs := there } c₅ ∧ ∃ t₁, Yields G L there c₅.fs named₁
      (fun r => eval₁ (localValue there r)) t₁ :=
    h₁.run compiled there_eq.symm rfl rfl sized₁ (by
      change ∀ id ∈ names, (there.getLocalVariable id).isSome
      rwa [scope₁])
  rw [lookup_congr scope₁] at after
  obtain ⟨beside₁, t₁, yields₁⟩ := after
  obtain ⟨_, c₆, move, run⟩ := bind_ok.mp run
  obtain rfl := yields₁.moveToTarget_run (yields₁.ne_temporary new) move
  obtain ⟨-, vlocals₁, targets₁, size₁⟩ := movedTo_kept yields₁ c₅.fs.optimization c.fs.vlocals.length
  obtain ⟨endfirstexp, _, ⟨⟩, run⟩ := bind_ok.mp run
  obtain ⟨jmppos, c₇, emitted', run⟩ := bind_ok.mp run
  obtain ⟨added', rfl, -⟩ := emit_value emitted'
  obtain rfl := addInstruction_run added'
  -- the second branch
  obtain ⟨moved₁, moved₁_eq⟩ : ∃ moved₁, moved₁ =
      movedTo there c₅.fs c₅.fs.optimization c.fs.vlocals.length t₁ := ⟨_, rfl⟩
  obtain ⟨other, other_eq⟩ : ∃ other, other = moved₁.addInstruction (instruction .OP_JMP) := ⟨_, rfl⟩
  obtain ⟨-, vlocals₂, targets₂, size₂⟩ := kept_addInstruction moved₁ (instruction .OP_JMP)
  rw [← moved₁_eq] at vlocals₁ targets₁ size₁
  rw [← other_eq] at vlocals₂ targets₂ size₂
  have scope₂ : other.getLocalVariable = c.fs.getLocalVariable := by
    rw [← scope₁]
    funext id
    exact getLocalVariable_congr id (vlocals₂.trans vlocals₁)
  have sized₂ : other.vlocals.length ≤ other.stacksize := by
    rw [vlocals₂, vlocals₁, size₂, size₁]
    exact yields₁.height.1.trans yields₁.sized
  obtain ⟨_, c₈, compiled', run⟩ := bind_ok.mp run
  have after' : Beside { c₅ with fs := other } c₈ ∧ ∃ t₂, Yields G L other c₈.fs named₂
      (fun r => eval₂ (localValue other r)) t₂ :=
    h₂.run compiled' (by rw [other_eq, moved₁_eq]) rfl rfl sized₂ (by
      change ∀ id ∈ names, (other.getLocalVariable id).isSome
      rwa [scope₂])
  rw [lookup_congr scope₂] at after'
  obtain ⟨beside₂, t₂, yields₂⟩ := after'
  obtain ⟨_, c₉, move', run⟩ := bind_ok.mp run
  have temp : other.vlocals = c.fs.vlocals ++ [⟨none, 0⟩] := vlocals₂.trans (vlocals₁.trans new)
  obtain rfl := yields₂.moveToTarget_run (yields₂.ne_temporary temp) move'
  obtain ⟨pos, _, ⟨⟩, run⟩ := bind_ok.mp run
  obtain ⟨_, _, ⟨⟩, run⟩ := bind_ok.mp run
  obtain ⟨_, _, ⟨⟩, run⟩ := bind_ok.mp run
  cases run
  subst other_eq moved₁_eq there_eq
  have result := yields.cond rfl rfl yields₁ rfl rfl yields₂ rfl
    (fun r r' live => by rw [lookup_live live]) (fun r r' live => by rw [lookup_live live])
  exact ⟨⟨beside₂.scope.trans (beside₁.scope.trans beside.scope),
    beside₂.lineinfo.trans (beside₁.lineinfo.trans beside.lineinfo)⟩, _, result⟩

theorem Computes.congr {α : Type} {m : CompilerM α}
    {eval eval' : (String → Option LVObject) → Option LVObject} (h : Computes G L names m named eval)
    (eq : ∀ value, eval' value = eval value) : Computes G L names m named eval' := by
  obtain rfl : eval' = eval := funext eq
  exact h

/-- What follows a factor. -/
theorem Computes.factor {m : CompilerM Unit} {eval : (String → Option LVObject) → Option LVObject}
    (h : Computes G L names m named eval) :
    Computes G L names (do m; setEtype .EXPR; return false) named eval := by
  intro c a c' run sized known
  obtain ⟨_, c₁, first, run⟩ := bind_ok.mp run
  obtain ⟨_, c₂, ⟨⟩, run⟩ := bind_ok.mp run
  obtain ⟨rfl, rfl⟩ := pure_ok.mp run
  obtain ⟨beside, yields⟩ := h c _ c₁ first sized known
  exact ⟨⟨beside.scope, beside.lineinfo⟩, yields⟩

theorem Computes.loaded {f : Nat → CompilerM Unit} {eval : (String → Option LVObject) → Option LVObject}
    (h : Computes G L names (do f (← pushTarget)) named eval) :
    Computes G L names (do f (← pushTarget); setEtype .EXPR; return false) named eval := by
  have whole := h.factor
  rwa [bind_assoc] at whole

theorem Computes.alone {f : Factor} {next : Lookahead} {eval : (String → Option LVObject) → Option LVObject}
    (h : ∀ next key, Computes G L names (LVCompiler.factor next key f) named eval) :
    Computes G L names (prefixedExpr next (.mk f [] none)) named eval := by
  intro c a c' run sized known
  unfold prefixedExpr at run
  obtain ⟨read, c₁, first, run⟩ := bind_ok.mp run
  obtain ⟨_, c₂, loop, run⟩ := bind_ok.mp run
  unfold suffixLoop at loop
  obtain ⟨rfl, rfl⟩ := pure_ok.mp loop
  obtain ⟨rfl, rfl⟩ := pure_ok.mp run
  exact h _ _ c _ c' first sized known

mutual

theorem computes_expression : (e : Expression) → e.simple names = true →
    Computes G L names (expression e) e.isName e.eval
  | .plain e, simple => by
    unfold expression
    exact (computes_logicalOrExp .other e simple).fresh
  | .assign _ _ _, simple => absurd simple Bool.false_ne_true
  | .cond test first second, simple => by
    unfold expression
    obtain ⟨⟨⟨simple, unnamed⟩, simple₁⟩, simple₂⟩ :
        ((test.simple names = true ∧ (!test.isName) = true) ∧ first.simple names = true) ∧
          second.simple names = true := by
      simpa only [Expression.simple, Bool.and_eq_true] using simple
    have h := computes_logicalOrExp .other test simple
    rw [Bool.not_eq_true'] at unnamed
    rw [unnamed] at h
    have whole := (computes_cond h (computes_expression first simple₁)
      (computes_expression second simple₂)).fresh
    simp only [invokeExp, bind_assoc] at whole
    exact whole.congr fun value => by
      rw [Expression.eval]
      cases test.eval value <;> rfl

theorem computes_logicalOrExp (next : Lookahead) : (e : LogicalOrExp) → e.simple names = true →
    Computes G L names (logicalOrExp next e) e.isName e.eval
  | .or first second, simple => by
    obtain ⟨simple₁, simple₂⟩ := (Bool.and_eq_true _ _).mp simple
    unfold logicalOrExp
    exact (computes_shortCircuit (.inl rfl) (computes_logicalOrExp .other first simple₁)
      (computes_logicalOrExp next second simple₂)).congr fun value => by
        rw [LogicalOrExp.eval]
        cases first.eval value with
        | none => rfl
        | some v => cases falsy : isFalse v <;> simp [decidesAlone, falsy]
  | .and first second, simple => by
    obtain ⟨simple₁, simple₂⟩ := (Bool.and_eq_true _ _).mp simple
    unfold logicalOrExp
    exact (computes_shortCircuit (.inr rfl) (computes_logicalOrExp .other first simple₁)
      (computes_logicalOrExp next second simple₂)).congr fun value => by
        rw [LogicalOrExp.eval]
        cases first.eval value with
        | none => rfl
        | some v => cases falsy : isFalse v <;> simp [decidesAlone, falsy]
  | .bin op left right, simple => by
    obtain ⟨simple, simple₂⟩ := (Bool.and_eq_true _ _).mp simple
    obtain ⟨computes, simple₁⟩ := (Bool.and_eq_true _ _).mp simple
    unfold logicalOrExp
    exact (computes_binary computes (computes_logicalOrExp .other left simple₁)
      (computes_logicalOrExp next right simple₂)).congr fun value => by
        rw [LogicalOrExp.eval]
        cases left.eval value with
        | none => rfl
        | some v => cases right.eval value <;> rfl
  | .prefixed e, simple => by
    unfold logicalOrExp
    exact computes_prefixedExpr next e simple

theorem computes_prefixedExpr (next : Lookahead) : (e : PrefixedExpr) → e.simple names = true →
    Computes G L names (prefixedExpr next e) e.isName e.eval
  | .mk f [] none, simple => .alone fun next key => computes_factor next key f simple
  | .mk _ (_ :: _) _, simple => absurd simple Bool.false_ne_true
  | .mk _ [] (some _), simple => absurd simple Bool.false_ne_true

theorem computes_factor (next : Lookahead) (key : Option String) : (f : Factor) → f.simple names = true →
    Computes G L names (factor next key f) f.isName f.eval
  | .stringLiteral text, _ => by
    unfold factor
    exact (computes_loadConstant (.string text)).factor
  | .identifier id, simple => by
    unfold factor
    exact computes_identifier (List.contains_iff_mem.mp simple)
  | .null, _ => by
    unfold factor
    exact computes_loadNull.loaded
  | .integer n, _ => by
    unfold factor
    exact (computes_emitLoadConstInt n).loaded
  | .float bits, _ => by
    unfold factor
    exact (computes_emitLoadConstFloat bits).loaded
  | .bool b, _ => by
    unfold factor
    exact (computes_loadBool b).loaded
  | .unary .not e, simple => computes_not (computes_prefixedExpr next e simple)
  | .paren e, simple => by
    unfold factor
    exact (computes_commaExpr e simple).factor
  | .unary .neg _, simple | .unary .bwnot _, simple => absurd simple Bool.false_ne_true

theorem computes_commaExpr : (e : CommaExpr) → e.simple names = true →
    Computes G L names (commaExpr e) e.isName e.eval
  | .last e, simple => by
    unfold commaExpr
    exact computes_expression e simple
  | .cons _ _, simple => absurd simple Bool.false_ne_true

end

end Lavril
