import Lavril.Statements

/-!
# What a compiled function computes

The code of a function, started with its arguments in the registers, returns what its body
means, fails when the body fails, and runs for ever when the body does.
-/

namespace Lavril

open LVCompiler FunctionState RelativeCode Frame

variable {G : LVObject → LVObject → Option LVObject} {L : List LVObject}
  {fs : FunctionState} {names : List String}

/-! ## Runs of a frame -/

namespace Frame

/-- A frame stops, at an instruction that returns the value or raises an error. -/
def Ends (G : LVObject → LVObject → Option LVObject) (L : List LVObject) (code : List LVInstruction)
    (f : Frame) (result : Option LVObject) : Prop :=
  ∃ (n : Nat) (i : LVInstruction), let last := run G L code n f
    0 ≤ last.ip ∧ code[last.ip.toNat]? = some i ∧ step G L code last = none ∧
      returns i last.regs = result

theorem run_reaches (code : List LVInstruction) (n : Nat) (f : Frame) :
    RelativeCode.Reaches (effect G L) code (f.ip, f.regs) ((run G L code n f).ip, (run G L code n f).regs) := by
  induction n generalizing f with
  | zero => exact .refl
  | succ n ih =>
    rw [run]
    cases next : step G L code f with
    | none => exact .refl
    | some f' =>
      refine .head ?_ (ih f')
      rw [step_eq_step] at next
      obtain ⟨c, eq, rfl⟩ := Option.map_eq_some_iff.mp next
      exact eq

theorem reaches_run {code : List LVInstruction} {c c' : Int × Registers}
    (there : RelativeCode.Reaches (effect G L) code c c') : ∃ n, run G L code n ⟨c.1, c.2⟩ = ⟨c'.1, c'.2⟩ := by
  induction there using Relation.ReflTransGen.head_induction_on with
  | refl => exact ⟨0, rfl⟩
  | @head c d next _ ih =>
    obtain ⟨n, eq⟩ := ih
    have first : step G L code ⟨c.1, c.2⟩ = some ⟨d.1, d.2⟩ := by
      rw [step_eq_step, next, Option.map_some]
    exact ⟨n + 1, by rw [run, first]; exact eq⟩

theorem ends_iff {code : List LVInstruction} {f : Frame} {result : Option LVObject} :
    Ends G L code f result ↔ RelativeCode.Ends (effect G L) returns code (f.ip, f.regs) result := by
  constructor
  · rintro ⟨n, i, nonneg, at_, stuck, value⟩
    have there := run_reaches (G := G) (L := L) code n f
    generalize run G L code n f = last at nonneg at_ stuck value there
    obtain ⟨ip, r⟩ := last
    lift ip to Nat using nonneg
    refine ⟨ip, i, r, there, at_, ?_, value⟩
    have at_ : code[ip]? = some i := at_
    rw [step_eq_step, step_at at_, Option.map_map, Option.map_eq_none_iff] at stuck
    exact stuck
  · rintro ⟨k, i, r, there, at_, fails, value⟩
    obtain ⟨n, eq⟩ := reaches_run there
    refine ⟨n, i, ?_⟩
    dsimp only at eq ⊢
    rw [eq]
    refine ⟨Int.natCast_nonneg k, at_, ?_, value⟩
    rw [step_eq_step, step_stuck at_ fails, Option.map_none]

end Frame

theorem returns_stops (i : LVInstruction) (r : Registers) (v : LVObject) (h : returns i r = some v) :
    effect G L i r = none := by
  rw [returns] at h
  split at h
  · rename_i op
    simp [effect, exec, op]
  · cases h

/-! ## The state in which a body is compiled -/

/-- A function state with these parameters and no code. -/
structure Entered (names : List String) (fs : FunctionState) : Prop where
  vlocals : fs.vlocals = localsOf names
  sized : names.length ≤ fs.stacksize
  traps : fs.traps = 0
  breaktargets : fs.breaktargets = []
  continuetargets : fs.continuetargets = []
  instructions : fs.instructions = []

theorem Entered.addParameter (h : Entered names fs) (name : String) :
    Entered (name :: names) (fs.addParameter name) where
  vlocals := by
    rw [localsOf_cons, ← h.vlocals]
    rfl
  sized := by
    rw [List.length_cons, ← localsOf_length names, ← h.vlocals]
    exact le_trans (by simp) (le_max_right _ _)
  traps := h.traps
  breaktargets := h.breaktargets
  continuetargets := h.continuetargets
  instructions := h.instructions

theorem Entered.addParameters (h : Entered names fs) (params : List String) :
    Entered (params.reverse ++ names) (params.foldl FunctionState.addParameter fs) := by
  induction params generalizing names fs with
  | nil => exact h
  | cons name rest ih =>
    rw [List.reverse_cons, List.append_assoc, List.singleton_append, List.foldl_cons]
    exact ih (h.addParameter name)

theorem Entered.new : Entered [] (FunctionState.new true) := ⟨rfl, le_refl _, rfl, rfl, rfl, rfl⟩

theorem params_names (fs : FunctionState) (names : List String) (c : LVCompiler) :
    params fs (names.map fun id => .mk id none) c = .ok ((names.foldl FunctionState.addParameter fs, 0), c) := by
  induction names generalizing fs with
  | nil =>
    unfold params
    rfl
  | cons name rest ih =>
    rw [List.map_cons]
    unfold params param
    refine bind_ok.mpr ⟨_, _, rfl, bind_ok.mpr ⟨_, _, ih (fs.addParameter name), ?_⟩⟩
    rfl

/-- The body is compiled in a function state of its own, and a `return` is added. -/
theorem compileFunction_cases {names : List String} {varparams : Bool} {body : FunctionBody}
    {endline : Int} {p : FunctionPrototype}
    (compiled : compileFunction (.mk (names.map fun id => .mk id none) varparams body endline) = some p) :
    ∃ c c' : LVCompiler, Entered (parameterNames names varparams) c.fs ∧ c.lineinfo = false ∧
      functionBody body c = .ok ((), c') ∧ (c'.lineinfo = false → ∃ infos last,
        p = ((({ c'.fs with lineinfos := infos, lastline := last } : FunctionState).addInstruction
          (instruction .OP_RETURN (-1))).setStackSize 0).buildProto) := by
  unfold compileFunction at compiled
  dsimp only at compiled
  split at compiled
  · rename_i c₁ created
    unfold createFunction at created
    obtain ⟨⟨funcstate, n⟩, c₂, parameters, created⟩ := bind_ok.mp created
    rw [params_names] at parameters
    cases parameters
    dsimp only at created
    obtain ⟨_, c₃, popped, created⟩ := bind_ok.mp created
    cases popped
    obtain ⟨_, c₄, entered, created⟩ := bind_ok.mp created
    cases entered
    obtain ⟨_, c₅, run, left⟩ := bind_ok.mp created
    refine ⟨_, c₅, ?_, rfl, run, fun off => ?_⟩
    · have entered := (Entered.new.addParameter "this").addParameters names
      cases varparams with
      | false => exact entered
      | true =>
        have more := entered.addParameter "vargv"
        exact ⟨more.vlocals, more.sized, more.traps, more.breaktargets, more.continuetargets,
          more.instructions⟩
    · rw [leaveFunction, off] at left
      obtain ⟨infos, last, noted⟩ : ∃ infos last, c₅.fs.addLineInfos endline false true =
          { c₅.fs with lineinfos := infos, lastline := last } := by
        rw [FunctionState.addLineInfos, if_pos (.inr rfl)]
        exact ⟨_, _, rfl⟩
      refine ⟨infos, last, ?_⟩
      rw [noted] at left
      dsimp only at left
      split at left
      · cases left
      · cases left
        dsimp only at compiled
        rw [List.getLast?_concat, Option.some.injEq] at compiled
        exact compiled.symm
  · cases compiled

/-! ## The body and the `return` after it -/

theorem returns_end (r : Registers) : returns (instruction .OP_RETURN (-1)) r = some .null := by
  simp [returns, instruction, uchar]

/-- A body is a piece of code with no jumps out of it, after which nothing changes. -/
theorem functionBody_implements {body : FunctionBody} {c c' : LVCompiler}
    (simple : body.simple names = true) (entered : Entered names c.fs) (lineinfo : c.lineinfo = false)
    (run : functionBody body c = .ok ((), c')) :
    c'.lineinfo = false ∧ (Fits L c'.fs → Barrier c'.fs ∧ ∃ (n : Nat) (after : Registers → Env),
      Implements (effect G L) returns n (fun _ _ => c'.fs.instructions) (envOf names) after
        (envOf []) body.runs) := by
  have placed : Placed names c := ⟨entered.vlocals, entered.sized, entered.traps, by
    simp [entered.breaktargets], by simp [entered.continuetargets], lineinfo⟩
  have barrier : Barrier c.fs := by
    intro _ pi last
    rw [entered.instructions] at last
    cases last
  cases body with
  | statement body =>
    unfold functionBody at run
    obtain ⟨⟨carried, placed', adds⟩, barrier'⟩ := translates_statement (G := G) (L := L) false body names []
      simple (List.nil_suffix) c c' run placed barrier
    refine ⟨placed'.lineinfo, fun fits => ⟨barrier', ?_⟩⟩
    obtain ⟨code, added⟩ := adds fits
    obtain ⟨whole, rfl⟩ := added.filled entered.breaktargets entered.continuetargets
    have emitted : c'.fs.instructions = whole := by
      rw [added.emitted, entered.instructions, List.nil_append, raw_instr]
    rw [emitted]
    exact ⟨_, _, added.implements.congr fun b k => (fill_instr whole b k).symm⟩
  | expression e =>
    unfold functionBody at run
    obtain ⟨_, c₁, compiled, run⟩ := bind_ok.mp run
    obtain ⟨beside, t, yields⟩ := (computes_expression (G := G) (L := L) e simple).placed compiled placed
    obtain ⟨src, c₂, pop, run⟩ := bind_ok.mp run
    obtain ⟨rfl, rfl⟩ := yields.popTarget_run pop rfl rfl
    obtain rfl := addInstruction_run run
    refine ⟨beside.lineinfo.trans lineinfo, fun fits => ?_⟩
    obtain ⟨kept, -⟩ := kept_addInstruction (dropped c.fs c₁.fs) (instruction .OP_RETURN 1 src)
    have fits₁ : Fits L c₁.fs := ⟨kept.stacksize.trans fits.stacksize, kept.literals.trans fits.literals⟩
    obtain ⟨⟨code, last⟩, whole, n, emitted, implements⟩ := @Yields.returned G L c.fs c₁.fs
      (dropped c.fs c₁.fs) names [] _ e.eval src yields fits₁ barrier rfl rfl 0
    rw [entered.instructions, List.nil_append] at emitted
    refine ⟨.after last rfl, n, _, implements.congr fun b k => emitted⟩

/-- `function (n) { local s = 0; while (n > 0) { s += n; n -= 1; } return s; }` -/
def sumTo : FunctionBody :=
  let set (id : String) (op : AssignOp) (e : Expression) : Statement :=
    .mk 1 (.expression (.last (.assign (.name id) op e)))
  .statement (.mk 1 (.block [
    .mk 1 (.localDecl (.vars (.mk "s" (some (.integer 0))) [])),
    .mk 1 (.while (.last (.plain (.bin .gt (.name "n") (.prefixed (.mk (.integer 0) [] none)))))
      (.mk 1 (.block [set "s" .pluseq (.name "n"), set "n" .minuseq (.integer 1)]))),
    .mk 1 (.return (some (.last (.name "s"))))]))

theorem sumTo_compiles : (compileFunction (.mk (["n"].map fun id => .mk id none) false sumTo 1)).any
    (fun p => decide (p.stacksize ≤ MAX_FUNC_STACKSIZE)) = true := by
  decide +kernel

set_option maxRecDepth 4000 in
theorem sumTo_simple : sumTo.simple (parameterNames ["n"] false) = true := by
  decide

end Lavril
