import Lavril.Emitted
import Lavril.StructuredCode

/-!
# Segments

A segment is the code emitted since some point that no later instruction changes. Adding an
instruction to it adds what the instruction does, whether or not it is merged.
-/

namespace Lavril

open LVCompiler FunctionState RelativeCode Frame

variable {G : LVObject → LVObject → Option LVObject} {L : List LVObject} {fs : FunctionState}
  {pre seg : List LVInstruction} {i : LVInstruction} {m : Nat}

structure Segment (G : LVObject → LVObject → Option LVObject) (L : List LVObject)
    (fs : FunctionState) (pre seg : List LVInstruction) : Prop where
  code : fs.instructions = pre ++ seg
  closed : Closed (effect G L) seg
  ordinary : ∀ i ∈ seg, Ordinary i
  /-- No jump leads past an instruction that may still change. -/
  open_ : fs.optimization = true → Closed (effect G L) seg.dropLast
  /-- What stands before the segment does not change. -/
  fixed : fs.optimization = true → seg = [] → ∀ pi, pre.getLast? = some pi →
    fusable .statement pi.op = false

theorem Segment.asleep (off : fs.optimization = false) : Segment G L fs fs.instructions [] where
  code := (List.append_nil _).symm
  closed := .nil
  ordinary := by simp
  open_ on := by rw [off] at on; cases on
  fixed on := by rw [off] at on; cases on

/-- The same segment in a state with the same code. -/
theorem Segment.congr {fs' : FunctionState} (h : Segment G L fs pre seg)
    (code : fs'.instructions = fs.instructions) (opt : fs'.optimization = fs.optimization) :
    Segment G L fs' pre seg where
  code := code.trans h.code
  closed := h.closed
  ordinary := h.ordinary
  open_ := by
    rw [opt]
    exact h.open_
  fixed := by
    rw [opt]
    exact h.fixed

theorem Segment.snooze (h : Segment G L fs pre seg) : Segment G L fs.snoozeOpt pre seg where
  code := h.code
  closed := h.closed
  ordinary := h.ordinary
  open_ := by rintro ⟨⟩
  fixed := by rintro ⟨⟩

/-- What becomes of the last instruction and one that neither calls nor stores. -/
theorem rewriting_cases {pi : LVInstruction} (call : pi.op ≠ .OP_CALL) (line : i.op ≠ .OP_LINE)
    (keeps : discardable i.op = false) :
    fs.rewriting pi i = .both pi i ∨ ∃ pi' opt, fs.rewriting pi i = .merged pi' opt := by
  cases h : fs.rewriting pi i with
  | merged pi' opt => exact .inr ⟨pi', opt, rfl⟩
  | both pi' i' =>
    obtain ⟨same | ⟨calls, -⟩, same' | ⟨stores, -⟩⟩ := rewriting_both h
    · exact .inl (by rw [same, same'])
    · rw [keeps] at stores
      cases stores
    all_goals exact absurd calls call
  | dropped i' =>
    exfalso
    cases op : i.op <;> rw [rewriting, op] at h <;> dsimp only at h <;> first
      | exact line op
      | cases h
      | (split at h <;> first | cases h | (split at h <;> cases h))

/-- The last instruction stays and the new one stands after it. -/
theorem addInstruction_both (both : ∀ code pi, fs.instructions = code ++ [pi] →
    fs.optimization = true → fs.rewriting pi i = .both pi i) :
    (fs.addInstruction i).instructions = fs.instructions ++ [i] ∧
      (fs.addInstruction i).optimization = true := by
  cases on : fs.optimization with
  | false =>
    rw [fs.addInstruction_off i on]
    exact ⟨rfl, rfl⟩
  | true =>
    cases last : fs.instructions.getLast? with
    | none =>
      rw [fs.addInstruction_first i last]
      exact ⟨rfl, rfl⟩
    | some pi =>
      obtain ⟨code, eq⟩ := List.getLast?_eq_some_iff.mp last
      rw [fs.addInstruction_on i on last, both code pi eq on]
      simp [eq]

/-- The last instruction is one of the segment, or it does not change. -/
theorem Segment.last (h : Segment G L fs pre seg) {code : List LVInstruction} {pi : LVInstruction}
    (eq : fs.instructions = code ++ [pi]) (on : fs.optimization = true) :
    (∃ front, seg = front ++ [pi]) ∨ seg = [] ∧ fusable .statement pi.op = false := by
  rcases List.eq_nil_or_concat seg with rfl | ⟨front, pi', rfl⟩
  · refine .inr ⟨rfl, h.fixed on rfl pi ?_⟩
    have same := h.code
    rw [List.append_nil] at same
    rw [← same, eq, List.getLast?_concat]
  · have same := h.code
    rw [List.concat_eq_append] at same ⊢
    rw [eq, ← List.append_assoc] at same
    obtain ⟨-, same⟩ := List.append_inj' same rfl
    cases same
    exact .inl ⟨front, rfl⟩

/-- No call stands last, so the optimiser only adds what it never merges. -/
theorem Segment.calls (h : Segment G L fs pre seg) {code : List LVInstruction} {pi : LVInstruction}
    (eq : fs.instructions = code ++ [pi]) (on : fs.optimization = true) :
    pi.op ≠ .OP_CALL ∧ pi.op ≠ .OP_CLOSE := by
  rcases h.last eq on with ⟨front, rfl⟩ | ⟨-, free⟩
  · obtain ⟨-, stores, close⟩ := (h.ordinary pi (by simp)).kind
    refine ⟨fun call => ?_, close⟩
    rw [call] at stores
    cases stores
  · constructor <;>
    · intro op
      rw [op] at free
      cases free

/-- Instructions that are never merged. -/
def standsAlone (op : Opcode) : Bool :=
  match op with
  | .OP_OR | .OP_AND | .OP_JMP | .OP_RETURN => true
  | _ => false

theorem Segment.addInstruction_alone (h : Segment G L fs pre seg) (alone : standsAlone i.op = true) :
    (fs.addInstruction i).instructions = pre ++ seg ++ [i] ∧
      (fs.addInstruction i).optimization = true := by
  rw [← h.code]
  refine addInstruction_both fun code pi eq on => ?_
  obtain ⟨call, close⟩ := h.calls eq on
  cases op : i.op <;> rw [op] at alone <;> first
    | exact absurd alone Bool.false_ne_true
    | simp [rewriting, op, call, close]

/-- After an instruction that never changes. -/
theorem Segment.after {j : LVInstruction} {code : List LVInstruction}
    (eq : fs.instructions = code ++ [j]) (free : fusable .statement j.op = false) :
    Segment G L fs (code ++ [j]) [] where
  code := by rw [eq, List.append_nil]
  closed := .nil
  ordinary := by simp
  open_ _ := .nil
  fixed := by
    intro _ _ pi last
    rw [List.getLast?_concat, Option.some.injEq] at last
    rwa [← last]

theorem Added.ordinary (added : Added i) : Ordinary i where
  kind := by
    rcases added.kind with op | ⟨one, -⟩
    · simp [op, discardable]
    · cases op : i.op <;> rw [op] at one <;> first
        | exact absurd one Bool.false_ne_true
        | simp [discardable]
  register := by
    rintro (op | op) <;> simpa [op] using added.register

theorem Added.keeps (added : Added i) : discardable i.op = false ∧ i.op ≠ .OP_LINE := by
  rcases added.kind with op | ⟨one, -⟩
  · simp [op, discardable]
  · cases op : i.op <;> rw [op] at one <;> first
      | exact absurd one Bool.false_ne_true
      | simp [discardable]

/-- Adding an instruction that sets one register. -/
theorem Segment.add (h : Segment G L fs pre seg) (added : Added i)
    (idle : ∀ front pi, seg = front ++ [pi] → fs.optimization = true → Idle m fs pi i) :
    ∃ seg', Segment G L (fs.addInstruction i) pre seg' ∧
      (∀ r, Same m (flow (effect G L) seg' r) ((flow (effect G L) seg r).bind (runs G L i))) ∧
      ∀ front pi, seg' = front ++ [pi] → pi.op = .OP_CMP → pi.arg0 = i.arg0 := by
  obtain ⟨value, sets⟩ := added.sets (G := G) (L := L)
  obtain ⟨keeps, line⟩ := added.keeps
  -- the instruction stands after the others
  have alone : (fs.addInstruction i).instructions = fs.instructions ++ [i] →
      ∃ seg', Segment G L (fs.addInstruction i) pre seg' ∧
        (∀ r, Same m (flow (effect G L) seg' r)
          ((flow (effect G L) seg r).bind (runs G L i))) ∧
        ∀ front pi, seg' = front ++ [pi] → pi.op = .OP_CMP → pi.arg0 = i.arg0 := by
    intro eq
    refine ⟨seg ++ [i], ⟨?_, h.closed.concat sets.straight, ?_, ?_, ?_⟩, ?_, ?_⟩
    · rw [eq, h.code, List.append_assoc]
    · intro j mem
      rcases List.mem_append.mp mem with old | new
      · exact h.ordinary j old
      · rw [List.mem_singleton.mp new]
        exact added.ordinary
    · intro _
      rw [List.dropLast_concat]
      exact h.closed
    · intro _ none
      simp at none
    · intro r
      rw [flow_concat h.closed sets.straight]
      exact Same.refl _
    · intro front pi eq _
      obtain ⟨-, same⟩ := List.append_inj' eq rfl
      cases same
      rfl
  cases last : fs.instructions.getLast? with
  | none =>
    rw [fs.addInstruction_first i last] at alone ⊢
    exact alone rfl
  | some pi =>
    obtain ⟨code, eq⟩ := List.getLast?_eq_some_iff.mp last
    by_cases on : fs.optimization = true
    · rcases @rewriting_cases fs _ _ (h.calls eq on).1 line keeps with both | ⟨pi', opt, merged⟩
      · refine alone ?_
        rw [fs.addInstruction_on i on last, both]
        simp [eq]
      · rcases h.last eq on with ⟨front, rfl⟩ | ⟨-, free⟩
        · have merges := merges (G := G) (L := L) merged added (h.ordinary pi (by simp))
            (idle front pi rfl on)
          have closed : Closed (effect G L) front := by simpa using h.open_ on
          have straight : Jumps (effect G L) 0 pi := by
            have last := h.closed.drop front.length
            rw [List.drop_left] at last
            cases last with
            | cons jumps _ => exact jumps
          have added : (fs.addInstruction i).instructions = pre ++ (front ++ [pi']) := by
            rw [fs.addInstruction_on i on last, merged, h.code, ← List.append_assoc,
              List.dropLast_concat, ← List.append_assoc]
          refine ⟨front ++ [pi'], ⟨added, closed.concat merges.straight, ?_, ?_, ?_⟩, ?_, ?_⟩
          · intro j mem
            rcases List.mem_append.mp mem with old | new
            · exact h.ordinary j (List.mem_append_left _ old)
            · rw [List.mem_singleton.mp new]
              exact merges.ordinary
          · intro _
            rwa [List.dropLast_concat]
          · intro _ none
            simp at none
          · intro r
            rw [flow_concat closed merges.straight, flow_concat closed straight, Option.bind_assoc]
            cases flow (effect G L) front r with
            | none => exact .none
            | some r => exact merges.same r
          · intro front' pi'' eq cmp
            obtain ⟨-, same⟩ := List.append_inj' eq rfl
            cases same
            exact absurd cmp merges.other
        · obtain ⟨i', both, -⟩ := @rewriting_kept .statement fs _ i trivial free
          rw [both] at merged
          cases merged
    · refine alone ?_
      rw [fs.addInstruction_off i (by simpa using on)]
      rfl

/-! ## Conditional jumps -/

/-- Both fail, or jump by the same offset with the same registers below `m`. -/
def SameJump (m : Nat) : Option (Int × Registers) → Option (Int × Registers) → Prop :=
  Option.Rel fun a b => a.1 = b.1 ∧ Live m a.2 b.2

theorem SameJump.trans {m : Nat} {x y z : Option (Int × Registers)} (h : SameJump m x y)
    (h' : SameJump m y z) : SameJump m x z := by
  cases h with
  | none => exact h'
  | some same =>
    cases h' with
    | some same' => exact .some ⟨same.1.trans same'.1, same.2.trans same'.2⟩

theorem SameJump.of_none {m : Nat} {x : Option (Int × Registers)} (h : SameJump m x none) :
    x = none := by
  cases h
  rfl

theorem SameJump.of_some {m : Nat} {x : Option (Int × Registers)} {d : Int} {r : Registers}
    (h : SameJump m x (some (d, r))) : ∃ r', x = some (d, r') ∧ Live m r' r := by
  cases h with
  | @some a _ same =>
    obtain ⟨d', r'⟩ := a
    obtain ⟨rfl, live⟩ := same
    exact ⟨r', rfl, live⟩

/-- A jump by `d` when the register `t` holds a false value. -/
def jumpsOn (t : Nat) (d : Int) (r : Registers) : Option (Int × Registers) :=
  some (if isFalse (r t) then d else 0, r)

theorem Same.jumps {m n t : Nat} {x y : Option Registers} (h : Same n x y) (d : Int) (le : m ≤ n)
    (lt : t < n) : SameJump m (x.bind (jumpsOn t d)) (y.bind (jumpsOn t d)) := by
  cases h with
  | none => exact .none
  | some live => exact .some ⟨by rw [live t lt], live.mono le⟩

/-- A conditional jump at the end of a segment that leaves its value in `t`. -/
structure Branches (G : LVObject → LVObject → Option LVObject) (L : List LVObject) (m t : Nat)
    (seg front : List LVInstruction) (j : LVInstruction) : Prop where
  closed : Closed (effect G L) front
  ordinary : ∀ i ∈ front, Ordinary i
  kind : j.op = .OP_JZ ∨ j.op = .OP_JCMP
  same : ∀ d r, SameJump m ((flow (effect G L) front r).bind (effect G L { j with arg1 := d }))
    ((flow (effect G L) seg r).bind (jumpsOn t d))

theorem effect_jz {t : Nat} (fits : t < 256) (a1 d : Int) (r : Registers) :
    effect G L { instruction .OP_JZ t a1 with arg1 := d } r = jumpsOn t d r := by
  simp only [effect, exec, instruction, uchar_of_lt fits, jumpsOn]
  split <;> simp [Frame.jump]

theorem effect_jcmp (a0 a2 a3 : Nat) (d : Int) (r : Registers) :
    effect G L ⟨.OP_JCMP, a0, d, a2, a3⟩ r =
      (cmpOp a3 (r a2) (r a0)).map fun o => (if isFalse o then d else 0, r) := by
  simp only [effect, exec]
  cases cmpOp a3 (r a2) (r a0) with
  | none => rfl
  | some o => by_cases falsy : isFalse o <;> simp [falsy, Frame.jump]

theorem Segment.test (h : Segment G L fs pre seg) {t : Nat} (a1 : Int) (fits : t < 256)
    (tested : ∀ front pi, seg = front ++ [pi] → fs.optimization = true → pi.op = .OP_CMP →
      pi.arg0 = t ∧ m ≤ t) :
    ∃ front j, (fs.addInstruction (instruction .OP_JZ t a1)).instructions = pre ++ front ++ [j] ∧
      (fs.addInstruction (instruction .OP_JZ t a1)).optimization = true ∧ j.arg1 = a1 ∧
      Branches G L m t seg front j := by
  by_cases merged : ∃ front pi, seg = front ++ [pi] ∧ fs.optimization = true ∧ pi.op = .OP_CMP ∧
      pi.arg1 < 0xFF
  · obtain ⟨front, pi, rfl, on, cmp, small⟩ := merged
    obtain ⟨target, dead⟩ := tested front pi rfl on cmp
    have nonneg := (h.ordinary pi (by simp)).register (.inl cmp)
    have last : fs.instructions.getLast? = some pi := by
      rw [h.code, ← List.append_assoc, List.getLast?_concat]
    have closed : Closed (effect G L) front := by simpa using h.open_ on
    have one : setsOne pi.op = true := by rw [cmp]; rfl
    have compares : ∀ r, computed G L pi r = cmpOp pi.arg3 (r pi.arg2) (r pi.arg1.toNat) := by
      intro r
      simp only [computed, cmp, operand, if_neg (not_lt.mpr nonneg), Option.bind_some]
    refine ⟨front, { pi with op := .OP_JCMP, arg0 := uchar pi.arg1, arg1 := a1 }, ?_, ?_, rfl,
      closed, fun i mem => h.ordinary i (List.mem_append_left _ mem), .inr rfl, ?_⟩
    · rw [fs.addInstruction_on _ on last, rewriting]
      simp only [instruction, cmp, small, and_self, if_true, h.code]
      simp
    · rw [fs.addInstruction_on _ on last, rewriting]
      simp only [instruction, cmp, small, and_self, if_true]
    · intro d r
      rw [flow_concat closed (sets_computed one).straight, Option.bind_assoc]
      cases flow (effect G L) front r with
      | none => exact .none
      | some r =>
        have which : uchar pi.arg1 = pi.arg1.toNat := by unfold uchar; omega
        simp only [Option.bind_some, sets_computed one r, compares, which, effect_jcmp]
        cases cmpOp pi.arg3 (r pi.arg2) (r pi.arg1.toNat) with
        | none => exact .none
        | some o =>
          simp only [Option.map_some, Option.bind_some, jumpsOn, target, Function.update_self]
          exact .some ⟨rfl, fun k lt => (Function.update_of_ne (by omega) o r).symm⟩
  · have kept := @addInstruction_both fs (instruction .OP_JZ t a1) fun code pi eq on => by
      rw [rewriting, instruction]
      dsimp only
      rw [if_neg]
      rintro ⟨cmp, small⟩
      rcases h.last eq on with ⟨front, rfl⟩ | ⟨-, free⟩
      · exact merged ⟨front, pi, rfl, on, cmp, small⟩
      · rw [cmp] at free
        cases free
    refine ⟨seg, instruction .OP_JZ t a1, by rw [kept.1, h.code], kept.2, rfl, h.closed,
      h.ordinary, .inl rfl, ?_⟩
    intro d r
    cases flow (effect G L) seg r with
    | none => exact .none
    | some r =>
      rw [Option.bind_some, Option.bind_some, effect_jz fits]
      exact .some ⟨rfl, Live.refl m r⟩

end Lavril
