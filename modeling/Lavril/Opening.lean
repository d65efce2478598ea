import Lavril.Emission

/-!
# How a production starts

Right after a `CLOSE` the code can still be changed by one instruction, a
`RETURN`. `Opens` says of a production that the first instruction it emits is
another one, so that from then on the code before it is out of reach.
-/

namespace Lavril

open LVCompiler

/-- Nothing was emitted since the code ended at `b`. -/
structure Unopened (b : Nat) (B C : List Nat) (c : LVCompiler) : Prop where
  ready : Ready .expression b B C c
  length : c.fs.instructions.length = b

/-- What was emitted since left the code below `b` alone and out of reach. -/
structure Opened (b : Nat) (B C : List Nat) (c c' : LVCompiler) : Prop where
  agree : Agree b c.fs.code c'.fs.code
  ready : Ready .statement b B C c'

/-- A production that starts with something other than a `RETURN`. -/
structure Opens {α : Type} (lvl : Level) (b : Nat) (B C : List Nat) (m : CompilerM α)
    (Q : α → Prop := fun _ => True) : Prop where
  emits : Emits lvl b B C m Q
  opened : ∀ c a c', Unopened b B C c → m c = .ok (a, c') → Opened b B C c c' ∧ Q a

section

variable {α β : Type} {lvl : Level} {b : Nat} {B C : List Nat}

theorem Ready.statement {c : LVCompiler} (ready : Ready .statement b B C c) :
    Ready lvl b B C c :=
  ⟨ready.floor.trans (c.fs.code.floor_statement_le lvl), ready.breaks, ready.continues⟩

theorem Step.statement {s s' : Code} (step : Step lvl b s s') : Step .statement b s s' := by
  cases step with
  | snooze => exact .snooze s
  | add fs i adds => exact .add fs i trivial
  | patch s pos f above keeps => exact .patch s pos f above keeps
  | discard code pi statement kind => exact .discard code pi rfl kind
  | take code n above => exact .take code n above

/-- An expression may stand in a statement. -/
theorem Emits.statement {m : CompilerM α} {Q : α → Prop} (h : Emits lvl b B C m Q) :
    Emits .statement b B C m Q := by
  intro c a c' ready run
  obtain ⟨steps, marked, after, post⟩ := h c a c' ready.statement run
  have steps : Steps .statement b c.fs.code c'.fs.code :=
    Relation.ReflTransGen.mono (fun _ _ step => step.statement) _ _ steps
  exact ⟨steps, marked, ⟨(steps.preserves ready.floor).2, after.breaks, after.continues⟩, post⟩

theorem Emits.lift {m : CompilerM α} {Q : α → Prop} (h : Emits .expression b B C m Q) :
    Emits lvl b B C m Q := by
  cases lvl with
  | expression => exact h
  | statement => exact h.statement

theorem Opened.trans {m : CompilerM α} {Q : α → Prop} {c c₁ c₂ : LVCompiler} {a : α}
    (opened : Opened b B C c c₁) (h : Emits lvl b B C m Q) (run : m c₁ = .ok (a, c₂)) :
    Opened b B C c c₂ ∧ Q a := by
  obtain ⟨steps, -, ready, post⟩ := h.statement c₁ a c₂ opened.ready run
  obtain ⟨agree, -⟩ := steps.preserves opened.ready.floor
  exact ⟨⟨opened.agree.trans agree, ready⟩, post⟩

/-- An expression emits nothing, or what puts the code before it out of reach. -/
theorem Steps.opens {s s' : Code} (steps : Steps .expression b s s')
    (length : s.instructions.length = b) (below : b ≤ s.floor .expression) :
    s' = s ∨ (Agree b s s' ∧ b ≤ s'.floor .statement) := by
  induction steps with
  | refl => exact .inl rfl
  | @tail t u _ step ih =>
    rcases ih with rfl | ⟨agree, free⟩
    · cases step with
      | snooze =>
        refine .inr ⟨Agree.refl b _, ?_⟩
        rw [Code.floor_off, length]
      | add fs i adds =>
        exact .inr ⟨(Step.preserves (.add fs i adds) below).1, add_opens fs adds below⟩
      | patch s pos f above keeps =>
        left
        rw [List.modify_eq_self (by omega)]
      | discard code pi statement kind => cases statement
      | take code n above =>
        left
        rw [List.take_of_length_le (by simp only at length; omega)]
    · obtain ⟨agree', free'⟩ := step.statement.preserves free
      exact .inr ⟨agree.trans agree', free'⟩

theorem Emits.unopened {m : CompilerM α} {Q : α → Prop} {c c' : LVCompiler} {a : α}
    (h : Emits .expression b B C m Q) (unopened : Unopened b B C c) (run : m c = .ok (a, c')) :
    ((Unopened b B C c' ∧ c'.fs.code = c.fs.code) ∨ Opened b B C c c') ∧ Q a := by
  obtain ⟨steps, -, ready, post⟩ := h c a c' unopened.ready run
  refine ⟨?_, post⟩
  rcases steps.opens unopened.length unopened.ready.floor with same | ⟨agree, free⟩
  · have length := congrArg (·.instructions.length) same
    exact .inl ⟨⟨ready, length.trans unopened.length⟩, same⟩
  · exact .inr ⟨agree, free, ready.breaks, ready.continues⟩

/-! ## Rules -/

theorem Opens.bind {m : CompilerM α} {f : α → CompilerM β} {P : α → Prop} {Q : β → Prop}
    (hm : Opens lvl b B C m P) (hf : ∀ a, P a → Emits lvl b B C (f a) Q) :
    Opens lvl b B C (m >>= f) Q := by
  refine ⟨hm.emits.bind hf, fun c a c' unopened run => ?_⟩
  obtain ⟨x, c₁, first, second⟩ := bind_ok.mp run
  obtain ⟨opened, post⟩ := hm.opened c x c₁ unopened first
  exact opened.trans (hf x post) second

theorem Opens.seq {m : CompilerM α} {f : α → CompilerM β} {P : α → Prop} {Q : β → Prop}
    (hm : Opens lvl b B C m P) (hf : ∀ a, Emits lvl b B C (f a) Q) :
    Opens lvl b B C (m >>= f) Q := hm.bind fun a _ => hf a

/-- A production that starts with an expression. -/
theorem Opens.after {m : CompilerM α} {f : α → CompilerM β} {P : α → Prop} {Q : β → Prop}
    (hm : Emits .expression b B C m P) (hf : ∀ a, P a → Opens lvl b B C (f a) Q) :
    Opens lvl b B C (m >>= f) Q := by
  refine ⟨hm.lift.bind fun a post => (hf a post).emits, fun c a c' unopened run => ?_⟩
  obtain ⟨x, c₁, first, second⟩ := bind_ok.mp run
  obtain ⟨start, post⟩ := hm.unopened unopened first
  rcases start with ⟨still, same⟩ | opened
  · obtain ⟨⟨agree, ready⟩, post'⟩ := (hf x post).opened c₁ a c' still second
    rw [same] at agree
    exact ⟨⟨agree, ready⟩, post'⟩
  · exact opened.trans (hf x post).emits second

theorem Opens.then {m : CompilerM α} {f : α → CompilerM β} {P : α → Prop} {Q : β → Prop}
    (hm : Emits .expression b B C m P) (hf : ∀ a, Opens lvl b B C (f a) Q) :
    Opens lvl b B C (m >>= f) Q := .after hm fun a _ => hf a

theorem Opens.get {f : LVCompiler → CompilerM α} {Q : α → Prop}
    (hf : ∀ c, Opens lvl b B C (f c) Q) :
    Opens lvl b B C ((MonadState.get : CompilerM LVCompiler) >>= f) Q :=
  .then (Emits.get.weaken fun _ _ => trivial) hf

theorem Opens.fail {message : String} {Q : α → Prop} :
    Opens lvl b B C (LVCompiler.fail message : CompilerM α) Q :=
  ⟨.fail, fun _ _ _ _ run => by cases run⟩

theorem Opens.ite {p : Prop} [Decidable p] {m m' : CompilerM α} {Q : α → Prop}
    (h : Opens lvl b B C m Q) (h' : Opens lvl b B C m' Q) :
    Opens lvl b B C (if p then m else m') Q := by
  split
  · exact h
  · exact h'

/-- `if p then m`, before the rest. -/
theorem Opens.guarded {p : Prop} [Decidable p] {m : CompilerM PUnit} {f : PUnit → CompilerM α}
    {Q : α → Prop} (hm : Emits .expression b B C m) (hf : Opens lvl b B C (f ⟨⟩) Q) :
    Opens lvl b B C (if p then m >>= f else f ⟨⟩) Q :=
  .ite (.then hm fun _ => hf) hf

theorem opens_instruction {i : LVInstruction} (adds : Level.expression.adds i.op) :
    Opens lvl b B C (LVCompiler.updateFs (·.addInstruction i)) := by
  refine ⟨(@emits_instruction .expression b B C i adds).lift, fun c a c' unopened run => ?_⟩
  obtain ⟨steps, -, ready, -⟩ :=
    @emits_instruction .expression b B C i adds c a c' unopened.ready run
  obtain ⟨agree, -⟩ := steps.preserves unopened.ready.floor
  cases run
  exact ⟨⟨agree, add_opens c.fs adds unopened.ready.floor, ready.breaks, ready.continues⟩, trivial⟩

theorem opens_addInstruction {op : Opcode} {a0 a1 a2 a3 : Int} (h : op.plain = true) :
    Opens lvl b B C (addInstruction op a0 a1 a2 a3) :=
  opens_instruction (@Level.adds_of_plain .expression op h)

theorem opens_emit {op : Opcode} {a0 a1 a2 a3 : Int} (h : op.plain = true) :
    Opens lvl b B C (emit op a0 a1 a2 a3) (b ≤ ·) := by
  refine ⟨emits_emit h, fun c a c' unopened run => ?_⟩
  obtain ⟨-, -, -, above⟩ := @emits_emit .expression b B C op a0 a1 a2 a3 h c a c' unopened.ready run
  have grown : Opens lvl b B C (emit op a0 a1 a2 a3) :=
    .seq (opens_addInstruction h) fun _ => .seq .get fun _ => .pure trivial
  exact ⟨(grown.opened c a c' unopened run).1, above⟩

/-- The optimiser is put to sleep. -/
theorem opens_snoozeOpt : Opens lvl b B C snoozeOpt := by
  refine ⟨emits_snoozeOpt, fun c a c' unopened run => ?_⟩
  cases run
  refine ⟨⟨Agree.refl b _, ?_, unopened.ready.breaks, unopened.ready.continues⟩, trivial⟩
  exact unopened.length.ge

end

end Lavril
