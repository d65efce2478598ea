import Lavril.Interpret

/-!
# Failures that reach `exception_trap`

A computation of the loop is `Routed` when it goes to `exception_trap` whenever an operation
in it reports failure, and `Reports` when it may also answer so itself.
-/

namespace Lavril

namespace Interpret

variable {Heap α β : Type}

theorem bind_eq (x : LoopM Heap α) (f : α → LoopM Heap β) (s : Loop Heap) :
    (x >>= f) s = match x s with
      | none => none
      | some (.ok a, s) => f a s
      | some (.error exit, s) => some (.error exit, s) := by
  change StateT.bind x (ExceptT.bindCont f) s = _
  unfold StateT.bind
  cases ran : x s with
  | none => rfl
  | some r =>
    obtain ⟨_ | a, s⟩ := r
    · rfl
    · rfl

theorem bind_some {x : LoopM Heap α} {f : α → LoopM Heap β} {s s' : Loop Heap}
    {r : Except Exit β} (ran : (x >>= f) s = some (r, s')) :
    (∃ exit, x s = some (.error exit, s') ∧ r = .error exit) ∨
      ∃ a s₁, x s = some (.ok a, s₁) ∧ f a s₁ = some (r, s') := by
  rw [bind_eq] at ran
  cases first : x s with
  | none => simp [first] at ran
  | some result =>
    obtain ⟨exit | a, s₁⟩ := result
    · simp only [first, Option.some.injEq, Prod.mk.injEq] at ran
      obtain ⟨rfl, rfl⟩ := ran
      exact Or.inl ⟨exit, rfl, rfl⟩
    · simp only [first] at ran
      exact Or.inr ⟨a, s₁, rfl, ran⟩

/-- Once something has failed, the computation leaves `s` for `exception_trap`. -/
def RoutedAt (x : LoopM Heap α) (s : Loop Heap) : Prop :=
  ∀ r s', x s = some (r, s') → s.failed = false → r = .error .THROW ∨ s'.failed = false

/-- Once something has failed, it does so or answers that it has. -/
def ReportsAt (x : LoopM Heap (Option α)) (s : Loop Heap) : Prop :=
  ∀ r s', x s = some (r, s') → s.failed = false →
    r = .ok none ∨ r = .error .THROW ∨ s'.failed = false

def Routed (x : LoopM Heap α) : Prop := ∀ s, RoutedAt x s

def Reports (x : LoopM Heap (Option α)) : Prop := ∀ s, ReportsAt x s

theorem RoutedAt.bind {x : LoopM Heap α} {f : α → LoopM Heap β} {s : Loop Heap}
    (first : RoutedAt x s) (then_ : ∀ a, Routed (f a)) : RoutedAt (x >>= f) s := by
  intro r s' ran fine
  rcases bind_some ran with ⟨exit, exited, rfl⟩ | ⟨a, s₁, done, ran'⟩
  · rcases first _ s' exited fine with left | fine
    · cases left
      exact Or.inl rfl
    · exact Or.inr fine
  · rcases first _ s₁ done fine with left | fine
    · cases left
    · exact then_ a s₁ r s' ran' fine

theorem ReportsAt.guard {x : LoopM Heap (Option α)} {s : Loop Heap} (reports : ReportsAt x s) :
    RoutedAt (_GUARD x) s := by
  intro r s' ran fine
  rcases bind_some ran with ⟨exit, exited, rfl⟩ | ⟨a, s₁, done, ran'⟩
  · rcases reports _ s' exited fine with left | left | fine
    · cases left
    · cases left
      exact Or.inl rfl
    · exact Or.inr fine
  · cases a with
    | none =>
      cases ran'
      exact Or.inl rfl
    | some a =>
      cases ran'
      rcases reports _ s' done fine with left | left | fine
      · cases left
      · cases left
      · exact Or.inr fine

namespace Routed

variable {x : LoopM Heap α}

theorem bind {f : α → LoopM Heap β} (first : Routed x) (then_ : ∀ a, Routed (f a)) :
    Routed (x >>= f) := fun s => (first s).bind then_

theorem map {f : α → β} (routed : Routed x) : Routed (f <$> x) := by
  rw [← bind_pure_comp]
  exact routed.bind fun a s r s' ran fine => by
    cases ran
    exact Or.inr fine

theorem pure (a : α) : Routed (pure a : LoopM Heap α) := by
  intro s r s' ran fine
  cases ran
  exact Or.inr fine

theorem undefined : Routed (fun _ => none : LoopM Heap α) := by
  intro s r s' ran
  cases ran

theorem current : Routed (current : LoopM Heap (Loop Heap)) := by
  intro s r s' ran fine
  cases ran
  exact Or.inr fine

theorem update {f : Loop Heap → Loop Heap} (same : ∀ s, (f s).failed = s.failed) :
    Routed (update f) := by
  intro s r s' ran fine
  cases ran
  exact Or.inr ((same s).trans fine)

theorem leave (exit : Exit) : Routed (leave exit : LoopM Heap α) := by
  intro s r s' ran fine
  cases ran
  exact Or.inr fine

theorem operate (op : ObjectM Heap α) : Routed (operate op) := by
  intro s r s' ran fine
  simp only [Interpret.operate] at ran
  split at ran
  · cases ran
  · cases ran
    exact Or.inr fine

theorem onFrame (f : LVVM → Option LVVM) : Routed (onFrame f : LoopM Heap Unit) := by
  intro s r s' ran fine
  simp only [Interpret.onFrame] at ran
  split at ran
  · cases ran
  · cases ran
    exact Or.inr fine

theorem raiseThrow (desc : LVObject) : Routed (raiseThrow desc : LoopM Heap α) := by
  intro s r s' ran fine
  cases ran
  exact Or.inl rfl

theorem guard {x : LoopM Heap (Option α)} (reports : Reports x) : Routed (_GUARD x) :=
  fun s => (reports s).guard

theorem STK (a : Int) : Routed (STK a : LoopM Heap LVObject) :=
  current.bind fun _ => .pure _

theorem store (a : Int) (o : LVObject) : Routed (store a o : LoopM Heap Unit) :=
  .update fun _ => rfl

theorem skip (offset : Int) : Routed (skip offset : LoopM Heap Unit) := .update fun _ => rfl

theorem literal (n : Int) : Routed (literal n : LoopM Heap LVObject) :=
  current.bind fun _ => .pure _

end Routed

namespace Reports

theorem report (op : ObjectM Heap (Option α)) : Reports (report op) := by
  intro s r s' ran fine
  simp only [Interpret.report] at ran
  split at ran
  · cases ran
  · cases ran
    rename_i result vm _
    cases result with
    | none => exact Or.inl rfl
    | some a => exact Or.inr (Or.inr (by simp [fine]))

theorem of_routed {x : LoopM Heap (Option α)} (routed : Routed x) : Reports x :=
  fun s r s' ran fine => Or.inr (routed s r s' ran fine)

theorem bind {x : LoopM Heap α} {f : α → LoopM Heap (Option β)} (first : Routed x)
    (then_ : ∀ a, Reports (f a)) : Reports (x >>= f) := by
  intro s r s' ran fine
  rcases bind_some ran with ⟨exit, exited, rfl⟩ | ⟨a, s₁, done, ran'⟩
  · rcases first s _ s' exited fine with left | fine
    · cases left
      exact Or.inr (Or.inl rfl)
    · exact Or.inr (Or.inr fine)
  · rcases first s _ s₁ done fine with left | fine
    · cases left
    · exact then_ a s₁ r s' ran' fine

theorem raiseFalse (desc : LVObject) : Reports (raiseFalse desc : LoopM Heap (Option α)) := by
  intro s r s' ran fine
  cases ran
  exact Or.inl rfl

/-- An answer of failure that is handed on, whatever is raised beside it. -/
theorem handOn {x : LoopM Heap (Option α)} {f : Option α → LoopM Heap (Option β)}
    (reports : Reports x) (then_ : ∀ a, Reports (f (some a)))
    (refused : ∀ s r s', f none s = some (r, s') → r = .ok none) : Reports (x >>= f) := by
  intro s r s' ran fine
  rcases bind_some ran with ⟨exit, exited, rfl⟩ | ⟨a, s₁, done, ran'⟩
  · rcases reports s _ s' exited fine with left | left | fine
    · cases left
    · cases left
      exact Or.inr (Or.inl rfl)
    · exact Or.inr (Or.inr fine)
  · cases a with
    | none => exact Or.inl (refused s₁ r s' ran')
    | some a =>
      rcases reports s _ s₁ done fine with left | left | fine
      · cases left
      · cases left
      · exact then_ a s₁ r s' ran' fine

theorem retOnFail {x : LoopM Heap (Option α)} {f : α → LoopM Heap (Option β)}
    (reports : Reports x) (then_ : ∀ a, Reports (f a)) : Reports (retOnFail x f) :=
  handOn reports then_ fun s r s' ran => by
    cases ran
    rfl

theorem pure (a : Option α) : Reports (pure a : LoopM Heap (Option α)) := of_routed (.pure a)

end Reports

section operations

variable (W : Objects Heap) (rest : Rest Heap) (fuel : Nat) (i : LVInstruction)

theorem arith_routed (op : Char) (integers : BitVec 64 → BitVec 64 → BitVec 64)
    (o1 o2 : LVObject) : Routed (_ARITH_ W fuel op integers o1 o2) := by
  unfold _ARITH_
  split
  · exact .pure _
  · split
    · exact .pure _
    · exact .guard (.report _)

theorem arithNoZero_routed (o1 o2 : LVObject) : Routed (_ARITH_NOZERO W fuel o1 o2) := by
  unfold _ARITH_NOZERO
  split
  · split
    · exact .raiseThrow _
    · split
      · exact .undefined
      · exact .pure _
  · split
    · exact .pure _
    · exact .guard (.report _)

theorem plocalInc_reports (op : Char) (target a : Int) (incr : LVObject) :
    Reports (PLOCAL_INC W fuel op target a incr) :=
  .bind (.STK a) fun _ => .retOnFail (.report _) fun trg =>
    .bind (.STK a) fun _ => .bind (.store target _) fun _ => .bind (.store a trg) fun _ => .pure _

theorem derefInc_reports (op : Char) (target self key : Int) {incr : LoopM Heap LVObject}
    (postfix_ : Bool) (routed : Routed incr) :
    Reports (DerefInc W fuel op target self key incr postfix_) := by
  refine .bind (.STK self) fun _ => .bind (.STK key) fun _ => .retOnFail (.report _) fun tmp => ?_
  refine .bind routed fun _ => .retOnFail (.report _) fun result => ?_
  refine .bind (.store target result) fun _ => .retOnFail (.report _) fun _ => ?_
  split
  · exact .bind (.store target tmp) fun _ => .pure _
  · exact .bind (.pure _) fun _ => .pure _

/-- A call whose result goes to the target, unless there is none. -/
theorem target_routed (o : LVObject) {x : LoopM Heap Unit} (routed : Routed x) :
    Routed (do
      if i.sarg0 ≠ -1 then store i.arg0 o
      x) := by
  split
  · exact .bind (.store _ o) fun _ => routed
  · exact routed

theorem constructor_routed (stkbase : Int) (inst constructor : LVObject) :
    Routed (do
      match constructor.type with
      | .OT_CLOSURE =>
        update fun s => s.setVM (s.setSlot stkbase inst)
        _GUARD (report (rest.StartCall constructor (-1) i.arg3 stkbase false))
      | .OT_NATIVECLOSURE =>
        update fun s => s.setVM (s.setSlot stkbase inst)
        let _ ← _GUARD (report (rest.CallNative constructor i.arg3 stkbase))
      | _ => return ()) := by
  cases constructor.type with
  | OT_CLOSURE => exact .bind (.update fun _ => rfl) fun _ => .guard (.report _)
  | OT_NATIVECLOSURE =>
    exact .bind (.update fun _ => rfl) fun _ => .bind (.guard (.report _)) fun _ => .pure _
  | _ => exact .pure _

theorem call_routed : Routed (callInstruction W rest i) := by
  refine .bind (.STK i.arg1) fun clo => .bind .current fun s => ?_
  cases clo.type with
  | OT_CLOSURE => exact .guard (.report _)
  | OT_NATIVECLOSURE =>
    refine .bind (.guard (.report _)) fun (retval, suspend) => ?_
    cases suspend with
    | true => exact .bind (.update fun _ => rfl) fun _ => .leave .RETURN
    | false =>
      simp only [Bool.false_eq_true, if_false]
      split
      · exact .store _ retval
      · exact .pure _
  | OT_CLASS =>
    refine .bind .current fun s₁ => ?_
    split
    · exact .raiseThrow _
    · exact .bind (.operate _) fun (inst, constructor) =>
        target_routed i inst (constructor_routed rest i _ inst constructor)
  | OT_TABLE | OT_USERDATA | OT_INSTANCE =>
    refine .bind .current fun s₁ => ?_
    split
    · refine .bind (.operate _) fun _ => .bind (.update fun _ => rfl) fun _ => ?_
      refine .bind (.guard (.report _)) fun result => ?_
      split
      · exact .store _ result
      · exact .pure _
    · exact .raiseThrow _
  | _ => exact .raiseThrow _

theorem tailcall_routed : Routed (tailcallInstruction W rest i) := by
  refine .bind .current fun s => ?_
  dsimp only
  split
  · split
    · exact call_routed W rest i
    · exact .bind (.update fun _ => rfl) fun _ => .guard (.report _)
  · exact call_routed W rest i

theorem prepCall_routed {key : LoopM Heap LVObject} (routed : Routed key) :
    Routed (prepCall W fuel key i) :=
  .bind (.STK i.arg2) fun _ => .bind routed fun _ => .bind (.guard (.report _)) fun _ =>
    .bind (.STK i.arg2) fun _ => .bind (.store _ _) fun _ => .store _ _

/-- A failure of the metamethod is handed on once its operands are popped. -/
theorem inherited_reports (target : LVObject) : Reports (inherited W target) := by
  refine .bind .current fun s => ?_
  split
  · exact .pure _
  · refine .bind (.operate _) fun _ => .bind (.operate _) fun _ => ?_
    refine .handOn (.report _) (fun ret => .bind (.operate _) fun _ => .pure _) ?_
    intro s r s' ran
    rcases bind_some ran with ⟨exit, exited, rfl⟩ | ⟨_, s₁, _, ran'⟩
    · simp only [operate] at exited
      split at exited <;> cases exited
    · cases ran'
      rfl

theorem class_reports : Reports (CLASS_OP W rest i) := by
  have base : Routed (baseClass i : LoopM Heap (Option LVObject)) := by
    unfold baseClass
    split
    · exact .map (.STK i.arg1)
    · exact .pure none
  refine .bind base fun base => ?_
  split
  · exact .raiseFalse _
  · refine .bind (.operate _) fun target => .bind (.store _ target) fun _ => ?_
    refine .retOnFail (inherited_reports W target) fun _ => ?_
    split
    · exact .bind (.operate _) fun _ => .pure _
    · exact .pure _

theorem returnFrame_routed : Routed (returnFrame i : LoopM Heap Unit) := by
  refine .bind .current fun s => .bind (.onFrame _) fun _ => ?_
  split
  · exact .bind (.update fun _ => rfl) fun _ => .leave .RETURN
  · exact .pure _

theorem yield_routed : Routed (yieldInstruction i : LoopM Heap Unit) := by
  refine .bind .current fun s => ?_
  split
  · exact .undefined
  · split
    · exact .undefined
    · refine .bind (.STK i.arg1) fun value => .bind (.guard (.report _)) fun _ => ?_
      refine .bind (.update fun _ => rfl) fun _ => ?_
      split
      · exact .bind (.store _ value) fun _ => returnFrame_routed i
      · exact returnFrame_routed i

theorem resume_routed : Routed (resumeInstruction rest i) := by
  refine .bind .current fun s => .bind (.STK i.arg1) fun o => ?_
  split
  · exact .raiseThrow _
  · split
    · exact .undefined
    · exact .bind (.guard (.report _)) fun _ => .update fun _ => rfl

theorem nexti_reports (o1 o4 : LVObject) : Reports (nexti W fuel i o1 o4) := by
  refine .bind .current fun s => ?_
  split
  · exact .pure none
  · refine .bind .current fun s₁ => ?_
    split
    · exact .raiseFalse _
    · refine .bind (.operate _) fun _ => .bind (.operate _) fun _ => ?_
      refine .retOnFail (.report _) fun itr => ?_
      refine .bind (.store _ itr) fun _ => .bind (.store _ itr) fun _ => ?_
      split
      · exact .pure _
      · refine .handOn (.report _) (fun val => .bind (.store _ val) fun _ => .pure _) ?_
        intro s r s' ran
        cases ran
        rfl

theorem incLocal_routed (target : Bool) : Routed (incLocal W fuel i target) := by
  refine .bind (.STK i.arg1) fun a => ?_
  cases target with
  | true =>
    split
    · exact .bind (.store _ a) fun _ => .store _ _
    · exact .guard (plocalInc_reports W fuel _ _ _ _)
  | false =>
    split
    · exact .store _ _
    · exact .bind (arith_routed W fuel _ _ a _) fun _ => .store _ _

theorem binary_routed {operator : LVObject → LVObject → LoopM Heap LVObject}
    (routed : ∀ o1 o2, Routed (operator o1 o2)) : Routed (binary i operator) :=
  .bind (.STK _) fun o1 => .bind (.STK _) fun o2 => .bind (routed o1 o2) fun _ => .store _ _

theorem condLiteral_routed : Routed (COND_LITERAL i : LoopM Heap LVObject) := by
  unfold COND_LITERAL
  split
  · exact .literal _
  · exact .STK _

/-- Every instruction but two. -/
theorem dispatch_routed (mod : i.op ≠ .OP_MOD) (foreach : i.op ≠ .OP_FOREACH) :
    Routed (dispatch W rest fuel i) := by
  unfold dispatch
  cases op : i.op with
  | OP_MOD => exact absurd op mod
  | OP_FOREACH => exact absurd op foreach
  | OP_LINE | OP_LOAD | OP_LOADINT | OP_LOADFLOAT | OP_DLOAD | OP_MOVE | OP_LOADNULLS | OP_LOADBOOL
  | OP_DMOVE | OP_JMP | OP_JZ | OP_AND | OP_OR | OP_NOT | OP_GETOUTER | OP_SETOUTER | OP_CLOSURE
  | OP_POSTFOREACH | OP_CLOSE => exact .onFrame _
  | OP_TAILCALL => exact tailcall_routed W rest i
  | OP_CALL => exact call_routed W rest i
  | OP_PREPCALL => exact prepCall_routed W fuel i (.STK _)
  | OP_PREPCALLK => exact prepCall_routed W fuel i (.literal _)
  | OP_GETK =>
    exact .bind (.STK _) fun _ => .bind (.literal _) fun _ =>
      .bind (.guard (.report _)) fun _ => .store _ _
  | OP_GET | OP_DELETE =>
    exact .bind (.STK _) fun _ => .bind (.STK _) fun _ =>
      .bind (.guard (.report _)) fun _ => .store _ _
  | OP_NEWSLOT | OP_SET =>
    refine .bind (.STK _) fun _ => .bind (.STK _) fun _ => .bind (.STK _) fun _ => ?_
    refine .bind (.guard (.report _)) fun _ => ?_
    split
    · exact .bind (.STK _) fun _ => .store _ _
    · exact .pure _
  | OP_EQ | OP_NE =>
    exact .bind (.STK _) fun _ => .bind (condLiteral_routed i) fun _ => .store _ _
  | OP_ADD | OP_SUB | OP_MUL => exact binary_routed i (arith_routed W fuel _ _)
  | OP_DIV => exact binary_routed i (arithNoZero_routed W fuel)
  | OP_BITW | OP_CMP => exact binary_routed i fun _ _ => .guard (.report _)
  | OP_RETURN => exact .bind (.update fun _ => rfl) fun _ => returnFrame_routed i
  | OP_NEWOBJ =>
    dsimp only
    split
    · exact .guard (class_reports W rest i)
    · exact .operate _
  | OP_LOADROOT | OP_GETBASE | OP_APPENDARRAY => exact .operate _
  | OP_COMPARITH => exact .guard (derefInc_reports W fuel _ _ _ _ _ (.STK _))
  | OP_INC | OP_PINC => exact .guard (derefInc_reports W fuel _ _ _ _ _ (.pure _))
  | OP_INCL | OP_PINCL => exact incLocal_routed W fuel i _
  | OP_JCMP =>
    refine .bind (.STK _) fun _ => .bind (.STK _) fun _ => .bind (.guard (.report _)) fun _ => ?_
    split
    · exact .skip _
    · exact .pure _
  | OP_EXISTS =>
    exact .bind (.STK _) fun _ => .bind (.STK _) fun _ => .bind (.operate _) fun _ => .store _ _
  | OP_INSTANCEOF =>
    refine .bind (.STK _) fun _ => .bind (.STK _) fun _ => ?_
    split
    · exact .raiseThrow _
    · exact .bind .current fun _ => .store _ _
  | OP_NEG | OP_CLONE | OP_TYPEOF =>
    exact .bind (.STK _) fun _ => .bind (.guard (.report _)) fun _ => .store _ _
  | OP_BWNOT =>
    refine .bind (.STK _) fun _ => ?_
    split
    · exact .store _ _
    · exact .raiseThrow _
  | OP_YIELD => exact yield_routed i
  | OP_RESUME => exact resume_routed rest i
  | OP_PUSHTRAP | OP_POPTRAP => exact .bind (.onFrame _) fun _ => .update fun _ => rfl
  | OP_THROW => exact .bind (.STK _) fun _ => .raiseThrow _
  | OP_NEWSLOTA =>
    refine .bind (.STK _) fun _ => .bind (.STK _) fun _ => .bind (.STK _) fun _ => ?_
    refine .bind ?_ fun _ => .guard (.report _)
    unfold attributes
    split
    · exact .STK _
    · exact .pure _

end operations

end Interpret

end Lavril
