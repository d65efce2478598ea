import Lavril.Productions

/-!
# Expressions that emit nothing

The value of a local is already in a register: an expression that is no more
than a local, perhaps in parentheses or behind a comma, emits no instruction.
Every other expression starts with an instruction of its own.
-/

namespace Lavril

open LVCompiler

/-- The names that are locals here. -/
def LVCompiler.locals (c : LVCompiler) (id : String) : Bool := (c.fs.getLocalVariable id).isSome

mutual

def Expression.bare (locals : String → Bool) : Expression → Bool
  | .plain e => e.bare locals
  | _ => false

def LogicalOrExp.bare (locals : String → Bool) : LogicalOrExp → Bool
  | .prefixed e => e.bare locals
  | _ => false

def PrefixedExpr.bare (locals : String → Bool) : PrefixedExpr → Bool
  | .mk f [] none => f.bare locals
  | _ => false

def Factor.bare (locals : String → Bool) : Factor → Bool
  | .identifier id => locals id
  | .paren e => e.bare locals
  | _ => false

def CommaExpr.bare (locals : String → Bool) : CommaExpr → Bool
  | .last e => e.bare locals
  | .cons e rest => e.bare locals && rest.bare locals

end

/-- The function state only gets the register of a local on its target stack. -/
def PushesLocal (c c' : LVCompiler) : Prop :=
  (∃ n lvi, c.fs.vlocals[n]? = some lvi ∧ lvi.name ≠ none ∧ c'.fs = c.fs.pushTargetAt n) ∧
    c'.lineinfo = c.lineinfo ∧ c'.es.donot_get = c.es.donot_get

theorem PushesLocal.code {c c' : LVCompiler} (h : PushesLocal c c') : c'.fs.code = c.fs.code := by
  obtain ⟨⟨n, lvi, -, -, eq⟩, -⟩ := h
  rw [eq]
  rfl

/-- Popping it again leaves the function state as it was. -/
theorem PushesLocal.pop {c c₁ c₂ : LVCompiler} {n : Nat} (h : PushesLocal c c₁)
    (run : popTarget c₁ = .ok (n, c₂)) :
    c₂.fs = c.fs ∧ c₂.lineinfo = c.lineinfo ∧ c₂.es.donot_get = c.es.donot_get ∧
      n < c.fs.vlocals.length := by
  obtain ⟨⟨m, lvi, found, named, eq⟩, line, get⟩ := h
  simp only [popTarget, liftFs, eq, FunctionState.popTarget, FunctionState.pushTargetAt, found,
    named, if_false] at run
  cases run
  exact ⟨rfl, line, get, (List.getElem?_eq_some_iff.mp found).1⟩

theorem getLocalVariable_named {fs : FunctionState} {id : String} {n : Nat}
    (found : fs.getLocalVariable id = some n) :
    ∃ lvi, fs.vlocals[n]? = some lvi ∧ lvi.name ≠ none := by
  have named := List.find?_some found
  cases at_ : fs.vlocals[n]? with
  | none => simp [at_] at named
  | some lvi =>
    simp only [at_, decide_eq_true_eq] at named
    exact ⟨lvi, rfl, by simp [named]⟩

theorem identifier_bare {id : String} {next : Lookahead} {key : Option String} {c c' : LVCompiler}
    {read : Bool} (here : c.locals id = true) (run : identifier id next key c = .ok (read, c')) :
    PushesLocal c c' ∧ read = false := by
  obtain ⟨n, found⟩ := Option.isSome_iff_exists.mp here
  obtain ⟨lvi, at_, named⟩ := getLocalVariable_named found
  unfold identifier at run
  obtain ⟨pos, c₁, get, run⟩ := bind_ok.mp run
  obtain ⟨_, _, ⟨⟩, get⟩ := bind_ok.mp get
  obtain ⟨rfl, rfl⟩ := pure_ok.mp get
  simp only [found] at run
  cases run
  exact ⟨⟨⟨n, lvi, at_, named, rfl⟩, rfl, rfl⟩, rfl⟩

mutual

theorem expression_bare {c c' : LVCompiler} : (e : Expression) → e.bare c.locals = true →
    expression e c = .ok ((), c') → PushesLocal c c'
  | .plain e, bare, run => by
    unfold expression at run
    obtain ⟨_, _, get, run⟩ := bind_ok.mp run
    obtain ⟨_, _, ⟨⟩, get⟩ := bind_ok.mp get
    obtain ⟨rfl, rfl⟩ := pure_ok.mp get
    obtain ⟨_, _, ⟨⟩, run⟩ := bind_ok.mp run
    obtain ⟨_, c₁, inner, ⟨⟩⟩ := bind_ok.mp run
    unfold Expression.bare at bare
    obtain ⟨pushed, line, -⟩ := logicalOrExp_bare e (by exact bare) inner
    exact ⟨pushed, line, rfl⟩
  | .assign _ _ _, bare, _ => by cases bare
  | .cond _ _ _, bare, _ => by cases bare

theorem logicalOrExp_bare {c c' : LVCompiler} {next : Lookahead} : (e : LogicalOrExp) →
    e.bare c.locals = true → logicalOrExp next e c = .ok ((), c') → PushesLocal c c'
  | .prefixed e, bare, run => by
    unfold logicalOrExp at run
    unfold LogicalOrExp.bare at bare
    exact prefixedExpr_bare e bare run
  | .or _ _, bare, _ => by cases bare
  | .and _ _, bare, _ => by cases bare
  | .bin _ _ _, bare, _ => by cases bare

theorem prefixedExpr_bare {c c' : LVCompiler} {next : Lookahead} : (e : PrefixedExpr) →
    e.bare c.locals = true → prefixedExpr next e c = .ok ((), c') → PushesLocal c c'
  | .mk f [] none, bare, run => by
    unfold prefixedExpr at run
    obtain ⟨read, c₁, run, loop⟩ := bind_ok.mp run
    unfold suffixLoop at loop
    obtain ⟨-, rfl⟩ := pure_ok.mp loop
    unfold PrefixedExpr.bare at bare
    exact factor_bare f bare run
  | .mk _ (_ :: _) _, bare, _ => by cases bare
  | .mk _ [] (some _), bare, _ => by cases bare

theorem factor_bare {c c' : LVCompiler} {next : Lookahead} {key : Option String} {read : Bool} :
    (f : Factor) → f.bare c.locals = true → factor next key f c = .ok (read, c') → PushesLocal c c'
  | .identifier id, bare, run => by
    unfold factor at run
    unfold Factor.bare at bare
    exact (identifier_bare bare run).1
  | .paren e, bare, run => by
    unfold factor at run
    obtain ⟨_, c₁, inner, run⟩ := bind_ok.mp run
    cases run
    unfold Factor.bare at bare
    have pushed := commaExpr_bare e bare inner
    exact pushed
  | .stringLiteral _, bare, _ | .base, bare, _ | .doubleColon, bare, _ | .null, bare, _
  | .integer _, bare, _ | .float _, bare, _ | .bool _, bare, _ | .array _, bare, _
  | .table _, bare, _ | .function _, bare, _ | .lambda _, bare, _ | .class _, bare, _
  | .unary _ _, bare, _ | .prefixIncDec _ _, bare, _ | .delete _, bare, _ => by cases bare

theorem commaExpr_bare {c c' : LVCompiler} : (e : CommaExpr) → e.bare c.locals = true →
    commaExpr e c = .ok ((), c') → PushesLocal c c'
  | .last e, bare, run => by
    unfold commaExpr at run
    unfold CommaExpr.bare at bare
    exact expression_bare e bare run
  | .cons e rest, bare, run => by
    unfold commaExpr at run
    unfold CommaExpr.bare at bare
    obtain ⟨first, others⟩ := Bool.and_eq_true_iff.mp bare
    obtain ⟨_, c₁, run, next⟩ := bind_ok.mp run
    obtain ⟨n, c₂, pop, next⟩ := bind_ok.mp next
    obtain ⟨fs, line, get, -⟩ := (expression_bare e first run).pop pop
    have locals : c₂.locals = c.locals := by
      funext id
      rw [LVCompiler.locals, LVCompiler.locals, fs]
    have pushed := commaExpr_bare rest (locals ▸ others) next
    rwa [PushesLocal, fs, line, get] at pushed

end

section

variable {b : Nat} {B C : List Nat} {c c' : LVCompiler}

/-- Nothing has been emitted. -/
def Still (b : Nat) (B C : List Nat) (c c' : LVCompiler) : Prop :=
  Unopened b B C c' ∧ c'.fs.code = c.fs.code

theorem Still.opened {c₁ : LVCompiler} (still : Still b B C c c₁) (opened : Opened b B C c₁ c') :
    Opened b B C c c' := by
  refine ⟨?_, opened.ready⟩
  rw [← still.2]
  exact opened.agree

theorem Still.of_same (start : Unopened b B C c) (same : SameCode c.fs c'.fs) : Still b B C c c' :=
  ⟨⟨start.ready.congr same, (congrArg (·.instructions.length) same.code).trans start.length⟩,
    same.code⟩

theorem PushesLocal.still (h : PushesLocal c c') (start : Unopened b B C c) : Still b B C c c' := by
  obtain ⟨⟨n, lvi, -, -, eq⟩, -⟩ := h
  refine .of_same start ?_
  rw [eq]
  exact ⟨rfl, rfl, rfl⟩

theorem Still.trans {c₁ : LVCompiler} (still : Still b B C c c₁) (next : Still b B C c₁ c') :
    Still b B C c c' := ⟨next.1, next.2.trans still.2⟩

theorem Still.opens {α : Type} {m : CompilerM α} {a : α} {c₁ : LVCompiler} (still : Still b B C c c₁)
    (run : m c₁ = .ok (a, c')) (h : Opens .expression b B C m) : Opened b B C c c' :=
  still.opened (h.opened _ _ _ still.1 run).1

theorem Still.congr {c₁ c₂ : LVCompiler} (still : Still b B C c c₁) (same : c₂.fs = c₁.fs) :
    Still b B C c c₂ := by
  obtain ⟨unopened, code⟩ := still
  have sameCode : SameCode c₁.fs c₂.fs := by
    rw [same]
    exact SameCode.refl _
  exact ⟨⟨unopened.ready.congr sameCode, by rw [same]; exact unopened.length⟩, by rw [same]; exact code⟩

/-- What emits nothing but through an instruction of its own. -/
theorem Emits.starts {α : Type} {m : CompilerM α} {Q : α → Prop} {a : α}
    (h : Emits .expression b B C m Q) (start : Unopened b B C c) (run : m c = .ok (a, c')) :
    Opened b B C c c' ∨ Still b B C c c' := (h.unopened start run).1.symm

theorem getEs_ok {es : ExpState} (run : getEs c = .ok (es, c')) : es = c.es ∧ c = c' := by
  obtain ⟨_, _, ⟨⟩, run⟩ := bind_ok.mp run
  obtain ⟨rfl, rfl⟩ := pure_ok.mp run
  exact ⟨rfl, rfl⟩

theorem emitAccess_starts {next : Lookahead} {u : Unit} (start : Unopened b B C c)
    (run : emitAccess next c = .ok (u, c')) :
    Opened b B C c c' ∨ Still b B C c c' ∧ c'.es.donot_get = c.es.donot_get ∧
      needGet c.es.donot_get next = false := by
  unfold emitAccess at run
  obtain ⟨_, _, get, run⟩ := bind_ok.mp run
  obtain ⟨rfl, rfl⟩ := getEs_ok get
  split at run
  · have fetched : Opens .expression b B C (do
        emit2ArgsOP .OP_GET
        let pos ← topTarget
        setEs { c.es with etype := .EXPR, epos := pos }) :=
      .seq (opens_emit2ArgsOP rfl) fun _ => .seq emits_topTarget fun _ => emits_setEs
    exact .inl (fetched.opened _ _ _ start run).1
  · split at run
    · have fetched : Opens .expression b B C (do
          emit2ArgsOP .OP_GET
          setEtype .OBJECT) := .seq (opens_emit2ArgsOP rfl) fun _ => emits_setEtype
      exact .inl (fetched.opened _ _ _ start run).1
    · rename_i stay
      cases run
      exact .inr ⟨.of_same start (.refl _), rfl, by simpa using stay⟩

/-- What a factor leaves behind when it emits nothing. -/
structure Quiet (b : Nat) (B C : List Nat) (c c' : LVCompiler) (read : Bool) : Prop where
  still : Still b B C c c'
  unread : read = false
  donot_get : c'.es.donot_get = c.es.donot_get

theorem getLocalVariable_ok {id : String} {pos : Option Nat}
    (run : getLocalVariable id c = .ok (pos, c')) : pos = c.fs.getLocalVariable id ∧ c = c' := by
  obtain ⟨_, _, ⟨⟩, run⟩ := bind_ok.mp run
  obtain ⟨rfl, rfl⟩ := pure_ok.mp run
  exact ⟨rfl, rfl⟩

theorem getOuterVariable_still {id : String} {pos : Option Nat} (start : Unopened b B C c)
    (run : getOuterVariable id c = .ok (pos, c')) : Still b B C c c' ∧ c'.es = c.es := by
  cases run
  exact ⟨.of_same start (outerVariable_marks id c.fs c.parents).1.sameCode, rfl⟩

/-- Besides a local, only a captured variable that is not fetched yet emits nothing. -/
theorem identifier_starts {id : String} {next : Lookahead} {key : Option String} {read : Bool}
    (start : Unopened b B C c) (other : c.locals id = false)
    (run : identifier id next key c = .ok (read, c')) :
    Opened b B C c c' ∨ Quiet b B C c c' read ∧ needGet c.es.donot_get next = false := by
  unfold identifier at run
  obtain ⟨pos, _, get, run⟩ := bind_ok.mp run
  obtain ⟨rfl, rfl⟩ := getLocalVariable_ok get
  rw [LVCompiler.locals, Option.isSome_eq_false_iff, Option.isNone_iff_eq_none] at other
  simp only [other] at run
  obtain ⟨outer, c₁, get, run⟩ := bind_ok.mp run
  obtain ⟨still, es⟩ := getOuterVariable_still start get
  cases outer with
  | some pos =>
    obtain ⟨_, _, get, run⟩ := bind_ok.mp run
    obtain ⟨rfl, rfl⟩ := getEs_ok get
    rw [es] at run
    split at run
    · refine .inl (still.opens run ?_)
      exact .then emits_pushTarget fun _ => .then emits_setEpos fun _ =>
        .seq (opens_addInstruction rfl) fun _ => .pure trivial
    · rename_i stay
      cases run
      have same : c₁.es.donot_get = c.es.donot_get := by rw [es]
      exact .inr ⟨⟨still.congr rfl, rfl, same⟩, by simpa using stay⟩
  | none =>
    refine .inl (still.opens run ?_)
    refine .then emits_isConstant fun constant => ?_
    cases constant with
    | some constant =>
      exact .then emits_constantValue fun _ => .then emits_pushTarget fun _ =>
        .then emits_setEpos fun _ => .seq opens_emitConstantValue fun _ =>
        .seq emits_setEtype fun _ => .pure trivial
    | none =>
      have rest : Emits .expression b B C (do setEtype .OBJECT; return false) :=
        .seq emits_setEtype fun _ => .pure trivial
      exact .then emits_pushTargetAt fun _ => .seq opens_loadConstant fun _ =>
        .seq emits_getEs fun _ => .guarded (opens_emit2ArgsOP rfl).emits rest

/-- Only before a call is a suffix not fetched. -/
theorem lookahead_call {rest : List Suffix}
    (stay : needGet false (lookahead rest none .other) = false) :
    ∃ args others, rest = .call args :: others := by
  cases rest with
  | nil => cases stay
  | cons suffix others =>
    cases suffix with
    | call args => exact ⟨args, others, rfl⟩
    | field _ | index _ | arrow _ => cases stay

end

section

variable {b : Nat} {B C : List Nat}

mutual

theorem expression_opens {c c' : LVCompiler} : (e : Expression) → Unopened b B C c →
    e.bare c.locals = false → expression e c = .ok ((), c') → Opened b B C c c'
  | .plain e, start, other, run => by
    unfold expression at run
    obtain ⟨_, _, get, run⟩ := bind_ok.mp run
    obtain ⟨rfl, rfl⟩ := getEs_ok get
    obtain ⟨_, _, ⟨⟩, run⟩ := bind_ok.mp run
    obtain ⟨_, c₁, inner, restore⟩ := bind_ok.mp run
    unfold Expression.bare at other
    have still : Still b B C c { c with es := freshEs } := .of_same start (.refl _)
    have opened := logicalOrExp_opens e still.1 (by exact other) rfl inner
    exact (Opened.trans (still.opened opened) (emits_setEs : Emits .expression _ _ _ _) restore).1
  | .assign target _ value, start, _, run =>
    ((opens_assign (emits_logicalOrExp _ target) (emits_expression value) :
      Opens .expression _ _ _ _).opened _ _ _ start run).1
  | .cond test first second, start, _, run =>
    ((opens_cond (emits_logicalOrExp _ test) (emits_expression first)
      (emits_expression second) : Opens .expression _ _ _ _).opened _ _ _ start run).1

theorem logicalOrExp_opens {c c' : LVCompiler} : (e : LogicalOrExp) → Unopened b B C c →
    e.bare c.locals = false → c.es.donot_get = false →
    logicalOrExp .other e c = .ok ((), c') → Opened b B C c c'
  | .or first second, start, _, _, run =>
    ((opens_or (emits_logicalOrExp _ first) (emits_logicalOrExp _ second) :
      Opens .expression _ _ _ _).opened _ _ _ start run).1
  | .and first second, start, _, _, run =>
    ((opens_and (emits_logicalOrExp _ first) (emits_logicalOrExp _ second) :
      Opens .expression _ _ _ _).opened _ _ _ start run).1
  | .bin _ left right, start, _, _, run =>
    ((opens_bin (emits_logicalOrExp _ left) (emits_logicalOrExp _ right) :
      Opens .expression _ _ _ _).opened _ _ _ start run).1
  | .prefixed e, start, other, fetch, run => by
    unfold logicalOrExp at run
    unfold LogicalOrExp.bare at other
    exact prefixedExpr_opens e start other fetch run

theorem prefixedExpr_opens {c c' : LVCompiler} : (e : PrefixedExpr) → Unopened b B C c →
    e.bare c.locals = false → c.es.donot_get = false →
    prefixedExpr .other e c = .ok ((), c') → Opened b B C c c'
  | .mk f suffixes (some diff), start, _, _, run => by
    unfold prefixedExpr at run
    have opens : Opens .expression b B C (do
        let read ← factor (lookahead suffixes (some diff) .other) (fieldName suffixes) f
        suffixLoop .other (some diff) read suffixes
        emitPostfix diff) :=
      .then (factor_starts _ _ f).emits fun read => .then (emits_suffixLoop _ _ read suffixes)
        fun _ => opens_emitPostfix
    exact (opens.opened _ _ _ start run).1
  | .mk f [] none, start, other, fetch, run => by
    unfold prefixedExpr at run
    obtain ⟨read, c₁, run, loop⟩ := bind_ok.mp run
    unfold suffixLoop at loop
    obtain ⟨-, rfl⟩ := pure_ok.mp loop
    unfold PrefixedExpr.bare at other
    rcases factor_opens f start run with opened | ⟨-, bare | stay⟩
    · exact opened
    · rw [bare] at other
      cases other
    · rw [fetch] at stay
      cases stay
  | .mk f (suffix :: rest) none, start, _, fetch, run => by
    unfold prefixedExpr at run
    obtain ⟨read, c₁, run, loop⟩ := bind_ok.mp run
    obtain ⟨_, c₂, loop, last⟩ := bind_ok.mp loop
    obtain ⟨-, rfl⟩ := pure_ok.mp last
    rcases factor_opens f start run with opened | ⟨quiet, -⟩
    · exact (opened.trans (@emits_suffixLoop .expression _ _ _ _ _ read _) loop).1
    · obtain rfl := quiet.unread
      have opened := suffixLoop_opens (suffix :: rest) quiet.still.1 (by simp)
        (quiet.donot_get.trans fetch) loop
      exact quiet.still.opened opened

theorem suffixLoop_opens {c c' : LVCompiler} : (suffixes : List Suffix) → Unopened b B C c →
    suffixes ≠ [] → c.es.donot_get = false →
    suffixLoop .other none false suffixes c = .ok ((), c') → Opened b B C c c'
  | [], _, nonempty, _, _ => absurd rfl nonempty
  | .field id :: rest, start, _, _, run => by
    unfold suffixLoop applySuffix at run
    exact Still.opens ⟨start, rfl⟩ run (.seq (.seq opens_loadConstant fun _ => emits_emitAccess)
      fun _ => emits_suffixLoop _ _ _ rest)
  | .arrow id :: rest, start, _, _, run => by
    unfold suffixLoop applySuffix at run
    exact Still.opens ⟨start, rfl⟩ run (.seq (.seq opens_loadConstant fun _ => emits_emitAccess)
      fun _ => emits_suffixLoop _ _ _ rest)
  | .call args :: rest, start, _, _, run => by
    unfold suffixLoop applySuffix at run
    exact Still.opens ⟨start, rfl⟩ run (.seq (.seq opens_emitPrepareCall fun _ =>
      .seq (emits_functionCallArgs args) fun _ => emits_emitCall) fun _ => emits_suffixLoop _ _ _ rest)
  | .index key :: rest, start, _, fetch, run => by
    unfold suffixLoop applySuffix at run
    obtain ⟨_, c₂, run, loop⟩ := bind_ok.mp run
    obtain ⟨_, c₁, run, access⟩ := bind_ok.mp run
    have others : Emits .expression b B C (suffixLoop .other none false rest) :=
      emits_suffixLoop _ _ _ rest
    cases bare : key.bare c.locals with
    | false =>
      have opened := expression_opens key start bare run
      exact ((opened.trans (emits_emitAccess : Emits .expression _ _ _ _) access).1.trans others loop).1
    | true =>
      have pushed := expression_bare key bare run
      have still := pushed.still start
      have same := pushed.2.2.trans fetch
      rcases emitAccess_starts still.1 access with opened | ⟨unfetched, get, stay⟩
      · exact ((still.opened opened).trans others loop).1
      · rw [same] at stay
        obtain ⟨args, tail, eq⟩ := lookahead_call stay
        have opened := suffixLoop_opens rest unfetched.1 (by simp [eq]) (get.trans same) loop
        exact still.opened (unfetched.opened opened)

theorem factor_opens {c c' : LVCompiler} {next : Lookahead} {key : Option String} {read : Bool} :
    (f : Factor) → Unopened b B C c → factor next key f c = .ok (read, c') →
    Opened b B C c c' ∨ Quiet b B C c c' read ∧
      (f.bare c.locals = true ∨ needGet c.es.donot_get next = false)
  | .identifier id, start, run => by
    unfold factor at run
    unfold Factor.bare
    cases here : c.locals id with
    | false =>
      exact (identifier_starts start here run).imp_right fun quiet => ⟨quiet.1, .inr quiet.2⟩
    | true =>
      obtain ⟨pushed, unread⟩ := identifier_bare here run
      exact .inr ⟨⟨pushed.still start, unread, pushed.2.2⟩, .inl rfl⟩
  | .paren e, start, run => by
    unfold factor at run
    unfold Factor.bare
    obtain ⟨_, c₁, inner, run⟩ := bind_ok.mp run
    cases bare : e.bare c.locals with
    | false =>
      have opened := commaExpr_opens e start bare inner
      exact .inl (opened.trans (.seq emits_setEtype fun _ => .pure trivial :
        Emits .expression _ _ _ _) run).1
    | true =>
      have pushed := commaExpr_bare e bare inner
      cases run
      exact .inr ⟨⟨(pushed.still start).congr rfl, rfl, pushed.2.2⟩, .inl rfl⟩
  | .stringLiteral _, start, run | .base, start, run | .doubleColon, start, run
  | .null, start, run | .integer _, start, run | .float _, start, run | .bool _, start, run
  | .array _, start, run | .table _, start, run | .function _, start, run
  | .lambda _, start, run | .class _, start, run | .unary _ _, start, run
  | .prefixIncDec _ _, start, run | .delete _, start, run =>
    .inl (Still.opens ⟨start, rfl⟩ run ((factor_starts _ _ _).opens rfl))

theorem commaExpr_opens {c c' : LVCompiler} : (e : CommaExpr) → Unopened b B C c →
    e.bare c.locals = false → commaExpr e c = .ok ((), c') → Opened b B C c c'
  | .last e, start, other, run => by
    unfold commaExpr at run
    unfold CommaExpr.bare at other
    exact expression_opens e start other run
  | .cons e rest, start, other, run => by
    unfold commaExpr at run
    unfold CommaExpr.bare at other
    obtain ⟨_, c₁, run, next⟩ := bind_ok.mp run
    cases bare : e.bare c.locals with
    | false =>
      have opened := expression_opens e start bare run
      exact (opened.trans (.seq emits_popTarget fun _ => emits_commaExpr rest :
        Emits .expression _ _ _ _) next).1
    | true =>
      obtain ⟨n, c₂, pop, next⟩ := bind_ok.mp next
      have pushed := expression_bare e bare run
      obtain ⟨fs, -⟩ := pushed.pop pop
      have still : Still b B C c c₂ := Still.congr ⟨start, rfl⟩ fs
      have locals : c₂.locals = c.locals := by
        funext id
        rw [LVCompiler.locals, LVCompiler.locals, fs]
      rw [bare, Bool.true_and, ← locals] at other
      exact still.opened (commaExpr_opens rest still.1 other next)

end

end

end Lavril
