import Lavril.Object
import Mathlib.Logic.Function.Basic

/-!
# Delegates

A table or user data may have a table as its delegate, which a search for a
slot goes on in. `setDelegate` refuses to close a cycle, and nothing else writes
a delegate but `clone`, so no chain of delegates ever becomes circular.

An object is known by its address. `none` as the result of an operation means
that a loop did not end within the given number of steps.
-/

namespace Lavril

/-- `slots` is what the raw table holds; user data has none. -/
structure LVDelegable where
  isTable : Bool
  slots : LVObject → Option LVObject
  delegate : Option Nat

/-- The tables and user data there are. -/
abbrev Delegables := Nat → Option LVDelegable

namespace Delegables

variable (h : Delegables)

/-- `_delegate`. -/
def delegate (a : Nat) : Option Nat := (h a).bind (·.delegate)

def modify (a : Nat) (f : LVDelegable → LVDelegable) : Delegables :=
  Function.update h a ((h a).map f)

/-- The loop of `SetDelegate`: whether the chain that starts with `temp` comes to
an object whose delegate is `this`. -/
def cycleDetected (this : Nat) : Nat → Option Nat → Option Bool
  | 0, _ => none
  | _ + 1, none => some false
  | fuel + 1, some temp =>
    if h.delegate temp = some this then some true
    else cycleDetected this fuel (h.delegate temp)

/-- `SetDelegate`, with its answer. -/
def setDelegate (fuel : Nat) (this : Nat) (mt : Option Nat) : Option (Bool × Delegables) :=
  if mt = some this then some (false, h)
  else
    match h.cycleDetected this fuel mt with
    | none => none
    | some true => some (false, h)
    | some false => some (true, h.modify this ({ · with delegate := mt }))

/-- `LVTable::Clone`, into an object at a new address. -/
def clone (fuel : Nat) (this fresh : Nat) : Option Delegables :=
  match h this with
  | none => none
  | some o =>
    let nt : Delegables := Function.update h fresh (some { o with delegate := none })
    (nt.setDelegate fuel fresh o.delegate).map Prod.snd

/-- `lv_setdelegate` on `self`, a table or user data, with a table or null on top of
the stack; whether it is `LV_OK`. The answer of user data is not looked at. -/
def lv_setdelegate (fuel : Nat) (self : Nat) (mt : Option Nat) : Option (Bool × Delegables) :=
  match h self with
  | none => some (false, h)
  | some o =>
    (h.setDelegate fuel self mt).map fun (answer, h') => (answer || !o.isTable || mt.isNone, h')

/-- `Get` on a table or user data. `fallback` is what the metamethod and the default
delegate of an object give. -/
def get (fallback : Nat → LVObject → Option LVObject) :
    Nat → Nat → LVObject → Option (Option LVObject)
  | 0, _, _ => none
  | fuel + 1, self, key =>
    match (h self).bind (·.slots key) with
    | some val => some (some val)
    | none =>
      match h.delegate self with
      | none => some (fallback self key)
      | some d =>
        match get fallback fuel d key with
        | some none => some (fallback self key)
        | found => found

/-- `Set` on a table: the table whose slot is written, if there is one. -/
def setTarget : Nat → Nat → LVObject → Option (Option Nat)
  | 0, _, _ => none
  | fuel + 1, self, key =>
    match (h self).bind (·.slots key) with
    | some _ => some (some self)
    | none =>
      match h.delegate self with
      | none => some none
      | some d => setTarget fuel d key

/-- One operation on the objects. -/
inductive Step : Delegables → Delegables → Prop
  | setDelegate {h h' : Delegables} {fuel this : Nat} {mt : Option Nat} {answer : Bool}
      (live : h this ≠ none) (table : ∀ a, mt = some a → h a ≠ none)
      (run : h.setDelegate fuel this mt = some (answer, h')) : Step h h'
  | lv_setdelegate {h h' : Delegables} {fuel self : Nat} {mt : Option Nat} {ok : Bool}
      (table : ∀ a, mt = some a → h a ≠ none)
      (run : h.lv_setdelegate fuel self mt = some (ok, h')) : Step h h'
  | clone {h h' : Delegables} {fuel this fresh : Nat} (new : h fresh = none)
      (run : h.clone fuel this fresh = some h') : Step h h'
  /-- A new object. -/
  | create {h : Delegables} {fresh : Nat} {o : LVDelegable} (new : h fresh = none)
      (bare : o.delegate = none) : Step h (Function.update h fresh (some o))
  /-- The slots of a table change. -/
  | slots {h : Delegables} {a : Nat} {slots : LVObject → Option LVObject} :
      Step h (h.modify a ({ · with slots := slots }))
  /-- An object that is no delegate is released. -/
  | release {h : Delegables} {a : Nat} (unused : ∀ b, h.delegate b ≠ some a) :
      Step h (Function.update h a none)

inductive Reachable : Delegables → Prop
  | initial {h : Delegables} (bare : ∀ a, h.delegate a = none) : Reachable h
  | step {h h' : Delegables} (before : Reachable h) (step : Step h h') : Reachable h'

/-! ## Chains of delegates -/

/-- Following `_delegate` from an object, or null, comes to null after `n` objects. -/
inductive Ends : Option Nat → Nat → Prop
  | null : Ends none 0
  | object {a n : Nat} (rest : Ends (h.delegate a) n) : Ends (some a) (n + 1)

/-- No chain is circular, and a delegate is an object that there is. -/
structure Acyclic : Prop where
  ends : ∀ a, ∃ n, h.Ends (some a) n
  live : ∀ a b, h.delegate a = some b → h b ≠ none

variable {h} {h' : Delegables} {this : Nat} {mt : Option Nat}

theorem modify_delegate {f : LVDelegable → LVDelegable} {a b : Nat} (ne : b ≠ a) :
    (h.modify a f).delegate b = h.delegate b := by
  rw [delegate, modify, Function.update_of_ne ne, delegate]

theorem modify_live {f : LVDelegable → LVDelegable} (a b : Nat) :
    h.modify a f b ≠ none ↔ h b ≠ none := by
  by_cases eq : b = a
  · subst eq
    rw [modify, Function.update_self]
    cases h b <;> simp
  · rw [modify, Function.update_of_ne eq]

theorem Acyclic.ends_of (acyclic : h.Acyclic) (p : Option Nat) : ∃ n, h.Ends p n := by
  cases p with
  | none => exact ⟨0, .null⟩
  | some a => exact acyclic.ends a

/-- The loop ends after as many steps as there are objects in the chain. -/
theorem Ends.cycleDetected {p : Option Nat} {n : Nat} (ends : h.Ends p n) :
    ∃ r, ∀ fuel, n < fuel → h.cycleDetected this fuel p = some r := by
  induction ends with
  | null =>
    refine ⟨false, fun fuel lt => ?_⟩
    obtain ⟨fuel, rfl⟩ := Nat.exists_eq_succ_of_ne_zero (by omega : fuel ≠ 0)
    rfl
  | @object a n rest ih =>
    obtain ⟨r, ih⟩ := ih
    by_cases found : h.delegate a = some this
    · refine ⟨true, fun fuel lt => ?_⟩
      obtain ⟨fuel, rfl⟩ := Nat.exists_eq_succ_of_ne_zero (by omega : fuel ≠ 0)
      rw [Delegables.cycleDetected, if_pos found]
    · refine ⟨r, fun fuel lt => ?_⟩
      obtain ⟨fuel, rfl⟩ := Nat.exists_eq_succ_of_ne_zero (by omega : fuel ≠ 0)
      rw [Delegables.cycleDetected, if_neg found]
      exact ih fuel (by omega)

/-- A chain that does not come to `this` is the same after `this` was changed. -/
theorem Ends.avoids (same : ∀ a, a ≠ this → h'.delegate a = h.delegate a) {p : Option Nat}
    {n fuel : Nat} (ends : h.Ends p n) (ne : p ≠ some this)
    (clear : h.cycleDetected this fuel p = some false) : h'.Ends p n := by
  induction ends generalizing fuel with
  | null => exact .null
  | @object a n rest ih =>
    obtain ⟨fuel, rfl⟩ : ∃ m, fuel = m + 1 := by
      cases fuel with
      | zero => cases clear
      | succ m => exact ⟨m, rfl⟩
    rw [Delegables.cycleDetected] at clear
    split at clear
    · cases clear
    · rename_i other
      have different : a ≠ this := by
        rintro rfl
        exact ne rfl
      refine .object ?_
      rw [same a different]
      exact ih other clear

/-- Every chain still ends when `this` is changed and the new one from `this` ends. -/
theorem Ends.change (same : ∀ a, a ≠ this → h'.delegate a = h.delegate a) {p : Option Nat}
    {n m : Nat} (ends : h.Ends p n) (new : h'.Ends (some this) m) : ∃ n', h'.Ends p n' := by
  induction ends with
  | null => exact ⟨0, .null⟩
  | @object a n rest ih =>
    by_cases eq : a = this
    · subst eq
      exact ⟨m, new⟩
    · obtain ⟨n', ends'⟩ := ih
      refine ⟨n' + 1, .object ?_⟩
      rwa [same a eq]

theorem setDelegate_cases {fuel : Nat} {answer : Bool}
    (run : h.setDelegate fuel this mt = some (answer, h')) :
    (answer = false ∧ h' = h) ∨
      (answer = true ∧ mt ≠ some this ∧ h.cycleDetected this fuel mt = some false ∧
        h' = h.modify this ({ · with delegate := mt })) := by
  unfold setDelegate at run
  split at run
  · cases run
    exact .inl ⟨rfl, rfl⟩
  · rename_i other
    split at run
    · cases run
    · cases run
      exact .inl ⟨rfl, rfl⟩
    · rename_i clear
      cases run
      exact .inr ⟨rfl, other, clear, rfl⟩

theorem Acyclic.setDelegate (acyclic : h.Acyclic) {fuel : Nat} {answer : Bool}
    (table : ∀ a, mt = some a → h a ≠ none)
    (run : h.setDelegate fuel this mt = some (answer, h')) : h'.Acyclic := by
  rcases setDelegate_cases run with ⟨-, rfl⟩ | ⟨-, other, clear, rfl⟩
  · exact acyclic
  have same : ∀ a, a ≠ this →
      (h.modify this ({ · with delegate := mt })).delegate a = h.delegate a :=
    fun a ne => modify_delegate ne
  -- the chain from `this` is now the one from `mt`, unless there is no such object
  have there : (h.modify this ({ · with delegate := mt })).delegate this = mt ∨
      (h.modify this ({ · with delegate := mt })).delegate this = none := by
    cases found : h this with
    | none =>
      right
      simp [delegate, Delegables.modify, found]
    | some o =>
      left
      simp [delegate, Delegables.modify, found]
  obtain ⟨n, ends⟩ := acyclic.ends_of mt
  have new : ∃ m, (h.modify this ({ · with delegate := mt })).Ends (some this) m := by
    rcases there with is | is
    · exact ⟨n + 1, .object (by rw [is]; exact ends.avoids same other clear)⟩
    · exact ⟨1, .object (by rw [is]; exact .null)⟩
  obtain ⟨m, new⟩ := new
  refine ⟨fun a => ?_, fun a b is => ?_⟩
  · obtain ⟨k, old⟩ := acyclic.ends a
    exact old.change same new
  · rw [modify_live]
    by_cases eq : a = this
    · subst eq
      rcases there with same | none
      · exact table b (same.symm.trans is)
      · rw [none] at is
        cases is
    · rw [same a eq] at is
      exact acyclic.live a b is

/-- An object whose delegate is null comes or goes. -/
theorem Acyclic.replace (acyclic : h.Acyclic) {a : Nat} {o : Option LVDelegable}
    (bare : o.bind (·.delegate) = none) (unused : o = none → ∀ b, h.delegate b ≠ some a) :
    Delegables.Acyclic (Function.update h a o) := by
  have same : ∀ b, b ≠ a → delegate (Function.update h a o) b = h.delegate b := by
    intro b ne
    rw [delegate, Function.update_of_ne ne, delegate]
  have none : delegate (Function.update h a o) a = none := by
    rw [delegate, Function.update_self, bare]
  have new : Delegables.Ends (Function.update h a o) (some a) 1 := .object (by rw [none]; exact .null)
  refine ⟨fun b => ?_, fun b c is => ?_⟩
  · obtain ⟨n, ends⟩ := acyclic.ends b
    exact ends.change same new
  · have ne : b ≠ a := by
      rintro rfl
      rw [none] at is
      cases is
    rw [same b ne] at is
    by_cases eq : c = a
    · subst eq
      rw [Function.update_self]
      intro gone
      exact unused gone b is
    · rw [Function.update_of_ne eq]
      exact acyclic.live b c is

theorem Acyclic.slots (acyclic : h.Acyclic) {a : Nat} {slots : LVObject → Option LVObject} :
    (h.modify a ({ · with slots := slots })).Acyclic := by
  have same : ∀ b, (h.modify a ({ · with slots := slots })).delegate b = h.delegate b := by
    intro b
    by_cases eq : b = a
    · subst eq
      simp only [delegate, Delegables.modify, Function.update_self]
      cases h b <;> rfl
    · exact modify_delegate eq
  have new : ∃ m, (h.modify a ({ · with slots := slots })).Ends (some a) m := by
    obtain ⟨n, ends⟩ := acyclic.ends a
    refine ⟨n, ?_⟩
    generalize some a = p at ends
    induction ends with
    | null => exact .null
    | object rest ih => exact .object (by rwa [same])
  obtain ⟨m, new⟩ := new
  refine ⟨fun b => ?_, fun b c is => ?_⟩
  · obtain ⟨n, ends⟩ := acyclic.ends b
    exact ends.change (fun b _ => same b) new
  · rw [same] at is
    rw [modify_live]
    exact acyclic.live b c is

theorem Acyclic.clone (acyclic : h.Acyclic) {fuel fresh : Nat} (new : h fresh = none)
    (run : h.clone fuel this fresh = some h') : h'.Acyclic := by
  unfold Delegables.clone at run
  cases found : h this with
  | none => simp [found] at run
  | some o =>
    simp only [found, Option.map_eq_some_iff] at run
    obtain ⟨⟨answer, h₁⟩, run, rfl⟩ := run
    have created := @Acyclic.replace h acyclic fresh (some { o with delegate := none }) rfl nofun
    refine created.setDelegate (fun a is => ?_) run
    have ne : a ≠ fresh := by
      rintro rfl
      exact acyclic.live this a (by rw [delegate, found]; exact is) new
    rw [Function.update_of_ne ne]
    exact acyclic.live this a (by rw [delegate, found]; exact is)

theorem Step.acyclic (acyclic : h.Acyclic) (step : Step h h') : h'.Acyclic := by
  cases step with
  | setDelegate live table run => exact acyclic.setDelegate table run
  | @lv_setdelegate _ fuel self mt ok table run =>
    unfold Delegables.lv_setdelegate at run
    cases found : h self with
    | none =>
      simp only [found, Option.some.injEq, Prod.mk.injEq] at run
      obtain ⟨-, rfl⟩ := run
      exact acyclic
    | some o =>
      simp only [found, Option.map_eq_some_iff] at run
      obtain ⟨⟨answer, h₁⟩, run, eq⟩ := run
      cases eq
      exact acyclic.setDelegate table run
  | clone new run => exact acyclic.clone new run
  | create new bare => exact acyclic.replace bare nofun
  | slots => exact acyclic.slots
  | release unused => exact acyclic.replace rfl fun _ => unused

theorem Reachable.acyclic (reachable : Reachable h) : h.Acyclic := by
  induction reachable with
  | initial bare =>
    refine ⟨fun a => ⟨1, .object ?_⟩, fun a b is => ?_⟩
    · rw [bare a]
      exact .null
    · rw [bare a] at is
      cases is
  | step _ step ih => exact step.acyclic ih

/-- A search along the delegates ends. -/
theorem Ends.get {a n : Nat} (ends : h.Ends (some a) n) (fallback : Nat → LVObject → Option LVObject)
    (key : LVObject) : ∃ r, ∀ fuel, n ≤ fuel → h.get fallback fuel a key = some r := by
  generalize eq : some a = p at ends
  induction ends generalizing a with
  | null => cases eq
  | @object b n rest ih =>
    cases eq
    cases raw : (h b).bind (·.slots key) with
    | some val =>
      refine ⟨some val, fun fuel le => ?_⟩
      obtain ⟨fuel, rfl⟩ := Nat.exists_eq_succ_of_ne_zero (by omega : fuel ≠ 0)
      simp only [Delegables.get, raw]
    | none =>
      cases is : h.delegate b with
      | none =>
        refine ⟨fallback b key, fun fuel le => ?_⟩
        obtain ⟨fuel, rfl⟩ := Nat.exists_eq_succ_of_ne_zero (by omega : fuel ≠ 0)
        simp only [Delegables.get, raw, is]
      | some d =>
        obtain ⟨r, ih⟩ := ih is.symm
        refine ⟨r.or (fallback b key), fun fuel le => ?_⟩
        obtain ⟨fuel, rfl⟩ := Nat.exists_eq_succ_of_ne_zero (by omega : fuel ≠ 0)
        simp only [Delegables.get, raw, is, ih fuel (by omega)]
        cases r <;> rfl

theorem Ends.setTarget {a n : Nat} (ends : h.Ends (some a) n) (key : LVObject) :
    ∃ r, ∀ fuel, n ≤ fuel → h.setTarget fuel a key = some r := by
  generalize eq : some a = p at ends
  induction ends generalizing a with
  | null => cases eq
  | @object b n rest ih =>
    cases eq
    cases raw : (h b).bind (·.slots key) with
    | some val =>
      refine ⟨some b, fun fuel le => ?_⟩
      obtain ⟨fuel, rfl⟩ := Nat.exists_eq_succ_of_ne_zero (by omega : fuel ≠ 0)
      simp only [Delegables.setTarget, raw]
    | none =>
      cases is : h.delegate b with
      | none =>
        refine ⟨none, fun fuel le => ?_⟩
        obtain ⟨fuel, rfl⟩ := Nat.exists_eq_succ_of_ne_zero (by omega : fuel ≠ 0)
        simp only [Delegables.setTarget, raw, is]
      | some d =>
        obtain ⟨r, ih⟩ := ih is.symm
        refine ⟨r, fun fuel le => ?_⟩
        obtain ⟨fuel, rfl⟩ := Nat.exists_eq_succ_of_ne_zero (by omega : fuel ≠ 0)
        simp only [Delegables.setTarget, raw, is, ih fuel (by omega)]

/-- `SetDelegate` ends, and changes nothing when it answers false. -/
theorem Acyclic.setDelegate_ends (acyclic : h.Acyclic) (this : Nat) (mt : Option Nat) :
    ∃ n answer h', (∀ fuel, n < fuel → h.setDelegate fuel this mt = some (answer, h')) ∧
      (answer = false → h' = h) := by
  obtain ⟨n, ends⟩ := acyclic.ends_of mt
  obtain ⟨r, walk⟩ := @Ends.cycleDetected h this mt n ends
  by_cases self : mt = some this
  · exact ⟨n, false, h, fun fuel _ => by rw [Delegables.setDelegate, if_pos self], fun _ => rfl⟩
  · cases r with
    | true =>
      refine ⟨n, false, h, fun fuel lt => ?_, fun _ => rfl⟩
      simp only [Delegables.setDelegate, if_neg self, walk fuel lt]
    | false =>
      refine ⟨n, true, h.modify this ({ · with delegate := mt }), fun fuel lt => ?_, nofun⟩
      simp only [Delegables.setDelegate, if_neg self, walk fuel lt]

/-- No sequence of operations makes a chain of delegates circular: every chain ends
in null, searches along delegates end, and so does `SetDelegate`. -/
theorem delegation_acyclic (reachable : Reachable h) :
    (∀ a, ∃ n, h.Ends (some a) n) ∧
    (∀ fallback a key, ∃ n r, ∀ fuel, n ≤ fuel → h.get fallback fuel a key = some r) ∧
    (∀ a key, ∃ n r, ∀ fuel, n ≤ fuel → h.setTarget fuel a key = some r) ∧
    ∀ this mt, ∃ n answer h', (∀ fuel, n < fuel →
      h.setDelegate fuel this mt = some (answer, h')) ∧ (answer = false → h' = h) := by
  have acyclic := reachable.acyclic
  refine ⟨acyclic.ends, fun fallback a key => ?_, fun a key => ?_, acyclic.setDelegate_ends⟩
  · obtain ⟨n, ends⟩ := acyclic.ends a
    exact ⟨n, ends.get fallback key⟩
  · obtain ⟨n, ends⟩ := acyclic.ends a
    exact ⟨n, ends.setTarget key⟩

/-- Two tables, the first with the second as its delegate. -/
def delegating (second : Option Nat) : Delegables := fun a =>
  if a = 0 then some ⟨true, fun _ => none, second⟩
  else if a = 1 then some ⟨true, fun _ => none, none⟩ else none

theorem delegating_reachable : Reachable (delegating (some 1)) := by
  have bare : ∀ a, (delegating none).delegate a = none := by
    intro a
    simp only [delegate, delegating]
    split
    · rfl
    · split <;> rfl
  refine .step (.initial bare) (@Step.setDelegate _ _ 2 0 (some 1) true nofun ?_ ?_)
  · rintro a ⟨⟩
    nofun
  · have same : (delegating none).modify 0 ({ · with delegate := some 1 }) =
        delegating (some 1) := by
      funext a
      by_cases eq : a = 0
      · subst eq
        rfl
      · rw [Delegables.modify, Function.update_of_ne eq]
        simp [delegating, eq]
    rw [← same]
    rfl

theorem delegation_acyclic_delegating : ∃ n, (delegating (some 1)).Ends (some 0) n :=
  (delegation_acyclic delegating_reachable).1 0

end Delegables

end Lavril
