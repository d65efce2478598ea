import Lavril.Balance
import Lavril.Invariance

/-!
# Values as text

`ToString` of a table or an array goes through the values and the keys that it holds, and
through what weak references refer to. Nothing keeps it from going in a circle.
-/

namespace Lavril.ObjectM

open Invariance

variable {Heap : Type} (W : Objects Heap)

/-- Tables, arrays and weak references hold the same, and the same objects have a `_tostring`
metamethod. -/
structure SameContents (objects objects' : Heap) : Prop where
  next : W.next objects' = W.next objects
  count : W.count objects' = W.count objects
  referent : W.referent objects' = W.referent objects
  tostring (o : LVObject) :
    delegateMetaMethod W objects' o .MT_TOSTRING = delegateMetaMethod W objects o .MT_TOSTRING

theorem SameContents.refl (objects : Heap) : SameContents W objects objects :=
  ⟨rfl, rfl, rfl, fun _ => rfl⟩

/-- The call of a `_tostring` metamethod for an object. -/
def callTostring (o closure : LVObject) : ObjectM Heap (Option LVObject) := do
  push o
  CallMetaMethod W closure .MT_TOSTRING 1

/-- The objects hold what `objects` hold. -/
abbrev Holding (objects : Heap) (s : MetaVM Heap) : Prop := SameContents W objects s.objects

/-- What is stored is still stored after a call of a `_tostring` metamethod. -/
def TostringKeeps (objects : Heap) : Prop :=
  ∀ o closure, delegateMetaMethod W objects o .MT_TOSTRING = some closure →
    Meets (Holding W objects) (callTostring W o closure) fun _ => True

def Container (o : LVObject) : Prop := o.type = .OT_TABLE ∨ o.type = .OT_ARRAY

instance : Decidable (Container o) := inferInstanceAs (Decidable (_ ∨ _))

/-- `OT_USERDATA` and `OT_INSTANCE`. -/
def HasTostring (o : LVObject) : Prop := o.type = .OT_USERDATA ∨ o.type = .OT_INSTANCE

/-- The entries that `Next` gives from a position on. -/
inductive Lists (objects : Heap) (o : LVObject) : Nat → List (LVObject × LVObject) → Prop where
  | done {i} : W.next objects o i = none → Lists objects o i []
  | entry {i i' key val l} : W.next objects o i = some (i', key, val) →
      Lists objects o i' l → Lists objects o i ((key, val) :: l)

/-- What else is turned into text for an object. -/
inductive Part (objects : Heap) : LVObject → LVObject → Prop where
  | key {o l e} : Container o → Lists W objects o 0 l → e ∈ l → Part objects e.1 o
  | value {o l e} : Container o → Lists W objects o 0 l → e ∈ l → Part objects e.2 o
  | referent {o} : o.type = .OT_WEAKREF → Part objects (W.referent objects o) o

/-- An object that is built up from finitely many parts, none of which is a part of itself. -/
inductive FiniteTree (objects : Heap) : LVObject → Prop where
  | intro {o} : (Container o → ∃ l, Lists W objects o 0 l) →
      (∀ part, Part W objects part o → FiniteTree objects part) → FiniteTree objects o

variable {W} {objects : Heap} {o : LVObject}

theorem Lists.unique {i : Nat} {l l' : List (LVObject × LVObject)} (first : Lists W objects o i l)
    (second : Lists W objects o i l') : l = l' := by
  induction first generalizing l' with
  | done none =>
    cases second with
    | done _ => rfl
    | entry some _ => cases none.symm.trans some
  | entry some _ ih =>
    cases second with
    | done none => cases none.symm.trans some
    | entry some' rest =>
      cases some.symm.trans some'
      rw [ih rest]

theorem not_weakref (container : Container o) : o.type ≠ .OT_WEAKREF := by
  rcases container with type | type <;> simp [type]

namespace FiniteTree

theorem leaf (container : ¬Container o) (type : o.type ≠ .OT_WEAKREF) : FiniteTree W objects o := by
  refine .intro (fun is => absurd is container) fun part is => ?_
  cases is with
  | key is _ _ => exact absurd is container
  | value is _ _ => exact absurd is container
  | referent is => exact absurd is type

theorem of_lists (container : Container o) {l : List (LVObject × LVObject)}
    (lists : Lists W objects o 0 l)
    (parts : ∀ e ∈ l, FiniteTree W objects e.1 ∧ FiniteTree W objects e.2) :
    FiniteTree W objects o := by
  refine .intro (fun _ => ⟨l, lists⟩) fun part is => ?_
  cases is with
  | key _ lists' mem => exact (parts _ (lists'.unique lists ▸ mem)).1
  | value _ lists' mem => exact (parts _ (lists'.unique lists ▸ mem)).2
  | referent is => exact absurd is (not_weakref container)

theorem of_referent (type : o.type = .OT_WEAKREF) (referent : FiniteTree W objects (W.referent objects o)) :
    FiniteTree W objects o := by
  refine .intro (fun is => absurd type (not_weakref is)) fun part is => ?_
  cases is with
  | key is _ _ => exact absurd type (not_weakref is)
  | value is _ _ => exact absurd type (not_weakref is)
  | referent _ => exact referent

theorem not_part_self (finite : FiniteTree W objects o) : ¬Part W objects o o := by
  induction finite with
  | intro _ _ ih => exact fun self => ih _ self self

end FiniteTree

/-! ## The forms of values -/

variable (W) in
/-- The text of a value that needs no other, as the object that `ToString` answers. -/
def plain (o : LVObject) : Option LVObject :=
  match o.type with
  | .OT_STRING => some o
  | .OT_FLOAT => some (.string (W.floatText o))
  | .OT_INTEGER => some (.string (toString o.bits.toInt))
  | .OT_BOOL => some (.string (if o.bits ≠ 0 then "true" else "false"))
  | .OT_TABLE | .OT_ARRAY | .OT_WEAKREF | .OT_USERDATA | .OT_INSTANCE => none
  | type => some (.string ("(" ++ type.name ++ ")"))

/-- The first line of a table or an array. -/
def opening (type : LVObjectType) : String :=
  if type = .OT_TABLE then "(table) \x7b\n" else "(array) [\n"

def closing (type : LVObjectType) : String := if type = .OT_TABLE then "\x7d" else "]"

/-- What is written for an entry behind the indent. -/
def line (type : LVObjectType) (key rs : LVObject) : List LVObject :=
  if type = .OT_TABLE then [key, .string " = ", rs, .string ",\n"]
  else [.string "[", key, .string "] = ", rs, .string ",\n"]

/-- The text of an object without a usable `_tostring`. -/
def typeText (o : LVObject) : LVObject := .string ("(" ++ o.type.name ++ ")")

theorem form_cases (o : LVObject) :
    (∃ t, plain W o = some t) ∨ Container o ∨ o.type = .OT_WEAKREF ∨ HasTostring o := by
  cases type : o.type <;> simp [plain, Container, HasTostring, type]

variable {fuel ident : Nat}

theorem plain_string {t : LVObject} (text : plain W o = some t) : t.type = .OT_STRING := by
  rw [plain] at text
  cases type : o.type <;> simp only [type, Option.some.injEq, reduceCtorEq] at text
  all_goals
    subst text
    first
      | exact type
      | rfl

theorem toString_plain {t : LVObject} (text : plain W o = some t) :
    ToString W (fuel + 1) o ident = pure (some t) := by
  rw [plain] at text
  rw [ToString]
  cases type : o.type <;> simp only [type, Option.some.injEq, reduceCtorEq] at text
  all_goals
    subst text
    rfl

theorem toString_container (container : Container o) :
    ToString W (fuel + 1) o ident =
      ObjectM.container W (ToString W fuel · 0) (ToString W fuel · (ident + 1)) fuel o ident
        (opening o.type) (closing o.type) (line o.type) := by
  rw [ToString]
  rcases container with type | type
  · rw [type]
    rfl
  · rw [type]
    rfl

theorem toString_weakref (type : o.type = .OT_WEAKREF) :
    ToString W (fuel + 1) o ident = do
      let rs ← ToString W fuel (W.referent (← get).objects o) 0
      return some (← catAll (ToString W fuel · 0) [rs.getD .null]
        (.string "(weak reference) -> ")) := by
  rw [ToString, type]

theorem toString_object (object : HasTostring o) :
    ToString W (fuel + 1) o ident = do
      match delegateMetaMethod W (← get).objects o .MT_TOSTRING with
      | none => return some (typeText o)
      | some closure =>
        match ← callTostring W o closure with
        | none => return none
        | some res => return some (if res.type = .OT_STRING then res else typeText o) := by
  rw [ToString]
  rcases object with type | type
  · rw [type]
    simp only [typeText, type]
    rfl
  · rw [type]
    simp only [typeText, type]
    rfl

/-! ## What is answered -/

/-- What `ToString` always does: it answers strings, and a string is answered itself. -/
structure Texts (I : MetaVM Heap → Prop) (toStr : LVObject → ObjectM Heap (Option LVObject)) :
    Prop where
  text (o : LVObject) : Meets I (toStr o) fun r => ∀ t, r = some t → t.type = .OT_STRING
  string {o : LVObject} : o.type = .OT_STRING → Meets I (toStr o) (· = some o)

section

variable {I : MetaVM Heap → Prop} {toStr toStrIn : LVObject → ObjectM Heap (Option LVObject)}
  {obj str rs : LVObject} {pieces : List LVObject} {steps i : Nat}
  {line : LVObject → LVObject → List LVObject} {first last : String}

theorem stringCat_meets (texts : Texts I toStr) (str obj : LVObject) :
    Meets I (stringCatWith toStr str obj) fun r => ∀ t, r = some t → t.type = .OT_STRING := by
  refine (texts.text str).bind fun a _ => ?_
  cases a with
  | none => exact .pure nofun
  | some a =>
    refine (texts.text obj).bind fun b _ => ?_
    cases b with
    | none => exact .pure nofun
    | some b =>
      refine .pure fun t eq => ?_
      cases eq
      rfl

theorem getD_string {r : Option LVObject} (string : str.type = .OT_STRING)
    (text : ∀ t, r = some t → t.type = .OT_STRING) : (r.getD str).type = .OT_STRING := by
  cases r with
  | none => exact string
  | some t => exact text t rfl

theorem catAll_meets (texts : Texts I toStr) (string : str.type = .OT_STRING) :
    Meets I (catAll toStr pieces str) (·.type = .OT_STRING) := by
  induction pieces generalizing str with
  | nil => exact .pure string
  | cons piece pieces ih =>
    exact (stringCat_meets texts str piece).bind fun dest text => ih (getD_string string text)

theorem entries_meets (texts : Texts I toStr) (textsIn : Texts I toStrIn) (string : str.type = .OT_STRING) :
    Meets I (entries W toStr toStrIn o ident line steps i rs str) (·.type = .OT_STRING) := by
  induction steps generalizing i rs str with
  | zero => exact .failure
  | succ steps ih =>
    refine .read fun s _ => ?_
    split
    · exact .pure string
    · exact (textsIn.text _).bind fun rs _ => (catAll_meets texts string).bind fun str string =>
        ih string

theorem container_meets (texts : Texts I toStr) (textsIn : Texts I toStrIn) :
    Meets I (ObjectM.container W toStr toStrIn steps o ident first last line) fun r =>
      ∃ t, r = some t ∧ t.type = .OT_STRING :=
  (entries_meets texts textsIn rfl).bind fun _ string => .read fun _ _ =>
    (catAll_meets texts string).bind fun _ string => (catAll_meets texts string).bind fun t string =>
      .pure ⟨t, rfl, string⟩

/-! ## What has to end -/

theorem stringCat_mayEnd (texts : Texts I toStr) (string : str.type = .OT_STRING)
    (may : MayEnd I (stringCatWith toStr str obj)) : MayEnd I (toStr obj) := by
  obtain ⟨_, rfl, may⟩ := may.rest (texts.string string)
  exact may.first

theorem catAll_mayEnd (texts : Texts I toStr) (string : str.type = .OT_STRING)
    (may : MayEnd I (catAll toStr pieces str)) : ∀ piece ∈ pieces, MayEnd I (toStr piece) := by
  induction pieces generalizing str with
  | nil => exact fun piece mem => absurd mem List.not_mem_nil
  | cons piece pieces ih =>
    obtain ⟨dest, text, rest⟩ := may.rest (stringCat_meets texts str piece)
    refine List.forall_mem_cons.mpr ⟨stringCat_mayEnd texts string may.first, ?_⟩
    exact ih (getD_string string text) rest

/-- The loop can only end after the last entry, when every key and value has been text. -/
theorem entries_mayEnd (same : ∀ s, I s → W.next s.objects = W.next objects)
    (texts : Texts I toStr) (textsIn : Texts I toStrIn) (string : str.type = .OT_STRING)
    (keys : ∀ key rs, key ∈ line key rs)
    (may : MayEnd I (entries W toStr toStrIn o ident line steps i rs str)) :
    ∃ l, Lists W objects o i l ∧ ∀ e ∈ l, MayEnd I (toStr e.1) ∧ MayEnd I (toStrIn e.2) := by
  induction steps generalizing i rs str with
  | zero =>
    obtain ⟨s, -, r, run⟩ := may
    cases run
  | succ steps ih =>
    obtain ⟨s, start, may⟩ := may.read
    rw [same s start] at may
    cases next : W.next objects o i with
    | none => exact ⟨[], .done next, fun e mem => absurd mem List.not_mem_nil⟩
    | some entry =>
      obtain ⟨i', key, val⟩ := entry
      rw [next] at may
      obtain ⟨rs', -, catting⟩ := may.rest (textsIn.text val)
      obtain ⟨str', string', rest⟩ := catting.rest (catAll_meets texts string)
      obtain ⟨l, lists, each⟩ := ih string' rest
      refine ⟨(key, val) :: l, .entry next lists, List.forall_mem_cons.mpr ⟨⟨?_, may.first⟩, each⟩⟩
      exact catAll_mayEnd texts string catting.first key (List.mem_append_right _ (keys key _))

theorem stringCat_ends (texts : Texts I toStr) (first : Ends I (toStr str))
    (second : Ends I (toStr obj)) : Ends I (stringCatWith toStr str obj) := by
  refine first.bind (texts.text str) fun a _ => ?_
  cases a with
  | none => exact .pure _
  | some a =>
    refine second.bind (texts.text obj) fun b _ => ?_
    cases b with
    | none => exact .pure _
    | some b => exact .pure _

theorem catAll_ends (texts : Texts I toStr) (strings : ∀ o, o.type = .OT_STRING → Ends I (toStr o))
    (string : str.type = .OT_STRING) (ends : ∀ piece ∈ pieces, Ends I (toStr piece)) :
    Ends I (catAll toStr pieces str) := by
  induction pieces generalizing str with
  | nil => exact .pure _
  | cons piece pieces ih =>
    obtain ⟨here, rest⟩ := List.forall_mem_cons.mp ends
    refine (stringCat_ends texts (strings str string) here).bind (stringCat_meets texts str piece) ?_
    exact fun dest text => ih (getD_string string text) rest

/-- The loop ends when there are more steps than entries and all that is in them ends. -/
theorem entries_ends (same : ∀ s, I s → W.next s.objects = W.next objects)
    (texts : Texts I toStr) (textsIn : Texts I toStrIn) (string : str.type = .OT_STRING)
    (strings : ∀ o, o.type = .OT_STRING → Ends I (toStr o))
    (pieces : ∀ key rs, ∀ piece ∈ line key rs, piece = key ∨ piece = rs ∨ piece.type = .OT_STRING)
    {l : List (LVObject × LVObject)} (lists : Lists W objects o i l) (few : l.length < steps)
    (ends : ∀ e ∈ l, Ends I (toStr e.1) ∧ Ends I (toStrIn e.2)) (last : Ends I (toStr rs)) :
    Ends I (entries W toStr toStrIn o ident line steps i rs str) := by
  induction steps generalizing i rs str l with
  | zero => cases few
  | succ steps ih =>
    refine .read fun s start => ?_
    rw [same s start]
    cases lists with
    | done next =>
      rw [next]
      exact .pure _
    | @entry _ i' key val l next rest =>
      rw [next]
      obtain ⟨⟨keyEnds, valEnds⟩, others⟩ := List.forall_mem_cons.mp ends
      refine valEnds.bind (textsIn.text val) fun r text => ?_
      have lastEnds : Ends I (toStr (r.getD rs)) := by
        cases r with
        | none => exact last
        | some t => exact strings t (text t rfl)
      refine Ends.bind (catAll_ends texts strings string fun piece mem => ?_)
        (catAll_meets texts string) fun str string => ?_
      · rcases List.mem_append.mp mem with mem | mem
        · rw [List.eq_of_mem_replicate mem]
          exact strings _ rfl
        · rcases pieces _ _ piece mem with rfl | rfl | string
          · exact keyEnds
          · exact lastEnds
          · exact strings piece string
      · exact ih string rest (Nat.lt_of_succ_lt_succ few) others lastEnds

theorem strings_end (strings : ∀ o, o.type = .OT_STRING → Ends I (toStr o)) {n : Nat}
    {extra : List LVObject} (each : ∀ piece ∈ extra, piece.type = .OT_STRING) :
    ∀ piece ∈ indent n ++ extra, Ends I (toStr piece) := by
  intro piece mem
  rcases List.mem_append.mp mem with mem | mem
  · rw [List.eq_of_mem_replicate mem]
    exact strings _ rfl
  · exact strings piece (each piece mem)

theorem container_ends (same : ∀ s, I s → W.next s.objects = W.next objects)
    (texts : Texts I toStr) (textsIn : Texts I toStrIn)
    (strings : ∀ o, o.type = .OT_STRING → Ends I (toStr o))
    (pieces : ∀ key rs, ∀ piece ∈ line key rs, piece = key ∨ piece = rs ∨ piece.type = .OT_STRING)
    {l : List (LVObject × LVObject)} (lists : Lists W objects o 0 l) (few : l.length < steps)
    (ends : ∀ e ∈ l, Ends I (toStr e.1) ∧ Ends I (toStrIn e.2)) (null : Ends I (toStr .null)) :
    Ends I (ObjectM.container W toStr toStrIn steps o ident first last line) := by
  refine Ends.bind (entries_ends same texts textsIn rfl strings pieces lists few ends null)
    (entries_meets texts textsIn rfl) fun str string => .read fun s _ => ?_
  refine Ends.bind (catAll_ends texts strings string ?_) (catAll_meets texts string)
    fun str string => ?_
  · split
    · exact strings_end strings (by simp [LVObject.string])
    · simp
  · exact Ends.bind (catAll_ends texts strings string
      (strings_end strings (by simp [LVObject.string]))) (catAll_meets texts string)
      fun t _ => .pure _

end

theorem toString_texts (keeps : TostringKeeps W objects) (fuel ident : Nat) :
    Texts (Holding W objects) (ToString W fuel · ident) := by
  induction fuel generalizing ident with
  | zero => exact ⟨fun o => .failure, fun _ => .failure⟩
  | succ fuel ih =>
    refine ⟨fun o => ?_, fun {o} string => ?_⟩
    · show Meets _ (ToString W (fuel + 1) o ident) _
      rcases form_cases o with ⟨t, text⟩ | container | type | object
      · rw [toString_plain text]
        refine .pure fun t' same => ?_
        cases same
        exact plain_string text
      · rw [toString_container container]
        refine (container_meets (ih 0) (ih (ident + 1))).mono fun r some t eq => ?_
        obtain ⟨t', eq', string⟩ := some
        cases eq'.symm.trans eq
        exact string
      · rw [toString_weakref type]
        refine .read fun s _ => ((ih 0).text _).bind fun rs _ => ?_
        refine (catAll_meets (ih 0) rfl).bind fun t string => .pure fun t' same => ?_
        cases same
        exact string
      · rw [toString_object object]
        refine .read fun s here => ?_
        rw [here.tostring o]
        cases method : delegateMetaMethod W objects o .MT_TOSTRING with
        | none =>
          refine .pure fun t same => ?_
          cases same
          rfl
        | some closure =>
          refine (keeps o closure method).bind fun r _ => ?_
          cases r with
          | none => exact .pure nofun
          | some res =>
            refine .pure fun t same => ?_
            cases same
            split
            · assumption
            · rfl
    · have text : plain W o = some o := by rw [plain, string]
      show Meets _ (ToString W (fuel + 1) o ident) _
      rw [toString_plain text]
      exact .pure rfl

theorem line_key (type : LVObjectType) (key rs : LVObject) : key ∈ line type key rs := by
  rw [line]
  split <;> simp

theorem line_piece (type : LVObjectType) (key rs : LVObject) :
    ∀ piece ∈ line type key rs, piece = key ∨ piece = rs ∨ piece.type = .OT_STRING := by
  rw [line]
  split <;> simp [LVObject.string]

/-- Only what is a finite tree can become text. -/
theorem finiteTree_of_mayEnd (keeps : TostringKeeps W objects)
    (may : MayEnd (Holding W objects) (ToString W fuel o ident)) : FiniteTree W objects o := by
  induction fuel generalizing o ident with
  | zero =>
    obtain ⟨s, -, r, run⟩ := may
    cases run
  | succ fuel ih =>
    have texts := toString_texts keeps fuel
    by_cases container : Container o
    · rw [toString_container container] at may
      obtain ⟨l, lists, each⟩ := entries_mayEnd (fun s here => here.next) (texts 0)
        (texts (ident + 1)) rfl (line_key o.type) may.first
      refine .of_lists container lists fun e mem => ?_
      exact ⟨ih (each e mem).1, ih (each e mem).2⟩
    · by_cases type : o.type = .OT_WEAKREF
      · rw [toString_weakref type] at may
        obtain ⟨s, here, may⟩ := may.read
        rw [here.referent] at may
        exact .of_referent type (ih may.first)
      · exact .leaf container type

/-! ## The fuel -/

section

variable {toStr toStr' toStrIn toStrIn' : LVObject → ObjectM Heap (Option LVObject)}
  {steps more i : Nat} {line : LVObject → LVObject → List LVObject}

theorem stringCat_extends (text : ∀ o, Extends (toStr o) (toStr' o)) (str obj : LVObject) :
    Extends (stringCatWith toStr str obj) (stringCatWith toStr' str obj) := by
  refine (text str).bind fun a => ?_
  cases a with
  | none => exact .refl _
  | some a => exact (text obj).bind fun b => .refl _

theorem catAll_extends (text : ∀ o, Extends (toStr o) (toStr' o)) (pieces : List LVObject)
    (str : LVObject) : Extends (catAll toStr pieces str) (catAll toStr' pieces str) := by
  induction pieces generalizing str with
  | nil => exact .refl _
  | cons piece pieces ih => exact (stringCat_extends text str piece).bind fun dest => ih _

theorem entries_extends (text : ∀ o, Extends (toStr o) (toStr' o))
    (textIn : ∀ o, Extends (toStrIn o) (toStrIn' o)) (le : steps ≤ more) (rs str : LVObject) :
    Extends (entries W toStr toStrIn o ident line steps i rs str)
      (entries W toStr' toStrIn' o ident line more i rs str) := by
  induction steps generalizing more i rs str with
  | zero => exact .failure _
  | succ steps ih =>
    obtain ⟨more, rfl⟩ := Nat.exists_eq_add_of_lt le
    refine (Extends.refl get).bind fun s => ?_
    cases W.next s.objects o i with
    | none => exact .refl _
    | some entry =>
      refine (textIn _).bind fun rs => (catAll_extends text _ str).bind fun str => ?_
      exact ih (by omega) _ str

theorem toString_extends (le : fuel ≤ more) (o : LVObject) (ident : Nat) :
    Extends (ToString W fuel o ident) (ToString W more o ident) := by
  induction fuel generalizing more o ident with
  | zero => exact .failure _
  | succ fuel ih =>
    obtain ⟨more, rfl⟩ : ∃ m, more = m + 1 := ⟨more - 1, by omega⟩
    have le := Nat.le_of_succ_le_succ le
    have text := fun o => ih le o 0
    rcases form_cases (W := W) o with ⟨t, plain⟩ | container | type | object
    · rw [toString_plain plain, toString_plain plain]
      exact .refl _
    · rw [toString_container container, toString_container container]
      refine (entries_extends text (fun o => ih le o _) le _ _).bind fun str => ?_
      refine (Extends.refl get).bind fun s => (catAll_extends text _ str).bind fun str => ?_
      exact (catAll_extends text _ str).bind fun t => .refl _
    · rw [toString_weakref type, toString_weakref type]
      refine (Extends.refl get).bind fun s => (text _).bind fun rs => ?_
      exact (catAll_extends text _ _).bind fun t => .refl _
    · rw [toString_object object, toString_object object]
      exact .refl _

end

/-! ## Termination -/

theorem callTostring_ends (I : MetaVM Heap → Prop) (o closure : LVObject) :
    Ends I (callTostring W o closure) := fun _ _ => ⟨_, rfl⟩

theorem ends_plain {t : LVObject} {I : MetaVM Heap → Prop} (text : plain W o = some t) :
    Ends I (ToString W (fuel + 1) o ident) := by
  rw [toString_plain text]
  exact .pure _

theorem strings_enough (string : o.type = .OT_STRING) (I : MetaVM Heap → Prop) :
    Ends I (ToString W (fuel + 1) o ident) := by
  have text : plain W o = some o := by rw [plain, string]
  exact ends_plain text

/-- With some fuel the text of an object is found at every indent. -/
def Enough (W : Objects Heap) (objects : Heap) (o : LVObject) (fuel : Nat) : Prop :=
  ∀ ident, Ends (Holding W objects) (ToString W fuel o ident)

theorem Enough.mono {more : Nat} (enough : Enough W objects o fuel) (le : fuel ≤ more) :
    Enough W objects o more :=
  fun ident => (enough ident).extends_ (toString_extends le o ident)

theorem exists_enough_of_mem {l : List (LVObject × LVObject)}
    (each : ∀ e ∈ l, (∃ n, Enough W objects e.1 n) ∧ ∃ n, Enough W objects e.2 n) :
    ∃ n, ∀ e ∈ l, Enough W objects e.1 n ∧ Enough W objects e.2 n := by
  induction l with
  | nil => exact ⟨0, fun e mem => absurd mem List.not_mem_nil⟩
  | cons e l ih =>
    obtain ⟨⟨⟨a, key⟩, b, value⟩, rest⟩ := List.forall_mem_cons.mp each
    obtain ⟨n, others⟩ := ih rest
    refine ⟨a + b + n, List.forall_mem_cons.mpr ⟨?_, fun e' mem => ?_⟩⟩
    · exact ⟨key.mono (by omega), value.mono (by omega)⟩
    · exact ⟨(others e' mem).1.mono (by omega), (others e' mem).2.mono (by omega)⟩

theorem exists_enough (keeps : TostringKeeps W objects) (finite : FiniteTree W objects o) :
    ∃ fuel, Enough W objects o fuel := by
  induction finite with
  | @intro o lists _ ih =>
    rcases form_cases (W := W) o with ⟨t, text⟩ | container | type | object
    · exact ⟨1, fun ident => ends_plain text⟩
    · obtain ⟨l, lists⟩ := lists container
      obtain ⟨n, each⟩ := exists_enough_of_mem fun e mem =>
        ⟨ih e.1 (.key container lists mem), ih e.2 (.value container lists mem)⟩
      refine ⟨n + l.length + 1 + 1, fun ident => ?_⟩
      have texts := toString_texts keeps (n + l.length + 1)
      rw [toString_container container]
      refine container_ends (fun s here => here.next) (texts 0) (texts (ident + 1))
        (fun o string => strings_enough string _) (line_piece o.type) lists (by omega)
        (fun e mem => ?_) (ends_plain rfl)
      exact ⟨((each e mem).1.mono (by omega)) 0, ((each e mem).2.mono (by omega)) _⟩
    · obtain ⟨n, enough⟩ := ih _ (.referent type)
      refine ⟨n + 1 + 1, fun ident => ?_⟩
      have texts := toString_texts keeps (n + 1)
      have strings : ∀ o : LVObject, o.type = .OT_STRING →
          Ends (Holding W objects) (ToString W (n + 1) o 0) := fun o string =>
        strings_enough string _
      rw [toString_weakref type]
      refine .read fun s here => ?_
      rw [here.referent]
      refine (enough.mono (Nat.le_succ n) 0).bind ((texts 0).text _) fun rs text => ?_
      refine Ends.bind (catAll_ends (texts 0) strings rfl fun piece mem => ?_)
        (catAll_meets (texts 0) rfl) fun t _ => .pure _
      rw [List.mem_singleton.mp mem]
      cases rs with
      | none => exact ends_plain rfl
      | some t => exact strings t (text t rfl)
    · refine ⟨1, fun ident => ?_⟩
      rw [toString_object object]
      refine .read fun s here => ?_
      rw [here.tostring o]
      cases method : delegateMetaMethod W objects o .MT_TOSTRING with
      | none => exact .pure _
      | some closure =>
        refine (callTostring_ends _ o closure).bind (keeps o closure method) fun r _ => ?_
        cases r with
        | none => exact .pure _
        | some res => exact .pure _

/-- `ToString` gives an answer, and so does concatenation with a string. -/
structure Terminates (W : Objects Heap) (s : MetaVM Heap) (o : LVObject) : Prop where
  toString (ident : Nat) : ∃ fuel r, ToString W fuel o ident s = some r
  before (text : String) : ∃ fuel r, StringCat W fuel (.string text) o s = some r
  after (text : String) : ∃ fuel r, StringCat W fuel o (.string text) s = some r

/-- Text is made of exactly the finite trees. -/
theorem toString_terminates_iff {s : MetaVM Heap} (keeps : TostringKeeps W s.objects) :
    Terminates W s o ↔ FiniteTree W s.objects o := by
  have here : Holding W s.objects s := .refl W s.objects
  constructor
  · intro terminates
    obtain ⟨fuel, r, run⟩ := terminates.toString 0
    exact finiteTree_of_mayEnd keeps ⟨s, here, r, run⟩
  · intro finite
    obtain ⟨n, enough⟩ := exists_enough keeps finite
    have texts := toString_texts keeps (n + 1) 0
    have ends := enough.mono (Nat.le_succ n) 0
    have string (text : String) : Ends (Holding W s.objects) (ToString W (n + 1) (.string text) 0) :=
      ends_plain rfl
    refine ⟨fun ident => ⟨n, enough ident s here⟩, fun text => ⟨n + 1, ?_⟩, fun text => ⟨n + 1, ?_⟩⟩
    · exact stringCat_ends texts (string text) ends s here
    · exact stringCat_ends texts ends (string text) s here

/-- Objects without metamethods, with `members` as the only entries. -/
def holding (members : LVObject → Nat → Option (Nat × LVObject × LVObject)) : Objects Unit :=
  { answering none with
    next := fun _ => members
    getMetaMethod := fun _ _ _ => none }

theorem holding_keeps (members : LVObject → Nat → Option (Nat × LVObject × LVObject)) :
    TostringKeeps (holding members) () := by
  intro o closure method
  cases method

/-- An array with the number 1. -/
def one : LVObject → Nat → Option (Nat × LVObject × LVObject)
  | _, 0 => some (1, .integer 0, .integer 1)
  | _, _ + 1 => none

theorem toString_terminates_one : Terminates (holding one) emptyVM (.ref .OT_ARRAY 5) := by
  refine (toString_terminates_iff (holding_keeps one)).mpr ?_
  refine .of_lists (.inr rfl) (.entry rfl (.done rfl)) fun e mem => ?_
  rw [List.mem_singleton.mp mem]
  exact ⟨.leaf (by decide) (by decide), .leaf (by decide) (by decide)⟩

/-- Arrays that hold themselves. -/
def itself : LVObject → Nat → Option (Nat × LVObject × LVObject)
  | o, 0 => some (1, .integer 0, o)
  | _, _ + 1 => none

theorem array_of_itself_circles :
    ¬∀ (Heap : Type) (W : Objects Heap) (s : MetaVM Heap) (o : LVObject),
      TostringKeeps W s.objects → Terminates W s o := by
  intro terminates
  obtain ⟨fuel, r, run⟩ := (terminates Unit (holding itself) emptyVM (.ref .OT_ARRAY 5)
    (holding_keeps itself)).toString 0
  have tree := finiteTree_of_mayEnd (holding_keeps itself) ⟨emptyVM, .refl _ _, r, run⟩
  have self : Part (holding itself) () (.ref .OT_ARRAY 5) (.ref .OT_ARRAY 5) :=
    .value (.inr rfl) (.entry rfl (.done rfl)) (List.mem_singleton.mpr rfl)
  exact tree.not_part_self self

end Lavril.ObjectM
