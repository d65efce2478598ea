import Lavril.Rendering
import Mathlib.Data.List.Forall2

/-!
# The text of tables and arrays

The text of a table or an array shows every entry as it is to be exactly if no `_tostring`
metamethod fails for a part of it: when one does, the text of the entry before is shown.
-/

namespace Lavril.ObjectM

open Invariance Relation

variable {Heap : Type} (W : Objects Heap)

/-- The `_tostring` metamethods leave what is stored, and for each object have one answer,
which is none when they fail. -/
def Steady (objects : Heap) (answer : LVObject → Option LVObject) : Prop :=
  ∀ o closure, delegateMetaMethod W objects o .MT_TOSTRING = some closure →
    Meets (Holding W objects) (callTostring W o closure) (· = answer o)

def Fails (objects : Heap) (answer : LVObject → Option LVObject) (o : LVObject) : Prop :=
  HasTostring o ∧ (delegateMetaMethod W objects o .MT_TOSTRING).isSome ∧ answer o = none

def pad (n : Nat) : String := String.join (List.replicate n "  ")

def entryText (type : LVObjectType) (key value : String) : String :=
  if type = .OT_TABLE then key ++ " = " ++ value ++ ",\n" else "[" ++ key ++ "] = " ++ value ++ ",\n"

/-- The text of a table or an array with the texts of its keys and values. -/
def containerText (type : LVObjectType) (ident : Nat) (empty : Bool)
    (entries : List (String × String)) : String :=
  opening type ++ String.join (entries.map fun e => pad (ident + 1) ++ entryText type e.1 e.2) ++
    (if empty then pad (ident + 1) ++ "(empty)\n" else "") ++ pad ident ++ closing type

/-- The text that shows an object and all its parts. There is none when a `_tostring`
metamethod fails. -/
inductive Renders (objects : Heap) (answer : LVObject → Option LVObject) :
    LVObject → Nat → String → Prop where
  | plain {o ident t} : plain W o = some t → Renders objects answer o ident t.text
  | container {o ident l} {key value : LVObject × LVObject → String} :
      Container o → Lists W objects o 0 l →
      (∀ e ∈ l, Renders objects answer e.1 0 (key e)) →
      (∀ e ∈ l, Renders objects answer e.2 (ident + 1) (value e)) →
      Renders objects answer o ident (containerText o.type ident (W.count objects o = 0)
        (l.map fun e => (key e, value e)))
  | referent {o ident text} : o.type = .OT_WEAKREF →
      Renders objects answer (W.referent objects o) 0 text →
      Renders objects answer o ident ("(weak reference) -> " ++ text)
  | bare {o ident} : HasTostring o → delegateMetaMethod W objects o .MT_TOSTRING = none →
      Renders objects answer o ident (typeText o).text
  | tostring {o ident res} : HasTostring o →
      (delegateMetaMethod W objects o .MT_TOSTRING).isSome → answer o = some res →
      Renders objects answer o ident (if res.type = .OT_STRING then res else typeText o).text

/-- `ToString` of a table or an array comes back, and answers nothing or a text that shows all
entries. -/
structure ShowsEntries (answer : LVObject → Option LVObject) (s : MetaVM Heap) (o : LVObject)
    (ident : Nat) : Prop where
  returns : ∃ fuel r, ToString W fuel o ident s = some r
  shows {fuel r} : ToString W fuel o ident s = some r →
    r.1 = none ∨ ∃ t, r.1 = some t ∧ Renders W s.objects answer o ident t.text

variable {W} {objects : Heap} {answer : LVObject → Option LVObject} {o v : LVObject}
  {fuel ident : Nat} {text : String}

theorem Steady.keeps (steady : Steady W objects answer) : TostringKeeps W objects :=
  fun o closure method => (steady o closure method).mono fun _ _ => trivial

theorem HasTostring.not_container (object : HasTostring o) : ¬Container o := by
  rcases object with type | type <;> simp [Container, type]

theorem HasTostring.not_weakref (object : HasTostring o) : o.type ≠ .OT_WEAKREF := by
  rcases object with type | type <;> simp [type]

theorem plain_none (object : Container o ∨ o.type = .OT_WEAKREF ∨ HasTostring o) :
    plain W o = none := by
  rcases object with (type | type) | type | type | type <;> simp [plain, type]

/-- An object without parts is shown unless its metamethod fails. -/
theorem Part.not_plain {part : LVObject} (is : Part W objects part o) : plain W o = none := by
  cases is with
  | key container _ _ => exact plain_none (.inl container)
  | value container _ _ => exact plain_none (.inl container)
  | referent type => exact plain_none (.inr (.inl type))

theorem Part.not_object {part : LVObject} (is : Part W objects part o) : ¬HasTostring o := by
  intro object
  cases is with
  | key container _ _ => exact object.not_container container
  | value container _ _ => exact object.not_container container
  | referent type => exact object.not_weakref type

theorem Renders.part {part : LVObject} (renders : Renders W objects answer o ident text)
    (is : Part W objects part o) : ∃ ident text, Renders W objects answer part ident text := by
  cases renders with
  | plain text => cases is.not_plain.symm.trans text
  | container container lists keys values =>
    cases is with
    | key _ lists' mem => exact ⟨_, _, keys _ (lists'.unique lists ▸ mem)⟩
    | value _ lists' mem => exact ⟨_, _, values _ (lists'.unique lists ▸ mem)⟩
    | referent type => exact absurd type (not_weakref container)
  | referent type renders =>
    cases is with
    | key container _ _ => exact absurd type (not_weakref container)
    | value container _ _ => exact absurd type (not_weakref container)
    | referent _ => exact ⟨_, _, renders⟩
  | bare object _ => exact absurd object is.not_object
  | tostring object _ _ => exact absurd object is.not_object

theorem Renders.not_fails (renders : Renders W objects answer o ident text) :
    ¬Fails W objects answer o := by
  rintro ⟨object, method, none⟩
  cases renders with
  | plain text => cases (plain_none (.inr (.inr object))).symm.trans text
  | container container _ _ _ => exact object.not_container container
  | referent type _ => exact object.not_weakref type
  | bare _ missing =>
    rw [missing] at method
    cases method
  | tostring _ _ some => cases none.symm.trans some

/-- What is shown has no part that fails. -/
theorem Renders.none_fails (renders : Renders W objects answer o ident text)
    (below : ReflTransGen (Part W objects) v o) : ¬Fails W objects answer v := by
  induction below generalizing ident text with
  | refl => exact renders.not_fails
  | tail _ is ih =>
    obtain ⟨_, _, renders⟩ := renders.part is
    exact ih renders

/-- A finite tree is shown when none of its parts fails. -/
theorem exists_renders (finite : FiniteTree W objects o)
    (fine : ∀ v, ReflTransGen (Part W objects) v o → ¬Fails W objects answer v) (ident : Nat) :
    ∃ text, Renders W objects answer o ident text := by
  induction finite generalizing ident with
  | @intro o lists _ ih =>
    have parts : ∀ part, Part W objects part o → ∀ ident,
        ∃ text, Renders W objects answer part ident text := fun part is =>
      ih part is fun v below => fine v (below.tail is)
    rcases form_cases (W := W) o with ⟨t, text⟩ | container | type | object
    · exact ⟨t.text, .plain text⟩
    · obtain ⟨l, lists⟩ := lists container
      choose! key keys using fun e (mem : e ∈ l) => parts e.1 (.key container lists mem) 0
      choose! value values using fun e (mem : e ∈ l) =>
        parts e.2 (.value container lists mem) (ident + 1)
      exact ⟨_, .container container lists keys values⟩
    · obtain ⟨text, renders⟩ := parts _ (.referent type) 0
      exact ⟨_, .referent type renders⟩
    · cases method : delegateMetaMethod W objects o .MT_TOSTRING with
      | none => exact ⟨_, .bare object method⟩
      | some closure =>
        cases answered : answer o with
        | none => exact absurd ⟨object, by rw [method]; rfl, answered⟩ (fine o .refl)
        | some res => exact ⟨_, .tostring object (by rw [method]; rfl) answered⟩

/-! ## What is written -/

/-- The text of an object is `text`, if it ends. -/
def Spells (I : MetaVM Heap → Prop) (toStr : LVObject → ObjectM Heap (Option LVObject))
    (o : LVObject) (text : String) : Prop :=
  Meets I (toStr o) fun r => ∃ t, r = some t ∧ t.type = .OT_STRING ∧ t.text = text

section

variable {I : MetaVM Heap → Prop} {toStr toStrIn : LVObject → ObjectM Heap (Option LVObject)}
  {str rs : LVObject} {steps i : Nat}

theorem Texts.spells (texts : Texts I toStr) (string : o.type = .OT_STRING) :
    Spells I toStr o o.text := by
  refine (texts.string string).mono fun r eq => ?_
  exact ⟨o, eq, string, rfl⟩

theorem catAll_spells (texts : Texts I toStr) {pieces : List LVObject} {written : List String}
    (string : str.type = .OT_STRING) (each : List.Forall₂ (Spells I toStr) pieces written) :
    Meets I (catAll toStr pieces str) fun t =>
      t.type = .OT_STRING ∧ t.text = str.text ++ String.join written := by
  induction each generalizing str with
  | nil => exact .pure ⟨string, by simp⟩
  | @cons piece text pieces written spells _ ih =>
    have step : Meets I (stringCatWith toStr str piece) (· = some (.string (str.text ++ text))) := by
      refine (texts.string string).bind ?_
      rintro _ rfl
      refine Meets.bind spells ?_
      rintro _ ⟨t, rfl, -, rfl⟩
      exact .pure rfl
    refine step.bind ?_
    rintro _ rfl
    refine (ih rfl).mono fun t done => ⟨done.1, ?_⟩
    rw [done.2, String.join_cons, ← String.append_assoc]
    rfl

theorem indent_spells (texts : Texts I toStr) (n : Nat) :
    List.Forall₂ (Spells I toStr) (indent n) (List.replicate n "  ") := by
  induction n with
  | zero => exact .nil
  | succ n ih => exact .cons (texts.spells rfl) ih

def lineTexts (type : LVObjectType) (key value : String) : List String :=
  if type = .OT_TABLE then [key, " = ", value, ",
"] else ["[", key, "] = ", value, ",
"]

theorem join_lineTexts (type : LVObjectType) (key value : String) :
    String.join (lineTexts type key value) = entryText type key value := by
  rw [lineTexts, entryText]
  split <;> simp [String.append_assoc]

theorem line_spells (texts : Texts I toStr) (type : LVObjectType) {key : LVObject} {keyText : String}
    (spells : Spells I toStr key keyText) (string : rs.type = .OT_STRING) :
    List.Forall₂ (Spells I toStr) (line type key rs) (lineTexts type keyText rs.text) := by
  have text (t : String) : Spells I toStr (.string t) t := texts.spells rfl
  rw [line, lineTexts]
  split
  · exact .cons spells (.cons (text _) (.cons (texts.spells string) (.cons (text _) .nil)))
  · exact .cons (text _) (.cons spells (.cons (text _) (.cons (texts.spells string)
      (.cons (text _) .nil))))

theorem entries_spells (same : ∀ s, I s → W.next s.objects = W.next objects)
    (texts : Texts I toStr) (string : str.type = .OT_STRING) {type : LVObjectType}
    {l : List (LVObject × LVObject)} {key value : LVObject × LVObject → String}
    (lists : Lists W objects o i l) (keys : ∀ e ∈ l, Spells I toStr e.1 (key e))
    (values : ∀ e ∈ l, Spells I toStrIn e.2 (value e)) :
    Meets I (entries W toStr toStrIn o ident (line type) steps i rs str) fun t =>
      t.type = .OT_STRING ∧ t.text = str.text ++
        String.join (l.map fun e => pad (ident + 1) ++ entryText type (key e) (value e)) := by
  induction steps generalizing i rs str l with
  | zero => exact .failure
  | succ steps ih =>
    refine .read fun s here => ?_
    rw [same s here]
    cases lists with
    | done next =>
      rw [next]
      exact .pure ⟨string, by simp⟩
    | @entry _ i' k v l next rest =>
      rw [next]
      obtain ⟨keyHere, keys⟩ := List.forall_mem_cons.mp keys
      obtain ⟨valueHere, values⟩ := List.forall_mem_cons.mp values
      refine Meets.bind valueHere ?_
      rintro _ ⟨t, rfl, stringIn, textIn⟩
      refine (catAll_spells texts string (List.rel_append (indent_spells texts (ident + 1))
        (line_spells texts type keyHere stringIn))).bind fun str' done => ?_
      refine (ih done.1 rest keys values).mono fun t finish => ⟨finish.1, ?_⟩
      rw [finish.2, done.2, String.join_append, join_lineTexts, textIn, List.map_cons,
        String.join_cons]
      simp only [pad, String.append_assoc]

theorem container_spells (same : ∀ s, I s → W.next s.objects = W.next objects)
    (sameCount : ∀ s, I s → W.count s.objects = W.count objects)
    (texts : Texts I toStr) {type : LVObjectType}
    {l : List (LVObject × LVObject)} {key value : LVObject × LVObject → String}
    (lists : Lists W objects o 0 l) (keys : ∀ e ∈ l, Spells I toStr e.1 (key e))
    (values : ∀ e ∈ l, Spells I toStrIn e.2 (value e)) :
    Meets I (ObjectM.container W toStr toStrIn steps o ident (opening type) (closing type)
      (line type)) fun r => ∃ t, r = some t ∧ t.type = .OT_STRING ∧
        t.text = containerText type ident (W.count objects o = 0)
          (l.map fun e => (key e, value e)) := by
  refine (entries_spells same texts rfl lists keys values).bind fun str done => ?_
  refine .read fun s here => ?_
  rw [sameCount s here]
  have empty : List.Forall₂ (Spells I toStr)
      (if W.count objects o = 0 then indent (ident + 1) ++ [.string "(empty)\n"] else [])
      (if W.count objects o = 0 then List.replicate (ident + 1) "  " ++ ["(empty)\n"] else []) := by
    split
    · exact List.rel_append (indent_spells texts _) (.cons (texts.spells rfl) .nil)
    · exact .nil
  refine (catAll_spells texts done.1 empty).bind fun str' done' => ?_
  refine (catAll_spells texts done'.1 (List.rel_append (indent_spells texts ident)
    (.cons (texts.spells rfl) .nil))).bind fun t finish => .pure ⟨t, rfl, finish.1, ?_⟩
  rw [finish.2, done'.2, done.2, containerText, List.map_map]
  by_cases none : W.count objects o = 0
  · rw [if_pos none, if_pos (decide_eq_true none)]
    simp [pad, LVObject.string, LVObject.text, Function.comp_def, String.append_assoc]
  · rw [if_neg none, if_neg (by simpa using none)]
    simp [pad, LVObject.string, LVObject.text, Function.comp_def, String.append_assoc]

end

/-- Whatever shows an object is what `ToString` answers when it comes back. -/
theorem Renders.spells (steady : Steady W objects answer) (fuel : Nat)
    (renders : Renders W objects answer o ident text) :
    Spells (Holding W objects) (ToString W fuel · ident) o text := by
  induction fuel generalizing o ident text with
  | zero => exact .failure
  | succ fuel ih =>
    have texts := toString_texts steady.keeps fuel 0
    cases renders with
    | plain plain =>
      show Meets _ (ToString W (fuel + 1) o ident) _
      rw [toString_plain plain]
      exact .pure ⟨_, rfl, plain_string plain, rfl⟩
    | container container lists keys values =>
      show Meets _ (ToString W (fuel + 1) o ident) _
      rw [toString_container container]
      exact container_spells (fun s here => here.next) (fun s here => here.count) texts lists
        (fun e mem => ih (keys e mem)) fun e mem => ih (values e mem)
    | @referent _ _ text type renders =>
      show Meets _ (ToString W (fuel + 1) o ident) _
      rw [toString_weakref type]
      refine .read fun s here => ?_
      rw [here.referent]
      refine Meets.bind (ih renders) ?_
      rintro _ ⟨t, rfl, string, rfl⟩
      refine (catAll_spells texts rfl (.cons (texts.spells string) .nil)).bind fun t' done => ?_
      refine .pure ⟨t', rfl, done.1, ?_⟩
      rw [done.2, String.join_cons, String.join_nil, String.append_empty]
      rfl
    | bare object missing =>
      show Meets _ (ToString W (fuel + 1) o ident) _
      rw [toString_object object]
      refine .read fun s here => ?_
      rw [here.tostring o, missing]
      exact .pure ⟨_, rfl, rfl, rfl⟩
    | tostring object method answered =>
      obtain ⟨closure, found⟩ := Option.isSome_iff_exists.mp method
      show Meets _ (ToString W (fuel + 1) o ident) _
      rw [toString_object object]
      refine .read fun s here => ?_
      rw [here.tostring o, found]
      refine (steady o closure found).bind ?_
      rintro _ rfl
      rw [answered]
      refine .pure ⟨_, rfl, ?_, rfl⟩
      split
      · assumption
      · rfl

theorem container_answers (keeps : TostringKeeps W objects) (container : Container o) :
    Meets (Holding W objects) (ToString W fuel o ident) fun r => r ≠ none := by
  cases fuel with
  | zero => exact .failure
  | succ fuel =>
    have texts := toString_texts keeps fuel
    rw [toString_container container]
    refine (container_meets (texts 0) (texts (ident + 1))).mono fun r some => ?_
    obtain ⟨t, rfl, -⟩ := some
    exact Option.some_ne_none t

/-- A finite table or array is shown entry by entry exactly if no part of it has a `_tostring`
that fails. -/
theorem shows_entries_iff {s : MetaVM Heap} (steady : Steady W s.objects answer)
    (finite : FiniteTree W s.objects o) (container : Container o) :
    ShowsEntries W answer s o ident ↔
      ∀ v, TransGen (Part W s.objects) v o → ¬Fails W s.objects answer v := by
  have here : Holding W s.objects s := .refl W s.objects
  constructor
  · intro shows v below
    obtain ⟨fuel, ⟨r, s'⟩, run⟩ := shows.returns
    have some := (container_answers steady.keeps container s r s' here run).2
    obtain none | ⟨t, -, renders⟩ := shows.shows run
    · exact absurd none some
    · exact renders.none_fails below.to_reflTransGen
  · intro fine
    obtain ⟨n, enough⟩ := exists_enough steady.keeps finite
    have below : ∀ v, ReflTransGen (Part W s.objects) v o → ¬Fails W s.objects answer v := by
      intro v path
      rcases Relation.reflTransGen_iff_eq_or_transGen.mp path with rfl | below
      · exact fun fails => fails.1.not_container container
      · exact fine v below
    obtain ⟨text, renders⟩ := exists_renders finite below ident
    refine ⟨⟨n, enough ident s here⟩, fun {fuel r} run => .inr ?_⟩
    obtain ⟨-, t, eq, -, rfl⟩ := renders.spells steady fuel s r.1 r.2 here run
    exact ⟨t, eq, renders⟩

/-- An array with the number 1 and an instance, and what its `_tostring` answers. -/
def oneAndInstance (answer : Option LVObject) : Objects Unit :=
  { answering answer with
    delegate := fun _ o => if o.type = .OT_INSTANCE then some (.ref .OT_TABLE 8) else none
    getMetaMethod := fun _ _ mm => if mm = .MT_TOSTRING then some (.ref .OT_CLOSURE 9) else none
    next := fun _ _ i => match i with
      | 0 => some (1, .integer 0, .integer 1)
      | 1 => some (2, .integer 1, .ref .OT_INSTANCE 7)
      | _ => none
    count := fun _ _ => 2 }

theorem oneAndInstance_steady (answer : Option LVObject) :
    Steady (oneAndInstance answer) () fun _ => answer := by
  intro o closure _ s r s' start run
  cases run
  exact ⟨start, rfl⟩

theorem oneAndInstance_lists (answer : Option LVObject) (o : LVObject) :
    Lists (oneAndInstance answer) () o 0
      [(.integer 0, .integer 1), (.integer 1, .ref .OT_INSTANCE 7)] :=
  .entry rfl (.entry rfl (.done rfl))

theorem oneAndInstance_finite (answer : Option LVObject) :
    FiniteTree (oneAndInstance answer) () (.ref .OT_ARRAY 5) := by
  refine .of_lists (.inr rfl) (oneAndInstance_lists answer _) fun e mem => ?_
  simp only [List.mem_cons, List.not_mem_nil, or_false] at mem
  rcases mem with rfl | rfl
  · exact ⟨.leaf (by decide) (by decide), .leaf (by decide) (by decide)⟩
  · exact ⟨.leaf (by decide) (by decide), .leaf (by decide) (by decide)⟩

theorem shows_entries_answered :
    ShowsEntries (oneAndInstance (some (.string "x"))) (fun _ => some (.string "x")) emptyVM
      (.ref .OT_ARRAY 5) 0 := by
  refine (shows_entries_iff (oneAndInstance_steady _) (oneAndInstance_finite _) (.inr rfl)).mpr ?_
  rintro v - ⟨-, -, none⟩
  cases none

example : (ToString (oneAndInstance none) 4 (.ref .OT_ARRAY 5) 0 emptyVM).map Prod.fst =
    some (some (.string "(array) [\n  [0] = 1,\n  [1] = 1,\n]")) := by decide

/-- The instance is shown as 1, which comes before it. -/
theorem failure_shows_last_text :
    ¬∀ (Heap : Type) (W : Objects Heap) (answer : LVObject → Option LVObject) (s : MetaVM Heap)
      (o : LVObject) (ident : Nat), Steady W s.objects answer → FiniteTree W s.objects o →
      Container o → ShowsEntries W answer s o ident := by
  intro shows
  have array := shows Unit (oneAndInstance none) (fun _ => none) emptyVM (.ref .OT_ARRAY 5) 0
    (oneAndInstance_steady none) (oneAndInstance_finite none) (.inr rfl)
  have run : ∃ s, ToString (oneAndInstance none) 4 (.ref .OT_ARRAY 5) 0 emptyVM =
      some (some (.string "(array) [\n  [0] = 1,\n  [1] = 1,\n]"), s) := ⟨_, rfl⟩
  obtain ⟨s, run⟩ := run
  obtain none | ⟨t, -, renders⟩ := array.shows run
  · cases none
  · have part : Part (oneAndInstance none) () (.ref .OT_INSTANCE 7) (.ref .OT_ARRAY 5) :=
      .value (e := (.integer 1, .ref .OT_INSTANCE 7)) (.inr rfl) (oneAndInstance_lists none _)
        (by simp)
    exact renders.none_fails (.single part) ⟨.inr rfl, rfl, rfl⟩

end Lavril.ObjectM
