import Mathlib.Data.List.Chain
import Mathlib.Data.Fintype.Basic

/-!
# Type masks

`CompileTypemask` reads a mask from left to right and gathers the bits of a parameter until
a letter is not followed by a bar. The bits that are gathered when a bar is followed, spaces
aside, by a dot or by the end of the mask go nowhere.
-/

namespace Lavril

def _RT_NULL : BitVec 64 := 0x00000001
def _RT_INTEGER : BitVec 64 := 0x00000002
def _RT_FLOAT : BitVec 64 := 0x00000004
def _RT_BOOL : BitVec 64 := 0x00000008
def _RT_STRING : BitVec 64 := 0x00000010
def _RT_TABLE : BitVec 64 := 0x00000020
def _RT_ARRAY : BitVec 64 := 0x00000040
def _RT_USERDATA : BitVec 64 := 0x00000080
def _RT_CLOSURE : BitVec 64 := 0x00000100
def _RT_NATIVECLOSURE : BitVec 64 := 0x00000200
def _RT_GENERATOR : BitVec 64 := 0x00000400
def _RT_USERPOINTER : BitVec 64 := 0x00000800
def _RT_THREAD : BitVec 64 := 0x00001000
def _RT_CLASS : BitVec 64 := 0x00004000
def _RT_INSTANCE : BitVec 64 := 0x00008000
def _RT_WEAKREF : BitVec 64 := 0x00010000

/-- The cases of the switch that add to the mask. -/
def typeBits : Char → Option (BitVec 64)
  | 'o' => some _RT_NULL
  | 'i' => some _RT_INTEGER
  | 'f' => some _RT_FLOAT
  | 'n' => some (_RT_FLOAT ||| _RT_INTEGER)
  | 's' => some _RT_STRING
  | 't' => some _RT_TABLE
  | 'a' => some _RT_ARRAY
  | 'u' => some _RT_USERDATA
  | 'c' => some (_RT_CLOSURE ||| _RT_NATIVECLOSURE)
  | 'b' => some _RT_BOOL
  | 'g' => some _RT_GENERATOR
  | 'p' => some _RT_USERPOINTER
  | 'v' => some _RT_THREAD
  | 'x' => some _RT_INSTANCE
  | 'y' => some _RT_CLASS
  | 'r' => some _RT_WEAKREF
  | _ => none

/-- The loop, on what is left of the mask; `none` is the result `false`. -/
def compileMask (res : List (BitVec 64)) (mask : BitVec 64) :
    List Char → Option (List (BitVec 64))
  | [] => some res
  | c :: typemask =>
    if c = '\x00' then some res
    else if c = '.' then compileMask (res ++ [-1]) 0 typemask
    else if c = ' ' then compileMask res mask typemask
    else
      match typeBits c with
      | none => none
      | some bits =>
        match typemask with
        | '|' :: typemask =>
          if typemask.headD '\x00' = '\x00' then none
          else compileMask res (mask ||| bits) typemask
        | typemask => compileMask (res ++ [mask ||| bits]) 0 typemask

def CompileTypemask (typemask : List Char) : Option (List (BitVec 64)) :=
  compileMask [] 0 typemask

/-! ## The grammar -/

structure TypeLetter where
  char : Char
  bits : BitVec 64
  spelled : typeBits char = some bits

/-- What a mask asks of one parameter. -/
inductive ParamSpec where
  | any
  | types (first : TypeLetter) (others : List TypeLetter)

namespace ParamSpec

def text : ParamSpec → List Char
  | any => ['.']
  | types first others => first.char :: others.flatMap fun letter => ['|', letter.char]

def mask : ParamSpec → BitVec 64
  | any => -1
  | types first others => others.foldl (fun mask letter => mask ||| letter.bits) first.bits

end ParamSpec

def withoutSpaces (s : List Char) : List Char := s.filter (· ≠ ' ')

/-- Spaces aside, the mask is a sequence of specifications. -/
def Specifies (s : List Char) (specs : List ParamSpec) : Prop :=
  withoutSpaces s = specs.flatMap ParamSpec.text

/-! ## What is accepted -/

def IsLetter (c : Char) : Prop := (typeBits c).isSome = true

instance (c : Char) : Decidable (IsLetter c) := inferInstanceAs (Decidable (_ = true))

/-- The characters of a mask are letters, dots, spaces and bars, a bar stands right after a
letter and not at the end. -/
structure Spelled (s : List Char) : Prop where
  chars : ∀ c ∈ s, IsLetter c ∨ c = '.' ∨ c = ' ' ∨ c = '|'
  first : s.head? ≠ some '|'
  last : s.getLast? ≠ some '|'
  after : s.IsChain fun a b => b = '|' → IsLetter a

/-- Spaces aside, a bar ends the mask or stands before a dot. -/
def Dangling (s : List Char) : Prop :=
  (withoutSpaces s).getLast? = some '|' ∨
    ¬ (withoutSpaces s).IsChain fun a b => a = '|' → b ≠ '.'

/-- A bar stands right after a space. -/
def Loose (s : List Char) : Prop := ¬ s.IsChain fun a b => b = '|' → a ≠ ' '

theorem letter_cases {c : Char} (letter : IsLetter c) :
    c ≠ '\x00' ∧ c ≠ '.' ∧ c ≠ ' ' ∧ c ≠ '|' := by
  refine ⟨?_, ?_, ?_, ?_⟩ <;> (rintro rfl; revert letter; decide)

namespace Spelled

variable {c : Char} {s : List Char}

theorem nil : Spelled [] := ⟨by simp, by simp, by simp, .nil⟩

theorem not_bar : ¬ Spelled ('|' :: s) := fun spelled => spelled.first rfl

/-- A character that no bar follows if it is a letter. -/
theorem cons_iff (char : IsLetter c ∨ c = '.' ∨ c = ' ') (next : IsLetter c → s.head? ≠ some '|') :
    Spelled (c :: s) ↔ Spelled s := by
  have ne : c ≠ '|' := by
    rcases char with letter | rfl | rfl
    · exact (letter_cases letter).2.2.2
    · decide
    · decide
  have any : IsLetter c ∨ c = '.' ∨ c = ' ' ∨ c = '|' := by tauto
  cases s with
  | nil => exact iff_of_true ⟨by simpa using any, by simpa using ne, by simpa using ne, .singleton c⟩ nil
  | cons d s =>
    constructor
    · intro spelled
      obtain ⟨step, after⟩ := List.isChain_cons_cons.mp spelled.after
      refine ⟨fun x mem => spelled.chars x (List.mem_cons_of_mem c mem), ?_, ?_, after⟩
      · intro bar
        exact next (step (by simpa using bar)) bar
      · simpa using spelled.last
    · intro spelled
      refine ⟨?_, by simpa using ne, by simpa using spelled.last, ?_⟩
      · intro x mem
        rcases List.mem_cons.mp mem with rfl | mem
        · exact any
        · exact spelled.chars x mem
      · refine List.isChain_cons_cons.mpr ⟨?_, spelled.after⟩
        rintro rfl
        exact absurd spelled not_bar

theorem bar_iff (letter : IsLetter c) : Spelled (c :: '|' :: s) ↔ s ≠ [] ∧ Spelled s := by
  have ne := (letter_cases letter).2.2.2
  have bar : ¬ IsLetter '|' := by decide
  cases s with
  | nil => exact iff_of_false (fun spelled => spelled.last rfl) (fun both => both.1 rfl)
  | cons d s =>
    constructor
    · intro spelled
      obtain ⟨-, rest⟩ := List.isChain_cons_cons.mp spelled.after
      obtain ⟨step, after⟩ := List.isChain_cons_cons.mp rest
      refine ⟨by simp, ?_, ?_, by simpa using spelled.last, after⟩
      · exact fun x mem => spelled.chars x (List.mem_cons_of_mem c (List.mem_cons_of_mem '|' mem))
      · exact fun head => bar (step (by simpa using head))
    · rintro ⟨-, spelled⟩
      refine ⟨?_, by simpa using ne, by simpa using spelled.last, ?_⟩
      · intro x mem
        rcases List.mem_cons.mp mem with rfl | mem
        · exact .inl letter
        · rcases List.mem_cons.mp mem with rfl | mem
          · exact .inr (.inr (.inr rfl))
          · exact spelled.chars x mem
      · refine .cons_cons (fun _ => letter) (.cons_cons ?_ spelled.after)
        rintro rfl
        exact absurd spelled not_bar

end Spelled

theorem spelled_iff (s : List Char) (noNul : '\x00' ∉ s) (res : List (BitVec 64))
    (mask : BitVec 64) : (compileMask res mask s).isSome = true ↔ Spelled s := by
  induction len : s.length using Nat.strong_induction_on generalizing s res mask with
  | _ n ih =>
    cases s with
    | nil => exact iff_of_true rfl .nil
    | cons c s =>
      subst len
      have noTail : '\x00' ∉ s := fun mem => noNul (List.mem_cons_of_mem c mem)
      have further := fun res mask => ih s.length (by simp) s noTail res mask rfl
      have nonzero : c ≠ '\x00' := by rintro rfl; exact noNul List.mem_cons_self
      rw [compileMask.eq_def]
      simp only [if_neg nonzero]
      by_cases dot : c = '.'
      · subst dot
        rw [if_pos rfl, further, Spelled.cons_iff (by decide) fun letter => absurd letter (by decide)]
      rw [if_neg dot]
      by_cases space : c = ' '
      · subst space
        rw [if_pos rfl, further, Spelled.cons_iff (by decide) fun letter => absurd letter (by decide)]
      rw [if_neg space]
      cases letter : typeBits c with
      | none =>
        have not : ¬ IsLetter c := by simp [IsLetter, letter]
        refine iff_of_false (by simp) fun spelled => ?_
        rcases spelled.chars c List.mem_cons_self with at_ | at_ | at_ | rfl
        · exact not at_
        · exact dot at_
        · exact space at_
        · exact spelled.first rfl
      | some bits =>
        have isLetter : IsLetter c := by simp [IsLetter, letter]
        by_cases bar : s.head? = some '|'
        · obtain ⟨s, rfl⟩ := List.head?_eq_some_iff.mp bar
          rw [Spelled.bar_iff isLetter]
          cases s with
          | nil => simp
          | cons d s =>
            have noEnd : ¬ (d :: s).headD '\x00' = '\x00' := by
              rintro rfl
              exact noTail (List.mem_cons_of_mem _ List.mem_cons_self)
            simp only [if_neg noEnd]
            rw [ih (d :: s).length (by simp) (d :: s)
              (fun mem => noTail (List.mem_cons_of_mem _ mem)) _ _ rfl]
            simp
        · rw [Spelled.cons_iff (.inl isLetter) fun _ => bar]
          simp only
          split
          · exact absurd rfl bar
          · exact further _ _

/-! ## What is compiled -/

/-- The letters of a parameter that are read, each with a bar after it. -/
abbrev OpenMask := Option (TypeLetter × List TypeLetter)

namespace OpenMask

def mask : OpenMask → BitVec 64
  | none => 0
  | some (first, others) => (ParamSpec.types first others).mask

def text : OpenMask → List Char
  | none => []
  | some (first, others) => (ParamSpec.types first others).text ++ ['|']

def read : OpenMask → TypeLetter → TypeLetter × List TypeLetter
  | none, letter => (letter, [])
  | some (first, others), letter => (first, others ++ [letter])

variable (pending : OpenMask) (letter : TypeLetter)

def spec : ParamSpec := .types (pending.read letter).1 (pending.read letter).2

theorem mask_spec : (pending.spec letter).mask = pending.mask ||| letter.bits := by
  rcases pending with _ | ⟨first, others⟩
  · simp [spec, read, mask, ParamSpec.mask]
  · simp [spec, read, mask, ParamSpec.mask, List.foldl_append]

theorem text_spec : (pending.spec letter).text = pending.text ++ [letter.char] := by
  rcases pending with _ | ⟨first, others⟩
  · simp [spec, read, text, ParamSpec.text]
  · simp [spec, read, text, ParamSpec.text]

end OpenMask

/-- No bar of a text ends it or stands before a dot. -/
structure Closed (t : List Char) : Prop where
  last : t.getLast? ≠ some '|'
  after : t.IsChain fun a b => a = '|' → b ≠ '.'

theorem closed_iff {s : List Char} : Closed (withoutSpaces s) ↔ ¬ Dangling s := by
  rw [Dangling, not_or, not_not]
  exact ⟨fun closed => ⟨closed.last, closed.after⟩, fun both => ⟨both.1, both.2⟩⟩

theorem Closed.of_append {l t : List Char} (closed : Closed (l ++ t)) : Closed t := by
  refine ⟨?_, closed.after.right_of_append⟩
  intro bar
  exact closed.last (by simp [List.getLast?_append, bar])

/-- A text in which each bar is followed by a letter is compiled to the masks of its
specifications. -/
theorem compileMask_sound (s : List Char) (noNul : '\x00' ∉ s) (pending : OpenMask)
    (res compiled : List (BitVec 64)) (closed : Closed (pending.text ++ withoutSpaces s))
    (accepted : compileMask res pending.mask s = some compiled) :
    ∃ specs : List ParamSpec, pending.text ++ withoutSpaces s = specs.flatMap ParamSpec.text ∧
      compiled = res ++ specs.map ParamSpec.mask := by
  induction len : s.length using Nat.strong_induction_on generalizing s res pending with
  | _ n ih =>
    cases s with
    | nil =>
      obtain rfl : res = compiled := Option.some.inj accepted
      rcases pending with _ | ⟨first, others⟩
      · exact ⟨[], rfl, by simp⟩
      · exact absurd (by simp [OpenMask.text, withoutSpaces]) closed.last
    | cons c s =>
      subst len
      have noTail : '\x00' ∉ s := fun mem => noNul (List.mem_cons_of_mem c mem)
      have nonzero : c ≠ '\x00' := by rintro rfl; exact noNul List.mem_cons_self
      rw [compileMask.eq_def] at accepted
      simp only [if_neg nonzero] at accepted
      by_cases dot : c = '.'
      · subst dot
        rw [if_pos rfl] at accepted
        have kept : withoutSpaces ('.' :: s) = '.' :: withoutSpaces s := rfl
        rw [kept] at closed ⊢
        rcases pending with _ | ⟨first, others⟩
        · obtain ⟨specs, split, rfl⟩ := ih s.length (by simp) s noTail none (res ++ [-1])
            (Closed.of_append (l := ['.']) closed) accepted rfl
          refine ⟨.any :: specs, ?_, by simp [ParamSpec.mask]⟩
          rw [List.flatMap_cons, ← split]
          rfl
        · have step := closed.after
          rw [OpenMask.text, List.append_assoc, List.singleton_append,
            List.isChain_append_cons_cons] at step
          exact absurd rfl (step.2.1 rfl)
      rw [if_neg dot] at accepted
      by_cases space : c = ' '
      · subst space
        rw [if_pos rfl] at accepted
        exact ih s.length (by simp) s noTail pending res closed accepted rfl
      rw [if_neg space] at accepted
      have kept : withoutSpaces (c :: s) = c :: withoutSpaces s := by
        simp [withoutSpaces, space]
      cases spelled : typeBits c with
      | none => simp [spelled] at accepted
      | some bits =>
        let letter : TypeLetter := ⟨c, bits, spelled⟩
        have moved : pending.text ++ withoutSpaces (c :: s) =
            (pending.spec letter).text ++ withoutSpaces s := by
          rw [kept, OpenMask.text_spec]
          simp [letter]
        simp only [spelled] at accepted
        rw [moved] at closed ⊢
        split at accepted
        · rename_i s'
          split at accepted
          · cases accepted
          · have shifted : (pending.spec letter).text ++ withoutSpaces ('|' :: s') =
                OpenMask.text (some (pending.read letter)) ++ withoutSpaces s' := by
              have bar : withoutSpaces ('|' :: s') = '|' :: withoutSpaces s' := rfl
              rw [bar, OpenMask.text, OpenMask.spec, List.append_assoc, List.singleton_append]
            rw [shifted] at closed ⊢
            refine ih s'.length (by simp only [List.length_cons]; omega) s' (fun mem => noTail (List.mem_cons_of_mem _ mem))
              (some (pending.read letter)) res closed ?_ rfl
            have gathered : OpenMask.mask (some (pending.read letter)) = pending.mask ||| bits :=
              pending.mask_spec letter
            rw [gathered]
            exact accepted
        · obtain ⟨specs, split, rfl⟩ := ih s.length (by simp) s noTail none _ closed.of_append
            accepted rfl
          refine ⟨pending.spec letter :: specs, ?_, ?_⟩
          · rw [List.flatMap_cons, ← split]
            rfl
          · simp [OpenMask.mask_spec, letter]

/-! ## What the grammar accepts -/

/-- A text in which each bar stands between two letters. -/
structure Wellformed (t : List Char) : Prop where
  chars : ∀ c ∈ t, IsLetter c ∨ c = '.' ∨ c = '|'
  first : t.head? ≠ some '|'
  last : t.getLast? ≠ some '|'
  before : t.IsChain fun a b => b = '|' → IsLetter a
  after : t.IsChain fun a b => a = '|' → b ≠ '.'

namespace Wellformed

variable {t t' : List Char}

theorem closed (wf : Wellformed t) : Closed t := ⟨wf.last, wf.after⟩

theorem single {c : Char} (char : IsLetter c ∨ c = '.') : Wellformed [c] := by
  have ne : c ≠ '|' := by
    rcases char with letter | rfl
    · exact (letter_cases letter).2.2.2
    · decide
  refine ⟨?_, by simpa using ne, by simpa using ne, .singleton c, .singleton c⟩
  intro x mem
  rw [List.mem_singleton.mp mem]
  exact char.elim .inl fun dot => .inr (.inl dot)

theorem append (wf : Wellformed t) (wf' : Wellformed t') : Wellformed (t ++ t') := by
  refine ⟨?_, ?_, ?_, ?_, ?_⟩
  · intro c mem
    exact (List.mem_append.mp mem).elim (wf.chars c) (wf'.chars c)
  · intro bar
    cases t with
    | nil => exact wf'.first bar
    | cons c t => exact wf.first bar
  · intro bar
    rw [List.getLast?_append] at bar
    cases end_ : t'.getLast? with
    | none => exact wf.last (by simpa [end_] using bar)
    | some c => exact wf'.last (by simpa [end_] using bar)
  · refine List.isChain_append.mpr ⟨wf.before, wf'.before, ?_⟩
    rintro a - b head rfl
    exact absurd head wf'.first
  · refine List.isChain_append.mpr ⟨wf.after, wf'.after, ?_⟩
    rintro a last b - rfl
    exact absurd last wf.last

theorem bar {c d : Char} (letter : IsLetter c) (letter' : IsLetter d) (wf : Wellformed (d :: t)) :
    Wellformed (c :: '|' :: d :: t) := by
  have ne := (letter_cases letter).2.2.2
  have ne' := letter_cases letter'
  refine ⟨?_, by simpa using ne, by simpa using wf.last, ?_, ?_⟩
  · intro x mem
    rcases List.mem_cons.mp mem with rfl | mem
    · exact .inl letter
    · rcases List.mem_cons.mp mem with rfl | mem
      · exact .inr (.inr rfl)
      · exact wf.chars x mem
  · exact .cons_cons (fun _ => letter) (.cons_cons (fun same => absurd same ne'.2.2.2) wf.before)
  · exact .cons_cons (fun same => absurd same ne) (.cons_cons (fun _ => ne'.2.1) wf.after)

theorem types (first : TypeLetter) (others : List TypeLetter) :
    Wellformed (ParamSpec.types first others).text := by
  have letter (l : TypeLetter) : IsLetter l.char := by simp [IsLetter, l.spelled]
  induction others generalizing first with
  | nil => exact single (.inl (letter first))
  | cons next others ih => exact bar (letter first) (letter next) (ih next)

theorem texts (specs : List ParamSpec) : Wellformed (specs.flatMap ParamSpec.text) := by
  induction specs with
  | nil => exact ⟨by simp, by simp, by simp, .nil, .nil⟩
  | cons spec specs ih =>
    rw [List.flatMap_cons]
    cases spec with
    | any => exact append (single (.inr rfl)) ih
    | types first others => exact append (types first others) ih

end Wellformed

theorem spelled_after {s : List Char} (tight : ¬ Loose s)
    (before : (withoutSpaces s).IsChain fun a b => b = '|' → IsLetter a) :
    s.IsChain fun a b => b = '|' → IsLetter a := by
  have pairs := not_not.mp tight
  induction s with
  | nil => exact .nil
  | cons a s ih =>
    cases s with
    | nil => exact .singleton a
    | cons b s =>
      obtain ⟨step, rest⟩ := List.isChain_cons_cons.mp pairs
      have tail : (withoutSpaces (b :: s)).IsChain fun a b => b = '|' → IsLetter a := by
        by_cases space : a = ' '
        · subst space
          exact before
        · have kept : withoutSpaces (a :: b :: s) = [a] ++ withoutSpaces (b :: s) := by
            simp [withoutSpaces, space]
          rw [kept] at before
          exact before.right_of_append
      refine .cons_cons ?_ (ih (not_not.mpr rest) tail rest)
      rintro rfl
      have kept : withoutSpaces (a :: '|' :: s) = a :: '|' :: withoutSpaces s := by
        simp [withoutSpaces, step rfl]
      rw [kept] at before
      exact (List.isChain_cons_cons.mp before).1 rfl

/-- Without a space before a bar, what the grammar accepts is spelled as it must be. -/
theorem spelled_of_specifies {s : List Char} {specs : List ParamSpec} (given : Specifies s specs)
    (tight : ¬ Loose s) : Spelled s := by
  have wf : Wellformed (withoutSpaces s) := by
    rw [given]
    exact .texts specs
  refine ⟨?_, ?_, ?_, spelled_after tight wf.before⟩
  · intro c mem
    by_cases space : c = ' '
    · exact .inr (.inr (.inl space))
    · rcases wf.chars c (List.mem_filter.mpr ⟨mem, by simpa using space⟩) with at_ | at_ | at_
      · exact .inl at_
      · exact .inr (.inl at_)
      · exact .inr (.inr (.inr at_))
  · intro head
    obtain ⟨rest, rfl⟩ := List.head?_eq_some_iff.mp head
    exact wf.first rfl
  · intro last
    obtain ⟨rest, rfl⟩ := List.getLast?_eq_some_iff.mp last
    exact wf.last (by simp [withoutSpaces])

theorem Spelled.not_loose {s : List Char} (spelled : Spelled s) : ¬ Loose s := by
  have notSpace : ¬ IsLetter ' ' := by decide
  refine not_not.mpr (spelled.after.imp ?_)
  rintro a b letter bar rfl
  exact notSpace (letter bar)

/-! ## Masks -/

/-- What is accepted is in the grammar, and compiled to one entry a specification. -/
def Sound (s : List Char) : Prop :=
  ∀ compiled, CompileTypemask s = some compiled →
    ∃ specs, Specifies s specs ∧ compiled = specs.map ParamSpec.mask

/-- What is in the grammar is accepted. -/
def Complete (s : List Char) : Prop :=
  (∃ specs, Specifies s specs) → (CompileTypemask s).isSome = true

theorem compileTypemask_exact (s : List Char) (noNul : '\x00' ∉ s) :
    (Sound s ↔ ¬ (Spelled s ∧ Dangling s)) ∧
      (Complete s ↔ ¬ ((∃ specs, Specifies s specs) ∧ Loose s)) := by
  have accepted : (CompileTypemask s).isSome = true ↔ Spelled s := spelled_iff s noNul [] 0
  constructor
  · constructor
    · rintro sound ⟨spelled, dangling⟩
      obtain ⟨compiled, run⟩ := Option.isSome_iff_exists.mp (accepted.mpr spelled)
      obtain ⟨specs, given, -⟩ := sound compiled run
      refine absurd dangling (closed_iff.mp ?_)
      rw [given]
      exact (Wellformed.texts specs).closed
    · intro not compiled run
      have spelled := accepted.mp (Option.isSome_of_eq_some run)
      have closed := closed_iff.mpr fun dangling => not ⟨spelled, dangling⟩
      obtain ⟨specs, given, masks⟩ := compileMask_sound s noNul none [] compiled closed run
      exact ⟨specs, given, masks⟩
  · constructor
    · rintro complete ⟨given, loose⟩
      exact (accepted.mp (complete given)).not_loose loose
    · rintro not ⟨specs, given⟩
      exact accepted.mpr (spelled_of_specifies given fun loose => not ⟨⟨specs, given⟩, loose⟩)

theorem compileTypemask_exact_spaced : '\x00' ∉ "t s|i .".toList ∧
    (Sound "t s|i .".toList ↔
      ¬ (Spelled "t s|i .".toList ∧ Dangling "t s|i .".toList)) ∧
    (Complete "t s|i .".toList ↔
      ¬ ((∃ specs, Specifies "t s|i .".toList specs) ∧ Loose "t s|i .".toList)) :=
  ⟨by decide, compileTypemask_exact "t s|i .".toList (by decide)⟩

/-- A bar and a space at the end: the mask is accepted, without an entry. -/
theorem not_sound_bar_space : ¬ Sound "i| ".toList := by
  intro sound
  have run : CompileTypemask "i| ".toList = some [] := by decide
  obtain ⟨specs, given, -⟩ := sound [] run
  have wf := Wellformed.texts specs
  rw [← given] at wf
  exact wf.last (by decide)

end Lavril
