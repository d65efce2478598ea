import Lavril.Strings

/-!
# Splitting a string

`split` works in the scratch pad, on a copy that it cuts with terminators: each piece is what
stands between the end of the last one and the first NUL after it. The scan itself stops at
the first NUL, one of the string's own as well as its terminator.
-/

namespace Lavril

open Pieces

section pad

variable (fresh : Nat → LVChar)

/-- `realloc`; `fresh` is what new memory holds. -/
def reallocPad (pad : List LVChar) (newsize : Nat) : List LVChar :=
  pad.take newsize ++ (List.range' pad.length (newsize - pad.length)).map fresh

/-- `GetScratchPad`; the pad is the memory of `_scratchpadsize` characters. -/
def getScratchPad (pad : List LVChar) (size : Nat) : List LVChar :=
  if size > 0 then
    if pad.length < size then reallocPad fresh pad (size + (size >>> 1))
    else if pad.length ≥ size <<< 5 then reallocPad fresh pad (pad.length >>> 1)
    else pad
  else pad

theorem length_reallocPad (pad : List LVChar) (newsize : Nat) :
    (reallocPad fresh pad newsize).length = newsize := by
  simp only [reallocPad, List.length_append, List.length_take, List.length_map,
    List.length_range']
  omega

theorem le_length_getScratchPad (pad : List LVChar) (size : Nat) :
    size ≤ (getScratchPad fresh pad size).length := by
  unfold getScratchPad
  split
  · split
    · rw [length_reallocPad]
      omega
    · split
      · rename_i large
        rw [length_reallocPad, Nat.shiftRight_eq_div_pow]
        rw [Nat.shiftLeft_eq] at large
        omega
      · omega
  · omega

end pad

def memcpyPad (pad data : List LVChar) : Except StringFault (List LVChar) :=
  if data.length ≤ pad.length then .ok (data ++ pad.drop data.length) else .error .outside

/-- The variables of `split`, with `last` for `end`. -/
structure Splitting where
  stemp : List LVChar
  start : Nat
  last : Nat
  pieces : List (List LVChar)

namespace Splitting

/-- A piece is pushed and appended to the array. -/
def append (st : Splitting) : Except StringFault Splitting := do
  let piece ← lv_pushstring st.stemp st.start (-1)
  return { st with pieces := st.pieces ++ [piece] }

/-- One turn of the loop, at the character `cur`. -/
def step (seps : List LVChar) (st : Splitting) (cur : LVChar) : Except StringFault Splitting := do
  let st ← if cur ∈ seps then do
      let st ← append { st with stemp := st.stemp.set st.last 0 }
      pure { st with start := st.last + 1 }
    else pure st
  return { st with last := st.last + 1 }

/-- The loop; `fuel` bounds its turns. -/
def scan (seps : List LVChar) : Nat → Splitting → Except StringFault Splitting
  | 0, _ => .error .outside
  | fuel + 1, st => do
    let cur ← charAt st.stemp st.last
    if cur ≠ 0 then
      let st ← st.step seps cur
      scan seps fuel st
    else return st

end Splitting

def _string_split (fresh : Nat → LVChar) (pad str seps : List LVChar) :
    Except StringFault (List (List LVChar)) := do
  if seps.length = 0 then .error (.throwerror "empty separators string")
  let memsize := str.length + 1
  let stemp ← memcpyPad (getScratchPad fresh pad memsize) (stringval str)
  let st ← Splitting.scan seps (stemp.length + 1) ⟨stemp, 0, 0, []⟩
  let st ← if st.last ≠ st.start then st.append else pure st
  return st.pieces

section results

variable {seps s : List LVChar}

theorem append_eq (done cur after : List LVChar) (last : Nat) (pieces : List (List LVChar))
    (no : 0 ∉ cur) :
    Splitting.append ⟨done ++ cur ++ 0 :: after, done.length, last, pieces⟩ =
      .ok ⟨done ++ cur ++ 0 :: after, done.length, last, pieces ++ [cur]⟩ := by
  have push := lv_pushstring_cstr done cur after (show (-1 : Int) < 0 by decide)
  rw [cstr_eq_self_iff.mpr no] at push
  rw [Splitting.append, push]
  rfl

/-- The copy is what is done, the piece that is read, what is left to read and the NUL that
ends the scan. -/
theorem scan_eq (done cur rest after : List LVChar) (pieces : List (List LVChar)) (fuel : Nat)
    (noCur : 0 ∉ cur) (noRest : 0 ∉ rest) (enough : rest.length < fuel) :
    ∃ done' init last, (rest.splitOnP (· ∈ seps)).modifyHead (cur ++ ·) = init ++ [last] ∧
      0 ∉ last ∧
      Splitting.scan seps fuel
          ⟨done ++ cur ++ (rest ++ 0 :: after), done.length, (done ++ cur).length, pieces⟩ =
        .ok ⟨done' ++ last ++ 0 :: after, done'.length, (done' ++ last).length,
          pieces ++ init⟩ := by
  induction rest generalizing done cur pieces fuel with
  | nil =>
    obtain ⟨fuel, rfl⟩ : ∃ n, fuel = n + 1 := ⟨fuel - 1, by simp at enough; omega⟩
    refine ⟨done, [], cur, by simp, noCur, ?_⟩
    have get : charAt (done ++ cur ++ ([] ++ 0 :: after)) (done ++ cur).length = .ok 0 := by
      simp [charAt]
    simp only [Splitting.scan, get, bind, Except.bind]
    simp [pure, Except.pure]
  | cons c rest ih =>
    obtain ⟨fuel, rfl⟩ : ∃ n, fuel = n + 1 := ⟨fuel - 1, by simp at enough; omega⟩
    have nonzero : c ≠ 0 := by rintro rfl; exact noRest List.mem_cons_self
    have noTail : 0 ∉ rest := fun mem => noRest (List.mem_cons_of_mem c mem)
    have further : rest.length < fuel := by
      simp only [List.length_cons] at enough
      omega
    have get : charAt (done ++ cur ++ (c :: rest ++ 0 :: after)) (done ++ cur).length = .ok c := by
      simp [charAt]
    simp only [Splitting.scan, get, bind, Except.bind, if_pos nonzero]
    by_cases sep : c ∈ seps
    · obtain ⟨done', init, last, split, no, run⟩ :=
        ih (done ++ cur ++ [0]) [] (pieces ++ [cur]) fuel List.not_mem_nil noTail further
      have cut : (done ++ cur ++ (c :: rest ++ 0 :: after)).set (done ++ cur).length 0 =
          done ++ cur ++ 0 :: (rest ++ 0 :: after) := by simp
      refine ⟨done', cur :: init, last, ?_, no, ?_⟩
      · rw [List.splitOnP_cons_eq_if_modifyHead, if_pos (by simpa using sep)]
        rw [List.cons_append, ← split]
        cases rest.splitOnP (· ∈ seps) <;> simp
      · rw [Splitting.step, if_pos sep, cut]
        simp only [bind, Except.bind, append_eq done cur _ _ _ noCur, pure, Except.pure]
        convert run using 2 <;> simp [Nat.add_assoc]
    · obtain ⟨done', init, last, split, no, run⟩ :=
        ih done (cur ++ [c]) pieces fuel (by simp [noCur, nonzero.symm]) noTail further
      refine ⟨done', init, last, ?_, no, ?_⟩
      · rw [List.splitOnP_cons_eq_if_modifyHead, if_neg (by simpa using sep), ← split]
        cases rest.splitOnP (· ∈ seps) <;> simp
      · rw [Splitting.step, if_neg sep]
        simp only [bind, Except.bind, pure, Except.pure]
        convert run using 2
        simp [Nat.add_assoc]

theorem cstr_append_zero (s after : List LVChar) : cstr (s ++ 0 :: after) = cstr s := by
  induction s with
  | nil => simp [cstr]
  | cons c s ih =>
    by_cases zero : c = 0
    · simp [cstr, zero]
    · simpa [cstr, zero] using ih

/-- What follows the first NUL. -/
theorem cstr_split (mem : 0 ∈ s) : ∃ after, s = cstr s ++ 0 :: after := by
  rcases dropWhile_cases (fun c : LVChar => decide (c ≠ 0)) s with ⟨all, -⟩ | ⟨c, rest, -, zero, split⟩
  · simpa using all 0 mem
  · obtain rfl : c = 0 := by simpa using zero
    exact ⟨rest, split⟩

def withoutEmptyLast (pieces : List (List LVChar)) : List (List LVChar) :=
  if pieces.getLast? = some [] then pieces.dropLast else pieces

theorem _string_split_eq (fresh : Nat → LVChar) (pad : List LVChar) (nonempty : seps ≠ []) :
    _string_split fresh pad s seps =
      .ok (withoutEmptyLast ((cstr s).splitOnP (· ∈ seps))) := by
  have size : ¬ seps.length = 0 := fun zero => nonempty (List.length_eq_zero_iff.mp zero)
  have fits : (stringval s).length ≤ (getScratchPad fresh pad (s.length + 1)).length := by
    simpa [stringval] using le_length_getScratchPad fresh pad (s.length + 1)
  set rest := (getScratchPad fresh pad (s.length + 1)).drop (stringval s).length with left
  obtain ⟨after, copy⟩ := cstr_split (s := stringval s ++ rest) (by simp [stringval])
  rw [stringval, List.append_assoc, List.singleton_append, cstr_append_zero] at copy
  obtain ⟨done, init, last, split, no, run⟩ := @scan_eq seps [] [] (cstr s) after []
    ((stringval s ++ rest).length + 1) List.not_mem_nil (zero_notMem_cstr s) (by
      have := (List.takeWhile_prefix (l := s) (fun c : LVChar => decide (c ≠ 0))).length_le
      simp only [cstr, stringval, List.length_append]
      omega)
  have same : stringval s ++ rest = cstr s ++ 0 :: after := by
    rw [← copy, stringval, List.append_assoc, List.singleton_append]
  have pieces : (cstr s).splitOnP (· ∈ seps) = init ++ [last] := by
    rw [← split]
    cases (cstr s).splitOnP (· ∈ seps) <;> simp
  simp only [List.nil_append, List.append_nil, List.length_nil, ← same] at run
  have copied : memcpyPad (getScratchPad fresh pad (s.length + 1)) (stringval s) =
      .ok (stringval s ++ rest) := by rw [memcpyPad, if_pos fits]
  rw [pieces]
  simp only [_string_split, if_neg size, copied, bind, Except.bind, pure, Except.pure, run]
  by_cases empty : last = []
  · subst empty
    simp [withoutEmptyLast]
  · have moved : (done ++ last).length ≠ done.length := by
      have := List.length_pos_iff.mpr empty
      rw [List.length_append]
      omega
    rw [if_pos moved, append_eq done last after _ _ no]
    simp [withoutEmptyLast, empty]

/-- The pieces hold no separator and, with the separators between them, give the string back,
once an empty piece is added after a separator at the end. -/
def Rebuilds (seps s : List LVChar) (pieces : List (List LVChar)) : Prop :=
  (∀ piece ∈ pieces, ∀ c ∈ piece, c ∉ seps) ∧ ∃ found, (∀ c ∈ found, c ∈ seps) ∧
    (Woven pieces found s ∨ Woven (pieces ++ [[]]) found s ∧ ∃ c ∈ seps, s.getLast? = some c)

theorem rebuilds_iff {pieces : List (List LVChar)} :
    Rebuilds seps s pieces ↔
      pieces = s.splitOnP (· ∈ seps) ∨ pieces = [] ∧ s = [] ∨
        pieces ++ [[]] = s.splitOnP (· ∈ seps) ∧ ∃ c ∈ seps, s.getLast? = some c := by
  constructor
  · rintro ⟨clean, found, separators, woven | ⟨woven, ends⟩⟩
    · by_cases none : pieces = []
      · subst none
        cases woven
        exact .inr (.inl ⟨rfl, rfl⟩)
      · exact .inl (woven.eq_splitOnP none (by simpa using clean) (by simpa using separators))
    · refine .inr (.inr ⟨woven.eq_splitOnP (by simp) ?_ (by simpa using separators), ends⟩)
      intro piece mem c at_
      rcases List.mem_append.mp mem with mem | mem
      · simpa using clean piece mem c at_
      · rw [List.mem_singleton.mp mem] at at_
        exact absurd at_ List.not_mem_nil
  · have separators : ∀ c ∈ s.filter (· ∈ seps), c ∈ seps := by simp
    have clean : ∀ piece ∈ s.splitOnP (· ∈ seps), ∀ c ∈ piece, c ∉ seps := by
      intro piece mem c at_
      simpa using not_of_mem_splitOnP mem c at_
    have woven := woven_splitOnP (fun c => decide (c ∈ seps)) s
    rintro (rfl | ⟨rfl, rfl⟩ | ⟨split, ends⟩)
    · exact ⟨clean, _, separators, .inl woven⟩
    · exact ⟨by simp, [], by simp, .inl .none⟩
    · rw [← split] at clean woven
      exact ⟨fun piece mem => clean piece (List.mem_append_left _ mem), _, separators,
        .inr ⟨woven, ends⟩⟩

/-- The call returns pieces that give the string back. -/
def Splits (fresh : Nat → LVChar) (pad s seps : List LVChar) : Prop :=
  ∃ pieces, _string_split fresh pad s seps = .ok pieces ∧ Rebuilds seps s pieces

/-- `t` is not empty and does not end with a separator. -/
def EndsInPiece (seps t : List LVChar) : Prop := ∃ c, t.getLast? = some c ∧ c ∉ seps

theorem endsInPiece_iff {init : List (List LVChar)} {last : List LVChar}
    (split : s.splitOnP (· ∈ seps) = init ++ [last]) : EndsInPiece seps s ↔ last ≠ [] := by
  rw [ne_eq, splitOnP_last_nil split]
  rcases s.eq_nil_or_concat with rfl | ⟨t, c, rfl⟩ <;> simp [EndsInPiece]

theorem mem_withoutEmptyLast {pieces : List (List LVChar)} {piece : List LVChar}
    (mem : piece ∈ withoutEmptyLast pieces) : piece ∈ pieces := by
  unfold withoutEmptyLast at mem
  split at mem
  · exact List.dropLast_subset pieces mem
  · exact mem

/-- A NUL that is no separator stands in no piece and between none. -/
theorem Rebuilds.zero_mem
    (rebuilds : Rebuilds seps s (withoutEmptyLast ((cstr s).splitOnP (· ∈ seps)))) (nul : 0 ∈ s) :
    0 ∈ seps := by
  obtain ⟨-, found, separators, wovens⟩ := rebuilds
  have outside : ∀ piece ∈ withoutEmptyLast ((cstr s).splitOnP (· ∈ seps)), 0 ∉ piece :=
    fun piece member at_ => zero_notMem_cstr s
      ((woven_splitOnP _ (cstr s)).mem_of_piece (mem_withoutEmptyLast member) at_)
  rcases wovens with woven | ⟨woven, -⟩
  · rcases woven.mem nul with at_ | ⟨piece, member, at_⟩
    · exact separators 0 at_
    · exact absurd at_ (outside piece member)
  · rcases woven.mem nul with at_ | ⟨piece, member, at_⟩
    · exact separators 0 at_
    · rcases List.mem_append.mp member with member | member
      · exact absurd at_ (outside piece member)
      · exact absurd (List.mem_singleton.mp member ▸ at_) List.not_mem_nil

/-- With the NUL a separator, only what follows it is lost. -/
theorem rebuilds_zero_iff {after : List LVChar} {init : List (List LVChar)} {last : List LVChar}
    (whole : s = cstr s ++ 0 :: after) (sep : 0 ∈ seps)
    (split : (cstr s).splitOnP (· ∈ seps) = init ++ [last]) :
    Rebuilds seps s (withoutEmptyLast (init ++ [last])) ↔ after = [] ∧ last ≠ [] := by
  have both : s.splitOnP (· ∈ seps) = init ++ [last] ++ after.splitOnP (· ∈ seps) := by
    conv_lhs => rw [whole]
    rw [List.splitOnP_append_cons (cstr s) after (by simpa using sep), split]
  have more := List.length_pos_iff.mpr (List.splitOnP_ne_nil (fun c => decide (c ∈ seps)) after)
  rw [rebuilds_iff, both]
  by_cases empty : last = []
  · subst empty
    have cut : withoutEmptyLast (init ++ [[]]) = init := by simp [withoutEmptyLast]
    rw [cut]
    refine iff_of_false ?_ (fun holds => holds.2 rfl)
    rintro (same | ⟨-, none⟩ | ⟨same, -⟩)
    · have := congrArg List.length same
      simp only [List.length_append] at this
      omega
    · rw [whole] at none
      exact absurd none (by simp)
    · have := congrArg List.length same
      simp only [List.length_append] at this
      omega
  · have kept : withoutEmptyLast (init ++ [last]) = init ++ [last] := by
      simp [withoutEmptyLast, empty]
    rw [kept]
    constructor
    · rintro (same | ⟨none, -⟩ | ⟨same, -⟩)
      · have := congrArg List.length same
        simp only [List.length_append] at this
        omega
      · exact absurd none (by simp)
      · exact ⟨splitOnP_eq_nil_piece (List.append_cancel_left same).symm, empty⟩
    · rintro ⟨rfl, -⟩
      refine .inr (.inr ⟨by simp, 0, sep, ?_⟩)
      rw [whole]
      simp

theorem splits_iff (fresh : Nat → LVChar) (pad s seps : List LVChar) (nonempty : seps ≠ []) :
    Splits fresh pad s seps ↔
      0 ∉ s ∨ 0 ∈ seps ∧ ∃ t, s = t ++ [0] ∧ 0 ∉ t ∧ EndsInPiece seps t := by
  have returned := _string_split_eq (s := s) fresh pad nonempty
  obtain ⟨init, last, split⟩ : ∃ init last, (cstr s).splitOnP (· ∈ seps) = init ++ [last] :=
    ⟨_, _, (List.dropLast_append_getLast (List.splitOnP_ne_nil _ (cstr s))).symm⟩
  have result : Splits fresh pad s seps ↔
      Rebuilds seps s (withoutEmptyLast ((cstr s).splitOnP (· ∈ seps))) := by
    constructor
    · rintro ⟨pieces, ran, rebuilds⟩
      rwa [Except.ok.inj (returned.symm.trans ran)]
    · exact fun rebuilds => ⟨_, returned, rebuilds⟩
  rw [result]
  by_cases nul : 0 ∈ s
  · simp only [nul, not_true, false_or]
    obtain ⟨after, whole⟩ := cstr_split nul
    constructor
    · intro rebuilds
      have sep := rebuilds.zero_mem nul
      rw [split] at rebuilds
      obtain ⟨rfl, some⟩ := (rebuilds_zero_iff whole sep split).mp rebuilds
      exact ⟨sep, cstr s, whole, zero_notMem_cstr s, (endsInPiece_iff split).mpr some⟩
    · rintro ⟨sep, t, rfl, no, ends⟩
      have front : cstr (t ++ [0]) = t := by rw [cstr_append_zero, cstr_eq_self_iff.mpr no]
      have last_ := split
      rw [front] at last_
      rw [split]
      have whole_ : t ++ [0] = cstr (t ++ [0]) ++ 0 :: [] := by rw [front]
      exact (rebuilds_zero_iff whole_ sep split).mpr ⟨rfl, (endsInPiece_iff last_).mp ends⟩
  · have whole : cstr s = s := cstr_eq_self_iff.mpr nul
    rw [whole] at split
    simp only [nul, not_false_eq_true, true_or, iff_true]
    rw [whole, split, rebuilds_iff]
    by_cases empty : last = []
    · subst empty
      have cut : withoutEmptyLast (init ++ [[]]) = init := by simp [withoutEmptyLast]
      rw [cut]
      rcases (splitOnP_last_nil split).mp rfl with rfl | ⟨c, at_, sep⟩
      · refine .inr (.inl ⟨?_, rfl⟩)
        have one : init ++ [[]] = [] ++ [[]] := by simpa using split.symm
        exact (List.append_inj' one rfl).1
      · exact .inr (.inr ⟨split.symm, c, by simpa using sep, at_⟩)
    · left
      rw [split]
      simp [withoutEmptyLast, empty]

theorem splits_iff_comma : ([44] : List LVChar) ≠ [] ∧
    (Splits (fun _ => 0) [] [44, 97, 44, 44, 98, 44] [44] ↔ 0 ∉ ([44, 97, 44, 44, 98, 44] : List LVChar) ∨
      0 ∈ ([44] : List LVChar) ∧ ∃ t, [44, 97, 44, 44, 98, 44] = t ++ [0] ∧ 0 ∉ t ∧
        EndsInPiece [44] t) :=
  ⟨by decide, splits_iff _ _ _ _ (by decide)⟩

/-- `"a\0b"` split at commas is `"a"`. -/
theorem not_splits_nul : ¬ Splits (fun _ => 0) [] [97, 0, 98] [44] := by
  rintro ⟨pieces, ran, -, found, separators, wovens⟩
  have returned : _string_split (fun _ => 0) [] [97, 0, 98] [44] = .ok [[97]] := by decide +kernel
  obtain rfl := Except.ok.inj (returned.symm.trans ran)
  rcases wovens with woven | ⟨-, c, sep, ends⟩
  · cases woven with
    | next piece sep ne rest => exact ne rfl
  · obtain rfl : c = 98 := by simpa using ends.symm
    simp at sep

end results

end Lavril
