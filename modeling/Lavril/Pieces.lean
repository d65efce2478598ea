import Mathlib.Data.List.DropRight

/-!
# Lists cut into pieces

A list without what it has of some elements at its ends, and the pieces of a list between
separators.
-/

namespace Pieces

universe u

variable {α : Type u} {p : α → Bool} {l r : List α}

section ends

/-- A list without what satisfies `p` at its two ends. -/
def trim (p : α → Bool) (l : List α) : List α := (l.dropWhile p).rdropWhile p

theorem rdropWhile_append_of_all (all : ∀ c ∈ r, p c) :
    (l ++ r).rdropWhile p = l.rdropWhile p := by
  have nothing : r.reverse.dropWhile p = [] := by simpa using all
  rw [List.rdropWhile, List.reverse_append, List.dropWhile_append, nothing]
  rfl

theorem rdropWhile_append_of_ne_nil (some : r.rdropWhile p ≠ []) :
    (l ++ r).rdropWhile p = l ++ r.rdropWhile p := by
  have left : (r.reverse.dropWhile p).isEmpty = false := by
    simpa [List.rdropWhile] using some
  rw [List.rdropWhile, List.reverse_append, List.dropWhile_append, left]
  simp [List.rdropWhile]

/-- The list is what is removed on the left and a rest that is empty or starts with
something else. -/
theorem dropWhile_cases (p : α → Bool) (l : List α) :
    (∀ c ∈ l, p c) ∧ l.dropWhile p = [] ∨
      ∃ c rest, l.dropWhile p = c :: rest ∧ ¬ p c ∧ l = l.takeWhile p ++ c :: rest := by
  cases found : l.dropWhile p with
  | nil => exact .inl ⟨List.dropWhile_eq_nil_iff.mp found, rfl⟩
  | cons c rest =>
    refine .inr ⟨c, rest, rfl, ?_, ?_⟩
    · have head := List.head?_dropWhile_not p l
      simpa [found] using head
    · rw [← found, List.takeWhile_append_dropWhile]

theorem rdropWhile_cons_of_neg {c : α} (neg : ¬ p c) : ∃ t, (c :: l).rdropWhile p = c :: t := by
  obtain ⟨t, split⟩ := List.rdropWhile_prefix p (c :: l)
  cases kept : (c :: l).rdropWhile p with
  | nil => exact absurd (List.rdropWhile_eq_nil_iff.mp kept c List.mem_cons_self) neg
  | cons c' t' =>
    rw [kept] at split
    obtain ⟨rfl, -⟩ := List.cons.inj split
    exact ⟨t', rfl⟩

/-- The two ends can be trimmed in either order. -/
theorem dropWhile_rdropWhile (p : α → Bool) (l : List α) :
    (l.rdropWhile p).dropWhile p = trim p l := by
  rcases dropWhile_cases p l with ⟨all, nothing⟩ | ⟨c, rest, found, neg, split⟩
  · rw [trim, nothing, List.rdropWhile_eq_nil_iff.mpr all]
    rfl
  · obtain ⟨t, kept⟩ := rdropWhile_cons_of_neg (l := rest) neg
    have ne : (c :: rest).rdropWhile p ≠ [] := by simp [kept]
    have before : ∀ x ∈ l.takeWhile p, p x := fun x => List.mem_takeWhile_imp
    rw [trim, found, kept]
    conv_lhs => rw [split]
    rw [rdropWhile_append_of_ne_nil ne, kept, List.dropWhile_append_of_pos before,
      List.dropWhile_cons_of_neg neg]

/-- What is trimmed stands at the ends. -/
theorem trim_split (p : α → Bool) (l : List α) :
    ∃ before after, l = before ++ trim p l ++ after ∧ (∀ c ∈ before, p c) ∧ ∀ c ∈ after, p c := by
  refine ⟨l.takeWhile p, (l.dropWhile p).rtakeWhile p, ?_, fun c => List.mem_takeWhile_imp, ?_⟩
  · rw [trim, List.append_assoc, List.rdropWhile_append_rtakeWhile,
      List.takeWhile_append_dropWhile]
  · exact fun c => List.mem_rtakeWhile_imp

end ends

section separators

/-- The pieces in order, with one of `found` between each two of them. -/
inductive Woven : List (List α) → List α → List α → Prop
  | none : Woven [] [] []
  | last (piece : List α) : Woven [piece] [] piece
  | next {pieces : List (List α)} {found l : List α} (piece : List α) (sep : α)
      (ne : pieces ≠ []) (rest : Woven pieces found l) :
      Woven (piece :: pieces) (sep :: found) (piece ++ sep :: l)

theorem not_of_mem_splitOnP {piece : List α} (mem : piece ∈ l.splitOnP p) :
    ∀ c ∈ piece, p c = false := by
  induction l generalizing piece with
  | nil =>
    obtain rfl : piece = [] := by simpa using mem
    simp
  | cons x l ih =>
    rw [List.splitOnP_cons_eq_if_modifyHead] at mem
    by_cases sep : p x
    · rw [if_pos sep] at mem
      rcases List.mem_cons.mp mem with rfl | mem
      · simp
      · exact ih mem
    · obtain ⟨first, rest, split⟩ := List.exists_cons_of_ne_nil (List.splitOnP_ne_nil p l)
      rw [if_neg sep, split, List.modifyHead_cons] at mem
      rcases List.mem_cons.mp mem with rfl | mem
      · intro c at_
        rcases List.mem_cons.mp at_ with rfl | at_
        · simpa using sep
        · exact ih (split ▸ List.mem_cons_self) c at_
      · exact ih (split ▸ List.mem_cons_of_mem first mem)

/-- Putting the separators back gives the list. -/
theorem woven_splitOnP (p : α → Bool) (l : List α) : Woven (l.splitOnP p) (l.filter p) l := by
  induction l with
  | nil => exact .last []
  | cons x l ih =>
    rw [List.splitOnP_cons_eq_if_modifyHead]
    by_cases sep : p x
    · rw [if_pos sep, List.filter_cons_of_pos sep]
      exact .next [] x (List.splitOnP_ne_nil p l) ih
    · rw [if_neg sep, List.filter_cons_of_neg sep]
      have some := List.splitOnP_ne_nil p l
      generalize l.filter p = found at ih
      generalize l.splitOnP p = pieces at ih some
      cases ih with
      | none => exact absurd rfl some
      | last => exact .last (x :: l)
      | next piece sep ne rest => exact .next (x :: piece) sep ne rest

/-- Only the split gives the list back. -/
theorem Woven.eq_splitOnP {pieces : List (List α)} {found : List α} (woven : Woven pieces found l)
    (some : pieces ≠ []) (clean : ∀ piece ∈ pieces, ∀ c ∈ piece, p c = false)
    (separators : ∀ c ∈ found, p c = true) : pieces = l.splitOnP p := by
  induction woven with
  | none => exact absurd rfl some
  | last piece => exact (List.splitOnP_eq_singleton (clean piece List.mem_cons_self)).symm
  | next piece sep ne rest ih =>
    have tail := ih ne (fun q mem => clean q (List.mem_cons_of_mem _ mem))
      fun c mem => separators c (List.mem_cons_of_mem _ mem)
    rw [List.splitOnP_append_cons_of_forall_mem (clean piece List.mem_cons_self) sep
      (separators sep List.mem_cons_self), ← tail]

theorem Woven.mem {pieces : List (List α)} {found : List α} (woven : Woven pieces found l) {c : α}
    (mem : c ∈ l) : c ∈ found ∨ ∃ piece ∈ pieces, c ∈ piece := by
  induction woven with
  | none => exact absurd mem List.not_mem_nil
  | last piece => exact .inr ⟨piece, List.mem_cons_self, mem⟩
  | next piece sep ne rest ih =>
    rcases List.mem_append.mp mem with mem | mem
    · exact .inr ⟨piece, List.mem_cons_self, mem⟩
    · rcases List.mem_cons.mp mem with rfl | mem
      · exact .inl List.mem_cons_self
      · rcases ih mem with at_ | ⟨q, member, at_⟩
        · exact .inl (List.mem_cons_of_mem _ at_)
        · exact .inr ⟨q, List.mem_cons_of_mem _ member, at_⟩

theorem Woven.mem_of_piece {pieces : List (List α)} {found piece : List α}
    (woven : Woven pieces found l) (member : piece ∈ pieces) {c : α} (mem : c ∈ piece) : c ∈ l := by
  induction woven with
  | none => exact absurd member List.not_mem_nil
  | last piece => exact List.mem_singleton.mp member ▸ mem
  | next first sep ne rest ih =>
    rcases List.mem_cons.mp member with rfl | member
    · exact List.mem_append_left _ mem
    · exact List.mem_append_right _ (List.mem_cons_of_mem sep (ih member))

theorem splitOnP_eq_nil_piece (eq : l.splitOnP p = [[]]) : l = [] := by
  have woven := woven_splitOnP p l
  rw [eq] at woven
  generalize l.filter p = found at woven
  cases woven with
  | last => rfl
  | next _ _ ne _ => exact absurd rfl ne

/-- The list ends with its last piece or, where that is empty, with a separator. -/
theorem Woven.getLast {pieces : List (List α)} {found : List α} (woven : Woven pieces found l)
    {init : List (List α)} {last : List α} (split : pieces = init ++ [last]) :
    last = [] ∧ (l = [] ∨ ∃ c ∈ found, l.getLast? = some c) ∨
      ∃ c ∈ last, l.getLast? = some c := by
  induction woven generalizing init with
  | none => simp at split
  | last piece =>
    have both : [] ++ [piece] = init ++ [last] := split
    obtain rfl := List.singleton_inj.mp (List.append_inj' both rfl).2
    rcases List.eq_nil_or_concat piece with rfl | ⟨before, c, rfl⟩
    · exact .inl ⟨rfl, .inl rfl⟩
    · exact .inr ⟨c, by simp, by simp⟩
  | @next pieces found l piece sep ne rest ih =>
    cases init with
    | nil => exact absurd (List.cons.inj split).2 ne
    | cons first init =>
      rcases ih (List.cons.inj split).2 with ⟨rfl, rfl | ⟨c, mem, at_⟩⟩ | ⟨c, mem, at_⟩
      · exact .inl ⟨rfl, .inr ⟨sep, List.mem_cons_self, by simp⟩⟩
      · exact .inl ⟨rfl, .inr ⟨c, List.mem_cons_of_mem _ mem, by simp [List.getLast?_cons, at_]⟩⟩
      · exact .inr ⟨c, mem, by simp [List.getLast?_cons, at_]⟩

theorem splitOnP_last_nil {init : List (List α)} {last : List α}
    (split : l.splitOnP p = init ++ [last]) :
    last = [] ↔ l = [] ∨ ∃ c, l.getLast? = some c ∧ p c = true := by
  have clean : ∀ c ∈ last, p c = false :=
    not_of_mem_splitOnP (l := l) (by rw [split]; exact List.mem_append_right _ List.mem_cons_self)
  rcases (woven_splitOnP p l).getLast split with ⟨rfl, rfl | ⟨c, mem, at_⟩⟩ | ⟨c, mem, at_⟩
  · simp
  · exact iff_of_true rfl (.inr ⟨c, at_, (List.mem_filter.mp mem).2⟩)
  · refine iff_of_false (List.ne_nil_of_mem mem) ?_
    rintro (rfl | ⟨c', at', sep⟩)
    · simp at at_
    · obtain rfl : c = c' := Option.some.inj (at_.symm.trans at')
      exact Bool.false_ne_true ((clean c mem).symm.trans sep)

end separators

end Pieces
