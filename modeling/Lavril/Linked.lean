import Mathlib.Data.List.Nodup
import Mathlib.Logic.Function.Basic

/-!
# Linked lists

`Linked next head l` says that following `next` from the pointer `head` goes
through the nodes of `l`, in that order, and ends in null.
-/

universe u

variable {α : Type u}

def Linked (next : α → Option α) : Option α → List α → Prop
  | head, [] => head = none
  | head, a :: l => head = some a ∧ Linked next (next a) l

namespace Linked

variable {next next' : α → Option α} {head : Option α} {l l₁ l₂ : List α} {a : α}

theorem unique (h : Linked next head l) {l' : List α} (h' : Linked next head l') : l = l' := by
  induction l generalizing head l' with
  | nil =>
    cases l' with
    | nil => rfl
    | cons a l' =>
      have null : head = none := h
      rw [h'.1] at null
      cases null
  | cons a l ih =>
    cases l' with
    | nil =>
      have null : head = none := h'
      rw [h.1] at null
      cases null
    | cons b l' =>
      obtain rfl := Option.some.inj (h.1.symm.trans h'.1)
      rw [ih h.2 h'.2]

/-- Two next pointers that agree on the nodes of the list. -/
theorem congr (h : Linked next head l) (same : ∀ a ∈ l, next' a = next a) :
    Linked next' head l := by
  induction l generalizing head with
  | nil => exact h
  | cons a l ih =>
    refine ⟨h.1, ?_⟩
    rw [same a List.mem_cons_self]
    exact ih h.2 fun b mem => same b (List.mem_cons_of_mem a mem)

/-- The list from one of its nodes on. -/
theorem drop (h : Linked next head (l₁ ++ l₂)) :
    ∃ head', Linked next head' l₂ ∧ (l₁ = [] → head' = head) := by
  induction l₁ generalizing head with
  | nil => exact ⟨head, h, fun _ => rfl⟩
  | cons a l₁ ih =>
    obtain ⟨head', rest, -⟩ := ih h.2
    exact ⟨head', rest, nofun⟩

theorem nodup (h : Linked next head l) : l.Nodup := by
  induction l generalizing head with
  | nil => exact List.nodup_nil
  | cons a l ih =>
    refine List.nodup_cons.mpr ⟨fun mem => ?_, ih h.2⟩
    obtain ⟨l₁, l₂, rfl⟩ := List.append_of_mem mem
    -- the list from the second `a` on would be as long as the whole
    obtain ⟨head', rest, -⟩ := @drop _ next (next a) l₁ (a :: l₂) h.2
    have whole : Linked next (some a) (a :: (l₁ ++ a :: l₂)) := ⟨rfl, h.2⟩
    have part : Linked next (some a) (a :: l₂) := ⟨rfl, rest.2⟩
    have length := congrArg List.length (whole.unique part)
    simp only [List.length_cons, List.length_append] at length
    omega

section update

variable [DecidableEq α]

/-- Writing to a node that is not on the list. -/
theorem update_of_notMem (h : Linked next head l) (notMem : a ∉ l) (p : Option α) :
    Linked (Function.update next a p) head l := by
  have same : ∀ b ∈ l, Function.update next a p b = next b := by
    intro b mem
    have ne : b ≠ a := by
      rintro rfl
      exact notMem mem
    rw [Function.update_of_ne ne]
  exact h.congr same

/-- A new node in front. -/
theorem push (h : Linked next head l) (notMem : a ∉ l) :
    Linked (Function.update next a head) (some a) (a :: l) := by
  refine ⟨rfl, ?_⟩
  rw [Function.update_self]
  exact h.update_of_notMem notMem head

/-- Taking a node out behind its predecessor. -/
theorem unlink {p : α} (h : Linked next head (l₁ ++ p :: a :: l₂)) :
    Linked (Function.update next p (next a)) head (l₁ ++ p :: l₂) := by
  have nodup := h.nodup
  induction l₁ generalizing head with
  | nil =>
    obtain ⟨first, second, rest⟩ := h
    refine ⟨first, ?_⟩
    rw [Function.update_self]
    rw [List.nil_append, List.nodup_cons, List.mem_cons, not_or] at nodup
    exact rest.update_of_notMem nodup.1.2 (next a)
  | cons b l₁ ih =>
    rw [List.cons_append, List.nodup_cons] at nodup
    have ne : b ≠ p := by
      rintro rfl
      exact nodup.1 (by simp)
    refine ⟨h.1, ?_⟩
    rw [Function.update_of_ne ne]
    exact ih h.2 nodup.2

/-- A new node behind `p`. -/
theorem insert {p : α} (h : Linked next head (l₁ ++ p :: l₂)) (notMem : a ∉ l₁ ++ p :: l₂) :
    Linked (Function.update (Function.update next a (next p)) p (some a)) head
      (l₁ ++ p :: a :: l₂) := by
  have nodup := h.nodup
  induction l₁ generalizing head with
  | nil =>
    simp only [List.nil_append, List.mem_cons, not_or] at notMem nodup ⊢
    obtain ⟨first, rest⟩ := h
    have below : p ∉ l₂ := (List.nodup_cons.mp nodup).1
    refine ⟨first, ?_, ?_⟩
    · rw [Function.update_self]
    · rw [Function.update_of_ne notMem.1, Function.update_self]
      exact (rest.update_of_notMem notMem.2 (next p)).update_of_notMem below (some a)
  | cons b l₁ ih =>
    rw [List.cons_append, List.mem_cons, not_or] at notMem
    rw [List.cons_append, List.nodup_cons] at nodup
    have ne : b ≠ p := by
      rintro rfl
      exact nodup.1 (by simp)
    refine ⟨h.1, ?_⟩
    rw [Function.update_of_ne ne, Function.update_of_ne (Ne.symm notMem.1)]
    exact ih h.2 notMem.2 nodup.2

end update

theorem head_eq (h : Linked next head l) : head = l.head? := by
  cases l with
  | nil => exact h
  | cons a l => exact h.1

/-! ## Searching -/

/-- The first node that satisfies `p`, with the one before it; `none` outside when
the list is not shorter than the given number of steps. -/
def search (next : α → Option α) (p : α → Bool) :
    Nat → Option α → Option α → Option (Option α × Option α)
  | 0, _, _ => none
  | _ + 1, prev, none => some (prev, none)
  | fuel + 1, prev, some a =>
    if p a then some (prev, some a) else search next p fuel (some a) (next a)

theorem search_none (h : Linked next head l) {p : α → Bool} (absent : ∀ a ∈ l, p a = false)
    {fuel : Nat} (lt : l.length < fuel) (prev : Option α) :
    search next p fuel prev head = some (l.getLast?.or prev, none) := by
  induction l generalizing head fuel prev with
  | nil =>
    obtain ⟨fuel, rfl⟩ := Nat.exists_eq_succ_of_ne_zero (by omega : fuel ≠ 0)
    have null : head = none := h
    rw [null, search]
    rfl
  | cons a l ih =>
    rw [List.length_cons] at lt
    obtain ⟨fuel, rfl⟩ := Nat.exists_eq_succ_of_ne_zero (by omega : fuel ≠ 0)
    obtain ⟨head_, rest⟩ := h
    rw [head_, search, absent a List.mem_cons_self, if_neg Bool.false_ne_true,
      ih rest (fun b mem => absent b (List.mem_cons_of_mem a mem)) (by omega) (some a)]
    cases l with
    | nil => rfl
    | cons c l =>
      rw [List.getLast?_cons_cons]
      cases last : (c :: l).getLast? with
      | none => simp at last
      | some d => rfl

theorem search_absent (h : Linked next head l) {p : α → Bool} (absent : ∀ a ∈ l, p a = false)
    {fuel : Nat} (lt : l.length < fuel) (prev : Option α) :
    ∃ prev', search next p fuel prev head = some (prev', none) :=
  ⟨_, h.search_none absent lt prev⟩

theorem search_found (h : Linked next head (l₁ ++ a :: l₂)) {p : α → Bool}
    (before : ∀ b ∈ l₁, p b = false) (found : p a = true) {fuel : Nat} (lt : l₁.length < fuel)
    (prev : Option α) :
    search next p fuel prev head = some (l₁.getLast?.or prev, some a) := by
  induction l₁ generalizing head fuel prev with
  | nil =>
    obtain ⟨fuel, rfl⟩ := Nat.exists_eq_succ_of_ne_zero (by omega : fuel ≠ 0)
    have first : head = some a := h.1
    rw [first, search, if_pos found]
    rfl
  | cons b l₁ ih =>
    rw [List.length_cons] at lt
    obtain ⟨fuel, rfl⟩ := Nat.exists_eq_succ_of_ne_zero (by omega : fuel ≠ 0)
    have first : head = some b := h.1
    rw [first, search, before b List.mem_cons_self, if_neg Bool.false_ne_true,
      ih h.2 (fun c mem => before c (List.mem_cons_of_mem b mem)) (by omega) (some b)]
    cases l₁ with
    | nil => rfl
    | cons c l₁ =>
      rw [List.getLast?_cons_cons]
      cases last : (c :: l₁).getLast? with
      | none => simp at last
      | some d => rfl

end Linked
