import Lavril.Linked

/-!
# Doubly linked lists

`Doubly links before head l`: from the pointer `head` the next pointers go through
the nodes of `l` and end in null, and the previous pointers go back the same way,
the one of the first node being `before`.
-/

universe u

/-- The two pointers of every node. -/
structure Links (α : Type u) where
  next : α → Option α
  prev : α → Option α

variable {α : Type u}

def Doubly (links : Links α) : Option α → Option α → List α → Prop
  | _, head, [] => head = none
  | before, head, a :: l =>
    head = some a ∧ links.prev a = before ∧ Doubly links (some a) (links.next a) l

namespace Links

variable [DecidableEq α] (links : Links α) (head : Option α) (c : α)

/-- Writes a pointer of a node, if there is one. -/
def setAt (pointers : α → Option α) (node : Option α) (value : Option α) : α → Option α :=
  match node with
  | none => pointers
  | some a => Function.update pointers a value

theorem setAt_of_ne {pointers : α → Option α} {node value : Option α} {b : α} (ne : node ≠ some b) :
    setAt pointers node value b = pointers b := by
  cases node with
  | none => rfl
  | some a => exact Function.update_of_ne (fun eq => ne (congrArg some eq.symm)) _ _

@[simp] theorem setAt_some {pointers : α → Option α} {value : Option α} {a : α} :
    setAt pointers (some a) value a = value := Function.update_self _ _ _

/-- Puts a node in front, with the new head. -/
def add : Links α × Option α :=
  (⟨Function.update links.next c head, setAt (Function.update links.prev c none) head (some c)⟩,
    some c)

/-- Takes a node out, with the new head. -/
def remove : Links α × Option α :=
  (⟨Function.update (setAt links.next (links.prev c) (links.next c)) c none,
    Function.update (setAt links.prev (links.next c) (links.prev c)) c none⟩,
    if (links.prev c).isSome then head else links.next c)

end Links

namespace Doubly

variable {links links' : Links α} {before head : Option α} {l l₁ l₂ : List α} {a c : α}

theorem congr (h : Doubly links before head l)
    (same : ∀ a ∈ l, links'.next a = links.next a ∧ links'.prev a = links.prev a) :
    Doubly links' before head l := by
  induction l generalizing before head with
  | nil => exact h
  | cons a l ih =>
    obtain ⟨first, back, rest⟩ := h
    obtain ⟨next, prev⟩ := same a List.mem_cons_self
    refine ⟨first, prev.trans back, ?_⟩
    rw [next]
    exact ih rest fun b mem => same b (List.mem_cons_of_mem a mem)

theorem head_eq (h : Doubly links before head l) : head = l.head? := by
  cases l with
  | nil => exact h
  | cons a l => exact h.1

theorem next_eq (h : Doubly links before head (l₁ ++ c :: l₂)) : links.next c = l₂.head? := by
  induction l₁ generalizing before head with
  | nil => exact h.2.2.head_eq
  | cons a l₁ ih => exact ih h.2.2

theorem linked (h : Doubly links before head l) : Linked links.next head l := by
  induction l generalizing before head with
  | nil => exact h
  | cons a l ih => exact ⟨h.1, ih h.2.2⟩

theorem nodup (h : Doubly links before head l) : l.Nodup := h.linked.nodup

theorem next_mem (h : Doubly links before head l) (mem : c ∈ l) {n : α}
    (next : links.next c = some n) : ∃ l₁ l₂, l = l₁ ++ c :: n :: l₂ := by
  obtain ⟨l₁, l₂, rfl⟩ := List.append_of_mem mem
  rw [h.next_eq] at next
  cases l₂ with
  | nil => cases next
  | cons m l₂ =>
    obtain rfl := Option.some.inj next
    exact ⟨l₁, l₂, rfl⟩

/-- The previous pointer of a node leads out of the list or to another node of it. -/
theorem prev_eq (h : Doubly links before head l) (mem : c ∈ l) :
    (head = some c ∧ links.prev c = before) ∨ ∃ p ∈ l, links.prev c = some p := by
  induction l generalizing before head with
  | nil => cases mem
  | cons a l ih =>
    obtain ⟨first, back, rest⟩ := h
    rcases List.mem_cons.mp mem with rfl | later
    · exact .inl ⟨first, back⟩
    · right
      rcases ih rest later with ⟨-, prev⟩ | ⟨p, inside, prev⟩
      · exact ⟨a, List.mem_cons_self, prev⟩
      · exact ⟨p, List.mem_cons_of_mem a inside, prev⟩

variable [DecidableEq α]

/-- `add` writes the pointers of the new node and of the old head. -/
theorem add_same {b : α} (ne : b ≠ c) (notHead : head ≠ some b) :
    (links.add head c).1.next b = links.next b ∧ (links.add head c).1.prev b = links.prev b :=
  ⟨Function.update_of_ne ne _ _,
    (Links.setAt_of_ne notHead).trans (Function.update_of_ne ne _ _)⟩

/-- A list that holds neither the new node nor the old head stays as it is. -/
theorem add_frame {other : List α} {before' head' : Option α} (h : Doubly links none head l)
    (h' : Doubly links before' head' other) (notMem : c ∉ other) (disjoint : l.Disjoint other) :
    Doubly (links.add head c).1 before' head' other := by
  refine h'.congr fun b inside => add_same ?_ ?_
  · rintro rfl
    exact notMem inside
  · intro first
    rw [h.head_eq] at first
    exact disjoint (List.mem_of_mem_head? first) inside

theorem add (h : Doubly links none head l) (notMem : c ∉ l) :
    Doubly (links.add head c).1 none (links.add head c).2 (c :: l) := by
  have nodup := h.nodup
  have nextC : (links.add head c).1.next c = head := Function.update_self _ _ _
  cases l with
  | nil =>
    obtain rfl : head = none := h
    exact ⟨rfl, Function.update_self _ _ _, nextC⟩
  | cons a l =>
    obtain ⟨rfl, back, rest⟩ := h
    have ne : a ≠ c := fun eq => notMem (eq ▸ List.mem_cons_self)
    have prevC : (links.add (some a) c).1.prev c = none := by
      refine (Links.setAt_of_ne fun eq => ne (Option.some.inj eq)).trans ?_
      exact Function.update_self _ _ _
    refine ⟨rfl, prevC, nextC, Links.setAt_some, ?_⟩
    have next : (links.add (some a) c).1.next a = links.next a := Function.update_of_ne ne _ _
    rw [next]
    refine rest.congr fun b mem => add_same ?_ ?_
    · rintro rfl
      exact notMem (List.mem_cons_of_mem a mem)
    · rintro ⟨⟩
      exact (List.nodup_cons.mp nodup).1 mem

/-- `remove` writes the pointers of the node and of its two neighbours. -/
theorem remove_same {b : α} (ne : b ≠ c) (notPrev : links.prev c ≠ some b)
    (notNext : links.next c ≠ some b) :
    (links.remove head c).1.next b = links.next b ∧
      (links.remove head c).1.prev b = links.prev b :=
  ⟨(Function.update_of_ne ne _ _).trans (Links.setAt_of_ne notPrev),
    (Function.update_of_ne ne _ _).trans (Links.setAt_of_ne notNext)⟩

/-- A list that neither holds the node nor its neighbours stays as it is. -/
theorem remove_frame {other : List α} {before' head' : Option α}
    (h : Doubly links before head l) (mem : c ∈ l) (outside : ∀ b, before = some b → b ∉ other)
    (h' : Doubly links before' head' other) (disjoint : l.Disjoint other) :
    Doubly (links.remove head c).1 before' head' other := by
  refine h'.congr fun b inside => remove_same ?_ ?_ ?_
  · rintro rfl
    exact disjoint mem inside
  · intro prev
    rcases h.prev_eq mem with ⟨-, first⟩ | ⟨p, pMem, eq⟩
    · exact outside b (first.symm.trans prev) inside
    · obtain rfl := Option.some.inj (eq.symm.trans prev)
      exact disjoint pMem inside
  · intro next
    obtain ⟨l₁, l₂, rfl⟩ := h.next_mem mem next
    exact disjoint (by simp) inside

/-- The first node, taken out of a list that `before` leads to. -/
theorem remove_first {head₀ : Option α} (back : links.prev a = before)
    (rest : Doubly links (some a) (links.next a) l) (notMem : a ∉ l)
    (outside : ∀ b, before = some b → b ∉ l) :
    Doubly (links.remove head₀ a).1 before (links.next a) l := by
  have nodup := rest.nodup
  cases l with
  | nil => exact rest
  | cons b l =>
    obtain ⟨next, -, rest⟩ := rest
    have ne : b ≠ a := fun eq => notMem (eq ▸ List.mem_cons_self)
    have prevB : (links.remove head₀ a).1.prev b = before := by
      refine (Function.update_of_ne ne _ _).trans ?_
      rw [next, back, Links.setAt_some]
    have nextB : (links.remove head₀ a).1.next b = links.next b := by
      refine (Function.update_of_ne ne _ _).trans (Links.setAt_of_ne ?_)
      rw [back]
      exact fun eq => outside b eq List.mem_cons_self
    refine ⟨next, prevB, ?_⟩
    rw [nextB]
    refine rest.congr fun d inside => remove_same ?_ ?_ ?_
    · rintro rfl
      exact notMem (List.mem_cons_of_mem b inside)
    · rw [back]
      exact fun eq => outside d eq (List.mem_cons_of_mem b inside)
    · rw [next]
      rintro ⟨⟩
      exact (List.nodup_cons.mp nodup).1 inside

theorem remove_aux (head₀ : Option α) (h : Doubly links before head l) (mem : c ∈ l)
    (outside : ∀ b, before = some b → b ∉ l) :
    Doubly (links.remove head₀ c).1 before (if head = some c then links.next c else head)
      (l.erase c) := by
  induction l generalizing before head with
  | nil => cases mem
  | cons a l ih =>
    have nodup := h.nodup
    obtain ⟨rfl, back, rest⟩ := h
    obtain ⟨notMem, tailNodup⟩ := List.nodup_cons.mp nodup
    by_cases eq : a = c
    · subst eq
      rw [if_pos rfl, List.erase_cons_head]
      exact remove_first back rest notMem fun b eq inside =>
        outside b eq (List.mem_cons_of_mem a inside)
    · have later : c ∈ l := (List.mem_cons.mp mem).resolve_left (Ne.symm eq)
      have notHead : some a ≠ some c := fun eq' => eq (Option.some.inj eq')
      have tail := ih rest later fun b eq' => Option.some.inj eq' ▸ notMem
      rw [if_neg notHead, List.erase_cons_tail (by simpa using eq)]
      -- `a` is the node before `c` exactly when `c` comes next
      have adjacent : links.prev c = some a ↔ links.next a = some c := by
        constructor
        · intro prev
          rcases rest.prev_eq later with ⟨first, -⟩ | ⟨p, inside, eq'⟩
          · exact first
          · obtain rfl := Option.some.inj (eq'.symm.trans prev)
            exact absurd inside notMem
        · intro next
          cases l with
          | nil => cases later
          | cons b l =>
            obtain rfl := Option.some.inj (rest.1.symm.trans next)
            exact rest.2.1
      have prevA : (links.remove head₀ c).1.prev a = before := by
        refine ((Function.update_of_ne eq _ _).trans (Links.setAt_of_ne fun next => ?_)).trans back
        obtain ⟨l₁, l₂, rfl⟩ := rest.next_mem later next
        exact notMem (by simp)
      have nextA : (links.remove head₀ c).1.next a =
          if links.next a = some c then links.next c else links.next a := by
        refine (Function.update_of_ne eq _ _).trans ?_
        by_cases next : links.next a = some c
        · rw [if_pos next, adjacent.mpr next, Links.setAt_some]
        · rw [if_neg next]
          exact Links.setAt_of_ne fun prev => next (adjacent.mp prev)
      refine ⟨rfl, prevA, ?_⟩
      rw [nextA]
      exact tail

theorem remove (h : Doubly links none head l) (mem : c ∈ l) :
    Doubly (links.remove head c).1 none (links.remove head c).2 (l.erase c) := by
  have out := h.remove_aux head mem fun b eq => by cases eq
  have newHead : (links.remove head c).2 = if head = some c then links.next c else head := by
    simp only [Links.remove]
    rcases h.prev_eq mem with ⟨first, prev⟩ | ⟨p, inside, prev⟩
    · simp [first, prev]
    · have notFirst : head ≠ some c := by
        rintro rfl
        cases l with
        | nil => cases mem
        | cons a l =>
          obtain rfl := Option.some.inj h.1
          rw [h.2.1] at prev
          cases prev
      simp [notFirst, prev]
  rw [newHead]
  exact out

end Doubly
