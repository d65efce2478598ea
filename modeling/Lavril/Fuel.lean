import Lavril.Collector

/-!
# Fuel

A result that is reached with some fuel is the result with any more.
-/

universe u v

namespace Collector

/-- Whatever the first gives, the second gives. -/
def Below {α : Type u} (x y : Option α) : Prop := ∀ a, x = some a → y = some a

namespace Below

variable {α β : Type u}

theorem refl (x : Option α) : Below x x := fun _ eq => eq

theorem none (x : Option α) : Below Option.none x := fun a eq => by cases eq

theorem bind {x y : Option α} {f g : α → Option β} (first : Below x y)
    (next : ∀ a, Below (f a) (g a)) : Below (x >>= f) (y >>= g) := by
  intro b eq
  obtain ⟨a, found, rest⟩ := Option.bind_eq_some_iff.mp eq
  exact Option.bind_eq_some_iff.mpr ⟨a, first a found, next a b rest⟩

theorem map {x y : Option α} (f : α → β) (first : Below x y) : Below (x.map f) (y.map f) := by
  intro b eq
  obtain ⟨a, found, rfl⟩ := Option.map_eq_some_iff.mp eq
  exact Option.map_eq_some_iff.mpr ⟨a, first a found, rfl⟩

theorem foldlM {ι : Type v} {f g : α → ι → Option α} (step : ∀ s a, Below (f s a) (g s a))
    (l : List ι) (s : α) : Below (l.foldlM f s) (l.foldlM g s) := by
  induction l generalizing s with
  | nil => exact refl _
  | cons a l ih =>
    rw [List.foldlM_cons, List.foldlM_cons]
    exact (step s a).bind ih

end Below

/-- The result with enough fuel. -/
def Terminates {α : Type u} (run : Nat → Option α) (result : α) : Prop :=
  ∃ enough, ∀ fuel, enough ≤ fuel → run fuel = some result

theorem terminates_of_below {α : Type u} {run : Nat → Option α} {result : α} {fuel : Nat}
    (mono : ∀ fuel more, fuel ≤ more → Below (run fuel) (run more))
    (done : run fuel = some result) : Terminates run result :=
  ⟨fuel, fun more le => mono fuel more le result done⟩

theorem Terminates.unique {α : Type u} {run : Nat → Option α} {r r' : α}
    (first : Terminates run r) (second : Terminates run r') : r = r' := by
  obtain ⟨n, done⟩ := first
  obtain ⟨n', done'⟩ := second
  exact Option.some.inj ((done _ (Nat.le_max_left n n')).symm.trans (done' _ (Nat.le_max_right n n')))

variable {O : Type u} {V : Type v} (L : Layout O V)

theorem mark_below (fuel more : Nat) (le : fuel ≤ more) (a : Nat) (h : Heap O) :
    Below (mark L fuel a h) (mark L more a h) := by
  induction fuel generalizing more a h with
  | zero => exact .none _
  | succ fuel ih =>
    obtain ⟨more, rfl⟩ := Nat.exists_eq_add_of_lt le
    simp only [mark]
    cases h.cells a with
    | none => exact .refl _
    | some c =>
      by_cases marked : c.marked = true
      · simp only [if_pos marked]
        exact .refl _
      · simp only [if_neg marked]
        exact .map _ (.foldlM (fun s b => ih (fuel + more) (by omega) b s) _ _)

section

variable {L} {release release' : Nat → Heap O → Option (Heap O)}
  (below : ∀ a h, Below (release a h) (release' a h))

include below

theorem drop_below (a : Nat) (h : Heap O) : Below (drop release a h) (drop release' a h) := by
  simp only [drop]
  cases h.cells a with
  | none => exact .refl _
  | some c =>
    by_cases last : c.uiRef - 1 = 0 ∧ c.marked = false
    · simp only [if_pos last]
      exact below a _
    · simp only [if_neg last]
      exact .refl _

theorem perform_below (h : Heap O) (action : Action V) :
    Below (perform L release h action) (perform L release' h action) := by
  cases action with
  | drop a => exact drop_below below a h
  | give a value =>
    simp only [perform]
    cases h.cells a with
    | none => exact .refl _
    | some c =>
      refine .bind (.refl _) fun h => ?_
      cases L.replaced c.obj value with
      | none => exact .refl _
      | some b => exact drop_below below b _

theorem performAll_below (actions : List (Action V)) (h : Heap O) :
    Below (performAll L release actions h) (performAll L release' actions h) :=
  .foldlM (fun h action => perform_below below h action) actions h

end

theorem release_below (fuel more : Nat) (le : fuel ≤ more) (a : Nat) (h : Heap O) :
    Below (release L fuel a h) (release L more a h) := by
  induction fuel generalizing more a h with
  | zero => exact .none _
  | succ fuel ih =>
    obtain ⟨more, rfl⟩ := Nat.exists_eq_add_of_lt le
    have rest := fun a h => ih (fuel + more) (by omega) a h
    simp only [release]
    cases h.cells a with
    | none => exact .refl _
    | some c =>
      refine .bind (performAll_below rest _ _) fun h => ?_
      exact .bind (performAll_below rest _ _) fun _ => .refl _

theorem visit_below (fuel more : Nat) (le : fuel ≤ more) (t : Nat) (h : Heap O) :
    Below (visit L fuel t h) (visit L more t h) := by
  have rest := release_below L fuel more le
  simp only [visit]
  cases h.cells t with
  | none => exact .refl _
  | some c =>
    refine .bind (performAll_below rest _ _) fun h => .bind (.refl _) fun h => ?_
    exact .bind (drop_below rest _ _) fun _ => .refl _

theorem sweep_below (fuel more : Nat) (le : fuel ≤ more) (steps steps' : Nat)
    (le' : steps ≤ steps') (t : Option Nat) (h : Heap O) :
    Below (sweep L fuel steps t h) (sweep L more steps' t h) := by
  induction steps generalizing steps' t h with
  | zero =>
    cases t with
    | none => cases steps' <;> exact .refl _
    | some t => exact .none _
  | succ steps ih =>
    obtain ⟨steps', rfl⟩ := Nat.exists_eq_add_of_lt le'
    cases t with
    | none => exact .refl _
    | some t =>
      refine .bind (visit_below L fuel more le t h) fun r => ?_
      exact .bind (ih _ (by omega) r.1 r.2) fun _ => .refl _

theorem unmarkAll_below (steps steps' : Nat) (le : steps ≤ steps') (t : Option Nat) (h : Heap O) :
    Below (unmarkAll steps t h) (unmarkAll steps' t h) := by
  induction steps generalizing steps' t h with
  | zero =>
    cases t with
    | none => cases steps' <;> exact .refl _
    | some t => exact .none _
  | succ steps ih =>
    obtain ⟨steps', rfl⟩ := Nat.exists_eq_add_of_lt le
    cases t with
    | none => exact .refl _
    | some t => exact ih _ (by omega) _ _

theorem collect_below (fuel more : Nat) (le : fuel ≤ more) (roots : List Nat) (h : Heap O) :
    Below (collect L fuel roots h) (collect L more roots h) := by
  refine .bind (.foldlM (fun h a => mark_below L fuel more le a h) _ _) fun h => ?_
  refine .bind (.refl _) fun h' => ?_
  refine .bind (sweep_below L fuel more le fuel more le _ _) fun r => ?_
  exact .bind (unmarkAll_below fuel more le _ _) fun _ => .refl _

end Collector
