import Mathlib.Logic.Basic

/-!
# Computations that fail exactly when a condition does not hold

`Succeeds x P Q`: the computation `x` has a value exactly when `P` holds, and the value
satisfies `Q`. The rules take a computation apart as its definition puts it together.
-/

universe u

structure Succeeds {ε α : Type u} (x : Except ε α) (P : Prop) (Q : α → Prop) : Prop where
  ok : P → ∃ a, x = .ok a ∧ Q a
  error : ¬P → ∃ e, x = .error e

namespace Succeeds

variable {ε α β : Type u} {x : Except ε α} {P S : Prop} {Q Q' : α → Prop} {R : β → Prop}

theorem of_ok {a : α} (holds : P) (post : Q a) : Succeeds (.ok a : Except ε α) P Q :=
  ⟨fun _ => ⟨a, rfl, post⟩, fun fails => absurd holds fails⟩

theorem of_error {e : ε} (fails : ¬P) : Succeeds (.error e : Except ε α) P Q :=
  ⟨fun holds => absurd holds fails, fun _ => ⟨e, rfl⟩⟩

theorem mono (h : Succeeds x P Q) (same : S ↔ P) (post : ∀ a, P → Q a → Q' a) :
    Succeeds x S Q' where
  ok holds := by
    obtain ⟨a, eq, q⟩ := h.ok (same.mp holds)
    exact ⟨a, eq, post a (same.mp holds) q⟩
  error fails := h.error fun p => fails (same.mpr p)

theorem congr (h : Succeeds x P Q) (same : S ↔ P) : Succeeds x S Q :=
  h.mono same fun _ _ q => q

/-- A computation whose condition holds. -/
theorem always (h : Succeeds x P Q) (holds : P) : Succeeds x True Q :=
  h.congr (iff_of_true trivial holds)

theorem bind {f : α → Except ε β} (h : Succeeds x P Q)
    (next : ∀ a, P → Q a → Succeeds (f a) S R) : Succeeds (x >>= f) (P ∧ S) R := by
  by_cases holds : P
  · obtain ⟨a, rfl, q⟩ := h.ok holds
    exact (next a holds q).congr (and_iff_right holds)
  · obtain ⟨e, rfl⟩ := h.error holds
    exact ⟨fun both => absurd both.1 holds, fun _ => ⟨e, rfl⟩⟩

/-- What comes next cannot fail. -/
theorem bind_ok {f : α → Except ε β} (h : Succeeds x P Q)
    (next : ∀ a, P → Q a → Succeeds (f a) True R) : Succeeds (x >>= f) P R :=
  (h.bind next).congr (and_true P).symm.to_iff

/-- What comes first cannot fail. -/
theorem ok_bind {f : α → Except ε β} (h : Succeeds x True Q)
    (next : ∀ a, Q a → Succeeds (f a) S R) : Succeeds (x >>= f) S R :=
  (h.bind fun a _ q => next a q).congr (true_and S).symm.to_iff

/-- What comes first fails. -/
theorem error_bind {f : α → Except ε β} (h : Succeeds x P Q) (fails : ¬P) (never : ¬S) :
    Succeeds (x >>= f) S R := by
  obtain ⟨e, rfl⟩ := h.error fails
  exact .of_error never

theorem map {f : α → β} (h : Succeeds x P Q) (post : ∀ a, P → Q a → R (f a)) :
    Succeeds (f <$> x) P R where
  ok holds := by
    obtain ⟨a, rfl, q⟩ := h.ok holds
    exact ⟨f a, rfl, post a holds q⟩
  error fails := by
    obtain ⟨e, rfl⟩ := h.error fails
    exact ⟨e, rfl⟩

/-- A loop that cannot fail keeps its invariant. -/
theorem foldlM {γ : Type u} {f : β → γ → Except ε β} {l : List γ} {b : β} (start : R b)
    (step : ∀ c ∈ l, ∀ b, R b → Succeeds (f b c) True R) : Succeeds (l.foldlM f b) True R := by
  induction l generalizing b with
  | nil => exact .of_ok trivial start
  | cons c l ih =>
    rw [List.foldlM_cons]
    exact (step c (.head l) b start).ok_bind fun b holds =>
      ih holds fun c mem => step c (.tail _ mem)

end Succeeds

/-- What holds of the value, if there is one. -/
def Ensures {ε α : Type u} (x : Except ε α) (Q : α → Prop) : Prop := ∀ a, x = .ok a → Q a

namespace Ensures

variable {ε α β : Type u} {x : Except ε α} {P : Prop} {Q Q' : α → Prop} {R : β → Prop}

theorem of_ok {a : α} (post : Q a) : Ensures (.ok a : Except ε α) Q := by
  rintro _ ⟨⟩
  exact post

theorem of_error {e : ε} : Ensures (.error e : Except ε α) Q := by
  rintro _ ⟨⟩

theorem of_succeeds (succeeds : Succeeds x P Q) : Ensures x Q := by
  rintro a rfl
  by_cases holds : P
  · obtain ⟨a', eq, post⟩ := succeeds.ok holds
    cases eq
    exact post
  · obtain ⟨e, eq⟩ := succeeds.error holds
    cases eq

theorem and (h : Ensures x Q) (h' : Ensures x Q') : Ensures x fun a => Q a ∧ Q' a :=
  fun a eq => ⟨h a eq, h' a eq⟩

theorem mono (h : Ensures x Q) (post : ∀ a, Q a → Q' a) : Ensures x Q' :=
  fun a eq => post a (h a eq)

theorem bind {f : α → Except ε β} (h : Ensures x Q) (next : ∀ a, Q a → Ensures (f a) R) :
    Ensures (x >>= f) R := by
  cases x with
  | error e => exact of_error
  | ok a => exact next a (h a rfl)

theorem map {f : α → β} (h : Ensures x Q) (post : ∀ a, Q a → R (f a)) :
    Ensures (f <$> x) R := by
  cases x with
  | error e => exact of_error
  | ok a => exact of_ok (post a (h a rfl))

/-- What is proved apart of the value of a computation that has one. -/
theorem and_succeeds (h : Ensures x Q') (succeeds : Succeeds x P Q) :
    Succeeds x P fun a => Q a ∧ Q' a where
  ok holds := by
    obtain ⟨a, eq, post⟩ := succeeds.ok holds
    exact ⟨a, eq, post, h a eq⟩
  error := succeeds.error

end Ensures
