import Mathlib.Algebra.Group.Basic
import Mathlib.Tactic.Common

/-!
# Computations that shift a potential

A computation over a state that may fail shifts a potential `φ` by `k` when
every run of it that ends in a good state has started in one, `k` below. The
rules add the shifts up along a computation.
-/

namespace Potential

variable {σ A α β : Type} [AddMonoid A]

theorem run_bind {m : StateT σ Option α} {f : α → StateT σ Option β} {s s' : σ} {b : β} :
    (m >>= f) s = some (b, s') ↔ ∃ a mid, m s = some (a, mid) ∧ f a mid = some (b, s') :=
  Option.bind_eq_some_iff.trans ⟨fun ⟨⟨a, mid⟩, both⟩ => ⟨a, mid, both⟩,
    fun ⟨a, mid, both⟩ => ⟨(a, mid), both⟩⟩

/-- `m` shifts `φ` by `k`. -/
def Shifts (good : σ → Prop) (φ : σ → A) (k : A) (m : StateT σ Option α) : Prop :=
  ∀ s a s', m s = some (a, s') → good s' → good s ∧ φ s' = φ s + k

namespace Shifts

variable {good : σ → Prop} {φ : σ → A} {k l : A}

theorem pure (a : α) : Shifts good φ 0 (Pure.pure a) := by
  intro s b s' run fine
  cases run
  exact ⟨fine, (add_zero _).symm⟩

theorem failure : Shifts good φ k (α := α) failure := by
  intro s a s' run
  cases run

theorem bind {m : StateT σ Option α} {f : α → StateT σ Option β} (first : Shifts good φ k m)
    (rest : ∀ a, Shifts good φ l (f a)) : Shifts good φ (k + l) (m >>= f) := by
  intro s b s' run fine
  obtain ⟨a, mid, left, right⟩ := run_bind.mp run
  obtain ⟨midFine, total⟩ := rest a mid b s' right fine
  obtain ⟨startFine, shift⟩ := first s a mid left midFine
  exact ⟨startFine, by rw [total, shift, add_assoc]⟩

/-- A part that shifts nothing, before the rest. -/
theorem after {m : StateT σ Option α} {f : α → StateT σ Option β} (first : Shifts good φ 0 m)
    (rest : ∀ a, Shifts good φ k (f a)) : Shifts good φ k (m >>= f) := by
  have both := first.bind rest
  rwa [zero_add] at both

/-- The last part, before a result is made of what it gives. -/
theorem last {m : StateT σ Option α} (shifts : Shifts good φ k m) (f : α → β) :
    Shifts good φ k (m >>= fun a => Pure.pure (f a)) := by
  have both := shifts.bind (l := 0) fun a => pure (f a)
  rwa [add_zero] at both

theorem ite {p : Prop} [Decidable p] {m m' : StateT σ Option α} (yes : Shifts good φ k m)
    (no : Shifts good φ k m') : Shifts good φ k (if p then m else m') := by
  split
  · exact yes
  · exact no

theorem congr {m : StateT σ Option α} (shifts : Shifts good φ k m) (eq : k = l) :
    Shifts good φ l m := eq ▸ shifts

/-- Reads the state. -/
theorem read {f : σ → StateT σ Option β} (rest : ∀ s, Shifts good φ k (f s)) :
    Shifts good φ k (get >>= f) := by
  intro s b s' run
  exact rest s s b s' run

theorem modify {f : σ → σ} (fine : ∀ s, good (f s) → good s) (shift : ∀ s, φ (f s) = φ s + k) :
    Shifts good φ k (modify f) := by
  intro s a s' run
  cases run
  exact fun good => ⟨fine s good, shift s⟩

end Shifts

/-! ## Computations that come back -/

/-- `m` gives a result when it starts in `s`. -/
def Returns (s : σ) (m : StateT σ Option α) : Prop := (m s).isSome

namespace Returns

variable {s : σ}

theorem pure (a : α) : Returns s (Pure.pure a) := rfl

theorem modify (f : σ → σ) : Returns s (modify f) := rfl

theorem bind {m : StateT σ Option α} {f : α → StateT σ Option β} (first : Returns s m)
    (rest : ∀ a mid, Returns mid (f a)) : Returns s (m >>= f) := by
  obtain ⟨⟨a, mid⟩, run⟩ := Option.isSome_iff_exists.mp first
  obtain ⟨⟨b, s'⟩, run'⟩ := Option.isSome_iff_exists.mp (rest a mid)
  exact Option.isSome_iff_exists.mpr ⟨(b, s'), run_bind.mpr ⟨a, mid, run, run'⟩⟩

theorem read {f : σ → StateT σ Option β} (rest : Returns s (f s)) : Returns s (get >>= f) := rest

theorem ite {p : Prop} [Decidable p] {m m' : StateT σ Option α} (yes : Returns s m)
    (no : Returns s m') : Returns s (if p then m else m') := by
  split
  · exact yes
  · exact no

end Returns

end Potential
