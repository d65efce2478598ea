import Lavril.Fuel
import Lavril.Potential

/-!
# Computations under an invariant

Computations over a state that may not end, started where an invariant of the state holds:
what holds when they end, that they end from every such state, and that they end from one.
-/

namespace Invariance

open Potential

variable {σ α β : Type}

/-- A run that starts where `I` holds and ends, ends where it holds, with a result of which `Q`
holds. -/
def Meets (I : σ → Prop) (x : StateT σ Option α) (Q : α → Prop) : Prop :=
  ∀ s a s', I s → x s = some (a, s') → I s' ∧ Q a

/-- Every run that starts where `I` holds ends. -/
def Ends (I : σ → Prop) (x : StateT σ Option α) : Prop := ∀ s, I s → ∃ r, x s = some r

/-- Some run that starts where `I` holds ends. -/
def MayEnd (I : σ → Prop) (x : StateT σ Option α) : Prop := ∃ s, I s ∧ ∃ r, x s = some r

/-- What ends the first ends the second, with the same result. -/
def Extends (x y : StateT σ Option α) : Prop := ∀ s, Collector.Below (x s) (y s)

variable {I : σ → Prop} {x y : StateT σ Option α} {f g : α → StateT σ Option β} {Q Q' : α → Prop}
  {R : β → Prop}

namespace Meets

theorem pure {a : α} (holds : Q a) : Meets I (Pure.pure a) Q := by
  intro s b s' start run
  cases run
  exact ⟨start, holds⟩

theorem failure : Meets I failure Q := by
  intro s a s' _ run
  cases run

theorem bind (first : Meets I x Q) (rest : ∀ a, Q a → Meets I (f a) R) : Meets I (x >>= f) R := by
  intro s b s' start run
  obtain ⟨a, mid, left, right⟩ := run_bind.mp run
  obtain ⟨between, holds⟩ := first s a mid start left
  exact rest a holds mid b s' between right

theorem read {f : σ → StateT σ Option β} (rest : ∀ s, I s → Meets I (f s) R) :
    Meets I (get >>= f) R := by
  intro s b s' start run
  exact rest s start s b s' start run

theorem mono (meets : Meets I x Q) (weaker : ∀ a, Q a → Q' a) : Meets I x Q' := by
  intro s a s' start run
  obtain ⟨finish, holds⟩ := meets s a s' start run
  exact ⟨finish, weaker a holds⟩

end Meets

namespace Ends

theorem pure (a : α) : Ends I (Pure.pure a) := fun s _ => ⟨(a, s), rfl⟩

theorem bind (first : Ends I x) (meets : Meets I x Q) (rest : ∀ a, Q a → Ends I (f a)) :
    Ends I (x >>= f) := by
  intro s start
  obtain ⟨⟨a, mid⟩, left⟩ := first s start
  obtain ⟨between, holds⟩ := meets s a mid start left
  obtain ⟨⟨b, s'⟩, right⟩ := rest a holds mid between
  exact ⟨(b, s'), run_bind.mpr ⟨a, mid, left, right⟩⟩

theorem read {f : σ → StateT σ Option β} (rest : ∀ s, I s → Ends I (f s)) : Ends I (get >>= f) :=
  fun s start => rest s start s start

theorem extends_ (ends : Ends I x) (more : Extends x y) : Ends I y := by
  intro s start
  obtain ⟨r, run⟩ := ends s start
  exact ⟨r, more s r run⟩

end Ends

namespace MayEnd

theorem first (may : MayEnd I (x >>= f)) : MayEnd I x := by
  obtain ⟨s, start, ⟨b, s'⟩, run⟩ := may
  obtain ⟨a, mid, left, -⟩ := run_bind.mp run
  exact ⟨s, start, (a, mid), left⟩

theorem rest (may : MayEnd I (x >>= f)) (meets : Meets I x Q) : ∃ a, Q a ∧ MayEnd I (f a) := by
  obtain ⟨s, start, ⟨b, s'⟩, run⟩ := may
  obtain ⟨a, mid, left, right⟩ := run_bind.mp run
  obtain ⟨between, holds⟩ := meets s a mid start left
  exact ⟨a, holds, mid, between, (b, s'), right⟩

theorem read {f : σ → StateT σ Option β} (may : MayEnd I (get >>= f)) :
    ∃ s, I s ∧ MayEnd I (f s) := by
  obtain ⟨s, start, r, run⟩ := may
  exact ⟨s, start, s, start, r, run⟩

end MayEnd

namespace Extends

theorem refl (x : StateT σ Option α) : Extends x x := fun s => .refl (x s)

theorem failure (x : StateT σ Option α) : Extends failure x := fun s => .none (x s)

theorem bind (first : Extends x y) (rest : ∀ a, Extends (f a) (g a)) :
    Extends (x >>= f) (y >>= g) :=
  fun s => (first s).bind fun r => rest r.1 r.2

end Extends

end Invariance
