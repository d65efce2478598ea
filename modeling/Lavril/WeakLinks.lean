import Lavril.RefCounted

/-!
# An object and its weak reference

An object and its `LVWeakRef` point at each other, and each clears the pointer of the
other one when it goes. What they point at is kept apart here from the counts.
-/

namespace Lavril

/-- The part of an object that its weak reference has to do with. -/
structure Link where
  type : LVObjectType
  weakref : Option Nat
  obj : Option Reference
  target : Option Nat

/-- The weak references in memory and their objects: `size` is the number of addresses. -/
structure Linked (link : Nat → Option Link) (size : Nat) : Prop where
  bound {a l} : link a = some l → a < size
  weak {a l w} : link a = some l → l.weakref = some w →
    ∃ d, link w = some d ∧ d.type = .OT_WEAKREF ∧ d.obj = some ⟨l.type, a⟩
  back {w d r} : link w = some d → d.obj = some r →
    d.type = .OT_WEAKREF ∧ d.target = some r.pRefCounted ∧
      ∃ l, link r.pRefCounted = some l ∧ l.type = r.type ∧ l.weakref = some w
  target {w d a} : link w = some d → d.target = some a →
    a < size ∧ ∀ l, link a = some l → d.obj = some ⟨l.type, a⟩
  unique {w w' d d' a} : link w = some d → link w' = some d' → d.target = some a →
    d'.target = some a → w = w'
  made {w d} : link w = some d → d.type = .OT_WEAKREF → ∃ a, d.target = some a

namespace Link

/-- The pointers to an address are cleared. -/
def forget (a : Nat) (l : Link) : Link :=
  { l with
    weakref := if l.weakref = some a then none else l.weakref
    obj := if l.obj.map (·.pRefCounted) = some a then none else l.obj }

variable {a w : Nat} {l : Link} {r : Reference}

theorem weakref_of_forget (h : (l.forget a).weakref = some w) : l.weakref = some w ∧ w ≠ a := by
  unfold forget at h
  split at h
  · cases h
  · rename_i ne
    exact ⟨h, fun eq => ne (eq ▸ h)⟩

theorem obj_of_forget (h : (l.forget a).obj = some r) :
    l.obj = some r ∧ r.pRefCounted ≠ a := by
  unfold forget at h
  dsimp only at h
  split at h
  · cases h
  · rename_i ne
    exact ⟨h, fun eq => ne (by rw [h, Option.map_some, eq])⟩

theorem forget_weakref (h : l.weakref = some w) (ne : w ≠ a) : (l.forget a).weakref = some w := by
  rw [forget]
  dsimp only
  rw [if_neg (by simp [h, ne]), h]

theorem forget_obj (h : l.obj = some r) (ne : r.pRefCounted ≠ a) :
    (l.forget a).obj = some r := by
  rw [forget]
  dsimp only
  rw [if_neg (by simp [h, ne]), h]

end Link

namespace Linked

variable {link : Nat → Option Link} {size a : Nat} {l : Link}

/-- A new object that is no weak reference. -/
theorem append (linked : Linked link size) {type : LVObjectType} (plain : type ≠ .OT_WEAKREF) :
    Linked (fun b => if b = size then some ⟨type, none, none, none⟩ else link b) (size + 1) := by
  have old {b : Nat} {l : Link} (h : link b = some l) :
      (if b = size then some ⟨type, none, none, none⟩ else link b) = some l := by
    rw [if_neg (by have := linked.bound h; omega), h]
  constructor
  case bound =>
    intro b l h
    split at h
    · omega
    · have := linked.bound h
      omega
  case weak =>
    intro b l w h weakref
    split at h
    · cases h
      cases weakref
    · obtain ⟨d, at_w, type, obj⟩ := linked.weak h weakref
      exact ⟨d, old at_w, type, obj⟩
  case back =>
    intro w d r h obj
    split at h
    · cases h
      cases obj
    · obtain ⟨type, target, l, at_r, rest⟩ := linked.back h obj
      exact ⟨type, target, l, old at_r, rest⟩
  case target =>
    intro w d b h target
    split at h
    · cases h
      cases target
    · obtain ⟨lt, obj⟩ := linked.target h target
      refine ⟨by omega, fun l h' => obj l ?_⟩
      rwa [if_neg (by omega)] at h'
  case unique =>
    intro w w' d d' b h h' target target'
    split at h
    · cases h
      cases target
    · split at h'
      · cases h'
        cases target'
      · exact linked.unique h h' target target'
  case made =>
    intro w d h weak
    split at h
    · cases h
      exact absurd weak plain
    · exact linked.made h weak

/-- An object that has no weak reference gets one. -/
theorem attach (linked : Linked link size) (here : link a = some l) (without : l.weakref = none) :
    Linked (fun b => if b = size then some ⟨.OT_WEAKREF, none, some ⟨l.type, a⟩, some a⟩
      else if b = a then some { l with weakref := some size } else link b) (size + 1) := by
  have lt := linked.bound here
  -- no weak reference was created for the object that is still there
  have fresh {w : Nat} {d : Link} (h : link w = some d) : d.target ≠ some a := by
    intro target
    obtain ⟨-, -, l', at_a, -, weakref⟩ := linked.back h ((linked.target h target).2 l here)
    rw [here] at at_a
    cases at_a
    rw [without] at weakref
    cases weakref
  constructor
  case bound =>
    intro b l' h
    split at h
    · omega
    · split at h
      · omega
      · have := linked.bound h
        omega
  case weak =>
    intro b l' w h weakref
    split at h
    · cases h
      cases weakref
    · split at h
      · cases h
        cases weakref
        rename_i eq
        exact ⟨_, if_pos rfl, rfl, by rw [eq]⟩
      · obtain ⟨d, at_w, type, obj⟩ := linked.weak h weakref
        have := linked.bound at_w
        by_cases eq : w = a
        · subst eq
          rw [here] at at_w
          cases at_w
          exact ⟨{ l with weakref := some size }, by rw [if_neg (by omega), if_pos rfl], type, obj⟩
        · exact ⟨d, by rw [if_neg (by omega), if_neg eq, at_w], type, obj⟩
  case back =>
    intro w d r h obj
    split at h
    · cases h
      cases obj
      rename_i eq
      exact ⟨rfl, rfl, { l with weakref := some size },
        by rw [if_neg (by dsimp only; omega), if_pos rfl], rfl, by rw [eq]⟩
    · have old : ∃ d₀, link w = some d₀ ∧ d₀.type = d.type ∧ d₀.obj = d.obj ∧
          d₀.target = d.target := by
        split at h
        · cases h
          rename_i eq
          exact ⟨l, by rw [eq, here], rfl, rfl, rfl⟩
        · exact ⟨d, h, rfl, rfl, rfl⟩
      obtain ⟨d₀, at_w, type₀, obj₀, target₀⟩ := old
      obtain ⟨type, target, l', at_r, type', weakref⟩ := linked.back at_w (obj₀.trans obj)
      have := linked.bound at_r
      refine ⟨type₀ ▸ type, target₀ ▸ target, l', ?_, type', weakref⟩
      have ne : r.pRefCounted ≠ a := by
        intro eq
        rw [eq, here] at at_r
        cases at_r
        rw [without] at weakref
        cases weakref
      rw [if_neg (by omega), if_neg ne, at_r]
  case target =>
    intro w d b h target
    split at h
    · cases h
      cases target
      refine ⟨by omega, fun l' h' => ?_⟩
      rw [if_neg (by omega), if_pos rfl] at h'
      cases h'
      rfl
    · have old : ∃ d₀, link w = some d₀ ∧ d₀.obj = d.obj ∧ d₀.target = d.target := by
        split at h
        · cases h
          rename_i eq
          exact ⟨l, by rw [eq, here], rfl, rfl⟩
        · exact ⟨d, h, rfl, rfl⟩
      obtain ⟨d₀, at_w, obj₀, target₀⟩ := old
      obtain ⟨lt, obj⟩ := linked.target at_w (target₀.trans target)
      have ne : b ≠ a := fun eq => fresh at_w (eq ▸ target₀.trans target)
      refine ⟨by omega, fun l' h' => obj₀ ▸ obj l' ?_⟩
      rwa [if_neg (by omega), if_neg ne] at h'
  case unique =>
    have old {w : Nat} {d : Link} (ne : w ≠ size)
        (h : (if w = size then some ⟨.OT_WEAKREF, none, some ⟨l.type, a⟩, some a⟩
          else if w = a then some { l with weakref := some size } else link w) = some d) :
        ∃ d₀, link w = some d₀ ∧ d₀.target = d.target := by
      rw [if_neg ne] at h
      split at h
      · cases h
        rename_i eq
        exact ⟨l, by rw [eq, here], rfl⟩
      · exact ⟨d, h, rfl⟩
    intro w w' d d' b h h' target target'
    by_cases new : w = size <;> by_cases new' : w' = size
    · rw [new, new']
    · obtain ⟨d₀, at_w, same⟩ := old new' h'
      rw [if_pos new] at h
      cases h
      cases target
      exact absurd (same.trans target') (fresh at_w)
    · obtain ⟨d₀, at_w, same⟩ := old new h
      rw [if_pos new'] at h'
      cases h'
      cases target'
      exact absurd (same.trans target) (fresh at_w)
    · obtain ⟨d₀, at_w, same⟩ := old new h
      obtain ⟨d₁, at_w', same'⟩ := old new' h'
      exact linked.unique at_w at_w' (same.trans target) (same'.trans target')
  case made =>
    intro w d h weak
    split at h
    · cases h
      exact ⟨a, rfl⟩
    · split at h
      · cases h
        exact linked.made (d := l) here weak
      · exact linked.made h weak

/-- An object goes, and nothing points to it any more. -/
theorem free (linked : Linked link size) (a : Nat) :
    Linked (fun b => if b = a then none else (link b).map (·.forget a)) size := by
  have old {b : Nat} {l : Link}
      (h : (if b = a then none else (link b).map (·.forget a)) = some l) :
      b ≠ a ∧ ∃ l₀, link b = some l₀ ∧ l = l₀.forget a := by
    split at h
    · cases h
    · rename_i ne
      obtain ⟨l₀, at_b, eq⟩ := Option.map_eq_some_iff.mp h
      exact ⟨ne, l₀, at_b, eq.symm⟩
  have new {b : Nat} {l : Link} (ne : b ≠ a) (h : link b = some l) :
      (if b = a then none else (link b).map (·.forget a)) = some (l.forget a) := by
    rw [if_neg ne, h, Option.map_some]
  constructor
  case bound =>
    intro b l h
    obtain ⟨-, l₀, at_b, -⟩ := old h
    exact linked.bound at_b
  case weak =>
    intro b l w h weakref
    obtain ⟨ne, l₀, at_b, rfl⟩ := old h
    obtain ⟨weakref₀, ne'⟩ := Link.weakref_of_forget weakref
    obtain ⟨d, at_w, type, obj⟩ := linked.weak at_b weakref₀
    exact ⟨_, new ne' at_w, type, Link.forget_obj obj ne⟩
  case back =>
    intro w d r h obj
    obtain ⟨ne, d₀, at_w, rfl⟩ := old h
    obtain ⟨obj₀, ne'⟩ := Link.obj_of_forget obj
    obtain ⟨type, target, l, at_r, type', weakref⟩ := linked.back at_w obj₀
    exact ⟨type, target, _, new ne' at_r, type', Link.forget_weakref weakref ne⟩
  case target =>
    intro w d b h target
    obtain ⟨ne, d₀, at_w, rfl⟩ := old h
    obtain ⟨lt, obj⟩ := linked.target at_w target
    refine ⟨lt, fun l h' => ?_⟩
    obtain ⟨ne', l₀, at_b, rfl⟩ := old h'
    exact Link.forget_obj (obj l₀ at_b) ne'
  case unique =>
    intro w w' d d' b h h' target target'
    obtain ⟨-, d₀, at_w, rfl⟩ := old h
    obtain ⟨-, d₁, at_w', rfl⟩ := old h'
    exact linked.unique at_w at_w' target target'
  case made =>
    intro w d h weak
    obtain ⟨-, d₀, at_w, rfl⟩ := old h
    exact linked.made (d := d₀) at_w weak

end Linked

end Lavril
