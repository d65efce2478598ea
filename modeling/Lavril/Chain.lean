import Mathlib.Data.List.Nodup
import Mathlib.Data.List.Perm.Subperm
import Mathlib.Data.Finset.Range
import Mathlib.Logic.Function.Basic

/-!
# Singly linked chains

A successor function `next : α → Option α` threads several chains through one
pool of nodes. The two updates below splice a node into a chain and let one
node take the place of another; both keep every chain finite.
-/

namespace Chain

universe u

variable {α : Type u}

/-- Following `next` from `a` visits exactly the nodes of the list, then ends. -/
inductive Walk (next : α → Option α) : α → List α → Prop
  | last {a : α} (stop : next a = none) : Walk next a [a]
  | step {a b : α} {l : List α} (link : next a = some b) (tail : Walk next b l) :
      Walk next a (a :: l)

/-- No node has two predecessors. -/
def Injective (next : α → Option α) : Prop :=
  ∀ a b c, next a = some c → next b = some c → a = b

namespace Walk

variable {next : α → Option α}

theorem head_mem {a : α} {l : List α} (h : Walk next a l) : a ∈ l := by
  cases h <;> simp

theorem exists_cons {a : α} {l : List α} (h : Walk next a l) : ∃ rest, l = a :: rest := by
  cases h with
  | last => exact ⟨_, rfl⟩
  | step => exact ⟨_, rfl⟩

theorem unique {a : α} {l : List α} (h : Walk next a l) :
    ∀ {l' : List α}, Walk next a l' → l = l' := by
  induction h with
  | last stop =>
    intro l' h'
    cases h' with
    | last _ => rfl
    | step link _ => rw [stop] at link; cases link
  | step link tail ih =>
    intro l' h'
    cases h' with
    | last stop => rw [stop] at link; cases link
    | step link' tail' =>
      obtain rfl := Option.some.inj (link.symm.trans link')
      rw [ih tail']

/-- The part of a walk from one of its nodes on is the walk of that node. -/
theorem suffix {a x : α} {l : List α} (h : Walk next a l) (hx : x ∈ l) :
    ∃ l', Walk next x l' ∧ l' <:+ l := by
  induction h with
  | last stop =>
    obtain rfl := List.mem_singleton.mp hx
    exact ⟨_, .last stop, List.suffix_refl _⟩
  | @step a b l link tail ih =>
    rcases List.mem_cons.mp hx with rfl | hx
    · exact ⟨_, .step link tail, List.suffix_refl _⟩
    · obtain ⟨l', h', hs⟩ := ih hx
      exact ⟨l', h', hs.trans (List.suffix_cons _ _)⟩

theorem nodup {a : α} {l : List α} (h : Walk next a l) : l.Nodup := by
  induction h with
  | last _ => simp
  | @step a b l link tail ih =>
    refine List.nodup_cons.mpr ⟨fun ha => ?_, ih⟩
    obtain ⟨l', h', hs⟩ := tail.suffix ha
    have same := (Walk.step link tail).unique h'
    have := hs.length_le
    rw [← same, List.length_cons] at this
    omega

theorem not_self_link {a : α} {l : List α} (h : Walk next a l) : next a ≠ some a := by
  intro link
  cases h with
  | last stop => rw [stop] at link; cases link
  | step link' tail =>
    obtain rfl := Option.some.inj (link.symm.trans link')
    have := (Walk.step link' tail).nodup
    exact (List.nodup_cons.mp this).1 tail.head_mem

theorem mem_cases {a x : α} {l : List α} (h : Walk next a l) (hx : x ∈ l) :
    x = a ∨ ∃ y ∈ l, next y = some x := by
  induction h with
  | last _ => exact Or.inl (List.mem_singleton.mp hx)
  | @step a b l link tail ih =>
    rcases List.mem_cons.mp hx with rfl | hx
    · exact Or.inl rfl
    · rcases ih hx with rfl | ⟨y, hy, hl⟩
      · exact Or.inr ⟨a, List.mem_cons_self, link⟩
      · exact Or.inr ⟨y, List.mem_cons_of_mem _ hy, hl⟩

/-- Nodes of a walk that starts below a bound and never leaves it. -/
theorem length_le {next : Nat → Option Nat} {a n : Nat} {l : List Nat}
    (h : Walk next a l) (start : a < n) (closed : ∀ i j, next i = some j → j < n) :
    l.length ≤ n := by
  have inside : ∀ x ∈ l, x ∈ List.range n := by
    intro x hx
    rcases h.mem_cases hx with rfl | ⟨y, _, hy⟩
    · exact List.mem_range.mpr start
    · exact List.mem_range.mpr (closed y x hy)
  simpa using (List.subperm_of_subset h.nodup inside).length_le

end Walk

/-! ## Searching a chain -/

/-- First node from `a` on that satisfies `p`; `none` outside when the fuel
does not reach the end of the chain. -/
def search (next : α → Option α) (p : α → Bool) : Nat → α → Option (Option α)
  | 0, _ => none
  | fuel + 1, a =>
    if p a then some (some a)
    else match next a with
      | none => some none
      | some b => search next p fuel b

/-- What a search finds is what it looked for. -/
theorem search_holds {next : α → Option α} {p : α → Bool} {a b : α} {fuel : Nat}
    (found : search next p fuel a = some (some b)) : p b = true := by
  induction fuel generalizing a with
  | zero => cases found
  | succ fuel ih =>
    rw [search] at found
    split at found
    · rename_i holds
      cases found
      exact holds
    · split at found
      · cases found
      · exact ih found

theorem search_eq {next : α → Option α} {p : α → Bool} {a : α} {l : List α}
    (h : Walk next a l) : ∀ {fuel : Nat}, l.length ≤ fuel →
      search next p fuel a = some (l.find? p) := by
  induction h with
  | @last a stop =>
    rintro (_ | fuel) hf
    · simp at hf
    · by_cases hp : p a <;> simp [search, List.find?, stop, hp]
  | @step a b l link tail ih =>
    rintro (_ | fuel) hf
    · simp at hf
    · have rest := @ih fuel (by simpa using hf)
      by_cases hp : p a <;> simp [search, List.find?, link, hp, rest]

/-! ## Splicing -/

variable [DecidableEq α]

/-- Put `b` right after `a`. -/
def insertAfter (next : α → Option α) (a b : α) : α → Option α :=
  Function.update (Function.update next b (next a)) a (some b)

/-- Let `b` stand in for `a`, whose predecessor is `p`. -/
def replace (next : α → Option α) (p a b : α) : α → Option α :=
  Function.update (Function.update (Function.update next p (some b)) b (next a)) a none

/-- `b` is on no chain: nothing leads to it and it leads nowhere. -/
def Isolated (next : α → Option α) (b : α) : Prop :=
  next b = none ∧ ∀ a, next a ≠ some b

section insertAfter

variable {next : α → Option α} {a b : α}

theorem insertAfter_self (next : α → Option α) (a b : α) :
    insertAfter next a b a = some b := by simp [insertAfter]

theorem insertAfter_new (ne : a ≠ b) : insertAfter next a b b = next a := by
  simp [insertAfter, ne.symm]

theorem insertAfter_other {x : α} (ha : x ≠ a) (hb : x ≠ b) :
    insertAfter next a b x = next x := by
  simp [insertAfter, ha, hb]

theorem Walk.insertAfter (ne : a ≠ b) (iso : Isolated next b) {i : α} {l : List α}
    (h : Walk next i l) (hi : i ≠ b) :
    ∃ l', Walk (insertAfter next a b) i l' ∧ (∀ x ∈ l, x ∈ l') ∧ (a ∈ l → b ∈ l') := by
  induction h with
  | @last i stop =>
    by_cases ha : i = a
    · subst i
      have tail : Walk (Chain.insertAfter next a b) b [b] :=
        .last ((insertAfter_new ne).trans stop)
      exact ⟨_, .step (insertAfter_self next a b) tail, by simp, by simp⟩
    · refine ⟨_, .last ((insertAfter_other ha hi).trans stop), by simp, ?_⟩
      intro hm
      exact absurd (List.mem_singleton.mp hm).symm ha
  | @step i j l link tail ih =>
    have hj : j ≠ b := fun hj => iso.2 i (hj ▸ link)
    obtain ⟨l', w, sub, both⟩ := ih hj
    by_cases ha : i = a
    · subst i
      have mid : Walk (Chain.insertAfter next a b) b (b :: l') :=
        .step ((insertAfter_new ne).trans link) w
      refine ⟨_, .step (insertAfter_self next a b) mid, ?_, by simp⟩
      intro x hx
      rcases List.mem_cons.mp hx with rfl | hx
      · simp
      · simp [sub x hx]
    · refine ⟨_, .step ((insertAfter_other ha hi).trans link) w, ?_, ?_⟩
      · intro x hx
        rcases List.mem_cons.mp hx with rfl | hx
        · simp
        · simp [sub x hx]
      · intro hm
        rcases List.mem_cons.mp hm with rfl | hm
        · exact absurd rfl ha
        · simp [both hm]

theorem Walk.insertAfter_new (ne : a ≠ b) (iso : Isolated next b) {l : List α}
    (h : Walk next a l) : ∃ l', Walk (Chain.insertAfter next a b) b l' := by
  cases h with
  | last stop => exact ⟨_, .last ((Chain.insertAfter_new ne).trans stop)⟩
  | @step _ c l link tail =>
    have hc : c ≠ b := fun hc => iso.2 a (hc ▸ link)
    obtain ⟨l', w, _, _⟩ := Walk.insertAfter ne iso tail hc
    exact ⟨_, .step ((Chain.insertAfter_new ne).trans link) w⟩

theorem Injective.insertAfter (inj : Injective next) (ne : a ≠ b) (iso : Isolated next b) :
    Injective (Chain.insertAfter next a b) := by
  have key : ∀ x c, Chain.insertAfter next a b x = some c →
      (x = a ∧ c = b) ∨ (x = b ∧ next a = some c) ∨ (x ≠ a ∧ x ≠ b ∧ next x = some c) := by
    intro x c h
    by_cases ha : x = a
    · subst x
      rw [insertAfter_self] at h
      exact Or.inl ⟨rfl, (Option.some.inj h).symm⟩
    · by_cases hb : x = b
      · subst x
        exact Or.inr (Or.inl ⟨rfl, (Chain.insertAfter_new ne).symm.trans h⟩)
      · exact Or.inr (Or.inr ⟨ha, hb, (insertAfter_other ha hb).symm.trans h⟩)
  intro x y c hx hy
  rcases key x c hx with ⟨rfl, rfl⟩ | ⟨rfl, lx⟩ | ⟨hxa, hxb, lx⟩ <;>
    rcases key y _ hy with ⟨rfl, hc⟩ | ⟨rfl, ly⟩ | ⟨hya, hyb, ly⟩
  · rfl
  · exact absurd ly (iso.2 _)
  · exact absurd ly (iso.2 _)
  · exact absurd (hc ▸ lx) (iso.2 _)
  · rfl
  · exact absurd (inj _ _ _ lx ly).symm hya
  · exact absurd (hc ▸ lx) (iso.2 _)
  · exact absurd (inj _ _ _ lx ly) hxa
  · exact inj _ _ _ lx ly

end insertAfter

section replace

variable {next : α → Option α} {p a b : α}

theorem replace_old (next : α → Option α) (p a b : α) : replace next p a b a = none := by
  simp [replace]

theorem replace_new (ne : a ≠ b) : replace next p a b b = next a := by
  simp [replace, ne.symm]

theorem replace_prev (hpa : p ≠ a) (hpb : p ≠ b) : replace next p a b p = some b := by
  simp [replace, hpa, hpb]

theorem replace_other {x : α} (ha : x ≠ a) (hb : x ≠ b) (hp : x ≠ p) :
    replace next p a b x = next x := by
  simp [replace, ha, hb, hp]

variable (ne : a ≠ b) (iso : Isolated next b) (inj : Injective next)
  (prev : next p = some a) (hpa : p ≠ a)

include ne iso inj prev hpa

/-- On every chain but those of `a` and `b` themselves the stand-in takes the
place of `a` and every other node stays. -/
theorem Walk.replace {i : α} {l : List α} (h : Walk next i l) (hi : i ≠ b) (hia : i ≠ a) :
    ∃ l', Walk (Chain.replace next p a b) i l' ∧ (∀ x ∈ l, x ≠ a → x ∈ l') ∧
      (a ∈ l → b ∈ l') := by
  have hpb : p ≠ b := by rintro rfl; rw [iso.1] at prev; cases prev
  induction h with
  | @last i stop =>
    have hip : i ≠ p := by rintro rfl; rw [stop] at prev; cases prev
    refine ⟨_, .last ((replace_other hia hi hip).trans stop), by simp, ?_⟩
    intro hm
    exact absurd (List.mem_singleton.mp hm).symm hia
  | @step i j l link tail ih =>
    have hj : j ≠ b := fun hj => iso.2 i (hj ▸ link)
    by_cases hja : j = a
    · subst j
      obtain rfl := inj _ _ _ link prev
      cases tail with
      | last stop =>
        have w : Walk (Chain.replace next i a b) b [b] := .last ((replace_new ne).trans stop)
        refine ⟨_, .step (replace_prev hpa hpb) w, ?_, by simp⟩
        intro x hx hxa
        simp only [List.mem_cons, List.not_mem_nil, or_false] at hx
        rcases hx with rfl | rfl
        · simp
        · exact absurd rfl hxa
      | @step _ c l' link' tail' =>
        have hc : c ≠ b := fun hc => iso.2 a (hc ▸ link')
        have hca : c ≠ a := by
          rintro rfl
          exact hpa (inj _ _ _ prev link')
        have nodup := (Walk.step link (Walk.step link' tail')).nodup
        -- the rest of the chain comes after `a`, so no link of it changes
        have rest : ∀ {x : α} {m : List α}, Walk next x m → x ≠ b → a ∉ m → i ∉ m →
            Walk (Chain.replace next i a b) x m := by
          intro x m w
          induction w with
          | @last x stop =>
            intro hxb ham him
            simp only [List.mem_singleton] at ham him
            exact .last ((replace_other (Ne.symm ham) hxb (Ne.symm him)).trans stop)
          | @step x y m lk _ ihw =>
            intro hxb ham him
            simp only [List.mem_cons, not_or] at ham him
            have hyb : y ≠ b := fun hy => iso.2 x (hy ▸ lk)
            exact .step ((replace_other (Ne.symm ham.1) hxb (Ne.symm him.1)).trans lk)
              (ihw hyb ham.2 him.2)
        simp only [List.nodup_cons, List.mem_cons, not_or] at nodup
        have w := rest tail' hc nodup.2.1 nodup.1.2
        refine ⟨_, .step (replace_prev hpa hpb) (.step ((replace_new ne).trans link') w),
          ?_, by simp⟩
        intro x hx hxa
        simp only [List.mem_cons] at hx ⊢
        rcases hx with rfl | rfl | hx
        · exact Or.inl rfl
        · exact absurd rfl hxa
        · exact Or.inr (Or.inr hx)
    · obtain ⟨l', w, sub, both⟩ := ih hj hja
      have hip : i ≠ p := by
        rintro rfl
        exact hja (Option.some.inj (link.symm.trans prev))
      refine ⟨_, .step ((replace_other hia hi hip).trans link) w, ?_, ?_⟩
      · intro x hx hxa
        rcases List.mem_cons.mp hx with rfl | hx
        · simp
        · simp [sub x hx hxa]
      · intro hm
        rcases List.mem_cons.mp hm with rfl | hm
        · exact absurd rfl hia
        · simp [both hm]

theorem Walk.replace_new {l : List α} (h : Walk next a l) :
    ∃ l', Walk (Chain.replace next p a b) b l' := by
  cases h with
  | last stop => exact ⟨_, .last ((Chain.replace_new ne).trans stop)⟩
  | @step _ c l link tail =>
    have hc : c ≠ b := fun hc => iso.2 a (hc ▸ link)
    have hca : c ≠ a := by
      rintro rfl
      exact hpa (inj _ _ _ prev link)
    obtain ⟨l', w, _, _⟩ := Walk.replace ne iso inj prev hpa tail hc hca
    exact ⟨_, .step ((Chain.replace_new ne).trans link) w⟩

theorem Injective.replace : Injective (Chain.replace next p a b) := by
  have hpb : p ≠ b := by rintro rfl; rw [iso.1] at prev; cases prev
  have key : ∀ x c, Chain.replace next p a b x = some c →
      (x = p ∧ c = b) ∨ (x = b ∧ next a = some c) ∨
      (x ≠ a ∧ x ≠ b ∧ x ≠ p ∧ next x = some c) := by
    intro x c h
    by_cases ha : x = a
    · subst x; rw [replace_old] at h; cases h
    · by_cases hb : x = b
      · subst x
        exact Or.inr (Or.inl ⟨rfl, (replace_new ne).symm.trans h⟩)
      · by_cases hp : x = p
        · subst x
          rw [replace_prev hpa hpb] at h
          exact Or.inl ⟨rfl, (Option.some.inj h).symm⟩
        · exact Or.inr (Or.inr ⟨ha, hb, hp, (replace_other ha hb hp).symm.trans h⟩)
  intro x y c hx hy
  rcases key x c hx with ⟨rfl, rfl⟩ | ⟨rfl, lx⟩ | ⟨hxa, hxb, hxp, lx⟩ <;>
    rcases key y _ hy with ⟨rfl, hc⟩ | ⟨rfl, ly⟩ | ⟨hya, hyb, hyp, ly⟩
  · rfl
  · exact absurd ly (iso.2 _)
  · exact absurd ly (iso.2 _)
  · exact absurd (hc ▸ lx) (iso.2 _)
  · rfl
  · exact absurd (inj _ _ _ lx ly).symm hya
  · exact absurd (hc ▸ lx) (iso.2 _)
  · exact absurd (inj _ _ _ lx ly) hxa
  · exact inj _ _ _ lx ly

end replace

end Chain
