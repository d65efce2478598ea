import Lavril.FuncState

/-!
# The line of an instruction

`GetLine` looks for the last entry of the line table that starts before an instruction. The
search leaves its loop on an equal entry, on an entry whose successor starts later, or when
the bounds cross; a second loop then walks back. All three exits leave a position after
which no entry starts before the instruction, which is all the second loop needs.
-/

namespace Lavril.FunctionPrototype

def lineinfos : FunctionPrototype → List LVLineInfo | ⟨_, _, _, _, _, _, _, _, x, _⟩ => x

section search

variable (lineinfos : List LVLineInfo) (op : Int)

/-- `_lineinfos[i]`; `none` outside the table. -/
def lineinfoAt (i : Int) : Option LVLineInfo := if 0 ≤ i then lineinfos[i.toNat]? else none

/-- The first loop of `GetLine`; the result is `mid`. -/
def searchLine (low high mid : Int) : Option Int :=
  if low ≤ high then
    let mid := low + (high - low) / 2
    match lineinfoAt lineinfos mid with
    | none => none
    | some cur =>
      if cur.op > op then searchLine low (mid - 1) mid
      else if cur.op < op then
        if mid < (lineinfos.length : Int) - 1 then
          match lineinfoAt lineinfos (mid + 1) with
          | none => none
          | some next => if next.op ≥ op then some mid else searchLine (mid + 1) high mid
        else searchLine (mid + 1) high mid
      else some mid
  else some mid
termination_by (high + 1 - low).toNat
decreasing_by all_goals omega

/-- The second loop of `GetLine`. -/
def walkBack (mid : Int) : Option Int :=
  if 0 < mid then
    match lineinfoAt lineinfos mid with
    | none => none
    | some li => if li.op ≥ op then walkBack (mid - 1) else some mid
  else some mid
termination_by mid.toNat
decreasing_by omega

end search

/-- `op` is the position of the instruction, `curr - _instructions`. -/
def getLine (func : FunctionPrototype) (op : Int) : Option Int := do
  let _line ← lineinfoAt func.lineinfos 0
  let mid ← searchLine func.lineinfos op 0 (func.lineinfos.length - 1) 0
  let mid ← walkBack func.lineinfos op mid
  let li ← lineinfoAt func.lineinfos mid
  return li.line

section correct

variable {lineinfos : List LVLineInfo} {op : Int}

/-- The order in which lines are added. -/
def Nondecreasing (lineinfos : List LVLineInfo) : Prop :=
  lineinfos.Pairwise fun li li' => li.op ≤ li'.op

/-- No entry after `mid` starts before the instruction. -/
def NoneAfter (lineinfos : List LVLineInfo) (op mid : Int) : Prop :=
  ∀ (j : Nat) li, mid < j → lineinfos[j]? = some li → op ≤ li.op

theorem lineinfoAt_natCast (i : Nat) : lineinfoAt lineinfos i = lineinfos[i]? := by
  simp [lineinfoAt]

theorem lineinfoAt_inside {i : Int} (nonneg : 0 ≤ i) (lt : i < lineinfos.length) :
    ∃ li, lineinfoAt lineinfos i = some li ∧ lineinfos[i.toNat]? = some li := by
  have inside : i.toNat < lineinfos.length := by omega
  refine ⟨lineinfos[i.toNat], ?_, List.getElem?_eq_getElem inside⟩
  rw [lineinfoAt, if_pos nonneg, List.getElem?_eq_getElem inside]

theorem Nondecreasing.le (ordered : Nondecreasing lineinfos) {i j : Nat} {li li' : LVLineInfo}
    (le : i ≤ j) (get : lineinfos[i]? = some li) (get' : lineinfos[j]? = some li') :
    li.op ≤ li'.op := by
  obtain ⟨inside, rfl⟩ := List.getElem?_eq_some_iff.mp get
  obtain ⟨inside', rfl⟩ := List.getElem?_eq_some_iff.mp get'
  rcases Nat.lt_or_eq_of_le le with lt | rfl
  · exact List.pairwise_iff_getElem.mp ordered i j inside inside' lt
  · exact Int.le_refl _

/-- An entry that does not start before the instruction has no such entry after it. -/
theorem Nondecreasing.noneAfter (ordered : Nondecreasing lineinfos) {i : Int} {li : LVLineInfo}
    (get : lineinfos[i.toNat]? = some li) (le : op ≤ li.op) :
    NoneAfter lineinfos op (i - 1) := by
  intro j li' lt get'
  have := ordered.le (by omega) get get'
  omega

theorem NoneAfter.mono {mid mid' : Int} (none : NoneAfter lineinfos op mid) (le : mid ≤ mid') :
    NoneAfter lineinfos op mid' :=
  fun j li lt get => none j li (by omega) get

theorem searchLine_noneAfter (ordered : Nondecreasing lineinfos) {low high mid : Int}
    (nonneg : 0 ≤ low) (inside : high < lineinfos.length)
    (none : NoneAfter lineinfos op high)
    (crossed : high < low → high ≤ mid ∧ 0 ≤ mid ∧ mid < lineinfos.length) :
    ∃ found, searchLine lineinfos op low high mid = some found ∧ 0 ≤ found ∧
      found < lineinfos.length ∧ NoneAfter lineinfos op found := by
  rw [searchLine]
  by_cases open_ : low ≤ high
  · rw [if_pos open_]
    set m := low + (high - low) / 2 with middle
    have lower : low ≤ m := by omega
    have upper : m ≤ high := by omega
    obtain ⟨cur, at_, get⟩ := @lineinfoAt_inside lineinfos m (by omega) (by omega)
    simp only [at_]
    by_cases above : cur.op > op
    · rw [if_pos above]
      exact searchLine_noneAfter ordered nonneg (by omega) (ordered.noneAfter get (by omega))
        (by omega)
    · rw [if_neg above]
      by_cases below : cur.op < op
      · rw [if_pos below]
        have further := @searchLine_noneAfter ordered (m + 1) high m (by omega) inside
          none (by omega)
        split
        · obtain ⟨next, atNext, getNext⟩ :=
            @lineinfoAt_inside lineinfos (m + 1) (by omega) (by omega)
          simp only [atNext]
          split
          · rename_i reached
            have after := ordered.noneAfter getNext reached
            exact ⟨m, rfl, by omega, by omega, after.mono (by omega)⟩
          · exact further
        · exact further
      · rw [if_neg below]
        have reached : op ≤ cur.op := by omega
        have after := ordered.noneAfter get reached
        exact ⟨m, rfl, by omega, by omega, after.mono (by omega)⟩
  · rw [if_neg open_]
    obtain ⟨le, nonneg, lt⟩ := crossed (by omega)
    exact ⟨mid, rfl, nonneg, lt, none.mono le⟩
termination_by (high + 1 - low).toNat
decreasing_by all_goals omega

theorem walkBack_noneAfter {mid : Int} (nonneg : 0 ≤ mid) (inside : mid < lineinfos.length)
    (none : NoneAfter lineinfos op mid) :
    ∃ (last : Nat) (li : LVLineInfo), walkBack lineinfos op mid = some last ∧
      lineinfos[last]? = some li ∧ (last = 0 ∨ li.op < op) ∧ NoneAfter lineinfos op last := by
  obtain ⟨n, rfl⟩ := Int.eq_ofNat_of_zero_le nonneg
  induction n with
  | zero =>
    obtain ⟨li, -, get⟩ := lineinfoAt_inside nonneg inside
    refine ⟨0, li, ?_, get, .inl rfl, none⟩
    rw [walkBack]
    rfl
  | succ n ih =>
    obtain ⟨li, at_, get⟩ := lineinfoAt_inside nonneg inside
    rw [walkBack, if_pos (by omega), at_]
    by_cases reached : li.op ≥ op
    · have back : ((n + 1 : Nat) : Int) - 1 = n := by omega
      simp only [if_pos reached, back]
      refine ih (by omega) (by omega) ?_
      intro j li' lt get'
      rcases eq_or_ne j (n + 1) with rfl | ne
      · obtain rfl : li = li' := Option.some.inj (get.symm.trans get')
        exact reached
      · exact none j li' (by omega) get'
    · simp only [if_neg reached]
      exact ⟨n + 1, li, rfl, get, .inr (by omega), none⟩

/-- `li` is the last entry that starts before the instruction or, if there is none, the
first entry. -/
def Covers (lineinfos : List LVLineInfo) (op : Int) (li : LVLineInfo) : Prop :=
  ∃ i : Nat, lineinfos[i]? = some li ∧
    (li.op < op ∧ NoneAfter lineinfos op i ∨ i = 0 ∧ ∀ li' ∈ lineinfos, op ≤ li'.op)

theorem getLine_covers (func : FunctionPrototype) (op : Int) (nonempty : func.lineinfos ≠ [])
    (ordered : Nondecreasing func.lineinfos) :
    ∃ li, func.getLine op = some li.line ∧ Covers func.lineinfos op li := by
  have positive : 0 < func.lineinfos.length := List.length_pos_iff.mpr nonempty
  obtain ⟨first, atFirst, -⟩ := @lineinfoAt_inside func.lineinfos 0 (by omega)
    (by omega)
  have noneAfterLast : NoneAfter func.lineinfos op ((func.lineinfos.length : Int) - 1) := by
    intro j li lt get
    have := (List.getElem?_eq_some_iff.mp get).1
    omega
  obtain ⟨mid, searched, nonneg, inside, none⟩ := @searchLine_noneAfter func.lineinfos op ordered
    0 (func.lineinfos.length - 1) 0 (by omega) (by omega) noneAfterLast (by omega)
  obtain ⟨last, li, walked, get, before, none⟩ := walkBack_noneAfter nonneg inside none
  refine ⟨li, ?_, last, get, ?_⟩
  · simp [getLine, atFirst, searched, walked, lineinfoAt_natCast, get]
  · by_cases lt : li.op < op
    · exact .inl ⟨lt, none⟩
    · obtain rfl : last = 0 := before.resolve_right lt
      refine .inr ⟨rfl, fun li' mem => ?_⟩
      obtain ⟨j, get'⟩ := List.mem_iff_getElem?.mp mem
      have := ordered.le (Nat.zero_le j) get get'
      omega

/-- Two entries start at one instruction; the line before them covers it. -/
theorem getLine_covers_repeated :
    let lineinfos := [⟨10, 0⟩, ⟨11, 3⟩, ⟨12, 3⟩, ⟨13, 7⟩]
    let func : FunctionPrototype := ⟨0, false, false, [], [], [], [], [], lineinfos, []⟩
    lineinfos ≠ [] ∧ ∃ li, func.getLine 3 = some li.line ∧ Covers lineinfos 3 li :=
  ⟨by decide, getLine_covers _ 3 (by decide) (by unfold Nondecreasing; decide)⟩

end correct

end Lavril.FunctionPrototype
