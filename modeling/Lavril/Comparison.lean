import Lavril.Operators
import Lavril.StringTable
import Mathlib.Order.Compare

/-!
# Ordering and equality

`ObjCmp` compares two strings as C strings, up to the first NUL, while `IsEqual`
compares the pointers of the interned strings, which is comparing all of their bytes.
On integers, booleans, null and strings the order is that of `sortKey`.
-/

namespace Lavril

/-- The values that a program without floats and without metamethods orders. -/
inductive Ordered : LVObject → Prop
  | null : Ordered .null
  | integer (i : BitVec 64) : Ordered (.integer i)
  | bool (b : Bool) : Ordered (.bool b)
  | string (text : String) : Ordered (.string text)

/-- Two values that a comparison raises no error for. -/
def Comparable (o1 o2 : LVObject) : Prop := o1.type = o2.type ∨ o1 = .null ∨ o2 = .null

/-- The characters of a C string. -/
def upToNul (s : List Char) : List Char := s.takeWhile (·.toNat ≠ 0)

/-- A sequence of characters as the numbers that are compared. -/
def codes (s : List Char) : List Int := (upToNul s).map fun c => c.toNat

/-- The value as a sequence of numbers, none for null. -/
def sortKey (o : LVObject) : Option (List Int) :=
  match o.type, o.unVal with
  | .OT_NULL, _ => none
  | .OT_STRING, .pString s => some (codes s.toList)
  | .OT_INTEGER, .raw i => some [i.toInt]
  | _, .raw i => some [i.toNat]
  | _, .pString _ => some []

/-- What a comparison gives for an order. -/
def ofOrdering : Ordering → Int
  | .lt => -1
  | .eq => 0
  | .gt => 1

theorem upToNul_nul {c : Char} (zero : c.toNat = 0) (s : List Char) : upToNul (c :: s) = [] := by
  simp [upToNul, zero]

theorem upToNul_cons {c : Char} (pos : c.toNat ≠ 0) (s : List Char) :
    upToNul (c :: s) = c :: upToNul s := by
  simp [upToNul, pos]

/-- `strcmp` is the lexicographic order of the characters before a NUL. -/
theorem strcmp_eq (s t : List Char) : strcmp s t = ofOrdering (compare (codes s) (codes t)) := by
  induction s generalizing t with
  | nil =>
    cases t with
    | nil => rfl
    | cons c t =>
      by_cases zero : c.toNat = 0 <;> simp [strcmp, codes, upToNul, zero, ofOrdering]
  | cons c s ih =>
    cases t with
    | nil =>
      by_cases zero : c.toNat = 0 <;> simp [strcmp, codes, upToNul, zero, ofOrdering]
    | cons d t =>
      rw [strcmp]
      rcases lt_trichotomy c.toNat d.toNat with less | same | more
      · have first : d.toNat ≠ 0 := by omega
        rw [if_pos less, codes, codes, upToNul_cons first]
        by_cases zero : c.toNat = 0
        · simp [upToNul_nul zero, ofOrdering]
        · have order : compare (c.toNat : Int) d.toNat = .lt := compare_lt_iff_lt.mpr (by omega)
          simp [upToNul_cons zero, List.compare_cons_cons, order, ofOrdering]
      · rw [if_neg (by omega), if_neg (by omega)]
        by_cases zero : c.toNat = 0
        · rw [if_pos zero, codes, codes, upToNul_nul zero, upToNul_nul (same ▸ zero)]
          rfl
        · rw [if_neg zero, ih, codes, codes, codes, codes, upToNul_cons zero,
            upToNul_cons (same ▸ zero), List.map_cons, List.map_cons, List.compare_cons_cons, same,
            compare_eq_iff_eq.mpr rfl]
          rfl
      · have first : c.toNat ≠ 0 := by omega
        rw [if_neg (by omega), if_pos more, codes, codes, upToNul_cons first]
        by_cases zero : d.toNat = 0
        · simp [upToNul_nul zero, ofOrdering]
        · have order : compare (c.toNat : Int) d.toNat = .gt := compare_gt_iff_gt.mpr (by omega)
          simp [upToNul_cons zero, List.compare_cons_cons, order, ofOrdering]

/-- Two different strings that differ after a NUL only. -/
def EqualToNul (o1 o2 : LVObject) : Prop :=
  ∃ s t : String, o1 = .string s ∧ o2 = .string t ∧ s ≠ t ∧
    upToNul s.toList = upToNul t.toList

theorem compare_single (x y : Int) : compare (some [x]) (some [y]) = compare x y := by
  change compare [x] [y] = compare x y
  rw [List.compare_cons_cons]
  cases compare x y <;> rfl

theorem objCmp_integers (i j : BitVec 64) :
    objCmp (.integer i) (.integer j) = some (ofOrdering (compare i.toInt j.toInt)) := by
  by_cases same : i = j
  · subst same
    rw [compare_eq_iff_eq.mpr rfl]
    simp [objCmp, ofOrdering]
  · have different : i.toInt ≠ j.toInt := fun eq => same (BitVec.eq_of_toInt_eq eq)
    have values : objCmp (.integer i) (.integer j) = some (if i.toInt < j.toInt then -1 else 1) := by
      simp [objCmp, LVObject.integer, same]
    rw [values]
    rcases lt_or_gt_of_ne different with less | more
    · rw [if_pos less, compare_lt_iff_lt.mpr less]
      rfl
    · rw [if_neg (by omega), compare_gt_iff_gt.mpr more]
      rfl

theorem objCmp_strings (s t : String) :
    objCmp (.string s) (.string t) = some (strcmp s.toList t.toList) := by
  by_cases same : s = t
  · subst same
    have self : compare (codes s.toList) (codes s.toList) = .eq := Std.ReflCmp.compare_self
    rw [strcmp_eq, self]
    simp [objCmp, ofOrdering]
  · simp [objCmp, LVObject.string, same]

/-- `ObjCmp` orders by the keys. -/
theorem objCmp_eq {a b : LVObject} (ha : Ordered a) (hb : Ordered b) (comparable : Comparable a b) :
    objCmp a b = some (ofOrdering (compare (sortKey a) (sortKey b))) := by
  rcases comparable with same | rfl | rfl
  · cases ha with
    | null =>
      cases hb with
      | null => rfl
      | integer | bool | string => cases same
    | integer i =>
      cases hb with
      | integer j =>
        rw [objCmp_integers]
        exact congrArg (some <| ofOrdering ·) (compare_single i.toInt j.toInt).symm
      | null | bool | string => cases same
    | bool b =>
      cases hb with
      | bool c => cases b <;> cases c <;> rfl
      | null | integer | string => cases same
    | string s =>
      cases hb with
      | string t =>
        rw [objCmp_strings, strcmp_eq]
        rfl
      | null | integer | bool => cases same
  · cases hb <;> rfl
  · cases ha <;> rfl

theorem codes_eq_iff (s t : List Char) : codes s = codes t ↔ upToNul s = upToNul t := by
  refine ⟨fun eq => ?_, fun eq => by rw [codes, codes, eq]⟩
  refine List.map_injective_iff.mpr ?_ eq
  intro c d same
  exact Char.ext (UInt32.toNat_inj.mp (Int.ofNat.inj same))

/-- Keys are equal for values that are equal, and for those that differ after a NUL only. -/
theorem sortKey_eq_iff {a b : LVObject} (ha : Ordered a) (hb : Ordered b)
    (comparable : Comparable a b) : sortKey a = sortKey b ↔ a = b ∨ EqualToNul a b := by
  constructor
  · intro same
    cases ha with
    | null =>
      cases hb with
      | null => exact .inl rfl
      | integer | bool | string => cases same
    | integer i =>
      cases hb with
      | integer j =>
        have eq := (List.cons.inj (Option.some.inj same)).1
        exact .inl (congrArg LVObject.integer (BitVec.eq_of_toInt_eq eq))
      | null => cases same
      | bool | string => rcases comparable with is | is | is <;> cases is
    | bool b =>
      cases hb with
      | bool c => cases b <;> cases c <;> first | exact .inl rfl | cases same
      | null => cases same
      | integer | string => rcases comparable with is | is | is <;> cases is
    | string s =>
      cases hb with
      | string t =>
        by_cases eq : s = t
        · exact .inl (congrArg LVObject.string eq)
        · exact .inr ⟨s, t, rfl, rfl, eq, (codes_eq_iff _ _).mp (Option.some.inj same)⟩
      | null => cases same
      | integer | bool => rcases comparable with is | is | is <;> cases is
  · rintro (rfl | ⟨s, t, rfl, rfl, -, same⟩)
    · rfl
    · exact congrArg some ((codes_eq_iff _ _).mpr same)

theorem isEqual_iff {a b : LVObject} (comparable : Comparable a b) :
    isEqual a b = some true ↔ a = b := by
  by_cases same : a.type = b.type
  · rw [isEqual, if_pos same, Option.some.injEq, decide_eq_true_iff]
    obtain ⟨type, unVal⟩ := a
    obtain ⟨type', unVal'⟩ := b
    obtain rfl : type = type' := same
    simp
  · refine iff_of_false ?_ fun eq => same (congrArg LVObject.type eq)
    rw [isEqual, if_neg same]
    rcases comparable with is | rfl | rfl
    · exact absurd is same
    · simp [isNumeric, LVObject.null]
    · simp [isNumeric, LVObject.null]

/-- `o1 <= o2`. -/
def lessEqual (o1 o2 : LVObject) : Prop := cmpOp CMP_LE.toNat o1 o2 = some (.bool true)

instance (o1 o2 : LVObject) : Decidable (lessEqual o1 o2) := inferInstanceAs (Decidable (_ = _))

theorem lessEqual_iff {a b : LVObject} (ha : Ordered a) (hb : Ordered b)
    (comparable : Comparable a b) :
    lessEqual a b ↔ (compare (sortKey a) (sortKey b)).isLE = true := by
  rw [lessEqual, cmpOp, objCmp_eq ha hb comparable]
  cases compare (sortKey a) (sortKey b) <;> decide

/-- The order of three values agrees with itself, and that of the first two with equality. -/
structure Consistent (a b c : LVObject) : Prop where
  signs : ∃ r r', objCmp a b = some r ∧ objCmp b a = some r' ∧ r'.sign = -r.sign
  trans : lessEqual a b → lessEqual b c → lessEqual a c
  zero : objCmp a b = some 0 ↔ isEqual a b = some true
  antisymm : lessEqual a b → lessEqual b a → isEqual a b = some true

theorem Comparable.symm {a b : LVObject} (comparable : Comparable a b) : Comparable b a := by
  rcases comparable with same | null | null
  · exact .inl same.symm
  · exact .inr (.inr null)
  · exact .inr (.inl null)

theorem ofOrdering_swap (o : Ordering) : (ofOrdering o.swap).sign = -(ofOrdering o).sign := by
  cases o <;> rfl

theorem objCmp_zero_iff {a b : LVObject} (ha : Ordered a) (hb : Ordered b)
    (comparable : Comparable a b) : objCmp a b = some 0 ↔ a = b ∨ EqualToNul a b := by
  have key : compare (sortKey a) (sortKey b) = .eq ↔ sortKey a = sortKey b :=
    Std.LawfulEqOrd.compare_eq_iff_eq
  rw [objCmp_eq ha hb comparable, ← sortKey_eq_iff ha hb comparable, ← key]
  cases compare (sortKey a) (sortKey b) <;> decide

/-- The order is consistent with equality but for two strings that differ after a NUL
only. Equal strings are one object, of which `IsEqual` compares the address. -/
theorem objCmp_consistent_iff {a b c : LVObject} (ha : Ordered a) (hb : Ordered b) (hc : Ordered c)
    (ab : Comparable a b) (bc : Comparable b c) (ac : Comparable a c) :
    (Consistent a b c ↔ ¬ EqualToNul a b) ∧
    ∀ (hashstr : List UInt8 → Nat) (t : LVStringTable), LVStringTable.Reaches hashstr t →
      ∀ p q s s', t.heap p = some s → t.heap q = some s' → (p = q ↔ s.val = s'.val) := by
  have signs : ∃ r r', objCmp a b = some r ∧ objCmp b a = some r' ∧ r'.sign = -r.sign := by
    refine ⟨_, _, objCmp_eq ha hb ab, objCmp_eq hb ha ab.symm, ?_⟩
    rw [Std.OrientedOrd.eq_swap]
    exact ofOrdering_swap _
  have trans : lessEqual a b → lessEqual b c → lessEqual a c := by
    rw [lessEqual_iff ha hb ab, lessEqual_iff hb hc bc, lessEqual_iff ha hc ac]
    exact Std.TransCmp.isLE_trans
  refine ⟨⟨?_, fun different => ?_⟩, ?_⟩
  · rintro consistent ⟨s, t, rfl, rfl, ne, same⟩
    have zero := (objCmp_zero_iff ha hb ab).mpr (.inr ⟨s, t, rfl, rfl, ne, same⟩)
    have equal := (isEqual_iff ab).mp (consistent.zero.mp zero)
    exact ne (by cases equal; rfl)
  · have zero : objCmp a b = some 0 ↔ isEqual a b = some true := by
      rw [objCmp_zero_iff ha hb ab, isEqual_iff ab]
      exact or_iff_left different
    refine ⟨signs, trans, zero, fun less more => zero.mp ?_⟩
    rw [lessEqual_iff ha hb ab] at less
    rw [lessEqual_iff hb ha ab.symm] at more
    rw [objCmp_eq ha hb ab]
    have both : compare (sortKey a) (sortKey b) = .eq := Std.OrientedCmp.isLE_antisymm less more
    rw [both]
    rfl
  · intro hashstr t reaches p q s s' hp hq
    obtain ⟨chains, live, rep⟩ := reaches.rep
    constructor
    · rintro rfl
      rw [Option.some.inj (hp.symm.trans hq)]
    · exact rep.unique p q s s' hp hq

/-- Two strings without a NUL. -/
theorem objCmp_consistent_plain :
    Consistent (.string "a") (.string "b") (.null) :=
  (objCmp_consistent_iff (.string "a") (.string "b") .null (.inl rfl) (.inr (.inr rfl))
    (.inr (.inr rfl))).1.mpr (by
      rintro ⟨s, t, eq, eq', ne, same⟩
      cases eq
      cases eq'
      revert same
      decide)

/-- Two strings of three characters, the second of which is a NUL. -/
theorem objCmp_nul : objCmp (.string "a\x00b") (.string "a\x00c") = some 0 ∧
    isEqual (.string "a\x00b") (.string "a\x00c") = some false ∧
    lessEqual (.string "a\x00b") (.string "a\x00c") ∧
    lessEqual (.string "a\x00c") (.string "a\x00b") := by
  decide

end Lavril
