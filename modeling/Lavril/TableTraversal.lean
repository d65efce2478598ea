import Lavril.TableAnswers
import Lavril.Delegate

/-!
# Iterating and cloning tables

`Next` walks the nodes, dead ones and moved ones too, and gives the live ones in
order. A loop over it therefore meets each bound key once, and a clone that
stores what the loop gives has the bindings of its source.

`none` as the result of a loop or of an operation means that it did not end within
the given number of steps.
-/

namespace Lavril

namespace LVTable

variable (HashObj : LVObject → Nat) (weakref : LVObjectValue → LVObject)

/-- `TranslateIndex` of null or of an index that `Next` has returned. -/
def translateIndex (refpos : Option Nat) : Nat := refpos.getD 0

/-- The loop of `Next`: the first live node, `left` nodes before the end of the array. -/
def firstLive (t : LVTable) : Nat → Nat → Option Nat
  | 0, _ => none
  | left + 1, idx =>
    if (t.nodes idx).key.type ≠ .OT_NULL then some idx else firstLive t left (idx + 1)

/-- `Next`: the index for the next iteration, the key and the value; `none` is −1. -/
def nextSlot (t : LVTable) (getweakrefs : Bool) (refpos : Option Nat) :
    Option (Nat × LVObject × LVObject) :=
  let idx := translateIndex refpos
  (t.firstLive (t.numofnodes - idx) idx).map fun idx =>
    let n := t.nodes idx
    (idx + 1, n.key, if getweakrefs then n.val else realval weakref n.val)

/-- `while ((refpos = Next(getweakrefs, refpos, key, val)) != -1)`, with the body `f`. -/
def whileNext {σ : Type} (t : LVTable) (getweakrefs : Bool)
    (f : σ → LVObject → LVObject → Option σ) : Nat → Option Nat → σ → Option σ
  | 0, _, _ => none
  | fuel + 1, refpos, s =>
    match t.nextSlot weakref getweakrefs refpos with
    | none => some s
    | some (ridx, key, val) =>
      match f s key val with
      | none => none
      | some s => whileNext t getweakrefs f fuel (some ridx) s

/-- What an iteration gives, in order. -/
def iterate (t : LVTable) (getweakrefs : Bool) (fuel : Nat) : Option (List (LVObject × LVObject)) :=
  t.whileNext weakref getweakrefs (fun seen key val => some (seen ++ [(key, val)])) fuel none []

variable {HashObj weakref} {t t' : LVTable}

/-- The live nodes from `idx` on. -/
def liveFrom (t : LVTable) (idx : Nat) : List Nat :=
  (List.range' idx (t.numofnodes - idx)).filter t.Live

theorem liveFrom_end {idx : Nat} (le : t.numofnodes ≤ idx) : t.liveFrom idx = [] := by
  rw [liveFrom, Nat.sub_eq_zero_of_le le]
  rfl

theorem liveFrom_lt {idx : Nat} (lt : idx < t.numofnodes) :
    t.liveFrom idx = if t.Live idx then idx :: t.liveFrom (idx + 1) else t.liveFrom (idx + 1) := by
  have split : t.numofnodes - idx = (t.numofnodes - (idx + 1)) + 1 := by omega
  rw [liveFrom, split, List.range'_succ, List.filter_cons]
  simp [liveFrom]

theorem firstLive_eq {idx : Nat} : ∀ {left : Nat}, left = t.numofnodes - idx →
    t.firstLive left idx = (t.liveFrom idx).head? := by
  intro left
  induction left generalizing idx with
  | zero =>
    intro eq
    rw [liveFrom_end (by omega)]
    rfl
  | succ left ih =>
    intro eq
    rw [liveFrom_lt (by omega), firstLive]
    by_cases live : t.Live idx
    · rw [if_pos live]
      exact if_pos live
    · rw [if_neg live]
      exact (if_neg live).trans (ih (by omega))

/-- The nodes after the first live one. -/
theorem liveFrom_cons {idx i : Nat} {l : List Nat} (eq : t.liveFrom idx = i :: l) :
    t.liveFrom (i + 1) = l := by
  by_cases lt : idx < t.numofnodes
  · induction left : t.numofnodes - idx generalizing idx with
    | zero => omega
    | succ left ih =>
      rw [liveFrom_lt lt] at eq
      split at eq
      · cases eq
        rfl
      · by_cases last : idx + 1 < t.numofnodes
        · exact ih eq last (by omega)
        · rw [liveFrom_end (by omega)] at eq
          cases eq
  · rw [liveFrom_end (by omega)] at eq
    cases eq

/-- The loop runs its body over the live nodes, in order. -/
theorem whileNext_eq {σ : Type} (getweakrefs : Bool) (f : σ → LVObject → LVObject → Option σ)
    {l : List Nat} : ∀ {refpos : Option Nat} {fuel : Nat} {s : σ},
      t.liveFrom (translateIndex refpos) = l → l.length < fuel →
      t.whileNext weakref getweakrefs f fuel refpos s =
        l.foldlM (fun s i => f s (t.nodes i).key
          (if getweakrefs then (t.nodes i).val else realval weakref (t.nodes i).val)) s := by
  induction l with
  | nil =>
    intro refpos fuel s nodes enough
    obtain ⟨fuel, rfl⟩ := Nat.exists_eq_succ_of_ne_zero (by omega : fuel ≠ 0)
    simp [whileNext, nextSlot, firstLive_eq rfl, nodes]
  | cons i l ih =>
    intro refpos fuel s nodes enough
    rw [List.length_cons] at enough
    obtain ⟨fuel, rfl⟩ := Nat.exists_eq_succ_of_ne_zero (by omega : fuel ≠ 0)
    have rest : t.liveFrom (translateIndex (some (i + 1))) = l := liveFrom_cons nodes
    rw [List.foldlM_cons]
    simp only [whileNext, nextSlot, firstLive_eq rfl, nodes, List.head?_cons, Option.map_some]
    cases f s (t.nodes i).key
      (if getweakrefs then (t.nodes i).val else realval weakref (t.nodes i).val) with
    | none => rfl
    | some s => exact ih rest (by omega)

theorem liveFrom_zero : t.liveFrom 0 = (List.range t.numofnodes).filter t.Live := by
  rw [liveFrom, Nat.sub_zero, List.range_eq_range']

theorem mem_liveFrom_zero {i : Nat} : i ∈ t.liveFrom 0 ↔ i < t.numofnodes ∧ t.Live i := by
  simp [liveFrom_zero]

/-- An iteration gives each bound key once, with its value. -/
theorem iterate_spec (h : Core HashObj t) (getweakrefs : Bool) :
    ∃ entries, (∀ fuel, (t.liveFrom 0).length < fuel →
        t.iterate weakref getweakrefs fuel = some entries) ∧
      (entries.map Prod.fst).Nodup ∧
      ∀ k v, (k, v) ∈ entries ↔
        ∃ w, t.Binds k w ∧ v = if getweakrefs then w else realval weakref w := by
  let entry (i : Nat) : LVObject × LVObject := ((t.nodes i).key,
    if getweakrefs then (t.nodes i).val else realval weakref (t.nodes i).val)
  have collect : ∀ (l : List Nat) (seen : List (LVObject × LVObject)),
      l.foldlM (fun seen i => some (seen ++ [entry i])) seen = some (seen ++ l.map entry) := by
    intro l
    induction l with
    | nil => simp
    | cons i l ih =>
      intro seen
      rw [List.foldlM_cons]
      exact (ih (seen ++ [entry i])).trans (by simp)
  refine ⟨(t.liveFrom 0).map entry, fun fuel enough => ?_, ?_, fun k v => ?_⟩
  · refine (whileNext_eq getweakrefs _ rfl enough).trans ?_
    exact collect (t.liveFrom 0) []
  · rw [List.map_map]
    refine List.Nodup.map_on ?_ (liveFrom_zero ▸ List.nodup_range.filter _)
    intro i hi j hj same
    obtain ⟨lt, live⟩ := mem_liveFrom_zero.mp hi
    obtain ⟨lt', live'⟩ := mem_liveFrom_zero.mp hj
    exact h.keys i j lt lt' live live' same
  · rw [List.mem_map]
    constructor
    · rintro ⟨i, hi, is⟩
      obtain ⟨lt, live⟩ := mem_liveFrom_zero.mp hi
      obtain ⟨rfl, rfl⟩ := Prod.mk.inj is
      exact ⟨_, ⟨i, lt, live, rfl, rfl⟩, rfl⟩
    · rintro ⟨w, ⟨i, lt, live, rfl, rfl⟩, rfl⟩
      exact ⟨i, mem_liveFrom_zero.mpr ⟨lt, live⟩, rfl⟩

/-- Tables with the same bindings have as many of them. -/
theorem countUsed_of_binds (h : Inv HashObj t) (h' : Inv HashObj t')
    (same : ∀ k v, t'.Binds k v ↔ t.Binds k v) : t'.countUsed = t.countUsed := by
  have injective : ∀ {t : LVTable}, Inv HashObj t →
      (t.liveSet.image fun i => (t.nodes i).key).card = t.liveSet.card := by
    intro t h
    refine Finset.card_image_of_injOn fun i hi j hj eq => ?_
    obtain ⟨lt, live⟩ := mem_liveSet.mp hi
    obtain ⟨lt', live'⟩ := mem_liveSet.mp hj
    exact h.keys i j lt lt' live live' eq
  have keys : ∀ {t : LVTable} {k : LVObject},
      k ∈ t.liveSet.image (fun i => (t.nodes i).key) ↔ ∃ v, t.Binds k v := by
    intro t k
    simp only [Finset.mem_image, mem_liveSet, Binds]
    constructor
    · rintro ⟨i, ⟨lt, live⟩, is⟩
      exact ⟨_, i, lt, live, is, rfl⟩
    · rintro ⟨_, i, lt, live, is, -⟩
      exact ⟨i, ⟨lt, live⟩, is⟩
  have images : t'.liveSet.image (fun i => (t'.nodes i).key) =
      t.liveSet.image fun i => (t.nodes i).key := by
    ext k
    rw [keys, keys]
    exact exists_congr fun v => same k v
  rw [countUsed, countUsed, h.used, h'.used, ← injective h, ← injective h', images]

/-- The loop of `Clone` stores every entry of the source. -/
def cloneEntries (HashObj : LVObject → Nat) (weakref : LVObjectValue → LVObject) (fuel : Nat)
    (t : LVTable) : Option LVTable :=
  t.whileNext weakref true (fun nt key val => (nt.newSlot HashObj fuel key val).map Prod.snd)
    fuel (some 0) (create t.numofnodes)

theorem cloneEntries_eq {fuel : Nat} (enough : t.numofnodes < fuel) :
    t.cloneEntries HashObj weakref fuel = t.clone HashObj fuel := by
  have few : (t.liveFrom 0).length < fuel := by
    rw [liveFrom_zero]
    exact (List.length_filter_le _ _).trans_lt (by rwa [List.length_range])
  refine (whileNext_eq true _ rfl few).trans ?_
  change (t.liveFrom 0).foldlM _ _ = _
  rw [clone, liveFrom_zero, List.foldlM_filter]
  congr 1
  funext nt i
  by_cases live : t.Live i
  · rw [if_pos (by simpa using live)]
    exact (if_pos live).symm
  · rw [if_neg (by simpa using live)]
    exact (if_neg live).symm

end LVTable

/-- The tables there are: what each holds, by its address, and what each delegates to. -/
structure Tables where
  delegables : Delegables
  raw : Nat → LVTable

namespace Tables

variable {HashObj : LVObject → Nat} {weakref : LVObjectValue → LVObject} {w w' : Tables}

/-- An operation on the table at an address. -/
abbrev Update := Nat × (LVTable → Option LVTable)

def update (w : Tables) (op : Update) : Option Tables :=
  (op.2 (w.raw op.1)).map fun t => { w with raw := Function.update w.raw op.1 t }

/-- `Clone` of the table `this`, into a table at a new address. -/
def clone (HashObj : LVObject → Nat) (weakref : LVObjectValue → LVObject) (fuel : Nat)
    (w : Tables) (this fresh : Nat) : Option Tables :=
  match (w.raw this).cloneEntries HashObj weakref fuel with
  | none => none
  | some nt =>
    (w.delegables.clone fuel this fresh).map fun delegables =>
      ⟨delegables, Function.update w.raw fresh nt⟩

/-- What the operations of a run do to one table is what those on it do alone. -/
theorem update_own (ops : List Update) : ∀ {w w' : Tables}, ops.foldlM update w = some w' →
    ∀ a, (ops.filter (·.1 = a)).foldlM (fun t op => op.2 t) (w.raw a) = some (w'.raw a) := by
  induction ops with
  | nil =>
    intro w w' run a
    cases run
    rfl
  | cons op ops ih =>
    intro w w' run a
    rw [List.foldlM_cons] at run
    obtain ⟨mid, first, rest⟩ := Option.bind_eq_some_iff.mp run
    obtain ⟨t, done, rfl⟩ := Option.map_eq_some_iff.mp first
    have own := ih rest a
    by_cases here : op.1 = a
    · subst here
      rw [List.filter_cons_of_pos (by simp), List.foldlM_cons, done]
      simp only [Function.update_self] at own
      exact own
    · rw [List.filter_cons_of_neg (by simpa using here)]
      simpa only [Function.update_of_ne (Ne.symm here)] using own

theorem cycleDetected_true {h : Delegables} {this fuel : Nat} {p : Option Nat}
    (found : h.cycleDetected this fuel p = some true) : ∃ a, h.delegate a = some this := by
  induction fuel generalizing p with
  | zero => cases found
  | succ fuel ih =>
    cases p with
    | none => cases found
    | some temp =>
      rw [Delegables.cycleDetected] at found
      split at found
      · rename_i is
        exact ⟨temp, is⟩
      · exact ih found

/-- The delegate of a clone is that of its source: no chain comes to a new object. -/
theorem clone_delegate {h : Delegables} (acyclic : h.Acyclic) {this fresh : Nat}
    (live : h this ≠ none) (new : h fresh = none) :
    ∃ n h', (∀ fuel, n < fuel → h.clone fuel this fresh = some h') ∧
      ∀ a, h'.delegate a = if a = fresh then h.delegate this else h.delegate a := by
  obtain ⟨o, found⟩ := Option.ne_none_iff_exists'.mp live
  have source : h.delegate this = o.delegate := by rw [Delegables.delegate, found]; rfl
  set nt : Delegables := Function.update h fresh (some { o with delegate := none }) with hnt
  have other : ∀ a, a ≠ fresh → nt.delegate a = h.delegate a := fun a ne => by
    rw [hnt, Delegables.delegate, Function.update_of_ne ne, Delegables.delegate]
  have unreached : ∀ a, nt.delegate a ≠ some fresh := by
    intro a is
    by_cases eq : a = fresh
    · rw [eq, hnt, Delegables.delegate, Function.update_self] at is
      cases is
    · exact acyclic.live a fresh ((other a eq).symm.trans is) new
  have created : nt.Acyclic := acyclic.replace rfl fun gone => absurd gone (Option.some_ne_none _)
  obtain ⟨n, answer, h', run, -⟩ := created.setDelegate_ends fresh o.delegate
  refine ⟨n, h', fun fuel lt => ?_, fun a => ?_⟩
  · rw [Delegables.clone, found]
    exact congrArg (Option.map Prod.snd) (run fuel lt)
  · rcases Delegables.setDelegate_cases (run (n + 1) (by omega)) with ⟨rfl, -⟩ | ⟨-, -, -, rfl⟩
    · have refused := run (n + 1) (by omega)
      unfold Delegables.setDelegate at refused
      split at refused
      · rename_i self
        exact absurd new (acyclic.live this fresh (source.trans self))
      · split at refused
        · cases refused
        · rename_i found
          obtain ⟨b, is⟩ := cycleDetected_true found
          exact absurd is (unreached b)
        · cases refused
    · split
      · rename_i eq
        subst eq
        rw [source, hnt, Delegables.delegate, Delegables.modify, Function.update_self,
          Function.update_self]
        rfl
      · rename_i ne
        rw [Delegables.modify_delegate ne, other a ne]

/-- Iterating a table gives each of its bound keys once, with its value. A clone has
the bindings, their number and the delegate of its source, and from then on each of the
two is what the operations on it make of it. -/
theorem next_visits_clone_copies (delegation : w.delegables.Reachable) {a b : Nat}
    (reaches : LVTable.Reaches HashObj (w.raw a)) (live : w.delegables a ≠ none)
    (new : w.delegables b = none) :
    (∀ getweakrefs, ∃ n entries, (∀ fuel, n < fuel →
        (w.raw a).iterate weakref getweakrefs fuel = some entries) ∧
      (entries.map Prod.fst).Nodup ∧
      ∀ k v, (k, v) ∈ entries ↔
        ∃ x, (w.raw a).Binds k x ∧ v = if getweakrefs then x else LVTable.realval weakref x) ∧
    ∃ n, ∀ fuel, n < fuel → ∃ w', w.clone HashObj weakref fuel a b = some w' ∧
      (∀ k v, (w'.raw b).Binds k v ↔ (w.raw a).Binds k v) ∧
      (w'.raw b).countUsed = (w.raw a).countUsed ∧
      w'.delegables.delegate b = w.delegables.delegate a ∧
      w'.raw a = w.raw a ∧ w'.delegables.delegate a = w.delegables.delegate a ∧
      ∀ (ops : List Update) (w'' : Tables), ops.foldlM update w' = some w'' → ∀ c,
        (ops.filter (·.1 = c)).foldlM (fun t op => op.2 t) (w'.raw c) = some (w''.raw c) := by
  have inv := reaches.inv
  have other : a ≠ b := by
    rintro rfl
    exact live new
  refine ⟨fun getweakrefs => ⟨_, LVTable.iterate_spec inv.toCore getweakrefs⟩, ?_⟩
  obtain ⟨n, h', delegates, chain⟩ := clone_delegate delegation.acyclic live new
  refine ⟨max n ((w.raw a).numofnodes + 1), fun fuel enough => ?_⟩
  obtain ⟨depth, rfl⟩ : ∃ depth, fuel = depth + 2 := ⟨fuel - 2, by omega⟩
  obtain ⟨nt, run, invn, binds⟩ := LVTable.clone_spec HashObj depth inv
  have entries : (w.raw a).cloneEntries HashObj weakref (depth + 2) = some nt := by
    rw [LVTable.cloneEntries_eq (by omega), run]
  have copied : (Tables.mk h' (Function.update w.raw b nt)).raw b = nt := Function.update_self ..
  refine ⟨⟨h', Function.update w.raw b nt⟩, ?_, fun k v => ?_, ?_, ?_, ?_, ?_,
    fun ops w'' => update_own ops⟩
  · rw [clone, entries]
    exact congrArg (Option.map _) (delegates (depth + 2) (by omega))
  · rw [copied, binds]
  · rw [copied]
    exact LVTable.countUsed_of_binds inv invn binds
  · rw [chain, if_pos rfl]
  · exact Function.update_of_ne other ..
  · rw [chain, if_neg other]

/-- A table that binds 7 to true and delegates to an empty one. -/
def delegating : Tables where
  delegables := .delegating (some 1)
  raw a :=
    if a = 0 then
      (((LVTable.create 0).newSlot (fun _ => 0) 2 (.integer 7) (.bool true)).map Prod.snd).getD
        (.create 0)
    else .create 0

theorem next_visits_clone_copies_delegating :
    ∃ n, ∀ fuel, n < fuel →
      ∃ w', delegating.clone (fun _ => 0) (fun _ => .null) fuel 0 2 = some w' ∧
        (w'.raw 2).Binds (.integer 7) (.bool true) ∧ (w'.raw 2).countUsed = 1 ∧
        w'.delegables.delegate 2 = some 1 := by
  have reaches : LVTable.Reaches (fun _ => 0) (delegating.raw 0) :=
    @LVTable.Reaches.newSlot _ _ _ 0 (.integer 7) (.bool true) _ (.create 0) (by decide) rfl
  obtain ⟨-, n, copies⟩ := @next_visits_clone_copies _ (fun _ => .null) delegating
    Delegables.delegating_reachable 0 2 reaches nofun rfl
  refine ⟨n, fun fuel lt => ?_⟩
  obtain ⟨w', run, binds, used, delegate, -⟩ := copies fuel lt
  have bound : (delegating.raw 0).Binds (.integer 7) (.bool true) :=
    ⟨0, by decide, by decide, by decide, by decide⟩
  exact ⟨w', run, (binds _ _).mpr bound, used.trans (by decide), delegate⟩

end Tables

end Lavril
