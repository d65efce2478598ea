import Lavril.Balance
import Mathlib.Logic.Relation

/-!
# Free names

Reading a free name falls back to the root table of the running closure, assigning to it falls
back to the root table of the virtual machine.
-/

namespace Lavril.ObjectM

open Potential Relation

variable {Heap : Type} (W : Objects Heap)

/-- The value of a slot that holds `v`: a weak reference stands for what it refers to. -/
def realval (objects : Heap) (v : LVObject) : LVObject :=
  if v.type = .OT_WEAKREF then W.referent objects v else v

/-- What an object itself has for a name. -/
def ownSlot (objects : Heap) (o name : LVObject) : Option LVObject :=
  match own W objects o name with
  | .found val => some val
  | _ => none

/-- The delegate that `Get` goes on with. -/
def next (objects : Heap) (o : LVObject) : Option LVObject :=
  if o.type = .OT_TABLE ∨ o.type = .OT_USERDATA then W.delegate objects o else none

/-- Where a name is found. -/
inductive Place where
  | slot (o : LVObject)
  | default (o : LVObject)

def Place.value (objects : Heap) (name : LVObject) : Place → Option LVObject
  | .slot o => ownSlot W objects o name
  | .default o => W.invokeDefaultDelegate objects o name

/-- Neither the object nor a delegate has the name. -/
inductive Missing (objects : Heap) (name : LVObject) : LVObject → Prop where
  | intro {o} : ownSlot W objects o name = none →
      (∀ d, next W objects o = some d → Missing objects name d) →
      W.invokeDefaultDelegate objects o name = none → Missing objects name o

/-- The first place that has the name, on the way from an object through its delegates. -/
inductive Located (objects : Heap) (name : LVObject) : LVObject → Place → Prop where
  | own {o} : (ownSlot W objects o name).isSome → Located objects name o (.slot o)
  | delegate {o d place} : ownSlot W objects o name = none → next W objects o = some d →
      Located objects name d place → Located objects name o place
  | default {o} : ownSlot W objects o name = none →
      (∀ d, next W objects o = some d → Missing W objects name d) →
      (W.invokeDefaultDelegate objects o name).isSome → Located objects name o (.default o)

/-- No object on the way from `o` has a `_get` or a `_set` metamethod. -/
def Unhooked (objects : Heap) (o : LVObject) : Prop :=
  ∀ o', ReflTransGen (fun a b => next W objects a = some b) o o' →
    W.getMetaMethod objects o' .MT_GET = none ∧ W.getMetaMethod objects o' .MT_SET = none

variable {W} {objects : Heap} {o name d : LVObject} {place place' : Place} {fuel : Nat}
  {s s' : MetaVM Heap}

theorem Unhooked.next (unhooked : Unhooked W objects o) (link : next W objects o = some d) :
    Unhooked W objects d :=
  fun o' path => unhooked o' (.head link path)

theorem Located.not_missing (located : Located W objects name o place) :
    ¬Missing W objects name o := by
  induction located with
  | own some =>
    rintro ⟨none, -, -⟩
    rw [none] at some
    cases some
  | delegate _ link _ ih =>
    rintro ⟨-, missing, -⟩
    exact ih (missing _ link)
  | default _ _ some =>
    rintro ⟨-, -, none⟩
    rw [none] at some
    cases some

theorem Located.unique (first : Located W objects name o place)
    (second : Located W objects name o place') : place = place' := by
  induction first with
  | own some =>
    cases second with
    | own _ => rfl
    | delegate none _ _ => simp [none] at some
    | default none _ _ => simp [none] at some
  | delegate none link located ih =>
    cases second with
    | own some => simp [none] at some
    | delegate _ link' located' =>
      cases link.symm.trans link'
      exact ih located'
    | default _ missing _ => exact absurd (missing _ link) located.not_missing
  | default none missing _ =>
    cases second with
    | own some => simp [none] at some
    | delegate _ link located => exact absurd (missing _ link) located.not_missing
    | default _ _ _ => rfl

/-! ## Reading -/

/-- An error may have been raised. -/
structure SameButError (s s' : MetaVM Heap) : Prop where
  objects : s'.objects = s.objects
  vm : s'.toLVVM = s.toLVVM

theorem SameButError.refl (s : MetaVM Heap) : SameButError s s := ⟨rfl, rfl⟩

theorem SameButError.trans {s'' : MetaVM Heap} (first : SameButError s s')
    (second : SameButError s' s'') : SameButError s s'' :=
  ⟨second.objects.trans first.objects, second.vm.trans first.vm⟩

theorem own_of_string (string : name.type = .OT_STRING) (objects : Heap) (o : LVObject) :
    own W objects o name = (ownSlot W objects o name).elim .missing .found := by
  rw [ownSlot, own]
  cases o.type <;> simp only [string, LVObjectType.isnumeric] <;> first
    | rfl
    | cases W.get objects o name <;> rfl

theorem read_run {β : Type} {f : MetaVM Heap → ObjectM Heap β} : (get >>= f) s = f s s := rfl

theorem bind_run {α β : Type} {x : ObjectM Heap α} {f : α → ObjectM Heap β} :
    (x >>= f) s = (x s).bind fun r => f r.1 r.2 := rfl

theorem getMetaMethod_none (unhooked : W.getMetaMethod s.objects o .MT_GET = none) :
    getMetaMethod W o name s = some (.FALLBACK_NO_MATCH, s) := by
  rw [getMetaMethod, read_run, unhooked]
  rfl

/-- What `FallBackGet` does without metamethods. -/
theorem fallBackGet_run {getDelegate : LVObject → ObjectM Heap (Option LVObject)}
    (keeps : ∀ {d s'}, next W s.objects o = some d → getDelegate d s = some (none, s') →
      s'.objects = s.objects)
    (unhooked : W.getMetaMethod s.objects o .MT_GET = none) :
    FallBackGet W getDelegate o name s =
      match next W s.objects o with
      | none => some (.FALLBACK_NO_MATCH, s)
      | some d =>
        match getDelegate d s with
        | none => none
        | some (some dest, s') => some (.FALLBACK_OK dest, s')
        | some (none, s') => some (.FALLBACK_NO_MATCH, s') := by
  rw [next] at keeps ⊢
  rw [FallBackGet]
  cases type : o.type with
  | OT_TABLE | OT_USERDATA =>
    rw [if_pos (by simp [type])] at keeps
    simp only [true_or, or_true, if_true, reduceCtorEq]
    rw [read_run]
    cases link : W.delegate s.objects o with
    | none => rfl
    | some d =>
      dsimp only
      rw [bind_run]
      cases answer : getDelegate d s with
      | none => rfl
      | some r =>
        obtain ⟨found, s'⟩ := r
        cases found with
        | some dest => rfl
        | none =>
          refine getMetaMethod_none ?_
          rw [keeps link answer]
          exact unhooked
  | OT_INSTANCE =>
    simp only [reduceCtorEq, or_self, if_false]
    exact getMetaMethod_none unhooked
  | _ => rfl

/-- `Get` behind the fallbacks: the default delegate, and the root of the closure. -/
def afterDelegates (W : Objects Heap) (fuel : Nat) (o name : LVObject) (selfidx0 : Bool) :
    ObjectM Heap (Option LVObject) := do
  let s ← get
  match W.invokeDefaultDelegate s.objects o name with
  | some dest => return some dest
  | none =>
    match if selfidx0 then W.root s else none with
    | none => noIndex W false name
    | some root =>
      match ← Get W fuel root name false false false with
      | some dest => return some dest
      | none => noIndex W false name

/-- `Get` without metamethods: the object, its delegates, and the rest. -/
theorem get_run (string : name.type = .OT_STRING)
    (keeps : ∀ {d s'}, next W s.objects o = some d →
      Get W fuel d name false false false s = some (none, s') → s'.objects = s.objects)
    (unhooked : W.getMetaMethod s.objects o .MT_GET = none) (selfidx0 : Bool) :
    Get W (fuel + 1) o name false false selfidx0 s =
      match ownSlot W s.objects o name with
      | some val => some (some val, s)
      | none =>
        match next W s.objects o with
        | none => afterDelegates W fuel o name selfidx0 s
        | some d =>
          match Get W fuel d name false false false s with
          | none => none
          | some (some dest, s') => some (some dest, s')
          | some (none, s') => afterDelegates W fuel o name selfidx0 s' := by
  rw [Get, read_run, own_of_string string]
  cases ownSlot W s.objects o name with
  | some val => rfl
  | none =>
    simp only [Option.elim_none]
    rw [bind_run, getFallback, if_neg (by decide), fallBackGet_run keeps unhooked]
    cases next W s.objects o with
    | none => rfl
    | some d =>
      dsimp only
      cases Get W fuel d name false false false s with
      | none => rfl
      | some r =>
        obtain ⟨found, s'⟩ := r
        cases found with
        | some dest => rfl
        | none => rfl

/-- What looking a name up without the root comes to. -/
def Found (W : Objects Heap) (objects : Heap) (name o : LVObject) : Option LVObject → Prop
  | none => Missing W objects name o
  | some val => ∃ place, Located W objects name o place ∧ place.value W objects name = some val

/-- A name is found on the object or a delegate, or `Get` goes on behind them, whatever
`selfidx` is. -/
theorem get_cases {r : Option LVObject} {selfidx0 : Bool} (string : name.type = .OT_STRING)
    (unhooked : W.getMetaMethod s.objects o .MT_GET = none)
    (deeper : ∀ {d r s'}, next W s.objects o = some d →
      Get W fuel d name false false false s = some (r, s') →
      SameButError s s' ∧ Found W s.objects name d r)
    (run : Get W (fuel + 1) o name false false selfidx0 s = some (r, s')) :
    (∃ val mid, SameButError s mid ∧ Found W s.objects name o (some val) ∧
      ∀ selfidx0, Get W (fuel + 1) o name false false selfidx0 s = some (some val, mid)) ∨
      ownSlot W s.objects o name = none ∧
      (∀ d, next W s.objects o = some d → Missing W s.objects name d) ∧
      ∃ mid, SameButError s mid ∧ ∀ selfidx0,
        Get W (fuel + 1) o name false false selfidx0 s = afterDelegates W fuel o name selfidx0 mid := by
  have step (selfidx0 : Bool) : Get W (fuel + 1) o name false false selfidx0 s = _ :=
    get_run string (fun link run => (deeper link run).1.objects) unhooked selfidx0
  rw [step] at run
  simp only [step]
  cases own : ownSlot W s.objects o name with
  | some val => exact .inl ⟨val, s, .refl s, ⟨.slot o, .own (by rw [own]; rfl), own⟩, fun _ => rfl⟩
  | none =>
    rw [own] at run
    cases link : next W s.objects o with
    | none => exact .inr ⟨rfl, fun _ found => (by cases found), s, .refl s, fun _ => rfl⟩
    | some d =>
      rw [link] at run
      dsimp only at run
      cases below : Get W fuel d name false false false s with
      | none =>
        rw [below] at run
        cases run
      | some answer =>
        obtain ⟨found, mid⟩ := answer
        obtain ⟨same, at_d⟩ := deeper link below
        simp only [below]
        cases found with
        | some dest =>
          obtain ⟨place, located, value⟩ := at_d
          exact .inl ⟨dest, mid, same, ⟨place, .delegate own link located, value⟩, fun _ => rfl⟩
        | none =>
          refine .inr ⟨trivial, fun d' link' => ?_, mid, same, fun _ => rfl⟩
          cases link'
          exact at_d

theorem afterDelegates_found {r : Option LVObject} (none : ownSlot W s.objects o name = none)
    (missing : ∀ d, next W s.objects o = some d → Missing W s.objects name d)
    (run : afterDelegates W fuel o name false s = some (r, s')) :
    SameButError s s' ∧ Found W s.objects name o r := by
  rw [afterDelegates, read_run] at run
  cases default : W.invokeDefaultDelegate s.objects o name with
  | none =>
    rw [default] at run
    cases run
    exact ⟨⟨rfl, rfl⟩, .intro none missing default⟩
  | some dest =>
    rw [default] at run
    cases run
    exact ⟨.refl s, .default o, .default none missing (by rw [default]; rfl), default⟩

/-- Without metamethods a name is looked up on the object and its delegates. -/
theorem get_found {r : Option LVObject} (string : name.type = .OT_STRING)
    (unhooked : Unhooked W s.objects o)
    (run : Get W fuel o name false false false s = some (r, s')) :
    SameButError s s' ∧ Found W s.objects name o r := by
  induction fuel generalizing o s s' r with
  | zero => cases run
  | succ fuel ih =>
    obtain ⟨val, mid, same, found, eq⟩ | ⟨own, missing, mid, same, eq⟩ :=
      get_cases string (unhooked o .refl).1 (fun link => ih (unhooked.next link)) run
    · cases (eq false).symm.trans run
      exact ⟨same, found⟩
    · rw [eq] at run
      obtain ⟨same', found⟩ := afterDelegates_found (by rw [same.objects]; exact own)
        (by rw [same.objects]; exact missing) run
      rw [same.objects] at found
      exact ⟨same.trans same', found⟩

/-- Where reading a free name in an environment comes to: the environment, or the root of the
closure. -/
def Reads (W : Objects Heap) (s : MetaVM Heap) (name env : LVObject) (place : Place) : Prop :=
  Located W s.objects name env place ∨
    Missing W s.objects name env ∧
      ∃ root, W.root s = some root ∧ Located W s.objects name root place

theorem Reads.unique {env : LVObject} (first : Reads W s name env place)
    (second : Reads W s name env place') : place = place' := by
  rcases first with located | ⟨missing, root, found, located⟩
  · rcases second with located' | ⟨missing, -⟩
    · exact located.unique located'
    · exact absurd missing located.not_missing
  · rcases second with located' | ⟨-, root', found', located'⟩
    · exact absurd missing located'.not_missing
    · cases found.symm.trans found'
      exact located.unique located'

/-- No metamethod is asked for a free name, in the environment or in the root. -/
structure Bare (W : Objects Heap) (s : MetaVM Heap) (env : LVObject) : Prop where
  env : Unhooked W s.objects env
  root {root} : W.root s = some root → Unhooked W s.objects root

/-- What reading a free name comes to. -/
def Reading (W : Objects Heap) (s : MetaVM Heap) (name env : LVObject) : Option LVObject → Prop
  | none => ∀ place, ¬Reads W s name env place
  | some val => ∃ place, Reads W s name env place ∧ place.value W s.objects name = some val

theorem afterDelegates_reads {env : LVObject} {r : Option LVObject}
    (string : name.type = .OT_STRING) (bare : Bare W s env)
    (none : ownSlot W s.objects env name = none)
    (missing : ∀ d, next W s.objects env = some d → Missing W s.objects name d)
    (run : afterDelegates W fuel env name true s = some (r, s')) : Reading W s name env r := by
  rw [afterDelegates, read_run] at run
  cases default : W.invokeDefaultDelegate s.objects env name with
  | some dest =>
    rw [default] at run
    cases run
    exact ⟨.default env, .inl (.default none missing (by rw [default]; rfl)), default⟩
  | none =>
    have missing : Missing W s.objects name env := .intro none missing default
    rw [default] at run
    dsimp only at run
    rw [if_pos rfl] at run
    cases rooted : W.root s with
    | none =>
      rw [rooted] at run
      cases run
      rintro place (located | ⟨-, root, found, -⟩)
      · exact located.not_missing missing
      · cases rooted.symm.trans found
    | some root =>
      rw [rooted] at run
      dsimp only at run
      rw [bind_run] at run
      cases deeper : Get W fuel root name false false false s with
      | none =>
        rw [deeper] at run
        cases run
      | some answer =>
        obtain ⟨found, mid⟩ := answer
        obtain ⟨-, at_root⟩ := get_found string (bare.root rooted) deeper
        rw [deeper] at run
        cases found with
        | none =>
          cases run
          rintro place (located | ⟨-, root', found, located⟩)
          · exact located.not_missing missing
          · cases rooted.symm.trans found
            exact located.not_missing at_root
        | some dest =>
          cases run
          obtain ⟨place, located, value⟩ := at_root
          exact ⟨place, .inr ⟨missing, root, rooted, located⟩, value⟩

theorem get_reads {env : LVObject} {r : Option LVObject} (string : name.type = .OT_STRING)
    (bare : Bare W s env) (stays : ∀ {mid}, SameButError s mid → W.root mid = W.root s)
    (run : Get W fuel env name false false true s = some (r, s')) : Reading W s name env r := by
  cases fuel with
  | zero => cases run
  | succ fuel =>
    obtain ⟨val, mid, -, ⟨place, located, value⟩, eq⟩ | ⟨own, missing, mid, same, eq⟩ :=
      get_cases string (bare.env env .refl).1
        (fun link => get_found string (bare.env.next link)) run
    · cases (eq true).symm.trans run
      exact ⟨place, .inl located, value⟩
    · have bareMid : Bare W mid env :=
        ⟨same.objects.symm ▸ bare.env, fun found => same.objects.symm ▸ bare.root (stays same ▸ found)⟩
      rw [eq] at run
      have reading := afterDelegates_reads string bareMid (by rw [same.objects]; exact own)
        (by rw [same.objects]; exact missing) run
      have reads (place : Place) : Reads W mid name env place ↔ Reads W s name env place := by
        rw [Reads, Reads, stays same, same.objects]
      cases r with
      | none => exact fun place is => reading place ((reads place).mpr is)
      | some val =>
        obtain ⟨place, is, value⟩ := reading
        exact ⟨place, (reads place).mp is, same.objects ▸ value⟩

/-- With enough fuel a name that is missing or located is looked up to the end. -/
def Answered (W : Objects Heap) (objects : Heap) (name o : LVObject) : Prop :=
  ∃ enough, ∀ fuel s, enough ≤ fuel → s.objects = objects →
    ∃ r, Get W fuel o name false false false s = some r

theorem afterDelegates_answers :
    ∃ r, afterDelegates W fuel o name false s = some r := by
  rw [afterDelegates, read_run]
  cases W.invokeDefaultDelegate s.objects o name with
  | none => exact ⟨_, rfl⟩
  | some dest => exact ⟨_, rfl⟩

theorem answered_of_own (string : name.type = .OT_STRING) (unhooked : Unhooked W objects o)
    (own : (ownSlot W objects o name).isSome) : Answered W objects name o := by
  obtain ⟨val, own⟩ := Option.isSome_iff_exists.mp own
  refine ⟨1, fun fuel s le here => ?_⟩
  subst here
  obtain ⟨fuel, rfl⟩ : ∃ m, fuel = m + 1 := ⟨fuel - 1, by omega⟩
  rw [get_run string (fun link run => (get_found string (unhooked.next link) run).1.objects)
    (unhooked o .refl).1, own]
  exact ⟨_, rfl⟩

theorem answered_of_delegate (string : name.type = .OT_STRING) (unhooked : Unhooked W objects o)
    (below : ∀ d, next W objects o = some d → Answered W objects name d) :
    Answered W objects name o := by
  obtain ⟨enough, ends⟩ : ∃ enough, ∀ d, next W objects o = some d → ∀ fuel s, enough ≤ fuel →
      s.objects = objects → ∃ r, Get W fuel d name false false false s = some r := by
    cases link : next W objects o with
    | none => exact ⟨0, nofun⟩
    | some d =>
      obtain ⟨enough, ends⟩ := below d link
      refine ⟨enough, fun d' link' => ?_⟩
      cases link'
      exact ends
  refine ⟨enough + 1, fun fuel s le here => ?_⟩
  subst here
  obtain ⟨fuel, rfl⟩ : ∃ m, fuel = m + 1 := ⟨fuel - 1, by omega⟩
  rw [get_run string (fun link run => (get_found string (unhooked.next link) run).1.objects)
    (unhooked o .refl).1]
  cases ownSlot W s.objects o name with
  | some val => exact ⟨_, rfl⟩
  | none =>
    cases link : next W s.objects o with
    | none => exact afterDelegates_answers
    | some d =>
      obtain ⟨⟨found, mid⟩, run⟩ := ends d link fuel s (by omega) rfl
      dsimp only
      rw [run]
      cases found with
      | some dest => exact ⟨_, rfl⟩
      | none => exact afterDelegates_answers

theorem Missing.answered (string : name.type = .OT_STRING) (missing : Missing W objects name o)
    (unhooked : Unhooked W objects o) : Answered W objects name o := by
  induction missing with
  | intro _ _ _ ih =>
    exact answered_of_delegate string unhooked fun d link => ih d link (unhooked.next link)

theorem Located.answered (string : name.type = .OT_STRING)
    (located : Located W objects name o place) (unhooked : Unhooked W objects o) :
    Answered W objects name o := by
  induction located with
  | own some => exact answered_of_own string unhooked some
  | delegate _ link _ ih =>
    refine answered_of_delegate string unhooked fun d link' => ?_
    cases link.symm.trans link'
    exact ih (unhooked.next link)
  | default _ missing _ =>
    exact answered_of_delegate string unhooked fun d link =>
      (missing d link).answered string (unhooked.next link)

/-- A free name is read from where its reading comes to. -/
theorem reads_get {env val : LVObject} (string : name.type = .OT_STRING) (bare : Bare W s env)
    (stays : ∀ {mid}, SameButError s mid → W.root mid = W.root s)
    (reads : Reads W s name env place) (value : place.value W s.objects name = some val) :
    ∃ fuel s', Get W fuel env name false false true s = some (some val, s') := by
  suffices ends : ∃ fuel r, Get W fuel env name false false true s = some r by
    obtain ⟨fuel, ⟨r, s'⟩, run⟩ := ends
    have reading := get_reads string bare stays run
    cases r with
    | none => exact absurd reads (reading place)
    | some val' =>
      obtain ⟨place', reads', value'⟩ := reading
      cases reads.unique reads'
      cases value.symm.trans value'
      exact ⟨fuel, s', run⟩
  obtain ⟨enough, ends⟩ : Answered W s.objects name env := by
    rcases reads with located | ⟨missing, -⟩
    · exact located.answered string bare.env
    · exact missing.answered string bare.env
  obtain ⟨enoughRoot, rootEnds⟩ : ∃ enough, ∀ root fuel, W.root s = some root →
      Missing W s.objects name env → enough ≤ fuel → ∀ mid, mid.objects = s.objects →
      ∃ r, Get W fuel root name false false false mid = some r := by
    rcases reads with located | ⟨-, root, found, located⟩
    · exact ⟨0, fun root fuel _ missing => absurd missing located.not_missing⟩
    · obtain ⟨enough, ends⟩ := located.answered string (bare.root found)
      refine ⟨enough, fun root' fuel found' _ le mid here => ?_⟩
      cases found.symm.trans found'
      exact ends fuel mid le here
  refine ⟨enough + enoughRoot + 1, ?_⟩
  obtain ⟨⟨r, s'⟩, run⟩ := ends (enough + enoughRoot + 1) s (by omega) rfl
  obtain ⟨val', mid, -, -, eq⟩ | ⟨own, missing, mid, same, eq⟩ := get_cases string
    (bare.env env .refl).1 (fun link => get_found string (bare.env.next link)) run
  · exact ⟨_, eq true⟩
  · rw [eq, afterDelegates, read_run, stays same, same.objects]
    cases default : W.invokeDefaultDelegate s.objects env name with
    | some dest => exact ⟨_, rfl⟩
    | none =>
      dsimp only
      rw [if_pos rfl]
      cases rooted : W.root s with
      | none => exact ⟨_, rfl⟩
      | some root =>
        obtain ⟨⟨found, s''⟩, run⟩ := rootEnds root (enough + enoughRoot) rooted
          (.intro own missing default) (by omega) mid same.objects
        dsimp only
        rw [bind_run, run]
        cases found with
        | some dest => exact ⟨_, rfl⟩
        | none => exact ⟨_, rfl⟩

/-! ## Assigning -/

/-- The objects that `Set` stores in. -/
def HasSlots (o : LVObject) : Prop := o.type = .OT_TABLE ∨ o.type = .OT_INSTANCE

/-- What `Set` and `Get` of tables and instances do with the slots of a name. -/
structure SlotLaws (W : Objects Heap) (name : LVObject) : Prop where
  stored {h h' : Heap} {o v : LVObject} : HasSlots o → W.set h o name v = some h' →
    W.get h' o name = some (realval W h' v)
  bound {h h' : Heap} {o v : LVObject} : HasSlots o → W.set h o name v = some h' →
    (W.get h o name).isSome
  others {h h' : Heap} {o o' v : LVObject} : HasSlots o → W.set h o name v = some h' → o' ≠ o →
    W.get h' o' name = W.get h o' name
  table {h : Heap} {o v : LVObject} : o.type = .OT_TABLE → W.set h o name v = none →
    W.get h o name = none
  uniform {h : Heap} {o v v' : LVObject} : HasSlots o → W.set h o name v = none →
    W.set h o name v' = none
  delegate {h h' : Heap} {o v : LVObject} : HasSlots o → W.set h o name v = some h' →
    W.delegate h' = W.delegate h
  default {h h' : Heap} {o v : LVObject} : HasSlots o → W.set h o name v = some h' →
    W.invokeDefaultDelegate h' = W.invokeDefaultDelegate h
  metamethod {h h' : Heap} {o o' v : LVObject} {mm : LVMetaMethod} : HasSlots o →
    W.set h o name v = some h' → (W.getMetaMethod h' o' mm = none ↔ W.getMetaMethod h o' mm = none)
  delegate_table {h : Heap} {o d : LVObject} : o.type = .OT_TABLE → W.delegate h o = some d →
    d.type = .OT_TABLE
  roottable : W.roottable.type = .OT_TABLE
  /-- A store frees neither the running closure nor its root. -/
  root {s s' : MetaVM Heap} : s'.toLVVM = s.toLVVM → (s'.objects = s.objects ∨
    ∃ o v, HasSlots o ∧ W.set s.objects o name v = some s'.objects) → W.root s' = W.root s

/-- No object on the way from `o` through its delegates takes the name. -/
inductive Unwritten (W : Objects Heap) (objects : Heap) (name : LVObject) : LVObject → Prop where
  | intro {o : LVObject} : HasSlots o → (∀ v, W.set objects o name v = none) →
      (∀ d, next W objects o = some d → Unwritten W objects name d) → Unwritten W objects name o

/-- `Set` behind the fallbacks. -/
def afterSet (W : Objects Heap) (name v : LVObject) (selfidx0 : Bool) :
    ObjectM Heap (Option Unit) := do
  let s ← get
  match if selfidx0 then W.set s.objects W.roottable name v else none with
  | some objects =>
    setObjects objects
    return some ()
  | none => raise (idxError W name)

variable {v : LVObject} {selfidx0 : Bool}

theorem setMetaMethod_none (unhooked : W.getMetaMethod s.objects o .MT_SET = none) :
    setMetaMethod W o name v s = some (.FALLBACK_NO_MATCH, s) := by
  rw [setMetaMethod, read_run, unhooked]
  rfl

/-- What `FallBackSet` does without metamethods. -/
theorem fallBackSet_run {setDelegate : LVObject → ObjectM Heap (Option Unit)} (slots : HasSlots o)
    (keeps : ∀ {d s'}, next W s.objects o = some d → setDelegate d s = some (none, s') →
      s'.objects = s.objects)
    (unhooked : W.getMetaMethod s.objects o .MT_SET = none) :
    FallBackSet W setDelegate o name v s =
      match next W s.objects o with
      | none => some (.FALLBACK_NO_MATCH, s)
      | some d =>
        match setDelegate d s with
        | none => none
        | some (some (), s') => some (.FALLBACK_OK (), s')
        | some (none, s') => some (.FALLBACK_NO_MATCH, s') := by
  rw [FallBackSet]
  rcases slots with type | type
  · rw [next, if_pos (.inl type)] at keeps ⊢
    rw [type]
    dsimp only
    rw [read_run]
    cases link : W.delegate s.objects o with
    | none => exact setMetaMethod_none unhooked
    | some d =>
      dsimp only
      rw [bind_run]
      cases answer : setDelegate d s with
      | none => rfl
      | some r =>
        obtain ⟨done, s'⟩ := r
        cases done with
        | some _ => rfl
        | none =>
          refine setMetaMethod_none ?_
          rw [keeps link answer]
          exact unhooked
  · rw [next, if_neg (by simp [type]), type]
    exact setMetaMethod_none unhooked

/-- `Set` without metamethods: the object, its delegates, and the rest. -/
theorem set_run (slots : HasSlots o)
    (keeps : ∀ {d s'}, next W s.objects o = some d →
      Set W fuel d name v false s = some (none, s') → s'.objects = s.objects)
    (unhooked : W.getMetaMethod s.objects o .MT_SET = none) :
    Set W (fuel + 1) o name v selfidx0 s =
      match W.set s.objects o name v with
      | some objects => some (some (), { s with objects })
      | none =>
        match next W s.objects o with
        | none => afterSet W name v selfidx0 s
        | some d =>
          match Set W fuel d name v false s with
          | none => none
          | some (some (), s') => some (some (), s')
          | some (none, s') => afterSet W name v selfidx0 s' := by
  have fallback : Set W (fuel + 1) o name v selfidx0 = (do
      match W.set (← get).objects o name v with
      | some objects =>
        setObjects objects
        return some ()
      | none => setFallback W (fun d => Set W fuel d name v false) o name v selfidx0) := by
    obtain ⟨type, val⟩ := o
    rcases slots with is | is
    · cases is
      rfl
    · cases is
      rfl
  rw [fallback, read_run]
  cases W.set s.objects o name v with
  | some objects => rfl
  | none =>
    dsimp only
    rw [setFallback, bind_run, fallBackSet_run slots keeps unhooked]
    cases next W s.objects o with
    | none => rfl
    | some d =>
      dsimp only
      cases Set W fuel d name v false s with
      | none => rfl
      | some r =>
        obtain ⟨done, s'⟩ := r
        cases done with
        | some _ => rfl
        | none => rfl

/-- The value has been stored in the first object on the way from `o` that takes it. -/
structure Written (W : Objects Heap) (name v o t : LVObject) (s s' : MetaVM Heap) : Prop where
  slots : HasSlots t
  set : W.set s.objects t name v = some s'.objects
  located : Located W s'.objects name o (.slot t)
  vm : s'.toLVVM = s.toLVVM

theorem ownSlot_of_hasSlots (slots : HasSlots o) : ownSlot W objects o name = W.get objects o name := by
  rw [ownSlot, own]
  rcases slots with type | type
  · rw [type]
    cases W.get objects o name <;> rfl
  · rw [type]
    cases W.get objects o name <;> rfl

theorem table_of_next (slots : HasSlots o) (link : next W objects o = some d) :
    o.type = .OT_TABLE := by
  rcases slots with type | type
  · exact type
  · rw [next, if_neg (by simp [type])] at link
    cases link

theorem next_of_table (laws : SlotLaws W name) (slots : HasSlots o)
    (link : next W objects o = some d) : d.type = .OT_TABLE := by
  have type := table_of_next slots link
  rw [next, if_pos (.inl type)] at link
  exact laws.delegate_table type link

/-- A store leaves what other objects have. -/
theorem ownSlot_set (laws : SlotLaws W name) {h h' : Heap} {t : LVObject} (slots : HasSlots t)
    (string : name.type = .OT_STRING) (set : W.set h t name v = some h') (ne : o ≠ t) :
    ownSlot W h' o name = ownSlot W h o name := by
  rw [ownSlot, ownSlot, own, own]
  cases o.type <;> simp only [string, LVObjectType.isnumeric, laws.others slots set ne]

theorem Written.self (laws : SlotLaws W name) (slots : HasSlots o) {h : Heap}
    (set : W.set s.objects o name v = some h) : Written W name v o o s { s with objects := h } := by
  refine ⟨slots, set, .own ?_, rfl⟩
  rw [ownSlot_of_hasSlots slots, laws.stored slots set]
  rfl

theorem Written.delegate (laws : SlotLaws W name) (string : name.type = .OT_STRING) {t : LVObject}
    (slots : HasSlots o) (refused : W.set s.objects o name v = none)
    (link : next W s.objects o = some d) (written : Written W name v d t s s') :
    Written W name v o t s s' := by
  have ne : o ≠ t := by
    rintro rfl
    cases refused.symm.trans written.set
  refine ⟨written.slots, written.set, .delegate ?_ ?_ written.located, written.vm⟩
  · rw [ownSlot_set laws written.slots string written.set ne, ownSlot_of_hasSlots slots]
    exact laws.table (table_of_next slots link) refused
  · rw [next, laws.delegate written.slots written.set]
    exact link

theorem set_not_slots (string : name.type = .OT_STRING) (slots : ¬HasSlots o) :
    ∃ error, Set W (fuel + 1) o name v selfidx0 s = some (none, { s with lasterror := error }) := by
  rw [Set]
  cases type : o.type <;> simp only [HasSlots, type, not_true, or_true, true_or, reduceCtorEq] at slots
  all_goals
    simp only [string, LVObjectType.isnumeric]
    exact ⟨_, rfl⟩

/-- What `Set` without the root comes to. -/
def Stores (W : Objects Heap) (name v o : LVObject) (s s' : MetaVM Heap) : Option Unit → Prop
  | some () => ∃ t, Written W name v o t s s'
  | none => SameButError s s' ∧ (HasSlots o → Unwritten W s.objects name o)

/-- An object or a delegate takes the name, or `Set` goes on behind them. -/
theorem set_cases {r : Option Unit} (laws : SlotLaws W name) (string : name.type = .OT_STRING)
    (slots : HasSlots o) (unhooked : W.getMetaMethod s.objects o .MT_SET = none)
    (deeper : ∀ {d r s'}, next W s.objects o = some d →
      Set W fuel d name v false s = some (r, s') → Stores W name v d s s' r)
    (run : Set W (fuel + 1) o name v selfidx0 s = some (r, s')) :
    (r = some () ∧ ∃ t, Written W name v o t s s') ∨
      Unwritten W s.objects name o ∧
      ∃ mid, SameButError s mid ∧ afterSet W name v selfidx0 mid = some (r, s') := by
  rw [set_run slots (fun link run => (deeper link run).1.objects) unhooked] at run
  cases refused : W.set s.objects o name v with
  | some h =>
    rw [refused] at run
    cases run
    exact .inl ⟨rfl, o, .self laws slots refused⟩
  | none =>
    rw [refused] at run
    have all (v' : LVObject) : W.set s.objects o name v' = none := laws.uniform slots refused
    cases link : next W s.objects o with
    | none =>
      rw [link] at run
      exact .inr ⟨.intro slots all fun d some => (by cases link.symm.trans some), s, .refl s, run⟩
    | some d =>
      rw [link] at run
      dsimp only at run
      cases below : Set W fuel d name v false s with
      | none =>
        rw [below] at run
        cases run
      | some answer =>
        obtain ⟨done, mid⟩ := answer
        have stores := deeper link below
        rw [below] at run
        cases done with
        | some _ =>
          cases run
          obtain ⟨t, written⟩ := stores
          exact .inl ⟨rfl, t, written.delegate laws string slots refused link⟩
        | none =>
          obtain ⟨same, unwritten⟩ := stores
          refine .inr ⟨.intro slots all fun d' link' => ?_, mid, same, run⟩
          cases link.symm.trans link'
          exact unwritten (.inl (next_of_table laws slots link))

theorem set_stores {r : Option Unit} (laws : SlotLaws W name) (string : name.type = .OT_STRING)
    (unhooked : Unhooked W s.objects o) (run : Set W fuel o name v false s = some (r, s')) :
    Stores W name v o s s' r := by
  induction fuel generalizing o s s' r with
  | zero => cases run
  | succ fuel ih =>
    by_cases slots : HasSlots o
    · obtain ⟨rfl, written⟩ | ⟨unwritten, mid, same, run⟩ := set_cases laws string slots
        (unhooked o .refl).2 (fun link => ih (unhooked.next link)) run
      · exact written
      · cases run
        exact ⟨⟨same.objects, same.vm⟩, fun _ => unwritten⟩
    · have refused : ∃ error, Set W (fuel + 1) o name v false s =
          some (none, { s with lasterror := error }) := set_not_slots string slots
      obtain ⟨error, eq⟩ := refused
      cases eq.symm.trans run
      exact ⟨⟨rfl, rfl⟩, fun is => absurd is slots⟩

/-- An assignment that does not fail has written to the environment, or to the root table of
the virtual machine. -/
theorem set_done {env : LVObject} (laws : SlotLaws W name) (string : name.type = .OT_STRING)
    (unhooked : Unhooked W s.objects env)
    (run : Set W fuel env name v true s = some (some (), s')) :
    (∃ t, Written W name v env t s s') ∨
      Unwritten W s.objects name env ∧ s'.toLVVM = s.toLVVM ∧
        W.set s.objects W.roottable name v = some s'.objects := by
  cases fuel with
  | zero => cases run
  | succ fuel =>
    by_cases slots : HasSlots env
    · obtain ⟨-, written⟩ | ⟨unwritten, mid, same, run⟩ := set_cases laws string slots
        (unhooked env .refl).2 (fun link => set_stores laws string (unhooked.next link)) run
      · exact .inl written
      · rw [afterSet, read_run, if_pos rfl, same.objects] at run
        cases rooted : W.set s.objects W.roottable name v with
        | none =>
          rw [rooted] at run
          cases run
        | some h =>
          rw [rooted] at run
          cases run
          exact .inr ⟨unwritten, same.vm, rfl⟩
    · have refused : ∃ error, Set W (fuel + 1) env name v true s =
          some (none, { s with lasterror := error }) := set_not_slots string slots
      obtain ⟨error, eq⟩ := refused
      cases eq.symm.trans run

theorem Unwritten.set (laws : SlotLaws W name) (string : name.type = .OT_STRING)
    (unwritten : Unwritten W objects name o) (unhooked : Unhooked W objects o) (v : LVObject) :
    ∃ fuel, ∀ s selfidx0, s.objects = objects → ∃ mid, SameButError s mid ∧
      Set W fuel o name v selfidx0 s = afterSet W name v selfidx0 mid := by
  induction unwritten with
  | @intro o slots refused _ ih =>
    have keeps {fuel : Nat} {s s' : MetaVM Heap} {d : LVObject} (here : s.objects = objects)
        (link : next W s.objects o = some d) (run : Set W fuel d name v false s = some (none, s')) :
        s'.objects = s.objects := by
      subst here
      exact (set_stores laws string (unhooked.next link) run).1.objects
    have own {s : MetaVM Heap} (here : s.objects = objects) :
        W.getMetaMethod s.objects o .MT_SET = none := here ▸ (unhooked o .refl).2
    cases link : next W objects o with
    | none =>
      refine ⟨1, fun s selfidx0 here => ⟨s, .refl s, ?_⟩⟩
      rw [set_run slots (keeps here) (own here), here, refused, link]
    | some d =>
      obtain ⟨fuel, below⟩ := ih d link (unhooked.next link)
      refine ⟨fuel + 1, fun s selfidx0 here => ?_⟩
      obtain ⟨mid, same, eq⟩ := below s false here
      rw [set_run slots (keeps here) (own here), here, refused, link]
      dsimp only
      rw [eq]
      exact ⟨{ mid with lasterror := .string (idxError W name) }, same.trans ⟨rfl, rfl⟩, rfl⟩

/-- A name that nothing in the environment takes is assigned in the root table. -/
theorem set_root {env : LVObject} {h : Heap} (laws : SlotLaws W name)
    (string : name.type = .OT_STRING) (unhooked : Unhooked W s.objects env)
    (unwritten : Unwritten W s.objects name env)
    (set : W.set s.objects W.roottable name v = some h) :
    ∃ fuel s', Set W fuel env name v true s = some (some (), s') ∧ s'.objects = h ∧
      s'.toLVVM = s.toLVVM := by
  obtain ⟨fuel, run⟩ := unwritten.set laws string unhooked v
  obtain ⟨mid, same, eq⟩ := run s true rfl
  refine ⟨fuel, { mid with objects := h }, ?_, rfl, same.vm⟩
  rw [eq, afterSet, read_run, if_pos rfl, same.objects, set]
  rfl

/-! ## Reading what was assigned -/

/-- Whatever is assigned to a free name without an error is what is then read from it. -/
def ReadsBack (W : Objects Heap) (s : MetaVM Heap) (env name : LVObject) : Prop :=
  ∀ v fuel s', Set W fuel env name v true s = some (some (), s') →
    ∃ fuel s'', Get W fuel env name false false true s' =
      some (some (realval W s'.objects v), s'')

/-- A store changes neither where names are found nor what metamethods there are. -/
structure SameWays (W : Objects Heap) (name : LVObject) (h h' : Heap) : Prop where
  own (o : LVObject) : (ownSlot W h' o name).isSome = (ownSlot W h o name).isSome
  next : next W h' = next W h
  default : W.invokeDefaultDelegate h' = W.invokeDefaultDelegate h
  metamethod (o : LVObject) (mm : LVMetaMethod) :
    W.getMetaMethod h' o mm = none ↔ W.getMetaMethod h o mm = none

theorem sameWays (laws : SlotLaws W name) (string : name.type = .OT_STRING) {t : LVObject}
    {h h' : Heap} (slots : HasSlots t) (set : W.set h t name v = some h') :
    SameWays W name h h' := by
  refine ⟨fun o => ?_, ?_, laws.default slots set, fun o mm => laws.metamethod slots set⟩
  · by_cases here : o = t
    · subst here
      rw [ownSlot_of_hasSlots slots, ownSlot_of_hasSlots slots, laws.stored slots set,
        laws.bound slots set]
      rfl
    · rw [ownSlot_set laws slots string set here]
  · funext o
    rw [next, next, laws.delegate slots set]

namespace SameWays

variable {h h' : Heap}

theorem own_none (same : SameWays W name h h') :
    ownSlot W h' o name = none ↔ ownSlot W h o name = none := by
  rw [← Option.not_isSome_iff_eq_none, ← Option.not_isSome_iff_eq_none, same.own]

theorem symm (same : SameWays W name h h') : SameWays W name h' h :=
  ⟨fun o => (same.own o).symm, same.next.symm, same.default.symm,
    fun o mm => (same.metamethod o mm).symm⟩

theorem missing (same : SameWays W name h h') (missing : Missing W h name o) :
    Missing W h' name o := by
  induction missing with
  | intro none _ default ih =>
    refine .intro (same.own_none.mpr none) (fun d link => ih d ?_) ?_
    · rw [← same.next]
      exact link
    · rw [same.default]
      exact default

theorem located (same : SameWays W name h h') (located : Located W h name o place) :
    Located W h' name o place := by
  induction located with
  | own some =>
    refine .own ?_
    rw [same.own]
    exact some
  | delegate none link _ ih => exact .delegate (same.own_none.mpr none) (same.next ▸ link) ih
  | default none missing default =>
    refine .default (same.own_none.mpr none) (fun d link => same.missing (missing d ?_)) ?_
    · rw [← same.next]
      exact link
    · rw [same.default]
      exact default

theorem unhooked (same : SameWays W name h h') (unhooked : Unhooked W h o) : Unhooked W h' o := by
  intro o' path
  rw [same.next] at path
  obtain ⟨get, set⟩ := unhooked o' path
  exact ⟨(same.metamethod o' _).mpr get, (same.metamethod o' _).mpr set⟩

end SameWays

section

variable {env t : LVObject}

theorem stays (laws : SlotLaws W name) {mid : MetaVM Heap} (same : SameButError s mid) :
    W.root mid = W.root s := laws.root same.vm (.inl same.objects)

theorem root_stored (laws : SlotLaws W name) (slots : HasSlots t)
    (set : W.set s.objects t name v = some s'.objects) (vm : s'.toLVVM = s.toLVVM) :
    W.root s' = W.root s := laws.root vm (.inr ⟨t, v, slots, set⟩)

theorem Bare.stored (laws : SlotLaws W name) (string : name.type = .OT_STRING)
    (bare : Bare W s env) (slots : HasSlots t) (set : W.set s.objects t name v = some s'.objects)
    (vm : s'.toLVVM = s.toLVVM) : Bare W s' env := by
  have ways := sameWays laws string slots set
  refine ⟨ways.unhooked bare.env, fun found => ways.unhooked (bare.root ?_)⟩
  rw [← root_stored laws slots set vm]
  exact found

theorem value_stored (laws : SlotLaws W name) (slots : HasSlots t) {h h' : Heap}
    (set : W.set h t name v = some h') :
    (Place.slot t).value W h' name = some (realval W h' v) := by
  rw [Place.value, ownSlot_of_hasSlots slots, laws.stored slots set]

/-- What is stored in one object is not seen anywhere else. -/
theorem value_other (laws : SlotLaws W name) (string : name.type = .OT_STRING) (slots : HasSlots t)
    {h h' : Heap} (set : W.set h t name v = some h') (ne : place ≠ .slot t) :
    place.value W h' name = place.value W h name := by
  cases place with
  | slot o =>
    refine ownSlot_set laws slots string set ?_
    rintro rfl
    exact ne rfl
  | default o => rw [Place.value, Place.value, laws.default slots set]

theorem Unwritten.not_located {h' : Heap} (unwritten : Unwritten W objects name o)
    (set : W.set objects t name v = some h') : ¬Located W objects name o (.slot t) := by
  intro located
  induction unwritten with
  | intro _ refused _ ih =>
    cases located with
    | own _ => cases (refused v).symm.trans set
    | delegate _ link located => exact ih _ link located

/-- Where an assignment that falls back is read. -/
theorem reads_assigned {h : Heap} (laws : SlotLaws W name) (string : name.type = .OT_STRING)
    (bare : Bare W s env) (reads : ReadsBack W s env name)
    (unwritten : Unwritten W s.objects name env)
    (set : W.set s.objects W.roottable name v = some h) :
    ∃ place, Reads W s name env place ∧ place.value W h name = some (realval W h v) := by
  have slots : HasSlots W.roottable := .inl laws.roottable
  obtain ⟨fuel, s', run, rfl, vm⟩ := set_root laws string bare.env unwritten set
  obtain ⟨fuel', s'', read⟩ := reads v fuel s' run
  obtain ⟨place, found, value⟩ :=
    get_reads string (bare.stored laws string slots set vm) (stays laws) read
  have ways := (sameWays laws string slots set).symm
  refine ⟨place, ?_, value⟩
  rcases found with located | ⟨missing, root, rooted, located⟩
  · exact .inl (ways.located located)
  · rw [root_stored laws slots set vm] at rooted
    exact .inr ⟨ways.missing missing, root, rooted, ways.located located⟩

end

/-- An assignment is read back exactly if, whenever it comes to the root table of the virtual
machine, nothing that is asked before the roots has the name, and the root of the closure has
it in that table. -/
theorem reads_back_iff {env : LVObject} (laws : SlotLaws W name) (string : name.type = .OT_STRING)
    (bare : Bare W s env) :
    ReadsBack W s env name ↔
      (Unwritten W s.objects name env → (W.get s.objects W.roottable name).isSome →
        Missing W s.objects name env ∧ ∃ root, W.root s = some root ∧
          Located W s.objects name root (.slot W.roottable)) := by
  have slots : HasSlots W.roottable := .inl laws.roottable
  constructor
  · intro reads unwritten bound
    have set (v : LVObject) : ∃ h, W.set s.objects W.roottable name v = some h := by
      cases set : W.set s.objects W.roottable name v with
      | none => simp [laws.table laws.roottable set] at bound
      | some h => exact ⟨h, rfl⟩
    obtain ⟨h₀, set₀⟩ := set (.integer 0)
    obtain ⟨h₁, set₁⟩ := set (.integer 1)
    obtain ⟨place, found, value₀⟩ := reads_assigned laws string bare reads unwritten set₀
    obtain ⟨place', found', value₁⟩ := reads_assigned laws string bare reads unwritten set₁
    cases found.unique found'
    by_cases here : place = .slot W.roottable
    · subst here
      rcases found with located | fallback
      · exact absurd located (unwritten.not_located set₀)
      · exact fallback
    · rw [value_other laws string slots set₀ here] at value₀
      rw [value_other laws string slots set₁ here] at value₁
      cases value₀.symm.trans value₁
  · intro condition v fuel s' run
    obtain ⟨t, slots, set, located, vm⟩ | ⟨unwritten, vm, set⟩ :=
      set_done laws string bare.env run
    · exact reads_get string (bare.stored laws string slots set vm) (stays laws) (.inl located)
        (value_stored laws slots set)
    · obtain ⟨missing, root, rooted, located⟩ := condition unwritten (laws.bound slots set)
      have ways := sameWays laws string slots set
      refine reads_get string (bare.stored laws string slots set vm) (stays laws)
        (.inr ⟨ways.missing missing, root, ?_, ways.located located⟩) (value_stored laws slots set)
      rw [root_stored laws slots set vm]
      exact rooted

/-- Tables without delegates, the root of the running closure, and address 2 as the root table
of the virtual machine. -/
def rooted (root : LVObject) : Objects (LVObject → LVObject → Option LVObject) where
  get h o key := h o key
  set h o key val :=
    if (h o key).isSome then some (Function.update h o (Function.update (h o) key (some val)))
    else none
  delegate _ _ := none
  getMetaMethod _ _ _ := none
  invokeDefaultDelegate _ _ _ := none
  root _ := some root
  roottable := .ref .OT_TABLE 2
  newSlot _ _ _ _ _ := none
  locked _ _ := false
  setAttributes h _ _ _ := h
  remove h _ _ := h
  clone h o := (o, h)
  next _ _ _ := none
  count _ _ := 0
  referent _ o := o
  floatText _ := ""
  floatText14 _ := ""
  floatOp _ o _ := o
  floatNeg o := o
  floatLess _ _ := false
  floatEqual _ _ := false
  call _ _ _ s := (none, s)

theorem rooted_set {root o name v : LVObject} {h h' : LVObject → LVObject → Option LVObject}
    (set : (rooted root).set h o name v = some h') :
    (h o name).isSome ∧ h' = Function.update h o (Function.update (h o) name (some v)) := by
  simp only [rooted] at set
  split at set
  · cases set
    exact ⟨by assumption, rfl⟩
  · cases set

theorem rooted_laws (root name : LVObject) : SlotLaws (rooted root) name where
  stored {h h' o v} _ set := by
    obtain ⟨-, rfl⟩ := rooted_set set
    simp [rooted, realval]
  bound _ set := (rooted_set set).1
  others {h h' o o' v} _ set ne := by
    obtain ⟨-, rfl⟩ := rooted_set set
    simp [rooted, ne]
  table {h o v} _ none := by
    simpa [rooted] using none
  uniform {h o v v'} _ none := by
    simpa [rooted] using none
  delegate _ _ := rfl
  default _ _ := rfl
  metamethod _ _ := Iff.rfl
  delegate_table _ some := by cases some
  roottable := rfl
  root _ _ := rfl

/-- `n` is 5 in the table at address 2 and 7 in the table at address 3. -/
def twoRoots : MetaVM (LVObject → LVObject → Option LVObject) :=
  { emptyVM.toLVVM with
    lasterror := .null
    objects := fun o name =>
      if name = .string "n" then
        if o = .ref .OT_TABLE 2 then some (.integer 5)
        else if o = .ref .OT_TABLE 3 then some (.integer 7) else none
      else none
    calls := [] }

theorem rooted_bare (root env : LVObject) : Bare (rooted root) twoRoots env :=
  ⟨fun _ _ => ⟨rfl, rfl⟩, fun _ _ _ => ⟨rfl, rfl⟩⟩

theorem reads_back_roottable :
    ReadsBack (rooted (.ref .OT_TABLE 2)) twoRoots (.ref .OT_TABLE 1) (.string "n") := by
  refine (reads_back_iff (rooted_laws _ _) rfl (rooted_bare _ _)).mpr fun _ _ => ⟨?_, ?_⟩
  · exact .intro rfl (fun d link => by cases link) rfl
  · exact ⟨_, rfl, .own rfl⟩

/-- The closure's root still has 7 for the name that has been assigned 1. -/
theorem root_of_closure_unchanged :
    ¬∀ (Heap : Type) (W : Objects Heap) (s : MetaVM Heap) (env name : LVObject),
      SlotLaws W name → name.type = .OT_STRING → Bare W s env → ReadsBack W s env name := by
  intro always
  have reads := always _ (rooted (.ref .OT_TABLE 3)) twoRoots (.ref .OT_TABLE 1) (.string "n")
    (rooted_laws _ _) rfl (rooted_bare _ _)
  obtain ⟨fuel, s'', run⟩ := reads (.integer 1) 1 _ rfl
  cases fuel with
  | zero => cases run
  | succ fuel =>
    cases fuel with
    | zero => cases run
    | succ fuel => cases run

end Lavril.ObjectM
