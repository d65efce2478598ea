import Mathlib.Data.List.Basic
import Mathlib.Data.List.Infix
import Mathlib.Tactic.Ring

/-!
# Writing a format and reading it back

A `Writer` puts symbols out after those that are there, and may refuse. A `Reader`
takes symbols off its input, with a state of its own beside it. `Reads E p bs a` says
that `bs` is exactly what `p` takes in to give `a`: on every input that starts with
`bs` it gives `a` and leaves the rest, and on an input that is cut off within `bs` it
fails, if `E` holds, an assumption on what happens at the end of the input. `Mirrors E w p a`
says this of whatever `w` writes.
-/

universe u

namespace Codec

/-- What a reader ends in: a value, with the state and the rest of the input; a
failure; or a step without a meaning. -/
inductive Outcome (σ β ε α : Type u) where
  | ok (a : α) (s : σ) (rest : List β)
  | fail (e : ε) (s : σ)
  | undefined
  deriving DecidableEq

def Reader (σ β ε α : Type u) := σ → List β → Outcome σ β ε α

def Writer (β ε α : Type u) := List β → Except ε α × List β

variable {σ β ε ε' α γ : Type u}

namespace Reader

instance : Monad (Reader σ β ε) where
  pure a s input := .ok a s input
  bind p k s input :=
    match p s input with
    | .ok a s rest => k a s rest
    | .fail e s => .fail e s
    | .undefined => .undefined

def fail (e : ε) : Reader σ β ε α := fun s _ => .fail e s

def undefined : Reader σ β ε α := fun _ _ => .undefined

def update (f : σ → σ) : Reader σ β ε PUnit := fun s input => .ok ⟨⟩ (f s) input

def state : Reader σ β ε σ := fun s input => .ok s s input

def times : Nat → Reader σ β ε α → Reader σ β ε (List α)
  | 0, _ => pure []
  | n + 1, p => do
    let a ← p
    let l ← times n p
    return a :: l

variable {p : Reader σ β ε α} {k : α → Reader σ β ε γ} {s s' : σ} {input rest : List β}

theorem pure_eq_ok {a b : α} :
    (pure a : Reader σ β ε α) s input = .ok b s' rest ↔ a = b ∧ s = s' ∧ input = rest := by
  show Outcome.ok a s input = .ok b s' rest ↔ _
  simp

theorem bind_eq_ok {b : γ} :
    (p >>= k) s input = .ok b s' rest ↔
      ∃ a s₁ mid, p s input = .ok a s₁ mid ∧ k a s₁ mid = .ok b s' rest := by
  show (match p s input with
    | .ok a s rest => k a s rest
    | .fail e s => .fail e s
    | .undefined => .undefined) = _ ↔ _
  cases p s input <;> simp

theorem bind_ok {a : α} (h : p s input = .ok a s' rest) : (p >>= k) s input = k a s' rest := by
  show (match p s input with
    | .ok a s rest => k a s rest
    | .fail e s => .fail e s
    | .undefined => .undefined) = _
  rw [h]

theorem bind_fail {e : ε} (h : p s input = .fail e s') :
    (p >>= k) s input = .fail e s' := by
  show (match p s input with
    | .ok a s rest => k a s rest
    | .fail e s => .fail e s
    | .undefined => .undefined) = _
  rw [h]

end Reader

namespace Writer

instance : Monad (Writer β ε) where
  pure a out := (.ok a, out)
  bind w k out :=
    match w out with
    | (.ok a, out) => k a out
    | (.error e, out) => (.error e, out)

def fail (e : ε) : Writer β ε α := fun out => (.error e, out)

def put (bs : List β) : Writer β ε PUnit := fun out => (.ok ⟨⟩, out ++ bs)

/-- How much has been put out. -/
def position : Writer β ε (ULift Nat) := fun out => (.ok ⟨out.length⟩, out)

def each (w : α → Writer β ε PUnit) : List α → Writer β ε PUnit
  | [] => pure ⟨⟩
  | a :: l => do
    w a
    each w l

variable {w : Writer β ε α} {k : α → Writer β ε γ} {out out' : List β}

theorem bind_eq_ok {b : γ} :
    (w >>= k) out = (.ok b, out') ↔ ∃ a mid, w out = (.ok a, mid) ∧ k a mid = (.ok b, out') := by
  show (match w out with
    | (.ok a, out) => k a out
    | (.error e, out) => (.error e, out)) = _ ↔ _
  obtain ⟨result, mid⟩ := w out
  cases result <;> simp

/-- Never refuses. -/
def Accepts (w : Writer β ε PUnit) : Prop := ∀ out, ∃ out', w out = (.ok ⟨⟩, out')

theorem Accepts.pure : Accepts (pure ⟨⟩ : Writer β ε PUnit) := fun out => ⟨out, rfl⟩

theorem Accepts.put (bs : List β) : Accepts (put bs : Writer β ε PUnit) := fun out => ⟨out ++ bs, rfl⟩

theorem Accepts.bind {w w' : Writer β ε PUnit} (h : w.Accepts) (h' : w'.Accepts) :
    Accepts (w >>= fun _ => w') := by
  intro out
  obtain ⟨mid, first⟩ := h out
  obtain ⟨out', second⟩ := h' mid
  exact ⟨out', bind_eq_ok.mpr ⟨⟨⟩, mid, first, second⟩⟩

theorem Accepts.position {w : ULift Nat → Writer β ε PUnit} (h : ∀ n, (w n).Accepts) :
    Accepts (position >>= w) := by
  intro out
  obtain ⟨out', wrote⟩ := h ⟨out.length⟩ out
  exact ⟨out', bind_eq_ok.mpr ⟨_, out, rfl, wrote⟩⟩

theorem Accepts.each {w : α → Writer β ε PUnit} {l : List α} (h : ∀ a ∈ l, (w a).Accepts) :
    (each w l).Accepts := by
  induction l with
  | nil => exact .pure
  | cons a l ih =>
    exact (h a List.mem_cons_self).bind (ih fun b mem => h b (List.mem_cons_of_mem a mem))

theorem then_eq_ok {w w' : Writer β ε PUnit} {out out' : List β}
    (h : (w >>= fun _ => w') out = (.ok ⟨⟩, out')) :
    ∃ mid, w out = (.ok ⟨⟩, mid) ∧ w' mid = (.ok ⟨⟩, out') := by
  obtain ⟨⟨⟩, mid, first, second⟩ := bind_eq_ok.mp h
  exact ⟨mid, first, second⟩

end Writer

structure Reads (E : Prop) (p : Reader σ β ε α) (bs : List β) (a : α) : Prop where
  whole : ∀ s rest, ∃ s', p s (bs ++ rest) = .ok a s' rest
  cut : E → ∀ s pre, pre <+: bs → pre ≠ bs → ∃ e s', p s pre = .fail e s'

namespace Reads

variable {E : Prop} {p : Reader σ β ε α} {k : α → Reader σ β ε γ} {bs cs : List β} {a : α} {b : γ}

/-- A reader that takes nothing in. -/
theorem nothing (h : ∀ s input, ∃ s', p s input = .ok a s' input) : Reads E p [] a where
  whole s rest := h s rest
  cut _ _ _ cut proper := absurd (List.prefix_nil.mp cut) proper

theorem pure (a : α) : Reads E (Pure.pure a : Reader σ β ε α) [] a :=
  nothing fun s _ => ⟨s, rfl⟩

theorem bind (h : Reads E p bs a) (h' : Reads E (k a) cs b) :
    Reads E (p >>= k) (bs ++ cs) b where
  whole s rest := by
    obtain ⟨s₁, first⟩ := h.whole s (cs ++ rest)
    obtain ⟨s₂, second⟩ := h'.whole s₁ rest
    refine ⟨s₂, ?_⟩
    rw [List.append_assoc, Reader.bind_ok first]
    exact second
  cut ends s pre cut proper := by
    obtain ⟨t, eq⟩ := cut
    rcases List.append_eq_append_iff.mp eq with ⟨l, rfl, rfl⟩ | ⟨l, rfl, rfl⟩
    · by_cases all : pre = pre ++ l
      · -- the cut is right after the first part
        obtain rfl := List.self_eq_append_right.mp all
        obtain ⟨s₁, first⟩ := h.whole s []
        have some : ([] : List β) ≠ cs := by
          rintro rfl
          exact proper (by simp)
        obtain ⟨e, s₂, second⟩ := h'.cut ends s₁ [] List.nil_prefix some
        refine ⟨e, s₂, ?_⟩
        simp only [List.append_nil] at first
        rw [Reader.bind_ok first]
        exact second
      · obtain ⟨e, s₁, first⟩ := h.cut ends s pre (List.prefix_append pre l) all
        exact ⟨e, s₁, Reader.bind_fail first⟩
    · obtain ⟨s₁, first⟩ := h.whole s l
      have some : l ≠ l ++ t := fun all => proper (by rw [← all])
      obtain ⟨e, s₂, second⟩ := h'.cut ends s₁ l (List.prefix_append l t) some
      refine ⟨e, s₂, ?_⟩
      rw [Reader.bind_ok first]
      exact second

/-- A step that takes nothing in, after the rest. -/
theorem before (h : Reads E p bs a) (h' : Reads E (k a) [] b) : Reads E (p >>= k) bs b := by
  have both := h.bind h'
  rwa [List.append_nil] at both

/-- A result that is computed from what was read. -/
theorem map {f : α → γ} (h : Reads E p bs a) (eq : f a = b) :
    Reads E (p >>= fun a => Pure.pure (f a)) bs b := by
  subst eq
  exact h.before (k := fun a => Pure.pure (f a)) (pure (f a))

/-- A step that takes nothing in, before the rest. -/
theorem after (h : Reads E p [] a) (h' : Reads E (k a) cs b) : Reads E (p >>= k) cs b := h.bind h'

end Reads

/-- Whatever the writer puts out, the reader takes in again as `a`. -/
def Mirrors (E : Prop) (w : Writer β ε' PUnit) (p : Reader σ β ε α) (a : α) : Prop :=
  ∀ out out', w out = (.ok ⟨⟩, out') → ∃ bs, out' = out ++ bs ∧ Reads E p bs a

namespace Mirrors

variable {E : Prop} {w w' : Writer β ε' PUnit} {p : Reader σ β ε α} {k : α → Reader σ β ε γ}
  {a : α} {b : γ}

theorem put {bs : List β} (h : Reads E p bs a) : Mirrors E (Writer.put bs : Writer β ε' PUnit) p a := by
  rintro out out' run
  cases run
  exact ⟨bs, rfl, h⟩

theorem fail {e : ε'} : Mirrors E (Writer.fail e : Writer β ε' PUnit) p a := by
  intro out out' run
  cases run

theorem pure : Mirrors E (pure ⟨⟩ : Writer β ε' PUnit) (Pure.pure a : Reader σ β ε α) a := by
  intro out out' run
  cases run
  exact ⟨[], by simp, Reads.pure a⟩

theorem bind (h : Mirrors E w p a) (h' : Mirrors E w' (k a) b) :
    Mirrors E (w >>= fun _ => w') (p >>= k) b := by
  intro out out' run
  obtain ⟨mid, first, second⟩ := Writer.then_eq_ok run
  obtain ⟨bs, rfl, reads⟩ := h out mid first
  obtain ⟨cs, rfl, reads'⟩ := h' _ out' second
  exact ⟨bs ++ cs, List.append_assoc out bs cs, reads.bind reads'⟩

theorem map {f : α → γ} (h : Mirrors E w p a) (eq : f a = b) :
    Mirrors E w (p >>= fun a => Pure.pure (f a)) b := by
  intro out out' run
  obtain ⟨bs, rfl, reads⟩ := h out out' run
  exact ⟨bs, rfl, reads.map eq⟩

/-- What is written depends on where it is written to. -/
theorem position {w : ULift Nat → Writer β ε' PUnit} (h : ∀ n, Mirrors E (w n) p a) :
    Mirrors E (Writer.position >>= w) p a := by
  intro out out' run
  obtain ⟨n, mid, here, wrote⟩ := Writer.bind_eq_ok.mp run
  cases here
  exact h _ out out' wrote

/-- A step of the reader that has none of the writer's before it. -/
theorem after (h : Reads E p [] a) (h' : Mirrors E w (k a) b) : Mirrors E w (p >>= k) b := by
  intro out out' run
  obtain ⟨bs, rfl, reads⟩ := h' out out' run
  exact ⟨bs, rfl, h.after reads⟩

theorem each {f : γ → Writer β ε' PUnit} {p : Reader σ β ε γ} {l : List γ} {n : Nat}
    (count : n = l.length) (h : ∀ c ∈ l, Mirrors E (f c) p c) :
    Mirrors E (Writer.each f l) (Reader.times n p) l := by
  subst count
  induction l with
  | nil => exact pure
  | cons c l ih =>
    have first := h c List.mem_cons_self
    have others := ih fun d mem => h d (List.mem_cons_of_mem c mem)
    exact first.bind (others.map rfl)

theorem reads (h : Mirrors E w p a) {out bs : List β} (run : w out = (.ok ⟨⟩, out ++ bs)) :
    Reads E p bs a := by
  obtain ⟨cs, eq, reads⟩ := h out (out ++ bs) run
  rwa [List.append_cancel_left eq]

end Mirrors

/-- What a writer that accepts everything puts out is read back by every reader that mirrors it. -/
theorem Writer.Accepts.read_back {ι : Sort*} {E : Prop} {w : Writer β ε' PUnit}
    {p : ι → Reader σ β ε α} {a : α} [Nonempty ι] (accepts : w.Accepts)
    (mirrors : ∀ i, Mirrors E w (p i) a) (out : List β) :
    ∃ bs, w out = (.ok ⟨⟩, out ++ bs) ∧
      ∀ i s rest, ∃ s', p i s (bs ++ rest) = .ok a s' rest := by
  obtain ⟨out', run⟩ := accepts out
  obtain ⟨i⟩ := ‹Nonempty ι›
  obtain ⟨bs, rfl, -⟩ := mirrors i out out' run
  exact ⟨bs, run, fun j => ((mirrors j).reads run).whole⟩

/-! ## What a reader takes in -/

/-- Takes at least `n` symbols off its input. -/
def Spends (p : Reader σ β ε α) (n : Nat) : Prop :=
  ∀ s input a s' rest, p s input = .ok a s' rest → rest.length + n ≤ input.length

namespace Spends

variable {p : Reader σ β ε α} {k : α → Reader σ β ε γ} {m n : Nat}

theorem pure (a : α) : Spends (Pure.pure a : Reader σ β ε α) 0 := by
  intro s input b s' rest run
  obtain ⟨-, -, rfl⟩ := Reader.pure_eq_ok.mp run
  exact le_rfl

theorem fail (e : ε) : Spends (Reader.fail e : Reader σ β ε α) n := by
  intro s input a s' rest run
  cases run

theorem weaken (h : Spends p n) (le : m ≤ n) : Spends p m := by
  intro s input a s' rest run
  have := h s input a s' rest run
  omega

theorem bind (h : Spends p m) (h' : ∀ a, Spends (k a) n) : Spends (p >>= k) (m + n) := by
  intro s input b s' rest run
  obtain ⟨a, s₁, mid, first, second⟩ := Reader.bind_eq_ok.mp run
  have := h s input a s₁ mid first
  have := h' a s₁ mid b s' rest second
  omega

theorem times (h : Spends p m) (n : Nat) : Spends (Reader.times n p) (n * m) := by
  induction n with
  | zero =>
    rw [Nat.zero_mul]
    exact pure []
  | succ n ih =>
    have both := h.bind fun a => ih.bind fun l => pure (a :: l)
    exact both.weaken (by rw [Nat.succ_mul]; omega)

end Spends

end Codec

/-! ## Numbers as bytes, the lowest first -/

namespace Bytes

def ofNat : Nat → Nat → List UInt8
  | 0, _ => []
  | n + 1, x => UInt8.ofNat x :: ofNat n (x / 256)

def toNat : List UInt8 → Nat
  | [] => 0
  | b :: bs => b.toNat + 256 * toNat bs

theorem length_ofNat (n x : Nat) : (ofNat n x).length = n := by
  induction n generalizing x with
  | zero => rfl
  | succ n ih => simp [ofNat, ih]

theorem toNat_ofNat {n x : Nat} (lt : x < 256 ^ n) : toNat (ofNat n x) = x := by
  induction n generalizing x with
  | zero =>
    rw [pow_zero] at lt
    exact (Nat.lt_one_iff.mp lt).symm
  | succ n ih =>
    have rest : x / 256 < 256 ^ n := by
      rw [pow_succ] at lt
      exact Nat.div_lt_of_lt_mul (by omega)
    rw [ofNat, toNat, ih rest]
    simp only [UInt8.toNat_ofNat']
    omega

/-- The bytes of a word. -/
def ofBits {w : Nat} (x : BitVec w) : List UInt8 := ofNat (w / 8) x.toNat

def toBits (w : Nat) (bs : List UInt8) : BitVec w := BitVec.ofNat w (toNat bs)

theorem length_ofBits {w : Nat} (x : BitVec w) : (ofBits x).length = w / 8 := length_ofNat _ _

theorem toBits_ofBits {w : Nat} (n : Nat) (whole : w = 8 * n) (x : BitVec w) :
    toBits w (ofBits x) = x := by
  have size : w / 8 = n := by omega
  have lt : x.toNat < 256 ^ n := by
    calc x.toNat < 2 ^ w := x.isLt
      _ = (2 ^ 8) ^ n := by rw [whole, pow_mul]
      _ = 256 ^ n := rfl
  unfold toBits ofBits
  rw [size, toNat_ofNat lt, BitVec.ofNat_toNat, BitVec.setWidth_eq]

theorem toNat_append (bs cs : List UInt8) :
    toNat (bs ++ cs) = toNat bs + 256 ^ bs.length * toNat cs := by
  induction bs with
  | nil => simp [toNat]
  | cons b bs ih =>
    rw [List.cons_append, toNat, toNat, ih, List.length_cons, pow_succ]
    ring

theorem testBit_toNat (bs : List UInt8) (i : Nat) :
    (toNat bs).testBit i = (bs.getD (i / 8) 0).toNat.testBit (i % 8) := by
  induction bs generalizing i with
  | nil => simp [toNat]
  | cons b bs ih =>
    have lt := b.toNat_lt
    rw [toNat, Nat.add_comm, Nat.testBit_two_pow_mul_add (i := 8) _ lt]
    by_cases low : i < 8
    · rw [if_pos low, Nat.div_eq_of_lt low, Nat.mod_eq_of_lt low]
      rfl
    · have quotient : i / 8 = (i - 8) / 8 + 1 := by omega
      have remainder : i % 8 = (i - 8) % 8 := by omega
      rw [if_neg low, ih, quotient, remainder]
      rfl

theorem getLsbD_toBits {w : Nat} (bs : List UInt8) (i : Nat) :
    (toBits w bs).getLsbD i =
      (decide (i < w) && (bs.getD (i / 8) 0).toBitVec.getLsbD (i % 8)) := by
  rw [toBits, BitVec.getLsbD_ofNat, testBit_toNat]
  rfl

theorem ofNat_toNat (bs : List UInt8) : ofNat bs.length (toNat bs) = bs := by
  induction bs with
  | nil => rfl
  | cons b bs ih =>
    have lt := b.toNat_lt
    have low : UInt8.ofNat (b.toNat + 256 * toNat bs) = b := by
      apply UInt8.toNat_inj.mp
      rw [UInt8.toNat_ofNat']
      omega
    have high : (b.toNat + 256 * toNat bs) / 256 = toNat bs := by omega
    rw [List.length_cons, toNat, ofNat, low, high, ih]

theorem toNat_lt (bs : List UInt8) : toNat bs < 256 ^ bs.length := by
  induction bs with
  | nil => exact Nat.one_pos
  | cons b bs ih =>
    have lt := b.toNat_lt
    rw [toNat, List.length_cons, pow_succ]
    omega

theorem ofBits_toBits {w : Nat} (bs : List UInt8) (whole : w = 8 * bs.length) :
    ofBits (toBits w bs) = bs := by
  have lt : toNat bs < 2 ^ w := by
    calc toNat bs < 256 ^ bs.length := toNat_lt bs
      _ = (2 ^ 8) ^ bs.length := rfl
      _ = 2 ^ w := by rw [whole, pow_mul]
  have size : w / 8 = bs.length := by omega
  rw [ofBits, toBits, BitVec.toNat_ofNat, Nat.mod_eq_of_lt lt, size, ofNat_toNat]

/-- The low bits of the bytes are those that come first. -/
theorem setWidth_toBits {w v : Nat} (n : Nat) (whole : w = 8 * n) (le : w ≤ v) (x : BitVec w)
    (cs : List UInt8) : (toBits v (ofBits x ++ cs)).setWidth w = x := by
  have length : (ofBits x).length = n := by
    rw [length_ofBits]
    omega
  have low : toBits w (ofBits x) = x := toBits_ofBits n whole x
  apply BitVec.eq_of_toNat_eq
  have power : 256 ^ n = 2 ^ w := by
    calc 256 ^ n = (2 ^ 8) ^ n := rfl
      _ = 2 ^ w := by rw [whole, pow_mul]
  have first : toNat (ofBits x) % 2 ^ w = x.toNat := by
    rw [← BitVec.toNat_ofNat]
    exact congrArg BitVec.toNat low
  rw [BitVec.toNat_setWidth, toBits, BitVec.toNat_ofNat, Nat.mod_mod_of_dvd _ (pow_dvd_pow 2 le),
    toNat_append, length, power, Nat.add_mul_mod_self_left, first]

/-- `n` blocks of `size` bytes each. -/
def blocks (size : Nat) : Nat → List UInt8 → List (List UInt8)
  | 0, _ => []
  | n + 1, bs => bs.take size :: blocks size n (bs.drop size)

theorem blocks_flatMap {α : Type u} {size : Nat} {f : α → List UInt8}
    (length : ∀ a, (f a).length = size) (l : List α) :
    blocks size l.length (l.flatMap f) = l.map f := by
  induction l with
  | nil => rfl
  | cons a l ih =>
    rw [List.flatMap_cons, List.length_cons, blocks, List.take_left' (length a),
      List.drop_left' (length a), ih, List.map_cons]

end Bytes
