import Lavril.Bytecode

/-!
# Bytecode is read back as it was written

Every step of `FunctionPrototype::Save` is mirrored by the step of
`FunctionPrototype::Load` in its place.
-/

namespace Lavril
namespace Bytecode

open Codec

/-- The callback transfers what it is asked for when the data has it. -/
def Transfers (read : LVREADFUNC) : Prop :=
  ∀ (n : Nat) (bs : List UInt8), 0 < n → n ≤ bs.length → read n bs = ((n : Int), bs.take n)

/-- At the end of the data the callback transfers fewer bytes, and says so. -/
def Shortens (read : LVREADFUNC) : Prop :=
  ∀ (n : Nat) (bs : List UInt8), bs.length < n → (read n bs).1 < n ∧ (read n bs).2.length ≤ n

/-- The callback writes everything. -/
def Stores (write : LVWRITEFUNC) : Prop := ∀ bs, write bs = bs.length

/-- No object is as large as the address space; a string's length and a half is what the
scratch pad grows to. -/
def Object.InMemory : Object → Prop
  | .string val => ((val.length + val.length / 2 : Nat) : Int) < MEMORY
  | _ => True

def Object.Serializable (o : Object) : Prop :=
  o.type ∈ [.OT_NULL, .OT_BOOL, .OT_INTEGER, .OT_FLOAT, .OT_STRING]

instance (o : Object) : Decidable o.InMemory :=
  match o with
  | .string val => inferInstanceAs (Decidable (((val.length + val.length / 2 : Nat) : Int) < MEMORY))
  | .null | .bool _ | .integer _ | .float _ | .other _ _ => isTrue trivial

instance (o : Object) : Decidable o.Serializable :=
  inferInstanceAs (Decidable (o.type ∈ [.OT_NULL, .OT_BOOL, .OT_INTEGER, .OT_FLOAT, .OT_STRING]))

namespace FunctionPrototype

/-- A property of a prototype and of those nested in it, at any depth. -/
inductive Every (P : FunctionPrototype → Prop) : FunctionPrototype → Prop
  | intro {f : FunctionPrototype} (this : P f) (nested : ∀ g ∈ f.functions, Every P g) : Every P f

/-- The size of a prototype's block. -/
def size (f : FunctionPrototype) : Nat :=
  232 + f.instructions.length * 8 + f.literals.length * 16 + f.parameters.length * 16 +
    f.functions.length * 16 + f.outervalues.length * 40 + f.lineinfos.length * 16 +
    f.localvarinfos.length * 40 + f.defaultparams.length * 8

/-- The prototype is one that a machine can hold. -/
def InMemory : FunctionPrototype → Prop :=
  Every fun f => (f.size : Int) < MEMORY ∧ ∀ o ∈ f.objects, o.InMemory

def Serializable : FunctionPrototype → Prop := Every fun f => ∀ o ∈ f.objects, o.Serializable

mutual

def depth : FunctionPrototype → Nat
  | ⟨_, _, _, _, _, _, _, _, _, functions, _, _, _⟩ => depthOf functions + 1

def depthOf : List FunctionPrototype → Nat
  | [] => 0
  | f :: l => max (depth f) (depthOf l)

end

theorem depth_le_depthOf {f : FunctionPrototype} {l : List FunctionPrototype} (mem : f ∈ l) :
    f.depth ≤ depthOf l := by
  induction l with
  | nil => cases mem
  | cons g l ih =>
    rw [depthOf]
    rcases List.mem_cons.mp mem with rfl | mem
    · exact le_max_left _ _
    · exact (ih mem).trans (le_max_right _ _)

end FunctionPrototype

section

variable {read : LVREADFUNC} {write : LVWRITEFUNC}

/-! ## Reading back bytes -/

theorem state_ok (s : Loading) (input : List UInt8) :
    (Reader.state : Loader Loading) s input = .ok s s input := rfl

theorem use_ok (u : Use) (s : Loading) (input : List UInt8) :
    use u s input = .ok ⟨⟩ { s with uses := s.uses ++ [u] } input := rfl

theorem safeRead_ok (all : Transfers read) {bs : List UInt8} {room : Nat} (fits : bs.length ≤ room)
    (s : Loading) (rest : List UInt8) :
    safeRead read room bs.length s (bs ++ rest) = .ok bs s rest := by
  unfold safeRead
  rcases Nat.eq_zero_or_pos bs.length with zero | pos
  · obtain rfl := List.length_eq_zero_iff.mp zero
    rfl
  · have ne : ((bs.length : Nat) : Int) ≠ 0 := by omega
    have asked := all bs.length (bs ++ rest) pos (by simp)
    rw [List.take_left] at asked
    have got : transfer read room bs.length s (bs ++ rest) = .ok (bs.length, bs) s rest := by
      simp only [transfer, asked, if_pos fits, List.drop_left]
    rw [if_neg ne, Reader.bind_ok got, if_pos rfl]
    rfl

theorem safeRead_fails (ends : Shortens read) {n room : Nat} (fits : n ≤ room) {pre : List UInt8}
    (fewer : pre.length < n) (s : Loading) : safeRead read room n s pre = .fail readFailure s := by
  obtain ⟨less, within⟩ := ends n pre fewer
  have ne : (n : Int) ≠ 0 := by omega
  have got : transfer read room n s pre = .ok (read n pre) s (pre.drop (read n pre).2.length) := by
    simp only [transfer, if_pos (within.trans fits)]
  unfold safeRead
  rw [if_neg ne, Reader.bind_ok got, if_neg (by omega)]
  rfl

theorem length_lt_of_proper {pre bs : List UInt8} (cut : pre <+: bs) (proper : pre ≠ bs) :
    pre.length < bs.length :=
  lt_of_le_of_ne cut.length_le fun eq => proper (cut.eq_of_length eq)

theorem safeRead_reads (all : Transfers read) (bs : List UInt8) :
    Reads (Shortens read) (safeRead read bs.length bs.length) bs bs where
  whole s rest := ⟨s, safeRead_ok all le_rfl s rest⟩
  cut ends s _ cut proper :=
    ⟨readFailure, s, safeRead_fails ends le_rfl (length_lt_of_proper cut proper) s⟩

theorem readBits_bytes (all : Transfers read) {w : Nat} {bs : List UInt8} (length : bs.length = w / 8) :
    Reads (Shortens read) (readBits read w) bs (Bytes.toBits w bs) := by
  have bytes := safeRead_reads all bs
  rw [length] at bytes
  exact bytes.map rfl

theorem readBits_reads (all : Transfers read) {w n : Nat} (whole : w = 8 * n) (x : BitVec w) :
    Reads (Shortens read) (readBits read w) (Bytes.ofBits x) x := by
  have bytes := readBits_bytes all (Bytes.length_ofBits x)
  rwa [Bytes.toBits_ofBits n whole] at bytes

theorem checkTag_reads (all : Transfers read) (tag : BitVec 32) :
    Reads (Shortens read) (checkTag read tag) (Bytes.ofBits tag) ⟨⟩ := by
  refine (readBits_reads all (n := 4) rfl tag).before ?_
  rw [if_pos rfl]
  exact Reads.pure _

theorem reallocScratchPad_ok (newsize : Nat) (s : Loading) (input : List UInt8)
    (fits : newsize < MEMORY ∨ newsize ≤ s.scratchpad.length) :
    ∃ pad, reallocScratchPad newsize s input = .ok ⟨⟩ { s with scratchpad := pad } input ∧
      pad.length = newsize := by
  refine ⟨s.scratchpad.take newsize ++ List.replicate (newsize - s.scratchpad.length) none, ?_, ?_⟩
  · unfold reallocScratchPad
    rw [Reader.bind_ok (state_ok s input), if_pos fits]
    rfl
  · simp only [List.length_append, List.length_take, List.length_replicate]
    omega

/-- The scratch pad then has room for `size` bytes. -/
theorem getScratchPad_ok {size : Int} (fits : size + size / 2 < MEMORY) (s : Loading)
    (input : List UInt8) :
    ∃ pad, getScratchPad size s input = .ok ⟨⟩ { s with scratchpad := pad } input ∧
      size ≤ pad.length := by
  unfold getScratchPad
  rw [Reader.bind_ok (state_ok s input)]
  by_cases pos : 0 < size
  · simp only [if_pos pos]
    by_cases grow : (s.scratchpad.length : Int) < size
    · rw [if_pos grow]
      obtain ⟨pad, run, length⟩ := reallocScratchPad_ok (size + size / 2).toNat s input
        (Or.inl (by omega))
      exact ⟨pad, run, by omega⟩
    · rw [if_neg grow]
      by_cases shrink : size * 32 ≤ (s.scratchpad.length : Int)
      · rw [if_pos shrink]
        obtain ⟨pad, run, length⟩ := reallocScratchPad_ok (s.scratchpad.length / 2) s input
          (Or.inr (by omega))
        exact ⟨pad, run, by omega⟩
      · rw [if_neg shrink]
        exact ⟨s.scratchpad, rfl, by omega⟩
  · simp only [if_neg pos]
    exact ⟨s.scratchpad, rfl, by omega⟩

/-- `GetScratchPad(-1)`. -/
theorem getScratchPad_neg (s : Loading) (input : List UInt8) :
    getScratchPad (-1) s input = .ok ⟨⟩ s input := rfl

theorem readScratchPad_ok (all : Transfers read) {val : List UInt8} {s : Loading}
    (room : val.length ≤ s.scratchpad.length) (rest : List UInt8) :
    readScratchPad read val.length s (val ++ rest) =
      .ok ⟨⟩ { s with scratchpad := val.map some ++ s.scratchpad.drop val.length } rest := by
  unfold readScratchPad
  rw [Reader.bind_ok (state_ok s _), Reader.bind_ok (safeRead_ok all room s rest)]
  rfl

/-- What the scratch pad starts with is what the string has. -/
theorem createString_ok {s : Loading} {val : List UInt8} {others : List (Option UInt8)}
    (starts : s.scratchpad = val.map some ++ others) (input : List UInt8) :
    createString val.length s input = .ok val s input := by
  have initialized : (s.scratchpad.takeWhile Option.isSome).reduceOption =
      val ++ (others.takeWhile Option.isSome).reduceOption := by
    have stored : ∀ c ∈ val.map some, Option.isSome c = true := by simp
    have reduced : ∀ l : List (Option UInt8), l.reduceOption = l.filterMap id := fun _ => rfl
    rw [starts, List.takeWhile_append_of_pos stored, reduced, reduced]
    simp
  have bytes : LVStringTable.bytes (val ++ (others.takeWhile Option.isSome).reduceOption)
      val.length = some val := by
    unfold LVStringTable.bytes
    rw [if_neg (by omega), if_pos (by simp), Int.toNat_natCast, List.take_left]
  unfold createString
  rw [Reader.bind_ok (state_ok s input)]
  simp only [initialized, bytes]
  rfl

theorem readString_reads (all : Transfers read) {val : List UInt8} (fits : (Object.string val).InMemory) :
    Reads (Shortens read) (readString read val.length) val val := by
  have enough : (val.length : Int) + val.length / 2 < MEMORY := by
    have := fits
    unfold Object.InMemory at this
    omega
  constructor
  · intro s rest
    obtain ⟨pad, got, room⟩ := getScratchPad_ok enough
      { s with uses := s.uses ++ [.scratchPad val.length] } (val ++ rest)
    have room : val.length ≤ pad.length := by omega
    unfold readString
    rw [Reader.bind_ok (use_ok _ _ _), Reader.bind_ok got, Reader.bind_ok (use_ok _ _ _),
      Reader.bind_ok (readScratchPad_ok all room rest), Reader.bind_ok (getScratchPad_neg _ _),
      Reader.bind_ok (use_ok _ _ _)]
    exact ⟨_, createString_ok rfl rest⟩
  · intro ends s pre cut proper
    obtain ⟨pad, got, room⟩ := getScratchPad_ok enough
      { s with uses := s.uses ++ [.scratchPad val.length] } pre
    have room : val.length ≤ pad.length := by omega
    unfold readString
    have fewer := length_lt_of_proper cut proper
    have short : ∃ s', readScratchPad read val.length
        { s with scratchpad := pad, uses := s.uses ++ [.scratchPad val.length] ++ [.read val.length] }
        pre = .fail readFailure s' := by
      unfold readScratchPad
      rw [Reader.bind_ok (state_ok _ _)]
      exact ⟨_, Reader.bind_fail (safeRead_fails ends room fewer _)⟩
    obtain ⟨s', short⟩ := short
    rw [Reader.bind_ok (use_ok _ _ _), Reader.bind_ok got, Reader.bind_ok (use_ok _ _ _)]
    exact ⟨readFailure, s', Reader.bind_fail short⟩

/-! ## The mirrored steps -/

theorem safeWrite_mirrors {E : Prop} {α : Type} {p : Loader α} {a : α} {bs : List UInt8}
    (h : Reads E p bs a) : Mirrors E (safeWrite write bs) p a := by
  intro out out' run
  obtain ⟨mid, first, second⟩ := Writer.then_eq_ok run
  cases first
  split at second
  · cases second
  · cases second
    exact ⟨bs, rfl, h⟩

theorem writeTag_mirrors (all : Transfers read) (tag : BitVec 32) :
    Mirrors (Shortens read) (writeTag write tag) (checkTag read tag) ⟨⟩ :=
  safeWrite_mirrors (checkTag_reads all tag)

theorem writeInteger_mirrors (all : Transfers read) (i : BitVec 64) :
    Mirrors (Shortens read) (writeInteger write i) (readBits read 64) i :=
  safeWrite_mirrors (readBits_reads all (n := 8) rfl i)

theorem toInt_ofNat {n : Nat} (lt : (n : Int) < MEMORY) : (BitVec.ofNat 64 n).toInt = n := by
  unfold MEMORY at lt
  rw [BitVec.toInt_eq_toNat_of_lt]
  · rw [BitVec.toNat_ofNat]
    omega
  · rw [BitVec.toNat_ofNat]
    omega

theorem writeObject_mirrors (all : Transfers read) {o : Object} (fits : o.InMemory) :
    Mirrors (Shortens read) (writeObject write o) (readObject read) o := by
  have tag : Mirrors (Shortens read) (writeTag write o.type.number) (readBits read 32)
      o.type.number := safeWrite_mirrors (readBits_reads all (n := 4) rfl _)
  refine tag.bind ?_
  cases o with
  | null => exact Mirrors.pure
  | bool i => exact (writeInteger_mirrors all i).map rfl
  | integer i => exact (writeInteger_mirrors all i).map rfl
  | float f => exact (safeWrite_mirrors (readBits_reads all (n := 4) rfl f)).map rfl
  | string val =>
    have small : (val.length : Int) < MEMORY := by
      have := fits
      unfold Object.InMemory at this
      omega
    refine (writeInteger_mirrors all _).bind ?_
    rw [toInt_ofNat small]
    exact (safeWrite_mirrors (readString_reads all fits)).map rfl
  | other type not_serialized => exact Mirrors.fail

theorem writeOuter_mirrors (all : Transfers read) (padding : Nat → BitVec 32) {o : LVOuterVar}
    (src : o.src.InMemory) (name : o.name.InMemory) :
    Mirrors (Shortens read) (writeOuter write padding o) (readOuter read) o := by
  refine Mirrors.position fun n => ?_
  have eight : (Bytes.ofBits o.type ++ Bytes.ofBits (padding n.down)).length = 8 := by
    rw [List.length_append, Bytes.length_ofBits, Bytes.length_ofBits]
  have cast := Bytes.setWidth_toBits (v := 64) 4 rfl (by decide) o.type
    (Bytes.ofBits (padding n.down))
  have type : Mirrors (Shortens read)
      (safeWrite write (Bytes.ofBits o.type ++ Bytes.ofBits (padding n.down))) (readBits read 64)
      (Bytes.toBits 64 (Bytes.ofBits o.type ++ Bytes.ofBits (padding n.down))) :=
    safeWrite_mirrors (readBits_bytes all eight)
  refine type.bind ((writeObject_mirrors all src).bind ((writeObject_mirrors all name).map ?_))
  rw [cast]

theorem writeLocal_mirrors (all : Transfers read) {lvi : LVLocalVarInfo} (name : lvi.name.InMemory) :
    Mirrors (Shortens read) (writeLocal write lvi) (readLocal read) lvi :=
  (writeObject_mirrors all name).bind ((writeInteger_mirrors all lvi.pos).bind
    ((writeInteger_mirrors all lvi.start_op).bind ((writeInteger_mirrors all lvi.end_op).map rfl)))

theorem writeCounts_mirrors (all : Transfers read) (c : Counts) :
    Mirrors (Shortens read) (writeCounts write c) (readCounts read) c :=
  (writeInteger_mirrors all c.nliterals).bind ((writeInteger_mirrors all c.nparameters).bind
    ((writeInteger_mirrors all c.noutervalues).bind ((writeInteger_mirrors all c.nlocalvarinfos).bind
    ((writeInteger_mirrors all c.nlineinfos).bind ((writeInteger_mirrors all c.ndefaultparams).bind
    ((writeInteger_mirrors all c.ninstructions).bind
      ((writeInteger_mirrors all c.nfunctions).map rfl)))))))

theorem each_mirrors {E : Prop} {α : Type} {w : α → Saver} {p : Loader α} {l : List α}
    (few : (l.length : Int) < MEMORY) (h : ∀ a ∈ l, Mirrors E (w a) p a) :
    Mirrors E (Writer.each w l) (loop (BitVec.ofNat 64 l.length) p) l := by
  have counted : Reads E (use (.bound (BitVec.ofNat 64 l.length).toInt)) [] ⟨⟩ :=
    Reads.nothing fun s input => ⟨_, use_ok _ s input⟩
  refine Mirrors.after counted (Mirrors.each ?_ h)
  rw [toInt_ofNat few, Int.toNat_natCast]

theorem readBlock_reads (all : Transfers read) {α : Type} {size : Nat} {bytes : α → List UInt8}
    {record : List UInt8 → α} (length : ∀ a, (bytes a).length = size)
    (inverse : ∀ a, record (bytes a) = a) {l : List α} (pos : 0 < size)
    (few : ((size * l.length : Nat) : Int) < MEMORY) :
    Reads (Shortens read) (readBlock read size (BitVec.ofNat 64 l.length) record)
      (l.flatMap bytes) l := by
  have total : (l.flatMap bytes).length = size * l.length := by
    simp [List.length_flatMap, length, mul_comm]
  have fewer : (l.length : Int) < MEMORY := by
    have := Nat.le_mul_of_pos_left l.length pos
    omega
  have product : (BitVec.ofNat 64 size * BitVec.ofNat 64 l.length).toInt = (l.flatMap bytes).length := by
    rw [← BitVec.ofNat_mul, toInt_ofNat few, total]
  unfold readBlock
  simp only [product, toInt_ofNat fewer, Int.toNat_natCast]
  have counted : Reads (Shortens read) (use (.read (l.flatMap bytes).length)) [] ⟨⟩ :=
    Reads.nothing fun s input => ⟨_, use_ok _ s input⟩
  refine counted.after ((safeRead_reads all (l.flatMap bytes)).map ?_)
  rw [Bytes.blocks_flatMap length, List.map_map]
  exact List.map_id'' inverse l

theorem LVLineInfo.length_bytes (l : LVLineInfo) : l.bytes.length = 16 := by
  rw [LVLineInfo.bytes, List.length_append, Bytes.length_ofBits, Bytes.length_ofBits]

theorem LVLineInfo.ofBytes_bytes (l : LVLineInfo) : LVLineInfo.ofBytes l.bytes = l := by
  have length : (Bytes.ofBits l.line).length = 8 := Bytes.length_ofBits l.line
  unfold LVLineInfo.ofBytes LVLineInfo.bytes
  rw [List.take_left' length, List.drop_left' length, Bytes.toBits_ofBits 8 rfl,
    Bytes.toBits_ofBits 8 rfl]

theorem LVInstruction.length_bytes (i : LVInstruction) : i.bytes.length = 8 := by
  rw [LVInstruction.bytes, List.length_append, Bytes.length_ofBits]
  rfl

theorem LVInstruction.ofBytes_bytes (i : LVInstruction) : LVInstruction.ofBytes i.bytes = i := by
  have length : (Bytes.ofBits i.arg1).length = 4 := Bytes.length_ofBits i.arg1
  unfold LVInstruction.ofBytes LVInstruction.bytes
  rw [List.take_left' length, Bytes.toBits_ofBits 4 rfl]
  simp only [List.getD_append_right, length, le_refl, Nat.sub_self]
  simp [length]

/-- The counts that `Save` writes are those that `Create` can do with. -/
theorem create_reads {E : Prop} {f : FunctionPrototype} (fits : (f.size : Int) < MEMORY) :
    Reads E (create ⟨.ofNat 64 f.literals.length, .ofNat 64 f.parameters.length,
      .ofNat 64 f.outervalues.length, .ofNat 64 f.localvarinfos.length, .ofNat 64 f.lineinfos.length,
      .ofNat 64 f.defaultparams.length, .ofNat 64 f.instructions.length,
      .ofNat 64 f.functions.length⟩) [] ⟨⟩ := by
  unfold FunctionPrototype.size at fits
  have literals := toInt_ofNat (n := f.literals.length) (by omega)
  have parameters := toInt_ofNat (n := f.parameters.length) (by omega)
  have outervalues := toInt_ofNat (n := f.outervalues.length) (by omega)
  have localvarinfos := toInt_ofNat (n := f.localvarinfos.length) (by omega)
  have lineinfos := toInt_ofNat (n := f.lineinfos.length) (by omega)
  have defaultparams := toInt_ofNat (n := f.defaultparams.length) (by omega)
  have instructions := toInt_ofNat (n := f.instructions.length) (by omega)
  have functions := toInt_ofNat (n := f.functions.length) (by omega)
  refine Reads.nothing fun s input => ?_
  unfold create
  simp only [Counts.all, Counts.size, literals, parameters, outervalues, localvarinfos, lineinfos,
    defaultparams, instructions, functions]
  rw [if_pos]
  · exact ⟨_, rfl⟩
  · refine ⟨by simp, ?_⟩
    omega

theorem saveFunctions_eq (padding : Nat → BitVec 32) (l : List FunctionPrototype) :
    saveFunctions write padding l = Writer.each (save write padding) l := by
  induction l with
  | nil => rfl
  | cons f l ih => rw [saveFunctions, Writer.each, ih]

theorem save_mirrors (all : Transfers read) (padding : Nat → BitVec 32) {d : Nat}
    {f : FunctionPrototype} (deep : f.depth ≤ d) (inMemory : f.InMemory) :
    Mirrors (Shortens read) (save write padding f) (load read d) f := by
  induction d generalizing f with
  | zero =>
    cases f
    simp [FunctionPrototype.depth] at deep
  | succ d ih =>
    obtain ⟨⟨fits, objects⟩, nested⟩ := inMemory
    have create := create_reads (E := Shortens read) fits
    have few := fits
    obtain ⟨sourcename, name, stacksize, bgenerator, varparams, localvarinfos, lineinfos, literals,
      parameters, functions, outervalues, defaultparams, instructions⟩ := f
    have inner : ∀ g ∈ functions, Mirrors (Shortens read) (save write padding g) (load read d) g := by
      intro g mem
      have le := FunctionPrototype.depth_le_depthOf mem
      rw [FunctionPrototype.depth] at deep
      exact ih (by omega) (nested g mem)
    simp only [FunctionPrototype.size] at few
    have part : Mirrors (Shortens read) (writeTag write CLOSURESTREAM_PART)
        (checkTag read CLOSURESTREAM_PART) ⟨⟩ := writeTag_mirrors all CLOSURESTREAM_PART
    have object : ∀ o, o ∈ FunctionPrototype.objects ⟨sourcename, name, stacksize, bgenerator, varparams,
        localvarinfos, lineinfos, literals, parameters, functions, outervalues, defaultparams,
        instructions⟩ → Mirrors (Shortens read) (writeObject write o) (readObject read) o :=
      fun o mem => writeObject_mirrors all (objects o mem)
    simp only [FunctionPrototype.objects, List.mem_append, List.mem_flatMap, List.mem_map] at objects object
    have outer : ∀ o ∈ outervalues, Mirrors (Shortens read) (writeOuter write padding o)
        (readOuter read) o := by
      intro o mem
      exact writeOuter_mirrors all padding (objects o.src (Or.inl (Or.inr ⟨o, mem, by simp⟩)))
        (objects o.name (Or.inl (Or.inr ⟨o, mem, by simp⟩)))
    have localInfo : ∀ lvi ∈ localvarinfos, Mirrors (Shortens read) (writeLocal write lvi)
        (readLocal read) lvi := by
      intro lvi mem
      exact writeLocal_mirrors all (objects lvi.name (Or.inr ⟨lvi, mem, rfl⟩))
    have flag : Mirrors (Shortens read) (safeWrite write [if bgenerator then 1 else 0])
        (readBits read 8) (Bytes.toBits 8 [if bgenerator then 1 else 0]) :=
      safeWrite_mirrors (readBits_bytes all rfl)
    rw [save, load, saveFunctions_eq]
    unfold loadArrays
    -- one line for each line of the source
    refine part.bind ?_
    refine (object sourcename (by simp)).bind ?_
    refine (object name (by simp)).bind ?_
    refine part.bind ?_
    refine (writeCounts_mirrors all _).bind (Mirrors.after create ?_)
    refine part.bind ?_
    refine (each_mirrors (by omega) fun o mem => object o (by simp [mem])).bind ?_
    refine part.bind ?_
    refine (each_mirrors (by omega) fun o mem => object o (by simp [mem])).bind ?_
    refine part.bind ?_
    refine (each_mirrors (by omega) outer).bind ?_
    refine part.bind ?_
    refine (each_mirrors (by omega) localInfo).bind ?_
    refine part.bind ?_
    refine (safeWrite_mirrors (readBlock_reads all LVLineInfo.length_bytes
      LVLineInfo.ofBytes_bytes (by omega) (by omega))).bind ?_
    refine part.bind ?_
    refine (safeWrite_mirrors (readBlock_reads all Bytes.length_ofBits
      (Bytes.toBits_ofBits 8 rfl) (by omega) (by omega))).bind ?_
    refine part.bind ?_
    refine (safeWrite_mirrors (readBlock_reads all LVInstruction.length_bytes
      LVInstruction.ofBytes_bytes (by omega) (by omega))).bind ?_
    refine part.bind ?_
    refine (each_mirrors (by omega) inner).bind ?_
    refine (writeInteger_mirrors all stacksize).bind (flag.bind ?_)
    refine (writeInteger_mirrors all varparams).map ?_
    cases bgenerator <;> rfl

theorem saveClosure_mirrors (all : Transfers read) (padding : Nat → BitVec 32) {d : Nat}
    {f : FunctionPrototype} (deep : f.depth ≤ d) (inMemory : f.InMemory) :
    Mirrors (Shortens read) (saveClosure write padding f) (loadClosure read d) f := by
  refine (writeTag_mirrors all _).bind ((writeTag_mirrors all _).bind ((writeTag_mirrors all _).bind
    ((writeTag_mirrors all _).bind ((save_mirrors all padding deep inMemory).bind ?_))))
  have tail : Mirrors (Shortens read) (writeTag write CLOSURESTREAM_TAIL)
      (checkTag read CLOSURESTREAM_TAIL) ⟨⟩ := writeTag_mirrors all _
  exact tail.map rfl

/-! ## What is accepted -/

theorem safeWrite_accepts (stores : Stores write) (bs : List UInt8) : (safeWrite write bs).Accepts := by
  unfold safeWrite
  rw [if_neg (not_not.mpr (stores bs))]
  exact (Writer.Accepts.put bs).bind .pure

theorem writeObject_accepts (stores : Stores write) {o : Object} (serializable : o.Serializable) :
    (writeObject write o).Accepts := by
  refine (safeWrite_accepts stores _).bind ?_
  cases o with
  | null => exact .pure
  | bool i => exact safeWrite_accepts stores _
  | integer i => exact safeWrite_accepts stores _
  | float f => exact safeWrite_accepts stores _
  | string val => exact (safeWrite_accepts stores _).bind (safeWrite_accepts stores _)
  | other type not_serialized => exact absurd serializable not_serialized

theorem writeOuter_accepts (stores : Stores write) (padding : Nat → BitVec 32) {o : LVOuterVar}
    (src : o.src.Serializable) (name : o.name.Serializable) :
    (writeOuter write padding o).Accepts :=
  Writer.Accepts.position fun _ => (safeWrite_accepts stores _).bind
    ((writeObject_accepts stores src).bind (writeObject_accepts stores name))

theorem writeLocal_accepts (stores : Stores write) {lvi : LVLocalVarInfo}
    (name : lvi.name.Serializable) : (writeLocal write lvi).Accepts :=
  (writeObject_accepts stores name).bind ((safeWrite_accepts stores _).bind
    ((safeWrite_accepts stores _).bind (safeWrite_accepts stores _)))

theorem writeCounts_accepts (stores : Stores write) (c : Counts) : (writeCounts write c).Accepts :=
  (safeWrite_accepts stores _).bind ((safeWrite_accepts stores _).bind
    ((safeWrite_accepts stores _).bind ((safeWrite_accepts stores _).bind
    ((safeWrite_accepts stores _).bind ((safeWrite_accepts stores _).bind
    ((safeWrite_accepts stores _).bind (safeWrite_accepts stores _)))))))

theorem save_accepts (stores : Stores write) (padding : Nat → BitVec 32) {f : FunctionPrototype}
    (serializable : f.Serializable) : (save write padding f).Accepts := by
  induction serializable with
  | @intro f objects _ ih =>
    have bytes : ∀ bs, (safeWrite write bs).Accepts := safeWrite_accepts stores
    obtain ⟨sourcename, name, stacksize, bgenerator, varparams, localvarinfos, lineinfos, literals,
      parameters, functions, outervalues, defaultparams, instructions⟩ := f
    simp only [FunctionPrototype.objects, List.mem_append, List.mem_flatMap, List.mem_map] at objects
    have object : ∀ o ∈ [sourcename, name] ++ literals ++ parameters, (writeObject write o).Accepts := by
      intro o mem
      simp only [List.mem_append] at mem
      exact writeObject_accepts stores (objects o (Or.inl (Or.inl mem)))
    have outer : ∀ o ∈ outervalues, (writeOuter write padding o).Accepts := fun o mem =>
      writeOuter_accepts stores padding (objects o.src (Or.inl (Or.inr ⟨o, mem, by simp⟩)))
        (objects o.name (Or.inl (Or.inr ⟨o, mem, by simp⟩)))
    have localInfo : ∀ lvi ∈ localvarinfos, (writeLocal write lvi).Accepts := fun lvi mem =>
      writeLocal_accepts stores (objects lvi.name (Or.inr ⟨lvi, mem, rfl⟩))
    rw [save, saveFunctions_eq]
    refine (bytes _).bind ?_
    refine (object sourcename (by simp)).bind ((object name (by simp)).bind ((bytes _).bind ?_))
    refine (writeCounts_accepts stores _).bind ((bytes _).bind ?_)
    refine (Writer.Accepts.each fun o mem => object o (by simp [mem])).bind ((bytes _).bind ?_)
    refine (Writer.Accepts.each fun o mem => object o (by simp [mem])).bind ((bytes _).bind ?_)
    refine (Writer.Accepts.each outer).bind ((bytes _).bind ?_)
    refine (Writer.Accepts.each localInfo).bind ((bytes _).bind ?_)
    refine (bytes _).bind ((bytes _).bind ((bytes _).bind ((bytes _).bind ((bytes _).bind
      ((bytes _).bind ?_)))))
    exact (Writer.Accepts.each ih).bind ((bytes _).bind ((bytes _).bind (bytes _)))

theorem saveClosure_accepts (stores : Stores write) (padding : Nat → BitVec 32)
    {f : FunctionPrototype} (serializable : f.Serializable) :
    (saveClosure write padding f).Accepts :=
  (safeWrite_accepts stores _).bind ((safeWrite_accepts stores _).bind
    ((safeWrite_accepts stores _).bind ((safeWrite_accepts stores _).bind
    ((save_accepts stores padding serializable).bind (safeWrite_accepts stores _)))))

theorem readStreamTag_reads (all : Transfers read) (tag : BitVec 16) :
    Reads (Shortens read) (readStreamTag read) (Bytes.ofBits tag) tag := by
  have length : (Bytes.ofBits tag).length = 2 := Bytes.length_ofBits tag
  constructor
  · intro s rest
    have asked := all 2 (Bytes.ofBits tag ++ rest) (by omega) (by rw [List.length_append]; omega)
    rw [List.take_left' length] at asked
    have got : transfer read 2 2 s (Bytes.ofBits tag ++ rest) = .ok (2, Bytes.ofBits tag) s rest := by
      have asked : read 2 (Bytes.ofBits tag ++ rest) = (2, Bytes.ofBits tag) := asked
      simp only [transfer, asked, length, le_refl, if_true, List.drop_left' length]
    refine ⟨s, ?_⟩
    unfold readStreamTag
    rw [Reader.bind_ok got, if_neg (by simp), Bytes.toBits_ofBits 2 rfl]
    rfl
  · intro ends s pre cut proper
    have fewer := length_lt_of_proper cut proper
    obtain ⟨less, within⟩ : (read 2 pre).1 < 2 ∧ (read 2 pre).2.length ≤ 2 :=
      ends 2 pre (by omega)
    have got : transfer read 2 2 s pre = .ok (read 2 pre) s (pre.drop (read 2 pre).2.length) := by
      simp only [transfer, if_pos within]
    refine ⟨"io error", s, ?_⟩
    unfold readStreamTag
    rw [Reader.bind_ok got, if_pos (by omega)]
    rfl

theorem lv_writeclosure_reads (all : Transfers read) {printObjVal : Object → String}
    {padding : Nat → BitVec 32} {v v' : LVVM} {function : FunctionPrototype} {below : List Value}
    {bytes : List UInt8} {depth : Nat} (top : v.stack = .closure function :: below)
    (inMemory : function.InMemory) (deep : function.depth ≤ depth)
    (accepted : lv_writeclosure printObjVal write padding v = some (.LV_OK, v', bytes)) :
    Reads (Shortens read) (readClosure read depth) bytes function := by
  simp only [lv_writeclosure, top] at accepted
  split at accepted
  · simp at accepted
  · split at accepted
    · simp at accepted
    · split at accepted
      · rename_i result out run
        simp only [Option.some.injEq, Prod.mk.injEq, true_and] at accepted
        obtain ⟨-, rfl⟩ := accepted
        obtain ⟨bs, rfl, reads⟩ := saveClosure_mirrors all padding deep inMemory _ _ run
        refine (readStreamTag_reads all BYTECODE_STREAM_TAG).bind ?_
        rw [if_neg (by simp)]
        exact reads
      · simp at accepted

/-- What `lv_writeclosure` writes, `lv_readclosure` pushes again. -/
theorem lv_readclosure_written (all : Transfers read) {printObjVal : Object → String}
    {padding : Nat → BitVec 32} {v v' : LVVM} {function : FunctionPrototype} {below : List Value}
    {bytes : List UInt8} {depth : Nat} (top : v.stack = .closure function :: below)
    (inMemory : function.InMemory) (deep : function.depth ≤ depth)
    (accepted : lv_writeclosure printObjVal write padding v = some (.LV_OK, v', bytes)) (w : LVVM) :
    ∃ w', lv_readclosure read depth w bytes = some (.LV_OK, w') ∧
      w'.stack = .closure function :: w.stack := by
  obtain ⟨s', loaded⟩ := (lv_writeclosure_reads all top inMemory deep accepted).whole w.loading []
  rw [List.append_nil] at loaded
  exact ⟨{ w with stack := .closure function :: w.stack, loading := s' },
    by simp only [lv_readclosure, loaded], rfl⟩

theorem file_read_transfers : Transfers file_read := by
  intro n bs pos le
  unfold file_read
  simp only [Int.natCast_nonneg, if_true, Int.toNat_natCast, min_eq_left le]
  rw [if_pos (by omega)]

theorem file_read_shortens : Shortens file_read := by
  intro n bs lt
  unfold file_read
  simp only [Int.natCast_nonneg, if_true, Int.toNat_natCast, min_eq_right (le_of_lt lt)]
  split
  · exact ⟨Int.ofNat_lt.mpr lt, (List.length_take_le _ _).trans (le_of_lt lt)⟩
  · exact ⟨by omega, by simp⟩

theorem file_write_stores : Stores file_write := fun _ => rfl

/-! ## The results -/

/-- `Save` writes a prototype whose objects can be serialized, and `Load` makes the same
prototype of exactly these bytes; so do the two of a closure. -/
theorem load_save (all : Transfers read) (stores : Stores write) (padding : Nat → BitVec 32)
    {f : FunctionPrototype} (serializable : f.Serializable) (inMemory : f.InMemory) (out : List UInt8) :
    (∃ bytes, save write padding f out = (.ok ⟨⟩, out ++ bytes) ∧
      ∀ depth, f.depth ≤ depth → ∀ s rest, ∃ s', load read depth s (bytes ++ rest) = .ok f s' rest) ∧
    ∃ bytes, saveClosure write padding f out = (.ok ⟨⟩, out ++ bytes) ∧
      ∀ depth, f.depth ≤ depth → ∀ s rest, ∃ s',
        loadClosure read depth s (bytes ++ rest) = .ok f s' rest := by
  have enough : Nonempty { depth // f.depth ≤ depth } := ⟨f.depth, le_rfl⟩
  constructor
  · obtain ⟨bytes, run, back⟩ := (save_accepts stores padding serializable).read_back
      (fun d : { depth // f.depth ≤ depth } => save_mirrors all padding d.property inMemory) out
    exact ⟨bytes, run, fun depth deep => back ⟨depth, deep⟩⟩
  · obtain ⟨bytes, run, back⟩ := (saveClosure_accepts stores padding serializable).read_back
      (fun d : { depth // f.depth ≤ depth } => saveClosure_mirrors all padding d.property inMemory) out
    exact ⟨bytes, run, fun depth deep => back ⟨depth, deep⟩⟩

/-- A function of the file `f` without a name that returns at once. -/
def emptyFunction : FunctionPrototype :=
  ⟨.string [0x66], .null, 1, false, 0, [], [⟨1, 0⟩], [], [.string [0x74]], [], [], [],
    [⟨0, 0x17, 0xFF, 0, 0⟩]⟩

/-- One that has it as a nested function, and an outer value. -/
def enclosingFunction : FunctionPrototype :=
  ⟨.string [0x66], .string [0x67], 2, true, 1, [⟨.string [], 0, 5, 1⟩], [],
    [.integer 7, .float 0x3F800000, .bool 1], [], [emptyFunction], [⟨1, .string [0x78], .integer 0⟩],
    [3], []⟩

theorem emptyFunction_inMemory : emptyFunction.InMemory :=
  .intro ⟨by decide, by decide⟩ (by simp [emptyFunction])

theorem enclosingFunction_inMemory : enclosingFunction.InMemory :=
  .intro ⟨by decide, by decide⟩ fun g mem => by
    obtain rfl := List.mem_singleton.mp mem
    exact emptyFunction_inMemory

theorem load_save_enclosingFunction :
    (∃ bytes, save file_write (fun _ => 0) enclosingFunction [] = (.ok ⟨⟩, [] ++ bytes) ∧
      ∀ depth, enclosingFunction.depth ≤ depth → ∀ s rest, ∃ s',
        load file_read depth s (bytes ++ rest) = .ok enclosingFunction s' rest) ∧
    ∃ bytes, saveClosure file_write (fun _ => 0) enclosingFunction [] = (.ok ⟨⟩, [] ++ bytes) ∧
      ∀ depth, enclosingFunction.depth ≤ depth → ∀ s rest, ∃ s',
        loadClosure file_read depth s (bytes ++ rest) = .ok enclosingFunction s' rest :=
  load_save file_read_transfers file_write_stores (fun _ => 0)
    (.intro (by decide) fun g mem => by
      obtain rfl := List.mem_singleton.mp mem
      exact .intro (by decide) (by simp [emptyFunction]))
    enclosingFunction_inMemory []

/-- Whatever is cut off what `lv_writeclosure` writes, `lv_readclosure` returns an error
and leaves the stack alone. -/
theorem lv_readclosure_truncated {printObjVal : Object → String} {padding : Nat → BitVec 32}
    {v v' w : LVVM} {function : FunctionPrototype} {below : List Value} {bytes pre : List UInt8}
    {depth : Nat} (all : Transfers read) (ends : Shortens read)
    (top : v.stack = .closure function :: below) (inMemory : function.InMemory)
    (accepted : lv_writeclosure printObjVal write padding v = some (.LV_OK, v', bytes))
    (cut : pre <+: bytes) (proper : pre ≠ bytes) (deep : function.depth ≤ depth) :
    ∃ w', lv_readclosure read depth w pre = some (.LV_ERROR, w') ∧ w'.stack = w.stack := by
  have reads := lv_writeclosure_reads all top inMemory deep accepted
  obtain ⟨e, s', failed⟩ := reads.cut ends w.loading pre cut proper
  exact ⟨{ w with lasterror := e, loading := s' }, by simp only [lv_readclosure, failed], rfl⟩

/-- What is written of it, after the tag of the stream. -/
def emptyFunctionBytes : List UInt8 := (saveClosure file_write (fun _ => 0) emptyFunction [0xBE, 0xBE]).2

theorem emptyFunction_accepted :
    lv_writeclosure (fun _ => "") file_write (fun _ => 0) ⟨[.closure emptyFunction], "", ⟨[], []⟩⟩ =
      some (.LV_OK, ⟨[.closure emptyFunction], "", ⟨[], []⟩⟩, emptyFunctionBytes) := rfl

theorem lv_readclosure_truncated_emptyFunction :
    ∃ w', lv_readclosure file_read 1 ⟨[.object .null], "", ⟨[], []⟩⟩ [0xBE, 0xBE, 0x52] =
      some (.LV_ERROR, w') ∧ w'.stack = [.object .null] :=
  @lv_readclosure_truncated file_read file_write (fun _ => "") (fun _ => 0)
    ⟨[.closure emptyFunction], "", ⟨[], []⟩⟩ ⟨[.closure emptyFunction], "", ⟨[], []⟩⟩ _ emptyFunction []
    emptyFunctionBytes _ 1
    file_read_transfers file_read_shortens rfl emptyFunction_inMemory
    emptyFunction_accepted (by decide) (by decide) (by decide)

end

end Bytecode
end Lavril
