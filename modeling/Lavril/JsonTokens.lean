import Lavril.JsonNumbers
import Lavril.JsonStack

/-!
# The tokens that the decoder reads

The walk over the tokens with what it reads and what it leaves on the stack: `t` is the
index of a token, `count` is what the caller takes for the number of tokens that are left.
A call that is given none pushes nothing, while its caller goes on as if it had.
-/

namespace Lavril.Json

/-- The values on the stack, the top first, and the indices of the tokens that were read. -/
structure Walk where
  stack : List Value
  reads : List Nat

inductive Stop where
  | failure (f : Failure)
  /-- The values on the stack are not those that a loop works on. -/
  | displaced

namespace Walk

variable (limit : Nat)

def push (w : Walk) (value : Value) : Except Stop Walk :=
  if w.stack.length < limit then .ok { w with stack := value :: w.stack }
  else .error (.failure .overflow)

/-- `lv_rawset(v, -3)`. -/
def rawset (w : Walk) : Except Stop Walk :=
  match w.stack with
  | value :: key :: .table members :: below =>
    .ok { w with stack := .table (Json.rawset members key value) :: below }
  | _ => .error .displaced

/-- `lv_arrayappend(v, -2)`. -/
def append (w : Walk) : Except Stop Walk :=
  match w.stack with
  | value :: .array values :: below =>
    .ok { w with stack := .array (values ++ [value]) :: below }
  | _ => .error .displaced

section

variable (level : Nat → Int → Walk → Except Stop (Nat × Walk))

/-- The loop over the pairs of an object, given `parse_level`. -/
def parse_members (t : Nat) (count : Int) : Nat → Nat → Walk → Except Stop (Nat × Walk)
  | 0, j, w => .ok (j, w)
  | size + 1, j, w => do
    let (n, w) ← level (t + 1 + j) (count - j) w
    let (m, w) ← level (t + 1 + (j + n)) (count - (j + n : Nat)) w
    let w ← w.rawset
    parse_members t count size (j + n + m) w

/-- The loop over the elements of an array. -/
def parse_elements (t : Nat) (count : Int) : Nat → Nat → Walk → Except Stop (Nat × Walk)
  | 0, j, w => .ok (j, w)
  | size + 1, j, w => do
    let (n, w) ← level (t + 1 + j) (count - j) w
    let w ← w.append
    parse_elements t count size (j + n) w

end

variable (p : Platform) (js : List Char) (tokens : List JsmnToken)

/-- `parse_level`, with the number of tokens that it returns. -/
def parse_level : Nat → Nat → Int → Walk → Except Stop (Nat × Walk)
  | 0, _, _, _ => .error (.failure .outside)
  | fuel + 1, t, count, w =>
    if count = 0 then .ok (0, w)
    else
      match tokens[t]? with
      | none => .error (.failure .outside)
      | some token => do
        let w := { w with reads := w.reads ++ [t] }
        match token.type with
        | .primitive =>
          let w ← w.push limit (primitive p js token)
          return (1, w)
        | .string =>
          let w ← w.push limit (.string (token.slice js))
          return (1, w)
        | .object =>
          let w ← w.push limit (.table [])
          let (j, w) ← parse_members (parse_level fuel) t count token.size 0 w
          return (j + 1, w)
        | .array =>
          let w ← w.push limit (.array [])
          let (j, w) ← parse_elements (parse_level fuel) t count token.size 0 w
          return (j + 1, w)

end Walk

/-- The walk `y` comes to what the decoder without counts, `x`, comes to: the tokens from
`base + j` on are read in their order, and the result is found on the stack. -/
def Follows {α : Type} (last base j : Nat) (reads : List Nat) (stack : α → List Value)
    (x : Except Failure (Nat × α)) (y : Except Stop (Nat × Walk)) : Prop :=
  match x with
  | .ok (n, a) =>
    y = .ok (n, ⟨stack a, reads ++ List.range' (base + j) (n - j)⟩) ∧ j ≤ n ∧ base + n ≤ last
  | .error failure => y = .error (.failure failure)

namespace Follows

variable {α β : Type} {last base base' j j' : Nat} {reads reads' : List Nat}
  {stack : α → List Value} {stack' : β → List Value} {x : Except Failure (Nat × α)}
  {y : Except Stop (Nat × Walk)} {f : Nat × α → Except Failure (Nat × β)}
  {g : Nat × Walk → Except Stop (Nat × Walk)}

theorem bind (first : Follows last base j reads stack x y)
    (next : ∀ n a, j ≤ n → base + n ≤ last → Follows last base' j' reads' stack' (f (n, a))
      (g (n, ⟨stack a, reads ++ List.range' (base + j) (n - j)⟩))) :
    Follows last base' j' reads' stack' (x >>= f) (y >>= g) := by
  cases x with
  | error failure =>
    have stops : y = .error (.failure failure) := first
    rw [stops]
    rfl
  | ok r =>
    obtain ⟨goes, le, within⟩ := first
    rw [goes]
    exact next r.1 r.2 le within

/-- What was read before belongs to what is read in all. -/
theorem extend {k : Nat} (le : j ≤ k)
    (rest : Follows last base k (reads ++ List.range' (base + j) (k - j)) stack x y) :
    Follows last base j reads stack x y := by
  cases x with
  | error failure => exact rest
  | ok r =>
    obtain ⟨goes, le', within⟩ := rest
    refine ⟨?_, le_trans le le', within⟩
    have split : List.range' (base + j) (r.1 - j) =
        List.range' (base + j) (k - j) ++ List.range' (base + k) (r.1 - k) := by
      have middle : base + k = base + j + (k - j) := by omega
      have length : r.1 - j = (k - j) + (r.1 - k) := by omega
      rw [middle, length, List.range'_append_1]
    rw [goes, split, List.append_assoc]

/-- A value that is pushed. -/
theorem push {limit : Nat} {w : Walk} {value : Value} {f : Unit → Except Failure (Nat × β)}
    {g : Walk → Except Stop (Nat × Walk)}
    (next : Follows last base' j' reads' stack' (f ()) (g { w with stack := value :: w.stack })) :
    Follows last base' j' reads' stack' (Json.push (limit - w.stack.length) 1 >>= f)
      (w.push limit value >>= g) := by
  rw [Json.push, Walk.push]
  by_cases room : w.stack.length < limit
  · rw [if_pos (by omega), if_pos room]
    exact next
  · rw [if_neg (by omega), if_neg room]
    exact rfl

end Follows

section

variable {p : Platform} {js : List Char} {tokens : List JsmnToken} {limit : Nat}

/-- The walk from each token that is left follows, where it is given more tokens than there
are. -/
def EachFollows (limit : Nat) (tokens : List JsmnToken)
    (level : Nat → List JsmnToken → Except Failure (Nat × Value))
    (walk : Nat → Int → Walk → Except Stop (Nat × Walk)) : Prop :=
  ∀ (t : Nat) (count : Int) (w : Walk), t ≤ tokens.length → tokens.length < t + count →
    Follows tokens.length t 0 w.reads (· :: w.stack) (level (limit - w.stack.length) (tokens.drop t))
      (walk t count w)

variable {level : Nat → List JsmnToken → Except Failure (Nat × Value)}
  {walk : Nat → Int → Walk → Except Stop (Nat × Walk)}

theorem members_follow (each : EachFollows limit tokens level walk) {t : Nat} {count : Int}
    (more : tokens.length ≤ t + count) (below : List Value) (reads : List Nat)
    (size j : Nat) (members : List (Value × Value)) (le : t + 1 + j ≤ tokens.length) :
    Follows tokens.length (t + 1) j reads (fun members => .table members :: below)
      (parse_members level (limit - (below.length + 1)) (tokens.drop (t + 1)) size j members)
      (Walk.parse_members walk t count size j ⟨.table members :: below, reads⟩) := by
  induction size generalizing j members reads with
  | zero =>
    refine ⟨?_, le_refl j, le⟩
    rw [Nat.sub_self, List.range'_zero, List.append_nil]
    rfl
  | succ size ih =>
    rw [parse_members, Walk.parse_members, List.drop_drop]
    have first := each (t + 1 + j) (count - j) ⟨.table members :: below, reads⟩ le (by omega)
    refine first.bind fun n key _ within => ?_
    have second := each (t + 1 + (j + n)) (count - (j + n : Nat))
      ⟨key :: .table members :: below, reads ++ List.range' (t + 1 + j) n⟩ (by omega) (by omega)
    dsimp only
    rw [List.drop_drop]
    refine second.bind fun m value _ within' => ?_
    have rest := ih (reads ++ List.range' (t + 1 + j) n ++ List.range' (t + 1 + (j + n)) m)
      (j + n + m) (rawset members key value) (by omega)
    refine Follows.extend (k := j + n + m) (by omega) ?_
    have joined : List.range' (t + 1 + j) (j + n + m - j) =
        List.range' (t + 1 + j) n ++ List.range' (t + 1 + (j + n)) m := by
      have middle : t + 1 + (j + n) = t + 1 + j + n := by omega
      have length : j + n + m - j = n + m := by omega
      rw [middle, length, List.range'_append_1]
    rw [joined, ← List.append_assoc]
    exact rest

theorem elements_follow (each : EachFollows limit tokens level walk) {t : Nat} {count : Int}
    (more : tokens.length ≤ t + count) (below : List Value) (reads : List Nat)
    (size j : Nat) (values : List Value) (le : t + 1 + j ≤ tokens.length) :
    Follows tokens.length (t + 1) j reads (fun values => .array values :: below)
      (parse_elements level (limit - (below.length + 1)) (tokens.drop (t + 1)) size j values)
      (Walk.parse_elements walk t count size j ⟨.array values :: below, reads⟩) := by
  induction size generalizing j values reads with
  | zero =>
    refine ⟨?_, le_refl j, le⟩
    rw [Nat.sub_self, List.range'_zero, List.append_nil]
    rfl
  | succ size ih =>
    rw [parse_elements, Walk.parse_elements, List.drop_drop]
    have first := each (t + 1 + j) (count - j) ⟨.array values :: below, reads⟩ le (by omega)
    refine first.bind fun n value _ within => ?_
    have rest := ih (reads ++ List.range' (t + 1 + j) n) (j + n) (values ++ [value]) (by omega)
    refine Follows.extend (k := j + n) (by omega) ?_
    rw [Nat.add_sub_cancel_left]
    exact rest

/-- The count is never zero while tokens are left: it is one too large for each container
that the walk is in. -/
theorem parse_level_follows (fuel t : Nat) (count : Int) (w : Walk) (le : t ≤ tokens.length)
    (positive : count ≠ 0) (more : tokens.length ≤ t + count) :
    Follows tokens.length t 0 w.reads (· :: w.stack)
      (parse_level p js fuel (limit - w.stack.length) (tokens.drop t))
      (Walk.parse_level limit p js tokens fuel t count w) := by
  induction fuel generalizing t count w with
  | zero => exact rfl
  | succ fuel ih =>
    have each : EachFollows limit tokens (parse_level p js fuel)
        (Walk.parse_level limit p js tokens fuel) :=
      fun t count w le more => ih t count w le (by omega) (by omega)
    rw [Walk.parse_level, if_neg positive]
    by_cases past : tokens.length ≤ t
    · rw [List.drop_eq_nil_of_le past, List.getElem?_eq_none past]
      exact rfl
    · have lt : t < tokens.length := not_le.mp past
      rw [List.drop_eq_getElem_cons lt, List.getElem?_eq_getElem lt, parse_level]
      let read : Walk := ⟨w.stack, w.reads ++ [t]⟩
      dsimp only
      cases type : tokens[t].type with
      | primitive => exact .push (w := read) ⟨rfl, Nat.zero_le _, lt⟩
      | string => exact .push (w := read) ⟨rfl, Nat.zero_le _, lt⟩
      | object =>
        refine .push (w := read) ?_
        have loop := members_follow each more w.stack (w.reads ++ [t]) tokens[t].size 0 [] lt
        rw [Nat.sub_sub]
        refine loop.bind fun n members _ within => ⟨?_, Nat.zero_le _, by omega⟩
        simp only [Nat.sub_zero, List.range'_succ, List.append_assoc, List.singleton_append, Nat.add_zero]
        rfl
      | array =>
        refine .push (w := read) ?_
        have loop := elements_follow each more w.stack (w.reads ++ [t]) tokens[t].size 0 [] lt
        rw [Nat.sub_sub]
        refine loop.bind fun n values _ within => ⟨?_, Nat.zero_le _, by omega⟩
        simp only [Nat.sub_zero, List.range'_succ, List.append_assoc, List.singleton_append, Nat.add_zero]
        rfl

end

/-! ## Well-formed tokens -/

/-- A word or a number of JSON. -/
def Literal (text : List Char) : Prop :=
  text = "true".toList ∨ text = "false".toList ∨ text = "null".toList ∨ ∃ n : Numeral, text = n.text

mutual

/-- The tokens of exactly one value. -/
inductive One (js : List Char) : List JsmnToken → Prop
  | primitive {t : JsmnToken} (type : t.type = .primitive) (size : t.size = 0)
    (literal : Literal (t.slice js)) : One js [t]
  | string {t : JsmnToken} (type : t.type = .string) (size : t.size = 0) : One js [t]
  | object {t : JsmnToken} {tokens : List JsmnToken} (type : t.type = .object)
    (members : Pairs js t.size tokens) : One js (t :: tokens)
  | array {t : JsmnToken} {tokens : List JsmnToken} (type : t.type = .array)
    (elements : Several js t.size tokens) : One js (t :: tokens)

/-- The tokens of so many pairs of a string, which has one value as its part, and a value. -/
inductive Pairs (js : List Char) : Nat → List JsmnToken → Prop
  | nil : Pairs js 0 []
  | cons {n : Nat} {key : JsmnToken} {value rest : List JsmnToken} (type : key.type = .string)
    (size : key.size = 1) (one : One js value) (more : Pairs js n rest) :
    Pairs js (n + 1) (key :: value ++ rest)

/-- The tokens of so many values. -/
inductive Several (js : List Char) : Nat → List JsmnToken → Prop
  | nil : Several js 0 []
  | cons {n : Nat} {value rest : List JsmnToken} (one : One js value) (more : Several js n rest) :
    Several js (n + 1) (value ++ rest)

end

section

variable {p : Platform} {js : List Char}

/-- A value is read to its last token, if there is room for it. -/
def ReadsOne (p : Platform) (js : List Char) (tokens : List JsmnToken) : Prop :=
  ∃ (slots : Nat) (v : Value), ∀ fuel room rest, tokens.length ≤ fuel →
    Needs room slots (parse_level p js fuel room (tokens ++ rest)) (tokens.length, v)

def ReadsPairs (p : Platform) (js : List Char) (n : Nat) (tokens : List JsmnToken) : Prop :=
  ∃ (slots : Nat) (made : List (Value × Value) → List (Value × Value)),
    ∀ fuel room all rest j done, all.drop j = tokens ++ rest → tokens.length ≤ fuel →
    Needs room slots (parse_members (parse_level p js fuel) room all n j done)
      (j + tokens.length, made done)

def ReadsSeveral (p : Platform) (js : List Char) (n : Nat) (tokens : List JsmnToken) : Prop :=
  ∃ (slots : Nat) (made : List Value → List Value), ∀ fuel room all rest j done, all.drop j = tokens ++ rest → tokens.length ≤ fuel →
    Needs room slots (parse_elements (parse_level p js fuel) room all n j done)
      (j + tokens.length, made done)

theorem reads_leaf {t : JsmnToken} {v : Value} (read : ∀ fuel room rest,
    parse_level p js (fuel + 1) room (t :: rest) = push room 1 >>= fun _ => .ok (1, v)) :
    ReadsOne p js [t] := by
  refine ⟨1, v, fun fuel room rest enough => ?_⟩
  obtain ⟨fuel, rfl⟩ : ∃ n, fuel = n + 1 := Nat.exists_eq_add_of_le' enough
  show Needs room 1 (parse_level p js (fuel + 1) room (t :: rest)) (1, v)
  rw [read]
  exact Needs.pushed

theorem ReadsPairs.cons {key : JsmnToken} {value rest : List JsmnToken} {n : Nat}
    (type : key.type = .string) (one : ReadsOne p js value) (more : ReadsPairs p js n rest) :
    ReadsPairs p js (n + 1) (key :: value ++ rest) := by
  obtain ⟨slots, v, first⟩ := one
  obtain ⟨slots', made, others⟩ := more
  refine ⟨max 1 (max (slots + 1) slots'), fun done => made (rawset done (.string (key.slice js)) v),
    fun fuel room all after j done at_ enough => ?_⟩
  rw [List.cons_append, List.cons_append, List.append_assoc] at at_
  rw [List.cons_append, List.length_cons, List.length_append] at enough
  obtain ⟨fuel, rfl⟩ : ∃ n, fuel = n + 1 := Nat.exists_eq_add_of_le' (by omega)
  have behind : all.drop (j + 1) = value ++ (rest ++ after) :=
    drop_append (a := [key]) at_
  have behind' : all.drop (j + 1 + value.length) = rest ++ after := drop_append behind
  have keyed : parse_level p js (fuel + 1) room (key :: (value ++ (rest ++ after))) =
      push room 1 >>= fun _ => .ok (1, .string (key.slice js)) := by
    rw [parse_level, type]
    rfl
  rw [parse_members, at_, keyed]
  refine Needs.pushed.bind fun fits => ?_
  dsimp only
  rw [behind]
  refine ((first _ _ _ (by omega)).above fits).bind fun _ => ?_
  have loop := others (fuel + 1) room all after (j + 1 + value.length)
    (rawset done (.string (key.slice js)) v) behind' (by omega)
  have total : j + (key :: value ++ rest).length = j + 1 + value.length + rest.length := by
    simp only [List.cons_append, List.length_cons, List.length_append]
    omega
  rw [total]
  exact loop

theorem ReadsSeveral.cons {value rest : List JsmnToken} {n : Nat} (one : ReadsOne p js value)
    (more : ReadsSeveral p js n rest) : ReadsSeveral p js (n + 1) (value ++ rest) := by
  obtain ⟨slots, v, first⟩ := one
  obtain ⟨slots', made, others⟩ := more
  refine ⟨max slots slots', fun done => made (done ++ [v]),
    fun fuel room all after j done at_ enough => ?_⟩
  rw [List.append_assoc] at at_
  rw [List.length_append] at enough
  have behind : all.drop (j + value.length) = rest ++ after := drop_append at_
  rw [parse_elements, at_]
  refine (first _ _ _ (by omega)).bind fun _ => ?_
  have loop := others fuel room all after (j + value.length) (done ++ [v]) behind (by omega)
  rw [List.length_append, ← Nat.add_assoc]
  exact loop

theorem reads_object {t : JsmnToken} {tokens : List JsmnToken} (type : t.type = .object)
    (members : ReadsPairs p js t.size tokens) : ReadsOne p js (t :: tokens) := by
  obtain ⟨slots, made, loop⟩ := members
  refine ⟨max 1 (slots + 1), .table (made []), fun fuel room rest enough => ?_⟩
  obtain ⟨fuel, rfl⟩ : ∃ n, fuel = n + 1 := Nat.exists_eq_add_of_le' (Nat.lt_of_lt_of_le Nat.zero_lt_one
    (le_trans (Nat.le_add_left 1 _) enough))
  rw [List.cons_append, parse_level, type]
  refine (Needs.push 1).bind fun fits => ?_
  have inner := (loop fuel (room - 1) (tokens ++ rest) rest 0 [] rfl
    (Nat.le_of_succ_le_succ enough)).above fits
  rw [Nat.zero_add] at inner
  exact inner.map fun r => (r.1 + 1, Value.table r.2)

theorem reads_array {t : JsmnToken} {tokens : List JsmnToken} (type : t.type = .array)
    (elements : ReadsSeveral p js t.size tokens) : ReadsOne p js (t :: tokens) := by
  obtain ⟨slots, made, loop⟩ := elements
  refine ⟨max 1 (slots + 1), .array (made []), fun fuel room rest enough => ?_⟩
  obtain ⟨fuel, rfl⟩ : ∃ n, fuel = n + 1 := Nat.exists_eq_add_of_le' (Nat.lt_of_lt_of_le Nat.zero_lt_one
    (le_trans (Nat.le_add_left 1 _) enough))
  rw [List.cons_append, parse_level, type]
  refine (Needs.push 1).bind fun fits => ?_
  have inner := (loop fuel (room - 1) (tokens ++ rest) rest 0 [] rfl
    (Nat.le_of_succ_le_succ enough)).above fits
  rw [Nat.zero_add] at inner
  exact inner.map fun r => (r.1 + 1, Value.array r.2)

mutual

theorem One.reads {tokens : List JsmnToken} : One js tokens → ReadsOne p js tokens
  | .primitive (t := t) type _ _ => reads_leaf (v := primitive p js t) fun fuel room rest => by
      rw [parse_level, type]
      rfl
  | .string (t := t) type _ => reads_leaf (v := .string (t.slice js)) fun fuel room rest => by
      rw [parse_level, type]
      rfl
  | .object type members => reads_object type members.reads
  | .array type elements => reads_array type elements.reads

theorem Pairs.reads {n : Nat} {tokens : List JsmnToken} : Pairs js n tokens → ReadsPairs p js n tokens
  | .nil => ⟨0, id, fun _ _ _ _ _ _ _ _ => Needs.ok⟩
  | .cons type _ one more => .cons type one.reads more.reads

theorem Several.reads {n : Nat} {tokens : List JsmnToken} :
    Several js n tokens → ReadsSeveral p js n tokens
  | .nil => ⟨0, id, fun _ _ _ _ _ _ _ _ => Needs.ok⟩
  | .cons one more => .cons one.reads more.reads

end

end

/-! ## Decoding -/

/-- `json_decode` on a stack; one value is taken for the result of the function. -/
def Walk.json_decode (p : Platform) (limit : Nat) (below : List Value) (s : List Char) :
    Except Stop Walk :=
  match p.jsmn (cstring s) with
  | none => .error (.failure (.raised "failed to parse as json"))
  | some tokens =>
    (·.2) <$> Walk.parse_level limit p (cstring s) tokens (tokens.length + 1) 0 tokens.length ⟨below, []⟩

/-- What is to come of the tokens of a text: those of one well-formed value are read once
each, which leaves the value on the stack, and others raise an error. -/
structure ReadsTokens (p : Platform) (limit : Nat) (below : List Value) (s : List Char)
    (tokens : List JsmnToken) : Prop where
  reads : One (cstring s) tokens → ∃ v,
    Walk.json_decode p limit below s = .ok ⟨v :: below, List.range tokens.length⟩
  raises : ¬One (cstring s) tokens → ∃ message,
    Walk.json_decode p limit below s = .error (.failure (.raised message))

section

variable {p : Platform} {js s : List Char} {tokens : List JsmnToken} {limit : Nat}
  {below : List Value}

theorem One.ne_nil (one : One js tokens) : tokens ≠ [] := by
  rintro rfl
  cases one

/-- Where well-formed tokens need more slots than there are. -/
theorem One.needs (accepted : p.jsmn (cstring s) = some tokens) (one : One (cstring s) tokens) :
    ∃ v, ∀ fuel room, tokens.length ≤ fuel →
      Needs room (textSlots p s) (parse_level p (cstring s) fuel room tokens) (tokens.length, v) := by
  obtain ⟨slots, v, reads⟩ := one.reads (p := p)
  have each (fuel room : Nat) (enough : tokens.length ≤ fuel) :
      Needs room slots (parse_level p (cstring s) fuel room tokens) (tokens.length, v) := by
    have needs := reads fuel room [] enough
    rwa [List.append_nil] at needs
  have same (room : Nat) : room < slots ↔ room < textSlots p s := by
    have decode : json_decode p room s =
        (parse_level p (cstring s) tokens.length room tokens).map (·.2) := by
      rw [json_decode, accepted]
      cases tokens with
      | nil => exact absurd rfl one.ne_nil
      | cons t tokens => rfl
    have overflows : json_decode p room s = .error .overflow ↔ _ := json_decode_overflow
    have needs := (each tokens.length room (le_refl _)).overflow_iff
    rw [decode] at overflows
    rw [← overflows, ← needs]
    cases parse_level p (cstring s) tokens.length room tokens <;> simp [Except.map]
  have eq : slots = textSlots p s := by
    have low := same (textSlots p s)
    have high := same slots
    omega
  exact ⟨v, fun fuel room enough => eq ▸ each fuel room enough⟩

theorem decode_follows (p : Platform) (limit : Nat) (below : List Value) (js : List Char)
    (pos : 0 < tokens.length) :
    Follows tokens.length 0 0 [] (· :: below)
      (parse_level p js (tokens.length + 1) (limit - below.length) tokens)
      (Walk.parse_level limit p js tokens (tokens.length + 1) 0 tokens.length ⟨below, []⟩) :=
  parse_level_follows (tokens.length + 1) 0 tokens.length ⟨below, []⟩ (Nat.zero_le _) (by omega)
    (by omega)

/-- The walk never raises an error. -/
theorem decode_not_raised (accepted : p.jsmn (cstring s) = some tokens) (message : String) :
    Walk.json_decode p limit below s ≠ .error (.failure (.raised message)) := by
  intro raised
  rw [Walk.json_decode, accepted] at raised
  dsimp only at raised
  by_cases none : tokens = []
  · subst none
    cases raised
  · have pos := List.length_pos_iff.mpr none
    have follows := decode_follows p limit below (cstring s) pos
    have read := parse_level_reads (p := p) (cstring s) (tokens.length + 1) (limit - below.length)
      tokens (by omega)
    cases run : parse_level p (cstring s) (tokens.length + 1) (limit - below.length) tokens with
    | ok r =>
      simp only [run, Follows] at follows
      rw [follows.1] at raised
      cases raised
    | error failure =>
      simp only [run, Follows] at follows
      rw [run] at read
      rw [follows] at raised
      cases raised
      exact read

/-- A text is decoded as it is to be exactly if its tokens are those of one well-formed
value and there is room on the stack. -/
theorem reads_tokens_iff (accepted : p.jsmn (cstring s) = some tokens) :
    ReadsTokens p limit below s tokens ↔
      One (cstring s) tokens ∧ textSlots p s ≤ limit - below.length := by
  have decode (one : One (cstring s) tokens) :
      (∃ v, Walk.json_decode p limit below s = .ok ⟨v :: below, List.range tokens.length⟩) ↔
        textSlots p s ≤ limit - below.length := by
    obtain ⟨v, needs⟩ := one.needs accepted
    have pos := List.length_pos_iff.mpr one.ne_nil
    have follows := decode_follows p limit below (cstring s) pos
    have run : parse_level p (cstring s) (tokens.length + 1) (limit - below.length) tokens = _ :=
      needs (tokens.length + 1) (limit - below.length) (by omega)
    rw [Walk.json_decode, accepted]
    dsimp only
    by_cases fits : textSlots p s ≤ limit - below.length
    · rw [if_pos fits] at run
      simp only [run, Follows] at follows
      rw [follows.1]
      refine iff_of_true ⟨v, ?_⟩ fits
      rw [Nat.zero_add, Nat.sub_zero, List.nil_append, ← List.range_eq_range']
      rfl
    · rw [if_neg fits] at run
      simp only [run, Follows] at follows
      rw [follows]
      refine iff_of_false ?_ fits
      rintro ⟨v, eq⟩
      cases eq
  constructor
  · intro reads
    by_cases one : One (cstring s) tokens
    · exact ⟨one, (decode one).mp (reads.reads one)⟩
    · obtain ⟨message, raised⟩ := reads.raises one
      exact absurd raised (decode_not_raised accepted message)
  · rintro ⟨one, room⟩
    exact ⟨fun _ => (decode one).mpr room, fun not => absurd one not⟩

end

theorem Pairs.first {js : List Char} {n : Nat} {tokens : List JsmnToken}
    (pairs : Pairs js (n + 1) tokens) : ∃ key rest, tokens = key :: rest ∧ key.size = 1 := by
  cases pairs with
  | cons _ size _ _ => exact ⟨_, _, rfl, size⟩

/-- The text of a key without a value. -/
def keyOnly : List Char := ['{', '"', 'a', '"', '}']

def keyOnlyTokens : List JsmnToken := [⟨.object, 0, 5, 1⟩, ⟨.string, 2, 3, 0⟩]

def noElements : List JsmnToken := [⟨.array, 0, 2, 0⟩]

def tokensPlatform : Platform where
  jsmn js := if js = keyOnly then some keyOnlyTokens else if js = ['[', ']'] then some noElements else none
  printFloat _ := []
  atof _ := 0
  unset := []

theorem reads_tokens_empty :
    ReadsTokens tokensPlatform 8 [.string ['[', ']']] ['[', ']'] noElements :=
  (reads_tokens_iff rfl).mpr ⟨.array rfl .nil, by decide⟩

/-- Behind a key without a value there is no token for the value, and it is read. -/
theorem keyOnly_outside :
    ¬∀ (p : Platform) (limit : Nat) (below : List Value) (s : List Char) (tokens : List JsmnToken),
      p.jsmn (cstring s) = some tokens → ReadsTokens p limit below s tokens := by
  intro reads
  have malformed : ¬One (cstring keyOnly) keyOnlyTokens := by
    intro one
    cases one with
    | object _ members =>
      obtain ⟨key, rest, eq, size⟩ := members.first
      cases eq
      cases size
    | array type _ => cases type
  obtain ⟨message, raised⟩ := (reads tokensPlatform 8 [] keyOnly keyOnlyTokens rfl).raises malformed
  have outside : Walk.json_decode tokensPlatform 8 [] keyOnly = .error (.failure .outside) := rfl
  rw [outside] at raised
  cases raised

end Lavril.Json
