import Mathlib.Data.List.Basic

/-!
# The lexer

The unread text starts with the current character; the reader gives 0 at its end, and so
does a NUL in it. An error leaves the lexer by `longjmp`. Loops are bounded by a number of
turns that is larger than the text. How a number is read from its text is a parameter.
-/

namespace Lavril

/-- `unsigned char`. -/
abbrev LexChar := UInt8

def _LC (c : Char) : LexChar := c.toUInt8

/-- How the lexer is left before it returns a token. -/
inductive LexFault where
  | error (err : String)
  | fuel
  deriving DecidableEq

section chars

variable (c : LexChar)

def scisdigit : Bool := _LC '0' ≤ c && c ≤ _LC '9'

def isxdigit : Bool :=
  scisdigit c || _LC 'a' ≤ c && c ≤ _LC 'f' || _LC 'A' ≤ c && c ≤ _LC 'F'

def scisodigit : Bool := _LC '0' ≤ c && c ≤ _LC '7'

def isexponent : Bool := c == _LC 'e' || c == _LC 'E'

def scisalpha : Bool := _LC 'a' ≤ c && c ≤ _LC 'z' || _LC 'A' ≤ c && c ≤ _LC 'Z'

def scisalnum : Bool := scisalpha c || scisdigit c

def sciscntrl : Bool := c < 32 || c == 127

def toupper : LexChar := if _LC 'a' ≤ c && c ≤ _LC 'z' then c - 32 else c

/-- The value of a hexadecimal digit. -/
def hexValue : Nat :=
  if scisdigit c then c.toNat - (_LC '0').toNat
  else (toupper c).toNat - (_LC 'A').toNat + 10

end chars

/-- What holds of each of the 256 characters holds of all. -/
@[elab_as_elim]
theorem forall_char {P : LexChar → Prop} (all : ∀ n : Fin 256, P (UInt8.ofNat n)) (c : LexChar) :
    P c := by
  have same := all ⟨c.toNat, c.toNat_lt⟩
  rwa [UInt8.ofNat_toNat] at same

section tokens

def TK_IDENTIFIER : Int := 258
def TK_STRING_LITERAL : Int := 259
def TK_INTEGER : Int := 260
def TK_FLOAT : Int := 261
def TK_BASE : Int := 262
def TK_DELETE : Int := 263
def TK_EQ : Int := 264
def TK_NE : Int := 265
def TK_LE : Int := 266
def TK_GE : Int := 267
def TK_SWITCH : Int := 268
def TK_AND : Int := 270
def TK_OR : Int := 271
def TK_IF : Int := 272
def TK_ELSE : Int := 273
def TK_WHILE : Int := 274
def TK_BREAK : Int := 275
def TK_FOR : Int := 276
def TK_DO : Int := 277
def TK_NULL : Int := 278
def TK_FOREACH : Int := 279
def TK_IN : Int := 280
def TK_NEWSLOT : Int := 281
def TK_VAR : Int := 283
def TK_CLONE : Int := 284
def TK_FUNCTION : Int := 285
def TK_RETURN : Int := 286
def TK_TYPEOF : Int := 287
def TK_PLUSEQ : Int := 289
def TK_MINUSEQ : Int := 290
def TK_CONTINUE : Int := 291
def TK_YIELD : Int := 292
def TK_TRY : Int := 293
def TK_CATCH : Int := 294
def TK_THROW : Int := 295
def TK_SHIFTL : Int := 296
def TK_SHIFTR : Int := 297
def TK_RESUME : Int := 298
def TK_DOUBLE_COLON : Int := 299
def TK_CASE : Int := 300
def TK_DEFAULT : Int := 301
def TK_THIS : Int := 302
def TK_PLUSPLUS : Int := 303
def TK_MINUSMINUS : Int := 304
def TK_3WAYSCMP : Int := 305
def TK_USHIFTR : Int := 306
def TK_CLASS : Int := 307
def TK_EXTENDS : Int := 308
def TK_CONSTRUCTOR : Int := 310
def TK_INSTANCEOF : Int := 311
def TK_VARPARAMS : Int := 312
def TK_LINE : Int := 313
def TK_FILE : Int := 314
def TK_TRUE : Int := 315
def TK_FALSE : Int := 316
def TK_MULEQ : Int := 317
def TK_DIVEQ : Int := 318
def TK_MODEQ : Int := 319
def TK_ABSTRACT : Int := 321
def TK_STATIC : Int := 322
def TK_ENUM : Int := 323
def TK_CONST : Int := 324
def TK_ARROW_RIGHT : Int := 326

/-- `_keywords`. -/
def keywords : List (String × Int) :=
  [("while", TK_WHILE), ("do", TK_DO), ("if", TK_IF), ("else", TK_ELSE), ("break", TK_BREAK),
    ("continue", TK_CONTINUE), ("return", TK_RETURN), ("null", TK_NULL),
    ("function", TK_FUNCTION), ("var", TK_VAR), ("for", TK_FOR), ("foreach", TK_FOREACH),
    ("in", TK_IN), ("typeof", TK_TYPEOF), ("base", TK_BASE), ("delete", TK_DELETE),
    ("try", TK_TRY), ("catch", TK_CATCH), ("throw", TK_THROW), ("clone", TK_CLONE),
    ("yield", TK_YIELD), ("resume", TK_RESUME), ("switch", TK_SWITCH), ("case", TK_CASE),
    ("default", TK_DEFAULT), ("this", TK_THIS), ("class", TK_CLASS), ("extends", TK_EXTENDS),
    ("constructor", TK_CONSTRUCTOR), ("instanceof", TK_INSTANCEOF), ("true", TK_TRUE),
    ("false", TK_FALSE), ("static", TK_STATIC), ("enum", TK_ENUM), ("const", TK_CONST),
    ("abstract", TK_ABSTRACT), ("__LINE__", TK_LINE), ("__FILE__", TK_FILE)]

def getIDType (s : List LexChar) : Int :=
  match keywords.find? fun keyword => keyword.1.toList.map _LC = s with
  | some keyword => keyword.2
  | none => TK_IDENTIFIER

end tokens

/-- `text` is `_currdata` and what the reader has still to give. -/
structure LVLexer (F : Type) where
  text : List LexChar
  curtoken : Int
  prevtoken : Int
  currentline : Int
  lasttokenline : Int
  currentcolumn : Int
  svalue : List LexChar
  nvalue : BitVec 64
  fvalue : F
  longstr : List LexChar

namespace LVLexer

variable {F : Type} (strtod : List LexChar → F) (L : LVLexer F)

/-- `CUR_CHAR`. -/
def cur : LexChar := L.text.headD 0

/-- `NEXT`. -/
def next : LVLexer F := { L with text := L.text.tail, currentcolumn := L.currentcolumn + 1 }

/-- `APPEND_CHAR`. -/
def append (c : LexChar) : LVLexer F := { L with longstr := L.longstr ++ [c] }

/-- `RETURN_TOKEN`. -/
def returnToken (t : Int) : Except LexFault (Int × LVLexer F) :=
  .ok (t, { L with prevtoken := L.curtoken, curtoken := t })

/-- `while (p(CUR_CHAR)) { APPEND_CHAR(CUR_CHAR); NEXT(); }`, for a `p` that is false at the
end. -/
def appendWhile (p : LexChar → Bool) (L : LVLexer F) : LVLexer F :=
  match _unread : L.text with
  | [] => L
  | c :: _ => if p c then appendWhile p (L.append c).next else L
termination_by L.text.length
decreasing_by simp [append, next, _unread]

/-! ## Comments -/

def lexBlockComment (L : LVLexer F) : Except LexFault (LVLexer F) :=
  match _unread : L.text with
  | [] => .error (.error "missing \"*/\" in comment")
  | c :: _ =>
    if c = _LC '*' then
      if L.next.cur = _LC '/' then .ok L.next.next else lexBlockComment L.next
    else if c = _LC '\n' then
      lexBlockComment { L with currentline := L.currentline + 1 }.next
    else if c = 0 then .error (.error "missing \"*/\" in comment")
    else lexBlockComment L.next
termination_by L.text.length
decreasing_by all_goals simp [next, _unread]

/-- The loop of `LexLineComment` after its first `NEXT`. -/
def skipLine (L : LVLexer F) : LVLexer F :=
  match _unread : L.text with
  | [] => L
  | c :: _ => if c ≠ _LC '\n' ∧ c ≠ 0 then skipLine L.next else L
termination_by L.text.length
decreasing_by simp [next, _unread]

def lexLineComment : LVLexer F := L.next.skipLine

/-! ## Strings -/

def addUTF8 (ch : Nat) : LVLexer F :=
  if ch < 0x80 then L.append (UInt8.ofNat ch)
  else if ch < 0x800 then
    (L.append (UInt8.ofNat ((ch >>> 6) ||| 0xC0))).append (UInt8.ofNat ((ch &&& 0x3F) ||| 0x80))
  else if ch < 0x10000 then
    ((L.append (UInt8.ofNat ((ch >>> 12) ||| 0xE0))).append
      (UInt8.ofNat (((ch >>> 6) &&& 0x3F) ||| 0x80))).append
      (UInt8.ofNat ((ch &&& 0x3F) ||| 0x80))
  else if ch < 0x110000 then
    (((L.append (UInt8.ofNat ((ch >>> 18) ||| 0xF0))).append
      (UInt8.ofNat (((ch >>> 12) &&& 0x3F) ||| 0x80))).append
      (UInt8.ofNat (((ch >>> 6) &&& 0x3F) ||| 0x80))).append
      (UInt8.ofNat ((ch &&& 0x3F) ||| 0x80))
  else L

/-- The digits that the loop of `ProcessStringHexEscape` stores, at most `maxdigits`. -/
def hexDigits : Nat → LVLexer F → List LexChar × LVLexer F
  | 0, L => ([], L)
  | maxdigits + 1, L =>
    if isxdigit L.cur then
      let (dest, L') := hexDigits maxdigits L.next
      (L.cur :: dest, L')
    else ([], L)

def processStringHexEscape (maxdigits : Nat) : Except LexFault (List LexChar × LVLexer F) :=
  if isxdigit L.next.cur then .ok (hexDigits maxdigits L.next)
  else .error (.error "hexadecimal number expected")

/-- `scstrtoul` of hexadecimal digits, in base 16. -/
def scstrtoul (temp : List LexChar) : Nat := temp.foldl (fun value c => 16 * value + hexValue c) 0

/-- What follows a backslash, which is what `x` still holds. -/
def readEscape (x : LexChar) : Except LexFault (LVLexer F) :=
  match Char.ofNat L.cur.toNat with
  | 'x' => do
    let (temp, L) ← L.processStringHexEscape 2
    .ok (L.append (UInt8.ofNat (scstrtoul temp)))
  | 'U' | 'u' => do
    let maxdigits := if x = _LC 'u' then 4 else 8
    let (temp, L) ← L.processStringHexEscape maxdigits
    .ok (L.addUTF8 (scstrtoul temp))
  | 't' => .ok (L.append 9).next
  | 'a' => .ok (L.append 7).next
  | 'b' => .ok (L.append 8).next
  | 'n' => .ok (L.append 10).next
  | 'r' => .ok (L.append 13).next
  | 'v' => .ok (L.append 11).next
  | 'f' => .ok (L.append 12).next
  | '0' => .ok (L.append 0).next
  | '\\' => .ok (L.append (_LC '\\')).next
  | '"' => .ok (L.append (_LC '"')).next
  | '\'' => .ok (L.append (_LC '\'')).next
  | _ => .error (.error "unrecognised escaper char")

/-- One turn of the loop up to the delimiter. -/
def readChar (verbatim : Bool) : Except LexFault (LVLexer F) :=
  let x := L.cur
  if x = 0 then .error (.error "unfinished string")
  else if x = _LC '\n' then
    if verbatim then .ok { (L.append L.cur).next with currentline := L.currentline + 1 }
    else .error (.error "newline in a constant")
  else if x = _LC '\\' then
    if verbatim then .ok (L.append (_LC '\\')).next else L.next.readEscape x
  else .ok (L.append L.cur).next

/-- The loops of `ReadString`, up to what follows the closing delimiter. -/
def readBody (ndelim : LexChar) (verbatim : Bool) : Nat → LVLexer F → Except LexFault (LVLexer F)
  | 0, _ => .error .fuel
  | fuel + 1, L =>
    if L.cur ≠ ndelim then do
      let L ← L.readChar verbatim
      readBody ndelim verbatim fuel L
    else if verbatim ∧ L.next.cur = _LC '"' then
      readBody ndelim verbatim fuel (L.next.append L.next.cur).next
    else .ok L.next

def readString (ndelim : LexChar) (verbatim : Bool) : Except LexFault (Int × LVLexer F) := do
  let L := { L with longstr := [] }.next
  if L.cur = 0 then .ok (-1, L)
  else
    let L ← L.readBody ndelim verbatim (L.text.length + 1)
    let L := L.append 0
    let len := L.longstr.length - 1
    if ndelim = _LC '\'' then
      if len = 0 then .error (.error "empty constant")
      else if len > 1 then .error (.error "constant too long")
      else .ok (TK_INTEGER, { L with nvalue := (L.longstr.headD 0).toBitVec.signExtend 64 })
    else .ok (TK_STRING_LITERAL, { L with svalue := L.longstr })

/-! ## Numbers and names -/

inductive NumberType where
  | TINT | TFLOAT | THEX | TSCIENTIFIC | TOCTAL
  deriving DecidableEq

def lexHexadecimal (s : List LexChar) : BitVec 64 :=
  s.foldl (fun res c => res * 16 + BitVec.ofNat 64 (hexValue c)) 0

def lexInteger (s : List LexChar) : BitVec 64 :=
  s.foldl (fun res c => res * 10 + BitVec.ofNat 64 (c.toNat - (_LC '0').toNat)) 0

def lexOctal (s : List LexChar) : BitVec 64 :=
  s.foldl (fun res c => res * 8 + BitVec.ofNat 64 (c.toNat - (_LC '0').toNat)) 0

def MAX_HEX_DIGITS : Nat := 16

/-- The sign of an exponent. -/
def appendSign : LVLexer F :=
  if L.cur = _LC '+' ∨ L.cur = _LC '-' then (L.append L.cur).next else L

theorem length_appendSign_le : L.appendSign.text.length ≤ L.text.length := by
  unfold appendSign
  split
  · simp [append, next]
  · exact Nat.le_refl _

/-- The loop of `ReadNumber` over what does not start with `0x` or with `0` and an octal
digit. -/
def scanNumber (type : NumberType) (L : LVLexer F) : Except LexFault (NumberType × LVLexer F) :=
  match _unread : L.text with
  | [] => .ok (type, L)
  | c :: _ =>
    if c = _LC '.' ∨ scisdigit c ∨ isexponent c then
      let type := if c = _LC '.' ∨ isexponent c then .TFLOAT else type
      if isexponent c then
        if type ≠ .TFLOAT then .error (.error "invalid numeric format")
        else
          let signed := (L.append c).next.appendSign
          if scisdigit signed.cur then scanNumber .TSCIENTIFIC (signed.append signed.cur).next
          else .error (.error "exponent expected")
      else scanNumber type (L.append c).next
    else .ok (type, L)
termination_by L.text.length
decreasing_by
  · have := length_appendSign_le (L.append c).next
    simp only [append, next, _unread, List.length_tail, List.length_cons, List.tail_cons] at *
    omega
  · simp [append, next, _unread]

/-- The end of `ReadNumber`, for the text that is gathered. -/
def convertNumber (type : NumberType) : Int × LVLexer F :=
  let s := L.longstr
  let L := L.append 0
  match type with
  | .TSCIENTIFIC | .TFLOAT => (TK_FLOAT, { L with fvalue := strtod s })
  | .TINT => (TK_INTEGER, { L with nvalue := lexInteger s })
  | .THEX => (TK_INTEGER, { L with nvalue := lexHexadecimal s })
  | .TOCTAL => (TK_INTEGER, { L with nvalue := lexOctal s })

def readNumber : Except LexFault (Int × LVLexer F) :=
  let firstchar := L.cur
  let L := { L with longstr := [] }.next
  if firstchar = _LC '0' ∧ (toupper L.cur = _LC 'X' ∨ scisodigit L.cur) then
    if scisodigit L.cur then
      let L := L.appendWhile scisodigit
      if scisdigit L.cur then .error (.error "invalid octal number")
      else .ok (L.convertNumber strtod .TOCTAL)
    else
      let L := L.next.appendWhile isxdigit
      if L.longstr.length > MAX_HEX_DIGITS then .error (.error "too many digits for an Hex number")
      else .ok (L.convertNumber strtod .THEX)
  else do
    let (type, L) ← (L.append firstchar).scanNumber .TINT
    .ok (L.convertNumber strtod type)

def readID : Int × LVLexer F :=
  let L := { L with longstr := [] }
  let L := (L.append L.cur).next.appendWhile fun c => scisalnum c || c == _LC '_'
  let res := getIDType L.longstr
  let L := L.append 0
  if res = TK_IDENTIFIER ∨ res = TK_CONSTRUCTOR then (res, { L with svalue := L.longstr })
  else (res, L)

/-! ## Tokens -/

/-- A `'` or a `"` that is not verbatim, or the `"` after an `@`. -/
def lexString (ndelim : LexChar) (verbatim : Bool) : Except LexFault (Int × LVLexer F) := do
  let (stype, L) ← L.readString ndelim verbatim
  if stype ≠ -1 then L.returnToken stype else .error (.error "error parsing the string")

/-- `t'` where the next character is `c`, and otherwise `t`. -/
def lexPair (t : Int) (c : Char) (t' : Int) : Except LexFault (Int × LVLexer F) :=
  if L.next.cur = _LC c then L.next.next.returnToken t' else L.next.returnToken t

/-- The loop of `Lex`. -/
def lexLoop : Nat → LVLexer F → Except LexFault (Int × LVLexer F)
  | 0, _ => .error .fuel
  | fuel + 1, L =>
    if L.cur = 0 then .ok (0, L)
    else
      match Char.ofNat L.cur.toNat with
      | '\t' | '\r' | ' ' => lexLoop fuel L.next
      | '\n' =>
        lexLoop fuel { { L with
          currentline := L.currentline + 1
          prevtoken := L.curtoken
          curtoken := (_LC '\n').toNat }.next with currentcolumn := 1 }
      | '#' => lexLoop fuel L.lexLineComment
      | '/' =>
        match Char.ofNat L.next.cur.toNat with
        | '*' => do
          let L ← L.next.next.lexBlockComment
          lexLoop fuel L
        | '/' => lexLoop fuel L.next.lexLineComment
        | '=' => L.next.next.returnToken TK_DIVEQ
        | _ => L.next.returnToken (_LC '/').toNat
      | '=' => L.lexPair (_LC '=').toNat '=' TK_EQ
      | '<' =>
        match Char.ofNat L.next.cur.toNat with
        | '=' => L.next.lexPair TK_LE '>' TK_3WAYSCMP
        | '-' => L.next.next.returnToken TK_NEWSLOT
        | '<' => L.next.next.returnToken TK_SHIFTL
        | _ => L.next.returnToken (_LC '<').toNat
      | '>' =>
        match Char.ofNat L.next.cur.toNat with
        | '=' => L.next.next.returnToken TK_GE
        | '>' => L.next.lexPair TK_SHIFTR '>' TK_USHIFTR
        | _ => L.next.returnToken (_LC '>').toNat
      | '!' => L.lexPair (_LC '!').toNat '=' TK_NE
      | '@' =>
        if L.next.cur ≠ _LC '"' then L.next.returnToken (_LC '@').toNat
        else L.next.lexString (_LC '"') true
      | '"' | '\'' => L.lexString L.cur false
      | '{' | '}' | '(' | ')' | '[' | ']' | ';' | ',' | '?' | '^' | '~' =>
        L.next.returnToken L.cur.toNat
      | '.' =>
        if L.next.cur ≠ _LC '.' then L.next.returnToken (_LC '.').toNat
        else if L.next.next.cur ≠ _LC '.' then .error (.error "invalid token '..'")
        else L.next.next.next.returnToken TK_VARPARAMS
      | '&' => L.lexPair (_LC '&').toNat '&' TK_AND
      | '|' => L.lexPair (_LC '|').toNat '|' TK_OR
      | ':' => L.lexPair (_LC ':').toNat ':' TK_DOUBLE_COLON
      | '*' => L.lexPair (_LC '*').toNat '=' TK_MULEQ
      | '%' => L.lexPair (_LC '%').toNat '=' TK_MODEQ
      | '-' =>
        match Char.ofNat L.next.cur.toNat with
        | '=' => L.next.next.returnToken TK_MINUSEQ
        | '-' => L.next.next.returnToken TK_MINUSMINUS
        | '>' => L.next.next.returnToken TK_ARROW_RIGHT
        | _ => L.next.returnToken (_LC '-').toNat
      | '+' =>
        match Char.ofNat L.next.cur.toNat with
        | '=' => L.next.next.returnToken TK_PLUSEQ
        | '+' => L.next.next.returnToken TK_PLUSPLUS
        | _ => L.next.returnToken (_LC '+').toNat
      | _ =>
        if scisdigit L.cur then do
          let (ret, L) ← L.readNumber strtod
          L.returnToken ret
        else if scisalpha L.cur ∨ L.cur = _LC '_' then
          L.readID.2.returnToken L.readID.1
        else if sciscntrl L.cur then .error (.error "unexpected character(control)")
        else L.next.returnToken L.cur.toNat

/-- `_lasttokenline = _currentline`. -/
def startToken : LVLexer F := { L with lasttokenline := L.currentline }

def lex : Except LexFault (Int × LVLexer F) :=
  lexLoop strtod (L.text.length + 1) L.startToken

end LVLexer

end Lavril
