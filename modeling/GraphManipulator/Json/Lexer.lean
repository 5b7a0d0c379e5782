import GraphManipulator.Json.Value

/-!
This module contains the lexer of `nlohmann::json`. Where the lexer reads a character ahead and puts it
back, the functions here leave the character in the input.
-/

inductive Token (D : Type) where
  | literalTrue
  | literalFalse
  | literalNull
  | valueString (yytext : Str)
  | valueUnsigned (n : Nat)
  | valueInteger (n : Int)
  | valueFloat (d : D)
  | beginArray
  | beginObject
  | endArray
  | endObject
  | nameSeparator
  | valueSeparator
  | parseError (errorMessage : String)
  | endOfInput

namespace Lexer

def hexDigit? (c : Char) : Option Nat :=
  if '0' ≤ c ∧ c ≤ '9' then
    some (c.toNat - 0x30)
  else if 'A' ≤ c ∧ c ≤ 'F' then
    some (c.toNat - 0x37)
  else if 'a' ≤ c ∧ c ≤ 'f' then
    some (c.toNat - 0x57)
  else
    none

def getCodepoint (s : List Char) : Except String (Nat × List Char) :=
  match s with
  | c1 :: c2 :: c3 :: c4 :: tail =>
    match hexDigit? c1, hexDigit? c2, hexDigit? c3, hexDigit? c4 with
    | some d1, some d2, some d3, some d4 =>
      .ok (d1 * 0x1000 + d2 * 0x0100 + d3 * 0x0010 + d4, tail)
    | _, _, _, _ => .error "invalid string: '\\u' must be followed by 4 hex digits"
  | _ => .error "invalid string: '\\u' must be followed by 4 hex digits"

def codepointBytes (codepoint : Nat) : Str :=
  if codepoint < 0x80 then
    [Char.ofNat codepoint]
  else if codepoint ≤ 0x7ff then
    [Char.ofNat (0xC0 ||| (codepoint >>> 6)), Char.ofNat (0x80 ||| (codepoint &&& 0x3F))]
  else if codepoint ≤ 0xffff then
    [
      Char.ofNat (0xE0 ||| (codepoint >>> 12)),
      Char.ofNat (0x80 ||| ((codepoint >>> 6) &&& 0x3F)),
      Char.ofNat (0x80 ||| (codepoint &&& 0x3F))
    ]
  else
    [
      Char.ofNat (0xF0 ||| (codepoint >>> 18)),
      Char.ofNat (0x80 ||| ((codepoint >>> 12) &&& 0x3F)),
      Char.ofNat (0x80 ||| ((codepoint >>> 6) &&& 0x3F)),
      Char.ofNat (0x80 ||| (codepoint &&& 0x3F))
    ]

def surrogateMessage : String :=
  "invalid string: surrogate U+DC00..U+DFFF must be followed by U+DC00..U+DFFF"

def scanUnicodeEscape (s : List Char) : Except String (Str × List Char) := do
  let (codepoint1, s) ← getCodepoint s
  if 0xD800 ≤ codepoint1 ∧ codepoint1 ≤ 0xDBFF then
    match s with
    | '\\' :: 'u' :: s =>
      let (codepoint2, s) ← getCodepoint s
      if 0xDC00 ≤ codepoint2 ∧ codepoint2 ≤ 0xDFFF then
        .ok (codepointBytes (codepoint1 * 0x400 + codepoint2 - 0x35FDC00), s)
      else
        .error surrogateMessage
    | _ => .error surrogateMessage
  else if 0xDC00 ≤ codepoint1 ∧ codepoint1 ≤ 0xDFFF then
    .error "invalid string: surrogate U+DC00..U+DFFF must follow U+D800..U+DBFF"
  else
    .ok (codepointBytes codepoint1, s)

def scanEscape (s : List Char) : Except String (Str × List Char) :=
  match s with
  | '"' :: tail => .ok (['"'], tail)
  | '\\' :: tail => .ok (['\\'], tail)
  | '/' :: tail => .ok (['/'], tail)
  | 'b' :: tail => .ok (['\x08'], tail)
  | 'f' :: tail => .ok (['\x0c'], tail)
  | 'n' :: tail => .ok (['\n'], tail)
  | 'r' :: tail => .ok (['\r'], tail)
  | 't' :: tail => .ok (['\t'], tail)
  | 'u' :: tail => scanUnicodeEscape tail
  | _ => .error "invalid string: forbidden character after backslash"

def nextByteInRange (ranges : List (Nat × Nat)) (s : List Char) : Except String (Str × List Char) :=
  match ranges with
  | [] => .ok ([], s)
  | (lo, hi) :: ranges =>
    match s with
    | c :: tail =>
      if lo ≤ c.toNat ∧ c.toNat ≤ hi then do
        let (bytes, s) ← nextByteInRange ranges tail
        .ok (c :: bytes, s)
      else
        .error "invalid string: ill-formed UTF-8 byte"
    | [] => .error "invalid string: ill-formed UTF-8 byte"

def continuationRanges (c : Nat) : Option (List (Nat × Nat)) :=
  if 0xC2 ≤ c ∧ c ≤ 0xDF then
    some [(0x80, 0xBF)]
  else if c = 0xE0 then
    some [(0xA0, 0xBF), (0x80, 0xBF)]
  else if (0xE1 ≤ c ∧ c ≤ 0xEC) ∨ c = 0xEE ∨ c = 0xEF then
    some [(0x80, 0xBF), (0x80, 0xBF)]
  else if c = 0xED then
    some [(0x80, 0x9F), (0x80, 0xBF)]
  else if c = 0xF0 then
    some [(0x90, 0xBF), (0x80, 0xBF), (0x80, 0xBF)]
  else if 0xF1 ≤ c ∧ c ≤ 0xF3 then
    some [(0x80, 0xBF), (0x80, 0xBF), (0x80, 0xBF)]
  else if c = 0xF4 then
    some [(0x80, 0x8F), (0x80, 0xBF), (0x80, 0xBF)]
  else
    none

def scanStringChar (c : Char) (s : List Char) : Except String (Str × List Char) :=
  if c = '\\' then
    scanEscape s
  else if c.toNat ≤ 0x1f then
    .error "invalid string: control character must be escaped"
  else if c.toNat ≤ 0x7f then
    .ok ([c], s)
  else
    match continuationRanges c.toNat with
    | some ranges => do
      let (bytes, s) ← nextByteInRange ranges s
      .ok (c :: bytes, s)
    | none => .error "invalid string: ill-formed UTF-8 byte"

def scanString (s : List Char) : Except String (Str × List Char) :=
  go (s.length + 1) [] s
where
  -- each round reads a character, so that the rounds are as many as there are characters
  go (rounds : Nat) (yytext : Str) (s : List Char) : Except String (Str × List Char) :=
    match rounds with
    | 0 => .error "invalid string: missing closing quote"
    | rounds + 1 =>
      match s with
      | [] => .error "invalid string: missing closing quote"
      | c :: tail =>
        if c = '"' then
          .ok (yytext, tail)
        else do
          let (bytes, s) ← scanStringChar c tail
          go rounds (yytext ++ bytes) s

inductive NumberType where
  | unsigned
  | integer
  | float

inductive NumberState where
  | minus
  | zero
  | any1
  | decimal1
  | decimal2
  | exponent
  | sign
  | any2

namespace NumberState

/--
Where the automaton goes from a state with the next character. It stays in front of a character it has no
use for, which is an error in some states.
-/
inductive Next where
  | goto (st : NumberState)
  | done
  | error (errorMessage : String)

def next (st : NumberState) (c : Char) : Next :=
  match st with
  | minus =>
    if c = '0' then .goto zero
    else if c.isDigit then .goto any1
    else .error "invalid number; expected digit after '-'"
  | zero =>
    if c = '.' then .goto decimal1
    else if c = 'e' ∨ c = 'E' then .goto exponent
    else .done
  | any1 =>
    if c.isDigit then .goto any1
    else if c = '.' then .goto decimal1
    else if c = 'e' ∨ c = 'E' then .goto exponent
    else .done
  | decimal1 =>
    if c.isDigit then .goto decimal2
    else .error "invalid number; expected digit after '.'"
  | decimal2 =>
    if c.isDigit then .goto decimal2
    else if c = 'e' ∨ c = 'E' then .goto exponent
    else .done
  | exponent =>
    if c = '+' ∨ c = '-' then .goto sign
    else if c.isDigit then .goto any2
    else .error "invalid number; expected '+', '-', or digit after exponent"
  | sign =>
    if c.isDigit then .goto any2
    else .error "invalid number; expected digit after exponent sign"
  | any2 =>
    if c.isDigit then .goto any2
    else .done

def numberType (st : NumberState) (ty : NumberType) : NumberType :=
  match st with
  | minus => .integer
  | decimal1 => .float
  | exponent => .float
  | _ => ty

end NumberState

/--
Run the automaton from a state up to the end of the number. The end of the input is a character that no
state has a use for; the null character is one, too.
-/
def scanNumberFrom (st : NumberState) (ty : NumberType) (yytext : Str) (s : List Char)
    : Except String ((NumberType × Str) × List Char) :=
  let ty := st.numberType ty
  match s with
  | [] =>
    match st.next '\x00' with
    | .error errorMessage => .error errorMessage
    | _ => .ok ((ty, yytext), [])
  | c :: tail =>
    match st.next c with
    | .goto st => scanNumberFrom st ty (yytext ++ [c]) tail
    | .done => .ok ((ty, yytext), c :: tail)
    | .error errorMessage => .error errorMessage

def integerValue (yytext : Str) : Int :=
  match yytext with
  | '-' :: digits => -(Nat.ofDigitChars 10 digits 0 : Int)
  | digits => Nat.ofDigitChars 10 digits 0

variable {D : Type}

def numberToken (fl : FloatOps D) (ty : NumberType) (yytext : Str) : Token D :=
  let x := integerValue yytext
  match ty with
  | .unsigned =>
    if x ≤ 18446744073709551615 then .valueUnsigned x.toNat else .valueFloat (fl.strtod yytext)
  | .integer =>
    if -9223372036854775808 ≤ x ∧ x ≤ 9223372036854775807 then
      .valueInteger x
    else
      .valueFloat (fl.strtod yytext)
  | .float => .valueFloat (fl.strtod yytext)

def scanNumber (fl : FloatOps D) (c : Char) (s : List Char) : Token D × List Char :=
  let st : NumberState :=
    if c = '-' then .minus
    else if c = '0' then .zero
    else .any1
  match scanNumberFrom st .unsigned [c] s with
  | .ok ((ty, yytext), s) => (numberToken fl ty yytext, s)
  | .error errorMessage => (.parseError errorMessage, s)

def scanLiteral (literalText : Str) (token : Token D) (s : List Char) : Token D × List Char :=
  if literalText.isPrefixOf s then
    (token, s.drop literalText.length)
  else
    (.parseError "invalid literal", s)

def isWhitespace (c : Char) : Bool :=
  c = ' ' || c = '\t' || c = '\n' || c = '\r'

def structuralToken? (c : Char) : Option (Token D) :=
  match c with
  | '[' => some .beginArray
  | ']' => some .endArray
  | '{' => some .beginObject
  | '}' => some .endObject
  | ':' => some .nameSeparator
  | ',' => some .valueSeparator
  | _ => none

def scan (fl : FloatOps D) (s : List Char) : Token D × List Char :=
  match s.dropWhile isWhitespace with
  | [] => (.endOfInput, [])
  | c :: tail =>
    match structuralToken? c with
    | some token => (token, tail)
    | none =>
      match c with
      | 't' => scanLiteral "rue".toList .literalTrue tail
      | 'f' => scanLiteral "alse".toList .literalFalse tail
      | 'n' => scanLiteral "ull".toList .literalNull tail
      | '"' =>
        match scanString tail with
        | .ok (yytext, s) => (.valueString yytext, s)
        | .error errorMessage => (.parseError errorMessage, tail)
      | '\x00' => (.endOfInput, tail)
      | c =>
        if c = '-' ∨ c.isDigit then scanNumber fl c tail else (.parseError "invalid literal", tail)

end Lexer
