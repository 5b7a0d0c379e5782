import GraphManipulator.Json.Lexer
import Mathlib.Data.Char
import Mathlib.Data.List.Lex

/-!
This module contains the parser of `nlohmann::json`. It has no callback and throws on errors, which is how
the server calls it.
-/

namespace Parser

open Lexer

variable {D : Type}

def tokenTypeName (token : Token D) : String :=
  match token with
  | .literalTrue => "true literal"
  | .literalFalse => "false literal"
  | .literalNull => "null literal"
  | .valueString _ => "string literal"
  | .valueUnsigned _ => "number literal"
  | .valueInteger _ => "number literal"
  | .valueFloat _ => "number literal"
  | .beginArray => "'['"
  | .beginObject => "'\x7b'"
  | .endArray => "']'"
  | .endObject => "'\x7d'"
  | .nameSeparator => "':'"
  | .valueSeparator => "','"
  | .parseError _ => "<parse error>"
  | .endOfInput => "end of input"

/--
`throw_exception`, without the position and the text that was read last
-/
def syntaxError (lastToken : Token D) (expected : Option String) : Fault :=
  let errorMsg :=
    match lastToken with
    | .parseError errorMessage => "syntax error - " ++ errorMessage
    | token => "syntax error - unexpected " ++ tokenTypeName token
  match expected with
  | some name => .parseError (errorMsg ++ "; expected " ++ name)
  | none => .parseError errorMsg

mutual

/--
Parse the value that starts with `lastToken`. The fuel bounds the number of nested calls and of rounds of
the loops over members and elements.
-/
def parseInternal (fl : FloatOps D) (fuel : Nat) (lastToken : Token D) (s : List Char)
    : Except Fault (Json D × List Char) :=
  match fuel with
  | 0 => .error .nonterminating
  | fuel + 1 =>
    match lastToken with
    | .beginObject =>
      match scan fl s with
      | (.endObject, s) => .ok (.object [], s)
      | (token, s) => parseMembers fl fuel [] token s
    | .beginArray =>
      match scan fl s with
      | (.endArray, s) => .ok (.array [], s)
      | (token, s) => parseElements fl fuel [] token s
    | .literalNull => .ok (.null, s)
    | .valueString yytext => .ok (.string yytext, s)
    | .literalTrue => .ok (.boolean true, s)
    | .literalFalse => .ok (.boolean false, s)
    | .valueUnsigned n => .ok (.numberUnsigned n, s)
    | .valueInteger n => .ok (.numberInteger n, s)
    | .valueFloat d =>
      if fl.isFinite d then .ok (.numberFloat d, s) else .error (.outOfRange "number overflow parsing")
    | .parseError errorMessage => .error (syntaxError (D := D) (.parseError errorMessage) none)
    | token => .error (syntaxError token (some "'[', '\x7b', or a literal"))

def parseMembers (fl : FloatOps D) (fuel : Nat) (members : List (Str × Json D)) (lastToken : Token D)
    (s : List Char)
    : Except Fault (Json D × List Char) :=
  match fuel with
  | 0 => .error .nonterminating
  | fuel + 1 =>
    match lastToken with
    | .valueString key =>
      match scan fl s with
      | (.nameSeparator, s) =>
        match parseInternal fl fuel (scan fl s).1 (scan fl s).2 with
        | .ok (value, s) =>
          match scan fl s with
          | (.valueSeparator, s) =>
            parseMembers fl fuel (OrdMap.emplace key value members) (scan fl s).1 (scan fl s).2
          | (.endObject, s) => .ok (.object (OrdMap.emplace key value members), s)
          | (token, _) => .error (syntaxError token (some "'\x7d'"))
        | .error e => .error e
      | (token, _) => .error (syntaxError token (some "':'"))
    | token => .error (syntaxError token (some "string literal"))

def parseElements (fl : FloatOps D) (fuel : Nat) (elements : List (Json D)) (lastToken : Token D)
    (s : List Char)
    : Except Fault (Json D × List Char) :=
  match fuel with
  | 0 => .error .nonterminating
  | fuel + 1 =>
    match parseInternal fl fuel lastToken s with
    | .ok (value, s) =>
      match scan fl s with
      | (.valueSeparator, s) => parseElements fl fuel (elements ++ [value]) (scan fl s).1 (scan fl s).2
      | (.endArray, s) => .ok (.array (elements ++ [value]), s)
      | (token, _) => .error (syntaxError token (some "']'"))
    | .error e => .error e

end

def parseChars (fl : FloatOps D) (s : List Char) : Except Fault (Json D) :=
  match parseInternal fl (2 * s.length + 3) (scan fl s).1 (scan fl s).2 with
  | .ok (result, s) =>
    match scan fl s with
    | (.endOfInput, _) => .ok result
    | (token, _) => .error (syntaxError token (some "end of input"))
  | .error e => .error e

def byteChar (b : UInt8) : Char := Char.ofNat b.toNat

def skipByteOrderMark (bytes : List UInt8) : List UInt8 :=
  match bytes with
  | 0xEF :: 0xBB :: 0xBF :: tail => tail
  | bytes => bytes

def parse (fl : FloatOps D) (bytes : List UInt8) : Except Fault (Json D) :=
  parseChars fl ((skipByteOrderMark bytes).map byteChar)

end Parser
