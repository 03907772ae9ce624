import PocketScript.Source

/-!
# Tokens

A token is a piece of the program text with its kind. Reserved words are kinds of their own, so a
name is never one of them.
-/

namespace PocketScript

inductive TokenKind where
  | ident
  | number
  | string
  | kwVar
  | kwDef
  | kwIf
  | kwElse
  | kwWhile
  | kwFor
  | kwBreak
  | kwContinue
  | kwReturn
  | kwTrue
  | kwFalse
  | kwUndefined
  | kwNaN
  | openParen
  | closeParen
  | openCurly
  | closeCurly
  | openSquare
  | closeSquare
  | comma
  | dot
  | semicolon
  | colon
  | question
  | plus
  | minus
  | star
  | slash
  | percent
  | exclamation
  | tilde
  | ampersand
  | bar
  | caret
  | equal
  | plusEqual
  | minusEqual
  | starEqual
  | slashEqual
  | percentEqual
  | equalEqual
  | notEqual
  | less
  | lessEqual
  | greater
  | greaterEqual
  | shiftLeft
  | shiftRight
  | andAnd
  | orOr
  | endOfInput
  deriving DecidableEq, Repr

namespace TokenKind

/-- How a message speaks of a token of this kind. -/
def describe : TokenKind → String
  | ident => "identifier"
  | number => "number"
  | string => "string"
  | kwVar => "'var'"
  | kwDef => "'def'"
  | kwIf => "'if'"
  | kwElse => "'else'"
  | kwWhile => "'while'"
  | kwFor => "'for'"
  | kwBreak => "'break'"
  | kwContinue => "'continue'"
  | kwReturn => "'return'"
  | kwTrue => "'true'"
  | kwFalse => "'false'"
  | kwUndefined => "'undefined'"
  | kwNaN => "'NaN'"
  | openParen => "'('"
  | closeParen => "')'"
  | openCurly => "'\x7b'"
  | closeCurly => "'\x7d'"
  | openSquare => "'['"
  | closeSquare => "']'"
  | comma => "','"
  | dot => "'.'"
  | semicolon => "';'"
  | colon => "':'"
  | question => "'?'"
  | plus => "'+'"
  | minus => "'-'"
  | star => "'*'"
  | slash => "'/'"
  | percent => "'%'"
  | exclamation => "'!'"
  | tilde => "'~'"
  | ampersand => "'&'"
  | bar => "'|'"
  | caret => "'^'"
  | equal => "'='"
  | plusEqual => "'+='"
  | minusEqual => "'-='"
  | starEqual => "'*='"
  | slashEqual => "'/='"
  | percentEqual => "'%='"
  | equalEqual => "'=='"
  | notEqual => "'!='"
  | less => "'<'"
  | lessEqual => "'<='"
  | greater => "'>'"
  | greaterEqual => "'>='"
  | shiftLeft => "'<<'"
  | shiftRight => "'>>'"
  | andAnd => "'&&'"
  | orOr => "'||'"
  | endOfInput => "end of input"

/-- The kind of a word: a reserved word, or else a name. -/
def ofWord (word : String) : TokenKind :=
  match word with
  | "var" => kwVar
  | "def" => kwDef
  | "if" => kwIf
  | "else" => kwElse
  | "while" => kwWhile
  | "for" => kwFor
  | "break" => kwBreak
  | "continue" => kwContinue
  | "return" => kwReturn
  | "true" => kwTrue
  | "false" => kwFalse
  | "undefined" => kwUndefined
  | "NaN" => kwNaN
  | _ => ident

/-- The kind of a punctuation mark that starts with this character, with the number of its
characters: two when the next character belongs to it. -/
def ofPunctuation? (first : Char) (next : Option Char) : Option (TokenKind × Nat) :=
  match first, next with
  | '+', some '=' => some (plusEqual, 2)
  | '-', some '=' => some (minusEqual, 2)
  | '*', some '=' => some (starEqual, 2)
  | '/', some '=' => some (slashEqual, 2)
  | '%', some '=' => some (percentEqual, 2)
  | '!', some '=' => some (notEqual, 2)
  | '=', some '=' => some (equalEqual, 2)
  | '<', some '<' => some (shiftLeft, 2)
  | '<', some '=' => some (lessEqual, 2)
  | '>', some '>' => some (shiftRight, 2)
  | '>', some '=' => some (greaterEqual, 2)
  | '&', some '&' => some (andAnd, 2)
  | '|', some '|' => some (orOr, 2)
  | '(', _ => some (openParen, 1)
  | ')', _ => some (closeParen, 1)
  | '\x7b', _ => some (openCurly, 1)
  | '\x7d', _ => some (closeCurly, 1)
  | '[', _ => some (openSquare, 1)
  | ']', _ => some (closeSquare, 1)
  | ',', _ => some (comma, 1)
  | '.', _ => some (dot, 1)
  | ';', _ => some (semicolon, 1)
  | ':', _ => some (colon, 1)
  | '?', _ => some (question, 1)
  | '~', _ => some (tilde, 1)
  | '^', _ => some (caret, 1)
  | '+', _ => some (plus, 1)
  | '-', _ => some (minus, 1)
  | '*', _ => some (star, 1)
  | '/', _ => some (slash, 1)
  | '%', _ => some (percent, 1)
  | '!', _ => some (exclamation, 1)
  | '=', _ => some (equal, 1)
  | '<', _ => some (less, 1)
  | '>', _ => some (greater, 1)
  | '&', _ => some (ampersand, 1)
  | '|', _ => some (bar, 1)
  | _, _ => none

end TokenKind

/-- A piece of the program text with its kind and its place. -/
structure Token where
  kind : TokenKind
  /-- The bytes of the token; of a string with its quotes. -/
  text : List UInt8
  span : Span
  deriving DecidableEq, Repr

/-- The name a word token stands for. -/
def Token.name (token : Token) : String := Ascii.text token.text

end PocketScript
