import PocketScript.Diagnostic
import PocketScript.Token

/-!
# Compile errors

What the compiler can object to, each complaint with its kind and its wording, and where in the
program text it arose.
-/

namespace PocketScript

/-- What is wrong with a program text. -/
inductive Complaint where
  | nonAscii
  | unexpectedCharacter
  | unterminatedComment
  | hexWithoutDigits
  | malformedExponent
  | strayCharacterInNumber
  | unterminatedString
  | invalidNumber
  | nulInString
  | invalidEscape
  | invalidUtf8InString
  | expected (wanted found : TokenKind)
  | expectedFunctionName (found : TokenKind)
  | expectedExpression (found : TokenKind)
  | expectedPropertyName (found : TokenKind)
  | cannotAssign (operator : TokenKind)
  | jumpOutsideLoop (keyword : TokenKind)
  | duplicateParameter
  | undeclaredAssignment (name : String)
  | tooManyLocals
  | tooManyCaptures
  | tooManyArguments (limit : Nat)
  | expressionTooDeep (limit : Nat)
  | stackTooDeep
  | functionTooLarge
  | tooManyNumbers
  | tooManyStrings
  | tooManyFunctions
  | arrayLiteralTooLarge
  | objectLiteralTooLarge
  deriving DecidableEq, Repr

namespace Complaint

def kind : Complaint → ErrorKind
  | nonAscii | unexpectedCharacter | unterminatedComment | hexWithoutDigits | malformedExponent
  | strayCharacterInNumber | unterminatedString | invalidNumber | nulInString | invalidEscape
  | invalidUtf8InString => .lexical
  | expected _ _ | expectedFunctionName _ | expectedExpression _ | expectedPropertyName _
  | cannotAssign _ | jumpOutsideLoop _ | duplicateParameter => .grammar
  | undeclaredAssignment _ => .undefinedIdentifier
  | tooManyLocals | tooManyCaptures | tooManyArguments _ => .tooManyLocals
  | expressionTooDeep _ | stackTooDeep => .expressionTooDeep
  | functionTooLarge => .functionTooLarge
  | tooManyNumbers | tooManyStrings | tooManyFunctions | arrayLiteralTooLarge
  | objectLiteralTooLarge => .tooManyConstants

def message : Complaint → String
  | nonAscii => "encountered a non-ASCII character"
  | unexpectedCharacter => "unexpected character"
  | unterminatedComment => "encountered unterminated block comment"
  | hexWithoutDigits => "hexadecimal literal without digits"
  | malformedExponent => "malformed exponent in number literal"
  | strayCharacterInNumber => "invalid character in number literal"
  | unterminatedString => "encountered unterminated string literal"
  | invalidNumber => "invalid number literal"
  | nulInString => "string literals may not contain NUL characters"
  | invalidEscape => "invalid escape sequence in string literal"
  | invalidUtf8InString => "string literal is not valid UTF-8"
  | expected wanted found => s!"expected {wanted.describe}, found {found.describe}"
  | expectedFunctionName found => s!"expected a function name, found {found.describe}"
  | expectedExpression found => s!"expected an expression, found {found.describe}"
  | expectedPropertyName found => s!"expected a property name, found {found.describe}"
  | cannotAssign operator => s!"cannot assign to this expression using {operator.describe}"
  | jumpOutsideLoop keyword => s!"{keyword.describe} outside of a loop"
  | duplicateParameter => "duplicate parameter name"
  | undeclaredAssignment name => s!"assignment to undeclared identifier '{name}'"
  | tooManyLocals => "too many local variables in function"
  | tooManyCaptures => "too many captured variables in function"
  | tooManyArguments limit =>
      s!"too many arguments in call, at most {toString limit} are allowed"
  | expressionTooDeep limit =>
      s!"expression nested too deeply, at most {toString limit} levels are allowed"
  | stackTooDeep => "function exceeds the maximum stack depth"
  | functionTooLarge => "function exceeds the maximum code size"
  | tooManyNumbers => "too many number constants"
  | tooManyStrings => "too many string constants"
  | tooManyFunctions => "too many functions"
  | arrayLiteralTooLarge => "array literal too large"
  | objectLiteralTooLarge => "object literal too large"

end Complaint

/-- A complaint about a span of the program text, which is shorter than 2^32 bytes. -/
structure CompileError where
  complaint : Complaint
  span : Span
  /-- The keyword that a missing function name was expected behind. -/
  definedAt : Option Span := none
  deriving DecidableEq, Repr

namespace CompileError

/-- The error as it is reported for a program text. -/
def report (error : CompileError) (source : Source) : Diagnostic where
  kind := error.complaint.kind
  error := Note.ofSpan .error source error.span error.complaint.message
  remarks := error.definedAt.toList.map fun span =>
    Note.ofSpan .info source span "function definition starts here"

end CompileError

end PocketScript
