import PocketScript.Text.Unprinted

/-!
# Quoted text

A listing shows a string between double quotes. Quotes, backslashes and the usual control
characters get their short escape, every other character that would not be seen is written by its
number, and the rest stands for itself.
-/

namespace PocketScript.Quoted

/-- How one character is written between the quotes. -/
def escape (c : Char) : List Char :=
  match c with
  | '\x00' => ['\\', '0']
  | '\t' => ['\\', 't']
  | '\r' => ['\\', 'r']
  | '\n' => ['\\', 'n']
  | '\\' => ['\\', '\\']
  | '"' => ['\\', '"']
  | c =>
      if ' ' ≤ c ∧ c ≤ '~' then [c]
      else if Unprinted.isUnprinted c then
        ['\\', 'u', '\x7b'] ++ Nat.toDigits 16 c.toNat ++ ['\x7d']
      else [c]

/-- A text between double quotes. -/
def encode (text : String) : String :=
  String.ofList ('"' :: text.toList.flatMap escape ++ ['"'])

end PocketScript.Quoted
