import PocketScript.Source
import PocketScript.Text.Utf8

/-!
# Diagnostics

A diagnostic is an error with further remarks, each of which quotes one line of the program text and
underlines a part of it. Columns count bytes; the underlining counts characters, a tab being four
wide.
-/

namespace PocketScript

/-- The kinds of compile errors, each with a status code. -/
inductive ErrorKind where
  | lexical
  | grammar
  | undefinedIdentifier
  | tooManyLocals
  | expressionTooDeep
  | functionTooLarge
  | tooManyConstants
  deriving DecidableEq, Repr

/-- The status code reported to the host. -/
def ErrorKind.code : ErrorKind → Int
  | .lexical | .grammar => -1
  | .undefinedIdentifier => -2
  | .tooManyLocals => -3
  | .expressionTooDeep => -4
  | .functionTooLarge => -5
  | .tooManyConstants => -6

/-- An error, or a remark that goes with one. -/
inductive Severity where
  | info
  | error
  deriving DecidableEq, Repr

def Severity.label : Severity → String
  | .info => " INFO: "
  | .error => "ERROR: "

/-- A message about a part of one line. -/
structure Note where
  severity : Severity
  line : Nat
  /-- The column of the first byte the message is about, counted from one. -/
  startColumn : Nat
  /-- The column behind the last of these bytes. -/
  endColumn : Nat
  sourceName : String
  /-- The line the message is about. -/
  context : String
  message : String
  deriving DecidableEq, Repr

namespace Note

/-- The note for a span. Of a span over several lines the first line is shown, up to its end. -/
def ofSpan (severity : Severity) (source : Source) (span : Span) (message : String) : Note :=
  let lineStart := source.lineStart span.start.line
  let startColumn := span.start.offset - lineStart + 1
  let lastOffset :=
    if span.stop.line = span.start.line then span.stop.offset
    else source.lineEnd span.start.line
  { severity
    line := span.start.line
    startColumn
    endColumn := max (lastOffset - lineStart + 1) (startColumn + 1)
    sourceName := source.name
    context := Utf8.decodeLossy (source.lineBytes span.start.line)
    message }

/-- How many columns a character takes on the line. -/
def width (c : Char) : Nat := if c = '\t' then 4 else 1

/-- A line with its tabs spread. -/
def spread (line : List Char) : List Char :=
  line.flatMap fun c => if c = '\t' then List.replicate 4 ' ' else [c]

/-- The columns that some characters take, filled with a mark. -/
def fill (mark : Char) (characters : List Char) : List Char :=
  characters.flatMap fun c => List.replicate (width c) mark

/-- The line that underlines the part of the context from the start column up to the end column; at
the end of the line one mark stands behind it. -/
def underline (note : Note) : List Char :=
  let characters := note.context.toList
  let before := note.startColumn - 1
  let marked := fill '~' ((characters.take (note.endColumn - 1)).drop before)
  fill ' ' (characters.take before) ++ if marked.isEmpty then ['~'] else marked

/-- The note as text, each line ended by a newline. -/
def render (note : Note) : String :=
  let place := if note.sourceName.isEmpty then "" else s!"in {note.sourceName} "
  s!"{note.severity.label}{note.message}\n" ++
    s!" +- {place}at {toString note.line}:{toString note.startColumn}\n" ++
    " | \n" ++
    " | " ++ String.ofList (spread note.context.toList) ++ "\n" ++
    " | " ++ String.ofList note.underline ++ "\n"

end Note

/-- A compile error as it is reported: the error first, then what goes with it. -/
structure Diagnostic where
  kind : ErrorKind
  error : Note
  remarks : List Note
  deriving DecidableEq, Repr

namespace Diagnostic

def code (diagnostic : Diagnostic) : Int := diagnostic.kind.code

/-- All notes, separated by empty lines. -/
def render (diagnostic : Diagnostic) : String :=
  String.intercalate "\n" (diagnostic.error.render :: diagnostic.remarks.map Note.render)

end Diagnostic

end PocketScript
