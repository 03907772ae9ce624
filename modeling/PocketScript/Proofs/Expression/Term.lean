import PocketScript.Token.Literal
import PocketScript.Token.Lexer
import PocketScript.Tree

/-!
# Terms

The expressions without calls and functions, and how they are written. A term knows no places in a
text; `Term.Denotes` relates it to the trees that stand for it. `Term.Spells` tells the tokens of a
term with parentheses only where the level of an operand demands them: the levels are assignments,
conditionals, ten levels of infix operators, prefix operators, accesses, and what stands for itself.
-/

namespace PocketScript

mutual

/-- An expression without calls and functions. -/
inductive Term where
  | literal (value : Literal)
  | number (value : Number)
  | string (value : String)
  | variable (name : String)
  | unary (op : UnaryOp) (operand : Term)
  | binary (op : BinaryOp) (left right : Term)
  | logical (op : LogicalOp) (left right : Term)
  | conditional (condition whenTrue whenFalse : Term)
  /-- Assigns to a variable; with an operator the old value is combined with the new one. -/
  | assign (name : String) (op : Option BinaryOp) (value : Term)
  /-- Assigns to an element or a property. -/
  | assignElement (container key : Term) (op : Option BinaryOp) (value : Term)
  | element (container key : Term)
  | array (items : List Term)
  | object (properties : List Property)

/-- A property of an object literal. -/
inductive Property where
  | mk (key : String) (value : Term)

end

/-- The name of a property. -/
def Property.key : Property → String
  | mk key _ => key

/-- The levels of operators, the one that binds the least first. -/
def LogicalOp.level : LogicalOp → Nat
  | or => 0
  | and => 1

/-- The levels of operators, the one that binds the least first. -/
def BinaryOp.level : BinaryOp → Nat
  | bitOr => 2
  | bitXor => 3
  | bitAnd => 4
  | eq | ne => 5
  | lt | le | gt | ge => 6
  | shl | shr => 7
  | add | sub => 8
  | mul | div | mod => 9

/-- How an operator is written. -/
def LogicalOp.kind : LogicalOp → TokenKind
  | or => .orOr
  | and => .andAnd

/-- How an operator is written. -/
def BinaryOp.kind : BinaryOp → TokenKind
  | bitOr => .bar
  | bitXor => .caret
  | bitAnd => .ampersand
  | eq => .equalEqual
  | ne => .notEqual
  | lt => .less
  | le => .lessEqual
  | gt => .greater
  | ge => .greaterEqual
  | shl => .shiftLeft
  | shr => .shiftRight
  | add => .plus
  | sub => .minus
  | mul => .star
  | div => .slash
  | mod => .percent

/-- How an operator is written. -/
def UnaryOp.kind : UnaryOp → TokenKind
  | neg => .minus
  | not => .exclamation
  | bitNot => .tilde

/-- How an assignment is written, which combines with some operators only. -/
def assignmentKind? : Option BinaryOp → Option TokenKind
  | none => some .equal
  | some .add => some .plusEqual
  | some .sub => some .minusEqual
  | some .mul => some .starEqual
  | some .div => some .slashEqual
  | some .mod => some .percentEqual
  | some _ => none

/-- How a literal is written. -/
def Literal.kind : Literal → TokenKind
  | true_ => .kwTrue
  | false_ => .kwFalse
  | undefined => .kwUndefined
  | nan => .kwNaN

namespace Term

/-- How tightly the outermost operation of a term binds. -/
def level : Term → Nat
  | assign _ _ _ | assignElement _ _ _ _ => 0
  | conditional _ _ _ => 1
  | logical op _ _ => 2 + op.level
  | binary op _ _ => 2 + op.level
  | unary _ _ => 12
  | element _ _ => 13
  | _ => 14

mutual

/-- A tree stands for a term. -/
inductive Denotes : Term → Expr → Prop
  | literal {value} : Denotes (.literal value) (.literal value)
  | number {value span} : Denotes (.number value) (.number value span)
  | string {value span} : Denotes (.string value) (.string value span)
  | variable {name span} : Denotes (.variable name) (.name name span)
  | unary {op operand tree} :
      Denotes operand tree → Denotes (.unary op operand) (.unary op tree)
  | binary {op left right leftTree rightTree} :
      Denotes left leftTree → Denotes right rightTree →
        Denotes (.binary op left right) (.binary op leftTree rightTree)
  | logical {op left right leftTree rightTree} :
      Denotes left leftTree → Denotes right rightTree →
        Denotes (.logical op left right) (.logical op leftTree rightTree)
  | conditional {condition whenTrue whenFalse test first second} :
      Denotes condition test → Denotes whenTrue first → Denotes whenFalse second →
        Denotes (.conditional condition whenTrue whenFalse) (.conditional test first second)
  | assign {name op value span tree} :
      Denotes value tree → Denotes (.assign name op value) (.assignName name span op tree)
  | assignElement {container key op value first second tree} :
      Denotes container first → Denotes key second → Denotes value tree →
        Denotes (.assignElement container key op value) (.assignElement first second op tree)
  | element {container key first second} :
      Denotes container first → Denotes key second →
        Denotes (.element container key) (.element first second)
  | array {items trees span} :
      DenotesAll items trees → Denotes (.array items) (.array trees span)
  | object {properties entries span} :
      DenotesProperties properties entries → Denotes (.object properties) (.object entries span)

/-- Trees stand for terms. -/
inductive DenotesAll : List Term → List Expr → Prop
  | nil : DenotesAll [] []
  | cons {term tree terms trees} :
      Denotes term tree → DenotesAll terms trees → DenotesAll (term :: terms) (tree :: trees)

/-- Entries of a tree stand for properties. -/
inductive DenotesProperties : List Property → List Entry → Prop
  | nil : DenotesProperties [] []
  | cons {key span value tree properties entries} :
      Denotes value tree → DenotesProperties properties entries →
        DenotesProperties (.mk key value :: properties) (.property key span tree :: entries)

end

/-- A token is the name of a property: a name, a number as it is written, or a string. -/
inductive SpellsKey : String → Token → Prop
  | word {kind text span} :
      kind = .ident ∨ kind = .number → SpellsKey (Token.name ⟨kind, text, span⟩) ⟨kind, text, span⟩
  | string {text span key} :
      PocketScript.Literal.string ⟨.string, text, span⟩ = .ok key →
        SpellsKey key ⟨.string, text, span⟩

mutual

/-- Tokens are a term without parentheses around it. -/
inductive Spells : Term → List Token → Prop
  | literal {value text span} : Spells (.literal value) [⟨value.kind, text, span⟩]
  | number {text span value} :
      PocketScript.Literal.number? text = some value →
        Spells (.number value) [⟨.number, text, span⟩]
  | string {text span value} :
      PocketScript.Literal.string ⟨.string, text, span⟩ = .ok value →
        Spells (.string value) [⟨.string, text, span⟩]
  | variable {text span} :
      Spells (.variable (Token.name ⟨.ident, text, span⟩)) [⟨.ident, text, span⟩]
  | unary {op operand text span tokens} :
      SpellsAt 12 operand tokens →
        Spells (.unary op operand) (⟨op.kind, text, span⟩ :: tokens)
  | binary {op left right text span tokens more} :
      SpellsAt (2 + op.level) left tokens → SpellsAt (3 + op.level) right more →
        Spells (.binary op left right) (tokens ++ ⟨op.kind, text, span⟩ :: more)
  | logical {op left right text span tokens more} :
      SpellsAt (2 + op.level) left tokens → SpellsAt (3 + op.level) right more →
        Spells (.logical op left right) (tokens ++ ⟨op.kind, text, span⟩ :: more)
  | conditional {condition whenTrue whenFalse text span text' span' tokens first second} :
      SpellsAt 2 condition tokens → SpellsAt 0 whenTrue first → SpellsAt 0 whenFalse second →
        Spells (.conditional condition whenTrue whenFalse)
          (tokens ++ ⟨.question, text, span⟩ :: (first ++ ⟨.colon, text', span'⟩ :: second))
  | assign {op value kind text span text' span' tokens} :
      assignmentKind? op = some kind → SpellsAt 0 value tokens →
        Spells (.assign (Token.name ⟨.ident, text, span⟩) op value)
          (⟨.ident, text, span⟩ :: ⟨kind, text', span'⟩ :: tokens)
  | assignElement {container key op value kind text span tokens more} :
      assignmentKind? op = some kind → Spells (.element container key) tokens →
        SpellsAt 0 value more →
          Spells (.assignElement container key op value)
            (tokens ++ ⟨kind, text, span⟩ :: more)
  | element {container key text span text' span' tokens more} :
      SpellsAt 13 container tokens → SpellsAt 0 key more →
        Spells (.element container key)
          (tokens ++ ⟨.openSquare, text, span⟩ :: (more ++ [⟨.closeSquare, text', span'⟩]))
  | property {container text span text' span' tokens} :
      SpellsAt 13 container tokens →
        Spells (.element container (.string (Token.name ⟨.ident, text', span'⟩)))
          (tokens ++ [⟨.dot, text, span⟩, ⟨.ident, text', span'⟩])
  | emptyArray {text span text' span'} :
      Spells (.array []) [⟨.openSquare, text, span⟩, ⟨.closeSquare, text', span'⟩]
  | array {items text span text' span' tokens} :
      SpellsItems items tokens →
        Spells (.array items)
          (⟨.openSquare, text, span⟩ :: (tokens ++ [⟨.closeSquare, text', span'⟩]))
  | emptyObject {text span text' span'} :
      Spells (.object []) [⟨.openCurly, text, span⟩, ⟨.closeCurly, text', span'⟩]
  | object {properties text span text' span' tokens} :
      SpellsProperties properties tokens →
        Spells (.object properties)
          (⟨.openCurly, text, span⟩ :: (tokens ++ [⟨.closeCurly, text', span'⟩]))

/-- Tokens are a term where operands of a level are wanted: in parentheses if it binds less. -/
inductive SpellsAt : Nat → Term → List Token → Prop
  | plain {wanted term tokens} :
      wanted ≤ term.level → Spells term tokens → SpellsAt wanted term tokens
  | enclosed {wanted term text span text' span' tokens} :
      term.level < wanted → Spells term tokens →
        SpellsAt wanted term
          (⟨.openParen, text, span⟩ :: (tokens ++ [⟨.closeParen, text', span'⟩]))

/-- Tokens are terms with commas between them. -/
inductive SpellsItems : List Term → List Token → Prop
  | last {term tokens} : SpellsAt 0 term tokens → SpellsItems [term] tokens
  | more {term terms text span tokens rest} :
      SpellsAt 0 term tokens → SpellsItems terms rest →
        SpellsItems (term :: terms) (tokens ++ ⟨.comma, text, span⟩ :: rest)

/-- Tokens are properties with commas between them. -/
inductive SpellsProperties : List Property → List Token → Prop
  | last {key value token text span tokens} :
      SpellsKey key token → SpellsAt 0 value tokens →
        SpellsProperties [.mk key value] (token :: ⟨.colon, text, span⟩ :: tokens)
  | more {key value properties token text span text' span' tokens rest} :
      SpellsKey key token → SpellsAt 0 value tokens → SpellsProperties properties rest →
        SpellsProperties (.mk key value :: properties)
          (token :: ⟨.colon, text, span⟩ :: (tokens ++ ⟨.comma, text', span'⟩ :: rest))

end

end Term

/-- The stream that starts with some tokens and goes on with another one. -/
def TokenStream.behind (rest : TokenStream) (tokens : List Token) : TokenStream :=
  tokens.foldr .token rest

namespace TokenStream

@[simp]
theorem behind_nil (rest : TokenStream) : rest.behind [] = rest := rfl

@[simp]
theorem behind_cons (rest : TokenStream) (token : Token) (tokens : List Token) :
    rest.behind (token :: tokens) = .token token (rest.behind tokens) := rfl

@[simp]
theorem behind_append (rest : TokenStream) (tokens more : List Token) :
    rest.behind (tokens ++ more) = (rest.behind more).behind tokens :=
  List.foldr_append

end TokenStream

end PocketScript
