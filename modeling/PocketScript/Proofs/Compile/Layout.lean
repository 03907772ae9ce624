import PocketScript.Proofs.Compile.Alike
import PocketScript.Proofs.Token.Lexemes

/-!
# What does not influence the code

Blanks, comments and places have no part in a program: texts with the same tokens are compiled to the
same program, or are refused for reasons of the same kind. Neither have limits, as long as they are
kept, nor the globals that nothing is assigned to (`compile_ignores_layout_and_limits`). Both are
comparisons of two compilations: of two texts under the same conditions, and of one text under
stricter and under looser ones.
-/

namespace PocketScript

/-! ## Texts with the same tokens -/

/-- What a piece of a text is apart from its place. Of a lexical error only the fact is kept. -/
def Token.shape? : Except CompileError Token → Option (TokenKind × List UInt8)
  | .ok token => some (token.kind, token.text)
  | .error _ => none

/-- The tokens of a text, with their kinds and bytes, and where between them it cannot be read. -/
def TokenStream.shapes (stream : TokenStream) : List (Option (TokenKind × List UInt8)) :=
  stream.pieces.map Token.shape?

namespace Likeness

/-- The same tokens at any places, and any lexical errors. -/
def layout : Likeness where
  token one other := other.kind = one.kind ∧ other.text = one.text
  flaw one other := one.complaint.kind = .lexical ∧ other.complaint.kind = .lexical
  kind alike := alike.1
  text alike := alike.2

/-- The very same text. -/
def identity : Likeness where
  token one other := other = one
  flaw one other := other = one
  kind alike := by rw [alike]
  text alike := by rw [alike]

end Likeness

/-- Errors that are raised for the same reason in two layouts of a text are of one kind. -/
theorem Likeness.Error.kind {error error' : CompileError}
    (alike : Likeness.layout.Error error error') :
    error'.complaint.kind = error.complaint.kind := by
  cases alike with
  | flaw flaw => rw [flaw.1, flaw.2]
  | token | functionName => rfl
  | inString _ _ one other =>
      rw [((Literal.string_reads _).2 _ one).1, ((Literal.string_reads _).2 _ other).1]

theorem Likeness.piece_layout {bytes bytes' : List UInt8} {piece piece' : Except CompileError Token}
    (member : piece ∈ (TokenStream.ofBytes bytes).pieces)
    (member' : piece' ∈ (TokenStream.ofBytes bytes').pieces)
    (same : Token.shape? piece = Token.shape? piece') : Likeness.layout.Piece piece piece' := by
  cases piece with
  | ok token =>
      cases piece' with
      | ok token' =>
          obtain ⟨kind, text⟩ := Prod.mk.inj (Option.some.inj same)
          exact .token ⟨kind.symm, text.symm⟩
      | error => cases same
  | error error =>
      cases piece' with
      | ok => cases same
      | error error' =>
          exact .flaw ⟨TokenStream.lexical_of_mem_pieces member,
            TokenStream.lexical_of_mem_pieces member'⟩

namespace TokenStream

theorem isLike_of_shapes {bytes bytes' : List UInt8}
    (same : (ofBytes bytes).shapes = (ofBytes bytes').shapes) :
    (ofBytes bytes).IsLike Likeness.layout (ofBytes bytes') := by
  have pairs : List.Forall₂ Likeness.layout.Piece (ofBytes bytes).pieces (ofBytes bytes').pieces := by
    have lengths := congrArg List.length same
    rw [shapes, shapes, List.length_map, List.length_map] at lengths
    refine List.forall₂_iff_get.mpr ⟨lengths, fun index here there => ?_⟩
    refine Likeness.piece_layout (List.get_mem _ _) (List.get_mem _ _) ?_
    have shape := congrArg (·[index]?) same
    simpa [shapes, here, there] using shape
  refine isLike_of_pieces pairs fun last last' one other => ?_
  obtain ⟨rfl, -⟩ := (Lexer.laid_tokensFrom ⟨1, 0⟩ bytes).1 last one
  obtain ⟨rfl, -⟩ := (Lexer.laid_tokensFrom ⟨1, 0⟩ bytes').1 last' other
  exact ⟨rfl, rfl⟩

theorem isLike_self (stream : TokenStream) : stream.IsLike Likeness.identity stream := by
  refine isLike_of_pieces (List.forall₂_same.mpr fun piece _ => ?_) fun last last' one other => ?_
  · cases piece with
    | ok token => exact .token rfl
    | error error => exact .flaw rfl
  · exact Except.ok.inj (other.symm.trans one)

end TokenStream

/-! ## Compilations of both -/

/-- Both compilations give the same program, or fail for reasons of the same kind. -/
inductive SameEnd : Except CompileError Program → Except CompileError Program → Prop
  | program (program : Program) : SameEnd (.ok program) (.ok program)
  | failed {error error' : CompileError} : error'.complaint.kind = error.complaint.kind →
      SameEnd (.error error) (.error error')

theorem sameEnd_of_shapes {bytes bytes' : List UInt8}
    (same : (TokenStream.ofBytes bytes).shapes = (TokenStream.ofBytes bytes').shapes)
    (limits : CompileLimits) (isKnownGlobal : String → Bool) :
    SameEnd (compile bytes limits isKnownGlobal) (compile bytes' limits isKnownGlobal) := by
  let context : CompileContext := { limits, isKnownGlobal }
  let pair : Comparison :=
    { like := .layout, one := context, other := context, within := .refl limits
      known := fun _ known => known, lenient := False, strict := .inr rfl }
  have ends : pair.Ends (compile bytes limits isKnownGlobal) (compile bytes' limits isKnownGlobal) :=
    pair.ends_compile (TokenStream.isLike_of_shapes same)
  generalize compile bytes limits isKnownGlobal = one,
    compile bytes' limits isKnownGlobal = other at ends
  cases ends with
  | same program => exact .program program
  | failed errors => exact .failed errors.kind
  | adrift may => exact may.elim

/-- Looser limits and further globals change nothing about what has been compiled. -/
theorem compile_within {bytes : List UInt8} {limits limits' : CompileLimits}
    {isKnownGlobal isKnownGlobal' : String → Bool} {program : Program}
    (within : limits.Within limits')
    (known : ∀ name, isKnownGlobal name → isKnownGlobal' name)
    (compiled : compile bytes limits isKnownGlobal = .ok program) :
    compile bytes limits' isKnownGlobal' = .ok program := by
  let pair : Comparison :=
    { like := .identity, one := { limits, isKnownGlobal }
      other := { limits := limits', isKnownGlobal := isKnownGlobal' }
      within, known, lenient := True, strict := .inl trivial }
  have ends : pair.Ends (compile bytes limits isKnownGlobal) (compile bytes limits' isKnownGlobal') :=
    pair.ends_compile (TokenStream.isLike_self _)
  rw [compiled] at ends
  generalize compile bytes limits' isKnownGlobal' = other at ends
  cases ends
  rfl

/-- Neither layout nor limits influence the code. Texts with the same tokens, whatever blanks and
comments lie between them, are compiled to the same program under the same conditions, or fail there
with the same kind of error. What compiles is compiled to the same program under looser limits and
with more globals known. -/
theorem compile_ignores_layout_and_limits :
    (∀ (bytes bytes' : List UInt8) (limits : CompileLimits) (isKnownGlobal : String → Bool),
      (TokenStream.ofBytes bytes).shapes = (TokenStream.ofBytes bytes').shapes →
        SameEnd (compile bytes limits isKnownGlobal) (compile bytes' limits isKnownGlobal)) ∧
    ∀ (bytes : List UInt8) (limits limits' : CompileLimits)
      (isKnownGlobal isKnownGlobal' : String → Bool) (program : Program),
      limits.Within limits' → (∀ name, isKnownGlobal name → isKnownGlobal' name) →
        compile bytes limits isKnownGlobal = .ok program →
          compile bytes limits' isKnownGlobal' = .ok program :=
  ⟨fun _ _ limits isKnownGlobal same => sameEnd_of_shapes same limits isKnownGlobal,
    fun _ _ _ _ _ _ within known compiled => compile_within within known compiled⟩

/-- A function that assigns to its parameter. -/
def tightText : List UInt8 := "(def(x){x=x})".toUTF8.toList

/-- The same with blanks and comments. -/
def spacedText : List UInt8 := "(def (x) {x = x /**/}) // \n".toUTF8.toList

def tightProgram : Program where
  numbers := #[]
  strings := #[]
  functions :=
    #[⟨1, 0, 1, false, #[9, 1, 0, 17, 0, 0, 13, 16, 0, 0, 56]⟩,
      ⟨1, 1, 1, false, #[16, 0, 0, 17, 0, 0, 13, 57]⟩]

/-- The least limits that it is compiled under. -/
def tightLimits : CompileLimits := ⟨0, 4, 0⟩

theorem compile_ignores_layout_and_limits_tight :
    (TokenStream.ofBytes tightText).shapes = (TokenStream.ofBytes spacedText).shapes ∧
      SameEnd (compile tightText tightLimits (fun _ => false))
        (compile spacedText tightLimits (fun _ => false)) ∧
      compile tightText tightLimits (fun _ => false) = .ok tightProgram ∧
      compile tightText {} (fun _ => true) = .ok tightProgram := by
  have same : (TokenStream.ofBytes tightText).shapes =
      (TokenStream.ofBytes spacedText).shapes := by
    rw [TokenStream.ofBytes, TokenStream.ofBytes, @Lexer.tokensFrom_eq_within 14 _ _ _ (by cbv),
      @Lexer.tokensFrom_eq_within 28 _ _ spacedText (by cbv)]
    cbv
  have compiled : compile tightText tightLimits (fun _ => false) = .ok tightProgram := by
    rw [compile, TokenStream.ofBytes, @Lexer.tokensFrom_eq_within 14 _ _ _ (by cbv)]
    cbv
  have within : tightLimits.Within {} := ⟨by decide, by decide, by decide⟩
  exact ⟨same, compile_ignores_layout_and_limits.1 _ _ _ _ same, compiled,
    compile_ignores_layout_and_limits.2 _ _ _ _ _ _ within (fun _ known => by cases known) compiled⟩

end PocketScript
