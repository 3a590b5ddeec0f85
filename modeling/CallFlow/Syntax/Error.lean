import CallFlow.Source.Location
import CallFlow.Syntax.Token

/-!
# Errors in the source

Some errors end the reading of a module; others are recorded and the tree is kept. What is said
of each cause stands in one function.
-/

namespace CallFlow.Syntax

/-- What is wrong with a piece of source. -/
inductive Problem
  /-- A token stands where an operand is expected. -/
  | expressionExpected
  /-- The source ends where an expression, a statement or a parameter is expected. -/
  | unexpectedEnd
  /-- A token stands where a name or a pattern is to be bound. -/
  | bindingExpected (found : String)
  | nameExpected
  /-- A statement does not end where it should. -/
  | statementEnd
  | expected (wanted found : String)
  | lineEndAfterThrow
  | lexical (error : LexicalError)
  /-- A construct that is not allowed as it stands. -/
  | notAllowed (construct : String)
  /-- The reader of the source gave up; it never does within the limits that are set for it. -/
  | tooDeep
  | returnOutsideFunction
  | uninitializedConst
  | withStatement
  | breakOutside
  | continueOutside
  | unknownLabel
  | unclosed (wanted : String)
  | semicolonMissing
  | trailingComma
  | handlerMissing
deriving DecidableEq, Repr, Inhabited

def LexicalError.message : LexicalError → String
  | .unexpectedCharacter => "Unexpected character"
  | .unterminatedComment => "Unterminated block comment"
  | .unterminatedString => "Unterminated string constant"
  | .unterminatedTemplate => "Unterminated template"
  | .unterminatedRegex => "Unterminated regexp literal"
  | .malformedEscape => "Bad character escape sequence"
  | .malformedNumber => "Identifier cannot follow number"
  | .malformedName => "Invalid unicode escape"

def Problem.message : Problem → String
  | .expressionExpected => "Expression expected"
  | .unexpectedEnd => "Unexpected eof"
  | .bindingExpected found =>
    "Unexpected token `" ++ found ++ "`. Expected yield, an identifier, [ or \x7b"
  | .nameExpected => "Expected ident"
  | .statementEnd => "Expected ';', '\x7d' or <eof>"
  | .expected wanted found => "Expected '" ++ wanted ++ "', got '" ++ found ++ "'"
  | .lineEndAfterThrow => "LineBreak cannot follow 'throw'"
  | .lexical error => error.message
  | .notAllowed construct => construct ++ " is not allowed here"
  | .tooDeep => "The source is nested too deeply"
  | .returnOutsideFunction => "Return statement is not allowed here"
  | .uninitializedConst => "'const' declarations must be initialized"
  | .withStatement => "With statement are not allowed in strict mode"
  | .breakOutside =>
    "A 'break' statement can only be used within an enclosing iteration or switch statement"
  | .continueOutside =>
    "A 'continue' statement can only jump to a label of an enclosing iteration statement"
  | .unknownLabel =>
    "A 'break' statement can only jump to a label of an enclosing statement"
  | .unclosed wanted => "Expected '" ++ wanted ++ "', got '<eof>'"
  | .semicolonMissing => "Expected a semicolon"
  | .trailingComma => "Trailing comma is not allowed"
  | .handlerMissing => "Expected a handler"

/-- A problem and the piece of source that has it. -/
structure SyntaxError where
  problem : Problem
  span : Span
deriving DecidableEq, Repr, Inhabited

end CallFlow.Syntax
