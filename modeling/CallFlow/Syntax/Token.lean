import CallFlow.Decimal.Binary64
import CallFlow.Syntax.Char

/-!
# Tokens

The words, literals and punctuators of the source. Whether a `/` divides or begins a regular
expression is for the grammar to say, so it is a punctuator here.
-/

namespace CallFlow.Syntax

/-- Why a piece of source is not a token. -/
inductive LexicalError
  | unexpectedCharacter
  | unterminatedComment
  | unterminatedString
  | unterminatedTemplate
  | unterminatedRegex
  | malformedEscape
  | malformedNumber
  | malformedName
deriving DecidableEq, Repr, Inhabited

inductive Token
  /-- The end of the source. -/
  | eof
  /-- A name or a keyword. A word that is written with an escape is no keyword. -/
  | word (name : String) (escaped : Bool)
  /-- A name with `#` before it, which `name` holds too. -/
  | privateName (name : String)
  | string (value : String)
  | number (value : Decimal)
  | bigint
  | punct (text : String)
  | invalid (error : LexicalError)
deriving DecidableEq, Repr, Inhabited

/-- Words that are never names. -/
def keywords : List String :=
  ["break", "case", "catch", "class", "const", "continue", "debugger", "default", "delete", "do",
    "else", "export", "extends", "false", "finally", "for", "function", "if", "import", "in",
    "instanceof", "new", "null", "return", "super", "switch", "this", "throw", "true", "try",
    "typeof", "var", "void", "while", "with"]

/-- Words that are names only outside modules. -/
def moduleKeywords : List String :=
  ["await", "enum", "implements", "interface", "package", "private", "protected", "public", "yield"]

/-- The punctuators, longer ones before those that they begin with. -/
def punctuators : List String :=
  [">>>=", "...", "===", "!==", "**=", "<<=", ">>=", ">>>", "&&=", "||=", "??=", "=>", "==", "!=",
    "<=", ">=", "&&", "||", "??", "?.", "++", "--", "+=", "-=", "*=", "/=", "%=", "&=", "|=", "^=",
    "<<", ">>", "**", "\x7b", "\x7d", "(", ")", "[", "]", ";", ",", "<", ">", "+", "-", "*", "/",
    "%", "&", "|", "^", "!", "~", "?", ":", "=", "@", ".", "#", "`"]

namespace Token

/-- Whether this is a given word, written without escapes. -/
def isWord (name : String) : Token → Bool
  | .word n escaped => n = name && !escaped
  | _ => false

def isPunct (text : String) : Token → Bool
  | .punct t => t = text
  | _ => false

/-- The name of a word that may be used as a name in a module. -/
def identifier? : Token → Option String
  | .word name _ => if name ∈ keywords || name ∈ moduleKeywords then none else some name
  | _ => none

/-- The name of any word. -/
def word? : Token → Option String
  | .word name _ => some name
  | _ => none

end Token

end CallFlow.Syntax
