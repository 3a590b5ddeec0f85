/-!
# Terminal styles

A styled text stands between the escape sequence of its style and the one that ends all styles.
Where such an end occurs inside the text, the style is taken up again behind it.
-/

namespace CallFlow.Report

inductive Style
  | bold
  | dimmed
  | cyan
  | green
  | yellow
  | boldGreen
  | boldYellow
deriving DecidableEq, Repr, Inhabited

/-- The parameters of the escape sequence. -/
def Style.code : Style → String
  | .bold => "1"
  | .dimmed => "2"
  | .cyan => "36"
  | .green => "32"
  | .yellow => "33"
  | .boldGreen => "1;32"
  | .boldYellow => "1;33"

/-- The escape sequence with the given parameters. -/
def escapeSequence (code : String) : List Char :=
  '\x1b' :: '[' :: code.toList ++ ['m']

/-- Takes a style up again behind every end of all styles. -/
def resume (style : List Char) : List Char → List Char
  | '\x1b' :: '[' :: '0' :: 'm' :: rest => escapeSequence "0" ++ style ++ resume style rest
  | c :: rest => c :: resume style rest
  | [] => []

/-- A text in a style, or as it is where there are no colors. -/
def styled (colored : Bool) (style : Style) (text : String) : String :=
  if colored then
    let opening := escapeSequence style.code
    String.ofList (opening ++ resume opening text.toList ++ escapeSequence "0")
  else text

end CallFlow.Report
