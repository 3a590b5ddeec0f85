import CallFlow.Syntax.Grammar.Functions

/-!
# Markup

Elements with attributes and children. The text between tags is not made of tokens, so an element
is read up to the `>` that ends it, which is left at hand: whoever reads the element knows whether
text or a token comes next.
-/

namespace CallFlow.Syntax.Parse

/-- Reads a piece of a tag or attribute name at hand. -/
def markupWord : Parse String := do
  let (name, r) := (← get).here.markupName
  if name = [] then fail .nameExpected
  else
    continueAt r
    return String.ofList name

/-- Reads the name of a tag: a word, a path or a word in a namespace. -/
def tagName : Parse String := do
  let first ← markupWord
  iterate
    (fun name => do
      if ← eatPunct "." then return some (name ++ "." ++ (← markupWord))
      else if ← eatPunct ":" then return some (name ++ ":" ++ (← markupWord))
      else return none) first

/-- Fails unless a given character is at hand. -/
def atChar (c : Char) : Parse Unit := do
  unless (← get).here.rest.head? = some c do
    fail (.expected (String.singleton c) (← found))

/-- Reads an element inside another one, or as the value of an attribute, up to behind its `>`. -/
def wholeElement (g : Grammar) : Parse Expr := do
  let e ← g.element
  continueAt ((← get).here.drop 1)
  return e

/-- Reads the value of an attribute. -/
def attributeValue (g : Grammar) : Parse (Option Attribute) := do
  match (← get).here.rest with
  | c :: _ =>
    if c = '"' || c = '\x27' then
      match Reader.markupString? c ((← get).here.drop 1) with
      | some r =>
        continueAt r
        return none
      | none => fail (.lexical .unterminatedString)
    else if c = '\x7b' then
      next
      if ← eatPunct "\x7d" then return none
      else
        let e ← g.expr
        expectPunct "\x7d"
        return some (.value e)
    else if c = '<' then
      match ← wholeElement g with
      | .element [] children => return some (.fragment children)
      | e => return some (.value e)
    else fail .expressionExpected
  | [] => fail .unexpectedEnd

/-- Reads an attribute; one without an expression is dropped. -/
def tagAttribute (g : Grammar) : Parse (Option Attribute) := do
  if ← eatPunct "\x7b" then
    expectPunct "..."
    let e ← g.assignment
    expectPunct "\x7d"
    return some (.value e)
  else
    let _ ← tagName
    if ← eatPunct "=" then attributeValue g else return none

/-- Reads what stands in braces between tags, behind the opening brace. -/
def embedded (g : Grammar) : Parse (List Expr) := do
  if ← isPunct "\x7d" then return []
  else
    let _ ← eatPunct "..."
    return [← g.expr]

/-- Reads the children of an element from `r` up to the closing tag, whose `>` is left at hand.
Returns the name in the closing tag. -/
def children (g : Grammar) (r : Reader) : Parse (List Expr × Option String) := do
  let (read, _, name) ← iterate
    (fun (read, r, name) => do
      match r with
      | none => return none
      | some (r : Reader) =>
        let r := r.markupText
        match r.rest with
        | '\x7b' :: _ =>
          continueAt r
          next
          let e ← embedded g
          atChar '\x7d'
          return some (e.reverse ++ read, some ((← get).here.drop 1), name)
        | '<' :: _ =>
          continueAt (r.drop 1)
          if ← eatFirst '/' then
            let name ← (do
              if ← isPunct ">" then return none
              else if (← get).here.rest.head? = some '>' then return none
              else return some (← tagName))
            atChar '>'
            return some (read, none, name)
          else
            continueAt r
            let e ← g.element
            return some (e :: read, some ((← get).here.drop 1), name)
        | _ =>
          continueAt r
          fail .unexpectedEnd) ([], some r, none)
  return (read.reverse, name)

/-- Reads an element or a fragment from its `<` up to its last `>`, which is left at hand. -/
def elementBody (g : Grammar) : Parse Expr := do
  continueAt ((← get).here.drop 1)
  if (← get).here.rest.head? = some '>' then
    let (children, name) ← children g ((← get).here.drop 1)
    if name = none then return .element [] children
    else fail (.notAllowed "A closing tag of another name")
  else
    let opening ← tagName
    if ← isTyped then
      if ← isPunct "<" then typeArgs g
    let attributes ← many
      (do return (← isEof) || (← isPunct "/") || (← get).here.rest.head? = some '>')
      (tagAttribute g)
    if ← eatFirst '/' then
      atChar '>'
      return .element (attributes.filterMap id) []
    else
      atChar '>'
      let (children, name) ← children g ((← get).here.drop 1)
      if name = some opening then return .element (attributes.filterMap id) children
      else fail (.notAllowed "A closing tag of another name")

end CallFlow.Syntax.Parse
