import CallFlow.FileFlow.Visit
import Mathlib.Logic.Relation

/-!
# What a module holds

A piece of syntax is of any of the types of a tree. `Piece.parts` lists the pieces directly inside
one; what a module holds is what can be reached from its items by them. Calls are told by their
shape, which is what a walk registers of them.
-/

namespace CallFlow.Syntax

/-- A piece of syntax. -/
inductive Piece
  | expr (e : Expr)
  | key (k : Key)
  | property (p : Property)
  | attr (a : Attribute)
  | func (f : Func)
  | body (b : Body)
  | param (p : Param)
  | «class» (c : Class)
  | member (m : Member)
  | pattern (p : Pattern)
  | field (f : PatternField)
  | decl (d : Decl)
  | declarator (d : Declarator)
  | stmt (s : Stmt)
  | head (h : LoopHead)
  | «case» (c : Case)

namespace Piece

/-- The pieces directly inside a piece. -/
def parts : Piece → List Piece
  | expr e =>
    match e with
    | .ident _ | .this | .string _ | .literal => []
    | .function _ f | .arrow f => [func f]
    | .class _ c => [.class c]
    | .call _ _ callee args | .construct _ callee args => expr callee :: args.map expr
    | .tagged _ tag substitutions => expr tag :: substitutions.map expr
    | .member _ object k => [expr object, key k]
    | .superMember k => [key k]
    | .assign _ target value => [pattern target, expr value]
    | .logical _ left right => [expr left, expr right]
    | .conditional _ test consequent alternate => [expr test, expr consequent, expr alternate]
    | .paren inner | .await inner | .typed inner | .spread inner => [expr inner]
    | .sequence operands | .array operands | .untracked operands => operands.map expr
    | .object properties => properties.map property
    | .element attributes children => attributes.map attr ++ children.map expr
  | key k =>
    match k with
    | .computed e => [expr e]
    | .named _ | .privateName _ | .untracked => []
  | property p =>
    match p with
    | .keyValue k value => [key k, expr value]
    | .shorthand _ => []
    | .shorthandDefault _ value => [expr value]
    | .method k f => [key k, func f]
    | .spread e => [expr e]
  | attr a =>
    match a with
    | .value e => [expr e]
    | .fragment children => children.map expr
  | func (.mk params b _) => body b :: params.map param
  | body b =>
    match b with
    | .block stmts => stmts.map stmt
    | .expr result => [expr result]
    | .absent => []
  | param p =>
    match p with
    | .pattern decorators p => pattern p :: decorators.map expr
    | .property decorators _ default => decorators.map expr ++ default.toList.map expr
    | .propertyPattern decorators p default => pattern p :: expr default :: decorators.map expr
  | .class (.mk decorators heritage members) =>
    decorators.map expr ++ heritage.toList.map expr ++ members.map member
  | member m =>
    match m with
    | .constructor f => [func f]
    | .method decorators k f => [key k, func f] ++ decorators.map expr
    | .field decorators k value => key k :: value.toList.map expr ++ decorators.map expr
    | .staticBlock stmts => stmts.map stmt
  | pattern p =>
    match p with
    | .ident _ => []
    | .array elements => elements.map pattern
    | .object fields => fields.map field
    | .rest inner => [pattern inner]
    | .withDefault inner value => [pattern inner, expr value]
    | .expr target => [expr target]
  | field f =>
    match f with
    | .keyValue k value => [key k, pattern value]
    | .shorthand _ default => default.toList.map expr
    | .rest inner => [pattern inner]
  | decl d =>
    match d with
    | .function _ f => [func f]
    | .class _ c => [.class c]
    | .vars _ declarators | .using declarators => declarators.map declarator
    | .inert => []
  | declarator (.mk target init) => pattern target :: init.toList.map expr
  | stmt s =>
    match s with
    | .decl d => [decl d]
    | .expr e | .throw e => [expr e]
    | .block stmts => stmts.map stmt
    | .ret value => value.toList.map expr
    | .cond test consequent alternate => expr test :: stmt consequent :: alternate.toList.map stmt
    | .for h test update b => head h :: stmt b :: (test.toList.map expr ++ update.toList.map expr)
    | .forEach h iterated b => [head h, expr iterated, stmt b]
    | .while test b | .doWhile b test | .with test b => [expr test, stmt b]
    | .labeled b => [stmt b]
    | .switch subject cases => expr subject :: cases.map .case
    | .try b p handler finalizer =>
      stmt b :: (p.toList.map pattern ++ handler.toList.map stmt ++ finalizer.toList.map stmt)
    | .inert => []
  | head h =>
    match h with
    | .absent => []
    | .decl d => [decl d]
    | .expr e => [expr e]
    | .pattern p => [pattern p]
  | .case (.mk test b) => test.toList.map expr ++ b.map stmt

end Piece

/-- The pieces of an item of a module. -/
def ModuleItem.parts : ModuleItem → List Piece
  | .stmt s => [.stmt s]
  | .exportDecl d => [.decl d]
  | .exportDefaultFunction _ f => [.func f]
  | .exportDefaultClass _ c => [.class c]
  | .exportDefaultExpr e | .exportAssignment e => [.expr e]
  | .importNames _ _ | .importEquals _ _ | .exportNames _ _ | .inert => []

/-- The piece occurs somewhere in the module. -/
def Module.Holds (m : Module) (piece : Piece) : Prop :=
  ∃ item ∈ m.items, ∃ top ∈ item.parts, Relation.ReflTransGen (fun a b => b ∈ a.parts) top piece

theorem Module.holds_item {m : Module} {item : ModuleItem} (hitem : item ∈ m.items) {piece : Piece}
    (h : piece ∈ item.parts) : m.Holds piece :=
  ⟨item, hitem, piece, h, .refl⟩

theorem Module.Holds.part {m : Module} {outer inner : Piece} (h : m.Holds outer)
    (hinner : inner ∈ outer.parts) : m.Holds inner := by
  obtain ⟨item, hitem, top, htop, hreach⟩ := h
  exact ⟨item, hitem, top, htop, hreach.tail hinner⟩

/-! ## Functions -/

namespace Param

/-- The name of a parameter that is no more than a name, or is also a field of this name. -/
def plainName? : Param → Option String
  | .pattern _ (.ident name) | .property _ name _ => some name
  | .pattern _ _ | .propertyPattern _ _ _ => none

theorem isSlotted_of_plainName? {p : Param} {name : String} (h : p.plainName? = some name) :
    p.isSlotted = true := by
  cases p with
  | pattern _ _ | property _ _ _ => rfl
  | propertyPattern _ _ _ => cases h

end Param

namespace Func

/-- The parameters of a function. -/
def params : Func → List Param
  | .mk params _ _ => params

/-- The body of a function. -/
def body : Func → Body
  | .mk _ body _ => body

/-- Where a function is written. -/
def span : Func → Span
  | .mk _ _ span => span

/-- The slot of the parameter at this index, behind those of the parameters before it. -/
def slot (func : Func) (i : Nat) : Nat := 1 + (func.params.take i).countP Param.isSlotted

end Func

/-! ## Calls -/

/-- What is registered of a call: its kind and range, its argument expressions, and the slot of
the first of them. The template that a tag is called with takes slot 1. -/
structure CallShape where
  kind : CallKind
  span : Span
  first : Nat
  args : List Expr

namespace CallShape

/-- The number of arguments, the template included. -/
def argCount (shape : CallShape) : Nat := shape.args.length + (shape.first - 1)

end CallShape

/-- The shape of an expression that is a call. -/
def Expr.callShape? : Expr → Option CallShape
  | .call _ span _ args => some ⟨.call, span, 1, args⟩
  | .construct span _ args => some ⟨.construct, span, 1, args⟩
  | .tagged span _ substitutions => some ⟨.call, span, 2, substitutions⟩
  | _ => none

/-- What is called by an expression that is a call. -/
def Expr.called? : Expr → Option Expr
  | .call _ _ callee _ | .construct _ callee _ | .tagged _ callee _ => some callee
  | _ => none

/-- Slot 0 is that of the receiver. -/
theorem Expr.first_pos {e : Expr} {shape : CallShape} (h : e.callShape? = some shape) :
    0 < shape.first := by
  unfold callShape? at h
  split at h
  · exact Option.some.inj h ▸ Nat.one_pos
  · exact Option.some.inj h ▸ Nat.one_pos
  · exact Option.some.inj h ▸ Nat.two_pos
  · cases h

/-- The argument expressions take the last slots of a call. -/
theorem Expr.first_add_length {e : Expr} {shape : CallShape} (h : e.callShape? = some shape) :
    shape.first + shape.args.length = shape.argCount + 1 := by
  have hpos := first_pos h
  rw [CallShape.argCount]
  omega

theorem Expr.exists_called {e : Expr} {shape : CallShape} (h : e.callShape? = some shape) :
    ∃ callee, e.called? = some callee := by
  cases e with
  | call _ _ callee _ | construct _ callee _ | tagged _ callee _ => exact ⟨callee, rfl⟩
  | _ => cases h

/-- What is called is a part of the call. -/
theorem Expr.called_mem_parts {e callee : Expr} (h : e.called? = some callee) :
    .expr callee ∈ (Piece.expr e).parts := by
  cases e with
  | call _ _ _ _ | construct _ _ _ | tagged _ _ _ =>
    obtain rfl := Option.some.inj h
    exact List.mem_cons_self
  | _ => cases h

/-- So is each argument. -/
theorem Expr.arg_mem_parts {e a : Expr} {shape : CallShape} (h : e.callShape? = some shape)
    (ha : a ∈ shape.args) : .expr a ∈ (Piece.expr e).parts := by
  cases e with
  | call _ _ _ _ | construct _ _ _ | tagged _ _ _ =>
    rw [← Option.some.inj h] at ha
    exact List.mem_cons_of_mem _ (List.mem_map_of_mem ha)
  | _ => cases h

end CallFlow.Syntax
