import CallFlow.Proofs.Registration.Sites
import Mathlib.Logic.Basic

/-!
# Expansions of logical assignments

`t ||= e` stands for `t || (t = e)`, and so do `&&=` and `??=` for their operators. `contract` takes
expansions back: where a module has an expansion of a target at a range of one's choice, it puts the
logical assignment. All other ranges are moved by a map of one's choice.
-/

namespace CallFlow.Syntax

/-- A target of which logical assignments are expanded: a name, or a property of a name or, if there
is no owner, of `this`. -/
inductive Target
  | name (name : String)
  | property (owner : Option String) (key : String)
  | privateProperty (owner : Option String) (key : String)
deriving DecidableEq, Repr

namespace Target

/-- The object whose property a target is: a name, or `this`. -/
def ownerExpr : Option String → Expr
  | some owner => .ident owner
  | none => .this

/-- The target as it is read. -/
def expr : Target → Expr
  | name x => .ident x
  | property owner key => .member false (ownerExpr owner) (.named key)
  | privateProperty owner key => .member false (ownerExpr owner) (.privateName key)

/-- The target as it is assigned to. -/
def pattern : Target → Pattern
  | name x => .ident x
  | property owner key => .expr (property owner key).expr
  | privateProperty owner key => .expr (privateProperty owner key).expr

/-- Whether an expression is this object. -/
def isOwner : Option String → Expr → Bool
  | some owner, .ident x => owner = x
  | none, .this => true
  | _, _ => false

/-- Whether an expression reads the target. -/
def isExpr : Target → Expr → Bool
  | name x, .ident y => x = y
  | property owner key, .member false o (.named k)
  | privateProperty owner key, .member false o (.privateName k) => isOwner owner o && key = k
  | _, _ => false

/-- Whether a pattern stores to the target. -/
def isPattern : Target → Pattern → Bool
  | name x, .ident y => x = y
  | property owner key, .expr e => (property owner key).isExpr e
  | privateProperty owner key, .expr e => (privateProperty owner key).isExpr e
  | _, _ => false

/-- An expression that is the object is written as such. -/
theorem eq_of_isOwner {owner : Option String} {e : Expr} (h : isOwner owner e = true) :
    e = ownerExpr owner := by
  unfold isOwner at h
  split at h
  · rw [ownerExpr, of_decide_eq_true h]
  · rfl
  · cases h

/-- An expression that reads the target is written as such. -/
theorem eq_of_isExpr {t : Target} {e : Expr} (h : t.isExpr e = true) : e = t.expr := by
  unfold isExpr at h
  split at h
  · rw [expr, of_decide_eq_true h]
  · rw [Bool.and_eq_true, decide_eq_true_eq] at h
    rw [expr, ← eq_of_isOwner h.1, h.2]
  · rw [Bool.and_eq_true, decide_eq_true_eq] at h
    rw [expr, ← eq_of_isOwner h.1, h.2]
  · cases h

/-- A pattern that stores to the target is written as such. -/
theorem eq_of_isPattern {t : Target} {p : Pattern} (h : t.isPattern p = true) : p = t.pattern := by
  unfold isPattern at h
  split at h
  · rw [pattern, of_decide_eq_true h]
  · rw [pattern, eq_of_isExpr h]
  · rw [pattern, eq_of_isExpr h]
  · cases h

end Target

/-- Whether the operands are those of an expansion with this target. -/
def isExpansion : Option Target → Expr → Expr → Bool
  | some t, left, .paren (.assign .plain p _) => t.isExpr left && t.isPattern p
  | _, _, _ => false

/-- An expansion reads its target and assigns to it in parentheses. -/
theorem exists_of_isExpansion {target : Option Target} {left right : Expr}
    (h : isExpansion target left right = true) :
    ∃ t value, target = some t ∧ left = t.expr ∧
      right = .paren (.assign .plain t.pattern value) := by
  unfold isExpansion at h
  split at h
  · rw [Bool.and_eq_true] at h
    exact ⟨_, _, rfl, Target.eq_of_isExpr h.1, by rw [Target.eq_of_isPattern h.2]⟩
  · cases h

/-- The logical assignment of what is assigned in parentheses. -/
def Expr.asLogicalAssign : Expr → Expr
  | .paren (.assign .plain target value) => .assign .logical target value
  | e => e

/-- Which expansions of a file are contracted, by their ranges, with their targets, and where all
ranges go. -/
structure Contraction where
  target : Span → Option Target
  move : Span → Span

mutual

/-- An expression with its expansions contracted. -/
def Expr.contract (κ : Contraction) : Expr → Expr
  | .ident name => .ident name
  | .this => .this
  | .string value => .string value
  | .literal => .literal
  | .function name f => .function name (f.contract κ)
  | .arrow f => .arrow (f.contract κ)
  | .class name c => .class name (c.contract κ)
  | .call chained span callee args =>
    .call chained (κ.move span) (callee.contract κ) (Expr.contractAll κ args)
  | .construct span callee args =>
    .construct (κ.move span) (callee.contract κ) (Expr.contractAll κ args)
  | .tagged span tag substitutions =>
    .tagged (κ.move span) (tag.contract κ) (Expr.contractAll κ substitutions)
  | .member chained object key => .member chained (object.contract κ) (key.contract κ)
  | .superMember key => .superMember (key.contract κ)
  | .assign op target value => .assign op (target.contract κ) (value.contract κ)
  | .logical span left right =>
    if isExpansion (κ.target span) left right then (right.contract κ).asLogicalAssign
    else .logical (κ.move span) (left.contract κ) (right.contract κ)
  | .conditional span test consequent alternate =>
    .conditional (κ.move span) (test.contract κ) (consequent.contract κ) (alternate.contract κ)
  | .sequence exprs => .sequence (Expr.contractAll κ exprs)
  | .paren inner => .paren (inner.contract κ)
  | .await inner => .await (inner.contract κ)
  | .typed inner => .typed (inner.contract κ)
  | .array elements => .array (Expr.contractAll κ elements)
  | .spread inner => .spread (inner.contract κ)
  | .untracked operands => .untracked (Expr.contractAll κ operands)
  | .object properties => .object (Property.contractAll κ properties)
  | .element attributes children =>
    .element (Attribute.contractAll κ attributes) (Expr.contractAll κ children)

/-- Expressions with their expansions contracted, one by one. -/
def Expr.contractAll (κ : Contraction) : List Expr → List Expr
  | [] => []
  | e :: rest => e.contract κ :: Expr.contractAll κ rest

/-- A contracted expression that may be left out. -/
def Expr.contractOption (κ : Contraction) : Option Expr → Option Expr
  | none => none
  | some e => some (e.contract κ)

/-- A key. Only a computed one has anything to contract. -/
def Key.contract (κ : Contraction) : Key → Key
  | .named name => .named name
  | .privateName name => .privateName name
  | .computed e => .computed (e.contract κ)
  | .untracked => .untracked

/-- A property of an object literal. Its key and its value are contracted. -/
def Property.contract (κ : Contraction) : Property → Property
  | .keyValue key value => .keyValue (key.contract κ) (value.contract κ)
  | .shorthand name => .shorthand name
  | .shorthandDefault name value => .shorthandDefault name (value.contract κ)
  | .method key f => .method (key.contract κ) (f.contract κ)
  | .spread e => .spread (e.contract κ)

/-- The properties of an object literal, contracted. -/
def Property.contractAll (κ : Contraction) : List Property → List Property
  | [] => []
  | p :: rest => p.contract κ :: Property.contractAll κ rest

/-- Attributes, contracted. -/
def Attribute.contractAll (κ : Contraction) : List Attribute → List Attribute
  | [] => []
  | .value e :: rest => .value (e.contract κ) :: Attribute.contractAll κ rest
  | .fragment children :: rest =>
    .fragment (Expr.contractAll κ children) :: Attribute.contractAll κ rest

/-- A pattern. Expansions in it are contracted, also those in defaults. -/
def Pattern.contract (κ : Contraction) : Pattern → Pattern
  | .ident name => .ident name
  | .array elements => .array (Pattern.contractAll κ elements)
  | .object fields => .object (PatternField.contractAll κ fields)
  | .rest inner => .rest (inner.contract κ)
  | .withDefault inner value => .withDefault (inner.contract κ) (value.contract κ)
  | .expr target => .expr (target.contract κ)

/-- The elements of an array pattern, contracted. -/
def Pattern.contractAll (κ : Contraction) : List Pattern → List Pattern
  | [] => []
  | p :: rest => p.contract κ :: Pattern.contractAll κ rest

/-- A contracted pattern that may be left out. -/
def Pattern.contractOption (κ : Contraction) : Option Pattern → Option Pattern
  | none => none
  | some p => some (p.contract κ)

/-- A field of an object pattern, contracted. -/
def PatternField.contract (κ : Contraction) : PatternField → PatternField
  | .keyValue key value => .keyValue (key.contract κ) (value.contract κ)
  | .shorthand name default => .shorthand name (Expr.contractOption κ default)
  | .rest inner => .rest (inner.contract κ)

/-- The fields of an object pattern, contracted. -/
def PatternField.contractAll (κ : Contraction) : List PatternField → List PatternField
  | [] => []
  | f :: rest => f.contract κ :: PatternField.contractAll κ rest

/-- A contracted function, at its moved range. -/
def Func.contract (κ : Contraction) : Func → Func
  | .mk params body span => .mk (Param.contractAll κ params) (body.contract κ) (κ.move span)

/-- A parameter, contracted. -/
def Param.contract (κ : Contraction) : Param → Param
  | .pattern decorators p => .pattern (Expr.contractAll κ decorators) (p.contract κ)
  | .property decorators name default =>
    .property (Expr.contractAll κ decorators) name (Expr.contractOption κ default)
  | .propertyPattern decorators p default =>
    .propertyPattern (Expr.contractAll κ decorators) (p.contract κ) (default.contract κ)

/-- The parameters of a function, contracted. -/
def Param.contractAll (κ : Contraction) : List Param → List Param
  | [] => []
  | p :: rest => p.contract κ :: Param.contractAll κ rest

/-- A contracted body. -/
def Body.contract (κ : Contraction) : Body → Body
  | .block stmts => .block (Stmt.contractAll κ stmts)
  | .expr result => .expr (result.contract κ)
  | .absent => .absent

/-- A class, contracted. -/
def Class.contract (κ : Contraction) : Class → Class
  | .mk decorators heritage members =>
    .mk (Expr.contractAll κ decorators) (Expr.contractOption κ heritage)
      (Member.contractAll κ members)

/-- A member of a class, contracted. -/
def Member.contract (κ : Contraction) : Member → Member
  | .constructor f => .constructor (f.contract κ)
  | .method decorators key f =>
    .method (Expr.contractAll κ decorators) (key.contract κ) (f.contract κ)
  | .field decorators key value =>
    .field (Expr.contractAll κ decorators) (key.contract κ) (Expr.contractOption κ value)
  | .staticBlock stmts => .staticBlock (Stmt.contractAll κ stmts)

/-- The members of a class, contracted. -/
def Member.contractAll (κ : Contraction) : List Member → List Member
  | [] => []
  | m :: rest => m.contract κ :: Member.contractAll κ rest

/-- A declaration, contracted. -/
def Decl.contract (κ : Contraction) : Decl → Decl
  | .function name f => .function name (f.contract κ)
  | .class name c => .class name (c.contract κ)
  | .vars kind declarators => .vars kind (Declarator.contractAll κ declarators)
  | .using declarators => .using (Declarator.contractAll κ declarators)
  | .inert => .inert

/-- Declarators, contracted. -/
def Declarator.contractAll (κ : Contraction) : List Declarator → List Declarator
  | [] => []
  | .mk target init :: rest =>
    .mk (target.contract κ) (Expr.contractOption κ init) :: Declarator.contractAll κ rest

/-- A statement, contracted. -/
def Stmt.contract (κ : Contraction) : Stmt → Stmt
  | .decl d => .decl (d.contract κ)
  | .expr e => .expr (e.contract κ)
  | .block stmts => .block (Stmt.contractAll κ stmts)
  | .ret value => .ret (Expr.contractOption κ value)
  | .cond test consequent alternate =>
    .cond (test.contract κ) (consequent.contract κ) (Stmt.contractOption κ alternate)
  | .for head test update body =>
    .for (head.contract κ) (Expr.contractOption κ test) (Expr.contractOption κ update)
      (body.contract κ)
  | .forEach head iterated body =>
    .forEach (head.contract κ) (iterated.contract κ) (body.contract κ)
  | .while test body => .while (test.contract κ) (body.contract κ)
  | .doWhile body test => .doWhile (body.contract κ) (test.contract κ)
  | .labeled body => .labeled (body.contract κ)
  | .switch subject cases => .switch (subject.contract κ) (Case.contractAll κ cases)
  | .throw value => .throw (value.contract κ)
  | .try body param handler finalizer =>
    .try (body.contract κ) (Pattern.contractOption κ param) (Stmt.contractOption κ handler)
      (Stmt.contractOption κ finalizer)
  | .with object body => .with (object.contract κ) (body.contract κ)
  | .inert => .inert

/-- A contracted statement that may be left out. -/
def Stmt.contractOption (κ : Contraction) : Option Stmt → Option Stmt
  | none => none
  | some s => some (s.contract κ)

/-- Statements, contracted. -/
def Stmt.contractAll (κ : Contraction) : List Stmt → List Stmt
  | [] => []
  | s :: rest => s.contract κ :: Stmt.contractAll κ rest

/-- The first part of a loop, contracted. -/
def LoopHead.contract (κ : Contraction) : LoopHead → LoopHead
  | .absent => .absent
  | .decl d => .decl (d.contract κ)
  | .expr e => .expr (e.contract κ)
  | .pattern p => .pattern (p.contract κ)

/-- The cases of a switch, contracted. -/
def Case.contractAll (κ : Contraction) : List Case → List Case
  | [] => []
  | .mk test body :: rest =>
    .mk (Expr.contractOption κ test) (Stmt.contractAll κ body) :: Case.contractAll κ rest

end

/-- A contracted item of a module. Ranges of names that are passed on are moved. -/
def ModuleItem.contract (κ : Contraction) : ModuleItem → ModuleItem
  | .stmt s => .stmt (s.contract κ)
  | .importNames source specifiers => .importNames source specifiers
  | .importEquals name source => .importEquals name source
  | .exportDecl d => .exportDecl (d.contract κ)
  | .exportDefaultFunction name f => .exportDefaultFunction name (f.contract κ)
  | .exportDefaultClass name c => .exportDefaultClass name (c.contract κ)
  | .exportDefaultExpr e => .exportDefaultExpr (e.contract κ)
  | .exportAssignment e => .exportAssignment (e.contract κ)
  | .exportNames source specifiers =>
    .exportNames source (specifiers.map fun s => { s with span := κ.move s.span })
  | .inert => .inert

/-- A module with its expansions contracted and its ranges moved. -/
def Module.contract (κ : Contraction) (m : Module) : Module := ⟨m.items.map (ModuleItem.contract κ)⟩

/-! ## What is declared stays -/

mutual

theorem Pattern.names_contract (κ : Contraction) : ∀ p : Pattern, (p.contract κ).names = p.names
  | .ident _ | .expr _ => rfl
  | .array elements => Pattern.namesAll_contract κ elements
  | .object fields => PatternField.namesAll_contract κ fields
  | .rest inner | .withDefault inner _ => inner.names_contract κ

theorem Pattern.namesAll_contract (κ : Contraction) :
    ∀ ps : List Pattern, Pattern.namesAll (Pattern.contractAll κ ps) = Pattern.namesAll ps
  | [] => rfl
  | p :: rest => congrArg₂ (· ++ ·) (p.names_contract κ) (Pattern.namesAll_contract κ rest)

theorem PatternField.names_contract (κ : Contraction) :
    ∀ f : PatternField, (f.contract κ).names = f.names
  | .keyValue _ value => value.names_contract κ
  | .shorthand _ _ => rfl
  | .rest inner => inner.names_contract κ

theorem PatternField.namesAll_contract (κ : Contraction) : ∀ fs : List PatternField,
    PatternField.namesAll (PatternField.contractAll κ fs) = PatternField.namesAll fs
  | [] => rfl
  | f :: rest => congrArg₂ (· ++ ·) (f.names_contract κ) (PatternField.namesAll_contract κ rest)

end

theorem Param.names_contract (κ : Contraction) (p : Param) : (p.contract κ).names = p.names := by
  cases p with
  | pattern _ p => exact p.names_contract κ
  | property _ _ _ | propertyPattern _ _ _ => rfl

theorem Param.flatMap_names_contract (κ : Contraction) (ps : List Param) :
    (Param.contractAll κ ps).flatMap Param.names = ps.flatMap Param.names := by
  induction ps with
  | nil => rfl
  | cons p ps ih =>
    rw [Param.contractAll, List.flatMap_cons, List.flatMap_cons, p.names_contract, ih]

theorem Param.isSlotted_contract (κ : Contraction) (p : Param) :
    (p.contract κ).isSlotted = p.isSlotted := by
  cases p <;> rfl

theorem Param.countP_isSlotted_contract (κ : Contraction) (ps : List Param) :
    (Param.contractAll κ ps).countP Param.isSlotted = ps.countP Param.isSlotted := by
  induction ps with
  | nil => rfl
  | cons p ps ih =>
    rw [Param.contractAll, List.countP_cons, List.countP_cons, p.isSlotted_contract, ih]

/-- Declarators bind the same names. -/
theorem Declarator.namesAll_contract (κ : Contraction) (ds : List Declarator) :
    Declarator.namesAll (Declarator.contractAll κ ds) = Declarator.namesAll ds := by
  induction ds with
  | nil => rfl
  | cons d ds ih =>
    obtain ⟨target, init⟩ := d
    exact congrArg₂ (· ++ ·) (target.names_contract κ) ih

/-- The names that `var` binds in a declaration are the same. -/
theorem Decl.varNames_contract (κ : Contraction) (d : Decl) :
    (d.contract κ).varNames = d.varNames := by
  cases d with
  | vars kind declarators =>
    cases kind with
    | var => exact Declarator.namesAll_contract κ declarators
    | «let» | const => rfl
  | function _ _ | «class» _ _ | «using» _ | inert => rfl

theorem Decl.exportedNames_contract (κ : Contraction) (d : Decl) :
    (d.contract κ).exportedNames = d.exportedNames := by
  cases d with
  | vars kind declarators => exact Declarator.namesAll_contract κ declarators
  | function _ _ | «class» _ _ | «using» _ | inert => rfl

theorem LoopHead.varNames_contract (κ : Contraction) (h : LoopHead) :
    (h.contract κ).varNames = h.varNames := by
  cases h with
  | decl d => exact d.varNames_contract κ
  | absent | expr _ | pattern _ => rfl

mutual

/-- The names that `var` binds in a statement are the same. -/
theorem Stmt.varNames_contract (κ : Contraction) : ∀ s : Stmt, (s.contract κ).varNames = s.varNames
  | .decl d => d.varNames_contract κ
  | .block stmts => Stmt.varNamesAll_contract κ stmts
  | .cond _ consequent none => consequent.varNames_contract κ
  | .cond _ consequent (some alternate) =>
    congrArg₂ (· ++ ·) (consequent.varNames_contract κ) (alternate.varNames_contract κ)
  | .for head _ _ body | .forEach head _ body =>
    congrArg₂ (· ++ ·) (head.varNames_contract κ) (body.varNames_contract κ)
  | .while _ body | .doWhile body _ | .labeled body | .with _ body => body.varNames_contract κ
  | .switch _ cases => Case.varNamesAll_contract κ cases
  | .try body _ handler finalizer =>
    congrArg₂ (· ++ ·)
      (congrArg₂ (· ++ ·) (body.varNames_contract κ) (Stmt.varNamesOption_contract κ handler))
      (Stmt.varNamesOption_contract κ finalizer)
  | .expr _ | .ret _ | .throw _ | .inert => rfl

/-- The names that `var` binds in a statement that may be left out are the same. -/
theorem Stmt.varNamesOption_contract (κ : Contraction) : ∀ s : Option Stmt,
    Stmt.varNamesOption (Stmt.contractOption κ s) = Stmt.varNamesOption s
  | none => rfl
  | some s => s.varNames_contract κ

theorem Stmt.varNamesAll_contract (κ : Contraction) : ∀ ss : List Stmt,
    Stmt.varNamesAll (Stmt.contractAll κ ss) = Stmt.varNamesAll ss
  | [] => rfl
  | s :: rest => congrArg₂ (· ++ ·) (s.varNames_contract κ) (Stmt.varNamesAll_contract κ rest)

theorem Case.varNamesAll_contract (κ : Contraction) : ∀ cs : List Case,
    Case.varNamesAll (Case.contractAll κ cs) = Case.varNamesAll cs
  | [] => rfl
  | .mk _ body :: rest =>
    congrArg₂ (· ++ ·) (Stmt.varNamesAll_contract κ body) (Case.varNamesAll_contract κ rest)

end

/-! ## Shapes stay -/

/-- What a target is assigned in stays. -/
theorem Target.contract_pattern (κ : Contraction) (t : Target) :
    t.pattern.contract κ = t.pattern := by
  cases t with
  | name x => rfl
  | property owner _ | privateProperty owner _ => cases owner <;> rfl

/-- An expression that joins two values stays one, or becomes a logical assignment. -/
theorem Expr.contract_logical (κ : Contraction) (span : Span) (left right : Expr) :
    (Expr.logical span left right).contract κ =
        .logical (κ.move span) (left.contract κ) (right.contract κ) ∨
      ∃ t value, κ.target span = some t ∧ left = t.expr ∧
        right.contract κ = .paren (.assign .plain t.pattern value) ∧
        (Expr.logical span left right).contract κ = .assign .logical t.pattern value := by
  rw [Expr.contract]
  split
  · next h =>
    obtain ⟨t, value, ht, rfl, rfl⟩ := exists_of_isExpansion h
    have hright : (Expr.paren (.assign .plain t.pattern value)).contract κ =
        .paren (.assign .plain t.pattern (value.contract κ)) := by
      rw [Expr.contract, Expr.contract, t.contract_pattern]
    refine .inr ⟨t, value.contract κ, ht, rfl, hright, ?_⟩
    rw [hright]
    rfl
  · exact .inl rfl

/-- A place is no expansion. -/
theorem Expr.isPlace_contract (κ : Contraction) : ∀ e : Expr, (e.contract κ).isPlace = e.isPlace
  | .paren inner => inner.isPlace_contract κ
  | .member true _ _ | .member false _ _ => rfl
  | .logical span left right => by
    obtain h | ⟨_, _, _, _, _, h⟩ := Expr.contract_logical κ span left right <;> rw [h] <;> rfl
  | .ident _ | .this | .string _ | .literal | .function _ _ | .arrow _ | .class _ _
  | .call _ _ _ _ | .construct _ _ _ | .tagged _ _ _ | .superMember _ | .assign _ _ _
  | .conditional _ _ _ _ | .sequence _ | .typed _ | .await _ | .array _
  | .spread _ | .untracked _ | .object _ | .element _ _ => rfl

/-- Only a name becomes a name. -/
theorem Expr.contract_eq_ident {κ : Contraction} {e : Expr} {name : String}
    (h : e.contract κ = .ident name) : e = .ident name := by
  cases e with
  | ident x => exact h
  | logical span left right =>
    obtain h' | ⟨_, _, _, _, _, h'⟩ := Expr.contract_logical κ span left right <;>
      rw [h'] at h <;> cases h
  | _ => cases h

/-- Only a string becomes a string. -/
theorem Expr.contract_eq_string {κ : Contraction} {e : Expr} {text : String}
    (h : e.contract κ = .string text) : e = .string text := by
  cases e with
  | string _ => exact h
  | logical span left right =>
    obtain h' | ⟨_, _, _, _, _, h'⟩ := Expr.contract_logical κ span left right <;>
      rw [h'] at h <;> cases h
  | _ => cases h

/-- A key has the same name, for nothing is contracted to a string. -/
theorem Key.name?_contract (κ : Contraction) (k : Key) : (k.contract κ).name? = k.name? := by
  cases k with
  | named _ | privateName _ | untracked => rfl
  | computed e =>
    have hother {e : Expr} (h : ∀ text, e ≠ .string text) : (Key.computed e).name? = none := by
      cases e with
      | string text => exact absurd rfl (h text)
      | _ => rfl
    by_cases h : ∃ text, e = .string text
    · obtain ⟨text, rfl⟩ := h
      rfl
    · rw [not_exists] at h
      rw [Key.contract, hother h, hother fun text hs => h text (Expr.contract_eq_string hs)]

theorem Key.isPrivate_contract (κ : Contraction) (k : Key) :
    (k.contract κ).isPrivate = k.isPrivate := by
  cases k <;> rfl

theorem Key.valueRole_contract (κ : Contraction) (k : Key) :
    (k.contract κ).valueRole = k.valueRole := by
  rw [Key.valueRole, Key.valueRole, Key.name?_contract]

/-- A target that is left alone is so in either form. -/
theorem Pattern.isLeftAlone_contract (κ : Contraction) (p : Pattern) :
    (p.contract κ).isLeftAlone = p.isLeftAlone := by
  cases p with
  | expr e =>
    cases e with
    | member chained _ _ => cases chained <;> rfl
    | logical span left right =>
      rw [Pattern.contract]
      obtain h | ⟨_, _, _, _, _, h⟩ := Expr.contract_logical κ span left right <;> rw [h] <;> rfl
    | _ => rfl
  | _ => rfl

/-- A target gives its value the same name. -/
theorem Pattern.valueRole_contract (κ : Contraction) (p : Pattern) :
    (p.contract κ).valueRole = p.valueRole := by
  cases p with
  | expr e =>
    cases e with
    | member chained _ key => cases chained <;> cases key <;> rfl
    | logical span left right =>
      rw [Pattern.contract]
      obtain h | ⟨_, _, _, _, _, h⟩ := Expr.contract_logical κ span left right <;> rw [h] <;> rfl
    | _ => rfl
  | _ => rfl

/-- What stores to `module.exports` is no expansion. -/
theorem Pattern.isModuleExports_contract (κ : Contraction) (p : Pattern) :
    (p.contract κ).isModuleExports = p.isModuleExports := by
  cases hp : p.isModuleExports with
  | true =>
    unfold Pattern.isModuleExports at hp
    split at hp
    · exact hp
    · cases hp
  | false =>
    rw [Bool.eq_false_iff]
    intro h
    unfold Pattern.isModuleExports at h
    split at h
    case h_2 => cases h
    next owner name heq =>
    -- the written target has this shape too
    have hsame : p = .expr (.member false (.ident owner) (.named name)) := by
      cases p with
      | expr e =>
        rw [Pattern.contract, Pattern.expr.injEq] at heq
        cases e with
        | member chained o k =>
          rw [Expr.contract, Expr.member.injEq] at heq
          obtain ⟨rfl, ho, hk⟩ := heq
          rw [Expr.contract_eq_ident ho]
          cases k with
          | named _ => rw [← hk, Key.contract]
          | _ => cases hk
        | logical span left right =>
          obtain h' | ⟨_, _, _, _, _, h'⟩ := Expr.contract_logical κ span left right <;>
            rw [h'] at heq <;> cases heq
        | _ => cases heq
      | _ => cases heq
    rw [hsame] at hp
    exact Bool.false_ne_true (hp.symm.trans h)

theorem Expr.length_contractAll (κ : Contraction) (es : List Expr) :
    (Expr.contractAll κ es).length = es.length := by
  induction es with
  | nil => rfl
  | cons e es ih => rw [Expr.contractAll, List.length_cons, List.length_cons, ih]

/-- Only what is spread becomes what is spread. -/
theorem Expr.contract_eq_spread {κ : Contraction} {e inner : Expr}
    (h : e.contract κ = .spread inner) :
    ∃ written, e = .spread written ∧ written.contract κ = inner := by
  cases e with
  | spread written => exact ⟨written, rfl, Expr.spread.inj h⟩
  | logical span left right =>
    obtain h' | ⟨_, _, _, _, _, h'⟩ := Expr.contract_logical κ span left right <;>
      rw [h'] at h <;> cases h
  | _ => cases h

/-- A single contracted expression comes from a single one. -/
theorem Expr.contractAll_eq_singleton {κ : Contraction} {es : List Expr} {e : Expr}
    (h : Expr.contractAll κ es = [e]) : ∃ written, es = [written] ∧ written.contract κ = e := by
  cases es with
  | nil => cases h
  | cons first rest =>
    rw [Expr.contractAll] at h
    obtain ⟨hfirst, hrest⟩ := List.cons.inj h
    cases rest with
    | nil => exact ⟨first, rfl, hfirst⟩
    | cons _ _ => cases hrest

/-- A call is one of `require` as before. -/
theorem requiredSpecifier?_contract (κ : Contraction) (callee : Expr) (args : List Expr) :
    requiredSpecifier? (callee.contract κ) (Expr.contractAll κ args) =
      requiredSpecifier? callee args := by
  cases hs : requiredSpecifier? callee args with
  | some specifier =>
    unfold requiredSpecifier? at hs
    split at hs
    · exact hs
    · exact hs
    · cases hs
  | none =>
    -- a shape that makes it one is the shape that is written
    rw [← hs]
    generalize hcallee : callee.contract κ = callee'
    generalize hargs : Expr.contractAll κ args = args'
    unfold requiredSpecifier?
    split
    · next name text =>
      obtain ⟨e, rfl, he⟩ := Expr.contractAll_eq_singleton hargs
      rw [Expr.contract_eq_ident hcallee, Expr.contract_eq_string he]
    · next name text =>
      obtain ⟨e, rfl, he⟩ := Expr.contractAll_eq_singleton hargs
      obtain ⟨inner, rfl, hinner⟩ := Expr.contract_eq_spread he
      rw [Expr.contract_eq_ident hcallee, Expr.contract_eq_string hinner]
    · exact hs.symm

/-! ## Values keep their vertices if nothing is contracted -/

/-- A class has a constructor in either form. -/
theorem Member.any_isConstructor_contractAll (κ : Contraction) (ms : List Member) :
    (Member.contractAll κ ms).any Member.isConstructor = ms.any Member.isConstructor := by
  induction ms with
  | nil => rfl
  | cons m ms ih =>
    rw [Member.contractAll, List.any_cons, List.any_cons, ih]
    cases m <;> rfl

mutual

/-- Where nothing is contracted, an expression has a value if the written one has. -/
theorem Expr.yields_contract {κ : Contraction} (h : ∀ span, κ.target span = none)
    (receiver : Bool) : ∀ e : Expr, (e.contract κ).yields receiver = e.yields receiver
  | .logical span _ _ => by
    rw [Expr.contract, h span, if_neg (by exact Bool.false_ne_true)]
    rfl
  | .class _ (.mk _ _ members) => Member.any_isConstructor_contractAll κ members
  | .assign op _ value => congrArg (op ≠ .arithmetic && ·) (value.yields_contract h receiver)
  | .sequence exprs => Expr.yieldsLast_contractAll h receiver exprs
  | .paren inner | .await inner | .typed inner | .spread inner => inner.yields_contract h receiver
  | .this | .string _ | .literal | .array _ | .untracked _ | .object _ | .element _ _
  | .ident _ | .function _ _ | .arrow _ | .call _ _ _ _ | .construct _ _ _ | .tagged _ _ _
  | .member _ _ _ | .superMember _ | .conditional _ _ _ _ => rfl

theorem Expr.yieldsLast_contractAll {κ : Contraction} (h : ∀ span, κ.target span = none)
    (receiver : Bool) : ∀ es : List Expr,
      Expr.yieldsLast receiver (Expr.contractAll κ es) = Expr.yieldsLast receiver es
  | [] => rfl
  | [e] => e.yields_contract h receiver
  | _ :: e :: rest => Expr.yieldsLast_contractAll h receiver (e :: rest)

end

end CallFlow.Syntax
