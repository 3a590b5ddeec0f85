import CallFlow.Proofs.FileFlow.Walk

/-!
# Routines go back

A routine enters scopes and functions on its way. What it has saved it puts back, so that it ends
where it started: it does what a walk does that stays where it is. One equation for each routine
says so, whatever the place and the state are. The equations follow the syntax.
-/

namespace CallFlow

open Syntax

namespace Routine

variable {α β : Type}

/-- The routine ends where it starts: in the same scope and function, and with the same receiver. -/
def Restores (routine : Routine α) : Prop :=
  ∀ (place : Place) (s : FileState), (routine place s).1.2 = place

/-- A walk stays where it is, so the routine that does what the walk does ends where it starts. -/
theorem restores_lift (walk : Walk α) : Restores (liftM walk) := fun _ _ => rfl

/-- After a step that goes back the next one starts at the same place. -/
theorem bind_apply {routine : Routine α} (next : α → Routine β) {place : Place} {s : FileState}
    (h : (routine place s).1.2 = place) :
    (routine >>= next) place s = next (routine place s).1.1 place (routine place s).2 := by
  show next (routine place s).1.1 (routine place s).1.2 (routine place s).2 = _
  rw [h]

/-- Steps that stay where they are stay there together. -/
theorem bind_lift {walk : Walk α} {next : α → Walk β} {next' : α → Routine β}
    (h : ∀ a, next' a = liftM (next a)) :
    (liftM walk >>= next' : Routine β) = liftM (walk >>= next) := by
  rw [funext h]
  rfl

mutual

/-- What a routine does with an expression a walk does without going anywhere. -/
theorem visit_eq (role : Role) : ∀ e : Expr, visit role e = liftM (Walk.visit role e)
  | .ident _ | .this | .string _ | .literal => by
    rw [visit, Walk.visit]
    rfl
  | .function none f => by
    rw [visit, Walk.visit, visitFunction_eq _ _ _ f]
    rfl
  | .function (some name) f | .arrow f => by
    rw [visit, Walk.visit, visitFunction_eq _ _ _ f]
    rfl
  | .class none c | .class (some name) c => by
    rw [visit, Walk.visit, visitClass_eq _ _ c]
    rfl
  | .call chained span callee args => by
    simp only [visit, Walk.visit, visit_eq .callee callee, visitArgs_eq args]
    rfl
  | .construct span callee args => by
    simp only [visit, Walk.visit, visit_eq .callee callee, visitArgs_eq args]
    rfl
  | .tagged span tag substitutions => by
    simp only [visit, Walk.visit, visit_eq .callee tag, visitArgs_eq substitutions]
    rfl
  | .member chained object key => by
    simp only [visit, Walk.visit, visit_eq .value object, visitKey_eq key]
    rfl
  | .superMember key => by
    simp only [visit, Walk.visit, visitKey_eq key]
    split <;> rfl
  | .assign op target value => by
    have hbind := bind_eq target
    have hkey := superKey_eq target
    rw [visit, Walk.visit, visit_eq _ value]
    refine bind_lift fun v => ?_
    dsimp only
    -- The value that is stored is the same on both sides, and how it comes about does not matter.
    generalize (if op = .arithmetic then none else v.result) = stored
    -- what is done with the target depends on its form
    cases target with
    | expr e =>
      cases e with
      | superMember key =>
        dsimp only
        rw [hkey key rfl]
        rfl
      | typed inner => rfl
      | member chained object key =>
        cases chained with
        | true => rfl
        | false =>
          dsimp only
          rw [hbind]
          rfl
      | _ =>
        dsimp only
        rw [hbind]
        rfl
    | _ =>
      dsimp only
      rw [hbind]
      rfl
  | .logical span left right => by
    simp only [visit, Walk.visit, visit_eq .value left, visit_eq .value right]
    rfl
  | .conditional span test consequent alternate => by
    simp only [visit, Walk.visit, visit_eq .value test, visit_eq .value consequent,
      visit_eq .value alternate]
    rfl
  | .sequence exprs => by
    simp only [visit, Walk.visit, visitAll_eq exprs]
    rfl
  | .paren inner => by
    simp only [visit, Walk.visit, visit_eq role.inParens inner]
    rfl
  | .await inner | .typed inner | .spread inner => by
    simp only [visit, Walk.visit, visit_eq .value inner]
    rfl
  | .array operands | .untracked operands => by
    simp only [visit, Walk.visit, visitAll_eq operands]
    rfl
  | .object properties => by
    simp only [visit, Walk.visit, visitProperties_eq properties]
    rfl
  | .element attributes children => by
    simp only [visit, Walk.visit, visitAttributes_eq attributes, visitAll_eq children]
    rfl

/-- The same for several expressions. The cases are those of the definition, which treats the last
one apart. -/
theorem visitAll_eq : ∀ es : List Expr, visitAll es = liftM (Walk.visitAll es)
  | [] => by
    rw [visitAll, Walk.visitAll]
    rfl
  | [e] => by
    rw [visitAll, Walk.visitAll, visit_eq .value e]
    rfl
  | e :: e' :: rest => by
    have hrest := visitAll_eq (e' :: rest)
    unfold visitAll Walk.visitAll
    rw [visit_eq .value e, hrest]
    rfl

/-- The same for an expression that may be left out. -/
theorem visitOption_eq : ∀ e : Option Expr, visitOption e = liftM (Walk.visitOption e)
  | none => by
    rw [visitOption, Walk.visitOption]
    rfl
  | some e => by
    rw [visitOption, Walk.visitOption, visit_eq .value e]
    rfl

/-- The arguments of a call, whatever the slot is that they start at. -/
theorem visitArgs_eq : ∀ (es : List Expr) (call : CallId) (slot : Nat),
    visitArgs call slot es = liftM (Walk.visitArgs call slot es)
  | [], call, slot => by
    rw [visitArgs, Walk.visitArgs]
    rfl
  | e :: rest, call, slot => by
    rw [visitArgs, Walk.visitArgs, visit_eq .value e, visitArgs_eq rest]
    rfl

/-- The key of a property. -/
theorem visitKey_eq : ∀ k : Key, visitKey k = liftM (Walk.visitKey k)
  | .named _ | .privateName _ | .untracked => by
    rw [visitKey, Walk.visitKey]
  | .computed e => by
    have he := visit_eq .value e
    cases e with
    | string name =>
      rw [visitKey, Walk.visitKey]
    | _ =>
      simp only [visitKey, Walk.visitKey, he]
      rfl

/-- The key of a target that is a property of the superclass. -/
theorem superKey_eq : ∀ (p : Pattern) (key : Key), p = .expr (.superMember key) →
    visitKey key = liftM (Walk.visitKey key)
  | .expr (.superMember key'), key, h => by
    obtain rfl : key' = key := by simpa using h
    exact visitKey_eq key'

/-- A property of an object literal. -/
theorem visitProperty_eq : ∀ p : Property, visitProperty p = liftM (Walk.visitProperty p)
  | .keyValue key value => by
    simp only [visitProperty, Walk.visitProperty, visitKey_eq key, visit_eq _ value]
    rfl
  | .shorthand _ => by
    rw [visitProperty, Walk.visitProperty]
    rfl
  | .shorthandDefault _ e | .spread e => by
    rw [visitProperty, Walk.visitProperty, visit_eq .value e]
    rfl
  | .method key f => by
    simp only [visitProperty, Walk.visitProperty, visitKey_eq key, visitFunction_eq _ _ _ f]
    rfl

/-- The properties of an object literal. -/
theorem visitProperties_eq : ∀ ps : List Property,
    visitProperties ps = liftM (Walk.visitProperties ps)
  | [] => by
    rw [visitProperties, Walk.visitProperties]
    rfl
  | p :: rest => by
    rw [visitProperties, Walk.visitProperties, visitProperty_eq p, visitProperties_eq rest]
    rfl

/-- The attributes of an element. -/
theorem visitAttributes_eq : ∀ as : List Attribute,
    visitAttributes as = liftM (Walk.visitAttributes as)
  | [] => by
    rw [visitAttributes, Walk.visitAttributes]
    rfl
  | .value e :: rest => by
    rw [visitAttributes, Walk.visitAttributes, visit_eq .value e, visitAttributes_eq rest]
    rfl
  | .fragment _ :: rest => by
    rw [visitAttributes, Walk.visitAttributes, visitAttributes_eq rest]

/-- A pattern, whatever is bound to it. -/
theorem bind_eq : ∀ (p : Pattern) (source : Option VertexId),
    bind p source = liftM (Walk.bind p source)
  | .ident _, source => by
    rw [bind, Walk.bind]
    rfl
  | .array elements, source => by
    rw [bind, Walk.bind, bindAll_eq elements]
  | .object fields, source => by
    rw [bind, Walk.bind, bindFields_eq fields]
  | .rest inner, source => by
    rw [bind, Walk.bind, bind_eq inner]
  | .withDefault inner value, source => by
    simp only [bind, Walk.bind, visit_eq .value value, bind_eq inner]
    -- Whether the pattern is bound a second time depends on the value of the default.
    refine bind_lift fun v => bind_lift fun _ => ?_
    cases v.result <;> rfl
  | .expr e, source => by
    simp only [bind, Walk.bind, visit_eq .value e]
    refine bind_lift fun place => ?_
    cases e.isPlace <;> cases place.result <;> rfl

/-- The elements of an array pattern. -/
theorem bindAll_eq : ∀ ps : List Pattern, bindAll ps = liftM (Walk.bindAll ps)
  | [] => by
    rw [bindAll, Walk.bindAll]
    rfl
  | p :: rest => by
    rw [bindAll, Walk.bindAll, bind_eq p, bindAll_eq rest]
    rfl

/-- A field of an object pattern. -/
theorem bindField_eq : ∀ f : PatternField, bindField f = liftM (Walk.bindField f)
  | .keyValue key p => by
    simp only [bindField, Walk.bindField, visitKey_eq key, bind_eq p]
    rfl
  | .shorthand name none => by
    rw [bindField, Walk.bindField]
    rfl
  | .shorthand name (some value) => by
    simp only [bindField, Walk.bindField, visit_eq .value value]
    rfl
  | .rest inner => by
    rw [bindField, Walk.bindField, bind_eq inner]

/-- The fields of an object pattern. -/
theorem bindFields_eq : ∀ fs : List PatternField, bindFields fs = liftM (Walk.bindFields fs)
  | [] => by
    rw [bindFields, Walk.bindFields]
    rfl
  | f :: rest => by
    rw [bindFields, Walk.bindFields, bindField_eq f, bindFields_eq rest]
    rfl

/-- A function goes into its scope and into itself, and comes back from both. The walk only reads
the place there. -/
theorem visitFunction_eq (name own : Option String) (isArrow : Bool) : ∀ f : Func,
    visitFunction name own isArrow f = liftM (Walk.visitFunction name own isArrow f)
  | .mk params body span => by
    simp only [visitFunction, Walk.visitFunction, bindParams_eq params, visitBody_eq body]
    -- An arrow function keeps the receiver and another one has its own, and both are put back.
    cases isArrow <;> rfl

/-- The parameters of a function, from a slot on. -/
theorem bindParams_eq : ∀ (ps : List Param) (f : FunctionId) (slot : Nat),
    bindParams f slot ps = liftM (Walk.bindParams f slot ps)
  | [], f, slot => by
    rw [bindParams, Walk.bindParams]
    rfl
  | p :: rest, f, slot => by
    simp only [bindParams, Walk.bindParams, bindParam_eq p, bindParams_eq rest]
    split <;> rfl

/-- A single parameter. -/
theorem bindParam_eq : ∀ (p : Param) (source : VertexId),
    bindParam source p = liftM (Walk.bindParam source p)
  | .pattern _ p, source => by
    have hbind := bind_eq p
    -- A rest parameter is bound without its slot.
    cases p with
    | rest inner =>
      rw [bindParam, Walk.bindParam, bind_eq inner]
    | _ =>
      simp only [bindParam, Walk.bindParam, hbind]
  | .property _ name none, source => by
    rw [bindParam, Walk.bindParam]
    rfl
  | .property _ name (some value), source => by
    simp only [bindParam, Walk.bindParam, visit_eq .value value]
    rfl
  | .propertyPattern _ _ _, source => by
    rw [bindParam, Walk.bindParam]
    rfl

/-- The body of a function. -/
theorem visitBody_eq : ∀ (b : Body) (f : FunctionId), visitBody f b = liftM (Walk.visitBody f b)
  | .block stmts, f => by
    rw [visitBody, Walk.visitBody, visitStmts_eq stmts]
  | .expr result, f => by
    rw [visitBody, Walk.visitBody, visit_eq .value result]
    rfl
  | .absent, f => by
    rw [visitBody, Walk.visitBody]
    rfl

theorem visitClass_eq (name own : Option String) : ∀ c : Syntax.Class,
    visitClass name own c = liftM (Walk.visitClass name own c)
  | .mk decorators heritage members => by
    simp only [visitClass, Walk.visitClass, visitAll_eq decorators, visitOption_eq heritage,
      visitMembers_eq members]
    rfl

/-- The members of a class, whichever constructor was seen last. -/
theorem visitMembers_eq : ∀ (ms : List Member) (name : Option String) (last : Option VertexId),
    visitMembers name last ms = liftM (Walk.visitMembers name last ms)
  | [], name, last => by
    rw [visitMembers, Walk.visitMembers]
    rfl
  | .constructor f :: rest, name, last => by
    simp only [visitMembers, Walk.visitMembers, visitFunction_eq _ _ _ f, visitMembers_eq rest]
    rfl
  | .method decorators key f :: rest, name, last => by
    have hmember := visitMember_eq (.method decorators key f)
    unfold visitMembers Walk.visitMembers
    rw [hmember, visitMembers_eq rest]
    rfl
  | .field decorators key value :: rest, name, last => by
    have hmember := visitMember_eq (.field decorators key value)
    unfold visitMembers Walk.visitMembers
    rw [hmember, visitMembers_eq rest]
    rfl
  | .staticBlock stmts :: rest, name, last => by
    have hmember := visitMember_eq (.staticBlock stmts)
    unfold visitMembers Walk.visitMembers
    rw [hmember, visitMembers_eq rest]
    rfl

/-- A member of a class. A block of statements has a scope of its own. -/
theorem visitMember_eq : ∀ m : Member, visitMember m = liftM (Walk.visitMember m)
  | .constructor _ => by
    rw [visitMember, Walk.visitMember]
    rfl
  | .method decorators key f => by
    simp only [visitMember, Walk.visitMember, visitAll_eq decorators, visitKey_eq key,
      visitFunction_eq _ _ _ f]
    split <;> rfl
  | .field _ key none => by
    rw [visitMember, Walk.visitMember, visitKey_eq key]
    rfl
  | .field _ key (some value) => by
    simp only [visitMember, Walk.visitMember, visitKey_eq key, visit_eq _ value]
    rfl
  | .staticBlock stmts => by
    rw [visitMember, Walk.visitMember, visitStmts_eq stmts]
    rfl

/-- A statement. Blocks, loops, switches and what is caught have scopes of their own, and the
routine leaves each of them again. -/
theorem visitStmt_eq : ∀ s : Stmt, visitStmt s = liftM (Walk.visitStmt s)
  | .decl d => by
    rw [visitStmt, Walk.visitStmt, visitDecl_eq d]
  | .expr e | .throw e | .ret (some e) => by
    rw [visitStmt, Walk.visitStmt, visit_eq .value e]
    rfl
  | .block stmts => by
    rw [visitStmt, Walk.visitStmt, visitStmts_eq stmts]
    rfl
  | .ret none | .inert => by
    rw [visitStmt, Walk.visitStmt]
    rfl
  | .cond test consequent alternate => by
    rw [visitStmt, Walk.visitStmt, visit_eq .value test, visitStmt_eq consequent,
      visitStmtOption_eq alternate]
    rfl
  | .for head test update body => by
    simp only [visitStmt, Walk.visitStmt, visitLoopHead_eq head, visitOption_eq test,
      visitOption_eq update, visitStmt_eq body]
    rfl
  | .forEach head iterated body => by
    simp only [visitStmt, Walk.visitStmt, bindLoopHead_eq head, visit_eq .value iterated,
      visitStmt_eq body]
    rfl
  | .while test body | .doWhile body test | .with test body => by
    rw [visitStmt, Walk.visitStmt, visit_eq .value test, visitStmt_eq body]
    rfl
  | .labeled body => by
    rw [visitStmt, Walk.visitStmt, visitStmt_eq body]
  | .switch subject cases => by
    simp only [visitStmt, Walk.visitStmt, visit_eq .value subject, visitCases_eq cases]
    rfl
  | .try body param none finalizer => by
    rw [visitStmt, Walk.visitStmt, visitStmt_eq body, visitStmtOption_eq finalizer]
    rfl
  | .try body param (some handler) finalizer => by
    simp only [visitStmt, Walk.visitStmt, visitStmt_eq body, visitCatchParam_eq param,
      visitStmt_eq handler, visitStmtOption_eq finalizer]
    rfl

/-- A statement that may be left out. -/
theorem visitStmtOption_eq : ∀ s : Option Stmt,
    visitStmtOption s = liftM (Walk.visitStmtOption s)
  | none => by
    rw [visitStmtOption, Walk.visitStmtOption]
    rfl
  | some s => by
    rw [visitStmtOption, Walk.visitStmtOption, visitStmt_eq s]

/-- Statements, one after the other. -/
theorem visitStmts_eq : ∀ ss : List Stmt, visitStmts ss = liftM (Walk.visitStmts ss)
  | [] => by
    rw [visitStmts, Walk.visitStmts]
    rfl
  | s :: rest => by
    rw [visitStmts, Walk.visitStmts, visitStmt_eq s, visitStmts_eq rest]
    rfl

/-- The pattern for what is caught. -/
theorem visitCatchParam_eq : ∀ p : Option Pattern,
    visitCatchParam p = liftM (Walk.visitCatchParam p)
  | none => by
    rw [visitCatchParam, Walk.visitCatchParam]
    rfl
  | some p => by
    simp only [visitCatchParam, Walk.visitCatchParam, bind_eq p]
    rfl

/-- The first part of a loop that counts. -/
theorem visitLoopHead_eq : ∀ h : LoopHead, visitLoopHead h = liftM (Walk.visitLoopHead h)
  | .decl (.vars kind declarators) => by
    rw [visitLoopHead, Walk.visitLoopHead, visitDeclarators_eq declarators]
    rfl
  | .expr e => by
    rw [visitLoopHead, Walk.visitLoopHead, visit_eq .value e]
    rfl
  | .decl (.function _ _) | .decl (.class _ _) | .decl (.using _) | .decl .inert | .pattern _
  | .absent => by
    unfold visitLoopHead Walk.visitLoopHead
    rfl

/-- The first part of a loop over the elements of a value. -/
theorem bindLoopHead_eq : ∀ h : LoopHead, bindLoopHead h = liftM (Walk.bindLoopHead h)
  | .decl (.vars kind declarators) => by
    rw [bindLoopHead, Walk.bindLoopHead, bindHeadDeclarators_eq kind declarators]
  | .pattern p => by
    rw [bindLoopHead, Walk.bindLoopHead, bind_eq p]
  | .decl (.function _ _) | .decl (.class _ _) | .decl (.using _) | .decl .inert | .expr _
  | .absent => by
    unfold bindLoopHead Walk.bindLoopHead
    rfl

/-- The declarators in such a part. -/
theorem bindHeadDeclarators_eq (kind : VarKind) : ∀ ds : List Declarator,
    bindHeadDeclarators kind ds = liftM (Walk.bindHeadDeclarators kind ds)
  | [] => by
    rw [bindHeadDeclarators, Walk.bindHeadDeclarators]
    rfl
  | .mk target init :: rest => by
    rw [bindHeadDeclarators, Walk.bindHeadDeclarators, bind_eq target,
      bindHeadDeclarators_eq kind rest]
    rfl

/-- The cases of a switch. -/
theorem visitCases_eq : ∀ cs : List Case, visitCases cs = liftM (Walk.visitCases cs)
  | [] => by
    rw [visitCases, Walk.visitCases]
    rfl
  | .mk test body :: rest => by
    rw [visitCases, Walk.visitCases, visitOption_eq test, visitStmts_eq body, visitCases_eq rest]
    rfl

/-- A declaration. -/
theorem visitDecl_eq : ∀ d : Decl, visitDecl d = liftM (Walk.visitDecl d)
  | .function name f => by
    rw [visitDecl, Walk.visitDecl, visitFunction_eq _ _ _ f]
    rfl
  | .class name c => by
    rw [visitDecl, Walk.visitDecl, visitClass_eq _ _ c]
    refine bind_lift fun constructor => ?_
    cases constructor <;> rfl
  | .vars _ declarators => by
    rw [visitDecl, Walk.visitDecl, visitDeclarators_eq declarators]
  | .using declarators => by
    rw [visitDecl, Walk.visitDecl, visitResources_eq declarators]
  | .inert => by
    rw [visitDecl, Walk.visitDecl]
    rfl

/-- The declarators of a declaration. -/
theorem visitDeclarators_eq : ∀ ds : List Declarator,
    visitDeclarators ds = liftM (Walk.visitDeclarators ds)
  | [] => by
    rw [visitDeclarators, Walk.visitDeclarators]
    rfl
  | .mk target none :: rest => by
    rw [visitDeclarators, Walk.visitDeclarators, bind_eq target, visitDeclarators_eq rest]
    rfl
  | .mk target (some init) :: rest => by
    simp only [visitDeclarators, Walk.visitDeclarators, visit_eq _ init, bind_eq target,
      visitDeclarators_eq rest]
    rfl

/-- The declarators of a `using` declaration. -/
theorem visitResources_eq : ∀ ds : List Declarator,
    visitResources ds = liftM (Walk.visitResources ds)
  | [] => by
    rw [visitResources, Walk.visitResources]
    rfl
  | .mk target init :: rest => by
    simp only [visitResources, Walk.visitResources, visitOption_eq init, bind_eq target,
      visitResources_eq rest]
    rfl

end

/-! ## Items -/

/-- What stays where it is for each element of a list does so for the list. -/
theorem forM_lift {γ : Type} {f : γ → Walk Unit} {f' : γ → Routine Unit}
    (h : ∀ a, f' a = liftM (f a)) (as : List γ) : as.forM f' = liftM (as.forM f) := by
  induction as with
  | nil => rfl
  | cons a as ih =>
    show (f' a >>= fun _ => as.forM f') = _
    rw [h a, ih]
    rfl

/-- An item of a module: names that are imported or exported go nowhere, and all else is a
statement, a declaration or an expression. -/
theorem visitItem_eq (item : ModuleItem) : visitItem item = liftM (Walk.visitItem item) := by
  cases item with
  | stmt s => exact visitStmt_eq s
  | importNames source specifiers => exact forM_lift (fun _ => rfl) specifiers
  | importEquals name source => cases source <;> rfl
  | exportDecl d =>
    rw [visitItem, Walk.visitItem, visitDecl_eq d]
    exact bind_lift fun _ => forM_lift (fun _ => rfl) d.exportedNames
  | exportDefaultFunction name f =>
    rw [visitItem, Walk.visitItem, visitFunction_eq name none false f]
    rfl
  | exportDefaultClass name c =>
    rw [visitItem, Walk.visitItem, visitClass_eq name none c]
    refine bind_lift fun constructor => ?_
    cases constructor <;> rfl
  | exportDefaultExpr e | exportAssignment e =>
    rw [visitItem, Walk.visitItem, visit_eq _ e]
    rfl
  | exportNames source specifiers =>
    cases source with
    | none => exact forM_lift (fun _ => rfl) specifiers
    | some source => exact forM_lift (fun _ => rfl) specifiers
  | inert => rfl

theorem visitModule_eq (m : Module) : visitModule m = liftM (Walk.visitModule m) := by
  rw [visitModule, Walk.visitModule, forM_lift (fun _ => rfl) m.items,
    forM_lift visitItem_eq m.items]
  rfl

end Routine

/-! ## Files -/

namespace FlowState

/-- The state in which the walk over a file starts. -/
def opened (state : FlowState) (path : Path) : FileState where
  flow := { state with
    program := (state.program.addFile path).2
    scopes := (state.scopes.create .moduleScope ScopeTree.global).2 }
  record := { file := ⟨state.program.files.size⟩, path }

/-- The place at which it starts. -/
def opening (state : FlowState) (lines : LineTable) : Place where
  file := ⟨state.program.files.size⟩
  lines
  scope := ⟨state.scopes.size⟩

/-- A file is added by a walk over its module. -/
theorem addFile_eq (state : FlowState) (path : Path) (lines : LineTable) (m : Module) :
    state.addFile path lines m =
      let final := (Walk.visitModule m (state.opening lines) (state.opened path)).2
      (final.record, final.flow) := by
  rw [addFile, Routine.visitModule_eq]
  rfl

end FlowState

end CallFlow
