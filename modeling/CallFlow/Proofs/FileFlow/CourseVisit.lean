import CallFlow.Proofs.FileFlow.Course
import CallFlow.Proofs.FileFlow.Yields

/-!
# The course of the walk over a tree

One lemma for each function of the walk says that it goes through the legs of its piece of syntax.
The lemmas follow the steps of the walk, and are the only ones that have to where all that matters
is what a walk does, and not which vertices it finds.
-/

namespace CallFlow.Walk

open Syntax

mutual

/-- An expression is entered, unless it is a call: this is registered before its legs. -/
theorem course_visit (role : Role) : ∀ e : Expr, Course (visit role e) [.enter (.expr e)]
  | .ident name => by
    refine .node (.expr role _) rfl ?_
    rw [visit]
    exact .ending (.resolve name) fun _ => .pure _
  | .this => by
    refine .node (.expr role _) rfl ?_
    rw [visit]
    exact .skip .receiver fun _ => .pure _
  | .string _ | .literal => by
    refine .node (.expr role _) rfl ?_
    rw [visit]
    exact .pure _
  | .function none f => by
    refine .node (.expr role _) rfl ?_
    rw [visit]
    refine .ending (course_visitFunction _ none false f) fun _ => ?_
    exact .skip (.vertex rfl) fun _ => .pure _
  | .function (some name) f => by
    refine .node (.expr role _) rfl ?_
    rw [visit]
    refine .ending (course_visitFunction _ (some name) false f) fun _ => ?_
    exact .skip (.vertex rfl) fun _ => .pure _
  | .arrow f => by
    refine .node (.expr role _) rfl ?_
    rw [visit]
    refine .ending (course_visitFunction _ none true f) fun _ => ?_
    exact .skip (.vertex rfl) fun _ => .pure _
  | .class none c => by
    refine .node (.expr role _) rfl ?_
    rw [visit]
    exact .ending (course_visitClass _ none c) fun _ => .pure _
  | .class (some name) c => by
    refine .node (.expr role _) rfl ?_
    rw [visit]
    exact .ending (course_visitClass _ (some name) c) fun _ => .pure _
  | .call chained span callee args => by
    refine .call rfl (by rw [visit]; rfl) fun c => ?_
    refine .skip (.vertex rfl) fun _ => ?_
    refine (course_visit .callee callee).bind fun _ => ?_
    refine .skip (.flow _ _) fun _ => ?_
    refine .skip (.passReceiver _ _) fun _ => ?_
    refine .ending (course_visitArgs c 1 args) fun _ => ?_
    exact .skip (.vertex rfl) fun _ => .skip (.recordRequire _ _ _ _) fun _ => .pure _
  | .construct span callee args => by
    refine .call rfl (by rw [visit]; rfl) fun c => ?_
    refine .skip (.vertex rfl) fun _ => ?_
    refine (course_visit .callee callee).bind fun _ => ?_
    refine .skip (.flow _ _) fun _ => ?_
    refine .ending (course_visitArgs c 1 args) fun _ => ?_
    exact .skip (.vertex rfl) fun _ => .pure _
  | .tagged span tag substitutions => by
    refine .call rfl (by rw [visit]; rfl) fun c => ?_
    refine .skip (.vertex rfl) fun _ => ?_
    refine (course_visit .callee tag).bind fun _ => ?_
    refine .skip (.flow _ _) fun _ => ?_
    refine .skip (.passReceiver _ _) fun _ => ?_
    refine .ending (course_visitArgs c 2 substitutions) fun _ => ?_
    exact .skip (.vertex rfl) fun _ => .pure _
  | .member _ object key => by
    refine .node (.expr role _) rfl ?_
    rw [visit]
    refine (course_visit .value object).bind fun _ => ?_
    exact .ending (course_visitKey key) fun _ => .pure _
  | .superMember key => by
    -- The receiver has no leg, so both cases end in the same way.
    have hkey (receiver : Option VertexId) : Course (do
        return { result := ← visitKey key, receiver } : Walk Evaluated) [.enter (.key key)] :=
      .ending (course_visitKey key) fun _ => .pure _
    refine .node (.expr role _) rfl ?_
    rw [visit]
    split
    · exact .skip .receiver hkey
    · exact hkey none
  | .assign op target value => by
    have hbind := course_bind target
    refine .node (.expr role _) rfl ?_
    rw [visit_assign]
    refine (course_visit target.valueRole value).bind fun _ => ?_
    have hkey := course_superKey target
    dsimp only
    -- Of a property of the superclass only the key is walked, and a target that is left alone is
    -- not walked at all.
    cases hsuper : target.superKey? with
    | some key => exact .ending (hkey key hsuper) fun _ => .skip (.flow _ _) fun _ => .pure _
    | none =>
      cases target.isLeftAlone with
      | true => exact .pure _
      | false => exact .skip (.exportAssigned _ _) fun _ => .ending (hbind _) fun _ => .pure _
  | .logical span left right => by
    refine .node (.expr role _) rfl ?_
    rw [visit]
    refine (course_visit .value left).bind fun _ => ?_
    refine .ending (course_visit .value right) fun _ => ?_
    refine .skip (.exprVertex span) fun _ => ?_
    exact .skip (.flow _ _) fun _ => .skip (.flow _ _) fun _ => .pure _
  | .conditional span test consequent alternate => by
    refine .node (.expr role _) rfl ?_
    rw [visit]
    refine (course_visit .value test).bind fun _ => ?_
    refine (course_visit .value consequent).bind fun _ => ?_
    refine .ending (course_visit .value alternate) fun _ => ?_
    refine .skip (.exprVertex span) fun _ => ?_
    exact .skip (.flow _ _) fun _ => .skip (.flow _ _) fun _ => .pure _
  | .sequence exprs => by
    refine .node (.expr role _) rfl ?_
    rw [visit]
    exact .ending (course_visitAll exprs) fun _ => .pure _
  | .paren inner => by
    refine .node (.expr role _) rfl ?_
    rw [visit]
    exact .ending (course_visit role.inParens inner) fun _ => .pure _
  | .await inner | .typed inner | .spread inner => by
    refine .node (.expr role _) rfl ?_
    rw [visit]
    exact .ending (course_visit .value inner) fun _ => .pure _
  | .array operands | .untracked operands => by
    refine .node (.expr role _) rfl ?_
    rw [visit]
    exact .ending (course_visitAll operands) fun _ => .pure _
  | .object properties => by
    refine .node (.expr role _) rfl ?_
    rw [visit]
    exact .ending (course_visitProperties properties) fun _ => .pure _
  | .element attributes children => by
    refine .node (.expr role _) rfl ?_
    rw [visit]
    refine (course_visitAttributes attributes).bind fun _ => ?_
    exact .ending (course_visitAll children) fun _ => .pure _

theorem course_superKey : ∀ (p : Pattern) (key : Key), p.superKey? = some key →
    Course (visitKey key) [.enter (.key key)]
  | .expr (.superMember key), key', h => by
    obtain rfl : key = key' := Option.some.inj h
    exact course_visitKey key

/-- Several expressions have a leg each. -/
theorem course_visitAll : ∀ es : List Expr, Course (visitAll es) (es.map (.enter <| .expr ·))
  | [] => by
    rw [visitAll]
    exact .pure _
  | [e] => by
    rw [visitAll]
    exact .ending (course_visit .value e) fun _ => .pure _
  | e :: e' :: rest => by
    rw [visitAll]
    · exact (course_visit .value e).bind fun _ => course_visitAll (e' :: rest)
    · exact List.cons_ne_nil e' rest

/-- An expression that may be left out. -/
theorem course_visitOption : ∀ e : Option Expr,
    Course (visitOption e) (e.toList.map (.enter <| .expr ·))
  | none => by
    rw [visitOption]
    exact .pure _
  | some e => by
    rw [visitOption]
    exact .ending (course_visit .value e) fun _ => .pure _

/-- So have the arguments of a call, whatever the slots are. -/
theorem course_visitArgs (call : CallId) (slot : ℕ) : ∀ es : List Expr,
    Course (visitArgs call slot es) (es.map (.enter <| .expr ·))
  | [] => by
    rw [visitArgs]
    exact .pure _
  | e :: rest => by
    rw [visitArgs]
    refine (course_visit .value e).bind fun _ => ?_
    refine .skip (.vertex rfl) fun _ => ?_
    exact .skip (.flow _ _) fun _ => course_visitArgs call (slot + 1) rest

/-- A key has a leg if it is computed, but not from a string. -/
theorem course_visitKey : ∀ k : Key, Course (visitKey k) [.enter (.key k)]
  | .named _ | .privateName _ | .untracked => by
    rw [visitKey]
    exact .inner rfl (.idle (.vertex rfl))
  | .computed e => by
    have he := course_visit .value e
    refine .inner rfl ?_
    -- a string is not walked
    cases hstring : e.isString with
    | true =>
      cases e with
      | string name =>
        rw [visitKey]
        exact .idle (.vertex rfl)
      | _ => cases hstring
    | false =>
      have hlegs : (Piece.key (.computed e)).legs = [.enter (.expr e)] := by
        cases e with
        | string name => cases hstring
        | _ => rfl
      rw [visitKey_of_not_isString hstring, hlegs]
      exact .ending he fun _ => .idle (.vertex rfl)

/-- A property of an object literal. A shorthand resolves its name. -/
theorem course_visitProperty : ∀ p : Property, Course (visitProperty p) [.enter (.property p)]
  | .keyValue key value => by
    rw [visitProperty]
    refine .inner rfl ?_
    refine (course_visitKey key).bind fun _ => ?_
    exact .ending (course_visit key.valueRole value) fun _ => .idle (.flow _ _)
  | .shorthand name => by
    rw [visitProperty]
    refine .inner rfl ?_
    exact .ending (.resolve name) fun _ => .skip (.vertex rfl) fun _ => .idle (.edge _ _)
  | .shorthandDefault _ value => by
    rw [visitProperty]
    refine .inner rfl ?_
    exact .ending (course_visit .value value) fun _ => .pure _
  | .method key f => by
    rw [visitProperty]
    refine .inner rfl ?_
    refine (course_visitKey key).bind fun _ => ?_
    refine .ending (course_visitFunction _ none false f) fun _ => ?_
    exact .skip (.vertex rfl) fun _ => .idle (.edge _ _)
  | .spread e => by
    rw [visitProperty]
    refine .inner rfl ?_
    exact .ending (course_visit .value e) fun _ => .pure _

/-- The properties of an object literal. -/
theorem course_visitProperties : ∀ ps : List Property,
    Course (visitProperties ps) (ps.map (.enter <| .property ·))
  | [] => by
    rw [visitProperties]
    exact .pure _
  | p :: rest => by
    rw [visitProperties]
    exact (course_visitProperty p).bind fun _ => course_visitProperties rest

/-- The attributes of an element. Those that are fragments are passed over. -/
theorem course_visitAttributes : ∀ as : List Attribute,
    Course (visitAttributes as) (as.map (.enter <| .attr ·))
  | [] => by
    rw [visitAttributes]
    exact .pure _
  | .value e :: rest => by
    rw [visitAttributes]
    exact .pass rfl ((course_visit .value e).bind fun _ => course_visitAttributes rest)
  | .fragment children :: rest => by
    rw [visitAttributes]
    exact .pass rfl (course_visitAttributes rest)

/-- A pattern has the same legs whatever is bound to it. Only a default may be walked twice, which
is what its leg stands for. -/
theorem course_bind : ∀ (p : Pattern) (source : Option VertexId),
    Course (bind p source) [.enter (.pattern p)]
  | .ident name, source => by
    refine .node (.pattern _ source) rfl ?_
    rw [bind]
    exact .ending (.resolve name) fun _ => .idle (.flow _ _)
  | .array elements, source => by
    refine .node (.pattern _ source) rfl ?_
    rw [bind]
    exact course_bindAll elements
  | .object fields, source => by
    refine .node (.pattern _ source) rfl ?_
    rw [bind]
    exact course_bindFields fields
  | .rest inner, source => by
    refine .node (.pattern _ source) rfl ?_
    rw [bind]
    exact course_bind inner none
  | .withDefault inner value, source =>
    .node (.pattern _ source) rfl
      (.withDefault (course_visit .value value) fun source => course_bind inner source)
  | .expr e, source => by
    refine .node (.pattern _ source) rfl ?_
    rw [bind]
    refine .ending (course_visit .value e) fun place => ?_
    split
    · exact .idle (.flow _ _)
    · exact .pure _

/-- The elements of an array pattern. -/
theorem course_bindAll : ∀ ps : List Pattern, Course (bindAll ps) (ps.map (.enter <| .pattern ·))
  | [] => by
    rw [bindAll]
    exact .pure _
  | p :: rest => by
    rw [bindAll]
    exact (course_bind p none).bind fun _ => course_bindAll rest

/-- A field of an object pattern. -/
theorem course_bindField : ∀ f : PatternField, Course (bindField f) [.enter (.field f)]
  | .keyValue key p => by
    rw [bindField]
    refine .inner rfl ?_
    exact (course_visitKey key).bind fun source => course_bind p (some source)
  | .shorthand name none => by
    rw [bindField]
    refine .inner rfl ?_
    refine .skip (.vertex rfl) fun _ => .ending (.resolve name) fun _ => ?_
    exact .skip (.edge _ _) fun _ => .pure _
  | .shorthand name (some value) => by
    rw [bindField]
    refine .inner rfl ?_
    refine .skip (.vertex rfl) fun _ => (Course.resolve name).bind fun _ => ?_
    refine .skip (.edge _ _) fun _ => ?_
    exact .ending (course_visit .value value) fun _ => .idle (.flow _ _)
  | .rest inner => by
    rw [bindField]
    exact .inner rfl (course_bind inner none)

/-- The fields of an object pattern. -/
theorem course_bindFields : ∀ fs : List PatternField,
    Course (bindFields fs) (fs.map (.enter <| .field ·))
  | [] => by
    rw [bindFields]
    exact .pure _
  | f :: rest => by
    rw [bindFields]
    exact (course_bindField f).bind fun _ => course_bindFields rest

theorem course_visitFunction (name own : Option String) (isArrow : Bool) : ∀ f : Func,
    Course (visitFunction name own isArrow f) [.func own isArrow f]
  | .mk params body _ => .function (fun value => .declareHead value own _)
    (fun id => course_bindParams id 1 params) fun id => course_visitBody id body

/-- The parameters of a function, whatever the slots are. -/
theorem course_bindParams (f : FunctionId) (slot : ℕ) : ∀ ps : List Param,
    Course (bindParams f slot ps) (ps.map (.enter <| .param ·))
  | [] => by
    rw [bindParams]
    exact .pure _
  | p :: rest => by
    rw [bindParams]
    split
    · refine .skip (.vertex rfl) fun source => ?_
      exact (course_bindParam source p).bind fun _ => course_bindParams f (slot + 1) rest
    · next hslotted =>
      -- nothing is walked of a parameter without a slot
      have hlegs : (Piece.param p).legs = [] := by
        cases p with
        | propertyPattern _ _ _ => rfl
        | pattern _ _ | property _ _ _ => exact absurd rfl hslotted
      refine .pass rfl ?_
      rw [hlegs]
      exact course_bindParams f slot rest

/-- A single parameter. -/
theorem course_bindParam (source : VertexId) : ∀ p : Param,
    Course (bindParam source p) [.enter (.param p)]
  | .pattern decorators p => by
    rw [bindParam_pattern]
    exact .inner rfl (course_bind p (some source))
  | .property decorators name none => by
    rw [bindParam]
    refine .inner rfl (.ending (.resolve name) fun _ => .skip (.edge _ _) fun _ => ?_)
    exact .skip (.vertex rfl) fun _ => .skip (.edge _ _) fun _ => .pure _
  | .property decorators name (some value) => by
    rw [bindParam]
    refine .inner rfl ((Course.resolve name).bind fun _ => .skip (.edge _ _) fun _ => ?_)
    refine .skip (.vertex rfl) fun _ => .skip (.edge _ _) fun _ => ?_
    exact .ending (course_visit .value value) fun _ => .idle (.flow _ _)
  | .propertyPattern decorators p value => by
    rw [bindParam]
    exact .inner rfl (.pure _)

/-- The body of a function. -/
theorem course_visitBody (f : FunctionId) : ∀ b : Body, Course (visitBody f b) [.enter (.body b)]
  | .block stmts => by
    rw [visitBody]
    exact .inner rfl (course_visitStmts stmts)
  | .expr result => by
    rw [visitBody]
    refine .inner rfl ?_
    refine .ending (course_visit .value result) fun _ => ?_
    exact .skip (.vertex rfl) fun _ => .idle (.flow _ _)
  | .absent => by
    rw [visitBody]
    exact .inner rfl (.pure _)

/-- A class has one leg as well. Whether it asks for its own name at the end is a matter of syntax.
-/
theorem course_visitClass (name own : Option String) : ∀ c : Syntax.Class,
    Course (visitClass name own c) [.class own c]
  | .mk decorators heritage members => by
    have hmembers : Course (do
        declareClassName own
        let constructor ← visitMembers name none members
        bindClassName own constructor
        return constructor : Walk (Option VertexId))
          (.declare own.toList [] :: members.map (.enter <| .member ·) ++
            if members.any Member.isConstructor then own.toList.map .resolve else []) := by
      refine (Course.declareClassName own).bind fun _ => ?_
      -- The members return a constructor if there is one among them, which decides on the last leg.
      refine .bindOf (P := fun constructor => constructor.isSome = _)
        (isSome_visitMembers name members none) (course_visitMembers name none members)
          fun constructor h => ?_
      have hbind := Course.bindClassName own constructor
      rw [h] at hbind
      exact .ending hbind fun _ => .pure _
    refine .class ?_
    rw [visitClass, Class.legs, List.map_append, List.append_assoc]
    refine (course_visitAll decorators).bind fun _ => ?_
    exact (course_visitOption heritage).bind fun _ => .inScope rfl hmembers

/-- The members of a class, whichever constructor was seen last. -/
theorem course_visitMembers (name : Option String) (last : Option VertexId) :
    ∀ ms : List Member, Course (visitMembers name last ms) (ms.map (.enter <| .member ·))
  | [] => by
    rw [visitMembers]
    exact .pure _
  | .constructor f :: rest => by
    rw [visitMembers]
    refine .pass rfl ?_
    refine (course_visitFunction name none false f).bind fun _ => ?_
    exact .skip (.vertex rfl) fun constructor => course_visitMembers name (some constructor) rest
  | .method decorators key f :: rest => by
    rw [visitMembers]
    · exact (course_visitMember (.method decorators key f) rfl).bind fun _ =>
        course_visitMembers name last rest
    · nofun
  | .field decorators key value :: rest => by
    rw [visitMembers]
    · exact (course_visitMember (.field decorators key value) rfl).bind fun _ =>
        course_visitMembers name last rest
    · nofun
  | .staticBlock stmts :: rest => by
    rw [visitMembers]
    · exact (course_visitMember (.staticBlock stmts) rfl).bind fun _ =>
        course_visitMembers name last rest
    · nofun

/-- A member of a class that is no constructor. -/
theorem course_visitMember : ∀ m : Member, m.isConstructor = false →
    Course (visitMember m) [.enter (.member m)]
  | .constructor f, h => by cases h
  | .method decorators key f, _ => by
    have hdecorators := course_visitAll decorators
    have hkey := course_visitKey key
    have hf := course_visitFunction key.name? none false f
    have hrest : Course (do
        let target ← visitKey key
        let id ← visitFunction key.name? none false f
        edge (← vertex (.func id)) target : Walk Unit) [.enter (.key key), .func none false f] :=
      hkey.bind fun _ => .ending hf fun _ => .skip (.vertex rfl) fun _ => .idle (.edge _ _)
    refine .inner rfl ?_
    rw [visitMember, Piece.legs]
    dsimp only
    cases key.isPrivate with
    | true => exact hrest
    | false => exact hdecorators.bind fun _ => hrest
  | .field decorators key none, _ => by
    rw [visitMember]
    exact .inner rfl (.ending (course_visitKey key) fun _ => .pure _)
  | .field decorators key (some value), _ => by
    rw [visitMember]
    refine .inner rfl ((course_visitKey key).bind fun _ => ?_)
    exact .ending (course_visit key.valueRole value) fun _ => .idle (.flow _ _)
  | .staticBlock stmts, _ => by
    refine .node (.block stmts) rfl ?_
    rw [visitMember]
    exact .inBlock (course_visitStmts stmts)

/-- A statement. What has a scope of its own has one leg for the scope. -/
theorem course_visitStmt : ∀ s : Stmt, Course (visitStmt s) [.enter (.stmt s)]
  | .decl d => by
    refine .node (.stmt _) rfl ?_
    rw [visitStmt]
    exact course_visitDecl d
  | .expr e | .throw e => by
    refine .node (.stmt _) rfl ?_
    rw [visitStmt]
    exact .ending (course_visit .value e) fun _ => .pure _
  | .block stmts => by
    refine .node (.stmt _) rfl ?_
    rw [visitStmt]
    exact .inBlock (course_visitStmts stmts)
  | .ret none => by
    refine .node (.stmt _) rfl ?_
    rw [visitStmt]
    exact .pure _
  | .ret (some e) => by
    refine .node (.stmt _) rfl ?_
    rw [visitStmt]
    exact .ending (course_visit .value e) fun value => .idle (.returnValue value.result)
  | .cond test consequent alternate => by
    refine .node (.stmt _) rfl ?_
    rw [visitStmt]
    refine (course_visit .value test).bind fun _ => ?_
    exact (course_visitStmt consequent).bind fun _ => course_visitStmtOption alternate
  | .for head test update body => by
    refine .node (.stmt _) rfl ?_
    rw [visitStmt]
    refine .inScope rfl ((course_visitLoopHead head).bind fun _ => ?_)
    refine (course_visitOption test).bind fun _ => ?_
    exact (course_visitOption update).bind fun _ => course_visitStmt body
  | .forEach head iterated body => by
    refine .node (.stmt _) rfl ?_
    rw [visitStmt]
    refine .inScope rfl ((course_visit .value iterated).bind fun _ => ?_)
    exact (Course.head (course_bindLoopHead head)).bind fun _ => course_visitStmt body
  | .while test body => by
    refine .node (.stmt _) rfl ?_
    rw [visitStmt]
    exact (course_visit .value test).bind fun _ => course_visitStmt body
  | .doWhile body test => by
    refine .node (.stmt _) rfl ?_
    rw [visitStmt]
    refine (course_visitStmt body).bind fun _ => ?_
    exact .ending (course_visit .value test) fun _ => .pure _
  | .labeled body => by
    refine .node (.stmt _) rfl ?_
    rw [visitStmt]
    exact course_visitStmt body
  | .switch subject cases => by
    refine .node (.stmt _) rfl ?_
    rw [visitStmt]
    refine (course_visit .value subject).bind fun _ => ?_
    exact .inScope rfl ((Course.hoistCases cases).bind fun _ => course_visitCases cases)
  | .try body param none finalizer => by
    refine .node (.stmt _) rfl ?_
    rw [visitStmt]
    exact (course_visitStmt body).bind fun _ => course_visitStmtOption finalizer
  | .try body param (some handler) finalizer => by
    refine .node (.stmt _) rfl ?_
    rw [visitStmt]
    have hhandler := (course_visitCatchParam param).bind fun _ => course_visitStmt handler
    refine (course_visitStmt body).bind fun _ => ?_
    exact (Course.inScope rfl hhandler).bind fun _ => course_visitStmtOption finalizer
  | .with object body => by
    refine .node (.stmt _) rfl ?_
    rw [visitStmt]
    exact (course_visit .value object).bind fun _ => course_visitStmt body
  | .inert => by
    refine .node (.stmt _) rfl ?_
    rw [visitStmt]
    exact .pure _

/-- A statement that may be left out. -/
theorem course_visitStmtOption : ∀ s : Option Stmt,
    Course (visitStmtOption s) (s.toList.map (.enter <| .stmt ·))
  | none => by
    rw [visitStmtOption]
    exact .pure _
  | some s => by
    rw [visitStmtOption]
    exact course_visitStmt s

/-- Statements have a leg each. -/
theorem course_visitStmts : ∀ ss : List Stmt, Course (visitStmts ss) (ss.map (.enter <| .stmt ·))
  | [] => by
    rw [visitStmts]
    exact .pure _
  | s :: rest => by
    rw [visitStmts]
    exact (course_visitStmt s).bind fun _ => course_visitStmts rest

/-- The pattern for what is caught declares its names first. -/
theorem course_visitCatchParam : ∀ p : Option Pattern,
    Course (visitCatchParam p) (Pattern.caughtLegs p)
  | none => by
    rw [visitCatchParam]
    exact .pure _
  | some p => by
    rw [visitCatchParam]
    refine (Course.declare _ _).bind fun _ => ?_
    exact .skip (.vertex rfl) fun unknown => course_bind p (some unknown)

/-- The first part of a loop that counts is a piece of its own. -/
theorem course_visitLoopHead : ∀ h : LoopHead, Course (visitLoopHead h) [.enter (.head h)]
  | .decl (.vars kind declarators) => by
    rw [visitLoopHead]
    refine .inner rfl ((Course.hoist _).bind fun _ => ?_)
    exact course_visitDeclarators declarators
  | .expr e => by
    rw [visitLoopHead]
    exact .inner rfl (.ending (course_visit .value e) fun _ => .pure _)
  | .decl (.function _ _) | .decl (.class _ _) | .decl (.using _) | .decl .inert
  | .pattern _ | .absent => by
    unfold visitLoopHead
    exact .inner rfl (.pure _)

/-- The first part of a loop over the elements of a value is not walked as a piece: what it binds
gets no value, and an initializer in it is passed over. -/
theorem course_bindLoopHead : ∀ h : LoopHead, Course (bindLoopHead h) h.boundLegs
  | .decl (.vars kind declarators) => by
    rw [bindLoopHead]
    exact course_bindHeadDeclarators kind declarators
  | .pattern p => by
    rw [bindLoopHead]
    exact course_bind p none
  | .decl (.function _ _) | .decl (.class _ _) | .decl (.using _) | .decl .inert
  | .expr _ | .absent => by
    unfold bindLoopHead
    exact .pure _

/-- The declarators in such a part. -/
theorem course_bindHeadDeclarators (kind : VarKind) : ∀ ds : List Declarator,
    Course (bindHeadDeclarators kind ds) (LoopHead.decl (.vars kind ds)).boundLegs
  | [] => by
    rw [bindHeadDeclarators]
    exact .pure _
  | .mk target init :: rest => by
    rw [bindHeadDeclarators]
    refine (Course.hoist (.vars kind [.mk target init])).bind fun _ => ?_
    exact (course_bind target none).bind fun _ => course_bindHeadDeclarators kind rest

/-- The cases of a switch. -/
theorem course_visitCases : ∀ cs : List Case, Course (visitCases cs) (cs.map (.enter <| .case ·))
  | [] => by
    rw [visitCases]
    exact .pure _
  | .mk test body :: rest => by
    rw [visitCases]
    refine .pass rfl ?_
    rw [Piece.legs, List.append_assoc]
    refine (course_visitOption test).bind fun _ => ?_
    exact (course_visitStmts body).bind fun _ => course_visitCases rest

/-- A declaration. A class without a constructor does not ask for its name. -/
theorem course_visitDecl : ∀ d : Decl, Course (visitDecl d) [.enter (.decl d)]
  | .function name f => by
    rw [visitDecl]
    refine .inner rfl ((course_visitFunction (some name) none false f).bind fun _ => ?_)
    exact .skip (.vertex rfl) fun _ => .ending (.resolve name) fun _ => .idle (.edge _ _)
  | .class name c => by
    rw [visitDecl]
    refine .inner rfl (.bindOf (P := fun constructor => constructor.isSome = c.hasConstructor)
      (isSome_visitClass (some name) none c) (course_visitClass (some name) none c)
        fun constructor h => ?_)
    rw [← h]
    cases constructor with
    | none => exact .pure _
    | some constructor => exact .ending (.resolve name) fun _ => .idle (.edge _ _)
  | .vars _ declarators => by
    rw [visitDecl]
    exact .inner rfl (course_visitDeclarators declarators)
  | .using declarators => by
    rw [visitDecl]
    exact .inner rfl (course_visitResources declarators)
  | .inert => by
    rw [visitDecl]
    exact .inner rfl (.pure _)

/-- The declarators of a declaration. -/
theorem course_visitDeclarators : ∀ ds : List Declarator,
    Course (visitDeclarators ds) (ds.map (.enter <| .declarator ·))
  | [] => by
    rw [visitDeclarators]
    exact .pure _
  | .mk target none :: rest => by
    rw [visitDeclarators]
    refine .pass rfl ?_
    exact (course_bind target none).bind fun _ => course_visitDeclarators rest
  | .mk target (some init) :: rest => by
    rw [visitDeclarators_init]
    refine .pass rfl ?_
    refine (course_visit (initRole target) init).bind fun value => ?_
    exact (course_bind target value.result).bind fun _ => course_visitDeclarators rest

/-- The declarators of a `using` declaration. -/
theorem course_visitResources : ∀ ds : List Declarator,
    Course (visitResources ds) (ds.map (.enter <| .declarator ·))
  | [] => by
    rw [visitResources]
    exact .pure _
  | .mk target init :: rest => by
    rw [visitResources]
    refine .pass rfl ?_
    rw [Piece.legs, List.append_assoc]
    refine (course_visitOption init).bind fun value => ?_
    exact (course_bind target value).bind fun _ => course_visitResources rest

end

/-! ## Items of a module -/

/-- An item of a module. -/
theorem course_visitItem (item : ModuleItem) : Course (visitItem item) item.legs := by
  cases item with
  | stmt s => exact course_visitStmt s
  | importNames source specifiers =>
    exact (Course.forM (Course.importName source) specifiers).congr (List.map_eq_flatMap ..).symm
  | importEquals name source =>
    cases source with
    | none => exact .pure ()
    | some source => exact .ending (.resolve name) fun _ => .idle (.addImport _ _ _)
  | exportDecl d =>
    refine (course_visitDecl d).bind fun _ => ?_
    exact (Course.forM (fun name => .exportName name name) d.exportedNames).congr
      (List.map_eq_flatMap ..).symm
  | exportDefaultFunction name f =>
    refine (course_visitFunction name none false f).bind fun _ =>
      .skip (.vertex rfl) fun value => ?_
    exact .ending (.bindDefault name value) fun _ => .idle (.addExport _ _)
  | exportDefaultClass name c =>
    refine .bindOf (P := fun constructor => constructor.isSome = c.hasConstructor)
      (isSome_visitClass name none c) (course_visitClass name none c) fun constructor h => ?_
    rw [← h]
    cases constructor with
    | none => exact .pure ()
    | some constructor =>
      exact .ending (.bindDefault name constructor) fun _ => .idle (.addExport _ _)
  | exportDefaultExpr e =>
    exact .ending (course_visit (.named "default") e) fun _ => .idle (.exportValue _)
  | exportAssignment e =>
    exact .ending (course_visit .value e) fun _ => .idle (.exportValue _)
  | exportNames source specifiers =>
    cases source with
    | none =>
      exact (Course.forM (fun s : ExportSpecifier => .exportName s.given s.exported)
        specifiers).congr (List.map_eq_flatMap ..).symm
    | some source => exact .idle (.forM (.relayName source) specifiers)
  | inert => exact .pure ()

/-- A module goes through the legs of its items, with all that they declare before the first one. -/
theorem course_visitModule (m : Module) : Course (visitModule m) m.legs :=
  (Course.declareEach Course.hoistItem m.items).bind fun _ => .forM course_visitItem m.items

end CallFlow.Walk
