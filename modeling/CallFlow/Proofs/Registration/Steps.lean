import CallFlow.Proofs.Registration.Once
import CallFlow.Proofs.Syntax.Pieces

/-!
# The steps of a walk

A walk takes the parts of a piece of syntax in a fixed order, and some parts it does not enter:
decorators of fields, of private methods and of parameters, a fragment that is the value of an
attribute, what initialises the head of a `for … in`, targets that an assignment leaves alone.
`Piece.steps` says so piece by piece. The sites of a piece are its own and those of its parts; a
walk comes to its own and to those of the parts that it enters.
-/

namespace CallFlow.Syntax

/-- What a walk does with a part of a piece. -/
inductive Step
  | enter (part : Piece)
  | passOver (part : Piece)

/-- The part, entered or not. -/
def Step.part : Step → Piece
  | enter part | passOver part => part

@[simp]
theorem Step.part_enter (part : Piece) : (enter part).part = part := rfl

@[simp]
theorem Step.part_passOver (part : Piece) : (passOver part).part = part := rfl

/-- What is found in a part, if it is entered. -/
def Step.ifEntered (find : Piece → List Site) : Step → List Site
  | enter part => find part
  | passOver _ => []

@[simp]
theorem Step.ifEntered_enter (find : Piece → List Site) (part : Piece) :
    (enter part).ifEntered find = find part := rfl

@[simp]
theorem Step.ifEntered_passOver (find : Piece → List Site) (part : Piece) :
    (passOver part).ifEntered find = [] := rfl

/-- A part that is entered on a condition. -/
def Step.enterIf (condition : Bool) (part : Piece) : Step :=
  if condition then enter part else passOver part

@[simp]
theorem Step.part_enterIf (condition : Bool) (part : Piece) :
    (enterIf condition part).part = part := by
  cases condition <;> rfl

@[simp]
theorem Step.ifEntered_enterIf (find : Piece → List Site) (condition : Bool) (part : Piece) :
    (enterIf condition part).ifEntered find = if condition then find part else [] := by
  cases condition <;> rfl

/-- The lists of attributes, declarators and cases are matched member by member, and so one of them
is a list of one. -/
def Attribute.sites (a : Attribute) : List Site := Attribute.sitesAll [a]

def Declarator.sites (d : Declarator) : List Site := Declarator.sitesAll [d]

def Case.sites (c : Case) : List Site := Case.sitesAll [c]

def Attribute.visits (receiver : Bool) (a : Attribute) : List Visit :=
  Attribute.visitsAll receiver [a]

def Declarator.visits (receiver : Bool) (d : Declarator) : List Visit :=
  Declarator.visitsAll receiver [d]

def Case.visits (receiver : Bool) (c : Case) : List Visit := Case.visitsAll receiver [c]

namespace Piece

/-- The call or the function that a piece itself is. -/
def site? : Piece → Option Site
  | expr e => e.callShape?.map fun shape => .call shape.kind shape.span
  | func f => some (.function f.span)
  | _ => none

/-- The sites of a tree. -/
def sites : Piece → List Site
  | expr e => e.sites
  | key k => k.sites
  | property p => p.sites
  | attr a => a.sites
  | func f => f.sites
  | body b => b.sites
  | param p => p.sites
  | .class c => c.sites
  | member m => m.sites
  | pattern p => p.sites
  | field f => f.sites
  | decl d => d.sites
  | declarator d => d.sites
  | stmt s => s.sites
  | head h => h.sites
  | .case c => c.sites

/-- What a walk over a tree comes to. -/
def visits (receiver : Bool) : Piece → List Visit
  | expr e => e.visits receiver
  | key k => k.visits receiver
  | property p => p.visits receiver
  | attr a => a.visits receiver
  | func f => f.visits receiver
  | body b => b.visits receiver
  | param p => p.visits receiver
  | .class c => c.visits receiver
  | member m => m.visits receiver
  | pattern p => p.visits receiver
  | field f => f.visits receiver
  | decl d => d.visits receiver
  | declarator d => d.visits receiver
  | stmt s => s.visits receiver
  | head h => h.visits receiver
  | .case c => c.visits receiver

end Piece

/-- The head of a `for … in` or a `for … of`: declared names are bound, what initialises them and
heads that declare anything else are passed over. -/
def LoopHead.boundSteps : LoopHead → List Step
  | .decl (.vars _ declarators) => declarators.flatMap fun
    | .mk target init => init.toList.map (.passOver <| .expr ·) ++ [.enter (.pattern target)]
  | .pattern p => [.enter (.pattern p)]
  | .decl d => [.passOver (.decl d)]
  | .expr e => [.passOver (.expr e)]
  | .absent => []

/-- The parts of a piece in the order of a walk. -/
def Piece.steps : Piece → List Step
  | expr e =>
    match e with
    | .ident _ | .this | .string _ | .literal => []
    | .function _ f | .arrow f => [.enter (func f)]
    | .class _ c => [.enter (.class c)]
    | .call _ _ callee args | .construct _ callee args => (callee :: args).map (.enter <| expr ·)
    | .tagged _ tag substitutions => (tag :: substitutions).map (.enter <| expr ·)
    | .member _ object k => [.enter (expr object), .enter (key k)]
    | .superMember k => [.enter (key k)]
    -- a target with a type or an optional chain is left alone
    | .assign _ target value =>
      [.enter (expr value), .enterIf (!target.isLeftAlone) (pattern target)]
    | .logical _ left right => [left, right].map (.enter <| expr ·)
    | .conditional _ test consequent alternate =>
      [test, consequent, alternate].map (.enter <| expr ·)
    | .paren inner | .await inner | .typed inner | .spread inner => [.enter (expr inner)]
    | .sequence operands | .array operands | .untracked operands =>
      operands.map (.enter <| expr ·)
    | .object properties => properties.map (.enter <| property ·)
    | .element attributes children =>
      attributes.map (.enter <| attr ·) ++ children.map (.enter <| expr ·)
  | key k =>
    match k with
    | .computed e => [.enter (expr e)]
    | .named _ | .privateName _ | .untracked => []
  | property p =>
    match p with
    | .keyValue k value => [.enter (key k), .enter (expr value)]
    | .shorthand _ => []
    | .shorthandDefault _ value => [.enter (expr value)]
    | .method k f => [.enter (key k), .enter (func f)]
    | .spread e => [.enter (expr e)]
  | attr a =>
    match a with
    | .value e => [.enter (expr e)]
    -- a fragment in the place of a value is not looked into
    | .fragment children => children.map (.passOver <| expr ·)
  | func (.mk params b _) => params.map (.enter <| param ·) ++ [.enter (body b)]
  | body b =>
    match b with
    | .block stmts => stmts.map (.enter <| stmt ·)
    | .expr result => [.enter (expr result)]
    | .absent => []
  | param p =>
    match p with
    -- decorators of parameters are never walked
    | .pattern decorators p => decorators.map (.passOver <| expr ·) ++ [.enter (pattern p)]
    | .property decorators _ default =>
      decorators.map (.passOver <| expr ·) ++ default.toList.map (.enter <| expr ·)
    -- a parameter property binds one name, and one with a pattern binds none
    | .propertyPattern decorators p default =>
      decorators.map (.passOver <| expr ·) ++ [.passOver (pattern p), .passOver (expr default)]
  | .class (.mk decorators heritage members) =>
    (decorators ++ heritage.toList).map (.enter <| expr ·) ++ members.map (.enter <| member ·)
  | member m =>
    match m with
    | .constructor f => [.enter (func f)]
    | .method decorators k f =>
      -- the decorators of a private method are never walked
      decorators.map (.enterIf (!k.isPrivate) <| expr ·) ++ [.enter (key k), .enter (func f)]
    | .field decorators k value =>
      decorators.map (.passOver <| expr ·) ++ .enter (key k) :: value.toList.map (.enter <| expr ·)
    | .staticBlock stmts => stmts.map (.enter <| stmt ·)
  | pattern p =>
    match p with
    | .ident _ => []
    | .array elements => elements.map (.enter <| pattern ·)
    | .object fields => fields.map (.enter <| field ·)
    | .rest inner => [.enter (pattern inner)]
    | .withDefault inner value => [.enter (expr value), .enter (pattern inner)]
    | .expr target => [.enter (expr target)]
  | field f =>
    match f with
    | .keyValue k value => [.enter (key k), .enter (pattern value)]
    | .shorthand _ default => default.toList.map (.enter <| expr ·)
    | .rest inner => [.enter (pattern inner)]
  | decl d =>
    match d with
    | .function _ f => [.enter (func f)]
    | .class _ c => [.enter (.class c)]
    | .vars _ declarators | .using declarators => declarators.map (.enter <| declarator ·)
    | .inert => []
  | declarator (.mk target init) => init.toList.map (.enter <| expr ·) ++ [.enter (pattern target)]
  | stmt s =>
    match s with
    | .decl d => [.enter (decl d)]
    | .expr e | .throw e => [.enter (expr e)]
    | .block stmts => stmts.map (.enter <| stmt ·)
    | .ret value => value.toList.map (.enter <| expr ·)
    | .cond test consequent alternate =>
      .enter (expr test) :: (consequent :: alternate.toList).map (.enter <| stmt ·)
    | .for h test update b =>
      .enter (head h) :: (test.toList ++ update.toList).map (.enter <| expr ·) ++ [.enter (stmt b)]
    -- only the bound names of the head are walked, after what is iterated
    | .forEach h iterated b => .enter (expr iterated) :: h.boundSteps ++ [.enter (stmt b)]
    | .while test b | .with test b => [.enter (expr test), .enter (stmt b)]
    | .doWhile b test => [.enter (stmt b), .enter (expr test)]
    | .labeled b => [.enter (stmt b)]
    | .switch subject cases => .enter (expr subject) :: cases.map (.enter <| .case ·)
    -- without a handler nothing binds the parameter
    | .try b p handler finalizer =>
      .enter (stmt b) :: p.toList.map (.enterIf handler.isSome <| pattern ·) ++
        (handler.toList ++ finalizer.toList).map (.enter <| stmt ·)
    | .inert => []
  | head h =>
    match h with
    | .absent => []
    | .decl (.vars _ declarators) => declarators.map (.enter <| declarator ·)
    | .decl d => [.passOver (decl d)]
    | .expr e => [.enter (expr e)]
    | .pattern p => [.passOver (pattern p)]
  | .case (.mk test b) => test.toList.map (.enter <| expr ·) ++ b.map (.enter <| stmt ·)

/-! ## Lists of pieces -/

/-- A function that takes the members of a list one by one. -/
theorem eq_flatMap {α β : Type} {f : List α → List β} {g : α → List β} (hnil : f [] = [])
    (hcons : ∀ a as, f (a :: as) = g a ++ f as) (as : List α) : f as = as.flatMap g := by
  induction as with
  | nil => exact hnil
  | cons a as ih => rw [hcons, ih, List.flatMap_cons]

@[simp]
theorem firsts_flatMap {α : Type} (f : α → List Visit) (as : List α) :
    firsts (as.flatMap f) = as.flatMap fun a => firsts (f a) :=
  eq_flatMap (f := fun as => firsts (as.flatMap f)) rfl
    (fun _ _ => (congrArg firsts List.flatMap_cons).trans (firsts_append ..)) as

section

variable (receiver : Bool)

/-- Lists of pieces are taken member by member. So one lemma about `flatMap` serves all of them. -/
theorem Expr.sitesAll_eq (es : List Expr) :
    Expr.sitesAll es = es.flatMap fun e => e.sites :=
  eq_flatMap rfl (fun _ _ => rfl) es

theorem Expr.visitsAll_eq (es : List Expr) :
    Expr.visitsAll receiver es = es.flatMap fun e => e.visits receiver :=
  eq_flatMap rfl (fun _ _ => rfl) es

theorem Property.sitesAll_eq (ps : List Property) :
    Property.sitesAll ps = ps.flatMap fun p => p.sites :=
  eq_flatMap rfl (fun _ _ => rfl) ps

theorem Property.visitsAll_eq (ps : List Property) :
    Property.visitsAll receiver ps = ps.flatMap fun p => p.visits receiver :=
  eq_flatMap rfl (fun _ _ => rfl) ps

theorem Pattern.sitesAll_eq (ps : List Pattern) :
    Pattern.sitesAll ps = ps.flatMap fun p => p.sites :=
  eq_flatMap rfl (fun _ _ => rfl) ps

theorem Pattern.visitsAll_eq (ps : List Pattern) :
    Pattern.visitsAll receiver ps = ps.flatMap fun p => p.visits receiver :=
  eq_flatMap rfl (fun _ _ => rfl) ps

theorem PatternField.sitesAll_eq (fs : List PatternField) :
    PatternField.sitesAll fs = fs.flatMap fun f => f.sites :=
  eq_flatMap rfl (fun _ _ => rfl) fs

theorem PatternField.visitsAll_eq (fs : List PatternField) :
    PatternField.visitsAll receiver fs = fs.flatMap fun f => f.visits receiver :=
  eq_flatMap rfl (fun _ _ => rfl) fs

theorem Param.sitesAll_eq (ps : List Param) :
    Param.sitesAll ps = ps.flatMap fun p => p.sites :=
  eq_flatMap rfl (fun _ _ => rfl) ps

theorem Param.visitsAll_eq (ps : List Param) :
    Param.visitsAll receiver ps = ps.flatMap fun p => p.visits receiver :=
  eq_flatMap rfl (fun _ _ => rfl) ps

theorem Member.sitesAll_eq (ms : List Member) :
    Member.sitesAll ms = ms.flatMap fun m => m.sites :=
  eq_flatMap rfl (fun _ _ => rfl) ms

theorem Member.visitsAll_eq (ms : List Member) :
    Member.visitsAll receiver ms = ms.flatMap fun m => m.visits receiver :=
  eq_flatMap rfl (fun _ _ => rfl) ms

theorem Stmt.sitesAll_eq (ss : List Stmt) :
    Stmt.sitesAll ss = ss.flatMap fun s => s.sites :=
  eq_flatMap rfl (fun _ _ => rfl) ss

theorem Stmt.visitsAll_eq (ss : List Stmt) :
    Stmt.visitsAll receiver ss = ss.flatMap fun s => s.visits receiver :=
  eq_flatMap rfl (fun _ _ => rfl) ss

theorem Attribute.sitesAll_eq (as : List Attribute) :
    Attribute.sitesAll as = as.flatMap fun a => a.sites :=
  eq_flatMap rfl (fun a _ => by cases a <;> simp [Attribute.sites, Attribute.sitesAll]) as

theorem Attribute.visitsAll_eq (as : List Attribute) :
    Attribute.visitsAll receiver as = as.flatMap fun a => a.visits receiver :=
  eq_flatMap rfl (fun a _ => by cases a <;> simp [Attribute.visits, Attribute.visitsAll]) as

theorem Declarator.sitesAll_eq (ds : List Declarator) :
    Declarator.sitesAll ds = ds.flatMap fun d => d.sites :=
  eq_flatMap rfl (fun d _ => by cases d; simp [Declarator.sites, Declarator.sitesAll]) ds

theorem Declarator.visitsAll_eq (ds : List Declarator) :
    Declarator.visitsAll receiver ds = ds.flatMap fun d => d.visits receiver :=
  eq_flatMap rfl (fun d _ => by cases d; simp [Declarator.visits, Declarator.visitsAll]) ds

theorem Case.sitesAll_eq (cs : List Case) :
    Case.sitesAll cs = cs.flatMap fun c => c.sites :=
  eq_flatMap rfl (fun c _ => by cases c; simp [Case.sites, Case.sitesAll]) cs

theorem Case.visitsAll_eq (cs : List Case) :
    Case.visitsAll receiver cs = cs.flatMap fun c => c.visits receiver :=
  eq_flatMap rfl (fun c _ => by cases c; simp [Case.visits, Case.visitsAll]) cs

theorem Declarator.targetVisitsAll_eq (ds : List Declarator) :
    Declarator.targetVisitsAll receiver ds =
      ds.flatMap fun d => Declarator.targetVisitsAll receiver [d] :=
  eq_flatMap rfl (fun d _ => by cases d; simp [Declarator.targetVisitsAll]) ds

theorem Expr.sitesOption_eq (e : Option Expr) :
    Expr.sitesOption e = e.toList.flatMap fun e => e.sites := by
  cases e <;> simp [Expr.sitesOption]

theorem Expr.visitsOption_eq (e : Option Expr) :
    Expr.visitsOption receiver e = e.toList.flatMap fun e => e.visits receiver := by
  cases e <;> simp [Expr.visitsOption]

theorem Pattern.sitesOption_eq (p : Option Pattern) :
    Pattern.sitesOption p = p.toList.flatMap fun p => p.sites := by
  cases p <;> simp [Pattern.sitesOption]

theorem Pattern.visitsOption_eq (p : Option Pattern) :
    Pattern.visitsOption receiver p = p.toList.flatMap fun p => p.visits receiver := by
  cases p <;> simp [Pattern.visitsOption]

theorem Stmt.sitesOption_eq (s : Option Stmt) :
    Stmt.sitesOption s = s.toList.flatMap fun s => s.sites := by
  cases s <;> simp [Stmt.sitesOption]

theorem Stmt.visitsOption_eq (s : Option Stmt) :
    Stmt.visitsOption receiver s = s.toList.flatMap fun s => s.visits receiver := by
  cases s <;> simp [Stmt.visitsOption]

end

@[simp]
theorem firsts_cons_first (site : Site) (visits : List Visit) :
    firsts (.first site :: visits) = site :: firsts visits := rfl

@[simp]
theorem firsts_nil : firsts [] = [] := rfl

/-! ## One piece at a time

The sites of a piece are its own and those of its parts. A walk comes to its own and to those of
the parts that it enters. -/

/-- The steps over the head of a `for … in` have all its sites: those of an initialiser are passed
over. -/
theorem LoopHead.sites_eq (h : LoopHead) :
    h.sites = h.boundSteps.flatMap fun step => step.part.sites := by
  cases h with
  | decl d =>
    cases d with
    | vars kind declarators =>
      rw [LoopHead.sites, Decl.sites, Declarator.sitesAll_eq, boundSteps, List.flatMap_assoc]
      -- both sides take the declarators one by one
      congr 1
      funext d
      obtain ⟨target, init⟩ := d
      cases init <;> simp [Declarator.sites, Declarator.sitesAll, Expr.sitesOption, Piece.sites]
    | _ => simp [boundSteps, Piece.sites, LoopHead.sites]
  | _ => simp [boundSteps, Piece.sites, LoopHead.sites]

/-- A walk comes to what is in the bound names, and not to what is in an initialiser. -/
theorem LoopHead.firsts_boundVisits (receiver : Bool) (h : LoopHead) :
    firsts (h.boundVisits receiver) = h.boundSteps.flatMap fun step =>
      step.ifEntered fun part => firsts (part.visits receiver) := by
  cases h with
  | decl d =>
    cases d with
    | vars kind declarators =>
      rw [boundVisits, Declarator.targetVisitsAll_eq, boundSteps, List.flatMap_assoc,
        firsts_flatMap]
      congr 1
      funext d
      obtain ⟨target, init⟩ := d
      cases init <;> simp [Declarator.targetVisitsAll, Piece.visits]
    | _ => simp [boundSteps, boundVisits]
  | _ => simp [boundSteps, boundVisits, Piece.visits]

namespace Piece

/-- The sites of a piece are its own and those of the parts that a walk enters or passes over, in
the order of the walk. -/
theorem sites_eq (p : Piece) :
    p.sites = p.site?.toList ++ p.steps.flatMap fun step => step.part.sites := by
  cases p with
  | expr e =>
    cases e <;> simp [sites, site?, steps, Expr.sites, Expr.callShape?, List.flatMap_map,
      Expr.sitesAll_eq, Property.sitesAll_eq, Attribute.sitesAll_eq]
  | key k => cases k <;> simp [sites, site?, steps, Key.sites]
  | property p => cases p <;> simp [sites, site?, steps, Property.sites]
  | attr a =>
    cases a <;> simp [sites, site?, steps, Attribute.sites, Attribute.sitesAll, List.flatMap_map,
      Expr.sitesAll_eq]
  | func f =>
    cases f
    simp [sites, site?, steps, Func.sites, Func.span, List.flatMap_map, Param.sitesAll_eq]
  | body b =>
    cases b <;> simp [sites, site?, steps, Body.sites, List.flatMap_map, Stmt.sitesAll_eq]
  | param p =>
    cases p <;> simp [sites, site?, steps, Param.sites, List.flatMap_map, Expr.sitesAll_eq,
      Expr.sitesOption_eq]
  | «class» c =>
    cases c
    simp [sites, site?, steps, Class.sites, List.flatMap_map, Expr.sitesAll_eq,
      Expr.sitesOption_eq, Member.sitesAll_eq]
  | member m =>
    cases m <;> simp [sites, site?, steps, Member.sites, List.flatMap_map, Expr.sitesAll_eq,
      Expr.sitesOption_eq, Stmt.sitesAll_eq]
  | pattern p =>
    cases p <;> simp [sites, site?, steps, Pattern.sites, List.flatMap_map, Pattern.sitesAll_eq,
      PatternField.sitesAll_eq]
  | field f =>
    cases f <;> simp [sites, site?, steps, PatternField.sites, List.flatMap_map,
      Expr.sitesOption_eq]
  | decl d =>
    cases d <;> simp [sites, site?, steps, Decl.sites, List.flatMap_map, Declarator.sitesAll_eq]
  | declarator d =>
    cases d
    simp [sites, site?, steps, Declarator.sites, Declarator.sitesAll, List.flatMap_map,
      Expr.sitesOption_eq]
  | stmt s =>
    cases s with
    -- the head has steps of its own here
    | forEach h iterated b => simp [sites, site?, steps, Stmt.sites, LoopHead.sites_eq h]
    | _ =>
      simp [sites, site?, steps, Stmt.sites, List.flatMap_map, Stmt.sitesAll_eq,
        Expr.sitesOption_eq, Stmt.sitesOption_eq, Case.sitesAll_eq, Pattern.sitesOption_eq]
  | head h =>
    cases h with
    | decl d =>
      cases d <;> simp [sites, site?, steps, LoopHead.sites, Decl.sites, List.flatMap_map,
        Declarator.sitesAll_eq]
    | _ => simp [sites, site?, steps, LoopHead.sites]
  | «case» c =>
    cases c
    simp [sites, site?, steps, Case.sites, Case.sitesAll, List.flatMap_map, Expr.sitesOption_eq,
      Stmt.sitesAll_eq]

/-- The same of all parts, without an order. -/
theorem mem_sites_iff_parts {p : Piece} {site : Site} :
    site ∈ p.sites ↔ site ∈ p.site?.toList ++ p.parts.flatMap sites := by
  cases p with
  | expr e =>
    -- walks take the target of an assignment last, `parts` has it first
    cases e <;> simp [sites, List.flatMap_map, site?, parts, Expr.sites, Expr.callShape?,
      Expr.sitesAll_eq, Property.sitesAll_eq, Attribute.sitesAll_eq, or_comm]
  | key k => cases k <;> simp [sites, site?, parts, Key.sites]
  | property p => cases p <;> simp [sites, site?, parts, Property.sites]
  | attr a =>
    cases a <;> simp [sites, List.flatMap_map, site?, parts, Attribute.sites, Attribute.sitesAll,
      Expr.sitesAll_eq]
  | func f =>
    cases f
    simp [sites, List.flatMap_map, site?, parts, Func.sites, Func.span, Param.sitesAll_eq, or_comm]
  | body b =>
    cases b <;> simp [sites, List.flatMap_map, site?, parts, Body.sites, Stmt.sitesAll_eq]
  | param p =>
    cases p <;> simp [sites, List.flatMap_map, site?, parts, Param.sites, Expr.sitesAll_eq,
      Expr.sitesOption_eq, or_comm, or_left_comm, or_assoc]
  | «class» c =>
    cases c
    simp [sites, List.flatMap_map, site?, parts, Class.sites, Expr.sitesAll_eq,
      Expr.sitesOption_eq, Member.sitesAll_eq]
  | member m =>
    cases m <;> simp [sites, List.flatMap_map, site?, parts, Member.sites, Expr.sitesAll_eq,
      Expr.sitesOption_eq, Stmt.sitesAll_eq, or_comm, or_left_comm, or_assoc]
  | pattern p =>
    cases p <;> simp [sites, List.flatMap_map, site?, parts, Pattern.sites, Pattern.sitesAll_eq,
      PatternField.sitesAll_eq, or_comm]
  | field f =>
    cases f <;> simp [sites, List.flatMap_map, site?, parts, PatternField.sites,
      Expr.sitesOption_eq]
  | decl d =>
    cases d <;> simp [sites, List.flatMap_map, site?, parts, Decl.sites, Declarator.sitesAll_eq]
  | declarator d =>
    cases d
    simp [sites, List.flatMap_map, site?, parts, Declarator.sites, Declarator.sitesAll,
      Expr.sitesOption_eq, or_comm]
  | stmt s =>
    cases s <;> simp [sites, List.flatMap_map, site?, parts, Stmt.sites, Stmt.sitesAll_eq,
        Expr.sitesOption_eq, Stmt.sitesOption_eq, Case.sitesAll_eq, Pattern.sitesOption_eq,
        or_comm, or_left_comm]
  | head h =>
    cases h <;> simp [sites, site?, parts, LoopHead.sites]
  | «case» c =>
    cases c
    simp [sites, List.flatMap_map, site?, parts, Case.sites, Case.sitesAll, Expr.sitesOption_eq,
      Stmt.sitesAll_eq]

/-- Whether there is a receiver in a part of a property, member or declaration. -/
def receiverWithin (receiver : Bool) : Piece → Bool
  | .func _ => true
  | _ => receiver

/-- `inner` is the receiver in each part: a function that is not an arrow has its own. -/
theorem firsts_visits_eq (receiver : Bool) (p : Piece) :
    ∃ inner : Piece → Bool, firsts (p.visits receiver) = p.site?.toList ++
      p.steps.flatMap fun step =>
        step.ifEntered fun part => firsts (part.visits (inner part)) := by
  cases p with
  | expr e =>
    cases e with
    | function _ f =>
      exact ⟨fun _ => true, by simp [visits, steps, site?, Expr.callShape?, Expr.visits]⟩
    | assign _ target value =>
      refine ⟨fun _ => receiver, ?_⟩
      -- both sides ask whether the target is left alone
      cases h : target.isLeftAlone <;>
        simp [visits, steps, site?, Expr.callShape?, Expr.visits, h]
    | _ =>
      exact ⟨fun _ => receiver, by
        simp [visits, steps, site?, Expr.callShape?, Expr.visits, firsts_append,
          List.flatMap_map, Expr.visitsAll_eq, Property.visitsAll_eq,
          Attribute.visitsAll_eq]⟩
  | key k => exact ⟨fun _ => receiver, by cases k <;> simp [visits, steps, site?, Key.visits]⟩
  | property p =>
    refine ⟨receiverWithin receiver, ?_⟩
    cases p <;> simp [visits, steps, site?, Property.visits, receiverWithin]
  | attr a =>
    refine ⟨fun _ => receiver, ?_⟩
    cases a <;> simp [visits, steps, site?, Attribute.visits, Attribute.visitsAll, List.flatMap_map]
  | func f =>
    obtain ⟨params, body, span⟩ := f
    exact ⟨fun _ => receiver, by
      simp [visits, steps, site?, Func.visits, Func.span, firsts_cons_first,
        List.flatMap_map, Param.visitsAll_eq]⟩
  | body b =>
    refine ⟨fun _ => receiver, ?_⟩
    cases b <;> simp [visits, steps, site?, Body.visits, List.flatMap_map, Stmt.visitsAll_eq]
  | param p =>
    refine ⟨fun _ => receiver, ?_⟩
    cases p <;>
      simp [visits, steps, site?, Param.visits, List.flatMap_map, Expr.visitsOption_eq]
  | «class» c =>
    obtain ⟨decorators, heritage, members⟩ := c
    exact ⟨fun _ => receiver, by
      simp [visits, steps, site?, Class.visits, List.flatMap_map,
        Expr.visitsAll_eq, Expr.visitsOption_eq, Member.visitsAll_eq]⟩
  | member m =>
    refine ⟨receiverWithin receiver, ?_⟩
    cases m with
    -- the decorators of a private method are passed over on both sides
    | method decorators key f =>
      cases h : key.isPrivate <;> simp [visits, steps, site?, Member.visits, firsts_append,
        List.flatMap_map, Expr.visitsAll_eq, receiverWithin, h]
    | _ =>
      simp [visits, steps, site?, Member.visits, List.flatMap_map,
        Expr.visitsOption_eq, Stmt.visitsAll_eq, receiverWithin]
  | pattern p =>
    refine ⟨fun _ => receiver, ?_⟩
    cases p with
    | withDefault inner value =>
      -- the second walk over the left side comes to nothing new
      cases h : value.yields receiver <;>
        simp [visits, steps, site?, Pattern.visits, h]
    | _ =>
      simp [visits, steps, site?, Pattern.visits, List.flatMap_map, Pattern.visitsAll_eq,
        PatternField.visitsAll_eq]
  | field f =>
    refine ⟨fun _ => receiver, ?_⟩
    cases f <;> simp [visits, steps, site?, PatternField.visits, List.flatMap_map,
      Expr.visitsOption_eq]
  | decl d =>
    refine ⟨receiverWithin receiver, ?_⟩
    cases d <;>
      simp [visits, steps, site?, Decl.visits, List.flatMap_map, Declarator.visitsAll_eq,
        receiverWithin]
  | declarator d =>
    obtain ⟨target, init⟩ := d
    exact ⟨fun _ => receiver, by
      simp [visits, steps, site?, Declarator.visits, Declarator.visitsAll, firsts_append,
        List.flatMap_map, Expr.visitsOption_eq]⟩
  | stmt s =>
    refine ⟨fun _ => receiver, ?_⟩
    cases s with
    | forEach h iterated b =>
      simp [visits, steps, site?, Stmt.visits, LoopHead.firsts_boundVisits]
    | «try» b p handler finalizer =>
      cases handler <;> simp [visits, steps, site?, Stmt.visits, List.flatMap_map,
        Stmt.visitsOption_eq, Pattern.visitsOption_eq]
    | _ =>
      simp [visits, steps, site?, Stmt.visits, List.flatMap_map,
        Stmt.visitsAll_eq, Expr.visitsOption_eq, Stmt.visitsOption_eq,
        Case.visitsAll_eq]
  | head h =>
    refine ⟨fun _ => receiver, ?_⟩
    cases h with
    | decl d =>
      cases d <;> simp [visits, steps, site?, LoopHead.visits, List.flatMap_map,
        Declarator.visitsAll_eq]
    | _ => simp [visits, steps, site?, LoopHead.visits]
  | «case» c =>
    obtain ⟨test, body⟩ := c
    exact ⟨fun _ => receiver, by
      simp [visits, steps, site?, Case.visits, Case.visitsAll, List.flatMap_map,
        Expr.visitsOption_eq, Stmt.visitsAll_eq]⟩

end Piece

/-! ## Parts are smaller

A tree is a finite piece of text, so that a statement about all pieces may assume itself of the
parts. -/

/-- What the head of a loop binds is smaller than the loop. -/
theorem LoopHead.sizeOf_boundSteps {h : LoopHead} {step : Step} (hstep : step ∈ h.boundSteps) :
    sizeOf step.part < sizeOf h + 1 := by
  cases h with
  | decl d =>
    cases d with
    | vars kind declarators =>
      obtain ⟨⟨target, init⟩, hd, hstep⟩ := List.mem_flatMap.1 hstep
      simp at hstep
      grind [Step.part, → List.sizeOf_lt_of_mem]
    | _ => simp [boundSteps] at hstep; grind [Step.part]
  | absent => cases hstep
  | _ => simp [boundSteps] at hstep; grind [Step.part]

theorem Piece.sizeOf_steps {p : Piece} {step : Step} (hstep : step ∈ p.steps) :
    sizeOf step.part < sizeOf p := by
  cases p <;> rename_i x <;> cases x <;> simp [steps] at hstep <;>
    grind [Step.part, Step.part_enterIf, → List.sizeOf_lt_of_mem, → LoopHead.sizeOf_boundSteps]

theorem Piece.sizeOf_parts {p part : Piece} (hpart : part ∈ p.parts) : sizeOf part < sizeOf p := by
  cases p <;> rename_i x <;> cases x <;> simp [parts] at hpart <;>
    grind [→ List.sizeOf_lt_of_mem]

end CallFlow.Syntax
