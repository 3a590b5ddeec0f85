import CallFlow.Proofs.Registration.Sites

/-!
# Walks come to every site once, apart from defaults

What a walk comes to for the first time is a sublist of the sites of the tree, so it comes to none
twice unless the tree has it twice. All further visits are marked and go to sites that it has been
to before.
-/

namespace CallFlow.Syntax

/-- The sites that are visited for the first time. -/
def firsts (visits : List Visit) : List Site :=
  (visits.filter fun v => !v.again).map Visit.site

/-- The sites that are visited again, as often as that happens. -/
def repeats (visits : List Visit) : List Site :=
  (visits.filter Visit.again).map Visit.site

@[simp]
theorem firsts_append (u v : List Visit) : firsts (u ++ v) = firsts u ++ firsts v := by
  simp [firsts]

@[simp]
theorem firsts_repeated (v : List Visit) : firsts (v.map Visit.repeated) = [] := by
  simp [firsts, Visit.repeated]

/-- Every visit is a first one or a further one. -/
theorem perm_firsts_repeats (visits : List Visit) :
    (visits.map Visit.site).Perm (firsts visits ++ repeats visits) := by
  induction visits with
  | nil => exact .nil
  | cons v rest ih =>
    cases hagain : v.again with
    | false =>
      simp only [firsts, repeats, List.filter_cons, hagain, Bool.not_false, if_true,
        Bool.false_eq_true, if_false, List.map_cons, List.cons_append]
      exact ih.cons _
    | true =>
      simp only [firsts, repeats, List.filter_cons, hagain, Bool.not_true, if_true,
        Bool.false_eq_true, if_false, List.map_cons]
      -- a further visit goes behind all the first ones
      exact (ih.cons _).trans List.perm_middle.symm

/-- The visits to a tree with these sites: first ones to some of them in order, and further ones
to the same. -/
structure Covered (visits : List Visit) (sites : List Site) : Prop where
  sublist : (firsts visits).Sublist sites
  grounded : ∀ v ∈ visits, v.site ∈ firsts visits

namespace Covered

variable {u v : List Visit} {s t : List Site}

theorem nil (s : List Site) : Covered [] s :=
  ⟨List.nil_sublist s, fun _ h => absurd h List.not_mem_nil⟩

theorem append (hu : Covered u s) (hv : Covered v t) : Covered (u ++ v) (s ++ t) := by
  refine ⟨?_, fun w hw => ?_⟩
  · rw [firsts_append]
    exact hu.sublist.append hv.sublist
  · rw [firsts_append, List.mem_append]
    rcases List.mem_append.1 hw with h | h
    · exact Or.inl (hu.grounded w h)
    · exact Or.inr (hv.grounded w h)

theorem repeats_mem (hu : Covered u s) : ∀ site ∈ repeats u, site ∈ firsts u := by
  intro site hsite
  obtain ⟨w, hw, rfl⟩ := List.mem_map.1 hsite
  exact hu.grounded w (List.mem_filter.1 hw).1

/-- Parts of the tree may be passed over. -/
theorem skip (s : List Site) (hv : Covered v t) : Covered v (s ++ t) :=
  (nil s).append hv

theorem first (site : Site) (hv : Covered v t) : Covered (.first site :: v) (site :: t) := by
  have hone : Covered [.first site] [site] :=
    ⟨List.Sublist.refl _, fun w hw => by
      rw [List.mem_singleton.1 hw]
      exact List.mem_singleton.2 rfl⟩
  exact hone.append hv

/-- A tree that is walked twice. -/
theorem twice (hv : Covered v t) : Covered (v ++ v.map Visit.repeated) t := by
  have hfirsts : firsts (v ++ v.map Visit.repeated) = firsts v := by
    rw [firsts_append, firsts_repeated, List.append_nil]
  refine ⟨hfirsts ▸ hv.sublist, fun w hw => ?_⟩
  rw [hfirsts]
  rcases List.mem_append.1 hw with h | h
  · exact hv.grounded w h
  · obtain ⟨x, hx, rfl⟩ := List.mem_map.1 h
    exact hv.grounded x hx

end Covered

mutual

/-- Walks cover the tree. The induction follows the walk, one piece of syntax after the other, and
only a pattern with a default and the parts that are passed over need an argument. -/
theorem Expr.covered (receiver : Bool) : ∀ e : Expr, Covered (e.visits receiver) e.sites
  | .ident _ | .this | .string _ | .literal => .nil _
  | .function _ f => f.covered true
  | .arrow f => f.covered receiver
  | .class _ c => c.covered receiver
  | .call _ _ callee args | .construct _ callee args | .tagged _ callee args =>
    .first _ ((callee.covered receiver).append (Expr.coveredAll receiver args))
  | .member _ object key => (object.covered receiver).append (key.covered receiver)
  | .superMember key => key.covered receiver
  | .assign _ target value => by
    refine (value.covered receiver).append ?_
    -- a target that is left alone is passed over
    split
    · exact .nil _
    · exact target.covered receiver
  | .logical _ left right => (left.covered receiver).append (right.covered receiver)
  | .conditional _ test consequent alternate =>
    (test.covered receiver).append
      ((consequent.covered receiver).append (alternate.covered receiver))
  | .sequence exprs => Expr.coveredAll receiver exprs
  | .paren inner | .await inner | .typed inner | .spread inner => inner.covered receiver
  | .array operands | .untracked operands => Expr.coveredAll receiver operands
  | .object properties => Property.coveredAll receiver properties
  | .element attributes children =>
    (Attribute.coveredAll receiver attributes).append (Expr.coveredAll receiver children)

theorem Expr.coveredAll (receiver : Bool) :
    ∀ es : List Expr, Covered (Expr.visitsAll receiver es) (Expr.sitesAll es)
  | [] => .nil _
  | e :: rest => (e.covered receiver).append (Expr.coveredAll receiver rest)

theorem Expr.coveredOption (receiver : Bool) :
    ∀ e : Option Expr, Covered (Expr.visitsOption receiver e) (Expr.sitesOption e)
  | none => .nil _
  | some e => e.covered receiver

theorem Key.covered (receiver : Bool) : ∀ k : Key, Covered (k.visits receiver) k.sites
  | .computed e => e.covered receiver
  | .named _ | .privateName _ | .untracked => .nil _

theorem Property.covered (receiver : Bool) :
    ∀ p : Property, Covered (p.visits receiver) p.sites
  | .keyValue key value => (key.covered receiver).append (value.covered receiver)
  | .shorthand _ => .nil _
  | .shorthandDefault _ value => value.covered receiver
  | .method key f => (key.covered receiver).append (f.covered true)
  | .spread e => e.covered receiver

theorem Property.coveredAll (receiver : Bool) :
    ∀ ps : List Property, Covered (Property.visitsAll receiver ps) (Property.sitesAll ps)
  | [] => .nil _
  | p :: rest => (p.covered receiver).append (Property.coveredAll receiver rest)

theorem Attribute.coveredAll (receiver : Bool) :
    ∀ as : List Attribute, Covered (Attribute.visitsAll receiver as) (Attribute.sitesAll as)
  | [] => .nil _
  | .value e :: rest => (e.covered receiver).append (Attribute.coveredAll receiver rest)
  | .fragment _ :: rest => (Attribute.coveredAll receiver rest).skip _

theorem Pattern.covered (receiver : Bool) : ∀ p : Pattern, Covered (p.visits receiver) p.sites
  | .ident _ => .nil _
  | .array elements => Pattern.coveredAll receiver elements
  | .object fields => PatternField.coveredAll receiver fields
  | .rest inner => inner.covered receiver
  | .withDefault inner value => by
    refine (value.covered receiver).append ?_
    -- the left side is walked once more if the value has a vertex
    split
    · exact (inner.covered receiver).twice
    · rw [List.append_nil]
      exact inner.covered receiver
  | .expr target => target.covered receiver

theorem Pattern.coveredAll (receiver : Bool) :
    ∀ ps : List Pattern, Covered (Pattern.visitsAll receiver ps) (Pattern.sitesAll ps)
  | [] => .nil _
  | p :: rest => (p.covered receiver).append (Pattern.coveredAll receiver rest)

theorem Pattern.coveredOption (receiver : Bool) :
    ∀ p : Option Pattern, Covered (Pattern.visitsOption receiver p) (Pattern.sitesOption p)
  | none => .nil _
  | some p => p.covered receiver

theorem PatternField.covered (receiver : Bool) :
    ∀ f : PatternField, Covered (f.visits receiver) f.sites
  | .keyValue key value => (key.covered receiver).append (value.covered receiver)
  | .shorthand _ default => Expr.coveredOption receiver default
  | .rest inner => inner.covered receiver

theorem PatternField.coveredAll (receiver : Bool) : ∀ fs : List PatternField,
    Covered (PatternField.visitsAll receiver fs) (PatternField.sitesAll fs)
  | [] => .nil _
  | f :: rest => (f.covered receiver).append (PatternField.coveredAll receiver rest)

theorem Func.covered (receiver : Bool) : ∀ f : Func, Covered (f.visits receiver) f.sites
  | .mk params body _ =>
    .first _ ((Param.coveredAll receiver params).append (body.covered receiver))

theorem Param.covered (receiver : Bool) : ∀ p : Param, Covered (p.visits receiver) p.sites
  | .pattern _ p => (p.covered receiver).skip _
  | .property _ _ default => (Expr.coveredOption receiver default).skip _
  | .propertyPattern _ _ _ => .nil _

theorem Param.coveredAll (receiver : Bool) :
    ∀ ps : List Param, Covered (Param.visitsAll receiver ps) (Param.sitesAll ps)
  | [] => .nil _
  | p :: rest => (p.covered receiver).append (Param.coveredAll receiver rest)

theorem Body.covered (receiver : Bool) : ∀ b : Body, Covered (b.visits receiver) b.sites
  | .block stmts => Stmt.coveredAll receiver stmts
  | .expr result => result.covered receiver
  | .absent => .nil _

theorem Class.covered (receiver : Bool) : ∀ c : Class, Covered (c.visits receiver) c.sites
  | .mk decorators heritage members =>
    (Expr.coveredAll receiver decorators).append
      ((Expr.coveredOption receiver heritage).append (Member.coveredAll receiver members))

theorem Member.covered (receiver : Bool) : ∀ m : Member, Covered (m.visits receiver) m.sites
  | .constructor f => f.covered true
  | .method decorators key f => by
    refine Covered.append ?_ ((key.covered receiver).append (f.covered true))
    split
    · exact .nil _
    · exact Expr.coveredAll receiver decorators
  | .field _ key value =>
    ((key.covered receiver).append (Expr.coveredOption receiver value)).skip _
  | .staticBlock stmts => Stmt.coveredAll receiver stmts

theorem Member.coveredAll (receiver : Bool) :
    ∀ ms : List Member, Covered (Member.visitsAll receiver ms) (Member.sitesAll ms)
  | [] => .nil _
  | m :: rest => (m.covered receiver).append (Member.coveredAll receiver rest)

theorem Decl.covered (receiver : Bool) : ∀ d : Decl, Covered (d.visits receiver) d.sites
  | .function _ f => f.covered true
  | .class _ c => c.covered receiver
  | .vars _ declarators | .using declarators => Declarator.coveredAll receiver declarators
  | .inert => .nil _

theorem Declarator.coveredAll (receiver : Bool) : ∀ ds : List Declarator,
    Covered (Declarator.visitsAll receiver ds) (Declarator.sitesAll ds)
  | [] => .nil _
  | .mk target init :: rest =>
    (Expr.coveredOption receiver init).append
      ((target.covered receiver).append (Declarator.coveredAll receiver rest))

theorem Declarator.targetCoveredAll (receiver : Bool) : ∀ ds : List Declarator,
    Covered (Declarator.targetVisitsAll receiver ds) (Declarator.sitesAll ds)
  | [] => .nil _
  | .mk target _ :: rest =>
    ((target.covered receiver).append (Declarator.targetCoveredAll receiver rest)).skip _

theorem Stmt.covered (receiver : Bool) : ∀ s : Stmt, Covered (s.visits receiver) s.sites
  | .decl d => d.covered receiver
  | .expr e | .throw e => e.covered receiver
  | .block stmts => Stmt.coveredAll receiver stmts
  | .ret value => Expr.coveredOption receiver value
  | .cond test consequent alternate =>
    (test.covered receiver).append
      ((consequent.covered receiver).append (Stmt.coveredOption receiver alternate))
  | .for head test update body =>
    (head.covered receiver).append ((Expr.coveredOption receiver test).append
      ((Expr.coveredOption receiver update).append (body.covered receiver)))
  | .forEach head iterated body =>
    (iterated.covered receiver).append
      ((head.boundCovered receiver).append (body.covered receiver))
  | .while test body => (test.covered receiver).append (body.covered receiver)
  | .doWhile body test => (body.covered receiver).append (test.covered receiver)
  | .labeled body => body.covered receiver
  | .switch subject cases => (subject.covered receiver).append (Case.coveredAll receiver cases)
  | .try body param handler finalizer => by
    refine (body.covered receiver).append (Covered.append ?_
      ((Stmt.coveredOption receiver handler).append (Stmt.coveredOption receiver finalizer)))
    split
    · exact Pattern.coveredOption receiver param
    · exact .nil _
  | .with object body => (object.covered receiver).append (body.covered receiver)
  | .inert => .nil _

theorem Stmt.coveredOption (receiver : Bool) :
    ∀ s : Option Stmt, Covered (Stmt.visitsOption receiver s) (Stmt.sitesOption s)
  | none => .nil _
  | some s => s.covered receiver

theorem Stmt.coveredAll (receiver : Bool) :
    ∀ ss : List Stmt, Covered (Stmt.visitsAll receiver ss) (Stmt.sitesAll ss)
  | [] => .nil _
  | s :: rest => (s.covered receiver).append (Stmt.coveredAll receiver rest)

theorem LoopHead.covered (receiver : Bool) :
    ∀ h : LoopHead, Covered (h.visits receiver) h.sites
  | .decl (.vars _ declarators) => Declarator.coveredAll receiver declarators
  | .expr e => e.covered receiver
  | .decl (.function _ _) | .decl (.class _ _) | .decl (.using _) | .decl .inert | .pattern _
  | .absent => .nil _

theorem LoopHead.boundCovered (receiver : Bool) :
    ∀ h : LoopHead, Covered (h.boundVisits receiver) h.sites
  | .decl (.vars _ declarators) => Declarator.targetCoveredAll receiver declarators
  | .pattern p => p.covered receiver
  | .decl (.function _ _) | .decl (.class _ _) | .decl (.using _) | .decl .inert | .expr _
  | .absent => .nil _

theorem Case.coveredAll (receiver : Bool) :
    ∀ cs : List Case, Covered (Case.visitsAll receiver cs) (Case.sitesAll cs)
  | [] => .nil _
  | .mk test body :: rest =>
    (Expr.coveredOption receiver test).append
      ((Stmt.coveredAll receiver body).append (Case.coveredAll receiver rest))

end

end CallFlow.Syntax
