import CallFlow.Proofs.FileFlow.Abreast
import CallFlow.Proofs.FileFlow.Results
import CallFlow.Proofs.FileFlow.Wrapping

/-!
# The walk over expansions

The walk over a tree with expansions and that over the tree in which they are contracted go on
abreast. One lemma for each function of the walk. The lemmas follow the steps of the walk; only at
an expansion does one walk take a step that the other does not.
-/

namespace CallFlow

open Syntax

/-- Contracting keeps a property of the superclass one, with its key contracted. -/
theorem Syntax.Pattern.superKey?_contract (c : Contraction) (p : Pattern) :
    (p.contract c).superKey? = p.superKey?.map (Key.contract c) := by
  cases p with
  | expr e =>
    cases e with
    | logical span left right =>
      rw [Pattern.contract]
      obtain h | ⟨_, _, _, _, _, h⟩ := Expr.contract_logical c span left right <;> rw [h] <;> rfl
    | _ => rfl
  | _ => rfl

theorem Syntax.Pattern.superKey?_of_isLeftAlone {p : Pattern} (h : p.isLeftAlone = true) :
    p.superKey? = none := by
  unfold Pattern.superKey?
  split
  · cases h
  · rfl

/-- Only a string becomes a string. -/
theorem Syntax.Expr.isString_contract {e : Expr} (h : e.isString = false) (c : Contraction) :
    (e.contract c).isString = false := by
  rw [Bool.eq_false_iff]
  intro hs
  obtain ⟨text, htext⟩ : ∃ text, e.contract c = .string text := by
    unfold Expr.isString at hs
    split at hs
    · next text heq => exact ⟨text, heq⟩
    · cases hs
  rw [Expr.contract_eq_string htext] at h
  cases h

/-- What an expression and its contracted form evaluate to. A place is no expansion. -/
structure Evaluated.Abreast (κ : Contractions) (e : Expr) (w : Tandem) (v v' : Evaluated) :
    Prop where
  result : w.Value v.result v'.result
  receiver : w.Value v.receiver v'.receiver
  place : e.isPlace = true → Option.Rel (w.Same κ) v.result v'.result

namespace Evaluated.Abreast

variable {κ : Contractions} {e : Expr} {w : Tandem}

/-- What stands for itself evaluates to itself, and without a receiver there is nothing else to
compare. -/
theorem of_same {i j : VertexId} (h : w.Same κ i j) :
    Abreast κ e w { result := some i } { result := some j } :=
  ⟨h.value, .none, fun _ => .some h⟩

theorem of_value {x y : Option VertexId} (h : w.Value x y) (he : e.isPlace = false := by rfl) :
    Abreast κ e w { result := x } { result := y } :=
  ⟨h, .none, fun hplace => absurd (he.symm.trans hplace) Bool.false_ne_true⟩

end Evaluated.Abreast

namespace Walk

variable {κ : Contractions} {file : FileId} {r : Bool} {w : Tandem}

namespace Abreast

variable {α β : Type} {walk : Walk α} {walk' : Walk β} {spots : List Spot}
  {P : Tandem → α → β → Prop}

/-- What is known of the results of two walks wherever they start. -/
theorem also {R : α → β → Prop} (h : Abreast κ file r w walk walk' spots P)
    (hresults : ∀ (place : Place) (lines : LineTable) (s s' : FileState),
      place.receiver.isSome = r → R (walk place s).1 (walk' { place with lines } s').1) :
    Abreast κ file r w walk walk' spots fun u a b => P u a b ∧ R a b := by
  intro place lines hfile hr hkeeps hw
  obtain ⟨met, hmet, hagrees, hlater, hresult⟩ := h place lines hfile hr hkeeps hw
  exact ⟨met, hmet, hagrees, hlater, hresult, hresults place lines _ _ hr⟩

/-! ### What the walk with expansions does alone -/

/-- A name is resolved. -/
theorem resolveAlone (name : String) : Abreast κ file r w (Walk.resolve name) (Pure.pure ()) []
    fun u i _ => ∃ v, u.expanded.flow.graph.find? v = some i ∧ StandsFor [] v (some (κ.vertex v)) ∧
      (Target.name name).Denotes u.expanded.flow.symbols v := by
  have hlookup : Abreast κ file r w (Walk.lookup name) (Pure.pure ()) [] fun u s _ =>
      ∀ id ∈ s, ∃ scope, u.expanded.flow.symbols.binding? scope name = some id :=
    quiet fun place _ _ hw => ⟨hw, .refl w, fun id hid =>
      (List.exists_of_findSome?_eq_some hid).imp fun _ h => h.2⟩
  refine .alone hlookup fun u _ symbol hsymbol => ?_
  cases symbol with
  | none => exact (vertexAlone (.prop name)).mono fun _ _ _ _ hi => ⟨_, hi, rfl, .inl rfl⟩
  | some symbol =>
    obtain ⟨scope, hscope⟩ := hsymbol symbol rfl
    exact (vertexAlone (.var symbol)).mono fun u' hu' _ _ hi =>
      ⟨_, hi, rfl, .inr ⟨scope, symbol, hu'.bindings _ _ _ hscope, rfl⟩⟩

/-- The receiver is looked up. -/
theorem receiverAlone : Abreast κ file r w Walk.receiver (Pure.pure ()) [] := by
  intro ⟨file', lines', scope, function, around⟩ lines hfile hr hkeeps hw
  cases around with
  | none =>
    have h : Abreast κ file r w (Pure.pure none : Walk (Option VertexId)) (Pure.pure ()) [] :=
      .pure trivial
    exact h ⟨file', lines', scope, function, none⟩ lines hfile hr hkeeps hw
  | some f =>
    exact (vertexAlone (.param f 0)).mono (fun _ _ _ _ _ => trivial)
      ⟨file', lines', scope, function, some f⟩ lines hfile hr hkeeps hw

/-- A target is read. -/
theorem targetAlone (t : Target) : Abreast κ file r w (visit .value t.expr) (Pure.pure ()) []
    fun u v _ => ∃ a i, v.result = some i ∧ u.expanded.flow.graph.find? a = some i ∧
      t.Denotes u.expanded.flow.symbols a := by
  -- A property is read from `this` or from a name, and what that evaluates to is not used.
  have howner (owner : Option String) :
      Abreast κ file r w (visit .value (Target.ownerExpr owner)) (Pure.pure ()) [] := by
    cases owner with
    | none =>
      rw [Target.ownerExpr, visit]
      exact .alone .receiverAlone fun _ _ _ _ => .pure trivial
    | some owner =>
      rw [Target.ownerExpr, visit]
      exact .alone (.resolveAlone owner) fun _ _ _ _ => .pure trivial
  cases t with
  | name x =>
    rw [Target.expr, visit]
    refine .alone (.resolveAlone x) fun u _ i hx => ?_
    obtain ⟨v, hv, -, hdenotes⟩ := hx
    exact .pure ⟨v, i, rfl, hv, hdenotes⟩
  | property owner key =>
    rw [Target.expr, visit]
    refine .alone (howner owner) fun u hu _ _ => ?_
    rw [visitKey]
    exact .alone (.vertexAlone (.prop key)) fun u _ i hi => .pure ⟨.prop key, i, rfl, hi, rfl⟩
  | privateProperty owner key =>
    rw [Target.expr, visit]
    refine .alone (howner owner) fun u hu _ _ => ?_
    rw [visitKey]
    exact .alone (.vertexAlone (.prop key)) fun u _ i hi => .pure ⟨.prop key, i, rfl, hi, rfl⟩

/-- A value that stands for nothing is bound to a name. -/
theorem bindNameAlone (name : String) {v : Vertex} {i : VertexId}
    (hi : w.expanded.flow.graph.find? v = some i) (hs : StandsFor w.log v none) :
    Abreast κ file r w (Walk.bind (.ident name) (some i)) (Pure.pure ()) [] := by
  rw [Walk.bind]
  exact .alone (.resolveAlone name) fun u hu k ⟨b, hb, hstands, _⟩ =>
    .edgeAlone (hu.expanded _ _ hi) hb
      (.inr ⟨none, hs.mono hu.log, .inr ⟨hstands.mono (List.nil_subset _), nofun⟩⟩)

/-- An expansion gets its vertex, which stands for what one likes. -/
theorem expansionAlone {span : Span} (o : Option Vertex) {t : Target}
    (ht : (κ file).target span = some t) :
    Abreast κ file r w (Walk.exprVertex span) (Pure.pure ()) [.joined span] fun u k _ =>
      u.expanded.flow.graph.find? (.expr ⟨file, span⟩) = some k ∧
        StandsFor u.log (.expr ⟨file, span⟩) o := by
  intro place lines hfile _ _ hw
  subst hfile
  set key : ExprKey := ⟨place.file, span⟩
  have hlater : w.Later ⟨w.log ++ [(key, o)], (Walk.exprVertex span place w.expanded).2,
      w.contracted⟩ :=
    ⟨List.subset_append_left _ _, fun _ _ => FlowGraph.find?_intern_of_find? _, fun _ _ h => h,
      fun _ _ _ h => h⟩
  refine ⟨[(key, o)], .refl _, logged hw hlater (hw.flow.withGraphs ?_ fun _ he => he) ?_, hlater,
    FlowGraph.find?_intern_self _ _, List.mem_append_right _ (List.mem_singleton_self _)⟩
  · exact (FlowGraph.edgeSet_intern ..).subset
  · exact fun hnone => absurd (ht.symm.trans hnone) (Option.some_ne_none t)

/-! ### Joining two values -/

/-- An expression that joins two values and is not contracted. -/
theorem joinAt (span : Span) {a b x y : Option VertexId} (hleft : w.Value a x)
    (hright : w.Value b y) (e : Expr) (he : e.isPlace = false := by rfl) :
    Abreast κ file r w (Walk.joinAt span a b) (Walk.joinAt ((κ file).move span) x y)
      [.joined span] (Evaluated.Abreast κ e) := by
  refine .ending (.exprVertex span) fun u hu i j hjoined => ?_
  refine .step (.flow (hleft.later hu) hjoined) fun v hv _ _ _ => ?_
  refine .step (.flow (hright.later (hu.trans hv)) (hjoined.later hv)) fun v' hv' _ _ _ => ?_
  exact .pure (.of_value ((hjoined.later (hv.trans hv')).value) he)

/-- An expansion: the old value of the target flows in, and so does the value of the right side,
which is what the whole stands for. -/
theorem expansion {span : Span} {t : Target} (ht : (κ file).target span = some t)
    {i : VertexId} {a : Vertex} (hi : w.expanded.flow.graph.find? a = some i)
    (ha : t.Denotes w.expanded.flow.symbols a) {x y : Option VertexId} (hright : w.Value x y)
    (e : Expr) (he : e.isPlace = false := by rfl) :
    Abreast κ file r w (Walk.joinAt span (some i) x) (Pure.pure { result := y })
      [.joined span] (Evaluated.Abreast κ e) := by
  -- what the right side stands for
  obtain ⟨o, hx, hy⟩ : ∃ o, (∀ k ∈ x, ∃ b, w.expanded.flow.graph.find? b = some k ∧
      StandsFor w.log b o) ∧
      Option.Rel (fun v j => w.contracted.flow.graph.find? v = some j) o y := by
    cases hright with
    | none => exact ⟨none, nofun, .none⟩
    | some hi hs hy =>
      refine ⟨_, fun k hk => ?_, hy⟩
      obtain rfl := Option.some.inj hk
      exact ⟨_, hi, hs⟩
  -- The vertex of the expansion is logged, and stands for what the right side stands for.
  refine .alone (expansionAlone o ht) fun u hu k ⟨hk, hstands⟩ => ?_
  -- The first edge is the one that only the expansion has.
  have hold : OldValue κ u.expanded.flow.symbols (a, .expr ⟨file, span⟩) :=
    ⟨_, t, rfl, ht, ha.mono hu.bindings⟩
  refine .alone (.edgeAlone (hu.expanded _ _ hi) hk (.inl hold)) fun u' hu' _ _ => ?_
  -- Along the second one flows what the expansion stands for.
  have hflow : Abreast κ file r u' (Walk.flow x k) (Pure.pure ()) [] := by
    cases x with
    | none => exact .pure trivial
    | some i' =>
      obtain ⟨b, hb, hs⟩ := hx i' rfl
      exact .edgeAlone ((hu.trans hu').expanded _ _ hb) (hu'.expanded _ _ hk)
        (.inr ⟨o, hs.mono (hu.trans hu').log, .inl (hstands.mono hu'.log)⟩)
  refine .alone hflow fun v hv _ _ => .pure (.of_value ?_ he)
  have hlater : w.Later v := hu.trans (hu'.trans hv)
  refine .some ((hu'.trans hv).expanded _ _ hk) (hstands.mono (hu'.trans hv).log) ?_
  cases hy with
  | none => exact .none
  | some hy => exact .some (hlater.contracted _ _ hy)

/-- The left side of a default is walked again if the value has a vertex. -/
theorem bindAgain {inner : Pattern} {c : Contraction}
    (hbind : ∀ x y, w.Value x y → Abreast κ file r w (Walk.bind inner x)
      (Walk.bind (inner.contract c) y) ((Piece.pattern inner).spots r))
    {x y : Option VertexId} (h : w.Value x y) {yields : Bool} (hx : x.isSome = yields)
    (hy : inner.isName = false → y.isSome = yields) :
    Abreast κ file r w
      (match x with
        | some value => Walk.bind inner (some value)
        | none => Pure.pure ())
      (match y with
        | some value => Walk.bind (inner.contract c) (some value)
        | none => Pure.pure ())
      (Piece.spotsAll r (if yields then [.pattern inner] else [])) := by
  cases h with
  | none => exact .pure trivial
  | some hi hs hother =>
    obtain rfl : true = yields := hx
    refine .single ?_
    cases hother with
    | some hother => exact hbind _ _ (.some hi hs (.some hother))
    | none =>
      -- the value of the other walk has no vertex, so that there is a mere name
      cases inner with
      | ident name => exact (bindNameAlone name hi hs).more (List.nil_sublist _)
      | _ => cases hy rfl

/-- A key between brackets. -/
theorem computed {e : Expr} {c : Contraction} {P : Tandem → Evaluated → Evaluated → Prop}
    (h : Abreast κ file r w (visit .value e) (visit .value (e.contract c))
      ((Piece.expr e).spots r) P) :
    Abreast κ file r w (visitKey (.computed e)) (visitKey ((Key.computed e).contract c))
      ((Piece.key (.computed e)).spots r) (Tandem.Same κ) := by
  rw [Key.contract]
  cases he : e.isString with
  | true =>
    cases e with
    | string name =>
      rw [Expr.contract, visitKey]
      exact (vertex (.prop name)).more (List.nil_sublist _)
    | _ => cases he
  | false =>
    rw [visitKey_of_not_isString he, visitKey_of_not_isString (Expr.isString_contract he c)]
    exact .inside [.expr e] (.part h fun _ _ _ _ _ => .vertex .unknown)

end Abreast

/-- A logical assignment has the value of the plain one in parentheses. -/
theorem visit_assign_logical (role : Role) (target : Pattern) (value : Expr) :
    visit role (.assign .logical target value) = (do
      let v ← visit .value (.paren (.assign .plain target value))
      return { result := v.result }) := by
  rw [visit_paren_value, visit_assign, visit_assign]
  simp only [bind_assoc, pure_bind]
  refine bind_congr fun v => ?_
  split
  · simp only [bind_assoc, pure_bind]
    rfl
  · split <;> simp only [bind_assoc, pure_bind] <;> rfl

/-! ## The walk -/

open Evaluated.Abreast (of_same of_value)

mutual

/-- An expression evaluates to what its contracted form evaluates to, but for expansions. -/
theorem abreast_visit : ∀ (e : Expr) (r : Bool) (w : Tandem) (role : Role),
    Abreast κ file r w (visit role e) (visit role (e.contract (κ file))) ((Piece.expr e).spots r)
      (Evaluated.Abreast κ e)
  | .ident name, r, w, role => by
    rw [visit, Expr.contract, visit]
    exact .step (.resolve name) fun _ _ _ _ h => .pure (of_same h)
  | .this, r, w, role => by
    rw [visit, Expr.contract, visit]
    exact .step .receiver fun _ _ _ _ h => .pure (of_value (Tandem.value_of_same h))
  | .string _, r, w, role | .literal, r, w, role => by
    rw [visit, Expr.contract, visit]
    exact .pure (of_value .none)
  | .function none f, r, w, role => by
    rw [visit, Expr.contract, visit]
    refine .inside [.func f] (.part (abreast_visitFunction f r w role.name? none false)
      fun u _ _ id heq => ?_)
    subst heq
    exact .step (.vertex (.func id)) fun _ _ _ _ h => .pure (of_same h)
  | .function (some name) f, r, w, role => by
    rw [visit, Expr.contract, visit]
    refine .inside [.func f] (.part (abreast_visitFunction f r w (some name) (some name) false)
      fun u _ _ id heq => ?_)
    subst heq
    exact .step (.vertex (.func id)) fun _ _ _ _ h => .pure (of_same h)
  | .arrow f, r, w, role => by
    rw [visit, Expr.contract, visit]
    rw [Piece.spots_arrow]
    refine .ending (abreast_visitFunction f r w role.name? none true) fun u _ _ id heq => ?_
    subst heq
    exact .step (.vertex (.func id)) fun _ _ _ _ h => .pure (of_same h)
  | .class none cls, r, w, role => by
    rw [visit, Expr.contract, visit]
    exact .inside [.class cls] (.part (abreast_visitClass cls r w role.name? none)
      fun _ _ _ _ h => .pure (of_value (Tandem.value_of_same h)))
  | .class (some name) cls, r, w, role => by
    rw [visit, Expr.contract, visit]
    exact .inside [.class cls] (.part (abreast_visitClass cls r w (some name) (some name))
      fun _ _ _ _ h => .pure (of_value (Tandem.value_of_same h)))
  | .call chained span callee args, r, w, role => by
    rw [visit, Expr.contract, visit, Expr.length_contractAll]
    refine .inside (.expr callee :: args.map .expr) ?_
    -- The call gets the same number on both sides.
    refine .step (.addCall .call _ span) fun _ _ _ call heq => ?_
    subst heq
    refine .step (.vertex (.callee call)) fun _ _ slot slot' hslot => ?_
    refine .part (abreast_visit callee r _ .callee) fun u hu value value' hvalue => ?_
    refine .step (.flow hvalue.result (hslot.later hu)) fun u' hu' _ _ _ => ?_
    refine .step (.passReceiver call (hvalue.receiver.later hu')) fun _ _ _ _ _ => ?_
    refine .ending (abreast_visitArgs args r _ call 1) fun _ _ _ _ _ => ?_
    refine .step (.vertex (.res call)) fun _ _ result result' hresult => ?_
    exact .step (.recordRequire (κ file) chained callee args call) fun _ hu _ _ _ =>
      .pure (of_same (hresult.later hu))
  | .construct span callee args, r, w, role => by
    rw [visit, Expr.contract, visit, Expr.length_contractAll]
    refine .inside (.expr callee :: args.map .expr) ?_
    refine .step (.addCall .construct _ span) fun _ _ _ call heq => ?_
    subst heq
    refine .step (.vertex (.callee call)) fun _ _ slot slot' hslot => ?_
    refine .part (abreast_visit callee r _ .callee) fun u hu value value' hvalue => ?_
    refine .step (.flow hvalue.result (hslot.later hu)) fun _ _ _ _ _ => ?_
    refine .ending (abreast_visitArgs args r _ call 1) fun _ _ _ _ _ => ?_
    exact .step (.vertex (.res call)) fun _ _ _ _ h => .pure (of_same h)
  | .tagged span tag substitutions, r, w, role => by
    rw [visit, Expr.contract, visit, Expr.length_contractAll]
    refine .inside (.expr tag :: substitutions.map .expr) ?_
    refine .step (.addCall .call _ span) fun _ _ _ call heq => ?_
    subst heq
    refine .step (.vertex (.callee call)) fun _ _ slot slot' hslot => ?_
    refine .part (abreast_visit tag r _ .callee) fun u hu value value' hvalue => ?_
    refine .step (.flow hvalue.result (hslot.later hu)) fun u' hu' _ _ _ => ?_
    refine .step (.passReceiver call (hvalue.receiver.later hu')) fun _ _ _ _ _ => ?_
    refine .ending (abreast_visitArgs substitutions r _ call 2) fun _ _ _ _ _ => ?_
    exact .step (.vertex (.res call)) fun _ _ _ _ h => .pure (of_same h)
  | .member chained object key, r, w, role => by
    rw [visit, Expr.contract, visit]
    refine .inside [.expr object, .key key] (.part (abreast_visit object r w .value)
      fun u _ value value' hvalue => ?_)
    refine .part (abreast_visitKey key r u) fun v hv _ _ hplace => ?_
    exact .pure ⟨hplace.value, hvalue.result.later hv, fun _ => .some hplace⟩
  | .superMember key, r, w, role => by
    -- The receiver of a method of the superclass may be there or not.
    have hkey (u : Tandem) (x y : Option VertexId) (h : u.Value x y) :
        Abreast κ file r u (do return { result := ← visitKey key, receiver := x })
          (do return { result := ← visitKey (key.contract (κ file)), receiver := y })
          (Piece.spotsAll r [.key key]) (Evaluated.Abreast κ (.superMember key)) :=
      .part (abreast_visitKey key r u) fun v hv _ _ hplace =>
        .pure ⟨hplace.value, h.later hv, nofun⟩
    rw [visit, Expr.contract, visit]
    refine .inside [.key key] ?_
    split
    · exact .step .receiver fun u _ _ _ h => hkey u _ _ (Tandem.value_of_same h)
    · exact hkey w none none .none
  | .assign op target value, r, w, role => by
    have hbind := abreast_bind target r
    have hkey := abreast_superKey target r
    rw [visit_assign, Expr.contract, visit_assign, Pattern.superKey?_contract,
      Pattern.isLeftAlone_contract, Pattern.valueRole_contract]
    -- A target that is left alone is walked on neither side.
    cases hleft : target.isLeftAlone with
    | true =>
      have hsuper : target.superKey? = none := Pattern.superKey?_of_isLeftAlone hleft
      rw [hsuper]
      refine .inside [.expr value] (.part (abreast_visit value r w _) fun u hu v v' hv => ?_)
        (by simp [Piece.walked, Piece.entered, Piece.steps, hleft])
      refine .pure (of_value ?_)
      split
      · exact .none
      · exact hv.result
    | false =>
      refine .inside [.expr value, .pattern target]
        (.part (abreast_visit value r w _) fun u hu v v' hv => ?_)
        (by simp [Piece.walked, Piece.entered, Piece.steps, hleft])
      have hstored : u.Value (if op = .arithmetic then none else v.result)
          (if op = .arithmetic then none else v'.result) := by
        split
        · exact .none
        · exact hv.result
      dsimp only
      -- A property of the superclass is walked by its key alone.
      cases hs : target.superKey? with
      | some key =>
        refine .part (hkey key (Pattern.eq_of_superKey? hs) u) fun v hv place place' hplace => ?_
        exact .step (.flow (hstored.later hv) hplace) fun v' hv' _ _ _ =>
          .pure (of_value (hstored.later (hv.trans hv')))
      | none =>
        refine .step (.exportAssigned (κ file) target hstored) fun v hv _ _ _ => ?_
        exact .part (hbind v _ _ (hstored.later hv)) fun v' hv' _ _ _ =>
          .pure (of_value (hstored.later (hv.trans hv')))
  | .logical span left right, r, w, role => by
    have hleft := abreast_visit left r
    have hright := abreast_visit right r
    refine .insideSpot [.expr left, .expr right] ?_
    obtain h | ⟨t, value, ht, rfl, hassign, h⟩ := Expr.contract_logical (κ file) span left right
    · rw [h, visit, visit]
      refine .partBefore (hleft w .value) fun u _ a x ha => ?_
      refine .partBefore (hright u .value) fun v hv b y hb => ?_
      exact .joinAt span (ha.result.later hv) hb.result _
    · -- the left side is read by the walk with the expansion alone
      have hboth : Abreast κ file r w (visit role (.logical span t.expr right))
          (Pure.pure () >>= fun _ => do
            let v ← visit .value (right.contract (κ file))
            return { result := v.result })
          (Piece.spotsAll r [.expr t.expr, .expr right] ++ [.joined span])
          (Evaluated.Abreast κ (.logical span t.expr right)) := by
        rw [visit]
        refine .partBefore ((Abreast.targetAlone t).more (List.nil_sublist _))
          fun u _ l _ ⟨a, i, hl, hi, ha⟩ => ?_
        rw [hl]
        refine .partBefore (hright u .value) fun v hv b y hb => ?_
        exact .expansion ht (hv.expanded _ _ hi) (ha.mono hv.bindings) hb.result _
      rw [h, visit_assign_logical, ← hassign]
      exact hboth
  | .conditional span test consequent alternate, r, w, role => by
    rw [visit, Expr.contract, visit]
    refine .insideSpot [.expr test, .expr consequent, .expr alternate] ?_
    refine .partBefore (abreast_visit test r w .value) fun u _ _ _ _ => ?_
    refine .partBefore (abreast_visit consequent r u .value) fun v _ a x ha => ?_
    refine .partBefore (abreast_visit alternate r v .value) fun v' hv' b y hb => ?_
    exact .joinAt span (ha.result.later hv') hb.result _
  | .sequence exprs, r, w, role => by
    rw [visit, Expr.contract, visit]
    refine .inside (exprs.map .expr) (.ending (abreast_visitAll exprs r w) fun _ _ _ _ h => ?_)
    exact .pure (of_value h)
  | .paren inner, r, w, role => by
    rw [visit, Expr.contract, visit]
    refine .inside [.expr inner] (.part (abreast_visit inner r w role.inParens)
      fun _ _ _ _ h => ?_)
    exact .pure ⟨h.result, .none, h.place⟩
  | .await inner, r, w, role | .typed inner, r, w, role
  | .spread inner, r, w, role => by
    rw [visit, Expr.contract, visit]
    refine .inside [.expr inner] (.part (abreast_visit inner r w .value) fun _ _ _ _ h => ?_)
    exact .pure (of_value h.result)
  | .array operands, r, w, role | .untracked operands, r, w, role => by
    rw [visit, Expr.contract, visit]
    refine .inside (operands.map .expr)
      (.ending (abreast_visitAll operands r w) fun _ _ _ _ _ => ?_)
    exact .pure (of_value .none)
  | .object properties, r, w, role => by
    rw [visit, Expr.contract, visit]
    refine .inside (properties.map .property)
      (.ending (abreast_visitProperties properties r w) fun _ _ _ _ _ => ?_)
    exact .pure (of_value .none)
  | .element attributes children, r, w, role => by
    rw [visit, Expr.contract, visit]
    refine .inside (attributes.map .attr ++ children.map .expr)
      (.parts (abreast_visitAttributes attributes r w) fun u _ _ _ _ => ?_)
    refine .ending (abreast_visitAll children r u) fun _ _ _ _ _ => ?_
    exact .pure (of_value .none)

/-- Several expressions, whose value is that of the last one. -/
theorem abreast_visitAll : ∀ (es : List Expr) (r : Bool) (w : Tandem),
    Abreast κ file r w (visitAll es) (visitAll (Expr.contractAll (κ file) es))
      (Piece.spotsAll r (es.map .expr)) Tandem.Value
  | [], r, w => by
    rw [visitAll, Expr.contractAll, visitAll]
    exact .pure .none
  | [e], r, w => by
    rw [visitAll, Expr.contractAll, Expr.contractAll, visitAll]
    exact .part (abreast_visit e r w .value) fun _ _ _ _ h => .pure h.result
  | e :: e' :: rest, r, w => by
    have hrest := abreast_visitAll (e' :: rest) r
    rw [Expr.contractAll] at hrest
    unfold visitAll
    rw [Expr.contractAll, Expr.contractAll]
    exact .part (abreast_visit e r w .value) fun u _ _ _ _ => hrest u

/-- An expression that may be left out. -/
theorem abreast_visitOption : ∀ (e : Option Expr) (r : Bool) (w : Tandem),
    Abreast κ file r w (visitOption e) (visitOption (Expr.contractOption (κ file) e))
      (Piece.spotsAll r (e.toList.map .expr)) Tandem.Value
  | none, r, w => by
    rw [visitOption, Expr.contractOption, visitOption]
    exact .pure .none
  | some e, r, w => by
    rw [visitOption, Expr.contractOption, visitOption]
    exact .part (abreast_visit e r w .value) fun _ _ _ _ h => .pure h.result

/-- The arguments of a call, from the same slot on. -/
theorem abreast_visitArgs : ∀ (es : List Expr) (r : Bool) (w : Tandem) (call : CallId) (slot : Nat),
    Abreast κ file r w (visitArgs call slot es) (visitArgs call slot (Expr.contractAll (κ file) es))
      (Piece.spotsAll r (es.map .expr))
  | [], r, w, call, slot => by
    rw [visitArgs, Expr.contractAll, visitArgs]
    exact .pure trivial
  | e :: rest, r, w, call, slot => by
    rw [visitArgs, Expr.contractAll, visitArgs]
    refine .part (abreast_visit e r w .value) fun _ _ _ _ hvalue => ?_
    refine .step (.vertex (.arg call slot)) fun u hu _ _ harg => ?_
    exact .step (.flow (hvalue.result.later hu) harg) fun v _ _ _ _ =>
      abreast_visitArgs rest r v call (slot + 1)

/-- A key leads to the same vertex. -/
theorem abreast_visitKey : ∀ (k : Key) (r : Bool) (w : Tandem),
    Abreast κ file r w (visitKey k) (visitKey (k.contract (κ file))) ((Piece.key k).spots r)
      (Tandem.Same κ)
  | .named name, r, w | .privateName name, r, w => by
    rw [visitKey, Key.contract, visitKey]
    exact (Abreast.vertex (.prop name)).more (List.nil_sublist _)
  | .untracked, r, w => by
    rw [visitKey, Key.contract, visitKey]
    exact (Abreast.vertex .unknown).more (List.nil_sublist _)
  | .computed e, r, w => .computed (abreast_visit e r w .value)

/-- The key of a target that is a property of the superclass. -/
theorem abreast_superKey : ∀ (p : Pattern) (r : Bool) (key : Key),
    p = .expr (.superMember key) → ∀ w : Tandem,
    Abreast κ file r w (visitKey key) (visitKey (key.contract (κ file))) ((Piece.pattern p).spots r)
      (Tandem.Same κ)
  | .expr (.superMember key'), r, key, h, w => by
    obtain rfl : key' = key := by simpa using h
    exact .inside [.expr (.superMember key')]
      (.single (.inside [.key key'] (.single (abreast_visitKey key' r w))))

/-- A property of an object literal. -/
theorem abreast_visitProperty : ∀ (p : Property) (r : Bool) (w : Tandem),
    Abreast κ file r w (visitProperty p) (visitProperty (p.contract (κ file)))
      ((Piece.property p).spots r)
  | .keyValue key value, r, w => by
    rw [visitProperty, Property.contract, visitProperty, Key.valueRole_contract]
    refine .inside [.key key, .expr value] ?_
    refine .part (abreast_visitKey key r w) fun u _ _ _ htarget => ?_
    refine .part (abreast_visit value r u _) fun v hv _ _ hvalue => ?_
    exact .flow hvalue.result (htarget.later hv)
  | .shorthand name, r, w => by
    rw [visitProperty, Property.contract, visitProperty]
    refine .inside [] (.step (.resolve name) fun u _ _ _ hvalue => ?_)
    exact .step (.vertex (.prop name)) fun v hv _ _ htarget => .edge (hvalue.later hv) htarget
  | .shorthandDefault _ value, r, w => by
    rw [visitProperty, Property.contract, visitProperty]
    exact .inside [.expr value] (.part (abreast_visit value r w .value) fun _ _ _ _ _ =>
      .pure trivial)
  | .method key f, r, w => by
    rw [visitProperty, Property.contract, visitProperty, Key.name?_contract]
    refine .inside [.key key, .func f] ?_
    refine .part (abreast_visitKey key r w) fun u _ _ _ htarget => ?_
    refine .part (abreast_visitFunction f r u key.name? none false) fun v hv _ id heq => ?_
    subst heq
    exact .step (.vertex (.func id)) fun v' hv' _ _ hvalue =>
      .edge hvalue (htarget.later (hv.trans hv'))
  | .spread e, r, w => by
    rw [visitProperty, Property.contract, visitProperty]
    exact .inside [.expr e] (.part (abreast_visit e r w .value) fun _ _ _ _ _ => .pure trivial)

/-- The properties of an object literal. -/
theorem abreast_visitProperties : ∀ (ps : List Property) (r : Bool) (w : Tandem),
    Abreast κ file r w (visitProperties ps) (visitProperties (Property.contractAll (κ file) ps))
      (Piece.spotsAll r (ps.map .property))
  | [], r, w => by
    rw [visitProperties, Property.contractAll, visitProperties]
    exact .pure trivial
  | p :: rest, r, w => by
    rw [visitProperties, Property.contractAll, visitProperties]
    exact .part (abreast_visitProperty p r w) fun u _ _ _ _ =>
      abreast_visitProperties rest r u

/-- The attributes of an element. -/
theorem abreast_visitAttributes : ∀ (as : List Attribute) (r : Bool) (w : Tandem),
    Abreast κ file r w (visitAttributes as) (visitAttributes (Attribute.contractAll (κ file) as))
      (Piece.spotsAll r (as.map .attr))
  | [], r, w => by
    rw [visitAttributes, Attribute.contractAll, visitAttributes]
    exact .pure trivial
  | .value e :: rest, r, w => by
    rw [visitAttributes, Attribute.contractAll, visitAttributes]
    exact .insideFirst [.expr e] (.part (abreast_visit e r w .value) fun u _ _ _ _ =>
      abreast_visitAttributes rest r u)
  | .fragment _ :: rest, r, w => by
    rw [visitAttributes, Attribute.contractAll, visitAttributes]
    exact .insideFirst [] (abreast_visitAttributes rest r w)

/-- A pattern is bound to a value on both sides. A default inside binds it again, so that the spots
of the inner pattern are met once more. -/
theorem abreast_bind : ∀ (p : Pattern) (r : Bool) (w : Tandem) (x y : Option VertexId),
    w.Value x y →
    Abreast κ file r w (bind p x) (bind (p.contract (κ file)) y) ((Piece.pattern p).spots r)
  | .ident name, r, w, x, y, hs => by
    rw [bind, Pattern.contract, bind]
    exact .inside [] (.step (.resolve name) fun u hu _ _ htarget => .flow (hs.later hu) htarget)
  | .array elements, r, w, x, y, _ => by
    rw [bind, Pattern.contract, bind]
    exact .inside (elements.map .pattern) (abreast_bindAll elements r w)
  | .object fields, r, w, x, y, _ => by
    rw [bind, Pattern.contract, bind]
    exact .inside (fields.map .field) (abreast_bindFields fields r w)
  | .rest inner, r, w, x, y, _ => by
    rw [bind, Pattern.contract, bind]
    exact .inside [.pattern inner] (.single (abreast_bind inner r w none none .none))
  | .withDefault inner value, r, w, x, y, hs => by
    have hbind := abreast_bind inner r
    have hvisit := abreast_visit value r w .value
    rw [bind, Pattern.contract, bind]
    refine .insideSpot (.expr value :: .pattern inner ::
      if value.yields r then [.pattern inner] else []) (.keeping fun hkeeps => ?_)
    -- where more than a name is bound, both values have a vertex or neither has
    have hboth := hvisit.also (R := fun v v' => v.result.isSome = value.yields r ∧
        (inner.isName = false → v'.result.isSome = value.yields r))
      fun place lines s s' hr => by
        have hsome (e : Expr) (lines : LineTable) (s : FileState) :
            (visit .value e { place with lines } s).1.result.isSome = e.yields r :=
          (isSome_visit { place with lines } e .value s).trans (congrArg e.yields hr)
        refine ⟨hsome value place.lines s, fun hname => ?_⟩
        rw [hsome (value.contract (κ file)) lines s']
        exact hkeeps r inner value (List.mem_append_right _ List.mem_cons_self) hname
    refine .partBefore hboth fun u hu v v' ⟨hv, hsome, hsome'⟩ => ?_
    refine .partBefore (hbind u x y (hs.later hu)) fun u' hu' _ _ _ => ?_
    exact (Abreast.bindAgain (hbind u') (hv.result.later hu') hsome hsome').more
      (List.sublist_append_left ..)
  | .expr e, r, w, x, y, hs => by
    rw [bind, Pattern.contract, bind, Expr.isPlace_contract]
    refine .inside [.expr e] (.part (abreast_visit e r w .value) fun u hu v v' hv => ?_)
    cases hplace : e.isPlace with
    | false => exact .pure trivial
    | true =>
      have hsame := hv.place hplace
      -- A place stands for itself, so what flows to it flows to it on the other side.
      revert hsame
      generalize v.result = place
      generalize v'.result = place'
      rintro (hsame | _)
      · exact .flow (hs.later hu) hsame
      · exact .pure trivial

/-- The elements of an array pattern. -/
theorem abreast_bindAll : ∀ (ps : List Pattern) (r : Bool) (w : Tandem),
    Abreast κ file r w (bindAll ps) (bindAll (Pattern.contractAll (κ file) ps))
      (Piece.spotsAll r (ps.map .pattern))
  | [], r, w => by
    rw [bindAll, Pattern.contractAll, bindAll]
    exact .pure trivial
  | p :: rest, r, w => by
    rw [bindAll, Pattern.contractAll, bindAll]
    exact .part (abreast_bind p r w none none .none) fun u _ _ _ _ =>
      abreast_bindAll rest r u

/-- A field of an object pattern. -/
theorem abreast_bindField : ∀ (f : PatternField) (r : Bool) (w : Tandem),
    Abreast κ file r w (bindField f) (bindField (f.contract (κ file))) ((Piece.field f).spots r)
  | .keyValue key p, r, w => by
    rw [bindField, PatternField.contract, bindField]
    refine .inside [.key key, .pattern p] ?_
    refine .part (abreast_visitKey key r w) fun u _ _ _ hsource => ?_
    exact .single (abreast_bind p r u _ _ hsource.value)
  | .shorthand name none, r, w => by
    rw [bindField, PatternField.contract, Expr.contractOption, bindField]
    refine .inside [] (.step (.vertex (.prop name)) fun u _ _ _ hsource => ?_)
    refine .step (.resolve name) fun v hv _ _ htarget => ?_
    exact .step (.edge (hsource.later hv) htarget) fun _ _ _ _ _ => .pure trivial
  | .shorthand name (some value), r, w => by
    rw [bindField, PatternField.contract, Expr.contractOption, bindField]
    refine .inside [.expr value] (.step (.vertex (.prop name)) fun u _ _ _ hsource => ?_)
    refine .step (.resolve name) fun v hv _ _ htarget => ?_
    refine .step (.edge (hsource.later hv) htarget) fun v' hv' _ _ _ => ?_
    exact .part (abreast_visit value r v' .value) fun _ hu' _ _ hvalue =>
      .flow hvalue.result (htarget.later (hv'.trans hu'))
  | .rest inner, r, w => by
    rw [bindField, PatternField.contract, bindField]
    exact .inside [.pattern inner] (.single (abreast_bind inner r w none none .none))

/-- The fields of an object pattern. -/
theorem abreast_bindFields : ∀ (fs : List PatternField) (r : Bool) (w : Tandem),
    Abreast κ file r w (bindFields fs) (bindFields (PatternField.contractAll (κ file) fs))
      (Piece.spotsAll r (fs.map .field))
  | [], r, w => by
    rw [bindFields, PatternField.contractAll, bindFields]
    exact .pure trivial
  | f :: rest, r, w => by
    rw [bindFields, PatternField.contractAll, bindFields]
    exact .part (abreast_bindField f r w) fun u _ _ _ _ => abreast_bindFields rest r u

/-- A function gets the same number on both sides. Inside of it `this` has a vertex, unless it is an
arrow and there is none around. -/
theorem abreast_visitFunction : ∀ (f : Func) (r : Bool) (w : Tandem) (name own : Option String)
    (isArrow : Bool),
    Abreast κ file r w (visitFunction name own isArrow f)
      (visitFunction name own isArrow (f.contract (κ file))) ((Piece.func f).spots (!isArrow || r))
      fun _ f g => g = f
  | .mk params body span, r, w, name, own, isArrow => by
    rw [visitFunction, Func.contract, visitFunction, Param.countP_isSlotted_contract,
      Param.flatMap_names_contract]
    refine .inside (params.map .param ++ [.body body]) ?_
    refine .step (.addFunction name _ isArrow span) fun _ _ _ f heq => ?_
    subst heq
    refine .step (.vertex (.func f)) fun _ _ value value' hvalue => ?_
    refine .ending (P := fun _ _ _ => True) (.inScope _ fun u hu => .inFunction ?_)
      fun _ _ _ _ _ => .pure rfl
    refine .step (.bindOwnName (hvalue.later hu) own) fun _ _ _ _ _ => ?_
    refine .step (.declare .parameter _) fun _ _ _ _ _ => ?_
    refine .step (.hoistBody (κ file) body) fun v _ _ _ _ => ?_
    exact .parts (abreast_bindParams params _ v f 1) fun v' _ _ _ _ =>
      .single (abreast_visitBody body _ v' f)

/-- The parameters of a function, from the same slot on. -/
theorem abreast_bindParams : ∀ (ps : List Param) (r : Bool) (w : Tandem) (f : FunctionId)
    (slot : Nat),
    Abreast κ file r w (bindParams f slot ps) (bindParams f slot (Param.contractAll (κ file) ps))
      (Piece.spotsAll r (ps.map .param))
  | [], r, w, f, slot => by
    rw [bindParams, Param.contractAll, bindParams]
    exact .pure trivial
  | p :: rest, r, w, f, slot => by
    rw [bindParams, Param.contractAll, bindParams, Param.isSlotted_contract]
    split
    · refine .step (.vertex (.param f slot)) fun u _ source source' hsource => ?_
      exact .part (abreast_bindParam p r u source source' hsource) fun v _ _ _ _ =>
        abreast_bindParams rest r v f (slot + 1)
    · exact (abreast_bindParams rest r w f slot).more (List.sublist_append_right _ _)

/-- A single parameter. -/
theorem abreast_bindParam : ∀ (p : Param) (r : Bool) (w : Tandem) (source source' : VertexId),
    w.Same κ source source' →
    Abreast κ file r w (bindParam source p) (bindParam source' (p.contract (κ file)))
      ((Piece.param p).spots r)
  | .pattern _ p, r, w, source, source', hsource => by
    rw [bindParam_pattern, Param.contract, bindParam_pattern]
    exact .inside [.pattern p] (.single (abreast_bind p r w _ _ hsource.value))
  | .property _ name none, r, w, source, source', hsource => by
    rw [bindParam, Param.contract, Expr.contractOption, bindParam]
    refine .inside [] (.step (.resolve name) fun u hu _ _ htarget => ?_)
    refine .step (.edge (hsource.later hu) htarget) fun v hv _ _ _ => ?_
    refine .step (.vertex (.prop name)) fun v' hv' _ _ hproperty => ?_
    exact .step (.edge (hsource.later (hu.trans (hv.trans hv'))) hproperty) fun _ _ _ _ _ =>
      .pure trivial
  | .property _ name (some value), r, w, source, source', hsource => by
    rw [bindParam, Param.contract, Expr.contractOption, bindParam]
    refine .inside [.expr value] (.step (.resolve name) fun u hu _ _ htarget => ?_)
    refine .step (.edge (hsource.later hu) htarget) fun v hv _ _ _ => ?_
    refine .step (.vertex (.prop name)) fun v' hv' _ _ hproperty => ?_
    refine .step (.edge (hsource.later (hu.trans (hv.trans hv'))) hproperty) fun u' hu' _ _ _ => ?_
    exact .part (abreast_visit value r u' .value) fun _ hlast _ _ hvalue =>
      .flow hvalue.result (htarget.later (hv.trans (hv'.trans (hu'.trans hlast))))
  | .propertyPattern _ _ _, r, w, source, source', _ => by
    rw [bindParam, Param.contract, bindParam]
    exact .pure trivial

/-- The body of a function. -/
theorem abreast_visitBody : ∀ (b : Body) (r : Bool) (w : Tandem) (f : FunctionId),
    Abreast κ file r w (visitBody f b) (visitBody f (b.contract (κ file))) ((Piece.body b).spots r)
  | .block stmts, r, w, f => by
    rw [visitBody, Body.contract, visitBody]
    exact .inside (stmts.map .stmt) (abreast_visitStmts stmts r w)
  | .expr result, r, w, f => by
    rw [visitBody, Body.contract, visitBody]
    refine .inside [.expr result] (.part (abreast_visit result r w .value)
      fun _ _ _ _ hvalue => ?_)
    exact .step (.vertex (.ret f)) fun u hu _ _ hret => .flow (hvalue.result.later hu) hret
  | .absent, r, w, f => by
    rw [visitBody, Body.contract, visitBody]
    exact .pure trivial

/-- A class, and the constructor that it returns. -/
theorem abreast_visitClass : ∀ (cls : Syntax.Class) (r : Bool) (w : Tandem)
    (name own : Option String),
    Abreast κ file r w (visitClass name own cls) (visitClass name own (cls.contract (κ file)))
      ((Piece.class cls).spots r) fun u => Option.Rel (u.Same κ)
  | .mk decorators heritage members, r, w, name, own => by
    rw [visitClass, Class.contract, visitClass]
    refine .inside (decorators.map .expr ++ (heritage.toList.map .expr ++ members.map .member)) ?_
    refine .parts (abreast_visitAll decorators r w) fun u _ _ _ _ => ?_
    refine .parts (abreast_visitOption heritage r u) fun v _ _ _ _ => ?_
    refine .inScope _ fun _ _ => .step (.declareClassName own) fun v' _ _ _ _ => ?_
    refine .ending (abreast_visitMembers members r v' name none none .none)
      fun _ _ _ _ hlast => ?_
    exact .step (.bindClassName own hlast) fun _ hu' _ _ _ => .pure (Tandem.same_later hlast hu')

/-- The members of a class, starting from the same constructor. -/
theorem abreast_visitMembers : ∀ (ms : List Member) (r : Bool) (w : Tandem) (name : Option String)
    (last last' : Option VertexId), Option.Rel (w.Same κ) last last' →
    Abreast κ file r w (visitMembers name last ms)
      (visitMembers name last' (Member.contractAll (κ file) ms)) (Piece.spotsAll r (ms.map .member))
      fun u => Option.Rel (u.Same κ)
  | [], r, w, name, last, last', hlast => by
    rw [visitMembers, Member.contractAll, visitMembers]
    exact .pure hlast
  | .constructor f :: rest, r, w, name, last, last', _ => by
    rw [visitMembers, Member.contractAll, Member.contract, visitMembers]
    refine .insideFirst [.func f] (.part (abreast_visitFunction f r w name none false)
      fun _ _ _ id heq => ?_)
    subst heq
    exact .step (.vertex (.func id)) fun u _ _ _ h =>
      abreast_visitMembers rest r u name _ _ (.some h)
  | .method decorators key f :: rest, r, w, name, last, last', hlast => by
    have hmember := abreast_visitMember (.method decorators key f) r w
    have hrest := abreast_visitMembers rest r
    rw [Member.contractAll]
    unfold visitMembers
    exact .part hmember fun u hu _ _ _ => hrest u name _ _ (Tandem.same_later hlast hu)
  | .field decorators key value :: rest, r, w, name, last, last', hlast => by
    have hmember := abreast_visitMember (.field decorators key value) r w
    have hrest := abreast_visitMembers rest r
    rw [Member.contractAll]
    unfold visitMembers
    exact .part hmember fun u hu _ _ _ => hrest u name _ _ (Tandem.same_later hlast hu)
  | .staticBlock stmts :: rest, r, w, name, last, last', hlast => by
    have hmember := abreast_visitMember (.staticBlock stmts) r w
    have hrest := abreast_visitMembers rest r
    rw [Member.contractAll]
    unfold visitMembers
    exact .part hmember fun u hu _ _ _ => hrest u name _ _ (Tandem.same_later hlast hu)

/-- A member of a class. -/
theorem abreast_visitMember : ∀ (m : Member) (r : Bool) (w : Tandem),
    Abreast κ file r w (visitMember m) (visitMember (m.contract (κ file)))
      ((Piece.member m).spots r)
  | .constructor f, r, w => by
    rw [visitMember, Member.contract, visitMember]
    exact .pure trivial
  | .method decorators key f, r, w => by
    -- Decorators are met or not, and what comes behind them is the same.
    have hrest (u : Tandem) : Abreast κ file r u
        (do
          let target ← visitKey key
          let id ← visitFunction key.name? none false f
          edge (← vertex (.func id)) target)
        (do
          let target ← visitKey (key.contract (κ file))
          let id ← visitFunction key.name? none false (f.contract (κ file))
          edge (← vertex (.func id)) target) (Piece.spotsAll r [.key key, .func f]) := by
      refine .part (abreast_visitKey key r u) fun v _ _ _ htarget => ?_
      refine .part (abreast_visitFunction f r v key.name? none false)
        fun _ hv _ id heq => ?_
      subst heq
      exact .step (.vertex (.func id)) fun _ hv' _ _ hvalue =>
        .edge hvalue (htarget.later (hv.trans hv'))
    have hdecorators := abreast_visitAll decorators r w
    rw [visitMember, Member.contract, visitMember, Key.isPrivate_contract, Key.name?_contract]
    dsimp only
    cases hprivate : key.isPrivate with
    | true =>
      exact .inside [.key key, .func f] (hrest w)
        (by simp [Piece.walked, Piece.entered, Piece.steps, hprivate])
    | false =>
      exact .inside (decorators.map .expr ++ [.key key, .func f])
        (.parts hdecorators fun u _ _ _ _ => hrest u)
        (by simp [Piece.walked, Piece.entered, Piece.steps, hprivate])
  | .field _ key none, r, w => by
    rw [visitMember, Member.contract, Expr.contractOption, visitMember]
    exact .inside [.key key] (.part (abreast_visitKey key r w) fun _ _ _ _ _ => .pure trivial)
  | .field _ key (some value), r, w => by
    rw [visitMember, Member.contract, Expr.contractOption, visitMember, Key.valueRole_contract]
    refine .inside [.key key, .expr value] ?_
    refine .part (abreast_visitKey key r w) fun u _ _ _ htarget => ?_
    exact .part (abreast_visit value r u _) fun v hv _ _ hvalue =>
      .flow hvalue.result (htarget.later hv)
  | .staticBlock stmts, r, w => by
    rw [visitMember, Member.contract, visitMember]
    exact .inside (stmts.map .stmt)
      (.inBlock (κ file) stmts fun u _ => abreast_visitStmts stmts r u)

/-- A statement. Its parts are met in the order in which they are walked. -/
theorem abreast_visitStmt : ∀ (s : Stmt) (r : Bool) (w : Tandem),
    Abreast κ file r w (visitStmt s) (visitStmt (s.contract (κ file))) ((Piece.stmt s).spots r)
  | .decl d, r, w => by
    rw [visitStmt, Stmt.contract, visitStmt]
    exact .inside [.decl d] (.single (abreast_visitDecl d r w))
  | .expr e, r, w | .throw e, r, w => by
    rw [visitStmt, Stmt.contract, visitStmt]
    exact .inside [.expr e] (.part (abreast_visit e r w .value) fun _ _ _ _ _ => .pure trivial)
  | .block stmts, r, w => by
    rw [visitStmt, Stmt.contract, visitStmt]
    exact .inside (stmts.map .stmt)
      (.inBlock (κ file) stmts fun u _ => abreast_visitStmts stmts r u)
  | .ret none, r, w => by
    rw [visitStmt, Stmt.contract, Expr.contractOption, visitStmt]
    exact .pure trivial
  | .ret (some e), r, w => by
    rw [visitStmt, Stmt.contract, Expr.contractOption, visitStmt]
    exact .inside [.expr e] (.part (abreast_visit e r w .value) fun _ _ _ _ hvalue =>
      .returnValue hvalue.result)
  | .cond test consequent alternate, r, w => by
    rw [visitStmt, Stmt.contract, visitStmt]
    refine .inside (.expr test :: .stmt consequent :: alternate.toList.map .stmt) ?_
    refine .part (abreast_visit test r w .value) fun u _ _ _ _ => ?_
    exact .part (abreast_visitStmt consequent r u) fun v _ _ _ _ =>
      abreast_visitStmtOption alternate r v
  | .for head test update body, r, w => by
    rw [visitStmt, Stmt.contract, visitStmt]
    refine .inside (.head head :: (test.toList.map .expr ++
      (update.toList.map .expr ++ [.stmt body]))) ?_
    refine .inScope _ fun u _ => .part (abreast_visitLoopHead head r u) fun u _ _ _ _ => ?_
    refine .parts (abreast_visitOption test r u) fun u _ _ _ _ => ?_
    refine .parts (abreast_visitOption update r u) fun u _ _ _ _ => ?_
    exact .single (abreast_visitStmt body r u)
  | .forEach head iterated body, r, w => by
    rw [visitStmt, Stmt.contract, visitStmt]
    refine .inside (.expr iterated :: (head.boundSteps.filterMap Step.entered? ++
      [.stmt body])) ?_
    refine .inScope _ fun u _ => .part (abreast_visit iterated r u .value)
      fun u _ _ _ _ => ?_
    refine .parts (abreast_bindLoopHead head r u) fun u _ _ _ _ => ?_
    exact .single (abreast_visitStmt body r u)
  | .while test body, r, w => by
    rw [visitStmt, Stmt.contract, visitStmt]
    refine .inside [.expr test, .stmt body] ?_
    exact .part (abreast_visit test r w .value) fun u _ _ _ _ =>
      .single (abreast_visitStmt body r u)
  | .doWhile body test, r, w => by
    rw [visitStmt, Stmt.contract, visitStmt]
    refine .inside [.stmt body, .expr test] ?_
    refine .part (abreast_visitStmt body r w) fun u _ _ _ _ => ?_
    exact .part (abreast_visit test r u .value) fun _ _ _ _ _ => .pure trivial
  | .labeled body, r, w => by
    rw [visitStmt, Stmt.contract, visitStmt]
    exact .inside [.stmt body] (.single (abreast_visitStmt body r w))
  | .switch subject cases, r, w => by
    rw [visitStmt, Stmt.contract, visitStmt]
    refine .inside (.expr subject :: cases.map .case) ?_
    refine .part (abreast_visit subject r w .value) fun u _ _ _ _ => ?_
    exact .inScope _ fun _ _ => .step (.hoistCases (κ file) cases) fun v _ _ _ _ =>
      abreast_visitCases cases r v
  | .try body param none finalizer, r, w => by
    rw [visitStmt, Stmt.contract, Stmt.contractOption, visitStmt]
    refine .inside (.stmt body :: finalizer.toList.map .stmt) ?_
      (by cases param <;> simp [Piece.walked, Piece.entered, Piece.steps])
    exact .part (abreast_visitStmt body r w) fun u _ _ _ _ =>
      abreast_visitStmtOption finalizer r u
  | .try body param (some handler) finalizer, r, w => by
    rw [visitStmt, Stmt.contract, Stmt.contractOption, visitStmt]
    -- What is caught has its spots between those of the two blocks around it.
    refine .inside (.stmt body :: ((param.toList.map .pattern ++ [.stmt handler]) ++
      finalizer.toList.map .stmt)) ?_
      (by cases param <;> simp [Piece.walked, Piece.entered, Piece.steps])
    refine .part (abreast_visitStmt body r w) fun u _ _ _ _ => ?_
    have hhandler := Abreast.inScope .catchScope fun (v : Tandem) (_ : u.Later v) =>
      .parts (abreast_visitCatchParam param r v) fun v _ _ _ _ =>
        .single (p := .stmt handler) (abreast_visitStmt handler r v)
    exact .parts hhandler fun v _ _ _ _ => abreast_visitStmtOption finalizer r v
  | .with object body, r, w => by
    rw [visitStmt, Stmt.contract, visitStmt]
    refine .inside [.expr object, .stmt body] ?_
    exact .part (abreast_visit object r w .value) fun u _ _ _ _ =>
      .single (abreast_visitStmt body r u)
  | .inert, r, w => by
    rw [visitStmt, Stmt.contract, visitStmt]
    exact .pure trivial

/-- A statement that may be left out. -/
theorem abreast_visitStmtOption : ∀ (s : Option Stmt) (r : Bool) (w : Tandem),
    Abreast κ file r w (visitStmtOption s) (visitStmtOption (Stmt.contractOption (κ file) s))
      (Piece.spotsAll r (s.toList.map .stmt))
  | none, r, w => by
    rw [visitStmtOption, Stmt.contractOption, visitStmtOption]
    exact .pure trivial
  | some s, r, w => by
    rw [visitStmtOption, Stmt.contractOption, visitStmtOption]
    exact .single (abreast_visitStmt s r w)

/-- Statements, one after the other. -/
theorem abreast_visitStmts : ∀ (stmts : List Stmt) (r : Bool) (w : Tandem),
    Abreast κ file r w (visitStmts stmts) (visitStmts (Stmt.contractAll (κ file) stmts))
      (Piece.spotsAll r (stmts.map .stmt))
  | [], r, w => by
    rw [visitStmts, Stmt.contractAll, visitStmts]
    exact .pure trivial
  | s :: rest, r, w => by
    rw [visitStmts, Stmt.contractAll, visitStmts]
    exact .part (abreast_visitStmt s r w) fun u _ _ _ _ => abreast_visitStmts rest r u

/-- The pattern for what is caught. -/
theorem abreast_visitCatchParam : ∀ (p : Option Pattern) (r : Bool) (w : Tandem),
    Abreast κ file r w (visitCatchParam p) (visitCatchParam (Pattern.contractOption (κ file) p))
      (Piece.spotsAll r (p.toList.map .pattern))
  | none, r, w => by
    rw [visitCatchParam, Pattern.contractOption, visitCatchParam]
    exact .pure trivial
  | some p, r, w => by
    rw [visitCatchParam, Pattern.contractOption, visitCatchParam, Pattern.names_contract]
    refine .step (.declare .variable _) fun _ _ _ _ _ => ?_
    exact .step (.vertex .unknown) fun u _ _ _ h =>
      .single (abreast_bind p r u _ _ h.value)

/-- The first part of a loop that counts. -/
theorem abreast_visitLoopHead : ∀ (h : LoopHead) (r : Bool) (w : Tandem),
    Abreast κ file r w (visitLoopHead h) (visitLoopHead (h.contract (κ file)))
      ((Piece.head h).spots r)
  | .decl (.vars kind declarators), r, w => by
    rw [visitLoopHead, LoopHead.contract, Decl.contract, visitLoopHead]
    exact .inside (declarators.map .declarator)
      (.step (.hoist (κ file) (.vars kind declarators)) fun u _ _ _ _ =>
        abreast_visitDeclarators declarators r u)
  | .expr e, r, w => by
    rw [visitLoopHead, LoopHead.contract, visitLoopHead]
    exact .inside [.expr e] (.part (abreast_visit e r w .value) fun _ _ _ _ _ => .pure trivial)
  | .decl (.function _ _), r, w | .decl (.class _ _), r, w | .decl (.using _), r, w
  | .decl .inert, r, w | .pattern _, r, w | .absent, r, w => by
    unfold visitLoopHead
    exact .pure trivial

/-- The first part of a loop over the elements of a value. -/
theorem abreast_bindLoopHead : ∀ (h : LoopHead) (r : Bool) (w : Tandem),
    Abreast κ file r w (bindLoopHead h) (bindLoopHead (h.contract (κ file)))
      (Piece.spotsAll r (h.boundSteps.filterMap Step.entered?))
  | .decl (.vars kind declarators), r, w => by
    rw [bindLoopHead, LoopHead.contract, Decl.contract, bindLoopHead]
    exact abreast_bindHeadDeclarators declarators r w kind
  | .pattern p, r, w => by
    rw [bindLoopHead, LoopHead.contract, bindLoopHead]
    exact .single (abreast_bind p r w none none .none)
  | .decl (.function _ _), r, w | .decl (.class _ _), r, w | .decl (.using _), r, w
  | .decl .inert, r, w | .expr _, r, w | .absent, r, w => by
    unfold bindLoopHead
    exact .pure trivial

/-- The declarators in such a part. -/
theorem abreast_bindHeadDeclarators : ∀ (ds : List Declarator) (r : Bool) (w : Tandem)
    (kind : VarKind),
    Abreast κ file r w (bindHeadDeclarators kind ds)
      (bindHeadDeclarators kind (Declarator.contractAll (κ file) ds))
      (Piece.spotsAll r ((LoopHead.decl (.vars kind ds)).boundSteps.filterMap Step.entered?))
  | [], r, w, kind => by
    rw [bindHeadDeclarators, Declarator.contractAll, bindHeadDeclarators]
    exact .pure trivial
  | .mk target init :: rest, r, w, kind => by
    have hsteps : (LoopHead.decl (.vars kind (.mk target init :: rest))).boundSteps.filterMap
        Step.entered? = .pattern target ::
          (LoopHead.decl (.vars kind rest)).boundSteps.filterMap Step.entered? := by
      cases init <;> rfl
    rw [bindHeadDeclarators, Declarator.contractAll, bindHeadDeclarators, hsteps]
    refine .step (.hoist (κ file) (.vars kind [.mk target init])) fun u _ _ _ _ => ?_
    exact .part (abreast_bind target r u none none .none) fun v _ _ _ _ =>
      abreast_bindHeadDeclarators rest r v kind

/-- The cases of a switch. -/
theorem abreast_visitCases : ∀ (cs : List Case) (r : Bool) (w : Tandem),
    Abreast κ file r w (visitCases cs) (visitCases (Case.contractAll (κ file) cs))
      (Piece.spotsAll r (cs.map .case))
  | [], r, w => by
    rw [visitCases, Case.contractAll, visitCases]
    exact .pure trivial
  | .mk test body :: rest, r, w => by
    rw [visitCases, Case.contractAll, visitCases]
    refine .insideFirst (test.toList.map .expr ++ body.map .stmt) ?_
    rw [List.append_assoc]
    refine .parts (abreast_visitOption test r w) fun u _ _ _ _ => ?_
    exact .parts (abreast_visitStmts body r u) fun v _ _ _ _ => abreast_visitCases rest r v

/-- A declaration. -/
theorem abreast_visitDecl : ∀ (d : Decl) (r : Bool) (w : Tandem),
    Abreast κ file r w (visitDecl d) (visitDecl (d.contract (κ file))) ((Piece.decl d).spots r)
  | .function name f, r, w => by
    rw [visitDecl, Decl.contract, visitDecl]
    refine .inside [.func f] (.part (abreast_visitFunction f r w (some name) none false)
      fun _ _ _ id heq => ?_)
    subst heq
    refine .step (.vertex (.func id)) fun _ _ _ _ hvalue => ?_
    exact .step (.resolve name) fun _ hu _ _ htarget => .edge (hvalue.later hu) htarget
  | .class name cls, r, w => by
    rw [visitDecl, Decl.contract, visitDecl]
    refine .inside [.class cls] (.part (abreast_visitClass cls r w (some name) none)
      fun _ _ _ _ h => ?_)
    cases h with
    | none => exact .pure trivial
    | some h => exact .step (.resolve name) fun _ hu _ _ htarget => .edge (h.later hu) htarget
  | .vars _ declarators, r, w => by
    rw [visitDecl, Decl.contract, visitDecl]
    exact .inside (declarators.map .declarator) (abreast_visitDeclarators declarators r w)
  | .using declarators, r, w => by
    rw [visitDecl, Decl.contract, visitDecl]
    exact .inside (declarators.map .declarator) (abreast_visitResources declarators r w)
  | .inert, r, w => by
    rw [visitDecl, Decl.contract, visitDecl]
    exact .pure trivial

/-- The declarators of a declaration. -/
theorem abreast_visitDeclarators : ∀ (ds : List Declarator) (r : Bool) (w : Tandem),
    Abreast κ file r w (visitDeclarators ds) (visitDeclarators (Declarator.contractAll (κ file) ds))
      (Piece.spotsAll r (ds.map .declarator))
  | [], r, w => by
    rw [visitDeclarators, Declarator.contractAll, visitDeclarators]
    exact .pure trivial
  | .mk target none :: rest, r, w => by
    rw [visitDeclarators, Declarator.contractAll, Expr.contractOption, visitDeclarators]
    exact .insideFirst [.pattern target] (.part (abreast_bind target r w none none .none)
      fun u _ _ _ _ => abreast_visitDeclarators rest r u)
  | .mk target (some init) :: rest, r, w => by
    have hrole : initRole (target.contract (κ file)) = initRole target := by
      cases target <;> rfl
    rw [visitDeclarators_init, Declarator.contractAll, Expr.contractOption,
      visitDeclarators_init, hrole]
    refine .insideFirst [.expr init, .pattern target] ?_
    refine .part (abreast_visit init r w _) fun u _ _ _ hvalue => ?_
    exact .part (abreast_bind target r u _ _ hvalue.result) fun v _ _ _ _ =>
      abreast_visitDeclarators rest r v

/-- The declarators of a `using` declaration. -/
theorem abreast_visitResources : ∀ (ds : List Declarator) (r : Bool) (w : Tandem),
    Abreast κ file r w (visitResources ds) (visitResources (Declarator.contractAll (κ file) ds))
      (Piece.spotsAll r (ds.map .declarator))
  | [], r, w => by
    rw [visitResources, Declarator.contractAll, visitResources]
    exact .pure trivial
  | .mk target init :: rest, r, w => by
    rw [visitResources, Declarator.contractAll, visitResources]
    refine .insideFirst (init.toList.map .expr ++ [.pattern target]) ?_
    rw [List.append_assoc]
    refine .parts (abreast_visitOption init r w) fun u _ _ _ hvalue => ?_
    exact .part (abreast_bind target r u _ _ hvalue) fun v _ _ _ _ =>
      abreast_visitResources rest r v

end

/-! ## Items and files -/

namespace Abreast

/-- Steps of which the other walk takes the like. -/
theorem forM_map {γ δ : Type} {f : γ → Walk Unit} {f' : δ → Walk Unit} {g : γ → δ}
    {spots : γ → List Spot}
    (hf : ∀ u, w.Later u → ∀ a, Abreast κ file r u (f a) (f' (g a)) (spots a)) (as : List γ) :
    Abreast κ file r w (as.forM f) ((as.map g).forM f') (as.flatMap spots) := by
  induction as generalizing w with
  | nil => exact .pure trivial
  | cons a as ih =>
    exact (hf w (.refl w) a).bind fun u hu _ _ _ => ih fun v hv => hf v (hu.trans hv)

/-- Steps that no expansion stands in. -/
theorem forM_plain {γ δ : Type} {f : γ → Walk Unit} {f' : δ → Walk Unit} {g : γ → δ}
    (hf : ∀ u, w.Later u → ∀ a, Abreast κ file r u (f a) (f' (g a)) []) (as : List γ) :
    Abreast κ file r w (as.forM f) ((as.map g).forM f') [] := by
  have hall := forM_map hf as
  rwa [List.flatMap_eq_nil_iff.2 fun _ _ => rfl] at hall

theorem importName (source : String) (s : ImportSpecifier) :
    Abreast κ file r w (importName source s) (Walk.importName source s) [] :=
  .step (.resolve _) fun _ _ _ _ h => .addImport _ _ h

theorem exportName (name exported : String) :
    Abreast κ file r w (exportName name exported) (Walk.exportName name exported) [] :=
  .step (.resolve _) fun _ _ _ _ h => .addExport _ h

theorem relayName (source : String) (s : ExportSpecifier) :
    Abreast κ file r w (relayName source s)
      (Walk.relayName source { s with span := (κ file).move s.span }) [.joined s.span] := by
  refine .ending (.exprVertex s.span) fun u _ _ _ h => ?_
  exact .step (.addImport _ _ h) fun _ hv _ _ _ => .addExport _ (h.later hv)

theorem bindDefault (name : Option String) {i j : VertexId} (h : w.Same κ i j) :
    Abreast κ file r w (bindDefault name i) (Walk.bindDefault name j) [] := by
  cases name with
  | none => exact .pure trivial
  | some name => exact .step (.resolve _) fun _ hu _ _ ht => .edge (h.later hu) ht

end Abreast

theorem abreast_hoistItem (c : Contraction) (i : ModuleItem) :
    Abreast κ file r w (hoistItem i) (hoistItem (i.contract c)) [] := by
  cases i with
  | stmt s =>
    have hvars (u : Tandem) : Abreast κ file r u (declare .variable s.varNames)
        (declare .variable (s.contract c).varNames) [] := by
      rw [Stmt.varNames_contract]
      exact .declare _ _
    cases s with
    | decl d => exact .step (.hoist c d) fun u _ _ _ _ => hvars u
    | _ => exact hvars w
  | importNames _ _ | importEquals _ _ => exact .declare _ _
  | exportDecl d => exact .hoist c d
  | exportDefaultFunction name f =>
    cases name with
    | none => exact .pure trivial
    | some name => exact .declare _ _
  | exportDefaultClass name cls =>
    cases name with
    | none => exact .pure trivial
    | some name => exact .declare _ _
  | exportDefaultExpr _ | exportAssignment _ | exportNames _ _ | inert => exact .pure trivial

/-- There is no receiver around an item. -/
theorem abreast_visitItem (i : ModuleItem) :
    Abreast κ file false w (visitItem i) (visitItem (i.contract (κ file))) i.spots := by
  cases i with
  | stmt s => exact .single (abreast_visitStmt s _ w)
  | importNames source specifiers => exact .forM (fun _ _ => .importName source) specifiers
  | importEquals name source =>
    cases source with
    | none => exact .pure trivial
    | some source => exact .step (.resolve name) fun _ _ _ _ h => .addImport _ _ h
  | exportDecl d =>
    rw [ModuleItem.contract, visitItem, visitItem, Decl.exportedNames_contract]
    exact .ending (.single (abreast_visitDecl d _ w)) fun _ _ _ _ _ =>
      .forM (fun _ _ name => .exportName name name) d.exportedNames
  | exportDefaultFunction name f =>
    refine .part (abreast_visitFunction f _ w name none false) fun _ _ _ id heq => ?_
    subst heq
    refine .step (.vertex (.func id)) fun _ _ _ _ hvalue => ?_
    exact .step (.bindDefault name hvalue) fun _ hu _ _ _ => .addExport _ (hvalue.later hu)
  | exportDefaultClass name cls =>
    refine .part (abreast_visitClass cls _ w name none) fun _ _ _ _ h => ?_
    cases h with
    | none => exact .pure trivial
    | some h => exact .step (.bindDefault name h) fun _ hu _ _ _ => .addExport _ (h.later hu)
  | exportDefaultExpr e =>
    exact .part (abreast_visit e _ w _) fun _ _ _ _ hvalue => .export? "default" hvalue.result
  | exportAssignment e =>
    exact .part (abreast_visit e _ w _) fun _ _ _ _ hvalue => .export? "default" hvalue.result
  | exportNames source specifiers =>
    cases source with
    | none =>
      exact (Abreast.forM_plain (fun _ _ s => .exportName s.given s.exported) specifiers).more
        (List.nil_sublist _)
    | some source =>
      refine (Abreast.forM_map (fun _ _ => .relayName source) specifiers).more ?_
      rw [← List.map_eq_flatMap]
      exact .refl _
  | inert => exact .pure trivial

theorem abreast_visitModule (m : Module) :
    Abreast κ file false w (visitModule m) (visitModule (m.contract (κ file))) m.spots := by
  have hhoist : Abreast κ file false w (m.items.forM hoistItem)
      ((m.items.map (ModuleItem.contract (κ file))).forM hoistItem) [] :=
    .forM_plain (fun _ _ => abreast_hoistItem _) m.items
  exact hhoist.step fun _ _ _ _ _ => .forM_map (fun _ _ => abreast_visitItem) m.items

end Walk

/-- A file and its contracted form are added to states of which the one has no flow but that of the
other. -/
theorem FlowState.Abreast.addFile {κ : Contractions} {log : ExprLog} {s s' : FlowState}
    (h : s.Abreast κ log s') (path : Path) (lines lines' : LineTable) {m : Module}
    (hkeeps : (κ ⟨s.program.files.size⟩).Keeps m.spots) :
    let file : FileId := ⟨s.program.files.size⟩
    let added := s.addFile path lines m
    let added' := s'.addFile path lines' (m.contract (κ file))
    ∃ met : ExprLog, (met.map Prod.fst).Sublist ((Spot.spans m.spots).map (ExprKey.mk file)) ∧
      added.2.Abreast κ (log ++ met) added'.2 ∧
      added.1.Abreast κ (log ++ met) added.2.graph added'.2.graph added'.1 ∧
      (∀ v id, s.graph.find? v = some id → added.2.graph.find? v = some id) ∧
      ∀ v id, s'.graph.find? v = some id → added'.2.graph.find? v = some id := by
  intro file added added'
  have hindex : s'.program.files.size = s.program.files.size :=
    congrArg Array.size h.program.files
  have hplace : s'.opening lines' = { s.opening lines with lines := lines' } := by
    rw [FlowState.opening, FlowState.opening, h.scopes, hindex]
  have hopened : Tandem.Agrees κ ⟨log, s.opened path, s'.opened path⟩ := by
    refine ⟨{ h with
      program := { h.program with files := congrArg (·.push path) h.program.files }
      scopes := ?_ }, ⟨congrArg FileId.mk hindex, rfl, ?_, .nil, rfl⟩⟩
    · exact congrArg (fun scopes => (scopes.create .moduleScope ScopeTree.global).2) h.scopes
    · exact fun e he => absurd he (Array.not_mem_empty e)
  obtain ⟨met, hmet, hagrees, hlater, -⟩ :=
    Walk.abreast_visitModule m (s.opening lines) lines' rfl rfl hkeeps hopened
  have hadded : added = _ := s.addFile_eq path lines m
  have hadded' : added' = _ := s'.addFile_eq path lines' (m.contract (κ file))
  rw [hplace] at hadded'
  rw [hadded, hadded']
  exact ⟨met, hmet, hagrees.flow, hagrees.record, hlater.expanded, hlater.contracted⟩

end CallFlow
