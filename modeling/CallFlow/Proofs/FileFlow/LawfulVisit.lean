import CallFlow.Proofs.FileFlow.Callbacks
import CallFlow.Proofs.FileFlow.Equations
import CallFlow.Proofs.FileFlow.Slots

/-!
# The walk over a tree is lawful

One lemma for each function of the walk. The lemmas follow the steps of the walk. Slots are bounded
by the counts that were registered before what is inside a function or a call was walked.
-/

namespace CallFlow

open Syntax

namespace Walk

variable {file : WalkedFile}

mutual

/-- What the walk over an expression returns stands for what the expression evaluates to. -/
theorem lawful_visit (role : Role) : ∀ (e : Expr) (s : FileState), file.module.Holds (.expr e) →
    Lawful file s (visit role e) fun t value => t.Evaluates e value
  | .ident name, s, _ => by
    rw [visit]
    exact .bind (.resolve name) fun _ _ _ h => .pure (.of_store h .none)
  | .this, s, _ => by
    rw [visit]
    exact .bind .receiver fun _ _ _ h => .pure (.of_value h rfl)
  | .string _, s, _ | .literal, s, _ => by
    rw [visit]
    exact .pure (.of_value .none rfl)
  -- A function is its own value. Its vertex is looked for only after its body was walked, when the
  -- identifier that it was registered under is still known.
  | .function none f, s, hheld => by
    rw [visit]
    refine .bind (lawful_visitFunction _ none false f s (hheld.part (by simp [Piece.parts])))
      fun _ _ _ hf => ?_
    exact .bind (.functionVertex hf.registered) fun _ _ _ h => .pure (.of_value (.some h) rfl)
  | .function (some name) f, s, hheld => by
    rw [visit]
    refine .bind (lawful_visitFunction _ (some name) false f s
      (hheld.part (by simp [Piece.parts]))) fun _ _ _ hf => ?_
    exact .bind (.functionVertex hf.registered) fun _ _ _ h => .pure (.of_value (.some h) rfl)
  | .arrow f, s, hheld => by
    rw [visit]
    refine .bind (lawful_visitFunction _ none true f s (hheld.part (by simp [Piece.parts])))
      fun _ _ _ hf => ?_
    exact .bind (.functionVertex hf.registered) fun _ _ _ h => .pure (.of_value (.some h) rfl)
  | .class none c, s, hheld => by
    rw [visit]
    exact .bind (lawful_visitClass _ none c s (hheld.part (by simp [Piece.parts])))
      fun _ _ _ h => .pure (.of_value h rfl)
  | .class (some name) c, s, hheld => by
    rw [visit]
    exact .bind (lawful_visitClass _ (some name) c s (hheld.part (by simp [Piece.parts])))
      fun _ _ _ h => .pure (.of_value h rfl)
  | .call _ span callee args, s, hheld => fun place =>
    -- Calls differ in the slot that their arguments start at. That the arguments fill the slots is
    -- shown along with it, and nothing asks for it here.
    (lawfulAt_call hheld rfl rfl
      (fun t => lawful_visit .callee callee t (hheld.part (Expr.called_mem_parts rfl)))
      fun t c site hc hslots => lawfulAt_visitArgs place c 1 args t
        (Passing.argument c ⟨.call, span, 1, args⟩)
        (fun _ ha => hheld.part (Expr.arg_mem_parts rfl ha)) hc hslots).mono fun _ _ => And.left
  | .construct span callee args, s, hheld => fun place =>
    (lawfulAt_call hheld rfl rfl
      (fun t => lawful_visit .callee callee t (hheld.part (Expr.called_mem_parts rfl)))
      fun t c site hc hslots => lawfulAt_visitArgs place c 1 args t
        (Passing.argument c ⟨.construct, span, 1, args⟩)
        (fun _ ha => hheld.part (Expr.arg_mem_parts rfl ha)) hc hslots).mono fun _ _ => And.left
  | .tagged span tag substitutions, s, hheld => fun place =>
    (lawfulAt_call hheld rfl rfl
      (fun t => lawful_visit .callee tag t (hheld.part (Expr.called_mem_parts rfl)))
      fun t c site hc hslots => lawfulAt_visitArgs place c 2 substitutions t
        (Passing.argument c ⟨.call, span, 2, substitutions⟩)
        (fun _ ha => hheld.part (Expr.arg_mem_parts rfl ha)) hc hslots).mono fun _ _ => And.left
  | .member _ object key, s, hheld => by
    rw [visit]
    refine .bind (lawful_visit .value object s (hheld.part (by simp [Piece.parts])))
      fun t _ value hvalue => ?_
    refine .bind (lawful_visitKey key t (hheld.part (by simp [Piece.parts]))) fun u hu _ hkey => ?_
    exact .pure (.of_store hkey (hvalue.result.later hu))
  | .superMember key, s, hheld => by
    have hrest : ∀ (t : FileState) value, t.Value value → Lawful file t
        (do return { result := ← visitKey key, receiver := value })
        fun u value => u.Evaluates (.superMember key) value := fun t value hvalue =>
      .bind (lawful_visitKey key t (hheld.part (by simp [Piece.parts]))) fun u hu _ hkey =>
        .pure (.of_store hkey (hvalue.later hu))
    rw [visit]
    split
    · exact .bind .receiver fun t _ value hvalue => hrest t value hvalue
    · exact hrest s none .none
  | .assign op target value, s, hheld => by
    have htarget := fun t => lawful_bind target t (hheld.part (by simp [Piece.parts]))
    -- the walk takes the key of `super[key]` by itself, without the pattern around it
    have hkey : ∀ key, target = .expr (.superMember key) →
        ∀ t, Lawful file t (visitKey key) FileState.Store := by
      intro key h t
      match target, h with
      | .expr (.superMember key'), h =>
        obtain rfl : key' = key := by simpa using h
        have hpattern : file.module.Holds (.pattern (.expr (.superMember key'))) :=
          hheld.part (by simp [Piece.parts])
        exact lawful_visitKey key' t ((hpattern.part (List.mem_singleton_self _)).part
          (List.mem_singleton_self _))
    unfold visit
    refine .bind (lawful_visit target.valueRole value s (hheld.part (by simp [Piece.parts])))
      fun t _ result hresult => ?_
    -- After `+=` and the like nothing is stored, which is a value as well.
    have hstored : t.Value (if op = .arithmetic then none else result.result) := by
      split
      · exact .none
      · exact hresult.result
    dsimp only
    split
    · refine .bind (hkey _ rfl t) fun u hu _ hplace => ?_
      refine .bind (.flow (hstored.later hu) hplace.target) fun x hx _ _ => ?_
      exact .pure (.of_value (hstored.later (hu.trans hx)) rfl)
    · exact .pure (.of_value hstored rfl)
    · exact .pure (.of_value hstored rfl)
    · refine .bind (.exportAssigned _ hstored) fun u hu _ _ => ?_
      refine .bind (htarget u _ (hstored.later hu)) fun x hx _ _ => ?_
      exact .pure (.of_value (hstored.later (hu.trans hx)) rfl)
  -- Either side may be the value, so both flow to the vertex of the expression.
  | .logical span left right, s, hheld => by
    rw [visit]
    refine .bind (lawful_visit .value left s (hheld.part (by simp [Piece.parts])))
      fun s₁ _ _ hleft => ?_
    refine .bind (lawful_visit .value right s₁ (hheld.part (by simp [Piece.parts])))
      fun s₂ h₂ _ hright => ?_
    refine .bind (.exprVertex span) fun s₃ h₃ _ hjoined => ?_
    refine .bind (.flow (hleft.result.later (h₂.trans h₃)) hjoined.target) fun s₄ h₄ _ _ => ?_
    refine .bind (.flow (hright.result.later (h₃.trans h₄)) (hjoined.later h₄).target)
      fun s₅ h₅ _ _ => ?_
    exact .pure (.of_store (hjoined.later (h₄.trans h₅)) .none)
  | .conditional span test consequent alternate, s, hheld => by
    rw [visit]
    refine .bind (lawful_visit .value test s (hheld.part (by simp [Piece.parts])))
      fun s₁ _ _ _ => ?_
    refine .bind (lawful_visit .value consequent s₁ (hheld.part (by simp [Piece.parts])))
      fun s₂ _ _ hconsequent => ?_
    refine .bind (lawful_visit .value alternate s₂ (hheld.part (by simp [Piece.parts])))
      fun s₃ h₃ _ halternate => ?_
    refine .bind (.exprVertex span) fun s₄ h₄ _ hjoined => ?_
    refine .bind (.flow (hconsequent.result.later (h₃.trans h₄)) hjoined.target)
      fun s₅ h₅ _ _ => ?_
    refine .bind (.flow (halternate.result.later (h₄.trans h₅)) (hjoined.later h₅).target)
      fun s₆ h₆ _ _ => ?_
    exact .pure (.of_store (hjoined.later (h₅.trans h₆)) .none)
  | .sequence exprs, s, hheld => by
    rw [visit]
    exact .bind (lawful_visitAll exprs s fun e he => hheld.part (by simp [Piece.parts, he]))
      fun _ _ _ h => .pure (.of_value h rfl)
  | .paren inner, s, hheld => by
    rw [visit]
    -- Parentheses keep the value and the place, but not the receiver.
    refine .bind (lawful_visit role.inParens inner s (hheld.part (by simp [Piece.parts])))
      fun _ _ _ h => .pure ⟨h.result, .none, fun hplace => h.place ?_⟩
    rwa [Expr.isPlace] at hplace
  | .await inner, s, hheld | .typed inner, s, hheld | .spread inner, s, hheld => by
    rw [visit]
    exact .bind (lawful_visit .value inner s (hheld.part (by simp [Piece.parts])))
      fun _ _ _ h => .pure (.of_value h.result rfl)
  | .array operands, s, hheld | .untracked operands, s, hheld => by
    rw [visit]
    exact .bind (lawful_visitAll operands s fun e he => hheld.part (by simp [Piece.parts, he]))
      fun _ _ _ _ => .pure (.of_value .none rfl)
  | .object properties, s, hheld => by
    rw [visit]
    exact .bind (lawful_visitProperties properties s
      fun p hp => hheld.part (by simp [Piece.parts, hp])) fun _ _ _ _ => .pure (.of_value .none rfl)
  | .element attributes children, s, hheld => by
    rw [visit]
    refine .bind (lawful_visitAttributes attributes s
      fun a ha => hheld.part (by simp [Piece.parts, ha])) fun t _ _ _ => ?_
    exact .bind (lawful_visitAll children t fun e he => hheld.part (by simp [Piece.parts, he]))
      fun _ _ _ _ => .pure (.of_value .none rfl)

/-- The value of several expressions is that of the last one. -/
theorem lawful_visitAll : ∀ (es : List Expr) (s : FileState),
    (∀ e ∈ es, file.module.Holds (.expr e)) → Lawful file s (visitAll es) FileState.Value
  | [], s, _ => by
    rw [visitAll]
    exact .pure .none
  | [e], s, hheld => by
    rw [visitAll]
    exact .bind (lawful_visit .value e s (hheld e List.mem_cons_self))
      fun _ _ _ h => .pure h.result
  | e :: e' :: rest, s, hheld => by
    unfold visitAll
    refine .bind (lawful_visit .value e s (hheld e List.mem_cons_self)) fun t _ _ _ => ?_
    exact lawful_visitAll (e' :: rest) t fun d hd => hheld d (List.mem_cons_of_mem e hd)

/-- An expression that is not there has no value. -/
theorem lawful_visitOption : ∀ (e : Option Expr) (s : FileState),
    (∀ d ∈ e, file.module.Holds (.expr d)) → Lawful file s (visitOption e) FileState.Value
  | none, s, _ => by
    rw [visitOption]
    exact .pure .none
  | some e, s, hheld => by
    rw [visitOption]
    exact .bind (lawful_visit .value e s (hheld e rfl)) fun _ _ _ h => .pure h.result

/-- The arguments of a call fill its slots, one after the other from the given one on. The call has
enough of them, since their number was registered with it. A function in a slot is there as a
callback only if the argument evaluates to one where it is written. -/
theorem lawfulAt_visitArgs {passing : Passing} (place : Place) (c : CallId) (slot : Nat) :
    ∀ (es : List Expr) (s : FileState),
      (∀ i e v, es[i]? = some e → ((∃ f, v = .func f) → e.isCallback = true) →
        passing v c (slot + i)) →
      (∀ e ∈ es, file.module.Holds (.expr e)) →
      ∀ {site : CallSite}, s.flow.program.call? c = some site →
        slot + es.length ≤ site.argCount + 1 →
          LawfulAt place file s (visitArgs c slot es) (fun t _ => t.flow.Fills place c slot es)
            passing
  | [], s, _, _, _, _, _ => by
    rw [visitArgs]
    exact .pure nofun
  | e :: rest, s, hpassing, hheld, site, hc, hslots => by
    rw [List.length_cons] at hslots
    have hnames : s.flow.Names (.arg c slot) := ⟨site, hc, by omega⟩
    rw [visitArgs]
    refine .bind (LawfulAt.of_lawful (lawful_visit .value e s
      (hheld e List.mem_cons_self))).result_eq fun s₁ h₁ value hvisited => ?_
    obtain ⟨hvalue, hwalk⟩ := hvisited
    refine .bind (.of_lawful (.vertex (h₁.later.names hnames))) fun s₂ h₂ _ harg => ?_
    -- A slot is told apart by what flows to it, so this is where an argument counts as a callback.
    have hpassed : ∀ id ∈ value.result, ∀ v, s₂.flow.graph.find? v = some id →
        passing v c slot := by
      refine fun id hid v hv => hpassing 0 e v rfl ?_
      rintro ⟨f, rfl⟩
      -- the value has had its vertex since it was walked
      obtain ⟨w, hw, -⟩ := hvalue.result id hid
      obtain rfl := FlowGraph.find?_inj (h₂.later.vertices w id hw) hv
      exact isCallback_of_function hwalk hid hw
    refine .bind (.argument (hvalue.result.later h₂.later) harg hpassed)
      fun s₃ h₃ _ hedge => ?_
    have hreceives : s₃.flow.Receives (.arg c slot) place e := by
      refine ⟨s, hnames, ?_⟩
      rw [hwalk]
      exact ⟨(h₂.trans h₃).later, hedge⟩
    -- The rest starts one slot further, which shifts each position by one.
    have hrest : ∀ i d v, rest[i]? = some d → ((∃ f, v = .func f) → d.isCallback = true) →
        passing v c (slot + 1 + i) := by
      intro i d v hd hv
      rw [show slot + 1 + i = slot + (i + 1) by omega]
      exact hpassing (i + 1) d v hd hv
    refine (lawfulAt_visitArgs place c (slot + 1) rest s₃ hrest
      (fun d hd => hheld d (List.mem_cons_of_mem e hd))
      (((h₁.trans h₂).trans h₃).later.calls _ _ hc) (by omega)).of_later
      fun t ht _ hrest i a ha => ?_
    cases i with
    | zero =>
      obtain rfl := Option.some.inj ha
      exact ⟨(h₃.later.trans ht).has ⟨_, harg⟩, hreceives.later ht⟩
    | succ i =>
      rw [show slot + (i + 1) = slot + 1 + i by omega]
      exact hrest i a ha

/-- A key leads to a vertex in which values can be stored: that of a property, or the unknown one.
-/
theorem lawful_visitKey : ∀ (k : Key) (s : FileState), file.module.Holds (.key k) →
    Lawful file s (visitKey k) FileState.Store
  | .named _, s, _ | .privateName _, s, _ => by
    rw [visitKey]
    exact .prop _
  | .untracked, s, _ => by
    rw [visitKey]
    exact .unknown
  | .computed e, s, hheld => by
    obtain ⟨name, -, heq⟩ | heq := visitKey_computed e
    · rw [heq]
      exact .prop name
    · rw [heq]
      exact .bind (lawful_visit .value e s (hheld.part (by simp [Piece.parts])))
        fun _ _ _ _ => .unknown

/-- A property of an object literal passes its value on to the property of this name. -/
theorem lawful_visitProperty : ∀ (p : Property) (s : FileState),
    file.module.Holds (.property p) → Lawful file s (visitProperty p)
  | .keyValue key value, s, hheld => by
    rw [visitProperty]
    refine .bind (lawful_visitKey key s (hheld.part (by simp [Piece.parts])))
      fun t _ _ htarget => ?_
    refine .bind (lawful_visit key.valueRole value t (hheld.part (by simp [Piece.parts])))
      fun u hu _ hvalue => ?_
    -- The vertex of the key is older than the value.
    exact .flow hvalue.result (htarget.later hu).target
  | .shorthand name, s, _ => by
    rw [visitProperty]
    refine .bind (.resolve name) fun t _ _ hvalue => ?_
    exact .bind (.prop name) fun u hu _ htarget => .edge (hvalue.later hu).source htarget.target
  | .shorthandDefault _ value, s, hheld => by
    rw [visitProperty]
    exact .bind (lawful_visit .value value s (hheld.part (by simp [Piece.parts])))
      fun _ _ _ _ => .pure trivial
  | .method key f, s, hheld => by
    rw [visitProperty]
    refine .bind (lawful_visitKey key s (hheld.part (by simp [Piece.parts])))
      fun t _ _ htarget => ?_
    refine .bind (lawful_visitFunction _ none false f t (hheld.part (by simp [Piece.parts])))
      fun u hu _ hf => ?_
    refine .bind (.functionVertex hf.registered) fun x hx _ hvalue => ?_
    exact .edge hvalue (htarget.later (hu.trans hx)).target
  | .spread e, s, hheld => by
    rw [visitProperty]
    exact .bind (lawful_visit .value e s (hheld.part (by simp [Piece.parts])))
      fun _ _ _ _ => .pure trivial

/-- The properties of an object literal, one after the other. -/
theorem lawful_visitProperties : ∀ (ps : List Property) (s : FileState),
    (∀ p ∈ ps, file.module.Holds (.property p)) → Lawful file s (visitProperties ps)
  | [], s, _ => by
    rw [visitProperties]
    exact .pure trivial
  | p :: rest, s, hheld => by
    rw [visitProperties]
    refine .bind (lawful_visitProperty p s (hheld p List.mem_cons_self)) fun t _ _ _ => ?_
    exact lawful_visitProperties rest t fun q hq => hheld q (List.mem_cons_of_mem p hq)

/-- The attributes of an element are walked for what is inside of them only. -/
theorem lawful_visitAttributes : ∀ (as : List Attribute) (s : FileState),
    (∀ a ∈ as, file.module.Holds (.attr a)) → Lawful file s (visitAttributes as)
  | [], s, _ => by
    rw [visitAttributes]
    exact .pure trivial
  | .value e :: rest, s, hheld => by
    rw [visitAttributes]
    have hvalue := hheld _ List.mem_cons_self
    refine .bind (lawful_visit .value e s (hvalue.part (by simp [Piece.parts])))
      fun t _ _ _ => ?_
    exact lawful_visitAttributes rest t fun a ha => hheld a (List.mem_cons_of_mem _ ha)
  | .fragment _ :: rest, s, hheld => by
    rw [visitAttributes]
    exact lawful_visitAttributes rest s fun a ha => hheld a (List.mem_cons_of_mem _ ha)

/-- A pattern takes a value that there is by then, if it is given one. What is inside of arrays and
objects is not followed, so there the elements start without a value. -/
theorem lawful_bind : ∀ (p : Pattern) (s : FileState), file.module.Holds (.pattern p) →
    ∀ source, s.Value source → Lawful file s (bind p source)
  | .ident name, s, _, source, hsource => by
    rw [bind]
    exact .bind (.resolve name) fun t ht _ htarget => .flow (hsource.later ht) htarget.target
  | .array elements, s, hheld, _, _ => by
    rw [bind]
    exact lawful_bindAll elements s fun p hp => hheld.part (by simp [Piece.parts, hp])
  | .object fields, s, hheld, _, _ => by
    rw [bind]
    exact lawful_bindFields fields s fun f hf => hheld.part (by simp [Piece.parts, hf])
  | .rest inner, s, hheld, _, _ => by
    rw [bind]
    exact lawful_bind inner s (hheld.part (by simp [Piece.parts])) none .none
  | .withDefault inner value, s, hheld, source, hsource => by
    -- The inner pattern is bound to the value first and to the default after it, so it is walked
    -- twice.
    have hinner : file.module.Holds (.pattern inner) := hheld.part (by simp [Piece.parts])
    rw [bind]
    refine .bind (lawful_visit .value value s (hheld.part (by simp [Piece.parts])))
      fun t ht default hdefault => ?_
    refine .bind (lawful_bind inner t hinner source (hsource.later ht)) fun u hu _ _ => ?_
    -- what the default evaluates to is bound too, if it has a vertex
    have hdefault := hdefault.result.later hu
    split
    · next value hvalue => exact lawful_bind inner u hinner (some value) (hvalue ▸ hdefault)
    · exact .pure trivial
  | .expr e, s, hheld, source, hsource => by
    rw [bind]
    refine .bind (lawful_visit .value e s (hheld.part (by simp [Piece.parts])))
      fun t ht value hvalue => ?_
    split
    -- Only a place can be stored to, and it has been evaluated to a vertex that values get into.
    · next place hplace hresult =>
      exact .flow (hsource.later ht) (hvalue.place hplace place hresult).target
    · exact .pure trivial

/-- The elements of an array pattern, none of which gets a value. -/
theorem lawful_bindAll : ∀ (ps : List Pattern) (s : FileState),
    (∀ p ∈ ps, file.module.Holds (.pattern p)) → Lawful file s (bindAll ps)
  | [], s, _ => by
    rw [bindAll]
    exact .pure trivial
  | p :: rest, s, hheld => by
    rw [bindAll]
    refine .bind (lawful_bind p s (hheld p List.mem_cons_self) none .none) fun t _ _ _ => ?_
    exact lawful_bindAll rest t fun q hq => hheld q (List.mem_cons_of_mem p hq)

/-- A field of an object pattern gets its value from the property of its name. -/
theorem lawful_bindField : ∀ (f : PatternField) (s : FileState), file.module.Holds (.field f) →
    Lawful file s (bindField f)
  | .keyValue key p, s, hheld => by
    rw [bindField]
    refine .bind (lawful_visitKey key s (hheld.part (by simp [Piece.parts])))
      fun t _ _ hsource => ?_
    exact lawful_bind p t (hheld.part (by simp [Piece.parts])) _ (.some hsource.source)
  | .shorthand name none, s, _ => by
    rw [bindField]
    refine .bind (.prop name) fun t _ _ hsource => ?_
    refine .bind (.resolve name) fun u hu _ htarget => ?_
    exact .bind (.edge (hsource.later hu).source htarget.target) fun _ _ _ _ => .pure trivial
  | .shorthand name (some value), s, hheld => by
    rw [bindField]
    refine .bind (.prop name) fun t _ _ hsource => ?_
    refine .bind (.resolve name) fun u hu _ htarget => ?_
    refine .bind (.edge (hsource.later hu).source htarget.target) fun x hx _ _ => ?_
    refine .bind (lawful_visit .value value x (hheld.part (by simp [Piece.parts])))
      fun y hy _ hvalue => ?_
    exact .flow hvalue.result (htarget.later (hx.trans hy)).target
  | .rest inner, s, hheld => by
    rw [bindField]
    exact lawful_bind inner s (hheld.part (by simp [Piece.parts])) none .none

/-- The fields of an object pattern, one after the other. -/
theorem lawful_bindFields : ∀ (fs : List PatternField) (s : FileState),
    (∀ f ∈ fs, file.module.Holds (.field f)) → Lawful file s (bindFields fs)
  | [], s, _ => by
    rw [bindFields]
    exact .pure trivial
  | f :: rest, s, hheld => by
    rw [bindFields]
    refine .bind (lawful_bindField f s (hheld f List.mem_cons_self)) fun t _ _ _ => ?_
    exact lawful_bindFields rest t fun g hg => hheld g (List.mem_cons_of_mem f hg)

/-- A function is registered before its parameters and its body are walked, and its parameters are
bound in the scope that is created for it. -/
theorem lawful_visitFunction (name own : Option String) (isArrow : Bool) :
    ∀ (func : Func) (s : FileState), file.module.Holds (.func func) →
      Lawful file s (visitFunction name own isArrow func) (Entered s func)
  | .mk params body span, s, hheld => by
    intro place
    refine .newFunction hheld (by rw [visitFunction]; rfl)
      fun t ht hscopes f value function hid hf hcount hvalue => ?_
    have hscope : (⟨t.flow.scopes.size⟩ : ScopeId) = ⟨s.flow.scopes.size⟩ := by rw [hscopes]
    -- the count of the parameters is registered by now, and bounds the slots that follow
    have hinner : LawfulAt place file t
        (inScope (if isArrow then .arrowScope else .functionScope) do
          withReader (fun place => { place with
            function := some f
            receiver := if isArrow then place.receiver else some f }) do
            bindOwnName value own
            declare .parameter (params.flatMap Param.names)
            hoistBody body
            bindParams f 1 params
            visitBody f body)
        fun u _ => ∀ i p, params[i]? = some p →
          u.flow.Binds (.param f (1 + (params.take i).countP Param.isSlotted))
            ⟨s.flow.scopes.size⟩ p := by
      -- The scope is the last one by now, and the own name of the function gets into it as well.
      refine .inScope _ ?_
      have hopened := FlowState.Later.createScope t
        (if isArrow then .arrowScope else .functionScope) place.scope
      have hf₀ := hopened.functions _ _ hf
      have hscope₀ : (t.createScope (if isArrow then .arrowScope else .functionScope)
          place.scope).flow.scopes.scope? ⟨t.flow.scopes.size⟩ = some _ :=
        Array.getElem?_push_size
      rw [hscope] at hscope₀ ⊢
      refine .inFunction isArrow ⟨_, hf₀⟩ ?_
      refine .bind (.of_lawful (.bindOwnName ⟨_, hopened.vertices _ _ hvalue, trivial⟩ own))
        fun s₁ h₁ _ _ => ?_
      refine .bind (.declare _ _) fun s₂ h₂ _ hnames => ?_
      refine .bind (.of_lawful (.hoistBody body)) fun s₃ h₃ _ _ => ?_
      have h₁₃ := ((h₁.trans h₂).trans h₃).later
      have hf₃ := h₁₃.functions _ _ hf₀
      -- Every name in a parameter is declared before the first parameter is bound.
      have hbound : ∀ p ∈ params, ∀ name ∈ p.names,
          ∃ x, s₃.flow.symbols.binding? ⟨s.flow.scopes.size⟩ name = some x :=
        fun p hp name hname => (hnames name (List.mem_flatMap.2 ⟨p, hp, hname⟩)).imp
          fun x => h₃.later.bindings _ _ x
      refine .bind (lawfulAt_bindParams _ f 1 params s₃
        (fun p hp => hheld.part (by simp [Piece.parts, hp])) hf₃ (by rw [hcount, Nat.add_comm]; rfl)
        ⟨_, h₁₃.scopes _ _ hscope₀⟩ hbound) fun s₄ h₄ _ hparams => ?_
      refine (LawfulAt.of_lawful (lawful_visitBody f body s₄ (hheld.part (by simp [Piece.parts]))
        ⟨_, h₄.later.functions _ _ hf₃⟩)).of_later fun u hu _ _ i p hp => ?_
      exact (hparams i p hp).later hu
    exact hinner.bind fun u hu _ hparams =>
      .pure ⟨hid, ⟨function, hu.later.functions _ _ hf, hcount⟩, hparams⟩

/-- Parameters with a slot take the slots one after the other, the others take none. -/
theorem lawfulAt_bindParams (place : Place) (f : FunctionId) (slot : Nat) :
    ∀ (ps : List Param) (s : FileState), (∀ p ∈ ps, file.module.Holds (.param p)) →
      ∀ {function : Function}, s.flow.program.function? f = some function →
        slot + ps.countP Param.isSlotted ≤ function.paramCount + 1 →
        (∃ scope, s.flow.scopes.scope? place.scope = some scope) →
        (∀ p ∈ ps, ∀ name ∈ p.names, ∃ x, s.flow.symbols.binding? place.scope name = some x) →
          LawfulAt place file s (bindParams f slot ps) fun t _ => ∀ i p, ps[i]? = some p →
            t.flow.Binds (.param f (slot + (ps.take i).countP Param.isSlotted)) place.scope p
  | [], s, _, _, _, _, _, _ => by
    rw [bindParams]
    exact .pure nofun
  | p :: rest, s, hheld, function, hf, hslots, hscope, hbound => by
    rw [bindParams]
    split
    · next hslotted =>
      rw [List.countP_cons_of_pos hslotted] at hslots
      have hnames : s.flow.Names (.param f slot) := ⟨function, hf, by omega⟩
      refine .bind (.of_lawful (.vertex hnames)) fun t ht _ hsource => ?_
      refine .bind (lawfulAt_bindParam place p t (hheld p List.mem_cons_self) hsource
        (hscope.imp fun _ => ht.later.scopes _ _) fun name hname =>
          (hbound p List.mem_cons_self name hname).imp fun x => ht.later.bindings _ _ x)
        fun u hu _ hfirst => ?_
      have hlater := (ht.trans hu).later
      -- those that follow are counted from the next slot on
      refine (lawfulAt_bindParams place f (slot + 1) rest u
        (fun q hq => hheld q (List.mem_cons_of_mem p hq)) (hlater.functions _ _ hf) (by omega)
        (hscope.imp fun _ => hlater.scopes _ _) fun q hq name hname =>
          (hbound q (List.mem_cons_of_mem p hq) name hname).imp
            fun x => hlater.bindings _ _ x).of_later fun x hx _ hrest i q hq => ?_
      cases i with
      | zero =>
        obtain rfl := Option.some.inj hq
        exact hfirst.later hx
      | succ i =>
        have hq' := hrest i q hq
        rwa [List.take_succ_cons, List.countP_cons_of_pos hslotted,
          show slot + ((rest.take i).countP Param.isSlotted + 1) =
            slot + 1 + (rest.take i).countP Param.isSlotted by omega]
    · next hslotted =>
      rw [List.countP_cons_of_neg hslotted] at hslots
      refine (lawfulAt_bindParams place f slot rest s
        (fun q hq => hheld q (List.mem_cons_of_mem p hq)) hf hslots hscope
        fun q hq => hbound q (List.mem_cons_of_mem p hq)).mono fun x _ hrest i q hq => ?_
      cases i with
      | zero =>
        -- it has no slot, hence no plain name
        obtain rfl := Option.some.inj hq
        exact fun name hname => absurd (Param.isSlotted_of_plainName? hname) hslotted
      | succ i =>
        rw [List.take_succ_cons, List.countP_cons_of_neg hslotted]
        exact hrest i q hq

/-- A parameter that is a plain name gets the slot that it is bound to: whatever the slot holds
flows to the variable of the name. -/
theorem lawfulAt_bindParam (place : Place) : ∀ (p : Param) (s : FileState),
    file.module.Holds (.param p) → ∀ {f : FunctionId} {slot : Nat} {source : VertexId},
      s.flow.graph.find? (.param f slot) = some source →
      (∃ scope, s.flow.scopes.scope? place.scope = some scope) →
      (∀ name ∈ p.names, ∃ x, s.flow.symbols.binding? place.scope name = some x) →
        LawfulAt place file s (bindParam source p) fun t _ =>
          t.flow.Binds (.param f slot) place.scope p
  | .pattern decorators p, s, hheld, f, slot, source, hsource, hscope, hbound => by
    have hvalue : s.Value (some source) := .some ⟨_, hsource, trivial⟩
    have hlawful : Lawful file s (bindParam source (.pattern decorators p)) := by
      rw [bindParam_pattern]
      exact lawful_bind p s (hheld.part (by simp [Piece.parts])) (some source) hvalue
    -- Only of a plain name there is something to show.
    cases p with
    | ident name =>
      obtain ⟨x, hx⟩ := hbound name (List.mem_singleton_self name)
      have hsteps : bindParam source (.pattern decorators (.ident name)) =
          (do flow (some source) (← resolve name)) := by
        unfold bindParam
        rw [bind]
      rw [hsteps]
      refine .bind (.resolve hscope hx) fun t ht _ htarget => ?_
      refine (LawfulAt.of_lawful (.join (ht.later.vertices _ _ hsource) htarget trivial trivial
        nofun)).of_later fun u hu _ hedge => ?_
      rintro _ ⟨⟩
      exact ⟨x, (ht.later.trans hu).bindings _ _ _ hx, hedge⟩
    | array _ | object _ | rest _ | withDefault _ _ | expr _ =>
      exact (LawfulAt.of_lawful hlawful).mono fun _ _ _ => nofun
  -- A parameter property is a variable and a property of the object, and the slot flows to both.
  | .property _ name default, s, hheld, f, slot, source, hsource, hscope, hbound => by
    obtain ⟨x, hx⟩ := hbound name (List.mem_singleton_self name)
    rw [bindParam]
    refine .bind (.resolve hscope hx) fun s₁ h₁ _ htarget => ?_
    refine .bind (.of_lawful (.join (h₁.later.vertices _ _ hsource) htarget trivial trivial nofun))
      fun s₂ h₂ _ hedge => ?_
    refine .bind (.of_lawful (.prop name)) fun s₃ h₃ _ hprop => ?_
    have hsource₃ := ((h₁.trans h₂).trans h₃).later.vertices _ _ hsource
    refine .bind (.of_lawful (.edge ⟨_, hsource₃, trivial⟩ hprop.target)) fun s₄ h₄ _ _ => ?_
    have h₂₄ := (h₃.trans h₄).later
    have hbinds : s₄.flow.Binds (.param f slot) place.scope (.property [] name default) := by
      rintro _ ⟨⟩
      exact ⟨x, (h₁.trans h₂).later.trans h₂₄ |>.bindings _ _ _ hx, h₂₄.edges hedge⟩
    cases default with
    | none => exact .pure hbinds
    | some value =>
      refine .bind (.of_lawful (lawful_visit .value value s₄ (hheld.part (by simp [Piece.parts]))))
        fun s₅ h₅ _ hvalue => ?_
      have htarget₅ := ((h₂.later.trans h₂₄).trans h₅.later).vertices _ _ htarget
      refine (LawfulAt.of_lawful (.flow hvalue.result ⟨_, htarget₅, trivial⟩)).of_later
        fun t ht _ _ => ?_
      exact hbinds.later (h₅.later.trans ht)
  | .propertyPattern _ _ _, s, _, _, _, _, _, _, _ => by
    rw [bindParam]
    exact .pure nofun

/-- What a body without braces evaluates to is returned from the function. -/
theorem lawful_visitBody (f : FunctionId) : ∀ (b : Body) (s : FileState),
    file.module.Holds (.body b) → Registered s f → Lawful file s (visitBody f b)
  | .block stmts, s, hheld, _ => by
    rw [visitBody]
    exact lawful_visitStmts stmts s fun stmt hstmt => hheld.part (by simp [Piece.parts, hstmt])
  | .expr result, s, hheld, hf => by
    rw [visitBody]
    refine .bind (lawful_visit .value result s (hheld.part (by simp [Piece.parts])))
      fun t ht _ hvalue => ?_
    have hnames : t.flow.Names (.ret f) := hf.imp (ht.functions f)
    refine .bind (.vertex hnames) fun u hu _ hret => ?_
    exact .flow (hvalue.result.later hu) ⟨_, hret, trivial⟩
  | .absent, s, _, _ => by
    rw [visitBody]
    exact .pure trivial

/-- The value of a class is the one of its members, which is its constructor. -/
theorem lawful_visitClass (name own : Option String) : ∀ (c : Syntax.Class) (s : FileState),
    file.module.Holds (.class c) → Lawful file s (visitClass name own c) FileState.Value
  | .mk decorators heritage members, s, hheld => by
    rw [visitClass]
    refine .bind (lawful_visitAll decorators s fun e he => hheld.part (by simp [Piece.parts, he]))
      fun s₁ _ _ _ => ?_
    refine .bind (lawful_visitOption heritage s₁
      fun e he => hheld.part (by simp [Piece.parts, Option.mem_def.1 he])) fun s₂ _ _ _ => ?_
    refine .inScope _ fun s₃ _ => ?_
    refine .bind (.declareClassName own) fun s₄ _ _ _ => ?_
    refine .bind (lawful_visitMembers name members s₄
      (fun m hm => hheld.part (by simp [Piece.parts, hm])) none .none) fun s₅ _ _ h => ?_
    exact .bind (.bindClassName own h) fun s₆ h₆ _ _ => .pure (h.later h₆)

/-- The members of a class hand on the last constructor that was seen among them. -/
theorem lawful_visitMembers (name : Option String) : ∀ (ms : List Member) (s : FileState),
    (∀ m ∈ ms, file.module.Holds (.member m)) → ∀ last, s.Value last →
      Lawful file s (visitMembers name last ms) FileState.Value
  | [], s, _, last, hlast => by
    rw [visitMembers]
    exact .pure hlast
  | .constructor f :: rest, s, hheld, _, _ => by
    rw [visitMembers]
    have hmember := hheld _ List.mem_cons_self
    refine .bind (lawful_visitFunction name none false f s
      (hmember.part (by simp [Piece.parts]))) fun t _ _ hf => ?_
    refine .bind (.functionVertex hf.registered) fun u _ _ hvalue => ?_
    exact lawful_visitMembers name rest u (fun m hm => hheld m (List.mem_cons_of_mem _ hm)) _
      (.some hvalue)
  | .method decorators key f :: rest, s, hheld, last, hlast => by
    have hmember := lawful_visitMember (.method decorators key f) s
      (hheld _ List.mem_cons_self)
    unfold visitMembers
    refine .bind hmember fun t ht _ _ => ?_
    exact lawful_visitMembers name rest t (fun m hm => hheld m (List.mem_cons_of_mem _ hm)) last
      (hlast.later ht)
  | .field decorators key value :: rest, s, hheld, last, hlast => by
    have hmember := lawful_visitMember (.field decorators key value) s
      (hheld _ List.mem_cons_self)
    unfold visitMembers
    refine .bind hmember fun t ht _ _ => ?_
    exact lawful_visitMembers name rest t (fun m hm => hheld m (List.mem_cons_of_mem _ hm)) last
      (hlast.later ht)
  | .staticBlock stmts :: rest, s, hheld, last, hlast => by
    have hmember := lawful_visitMember (.staticBlock stmts) s (hheld _ List.mem_cons_self)
    unfold visitMembers
    refine .bind hmember fun t ht _ _ => ?_
    exact lawful_visitMembers name rest t (fun m hm => hheld m (List.mem_cons_of_mem _ hm)) last
      (hlast.later ht)

/-- A member that is no constructor stores its value under its key. -/
theorem lawful_visitMember : ∀ (m : Member) (s : FileState), file.module.Holds (.member m) →
    Lawful file s (visitMember m)
  | .constructor f, s, _ => by
    rw [visitMember]
    exact .pure trivial
  | .method decorators key f, s, hheld => by
    have hdecorators := lawful_visitAll decorators s
      fun e he => hheld.part (by simp [Piece.parts, he])
    -- The decorators come first unless the key is private, and the rest is the same in both cases.
    have hrest : ∀ t, Lawful file t
        (do
          let target ← visitKey key
          let id ← visitFunction key.name? none false f
          edge (← vertex (.func id)) target) := fun t => by
      refine .bind (lawful_visitKey key t (hheld.part (by simp [Piece.parts])))
        fun u _ _ htarget => ?_
      refine .bind (lawful_visitFunction _ none false f u (hheld.part (by simp [Piece.parts])))
        fun x hx _ hf => ?_
      refine .bind (.functionVertex hf.registered) fun y hy _ hvalue => ?_
      exact .edge hvalue (htarget.later (hx.trans hy)).target
    rw [visitMember]
    dsimp only
    cases key.isPrivate with
    | true => exact hrest s
    | false => exact hdecorators.bind fun t _ _ _ => hrest t
  | .field _ key none, s, hheld => by
    rw [visitMember]
    exact .bind (lawful_visitKey key s (hheld.part (by simp [Piece.parts])))
      fun _ _ _ _ => .pure trivial
  | .field _ key (some value), s, hheld => by
    rw [visitMember]
    refine .bind (lawful_visitKey key s (hheld.part (by simp [Piece.parts])))
      fun t _ _ htarget => ?_
    refine .bind (lawful_visit key.valueRole value t (hheld.part (by simp [Piece.parts])))
      fun u hu _ hvalue => ?_
    exact .flow hvalue.result (htarget.later hu).target
  | .staticBlock stmts, s, hheld => by
    rw [visitMember]
    exact .inBlock stmts fun t _ => lawful_visitStmts stmts t
      fun stmt hstmt => hheld.part (by simp [Piece.parts, hstmt])

/-- Statements have no value, and so it only matters that what they do is lawful. -/
theorem lawful_visitStmt : ∀ (stmt : Stmt) (s : FileState), file.module.Holds (.stmt stmt) →
    Lawful file s (visitStmt stmt)
  | .decl d, s, hheld => by
    rw [visitStmt]
    exact lawful_visitDecl d s (hheld.part (by simp [Piece.parts]))
  | .expr e, s, hheld | .throw e, s, hheld => by
    rw [visitStmt]
    exact .bind (lawful_visit .value e s (hheld.part (by simp [Piece.parts])))
      fun _ _ _ _ => .pure trivial
  | .block stmts, s, hheld => by
    rw [visitStmt]
    exact .inBlock stmts fun t _ => lawful_visitStmts stmts t
      fun stmt hstmt => hheld.part (by simp [Piece.parts, hstmt])
  | .ret none, s, _ => by
    rw [visitStmt]
    exact .pure trivial
  | .ret (some e), s, hheld => by
    rw [visitStmt]
    exact .bind (lawful_visit .value e s (hheld.part (by simp [Piece.parts])))
      fun _ _ _ hvalue => .returnValue hvalue.result
  | .cond test consequent alternate, s, hheld => by
    rw [visitStmt]
    refine .bind (lawful_visit .value test s (hheld.part (by simp [Piece.parts])))
      fun t _ _ _ => ?_
    refine .bind (lawful_visitStmt consequent t (hheld.part (by simp [Piece.parts])))
      fun u _ _ _ => ?_
    exact lawful_visitStmtOption alternate u
      fun stmt hstmt => hheld.part (by simp [Piece.parts, Option.mem_def.1 hstmt])
  | .for head test update body, s, hheld => by
    rw [visitStmt]
    refine .inScope _ fun s₁ _ => ?_
    refine .bind (lawful_visitLoopHead head s₁ (hheld.part (by simp [Piece.parts])))
      fun s₂ _ _ _ => ?_
    refine .bind (lawful_visitOption test s₂
      fun e he => hheld.part (by simp [Piece.parts, Option.mem_def.1 he])) fun s₃ _ _ _ => ?_
    refine .bind (lawful_visitOption update s₃
      fun e he => hheld.part (by simp [Piece.parts, Option.mem_def.1 he])) fun s₄ _ _ _ => ?_
    exact lawful_visitStmt body s₄ (hheld.part (by simp [Piece.parts]))
  | .forEach head iterated body, s, hheld => by
    rw [visitStmt]
    refine .inScope _ fun s₁ _ => ?_
    refine .bind (lawful_visit .value iterated s₁ (hheld.part (by simp [Piece.parts])))
      fun s₂ _ _ _ => ?_
    refine .bind (lawful_bindLoopHead head s₂ (hheld.part (by simp [Piece.parts])))
      fun s₃ _ _ _ => ?_
    exact lawful_visitStmt body s₃ (hheld.part (by simp [Piece.parts]))
  | .while test body, s, hheld => by
    rw [visitStmt]
    refine .bind (lawful_visit .value test s (hheld.part (by simp [Piece.parts])))
      fun t _ _ _ => ?_
    exact lawful_visitStmt body t (hheld.part (by simp [Piece.parts]))
  | .doWhile body test, s, hheld => by
    rw [visitStmt]
    refine .bind (lawful_visitStmt body s (hheld.part (by simp [Piece.parts])))
      fun t _ _ _ => ?_
    exact .bind (lawful_visit .value test t (hheld.part (by simp [Piece.parts])))
      fun _ _ _ _ => .pure trivial
  | .labeled body, s, hheld => by
    rw [visitStmt]
    exact lawful_visitStmt body s (hheld.part (by simp [Piece.parts]))
  | .switch subject cases, s, hheld => by
    rw [visitStmt]
    refine .bind (lawful_visit .value subject s (hheld.part (by simp [Piece.parts])))
      fun s₁ _ _ _ => ?_
    refine .inScope _ fun s₂ _ => ?_
    refine .bind (.hoistCases cases) fun s₃ _ _ _ => ?_
    exact lawful_visitCases cases s₃ fun c hc => hheld.part (by simp [Piece.parts, hc])
  | .try body param none finalizer, s, hheld => by
    rw [visitStmt]
    refine .bind (lawful_visitStmt body s (hheld.part (by simp [Piece.parts])))
      fun t _ _ _ => ?_
    exact lawful_visitStmtOption finalizer t
      fun stmt hstmt => hheld.part (by simp [Piece.parts, Option.mem_def.1 hstmt])
  | .try body param (some handler) finalizer, s, hheld => by
    rw [visitStmt]
    refine .bind (lawful_visitStmt body s (hheld.part (by simp [Piece.parts])))
      fun t _ _ _ => ?_
    -- What is caught gets a scope that ends before the last block starts.
    have hhandler : Lawful file t
        (inScope .catchScope do
          visitCatchParam param
          visitStmt handler) := by
      refine .inScope _ fun u _ => ?_
      refine .bind (lawful_visitCatchParam param u
        fun p hp => hheld.part (by simp [Piece.parts, Option.mem_def.1 hp])) fun x _ _ _ => ?_
      exact lawful_visitStmt handler x (hheld.part (by simp [Piece.parts]))
    exact hhandler.bind fun u _ _ _ => lawful_visitStmtOption finalizer u
      fun stmt hstmt => hheld.part (by simp [Piece.parts, Option.mem_def.1 hstmt])
  | .with object body, s, hheld => by
    rw [visitStmt]
    refine .bind (lawful_visit .value object s (hheld.part (by simp [Piece.parts])))
      fun t _ _ _ => ?_
    exact lawful_visitStmt body t (hheld.part (by simp [Piece.parts]))
  | .inert, s, _ => by
    rw [visitStmt]
    exact .pure trivial

/-- A statement that may be left out. -/
theorem lawful_visitStmtOption : ∀ (stmt : Option Stmt) (s : FileState),
    (∀ x ∈ stmt, file.module.Holds (.stmt x)) → Lawful file s (visitStmtOption stmt)
  | none, s, _ => by
    rw [visitStmtOption]
    exact .pure trivial
  | some stmt, s, hheld => by
    rw [visitStmtOption]
    exact lawful_visitStmt stmt s (hheld stmt rfl)

/-- Statements, one after the other. -/
theorem lawful_visitStmts : ∀ (stmts : List Stmt) (s : FileState),
    (∀ stmt ∈ stmts, file.module.Holds (.stmt stmt)) → Lawful file s (visitStmts stmts)
  | [], s, _ => by
    rw [visitStmts]
    exact .pure trivial
  | stmt :: rest, s, hheld => by
    rw [visitStmts]
    refine .bind (lawful_visitStmt stmt s (hheld stmt List.mem_cons_self)) fun t _ _ _ => ?_
    exact lawful_visitStmts rest t fun x hx => hheld x (List.mem_cons_of_mem stmt hx)

/-- Whatever is caught is unknown, and flows to the pattern. -/
theorem lawful_visitCatchParam : ∀ (p : Option Pattern) (s : FileState),
    (∀ q ∈ p, file.module.Holds (.pattern q)) → Lawful file s (visitCatchParam p)
  | none, s, _ => by
    rw [visitCatchParam]
    exact .pure trivial
  | some p, s, hheld => by
    rw [visitCatchParam]
    refine .bind (.declare _ _) fun t _ _ _ => ?_
    refine .bind .unknown fun u _ _ hunknown => ?_
    exact lawful_bind p u (hheld p rfl) _ (.some hunknown.source)

/-- The first part of a loop declares what it binds, or is an expression. -/
theorem lawful_visitLoopHead : ∀ (h : LoopHead) (s : FileState), file.module.Holds (.head h) →
    Lawful file s (visitLoopHead h)
  | .decl (.vars kind declarators), s, hheld => by
    rw [visitLoopHead]
    refine .bind (.hoist _) fun t _ _ _ => ?_
    -- The declarators are parts of the declaration, which is what the head has as its part.
    have hdecl : file.module.Holds (.decl (.vars kind declarators)) :=
      hheld.part (by simp [Piece.parts])
    exact lawful_visitDeclarators declarators t fun d hd => hdecl.part (by simp [Piece.parts, hd])
  | .expr e, s, hheld => by
    rw [visitLoopHead]
    exact .bind (lawful_visit .value e s (hheld.part (by simp [Piece.parts])))
      fun _ _ _ _ => .pure trivial
  | .decl (.function _ _), s, _ | .decl (.class _ _), s, _ | .decl (.using _), s, _
  | .decl .inert, s, _ | .pattern _, s, _ | .absent, s, _ => by
    unfold visitLoopHead
    exact .pure trivial

/-- The first part of a loop over the elements of a value binds them without following the value. -/
theorem lawful_bindLoopHead : ∀ (h : LoopHead) (s : FileState), file.module.Holds (.head h) →
    Lawful file s (bindLoopHead h)
  | .decl (.vars kind declarators), s, hheld => by
    rw [bindLoopHead]
    have hdecl : file.module.Holds (.decl (.vars kind declarators)) :=
      hheld.part (by simp [Piece.parts])
    exact lawful_bindHeadDeclarators kind declarators s
      fun d hd => hdecl.part (by simp [Piece.parts, hd])
  | .pattern p, s, hheld => by
    rw [bindLoopHead]
    exact lawful_bind p s (hheld.part (by simp [Piece.parts])) none .none
  | .decl (.function _ _), s, _ | .decl (.class _ _), s, _ | .decl (.using _), s, _
  | .decl .inert, s, _ | .expr _, s, _ | .absent, s, _ => by
    unfold bindLoopHead
    exact .pure trivial

/-- The declarators there declare their names one by one. -/
theorem lawful_bindHeadDeclarators (kind : VarKind) : ∀ (ds : List Declarator) (s : FileState),
    (∀ d ∈ ds, file.module.Holds (.declarator d)) → Lawful file s (bindHeadDeclarators kind ds)
  | [], s, _ => by
    rw [bindHeadDeclarators]
    exact .pure trivial
  | .mk target init :: rest, s, hheld => by
    rw [bindHeadDeclarators]
    refine .bind (.hoist _) fun t _ _ _ => ?_
    have hdeclarator := hheld _ List.mem_cons_self
    refine .bind (lawful_bind target t (hdeclarator.part (by simp [Piece.parts])) none .none)
      fun u _ _ _ => ?_
    exact lawful_bindHeadDeclarators kind rest u fun d hd => hheld d (List.mem_cons_of_mem _ hd)

/-- The cases of a switch, with their tests. -/
theorem lawful_visitCases : ∀ (cs : List Case) (s : FileState),
    (∀ c ∈ cs, file.module.Holds (.case c)) → Lawful file s (visitCases cs)
  | [], s, _ => by
    rw [visitCases]
    exact .pure trivial
  | .mk test body :: rest, s, hheld => by
    rw [visitCases]
    have hcase := hheld _ List.mem_cons_self
    refine .bind (lawful_visitOption test s
      fun e he => hcase.part (by simp [Piece.parts, Option.mem_def.1 he])) fun t _ _ _ => ?_
    refine .bind (lawful_visitStmts body t
      fun stmt hstmt => hcase.part (by simp [Piece.parts, hstmt])) fun u _ _ _ => ?_
    exact lawful_visitCases rest u fun c hc => hheld c (List.mem_cons_of_mem _ hc)

/-- A declaration stores what it declares in the variable of its name, which it only resolves then.
-/
theorem lawful_visitDecl : ∀ (d : Decl) (s : FileState), file.module.Holds (.decl d) →
    Lawful file s (visitDecl d)
  | .function name f, s, hheld => by
    rw [visitDecl]
    refine .bind (lawful_visitFunction (some name) none false f s
      (hheld.part (by simp [Piece.parts]))) fun t _ _ hf => ?_
    refine .bind (.functionVertex hf.registered) fun u _ _ hvalue => ?_
    exact .bind (.resolve name) fun x hx _ htarget => .edge (hvalue.later hx) htarget.target
  | .class name c, s, hheld => by
    rw [visitDecl]
    refine .bind (lawful_visitClass (some name) none c s (hheld.part (by simp [Piece.parts])))
      fun t _ value hvalue => ?_
    cases value with
    | none => exact .pure trivial
    | some value =>
      exact .bind (.resolve name) fun u hu _ htarget =>
        .edge ((hvalue value rfl).later hu) htarget.target
  | .vars _ declarators, s, hheld => by
    rw [visitDecl]
    exact lawful_visitDeclarators declarators s
      fun d hd => hheld.part (by simp [Piece.parts, hd])
  | .using declarators, s, hheld => by
    rw [visitDecl]
    exact lawful_visitResources declarators s
      fun d hd => hheld.part (by simp [Piece.parts, hd])
  | .inert, s, _ => by
    rw [visitDecl]
    exact .pure trivial

/-- A declarator binds its target to the value of its initializer. -/
theorem lawful_visitDeclarators : ∀ (ds : List Declarator) (s : FileState),
    (∀ d ∈ ds, file.module.Holds (.declarator d)) → Lawful file s (visitDeclarators ds)
  | [], s, _ => by
    rw [visitDeclarators]
    exact .pure trivial
  | .mk target none :: rest, s, hheld => by
    rw [visitDeclarators]
    have hdeclarator := hheld _ List.mem_cons_self
    refine .bind (lawful_bind target s (hdeclarator.part (by simp [Piece.parts])) none .none)
      fun t _ _ _ => ?_
    exact lawful_visitDeclarators rest t fun d hd => hheld d (List.mem_cons_of_mem _ hd)
  | .mk target (some init) :: rest, s, hheld => by
    unfold visitDeclarators
    have hdeclarator := hheld _ List.mem_cons_self
    refine .bind (lawful_visit _ init s (hdeclarator.part (by simp [Piece.parts])))
      fun t _ _ hvalue => ?_
    refine .bind (lawful_bind target t (hdeclarator.part (by simp [Piece.parts])) _
      hvalue.result) fun u _ _ _ => ?_
    exact lawful_visitDeclarators rest u fun d hd => hheld d (List.mem_cons_of_mem _ hd)

/-- A resource is bound in the same way, but its initializer is never named after it. -/
theorem lawful_visitResources : ∀ (ds : List Declarator) (s : FileState),
    (∀ d ∈ ds, file.module.Holds (.declarator d)) → Lawful file s (visitResources ds)
  | [], s, _ => by
    rw [visitResources]
    exact .pure trivial
  | .mk target init :: rest, s, hheld => by
    rw [visitResources]
    have hdeclarator := hheld _ List.mem_cons_self
    refine .bind (lawful_visitOption init s
      fun e he => hdeclarator.part (by simp [Piece.parts, Option.mem_def.1 he]))
      fun t _ _ hvalue => ?_
    refine .bind (lawful_bind target t (hdeclarator.part (by simp [Piece.parts])) _ hvalue)
      fun u _ _ _ => ?_
    exact lawful_visitResources rest u fun d hd => hheld d (List.mem_cons_of_mem _ hd)

end

end Walk

end CallFlow
