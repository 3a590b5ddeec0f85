import CallFlow.Proofs.FileFlow.Alike
import CallFlow.Proofs.FileFlow.Equations

/-!
# The walk over a tree does the same wherever it is made

One lemma for each function of the walk. The lemmas follow the steps of the walk.
-/

namespace CallFlow

open Syntax

/-- What an expression evaluates to, in both walks. -/
structure Twin.SameValue (base : FlowState) (w : Twin) (a b : Evaluated) : Prop where
  result : Option.Rel (w.Same base) a.result b.result
  receiver : Option.Rel (w.Same base) a.receiver b.receiver

variable {base : FlowState}

/-- An expression without a receiver has only its value to compare. -/
theorem Twin.SameValue.of_result {w : Twin} {a b : Option VertexId}
    (h : Option.Rel (w.Same base) a b) : w.SameValue base { result := a } { result := b } :=
  ⟨h, .none⟩

/-- A function with a vertex, in both walks. -/
def Twin.SameFunction (base : FlowState) (w : Twin) (f g : FunctionId) : Prop :=
  g = base.shift.functionId f ∧ w.alone.flow.graph.Has (.func f)

namespace Walk

open Twin (later_option)

mutual

/-- An expression evaluates to the same in both walks. -/
theorem alike_visit (role : Role) : ∀ (e : Expr) (w : Twin),
    Alike base w (visit role e) (visit role e) (Twin.SameValue base)
  | .ident name, w => by
    rw [visit]
    exact .bind (.resolve name) fun _ _ _ _ h => .pure (.of_result (.some h))
  | .this, w => by
    rw [visit]
    exact .bind .receiver fun _ _ _ _ h => .pure (.of_result h)
  | .string _, w | .literal, w => by
    rw [visit]
    exact .pure (.of_result .none)
  | .function none f, w => by
    rw [visit]
    refine .bind (alike_visitFunction _ none false f w) fun _ _ _ _ hf => ?_
    obtain ⟨rfl, hf⟩ := hf
    exact .bind (.functionVertex hf) fun _ _ _ _ h => .pure (.of_result (.some h))
  | .function (some name) f, w => by
    rw [visit]
    refine .bind (alike_visitFunction _ (some name) false f w) fun _ _ _ _ hf => ?_
    obtain ⟨rfl, hf⟩ := hf
    exact .bind (.functionVertex hf) fun _ _ _ _ h => .pure (.of_result (.some h))
  | .arrow f, w => by
    rw [visit]
    refine .bind (alike_visitFunction _ none true f w) fun _ _ _ _ hf => ?_
    obtain ⟨rfl, hf⟩ := hf
    exact .bind (.functionVertex hf) fun _ _ _ _ h => .pure (.of_result (.some h))
  | .class none c, w => by
    rw [visit]
    exact .bind (alike_visitClass _ none c w) fun _ _ _ _ h => .pure (.of_result h)
  | .class (some name) c, w => by
    rw [visit]
    exact .bind (alike_visitClass _ (some name) c w) fun _ _ _ _ h => .pure (.of_result h)
  | .call chained span callee args, w => by
    rw [visit]
    refine .bind (.addCall .call args.length span) fun u₁ _ call _ hcall => ?_
    obtain ⟨rfl, hcall⟩ := hcall
    refine .bind (.vertex (v := .callee call) hcall nofun nofun) fun u₂ h₂ _ _ hslot => ?_
    refine .bind (alike_visit .callee callee u₂) fun u₃ h₃ value value' hvalue => ?_
    refine .bind (.flow hvalue.result (hslot.same.later h₃)) fun u₄ h₄ _ _ _ => ?_
    -- the number of the call stays in use while more are given out
    have hcall₄ := hcall.trans_le (((h₂.trans h₃).trans h₄).extent .call)
    refine .bind (.passReceiver hcall₄ (later_option hvalue.receiver h₄)) fun u₅ h₅ _ _ _ => ?_
    have hcall₅ := hcall₄.trans_le (h₅.extent .call)
    refine .bind (alike_visitArgs call 1 args u₅ hcall₅) fun u₆ h₆ _ _ _ => ?_
    have hcall₆ := hcall₅.trans_le (h₆.extent .call)
    refine .bind (.vertex (v := .res call) hcall₆ nofun nofun) fun u₇ _ _ _ hresult => ?_
    refine .bind (.recordRequire _ _ _ ⟨_, hresult.1⟩) fun u₈ h₈ _ _ _ => ?_
    exact .pure (.of_result (.some (hresult.same.later h₈)))
  | .construct span callee args, w => by
    rw [visit]
    refine .bind (.addCall .construct args.length span) fun u₁ _ call _ hcall => ?_
    -- The number of the call in one walk tells the one in the other.
    obtain ⟨rfl, hcall⟩ := hcall
    refine .bind (.vertex (v := .callee call) hcall nofun nofun) fun u₂ h₂ _ _ hslot => ?_
    refine .bind (alike_visit .callee callee u₂) fun u₃ h₃ value value' hvalue => ?_
    refine .bind (.flow hvalue.result (hslot.same.later h₃)) fun u₄ h₄ _ _ _ => ?_
    have hcall₄ := hcall.trans_le (((h₂.trans h₃).trans h₄).extent .call)
    refine .bind (alike_visitArgs call 1 args u₄ hcall₄) fun u₅ h₅ _ _ _ => ?_
    have hcall₅ := hcall₄.trans_le (h₅.extent .call)
    refine .bind (.vertex (v := .res call) hcall₅ nofun nofun) fun u₆ _ _ _ hresult => ?_
    exact .pure (.of_result (.some hresult.same))
  | .tagged span tag substitutions, w => by
    rw [visit]
    refine .bind (.addCall .call (substitutions.length + 1) span) fun u₁ _ call _ hcall => ?_
    obtain ⟨rfl, hcall⟩ := hcall
    refine .bind (.vertex (v := .callee call) hcall nofun nofun) fun u₂ h₂ _ _ hslot => ?_
    refine .bind (alike_visit .callee tag u₂) fun u₃ h₃ value value' hvalue => ?_
    refine .bind (.flow hvalue.result (hslot.same.later h₃)) fun u₄ h₄ _ _ _ => ?_
    have hcall₄ := hcall.trans_le (((h₂.trans h₃).trans h₄).extent .call)
    refine .bind (.passReceiver hcall₄ (later_option hvalue.receiver h₄)) fun u₅ h₅ _ _ _ => ?_
    have hcall₅ := hcall₄.trans_le (h₅.extent .call)
    refine .bind (alike_visitArgs call 2 substitutions u₅ hcall₅) fun u₆ h₆ _ _ _ => ?_
    have hcall₆ := hcall₅.trans_le (h₆.extent .call)
    refine .bind (.vertex (v := .res call) hcall₆ nofun nofun) fun u₇ _ _ _ hresult => ?_
    exact .pure (.of_result (.some hresult.same))
  | .member _ object key, w => by
    rw [visit]
    refine .bind (alike_visit .value object w) fun u _ _ _ hvalue => ?_
    refine .bind (alike_visitKey key u) fun v hv _ _ hkey => ?_
    exact .pure ⟨.some hkey, later_option hvalue.result hv⟩
  | .superMember key, w => by
    -- What follows is the same whether there is a receiver or not.
    have hrest : ∀ u a b, Option.Rel (u.Same base) a b → Alike base u
        (do return { result := ← visitKey key, receiver := a })
        (do return { result := ← visitKey key, receiver := b }) (Twin.SameValue base) :=
      fun u a b hab => .bind (alike_visitKey key u) fun v hv _ _ hkey =>
        .pure ⟨.some hkey, later_option hab hv⟩
    rw [visit]
    split
    · exact .bind .receiver fun u _ a b hab => hrest u a b hab
    · exact hrest w none none .none
  | .assign op target value, w => by
    have htarget := alike_bind target
    -- the walk takes the key of `super[key]` by itself, without the pattern around it
    have hkey : ∀ key, target = .expr (.superMember key) →
        ∀ u, Alike base u (visitKey key) (visitKey key) (Twin.Same base) := by
      intro key h
      match target, h with
      | .expr (.superMember key'), h =>
        obtain rfl : key' = key := by simpa using h
        exact alike_visitKey key'
    unfold visit
    refine .bind (alike_visit target.valueRole value w) fun u _ result result' hresult => ?_
    -- Either both walks store a value or none does.
    have hstored : Option.Rel (u.Same base) (if op = .arithmetic then none else result.result)
        (if op = .arithmetic then none else result'.result) := by
      split
      · exact .none
      · exact hresult.result
    dsimp only
    split
    · refine .bind (hkey _ rfl u) fun v hv _ _ hplace => ?_
      refine .bind (.flow (later_option hstored hv) hplace) fun x hx _ _ _ => ?_
      exact .pure (.of_result (later_option hstored (hv.trans hx)))
    · exact .pure (.of_result hstored)
    · exact .pure (.of_result hstored)
    · refine .bind (.exportAssigned _ hstored) fun v hv _ _ _ => ?_
      refine .bind (htarget v _ _ (later_option hstored hv)) fun x hx _ _ _ => ?_
      exact .pure (.of_result (later_option hstored (hv.trans hx)))
  | .logical span left right, w => by
    rw [visit]
    refine .bind (alike_visit .value left w) fun u₁ _ _ _ hleft => ?_
    refine .bind (alike_visit .value right u₁) fun u₂ h₂ _ _ hright => ?_
    refine .bind (.exprVertex span) fun u₃ h₃ _ _ hjoined => ?_
    refine .bind (.flow (later_option hleft.result (h₂.trans h₃)) hjoined) fun u₄ h₄ _ _ _ => ?_
    refine .bind (.flow (later_option hright.result (h₃.trans h₄)) (hjoined.later h₄))
      fun u₅ h₅ _ _ _ => ?_
    exact .pure (.of_result (.some (hjoined.later (h₄.trans h₅))))
  | .conditional span test consequent alternate, w => by
    rw [visit]
    refine .bind (alike_visit .value test w) fun u₁ _ _ _ _ => ?_
    refine .bind (alike_visit .value consequent u₁) fun u₂ _ _ _ hconsequent => ?_
    refine .bind (alike_visit .value alternate u₂) fun u₃ h₃ _ _ halternate => ?_
    refine .bind (.exprVertex span) fun u₄ h₄ _ _ hjoined => ?_
    refine .bind (.flow (later_option hconsequent.result (h₃.trans h₄)) hjoined)
      fun u₅ h₅ _ _ _ => ?_
    refine .bind (.flow (later_option halternate.result (h₄.trans h₅)) (hjoined.later h₅))
      fun u₆ h₆ _ _ _ => ?_
    exact .pure (.of_result (.some (hjoined.later (h₅.trans h₆))))
  | .sequence exprs, w => by
    rw [visit]
    exact .bind (alike_visitAll exprs w) fun _ _ _ _ h => .pure (.of_result h)
  | .paren inner, w => by
    rw [visit]
    exact .bind (alike_visit role.inParens inner w) fun _ _ _ _ h => .pure (.of_result h.result)
  | .await inner, w | .typed inner, w | .spread inner, w => by
    rw [visit]
    exact .bind (alike_visit .value inner w) fun _ _ _ _ h => .pure (.of_result h.result)
  | .array operands, w | .untracked operands, w => by
    rw [visit]
    exact .bind (alike_visitAll operands w) fun _ _ _ _ _ => .pure (.of_result .none)
  | .object properties, w => by
    rw [visit]
    exact .bind (alike_visitProperties properties w) fun _ _ _ _ _ => .pure (.of_result .none)
  | .element attributes children, w => by
    rw [visit]
    refine .bind (alike_visitAttributes attributes w) fun u _ _ _ _ => ?_
    exact .bind (alike_visitAll children u) fun _ _ _ _ _ => .pure (.of_result .none)

/-- Several expressions, whose value is that of the last one. -/
theorem alike_visitAll : ∀ (es : List Expr) (w : Twin),
    Alike base w (visitAll es) (visitAll es) fun u => Option.Rel (u.Same base)
  | [], w => by
    rw [visitAll]
    exact .pure .none
  | [e], w => by
    rw [visitAll]
    exact .bind (alike_visit .value e w) fun _ _ _ _ h => .pure h.result
  | e :: e' :: rest, w => by
    unfold visitAll
    refine .bind (alike_visit .value e w) fun u _ _ _ _ => ?_
    exact alike_visitAll (e' :: rest) u

/-- An expression that may be left out. -/
theorem alike_visitOption : ∀ (e : Option Expr) (w : Twin),
    Alike base w (visitOption e) (visitOption e) fun u => Option.Rel (u.Same base)
  | none, w => by
    rw [visitOption]
    exact .pure .none
  | some e, w => by
    rw [visitOption]
    exact .bind (alike_visit .value e w) fun _ _ _ _ h => .pure h.result

/-- The arguments of a call get into slots of the same numbers, of calls that are the same. -/
theorem alike_visitArgs (call : CallId) (slot : Nat) : ∀ (es : List Expr) (w : Twin),
    call.index < w.alone.flow.extent .call →
      Alike base w (visitArgs call slot es) (visitArgs (base.shift.callId call) slot es)
  | [], w, _ => by
    rw [visitArgs, visitArgs]
    exact .pure trivial
  | e :: rest, w, hcall => by
    rw [visitArgs, visitArgs]
    refine .bind (alike_visit .value e w) fun u₁ h₁ _ _ hvalue => ?_
    have hcall₁ := hcall.trans_le (h₁.extent .call)
    refine .bind (.vertex (v := .arg call slot) hcall₁ nofun nofun) fun u₂ h₂ _ _ harg => ?_
    refine .bind (.flow (later_option hvalue.result h₂) harg.same) fun u₃ h₃ _ _ _ => ?_
    exact alike_visitArgs call (slot + 1) rest u₃ (hcall₁.trans_le ((h₂.trans h₃).extent .call))

/-- A key leads to the same vertex. A name that is computed by a string is a name. -/
theorem alike_visitKey : ∀ (k : Key) (w : Twin),
    Alike base w (visitKey k) (visitKey k) (Twin.Same base)
  | .named _, w | .privateName _, w => by
    rw [visitKey]
    exact .prop _
  | .untracked, w => by
    rw [visitKey]
    exact .unknown
  | .computed e, w => by
    obtain ⟨name, -, heq⟩ | heq := visitKey_computed e
    · rw [heq]
      exact .prop name
    · rw [heq]
      exact .bind (alike_visit .value e w) fun _ _ _ _ _ => .unknown

/-- A property of an object literal. -/
theorem alike_visitProperty : ∀ (p : Property) (w : Twin),
    Alike base w (visitProperty p) (visitProperty p)
  | .keyValue key value, w => by
    rw [visitProperty]
    refine .bind (alike_visitKey key w) fun u _ _ _ htarget => ?_
    refine .bind (alike_visit key.valueRole value u) fun v hv _ _ hvalue => ?_
    exact .flow hvalue.result (htarget.later hv)
  | .shorthand name, w => by
    rw [visitProperty]
    refine .bind (.resolve name) fun u _ _ _ hvalue => ?_
    exact .bind (.prop name) fun v hv _ _ htarget => .edge (hvalue.later hv) htarget
  | .shorthandDefault _ value, w => by
    rw [visitProperty]
    exact .bind (alike_visit .value value w) fun _ _ _ _ _ => .pure trivial
  | .method key f, w => by
    rw [visitProperty]
    refine .bind (alike_visitKey key w) fun u _ _ _ htarget => ?_
    refine .bind (alike_visitFunction _ none false f u) fun v hv _ _ hf => ?_
    obtain ⟨rfl, hf⟩ := hf
    refine .bind (.functionVertex hf) fun x hx _ _ hvalue => ?_
    exact .edge hvalue (htarget.later (hv.trans hx))
  | .spread e, w => by
    rw [visitProperty]
    exact .bind (alike_visit .value e w) fun _ _ _ _ _ => .pure trivial

/-- The properties of an object literal. -/
theorem alike_visitProperties : ∀ (ps : List Property) (w : Twin),
    Alike base w (visitProperties ps) (visitProperties ps)
  | [], w => by
    rw [visitProperties]
    exact .pure trivial
  | p :: rest, w => by
    rw [visitProperties]
    refine .bind (alike_visitProperty p w) fun u _ _ _ _ => ?_
    exact alike_visitProperties rest u

/-- The attributes of an element. -/
theorem alike_visitAttributes : ∀ (as : List Attribute) (w : Twin),
    Alike base w (visitAttributes as) (visitAttributes as)
  | [], w => by
    rw [visitAttributes]
    exact .pure trivial
  | .value e :: rest, w => by
    rw [visitAttributes]
    refine .bind (alike_visit .value e w) fun u _ _ _ _ => ?_
    exact alike_visitAttributes rest u
  | .fragment _ :: rest, w => by
    rw [visitAttributes]
    exact alike_visitAttributes rest w

/-- A pattern is bound to the same in both walks, if it is given the same. -/
theorem alike_bind : ∀ (p : Pattern) (w : Twin) (a b : Option VertexId),
    Option.Rel (w.Same base) a b → Alike base w (bind p a) (bind p b)
  | .ident name, w, a, b, hab => by
    rw [bind, bind]
    exact .bind (.resolve name) fun u hu _ _ htarget => .flow (later_option hab hu) htarget
  | .array elements, w, a, b, _ => by
    rw [bind, bind]
    exact alike_bindAll elements w
  | .object fields, w, a, b, _ => by
    rw [bind, bind]
    exact alike_bindFields fields w
  | .rest inner, w, a, b, _ => by
    rw [bind, bind]
    exact alike_bind inner w none none .none
  | .withDefault inner value, w, a, b, hab => by
    rw [bind, bind]
    refine .bind (alike_visit .value value w) fun u hu default default' hdefault => ?_
    refine .bind (alike_bind inner u a b (later_option hab hu)) fun v hv _ _ _ => ?_
    -- what the default evaluates to is bound too, if it has a vertex
    have hdefault := later_option hdefault.result hv
    revert hdefault
    cases default.result <;> cases default'.result <;> intro hdefault
    case none.none => exact .pure trivial
    case some.some c d => exact alike_bind inner v (some c) (some d) hdefault
    -- The default has a vertex in both walks or in none.
    case none.some => cases hdefault
    case some.none => cases hdefault
  | .expr e, w, a, b, hab => by
    rw [bind, bind]
    refine .bind (alike_visit .value e w) fun u hu place place' hplace => ?_
    have hplace := hplace.result
    revert hplace
    cases place.result <;> cases place'.result <;> intro hplace
    case none.none => cases e.isPlace <;> exact .pure trivial
    case some.some c d =>
      cases e.isPlace with
      | false => exact .pure trivial
      | true =>
        cases hplace with
        | some hplace => exact .flow (later_option hab hu) hplace
    case none.some => cases hplace
    case some.none => cases hplace

/-- The elements of an array pattern. -/
theorem alike_bindAll : ∀ (ps : List Pattern) (w : Twin),
    Alike base w (bindAll ps) (bindAll ps)
  | [], w => by
    rw [bindAll]
    exact .pure trivial
  | p :: rest, w => by
    rw [bindAll]
    refine .bind (alike_bind p w none none .none) fun u _ _ _ _ => ?_
    exact alike_bindAll rest u

/-- A field of an object pattern. -/
theorem alike_bindField : ∀ (f : PatternField) (w : Twin),
    Alike base w (bindField f) (bindField f)
  | .keyValue key p, w => by
    rw [bindField]
    refine .bind (alike_visitKey key w) fun u _ _ _ hsource => ?_
    exact alike_bind p u _ _ (.some hsource)
  | .shorthand name none, w => by
    rw [bindField]
    refine .bind (.prop name) fun u _ _ _ hsource => ?_
    refine .bind (.resolve name) fun v hv _ _ htarget => ?_
    exact .bind (.edge (hsource.later hv) htarget) fun _ _ _ _ _ => .pure trivial
  | .shorthand name (some value), w => by
    rw [bindField]
    refine .bind (.prop name) fun u _ _ _ hsource => ?_
    refine .bind (.resolve name) fun v hv _ _ htarget => ?_
    refine .bind (.edge (hsource.later hv) htarget) fun x hx _ _ _ => ?_
    refine .bind (alike_visit .value value x) fun y hy _ _ hvalue => ?_
    exact .flow hvalue.result (htarget.later (hx.trans hy))
  | .rest inner, w => by
    rw [bindField]
    exact alike_bind inner w none none .none

/-- The fields of an object pattern. -/
theorem alike_bindFields : ∀ (fs : List PatternField) (w : Twin),
    Alike base w (bindFields fs) (bindFields fs)
  | [], w => by
    rw [bindFields]
    exact .pure trivial
  | f :: rest, w => by
    rw [bindFields]
    refine .bind (alike_bindField f w) fun u _ _ _ _ => ?_
    exact alike_bindFields rest u

/-- A function is registered in both walks, under numbers that differ by what the base holds. -/
theorem alike_visitFunction (name own : Option String) (isArrow : Bool) : ∀ (f : Func) (w : Twin),
    Alike base w (visitFunction name own isArrow f) (visitFunction name own isArrow f)
      (Twin.SameFunction base)
  | .mk params body span, w => by
    rw [visitFunction]
    refine .newFunction name (params.countP Param.isSlotted) isArrow span
      fun u _ f a b hf hvalue => ?_
    -- from here on the walk is in the scope of the function, with its receiver
    have hinner : Alike base u
        (inScope (if isArrow then .arrowScope else .functionScope) do
          withReader (fun place => { place with
            function := some f
            receiver := if isArrow then place.receiver else some f }) do
            bindOwnName a own
            declare .parameter (params.flatMap Param.names)
            hoistBody body
            bindParams f 1 params
            visitBody f body)
        (inScope (if isArrow then .arrowScope else .functionScope) do
          withReader (fun place => { place with
            function := some (base.shift.functionId f)
            receiver := if isArrow then place.receiver else some (base.shift.functionId f) }) do
            bindOwnName b own
            declare .parameter (params.flatMap Param.names)
            hoistBody body
            bindParams (base.shift.functionId f) 1 params
            visitBody (base.shift.functionId f) body) := by
      refine .inScope _ fun v hv => ?_
      have hfv := hf.trans_le (hv.extent .function)
      refine .inFunction isArrow hfv ?_
      refine .bind (.bindOwnName (hvalue.same.later hv) own) fun u₁ h₁ _ _ _ => ?_
      refine .bind (.declare _ _) fun u₂ h₂ _ _ _ => ?_
      refine .bind (.hoistBody body) fun u₃ h₃ _ _ _ => ?_
      have hf₃ := hfv.trans_le (((h₁.trans h₂).trans h₃).extent .function)
      refine .bind (alike_bindParams f 1 params u₃ hf₃) fun u₄ h₄ _ _ _ => ?_
      exact alike_visitBody f body u₄ (hf₃.trans_le (h₄.extent .function))
    refine hinner.bind fun v hv _ _ _ => ?_
    exact .pure ⟨rfl, _, (hvalue.later hv).1⟩

/-- The parameters of a function, from the same slot on. The function is registered by then, so that
its slots may have vertices. -/
theorem alike_bindParams (f : FunctionId) (slot : Nat) : ∀ (ps : List Param) (w : Twin),
    f.index < w.alone.flow.extent .function →
      Alike base w (bindParams f slot ps) (bindParams (base.shift.functionId f) slot ps)
  | [], w, _ => by
    rw [bindParams, bindParams]
    exact .pure trivial
  | p :: rest, w, hf => by
    rw [bindParams, bindParams]
    split
    · refine .bind (.vertex (v := .param f slot) hf nofun nofun) fun u hu _ _ hsource => ?_
      refine .bind (alike_bindParam p u _ _ hsource.same) fun v hv _ _ _ => ?_
      exact alike_bindParams f (slot + 1) rest v (hf.trans_le ((hu.trans hv).extent .function))
    · exact alike_bindParams f slot rest w hf

/-- A single parameter. -/
theorem alike_bindParam : ∀ (p : Param) (w : Twin) (a b : VertexId), w.Same base a b →
    Alike base w (bindParam a p) (bindParam b p)
  | .pattern _ p, w, a, b, hab => by
    rw [bindParam_pattern, bindParam_pattern]
    exact alike_bind p w (some a) (some b) (.some hab)
  | .property _ name none, w, a, b, hab => by
    rw [bindParam, bindParam]
    refine .bind (.resolve name) fun u₁ h₁ _ _ htarget => ?_
    refine .bind (.edge (hab.later h₁) htarget) fun u₂ h₂ _ _ _ => ?_
    refine .bind (.prop name) fun u₃ h₃ _ _ hprop => ?_
    refine .bind (.edge (hab.later ((h₁.trans h₂).trans h₃)) hprop) fun _ _ _ _ _ => ?_
    exact .pure trivial
  | .property _ name (some value), w, a, b, hab => by
    rw [bindParam, bindParam]
    refine .bind (.resolve name) fun u₁ h₁ _ _ htarget => ?_
    refine .bind (.edge (hab.later h₁) htarget) fun u₂ h₂ _ _ _ => ?_
    refine .bind (.prop name) fun u₃ h₃ _ _ hprop => ?_
    refine .bind (.edge (hab.later ((h₁.trans h₂).trans h₃)) hprop) fun u₄ h₄ _ _ _ => ?_
    refine .bind (alike_visit .value value u₄) fun u₅ h₅ _ _ hvalue => ?_
    exact .flow hvalue.result (htarget.later (((h₂.trans h₃).trans h₄).trans h₅))
  | .propertyPattern _ _ _, w, _, _, _ => by
    rw [bindParam, bindParam]
    exact .pure trivial

/-- The body of a function. -/
theorem alike_visitBody (f : FunctionId) : ∀ (b : Body) (w : Twin),
    f.index < w.alone.flow.extent .function →
      Alike base w (visitBody f b) (visitBody (base.shift.functionId f) b)
  | .block stmts, w, _ => by
    rw [visitBody, visitBody]
    exact alike_visitStmts stmts w
  | .expr result, w, hf => by
    rw [visitBody, visitBody]
    refine .bind (alike_visit .value result w) fun u hu _ _ hvalue => ?_
    have hfu := hf.trans_le (hu.extent .function)
    refine .bind (.vertex (v := .ret f) hfu nofun nofun) fun v hv _ _ hret => ?_
    exact .flow (later_option hvalue.result hv) hret.same
  | .absent, w, _ => by
    rw [visitBody, visitBody]
    exact .pure trivial

/-- A class, and the constructor that it returns. -/
theorem alike_visitClass (name own : Option String) : ∀ (c : Syntax.Class) (w : Twin),
    Alike base w (visitClass name own c) (visitClass name own c) fun u => Option.Rel (u.Same base)
  | .mk decorators heritage members, w => by
    rw [visitClass]
    refine .bind (alike_visitAll decorators w) fun u₁ _ _ _ _ => ?_
    refine .bind (alike_visitOption heritage u₁) fun u₂ _ _ _ _ => ?_
    refine .inScope _ fun u₃ _ => ?_
    refine .bind (.declareClassName own) fun u₄ _ _ _ _ => ?_
    refine .bind (alike_visitMembers name members u₄ none none .none) fun u₅ _ _ _ h => ?_
    exact .bind (.bindClassName own h) fun u₆ h₆ _ _ _ => .pure (later_option h h₆)

/-- The members of a class, starting from the same constructor. -/
theorem alike_visitMembers (name : Option String) : ∀ (ms : List Member) (w : Twin)
    (a b : Option VertexId), Option.Rel (w.Same base) a b →
      Alike base w (visitMembers name a ms) (visitMembers name b ms)
        fun u => Option.Rel (u.Same base)
  | [], w, a, b, hab => by
    rw [visitMembers, visitMembers]
    exact .pure hab
  | .constructor f :: rest, w, a, b, _ => by
    rw [visitMembers, visitMembers]
    refine .bind (alike_visitFunction name none false f w) fun u _ _ _ hf => ?_
    obtain ⟨rfl, hf⟩ := hf
    refine .bind (.functionVertex hf) fun v _ _ _ hvalue => ?_
    exact alike_visitMembers name rest v _ _ (.some hvalue)
  | .method decorators key f :: rest, w, a, b, hab => by
    have hmember := alike_visitMember (.method decorators key f) w
    unfold visitMembers
    refine .bind hmember fun u hu _ _ _ => ?_
    exact alike_visitMembers name rest u a b (later_option hab hu)
  | .field decorators key value :: rest, w, a, b, hab => by
    have hmember := alike_visitMember (.field decorators key value) w
    unfold visitMembers
    refine .bind hmember fun u hu _ _ _ => ?_
    exact alike_visitMembers name rest u a b (later_option hab hu)
  | .staticBlock stmts :: rest, w, a, b, hab => by
    have hmember := alike_visitMember (.staticBlock stmts) w
    unfold visitMembers
    refine .bind hmember fun u hu _ _ _ => ?_
    exact alike_visitMembers name rest u a b (later_option hab hu)

/-- A member of a class. -/
theorem alike_visitMember : ∀ (m : Member) (w : Twin),
    Alike base w (visitMember m) (visitMember m)
  | .constructor f, w => by
    rw [visitMember]
    exact .pure trivial
  | .method decorators key f, w => by
    have hdecorators := alike_visitAll decorators w
    have hrest : ∀ u, Alike base u
        (do
          let target ← visitKey key
          let id ← visitFunction key.name? none false f
          edge (← vertex (.func id)) target)
        (do
          let target ← visitKey key
          let id ← visitFunction key.name? none false f
          edge (← vertex (.func id)) target) := fun u => by
      refine .bind (alike_visitKey key u) fun v _ _ _ htarget => ?_
      refine .bind (alike_visitFunction _ none false f v) fun x hx _ _ hf => ?_
      obtain ⟨rfl, hf⟩ := hf
      refine .bind (.functionVertex hf) fun y hy _ _ hvalue => ?_
      exact .edge hvalue (htarget.later (hx.trans hy))
    rw [visitMember]
    dsimp only
    cases key.isPrivate with
    | true => exact hrest w
    | false => exact hdecorators.bind fun u _ _ _ _ => hrest u
  | .field _ key none, w => by
    rw [visitMember]
    exact .bind (alike_visitKey key w) fun _ _ _ _ _ => .pure trivial
  | .field _ key (some value), w => by
    rw [visitMember]
    refine .bind (alike_visitKey key w) fun u _ _ _ htarget => ?_
    refine .bind (alike_visit key.valueRole value u) fun v hv _ _ hvalue => ?_
    exact .flow hvalue.result (htarget.later hv)
  | .staticBlock stmts, w => by
    rw [visitMember]
    exact .inBlock stmts fun u _ => alike_visitStmts stmts u

/-- A statement. Scopes are created in both walks, and differ by what the base holds. -/
theorem alike_visitStmt : ∀ (s : Stmt) (w : Twin), Alike base w (visitStmt s) (visitStmt s)
  | .decl d, w => by
    rw [visitStmt]
    exact alike_visitDecl d w
  | .expr e, w | .throw e, w => by
    rw [visitStmt]
    exact .bind (alike_visit .value e w) fun _ _ _ _ _ => .pure trivial
  | .block stmts, w => by
    rw [visitStmt]
    exact .inBlock stmts fun u _ => alike_visitStmts stmts u
  | .ret none, w => by
    rw [visitStmt]
    exact .pure trivial
  | .ret (some e), w => by
    rw [visitStmt]
    exact .bind (alike_visit .value e w) fun _ _ _ _ hvalue => .returnValue hvalue.result
  | .cond test consequent alternate, w => by
    rw [visitStmt]
    refine .bind (alike_visit .value test w) fun u _ _ _ _ => ?_
    refine .bind (alike_visitStmt consequent u) fun v _ _ _ _ => ?_
    exact alike_visitStmtOption alternate v
  | .for head test update body, w => by
    rw [visitStmt]
    refine .inScope _ fun u₁ _ => ?_
    refine .bind (alike_visitLoopHead head u₁) fun u₂ _ _ _ _ => ?_
    refine .bind (alike_visitOption test u₂) fun u₃ _ _ _ _ => ?_
    refine .bind (alike_visitOption update u₃) fun u₄ _ _ _ _ => ?_
    exact alike_visitStmt body u₄
  | .forEach head iterated body, w => by
    rw [visitStmt]
    refine .inScope _ fun u₁ _ => ?_
    refine .bind (alike_visit .value iterated u₁) fun u₂ _ _ _ _ => ?_
    refine .bind (alike_bindLoopHead head u₂) fun u₃ _ _ _ _ => ?_
    exact alike_visitStmt body u₃
  | .while test body, w => by
    rw [visitStmt]
    refine .bind (alike_visit .value test w) fun u _ _ _ _ => ?_
    exact alike_visitStmt body u
  | .doWhile body test, w => by
    rw [visitStmt]
    refine .bind (alike_visitStmt body w) fun u _ _ _ _ => ?_
    exact .bind (alike_visit .value test u) fun _ _ _ _ _ => .pure trivial
  | .labeled body, w => by
    rw [visitStmt]
    exact alike_visitStmt body w
  | .switch subject cases, w => by
    rw [visitStmt]
    refine .bind (alike_visit .value subject w) fun u₁ _ _ _ _ => ?_
    refine .inScope _ fun u₂ _ => ?_
    refine .bind (.hoistCases cases) fun u₃ _ _ _ _ => ?_
    exact alike_visitCases cases u₃
  | .try body param none finalizer, w => by
    rw [visitStmt]
    refine .bind (alike_visitStmt body w) fun u _ _ _ _ => ?_
    exact alike_visitStmtOption finalizer u
  | .try body param (some handler) finalizer, w => by
    rw [visitStmt]
    refine .bind (alike_visitStmt body w) fun u _ _ _ _ => ?_
    have hhandler : Alike base u
        (inScope .catchScope do
          visitCatchParam param
          visitStmt handler)
        (inScope .catchScope do
          visitCatchParam param
          visitStmt handler) := by
      refine .inScope _ fun v _ => ?_
      refine .bind (alike_visitCatchParam param v) fun x _ _ _ _ => ?_
      exact alike_visitStmt handler x
    exact hhandler.bind fun v _ _ _ _ => alike_visitStmtOption finalizer v
  | .with object body, w => by
    rw [visitStmt]
    refine .bind (alike_visit .value object w) fun u _ _ _ _ => ?_
    exact alike_visitStmt body u
  | .inert, w => by
    rw [visitStmt]
    exact .pure trivial

/-- A statement that may be left out. -/
theorem alike_visitStmtOption : ∀ (s : Option Stmt) (w : Twin),
    Alike base w (visitStmtOption s) (visitStmtOption s)
  | none, w => by
    rw [visitStmtOption]
    exact .pure trivial
  | some s, w => by
    rw [visitStmtOption]
    exact alike_visitStmt s w

/-- Statements, one after the other. -/
theorem alike_visitStmts : ∀ (stmts : List Stmt) (w : Twin),
    Alike base w (visitStmts stmts) (visitStmts stmts)
  | [], w => by
    rw [visitStmts]
    exact .pure trivial
  | s :: rest, w => by
    rw [visitStmts]
    refine .bind (alike_visitStmt s w) fun u _ _ _ _ => ?_
    exact alike_visitStmts rest u

/-- The pattern for what is caught. -/
theorem alike_visitCatchParam : ∀ (p : Option Pattern) (w : Twin),
    Alike base w (visitCatchParam p) (visitCatchParam p)
  | none, w => by
    rw [visitCatchParam]
    exact .pure trivial
  | some p, w => by
    rw [visitCatchParam]
    refine .bind (.declare _ _) fun u _ _ _ _ => ?_
    refine .bind .unknown fun v _ _ _ hunknown => ?_
    exact alike_bind p v _ _ (.some hunknown)

/-- The first part of a loop that counts. -/
theorem alike_visitLoopHead : ∀ (h : LoopHead) (w : Twin),
    Alike base w (visitLoopHead h) (visitLoopHead h)
  | .decl (.vars kind declarators), w => by
    rw [visitLoopHead]
    refine .bind (.hoist _) fun u _ _ _ _ => ?_
    exact alike_visitDeclarators declarators u
  | .expr e, w => by
    rw [visitLoopHead]
    exact .bind (alike_visit .value e w) fun _ _ _ _ _ => .pure trivial
  | .decl (.function _ _), w | .decl (.class _ _), w | .decl (.using _), w | .decl .inert, w
  | .pattern _, w | .absent, w => by
    unfold visitLoopHead
    exact .pure trivial

/-- The first part of a loop over the elements of a value. -/
theorem alike_bindLoopHead : ∀ (h : LoopHead) (w : Twin),
    Alike base w (bindLoopHead h) (bindLoopHead h)
  | .decl (.vars kind declarators), w => by
    rw [bindLoopHead]
    exact alike_bindHeadDeclarators kind declarators w
  | .pattern p, w => by
    rw [bindLoopHead]
    exact alike_bind p w none none .none
  | .decl (.function _ _), w | .decl (.class _ _), w | .decl (.using _), w | .decl .inert, w
  | .expr _, w | .absent, w => by
    unfold bindLoopHead
    exact .pure trivial

/-- The declarators in such a part. -/
theorem alike_bindHeadDeclarators (kind : VarKind) : ∀ (ds : List Declarator) (w : Twin),
    Alike base w (bindHeadDeclarators kind ds) (bindHeadDeclarators kind ds)
  | [], w => by
    rw [bindHeadDeclarators]
    exact .pure trivial
  | .mk target init :: rest, w => by
    rw [bindHeadDeclarators]
    refine .bind (.hoist _) fun u _ _ _ _ => ?_
    refine .bind (alike_bind target u none none .none) fun v _ _ _ _ => ?_
    exact alike_bindHeadDeclarators kind rest v

/-- The cases of a switch. -/
theorem alike_visitCases : ∀ (cs : List Case) (w : Twin),
    Alike base w (visitCases cs) (visitCases cs)
  | [], w => by
    rw [visitCases]
    exact .pure trivial
  | .mk test body :: rest, w => by
    rw [visitCases]
    refine .bind (alike_visitOption test w) fun u _ _ _ _ => ?_
    refine .bind (alike_visitStmts body u) fun v _ _ _ _ => ?_
    exact alike_visitCases rest v

/-- A declaration. -/
theorem alike_visitDecl : ∀ (d : Decl) (w : Twin), Alike base w (visitDecl d) (visitDecl d)
  | .function name f, w => by
    rw [visitDecl]
    refine .bind (alike_visitFunction (some name) none false f w) fun u _ _ _ hf => ?_
    obtain ⟨rfl, hf⟩ := hf
    refine .bind (.functionVertex hf) fun v _ _ _ hvalue => ?_
    exact .bind (.resolve name) fun x hx _ _ htarget => .edge (hvalue.later hx) htarget
  | .class name c, w => by
    rw [visitDecl]
    refine .bind (alike_visitClass (some name) none c w) fun u _ a b hab => ?_
    -- A class without a constructor has no value in either walk.
    cases hab with
    | none => exact .pure trivial
    | some hab =>
      exact .bind (.resolve name) fun v hv _ _ htarget => .edge (hab.later hv) htarget
  | .vars _ declarators, w => by
    rw [visitDecl]
    exact alike_visitDeclarators declarators w
  | .using declarators, w => by
    rw [visitDecl]
    exact alike_visitResources declarators w
  | .inert, w => by
    rw [visitDecl]
    exact .pure trivial

/-- The declarators of a declaration. -/
theorem alike_visitDeclarators : ∀ (ds : List Declarator) (w : Twin),
    Alike base w (visitDeclarators ds) (visitDeclarators ds)
  | [], w => by
    rw [visitDeclarators]
    exact .pure trivial
  | .mk target none :: rest, w => by
    rw [visitDeclarators]
    refine .bind (alike_bind target w none none .none) fun u _ _ _ _ => ?_
    exact alike_visitDeclarators rest u
  | .mk target (some init) :: rest, w => by
    unfold visitDeclarators
    refine .bind (alike_visit _ init w) fun u _ _ _ hvalue => ?_
    refine .bind (alike_bind target u _ _ hvalue.result) fun v _ _ _ _ => ?_
    exact alike_visitDeclarators rest v

/-- The declarators of a `using` declaration. -/
theorem alike_visitResources : ∀ (ds : List Declarator) (w : Twin),
    Alike base w (visitResources ds) (visitResources ds)
  | [], w => by
    rw [visitResources]
    exact .pure trivial
  | .mk target init :: rest, w => by
    rw [visitResources]
    refine .bind (alike_visitOption init w) fun u _ _ _ hvalue => ?_
    refine .bind (alike_bind target u _ _ hvalue) fun v _ _ _ _ => ?_
    exact alike_visitResources rest v

end

end Walk

end CallFlow
