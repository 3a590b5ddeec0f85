import CallFlow.Proofs.FileFlow.Equations
import CallFlow.Proofs.FileFlow.Moved
import CallFlow.Proofs.Registration.Sites

/-!
# The walk over a tree without its wrappers

From states of which one is the other moved, the walk over a tree and the walk over its bare form
lead to such states. One lemma for each function of the walk. The lemmas follow the steps of the
walk.
-/

namespace CallFlow

open Syntax

/-! ## What a tree and its bare form share -/

namespace Syntax

theorem Expr.isMethod_bare {e : Expr} (move : Span → Span) (h : e.isMethod = true) :
    (e.bare move).isMethod = true := by
  cases e with
  | member _ _ _ | superMember _ => rfl
  | _ => cases h

theorem Expr.isSuperMember_bare {e : Expr} (move : Span → Span) (h : e.isMethod = true) :
    (e.bare move).isSuperMember = e.isSuperMember := by
  cases e with
  | member _ _ _ | superMember _ => rfl
  | _ => cases h

theorem Expr.isMethod_of_isSuperMember {e : Expr} (h : e.isSuperMember = true) :
    e.isMethod = true := by
  cases e with
  | superMember _ => rfl
  | _ => cases h

/-- Parentheses are kept only around a bare expression that has the shape. -/
theorem Expr.kept_cases (shape : Expr → Bool) (written bare : Expr) :
    Expr.kept shape written bare = .paren bare ∧ shape bare = true ∧ shape written = false ∨
      Expr.kept shape written bare = bare ∧ (shape bare = true → shape written = true) := by
  unfold Expr.kept
  cases shape bare with
  | false => exact .inr ⟨rfl, nofun⟩
  | true =>
    cases shape written with
    | false => exact .inl ⟨rfl, rfl, rfl⟩
    | true => exact .inr ⟨rfl, fun _ => rfl⟩

theorem Expr.length_bareAll (move : Span → Span) (es : List Expr) :
    (Expr.bareAll move es).length = es.length := by
  induction es with
  | nil => rfl
  | cons e es ih => rw [Expr.bareAll, List.length_cons, List.length_cons, ih]

/-- The wrappers that stay are those that say whether there is a place to store to. -/
theorem Expr.isPlace_placed (move : Span → Span) :
    ∀ e : Expr, (e.placed (e.bare move)).isPlace = e.isPlace
  | .paren inner => inner.isPlace_placed move
  | .member true _ _ | .member false _ _ => rfl
  | .ident _ | .this | .string _ | .literal | .function _ _ | .arrow _ | .class _ _
  | .call _ _ _ _ | .construct _ _ _ | .tagged _ _ _ | .superMember _ | .assign _ _ _
  | .logical _ _ _ | .conditional _ _ _ _ | .sequence _ | .typed _ | .await _ | .array _
  | .spread _ | .untracked _ | .object _ | .element _ _ => rfl

/-- What is no string does not become one, for parentheses are kept where it would. -/
theorem Expr.isString_kept {e : Expr} (h : e.isString = false) (bare : Expr) :
    (Expr.kept Expr.isString e bare).isString = false := by
  obtain ⟨hkept, -, -⟩ | ⟨hkept, hbare⟩ := Expr.kept_cases Expr.isString e bare
  · rw [hkept]
    rfl
  · rw [hkept, Bool.eq_false_iff]
    exact fun hs => Bool.false_ne_true (h.symm.trans (hbare hs))

theorem Key.name?_computed {e : Expr} (h : e.isString = false) :
    (Key.computed e).name? = none := by
  cases e with
  | string _ => cases h
  | _ => rfl

/-- A key keeps its name without wrappers, and gets none. -/
theorem Key.name?_bare (move : Span → Span) (k : Key) : (k.bare move).name? = k.name? := by
  cases k with
  | named _ | privateName _ | untracked => rfl
  | computed e =>
    cases he : e.isString with
    | false =>
      rw [Key.bare, Key.name?_computed he, Key.name?_computed (Expr.isString_kept he _)]
    | true =>
      cases e with
      | string _ => rfl
      | _ => cases he

theorem Key.isPrivate_bare (move : Span → Span) (k : Key) :
    (k.bare move).isPrivate = k.isPrivate := by
  cases k <;> rfl

theorem Key.valueRole_bare (move : Span → Span) (k : Key) :
    (k.bare move).valueRole = k.valueRole := by
  rw [Key.valueRole, Key.valueRole, Key.name?_bare]

theorem Key.valueRole_ne_callee (k : Key) : k.valueRole ≠ .callee := by
  unfold Key.valueRole
  cases k.name? <;> exact nofun

theorem Pattern.valueRole_ne_callee (p : Pattern) : p.valueRole ≠ .callee := by
  unfold Pattern.valueRole
  split <;> exact nofun

/-- Parentheses around an object leave a property of the superclass alone, as that has no object. -/
theorem Pattern.superKey?_wrapObject (p : Pattern) : p.wrapObject.superKey? = p.superKey? := by
  unfold Pattern.wrapObject
  split <;> rfl

theorem Pattern.isLeftAlone_wrapObject (p : Pattern) :
    p.wrapObject.isLeftAlone = p.isLeftAlone := by
  unfold Pattern.wrapObject
  split
  · next chained _ _ => cases chained <;> rfl
  · rfl

/-- The bare form of a property of the superclass is one, with the bare key. -/
theorem Pattern.superKey?_bare (move : Span → Span) (p : Pattern) :
    (p.bare move).superKey? = p.superKey?.map (Key.bare move) := by
  cases p with
  | expr e => cases e <;> rfl
  | _ => rfl

/-- A target that is left alone is left alone without wrappers. -/
theorem Pattern.isLeftAlone_bare (move : Span → Span) (p : Pattern) :
    (p.bare move).isLeftAlone = p.isLeftAlone := by
  cases p with
  | expr e =>
    cases e with
    | member chained _ _ => cases chained <;> rfl
    | _ => rfl
  | _ => rfl

theorem Pattern.kept_cases (written bare : Pattern) :
    written.kept bare = bare.wrapObject ∨ written.kept bare = bare := by
  unfold Pattern.kept
  split
  · exact .inl rfl
  · exact .inr rfl

/-- The kept form is a property of the superclass if the written one is. -/
theorem Pattern.superKey?_kept (move : Span → Span) (p : Pattern) :
    (p.kept (p.bare move)).superKey? = p.superKey?.map (Key.bare move) := by
  obtain h | h := p.kept_cases (p.bare move)
  · rw [h, Pattern.superKey?_wrapObject, Pattern.superKey?_bare]
  · rw [h, Pattern.superKey?_bare]

theorem Pattern.isLeftAlone_kept (move : Span → Span) (p : Pattern) :
    (p.kept (p.bare move)).isLeftAlone = p.isLeftAlone := by
  obtain h | h := p.kept_cases (p.bare move)
  · rw [h, Pattern.isLeftAlone_wrapObject, Pattern.isLeftAlone_bare]
  · rw [h, Pattern.isLeftAlone_bare]

/-- An assignment to `module.exports` is one of the bare form. -/
theorem Pattern.isModuleExports_bare {p : Pattern} (move : Span → Span)
    (h : p.isModuleExports = true) : (p.bare move).isModuleExports = true := by
  unfold Pattern.isModuleExports at h
  split at h
  · exact h
  · cases h

/-- The kept form is `module.exports` if the written one is. -/
theorem Pattern.isModuleExports_kept (move : Span → Span) (p : Pattern) :
    (p.kept (p.bare move)).isModuleExports = p.isModuleExports := by
  unfold Pattern.kept
  cases hp : p.isModuleExports with
  | true =>
    rw [Bool.not_true, Bool.and_false]
    exact Pattern.isModuleExports_bare move hp
  | false =>
    cases hb : (p.bare move).isModuleExports with
    | false => exact hb
    | true =>
      show (p.bare move).wrapObject.isModuleExports = false
      unfold Pattern.isModuleExports at hb
      split at hb
      · next h =>
        rw [h]
        rfl
      · cases hb

/-- A value that is assigned gets its name from the bare target. -/
theorem Pattern.valueRole_bare (move : Span → Span) (p : Pattern) :
    (p.bare move).valueRole = p.valueRole := by
  cases p with
  | expr e =>
    cases e with
    | member chained _ key => cases chained <;> cases key <;> rfl
    | _ => rfl
  | _ => rfl

theorem Pattern.valueRole_wrapObject (p : Pattern) : p.wrapObject.valueRole = p.valueRole := by
  unfold Pattern.wrapObject
  split
  · next chained _ key => cases chained <;> cases key <;> rfl
  · rfl

theorem Pattern.valueRole_kept (move : Span → Span) (p : Pattern) :
    (p.kept (p.bare move)).valueRole = p.valueRole := by
  obtain h | h := p.kept_cases (p.bare move)
  · rw [h, Pattern.valueRole_wrapObject, Pattern.valueRole_bare]
  · rw [h, Pattern.valueRole_bare]

/-- A call is one of `require` in the bare form if it is marked to be no part of a chain. -/
theorem requiredSpecifier?_bare {chained : Bool} {callee : Expr} {args : List Expr}
    (move : Span → Span) (h : Expr.isRequire chained callee args = true) :
    requiredSpecifier? (Expr.kept Expr.isMethod callee (callee.bare move))
      (Expr.bareAll move args) = requiredSpecifier? callee args := by
  unfold Expr.isRequire at h
  cases hs : requiredSpecifier? callee args with
  | none =>
    rw [hs, Option.isSome_none, Bool.and_false] at h
    cases h
  | some specifier =>
    unfold requiredSpecifier? at hs
    split at hs
    · exact hs
    · exact hs
    · cases hs

end Syntax

namespace Walk

/-! ## Wrappers in the walk -/

/-- An expression in parentheses has the value of the expression, and no receiver. -/
theorem visit_paren_value (e : Expr) :
    visit .value (.paren e) = do
      let value ← visit .value e
      return { result := value.result } := by
  rw [visit]
  rfl

/-- Parentheses around an object are not seen when a property is read from it. -/
theorem visit_member_paren (role : Role) (chained : Bool) (o : Expr) (k : Key) :
    visit role (.member chained (.paren o) k) = visit role (.member chained o k) := by
  rw [visit, visit, visit]
  simp only [Role.inParens, bind_assoc, pure_bind]

/-- Parentheses around the object of a target are not seen when it is bound. -/
theorem bind_kept (written bare : Pattern) (source : Option VertexId) :
    bind (written.kept bare) source = bind bare source := by
  obtain h | h := written.kept_cases bare
  case inr => rw [h]
  rw [h]
  unfold Pattern.wrapObject
  split
  · next chained o k =>
    rw [bind, bind, visit_member_paren]
    cases chained <;> rfl
  · rfl

end Walk

/-! ## Roles and values -/

/-- The roles in which the walk does the same for a written expression and its bare form. Only
`super.m` in the role of a callee asks for the receiver vertex. A wrapper may keep a name from a
function. -/
structure Role.Suits (e e' : Expr) (role role' : Role) : Prop where
  callee : e'.isSuperMember = true → (role' = .callee ↔ role = .callee ∧ e.isSuperMember = true)
  name : role.name? = none ∨ role.name? = role'.name?

theorem Role.suits_same {e e' : Expr} {role : Role} (h : role ≠ .callee) :
    Role.Suits e e' role role :=
  ⟨fun _ => ⟨fun hr => absurd hr h, fun hr => absurd hr.1 h⟩, .inr rfl⟩

theorem Role.suits_value {e e' : Expr} : Role.Suits e e' .value .value :=
  Role.suits_same nofun

theorem Role.inParens_ne_callee (role : Role) : role.inParens ≠ .callee := by
  cases role <;> exact nofun

theorem Role.name?_inParens (role : Role) : role.inParens.name? = role.name? := by
  cases role <;> rfl

/-- What is in a wrapper is not in the role of a callee. -/
theorem Role.Suits.inner {wrapper inner e' : Expr} {role role' inside : Role}
    (h : Role.Suits wrapper e' role role') (hwrapper : wrapper.isSuperMember = false)
    (hinside : inside ≠ .callee) (hname : inside.name? = none ∨ inside.name? = role.name?) :
    Role.Suits inner e' inside role' := by
  refine ⟨fun hs => ⟨fun hr => ?_, fun hr => absurd hr.1 hinside⟩, ?_⟩
  case refine_2 =>
    rcases hname with hname | hname
    · exact .inl hname
    · rw [hname]
      exact h.name
  have hsuper := ((h.callee hs).1 hr).2
  rw [hwrapper] at hsuper
  cases hsuper

/-- What an expression and its bare form evaluate to. The result is the same, and so is the
receiver, unless only one of them is a method that was read from an object. -/
structure Evaluated.Agree (e e' : Expr) (v v' : Evaluated) : Prop where
  result : v.result = v'.result
  receiver : e.isMethod = e'.isMethod → v.receiver = v'.receiver
  written : e.isMethod = false → v.receiver = none
  bare : e'.isMethod = false → v'.receiver = none

theorem Evaluated.Agree.of_result {e e' : Expr} {a b : Option VertexId} (h : a = b) :
    Evaluated.Agree e e' { result := a } { result := b } :=
  ⟨h, fun _ => rfl, fun _ => rfl, fun _ => rfl⟩


/-- A wrapper passes no receiver on. -/
theorem Evaluated.Agree.wrapped {inner wrapper e' : Expr} {v v' : Evaluated}
    (h : Evaluated.Agree inner e' v v') (hwrapper : wrapper.isMethod = false) :
    Evaluated.Agree wrapper e' { result := v.result } v' :=
  ⟨h.result, fun he => (h.bare (he.symm.trans hwrapper)).symm, fun _ => rfl, h.bare⟩

namespace Walk

variable {ρ : Relocation} {file : FileId}

/-! ## The walk over the wrappers that stay -/

namespace Moves

/-- What parentheses are put around keeps its result. -/
theorem inParens {walk : Walk Evaluated} {e' : Expr}
    (h : Moves ρ file walk (visit .value e') fun v v' => v.result = v'.result) :
    Moves ρ file walk (visit .value (.paren e')) fun v v' => v.result = v'.result := by
  rw [visit_paren_value, ← bind_pure walk]
  exact h.bind fun _ _ hv => .pure hv

theorem inType {walk : Walk Evaluated} {e' : Expr}
    (h : Moves ρ file walk (visit .value e') fun v v' => v.result = v'.result) :
    Moves ρ file walk (visit .value (.typed e')) fun v v' => v.result = v'.result := by
  rw [visit, ← bind_pure walk]
  exact h.bind fun _ _ hv => .pure hv

/-- The wrappers around the place of an assignment do not change where it is. -/
theorem placed {walk : Walk Evaluated} (e e' : Expr)
    (h : Moves ρ file walk (visit .value e') fun v v' => v.result = v'.result) :
    Moves ρ file walk (visit .value (e.placed e')) fun v v' => v.result = v'.result := by
  fun_induction Expr.placed e e' with
  | case1 inner bare ih => exact (ih h).inParens
  | case2 inner bare => exact h.inType
  | case3 chained object key bare o k =>
    rw [visit] at h ⊢
    exact h
  | case4 e' e => exact h

variable {e : Expr} (h : ∀ role role', Role.Suits e (e.bare (ρ.move file)) role role' →
  Moves ρ file (visit role e) (visit role' (e.bare (ρ.move file)))
    (Evaluated.Agree e (e.bare (ρ.move file))))

include h

theorem result : Moves ρ file (visit .value e) (visit .value (e.bare (ρ.move file)))
    fun v v' => v.result = v'.result :=
  (h .value .value Role.suits_value).mono fun _ _ hv => hv.result

/-- What is called has the same receiver, if parentheses are kept where the bare expression alone
would have one. -/
theorem callee : Moves ρ file (visit .callee e)
    (visit .callee (Expr.kept Expr.isMethod e (e.bare (ρ.move file)))) := by
  have heq : ∀ {v v' : Evaluated}, v.result = v'.result → v.receiver = v'.receiver → v = v' := by
    rintro ⟨_, _⟩ ⟨_, _⟩ rfl rfl
    rfl
  -- Either parentheses were put around the bare form, which then is the only one with a receiver,
  -- or both have one or none of them has.
  obtain ⟨hkept, -, hwritten⟩ | ⟨hkept, hbare⟩ :=
    Expr.kept_cases Expr.isMethod e (e.bare (ρ.move file))
  -- In parentheses the bare form is no callee any more, and the written form is no method of the
  -- superclass.
  · have hsuits : Role.Suits e (e.bare (ρ.move file)) .callee .value := by
      refine ⟨fun _ => ⟨nofun, fun hr => ?_⟩, .inl rfl⟩
      have hmethod := Expr.isMethod_of_isSuperMember hr.2
      rw [hwritten] at hmethod
      cases hmethod
    rw [hkept, visit, ← bind_pure (visit .callee e)]
    exact (h _ _ hsuits).bind fun v v' hv => .pure (heq hv.result (hv.written hwritten))
  · have hmethod : e.isMethod = (e.bare (ρ.move file)).isMethod := by
      rw [Bool.eq_iff_iff]
      exact ⟨Expr.isMethod_bare _, hbare⟩
    have hsuits : Role.Suits e (e.bare (ρ.move file)) .callee .callee := by
      refine ⟨fun hs => ⟨fun hr => ⟨hr, ?_⟩, fun hr => hr.1⟩, .inl rfl⟩
      have he := hbare (Expr.isMethod_of_isSuperMember hs)
      exact (Expr.isSuperMember_bare _ he).symm.trans hs
    rw [hkept]
    exact (h _ _ hsuits).mono fun v v' hv => heq hv.result (hv.receiver hmethod)

/-- What is constructed, if parentheses are kept around a method of the superclass. -/
theorem constructed : Moves ρ file (visit .callee e)
    (visit .callee (Expr.kept Expr.isSuperMember e (e.bare (ρ.move file))))
    fun v v' => v.result = v'.result := by
  obtain ⟨hkept, -, hwritten⟩ | ⟨hkept, hbare⟩ :=
    Expr.kept_cases Expr.isSuperMember e (e.bare (ρ.move file))
  · have hsuits : Role.Suits e (e.bare (ρ.move file)) .callee .value := by
      refine ⟨fun _ => ⟨nofun, fun hr => ?_⟩, .inl rfl⟩
      have hsuper := hr.2
      rw [hwritten] at hsuper
      cases hsuper
    rw [hkept, visit, ← bind_pure (visit .callee e)]
    exact (h _ _ hsuits).bind fun v v' hv => .pure hv.result
  · have hsuits : Role.Suits e (e.bare (ρ.move file)) .callee .callee :=
      ⟨fun hs => ⟨fun hr => ⟨hr, hbare hs⟩, fun hr => hr.1⟩, .inl rfl⟩
    rw [hkept]
    exact (h _ _ hsuits).mono fun v v' hv => hv.result

/-- A key between brackets, if parentheses are kept around a string. -/
theorem computed : Moves ρ file (visitKey (.computed e))
    (visitKey ((Key.computed e).bare (ρ.move file))) := by
  cases he : e.isString with
  | true =>
    cases e with
    | string name =>
      rw [Key.bare, Expr.bare, Expr.kept, visitKey]
      exact .vertex _
    | _ => cases he
  | false =>
    rw [Key.bare, visitKey_of_not_isString he, visitKey_of_not_isString (Expr.isString_kept he _)]
    obtain ⟨hkept, -, -⟩ | ⟨hkept, -⟩ :=
      Expr.kept_cases Expr.isString e (e.bare (ρ.move file))
    · rw [hkept]
      exact (result h).inParens.bind fun _ _ _ => .vertex _
    · rw [hkept]
      exact (result h).bind fun _ _ _ => .vertex _

omit h

/-- An assignment to `module.exports`, which is one in the form that is kept. -/
theorem exportAssigned (target : Pattern) (value : Option VertexId) :
    Moves ρ file (exportAssigned target value)
      (Walk.exportAssigned (target.kept (target.bare (ρ.move file))) value) := by
  unfold Walk.exportAssigned
  rw [Pattern.isModuleExports_kept]
  split
  · refine .step (.isGlobal _) fun isGlobal => ?_
    split
    · cases value with
      | none => exact .pure rfl
      | some value => exact .addExport _ value
    · exact .pure rfl
  · exact .pure rfl

/-- The bare call is recorded if the written one is. -/
theorem recordRequire (chained : Bool) (callee : Expr) (args : List Expr) (call : CallId) :
    Moves ρ file (recordRequire chained callee args call)
      (Walk.recordRequire (!Expr.isRequire chained callee args)
        (Expr.kept Expr.isMethod callee (callee.bare (ρ.move file)))
        (Expr.bareAll (ρ.move file) args) call) := by
  -- If the written call is not recorded, the bare one is marked as part of a chain and is not
  -- recorded either.
  cases hr : Expr.isRequire chained callee args with
  | true =>
    have hspecifier := requiredSpecifier?_bare (ρ.move file) hr
    obtain ⟨hchained, hsome⟩ := Bool.and_eq_true_iff.1 hr
    obtain rfl : chained = false := by simpa using hchained
    obtain ⟨specifier, hs⟩ := Option.isSome_iff_exists.1 hsome
    unfold Walk.recordRequire
    rw [hspecifier, hs]
    refine .step (.isGlobal _) fun isGlobal => ?_
    split
    · exact .addRequire _ _
    · exact .pure rfl
  | false =>
    have hpure : Walk.recordRequire chained callee args call = Pure.pure () := by
      unfold Walk.recordRequire
      split
      · next hs =>
        rw [Expr.isRequire, hs] at hr
        cases hr
      · rfl
    rw [hpure]
    exact .pure rfl

end Moves

/-! ## The walk -/

open Evaluated.Agree (of_result)

mutual

/-- An expression and its bare form are walked to the same result, in roles that suit them. -/
theorem moves_visit (role role' : Role) : ∀ e : Expr,
    Role.Suits e (e.bare (ρ.move file)) role role' →
      Moves ρ file (visit role e) (visit role' (e.bare (ρ.move file)))
        (Evaluated.Agree e (e.bare (ρ.move file)))
  | .ident name, _ => by
    rw [visit, Expr.bare, visit]
    exact .step (.resolve name) fun _ => .pure (of_result rfl)
  | .this, _ => by
    rw [visit, Expr.bare, visit]
    exact .step .receiver fun _ => .pure (of_result rfl)
  | .string _, _ | .literal, _ => by
    rw [visit, Expr.bare, visit]
    exact .pure (of_result rfl)
  | .function none f, hsuits => by
    rw [visit, Expr.bare, visit]
    refine .step (moves_visitFunction hsuits.name none false f) fun id => ?_
    exact .step (.vertex _) fun _ => .pure (of_result rfl)
  | .function (some name) f, _ => by
    rw [visit, Expr.bare, visit]
    refine .step (moves_visitFunction (.inr rfl) (some name) false f) fun id => ?_
    exact .step (.vertex _) fun _ => .pure (of_result rfl)
  | .arrow f, hsuits => by
    rw [visit, Expr.bare, visit]
    refine .step (moves_visitFunction hsuits.name none true f) fun id => ?_
    exact .step (.vertex _) fun _ => .pure (of_result rfl)
  | .class none c, hsuits => by
    rw [visit, Expr.bare, visit]
    exact .step (moves_visitClass hsuits.name none c) fun _ => .pure (of_result rfl)
  | .class (some name) c, _ => by
    rw [visit, Expr.bare, visit]
    exact .step (moves_visitClass (.inr rfl) (some name) c) fun _ => .pure (of_result rfl)
  | .call chained span callee args, _ => by
    rw [visit, Expr.bare, visit, Expr.length_bareAll]
    refine .step (.addCall .call _ span) fun call => ?_
    refine .step (.vertex _) fun slot => ?_
    -- The number of arguments is part of what is registered, and wrappers do not change it.
    refine .step (.callee fun role role' => moves_visit role role' callee) fun value => ?_
    refine .step (.flow value.result slot) fun _ => ?_
    refine .step (.passReceiver call value.receiver) fun _ => ?_
    refine .step (moves_visitArgs call 1 args) fun _ => ?_
    refine .step (.vertex _) fun result => ?_
    exact .step (.recordRequire chained callee args call) fun _ => .pure (of_result rfl)
  | .construct span callee args, _ => by
    rw [visit, Expr.bare, visit, Expr.length_bareAll]
    refine .step (.addCall .construct _ span) fun call => ?_
    refine .step (.vertex _) fun slot => ?_
    refine .bind (.constructed fun role role' => moves_visit role role' callee)
      fun value value' hvalue => ?_
    rw [hvalue]
    refine .step (.flow value'.result slot) fun _ => ?_
    refine .step (moves_visitArgs call 1 args) fun _ => ?_
    exact .step (.vertex _) fun _ => .pure (of_result rfl)
  | .tagged span tag substitutions, _ => by
    rw [visit, Expr.bare, visit, Expr.length_bareAll]
    refine .step (.addCall .call _ span) fun call => ?_
    refine .step (.vertex _) fun slot => ?_
    refine .step (.callee fun role role' => moves_visit role role' tag) fun value => ?_
    refine .step (.flow value.result slot) fun _ => ?_
    refine .step (.passReceiver call value.receiver) fun _ => ?_
    refine .step (moves_visitArgs call 2 substitutions) fun _ => ?_
    exact .step (.vertex _) fun _ => .pure (of_result rfl)
  | .member _ object key, _ => by
    rw [visit, Expr.bare, visit]
    refine .bind (.result fun role role' => moves_visit role role' object)
      fun value value' hvalue => ?_
    rw [hvalue]
    exact .step (moves_visitKey key) fun _ => .pure ⟨rfl, fun _ => rfl, nofun, nofun⟩
  | .superMember key, hsuits => by
    have hrole : role' = .callee ↔ role = .callee :=
      (hsuits.callee rfl).trans (and_iff_left rfl)
    have hrest : ∀ object : Option VertexId, Moves ρ file
        (do return { result := ← visitKey key, receiver := object })
        (do return { result := ← visitKey (key.bare (ρ.move file)), receiver := object })
        (Evaluated.Agree (.superMember key) ((Expr.superMember key).bare (ρ.move file))) :=
      fun _ => .step (moves_visitKey key) fun _ => .pure ⟨rfl, fun _ => rfl, nofun, nofun⟩
    rw [visit, Expr.bare, visit]
    by_cases hr : role = .callee
    · rw [if_pos hr, if_pos (hrole.2 hr)]
      exact .step .receiver hrest
    · rw [if_neg hr, if_neg (mt hrole.1 hr)]
      exact hrest none
  | .assign op target value, _ => by
    have hbind := moves_bind target
    have hkey := moves_superKey target
    rw [visit_assign, Expr.bare, visit_assign, Pattern.superKey?_kept, Pattern.isLeftAlone_kept,
      Pattern.valueRole_kept]
    refine .bind (moves_visit _ _ value (Role.suits_same (Pattern.valueRole_ne_callee _)))
      fun value value' hvalue => ?_
    dsimp only
    rw [hvalue.result]
    cases hs : target.superKey? with
    | some key =>
      refine .step (hkey key (Pattern.eq_of_superKey? hs)) fun place => ?_
      exact .step (.flow _ place) fun _ => .pure (of_result rfl)
    | none =>
      rw [Option.map_none]
      dsimp only
      split
      · exact .pure (of_result rfl)
      · refine .step (.exportAssigned target _) fun _ => ?_
        rw [bind_kept]
        exact .step (hbind _) fun _ => .pure (of_result rfl)
  | .logical span left right, _ => by
    rw [visit, Expr.bare, visit]
    refine .bind (moves_visit .value .value left Role.suits_value) fun l l' hl => ?_
    refine .bind (moves_visit .value .value right Role.suits_value) fun r r' hr => ?_
    rw [hl.result, hr.result]
    refine .step (.exprVertex span) fun joined => ?_
    refine .step (.flow _ joined) fun _ => ?_
    exact .step (.flow _ joined) fun _ => .pure (of_result rfl)
  | .conditional span test consequent alternate, _ => by
    rw [visit, Expr.bare, visit]
    refine .bind (moves_visit .value .value test Role.suits_value) fun _ _ _ => ?_
    refine .bind (moves_visit .value .value consequent Role.suits_value) fun l l' hl => ?_
    refine .bind (moves_visit .value .value alternate Role.suits_value) fun r r' hr => ?_
    rw [hl.result, hr.result]
    refine .step (.exprVertex span) fun joined => ?_
    refine .step (.flow _ joined) fun _ => ?_
    exact .step (.flow _ joined) fun _ => .pure (of_result rfl)
  | .sequence exprs, _ => by
    rw [visit, Expr.bare, visit]
    exact .step (moves_visitAll exprs) fun _ => .pure (of_result rfl)
  | .paren inner, hsuits => by
    have hinner : Role.Suits inner (inner.bare (ρ.move file)) role.inParens role' :=
      hsuits.inner rfl role.inParens_ne_callee (.inr role.name?_inParens)
    rw [visit, Expr.bare, ← bind_pure (visit role' _)]
    exact (moves_visit _ role' inner hinner).bind fun _ _ hv => .pure (hv.wrapped rfl)
  | .typed inner, hsuits => by
    have hinner : Role.Suits inner (inner.bare (ρ.move file)) .value role' :=
      hsuits.inner rfl nofun (.inl rfl)
    rw [visit, Expr.bare, ← bind_pure (visit role' _)]
    exact (moves_visit .value role' inner hinner).bind fun _ _ hv => .pure (hv.wrapped rfl)
  | .await inner, _ | .spread inner, _ => by
    rw [visit, Expr.bare, visit]
    exact .bind (moves_visit .value .value inner Role.suits_value) fun _ _ hv =>
      .pure (of_result hv.result)
  | .array operands, _ | .untracked operands, _ => by
    rw [visit, Expr.bare, visit]
    exact .step (moves_visitAll operands) fun _ => .pure (of_result rfl)
  | .object properties, _ => by
    rw [visit, Expr.bare, visit]
    exact .step (moves_visitProperties properties) fun _ => .pure (of_result rfl)
  | .element attributes children, _ => by
    rw [visit, Expr.bare, visit]
    refine .step (moves_visitAttributes attributes) fun _ => ?_
    exact .step (moves_visitAll children) fun _ => .pure (of_result rfl)

/-- Several expressions. -/
theorem moves_visitAll : ∀ es : List Expr,
    Moves ρ file (visitAll es) (visitAll (Expr.bareAll (ρ.move file) es))
  | [] => by
    rw [visitAll, Expr.bareAll, visitAll]
    exact .pure rfl
  | [e] => by
    rw [visitAll, Expr.bareAll, Expr.bareAll, visitAll]
    exact .bind (moves_visit .value .value e Role.suits_value) fun _ _ hv => .pure hv.result
  | e :: e' :: rest => by
    have hrest := moves_visitAll (e' :: rest)
    rw [Expr.bareAll] at hrest
    unfold visitAll
    rw [Expr.bareAll, Expr.bareAll]
    exact .bind (moves_visit .value .value e Role.suits_value) fun _ _ _ => hrest

/-- An expression that may be left out. -/
theorem moves_visitOption : ∀ e : Option Expr,
    Moves ρ file (visitOption e) (visitOption (Expr.bareOption (ρ.move file) e))
  | none => by
    rw [visitOption, Expr.bareOption, visitOption]
    exact .pure rfl
  | some e => by
    rw [visitOption, Expr.bareOption, visitOption]
    exact .bind (moves_visit .value .value e Role.suits_value) fun _ _ hv => .pure hv.result

/-- The arguments of a call, from the same slot on. -/
theorem moves_visitArgs (call : CallId) (slot : Nat) : ∀ es : List Expr,
    Moves ρ file (visitArgs call slot es) (visitArgs call slot (Expr.bareAll (ρ.move file) es))
  | [] => by
    rw [visitArgs, Expr.bareAll, visitArgs]
    exact .pure rfl
  | e :: rest => by
    rw [visitArgs, Expr.bareAll, visitArgs]
    refine .bind (moves_visit .value .value e Role.suits_value) fun v v' hv => ?_
    rw [hv.result]
    refine .step (.vertex _) fun arg => ?_
    exact .step (.flow _ arg) fun _ => moves_visitArgs call (slot + 1) rest

theorem moves_visitKey : ∀ k : Key,
    Moves ρ file (visitKey k) (visitKey (k.bare (ρ.move file)))
  | .named _ | .privateName _ | .untracked => by
    rw [visitKey, Key.bare, visitKey]
    exact .vertex _
  | .computed e => .computed fun role role' => moves_visit role role' e

/-- The key of a target that is a property of the superclass. -/
theorem moves_superKey : ∀ (p : Pattern) (key : Key), p = .expr (.superMember key) →
    Moves ρ file (visitKey key) (visitKey (key.bare (ρ.move file)))
  | .expr (.superMember key'), key, h => by
    obtain rfl : key' = key := by simpa using h
    exact moves_visitKey key'

/-- A property of an object literal. -/
theorem moves_visitProperty : ∀ p : Property,
    Moves ρ file (visitProperty p) (visitProperty (p.bare (ρ.move file)))
  | .keyValue key value => by
    rw [visitProperty, Property.bare, visitProperty, Key.valueRole_bare]
    refine .step (moves_visitKey key) fun target => ?_
    refine .bind (moves_visit _ _ value (Role.suits_same (Key.valueRole_ne_callee _)))
      fun v v' hv => ?_
    rw [hv.result]
    exact .flow _ target
  | .shorthand name => by
    rw [visitProperty, Property.bare, visitProperty]
    exact .step (.resolve name) fun _ => .step (.vertex _) fun _ => .edge _ _
  | .shorthandDefault _ value => by
    rw [visitProperty, Property.bare, visitProperty]
    exact .bind (moves_visit .value .value value Role.suits_value) fun _ _ _ => .pure rfl
  | .method key f => by
    rw [visitProperty, Property.bare, visitProperty, Key.name?_bare]
    refine .step (moves_visitKey key) fun target => ?_
    refine .step (moves_visitFunction (.inr rfl) none false f) fun id => ?_
    exact .step (.vertex _) fun _ => .edge _ _
  | .spread e => by
    rw [visitProperty, Property.bare, visitProperty]
    exact .bind (moves_visit .value .value e Role.suits_value) fun _ _ _ => .pure rfl

/-- The properties of an object literal. -/
theorem moves_visitProperties : ∀ ps : List Property,
    Moves ρ file (visitProperties ps) (visitProperties (Property.bareAll (ρ.move file) ps))
  | [] => by
    rw [visitProperties, Property.bareAll, visitProperties]
    exact .pure rfl
  | p :: rest => by
    rw [visitProperties, Property.bareAll, visitProperties]
    exact .step (moves_visitProperty p) fun _ => moves_visitProperties rest

/-- The attributes of an element. -/
theorem moves_visitAttributes : ∀ as : List Attribute,
    Moves ρ file (visitAttributes as) (visitAttributes (Attribute.bareAll (ρ.move file) as))
  | [] => by
    rw [visitAttributes, Attribute.bareAll, visitAttributes]
    exact .pure rfl
  | .value e :: rest => by
    rw [visitAttributes, Attribute.bareAll, visitAttributes]
    exact .bind (moves_visit .value .value e Role.suits_value) fun _ _ _ =>
      moves_visitAttributes rest
  | .fragment _ :: rest => by
    rw [visitAttributes, Attribute.bareAll, visitAttributes]
    exact moves_visitAttributes rest

/-- A pattern and its bare form are bound to the same value. -/
theorem moves_bind : ∀ (p : Pattern) (source : Option VertexId),
    Moves ρ file (bind p source) (bind (p.bare (ρ.move file)) source)
  | .ident name, source => by
    rw [bind, Pattern.bare, bind]
    exact .step (.resolve name) fun _ => .flow _ _
  | .array elements, source => by
    rw [bind, Pattern.bare, bind]
    exact moves_bindAll elements
  | .object fields, source => by
    rw [bind, Pattern.bare, bind]
    exact moves_bindFields fields
  | .rest inner, source => by
    rw [bind, Pattern.bare, bind]
    exact moves_bind inner none
  | .withDefault inner value, source => by
    rw [bind, Pattern.bare, bind]
    refine .bind (moves_visit .value .value value Role.suits_value) fun v v' hv => ?_
    rw [hv.result]
    refine .step (moves_bind inner source) fun _ => ?_
    cases v'.result with
    | none => exact .pure rfl
    | some value => exact moves_bind inner (some value)
  | .expr e, source => by
    have hplace := Moves.placed e _ (.result fun role role' => moves_visit role role' e)
    rw [bind, Pattern.bare, bind, Expr.isPlace_placed]
    refine hplace.bind fun v v' hv => ?_
    rw [hv]
    split
    · exact .flow _ _
    · exact .pure rfl

/-- The elements of an array pattern. -/
theorem moves_bindAll : ∀ ps : List Pattern,
    Moves ρ file (bindAll ps) (bindAll (Pattern.bareAll (ρ.move file) ps))
  | [] => by
    rw [bindAll, Pattern.bareAll, bindAll]
    exact .pure rfl
  | p :: rest => by
    rw [bindAll, Pattern.bareAll, bindAll]
    exact .step (moves_bind p none) fun _ => moves_bindAll rest

/-- A field of an object pattern. -/
theorem moves_bindField : ∀ f : PatternField,
    Moves ρ file (bindField f) (bindField (f.bare (ρ.move file)))
  | .keyValue key p => by
    rw [bindField, PatternField.bare, bindField]
    exact .step (moves_visitKey key) fun source => moves_bind p (some source)
  | .shorthand name none => by
    rw [bindField, PatternField.bare, Expr.bareOption, bindField]
    refine .step (.vertex _) fun source => ?_
    refine .step (.resolve name) fun target => ?_
    exact .step (.edge source target) fun _ => .pure rfl
  | .shorthand name (some value) => by
    rw [bindField, PatternField.bare, Expr.bareOption, bindField]
    refine .step (.vertex _) fun source => ?_
    refine .step (.resolve name) fun target => ?_
    refine .step (.edge source target) fun _ => ?_
    refine .bind (moves_visit .value .value value Role.suits_value) fun v v' hv => ?_
    rw [hv.result]
    exact .flow _ target
  | .rest inner => by
    rw [bindField, PatternField.bare, bindField]
    exact moves_bind inner none

/-- The fields of an object pattern. -/
theorem moves_bindFields : ∀ fs : List PatternField,
    Moves ρ file (bindFields fs) (bindFields (PatternField.bareAll (ρ.move file) fs))
  | [] => by
    rw [bindFields, PatternField.bareAll, bindFields]
    exact .pure rfl
  | f :: rest => by
    rw [bindFields, PatternField.bareAll, bindFields]
    exact .step (moves_bindField f) fun _ => moves_bindFields rest

/-- A function gets the same number. It may have a name in the bare form only, where a wrapper kept
it from one. -/
theorem moves_visitFunction {name name' : Option String} (hname : name = none ∨ name = name')
    (own : Option String) (isArrow : Bool) : ∀ f : Func,
    Moves ρ file (visitFunction name own isArrow f)
      (visitFunction name' own isArrow (f.bare (ρ.move file)))
  | .mk params body span => by
    rw [visitFunction, Func.bare, visitFunction, Param.countP_isSlotted_bare,
      Param.flatMap_names_bare]
    refine .step (.addFunction hname _ isArrow span) fun f => ?_
    refine .step (.vertex _) fun value => ?_
    refine .step (.inScope _ (.inFunction ?_)) fun _ => .pure rfl
    refine .step (.bindOwnName value own) fun _ => ?_
    refine .step (.declare _ _) fun _ => ?_
    refine .step (.hoistBody body) fun _ => ?_
    exact .step (moves_bindParams f 1 params) fun _ => moves_visitBody f body

/-- The parameters of a function. As many of them have slots. -/
theorem moves_bindParams (f : FunctionId) (slot : Nat) : ∀ ps : List Param,
    Moves ρ file (bindParams f slot ps) (bindParams f slot (Param.bareAll (ρ.move file) ps))
  | [] => by
    rw [bindParams, Param.bareAll, bindParams]
    exact .pure rfl
  | p :: rest => by
    rw [bindParams, Param.bareAll, bindParams, Param.isSlotted_bare]
    split
    · refine .step (.vertex _) fun source => ?_
      refine .step (moves_bindParam source p) fun _ => ?_
      exact moves_bindParams f (slot + 1) rest
    · exact moves_bindParams f slot rest

/-- A single parameter. -/
theorem moves_bindParam (source : VertexId) : ∀ p : Param,
    Moves ρ file (bindParam source p) (bindParam source (p.bare (ρ.move file)))
  | .pattern _ p => by
    rw [bindParam_pattern, Param.bare, bindParam_pattern]
    exact moves_bind p (some source)
  | .property _ name none => by
    rw [bindParam, Param.bare, Expr.bareOption, bindParam]
    refine .step (.resolve name) fun target => ?_
    refine .step (.edge source target) fun _ => ?_
    refine .step (.vertex _) fun property => ?_
    exact .step (.edge source property) fun _ => .pure rfl
  | .property _ name (some value) => by
    rw [bindParam, Param.bare, Expr.bareOption, bindParam]
    refine .step (.resolve name) fun target => ?_
    refine .step (.edge source target) fun _ => ?_
    refine .step (.vertex _) fun property => ?_
    refine .step (.edge source property) fun _ => ?_
    refine .bind (moves_visit .value .value value Role.suits_value) fun v v' hv => ?_
    rw [hv.result]
    exact .flow _ target
  | .propertyPattern _ _ _ => by
    rw [bindParam, Param.bare, bindParam]
    exact .pure rfl

/-- The body of a function. -/
theorem moves_visitBody (f : FunctionId) : ∀ b : Body,
    Moves ρ file (visitBody f b) (visitBody f (b.bare (ρ.move file)))
  | .block stmts => by
    rw [visitBody, Body.bare, visitBody]
    exact moves_visitStmts stmts
  | .expr result => by
    rw [visitBody, Body.bare, visitBody]
    refine .bind (moves_visit .value .value result Role.suits_value) fun v v' hv => ?_
    rw [hv.result]
    exact .step (.vertex _) fun ret => .flow _ ret
  | .absent => by
    rw [visitBody, Body.bare, visitBody]
    exact .pure rfl

/-- A class, whose constructor may have a name in the bare form only. -/
theorem moves_visitClass {name name' : Option String} (hname : name = none ∨ name = name')
    (own : Option String) : ∀ c : Syntax.Class,
    Moves ρ file (visitClass name own c) (visitClass name' own (c.bare (ρ.move file)))
  | .mk decorators heritage members => by
    rw [visitClass, Class.bare, visitClass]
    refine .step (moves_visitAll decorators) fun _ => ?_
    refine .step (moves_visitOption heritage) fun _ => ?_
    refine .inScope _ ?_
    refine .step (.declareClassName own) fun _ => ?_
    refine .step (moves_visitMembers hname none members) fun constructor => ?_
    exact .step (.bindClassName own constructor) fun _ => .pure rfl

/-- The members of a class, starting from the same constructor. -/
theorem moves_visitMembers {name name' : Option String} (hname : name = none ∨ name = name')
    (last : Option VertexId) : ∀ ms : List Member, Moves ρ file (visitMembers name last ms)
      (visitMembers name' last (Member.bareAll (ρ.move file) ms))
  | [] => by
    rw [visitMembers, Member.bareAll, visitMembers]
    exact .pure rfl
  | .constructor f :: rest => by
    rw [visitMembers, Member.bareAll, Member.bare, visitMembers]
    refine .step (moves_visitFunction hname none false f) fun id => ?_
    exact .step (.vertex _) fun constructor =>
      moves_visitMembers hname (some constructor) rest
  | .method decorators key f :: rest => by
    have hmember := moves_visitMember (.method decorators key f)
    have hrest := moves_visitMembers hname last rest
    rw [Member.bareAll]
    unfold visitMembers
    exact hmember.step fun _ => hrest
  | .field decorators key value :: rest => by
    have hmember := moves_visitMember (.field decorators key value)
    have hrest := moves_visitMembers hname last rest
    rw [Member.bareAll]
    unfold visitMembers
    exact hmember.step fun _ => hrest
  | .staticBlock stmts :: rest => by
    have hmember := moves_visitMember (.staticBlock stmts)
    have hrest := moves_visitMembers hname last rest
    rw [Member.bareAll]
    unfold visitMembers
    exact hmember.step fun _ => hrest

/-- A member of a class. -/
theorem moves_visitMember : ∀ m : Member,
    Moves ρ file (visitMember m) (visitMember (m.bare (ρ.move file)))
  | .constructor f => by
    rw [visitMember, Member.bare, visitMember]
    exact .pure rfl
  | .method decorators key f => by
    have hdecorators := moves_visitAll decorators
    -- Decorators are walked or not, and what comes behind them is the same.
    have hrest : Moves ρ file
        (do
          let target ← visitKey key
          let id ← visitFunction key.name? none false f
          edge (← vertex (.func id)) target)
        (do
          let target ← visitKey (key.bare (ρ.move file))
          let id ← visitFunction key.name? none false (f.bare (ρ.move file))
          edge (← vertex (.func id)) target) := by
      refine .step (moves_visitKey key) fun target => ?_
      refine .step (moves_visitFunction (.inr rfl) none false f) fun id => ?_
      exact .step (.vertex _) fun value => .edge value target
    rw [visitMember, Member.bare, visitMember, Key.isPrivate_bare, Key.name?_bare]
    dsimp only
    cases key.isPrivate with
    | true => exact hrest
    | false => exact hdecorators.step fun _ => hrest
  | .field _ key none => by
    rw [visitMember, Member.bare, Expr.bareOption, visitMember]
    exact .step (moves_visitKey key) fun _ => .pure rfl
  | .field _ key (some value) => by
    rw [visitMember, Member.bare, Expr.bareOption, visitMember, Key.valueRole_bare]
    refine .step (moves_visitKey key) fun target => ?_
    refine .bind (moves_visit _ _ value (Role.suits_same (Key.valueRole_ne_callee _)))
      fun v v' hv => ?_
    rw [hv.result]
    exact .flow _ target
  | .staticBlock stmts => by
    rw [visitMember, Member.bare, visitMember]
    exact .inBlock stmts (moves_visitStmts stmts)

/-- A statement. -/
theorem moves_visitStmt : ∀ s : Stmt,
    Moves ρ file (visitStmt s) (visitStmt (s.bare (ρ.move file)))
  | .decl d => by
    rw [visitStmt, Stmt.bare, visitStmt]
    exact moves_visitDecl d
  | .expr e | .throw e => by
    rw [visitStmt, Stmt.bare, visitStmt]
    exact .bind (moves_visit .value .value e Role.suits_value) fun _ _ _ => .pure rfl
  | .block stmts => by
    rw [visitStmt, Stmt.bare, visitStmt]
    exact .inBlock stmts (moves_visitStmts stmts)
  | .ret none => by
    rw [visitStmt, Stmt.bare, Expr.bareOption, visitStmt]
    exact .pure rfl
  | .ret (some e) => by
    rw [visitStmt, Stmt.bare, Expr.bareOption, visitStmt]
    refine .bind (moves_visit .value .value e Role.suits_value) fun v v' hv => ?_
    rw [hv.result]
    exact .returnValue _
  | .cond test consequent alternate => by
    rw [visitStmt, Stmt.bare, visitStmt]
    refine .bind (moves_visit .value .value test Role.suits_value) fun _ _ _ => ?_
    exact .step (moves_visitStmt consequent) fun _ => moves_visitStmtOption alternate
  | .for head test update body => by
    rw [visitStmt, Stmt.bare, visitStmt]
    refine .inScope _ ?_
    refine .step (moves_visitLoopHead head) fun _ => ?_
    refine .step (moves_visitOption test) fun _ => ?_
    exact .step (moves_visitOption update) fun _ => moves_visitStmt body
  | .forEach head iterated body => by
    rw [visitStmt, Stmt.bare, visitStmt]
    refine .inScope _ ?_
    refine .bind (moves_visit .value .value iterated Role.suits_value) fun _ _ _ => ?_
    exact .step (moves_bindLoopHead head) fun _ => moves_visitStmt body
  | .while test body => by
    rw [visitStmt, Stmt.bare, visitStmt]
    exact .bind (moves_visit .value .value test Role.suits_value) fun _ _ _ =>
      moves_visitStmt body
  | .doWhile body test => by
    rw [visitStmt, Stmt.bare, visitStmt]
    refine .step (moves_visitStmt body) fun _ => ?_
    exact .bind (moves_visit .value .value test Role.suits_value) fun _ _ _ => .pure rfl
  | .labeled body => by
    rw [visitStmt, Stmt.bare, visitStmt]
    exact moves_visitStmt body
  | .switch subject cases => by
    rw [visitStmt, Stmt.bare, visitStmt]
    refine .bind (moves_visit .value .value subject Role.suits_value) fun _ _ _ => ?_
    exact .inScope _ (.step (.hoistCases cases) fun _ => moves_visitCases cases)
  | .try body param none finalizer => by
    rw [visitStmt, Stmt.bare, Stmt.bareOption, visitStmt]
    exact .step (moves_visitStmt body) fun _ => moves_visitStmtOption finalizer
  | .try body param (some handler) finalizer => by
    rw [visitStmt, Stmt.bare, Stmt.bareOption, visitStmt]
    refine .step (moves_visitStmt body) fun _ => ?_
    have hhandler := Moves.inScope .catchScope
      (.step (moves_visitCatchParam param) fun _ => moves_visitStmt handler)
    exact hhandler.step fun _ => moves_visitStmtOption finalizer
  | .with object body => by
    rw [visitStmt, Stmt.bare, visitStmt]
    exact .bind (moves_visit .value .value object Role.suits_value) fun _ _ _ =>
      moves_visitStmt body
  | .inert => by
    rw [visitStmt, Stmt.bare, visitStmt]
    exact .pure rfl

/-- A statement that may be left out. -/
theorem moves_visitStmtOption : ∀ s : Option Stmt,
    Moves ρ file (visitStmtOption s) (visitStmtOption (Stmt.bareOption (ρ.move file) s))
  | none => by
    rw [visitStmtOption, Stmt.bareOption, visitStmtOption]
    exact .pure rfl
  | some s => by
    rw [visitStmtOption, Stmt.bareOption, visitStmtOption]
    exact moves_visitStmt s

/-- Statements, one after the other. -/
theorem moves_visitStmts : ∀ stmts : List Stmt,
    Moves ρ file (visitStmts stmts) (visitStmts (Stmt.bareAll (ρ.move file) stmts))
  | [] => by
    rw [visitStmts, Stmt.bareAll, visitStmts]
    exact .pure rfl
  | s :: rest => by
    rw [visitStmts, Stmt.bareAll, visitStmts]
    exact .step (moves_visitStmt s) fun _ => moves_visitStmts rest

/-- The pattern for what is caught. -/
theorem moves_visitCatchParam : ∀ p : Option Pattern,
    Moves ρ file (visitCatchParam p) (visitCatchParam (Pattern.bareOption (ρ.move file) p))
  | none => by
    rw [visitCatchParam, Pattern.bareOption, visitCatchParam]
    exact .pure rfl
  | some p => by
    rw [visitCatchParam, Pattern.bareOption, visitCatchParam, Pattern.names_bare]
    refine .step (.declare _ _) fun _ => ?_
    exact .step (.vertex _) fun unknown => moves_bind p (some unknown)

/-- The first part of a loop that counts. -/
theorem moves_visitLoopHead : ∀ h : LoopHead,
    Moves ρ file (visitLoopHead h) (visitLoopHead (h.bare (ρ.move file)))
  | .decl (.vars kind declarators) => by
    have hhoist : Moves ρ file (hoist (.vars kind declarators))
        (hoist (.vars kind (Declarator.bareAll (ρ.move file) declarators))) := .hoist _
    rw [visitLoopHead, LoopHead.bare, Decl.bare, visitLoopHead]
    exact hhoist.step fun _ => moves_visitDeclarators declarators
  | .expr e => by
    rw [visitLoopHead, LoopHead.bare, visitLoopHead]
    exact .bind (moves_visit .value .value e Role.suits_value) fun _ _ _ => .pure rfl
  | .decl (.function _ _) | .decl (.class _ _) | .decl (.using _) | .decl .inert
  | .pattern _ | .absent => by
    unfold visitLoopHead
    exact .pure rfl

/-- The first part of a loop over the elements of a value. -/
theorem moves_bindLoopHead : ∀ h : LoopHead,
    Moves ρ file (bindLoopHead h) (bindLoopHead (h.bare (ρ.move file)))
  | .decl (.vars kind declarators) => by
    rw [bindLoopHead, LoopHead.bare, Decl.bare, bindLoopHead]
    exact moves_bindHeadDeclarators kind declarators
  | .pattern p => by
    rw [bindLoopHead, LoopHead.bare, bindLoopHead]
    exact moves_bind p none
  | .decl (.function _ _) | .decl (.class _ _) | .decl (.using _) | .decl .inert
  | .expr _ | .absent => by
    unfold bindLoopHead
    exact .pure rfl

/-- The declarators in such a part. -/
theorem moves_bindHeadDeclarators (kind : VarKind) : ∀ ds : List Declarator,
    Moves ρ file (bindHeadDeclarators kind ds)
      (bindHeadDeclarators kind (Declarator.bareAll (ρ.move file) ds))
  | [] => by
    rw [bindHeadDeclarators, Declarator.bareAll, bindHeadDeclarators]
    exact .pure rfl
  | .mk target init :: rest => by
    have hhoist : Moves ρ file (hoist (.vars kind [.mk target init]))
        (hoist (.vars kind [.mk (target.bare (ρ.move file))
          (Expr.bareOption (ρ.move file) init)])) := .hoist _
    rw [bindHeadDeclarators, Declarator.bareAll, bindHeadDeclarators]
    refine hhoist.step fun _ => ?_
    exact .step (moves_bind target none) fun _ => moves_bindHeadDeclarators kind rest

/-- The cases of a switch. -/
theorem moves_visitCases : ∀ cs : List Case,
    Moves ρ file (visitCases cs) (visitCases (Case.bareAll (ρ.move file) cs))
  | [] => by
    rw [visitCases, Case.bareAll, visitCases]
    exact .pure rfl
  | .mk test body :: rest => by
    rw [visitCases, Case.bareAll, visitCases]
    refine .step (moves_visitOption test) fun _ => ?_
    exact .step (moves_visitStmts body) fun _ => moves_visitCases rest

/-- A declaration. -/
theorem moves_visitDecl : ∀ d : Decl,
    Moves ρ file (visitDecl d) (visitDecl (d.bare (ρ.move file)))
  | .function name f => by
    rw [visitDecl, Decl.bare, visitDecl]
    refine .step (moves_visitFunction (.inr rfl) none false f) fun id => ?_
    refine .step (.vertex _) fun value => ?_
    exact .step (.resolve name) fun target => .edge value target
  | .class name c => by
    rw [visitDecl, Decl.bare, visitDecl]
    refine .step (moves_visitClass (.inr rfl) none c) fun constructor => ?_
    cases constructor with
    | none => exact .pure rfl
    | some constructor => exact .step (.resolve name) fun target => .edge constructor target
  | .vars _ declarators => by
    rw [visitDecl, Decl.bare, visitDecl]
    exact moves_visitDeclarators declarators
  | .using declarators => by
    rw [visitDecl, Decl.bare, visitDecl]
    exact moves_visitResources declarators
  | .inert => by
    rw [visitDecl, Decl.bare, visitDecl]
    exact .pure rfl

/-- The declarators of a declaration. -/
theorem moves_visitDeclarators : ∀ ds : List Declarator,
    Moves ρ file (visitDeclarators ds) (visitDeclarators (Declarator.bareAll (ρ.move file) ds))
  | [] => by
    rw [visitDeclarators, Declarator.bareAll, visitDeclarators]
    exact .pure rfl
  | .mk target none :: rest => by
    rw [visitDeclarators, Declarator.bareAll, Expr.bareOption, visitDeclarators]
    exact .step (moves_bind target none) fun _ => moves_visitDeclarators rest
  | .mk target (some init) :: rest => by
    have hrole : initRole (target.bare (ρ.move file)) = initRole target := by
      cases target <;> rfl
    have hne : initRole target ≠ .callee := by
      cases target <;> exact nofun
    rw [visitDeclarators_init, Declarator.bareAll, Expr.bareOption, visitDeclarators_init, hrole]
    refine .bind (moves_visit _ _ init (Role.suits_same hne)) fun v v' hv => ?_
    rw [hv.result]
    exact .step (moves_bind target _) fun _ => moves_visitDeclarators rest

/-- The declarators of a `using` declaration. -/
theorem moves_visitResources : ∀ ds : List Declarator,
    Moves ρ file (visitResources ds) (visitResources (Declarator.bareAll (ρ.move file) ds))
  | [] => by
    rw [visitResources, Declarator.bareAll, visitResources]
    exact .pure rfl
  | .mk target init :: rest => by
    rw [visitResources, Declarator.bareAll, visitResources]
    refine .step (moves_visitOption init) fun value => ?_
    exact .step (moves_bind target value) fun _ => moves_visitResources rest

end

/-! ## Items and files -/

/-- An item of a module declares the same without wrappers. -/
theorem moves_hoistItem (i : ModuleItem) :
    Moves ρ file (hoistItem i) (hoistItem (i.bare (ρ.move file))) := by
  cases i with
  | stmt s =>
    -- The names of every `var` come last, whatever the statement is.
    have hvars : Moves ρ file (declare .variable s.varNames)
        (declare .variable (s.bare (ρ.move file)).varNames) := by
      rw [Stmt.varNames_bare]
      exact .declare _ _
    cases s with
    | decl d => exact .step (.hoist d) fun _ => hvars
    | _ => exact hvars
  | importNames _ _ | importEquals _ _ => exact .declare _ _
  | exportDecl d => exact .hoist d
  | exportDefaultFunction name f =>
    cases name with
    | none => exact .pure rfl
    | some name => exact .declare _ _
  | exportDefaultClass name c =>
    cases name with
    | none => exact .pure rfl
    | some name => exact .declare _ _
  | exportDefaultExpr _ | exportAssignment _ | exportNames _ _ | inert => exact .pure rfl

namespace Moves

theorem importName (source : String) (s : ImportSpecifier) :
    Moves ρ file (importName source s) (Walk.importName source s) :=
  .step (.resolve _) fun _ => .addImport _ _ _

theorem exportName (name exported : String) :
    Moves ρ file (exportName name exported) (Walk.exportName name exported) :=
  .step (.resolve _) fun _ => .addExport _ _

theorem relayName (source : String) (s : ExportSpecifier) :
    Moves ρ file (relayName source s)
      (Walk.relayName source { s with span := ρ.move file s.span }) :=
  .step (.exprVertex _) fun _ => .step (.addImport _ _ _) fun _ => .addExport _ _

theorem exportValue (value : Option VertexId) :
    Moves ρ file (exportValue value) (Walk.exportValue value) := by
  cases value with
  | none => exact .pure rfl
  | some value => exact .addExport _ _

theorem bindDefault (name : Option String) (value : VertexId) :
    Moves ρ file (bindDefault name value) (Walk.bindDefault name value) := by
  cases name with
  | none => exact .pure rfl
  | some name => exact .step (.resolve _) fun _ => .edge _ _

end Moves

/-- An item of a module and its bare form. -/
theorem moves_visitItem (i : ModuleItem) :
    Moves ρ file (visitItem i) (visitItem (i.bare (ρ.move file))) := by
  cases i with
  | stmt s => exact moves_visitStmt s
  | importNames source specifiers => exact .forM (.importName source) specifiers
  | importEquals name source =>
    cases source with
    | none => exact .pure rfl
    | some source => exact .step (.resolve _) fun _ => .addImport _ _ _
  | exportDecl d =>
    rw [ModuleItem.bare, visitItem, visitItem, Decl.exportedNames_bare]
    exact .step (moves_visitDecl d) fun _ => .forM (fun name => .exportName name name) _
  | exportDefaultFunction name f =>
    refine .step (moves_visitFunction (.inr rfl) none false f) fun id => ?_
    refine .step (.vertex _) fun value => ?_
    exact .step (.bindDefault name value) fun _ => .addExport _ _
  | exportDefaultClass name c =>
    refine .step (moves_visitClass (.inr rfl) none c) fun constructor => ?_
    cases constructor with
    | none => exact .pure rfl
    | some constructor =>
      exact .step (.bindDefault name constructor) fun _ => .addExport _ _
  | exportDefaultExpr e =>
    refine .bind (moves_visit _ _ e (Role.suits_same (by simp))) fun v v' hv => ?_
    rw [hv.result]
    exact .exportValue _
  | exportAssignment e =>
    refine .bind (moves_visit .value .value e Role.suits_value) fun v v' hv => ?_
    rw [hv.result]
    exact .exportValue _
  | exportNames source specifiers =>
    cases source with
    | none => exact .forM_map (fun s => .exportName s.given s.exported) specifiers
    | some source => exact .forM_map (.relayName source) specifiers
  | inert => exact .pure rfl

/-- A module and its bare form. Its items are hoisted before they are walked, in both. -/
theorem moves_visitModule (m : Module) :
    Moves ρ file (visitModule m) (visitModule (m.bare (ρ.move file))) :=
  .step (.forM_map moves_hoistItem m.items) fun _ => .forM_map moves_visitItem m.items

end Walk

/-- Files of which one is the bare form of the other are added to states of which one is the other
moved. -/
theorem FlowState.Moved.addFile {s s' : FlowState} (h : s.Moved ρ s') (path : Path)
    (lines lines' : LineTable) (m : Module) :
    (s'.addFile path lines' (m.bare (ρ.move ⟨s.program.files.size⟩))).1 =
        (s.addFile path lines m).1 ∧
      (s.addFile path lines m).2.Moved ρ
        (s'.addFile path lines' (m.bare (ρ.move ⟨s.program.files.size⟩))).2 := by
  obtain ⟨hfile, hprogram⟩ := h.program.addFile path
  have hindex : s'.program.files.size = s.program.files.size :=
    congrArg FileId.index hfile
  have hplace : s'.opening lines' = { s.opening lines with lines := lines' } := by
    rw [FlowState.opening, FlowState.opening, h.scopes, hindex]
  have hopened : FileState.Moved ρ (s.opened path) (s'.opened path) := by
    refine ⟨⟨hprogram, h.graph, ?_, h.symbols⟩, ?_⟩
    · exact congrArg (fun scopes => (scopes.create .moduleScope ScopeTree.global).2) h.scopes
    · rw [FlowState.opened, FlowState.opened, hindex]
  have hfinal := Walk.moves_visitModule m (s.opening lines) lines' _ _ rfl hopened
  rw [FlowState.addFile_eq, FlowState.addFile_eq, hplace]
  exact ⟨hfinal.1.record, hfinal.1.flow⟩

end CallFlow
