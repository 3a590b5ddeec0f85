import CallFlow.Proofs.Registration.Sites
import CallFlow.Proofs.Syntax.Pieces

/-!
# Callbacks

A callback is a function that stands among the arguments of a call. It may be in parentheses, have a
type, be awaited, be the last of a sequence or be stored by an assignment on its way there. All of
this can be read off the arguments, without walking them.
-/

namespace CallFlow.Syntax

mutual

/-- Whether an expression evaluates to a function that is written there. A class is its constructor.
An argument that is spread counts as what is spread. -/
def Expr.isCallback : Expr → Bool
  | .function _ _ | .arrow _ => true
  | .class _ body => body.hasConstructor
  | .assign op _ value => op ≠ .arithmetic && value.isCallback
  | .sequence exprs => Expr.isCallbackLast exprs
  | .paren inner | .await inner | .typed inner | .spread inner => inner.isCallback
  | .ident _ | .this | .string _ | .literal | .call _ _ _ _ | .construct _ _ _ | .tagged _ _ _
  | .member _ _ _ | .superMember _ | .logical _ _ _ | .conditional _ _ _ _ | .array _
  | .untracked _ | .object _ | .element _ _ => false

/-- Whether the last of several expressions is a callback. -/
def Expr.isCallbackLast : List Expr → Bool
  | [] => false
  | [e] => e.isCallback
  | _ :: rest => Expr.isCallbackLast rest

end

mutual

/-- The value of a callback has a vertex, wherever it is. -/
theorem Expr.yields_of_isCallback (receiver : Bool) :
    ∀ e : Expr, e.isCallback = true → e.yields receiver = true
  | .function _ _, _ | .arrow _, _ => by rw [yields]
  | .class _ body, h => by
    rw [isCallback] at h
    rwa [yields]
  | .assign op _ value, h => by
    rw [isCallback, Bool.and_eq_true] at h
    rw [yields, h.1, value.yields_of_isCallback receiver h.2]
    rfl
  | .sequence exprs, h => by
    rw [isCallback] at h
    rw [yields, Expr.yieldsLast_of_isCallbackLast receiver exprs h]
  | .paren inner, h | .await inner, h | .typed inner, h | .spread inner, h => by
    rw [isCallback] at h
    rw [yields, inner.yields_of_isCallback receiver h]

/-- A callback has a value, wherever it stands. -/
theorem Expr.yieldsLast_of_isCallbackLast (receiver : Bool) :
    ∀ es : List Expr, Expr.isCallbackLast es = true → Expr.yieldsLast receiver es = true
  | [e], h => by
    rw [isCallbackLast] at h
    rw [yieldsLast, e.yields_of_isCallback receiver h]
  | _ :: e :: rest, h => by
    rw [isCallbackLast] at h
    · rw [yieldsLast, Expr.yieldsLast_of_isCallbackLast receiver (e :: rest) h]
      simp
    · simp

end

/-- The argument goes into this slot. -/
def CallShape.Passes (shape : CallShape) (slot : Nat) (a : Expr) : Prop :=
  ∃ i : Nat, shape.args[i]? = some a ∧ slot = shape.first + i

/-- The expression is a call with a callback in this slot. -/
def Expr.PassesCallback (e : Expr) (slot : Nat) : Prop :=
  ∃ shape a, e.callShape? = some shape ∧ shape.Passes slot a ∧ a.isCallback = true

end CallFlow.Syntax
