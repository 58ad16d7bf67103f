import TreeWalker.Value

/-!
# Bindings

The variables bound in one scope, each once, in the order in which they were
first bound.
-/

namespace TreeWalker.Scope

/-- Names with their values. -/
abbrev Bindings :=
  List (String × Value)

namespace Bindings

/-- The value of a name, if it is bound. -/
def value? (bindings : Bindings) (name : String) : Option Value :=
  bindings.lookup name

/-- Whether a name is bound. -/
def binds (bindings : Bindings) (name : String) : Bool :=
  (bindings.value? name).isSome

/-- Bind a name, or give a bound name another value. -/
def bind (name : String) (value : Value) : Bindings → Bindings
  | [] => [(name, value)]
  | (other, old) :: bindings =>
    if other = name then (name, value) :: bindings
    else (other, old) :: bind name value bindings

@[simp]
theorem value?_nil (name : String) : value? [] name = none :=
  rfl

theorem value?_cons (name other : String) (old : Value) (bindings : Bindings) :
    value? ((other, old) :: bindings) name =
      if other = name then some old else value? bindings name := by
  by_cases same : other = name
  · simp [value?, same]
  · simp [value?, List.lookup_cons, same, beq_eq_false_iff_ne.mpr (Ne.symm same)]

/-- A name that was just bound has its new value, and the others keep theirs. -/
theorem value?_bind (name other : String) (value : Value) (bindings : Bindings) :
    value? (bind name value bindings) other =
      if name = other then some value else value? bindings other := by
  induction bindings with
  | nil => simp [bind, value?_cons]
  | cons binding bindings inductionHypothesis =>
      obtain ⟨bound, old⟩ := binding
      by_cases same : bound = name
      · subst same
        simp [bind, value?_cons]
        split <;> rfl
      · simp only [bind, same, if_false, value?_cons, inductionHypothesis]
        by_cases here : bound = other
        · subst here
          simp [Ne.symm same]
        · simp [here]

end Bindings

end TreeWalker.Scope
