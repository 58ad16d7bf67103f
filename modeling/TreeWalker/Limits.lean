import TreeWalker.Value

/-!
# Limits

A walk over a program goes down into what is nested in it, and gives up where that is
nested too deeply.  How deep it may go depends on the walk and on the system that it runs
on.
-/

namespace TreeWalker

/-- Levels that the walks over a program may go down. -/
structure Limits where
  /-- Levels for the parser, of rules of the grammar inside one another. -/
  parsing : Nat
  /-- Levels for a run, of statements and expressions inside one another. -/
  running : Nat
  /-- Levels for the outline of a statement. -/
  outlining : Nat
  /-- Levels for an expression in reverse Polish order. -/
  polishing : Nat
  /-- Levels of an outline from an operation down to its operands. -/
  stride : Nat
  /-- Levels that the text of a value takes where a tree is shown. -/
  toll : Value → Nat

namespace Limits

/-- As many levels for each walk, one of them for each node of a tree. -/
def uniform (levels : Nat) : Limits :=
  ⟨levels, levels, levels, levels, 1, fun _ => 0⟩

/-- Round numbers for a stack of a thousand frames: a hundred blocks inside one another can be
parsed, and two hundred parentheses cannot. -/
def practical : Limits :=
  ⟨180, 480, 980, 980, 3, fun _ => 2⟩

end Limits

end TreeWalker
