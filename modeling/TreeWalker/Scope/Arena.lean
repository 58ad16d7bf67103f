import TreeWalker.Scope.Bindings

/-!
# Scopes

All live scopes are kept side by side in an arena and known by handles.  Each
scope but the global one names the scope that encloses it.  Handles are given
out once and in increasing order, so a scope encloses only scopes that are newer
than itself.  The arena lists its scopes from the newest to the oldest, and a
walk outward from a scope only ever moves forward in that list.

Any scope but the global one may be discarded, also one that others name as
their enclosing scope.  A walk that comes to a discarded scope fails.
-/

namespace TreeWalker.Scope

/-- Name of a scope in an arena. -/
abbrev Handle :=
  Int

/-- Handle of the global scope. -/
def globalHandle : Handle :=
  0

/-- A scope: its handle, the handle of the scope around it and its bindings. -/
structure Entry where
  handle : Handle
  parent : Option Handle
  bindings : Bindings
deriving DecidableEq

/-- The live scopes, from the newest to the oldest, and the handle that will be
given out next. -/
structure Arena where
  scopes : List Entry
  next : Handle
deriving DecidableEq

/-- Why an operation on scopes fails. -/
inductive Fault where
  | dangling (handle : Handle)
  | noEnclosing (handle : Handle)
  | globalScope
deriving DecidableEq, Repr

namespace Fault

/-- Wording of a fault; a scope that is not live is shown by its handle. -/
def message : Fault → String
  | dangling handle => toString handle
  | noEnclosing handle => "No live scope with handle " ++ toString handle
  | globalScope => "The global scope cannot be popped"

end Fault

/-- Walk outward from the scope with the given handle until a visit gives an
answer.  There is none if the walk passes the outermost scope. -/
def climb {α : Type} (visit : Entry → Option α) : List Entry → Handle → Except Fault (Option α)
  | [], handle => .error (.dangling handle)
  | entry :: older, handle =>
    if entry.handle = handle then
      match visit entry with
      | some answer => .ok (some answer)
      | none =>
        match entry.parent with
        | some parent => climb visit older parent
        | none => .ok none
    else
      climb visit older handle

/-- Number of scopes around the scope with the given handle. -/
def climbDepth : List Entry → Handle → Except Fault Nat
  | [], handle => .error (.dangling handle)
  | entry :: older, handle =>
    if entry.handle = handle then
      match entry.parent with
      | some parent => (climbDepth older parent).map (· + 1)
      | none => .ok 0
    else
      climbDepth older handle

namespace Arena

/-- An arena that holds the global scope only. -/
def initial : Arena :=
  ⟨[⟨globalHandle, none, []⟩], globalHandle + 1⟩

/-- The live scope with a given handle. -/
def entry? (arena : Arena) (handle : Handle) : Option Entry :=
  arena.scopes.find? fun entry => entry.handle == handle

/-- Whether a handle is that of a live scope. -/
def isLive (arena : Arena) (handle : Handle) : Bool :=
  (arena.entry? handle).isSome

/-- Open a scope inside another one.  The result is its handle. -/
def nest (arena : Arena) (parent : Handle) : Except Fault (Handle × Arena) :=
  if arena.isLive parent then
    .ok (arena.next, ⟨⟨arena.next, some parent, []⟩ :: arena.scopes, arena.next + 1⟩)
  else
    .error (.noEnclosing parent)

/-- Discard a scope.  The result is the handle of the scope around it. -/
def discard (arena : Arena) (handle : Handle) : Except Fault (Option Handle × Arena) :=
  if handle = globalHandle then
    .error .globalScope
  else
    match arena.entry? handle with
    | none => .error (.dangling handle)
    | some entry =>
      .ok (entry.parent, { arena with scopes := arena.scopes.filter (·.handle != handle) })

/-- Number of scopes around a scope. -/
def depth (arena : Arena) (handle : Handle) : Except Fault Nat :=
  climbDepth arena.scopes handle

/-- Bind a name in the scope with the given handle. -/
def bindAt (arena : Arena) (handle : Handle) (name : String) (value : Value) : Arena :=
  { arena with
    scopes := arena.scopes.map fun entry =>
      if entry.handle = handle then { entry with bindings := entry.bindings.bind name value }
      else entry }

/-- Declare a variable in a scope. -/
def declare (arena : Arena) (handle : Handle) (name : String) (value : Value) :
    Except Fault Arena :=
  if arena.isLive handle then .ok (arena.bindAt handle name value) else .error (.dangling handle)

/-- The innermost scope, from the given one outward, that binds a name. -/
def resolve (arena : Arena) (handle : Handle) (name : String) : Except Fault (Option Handle) :=
  climb (fun entry => if entry.bindings.binds name then some entry.handle else none)
    arena.scopes handle

/-- Value of a variable as seen from a scope, if it is declared. -/
def lookup (arena : Arena) (handle : Handle) (name : String) : Except Fault (Option Value) :=
  climb (fun entry => entry.bindings.value? name) arena.scopes handle

/-- Give a variable another value in the innermost scope that binds it.  There
is no arena if none does. -/
def update (arena : Arena) (handle : Handle) (name : String) (value : Value) :
    Except Fault (Option Arena) := do
  let found ← arena.resolve handle name
  return found.map fun scope => arena.bindAt scope name value

theorem update_of_resolve {arena : Arena} {handle : Handle} {name : String}
    {found : Option Handle} (resolves : arena.resolve handle name = .ok found) (value : Value) :
    arena.update handle name value =
      .ok (found.map fun scope => arena.bindAt scope name value) := by
  rw [update, resolves]
  rfl

/-- A variable is given another value where it is found. -/
theorem update_eq_ok_iff {arena after : Arena} {handle : Handle} {name : String} {value : Value} :
    arena.update handle name value = .ok (some after) ↔
      ∃ scope, arena.resolve handle name = .ok (some scope) ∧
        after = arena.bindAt scope name value := by
  cases resolves : arena.resolve handle name with
  | error fault =>
      rw [update, resolves]
      exact ⟨nofun, fun ⟨_, fails, _⟩ => nomatch fails⟩
  | ok found =>
      rw [update_of_resolve resolves]
      cases found with
      | none => exact ⟨nofun, fun ⟨_, fails, _⟩ => nomatch fails⟩
      | some scope =>
          constructor
          · intro updates
            cases updates
            exact ⟨scope, rfl, rfl⟩
          · rintro ⟨_, ⟨⟩, rfl⟩
            rfl

/-- Bindings of the global scope. -/
def globals (arena : Arena) : Bindings :=
  match arena.entry? globalHandle with
  | some entry => entry.bindings
  | none => []

end Arena

end TreeWalker.Scope
