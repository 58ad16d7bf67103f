import TreeWalker.Proofs.Scope.Order

/-!
# Scopes under other names

All variables of an arena are given other names, different ones different names.  Every
operation on the arena then does under the new names what it does under the old ones: a walk
outward compares names and never looks into them.
-/

namespace TreeWalker.Scope

variable (rename : String → String)

/-- The bindings with all names changed. -/
def Bindings.renamed (bindings : Bindings) : Bindings :=
  bindings.map fun binding => (rename binding.1, binding.2)

/-- The scope with the names of all variables changed. -/
def Entry.renamed (entry : Entry) : Entry :=
  { entry with bindings := entry.bindings.renamed rename }

/-- The arena with the names of all variables changed. -/
def Arena.renamed (arena : Arena) : Arena :=
  { arena with scopes := arena.scopes.map (Entry.renamed rename) }

variable {rename}

/-! ## Bindings -/

namespace Bindings

variable (injective : Function.Injective rename) (name : String) (bindings : Bindings)

include injective

theorem value?_renamed :
    (renamed rename bindings).value? (rename name) = bindings.value? name := by
  induction bindings with
  | nil => rfl
  | cons binding bindings inductionHypothesis =>
      obtain ⟨other, old⟩ := binding
      rw [value?_cons, ← inductionHypothesis]
      change value? ((rename other, old) :: renamed rename bindings) (rename name) = _
      simp only [value?_cons, injective.eq_iff]

theorem binds_renamed :
    (renamed rename bindings).binds (rename name) = bindings.binds name := by
  rw [binds, value?_renamed injective, binds]

theorem bind_renamed (value : Value) :
    (renamed rename bindings).bind (rename name) value =
      renamed rename (bindings.bind name value) := by
  induction bindings with
  | nil => rfl
  | cons binding bindings inductionHypothesis =>
      obtain ⟨other, old⟩ := binding
      change bind (rename name) value ((rename other, old) :: renamed rename bindings) = _
      rw [bind, bind, inductionHypothesis]
      simp only [injective.eq_iff]
      split <;> rfl

end Bindings

/-! ## Walks -/

/-- A walk that sees the same in every scope ends in the same way. -/
theorem climb_renamed {α : Type} {visit look : Entry → Option α}
    (same : ∀ entry, look (entry.renamed rename) = visit entry) (scopes : List Entry)
    (handle : Handle) :
    climb look (scopes.map (Entry.renamed rename)) handle = climb visit scopes handle := by
  induction scopes generalizing handle with
  | nil => rfl
  | cons entry older inductionHypothesis =>
      rw [List.map_cons, climb, climb, same entry]
      simp only [inductionHypothesis]
      rfl

theorem climbDepth_renamed (scopes : List Entry) (handle : Handle) :
    climbDepth (scopes.map (Entry.renamed rename)) handle = climbDepth scopes handle := by
  induction scopes generalizing handle with
  | nil => rfl
  | cons entry older inductionHypothesis =>
      rw [List.map_cons, climbDepth, climbDepth]
      simp only [inductionHypothesis]
      rfl

/-! ## Operations -/

namespace Arena

variable (arena : Arena) (handle : Handle) (name : String) (value : Value)

theorem entry?_renamed :
    entry? (arena.renamed rename) handle = (arena.entry? handle).map (Entry.renamed rename) :=
  List.find?_map

theorem isLive_renamed : isLive (arena.renamed rename) handle = arena.isLive handle := by
  rw [isLive, entry?_renamed, Option.isSome_map, isLive]

theorem depth_renamed : depth (arena.renamed rename) handle = arena.depth handle :=
  climbDepth_renamed arena.scopes handle

theorem nest_renamed :
    nest (arena.renamed rename) handle =
      (arena.nest handle).map fun opened => (opened.1, opened.2.renamed rename) := by
  rw [nest, nest, isLive_renamed]
  split <;> rfl

theorem discard_renamed :
    discard (arena.renamed rename) handle =
      (arena.discard handle).map fun discarded => (discarded.1, discarded.2.renamed rename) := by
  have others : (arena.scopes.map (Entry.renamed rename)).filter (·.handle != handle) =
      (arena.scopes.filter (·.handle != handle)).map (Entry.renamed rename) :=
    List.filter_map
  rw [discard, discard, entry?_renamed]
  split
  · rfl
  · cases arena.entry? handle with
    | none => rfl
    | some entry =>
        change Except.ok (_, (⟨_, _⟩ : Arena)) = Except.ok (_, ⟨_, _⟩)
        rw [← others]
        rfl

section Names

variable (injective : Function.Injective rename)

include injective

theorem bindAt_renamed :
    bindAt (arena.renamed rename) handle (rename name) value =
      (arena.bindAt handle name value).renamed rename := by
  unfold bindAt renamed
  simp only [List.map_map, Arena.mk.injEq, and_true]
  refine List.map_congr_left fun entry _ => ?_
  rw [Function.comp_apply, Function.comp_apply]
  by_cases here : entry.handle = handle
  · rw [if_pos here]
    simp [Entry.renamed, here, Bindings.bind_renamed injective]
  · rw [if_neg here]
    simp [Entry.renamed, here]

theorem declare_renamed :
    declare (arena.renamed rename) handle (rename name) value =
      (arena.declare handle name value).map (renamed rename) := by
  rw [declare, declare, isLive_renamed, bindAt_renamed arena handle name value injective]
  split <;> rfl

theorem lookup_renamed :
    lookup (arena.renamed rename) handle (rename name) = arena.lookup handle name :=
  climb_renamed (fun entry => entry.bindings.value?_renamed injective name) arena.scopes handle

theorem resolve_renamed :
    resolve (arena.renamed rename) handle (rename name) = arena.resolve handle name := by
  refine climb_renamed (fun entry => ?_) arena.scopes handle
  rw [Entry.renamed, Bindings.binds_renamed injective]

theorem update_renamed :
    update (arena.renamed rename) handle (rename name) value =
      (arena.update handle name value).map (Option.map (renamed rename)) := by
  cases resolves : arena.resolve handle name with
  | error fault =>
      rw [update, resolve_renamed arena handle name injective, update, resolves]
      rfl
  | ok found =>
      have resolves' := resolve_renamed arena handle name injective
      rw [resolves] at resolves'
      rw [update_of_resolve resolves', update_of_resolve resolves]
      cases found with
      | none => rfl
      | some target =>
          exact congrArg (fun arena => Except.ok (some arena))
            (bindAt_renamed arena target name value injective)

end Names

/-- The global variables are those from before, under their new names. -/
theorem globals_renamed : globals (arena.renamed rename) = arena.globals.renamed rename := by
  rw [globals, globals, entry?_renamed]
  cases arena.entry? globalHandle <;> rfl

end Arena

end TreeWalker.Scope
