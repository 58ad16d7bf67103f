import TreeWalker.Proofs.Scope.Resolution

/-!
# Around a scope

Seen from a scope, a variable is found in that scope or in one around it.  Giving it
another value changes this one scope, and no scope binds more names afterwards than
before.  A scope that is opened, or discarded, leaves all others as they are.

Among the scopes that bind a name, the one in which it is found is no older than any
other on the way outward.
-/

namespace TreeWalker.Scope

/-- The target is the scope of the observer, or one of those around it. -/
inductive Encloses (links : Links) (target : Handle) : Handle → Prop where
  | here : Encloses links target target
  | outward {observer parent : Handle} (live : (observer, some parent) ∈ links)
    (onward : Encloses links target parent) : Encloses links target observer

/-- A scope is inside one other scope at most. -/
theorem Ordered.parent_unique {links : Links} {next handle : Handle}
    {parent other : Option Handle} (ordered : Ordered links next)
    (member : (handle, parent) ∈ links) (also : (handle, other) ∈ links) : parent = other := by
  have apart : (links.map Prod.fst).Nodup :=
    List.pairwise_map.mpr (ordered.falling.imp fun older => Int.ne_of_gt older)
  exact (Prod.mk.inj (List.inj_on_of_nodup_map apart member also rfl)).2

namespace Encloses

variable {links : Links} {next target observer : Handle} {link : Handle × Option Handle}

theorem cons (encloses : Encloses links target observer) :
    Encloses (link :: links) target observer := by
  induction encloses with
  | here => exact .here
  | outward live _ inductionHypothesis =>
      exact .outward (List.mem_cons_of_mem link live) inductionHypothesis

/-- No newer scope is met on the way outward. -/
theorem of_cons (ordered : Ordered (link :: links) next)
    (encloses : Encloses (link :: links) target observer) (older : observer < link.1) :
    Encloses links target observer := by
  induction encloses with
  | here => exact .here
  | outward live _ inductionHypothesis =>
      have outward := ordered.outward _ live _ rfl
      rcases List.mem_cons.mp live with rfl | live
      · exact absurd older (Int.lt_irrefl _)
      · exact .outward live (inductionHypothesis (Int.lt_trans outward older))

/-- A scope is no newer than those it encloses. -/
theorem le (ordered : Ordered links next) (encloses : Encloses links target observer) :
    target ≤ observer := by
  induction encloses with
  | here => exact Int.le_refl _
  | outward live _ inductionHypothesis =>
      exact Int.le_trans inductionHypothesis (Int.le_of_lt (ordered.outward _ live _ rfl))

/-- What encloses a new scope, apart from itself, encloses the scope it was opened in. -/
theorem of_push {parent : Handle} (ordered : Ordered links next) (older : parent < next)
    (encloses : Encloses ((next, some parent) :: links) target next) (other : target ≠ next) :
    Encloses links target parent := by
  have deeper := ordered.push older
  cases encloses with
  | here => exact absurd rfl other
  | outward live onward =>
      cases deeper.parent_unique live List.mem_cons_self
      exact onward.of_cons deeper older

end Encloses

namespace Arena

variable {arena : Arena} {handle target observer parent floor : Handle} {name other : String}
  {value : Value} {entry : Entry}

/-- The names that are bound in a scope, if it is live. -/
def namesAt (arena : Arena) (handle : Handle) : Option (List String) :=
  (arena.entry? handle).map fun entry => entry.bindings.map Prod.fst

/-- The value of a name in a scope, if the scope is live and binds it. -/
def valueAt (arena : Arena) (handle : Handle) (name : String) : Option Value :=
  (arena.entry? handle).bind fun entry => entry.bindings.value? name

theorem mem_links_of_live (live : arena.entry? handle = some entry) :
    (handle, entry.parent) ∈ arena.links := by
  refine List.mem_map.mpr ⟨entry, List.mem_of_find?_eq_some live, ?_⟩
  rw [handle_of_live live]

/-- The next handle is not that of a live scope. -/
theorem entry?_next (ordered : Ordered arena.links arena.next) :
    arena.entry? arena.next = none := by
  cases live : arena.entry? arena.next with
  | none => rfl
  | some entry => exact absurd (ordered.below _ (mem_links_of_live live)) (Int.lt_irrefl _)

theorem lt_next_of_isLive (ordered : Ordered arena.links arena.next)
    (live : arena.isLive handle = true) : handle < arena.next := by
  obtain ⟨_, member⟩ := isLive_iff.mp live
  exact ordered.below _ member

/-! ## Where a variable is found -/

/-- A scope that is faced is on the way outward. -/
theorem Faces.encloses (faces : arena.Faces target name observer) :
    Encloses arena.links target observer := by
  induction faces with
  | here => exact .here
  | outward live _ isParent _ inductionHypothesis =>
      have member := mem_links_of_live live
      rw [isParent] at member
      exact .outward member inductionHypothesis

/-- A scope that is faced is no older than one on the way outward that binds the name. -/
theorem Faces.floor_le (faces : arena.Faces target name observer)
    (ordered : Ordered arena.links arena.next) (encloses : Encloses arena.links floor observer)
    (bound : (arena.valueAt floor name).isSome = true) : floor ≤ target := by
  induction faces with
  | here => exact encloses.le ordered
  | outward live unbound isParent _ inductionHypothesis =>
      cases encloses with
      | here =>
          rw [valueAt, live, Option.bind_some, unbound] at bound
          cases bound
      | outward member onward =>
          have same := ordered.parent_unique (mem_links_of_live live) member
          rw [isParent] at same
          cases same
          exact inductionHypothesis onward

/-! ## What a binding leaves alone -/

theorem entry?_bindAt_of_ne (others : handle ≠ target) :
    entry? (arena.bindAt target name value) handle = arena.entry? handle := by
  rw [entry?_bindAt]
  cases live : arena.entry? handle with
  | none => rfl
  | some entry =>
      have elsewhere : entry.handle ≠ target := by rwa [handle_of_live live]
      rw [Option.map_some, Entry.rebound, if_neg elsewhere]

/-- No scope binds more names when a bound variable is given another value. -/
theorem namesAt_bindAt (live : arena.entry? target = some entry)
    (bound : entry.bindings.binds name = true) :
    (arena.bindAt target name value).namesAt handle = arena.namesAt handle := by
  rw [namesAt, namesAt]
  by_cases here : handle = target
  · rw [here, entry?_bindAt, live, Option.map_some, Option.map_some, Option.map_some,
      Entry.rebound, if_pos (handle_of_live live), Bindings.map_fst_bind bound]
  · rw [entry?_bindAt_of_ne here]

theorem valueAt_bindAt_of_other (others : ¬ (other = name ∧ handle = target)) :
    (arena.bindAt target name value).valueAt handle other = arena.valueAt handle other := by
  rw [valueAt, valueAt, entry?_bindAt]
  cases live : arena.entry? handle with
  | none => rfl
  | some entry =>
      rw [Option.map_some, Option.bind_some, Option.bind_some]
      refine Entry.value?_rebound_of_other fun both => others ⟨both.1, ?_⟩
      rw [← both.2, handle_of_live live]

/-- No binding is taken away by another one. -/
theorem isSome_valueAt_bindAt (bound : (arena.valueAt handle other).isSome = true) :
    ((arena.bindAt target name value).valueAt handle other).isSome = true := by
  by_cases here : other = name ∧ handle = target
  · obtain ⟨rfl, rfl⟩ := here
    cases live : arena.entry? handle with
    | none =>
        rw [valueAt, live] at bound
        cases bound
    | some entry =>
        rw [valueAt, entry?_bindAt, live, Option.map_some, Option.bind_some,
          Entry.value?_rebound (handle_of_live live), Option.isSome_some]
  · rwa [valueAt_bindAt_of_other here]

/-! ## What opening and discarding a scope leaves alone -/

/-- The arena with a new scope inside a given one. -/
def opened (arena : Arena) (parent : Handle) : Arena :=
  ⟨⟨arena.next, some parent, []⟩ :: arena.scopes, arena.next + 1⟩

/-- The arena without a scope. -/
def without (arena : Arena) (handle : Handle) : Arena :=
  { arena with scopes := arena.scopes.filter (·.handle != handle) }

theorem nest_of_live (live : arena.isLive parent = true) :
    arena.nest parent = .ok (arena.next, arena.opened parent) := by
  rw [nest, if_pos live]
  rfl

theorem discard_of_live (live : arena.entry? handle = some entry)
    (inner : handle ≠ globalHandle) :
    arena.discard handle = .ok (entry.parent, arena.without handle) := by
  rw [discard, if_neg inner, live]
  rfl

theorem entry?_opened_of_ne (others : handle ≠ arena.next) :
    entry? (arena.opened parent) handle = arena.entry? handle :=
  List.find?_cons_of_neg (by simpa using Ne.symm others)

theorem entry?_without : entry? (arena.without handle) handle = none := by
  refine List.find?_eq_none.mpr fun entry member => ?_
  simpa using (List.mem_filter.mp member).2

theorem entry?_without_of_ne (others : handle ≠ target) :
    entry? (arena.without target) handle = arena.entry? handle := by
  unfold entry? without
  rw [List.find?_filter]
  refine congrArg (List.find? · arena.scopes) (funext fun entry => ?_)
  by_cases here : entry.handle = handle
  · simp [here, others]
  · simp [here]

end Arena

end TreeWalker.Scope
