import TreeWalker.Proofs.Scope.History

/-!
# Who sees a binding

A variable is looked up by a walk outward to the nearest scope that binds it.  An
observer faces a scope if its walk comes there before it comes to a binding of the
name.

A binding that is made in a scope is what all observers find that face this scope, and
it changes nothing for the others, nor for any other name.  A variable is given
another value in the scope in which it is found, so that those who face this scope are
those who find the variable there, and no name is added to any scope.
-/

namespace TreeWalker.Scope

/-! ## Binding a name in a scope -/

/-- The scope after a name was bound in the target. -/
def Entry.rebound (target : Handle) (name : String) (value : Value) (entry : Entry) : Entry :=
  if entry.handle = target then { entry with bindings := entry.bindings.bind name value }
  else entry

namespace Entry

variable {target : Handle} {name other : String} {value : Value} {entry : Entry}

@[simp]
theorem rebound_handle : (entry.rebound target name value).handle = entry.handle := by
  unfold rebound
  split <;> rfl

@[simp]
theorem rebound_parent : (entry.rebound target name value).parent = entry.parent := by
  unfold rebound
  split <;> rfl

/-- The name has the new value in the target. -/
theorem value?_rebound (here : entry.handle = target) :
    (entry.rebound target name value).bindings.value? name = some value := by
  rw [rebound, if_pos here, Bindings.value?_bind, if_pos rfl]

/-- Any other binding is left alone. -/
theorem value?_rebound_of_other (elsewhere : ¬ (other = name ∧ entry.handle = target)) :
    (entry.rebound target name value).bindings.value? other = entry.bindings.value? other := by
  unfold rebound
  split
  · next here =>
      have different : name ≠ other := fun same => elsewhere ⟨same.symm, here⟩
      rw [Bindings.value?_bind, if_neg different]
  · rfl

end Entry

/-- A name that is bound already is bound in its place. -/
theorem Bindings.map_fst_bind {bindings : Bindings} {name : String}
    (bound : bindings.binds name = true) (value : Value) :
    (bindings.bind name value).map Prod.fst = bindings.map Prod.fst := by
  induction bindings with
  | nil => cases bound
  | cons binding bindings inductionHypothesis =>
      obtain ⟨other, old⟩ := binding
      rw [Bindings.bind]
      split
      · next same => simp [same]
      · next different =>
          rw [Bindings.binds, Bindings.value?_cons, if_neg different] at bound
          simp [inductionHypothesis bound]

/-! ## Who sees a binding -/

namespace Arena

/-- The live scopes with the names that each of them binds. -/
def names (arena : Arena) : List (Handle × List String) :=
  arena.scopes.map fun entry => (entry.handle, entry.bindings.map Prod.fst)

/-- The walk outward from an observer comes to the target, and to no nearer scope that
binds the name. -/
inductive Faces (arena : Arena) (target : Handle) (name : String) : Handle → Prop where
  | here : Faces arena target name target
  | outward {observer parent : Handle} {entry : Entry}
    (live : arena.entry? observer = some entry)
    (unbound : entry.bindings.value? name = none) (isParent : entry.parent = some parent)
    (onward : Faces arena target name parent) : Faces arena target name observer

/-- What giving a variable another value changes: those who find it in the same scope
find the new value, and everything else is as before. -/
structure Reassigned (arena : Arena) (handle : Handle) (name : String) (value : Value)
    (after : Arena) : Prop where
  shared : ∀ observer, arena.resolve observer name = arena.resolve handle name →
    after.lookup observer name = .ok (some value)
  others : ∀ observer other,
    ¬ (other = name ∧ arena.resolve observer name = arena.resolve handle name) →
      after.lookup observer other = arena.lookup observer other
  names : after.names = arena.names

/-- What declaring a variable changes: those who face its scope find the new value, and
all others find what they found before. -/
structure Declared (arena : Arena) (handle : Handle) (name : String) (value : Value)
    (after : Arena) : Prop where
  facing : ∀ observer, arena.Faces handle name observer →
    after.lookup observer name = .ok (some value)
  others : ∀ observer other, ¬ (other = name ∧ arena.Faces handle name observer) →
    after.lookup observer other = arena.lookup observer other

/-! ## One step outward -/

section Step

variable {α : Type} {arena : Arena} {visit : Entry → Option α} {handle parent : Handle}
  {entry : Entry}

/-- In an arena in order there is one way outward, and a walk takes it. -/
theorem climb_eq_of_trail (ordered : Ordered arena.links arena.next) {way : Way}
    (trail : Trail arena.scopes handle way) :
    climb visit arena.scopes handle = way.find visit := by
  rw [climb_eq_find, trail.unique (trail_wayFrom ordered handle)]

theorem climb_dead (ordered : Ordered arena.links arena.next)
    (dead : arena.entry? handle = none) :
    climb visit arena.scopes handle = .error (.dangling handle) :=
  climb_eq_of_trail ordered (.broken dead)

theorem climb_outermost (ordered : Ordered arena.links arena.next)
    (live : arena.entry? handle = some entry) (unseen : visit entry = none)
    (noParent : entry.parent = none) : climb visit arena.scopes handle = .ok none := by
  rw [climb_eq_of_trail ordered (.outermost live noParent)]
  simp [Way.find, unseen]

theorem climb_outward (ordered : Ordered arena.links arena.next)
    (live : arena.entry? handle = some entry) (unseen : visit entry = none)
    (isParent : entry.parent = some parent) :
    climb visit arena.scopes handle = climb visit arena.scopes parent := by
  have onward := trail_wayFrom ordered parent
  rw [climb_eq_of_trail ordered (.outward live isParent onward),
    climb_eq_of_trail ordered onward]
  simp [Way.find, Way.past, unseen]

theorem climb_seen (ordered : Ordered arena.links arena.next)
    (live : arena.entry? handle = some entry) {answer : α} (seen : visit entry = some answer) :
    climb visit arena.scopes handle = .ok (some answer) := by
  cases parent : entry.parent with
  | none =>
      rw [climb_eq_of_trail ordered (.outermost live parent)]
      simp [Way.find, seen]
  | some outer =>
      rw [climb_eq_of_trail ordered (.outward live parent (trail_wayFrom ordered outer))]
      simp [Way.find, Way.past, seen]

end Step

/-- A property of handles holds of all of them if it holds of those that are not live,
and passes from the scope around a live scope to that scope. -/
theorem outward_induction {arena : Arena} (ordered : Ordered arena.links arena.next)
    {motive : Handle → Prop} (dead : ∀ handle, arena.entry? handle = none → motive handle)
    (live : ∀ handle entry, arena.entry? handle = some entry →
      (∀ parent, entry.parent = some parent → motive parent) → motive handle)
    (handle : Handle) : motive handle := by
  have trail := trail_wayFrom ordered handle
  generalize wayFrom arena.scopes handle = way at trail
  induction trail with
  | broken isDead => exact dead _ isDead
  | outermost isLive noParent =>
      refine live _ _ isLive fun parent isParent => ?_
      rw [noParent] at isParent
      cases isParent
  | outward isLive isParent _ inductionHypothesis =>
      refine live _ _ isLive fun parent alsoParent => ?_
      rw [isParent] at alsoParent
      cases alsoParent
      exact inductionHypothesis

/-! ## Binding a name -/

variable {arena after : Arena} {handle target observer : Handle} {name other : String}
  {value : Value} {entry : Entry}

theorem handle_of_live (live : arena.entry? handle = some entry) : entry.handle = handle := by
  simpa using List.find?_some live

theorem entry?_bindAt (arena : Arena) (target : Handle) (name : String) (value : Value)
    (handle : Handle) :
    entry? (arena.bindAt target name value) handle =
      (arena.entry? handle).map (Entry.rebound target name value) := by
  have sameHandle : (fun entry : Entry => entry.handle == handle) ∘
      Entry.rebound target name value = fun entry => entry.handle == handle :=
    funext fun entry => by rw [Function.comp_apply, Entry.rebound_handle]
  change List.find? _ (arena.scopes.map (Entry.rebound target name value)) = _
  rw [List.find?_map, sameHandle]
  rfl

theorem ordered_bindAt (ordered : Ordered arena.links arena.next) (target : Handle)
    (name : String) (value : Value) :
    Ordered (arena.bindAt target name value).links (arena.bindAt target name value).next := by
  rw [links_bindAt]
  exact ordered

/-- All who face the scope find the new value. -/
theorem lookup_bindAt_of_faces (ordered : Ordered arena.links arena.next)
    (live : arena.isLive target = true) (faces : arena.Faces target name observer) :
    (arena.bindAt target name value).lookup observer name = .ok (some value) := by
  have ordered' := ordered_bindAt ordered target name value
  induction faces with
  | here =>
      obtain ⟨entry, live⟩ := Option.isSome_iff_exists.mp live
      refine climb_seen ordered' ?_ (Entry.value?_rebound (handle_of_live live))
      rw [entry?_bindAt, live, Option.map_some]
  | @outward observer parent entry live' unbound isParent _ inductionHypothesis =>
      have rebound : entry? (arena.bindAt target name value) observer =
          some (entry.rebound target name value) := by
        rw [entry?_bindAt, live', Option.map_some]
      by_cases here : entry.handle = target
      · exact climb_seen ordered' rebound (Entry.value?_rebound here)
      · have unseen : (entry.rebound target name value).bindings.value? name = none := by
          rw [Entry.value?_rebound_of_other fun both => here both.2, unbound]
        rw [← inductionHypothesis]
        exact climb_outward ordered' rebound unseen (Entry.rebound_parent.trans isParent)

/-- One who does not face the scope finds its bindings as they were. -/
theorem value?_rebound_of_not_faces (live : arena.entry? observer = some entry)
    (others : ¬ (other = name ∧ arena.Faces target name observer)) (value : Value) :
    (entry.rebound target name value).bindings.value? other = entry.bindings.value? other := by
  refine Entry.value?_rebound_of_other fun both => others ⟨both.1, ?_⟩
  have here : observer = target := (handle_of_live live).symm.trans both.2
  rw [here]
  exact .here

/-- All others, and all who look for another name, find what they found before. -/
theorem lookup_bindAt_of_not_faces (ordered : Ordered arena.links arena.next)
    (others : ¬ (other = name ∧ arena.Faces target name observer)) :
    (arena.bindAt target name value).lookup observer other = arena.lookup observer other := by
  have ordered' := ordered_bindAt ordered target name value
  have rebound {handle : Handle} {entry : Entry} (live : arena.entry? handle = some entry) :
      entry? (arena.bindAt target name value) handle =
        some (entry.rebound target name value) := by
    rw [entry?_bindAt, live, Option.map_some]
  induction observer using outward_induction ordered with
  | dead observer dead =>
      have dead' : entry? (arena.bindAt target name value) observer = none := by
        rw [entry?_bindAt, dead, Option.map_none]
      exact (climb_dead ordered' dead').trans (climb_dead ordered dead).symm
  | live observer entry live inductionHypothesis =>
      have same := value?_rebound_of_not_faces live others value
      cases seen : entry.bindings.value? other with
      | some found =>
          have now : (arena.bindAt target name value).lookup observer other =
              .ok (some found) := climb_seen ordered' (rebound live) (same.trans seen)
          have before : arena.lookup observer other = .ok (some found) :=
            climb_seen ordered live seen
          rw [now, before]
      | none =>
          cases isParent : entry.parent with
          | none =>
              have now : (arena.bindAt target name value).lookup observer other = .ok none :=
                climb_outermost ordered' (rebound live) (same.trans seen)
                  (Entry.rebound_parent.trans isParent)
              have before : arena.lookup observer other = .ok none :=
                climb_outermost ordered live seen isParent
              rw [now, before]
          | some parent =>
              have now : (arena.bindAt target name value).lookup observer other =
                  (arena.bindAt target name value).lookup parent other :=
                climb_outward ordered' (rebound live) (same.trans seen)
                  (Entry.rebound_parent.trans isParent)
              have before : arena.lookup observer other = arena.lookup parent other :=
                climb_outward ordered live seen isParent
              rw [now, before]
              refine inductionHypothesis parent isParent ?_
              rintro ⟨rfl, faces⟩
              exact others ⟨rfl, .outward live seen isParent faces⟩

/-! ## Finding a name -/

theorem resolver_of_unbound (unbound : entry.bindings.value? name = none) :
    resolver name entry = none := by
  rw [resolver, Bindings.binds, unbound, Option.isSome_none]
  rfl

theorem resolver_of_bound (bound : entry.bindings.binds name = true) :
    resolver name entry = some entry.handle := by
  rw [resolver, if_pos bound]

/-- The scope in which an observer finds a name binds it, and the observer faces that
scope. -/
theorem faces_of_resolve (ordered : Ordered arena.links arena.next)
    (resolves : arena.resolve observer name = .ok (some target)) :
    arena.Faces target name observer ∧
      ∃ entry, arena.entry? target = some entry ∧ entry.bindings.binds name = true := by
  induction observer using outward_induction ordered with
  | dead observer dead =>
      have fails : arena.resolve observer name = .error (.dangling observer) :=
        climb_dead ordered dead
      rw [fails] at resolves
      cases resolves
  | live observer entry live inductionHypothesis =>
      cases seen : entry.bindings.value? name with
      | some value =>
          have bound : entry.bindings.binds name = true := by
            rw [Bindings.binds, seen, Option.isSome_some]
          have found : arena.resolve observer name = .ok (some entry.handle) :=
            climb_seen ordered live (resolver_of_bound bound)
          rw [found, handle_of_live live] at resolves
          cases resolves
          exact ⟨.here, entry, live, bound⟩
      | none =>
          have unseen := resolver_of_unbound seen
          cases isParent : entry.parent with
          | none =>
              have found : arena.resolve observer name = .ok none :=
                climb_outermost ordered live unseen isParent
              rw [found] at resolves
              cases resolves
          | some parent =>
              have onward : arena.resolve observer name = arena.resolve parent name :=
                climb_outward ordered live unseen isParent
              rw [onward] at resolves
              obtain ⟨faces, bound⟩ := inductionHypothesis parent isParent resolves
              exact ⟨.outward live seen isParent faces, bound⟩

/-- All who face a scope that binds the name find it there. -/
theorem resolve_of_faces (ordered : Ordered arena.links arena.next)
    (live : arena.entry? target = some entry) (bound : entry.bindings.binds name = true)
    (faces : arena.Faces target name observer) :
    arena.resolve observer name = .ok (some target) := by
  induction faces with
  | here =>
      have found : arena.resolve target name = .ok (some entry.handle) :=
        climb_seen ordered live (resolver_of_bound bound)
      rwa [handle_of_live live] at found
  | outward live unbound isParent _ inductionHypothesis =>
      rw [← inductionHypothesis]
      exact climb_outward ordered live (resolver_of_unbound unbound) isParent

/-- Walks that look for a name end in the same way, whatever they bring back. -/
theorem climb_isSome_congr {α β : Type} {visit : Entry → Option α} {look : Entry → Option β}
    (same : ∀ entry, (visit entry).isSome = (look entry).isSome) (scopes : List Entry)
    (handle : Handle) :
    (climb visit scopes handle).map Option.isSome =
      (climb look scopes handle).map Option.isSome := by
  induction scopes generalizing handle with
  | nil => rfl
  | cons entry older inductionHypothesis =>
      have sameHere := same entry
      rw [climb, climb]
      split
      · cases visited : visit entry with
        | some answer =>
            cases looked : look entry with
            | some other => rfl
            | none =>
                rw [visited, looked] at sameHere
                cases sameHere
        | none =>
            cases looked : look entry with
            | some other =>
                rw [visited, looked] at sameHere
                cases sameHere
            | none =>
                cases entry.parent with
                | none => rfl
                | some parent => exact inductionHypothesis parent
      · exact inductionHypothesis handle

theorem map_isSome_eq_true_iff {ε α : Type} {result : Except ε (Option α)} :
    result.map Option.isSome = .ok true ↔ ∃ answer, result = .ok (some answer) := by
  rcases result with fault | _ | answer <;> simp [Except.map]

/-- A variable can be given another value just where it has one. -/
theorem exists_update_iff :
    (∃ after, arena.update handle name value = .ok (some after)) ↔
      ∃ old, arena.lookup handle name = .ok (some old) := by
  have sameEnd : (arena.resolve handle name).map Option.isSome =
      (arena.lookup handle name).map Option.isSome := by
    refine climb_isSome_congr (fun entry => ?_) arena.scopes handle
    cases bound : entry.bindings.value? name <;> simp [Bindings.binds, bound]
  constructor
  · rintro ⟨_, updates⟩
    obtain ⟨target, resolves, _⟩ := update_eq_ok_iff.mp updates
    exact map_isSome_eq_true_iff.mp
      (sameEnd.symm.trans (map_isSome_eq_true_iff.mpr ⟨target, resolves⟩))
  · intro found
    obtain ⟨target, resolves⟩ := map_isSome_eq_true_iff.mp
      (sameEnd.trans (map_isSome_eq_true_iff.mpr found))
    exact ⟨_, update_eq_ok_iff.mpr ⟨target, resolves, rfl⟩⟩

theorem names_bindAt (built : arena.Built) (live : arena.entry? target = some entry)
    (bound : entry.bindings.binds name = true) :
    (arena.bindAt target name value).names = arena.names := by
  change List.map _ (arena.scopes.map (Entry.rebound target name value)) = _
  rw [List.map_map, names]
  refine List.map_congr_left fun other member => ?_
  rw [Function.comp_apply, Entry.rebound_handle]
  by_cases here : other.handle = target
  · have same := built.entry?_of_mem member
    rw [here, live] at same
    cases same
    rw [Entry.rebound, if_pos here, Bindings.map_fst_bind bound]
  · rw [Entry.rebound, if_neg here]

/-! ## The laws -/

/-- Giving a variable another value is seen by those who find it in the same scope, and
changes nothing else. -/
theorem Built.reassigned (built : arena.Built)
    (updates : arena.update handle name value = .ok (some after)) :
    Reassigned arena handle name value after := by
  obtain ⟨target, resolves, rfl⟩ := update_eq_ok_iff.mp updates
  obtain ⟨_, entry, live, bound⟩ := faces_of_resolve built.ordered resolves
  refine ⟨fun observer shares => ?_, fun observer other apart => ?_,
    names_bindAt built live bound⟩
  · have faces := (faces_of_resolve built.ordered (shares.trans resolves)).1
    refine lookup_bindAt_of_faces built.ordered ?_ faces
    rw [isLive, live, Option.isSome_some]
  · refine lookup_bindAt_of_not_faces built.ordered ?_
    rintro ⟨same, faces⟩
    have shares := resolve_of_faces built.ordered live bound faces
    exact apart ⟨same, shares.trans resolves.symm⟩

/-- Declaring a variable in a live scope is seen by those who face this scope, and
changes nothing else. -/
theorem Built.declared_of_live (built : arena.Built) (live : arena.isLive handle = true) :
    ∃ after, arena.declare handle name value = .ok after ∧
      Declared arena handle name value after := by
  refine ⟨arena.bindAt handle name value, ?_, ?_, ?_⟩
  · rw [declare, if_pos live]
  · exact fun observer faces => lookup_bindAt_of_faces built.ordered live faces
  · exact fun observer other apart => lookup_bindAt_of_not_faces built.ordered apart

/-- A variable can be given another value just where it has one.  This is seen by those
who find it in the same scope.  A declaration is seen by those who face its scope.
Everyone else, and everyone who looks for another name, finds what was there before. -/
theorem resolution_laws (calls : List Call) {handle : Handle}
    (live : (initial.afterAll calls).isLive handle = true) (name : String) (value : Value) :
    let arena := initial.afterAll calls
    ((∃ after, arena.update handle name value = .ok (some after)) ↔
        ∃ old, arena.lookup handle name = .ok (some old)) ∧
      (∀ after, arena.update handle name value = .ok (some after) →
        Reassigned arena handle name value after) ∧
      ∃ after, arena.declare handle name value = .ok after ∧
        Declared arena handle name value after := by
  intro arena
  have built : arena.Built := Built.initial.afterAll calls
  exact ⟨exists_update_iff, fun _ updates => built.reassigned updates,
    built.declared_of_live live⟩

/-- Two variables of one name, the outer one with the value nil, and a scope inside one
that is discarded. -/
def sampleCalls : List Call :=
  [.declare 0 "a" .nil, .nest 0, .declare 1 "a" (.boolean true), .nest 1, .nest 2, .discard 2,
    .nest 1]

/-- The innermost scope shares the variable of the scope around it.  The global scope
keeps its own, and where the way breaks off nothing is found as before. -/
theorem resolution_laws_sample :
    (initial.afterAll sampleCalls).isLive 4 = true ∧
      (∃ after, (initial.afterAll sampleCalls).update 4 "a" (.string "b") = .ok (some after) ∧
        Reassigned (initial.afterAll sampleCalls) 4 "a" (.string "b") after ∧
        after.lookup 1 "a" = .ok (some (.string "b")) ∧ after.lookup 0 "a" = .ok (some .nil) ∧
        after.lookup 3 "a" = .error (.dangling 2)) ∧
      ∃ after, (initial.afterAll sampleCalls).declare 4 "a" (.string "b") = .ok after ∧
        Declared (initial.afterAll sampleCalls) 4 "a" (.string "b") after := by
  have live : (initial.afterAll sampleCalls).isLive 4 = true := by decide
  obtain ⟨possible, reassigned, declared⟩ := resolution_laws sampleCalls live "a" (.string "b")
  obtain ⟨after, updates⟩ := possible.mpr ⟨.boolean true, by decide⟩
  have changed := reassigned after updates
  refine ⟨live, ⟨after, updates, changed, changed.shared 1 (by decide), ?_, ?_⟩, declared⟩
  · rw [changed.others 0 "a" (by decide)]
    decide
  · rw [changed.others 3 "a" (by decide)]
    decide

end Arena

end TreeWalker.Scope
