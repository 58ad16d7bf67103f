import TreeWalker.Proofs.Scope.Order
import TreeWalker.Proofs.Sequencing

/-!
# Histories of an arena

The operations on scopes are called in any order, with any handles and names.  A
call may fail, and then the next one is made on the arena as it was.

A scope that is not the global one is newer than the scope it names as its
enclosing one, whether that scope is still live or not.  So the handles fall along
every walk outward, and a walk passes each scope once at most before it ends at the
global scope or breaks off at a handle that is not live.  Handles are only ever
given out once, and so such a handle stays that of no scope.
-/

namespace TreeWalker.Scope

/-! ## Calls -/

/-- A call of an operation on scopes. -/
inductive Call where
  | nest (parent : Handle)
  | discard (handle : Handle)
  | depth (handle : Handle)
  | declare (handle : Handle) (name : String) (value : Value)
  | update (handle : Handle) (name : String) (value : Value)
  | lookup (handle : Handle) (name : String)
  | resolve (handle : Handle) (name : String)

/-- What a call answers. -/
inductive Answer where
  | done
  | opened (handle : Handle)
  | enclosing (outer : Option Handle)
  | depth (links : Nat)
  | value (value : Value)
  | scope (found : Option Handle)
deriving DecidableEq

/-- Why a call fails: an operation does, or it finds no variable. -/
inductive Failure where
  | fault (fault : Fault)
  | undefined (name : String)
deriving DecidableEq

/-- Result of an operation that is called. -/
def attempt {α : Type} : Except Fault α → EStateM Failure Arena α
  | .ok a => pure a
  | .error fault => throw (.fault fault)

/-- Make a call.  The arena is the one the call leaves, whether it fails or not. -/
def Call.perform : Call → EStateM Failure Arena Answer
  | nest parent => do
    let (handle, arena) ← attempt ((← get).nest parent)
    set arena
    return .opened handle
  | discard handle => do
    let (outer, arena) ← attempt ((← get).discard handle)
    set arena
    return .enclosing outer
  | depth handle => return .depth (← attempt ((← get).depth handle))
  | declare handle name value => do
    set (← attempt ((← get).declare handle name value))
    return .done
  | update handle name value => do
    match ← attempt ((← get).update handle name value) with
    | some arena =>
      set arena
      return .done
    | none => throw (.undefined name)
  | lookup handle name => do
    match ← attempt ((← get).lookup handle name) with
    | some value => return .value value
    | none => throw (.undefined name)
  | resolve handle name => return .scope (← attempt ((← get).resolve handle name))

namespace Arena

/-- The arena after a call. -/
def after (arena : Arena) (call : Call) : Arena :=
  match call.perform arena with
  | .ok _ left => left
  | .error _ left => left

/-- The arena after calls made one after the other. -/
def afterAll (arena : Arena) (calls : List Call) : Arena :=
  calls.foldl after arena

/-- The handles that calls give out, the first one first. -/
def issued (arena : Arena) : List Call → List Handle
  | [] => []
  | call :: calls =>
    match call.perform arena with
    | .ok (.opened handle) _ => handle :: (arena.after call).issued calls
    | _ => (arena.after call).issued calls

/-- The handles of the scopes that calls discard, the first one first. -/
def discarded (arena : Arena) : List Call → List Handle
  | [] => []
  | call :: calls =>
    match call, call.perform arena with
    | .discard handle, .ok _ _ => handle :: (arena.after call).discarded calls
    | _, _ => (arena.after call).discarded calls

end Arena

/-! ## The way outward -/

/-- The scopes that a walk passes, and the handle at which it breaks off, if it does
not come to an outermost scope. -/
structure Way where
  passed : List Entry
  missing : Option Handle
deriving DecidableEq

namespace Way

/-- A walk that comes past one more scope first. -/
def past (entry : Entry) (way : Way) : Way :=
  ⟨entry :: way.passed, way.missing⟩

/-- What is found by visiting the scopes in turn. -/
def find {α : Type} (visit : Entry → Option α) (way : Way) : Except Fault (Option α) :=
  match way.passed.findSome? visit, way.missing with
  | some answer, _ => .ok (some answer)
  | none, none => .ok none
  | none, some handle => .error (.dangling handle)

/-- Number of scopes around the first one. -/
def depth (way : Way) : Except Fault Nat :=
  match way.missing with
  | none => .ok (way.passed.length - 1)
  | some handle => .error (.dangling handle)

end Way

/-- A walk outward that takes each scope by its handle from among all of them. -/
inductive Trail (scopes : List Entry) : Handle → Way → Prop where
  | broken {handle : Handle} (dead : scopes.find? (·.handle == handle) = none) :
    Trail scopes handle ⟨[], some handle⟩
  | outermost {handle : Handle} {entry : Entry}
    (live : scopes.find? (·.handle == handle) = some entry) (noParent : entry.parent = none) :
    Trail scopes handle ⟨[entry], none⟩
  | outward {handle parent : Handle} {entry : Entry} {way : Way}
    (live : scopes.find? (·.handle == handle) = some entry)
    (isParent : entry.parent = some parent) (onward : Trail scopes parent way) :
    Trail scopes handle (way.past entry)

/-- There is only one way outward. -/
theorem Trail.unique {scopes : List Entry} {handle : Handle} {way other : Way}
    (trail : Trail scopes handle way) (same : Trail scopes handle other) : other = way := by
  induction trail generalizing other with
  | broken dead =>
      cases same with
      | broken => rfl
      | outermost live | outward live =>
          rw [dead] at live
          cases live
  | outermost live noParent =>
      cases same with
      | broken dead =>
          rw [live] at dead
          cases dead
      | outermost again =>
          rw [live] at again
          cases again
          rfl
      | outward again isParent =>
          rw [live] at again
          cases again
          rw [noParent] at isParent
          cases isParent
  | outward live isParent _ inductionHypothesis =>
      cases same with
      | broken dead =>
          rw [live] at dead
          cases dead
      | outermost again noParent =>
          rw [live] at again
          cases again
          rw [noParent] at isParent
          cases isParent
      | outward again alsoParent onward =>
          rw [live] at again
          cases again
          rw [isParent] at alsoParent
          cases alsoParent
          rw [inductionHypothesis onward]

/-- The way outward if it only ever moves on among the scopes. -/
def wayFrom : List Entry → Handle → Way
  | [], handle => ⟨[], some handle⟩
  | entry :: older, handle =>
    if entry.handle = handle then
      match entry.parent with
      | some parent => (wayFrom older parent).past entry
      | none => ⟨[entry], none⟩
    else
      wayFrom older handle

theorem wayFrom_sublist (scopes : List Entry) (handle : Handle) :
    (wayFrom scopes handle).passed.Sublist scopes := by
  induction scopes generalizing handle with
  | nil => exact List.Sublist.slnil
  | cons entry older inductionHypothesis =>
      rw [wayFrom]
      split
      · split
        · exact (inductionHypothesis _).cons_cons entry
        · exact (List.nil_sublist older).cons_cons entry
      · exact (inductionHypothesis handle).cons entry

theorem climb_eq_find {α : Type} (visit : Entry → Option α) (scopes : List Entry)
    (handle : Handle) : climb visit scopes handle = (wayFrom scopes handle).find visit := by
  induction scopes generalizing handle with
  | nil => rfl
  | cons entry older inductionHypothesis =>
      rw [climb, wayFrom]
      split
      · cases visited : visit entry with
        | some answer => cases entry.parent <;> simp [Way.find, Way.past, visited]
        | none =>
            cases entry.parent with
            | some parent => simp [inductionHypothesis, Way.find, Way.past, visited]
            | none => simp [Way.find, visited]
      · exact inductionHypothesis handle

/-- A walk that does not break off passes a scope. -/
theorem wayFrom_passed_ne_nil {scopes : List Entry} {handle : Handle}
    (arrives : (wayFrom scopes handle).missing = none) :
    0 < (wayFrom scopes handle).passed.length := by
  induction scopes generalizing handle with
  | nil => cases arrives
  | cons entry older inductionHypothesis =>
      by_cases here : entry.handle = handle
      · rw [wayFrom, if_pos here]
        cases entry.parent with
        | some parent => exact Nat.succ_pos _
        | none => exact Nat.one_pos
      · rw [wayFrom, if_neg here] at arrives ⊢
        exact inductionHypothesis arrives

theorem climbDepth_eq_depth (scopes : List Entry) (handle : Handle) :
    climbDepth scopes handle = (wayFrom scopes handle).depth := by
  induction scopes generalizing handle with
  | nil => rfl
  | cons entry older inductionHypothesis =>
      rw [climbDepth, wayFrom]
      split
      · cases entry.parent with
        | none => rfl
        | some parent =>
            simp only [inductionHypothesis, Way.depth, Way.past]
            cases arrives : (wayFrom older parent).missing with
            | some _ => rfl
            | none =>
                have positive := wayFrom_passed_ne_nil arrives
                simp only [Except.map, List.length_cons]
                congr 1
                omega
      · exact inductionHypothesis handle

/-- A newer scope that is not where the walk begins is not met on it. -/
theorem Trail.cons {entry : Entry} {older : List Entry} {next handle : Handle} {way : Way}
    (ordered : Ordered (skeleton (entry :: older)) next) (trail : Trail older handle way)
    (elsewhere : entry.handle ≠ handle) : Trail (entry :: older) handle way := by
  have skips {handle : Handle} (elsewhere : entry.handle ≠ handle) :
      (entry :: older).find? (·.handle == handle) = older.find? (·.handle == handle) :=
    List.find?_cons_of_neg (by simpa using elsewhere)
  induction trail with
  | broken dead => exact .broken ((skips elsewhere).trans dead)
  | outermost live noParent => exact .outermost ((skips elsewhere).trans live) noParent
  | @outward handle parent found way live isParent _ inductionHypothesis =>
      refine .outward ((skips elsewhere).trans live) isParent (inductionHypothesis ?_)
      have member : (found.handle, found.parent) ∈ skeleton older :=
        List.mem_map_of_mem (List.mem_of_find?_eq_some live)
      have newer := (List.pairwise_cons.mp ordered.falling).1 _ member
      have outward := ordered.outward _ (List.mem_cons_of_mem _ member) parent isParent
      exact Int.ne_of_gt (Int.lt_trans outward newer)

/-- A walk among scopes in order only ever moves on. -/
theorem trail_wayFrom {scopes : List Entry} {next : Handle}
    (ordered : Ordered (skeleton scopes) next) (handle : Handle) :
    Trail scopes handle (wayFrom scopes handle) := by
  induction scopes generalizing handle with
  | nil => exact .broken rfl
  | cons entry older inductionHypothesis =>
      rw [wayFrom]
      split
      · next here =>
          have live : (entry :: older).find? (·.handle == handle) = some entry :=
            List.find?_cons_of_pos (by simpa using here)
          cases isParent : entry.parent with
          | none => exact .outermost live isParent
          | some parent =>
              have outward := ordered.outward _ List.mem_cons_self parent isParent
              exact .outward live isParent
                ((inductionHypothesis ordered.tail parent).cons ordered (Int.ne_of_gt outward))
      · next elsewhere => exact (inductionHypothesis ordered.tail handle).cons ordered elsewhere

/-! ## What a call does -/

/-- What a call that does not fail makes of an arena. -/
inductive Effect (arena : Arena) : Call → Answer → Arena → Prop where
  | opens {parent handle : Handle} {opened : Arena}
    (nests : arena.nest parent = .ok (handle, opened)) :
    Effect arena (.nest parent) (.opened handle) opened
  | discards {handle : Handle} {outer : Option Handle} {left : Arena}
    (discards : arena.discard handle = .ok (outer, left)) :
    Effect arena (.discard handle) (.enclosing outer) left
  | declares {handle : Handle} {name : String} {value : Value} {left : Arena}
    (declares : arena.declare handle name value = .ok left) :
    Effect arena (.declare handle name value) .done left
  | updates {handle : Handle} {name : String} {value : Value} {left : Arena}
    (updates : arena.update handle name value = .ok (some left)) :
    Effect arena (.update handle name value) .done left
  | tells {call : Call} {answer : Answer} (discardsNone : ∀ handle, call ≠ .discard handle)
    (opensNone : ∀ handle, answer ≠ .opened handle) : Effect arena call answer arena

/-- A call that fails leaves everything as it was. -/
theorem perform_cases (arena : Arena) (call : Call) :
    (∃ failure, call.perform arena = .error failure arena) ∨
      ∃ answer left, call.perform arena = .ok answer left ∧ Effect arena call answer left := by
  cases call with
  | nest parent =>
      rw [Call.perform, get_bind_apply]
      cases nests : arena.nest parent with
      | error fault => exact Or.inl ⟨.fault fault, rfl⟩
      | ok opened => exact Or.inr ⟨_, _, rfl, .opens nests⟩
  | discard handle =>
      rw [Call.perform, get_bind_apply]
      cases discards : arena.discard handle with
      | error fault => exact Or.inl ⟨.fault fault, rfl⟩
      | ok outer => exact Or.inr ⟨_, _, rfl, .discards discards⟩
  | declare handle name value =>
      rw [Call.perform, get_bind_apply]
      cases declares : arena.declare handle name value with
      | error fault => exact Or.inl ⟨.fault fault, rfl⟩
      | ok left => exact Or.inr ⟨_, _, rfl, .declares declares⟩
  | update handle name value =>
      rw [Call.perform, get_bind_apply]
      cases updates : arena.update handle name value with
      | error fault => exact Or.inl ⟨.fault fault, rfl⟩
      | ok found =>
          cases found with
          | none => exact Or.inl ⟨.undefined name, rfl⟩
          | some left => exact Or.inr ⟨_, _, rfl, .updates updates⟩
  | depth handle =>
      rw [Call.perform, get_bind_apply]
      cases arena.depth handle with
      | error fault => exact Or.inl ⟨.fault fault, rfl⟩
      | ok links => exact Or.inr ⟨_, _, rfl, .tells nofun nofun⟩
  | lookup handle name =>
      rw [Call.perform, get_bind_apply]
      cases arena.lookup handle name with
      | error fault => exact Or.inl ⟨.fault fault, rfl⟩
      | ok found =>
          cases found with
          | none => exact Or.inl ⟨.undefined name, rfl⟩
          | some value => exact Or.inr ⟨_, _, rfl, .tells nofun nofun⟩
  | resolve handle name =>
      rw [Call.perform, get_bind_apply]
      cases arena.resolve handle name with
      | error fault => exact Or.inl ⟨.fault fault, rfl⟩
      | ok found => exact Or.inr ⟨_, _, rfl, .tells nofun nofun⟩

/-! ## What calls keep -/

/-- A scope is live in the later arena only if it was before, or was opened since. -/
structure Follows (arena later : Arena) : Prop where
  next : arena.next ≤ later.next
  live : ∀ handle, later.isLive handle = true →
    arena.isLive handle = true ∨ arena.next ≤ handle

namespace Follows

variable {arena middle later : Arena}

theorem refl (arena : Arena) : Follows arena arena :=
  ⟨Int.le_refl _, fun _ live => Or.inl live⟩

theorem trans (first : Follows arena middle) (second : Follows middle later) :
    Follows arena later where
  next := Int.le_trans first.next second.next
  live handle live := by
    rcases second.live handle live with before | opened
    · exact first.live handle before
    · exact Or.inr (Int.le_trans first.next opened)

/-- The scopes are the same but for their bindings. -/
theorem of_links (links : later.links = arena.links) (next : later.next = arena.next) :
    Follows arena later where
  next := Int.le_of_eq next.symm
  live handle live := by
    rw [Arena.isLive_iff, links, ← Arena.isLive_iff] at live
    exact Or.inl live

/-- A handle below the next one that is not that of a live scope never will be. -/
theorem dead {handle : Handle} (follows : Follows arena later)
    (given : handle < arena.next) (dead : arena.isLive handle = false) :
    later.isLive handle = false := by
  rw [← Bool.not_eq_true] at dead ⊢
  intro live
  rcases follows.live handle live with before | opened
  · exact dead before
  · exact absurd given (Int.not_lt.mpr opened)

end Follows

namespace Effect

variable {arena left : Arena} {call : Call} {answer : Answer}

theorem built (effect : Effect arena call answer left) (built : arena.Built) : left.Built := by
  cases effect with
  | opens nests => exact .nested built nests
  | discards discards => exact .discarded built discards
  | declares declares => exact .declared built declares
  | updates updates => exact .updated built updates
  | tells => exact built

theorem follows (effect : Effect arena call answer left) : Follows arena left := by
  cases effect with
  | opens nests =>
      obtain ⟨-, links, next⟩ := Arena.nest_links nests
      refine ⟨by rw [next]; exact Int.le_of_lt (Int.lt_succ _), fun handle live => ?_⟩
      obtain ⟨parent, member⟩ := Arena.isLive_iff.mp live
      rw [links] at member
      rcases List.mem_cons.mp member with same | member
      · exact Or.inr (Int.le_of_eq (Prod.mk.inj same).1.symm)
      · exact Or.inl (Arena.isLive_iff.mpr ⟨parent, member⟩)
  | discards discards =>
      obtain ⟨links, next⟩ := Arena.discard_links discards
      refine ⟨Int.le_of_eq next.symm, fun handle live => Or.inl ?_⟩
      obtain ⟨parent, member⟩ := Arena.isLive_iff.mp live
      rw [links] at member
      exact Arena.isLive_iff.mpr ⟨parent, (List.mem_filter.mp member).1⟩
  | declares declares =>
      exact .of_links (Arena.declare_links declares).1 (Arena.declare_links declares).2
  | updates updates =>
      exact .of_links (Arena.update_links updates).1 (Arena.update_links updates).2
  | tells => exact .refl arena

/-- A scope that is opened has the next handle, and the one after it is next. -/
theorem opened {handle : Handle} (effect : Effect arena call (.opened handle) left) :
    handle = arena.next ∧ left.next = arena.next + 1 := by
  cases effect with
  | opens nests =>
      obtain ⟨live, -, next⟩ := Arena.nest_links nests
      rw [Arena.nest, if_pos live] at nests
      exact ⟨(Prod.mk.inj (Except.ok.inj nests)).1.symm, next⟩
  | tells _ opensNone => exact absurd rfl (opensNone handle)

/-- A scope that is discarded was live and is not any more. -/
theorem discarded {handle : Handle} (effect : Effect arena (.discard handle) answer left) :
    arena.isLive handle = true ∧ left.isLive handle = false := by
  cases effect with
  | discards discards =>
      have links := (Arena.discard_links discards).1
      constructor
      · rw [Arena.isLive]
        unfold Arena.discard at discards
        split at discards
        · cases discards
        · split at discards
          · cases discards
          · next live => rw [live, Option.isSome_some]
      · rw [← Bool.not_eq_true, Arena.isLive_iff, links]
        simp
  | tells discardsNone => exact absurd rfl (discardsNone handle)

end Effect

namespace Arena

variable {arena : Arena}

theorem after_cases (arena : Arena) (call : Call) :
    (∃ failure, call.perform arena = .error failure arena ∧ arena.after call = arena) ∨
      ∃ answer, call.perform arena = .ok answer (arena.after call) ∧
        Effect arena call answer (arena.after call) := by
  rcases perform_cases arena call with ⟨failure, fails⟩ | ⟨answer, left, succeeds, effect⟩
  · exact Or.inl ⟨failure, fails, by rw [after, fails]⟩
  · have same : arena.after call = left := by rw [after, succeeds]
    rw [same]
    exact Or.inr ⟨answer, succeeds, effect⟩

theorem Built.after (built : arena.Built) (call : Call) : (arena.after call).Built := by
  rcases after_cases arena call with ⟨_, _, same⟩ | ⟨_, _, effect⟩
  · rwa [same]
  · exact effect.built built

theorem Built.afterAll (built : arena.Built) (calls : List Call) :
    (arena.afterAll calls).Built := by
  induction calls generalizing arena with
  | nil => exact built
  | cons call calls inductionHypothesis => exact inductionHypothesis (built.after call)

theorem follows_after (arena : Arena) (call : Call) : Follows arena (arena.after call) := by
  rcases after_cases arena call with ⟨_, _, same⟩ | ⟨_, _, effect⟩
  · rw [same]
    exact .refl arena
  · exact effect.follows

theorem follows_afterAll (arena : Arena) (calls : List Call) :
    Follows arena (arena.afterAll calls) := by
  induction calls generalizing arena with
  | nil => exact .refl arena
  | cons call calls inductionHypothesis =>
      exact (follows_after arena call).trans (inductionHypothesis (arena.after call))

theorem afterAll_append (arena : Arena) (earlier later : List Call) :
    arena.afterAll (earlier ++ later) = (arena.afterAll earlier).afterAll later :=
  List.foldl_append

/-- Handles are given out in increasing order. -/
theorem issued_rising (arena : Arena) (calls : List Call) :
    (arena.issued calls).Pairwise (· < ·) ∧ ∀ handle ∈ arena.issued calls, arena.next ≤ handle := by
  induction calls generalizing arena with
  | nil => exact ⟨List.Pairwise.nil, by simp [issued]⟩
  | cons call calls inductionHypothesis =>
      obtain ⟨rising, notBefore⟩ := inductionHypothesis (arena.after call)
      have follows := follows_after arena call
      rw [issued]
      split
      · next handle left performs =>
          rcases after_cases arena call with ⟨_, fails, _⟩ | ⟨_, succeeds, effect⟩
          · rw [fails] at performs
            cases performs
          · rw [performs] at succeeds
            cases succeeds
            obtain ⟨rfl, next⟩ := effect.opened
            have later (handle : Handle) (member : handle ∈ (arena.after call).issued calls) :
                arena.next < handle := by
              have bound := notBefore handle member
              rw [next] at bound
              exact Int.lt_of_lt_of_le (Int.lt_succ _) bound
            refine ⟨List.pairwise_cons.mpr ⟨later, rising⟩, fun handle member => ?_⟩
            rcases List.mem_cons.mp member with rfl | member
            · exact Int.le_refl _
            · exact Int.le_of_lt (later handle member)
      · exact ⟨rising, fun handle member => Int.le_trans follows.next (notBefore handle member)⟩

/-- The handle of a scope that is discarded was given out, and that scope is not live
again. -/
theorem discarded_dead {calls : List Call} {handle : Handle} (built : arena.Built)
    (member : handle ∈ arena.discarded calls) :
    handle < (arena.afterAll calls).next ∧ (arena.afterAll calls).isLive handle = false := by
  induction calls generalizing arena with
  | nil => cases member
  | cons call calls inductionHypothesis =>
      unfold discarded at member
      split at member
      · next discards answer _ performs =>
          rcases List.mem_cons.mp member with rfl | member
          · rcases after_cases arena (.discard handle) with ⟨_, fails, _⟩ | ⟨_, _, effect⟩
            · rw [fails] at performs
              cases performs
            · obtain ⟨live, dead⟩ := effect.discarded
              obtain ⟨_, listed⟩ := isLive_iff.mp live
              have given := Int.lt_of_lt_of_le (built.ordered.below _ listed)
                (follows_after arena (.discard handle)).next
              have follows := follows_afterAll (arena.after (.discard handle)) calls
              exact ⟨Int.lt_of_lt_of_le given follows.next, follows.dead given dead⟩
          · exact inductionHypothesis (built.after _) member
      · exact inductionHypothesis (built.after _) member

/-- The global scope is live, and no other scope is outermost. -/
theorem Built.outermost_iff (built : arena.Built) {handle : Handle} :
    (handle, none) ∈ arena.links ↔ handle = globalHandle := by
  induction built with
  | initial =>
      simp only [links, skeleton, Arena.initial, List.map_cons, List.map_nil, List.mem_singleton,
        Prod.mk.injEq, and_true]
  | nested _ nests inductionHypothesis =>
      rw [(nest_links nests).2.1]
      simpa using inductionHypothesis
  | @discarded arena left other outer _ discards inductionHypothesis =>
      have inner : other ≠ globalHandle := by
        rintro rfl
        rw [discard, if_pos rfl] at discards
        cases discards
      rw [(discard_links discards).1, List.mem_filter, inductionHypothesis]
      simp only [bne_iff_ne, ne_eq, and_iff_left_iff_imp]
      rintro rfl
      exact Ne.symm inner
  | declared _ declares inductionHypothesis => rwa [(declare_links declares).1]
  | updated _ updates inductionHypothesis => rwa [(update_links updates).1]

theorem Built.distinct (built : arena.Built) : (arena.scopes.map (·.handle)).Nodup := by
  have falling := List.pairwise_map.mp built.ordered.falling
  exact List.pairwise_map.mpr (falling.imp fun newer => Int.ne_of_gt newer)

/-- Each live scope is found by its handle. -/
theorem Built.entry?_of_mem (built : arena.Built) {entry : Entry} (member : entry ∈ arena.scopes) :
    arena.entry? entry.handle = some entry := by
  cases finds : arena.entry? entry.handle with
  | none => exact absurd (List.find?_eq_none.mp finds entry member) (by simp)
  | some found =>
      have same : found.handle = entry.handle := by simpa using List.find?_some finds
      rw [List.inj_on_of_nodup_map built.distinct (List.mem_of_find?_eq_some finds) member same]

/-! ## All that is promised -/

/-- The scopes of an arena are in order, and every walk among them ends. -/
structure WellFormed (arena : Arena) : Prop where
  global : ∃ bindings, arena.entry? globalHandle = some ⟨globalHandle, none, bindings⟩
  enclosed : ∀ entry ∈ arena.scopes, entry.handle ≠ globalHandle →
    ∃ parent, entry.parent = some parent ∧ parent < entry.handle
  below : ∀ entry ∈ arena.scopes, entry.handle < arena.next
  distinct : (arena.scopes.map (·.handle)).Nodup
  walks : ∀ handle, ∃ way, (∀ other, Trail arena.scopes handle other ↔ other = way) ∧
    way.passed.Sublist arena.scopes ∧
    (∀ missing ∈ way.missing, arena.isLive missing = false) ∧
    arena.depth handle = way.depth ∧
    ∀ name, arena.resolve handle name = way.find (resolver name) ∧
      arena.lookup handle name = way.find (·.bindings.value? name)

/-- A way outward breaks off at a handle that is not live. -/
theorem Trail.missing_dead {handle missing : Handle} {way : Way}
    (trail : Trail arena.scopes handle way) (breaks : missing ∈ way.missing) :
    arena.isLive missing = false := by
  induction trail with
  | broken dead =>
      cases breaks
      rw [isLive, entry?, dead, Option.isSome_none]
  | outermost => cases breaks
  | outward _ _ _ inductionHypothesis => exact inductionHypothesis breaks

theorem Built.wellFormed (built : arena.Built) : arena.WellFormed where
  global := by
    obtain ⟨⟨handle, parent, bindings⟩, member, same⟩ :=
      List.mem_map.mp (built.outermost_iff.mpr rfl)
    obtain ⟨rfl, rfl⟩ := Prod.mk.inj same
    exact ⟨bindings, built.entry?_of_mem member⟩
  enclosed entry member inner := by
    have listed : (entry.handle, entry.parent) ∈ arena.links := List.mem_map_of_mem member
    cases isParent : entry.parent with
    | none =>
        rw [isParent] at listed
        exact absurd (built.outermost_iff.mp listed) inner
    | some parent => exact ⟨parent, rfl, built.ordered.outward _ listed parent isParent⟩
  below entry member := built.ordered.below _ (List.mem_map_of_mem member)
  distinct := built.distinct
  walks handle := by
    have trail := trail_wayFrom built.ordered handle
    exact ⟨wayFrom arena.scopes handle,
      fun other => ⟨trail.unique, fun same => by rwa [same]⟩,
      wayFrom_sublist arena.scopes handle,
      fun missing breaks => Trail.missing_dead trail breaks,
      climbDepth_eq_depth arena.scopes handle,
      fun name => ⟨climb_eq_find _ arena.scopes handle, climb_eq_find _ arena.scopes handle⟩⟩

/-- Whatever is called, the scopes are well formed, each handle is given out once,
and one that is no longer live never is again.  A call that fails leaves the arena
as it was. -/
theorem history_wellFormed (earlier later : List Call) :
    (initial.afterAll earlier).WellFormed ∧
      (globalHandle :: initial.issued (earlier ++ later)).Pairwise (· < ·) ∧
      (∀ handle < (initial.afterAll earlier).next,
        (initial.afterAll earlier).isLive handle = false →
          (initial.afterAll (earlier ++ later)).isLive handle = false) ∧
      (∀ handle ∈ initial.discarded earlier,
        (initial.afterAll (earlier ++ later)).isLive handle = false) ∧
      ∀ call failure left,
        Call.perform call (initial.afterAll earlier) = .error failure left →
          left = initial.afterAll earlier := by
  have built : (initial.afterAll earlier).Built := Built.initial.afterAll earlier
  have dead {handle : Handle} (given : handle < (initial.afterAll earlier).next)
      (dead : (initial.afterAll earlier).isLive handle = false) :
      (initial.afterAll (earlier ++ later)).isLive handle = false := by
    rw [afterAll_append]
    exact (follows_afterAll _ later).dead given dead
  refine ⟨built.wellFormed, ?_, fun handle given => dead given, ?_, ?_⟩
  · obtain ⟨rising, notBefore⟩ := issued_rising initial (earlier ++ later)
    refine List.pairwise_cons.mpr ⟨fun handle member => ?_, rising⟩
    exact Int.lt_of_lt_of_le (Int.lt_succ globalHandle) (notBefore handle member)
  · intro handle member
    obtain ⟨given, gone⟩ := discarded_dead .initial member
    exact dead given gone
  · intro call failure left fails
    rcases perform_cases (initial.afterAll earlier) call with ⟨_, same⟩ | ⟨_, _, succeeds, _⟩
    · rw [fails] at same
      cases same
      rfl
    · rw [fails] at succeeds
      cases succeeds

/-- A scope outlives the one around it, and a walk from it then breaks off, also after
another scope is opened. -/
example :
    (initial.afterAll [.nest 0, .nest 1, .discard 1, .nest 2]).lookup 3 "a" =
      .error (.dangling 1) := by
  decide

end Arena

end TreeWalker.Scope
