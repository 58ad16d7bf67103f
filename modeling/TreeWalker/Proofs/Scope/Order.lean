import Mathlib.Data.List.Basic
import TreeWalker.Proofs.Scope.Stack

/-!
# The order of the scopes in an arena

Whatever is done to an arena, its handles fall along the list of its scopes, a
scope is newer than the one around it, and the next handle is newer than all.
Scopes may be missing, and handles may name scopes that are gone.  A scope is
anchored if it is live and so are all the scopes around it, one after the other.
From such a scope every walk outward comes to its end, a scope can be opened
inside it, and discarding that scope again gives back the scopes as they were.

All of this is about handles and never about bindings.
-/

namespace TreeWalker.Scope

/-- The handles of scopes with those of the scopes around them. -/
abbrev Links :=
  List (Handle × Option Handle)

/-- The handles are listed from the newest to the oldest, and all are older than
the next one. -/
structure Ordered (links : Links) (next : Handle) : Prop where
  falling : links.Pairwise fun newer older => older.1 < newer.1
  outward : ∀ link ∈ links, ∀ parent ∈ link.2, parent < link.1
  below : ∀ link ∈ links, link.1 < next
  global : globalHandle < next

/-- The scope with the given handle is live, and so are all scopes around it. -/
inductive Anchored (links : Links) : Handle → Prop where
  | outermost {handle : Handle} (live : (handle, none) ∈ links) : Anchored links handle
  | inner {handle parent : Handle} (live : (handle, some parent) ∈ links)
    (outer : Anchored links parent) : Anchored links handle

namespace Ordered

variable {links kept : Links} {next later : Handle}

/-- The global scope alone. -/
theorem global_alone (positive : globalHandle < next) : Ordered [(globalHandle, none)] next where
  falling := List.pairwise_singleton _ _
  outward := by
    rintro _ (_ | ⟨_, ⟨⟩⟩) _ ⟨⟩
  below := by
    rintro _ (_ | ⟨_, ⟨⟩⟩)
    exact positive
  global := positive

theorem tail {link : Handle × Option Handle} (ordered : Ordered (link :: links) next) :
    Ordered links next where
  falling := ordered.falling.of_cons
  outward other member := ordered.outward other (List.mem_cons_of_mem link member)
  below other member := ordered.below other (List.mem_cons_of_mem link member)
  global := ordered.global

/-- Handles may be skipped. -/
theorem mono (ordered : Ordered links next) (notBefore : next ≤ later) : Ordered links later where
  falling := ordered.falling
  outward := ordered.outward
  below link member := Int.lt_of_lt_of_le (ordered.below link member) notBefore
  global := Int.lt_of_lt_of_le ordered.global notBefore

/-- Scopes may be taken away. -/
theorem sublist (ordered : Ordered links next) (fewer : kept.Sublist links) :
    Ordered kept next where
  falling := ordered.falling.sublist fewer
  outward link member := ordered.outward link (fewer.subset member)
  below link member := ordered.below link (fewer.subset member)
  global := ordered.global

/-- A scope with the next handle may be put in front. -/
theorem push (ordered : Ordered links next) {parent : Handle} (older : parent < next) :
    Ordered ((next, some parent) :: links) (next + 1) where
  falling := List.pairwise_cons.mpr ⟨ordered.below, ordered.falling⟩
  outward link member other isParent := by
    rcases List.mem_cons.mp member with rfl | member
    · rwa [← Option.some.inj isParent]
    · exact ordered.outward link member other isParent
  below link member := by
    rcases List.mem_cons.mp member with rfl | member
    · exact Int.lt_succ next
    · exact Int.lt_trans (ordered.below link member) (Int.lt_succ next)
  global := Int.lt_trans ordered.global (Int.lt_succ next)

end Ordered

namespace Anchored

variable {links : Links} {link : Handle × Option Handle} {handle : Handle}

theorem exists_mem (anchored : Anchored links handle) : ∃ parent, (handle, parent) ∈ links := by
  cases anchored with
  | outermost live | inner live => exact ⟨_, live⟩

theorem cons (anchored : Anchored links handle) : Anchored (link :: links) handle := by
  induction anchored with
  | outermost live => exact .outermost (List.mem_cons_of_mem link live)
  | inner live _ inductionHypothesis =>
      exact .inner (List.mem_cons_of_mem link live) inductionHypothesis

/-- No newer scope is met on the way outward. -/
theorem of_cons {next : Handle} (ordered : Ordered (link :: links) next)
    (anchored : Anchored (link :: links) handle) (older : handle < link.1) :
    Anchored links handle := by
  induction anchored with
  | outermost live =>
      rcases List.mem_cons.mp live with rfl | live
      · exact absurd older (Int.lt_irrefl _)
      · exact .outermost live
  | inner live _ inductionHypothesis =>
      rcases List.mem_cons.mp live with rfl | live
      · exact absurd older (Int.lt_irrefl _)
      · have outward := ordered.outward _ (List.mem_cons_of_mem link live) _ rfl
        exact .inner live (inductionHypothesis (Int.lt_trans outward older))

end Anchored

/-! ## Walks -/

/-- A walk outward that ends at an outermost scope and never turns back. -/
inductive Walk : List Entry → Handle → Prop where
  | outermost {entry : Entry} {older : List Entry} (noParent : entry.parent = none) :
    Walk (entry :: older) entry.handle
  | outward {entry : Entry} {older : List Entry} {parent : Handle}
    (isParent : entry.parent = some parent) (onward : Walk older parent) :
    Walk (entry :: older) entry.handle
  | past {entry : Entry} {older : List Entry} {handle : Handle} (other : entry.handle ≠ handle)
    (onward : Walk older handle) : Walk (entry :: older) handle

/-- There is a walk from every scope that is anchored. -/
theorem walk_of_anchored {scopes : List Entry} {next handle : Handle}
    (ordered : Ordered (skeleton scopes) next) (anchored : Anchored (skeleton scopes) handle) :
    Walk scopes handle := by
  induction scopes generalizing handle with
  | nil =>
      rcases anchored.exists_mem with ⟨_, impossible⟩
      cases impossible
  | cons entry older inductionHypothesis =>
      rw [skeleton, List.map_cons] at ordered anchored
      have newer := (List.pairwise_cons.mp ordered.falling).1
      by_cases here : entry.handle = handle
      · subst here
        cases anchored with
        | outermost live =>
            rcases List.mem_cons.mp live with same | live
            · exact .outermost (Prod.mk.inj same).2.symm
            · exact absurd (newer _ live) (Int.lt_irrefl _)
        | inner live outer =>
            rcases List.mem_cons.mp live with same | live
            · have isParent : entry.parent = some _ := (Prod.mk.inj same).2.symm
              have outward := ordered.outward _ List.mem_cons_self _ isParent
              exact .outward isParent
                (inductionHypothesis ordered.tail (outer.of_cons ordered outward))
            · exact absurd (newer _ live) (Int.lt_irrefl _)
      · obtain ⟨parent, live⟩ := anchored.exists_mem
        rcases List.mem_cons.mp live with same | live
        · exact absurd (Prod.mk.inj same).1.symm here
        · exact .past here
            (inductionHypothesis ordered.tail (anchored.of_cons ordered (newer _ live)))

theorem Walk.climb {α : Type} (visit : Entry → Option α) {scopes : List Entry} {handle : Handle}
    (walk : Walk scopes handle) : ∃ answer, climb visit scopes handle = .ok answer := by
  induction walk with
  | @outermost entry _ noParent =>
      rw [Scope.climb, if_pos rfl, noParent]
      cases visit entry with
      | some answer => exact ⟨some answer, rfl⟩
      | none => exact ⟨none, rfl⟩
  | @outward entry _ _ isParent _ inductionHypothesis =>
      rw [Scope.climb, if_pos rfl, isParent]
      cases visit entry with
      | some answer => exact ⟨some answer, rfl⟩
      | none => exact inductionHypothesis
  | past other _ inductionHypothesis =>
      rw [Scope.climb, if_neg other]
      exact inductionHypothesis

theorem Walk.climbDepth {scopes : List Entry} {handle : Handle} (walk : Walk scopes handle) :
    ∃ depth, climbDepth scopes handle = .ok depth := by
  induction walk with
  | outermost noParent => exact ⟨0, by rw [Scope.climbDepth, if_pos rfl, noParent]⟩
  | outward isParent _ inductionHypothesis =>
      rcases inductionHypothesis with ⟨depth, climbs⟩
      exact ⟨depth + 1, by rw [Scope.climbDepth, if_pos rfl, isParent]; simp [climbs, Except.map]⟩
  | past other _ inductionHypothesis =>
      rw [Scope.climbDepth, if_neg other]
      exact inductionHypothesis

/-! ## Operations -/

namespace Arena

variable {arena after : Arena} {handle parent : Handle}

/-- The scopes of an arena without their bindings. -/
def links (arena : Arena) : Links :=
  skeleton arena.scopes

@[simp]
theorem links_bindAt (arena : Arena) (target : Handle) (name : String) (value : Value) :
    (arena.bindAt target name value).links = arena.links :=
  skeleton_bindIn target name value arena.scopes

/-- A live scope is listed. -/
theorem isLive_iff : arena.isLive handle = true ↔ ∃ parent, (handle, parent) ∈ arena.links := by
  simp only [isLive, entry?, links, skeleton, List.find?_isSome, beq_iff_eq, List.mem_map]
  constructor
  · rintro ⟨entry, member, rfl⟩
    exact ⟨entry.parent, entry, member, rfl⟩
  · rintro ⟨_, entry, member, same⟩
    exact ⟨entry, member, (Prod.mk.inj same).1⟩

/-- A scope that is opened has the next handle. -/
theorem nest_eq_ok (live : arena.isLive parent = true) :
    ∃ opened, arena.nest parent = .ok (arena.next, opened) ∧
      opened.links = (arena.next, some parent) :: arena.links ∧ opened.next = arena.next + 1 := by
  rw [nest, if_pos live]
  exact ⟨_, rfl, rfl, rfl⟩

theorem nest_links (nests : arena.nest parent = .ok (handle, after)) :
    arena.isLive parent = true ∧ after.links = (arena.next, some parent) :: arena.links ∧
      after.next = arena.next + 1 := by
  by_cases live : arena.isLive parent = true
  · rcases nest_eq_ok live with ⟨opened, opens, links, next⟩
    rw [nests] at opens
    obtain ⟨_, rfl⟩ := Prod.mk.inj (Except.ok.inj opens)
    exact ⟨live, links, next⟩
  · rw [nest, if_neg live] at nests
    cases nests

/-- Discarding a scope takes away its handle and leaves the next one. -/
theorem discard_links {outer : Option Handle}
    (discards : arena.discard handle = .ok (outer, after)) :
    after.links = arena.links.filter (·.1 != handle) ∧ after.next = arena.next := by
  unfold discard at discards
  split at discards
  · cases discards
  split at discards
  · cases discards
  · cases discards
    refine ⟨?_, rfl⟩
    rw [links, skeleton, links, skeleton, List.filter_map]
    rfl

/-- A live scope can be discarded, unless it is the global one, and then the others are
left. -/
theorem discard_live (newer : Links) {older : Links} {parent : Option Handle}
    (ordered : Ordered arena.links arena.next)
    (live : arena.links = newer ++ (handle, parent) :: older) (inner : handle ≠ globalHandle) :
    ∃ outer left, arena.discard handle = .ok (outer, left) ∧ left.links = newer ++ older ∧
      left.next = arena.next := by
  obtain ⟨entry, isEntry⟩ : ∃ entry, arena.entry? handle = some entry := by
    refine Option.isSome_iff_exists.mp (isLive_iff.mpr ⟨parent, ?_⟩)
    rw [live]
    exact List.mem_append_right newer List.mem_cons_self
  have discards : arena.discard handle = .ok (entry.parent,
      { arena with scopes := arena.scopes.filter (·.handle != handle) }) := by
    rw [discard, if_neg inner, isEntry]
  refine ⟨_, _, discards, ?_, rfl⟩
  rw [live] at ordered
  obtain ⟨_, fallsBehind, before⟩ := List.pairwise_append.mp ordered.falling
  have behind := (List.pairwise_cons.mp fallsBehind).1
  have keepsNewer : newer.filter (·.1 != handle) = newer := by
    refine List.filter_eq_self.mpr fun link member => ?_
    simpa using Int.ne_of_gt (before link member _ List.mem_cons_self)
  have keepsOlder : older.filter (·.1 != handle) = older := by
    refine List.filter_eq_self.mpr fun link member => ?_
    simpa using Int.ne_of_lt (behind link member)
  rw [(discard_links discards).1, live, List.filter_append, List.filter_cons_of_neg (by simp),
    keepsNewer, keepsOlder]

theorem declare_links {name : String} {value : Value}
    (declares : arena.declare handle name value = .ok after) :
    after.links = arena.links ∧ after.next = arena.next := by
  unfold declare at declares
  split at declares
  · cases declares
    exact ⟨links_bindAt _ _ _ _, rfl⟩
  · cases declares

theorem update_links {name : String} {value : Value}
    (updates : arena.update handle name value = .ok (some after)) :
    after.links = arena.links ∧ after.next = arena.next := by
  obtain ⟨scope, _, rfl⟩ := update_eq_ok_iff.mp updates
  exact ⟨links_bindAt _ _ _ _, rfl⟩

/-! ## Every arena is ordered -/

/-- The arenas that can be made with the operations. -/
inductive Built : Arena → Prop where
  | initial : Built .initial
  | nested {arena after : Arena} {parent handle : Handle} (built : Built arena)
    (nests : arena.nest parent = .ok (handle, after)) : Built after
  | discarded {arena after : Arena} {handle : Handle} {outer : Option Handle}
    (built : Built arena) (discards : arena.discard handle = .ok (outer, after)) : Built after
  | declared {arena after : Arena} {handle : Handle} {name : String} {value : Value}
    (built : Built arena) (declares : arena.declare handle name value = .ok after) : Built after
  | updated {arena after : Arena} {handle : Handle} {name : String} {value : Value}
    (built : Built arena) (updates : arena.update handle name value = .ok (some after)) :
    Built after

/-- The order is not lost by any operation. -/
theorem Built.ordered (built : Built arena) : Ordered arena.links arena.next := by
  induction built with
  | initial => exact .global_alone (Int.lt_succ globalHandle)
  | nested _ nests inductionHypothesis =>
      obtain ⟨live, links, next⟩ := nest_links nests
      rcases isLive_iff.mp live with ⟨_, member⟩
      rw [links, next]
      exact inductionHypothesis.push (inductionHypothesis.below _ member)
  | discarded _ discards inductionHypothesis =>
      rw [(discard_links discards).1, (discard_links discards).2]
      exact inductionHypothesis.sublist List.filter_sublist
  | declared _ declares inductionHypothesis =>
      rw [(declare_links declares).1, (declare_links declares).2]
      exact inductionHypothesis
  | updated _ updates inductionHypothesis =>
      rw [(update_links updates).1, (update_links updates).2]
      exact inductionHypothesis

end Arena

end TreeWalker.Scope
