import TreeWalker.Scope.Arena

/-!
# Proper values in scopes

The values of the language are nil, booleans, numbers and strings.  If no scope of
an arena binds any other value, none is ever found there, and no operation on
scopes adds one but by binding it.
-/

namespace TreeWalker

/-- A value of one of the four sorts of the language. -/
def Value.IsProper : Value → Prop
  | nil | boolean _ | number _ | string _ => True
  | integer _ => False

namespace Scope

namespace Bindings

variable {name : String} {value : Value} {bindings : Bindings}

theorem mem_of_value? (found : bindings.value? name = some value) :
    (name, value) ∈ bindings := by
  induction bindings with
  | nil => cases found
  | cons binding bindings inductionHypothesis =>
      obtain ⟨bound, old⟩ := binding
      rw [value?_cons] at found
      split at found
      · next same =>
          subst same
          cases found
          exact List.mem_cons_self
      · exact List.mem_cons_of_mem _ (inductionHypothesis found)

/-- A binding is the one that was just made, or was there before. -/
theorem mem_bind {binding : String × Value} (member : binding ∈ bindings.bind name value) :
    binding = (name, value) ∨ binding ∈ bindings := by
  induction bindings with
  | nil => exact Or.inl (List.mem_singleton.mp member)
  | cons first bindings inductionHypothesis =>
      obtain ⟨bound, old⟩ := first
      rw [bind] at member
      split at member
      · rcases List.mem_cons.mp member with same | later
        · exact Or.inl same
        · exact Or.inr (List.mem_cons_of_mem _ later)
      · rcases List.mem_cons.mp member with rfl | later
        · exact Or.inr List.mem_cons_self
        · exact (inductionHypothesis later).imp_right (List.mem_cons_of_mem _)

end Bindings

/-- What a walk finds is what it saw in one of the scopes. -/
theorem exists_of_climb {α : Type} {visit : Entry → Option α} {scopes : List Entry}
    {handle : Handle} {answer : α} (climbs : climb visit scopes handle = .ok (some answer)) :
    ∃ entry ∈ scopes, visit entry = some answer := by
  induction scopes generalizing handle with
  | nil => cases climbs
  | cons entry older inductionHypothesis =>
      have later {handle : Handle} (climbs : climb visit older handle = .ok (some answer)) :
          ∃ found ∈ entry :: older, visit found = some answer := by
        obtain ⟨found, member, seen⟩ := inductionHypothesis climbs
        exact ⟨found, List.mem_cons_of_mem _ member, seen⟩
      rw [climb] at climbs
      split at climbs
      · split at climbs
        · next seen =>
            cases climbs
            exact ⟨entry, List.mem_cons_self, seen⟩
        · split at climbs
          · exact later climbs
          · cases climbs
      · exact later climbs

namespace Arena

/-- All scopes bind proper values only. -/
def IsProper (arena : Arena) : Prop :=
  ∀ entry ∈ arena.scopes, ∀ binding ∈ entry.bindings, binding.2.IsProper

namespace IsProper

variable {arena after : Arena} {handle : Handle} {name : String} {value : Value}

theorem initial : Arena.initial.IsProper := by
  intro entry member binding bound
  cases List.mem_singleton.mp member
  exact absurd bound List.not_mem_nil

theorem lookup (proper : arena.IsProper)
    (found : arena.lookup handle name = .ok (some value)) : value.IsProper := by
  obtain ⟨entry, member, seen⟩ := exists_of_climb found
  exact proper entry member _ (Bindings.mem_of_value? seen)

theorem bindAt (proper : arena.IsProper) (isProper : value.IsProper) :
    (arena.bindAt handle name value).IsProper := by
  intro entry member binding bound
  obtain ⟨old, oldMember, rfl⟩ := List.mem_map.mp member
  split at bound
  · rcases Bindings.mem_bind bound with rfl | before
    · exact isProper
    · exact proper old oldMember binding before
  · exact proper old oldMember binding bound

theorem declare (proper : arena.IsProper) (isProper : value.IsProper)
    (declares : arena.declare handle name value = .ok after) : after.IsProper := by
  unfold Arena.declare at declares
  split at declares
  · cases declares
    exact proper.bindAt isProper
  · cases declares

theorem update (proper : arena.IsProper) (isProper : value.IsProper)
    (updates : arena.update handle name value = .ok (some after)) : after.IsProper := by
  obtain ⟨scope, _, rfl⟩ := update_eq_ok_iff.mp updates
  exact proper.bindAt isProper

theorem nest {inner : Handle} (proper : arena.IsProper)
    (nests : arena.nest handle = .ok (inner, after)) : after.IsProper := by
  unfold Arena.nest at nests
  split at nests
  · cases nests
    intro entry member binding bound
    rcases List.mem_cons.mp member with rfl | older
    · exact absurd bound List.not_mem_nil
    · exact proper entry older binding bound
  · cases nests

theorem discard {outer : Option Handle} (proper : arena.IsProper)
    (discards : arena.discard handle = .ok (outer, after)) : after.IsProper := by
  unfold Arena.discard at discards
  split at discards
  · cases discards
  · split at discards
    · cases discards
    · cases discards
      intro entry member
      exact proper entry (List.mem_filter.mp member).1

end IsProper

end Arena

end Scope

end TreeWalker
