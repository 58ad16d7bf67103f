import TreeWalker.Proofs.Evaluation.Reference
import TreeWalker.Scope.Arena

/-!
# An arena as a stack of frames

While a program runs, the live scopes are those around the current one, each
enclosed by the next older one.  The arena lists them from the innermost, just as
an environment lists its frames, and the handles fall strictly along the list.
So a walk outward visits the scopes in the order of the frames, a binding made in
one scope leaves all others alone, and discarding the current scope takes away
the innermost frame.
-/

namespace TreeWalker.Scope

open Reference (Frame Environment)

/-! ## Bindings and frames -/

/-- A frame binds the same names to the same values. -/
def Agree (bindings : Bindings) (frame : Frame) : Prop :=
  ∀ name, bindings.value? name = frame.lookup name

/-- The frame of some bindings. -/
def Bindings.frame : Bindings → Frame
  | [] => ∅
  | (name, value) :: bindings => (frame bindings).insert name value

theorem agree_frame (bindings : Bindings) : Agree bindings bindings.frame := by
  intro name
  induction bindings with
  | nil => simp [Bindings.frame]
  | cons binding bindings inductionHypothesis =>
      rcases binding with ⟨bound, value⟩
      rw [Bindings.value?_cons, Bindings.frame]
      by_cases same : bound = name
      · subst same
        rw [if_pos rfl, Finmap.lookup_insert]
      · rw [if_neg same, Finmap.lookup_insert_of_ne _ (Ne.symm same), inductionHypothesis]

theorem Agree.frame_eq {bindings : Bindings} {frame : Frame} (agree : Agree bindings frame) :
    bindings.frame = frame :=
  Finmap.ext_lookup fun name => (agree_frame bindings name).symm.trans (agree name)

theorem Agree.bind {bindings : Bindings} {frame : Frame} (agree : Agree bindings frame)
    (name : String) (value : Value) :
    Agree (bindings.bind name value) (frame.insert name value) := by
  intro other
  rw [Bindings.value?_bind]
  by_cases same : name = other
  · subst same
    rw [if_pos rfl, Finmap.lookup_insert]
  · rw [if_neg same, Finmap.lookup_insert_of_ne _ (Ne.symm same), agree other]

/-! ## Stacks -/

/-- The scopes are a stack with the frames of the environment, and the given
handle is that of its top. -/
inductive Stacked : List Entry → Handle → Environment → Prop where
  | global {bindings : Bindings} {frame : Frame} (agree : Agree bindings frame) :
    Stacked [⟨globalHandle, none, bindings⟩] globalHandle [frame]
  | inner {older : List Entry} {parent handle : Handle} {env : Environment} {bindings : Bindings}
    {frame : Frame} (outer : Stacked older parent env) (newer : parent < handle)
    (agree : Agree bindings frame) :
    Stacked (⟨handle, some parent, bindings⟩ :: older) handle (frame :: env)

/-- The handles of the scopes and of those around them, without the bindings. -/
def skeleton (scopes : List Entry) : List (Handle × Option Handle) :=
  scopes.map fun entry => (entry.handle, entry.parent)

/-- Bind a name in the scopes with the given handle. -/
def bindIn (target : Handle) (name : String) (value : Value) (scopes : List Entry) :
    List Entry :=
  scopes.map fun entry =>
    if entry.handle = target then { entry with bindings := entry.bindings.bind name value }
    else entry

@[simp]
theorem skeleton_bindIn (target : Handle) (name : String) (value : Value) (scopes : List Entry) :
    skeleton (bindIn target name value scopes) = skeleton scopes := by
  rw [skeleton, skeleton, bindIn, List.map_map]
  refine List.map_congr_left fun entry _ => ?_
  rw [Function.comp_apply]
  split <;> rfl

/-- The innermost scope that binds a name. -/
def resolver (name : String) (entry : Entry) : Option Handle :=
  if entry.bindings.binds name then some entry.handle else none

namespace Stacked

variable {scopes : List Entry} {handle : Handle} {env : Environment}

theorem handle_le (stacked : Stacked scopes handle env) :
    ∀ entry ∈ scopes, entry.handle ≤ handle := by
  induction stacked with
  | global => simp
  | inner _ newer _ inductionHypothesis =>
      intro entry member
      rcases List.mem_cons.mp member with rfl | member
      · exact Int.le_refl _
      · exact Int.le_trans (inductionHypothesis entry member) (Int.le_of_lt newer)

theorem global_le (stacked : Stacked scopes handle env) : globalHandle ≤ handle := by
  induction stacked with
  | global => exact Int.le_refl _
  | inner _ newer _ inductionHypothesis =>
      exact Int.le_trans inductionHypothesis (Int.le_of_lt newer)

theorem exists_entry (stacked : Stacked scopes handle env) :
    ∃ entry older, scopes = entry :: older ∧ entry.handle = handle := by
  cases stacked with
  | global => exact ⟨_, _, rfl, rfl⟩
  | inner => exact ⟨_, _, rfl, rfl⟩

/-- A binding in a newer scope leaves the stack as it is. -/
theorem bindIn_of_lt (stacked : Stacked scopes handle env) {target : Handle}
    (newer : handle < target) (name : String) (value : Value) :
    bindIn target name value scopes = scopes := by
  rw [bindIn]
  conv_rhs => rw [← List.map_id scopes]
  refine List.map_congr_left fun entry member => ?_
  have older := stacked.handle_le entry member
  rw [if_neg (Int.ne_of_lt (Int.lt_of_le_of_lt older newer)), id]

/-- A walk outward finds the value of a variable in the first frame that binds
it. -/
theorem climb_value (stacked : Stacked scopes handle env) (name : String) :
    climb (fun entry => entry.bindings.value? name) scopes handle =
      .ok (Reference.read? name env) := by
  induction stacked with
  | global agree =>
      rw [climb, if_pos rfl, agree name, Reference.read?]
      cases Finmap.lookup name _ <;> rfl
  | inner _ _ agree inductionHypothesis =>
      rw [climb, if_pos rfl, agree name, Reference.read?]
      cases Finmap.lookup name _ with
      | none => exact inductionHypothesis
      | some value => rfl

/-- A variable is given another value where it is found. -/
theorem climb_resolver_some (stacked : Stacked scopes handle env) {name : String} {value : Value}
    {env' : Environment} (written : Reference.write? name value env = some env') :
    ∃ target, climb (resolver name) scopes handle = .ok (some target) ∧ target ≤ handle ∧
      Stacked (bindIn target name value scopes) handle env' := by
  induction stacked generalizing env' with
  | @global bindings frame agree =>
      rw [Reference.write?] at written
      cases found : frame.lookup name with
      | none => simp [found, Reference.write?] at written
      | some old =>
          rw [found] at written
          cases written
          refine ⟨globalHandle, ?_, Int.le_refl _, ?_⟩
          · simp [climb, resolver, Bindings.binds, agree name, found]
          · simpa [bindIn] using Stacked.global (agree.bind name value)
  | @inner older parent handle env bindings frame outer newer agree inductionHypothesis =>
      rw [Reference.write?] at written
      cases found : frame.lookup name with
      | some old =>
          rw [found] at written
          cases written
          refine ⟨handle, ?_, Int.le_refl _, ?_⟩
          · simp [climb, resolver, Bindings.binds, agree name, found]
          · have same := outer.bindIn_of_lt newer name value
            have bound := Stacked.inner outer newer (agree.bind name value)
            rw [bindIn] at same ⊢
            rw [List.map_cons, same]
            simpa using bound
      | none =>
          rw [found] at written
          obtain ⟨outerEnv, outerWritten, rfl⟩ := Option.map_eq_some_iff.mp written
          rcases inductionHypothesis outerWritten with ⟨target, climbs, before, bound⟩
          have other : handle ≠ target := Int.ne_of_gt (Int.lt_of_le_of_lt before newer)
          refine ⟨target, ?_, Int.le_trans before (Int.le_of_lt newer), ?_⟩
          · rw [climb, if_pos rfl]
            simpa [resolver, Bindings.binds, agree name, found] using climbs
          · rw [bindIn, List.map_cons, if_neg other]
            exact Stacked.inner bound newer agree

theorem climb_resolver_none (stacked : Stacked scopes handle env) {name : String} {value : Value}
    (unbound : Reference.write? name value env = none) :
    climb (resolver name) scopes handle = .ok none := by
  induction stacked with
  | @global bindings frame agree =>
      rw [Reference.write?] at unbound
      cases found : frame.lookup name with
      | some old => simp [found] at unbound
      | none => simp [climb, resolver, Bindings.binds, agree name, found]
  | @inner older parent handle env bindings frame outer newer agree inductionHypothesis =>
      rw [Reference.write?] at unbound
      cases found : frame.lookup name with
      | some old => simp [found] at unbound
      | none =>
          rw [found] at unbound
          rw [climb, if_pos rfl]
          simpa [resolver, Bindings.binds, agree name, found] using
            inductionHypothesis (Option.map_eq_none_iff.mp unbound)

/-- A declaration binds its name in the innermost frame. -/
theorem declare (stacked : Stacked scopes handle env) (name : String) (value : Value) :
    Stacked (bindIn handle name value scopes) handle (Reference.declare name value env) := by
  cases stacked with
  | global agree => simpa [bindIn, Reference.declare] using Stacked.global (agree.bind name value)
  | inner outer newer agree =>
      have same := outer.bindIn_of_lt newer name value
      have bound := Stacked.inner outer newer (agree.bind name value)
      rw [bindIn] at same ⊢
      rw [List.map_cons, same]
      simpa [Reference.declare] using bound

theorem climbDepth (stacked : Stacked scopes handle env) :
    ∃ depth, climbDepth scopes handle = .ok depth := by
  induction stacked with
  | global => exact ⟨0, by simp [Scope.climbDepth]⟩
  | inner _ _ _ inductionHypothesis =>
      rcases inductionHypothesis with ⟨depth, climbs⟩
      exact ⟨depth + 1, by simp [Scope.climbDepth, climbs, Except.map]⟩

/-- A stack of the global scope alone has only the frame of that scope. -/
theorem eq_frame {bindings : Bindings}
    (stacked : Stacked [⟨globalHandle, none, bindings⟩] globalHandle env) :
    env = [bindings.frame] := by
  cases stacked with
  | global agree => rw [agree.frame_eq]

/-- The scopes below the top of a stack are a stack again, with the same frames
but the innermost. -/
theorem outer {parent : Handle} {bindings : Bindings} {older : List Entry}
    (stacked : Stacked (⟨handle, some parent, bindings⟩ :: older) handle env) :
    ∃ frame outerEnv, env = frame :: outerEnv ∧ parent < handle ∧
      Stacked older parent outerEnv := by
  cases stacked with
  | inner outer newer _ => exact ⟨_, _, rfl, newer, outer⟩

end Stacked

end TreeWalker.Scope
