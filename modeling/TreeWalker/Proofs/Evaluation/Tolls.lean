import TreeWalker.Proofs.Evaluation.Dependence
import TreeWalker.Proofs.Evaluation.Steps

/-!
# Traces that take no levels

Where no trace is wanted, or where its lines take no levels, the runs in which lines take
levels are those in which they do not.
-/

namespace TreeWalker

namespace Evaluation

/-- On this machine the lines of a trace take no levels, because there are none or because
they are free. -/
def Tolls.Spare (tolls : Tolls) (machine : Machine) : Prop :=
  machine.tracing = true → tolls = free

/-! ## Calls and statements -/

/-- The machine after a call, where the lines of the trace take levels. -/
def Call.leaveTolled (tolls : Tolls) : Call → Machine → Machine
  | interpret levels rounds statements => leftBy (runTolled tolls levels rounds statements)
  | evaluate levels expr => leftBy (valueOf levels expr)
  | source limits rounds treatment text =>
    leftBy (Session.runTolled tolls limits rounds treatment text)

/-- The machine after some calls, where the lines of the trace take levels. -/
def leaveAllTolled (tolls : Tolls) (calls : List Call) (machine : Machine) : Machine :=
  calls.foldl (fun machine call => call.leaveTolled tolls machine) machine

theorem performTolled_blockStmt (tolls : Tolls) (rounds levels : Nat) (body : List Node) :
    performTolled tolls rounds (levels + 1) (.blockStmt body) = (do
      spend tolls.executing levels
      trace ("Executing: " ++ (Node.blockStmt body).kindName)
      inTolledScope tolls levels (inOrder (performTolled tolls rounds levels) body)) :=
  rfl

theorem performTolled_other (tolls : Tolls) (rounds levels : Nat) {node : Node}
    (other : ∀ body, node ≠ .blockStmt body) :
    performTolled tolls rounds (levels + 1) node = (do
      spend tolls.executing levels
      performBy rounds (evaluate levels) (performTolled tolls rounds levels) node) := by
  cases node with
  | blockStmt body => exact absurd rfl (other body)
  | _ => rfl

/-! ## Lines that are free -/

section Operations

variable {tolls : Tolls} {toll levels : Nat} {machine : Machine}

theorem spend_apply (toll levels : Nat) (machine : Machine) :
    spend toll levels machine =
      if machine.tracing = true ∧ levels < toll then .error .overNested machine
      else .ok () machine := by
  rw [spend, get_bind_apply]
  by_cases short : machine.tracing = true ∧ levels < toll
  · rw [if_pos short, if_pos (by simpa using short)]
    rfl
  · rw [if_neg short, if_neg (by simpa using short)]
    rfl

theorem spend_of_paid (paid : machine.tracing = true → toll ≤ levels) :
    spend toll levels machine = .ok () machine := by
  rw [spend_apply, if_neg]
  rintro ⟨wanted, short⟩
  exact Nat.not_lt.mpr (paid wanted) short

theorem spend_of_short (wanted : machine.tracing = true) (short : levels < toll) :
    spend toll levels machine = .error .overNested machine := by
  rw [spend_apply, if_pos ⟨wanted, short⟩]

/-- If the line about it is paid for, a scope is opened as it is without tolls. -/
theorem enterTolled_of_paid (paid : machine.tracing = true → toll ≤ levels) :
    enterTolled toll levels machine = enterScope machine := by
  rw [enterTolled, enterScope, get_bind_apply, get_bind_apply]
  refine bind_apply_congr rfl ?_
  rintro ⟨handle, arena⟩ after -
  refine bind_apply_congr rfl fun _ entered sets => ?_
  cases sets
  exact bind_apply_ok (spend_of_paid paid)

theorem leaveTolled_of_paid (paid : machine.tracing = true → toll ≤ levels)
    (outer : Scope.Handle) : leaveTolled toll levels outer machine = leaveScope outer machine := by
  rw [leaveTolled, leaveScope, get_bind_apply, get_bind_apply]
  refine bind_apply_congr rfl fun _ middle sets => ?_
  refine bind_apply_congr rfl ?_
  rintro ⟨parent, arena⟩ after -
  refine bind_apply_congr rfl fun _ left sets => ?_
  cases sets
  exact bind_apply_ok (spend_of_paid paid)

end Operations

/-- The scopes are restored, and a trace is wanted if it was before. -/
structure Steady (machine after : Machine) : Prop extends Restored machine after where
  tracing : after.tracing = machine.tracing

namespace Steady

variable {machine middle after : Machine}

theorem refl (machine : Machine) : Steady machine machine :=
  ⟨.refl machine, rfl⟩

theorem trans (first : Steady machine middle) (second : Steady middle after) :
    Steady machine after :=
  ⟨first.toRestored.trans second.toRestored, second.tracing.trans first.tracing⟩

theorem note (machine : Machine) (lines : List String) : Steady machine (machine.note lines) := by
  refine ⟨.note machine lines, ?_⟩
  unfold Machine.note
  split <;> rfl

end Steady

/-- No step of a run makes the lines of the trace dearer. -/
theorem effectLaw_steady (tolls : Tolls) :
    EffectLaw (fun machine => Standing machine ∧ tolls.Spare machine) (fun _ => Steady) where
  values _ :=
    { refl := fun _ => .refl _
      trans := .trans
      onward := fun ⟨standing, spare⟩ steady =>
        ⟨steady.standing standing, fun wanted => spare (steady.tracing ▸ wanted)⟩
      assign := fun _ _ _ _ =>
        ⟨⟨rfl, Scope.Arena.links_bindAt _ _ _ _, Int.le_refl _⟩, rfl⟩ }
  standing := And.left
  restored := Steady.toRestored
  note {machine} _ lines _ := .note machine lines
  print _ _ _ := ⟨⟨rfl, rfl, Int.le_refl _⟩, rfl⟩
  declare _ _ _ _ := ⟨⟨rfl, Scope.Arena.links_bindAt _ _ _ _, Int.le_refl _⟩, rfl⟩
  inside {machine} := fun ⟨standing, spare⟩ =>
    ⟨machine.inside_entered.standing standing, spare⟩
  outside _ := fun ⟨standing, _⟩ steady =>
    ⟨steady.toRestored.outside standing, steady.tracing⟩

section Spared

variable {tolls : Tolls} {rounds levels : Nat} {machine : Machine}

theorem Tolls.Spare.paid (spare : tolls.Spare machine) {toll : Tolls → Nat}
    (free : toll Tolls.free = 0) (levels : Nat) : machine.tracing = true → toll tolls ≤ levels := by
  intro wanted
  rw [spare wanted, free]
  exact Nat.zero_le levels

/-- If lines are free, so is a block whose body is the same. -/
theorem inTolledScope_of_spare {body plain : Run Unit} (standing : Standing machine)
    (spare : tolls.Spare machine)
    (same : ∀ entered, enterScope machine = .ok () entered → body entered = plain entered)
    (steady : ∀ entered, enterScope machine = .ok () entered →
      Steady entered (leftBy plain entered)) :
    inTolledScope tolls levels body machine = inOwnScope plain machine := by
  refine bind_apply_congr rfl fun outer after gets => ?_
  cases gets
  refine bind_apply_congr (enterTolled_of_paid (spare.paid rfl levels)) fun _ entered enters => ?_
  have wanted : (leftBy plain entered).tracing = machine.tracing := by
    obtain ⟨told, opens⟩ := enterScope_eq_inside standing
    have isEntered := enters.symm.trans opens
    cases isEntered
    rw [(steady _ opens).tracing, (Steady.note machine.inside [told]).tracing]
    rfl
  have leaves (outer : Scope.Handle) : leaveTolled tolls.leaving levels outer
      (leftBy plain entered) = leaveScope outer (leftBy plain entered) :=
    leaveTolled_of_paid (fun tells => spare.paid rfl levels (wanted ▸ tells)) outer
  rw [leftBy] at leaves
  rw [andFinally, andFinally, same entered enters]
  cases ends : plain entered with
  | ok _ after | error _ after =>
      rw [ends] at leaves
      simp only [leaves]

/-- If lines are free, so is a block whose statements have the same effects. -/
theorem inTolledScope_inOrder (standing : Standing machine) (spare : tolls.Spare machine)
    (same : ∀ {begun : Machine}, Standing begun → tolls.Spare begun → ∀ statement,
      performTolled tolls rounds levels statement begun = perform rounds levels statement begun)
    (body : List Node) :
    inTolledScope tolls levels (inOrder (performTolled tolls rounds levels) body) machine =
      inOwnScope (inOrder (perform rounds levels) body) machine := by
  have law := effectLaw_steady tolls
  have passes := (law.values False).toPasses
  have keeps (statement : Node) : Keeps _ Steady (perform rounds levels statement) :=
    law.perform rounds levels False.elim
  refine inTolledScope_of_spare standing spare (fun entered enters => ?_) fun entered enters => ?_
  · refine inOrder_congr fun statement begun starts => ?_
    obtain ⟨stands, spares⟩ :=
      starts.keeps passes keeps (law.ready_of_enterScope ⟨standing, spare⟩ enters)
    exact same stands spares statement
  · exact Keeps.inOrder passes keeps body entered
      (law.ready_of_enterScope ⟨standing, spare⟩ enters)

/-- Where lines are free a statement has the effect that it has without tolls. -/
theorem performTolled_of_spare (standing : Standing machine) (spare : tolls.Spare machine)
    (rounds levels : Nat) (node : Node) :
    performTolled tolls rounds levels node machine = perform rounds levels node machine := by
  induction levels generalizing node machine with
  | zero => rfl
  | succ levels inductionHypothesis =>
      have law := effectLaw_steady tolls
      have spends : spend tolls.executing levels machine = .ok () machine :=
        spend_of_paid (spare.paid rfl levels)
      by_cases isBlock : ∃ body, node = .blockStmt body
      · obtain ⟨body, rfl⟩ := isBlock
        rw [performTolled_blockStmt, bind_apply_ok spends]
        change _ = (trace _ >>= fun _ => inOwnScope (inOrder (perform rounds levels) body)) machine
        refine bind_apply_congr rfl fun _ middle traces => ?_
        have isNoted : noted (.blockStmt body) machine = middle := by
          cases traces
          rfl
        subst isNoted
        obtain ⟨stands, spares⟩ : Standing (noted (.blockStmt body) machine) ∧
            tolls.Spare (noted (.blockStmt body) machine) :=
          (law.values False).onward ⟨standing, spare⟩ (.note machine _)
        exact inTolledScope_inOrder stands spares inductionHypothesis body
      · rw [performTolled_other tolls rounds levels (not_exists.mp isBlock), bind_apply_ok spends]
        refine performBy_of_calls (fun _ _ _ => rfl) fun inner begun calls => ?_
        obtain ⟨stands, spares⟩ := law.calls calls ⟨standing, spare⟩
        exact inductionHypothesis stands spares inner

/-- A program whose lines are free runs as it does without tolls. -/
theorem runTolled_of_spare (standing : Standing machine) (spare : tolls.Spare machine)
    (levels rounds : Nat) (statements : List Node) :
    runTolled tolls levels rounds statements machine =
      runProgram levels rounds statements machine := by
  have law := effectLaw_steady tolls
  refine runProgramBy_of_starts fun statement begun starts => ?_
  obtain ⟨stands, spares⟩ := starts.keeps (law.values False).toPasses
    (fun inner => law.perform rounds levels False.elim) ⟨standing, spare⟩
  exact performTolled_of_spare stands spares rounds levels statement

theorem session_of_spare (standing : Standing machine) (spare : tolls.Spare machine)
    (limits : Limits) (rounds : Nat) (treatment : Treatment) (source : List Char) :
    Session.runTolled tolls limits rounds treatment source machine =
      Session.run limits rounds treatment source machine := by
  refine bind_apply_congr rfl fun _ middle notes => ?_
  cases notes
  obtain ⟨stands, spares⟩ := ((effectLaw_steady tolls).values False).onward ⟨standing, spare⟩
    (.note machine (Reading.ofSource limits.parsing source).trace)
  split
  · exact bind_apply_congr (runTolled_of_spare stands spares _ rounds _) fun _ _ _ => rfl
  · rfl

theorem Call.leaveTolled_of_spare (call : Call) (standing : Standing machine)
    (spare : tolls.Spare machine) : call.leaveTolled tolls machine = call.leave machine := by
  cases call with
  | interpret levels rounds statements =>
      rw [leaveTolled, leftBy, runTolled_of_spare standing spare]
      rfl
  | evaluate levels expr => rfl
  | source limits rounds treatment text =>
      rw [leaveTolled, leftBy, session_of_spare standing spare]
      rfl

end Spared

end Evaluation

end TreeWalker
