import TreeWalker.Proofs.Grammar.Abandonment
import TreeWalker.Proofs.Grammar.Concatenation
import TreeWalker.Proofs.Grammar.Termination

/-!
# What follows a program

Behind the tokens of a program that is parsed without a report, other tokens come to
what they come to on their own, whatever they are.  Each declaration of the program
ends where it did, unless an `else` makes the last one longer, and leaves the parser
outside of blocks with nothing noted.  Where the parser stands, and which token is
behind it, does not matter there.
-/

namespace TreeWalker.Grammar

variable {limit : Nat} {node : Node} {nodes : List Node} {body word more rest : List Token}
  {eof eof' : Token}

/-- A declaration that is taken is the first item of a program, and leaves no block
open and nothing noted. -/
theorem Takes.resumes (takes : Takes (declaration limit) (some node) word [] rest) :
    ∃ after, topDeclaration limit (Cursor.atStart (word ++ rest)) = .ok (some node) after ∧
      after.Resumes rest [] := by
  obtain ⟨after, run, past⟩ := takes_topDeclaration takes (Cursor.atStart (word ++ rest)) rfl
  exact ⟨after, run, past.ahead, topDeclaration_closes run rfl, past.errors_eq⟩

/-- The outcome of tokens that come after the given statements. -/
def Parsed.following (statements : List Node) (alone : Parsed (List Node)) :
    Parsed (List Node) :=
  ⟨statements ++ alone.result, alone.diagnostics⟩

/-- Declarations in a row are taken, and what follows them is parsed on its own. -/
theorem Declared.parsed_before (declared : Declared limit nodes word) (ended : Ended rest)
    (stopped : ∀ node, Stopped node rest) :
    parseWith (program limit) [] (word ++ rest) =
      (parseWith (program limit) [] rest).following nodes := by
  induction declared with
  | nil => rfl
  | @cons node nodes word restWord clause takes declared inductionHypothesis =>
      have restEnded := ended.append_left restWord
      obtain ⟨after, item, resumes⟩ :=
        (takes _ restEnded (declared.body.stopped stopped node)).resumes
      obtain ⟨token, tail, rfl, starts, _⟩ := clause.head (by simp)
      have whole : Ended (token :: (tail ++ (restWord ++ rest))) :=
        restEnded.append_left (token :: tail)
      -- Nothing of the cursor behind the first declaration is seen by the others.
      calc
        _ = parseWith (program limit) [] (token :: (tail ++ (restWord ++ rest))) := by
          rw [List.append_assoc]
          rfl
        _ = (parseWith (program limit) [] (restWord ++ rest)).following [node] :=
          parseWith_item item starts.1 whole resumes restEnded
        _ = (parseWith (program limit) [] rest).following (node :: nodes) := by
          rw [inductionHypothesis]
          rfl

/-- Behind what is parsed without a report, other tokens come to what they come to on
their own, whatever is wrong with them, unless they begin with an `else`. -/
theorem parsed_whatever_follows (inside : ∀ token ∈ body, token.kind ≠ .eof)
    (isEnd : eof.kind = .eof) (isEnd' : eof'.kind = .eof)
    (parsed : Parsed.ofProgram limit (body ++ [eof]) = ⟨nodes, []⟩)
    (noElse : ∀ token ∈ more.head?, token.kind ≠ .keyword .kwElse) :
    Parsed.ofProgram limit (body ++ more ++ [eof']) =
      (Parsed.ofProgram limit (more ++ [eof'])).following nodes := by
  have stopped (node : Node) : Stopped node (more ++ [eof']) := by
    rintro token isNext ⟨_, isElse⟩
    cases more with
    | nil =>
        cases isNext
        simp [isEnd'] at isElse
    | cons next others =>
        cases isNext
        exact noElse token rfl isElse
  rw [List.append_assoc]
  exact (declared_of_parsed inside isEnd parsed).parsed_before
    ((ended_singleton isEnd').append_left more) stopped

/-- The tokens `if (nil) print nil;`. -/
def branch : List Token :=
  [blankToken (.keyword .kwIf), blankToken (.symbol .leftParen), blankToken (.keyword .kwNil),
    blankToken (.symbol .rightParen)] ++ plainPrint

/-- In front of `} print nil;` the branch stays what it is, and the brace is reported as
it is without the branch. -/
theorem parsed_whatever_follows_brace :
    let node : Node := .ifStmt (.literal .nil) (.printStmt (.literal .nil)) .absent
    Parsed.ofProgram 100 (branch ++ [blankToken .eof]) = ⟨[node], []⟩ ∧
      Parsed.ofProgram 100 (branch ++ closing :: plainPrint ++ [blankToken .eof]) =
        (Parsed.ofProgram 100 (closing :: plainPrint ++ [blankToken .eof])).following [node] ∧
      (Parsed.ofProgram 100
        (closing :: plainPrint ++ [blankToken .eof])).diagnostics.length = 1 := by
  intro node
  have parsed : Parsed.ofProgram 100 (branch ++ [blankToken .eof]) = ⟨[node], []⟩ := rfl
  exact ⟨parsed, parsed_whatever_follows (by decide) rfl rfl parsed (by decide), rfl⟩

end TreeWalker.Grammar
