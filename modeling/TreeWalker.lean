import TreeWalker.Main
import TreeWalker.Proofs.CommandLine.RunMode
import TreeWalker.Proofs.CommandLine.ShowMode
import TreeWalker.Proofs.CommandLine.Unreadable
import TreeWalker.Proofs.Evaluation.Declarations
import TreeWalker.Proofs.Evaluation.Dependence
import TreeWalker.Proofs.Evaluation.Independence
import TreeWalker.Proofs.Evaluation.Leaks
import TreeWalker.Proofs.Evaluation.Likeness
import TreeWalker.Proofs.Evaluation.Refinement
import TreeWalker.Proofs.Evaluation.Renaming
import TreeWalker.Proofs.Evaluation.Restoration
import TreeWalker.Proofs.Evaluation.Shadowing
import TreeWalker.Proofs.Evaluation.Stopping
import TreeWalker.Proofs.Evaluation.Tolls
import TreeWalker.Proofs.Evaluation.Tracing
import TreeWalker.Proofs.Grammar.Abandonment
import TreeWalker.Proofs.Grammar.Concatenation
import TreeWalker.Proofs.Grammar.Continuation
import TreeWalker.Proofs.Grammar.ErrorBounds
import TreeWalker.Proofs.Grammar.Exhaustion
import TreeWalker.Proofs.Grammar.Likeness
import TreeWalker.Proofs.Grammar.LoneExpression
import TreeWalker.Proofs.Grammar.Totality
import TreeWalker.Proofs.Lexical.Comment
import TreeWalker.Proofs.Lexical.Decomposition
import TreeWalker.Proofs.Lexical.Joining
import TreeWalker.Proofs.Lexical.Lines
import TreeWalker.Proofs.Lexical.Nesting
import TreeWalker.Proofs.Lexical.Recognition
import TreeWalker.Proofs.Lexical.Rules
import TreeWalker.Proofs.Lexical.Writing
import TreeWalker.Proofs.Scope.History
import TreeWalker.Proofs.Scope.Resolution
import TreeWalker.Proofs.Session.Concatenation
import TreeWalker.Proofs.Session.Debugging
import TreeWalker.Proofs.Session.Distinction
import TreeWalker.Proofs.Session.Layout
import TreeWalker.Proofs.Session.Places
import TreeWalker.Proofs.Session.ReversePolish
import TreeWalker.Proofs.Session.Running
import TreeWalker.Proofs.Session.Safety
import TreeWalker.Proofs.Session.SourceOrder
import TreeWalker.Proofs.Tree.Walk
