import TreeWalker.Grammar.Fault

/-!
# Reading tokens

A parser moves a cursor over a token list, one token ahead of what it has
decided, and notes syntax errors as it goes.  It stops short in one of three
ways: a rule of the grammar rejects the next token, the nesting limit is
reached, or the list runs out, which it does only if it has no token for the end
of the source.  The cursor stays where it was when the parser stopped.
-/

namespace TreeWalker.Grammar

/-- Position in a token list, with what recovery needs to know: the kind of the
token before it and the number of blocks that are open. -/
structure Cursor where
  ahead : List Token
  position : Nat
  last : Option TokenKind
  openBlocks : Nat
  errors : List SyntaxError
deriving DecidableEq

/-- Cursor at the start of a token list. -/
def Cursor.atStart (tokens : List Token) : Cursor :=
  ⟨tokens, 0, none, 0, []⟩

/-- Why a parser stops without a result. -/
inductive Stop where
  | rejected
  | overNested
  | exhausted
deriving DecidableEq, Repr

/-- A parser. -/
abbrev Parser :=
  EStateM Stop Cursor

/-- The next token. -/
def nextToken : Parser Token := fun cursor =>
  match cursor.ahead with
  | [] => .error .exhausted cursor
  | token :: _ => .ok token cursor

/-- Move past the next token. -/
def passToken : Parser Unit := fun cursor =>
  match cursor.ahead with
  | [] => .error .exhausted cursor
  | token :: rest =>
    .ok () { cursor with
      ahead := rest, position := cursor.position + 1, last := some token.kind }

/-- Note a fault at a token. -/
def note (position : Nat) (token : Token) (fault : Fault) : Parser Unit :=
  modify fun cursor => { cursor with errors := cursor.errors ++ [⟨position, token, fault⟩] }

/-- Note a fault at the next token. -/
def noteNext (fault : Fault) : Parser Unit := do
  let token ← nextToken
  note (← get).position token fault

/-- Reject the next token. -/
def reject {α : Type} (fault : Fault) : Parser α := do
  noteNext fault
  throw .rejected

/-- Take the next token if its kind is accepted. -/
def accept? (accepts : TokenKind → Bool) : Parser (Option Token) := do
  let token ← nextToken
  if accepts token.kind then
    passToken
    return some token
  else
    return none

/-- Take a token of the given kind, or reject the next token. -/
def expect (kind : TokenKind) (fault : Fault) : Parser Token := do
  match ← accept? (· == kind) with
  | some token => return token
  | none => reject fault

/-- Collect items up to a token that ends them.  An item that comes to nothing
is left out.  Each item takes a token, so the number of tokens ahead bounds the
number of items. -/
def collect {α : Type} (ends : TokenKind → Bool) (item : Parser (Option α)) :
    (fuel : Nat) → (collected : List α) → Parser (List α)
  | fuel, collected => do
    let token ← nextToken
    if ends token.kind then
      return collected.reverse
    else
      match fuel with
      | 0 => throw .exhausted
      | fuel + 1 =>
        match ← item with
        | some a => collect ends item fuel (a :: collected)
        | none => collect ends item fuel collected

/-- All items up to a token that ends them. -/
def many {α : Type} (ends : TokenKind → Bool) (item : Parser (Option α)) : Parser (List α) := do
  collect ends item (← get).ahead.length []

/-! ## Recovery -/

/-- Whether parsing may go on at the next token: a statement has just been
ended, or the token begins one, ends the open block or ends the source. -/
def atBoundary (cursor : Cursor) (next : TokenKind) : Bool :=
  cursor.last == some (.symbol .semicolon) ||
    match next with
    | .eof => true
    | .keyword keyword => keyword.startsStatement
    | .symbol .rightBrace => 0 < cursor.openBlocks
    | _ => false

/-- Skip the given tokens, which lie ahead, up to a boundary. -/
def skipToBoundary : List Token → Parser Unit
  | [] => throw .exhausted
  | token :: rest => do
    if atBoundary (← get) token.kind then
      return ()
    else
      passToken
      skipToBoundary rest

/-- Go on after a declaration that began at the given position has failed.  If
it took no token, its first token is skipped, so that the parser does not try it
again. -/
def recover (start : Nat) : Parser Unit := do
  let token ← nextToken
  if (← get).position == start && token.kind != .eof then
    passToken
  skipToBoundary (← get).ahead

/-- Run a parser, and recover if it rejects a token. -/
def recovering {α : Type} (start : Nat) (parser : Parser α) : Parser (Option α) := fun cursor =>
  match parser cursor with
  | .ok a after => .ok (some a) after
  | .error .rejected after => (recover start *> pure none : Parser (Option α)) after
  | .error stop after => .error stop after

/-- Give up a declaration that is nested too deeply.  All blocks it has opened
count as closed. -/
def abandon (start : Nat) : Parser Unit := do
  noteNext .nesting
  modify fun cursor => { cursor with openBlocks := 0 }
  recover start

/-- Run a parser, and give it up if it is nested too deeply. -/
def abandoning {α : Type} (start : Nat) (parser : Parser (Option α)) : Parser (Option α) :=
  fun cursor =>
    match parser cursor with
    | .error .overNested after => (abandon start *> pure none : Parser (Option α)) after
    | result => result

end TreeWalker.Grammar
