import TreeWalker.Grammar.Program

/-!
# The grammar

The rules of the language as derivations.  A derivation says that a word, that
is a list of tokens, has a certain form, and which tree belongs to it.

The rules are a little more liberal than the language: any operation may stand
to the left of an assignment.  If it is no variable, the tree of the assignment
is that of its left side alone, and its `=` counts as stray.  A derivation lists
the stray tokens of its word; the programs of the language are the words with a
derivation that has none.
-/

namespace TreeWalker

/-- Whether a statement ends in an `if` that could still take an `else`. -/
def Node.endsOpen : Node → Bool
  | .ifStmt _ _ .absent => true
  | .ifStmt _ _ elseBranch => elseBranch.endsOpen
  | .whileStmt _ body => body.endsOpen
  | _ => false

namespace Grammar

/-- The forms of expressions.  An operation consists of operators of the given
levels, from the loosest to the tightest, and of operands. -/
inductive Category where
  | operand
  | operation (levels : List Level)
  | expression
  | parenthesized

/-- The tree of an assignment. -/
def assigned (target value : Node) : Node :=
  match target with
  | .reference name => .assign name value
  | _ => target

/-- The stray token of an assignment, if its target is no variable. -/
def strayFor (target : Node) (equal : Token) : List Token :=
  match target with
  | .reference _ => []
  | _ => [equal]

/-- Derivations of expressions: their trees, their words and the stray tokens in
these. -/
inductive Phrase : Category → Node → List Token → List Token → Prop where
  | literal {token : Token} {value : Value} (constant : literalValue? token = some value) :
    Phrase .operand (.literal value) [token] []
  | reference {name : Token} (isName : name.kind = .identifier) :
    Phrase .operand (.reference name) [name] []
  | grouping {inner : Node} {word strays : List Token}
    (phrase : Phrase .parenthesized inner word strays) :
    Phrase .operand (.grouping inner) word strays
  | unary {operator : Token} {operand : Node} {word strays : List Token}
    (isOperator : isUnaryOperator operator.kind = true)
    (phrase : Phrase .operand operand word strays) :
    Phrase .operand (.unary operator operand) (operator :: word) strays
  | tightest {node : Node} {word strays : List Token} (phrase : Phrase .operand node word strays) :
    Phrase (.operation []) node word strays
  | tighter {level : Level} {levels : List Level} {node : Node} {word strays : List Token}
    (phrase : Phrase (.operation levels) node word strays) :
    Phrase (.operation (level :: levels)) node word strays
  | apply {level : Level} {levels : List Level} {left right : Node} {operator : Token}
    {leftWord rightWord leftStrays rightStrays : List Token}
    (leftPhrase : Phrase (.operation (level :: levels)) left leftWord leftStrays)
    (isOperator : level.accepts operator.kind = true)
    (rightPhrase : Phrase (.operation levels) right rightWord rightStrays) :
    Phrase (.operation (level :: levels)) (level.node left operator right)
      (leftWord ++ operator :: rightWord) (leftStrays ++ rightStrays)
  | plain {node : Node} {word strays : List Token}
    (phrase : Phrase (.operation Level.all) node word strays) :
    Phrase .expression node word strays
  | assign {target value : Node} {equal : Token}
    {targetWord valueWord targetStrays valueStrays : List Token}
    (targetPhrase : Phrase (.operation Level.all) target targetWord targetStrays)
    (isEqual : equal.kind = .symbol .equal)
    (valuePhrase : Phrase .expression value valueWord valueStrays) :
    Phrase .expression (assigned target value) (targetWord ++ equal :: valueWord)
      (targetStrays ++ (valueStrays ++ strayFor target equal))
  | parenthesized {opening closing : Token} {inner : Node} {word strays : List Token}
    (isOpening : opening.kind = .symbol .leftParen)
    (phrase : Phrase .expression inner word strays)
    (isClosing : closing.kind = .symbol .rightParen) :
    Phrase .parenthesized inner (opening :: (word ++ [closing])) strays

/-- The forms of statements.  A body is what a block encloses and what a program
consists of. -/
inductive Part where
  | statement
  | declaration
  | body

/-- Derivations of statements: their trees, their words and the stray tokens in
these.  The tree of a body is that of a block. -/
inductive Clause : Part → Node → List Token → List Token → Prop where
  | expression {expr : Node} {word strays : List Token} {semicolon : Token}
    (phrase : Phrase .expression expr word strays)
    (isSemicolon : semicolon.kind = .symbol .semicolon) :
    Clause .statement (.exprStmt expr) (word ++ [semicolon]) strays
  | print {lead semicolon : Token} {expr : Node} {word strays : List Token}
    (isLead : lead.kind = .keyword .kwPrint)
    (phrase : Phrase .expression expr word strays)
    (isSemicolon : semicolon.kind = .symbol .semicolon) :
    Clause .statement (.printStmt expr) (lead :: (word ++ [semicolon])) strays
  | ifThen {lead : Token} {condition thenBranch : Node}
    {conditionWord thenWord conditionStrays thenStrays : List Token}
    (isLead : lead.kind = .keyword .kwIf)
    (phrase : Phrase .parenthesized condition conditionWord conditionStrays)
    (thenClause : Clause .statement thenBranch thenWord thenStrays) :
    Clause .statement (.ifStmt condition thenBranch .absent) (lead :: (conditionWord ++ thenWord))
      (conditionStrays ++ thenStrays)
  | ifElse {lead middle : Token} {condition thenBranch elseBranch : Node}
    {conditionWord thenWord elseWord conditionStrays thenStrays elseStrays : List Token}
    (isLead : lead.kind = .keyword .kwIf)
    (phrase : Phrase .parenthesized condition conditionWord conditionStrays)
    (thenClause : Clause .statement thenBranch thenWord thenStrays)
    (closed : thenBranch.endsOpen = false)
    (isElse : middle.kind = .keyword .kwElse)
    (elseClause : Clause .statement elseBranch elseWord elseStrays) :
    Clause .statement (.ifStmt condition thenBranch elseBranch)
      (lead :: (conditionWord ++ (thenWord ++ middle :: elseWord)))
      (conditionStrays ++ (thenStrays ++ elseStrays))
  | whileDo {lead : Token} {condition body : Node}
    {conditionWord bodyWord conditionStrays bodyStrays : List Token}
    (isLead : lead.kind = .keyword .kwWhile)
    (phrase : Phrase .parenthesized condition conditionWord conditionStrays)
    (bodyClause : Clause .statement body bodyWord bodyStrays) :
    Clause .statement (.whileStmt condition body) (lead :: (conditionWord ++ bodyWord))
      (conditionStrays ++ bodyStrays)
  | block {opening closing : Token} {body : List Node} {word strays : List Token}
    (isOpening : opening.kind = .symbol .leftBrace)
    (bodyClause : Clause .body (.blockStmt body) word strays)
    (isClosing : closing.kind = .symbol .rightBrace) :
    Clause .statement (.blockStmt body) (opening :: (word ++ [closing])) strays
  | statement {node : Node} {word strays : List Token}
    (clause : Clause .statement node word strays) :
    Clause .declaration node word strays
  | var {lead name semicolon : Token}
    (isLead : lead.kind = .keyword .kwVar) (isName : name.kind = .identifier)
    (isSemicolon : semicolon.kind = .symbol .semicolon) :
    Clause .declaration (.varStmt name .absent) [lead, name, semicolon] []
  | varInit {lead name equal semicolon : Token} {initializer : Node} {word strays : List Token}
    (isLead : lead.kind = .keyword .kwVar) (isName : name.kind = .identifier)
    (isEqual : equal.kind = .symbol .equal)
    (phrase : Phrase .expression initializer word strays)
    (isSemicolon : semicolon.kind = .symbol .semicolon) :
    Clause .declaration (.varStmt name initializer)
      (lead :: name :: equal :: (word ++ [semicolon])) strays
  | empty : Clause .body (.blockStmt []) [] []
  | item {node : Node} {nodes : List Node} {word restWord strays restStrays : List Token}
    (clause : Clause .declaration node word strays)
    (rest : Clause .body (.blockStmt nodes) restWord restStrays) :
    Clause .body (.blockStmt (node :: nodes)) (word ++ restWord) (strays ++ restStrays)

end Grammar

end TreeWalker
