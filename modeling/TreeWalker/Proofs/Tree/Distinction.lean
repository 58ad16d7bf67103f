import TreeWalker.Proofs.Decimal.Text
import TreeWalker.Proofs.Grammar.Spelling
import TreeWalker.Proofs.Lexical.Recognition
import TreeWalker.Proofs.Tree.Likeness
import TreeWalker.Proofs.Tree.Outline

/-!
# Outlines tell programs apart

The outline of statements of a source, if no string and no infinite number is among
them, is that of no other such statements, but for the lines of their tokens.  A word
in the place of an operand is a name, a number or one of three keywords; a word in
front of operands is an operator, and the number of operands says which one where a
symbol stands for two.
-/

namespace TreeWalker

/-! ## Words of a source -/

/-- A token that the scanner makes of a piece of a text. -/
def Token.IsScanned (token : Token) : Prop :=
  ∃ kind text literal line rest, Lexical.Piece (.token kind literal) text rest ∧
    token = ⟨kind, String.ofList text, literal, line⟩

/-- The letters of a symbol or a keyword. -/
def TokenKind.letters? : TokenKind → Option (List Char)
  | symbol s => some s.spelling
  | keyword k => some k.spelling
  | _ => none

namespace Token

variable {token token' : Token}

theorem IsScanned.letters {letters : List Char} (scanned : token.IsScanned)
    (spelled : token.kind.letters? = some letters) :
    token.lexeme.toList = letters ∧ token.literal = .nil := by
  obtain ⟨kind, text, literal, line, rest, piece, rfl⟩ := scanned
  cases piece with
  | symbol | keyword =>
      cases spelled
      exact ⟨String.toList_ofList, rfl⟩
  | number | identifier | string => cases spelled

theorem IsScanned.identifier (scanned : token.IsScanned) (isName : token.kind = .identifier) :
    Lexical.IsWord token.lexeme.toList ∧ token.literal = .nil ∧
      ∀ keyword : Keyword, keyword.spelling ≠ token.lexeme.toList := by
  obtain ⟨kind, text, literal, line, rest, piece, rfl⟩ := scanned
  cases piece with
  | identifier longest noKeyword =>
      rw [String.toList_ofList]
      exact ⟨longest.belongs, rfl, noKeyword⟩
  | symbol | keyword | number | string => cases isName

end Token

/-- A value that is shown like no other one and like no name. -/
def Value.IsPlain : Value → Prop
  | nil | boolean _ => True
  | number x => (Decimal.Magnitude.ofFloat x).IsFinite
  | string _ | integer _ => False

/-! ## Solid words -/

theorem separates_of_isWordPart {c : Char} (part : Lexical.isWordPart c = true) :
    separates c = false := by
  by_contra separator
  rw [Bool.not_eq_false] at separator
  simp only [separates, Bool.or_eq_true, beq_iff_eq] at separator
  rcases separator with ((rfl | rfl) | rfl) | rfl <;> exact absurd part (by decide)

theorem isSolid_of_isWord {letters : List Char} (word : Lexical.IsWord letters) :
    IsSolid letters :=
  fun c member => separates_of_isWordPart (word.parts c member)

theorem separates_of_isPart {c : Char} (part : Decimal.IsPart c) : separates c = false := by
  by_contra separator
  rw [Bool.not_eq_false] at separator
  simp only [separates, Bool.or_eq_true, beq_iff_eq] at separator
  rcases separator with ((rfl | rfl) | rfl) | rfl <;> exact absurd part (by decide)

namespace Value

variable {value value' : Value}

theorem IsPlain.isSolid (plain : value.IsPlain) : IsSolid value.display.toList := by
  cases value with
  | nil => decide
  | boolean b => cases b <;> decide
  | number x =>
      obtain ⟨c, rest, same, -, parts⟩ := Decimal.shownNumber_parts plain
      rw [display, same]
      exact fun d member => separates_of_isPart (parts d member)
  | string text | integer n => exact plain.elim

/-- A plain value is shown by a keyword, or by a number. -/
theorem IsPlain.display_cases (plain : value.IsPlain) :
    (∃ keyword : Keyword, value.display.toList = keyword.spelling) ∨
      ∃ c rest, value.display.toList = c :: rest ∧ (c.isDigit = true ∨ c = '-') := by
  cases value with
  | nil => exact Or.inl ⟨.kwNil, rfl⟩
  | boolean b =>
      cases b with
      | true => exact Or.inl ⟨.kwTrue, rfl⟩
      | false => exact Or.inl ⟨.kwFalse, rfl⟩
  | number x =>
      obtain ⟨c, rest, same, first, -⟩ := Decimal.shownNumber_parts plain
      exact Or.inr ⟨c, rest, same, first⟩
  | string text | integer n => exact plain.elim

/-- No number is shown like a keyword. -/
theorem shownNumber_ne_keyword {x : Float} (isFinite : (Decimal.Magnitude.ofFloat x).IsFinite)
    (keyword : Keyword) : (shownNumber x).toList ≠ keyword.spelling := by
  obtain ⟨c, rest, same, first, -⟩ := Decimal.shownNumber_parts isFinite
  rw [same]
  cases keyword <;> rintro ⟨⟩ <;> exact absurd first (by decide)

theorem IsPlain.eq_of_display (plain : value.IsPlain) (plain' : value'.IsPlain)
    (same : value.display.toList = value'.display.toList) : value = value' := by
  cases value with
  | nil =>
      cases value' with
      | nil => rfl
      | boolean b => cases b <;> exact absurd same (by decide)
      | number x => exact absurd same.symm (shownNumber_ne_keyword plain' .kwNil)
      | string text | integer n => exact plain'.elim
  | boolean b =>
      cases value' with
      | nil => cases b <;> exact absurd same (by decide)
      | boolean b' => cases b <;> cases b' <;> first | rfl | exact absurd same (by decide)
      | number x =>
          cases b with
          | true => exact absurd same.symm (shownNumber_ne_keyword plain' .kwTrue)
          | false => exact absurd same.symm (shownNumber_ne_keyword plain' .kwFalse)
      | string text | integer n => exact plain'.elim
  | number x =>
      cases value' with
      | nil => exact absurd same (shownNumber_ne_keyword plain .kwNil)
      | boolean b =>
          cases b with
          | true => exact absurd same (shownNumber_ne_keyword plain .kwTrue)
          | false => exact absurd same (shownNumber_ne_keyword plain .kwFalse)
      | number x' => rw [Decimal.eq_of_shownNumber plain plain' (String.toList_inj.mp same)]
      | string text | integer n => exact plain'.elim
  | string text | integer n => exact plain.elim

/-- No name is shown like a plain value. -/
theorem IsPlain.display_ne_name (plain : value.IsPlain) {name : Token} (scanned : name.IsScanned)
    (isName : name.kind = .identifier) : value.display.toList ≠ name.lexeme.toList := by
  obtain ⟨⟨c, others, letters, start, -⟩, -, noKeyword⟩ := scanned.identifier isName
  intro same
  rcases plain.display_cases with ⟨keyword, isKeyword⟩ | ⟨d, rest, number, first⟩
  · exact noKeyword keyword (isKeyword.symm.trans same)
  · rw [number, letters] at same
    obtain ⟨rfl, -⟩ := List.cons.inj same
    rcases first with digit | rfl
    · rw [Lexical.isWordStart_of_isDigit digit] at start
      cases start
    · exact absurd start (by decide)

end Value

/-! ## Operators -/

/-- Symbols and keywords are told apart by their letters. -/
theorem TokenKind.eq_of_letters {kind kind' : TokenKind} {letters : List Char}
    (spelled : kind.letters? = some letters) (spelled' : kind'.letters? = some letters) :
    kind = kind' := by
  have noKeyword (s : Symbol) : Keyword.ofSpelling? s.spelling = none := by cases s <;> decide
  cases kind with
  | symbol s =>
      cases spelled
      cases kind' with
      | symbol s' =>
          have same := congrArg Symbol.ofSpelling? (Option.some.inj spelled')
          rw [Symbol.ofSpelling?_spelling, Symbol.ofSpelling?_spelling] at same
          rw [Option.some.inj same]
      | keyword k =>
          have same := congrArg Keyword.ofSpelling? (Option.some.inj spelled')
          rw [Keyword.ofSpelling?_spelling, noKeyword] at same
          cases same
      | _ => cases spelled'
  | keyword k =>
      cases spelled
      cases kind' with
      | symbol s =>
          have same := congrArg Keyword.ofSpelling? (Option.some.inj spelled')
          rw [Keyword.ofSpelling?_spelling, noKeyword] at same
          cases same
      | keyword k' =>
          have same := congrArg Keyword.ofSpelling? (Option.some.inj spelled')
          rw [Keyword.ofSpelling?_spelling, Keyword.ofSpelling?_spelling] at same
          rw [Option.some.inj same]
      | _ => cases spelled'
  | _ => cases spelled

namespace Token

/-- The tokens are alike but for their lines. -/
abbrev SameButLine (token token' : Token) : Prop :=
  token.Alike (fun _ _ => True) token'

variable {token token' : Token}

theorem IsScanned.same_of_letters {letters letters' : List Char} (scanned : token.IsScanned)
    (scanned' : token'.IsScanned) (spelled : token.kind.letters? = some letters)
    (spelled' : token'.kind.letters? = some letters')
    (same : token.lexeme.toList = token'.lexeme.toList) : token.SameButLine token' := by
  obtain ⟨lexeme, literal⟩ := scanned.letters spelled
  obtain ⟨lexeme', literal'⟩ := scanned'.letters spelled'
  obtain rfl : letters = letters' := lexeme.symm.trans (same.trans lexeme')
  exact ⟨TokenKind.eq_of_letters spelled spelled', String.toList_inj.mp same,
    literal.trans literal'.symm, trivial⟩

theorem IsScanned.same_of_name (scanned : token.IsScanned) (scanned' : token'.IsScanned)
    (isName : token.kind = .identifier) (isName' : token'.kind = .identifier)
    (same : token.lexeme.toList = token'.lexeme.toList) : token.SameButLine token' :=
  ⟨isName.trans isName'.symm, String.toList_inj.mp same,
    (scanned.identifier isName).2.1.trans (scanned'.identifier isName').2.1.symm, trivial⟩

end Token

/-! ## Plain trees -/

namespace Node

/-- An expression of scanned tokens and of values that are shown like no others. -/
def IsPlainExpression : Node → Prop
  | literal value => value.IsPlain
  | grouping inner => inner.IsPlainExpression
  | unary operator operand =>
    (operator.kind = .symbol .bang ∨ operator.kind = .symbol .minus) ∧ operator.IsScanned ∧
      operand.IsPlainExpression
  | binary left operator right =>
    (binaryStrength? operator.kind).isSome ∧ operator.IsScanned ∧ left.IsPlainExpression ∧
      right.IsPlainExpression
  | logical left operator right =>
    (logicalStrength? operator.kind).isSome ∧ operator.IsScanned ∧ left.IsPlainExpression ∧
      right.IsPlainExpression
  | reference name => name.kind = .identifier ∧ name.IsScanned
  | assign name value => name.kind = .identifier ∧ name.IsScanned ∧ value.IsPlainExpression
  | _ => False

mutual

/-- A statement or declaration of scanned tokens and of such values. -/
def IsPlainStatement : Node → Prop
  | exprStmt expr | printStmt expr => expr.IsPlainExpression
  | varStmt name initializer =>
    name.kind = .identifier ∧ name.IsScanned ∧
      (initializer = .absent ∨ initializer.IsPlainExpression)
  | blockStmt body => ArePlain body
  | ifStmt condition thenBranch elseBranch =>
    condition.IsPlainExpression ∧ thenBranch.IsPlainStatement ∧
      (elseBranch = .absent ∨ elseBranch.IsPlainStatement)
  | whileStmt condition body => condition.IsPlainExpression ∧ body.IsPlainStatement
  | _ => False

/-- Several such statements. -/
def ArePlain : List Node → Prop
  | [] => True
  | node :: nodes => node.IsPlainStatement ∧ ArePlain nodes

end

theorem arePlain_iff {nodes : List Node} :
    ArePlain nodes ↔ ∀ node ∈ nodes, node.IsPlainStatement := by
  induction nodes with
  | nil => simp [ArePlain]
  | cons node nodes inductionHypothesis => simp [ArePlain, inductionHypothesis]

/-! ## Expressions -/

variable {operator operator' : Token}

/-- A binary operator is spelled in its own way, and not like an assignment. -/
theorem letters_of_binary (isBinary : (binaryStrength? operator.kind).isSome) :
    ∃ letters, operator.kind.letters? = some letters ∧ IsSolid letters ∧ letters ≠ ['='] := by
  unfold binaryStrength? at isBinary
  split at isBinary
  all_goals
    first
    | next kind => exact ⟨_, by rw [kind]; rfl, by decide, by decide⟩
    | cases isBinary

theorem letters_of_logical (isLogical : (logicalStrength? operator.kind).isSome) :
    ∃ letters, operator.kind.letters? = some letters ∧ IsSolid letters ∧ letters ≠ ['='] := by
  unfold logicalStrength? at isLogical
  split at isLogical
  all_goals
    first
    | next kind => exact ⟨_, by rw [kind]; rfl, by decide, by decide⟩
    | cases isLogical

theorem letters_of_unary
    (isUnary : operator.kind = .symbol .bang ∨ operator.kind = .symbol .minus) :
    ∃ letters, operator.kind.letters? = some letters ∧ IsSolid letters ∧
      letters ≠ "group".toList := by
  rcases isUnary with kind | kind <;> exact ⟨_, by rw [kind]; rfl, by decide, by decide⟩

/-- No binary operator is a logical one. -/
theorem binary_ne_logical (isBinary : (binaryStrength? operator.kind).isSome)
    (isLogical : (logicalStrength? operator'.kind).isSome) :
    operator.kind ≠ operator'.kind := by
  intro same
  rw [same] at isBinary
  unfold logicalStrength? at isLogical
  split at isLogical
  all_goals
    first
    | next kind => 
      rw [kind] at isBinary
      cases isBinary
    | cases isLogical

/-- The trees are alike but for the lines of their tokens. -/
abbrev SameButLines (node node' : Node) : Prop :=
  node.Alike (fun _ _ => True) node'

/-- Plain expressions are shown as forms that can be read. -/
theorem IsPlainExpression.isLegible {node : Node} (plain : node.IsPlainExpression) :
    node.form.IsLegible := by
  induction node using Node.inductionOn with
  | literal value => exact Value.IsPlain.isSolid plain
  | grouping inner inductionHypothesis => exact ⟨by decide, inductionHypothesis plain⟩
  | unary operator operand inductionHypothesis =>
      obtain ⟨isUnary, scanned, operandPlain⟩ := plain
      obtain ⟨letters, spelled, solid, -⟩ := letters_of_unary isUnary
      exact ⟨(scanned.letters spelled).1 ▸ solid, inductionHypothesis operandPlain⟩
  | binary left operator right leftHypothesis rightHypothesis =>
      obtain ⟨isBinary, scanned, leftPlain, rightPlain⟩ := plain
      obtain ⟨letters, spelled, solid, -⟩ := letters_of_binary isBinary
      exact ⟨(scanned.letters spelled).1 ▸ solid, leftHypothesis leftPlain,
        rightHypothesis rightPlain⟩
  | logical left operator right leftHypothesis rightHypothesis =>
      obtain ⟨isLogical, scanned, leftPlain, rightPlain⟩ := plain
      obtain ⟨letters, spelled, solid, -⟩ := letters_of_logical isLogical
      exact ⟨(scanned.letters spelled).1 ▸ solid, leftHypothesis leftPlain,
        rightHypothesis rightPlain⟩
  | reference name => exact isSolid_of_isWord (plain.2.identifier plain.1).1
  | assign name value inductionHypothesis =>
      obtain ⟨isName, scanned, valuePlain⟩ := plain
      exact ⟨by decide, isSolid_of_isWord (scanned.identifier isName).1,
        inductionHypothesis valuePlain⟩
  | absent | exprStmt | printStmt | varStmt | blockStmt | ifStmt | whileStmt => exact plain.elim

/-- Plain expressions that are shown alike are alike. -/
theorem IsPlainExpression.same_of_form {node node' : Node} (plain : node.IsPlainExpression)
    (plain' : node'.IsPlainExpression) (same : node.form = node'.form) :
    node.SameButLines node' := by
  induction node using Node.inductionOn generalizing node' with
  | literal value =>
      cases node' with
      | literal value' =>
          obtain rfl := Value.IsPlain.eq_of_display plain plain' (Form.word.inj same)
          exact .literal
      | reference name' =>
          exact absurd (Form.word.inj same) (Value.IsPlain.display_ne_name plain plain'.2 plain'.1)
      | grouping | unary | binary | logical | assign => cases same
      | _ => exact plain'.elim
  | grouping inner inductionHypothesis =>
      cases node' with
      | grouping inner' =>
          exact .grouping (inductionHypothesis plain plain' (Form.one.inj same).2)
      | unary operator' operand' =>
          obtain ⟨letters, spelled, -, noGroup⟩ := letters_of_unary plain'.1
          have head := (Form.one.inj same).1
          rw [(plain'.2.1.letters spelled).1] at head
          exact absurd head.symm noGroup
      | literal | reference | binary | logical | assign => cases same
      | _ => exact plain'.elim
  | unary operator operand inductionHypothesis =>
      obtain ⟨isUnary, scanned, operandPlain⟩ := plain
      obtain ⟨letters, spelled, -, noGroup⟩ := letters_of_unary isUnary
      cases node' with
      | grouping inner' =>
          have head := (Form.one.inj same).1
          rw [(scanned.letters spelled).1] at head
          exact absurd head noGroup
      | unary operator' operand' =>
          obtain ⟨isUnary', scanned', operandPlain'⟩ := plain'
          obtain ⟨letters', spelled', -, -⟩ := letters_of_unary isUnary'
          obtain ⟨heads, operands⟩ := Form.one.inj same
          exact .unary (scanned.same_of_letters scanned' spelled spelled' heads)
            (inductionHypothesis operandPlain operandPlain' operands)
      | literal | reference | binary | logical | assign => cases same
      | _ => exact plain'.elim
  | binary left operator right leftHypothesis rightHypothesis =>
      obtain ⟨isBinary, scanned, leftPlain, rightPlain⟩ := plain
      obtain ⟨letters, spelled, -, noEqual⟩ := letters_of_binary isBinary
      cases node' with
      | binary left' operator' right' =>
          obtain ⟨isBinary', scanned', leftPlain', rightPlain'⟩ := plain'
          obtain ⟨letters', spelled', -, -⟩ := letters_of_binary isBinary'
          obtain ⟨heads, lefts, rights⟩ := Form.two.inj same
          exact .binary (leftHypothesis leftPlain leftPlain' lefts)
            (scanned.same_of_letters scanned' spelled spelled' heads)
            (rightHypothesis rightPlain rightPlain' rights)
      | logical left' operator' right' =>
          obtain ⟨isLogical', scanned', -, -⟩ := plain'
          obtain ⟨letters', spelled', -, -⟩ := letters_of_logical isLogical'
          have operators :=
            scanned.same_of_letters scanned' spelled spelled' (Form.two.inj same).1
          exact absurd operators.kind (binary_ne_logical isBinary isLogical')
      | assign name' value' =>
          have head := (Form.two.inj same).1
          rw [(scanned.letters spelled).1] at head
          exact absurd head noEqual
      | literal | reference | grouping | unary => cases same
      | _ => exact plain'.elim
  | logical left operator right leftHypothesis rightHypothesis =>
      obtain ⟨isLogical, scanned, leftPlain, rightPlain⟩ := plain
      obtain ⟨letters, spelled, -, noEqual⟩ := letters_of_logical isLogical
      cases node' with
      | binary left' operator' right' =>
          obtain ⟨isBinary', scanned', -, -⟩ := plain'
          obtain ⟨letters', spelled', -, -⟩ := letters_of_binary isBinary'
          have operators :=
            scanned.same_of_letters scanned' spelled spelled' (Form.two.inj same).1
          exact absurd operators.kind.symm (binary_ne_logical isBinary' isLogical)
      | logical left' operator' right' =>
          obtain ⟨isLogical', scanned', leftPlain', rightPlain'⟩ := plain'
          obtain ⟨letters', spelled', -, -⟩ := letters_of_logical isLogical'
          obtain ⟨heads, lefts, rights⟩ := Form.two.inj same
          exact .logical (leftHypothesis leftPlain leftPlain' lefts)
            (scanned.same_of_letters scanned' spelled spelled' heads)
            (rightHypothesis rightPlain rightPlain' rights)
      | assign name' value' =>
          have head := (Form.two.inj same).1
          rw [(scanned.letters spelled).1] at head
          exact absurd head noEqual
      | literal | reference | grouping | unary => cases same
      | _ => exact plain'.elim
  | reference name =>
      cases node' with
      | literal value' =>
          exact absurd (Form.word.inj same).symm
            (Value.IsPlain.display_ne_name plain' plain.2 plain.1)
      | reference name' =>
          exact .reference (plain.2.same_of_name plain'.2 plain.1 plain'.1 (Form.word.inj same))
      | grouping | unary | binary | logical | assign => cases same
      | _ => exact plain'.elim
  | assign name value inductionHypothesis =>
      obtain ⟨isName, scanned, valuePlain⟩ := plain
      cases node' with
      | binary left' operator' right' =>
          obtain ⟨letters', spelled', -, noEqual⟩ := letters_of_binary plain'.1
          have head := (Form.two.inj same).1
          rw [(plain'.2.1.letters spelled').1] at head
          exact absurd head.symm noEqual
      | logical left' operator' right' =>
          obtain ⟨letters', spelled', -, noEqual⟩ := letters_of_logical plain'.1
          have head := (Form.two.inj same).1
          rw [(plain'.2.1.letters spelled').1] at head
          exact absurd head.symm noEqual
      | assign name' value' =>
          obtain ⟨isName', scanned', valuePlain'⟩ := plain'
          obtain ⟨-, names, values⟩ := Form.two.inj same
          exact .assign (scanned.same_of_name scanned' isName isName' (Form.word.inj names))
            (inductionHypothesis valuePlain valuePlain' values)
      | literal | reference | grouping | unary => cases same
      | _ => exact plain'.elim
  | absent | exprStmt | printStmt | varStmt | blockStmt | ifStmt | whileStmt => exact plain.elim

/-! ## Statements -/

/-- What may come after the lines of a statement: nothing that is indented further, and
no `Else` that would belong to it. -/
def EndsStatement (indent : Nat) (rest : List Line) : Prop :=
  ∀ line ∈ rest.head?, line.indent ≤ indent ∧
    (line.indent = indent → line.keyword ≠ "Else".toList)

/-- What may come after the lines of several statements. -/
def EndsBody (indent : Nat) (rest : List Line) : Prop :=
  ∀ line ∈ rest.head?, line.indent < indent

variable {indent : Nat} {rest rest' : List Line} {node node' : Node}

/-- The lines after those of a then branch. -/
def elseLines (indent : Nat) : Node → List Line
  | absent => []
  | elseBranch => ⟨indent, "Else".toList, []⟩ :: elseBranch.lines (indent + 1)

theorem lines_ifStmt (condition thenBranch elseBranch : Node) :
    (ifStmt condition thenBranch elseBranch).lines indent =
      ⟨indent, "If".toList, [condition.form]⟩ ::
        (thenBranch.lines (indent + 1) ++ elseBranch.elseLines indent) := by
  cases elseBranch <;> simp [lines, elseLines]

theorem lines_varStmt (name : Token) {initializer : Node} (present : initializer ≠ .absent) :
    (varStmt name initializer).lines indent =
      [⟨indent, "Var".toList,
        [.word name.lexeme.toList, .word "=".toList, initializer.form]⟩] := by
  cases initializer with
  | absent => exact absurd rfl present
  | _ => rfl

theorem ne_absent_of_isPlainExpression (plain : node.IsPlainExpression) : node ≠ .absent := by
  rintro rfl
  exact plain

theorem elseLines_of_isPlainStatement (plain : node.IsPlainStatement) :
    node.elseLines indent = ⟨indent, "Else".toList, []⟩ :: node.lines (indent + 1) := by
  cases node with
  | absent => exact plain.elim
  | _ => rfl

/-- The first line of a statement is indented like the statement, and has the name of
its kind in front. -/
theorem lines_eq_cons (plain : node.IsPlainStatement) (indent : Nat) :
    ∃ forms more, node.lines indent = ⟨indent, node.kindName.toList, forms⟩ :: more := by
  cases node with
  | exprStmt | printStmt | blockStmt | whileStmt => exact ⟨_, _, rfl⟩
  | varStmt name initializer => cases initializer <;> exact ⟨_, _, rfl⟩
  | ifStmt condition thenBranch elseBranch => exact ⟨_, _, lines_ifStmt _ _ _⟩
  | _ => exact plain.elim

theorem kindName_ne_else (plain : node.IsPlainStatement) :
    node.kindName.toList ≠ "Else".toList := by
  cases node with
  | exprStmt | printStmt | varStmt | blockStmt | ifStmt | whileStmt => simp [kindName]
  | _ => exact plain.elim

theorem kindName_eq_of_lines (plain : node.IsPlainStatement) (plain' : node'.IsPlainStatement)
    (same : node.lines indent ++ rest = node'.lines indent ++ rest') :
    node.kindName = node'.kindName := by
  obtain ⟨forms, more, lines⟩ := lines_eq_cons plain indent
  obtain ⟨forms', more', lines'⟩ := lines_eq_cons plain' indent
  rw [lines, lines'] at same
  have heads := (List.cons.inj same).1
  exact String.toList_inj.mp (Line.mk.inj heads).2.1

/-- The statement is read off its lines. -/
def IsReadOff (node : Node) : Prop :=
  ∀ {indent : Nat} {node' : Node} {rest rest' : List Line}, node'.IsPlainStatement →
    EndsStatement indent rest → EndsStatement indent rest' →
      node.lines indent ++ rest = node'.lines indent ++ rest' →
        node.SameButLines node' ∧ rest = rest'

/-- After a statement there is the next one, or nothing that is as far inside. -/
theorem endsStatement_of_body {nodes : List Node} (plain : ∀ node ∈ nodes, node.IsPlainStatement)
    (ends : EndsBody indent rest) : EndsStatement indent (linesOfAll indent nodes ++ rest) := by
  cases nodes with
  | nil =>
      intro line first
      have inside := ends line first
      exact ⟨inside.le, fun same => absurd same inside.ne⟩
  | cons node nodes =>
      have first := plain node List.mem_cons_self
      obtain ⟨forms, more, lines⟩ := lines_eq_cons first indent
      rw [linesOfAll, lines]
      rintro _ ⟨⟩
      exact ⟨Nat.le_refl _, fun _ => kindName_ne_else first⟩

theorem same_of_linesOfAll {nodes nodes' : List Node} (each : ∀ node ∈ nodes, node.IsReadOff)
    (plain : ∀ node ∈ nodes, node.IsPlainStatement)
    (plain' : ∀ node ∈ nodes', node.IsPlainStatement) (ends : EndsBody indent rest)
    (ends' : EndsBody indent rest')
    (same : linesOfAll indent nodes ++ rest = linesOfAll indent nodes' ++ rest') :
    AllAlike (fun _ _ => True) nodes nodes' ∧ rest = rest' := by
  -- A statement of the body is further inside than what comes after the body.
  have apart {node : Node} {more rest : List Line} (plain : node.IsPlainStatement)
      (ends : EndsBody indent rest) : rest ≠ node.lines indent ++ more := by
    intro same
    obtain ⟨forms, others, lines⟩ := lines_eq_cons plain indent
    rw [lines] at same
    exact absurd (ends _ (by rw [same]; rfl)) (Nat.lt_irrefl _)
  induction nodes generalizing nodes' with
  | nil =>
      cases nodes' with
      | nil => exact ⟨.nil, same⟩
      | cons node' nodes' =>
          rw [linesOfAll, linesOfAll, List.append_assoc] at same
          exact absurd same (apart (plain' node' List.mem_cons_self) ends)
  | cons node nodes inductionHypothesis =>
      cases nodes' with
      | nil =>
          rw [linesOfAll, linesOfAll, List.append_assoc] at same
          exact absurd same.symm (apart (plain node List.mem_cons_self) ends')
      | cons node' nodes' =>
          obtain ⟨first, others⟩ := List.forall_mem_cons.mp each
          obtain ⟨-, plainOthers⟩ := List.forall_mem_cons.mp plain
          obtain ⟨plainFirst', plainOthers'⟩ := List.forall_mem_cons.mp plain'
          rw [linesOfAll, linesOfAll, List.append_assoc, List.append_assoc] at same
          obtain ⟨alike, onward⟩ := first plainFirst' (endsStatement_of_body plainOthers ends)
            (endsStatement_of_body plainOthers' ends') same
          obtain ⟨allAlike, tail⟩ := inductionHypothesis others plainOthers plainOthers' onward
          exact ⟨.cons alike allAlike, tail⟩

/-- What comes after a statement comes after a statement inside it. -/
theorem EndsStatement.inside (ends : EndsStatement indent rest) :
    EndsStatement (indent + 1) rest := by
  intro line first
  have bound := (ends line first).1
  exact ⟨by omega, fun same => by omega⟩

theorem EndsStatement.endsBody (ends : EndsStatement indent rest) :
    EndsBody (indent + 1) rest :=
  fun line first => Nat.lt_succ_of_le (ends line first).1

theorem endsStatement_else (more : List Line) :
    EndsStatement (indent + 1) (⟨indent, "Else".toList, []⟩ :: more) := by
  rintro _ ⟨⟩
  exact ⟨Nat.le_succ _, fun same => absurd same (Nat.ne_of_lt (Nat.lt_succ_self _))⟩

/-- Initializers are read off the forms after the name of a variable. -/
theorem same_of_initializers {name name' : Token} {initializer initializer' : Node}
    (plain : initializer = .absent ∨ initializer.IsPlainExpression)
    (plain' : initializer' = .absent ∨ initializer'.IsPlainExpression)
    (same : (varStmt name initializer).lines indent ++ rest =
      (varStmt name' initializer').lines indent ++ rest') :
    name.lexeme.toList = name'.lexeme.toList ∧ initializer.SameButLines initializer' ∧
      rest = rest' := by
  rcases plain with rfl | plain <;> rcases plain' with rfl | plain'
  · obtain ⟨heads, tail⟩ := List.cons.inj same
    exact ⟨Form.word.inj (List.cons.inj (Line.mk.inj heads).2.2).1, .absent, tail⟩
  · rw [lines_varStmt name' (ne_absent_of_isPlainExpression plain')] at same
    obtain ⟨heads, -⟩ := List.cons.inj same
    cases (List.cons.inj (Line.mk.inj heads).2.2).2
  · rw [lines_varStmt name (ne_absent_of_isPlainExpression plain)] at same
    obtain ⟨heads, -⟩ := List.cons.inj same
    cases (List.cons.inj (Line.mk.inj heads).2.2).2
  · rw [lines_varStmt name (ne_absent_of_isPlainExpression plain),
      lines_varStmt name' (ne_absent_of_isPlainExpression plain')] at same
    obtain ⟨heads, tail⟩ := List.cons.inj same
    obtain ⟨names, others⟩ := List.cons.inj (Line.mk.inj heads).2.2
    have forms := (List.cons.inj (List.cons.inj others).2).1
    exact ⟨Form.word.inj names, plain.same_of_form plain' forms, tail⟩

/-- Else branches are read off the lines after a then branch. -/
theorem same_of_elseBranches {elseBranch elseBranch' : Node}
    (readOff : elseBranch.IsPlainStatement → elseBranch.IsReadOff)
    (plain : elseBranch = .absent ∨ elseBranch.IsPlainStatement)
    (plain' : elseBranch' = .absent ∨ elseBranch'.IsPlainStatement)
    (ends : EndsStatement indent rest) (ends' : EndsStatement indent rest')
    (same : elseBranch.elseLines indent ++ rest = elseBranch'.elseLines indent ++ rest') :
    elseBranch.SameButLines elseBranch' ∧ rest = rest' := by
  rcases plain with rfl | plain <;> rcases plain' with rfl | plain'
  · exact ⟨.absent, same⟩
  · rw [elseLines_of_isPlainStatement plain'] at same
    exact absurd rfl ((ends _ (by rw [show rest = _ from same]; rfl)).2 rfl)
  · rw [elseLines_of_isPlainStatement plain] at same
    exact absurd rfl ((ends' _ (by rw [← show _ = rest' from same]; rfl)).2 rfl)
  · rw [elseLines_of_isPlainStatement plain, elseLines_of_isPlainStatement plain'] at same
    exact readOff plain plain' ends.inside ends'.inside (List.cons.inj same).2

/-- After a then branch there is an `Else`, or what comes after the statement. -/
theorem endsStatement_thenBranch (elseBranch : Node) (ends : EndsStatement indent rest) :
    EndsStatement (indent + 1) (elseBranch.elseLines indent ++ rest) := by
  cases elseBranch with
  | absent => exact ends.inside
  | _ => exact endsStatement_else _

/-- Plain statements are read off their lines. -/
theorem IsPlainStatement.isReadOff (plain : node.IsPlainStatement) : node.IsReadOff := by
  induction node using Node.inductionOn with
  | exprStmt expr =>
      intro indent node' rest rest' plain' ends ends' same
      have kinds := kindName_eq_of_lines plain plain' same
      cases node' with
      | exprStmt expr' =>
          obtain ⟨heads, tail⟩ := List.cons.inj same
          have forms := (List.cons.inj (Line.mk.inj heads).2.2).1
          exact ⟨.exprStmt (IsPlainExpression.same_of_form plain plain' forms), tail⟩
      | _ => exact absurd kinds (by simp [kindName])
  | printStmt expr =>
      intro indent node' rest rest' plain' ends ends' same
      have kinds := kindName_eq_of_lines plain plain' same
      cases node' with
      | printStmt expr' =>
          obtain ⟨heads, tail⟩ := List.cons.inj same
          have forms := (List.cons.inj (Line.mk.inj heads).2.2).1
          exact ⟨.printStmt (IsPlainExpression.same_of_form plain plain' forms), tail⟩
      | _ => exact absurd kinds (by simp [kindName])
  | varStmt name initializer =>
      intro indent node' rest rest' plain' ends ends' same
      have kinds := kindName_eq_of_lines plain plain' same
      cases node' with
      | varStmt name' initializer' =>
          obtain ⟨isName, scanned, initializerPlain⟩ := plain
          obtain ⟨isName', scanned', initializerPlain'⟩ := plain'
          obtain ⟨names, initializers, tail⟩ :=
            same_of_initializers initializerPlain initializerPlain' same
          exact ⟨.varStmt (scanned.same_of_name scanned' isName isName' names) initializers, tail⟩
      | _ => exact absurd kinds (by simp [kindName])
  | blockStmt body inductionHypothesis =>
      intro indent node' rest rest' plain' ends ends' same
      have kinds := kindName_eq_of_lines plain plain' same
      cases node' with
      | blockStmt body' =>
          have bodyPlain := arePlain_iff.mp plain
          obtain ⟨bodies, tail⟩ := same_of_linesOfAll
            (fun node member => inductionHypothesis node member (bodyPlain node member)) bodyPlain
            (arePlain_iff.mp plain') ends.endsBody ends'.endsBody (List.cons.inj same).2
          exact ⟨.blockStmt bodies, tail⟩
      | _ => exact absurd kinds (by simp [kindName])
  | ifStmt condition thenBranch elseBranch _ thenHypothesis elseHypothesis =>
      intro indent node' rest rest' plain' ends ends' same
      have kinds := kindName_eq_of_lines plain plain' same
      cases node' with
      | ifStmt condition' thenBranch' elseBranch' =>
          obtain ⟨testPlain, thenPlain, elsePlain⟩ := plain
          obtain ⟨testPlain', thenPlain', elsePlain'⟩ := plain'
          rw [lines_ifStmt, lines_ifStmt, List.cons_append, List.cons_append, List.append_assoc,
            List.append_assoc] at same
          obtain ⟨heads, onward⟩ := List.cons.inj same
          have forms := (List.cons.inj (Line.mk.inj heads).2.2).1
          obtain ⟨thens, others⟩ := thenHypothesis thenPlain thenPlain'
            (endsStatement_thenBranch elseBranch ends) (endsStatement_thenBranch elseBranch' ends')
            onward
          obtain ⟨elses, tail⟩ :=
            same_of_elseBranches elseHypothesis elsePlain elsePlain' ends ends' others
          exact ⟨.ifStmt (testPlain.same_of_form testPlain' forms) thens elses, tail⟩
      | _ => exact absurd kinds (by simp [kindName])
  | whileStmt condition body _ inductionHypothesis =>
      intro indent node' rest rest' plain' ends ends' same
      have kinds := kindName_eq_of_lines plain plain' same
      cases node' with
      | whileStmt condition' body' =>
          obtain ⟨heads, onward⟩ := List.cons.inj same
          have forms := (List.cons.inj (Line.mk.inj heads).2.2).1
          obtain ⟨bodies, tail⟩ :=
            inductionHypothesis plain.2 plain'.2 ends.inside ends'.inside onward
          exact ⟨.whileStmt (plain.1.same_of_form plain'.1 forms) bodies, tail⟩
      | _ => exact absurd kinds (by simp [kindName])
  | absent | literal | grouping | unary | binary | logical | reference | assign => exact plain.elim

/-! ## Outlines -/

theorem forall_mem_linesOfAll {property : Line → Prop} {nodes : List Node}
    (each : ∀ node ∈ nodes, ∀ line ∈ node.lines indent, property line) :
    ∀ line ∈ linesOfAll indent nodes, property line := by
  induction nodes with
  | nil => exact fun _ => nofun
  | cons node nodes inductionHypothesis =>
      obtain ⟨first, others⟩ := List.forall_mem_cons.mp each
      exact List.forall_mem_append.mpr ⟨first, inductionHypothesis others⟩

/-- The lines of a plain statement can be read. -/
theorem IsPlainStatement.isLegible (plain : node.IsPlainStatement) (indent : Nat) :
    ∀ line ∈ node.lines indent, line.IsLegible := by
  have heading {keyword : List Char} {forms : List Form} (begins : keyword ≠ [])
      (solid : IsSolid keyword) (legible : ∀ form ∈ forms, form.IsLegible) {indent : Nat} :
      Line.IsLegible ⟨indent, keyword, forms⟩ := ⟨begins, solid, legible⟩
  induction node using Node.inductionOn generalizing indent with
  | exprStmt expr | printStmt expr =>
      exact List.forall_mem_singleton.mpr (heading (by decide) (by decide)
        (List.forall_mem_singleton.mpr (IsPlainExpression.isLegible plain)))
  | varStmt name initializer =>
      obtain ⟨isName, scanned, initializerPlain⟩ := plain
      have named : (Form.word name.lexeme.toList).IsLegible :=
        isSolid_of_isWord (scanned.identifier isName).1
      rcases initializerPlain with rfl | initializerPlain
      · exact List.forall_mem_singleton.mpr (heading (by decide) (by decide)
          (List.forall_mem_singleton.mpr named))
      · have equal : IsSolid "=".toList := by decide
        rw [lines_varStmt name (ne_absent_of_isPlainExpression initializerPlain)]
        refine List.forall_mem_singleton.mpr (heading (by decide) (by decide) ?_)
        exact List.forall_mem_cons.mpr ⟨named, List.forall_mem_cons.mpr
          ⟨equal, List.forall_mem_singleton.mpr initializerPlain.isLegible⟩⟩
  | blockStmt body inductionHypothesis =>
      have bodyPlain := arePlain_iff.mp plain
      exact List.forall_mem_cons.mpr ⟨heading (by decide) (by decide) (by simp),
        forall_mem_linesOfAll fun node member =>
          inductionHypothesis node member (bodyPlain node member) _⟩
  | ifStmt condition thenBranch elseBranch _ thenHypothesis elseHypothesis =>
      obtain ⟨testPlain, thenPlain, elsePlain⟩ := plain
      rw [lines_ifStmt]
      refine List.forall_mem_cons.mpr ⟨heading (by decide) (by decide)
        (List.forall_mem_singleton.mpr testPlain.isLegible), List.forall_mem_append.mpr
          ⟨thenHypothesis thenPlain _, ?_⟩⟩
      rcases elsePlain with rfl | elsePlain
      · exact fun _ => nofun
      · rw [elseLines_of_isPlainStatement elsePlain]
        exact List.forall_mem_cons.mpr
          ⟨heading (by decide) (by decide) (by simp), elseHypothesis elsePlain _⟩
  | whileStmt condition body _ inductionHypothesis =>
      exact List.forall_mem_cons.mpr ⟨heading (by decide) (by decide)
        (List.forall_mem_singleton.mpr plain.1.isLegible), inductionHypothesis plain.2 _⟩
  | absent | literal | grouping | unary | binary | logical | reference | assign => exact plain.elim

/-- Plain statements with one outline are the same but for the lines of their tokens. -/
theorem same_of_outlines {nodes nodes' : List Node} {stride stride' : Nat}
    {toll toll' : Value → Nat} {levels levels' : Nat} {text : String}
    (plain : ∀ node ∈ nodes, node.IsPlainStatement)
    (plain' : ∀ node ∈ nodes', node.IsPlainStatement)
    (renders : concatenated (outline stride toll levels 0) nodes = .ok text)
    (renders' : concatenated (outline stride' toll' levels' 0) nodes' = .ok text) :
    AllAlike (fun _ _ => True) nodes nodes' := by
  have shown {nodes : List Node} {stride : Nat} {toll : Value → Nat} {levels : Nat}
      (renders : concatenated (outline stride toll levels 0) nodes = .ok text) :
      text.toList = textOfLines (linesOfAll 0 nodes) :=
    shows_concatenated (fun node _ => shows_outline stride toll node levels 0) text renders
  have lines : linesOfAll 0 nodes = linesOfAll 0 nodes' := Line.texts_injective
    (forall_mem_linesOfAll fun node member => (plain node member).isLegible 0)
    (forall_mem_linesOfAll fun node member => (plain' node member).isLegible 0)
    ((shown renders).symm.trans (shown renders'))
  have lines' : linesOfAll 0 nodes ++ [] = linesOfAll 0 nodes' ++ [] := by rw [lines]
  have ends : EndsBody 0 [] := nofun
  exact (same_of_linesOfAll (fun node member => (plain node member).isReadOff) plain plain'
    ends ends lines').1

end Node

end TreeWalker
