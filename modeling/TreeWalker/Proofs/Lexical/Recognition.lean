import Mathlib.Data.List.TakeWhile
import TreeWalker.Proofs.Lexical.Rules

/-!
# The scanner finds the segment that the rules allow

In front of every text that is not empty the rules allow some segment, and
whatever segment they allow there is the one that the scanner cuts off.  So the
rules never allow two.
-/

namespace TreeWalker

namespace Symbol

theorem ofSpelling?_eq_some_iff {text : List Char} {symbol : Symbol} :
    ofSpelling? text = some symbol ↔ symbol.spelling = text := by
  constructor
  · intro found
    simpa using List.find?_some found
  · rintro rfl
    exact ofSpelling?_spelling symbol

theorem ofSpelling?_eq_none_iff {text : List Char} :
    ofSpelling? text = none ↔ ∀ symbol : Symbol, symbol.spelling ≠ text := by
  rw [ofSpelling?, List.find?_eq_none]
  simp [mem_all]

/-- A symbol that is spelled with two characters begins with one that goes on to
it. -/
theorem goesOn_of_spelling_append {symbol long : Symbol} {c : Char}
    (spelled : long.spelling = symbol.spelling ++ [c]) : symbol.goesOn c := by
  cases long <;> cases symbol <;> simp [spelling, goesOn] at spelled ⊢ <;> exact spelled.symm

/-- What a symbol goes on to, unless it is a comment. -/
theorem exists_spelling_append {symbol : Symbol} (noSlash : symbol ≠ .slash) {c : Char}
    (goesOn : symbol.goesOn c) : ∃ long : Symbol, long.spelling = symbol.spelling ++ [c] := by
  cases symbol with
  | bang => exact ⟨.bangEqual, by rw [show c = '=' from goesOn]; rfl⟩
  | equal => exact ⟨.equalEqual, by rw [show c = '=' from goesOn]; rfl⟩
  | less => exact ⟨.lessEqual, by rw [show c = '=' from goesOn]; rfl⟩
  | greater => exact ⟨.greaterEqual, by rw [show c = '=' from goesOn]; rfl⟩
  | slash => contradiction
  | _ => exact goesOn.elim

end Symbol

namespace Keyword

theorem ofSpelling?_eq_none {text : List Char}
    (noKeyword : ∀ keyword : Keyword, keyword.spelling ≠ text) : ofSpelling? text = none := by
  rw [ofSpelling?, List.find?_eq_none]
  simpa using fun keyword _ => noKeyword keyword

end Keyword

namespace Lexical

/-- The longest text of characters of a class goes up to one of another class. -/
theorem takeWhile_append_eq {class' : Char → Bool} {text rest : List Char}
    (inside : ∀ c ∈ text, class' c = true) (boundary : ∀ c ∈ rest.head?, class' c = false) :
    (text ++ rest).takeWhile class' = text := by
  rw [List.takeWhile_append_of_pos inside]
  cases rest with
  | nil => simp
  | cons c rest => simp [boundary c rfl]

/-! ## Where numbers and words end -/

theorem IsDigits.append {text more : List Char} (digits : IsDigits text)
    (others : ∀ c ∈ more, c.isDigit = true) : IsDigits (text ++ more) :=
  ⟨by simp [digits.1], fun c member =>
    (List.mem_append.mp member).elim (digits.2 c) (others c)⟩

/-- No digit follows a longest numeral. -/
theorem Longest.no_digit {text rest : List Char} (longest : Longest IsNumeral text rest) :
    ∀ c ∈ rest.head?, c.isDigit = false := by
  intro c isNext
  by_contra isDigit
  rw [Bool.not_eq_false] at isDigit
  obtain ⟨tail, rfl⟩ := List.head?_eq_some_iff.mp isNext
  rcases longest.belongs with ⟨whole, fraction, numeral⟩
  refine absurd (longest.longest [c] ⟨tail, rfl⟩ ?_) (List.cons_ne_nil c [])
  cases numeral with
  | whole digits => exact ⟨_, _, .whole (digits.append (by simpa using isDigit))⟩
  | decimal digits more =>
      refine ⟨whole, fraction ++ [c], ?_⟩
      rw [List.append_assoc]
      exact .decimal digits (more.append (by simpa using isDigit))

/-- No digits follow a point after a longest numeral that has none. -/
theorem Longest.fractionDigits {whole rest : List Char} (digits : IsDigits whole)
    (longest : Longest IsNumeral whole rest) : Lead.fractionDigits rest = [] := by
  unfold Lead.fractionDigits
  split
  · next text =>
      by_contra nonempty
      refine absurd (longest.longest ('.' :: text.takeWhile Char.isDigit) ?_ ?_)
        (List.cons_ne_nil _ _)
      · exact List.cons_prefix_cons.mpr ⟨rfl, List.takeWhile_prefix _⟩
      · exact ⟨_, _, .decimal digits ⟨nonempty, fun _ member => List.mem_takeWhile_imp member⟩⟩
  · rfl

/-- No letter or digit follows a longest word. -/
theorem Longest.no_part {text rest : List Char} (longest : Longest IsWord text rest) :
    ∀ c ∈ rest.head?, isWordPart c = false := by
  intro c isNext
  by_contra part
  rw [Bool.not_eq_false] at part
  rcases List.head?_eq_some_iff.mp isNext with ⟨tail, rfl⟩
  obtain ⟨first, letters, rfl, starts, parts⟩ := longest.belongs
  refine absurd (longest.longest [c] ⟨tail, rfl⟩ ?_) (List.cons_ne_nil c [])
  refine ⟨first, letters ++ [c], rfl, starts, fun letter member => ?_⟩
  rcases List.mem_append.mp member with inside | last
  · exact parts letter inside
  · rwa [List.mem_singleton.mp last]

/-! ## What the scanner cuts off -/

theorem isWordPart_of_isWordStart {c : Char} (start : isWordStart c = true) :
    isWordPart c = true := by
  simp only [isWordStart, isWordPart, Char.isAlphanum, Bool.or_eq_true] at start ⊢
  rcases start with letter | underscore
  · exact .inl (.inl letter)
  · exact .inr underscore

/-- A word is made of parts of words. -/
theorem IsWord.parts {text : List Char} (word : IsWord text) :
    ∀ c ∈ text, isWordPart c = true := by
  obtain ⟨first, letters, rfl, starts, parts⟩ := word
  intro c member
  rcases List.mem_cons.mp member with rfl | member
  · exact isWordPart_of_isWordStart starts
  · exact parts c member

theorem Lead.taking_length (shape : Shape) (text rest : List Char) :
    Lead.taking shape (text ++ rest) text.length = (⟨shape, text⟩, rest) := by
  simp [Lead.taking]

theorem Lead.number_eq {whole fraction text rest : List Char}
    (numeral : Numeral whole fraction text) (longest : Longest IsNumeral text rest) :
    Lead.number (text ++ rest) =
      (⟨.token .number (.number (Decimal.readNumeral whole fraction)), text⟩, rest) := by
  cases numeral with
  | whole digits =>
      have front := takeWhile_append_eq digits.2 longest.no_digit
      have none := longest.fractionDigits digits
      simp only [Lead.number, front, List.drop_left, none, List.isEmpty_nil, if_true]
      exact Lead.taking_length _ _ _
  | decimal digits more =>
      have front : (whole ++ '.' :: fraction ++ rest).takeWhile Char.isDigit = whole := by
        rw [List.append_assoc]
        exact takeWhile_append_eq digits.2 (by rintro c ⟨⟩; decide)
      have behind : Lead.fractionDigits ((whole ++ '.' :: fraction ++ rest).drop whole.length) =
          fraction := by
        rw [List.append_assoc, List.drop_left]
        exact takeWhile_append_eq more.2 longest.no_digit
      have count : whole.length + 1 + fraction.length = (whole ++ '.' :: fraction).length := by
        simp only [List.length_append, List.length_cons]
        omega
      simp only [Lead.number, front, behind, List.isEmpty_iff, more.1, if_false, count]
      exact Lead.taking_length _ _ _

theorem Lead.word_eq {text rest : List Char} (longest : Longest IsWord text rest) :
    Lead.word (text ++ rest) =
      (⟨.token (match Keyword.ofSpelling? text with
        | some keyword => .keyword keyword
        | none => .identifier) .nil, text⟩, rest) := by
  have front := takeWhile_append_eq longest.belongs.parts longest.no_part
  simp only [Lead.word, front, Lead.plain]
  exact Lead.taking_length _ _ _

theorem Lead.string_closed {body : List Char} (inside : '"' ∉ body) (rest : List Char) :
    Lead.string (body ++ '"' :: rest) =
      (⟨.token .string (.string (String.ofList body)), '"' :: (body ++ ['"'])⟩, rest) := by
  have front : (body ++ '"' :: rest).takeWhile (· ≠ '"') = body :=
    takeWhile_append_eq (fun _ member => by simpa using ne_of_mem_of_not_mem member inside)
      (by rintro c ⟨⟩; decide)
  have closed : body.length < (body ++ '"' :: rest).length := by simp
  have whole : '"' :: (body ++ '"' :: rest) = ('"' :: (body ++ ['"'])) ++ rest := by simp
  have count : body.length + 2 = ('"' :: (body ++ ['"'])).length := by simp
  simp only [Lead.string, front, closed, if_true, whole, count]
  exact Lead.taking_length _ _ _

theorem Lead.string_open {body : List Char} (inside : '"' ∉ body) :
    Lead.string body = (⟨.openString, '"' :: body⟩, []) := by
  have front : body.takeWhile (· ≠ '"') = body := by
    rw [List.takeWhile_eq_self_iff]
    intro _ member
    simpa using ne_of_mem_of_not_mem member inside
  simp only [Lead.string, front, Nat.lt_irrefl, if_false]
  simp [Lead.taking]

theorem Lead.slash_lineComment {body rest : List Char} (inside : '\n' ∉ body)
    (ends : ∀ c ∈ rest.head?, c = '\n') :
    Lead.slash ('/' :: (body ++ rest)) = (⟨.gap, '/' :: '/' :: body⟩, rest) := by
  have front : (body ++ rest).takeWhile (· ≠ '\n') = body :=
    takeWhile_append_eq (fun _ member => by simpa using ne_of_mem_of_not_mem member inside)
      fun c isNext => by simp [ends c isNext]
  have count : 2 + body.length = ('/' :: '/' :: body).length := by
    simp only [List.length_cons]
    omega
  simp only [Lead.slash, front, count]
  exact Lead.taking_length _ ('/' :: '/' :: body) _

theorem Lead.slash_blockComment {body rest : List Char} (closes : Closes (body ++ rest) rest) :
    Lead.slash ('*' :: (body ++ rest)) = (⟨.gap, '/' :: '*' :: body⟩, rest) := by
  have counted := commentLength?_eq_some_iff.mpr ⟨body, rest, rfl, closes, rfl⟩
  have count : 2 + body.length = ('/' :: '*' :: body).length := by
    simp only [List.length_cons]
    omega
  simp only [Lead.slash, counted, count]
  exact Lead.taking_length _ ('/' :: '*' :: body) _

theorem Lead.slash_openComment {body : List Char} (unclosed : ∀ rest, ¬ Closes body rest) :
    Lead.slash ('*' :: body) = (⟨.openComment, '/' :: '*' :: body⟩, []) := by
  have uncounted := commentLength?_eq_none_iff.mpr unclosed
  simp only [Lead.slash, uncounted]
  simp [Lead.taking, Nat.add_comm 2]

theorem Lead.slash_alone {rest : List Char} (alone : ∀ c ∈ rest.head?, ¬ Symbol.slash.goesOn c) :
    Lead.slash rest = (⟨.token (.symbol .slash) .nil, ['/']⟩, rest) := by
  cases rest with
  | nil => rfl
  | cons c rest =>
      have other := alone c rfl
      simp only [Symbol.goesOn, not_or] at other
      rw [Lead.slash]
      · rfl
      · rintro _ ⟨⟩
        exact other.1 rfl
      · rintro _ ⟨⟩
        exact other.2 rfl

theorem Lead.symbol_eq {symbol : Symbol} {rest : List Char}
    (alone : ∀ c ∈ rest.head?, ¬ symbol.goesOn c) :
    Lead.symbol (symbol.spelling ++ rest) =
      (⟨.token (.symbol symbol) .nil, symbol.spelling⟩, rest) := by
  rcases symbol.spelling_cases with ⟨c, spelled⟩ | ⟨c, _, spelled, _⟩
  · cases rest with
    | nil =>
        have found : Symbol.ofSpelling? ((symbol.spelling ++ []).take 2) = some symbol := by
          rw [Symbol.ofSpelling?_eq_some_iff, spelled]
          rfl
        simp only [Lead.symbol, found]
        exact Lead.taking_length _ _ _
    | cons d rest =>
        have missing : Symbol.ofSpelling? ((symbol.spelling ++ d :: rest).take 2) = none := by
          rw [Symbol.ofSpelling?_eq_none_iff]
          intro long same
          have longer : long.spelling = symbol.spelling ++ [d] := by
            rw [same, spelled]
            rfl
          exact alone d rfl (Symbol.goesOn_of_spelling_append longer)
        have found : Symbol.ofSpelling? ((symbol.spelling ++ d :: rest).take 1) = some symbol := by
          rw [Symbol.ofSpelling?_eq_some_iff, spelled]
          rfl
        simp only [Lead.symbol, missing, found]
        rw [spelled]
        exact Lead.taking_length _ [c] _
  · have found : Symbol.ofSpelling? ((symbol.spelling ++ rest).take 2) = some symbol := by
      rw [Symbol.ofSpelling?_eq_some_iff, spelled]
      rfl
    simp only [Lead.symbol, found]
    exact Lead.taking_length _ _ _

/-! ## Which rule is tried -/

theorem isLayout_iff {c : Char} : isLayout c = true ↔ c ∈ [' ', '\t', '\r', '\n'] := by
  simp [isLayout, or_assoc]

/-- A digit begins no word. -/
theorem isWordStart_of_isDigit {c : Char} (isDigit : c.isDigit = true) :
    isWordStart c = false := by
  have before : c.toNat ≤ 57 := by
    simp only [Char.isDigit, Bool.and_eq_true, decide_eq_true_eq] at isDigit
    exact isDigit.2
  by_contra starts
  simp only [Bool.not_eq_false, isWordStart, Bool.or_eq_true, beq_iff_eq] at starts
  have behind : 65 ≤ c.toNat := by
    rcases starts with letter | rfl
    · rcases Bool.or_eq_true_iff.mp letter with upper | lower
      · exact (of_decide_eq_true upper).1
      · have above : 97 ≤ c.toNat := of_decide_eq_true (Bool.and_eq_true_iff.mp lower).1
        omega
    · decide
  omega

/-- The characters that begin numbers and words begin nothing else. -/
theorem isLayout_of_class {c : Char} (class' : c.isDigit = true ∨ isWordStart c = true) :
    isLayout c = false ∧ c ≠ '"' ∧ c ≠ '/' := by
  refine ⟨?_, ?_, ?_⟩
  · by_contra layout
    simp only [Bool.not_eq_false, isLayout, Bool.or_eq_true, beq_iff_eq] at layout
    rcases layout with ((rfl | rfl) | rfl) | rfl <;> exact absurd class' (by decide)
  · rintro rfl
    exact absurd class' (by decide)
  · rintro rfl
    exact absurd class' (by decide)

section Order

variable {c : Char} {text : List Char}

theorem Lead.of_layout (layout : c ∈ [' ', '\t', '\r', '\n']) (text : List Char) :
    Lead.of c text = (⟨.gap, [c]⟩, text) := by
  rw [Lead.of, if_pos (isLayout_iff.mpr layout)]
  rfl

/-- The rules for layout, strings and slashes are tried first. -/
theorem Lead.of_other (noLayout : isLayout c = false) (noQuote : c ≠ '"') (noSlash : c ≠ '/') :
    Lead.of c text =
      if c.isDigit then Lead.number (c :: text)
      else if isWordStart c then Lead.word (c :: text)
      else Lead.symbol (c :: text) := by
  simp [Lead.of, noLayout, noQuote, noSlash]

theorem Lead.of_digit (isDigit : c.isDigit = true) (text : List Char) :
    Lead.of c text = Lead.number (c :: text) := by
  obtain ⟨noLayout, noQuote, noSlash⟩ := isLayout_of_class (.inl isDigit)
  rw [Lead.of_other noLayout noQuote noSlash, if_pos isDigit]

theorem Lead.of_wordStart (starts : isWordStart c = true) (text : List Char) :
    Lead.of c text = Lead.word (c :: text) := by
  obtain ⟨noLayout, noQuote, noSlash⟩ := isLayout_of_class (.inr starts)
  have noDigit : ¬ c.isDigit = true := fun isDigit => by
    rw [isWordStart_of_isDigit isDigit] at starts
    cases starts
  rw [Lead.of_other noLayout noQuote noSlash, if_neg noDigit, if_pos starts]

theorem Lead.of_symbol {symbol : Symbol} {tail : List Char} (noSlash : symbol ≠ .slash)
    (spelled : symbol.spelling = c :: tail) (text : List Char) :
    Lead.of c text = Lead.symbol (c :: text) := by
  obtain ⟨layout, quote, slash, digit, start⟩ : isLayout c = false ∧ c ≠ '"' ∧ c ≠ '/' ∧
      c.isDigit = false ∧ isWordStart c = false := by
    cases symbol <;> cases spelled <;> first | contradiction | decide
  rw [Lead.of_other layout quote slash, digit, start]
  rfl

end Order

/-! ## Recognition -/

/-- Any piece that the rules allow in front of a text is cut off there. -/
theorem Piece.lead {shape : Shape} {c : Char} {tail rest : List Char}
    (piece : Piece shape (c :: tail) rest) :
    Lead.of c (tail ++ rest) = (⟨shape, c :: tail⟩, rest) := by
  generalize whole : c :: tail = text at piece
  cases piece with
  | @symbol symbol _ alone =>
      by_cases isSlash : symbol = .slash
      · subst isSlash
        obtain ⟨rfl, rfl⟩ := List.cons.inj whole
        exact Lead.slash_alone alone
      · rw [Lead.of_symbol isSlash whole.symm, ← List.cons_append, whole]
        exact Lead.symbol_eq alone
  | number numeral longest =>
      rcases longest.belongs.head with ⟨d, digits, same, isDigit⟩
      obtain ⟨rfl, rfl⟩ := List.cons.inj (whole.trans same)
      rw [Lead.of_digit isDigit, ← List.cons_append, whole]
      exact Lead.number_eq numeral longest
  | keyword longest =>
      rcases longest.belongs with ⟨d, letters, same, starts, _⟩
      obtain ⟨rfl, rfl⟩ := List.cons.inj (whole.trans same)
      rw [Lead.of_wordStart starts, ← List.cons_append, whole, Lead.word_eq longest,
        Keyword.ofSpelling?_spelling]
  | identifier longest noKeyword =>
      rcases longest.belongs with ⟨d, letters, same, starts, _⟩
      obtain ⟨rfl, rfl⟩ := List.cons.inj (whole.trans same)
      rw [Lead.of_wordStart starts, ← List.cons_append, whole, Lead.word_eq longest,
        Keyword.ofSpelling?_eq_none noKeyword]
  | string inside =>
      rcases List.cons.inj whole with ⟨rfl, rfl⟩
      rw [List.append_assoc]
      exact Lead.string_closed inside rest
  | layout layout =>
      rcases List.cons.inj whole with ⟨rfl, rfl⟩
      exact Lead.of_layout layout rest
  | lineComment inside ends =>
      rcases List.cons.inj whole with ⟨rfl, rfl⟩
      exact Lead.slash_lineComment inside ends
  | blockComment closes =>
      rcases List.cons.inj whole with ⟨rfl, rfl⟩
      exact Lead.slash_blockComment closes
  | openString inside =>
      rcases List.cons.inj whole with ⟨rfl, rfl⟩
      rw [List.append_nil]
      exact Lead.string_open inside
  | openComment unclosed =>
      rcases List.cons.inj whole with ⟨rfl, rfl⟩
      rw [List.append_nil]
      exact Lead.slash_openComment unclosed

/-! ## Some segment is allowed -/

/-- Some piece may stand in front of a text. -/
def Begun (text : List Char) : Prop :=
  ∃ shape front rest, front ++ rest = text ∧ Piece shape front rest

theorem begun_string (text : List Char) : Begun ('"' :: text) := by
  by_cases closed : '"' ∈ text
  · obtain ⟨body, rest, rfl, inside⟩ := List.eq_append_cons_of_mem closed
    exact ⟨_, _, rest, by simp, .string inside⟩
  · exact ⟨_, _, [], List.append_nil _, .openString closed⟩

theorem begun_lineComment (text : List Char) : Begun ('/' :: '/' :: text) := by
  by_cases ended : '\n' ∈ text
  · obtain ⟨body, rest, rfl, inside⟩ := List.eq_append_cons_of_mem ended
    refine ⟨.gap, '/' :: '/' :: body, '\n' :: rest, rfl, .lineComment inside ?_⟩
    rintro c ⟨⟩
    rfl
  · exact ⟨_, _, [], List.append_nil _, .lineComment ended (by simp)⟩

theorem begun_blockComment (text : List Char) : Begun ('/' :: '*' :: text) := by
  by_cases closed : ∃ rest, Closes text rest
  · rcases closed with ⟨rest, closes⟩
    rcases closes.commentLength? with ⟨body, rfl, _⟩
    exact ⟨_, _, rest, rfl, .blockComment closes⟩
  · exact ⟨_, _, [], List.append_nil _, .openComment (not_exists.mp closed)⟩

/-- A symbol stands alone, or it goes on to a longer one or to a comment. -/
theorem begun_symbol (symbol : Symbol) (text : List Char) : Begun (symbol.spelling ++ text) := by
  by_cases alone : ∀ c ∈ text.head?, ¬ symbol.goesOn c
  · exact ⟨_, _, text, rfl, .symbol alone⟩
  · push Not at alone
    rcases alone with ⟨c, isNext, goesOn⟩
    rcases List.head?_eq_some_iff.mp isNext with ⟨text, rfl⟩
    by_cases isSlash : symbol = .slash
    · subst isSlash
      rcases goesOn with rfl | rfl
      · exact begun_lineComment text
      · exact begun_blockComment text
    · rcases symbol.exists_spelling_append isSlash goesOn with ⟨long, spelled⟩
      refine ⟨.token (.symbol long) .nil, long.spelling, text, by simp [spelled], ?_⟩
      refine .symbol fun d _ => ?_
      rcases long.spelling_cases with ⟨d, short⟩ | ⟨_, _, _, _, never⟩
      · have lengths := congrArg List.length (short.symm.trans spelled)
        have positive : symbol.spelling.length ≠ 0 := by cases symbol <;> decide
        simp only [List.length_append, List.length_singleton] at lengths
        omega
      · exact never d

theorem begun_number {c : Char} (isDigit : c.isDigit = true) (text : List Char) :
    Begun (c :: text) := by
  have single : IsNumeral [c] := ⟨_, _, .whole ⟨List.cons_ne_nil c [], by simpa using isDigit⟩⟩
  rcases exists_longest single text with ⟨front, rest, split, _, longest⟩
  rcases longest.belongs with ⟨whole, fraction, numeral⟩
  exact ⟨_, _, rest, split.symm, .number numeral longest⟩

theorem begun_word {c : Char} (starts : isWordStart c = true) (text : List Char) :
    Begun (c :: text) := by
  have single : IsWord [c] := ⟨c, [], rfl, starts, by simp⟩
  rcases exists_longest single text with ⟨front, rest, split, _, longest⟩
  by_cases isKeyword : ∃ keyword : Keyword, keyword.spelling = front
  · rcases isKeyword with ⟨keyword, rfl⟩
    exact ⟨_, _, rest, split.symm, .keyword longest⟩
  · exact ⟨_, _, rest, split.symm, .identifier longest (not_exists.mp isKeyword)⟩

/-- Whatever follows it, a character with which a piece may begin does begin one. -/
theorem begun_of_starts {c : Char} (starts : Starts c) (text : List Char) :
    Begun (c :: text) := by
  rcases starts with layout | rfl | isDigit | isStart | ⟨symbol, spelled⟩
  · exact ⟨_, [c], text, rfl, .layout (isLayout_iff.mp layout)⟩
  · exact begun_string text
  · exact begun_number isDigit text
  · exact begun_word isStart text
  · rw [← List.singleton_append, ← spelled]
    exact begun_symbol symbol text

theorem beginsNothing_iff {c : Char} : BeginsNothing c ↔ ¬ Starts c := by
  constructor
  · intro nothing starts
    rcases begun_of_starts starts [] with ⟨shape, front, rest, split, piece⟩
    rcases piece.head with ⟨d, tail, rfl, _⟩
    obtain ⟨rfl, _⟩ := List.cons.inj split
    exact nothing shape tail rest piece
  · intro noStart shape text rest piece
    rcases piece.head with ⟨d, tail, same, starts⟩
    obtain ⟨rfl, _⟩ := List.cons.inj same
    exact noStart starts

/-- In front of a text that is not empty some segment may stand. -/
theorem exists_fronts (c : Char) (text : List Char) :
    ∃ segment rest, segment.text ++ rest = c :: text ∧ Fronts segment rest := by
  by_cases starts : Starts c
  · rcases begun_of_starts starts text with ⟨shape, front, rest, split, piece⟩
    exact ⟨⟨shape, front⟩, rest, split, .piece piece⟩
  · exact ⟨_, text, rfl, .unexpected (beginsNothing_iff.mpr starts)⟩

/-! ## The segment in front -/

theorem Lead.of_unexpected {c : Char} (nothing : BeginsNothing c) (text : List Char) :
    Lead.of c text = (⟨.unexpected, [c]⟩, text) := by
  have noStart := beginsNothing_iff.mp nothing
  simp only [Starts, not_or, Bool.not_eq_true] at noStart
  obtain ⟨noLayout, noQuote, noDigit, noWord, noSymbol⟩ := noStart
  have noSlash : c ≠ '/' := fun same => noSymbol ⟨.slash, by rw [same]; rfl⟩
  have missing {front tail : List Char} (begins : front = c :: tail) :
      Symbol.ofSpelling? front = none := by
    rw [Symbol.ofSpelling?_eq_none_iff]
    rintro symbol rfl
    rcases symbol.exists_first with ⟨d, others, first, spelled, firstSpelled⟩
    obtain ⟨rfl, _⟩ := List.cons.inj (spelled.symm.trans begins)
    exact noSymbol ⟨first, firstSpelled⟩
  rw [Lead.of_other noLayout noQuote noSlash, noDigit, noWord]
  simp only [Bool.false_eq_true, if_false, Lead.symbol, missing List.take_succ_cons]
  rfl

/-- The scanner cuts off the segment that may stand in front of a text. -/
theorem Fronts.lead {segment : Segment} {rest : List Char} (fronts : Fronts segment rest)
    {c : Char} {text : List Char} (whole : segment.text ++ rest = c :: text) :
    Lead.of c text = (segment, rest) := by
  cases fronts with
  | @piece shape front _ piece =>
      rcases piece.head with ⟨d, tail, rfl, _⟩
      obtain ⟨rfl, rfl⟩ := List.cons.inj whole
      exact piece.lead
  | unexpected nothing =>
      obtain ⟨rfl, rfl⟩ := List.cons.inj whole
      exact Lead.of_unexpected nothing rest

/-- The segment that the scanner cuts off may stand where it stands. -/
theorem Lead.fronts (c : Char) (text : List Char) :
    Fronts (Lead.of c text).1 (Lead.of c text).2 := by
  rcases exists_fronts c text with ⟨segment, rest, split, fronts⟩
  rw [fronts.lead split]
  exact fronts

end Lexical

end TreeWalker
