import InfraAudit.Hcl.Heredoc
import InfraAudit.Hcl.Quotation

/-!
# InfraAudit.Hcl.Lexer — a text cut into lexemes

* `lexeme`: the first lexeme of a text: blanks, a comment or a token, together with the characters it takes.
* `lexemes`: the lexemes of a whole text, each with its position.
* `lex`: the tokens and the comments of a text.

`lexemes_text`: the lexemes joined are the text.
-/

namespace InfraAudit.Hcl

open InfraAudit.Text

namespace Lexer

/-! ### Kinds of lexemes -/

/-- What a lexeme is. -/
inductive Item
  | blank
  | comment
  | token (t : Token)
  deriving DecidableEq

/-- A piece of the text, with the position of its first character. -/
structure Lexeme where
  item : Item
  start : Position
  text : List Char
  deriving DecidableEq

/-- The line of the last character of a lexeme. -/
def Lexeme.endLine (l : Lexeme) : Nat :=
  (l.start.after l.text.dropLast).line

/-- Characters between lexemes that mean nothing: spaces, tabs, carriage returns, byte order marks. -/
def isBlankChar (c : Char) : Bool :=
  c == ' ' || c == '\t' || c == '\r' || c == '\ufeff'

/-! ### Comments -/

/-- The end of a comment, from behind its opening delimiter up to the closing one. -/
def blockComment? : List Char → Option Cut
  | '*' :: '/' :: r => some ⟨['*', '/'], r⟩
  | c :: r => (blockComment? r).map (·.onto [c])
  | [] => none

/-- The rest of the line. -/
def lineComment (r : List Char) : Cut :=
  Cut.span (· != '\n') r

/-! ### Numbers and identifiers -/

/-- A decimal point and digits, or nothing. -/
def fraction : List Char → Cut
  | '.' :: d :: r => if isDigit d then (Cut.span isDigit (d :: r)).onto ['.'] else .none ('.' :: d :: r)
  | s => .none s

/-- Digits with a sign before them, if there is a digit. -/
def signedDigits? (s : List Char) : Option Cut :=
  let k : Cut := match s with
    | '+' :: r => (Cut.span isDigit r).onto ['+']
    | '-' :: r => (Cut.span isDigit r).onto ['-']
    | _ => Cut.span isDigit s
  if k.taken.any isDigit then some k else none

/-- An exponent, or nothing. -/
def exponent : List Char → Cut
  | c :: r =>
    if c == 'e' || c == 'E' then ((signedDigits? r).map (·.onto [c])).getD (.none (c :: r)) else .none (c :: r)
  | [] => .none []

/-- The rest of a number whose first character is a digit. -/
def numberTail (r : List Char) : Cut :=
  let whole := Cut.span isDigit r
  let part := fraction whole.rest
  let power := exponent part.rest
  ⟨whole.taken ++ part.taken ++ power.taken, power.rest⟩

/-- The rest of an identifier. -/
def identifierTail (r : List Char) : Cut :=
  Cut.span isIdentPart r

/-! ### Punctuation -/

/-- The tokens of two characters. -/
def pair? : Char → Char → Option Token
  | '=', '=' => some (.operator "==")
  | '!', '=' => some (.operator "!=")
  | '<', '=' => some (.operator "<=")
  | '>', '=' => some (.operator ">=")
  | '&', '&' => some (.operator "&&")
  | '|', '|' => some (.operator "||")
  | '=', '>' => some (.operator "=>")
  | _, _ => none

/-- The tokens of one character. -/
def single? : Char → Option Token
  | '{' => some (.opening .curly)
  | '}' => some (.closing .curly)
  | '[' => some (.opening .square)
  | ']' => some (.closing .square)
  | '(' => some (.opening .round)
  | ')' => some (.closing .round)
  | '=' => some .equals
  | ',' => some .comma
  | ':' => some .colon
  | '.' => some .dot
  | '?' => some .question
  | '+' => some (.operator "+")
  | '-' => some (.operator "-")
  | '*' => some (.operator "*")
  | '/' => some (.operator "/")
  | '%' => some (.operator "%")
  | '<' => some (.operator "<")
  | '>' => some (.operator ">")
  | '!' => some (.operator "!")
  | _ => none

/-- The longest punctuation at the start of the text. -/
def punctuation? (c : Char) (r : List Char) : Option (Token × Cut) :=
  match c, r with
  | '.', '.' :: '.' :: r' => some (.ellipsis, ⟨['.', '.', '.'], r'⟩)
  | c, d :: r' =>
    match pair? c d with
    | some t => some (t, ⟨[c, d], r'⟩)
    | none => (single? c).map fun t => (t, ⟨[c], r⟩)
  | c, [] => (single? c).map fun t => (t, ⟨[c], r⟩)

/-! ### Literals -/

/-- A string literal, from behind its opening quote at `p`. -/
def quotation (p : Position) (r : List Char) : Except Failure (Token × Cut) :=
  (Quotation.literal p (p.next '"') r).map fun (x, k) => (.string (String.ofList x.value) x.templated, k.onto ['"'])

/-- A heredoc, from behind the `<<` at `p`. -/
def heredoc (p : Position) (r : List Char) : Except Failure (Token × Cut) :=
  match Heredoc.header? r with
  | none => .error (.badSyntax p .invalidHeredoc)
  | some (h, k) =>
    match Heredoc.body? h.marker k.rest with
    | none => .error (.badSyntax p (.unterminatedHeredoc (String.ofList h.marker)))
    | some (lines, j) =>
      let (value, templated) := Heredoc.value h lines
      .ok (.heredoc (String.ofList value) templated, j.onto (['<', '<'] ++ k.taken))

/-! ### Lexemes -/

/-- A token or the failure of a character that starts none. -/
def symbol (p : Position) (c : Char) (r : List Char) : Except Failure (Token × Cut) :=
  match punctuation? c r with
  | some x => .ok x
  | none => .error (.badSyntax p (.unexpectedCharacter c))

/-- A token of the text `c :: r`, which stands at `p` and is neither blank nor a comment. -/
def token (p : Position) (c : Char) (r : List Char) : Except Failure (Token × Cut) :=
  if c == '\n' then .ok (.newline, ⟨[c], r⟩)
  else if c == '"' then quotation p r
  else if c == '<' && r.head? == some '<' then heredoc p (r.drop 1)
  else if isDigit c then
    let k := (numberTail r).onto [c]
    .ok (.number (String.ofList k.taken), k)
  else if isIdentStart c then
    let k := (identifierTail r).onto [c]
    .ok (.identifier (String.ofList k.taken), k)
  else symbol p c r

/-- The first lexeme of the text `c :: r`, which stands at `p`. -/
def lexeme (p : Position) (c : Char) (r : List Char) : Except Failure (Item × Cut) :=
  if isBlankChar c then .ok (.blank, (Cut.span isBlankChar r).onto [c])
  else if c == '#' || (c == '/' && r.head? == some '/') then .ok (.comment, (lineComment r).onto [c])
  else if c == '/' && r.head? == some '*' then
    match blockComment? (r.drop 1) with
    | none => .error (.badSyntax p .unterminatedComment)
    | some k => .ok (.comment, k.onto ['/', '*'])
  else (token p c r).map fun (t, k) => (.token t, k)

/-! ### What is taken -/

theorem blockComment?_of {s : List Char} {k : Cut} (h : blockComment? s = some k) : Cut.Of s k := by
  fun_induction blockComment? s generalizing k with
  | case1 => cases h; rfl
  | case2 c r _ ih =>
    obtain ⟨j, hj, rfl⟩ := Option.map_eq_some_iff.1 h
    exact (ih hj).onto [c]
  | case3 => cases h

theorem fraction_of (s : List Char) : Cut.Of s (fraction s) := by
  unfold fraction
  split
  · split
    · exact (Cut.span_of _ _).onto ['.']
    · exact Cut.none_of _
  · exact Cut.none_of _

theorem signedDigits?_of {s : List Char} {k : Cut} (h : signedDigits? s = some k) : Cut.Of s k := by
  simp only [signedDigits?, Option.ite_none_right_eq_some, Option.some.injEq] at h
  obtain ⟨-, rfl⟩ := h
  split
  · exact (Cut.span_of _ _).onto ['+']
  · exact (Cut.span_of _ _).onto ['-']
  · exact Cut.span_of _ _

theorem exponent_of (s : List Char) : Cut.Of s (exponent s) := by
  cases s with
  | nil => exact Cut.none_of _
  | cons c r =>
    simp only [exponent]
    split
    · cases h : signedDigits? r with
      | none => exact Cut.none_of _
      | some k => exact (signedDigits?_of h).onto [c]
    · exact Cut.none_of _

theorem numberTail_of (r : List Char) : Cut.Of r (numberTail r) := by
  have h1 : (Cut.span isDigit r).taken ++ (Cut.span isDigit r).rest = r := Cut.span_of _ r
  have h2 : (fraction (Cut.span isDigit r).rest).taken ++ (fraction (Cut.span isDigit r).rest).rest =
      (Cut.span isDigit r).rest := fraction_of _
  have h3 : (exponent (fraction (Cut.span isDigit r).rest).rest).taken ++
      (exponent (fraction (Cut.span isDigit r).rest).rest).rest = (fraction (Cut.span isDigit r).rest).rest :=
    exponent_of _
  simp only [Cut.Of, numberTail, List.append_assoc, h3, h2, h1]

theorem punctuation?_of {c : Char} {r : List Char} {x : Token × Cut} (h : punctuation? c r = some x) :
    Cut.Of (c :: r) x.2 ∧ x.2.taken ≠ [] := by
  unfold punctuation? at h
  split at h
  · cases h; exact ⟨rfl, by simp⟩
  · split at h
    · cases h; exact ⟨rfl, by simp⟩
    · obtain ⟨t, _, rfl⟩ := Option.map_eq_some_iff.1 h
      exact ⟨rfl, by simp⟩
  · obtain ⟨t, _, rfl⟩ := Option.map_eq_some_iff.1 h
    exact ⟨rfl, by simp⟩

theorem quotation_of {p : Position} {r : List Char} {x : Token × Cut} (h : quotation p r = .ok x) :
    Cut.Of ('"' :: r) x.2 ∧ x.2.taken ≠ [] := by
  unfold quotation at h
  cases hx : Quotation.literal p (p.next '"') r with
  | error e => rw [hx] at h; cases h
  | ok y =>
    rw [hx] at h
    cases h
    exact ⟨(Quotation.literal_of hx).onto ['"'], by simp [Cut.onto]⟩

theorem heredoc_of {p : Position} {r : List Char} {x : Token × Cut} (h : heredoc p r = .ok x) :
    Cut.Of ('<' :: '<' :: r) x.2 ∧ x.2.taken ≠ [] := by
  unfold heredoc at h
  split at h
  · cases h
  · next hd k hk =>
    split at h
    · cases h
    · next lines j hj =>
      cases h
      have h1 : k.taken ++ k.rest = r := Heredoc.header?_of hk
      have h2 := (Heredoc.body?_of hj).onto (['<', '<'] ++ k.taken)
      refine ⟨?_, by simp [Cut.onto]⟩
      simpa [h1] using h2

theorem token_of {p : Position} {c : Char} {r : List Char} {x : Token × Cut} (h : token p c r = .ok x) :
    Cut.Of (c :: r) x.2 ∧ x.2.taken ≠ [] := by
  unfold token at h
  split at h
  · cases h; exact ⟨rfl, by simp⟩
  split at h
  · next hc => rw [show c = '"' by simpa using hc]; exact quotation_of h
  split at h
  · next hc =>
    obtain ⟨rfl, hr⟩ : c = '<' ∧ r.head? = some '<' := by simpa using hc
    obtain ⟨r', rfl⟩ : ∃ r', r = '<' :: r' := by
      cases r <;> simp_all
    exact heredoc_of h
  split at h
  · cases h; exact ⟨(numberTail_of r).onto [c], by simp [Cut.onto]⟩
  split at h
  · cases h; exact ⟨(Cut.span_of _ r).onto [c], by simp [Cut.onto]⟩
  · unfold symbol at h
    split at h
    · next hx => cases h; exact punctuation?_of hx
    · cases h

theorem lexeme_of {p : Position} {c : Char} {r : List Char} {x : Item × Cut} (h : lexeme p c r = .ok x) :
    Cut.Of (c :: r) x.2 ∧ x.2.taken ≠ [] := by
  unfold lexeme at h
  split at h
  · cases h; exact ⟨(Cut.span_of _ r).onto [c], by simp [Cut.onto]⟩
  split at h
  · cases h; exact ⟨(Cut.span_of _ r).onto [c], by simp [Cut.onto]⟩
  split at h
  · next hc =>
    obtain ⟨rfl, hr⟩ : c = '/' ∧ r.head? = some '*' := by simpa using hc
    obtain ⟨r', rfl⟩ : ∃ r', r = '*' :: r' := by
      cases r <;> simp_all
    split at h
    · cases h
    · next k hk => cases h; exact ⟨(blockComment?_of hk).onto ['/', '*'], by simp [Cut.onto]⟩
  · cases hx : token p c r with
    | error e => rw [hx] at h; cases h
    | ok y => rw [hx] at h; cases h; exact token_of hx

theorem lexeme_rest_le {p : Position} {c : Char} {r : List Char} {x : Item × Cut} (h : lexeme p c r = .ok x) :
    x.2.rest.length ≤ r.length := by
  have h1 := (lexeme_of h).1.length
  have h2 := List.length_pos_iff.2 (lexeme_of h).2
  simp only [List.length_cons] at h1
  omega

/-! ### Whole texts -/

/-- The lexemes of a text that stands at `p`. -/
def lexemes (p : Position) : List Char → Except Failure (List Lexeme)
  | [] => .ok []
  | c :: r =>
    match _h : lexeme p c r with
    | .error e => .error e
    | .ok (item, k) => (lexemes (p.after k.taken) k.rest).map (⟨item, p, k.taken⟩ :: ·)
termination_by s => s.length
decreasing_by exact Nat.lt_succ_of_le (lexeme_rest_le _h)

/-- The token of a lexeme, placed. -/
def Lexeme.token? (l : Lexeme) : Option PlacedToken :=
  match l.item with
  | .token t => some ⟨t, l.start, l.endLine⟩
  | _ => none

/-- The comment of a lexeme. -/
def Lexeme.comment? (l : Lexeme) : Option Comment :=
  match l.item with
  | .comment => some ⟨String.ofList l.text, l.start.line, l.endLine⟩
  | _ => none

/-- The lexemes joined are the text. -/
theorem lexemes_text {p : Position} {s : List Char} {ls : List Lexeme} (h : lexemes p s = .ok ls) :
    ls.flatMap Lexeme.text = s := by
  fun_induction lexemes p s generalizing ls with
  | case1 => cases h; rfl
  | case2 => cases h
  | case3 p c r item k hk ih =>
    cases hx : lexemes (p.after k.taken) k.rest with
    | error e => rw [hx] at h; cases h
    | ok more =>
      rw [hx] at h
      cases h
      rw [List.flatMap_cons, ih hx]
      exact (lexeme_of hk).1

end Lexer

/-- The tokens and the comments of a text, in order, and the position of its end. -/
structure Lexed where
  tokens : List PlacedToken
  comments : List Comment
  finish : Position
  deriving DecidableEq

/-- The tokens and the comments of a text. -/
def lex (source : String) : Except Failure Lexed :=
  (Lexer.lexemes .start source.toList).map fun ls =>
    ⟨ls.filterMap Lexer.Lexeme.token?, ls.filterMap Lexer.Lexeme.comment?, Position.start.after source.toList⟩

end InfraAudit.Hcl
