import InfraAudit.Text.Blank
import InfraAudit.Text.Case
import InfraAudit.Text.Word

/-!
# InfraAudit.Ignore.Directive — suppressing findings in comments

A comment that holds `tfsentinel:ignore` suppresses findings: those of the codes listed after a colon, or all of
them when there is no list or the list is `*`.

* `afterKeyword?`: the text behind the first keyword that stands alone as a word.
* `codeList?`: the codes at the start of a text.
* `directive?`: what a comment suppresses.
-/

namespace InfraAudit.Ignore

open InfraAudit.Text

/-- What a directive suppresses: every check, or those of some codes. -/
inductive Scope
  | everything
  | only (codes : List String)
  deriving DecidableEq

/-- The word that starts a directive. -/
def keyword : List Char := "tfsentinel:ignore".toList

/-- Characters of codes: ASCII letters, digits, underscores and hyphens, and what stands for one of the letters when
case is ignored. -/
def isCodeChar (c : Char) : Bool :=
  isLatinLetter (lowerLatinChar c) || isDigit c || c == '_' || c == '-' || sameLetter 's' c || sameLetter 'i' c

/-- Whether a keyword before this text ends as a word. -/
def endsWord : List Char → Bool
  | [] => true
  | c :: _ => !isIdentPart c

/-- The text behind the first keyword that starts and ends as a word, when the character before the text is a word
character or not. -/
def afterKeyword? (afterWord : Bool) : List Char → Option (List Char)
  | [] => none
  | c :: r =>
    let here := if afterWord then none else (dropSame? keyword (c :: r)).filter endsWord
    match here with
    | some rest => some rest
    | none => afterKeyword? (isWordChar c) r

/-- The codes that go on a list: blanks, a comma, blanks, a code, and so on; `size` bounds their number. -/
def moreCodes : (size : Nat) → List Char → List (List Char)
  | 0, _ => []
  | size + 1, s =>
    match s.dropWhile isBlank with
    | ',' :: r =>
      let t := r.dropWhile isBlank
      let code := t.takeWhile isCodeChar
      if code = [] then [] else code :: moreCodes size (t.dropWhile isCodeChar)
    | _ => []

/-- The codes of a list at the start of a text; none if it starts with no code. -/
def codeList? (s : List Char) : Option (List (List Char)) :=
  let code := s.takeWhile isCodeChar
  if code = [] then none else some (code :: moreCodes s.length (s.dropWhile isCodeChar))

/-- What the text behind a keyword suppresses: without a colon everything, with one what the list says, and nothing
if there is no list. -/
def scope? : List Char → Option Scope
  | ':' :: r =>
    match r.dropWhile isBlank with
    | '*' :: _ => some .everything
    | s => (codeList? s).map fun codes => .only (codes.map fun c => upper (String.ofList c)).eraseDups
  | _ => some .everything

/-- What a comment suppresses, if it holds a directive that can be read. -/
def directive? (comment : String) : Option Scope :=
  (afterKeyword? false comment.toList).bind scope?

/-- No keyword starts where no `t` does. -/
theorem afterKeyword?_skip {c : Char} (hc : sameLetter 't' c = false) (afterWord : Bool) (r : List Char) :
    afterKeyword? afterWord (c :: r) = afterKeyword? (isWordChar c) r := by
  have hnone : dropSame? keyword (c :: r) = none := by
    have hcons : keyword = 't' :: keyword.tail := rfl
    rw [hcons, dropSame?, hc]
    rfl
  rw [afterKeyword?, hnone]
  cases afterWord <;> rfl

end InfraAudit.Ignore
