import InfraAudit.Text.CaseTable
import InfraAudit.Text.CasedTable

/-!
# InfraAudit.Text.Case — letter case

* `upper`: the full upper-case mapping, which may lengthen a text (`ß` gives `SS`).
* `lower`: the lower-case mapping, in which a capital sigma at the end of a word has a form of its own.
* `lowerLatin`: the characters whose lower-case form is a basic Latin letter are lowered.  A text equals a basic
  Latin word up to case exactly when its `lowerLatin` is that word.
* `sameLetter`: a character against a pattern character, ignoring case.
-/

namespace InfraAudit.Text

/-- The image of a code point under a run, if it belongs to the run. -/
def CaseRun.image? (r : CaseRun) (n : Nat) : Option Nat :=
  if r.first ≤ n && n ≤ r.last && (n - r.first) % r.step == 0 then some (n + r.offset).toNat else none

/-- The upper-case form of a character. -/
def upperChar (c : Char) : List Char :=
  if c.toNat < 128 then [c.toUpper]
  else match upperExpansions.lookup c.toNat with
    | some image => image.map Char.ofNat
    | none => match upperRuns.findSome? (·.image? c.toNat) with
      | some n => [Char.ofNat n]
      | none => [c]

/-- The upper-case form of a text. -/
def upper (s : String) : String :=
  String.ofList (s.toList.flatMap upperChar)

/-- The lower-case form of a character; only the dotted capital I has one of two characters. -/
def lowerChar (c : Char) : List Char :=
  if c.toNat < 128 then [c.toLower]
  else if c == '\u0130' then ['i', '\u0307']
  else match lowerRuns.findSome? (·.image? c.toNat) with
    | some n => [Char.ofNat n]
    | none => [c]

/-- Letters that have case. -/
def isCased (c : Char) : Bool :=
  inRanges c.toNat casedRanges

/-- Characters that are passed over where letters with case are looked for. -/
def isCaseIgnorable (c : Char) : Bool :=
  inRanges c.toNat caseIgnorableRanges

/-- Whether a letter with case comes first, among the characters that count. -/
def startsCased (s : List Char) : Bool :=
  (s.dropWhile isCaseIgnorable).head?.any isCased

/-- The lower-case form of a capital sigma behind the characters `before`, the nearest one first, which `s` follows:
the final one between a letter and the end of its word. -/
def lowerSigma (before s : List Char) : Char :=
  if startsCased before && !startsCased s then 'ς' else 'σ'

/-- The lower-case form of a text behind the characters `before`, the nearest one first. -/
def lowerFrom (before : List Char) : List Char → List Char
  | [] => []
  | c :: r => (if c == 'Σ' then [lowerSigma before r] else lowerChar c) ++ lowerFrom (c :: before) r

/-- The lower-case form of a text. -/
def lower (s : String) : String :=
  String.ofList (lowerFrom [] s.toList)

/-- The basic Latin letter that `c` has as lower-case form, or `c`; apart from `A` to `Z` only the Kelvin sign
has one. -/
def lowerLatinChar (c : Char) : Char :=
  if c == '\u212a' then 'k' else c.toLower

/-- The text with every character that has a basic Latin lower-case form lowered. -/
def lowerLatin (s : String) : String :=
  s.map lowerLatinChar

/-- Whether `c` stands for the lower-case pattern character `p` when case is ignored: the long s stands for `s`,
the dotted capital and the dotless small i for `i`. -/
def sameLetter (p c : Char) : Bool :=
  lowerLatinChar c == p || (p == 's' && c == '\u017f') || (p == 'i' && (c == '\u0130' || c == '\u0131'))

/-- The rest of `s` after the pattern, case ignored. -/
def dropSame? : List Char → List Char → Option (List Char)
  | [], s => some s
  | _ :: _, [] => none
  | p :: ps, c :: s => if sameLetter p c then dropSame? ps s else none

end InfraAudit.Text
