import InfraAudit.Hcl.Cut
import InfraAudit.Hcl.Template
import InfraAudit.Text.Blank
import InfraAudit.Text.Word

/-!
# InfraAudit.Hcl.Heredoc — multi-line strings

* `header?`: the line that opens a heredoc, from behind `<<`.
* `body?`: the lines up to the one that holds the marker alone.
* `dedent`: the indentation that all lines share removed.
-/

namespace InfraAudit.Hcl.Heredoc

open InfraAudit.Text

/-- What the opening line says: whether to remove common indentation, and the marker that ends the text. -/
structure Header where
  indented : Bool
  marker : List Char
  deriving DecidableEq

/-- First character of a marker. -/
def isMarkerStart (c : Char) : Bool :=
  isLatinLetter c || c == '_'

/-- Later character of a marker. -/
def isMarkerPart (c : Char) : Bool :=
  isMarkerStart c || isDigit c || c == '-'

/-- The end of the opening line: spaces and tabs, perhaps a carriage return, a newline. -/
def headerEnd? (s : List Char) : Option Cut :=
  let k := Cut.span isIndent s
  match k.rest with
  | '\n' :: r => some ⟨k.taken ++ ['\n'], r⟩
  | '\r' :: '\n' :: r => some ⟨k.taken ++ ['\r', '\n'], r⟩
  | _ => none

/-- The marker and the end of the opening line. -/
def marker? (indented : Bool) : List Char → Option (Header × Cut)
  | [] => none
  | c :: r =>
    if isMarkerStart c then
      let k := Cut.span isMarkerPart r
      (headerEnd? k.rest).map fun e => (⟨indented, c :: k.taken⟩, e.onto (c :: k.taken))
    else none

/-- The opening line from behind `<<`. -/
def header? : List Char → Option (Header × Cut)
  | '-' :: r => (marker? true r).map fun (h, k) => (h, k.onto ['-'])
  | s => marker? false s

/-- A line without the carriage returns at its end. -/
def lineText (line : List Char) : List Char :=
  trimEnd (· == '\r') line

/-- The lines before the one that holds the marker alone; that line is taken without its newline.  There are none
if the text ends first. -/
def body? (marker : List Char) (s : List Char) : Option (List (List Char) × Cut) :=
  if s = [] then none
  else
    let line := s.takeWhile (· != '\n')
    if trim isBlank (lineText line) = marker then some ([], Cut.span (· != '\n') s)
    else match _h : s.dropWhile (· != '\n') with
      | [] => none
      | _ :: r => (body? marker r).map fun (lines, k) => (lineText line :: lines, k.onto (line ++ ['\n']))
termination_by s.length
decreasing_by
  have := (List.dropWhile_sublist (l := s) (· != '\n')).length_le
  rw [_h] at this
  exact this

/-- How far a line is indented. -/
def indentation (line : List Char) : Nat :=
  (line.takeWhile isIndent).length

/-- Whether a line holds white space only. -/
def isBlankLine (line : List Char) : Bool :=
  line.all isBlank

/-- The lines without the indentation that those with text share; if none has text, without the spaces and tabs at
their ends. -/
def dedent (lines : List (List Char)) : List (List Char) :=
  match ((lines.filter (!isBlankLine ·)).map indentation).min? with
  | none => lines.map (trim isIndent)
  | some width => lines.map (·.drop width)

/-- The text that the lines of a heredoc make. -/
def text (lines : List (List Char)) : List Char :=
  lines.flatMap (· ++ ['\n'])

/-- The text of a heredoc with doubled marks written once, unless it holds a template sequence. -/
def value (h : Header) (lines : List (List Char)) : List Char × Bool :=
  let t := text (if h.indented then dedent lines else lines)
  if Template.contains t then (t, true) else (Template.unescape t, false)

/-! ### What is taken -/

theorem headerEnd?_of {s : List Char} {k : Cut} (h : headerEnd? s = some k) : Cut.Of s k := by
  have hs : (Cut.span isIndent s).taken ++ (Cut.span isIndent s).rest = s := Cut.span_of isIndent s
  simp only [headerEnd?] at h
  split at h
  · next hr => cases h; simpa [Cut.Of, hr] using hs
  · next hr => cases h; simpa [Cut.Of, hr] using hs
  · cases h

theorem marker?_of {b : Bool} {s : List Char} {x : Header × Cut} (h : marker? b s = some x) : Cut.Of s x.2 := by
  cases s with
  | nil => simp [marker?] at h
  | cons c r =>
    simp only [marker?] at h
    split at h
    · obtain ⟨e, he, rfl⟩ := Option.map_eq_some_iff.1 h
      have h1 := (headerEnd?_of he).onto (c :: (Cut.span isMarkerPart r).taken)
      have h2 : (Cut.span isMarkerPart r).taken ++ (Cut.span isMarkerPart r).rest = r := Cut.span_of _ r
      simpa [List.cons_append, h2] using h1
    · simp at h

theorem header?_of {s : List Char} {x : Header × Cut} (h : header? s = some x) : Cut.Of s x.2 := by
  unfold header? at h
  split at h
  · obtain ⟨y, hy, rfl⟩ := Option.map_eq_some_iff.1 h
    exact (marker?_of hy).onto _
  · exact marker?_of h

theorem body?_of {m s : List Char} {x : List (List Char) × Cut} (h : body? m s = some x) : Cut.Of s x.2 := by
  fun_induction body? m s generalizing x with
  | case1 => simp at h
  | case2 s =>
    obtain rfl := Option.some.inj h
    exact Cut.span_of _ s
  | case3 => simp at h
  | case4 s _ line _ =>
    rename_i c r hr ih
    obtain ⟨y, hy, rfl⟩ := Option.map_eq_some_iff.1 h
    have h1 := (ih hy).onto (line ++ ['\n'])
    have h2 : s.takeWhile (· != '\n') ++ s.dropWhile (· != '\n') = s := List.takeWhile_append_dropWhile
    have h3 : c = '\n' := by
      have := List.head_dropWhile_not (l := s) (p := (· != '\n')) (by simp [hr])
      simpa [hr] using this
    rw [hr, h3] at h2
    simpa [line, h2] using h1

end InfraAudit.Hcl.Heredoc
