import InfraAudit.Hcl.Cut
import InfraAudit.Hcl.Failure
import InfraAudit.Hcl.Template

/-!
# InfraAudit.Hcl.Quotation — string literals

* `skipNested`: the end of a template sequence, whose braces and string literals nest.
* `escape`: the character that an escape stands for.
* `literal`: a string literal from behind its opening quote.
-/

namespace InfraAudit.Hcl.Quotation

open InfraAudit.Text

/-! ### Nested text -/

/-- What is open inside a template sequence: a sequence with so many braces of its own open, or a string. -/
inductive Frame
  | sequence (start : Position) (depth : Nat)
  | quotation (start : Position)

/-- The failure of a text that ends inside a frame. -/
def Frame.unterminated : Frame → Failure
  | .sequence start _ => .badSyntax start .unterminatedTemplate
  | .quotation start => .badSyntax start .unterminatedString

/-- Takes the text up to the end of the frames `top` and `below`, innermost first.  In a sequence braces and quotes
count, in a string the closing quote, escapes and template sequences. -/
def skipNested (p : Position) (top : Frame) (below : List Frame) : List Char → Except Failure Cut
  | [] => .error top.unterminated
  | c :: r =>
    let q := p.next c
    match top with
    | .sequence start depth =>
      if c == '"' then Cut.onto [c] <$> skipNested q (.quotation p) (top :: below) r
      else if c == '{' then Cut.onto [c] <$> skipNested q (.sequence start (depth + 1)) below r
      else if c == '}' then
        match depth, below with
        | depth + 1, _ => Cut.onto [c] <$> skipNested q (.sequence start depth) below r
        | 0, [] => .ok ⟨[c], r⟩
        | 0, f :: fs => Cut.onto [c] <$> skipNested q f fs r
      else Cut.onto [c] <$> skipNested q top below r
    | .quotation start =>
      if c == '\n' then .error (.badSyntax start .unterminatedString)
      else if c == '"' then
        match below with
        | [] => .ok ⟨[c], r⟩
        | f :: fs => Cut.onto [c] <$> skipNested q f fs r
      else match r with
        | [] => .error (.badSyntax start .unterminatedString)
        | d :: r' =>
          if c == '\\' then Cut.onto [c, d] <$> skipNested (q.next d) top below r'
          else if Template.isMark c && d == '{' then
            Cut.onto [c, d] <$> skipNested (q.next d) (.sequence p 0) (top :: below) r'
          else Cut.onto [c] <$> skipNested q top below (d :: r')

/-! ### Escapes -/

/-- The character that a letter stands for after a backslash. -/
def simpleEscape? : Char → Option Char
  | 'n' => some '\n'
  | 'r' => some '\r'
  | 't' => some '\t'
  | '"' => some '"'
  | '\\' => some '\\'
  | _ => none

/-- The number of hexadecimal digits after `\u` and `\U`. -/
def escapeWidth? : Char → Option Nat
  | 'u' => some 4
  | 'U' => some 8
  | _ => none

/-- The first number that is no machine integer any more. -/
def machineLimit : Nat := 0x80000000

/-- The character with the code point `n`.  A surrogate has no character of its own and reads as U+FFFD. -/
def charOfCode (n : Nat) : Char :=
  if n.isValidChar then Char.ofNat n else '\ufffd'

/-- A code point given by hexadecimal digits, at an escape that starts at `p`. -/
def codePoint (p : Position) (letter : Char) (width : Nat) (s : List Char) : Except Failure (Char × Cut) :=
  let k := Cut.splitAt width s
  if k.taken.length ≠ width ∨ !k.taken.all isHexDigit then
    .error (.badSyntax p (.invalidUnicodeEscape letter (String.ofList k.taken)))
  else
    let n := hexValue k.taken
    if machineLimit ≤ n then .error .codePointOverflow
    else if 0x110000 ≤ n then .error (.badSyntax p (.invalidCodePoint letter (String.ofList k.taken)))
    else .ok (charOfCode n, k)

/-- The character that an escape at `p` stands for, from behind the backslash. -/
def escape (p : Position) : List Char → Except Failure (Char × Cut)
  | [] => .error (.badSyntax p .unterminatedString)
  | c :: r =>
    match simpleEscape? c, escapeWidth? c with
    | some x, _ => .ok (x, ⟨[c], r⟩)
    | none, some width => (codePoint p c width r).map fun (x, k) => (x, k.onto [c])
    | none, none => .error (.badSyntax p (.invalidEscape c))

/-! ### Literals -/

/-- A piece of a string literal: its closing quote, or text, perhaps a template sequence. -/
inductive Piece
  | finish
  | text (value : List Char) (templated : Bool)

/-- The piece at `p`, whose first character is `c`, of the literal that starts at `start`. -/
def piece (start p : Position) (c : Char) (r : List Char) : Except Failure (Piece × Cut) :=
  if c == '\n' then .error (.badSyntax start .unterminatedString)
  else if c == '"' then .ok (.finish, ⟨[c], r⟩)
  else if c == '\\' then (escape p r).map fun (x, k) => (.text [x] false, k.onto [c])
  else if Template.isMark c then
    match r with
    | '{' :: r' =>
      (skipNested ((p.next c).next '{') (.sequence p 0) [] r').map fun k =>
        (.text (c :: '{' :: k.taken) true, k.onto [c, '{'])
    | d :: '{' :: r' =>
      if d == c then .ok (.text [c, '{'] false, ⟨[c, d, '{'], r'⟩) else .ok (.text [c] false, ⟨[c], r⟩)
    | _ => .ok (.text [c] false, ⟨[c], r⟩)
  else .ok (.text [c] false, ⟨[c], r⟩)

/-! ### What is taken -/

theorem onto_of_map {x : Except Failure Cut} {s t : List Char} {k : Cut} (h : Cut.onto t <$> x = .ok k)
    (hx : ∀ j, x = .ok j → Cut.Of s j) : Cut.Of (t ++ s) k := by
  cases x with
  | error e => cases h
  | ok j =>
    cases h
    exact (hx j rfl).onto t

theorem skipNested_of {p : Position} {top : Frame} {below : List Frame} {s : List Char} {k : Cut}
    (h : skipNested p top below s = .ok k) : Cut.Of s k := by
  fun_induction skipNested p top below s generalizing k <;>
    first
    | cases h; done
    | (cases h; rfl)
    | exact onto_of_map h fun _ hj => by solve_by_elim

theorem codePoint_of {p : Position} {c : Char} {n : Nat} {s : List Char} {x : Char × Cut}
    (h : codePoint p c n s = .ok x) : Cut.Of s x.2 := by
  have hs := Cut.splitAt_of n s
  unfold codePoint at h
  simp only at h
  split at h
  · cases h
  · split at h
    · cases h
    · split at h
      · cases h
      · cases h; exact hs

theorem escape_of {p : Position} {s : List Char} {x : Char × Cut} (h : escape p s = .ok x) : Cut.Of s x.2 := by
  cases s with
  | nil => cases h
  | cons c r =>
    simp only [escape] at h
    split at h
    · cases h; rfl
    · next width _ _ =>
      cases hx : codePoint p c width r with
      | error e => rw [hx] at h; cases h
      | ok y =>
        rw [hx] at h
        cases h
        exact (codePoint_of hx).onto [c]
    · cases h

theorem piece_of {start p : Position} {c : Char} {r : List Char} {x : Piece × Cut}
    (h : piece start p c r = .ok x) : Cut.Of (c :: r) x.2 ∧ x.2.taken ≠ [] := by
  unfold piece at h
  split at h
  · cases h
  split at h
  · cases h; exact ⟨rfl, by simp⟩
  split at h
  · cases hx : escape p r with
    | error e => rw [hx] at h; cases h
    | ok y =>
      rw [hx] at h
      cases h
      exact ⟨(escape_of hx).onto [c], by simp [Cut.onto]⟩
  split at h
  · split at h
    · next r' =>
      cases hx : skipNested ((p.next c).next '{') (.sequence p 0) [] r' with
      | error e => rw [hx] at h; cases h
      | ok y =>
        rw [hx] at h
        cases h
        exact ⟨(skipNested_of hx).onto [c, '{'], by simp [Cut.onto]⟩
    · split at h <;> cases h <;> exact ⟨rfl, by simp⟩
    · cases h; exact ⟨rfl, by simp⟩
  · cases h; exact ⟨rfl, by simp⟩

theorem piece_rest_le {start p : Position} {c : Char} {r : List Char} {x : Piece × Cut}
    (h : piece start p c r = .ok x) : x.2.rest.length ≤ r.length := by
  have h1 := (piece_of h).1.length
  have h2 := List.length_pos_iff.2 (piece_of h).2
  simp only [List.length_cons] at h1
  omega

/-! ### The whole literal -/

/-- The value of a string literal and whether it holds a template sequence. -/
structure Contents where
  value : List Char
  templated : Bool

/-- The literal that starts at `start`, from the position `p` on up to its closing quote. -/
def literal (start p : Position) : List Char → Except Failure (Contents × Cut)
  | [] => .error (.badSyntax start .unterminatedString)
  | c :: r =>
    match _h : piece start p c r with
    | .error e => .error e
    | .ok (.finish, k) => .ok (⟨[], false⟩, k)
    | .ok (.text value templated, k) =>
      (literal start (p.after k.taken) k.rest).map fun (more, j) =>
        (⟨value ++ more.value, templated || more.templated⟩, j.onto k.taken)
termination_by s => s.length
decreasing_by exact Nat.lt_succ_of_le (piece_rest_le _h)

theorem literal_of {start p : Position} {s : List Char} {x : Contents × Cut}
    (h : literal start p s = .ok x) : Cut.Of s x.2 := by
  fun_induction literal start p s generalizing x with
  | case1 => cases h
  | case2 => cases h
  | case3 p c r k hp => cases h; exact (piece_of hp).1
  | case4 p c r value templated k hp ih =>
    cases hx : literal start (p.after k.taken) k.rest with
    | error e => rw [hx] at h; cases h
    | ok y =>
      rw [hx] at h
      cases h
      have h1 := (ih hx).onto k.taken
      rwa [show k.taken ++ k.rest = c :: r from (piece_of hp).1] at h1

end InfraAudit.Hcl.Quotation
