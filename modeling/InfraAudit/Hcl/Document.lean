import InfraAudit.Hcl.Block
import InfraAudit.Hcl.Expression
import InfraAudit.Hcl.Lexer
import InfraAudit.Warning

/-!
# InfraAudit.Hcl.Document — from tokens to the tree of a file

The reader keeps the blocks that are still open, innermost first, and takes one item at a time: a newline, an
attribute, the opening line of a block, or its closing brace.

* `expression`: the tokens of an expression, up to a newline or a closing brace outside brackets.
* `step`: one item; `run`: all items.
* `Document.parse`: the blocks and the comments of a file, with the warnings given on the way.
-/

namespace InfraAudit.Hcl

/-- The top-level blocks and the comments of a file. -/
structure Document where
  blocks : List Block
  comments : List Comment

namespace Document

/-! ### Parts of items -/

/-- The position of the next token, or of the end. -/
def placeOf (finish : Position) : List PlacedToken → Position
  | [] => finish
  | t :: _ => t.start

/-- The next token. -/
def next? (ts : List PlacedToken) : Option Token :=
  ts.head?.map (·.token)

/-- The tokens of an expression and those after it, while the brackets in `unclosed` are open, innermost first. -/
def expression (unclosed : List (Bracket × Position)) :
    List PlacedToken → Except Failure (List PlacedToken × List PlacedToken)
  | [] =>
    match unclosed with
    | [] => .ok ([], [])
    | (b, place) :: _ => .error (.badSyntax place (.unclosedBracket b))
  | t :: ts =>
    let more (unclosed : List (Bracket × Position)) :=
      (expression unclosed ts).map fun (taken, rest) => (t :: taken, rest)
    match t.token, unclosed with
    | .newline, [] => .ok ([], t :: ts)
    | .closing .curly, [] => .ok ([], t :: ts)
    | .opening b, _ => more ((b, t.start) :: unclosed)
    | .closing b, [] => .error (.badSyntax t.start (.unexpectedClosing b))
    | .closing b, (o, _) :: outer =>
      if o = b then more outer else .error (.badSyntax t.start (.unexpectedClosing b))
    | _, _ => more unclosed

/-- The labels of a block and the tokens after them. -/
def labels : List PlacedToken → Except Failure (List String × List PlacedToken)
  | [] => .ok ([], [])
  | t :: ts =>
    match t.token with
    | .identifier name => (labels ts).map fun (more, rest) => (name :: more, rest)
    | .string value false => (labels ts).map fun (more, rest) => (value :: more, rest)
    | .string _ true => .error (.badSyntax t.start .templatedLabel)
    | _ => .ok ([], t :: ts)

/-- The labels of a block and the tokens after its opening brace. -/
def header (finish : Position) (kind : String) (ts : List PlacedToken) :
    Except Failure (List String × List PlacedToken) := do
  let (names, rest) ← labels ts
  match rest with
  | ⟨.opening .curly, _, _⟩ :: body => return (names, body)
  | _ => .error (.badSyntax (placeOf finish rest) (.expectedOpening kind (next? rest)))

/-- The range of whole lines, or the failure of an impossible one. -/
def range (filename : String) (start last : Nat) : Except Failure SourceRange :=
  (SourceRange.make? filename start last).mapError .badRange

/-- The attribute `name`, whose first line is `line`, from behind its equals sign, and the tokens after it. -/
def definition (filename : String) (finish : Position) (name : String) (line : Nat) (ts : List PlacedToken) :
    Except Failure (Attribute × List PlacedToken) := do
  let (taken, rest) ← expression [] ts
  if taken.isEmpty then .error (.badSyntax (placeOf finish rest) (.expectedValue name))
  let value ← (Expression.resolve (taken.map (·.token))).mapError .oversizedInteger
  let lines ← range filename line (taken.foldl (fun n t => max n t.endLine) 0)
  return (⟨name, value, lines⟩, rest)

/-! ### Items -/

/-- A block whose closing brace has not been read; its range is that of the opening line. -/
structure OpenBlock where
  kind : String
  labels : List String
  range : SourceRange
  attributes : List Attribute
  children : List Block

/-- What has been read: the open blocks, innermost first, the finished blocks and the warnings. -/
structure Progress where
  unclosed : List OpenBlock
  done : List Block
  warnings : List Warning

/-- The progress before the first token. -/
def Progress.start : Progress := ⟨[], [], []⟩

/-- A finished block added to the innermost open one, or to the finished ones. -/
def Progress.addBlock (σ : Progress) (b : Block) : Progress :=
  match σ.unclosed with
  | [] => { σ with done := σ.done ++ [b] }
  | o :: outer => { σ with unclosed := { o with children := o.children ++ [b] } :: outer }

/-- An attribute added to the innermost open block, where its name must be new; outside blocks it is ignored. -/
def Progress.addAttribute (σ : Progress) (place : Position) (a : Attribute) : Except Failure Progress :=
  match σ.unclosed with
  | [] => .ok { σ with warnings := σ.warnings ++ [.topLevelAttribute a.range.filename a.range.startLine a.name] }
  | o :: outer =>
    match o.attributes.find? (·.name == a.name) with
    | some previous => .error (.badSyntax place (.redefined a.name previous.range.startLine))
    | none => .ok { σ with unclosed := { o with attributes := o.attributes ++ [a] } :: outer }

/-- An open block with its closing brace on the given line. -/
def OpenBlock.close (o : OpenBlock) (line : Nat) : Except Failure Block := do
  let lines ← (o.range.close? line).mapError .badRange
  return ⟨o.kind, o.labels, lines, o.attributes, o.children⟩

/-- Whether the token after an identifier makes it the kind of a block. -/
def startsBlock : Token → Bool
  | .identifier _ | .string _ _ | .opening .curly => true
  | _ => false

/-- One item, whose first token is `t`, and the tokens after it. -/
def step (filename : String) (finish : Position) (σ : Progress) (t : PlacedToken) (ts : List PlacedToken) :
    Except Failure (Progress × List PlacedToken) :=
  match t.token with
  | .newline => .ok (σ, ts)
  | .closing .curly =>
    match σ.unclosed with
    | [] => .error (.badSyntax t.start (.unexpectedClosing .curly))
    | o :: outer => do
      let b ← o.close t.start.line
      return ({ σ with unclosed := outer }.addBlock b, ts)
  | .identifier name =>
    match ts with
    | ⟨.equals, _, _⟩ :: expr => do
      let (a, rest) ← definition filename finish name t.start.line expr
      return (← σ.addAttribute t.start a, rest)
    | _ =>
      if (next? ts).any startsBlock then do
        let (names, rest) ← header finish name ts
        let lines ← range filename t.start.line t.start.line
        return ({ σ with unclosed := ⟨name, names, lines, [], []⟩ :: σ.unclosed }, rest)
      else .error (.badSyntax (placeOf finish ts) (.expectedDefinition name (next? ts)))
  | other => .error (.badSyntax t.start (.expectedItem (some other)))

/-- The blocks of a file whose tokens have all been read. -/
def Progress.finish (finish : Position) (σ : Progress) : Except Failure (List Block) :=
  match σ.unclosed with
  | [] => .ok σ.done
  | o :: _ => .error (.badSyntax finish (.unclosedBlock (dottedName o.kind o.labels) o.range.startLine))

/-! ### Items get shorter -/

theorem eq_ok_of_map {ε α β : Type} {f : α → β} {x : Except ε α} {b : β} (h : x.map f = .ok b) :
    ∃ a, x = .ok a ∧ f a = b := by
  cases x with
  | error e => cases h
  | ok a => exact ⟨a, rfl, Except.ok.inj h⟩

theorem eq_ok_of_bind {ε α β : Type} {f : α → Except ε β} {x : Except ε α} {b : β} (h : x >>= f = .ok b) :
    ∃ a, x = .ok a ∧ f a = .ok b := by
  cases x with
  | error e => cases h
  | ok a => exact ⟨a, rfl, h⟩

theorem expression_rest_le {u : List (Bracket × Position)} {ts : List PlacedToken}
    {x : List PlacedToken × List PlacedToken} (h : expression u ts = .ok x) : x.2.length ≤ ts.length := by
  induction ts generalizing u x with
  | nil =>
    simp only [expression] at h
    split at h <;> cases h
    exact Nat.le_refl _
  | cons t ts ih =>
    have more {u' : List (Bracket × Position)}
        (h : (expression u' ts).map (fun (taken, rest) => (t :: taken, rest)) = .ok x) :
        x.2.length ≤ (t :: ts).length := by
      obtain ⟨y, hy, rfl⟩ := eq_ok_of_map h
      exact Nat.le_succ_of_le (ih (x := y) hy)
    simp only [expression] at h
    split at h
    · cases h; exact Nat.le_refl _
    · cases h; exact Nat.le_refl _
    · exact more h
    · cases h
    · split at h
      · exact more h
      · cases h
    · exact more h

theorem labels_rest_le {ts : List PlacedToken} {x : List String × List PlacedToken} (h : labels ts = .ok x) :
    x.2.length ≤ ts.length := by
  induction ts generalizing x with
  | nil => cases h; exact Nat.le_refl _
  | cons t ts ih =>
    simp only [labels] at h
    split at h
    · obtain ⟨y, hy, rfl⟩ := eq_ok_of_map h
      exact Nat.le_succ_of_le (ih (x := y) hy)
    · obtain ⟨y, hy, rfl⟩ := eq_ok_of_map h
      exact Nat.le_succ_of_le (ih (x := y) hy)
    · cases h
    · cases h; exact Nat.le_refl _

theorem header_rest_le {finish : Position} {kind : String} {ts : List PlacedToken}
    {x : List String × List PlacedToken} (h : header finish kind ts = .ok x) : x.2.length ≤ ts.length := by
  obtain ⟨⟨names, rest⟩, hl, h⟩ := eq_ok_of_bind h
  have := labels_rest_le hl
  simp only at h
  split at h
  · cases h
    simp only [List.length_cons] at this
    exact Nat.le_of_succ_le this
  · cases h

theorem definition_rest_le {filename name : String} {finish : Position} {line : Nat} {ts : List PlacedToken}
    {x : Attribute × List PlacedToken} (h : definition filename finish name line ts = .ok x) :
    x.2.length ≤ ts.length := by
  obtain ⟨⟨taken, rest⟩, he, h⟩ := eq_ok_of_bind h
  have := expression_rest_le he
  simp only at h
  split at h
  · cases h
  · obtain ⟨value, -, h⟩ := eq_ok_of_bind h
    obtain ⟨lines, -, h⟩ := eq_ok_of_bind h
    cases h
    exact this

theorem step_rest_le {filename : String} {finish : Position} {σ : Progress} {t : PlacedToken}
    {ts : List PlacedToken} {x : Progress × List PlacedToken} (h : step filename finish σ t ts = .ok x) :
    x.2.length ≤ ts.length := by
  unfold step at h
  split at h
  · cases h; exact Nat.le_refl _
  · split at h
    · cases h
    · obtain ⟨b, -, h⟩ := eq_ok_of_bind h
      cases h
      exact Nat.le_refl _
  · split at h
    · obtain ⟨⟨a, rest⟩, ha, h⟩ := eq_ok_of_bind h
      obtain ⟨σ', -, h⟩ := eq_ok_of_bind h
      cases h
      exact Nat.le_succ_of_le (definition_rest_le ha)
    · split at h
      · obtain ⟨⟨names, rest⟩, hh, h⟩ := eq_ok_of_bind h
        obtain ⟨lines, -, h⟩ := eq_ok_of_bind h
        cases h
        exact header_rest_le hh
      · cases h
  · cases h

/-! ### Whole files -/

/-- The warnings and the blocks of a file, from the progress `σ` on. -/
def run (filename : String) (finish : Position) (σ : Progress) :
    List PlacedToken → Logged (Except Failure (List Block))
  | [] => ⟨σ.warnings, σ.finish finish⟩
  | t :: ts =>
    match _h : step filename finish σ t ts with
    | .error e => ⟨σ.warnings, .error e⟩
    | .ok (σ', rest) => run filename finish σ' rest
termination_by ts => ts.length
decreasing_by exact Nat.lt_succ_of_le (step_rest_le _h)

/-- The blocks and the comments of a text. -/
def parse (filename source : String) : Logged (Except Failure Document) :=
  match lex source with
  | .error e => ⟨[], .error e⟩
  | .ok x =>
    let blocks := run filename x.finish .start x.tokens
    ⟨blocks.warnings, blocks.outcome.map fun bs => ⟨bs, x.comments⟩⟩

end Document

end InfraAudit.Hcl
