import InfraAudit.Hcl.Token
import InfraAudit.Hcl.Value
import InfraAudit.Text.Blank

/-!
# InfraAudit.Hcl.Expression — from tokens to a value

* `enclosed?`: the tokens inside a bracket that closes at the end of the expression.
* `parts`: the tokens cut at the separators outside brackets.
* `resolve`: the value of an expression; whatever is no literal, list or map is unresolved.

An expression has no value only if an integer literal that is evaluated is too long.
-/

namespace InfraAudit.Hcl.Expression

open InfraAudit.Decimal InfraAudit.Text

/-! ### Brackets and separators -/

/-- Whether the token is a newline. -/
def isNewline (t : Token) : Bool :=
  t == .newline

/-- The tokens without newlines at both ends. -/
def stripNewlines (ts : List Token) : List Token :=
  trim isNewline ts

/-- The index of the token that closes the last of the brackets still open, innermost first; none if a bracket of
another kind closes before, or none does. -/
def closingIndex? (unclosed : List Bracket) : List Token → Option Nat
  | [] => none
  | t :: ts =>
    match t, unclosed with
    | .opening b, bs => (closingIndex? (b :: bs) ts).map (· + 1)
    | .closing _, [] => none
    | .closing b, [o] => if o = b then some 0 else none
    | .closing b, o :: bs => if o = b then (closingIndex? bs ts).map (· + 1) else none
    | _, bs => (closingIndex? bs ts).map (· + 1)

/-- The bracket around an expression and the tokens inside it. -/
def enclosed? : List Token → Option (Bracket × List Token)
  | .opening b :: ts => if closingIndex? [b] ts = some (ts.length - 1) then some (b, ts.dropLast) else none
  | _ => none

/-- The depth of brackets after a token. -/
def depthAfter (depth : Int) : Token → Int
  | .opening _ => depth + 1
  | .closing _ => depth - 1
  | _ => depth

/-- The tokens cut at the separators at depth 0, when the first token stands at `depth`. -/
def parts (isSeparator : Token → Bool) (depth : Int) : List Token → List (List Token)
  | [] => [[]]
  | t :: ts =>
    let d := depthAfter depth t
    let rest := parts isSeparator d ts
    if d == 0 && isSeparator t then [] :: rest
    else match rest with
      | [] => [[t]]
      | p :: ps => (t :: p) :: ps

/-- The parts between separators, without newlines at their ends. -/
def strippedParts (isSeparator : Token → Bool) (ts : List Token) : List (List Token) :=
  (parts isSeparator 0 ts).map stripNewlines

/-- Items of a list are separated by commas. -/
def separatesItems (t : Token) : Bool :=
  t == .comma

/-- Entries of a map are separated by commas and newlines. -/
def separatesEntries (t : Token) : Bool :=
  t == .comma || t == .newline

/-! ### Literals, lists and maps -/

/-- The value of a token that stands alone. -/
def literal : Token → Except OversizedInteger Value
  | .string value false => .ok (.string value)
  | .heredoc value false => .ok (.string value)
  | .number digits => (Numeral.ofLiteral digits).map .number
  | .identifier name =>
    .ok (if name = "true" then .bool true else if name = "false" then .bool false else .unresolved)
  | _ => .ok .unresolved

/-- Whether the tokens start a `for` expression. -/
def isFor : List Token → Bool
  | .identifier name :: _ => name == "for"
  | _ => false

/-- The key that a token of a map stands for. -/
def key? : Token → Option String
  | .identifier name => some name
  | .number digits => some digits
  | .string value false => some value
  | _ => none

/-- The key and the expression of an entry. -/
def entryOf? : List Token → Option (String × List Token)
  | k :: sep :: t :: ts =>
    if sep = .equals ∨ sep = .colon then (key? k).map fun key => (key, t :: ts) else none
  | _ => none

/-- The expressions of the items of a list, up to the first that is empty. -/
def items (inner : List Token) : List (List Token) :=
  (strippedParts separatesItems inner).takeWhile (!·.isEmpty)

/-- Whether every item of a list is an expression; a separator after the last one is allowed. -/
def itemsComplete (inner : List Token) : Bool :=
  (strippedParts separatesItems inner).length ≤ (items inner).length + 1

/-- The lines and items of a map that are not empty. -/
def entryParts (inner : List Token) : List (List Token) :=
  (strippedParts separatesEntries inner).filter (!·.isEmpty)

/-- The keys and expressions of the entries of a map, up to the first part that is no entry. -/
def entries (inner : List Token) : List (String × List Token) :=
  ((entryParts inner).takeWhile (entryOf? · |>.isSome)).filterMap entryOf?

/-- Whether every part of a map is an entry. -/
def entriesComplete (inner : List Token) : Bool :=
  (entryParts inner).all (entryOf? · |>.isSome)

/-! ### The parts are shorter -/

theorem length_dropLast_lt {b : Bracket} {ts : List Token} {x : Bracket × List Token}
    (h : enclosed? (.opening b :: ts) = some x) : x.2.length < ts.length + 1 := by
  simp only [enclosed?, Option.ite_none_right_eq_some, Option.some.injEq] at h
  obtain ⟨-, rfl⟩ := h
  simp only [List.length_dropLast]
  omega

theorem length_enclosed?_lt {ts : List Token} {x : Bracket × List Token} (h : enclosed? ts = some x) :
    x.2.length < ts.length := by
  unfold enclosed? at h
  split at h
  · exact length_dropLast_lt h
  · cases h

theorem length_of_mem_parts {p : Token → Bool} {d : Int} {ts q : List Token} (h : q ∈ parts p d ts) :
    q.length ≤ ts.length := by
  induction ts generalizing d q with
  | nil => simp_all [parts]
  | cons t ts ih =>
    simp only [parts] at h
    split at h
    · rcases List.mem_cons.1 h with rfl | h
      · simp
      · exact Nat.le_succ_of_le (ih h)
    · split at h
      · simp_all
      · next r rs hr =>
        rcases List.mem_cons.1 h with rfl | h
        · exact Nat.succ_le_succ (ih (hr ▸ List.mem_cons_self))
        · exact Nat.le_succ_of_le (ih (hr ▸ List.mem_cons_of_mem _ h))

theorem length_of_mem_strippedParts {p : Token → Bool} {ts q : List Token} (h : q ∈ strippedParts p ts) :
    q.length ≤ ts.length := by
  obtain ⟨r, hr, rfl⟩ := List.mem_map.1 h
  exact Nat.le_trans (length_trim_le _ _) (length_of_mem_parts hr)

theorem length_of_mem_items {inner q : List Token} (h : q ∈ items inner) : q.length ≤ inner.length :=
  length_of_mem_strippedParts ((List.takeWhile_sublist _).mem h)

theorem length_of_mem_entries {inner : List Token} {e : String × List Token} (h : e ∈ entries inner) :
    e.2.length ≤ inner.length := by
  obtain ⟨q, hq, he⟩ := List.mem_filterMap.1 h
  have h1 := length_of_mem_strippedParts (List.mem_filter.1 ((List.takeWhile_sublist _).mem hq)).1
  unfold entryOf? at he
  split at he
  · simp only [Option.ite_none_right_eq_some, Option.map_eq_some_iff] at he
    obtain ⟨-, _, -, rfl⟩ := he
    simp only [List.length_cons] at h1 ⊢
    omega
  · cases he

/-! ### Values -/

/-- The value of an expression without newlines at its ends. -/
def resolveStripped (ts : List Token) : Except OversizedInteger Value :=
  match ts with
  | [] => .ok .unresolved
  | [t] => literal t
  | [.operator "-", .number digits] => (Numeral.ofLiteral digits).map fun n => .number n.neg
  | ts =>
    match _h : enclosed? ts with
    | none => .ok .unresolved
    | some (.round, inner) => resolveStripped (stripNewlines inner)
    | some (.square, inner) =>
      if (stripNewlines inner).isEmpty then .ok (.list [])
      else if isFor (stripNewlines inner) then .ok .unresolved
      else do
        let values ← (items inner).attach.mapM fun ⟨q, _⟩ => resolveStripped q
        return if itemsComplete inner then .list values else .unresolved
    | some (.curly, inner) =>
      if isFor (stripNewlines inner) then .ok .unresolved
      else do
        let values ← (entries inner).attach.mapM fun ⟨(key, q), _⟩ => return (key, ← resolveStripped q)
        return if entriesComplete inner then .map (Keyed.ofPairs values) else .unresolved
termination_by ts.length
decreasing_by
  · exact Nat.lt_of_le_of_lt (length_trim_le _ _) (length_enclosed?_lt _h)
  · exact Nat.lt_of_le_of_lt (length_of_mem_items (by assumption)) (length_enclosed?_lt _h)
  · next hq => exact Nat.lt_of_le_of_lt (length_of_mem_entries hq) (length_enclosed?_lt _h)

/-- The value of the tokens of an expression. -/
def resolve (ts : List Token) : Except OversizedInteger Value :=
  resolveStripped (stripNewlines ts)

end InfraAudit.Hcl.Expression
