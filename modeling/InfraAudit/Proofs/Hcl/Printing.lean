import InfraAudit.Proofs.Hcl.Reading
import InfraAudit.Proofs.Hcl.Composition

/-!
# InfraAudit.Proofs.Hcl.Printing — values as text

* `Value.written`: a value as an expression; `Value.tokens`: the tokens of that expression.
* `Value.Printable`: what can be printed, which is every value without binary64 numbers, without integers of too
  many digits and without maps whose keys repeat.
* `reads_written`: the text of a value reads as its tokens; `resolve_tokens`: they stand for the value.
-/

namespace InfraAudit.Hcl

open InfraAudit.Decimal InfraAudit.Text

namespace Value

/-! ### Text and tokens -/

mutual

/-- The value as an expression; what is not known is `null`. -/
def written : Value → List Char
  | .unresolved => "null".toList
  | .string s => quotedText s
  | .number n => n.text.toList
  | .bool b => if b then "true".toList else "false".toList
  | .list items => '[' :: (", ".toList.intercalate (writtenItems items) ++ [']'])
  | .map entries => '{' :: (", ".toList.intercalate (writtenEntries entries) ++ ['}'])

/-- The items of a list as expressions. -/
def writtenItems : List Value → List (List Char)
  | [] => []
  | v :: vs => written v :: writtenItems vs

/-- The entries of a map, each with its key between quotes. -/
def writtenEntries : List (String × Value) → List (List Char)
  | [] => []
  | (key, v) :: es => (quotedText key ++ " = ".toList ++ written v) :: writtenEntries es

end

/-- The tokens of a number; a negative one has its sign before it. -/
def numberTokens : Numeral → List Token
  | .integer n => if n < 0 then [.operator "-", .number n.natAbs.repr] else [.number n.natAbs.repr]
  | .real x => [.number (Numeral.real x).text]

mutual

/-- The tokens of the value as an expression. -/
def tokens : Value → List Token
  | .unresolved => [.identifier "null"]
  | .string s => [.string s false]
  | .number n => numberTokens n
  | .bool b => if b then [.identifier "true"] else [.identifier "false"]
  | .list items => .opening .square :: ([Token.comma].intercalate (tokensItems items) ++ [.closing .square])
  | .map entries => .opening .curly :: ([Token.comma].intercalate (tokensEntries entries) ++ [.closing .curly])

/-- The tokens of the items of a list. -/
def tokensItems : List Value → List (List Token)
  | [] => []
  | v :: vs => tokens v :: tokensItems vs

/-- The tokens of the entries of a map. -/
def tokensEntries : List (String × Value) → List (List Token)
  | [] => []
  | (key, v) :: es => Expression.entryTokens (key, tokens v) :: tokensEntries es

end

/-- A value that has an expression of its own: its integers have no more digits than can be read, and the keys of
its maps are distinct. -/
inductive Printable : Value → Prop
  | unresolved : Printable .unresolved
  | string (s : String) : Printable (.string s)
  | integer {n : Int} (h : n.natAbs.repr.length ≤ digitLimit) : Printable (.number (.integer n))
  | bool (b : Bool) : Printable (.bool b)
  | list {items : List Value} (h : ∀ v ∈ items, Printable v) : Printable (.list items)
  | map {entries : List (String × Value)} (hd : (entries.map Prod.fst).Nodup) (h : ∀ e ∈ entries, Printable e.2) :
      Printable (.map entries)

theorem writtenItems_eq (items : List Value) : writtenItems items = items.map written := by
  induction items with
  | nil => rfl
  | cons v vs ih => rw [writtenItems, ih, List.map_cons]

theorem writtenEntries_eq (entries : List (String × Value)) :
    writtenEntries entries = entries.map fun e => quotedText e.1 ++ " = ".toList ++ written e.2 := by
  induction entries with
  | nil => rfl
  | cons e es ih => rw [writtenEntries, ih, List.map_cons]

theorem tokensItems_eq (items : List Value) : tokensItems items = items.map tokens := by
  induction items with
  | nil => rfl
  | cons v vs ih => rw [tokensItems, ih, List.map_cons]

theorem tokensEntries_eq (entries : List (String × Value)) :
    tokensEntries entries = (entries.map fun e => (e.1, tokens e.2)).map Expression.entryTokens := by
  induction entries with
  | nil => rfl
  | cons e es ih => rw [tokensEntries, ih, List.map_cons, List.map_cons]

/-! ### The tokens stand for the value -/

section Resolution

open Expression

variable {v : Value}

theorem isPart_singleton {t : Token} (ht : t.isBracket = false) (hs : t ≠ .comma ∧ t ≠ .newline)
    (hf : t ≠ .identifier "for") : IsPart [t] where
  nested := .plain ht hs .nil
  ne_nil := List.cons_ne_nil _ _
  mem := by simp [hs, hf]

/-- Parts joined by commas, between brackets, are a part. -/
theorem isPart_group (b : Bracket) {es : List (List Token)} (h : ∀ e ∈ es, IsPart e) :
    IsPart (.opening b :: ([Token.comma].intercalate es ++ [.closing b])) where
  nested := .group (nested_intercalate fun e he => (h e he).nested.nested) .nil
  ne_nil := List.cons_ne_nil _ _
  mem := by
    intro t ht
    rw [List.mem_cons, List.mem_append, List.mem_singleton] at ht
    obtain rfl | ht | rfl := ht
    · simp
    · exact mem_intercalate_parts h ht
    · simp

theorem isPart_tokens (h : v.Printable) : IsPart v.tokens := by
  induction h with
  | unresolved => exact isPart_singleton rfl (by simp) (by simp)
  | string s => exact isPart_singleton rfl (by simp) (by simp)
  | @integer n h =>
    simp only [tokens, numberTokens]
    split
    · exact ⟨.plain rfl (by simp) (.plain rfl (by simp) .nil), by simp, by simp⟩
    · exact isPart_singleton rfl (by simp) (by simp)
  | bool b => cases b <;> exact isPart_singleton rfl (by simp) (by simp)
  | list h ih =>
    rw [tokens, tokensItems_eq]
    exact isPart_group .square (List.forall_mem_map.2 ih)
  | map hd h ih =>
    rw [tokens, tokensEntries_eq]
    exact isPart_group .curly
      (List.forall_mem_map.2 (List.forall_mem_map.2 fun e he => isPart_entryTokens (ih e he)))

/-- The numbers that are printed are short enough to be read. -/
theorem readable_tokens (h : v.Printable) : ∀ t ∈ v.tokens, t.Readable := by
  have group (b : Bracket) {es : List (List Token)} (h : ∀ e ∈ es, ∀ t ∈ e, t.Readable) :
      ∀ t ∈ Token.opening b :: ([Token.comma].intercalate es ++ [.closing b]), t.Readable := by
    intro t ht
    rw [List.mem_cons, List.mem_append, List.mem_singleton] at ht
    obtain rfl | ht | rfl := ht
    · trivial
    · obtain rfl | ⟨e, he, ht⟩ := mem_intercalate ht
      · trivial
      · exact h e he t ht
    · trivial
  induction h with
  | unresolved => simp [tokens, Token.Readable]
  | string s => simp [tokens, Token.Readable]
  | @integer n h =>
    simp only [tokens, numberTokens]
    split <;> simpa [Token.Readable] using fun _ => h
  | bool b => cases b <;> simp [tokens, Token.Readable]
  | list h ih =>
    rw [tokens, tokensItems_eq]
    exact group .square (List.forall_mem_map.2 ih)
  | map hd h ih =>
    rw [tokens, tokensEntries_eq]
    refine group .curly (List.forall_mem_map.2 (List.forall_mem_map.2 fun e he => ?_))
    exact List.forall_mem_cons.2 ⟨trivial, List.forall_mem_cons.2 ⟨trivial, ih e he⟩⟩

theorem ofLiteral_repr {n : Nat} (h : n.repr.length ≤ digitLimit) :
    Numeral.ofLiteral n.repr = .ok (.integer n) := by
  have hd : ∀ c ∈ n.repr.toList, c.isDigit = true := by
    rw [Nat.toList_repr]
    exact fun c hc => Nat.isDigit_of_mem_toDigits (by decide) (by decide) hc
  have hr : (n.repr.toList.any fun c => c == '.' || c == 'e' || c == 'E') = false := by
    refine List.any_eq_false.2 fun c hc => ?_
    have ne (d : Char) (h : d.isDigit = false) : c ≠ d := Lexer.ne_of_class (hd c hc) h
    simp [ne '.' (by decide), ne 'e' (by decide), ne 'E' (by decide)]
  have hl : ¬ digitLimit < n.repr.toList.length := by
    rw [String.length_toList]
    omega
  have hv : decimalValue n.repr.toList = n := by
    rw [Nat.toList_repr]
    exact Nat.ofDigitChars_ten_toDigits
  simp only [Numeral.ofLiteral, hr, hl, hv, Bool.false_eq_true, ite_false]

theorem mapM_map_ok {α β γ ε : Type} {f : β → Except ε γ} {g : α → β} {k : α → γ} {l : List α}
    (h : ∀ a ∈ l, f (g a) = .ok (k a)) : (l.map g).mapM f = .ok (l.map k) := by
  induction l with
  | nil => rfl
  | cons a l ih =>
    obtain ⟨ha, hl⟩ := List.forall_mem_cons.1 h
    rw [List.map_cons, List.mapM_cons, ha, ih hl]
    rfl

theorem resolveStripped_singleton (t : Token) : resolveStripped [t] = literal t := by
  rw [resolveStripped]

theorem resolveStripped_negative (digits : String) :
    resolveStripped [.operator "-", .number digits] = (Numeral.ofLiteral digits).map fun n => .number n.neg := by
  rw [resolveStripped]

/-- The tokens of a value stand for it. -/
theorem resolveStripped_tokens (h : v.Printable) : resolveStripped v.tokens = .ok v := by
  induction h with
  | unresolved => exact resolveStripped_singleton _
  | string s => exact resolveStripped_singleton _
  | @integer n h =>
    simp only [tokens, numberTokens]
    split
    · next hn =>
      have hneg : -(n.natAbs : Int) = n := by omega
      rw [resolveStripped_negative, ofLiteral_repr h]
      simp only [Except.map, Numeral.neg, hneg]
    · next hn =>
      have habs : (n.natAbs : Int) = n := by omega
      rw [resolveStripped_singleton, literal, ofLiteral_repr h]
      simp only [Except.map, habs]
  | bool b => cases b <;> exact resolveStripped_singleton _
  | list h ih =>
    rw [tokens, tokensItems_eq]
    refine resolveStripped_list (List.forall_mem_map.2 fun v hv => isPart_tokens (h v hv)) ?_
    exact (mapM_map_ok (k := id) ih).trans (by rw [List.map_id])
  | map hd h ih =>
    rw [tokens, tokensEntries_eq]
    refine resolveStripped_map hd (List.forall_mem_map.2 fun e he => isPart_tokens (h e he)) ?_
    refine (mapM_map_ok (k := id) fun e he => ?_).trans (by rw [List.map_id])
    simp only [ih e he]
    rfl

/-- An expression that is printed has its value again. -/
theorem resolve_tokens (h : v.Printable) : resolve v.tokens = .ok v := by
  rw [resolve, stripNewlines_of_mem fun t ht => ((isPart_tokens h).mem t ht).1, resolveStripped_tokens h]

end Resolution

/-! ### The text reads as the tokens -/

section Reading

open Lexer

variable {v : Value} {rest : List Char}

theorem reads_repr (n : Nat) (hr : Apart rest) : Reads n.repr.toList [.number n.repr] rest := by
  have hd : ∀ c ∈ Nat.toDigits 10 n, isDigit c = true := fun c hc =>
    Nat.isDigit_of_mem_toDigits (b := 10) (by decide) (by decide) hc
  obtain ⟨c, s, hs⟩ := List.exists_cons_of_ne_nil (Nat.toDigits_ne_nil (b := 10) (n := n))
  rw [hs] at hd
  obtain ⟨hc, hd⟩ := List.forall_mem_cons.1 hd
  have hn : n.repr = String.ofList (c :: s) := by rw [Nat.repr_eq_ofList_toDigits, hs]
  rw [hn, String.toList_ofList]
  exact reads_number hc hd hr

theorem reads_number_text (n : Int) (hr : Apart rest) :
    Reads (Numeral.integer n).text.toList (numberTokens (.integer n)) rest := by
  have ht : (Numeral.integer n).text = if 0 ≤ n then n.toNat.repr else "-" ++ (-n).toNat.repr := by
    rw [Numeral.text, Int.toString_eq_repr, Int.repr_eq_if]
  rw [ht, numberTokens]
  by_cases hn : 0 ≤ n
  · have habs : n.toNat = n.natAbs := by omega
    rw [if_pos hn, if_neg (by omega), habs]
    exact reads_repr _ hr
  · have habs : (-n).toNat = n.natAbs := by omega
    rw [if_neg hn, if_pos (by omega), habs, String.toList_append]
    have hminus : Reads ['-'] [.operator "-"] (n.natAbs.repr.toList ++ rest) :=
      reads_single (by simp) rfl
    exact hminus.append (reads_repr _ hr)

/-- Texts joined by a comma and a blank read as their tokens joined by commas. -/
theorem reads_intercalate {α : Type} {f : α → List Char} {g : α → List Token} {l : List α}
    (h : ∀ a ∈ l, ∀ rest, Apart rest → Reads (f a) (g a) rest) (hr : Apart rest) :
    Reads (", ".toList.intercalate (l.map f)) ([Token.comma].intercalate (l.map g)) rest := by
  induction l with
  | nil => exact .nil
  | cons a l ih =>
    obtain ⟨ha, hl⟩ := List.forall_mem_cons.1 h
    cases l with
    | nil => simpa using ha rest hr
    | cons b l =>
      have hcomma (r : List Char) : Reads [',', ' '] [.comma] r :=
        (reads_single (by simp) rfl).append (reads_blank (c := ' ') rfl)
      simp only [List.map_cons, List.intercalate_cons_cons]
      exact ((ha _ (apart_cons (by decide +kernel) (by decide))).append (hcomma _)).append (ih hl)

theorem reads_group {o c : Char} {b : Bracket} {s : List Char} {ts : List Token}
    (ho : Reads [o] [.opening b] (s ++ c :: rest)) (hc : Reads [c] [.closing b] rest)
    (h : Reads s ts (c :: rest)) :
    Reads (o :: (s ++ [c])) (.opening b :: (ts ++ [.closing b])) rest := by
  have ho' : Reads [o] [.opening b] ((s ++ [c]) ++ rest) := by simpa using ho
  exact ho'.append (h.append hc)

/-- The text of a value reads as its tokens. -/
theorem reads_written (h : v.Printable) (hr : Apart rest) : Reads v.written v.tokens rest := by
  induction h generalizing rest with
  | unresolved => exact reads_identifier (by decide +kernel) hr
  | string s => exact reads_quotedText s rest
  | integer h => exact reads_number_text _ hr
  | bool b => cases b <;> exact reads_identifier (by decide +kernel) hr
  | list h ih =>
    rw [written, tokens, writtenItems_eq, tokensItems_eq]
    exact reads_group (reads_single (by simp) rfl) (reads_single (by simp) rfl)
      (reads_intercalate (fun v hv r hr => ih v hv hr) (apart_cons (by decide +kernel) (by decide)))
  | map hd h ih =>
    rw [written, tokens, writtenEntries_eq, tokensEntries_eq, List.map_map]
    refine reads_group (reads_single (by simp) rfl) (reads_single (by simp) rfl)
      (reads_intercalate (fun e he r hr => ?_) (apart_cons (by decide +kernel) (by decide)))
    have heq : Reads " = ".toList [.equals] (e.2.written ++ r) := reads_equals
    exact ((reads_quotedText e.1 _).append heq).append (ih e he hr)

end Reading

end Value

end InfraAudit.Hcl
