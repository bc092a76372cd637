import InfraAudit.Proofs.Hcl.Grammar
import InfraAudit.Proofs.Hcl.Printing

/-!
# InfraAudit.Proofs.Hcl.RoundTrip — printed blocks are read back

* `Declaration`: a block without the lines it stands on; `Block.declaration` forgets them.
* `Declaration.written`, `print`: blocks as text, one attribute a line, with the nested blocks after the attributes.
* `reads_declaration`: the text of a block reads as `Declaration.tokens`.
* `Derives`: what the grammar derives, without lines; `derives_declaration` derives a block from its tokens.
* `parse_print`: what is printed is read back.
-/

namespace InfraAudit.Hcl

open InfraAudit.Text Document

/-! ### Blocks without lines -/

/-- A block without the lines it stands on. -/
structure Declaration where
  kind : String
  labels : List String
  attributes : List (String × Value)
  children : List Declaration

mutual

/-- The block without its lines. -/
def Block.declaration : Block → Declaration
  | ⟨kind, labels, _, attributes, children⟩ =>
    ⟨kind, labels, attributes.map fun a => (a.name, a.value), declarations children⟩

/-- The blocks of a forest without their lines. -/
def Block.declarations : List Block → List Declaration
  | [] => []
  | b :: bs => b.declaration :: declarations bs

end

namespace Declaration

/-- An attribute on a line of its own. -/
def writtenAttribute (a : String × Value) : List Char :=
  a.1.toList ++ (" = ".toList ++ (a.2.written ++ ['\n']))

mutual

/-- The block as text: its kind, its labels between quotes, and in braces its attributes and its nested blocks. -/
def written : Declaration → List Char
  | ⟨kind, labels, attributes, children⟩ =>
    kind.toList ++ (labels.flatMap (fun l => ' ' :: quotedText l) ++ (" \x7b\n".toList ++
      (attributes.flatMap writtenAttribute ++ (writtenAll children ++ "\x7d\n".toList))))

/-- The blocks of a forest as text. -/
def writtenAll : List Declaration → List Char
  | [] => []
  | d :: ds => written d ++ writtenAll ds

end

/-- The tokens of an attribute on a line of its own. -/
def attributeTokens (a : String × Value) : List Token :=
  .identifier a.1 :: .equals :: (a.2.tokens ++ [.newline])

mutual

/-- The tokens of the block. -/
def tokens : Declaration → List Token
  | ⟨kind, labels, attributes, children⟩ =>
    .identifier kind :: (labels.map (.string · false) ++ .opening .curly :: .newline ::
      (attributes.flatMap attributeTokens ++ (tokensAll children ++ [.closing .curly, .newline])))

/-- The tokens of the blocks of a forest. -/
def tokensAll : List Declaration → List Token
  | [] => []
  | d :: ds => tokens d ++ tokensAll ds

end

/-- A block that can be printed: its kind and the names of its attributes are identifiers, the names are distinct,
and the values and the nested blocks can be printed as well. -/
inductive Printable : Declaration → Prop
  | intro {kind : String} {labels : List String} {attributes : List (String × Value)}
      {children : List Declaration}
      (hk : Lexer.isIdentifier kind = true)
      (ha : ∀ a ∈ attributes, Lexer.isIdentifier a.1 = true ∧ a.2.Printable)
      (hd : (attributes.map Prod.fst).Nodup) (hc : ∀ d ∈ children, Printable d) :
      Printable ⟨kind, labels, attributes, children⟩

theorem writtenAll_eq (ds : List Declaration) : writtenAll ds = ds.flatMap written := by
  induction ds with
  | nil => rfl
  | cons d ds ih => rw [writtenAll, ih, List.flatMap_cons]

theorem tokensAll_eq (ds : List Declaration) : tokensAll ds = ds.flatMap tokens := by
  induction ds with
  | nil => rfl
  | cons d ds ih => rw [tokensAll, ih, List.flatMap_cons]

end Declaration

theorem Block.declarations_eq (bs : List Block) : declarations bs = bs.map declaration := by
  induction bs with
  | nil => rfl
  | cons b bs ih => rw [declarations, ih, List.map_cons]

/-- A forest as text. -/
def print (forest : List Declaration) : String :=
  String.ofList (Declaration.writtenAll forest)

/-! ### The text of a block reads as its tokens -/

namespace Declaration

section Reading

open Lexer

variable {rest : List Char} {d : Declaration}

theorem reads_flatMap {α : Type} {f : α → List Char} {g : α → List Token} {l : List α}
    (h : ∀ a ∈ l, ∀ rest, Reads (f a) (g a) rest) : Reads (l.flatMap f) (l.flatMap g) rest := by
  induction l with
  | nil => exact .nil
  | cons a l ih =>
    obtain ⟨ha, hl⟩ := List.forall_mem_cons.1 h
    exact (ha _).append (ih hl)

theorem reads_label (l : String) (rest : List Char) : Reads (' ' :: quotedText l) [.string l false] rest :=
  (reads_blank (c := ' ') rfl).append (reads_quotedText l rest)

theorem reads_attribute {a : String × Value} (hn : isIdentifier a.1 = true) (hv : a.2.Printable) (rest : List Char) :
    Reads (writtenAttribute a) (attributeTokens a) rest := by
  have hname (r : List Char) : Reads a.1.toList [.identifier a.1] (' ' :: r) :=
    reads_identifier hn (apart_cons (by decide) (by decide))
  have hequals (r : List Char) : Reads " = ".toList [.equals] r := reads_equals
  have hvalue : Reads a.2.written a.2.tokens ('\n' :: rest) :=
    Value.reads_written hv (apart_cons (by decide) (by decide))
  exact (hname _).append ((hequals _).append (hvalue.append reads_newline))

/-- The text of a block reads as its tokens. -/
theorem reads_declaration (h : d.Printable) (rest : List Char) : Reads d.written d.tokens rest := by
  have hopen (r : List Char) : Reads [' ', '{', '\n'] [.opening .curly, .newline] r :=
    (reads_blank (c := ' ') rfl).append
      ((reads_single (by simp) rfl).append reads_newline)
  have hclose (r : List Char) : Reads ['}', '\n'] [.closing .curly, .newline] r :=
    (reads_single (by simp) rfl).append reads_newline
  induction h generalizing rest with
  | @intro kind labels attributes children hk ha hd hc ih =>
    have hlabels (r : List Char) :
        Reads (labels.flatMap fun l => ' ' :: quotedText l) (labels.map (.string · false)) r := by
      rw [List.map_eq_flatMap]
      exact reads_flatMap fun l _ => reads_label l
    have hattributes (r : List Char) : Reads (attributes.flatMap writtenAttribute)
        (attributes.flatMap attributeTokens) r :=
      reads_flatMap fun a h => reads_attribute (ha a h).1 (ha a h).2
    have hchildren (r : List Char) : Reads (children.flatMap written) (children.flatMap tokens) r :=
      reads_flatMap ih
    -- a blank follows the kind, before a label or the brace
    have hkind (s r : List Char) : Reads kind.toList [.identifier kind]
        (labels.flatMap (fun l => ' ' :: quotedText l) ++ (" \x7b\n".toList ++ s) ++ r) := by
      refine reads_identifier hk ?_
      cases labels <;> exact apart_cons (by decide) (by decide)
    rw [written, tokens, writtenAll_eq, tokensAll_eq]
    exact (hkind _ _).append ((hlabels _).append
      ((hopen _).append ((hattributes _).append ((hchildren _).append (hclose rest)))))

/-- The integers of a block are short enough to be read. -/
theorem readable_tokens (h : d.Printable) : ∀ t ∈ d.tokens, t.Readable := by
  induction h with
  | @intro kind labels attributes children hk ha hd hc ih =>
    intro t ht
    rw [tokens, tokensAll_eq] at ht
    simp only [List.mem_cons, List.mem_append, List.mem_map, List.mem_flatMap, List.not_mem_nil, or_false] at ht
    obtain rfl | ⟨l, -, rfl⟩ | rfl | rfl | ⟨a, hm, ht⟩ | ⟨c, hm, ht⟩ | rfl | rfl := ht
    · trivial
    · trivial
    · trivial
    · trivial
    · simp only [attributeTokens, List.mem_cons, List.mem_append, List.not_mem_nil, or_false] at ht
      obtain rfl | rfl | ht | rfl := ht
      · trivial
      · trivial
      · exact Value.readable_tokens (ha a hm).2 t ht
      · trivial
    · exact ih c hm t ht
    · trivial
    · trivial

end Reading

end Declaration

/-! ### The tokens of a block derive it -/

/-- The grammar derives the attributes `as` and the blocks `ds` from the tokens up to `rest`, whatever file they
stand in. -/
def Derives (ts : List PlacedToken) (as : List (String × Value)) (ds : List Declaration)
    (rest : List PlacedToken) : Prop :=
  ∃ items, Items ts items rest ∧ attributeNames items = as.map Prod.fst ∧
    ∀ filename attributes blocks, Denotes filename items attributes blocks →
      attributes.map (fun a => (a.name, a.value)) = as ∧ blocks.map Block.declaration = ds

section Derivations

variable {ts rest : List PlacedToken} {as : List (String × Value)} {ds : List Declaration}

theorem Derives.nil : Derives ts [] [] ts :=
  ⟨[], .nil, rfl, fun _ _ _ h => by cases h; exact ⟨rfl, rfl⟩⟩

theorem Derives.newline {t : PlacedToken} (ht : t.token = .newline) (h : Derives ts as ds rest) :
    Derives (t :: ts) as ds rest := by
  obtain ⟨items, hi, hn, hd⟩ := h
  exact ⟨items, .newline ht hi, hn, hd⟩

theorem Derives.assignment {k e : PlacedToken} {value : List PlacedToken} {name : String} {v : Value}
    (hk : k.token = .identifier name) (he : e.token = .equals) (hv : value.map PlacedToken.token = v.tokens)
    (hp : v.Printable) (hs : EndsExpression ts) (h : Derives ts as ds rest) :
    Derives (k :: e :: (value ++ ts)) ((name, v) :: as) ds rest := by
  obtain ⟨items, hi, hn, hd⟩ := h
  have hpart := Value.isPart_tokens hp
  have hne : value ≠ [] := by
    rintro rfl
    exact hpart.ne_nil hv.symm
  have hnest : NestedOver (· ≠ .newline) (value.map PlacedToken.token) := hv ▸ hpart.nested.mono fun t ht => ht.2
  refine ⟨_, .assignment hk he hne hnest hs hi, congrArg (name :: ·) hn, ?_⟩
  rintro filename _ blocks (_ | ⟨hres, -, hrest⟩)
  rw [hv, Value.resolve_tokens hp] at hres
  cases hres
  obtain ⟨rfl, hb⟩ := hd _ _ _ hrest
  exact ⟨rfl, hb⟩

theorem Derives.block {k o c : PlacedToken} {body after : List PlacedToken} {kind : String} {names : List String}
    {inner : List (String × Value)} {children : List Declaration} (hk : k.token = .identifier kind)
    (hl : Labels ts names (o :: body)) (ho : o.token = .opening .curly)
    (hb : Derives body inner children (c :: after)) (hc : c.token = .closing .curly)
    (hd : (inner.map Prod.fst).Nodup) (h : Derives after as ds rest) :
    Derives (k :: ts) as (⟨kind, names, inner, children⟩ :: ds) rest := by
  obtain ⟨body', hbi, hbn, hbd⟩ := hb
  obtain ⟨items, hi, hn, hid⟩ := h
  refine ⟨_, .block hk hl ho hbi hc (hbn ▸ hd) hi, hn, ?_⟩
  rintro filename attributes _ (_ | _ | ⟨hinner, -, hrest⟩)
  obtain ⟨rfl, rfl⟩ := hbd _ _ _ hinner
  obtain ⟨has, rfl⟩ := hid _ _ _ hrest
  refine ⟨has, ?_⟩
  rw [List.map_cons, Block.declaration, Block.declarations_eq]

theorem labels_of_map {names : List String} (h : ts.map PlacedToken.token = names.map (.string · false)) :
    Labels (ts ++ rest) names rest := by
  induction names generalizing ts with
  | nil =>
    obtain rfl := List.map_eq_nil_iff.1 h
    exact .nil
  | cons name names ih =>
    obtain ⟨t, us, rfl, ht, hu⟩ := List.map_eq_cons_iff.1 h
    exact .string ht (ih hu)

theorem derives_attributes {attributes : List (String × Value)} {more : List PlacedToken}
    (hp : ∀ a ∈ attributes, a.2.Printable)
    (ht : ts.map PlacedToken.token = attributes.flatMap Declaration.attributeTokens) (h : Derives more as ds rest) :
    Derives (ts ++ more) (attributes ++ as) ds rest := by
  induction attributes generalizing ts with
  | nil =>
    obtain rfl := List.map_eq_nil_iff.1 ht
    exact h
  | cons a attributes ih =>
    obtain ⟨ha, hattributes⟩ := List.forall_mem_cons.1 hp
    obtain ⟨us, ws, rfl, hu, hw⟩ := List.map_eq_append_iff.1 ht
    obtain ⟨k, us, rfl, hk, hu⟩ := List.map_eq_cons_iff.1 hu
    obtain ⟨e, us, rfl, he, hu⟩ := List.map_eq_cons_iff.1 hu
    obtain ⟨value, us, rfl, hv, hu⟩ := List.map_eq_append_iff.1 hu
    obtain ⟨n, us, rfl, hn, hu⟩ := List.map_eq_cons_iff.1 hu
    obtain rfl := List.map_eq_nil_iff.1 hu
    have hrest : Derives (n :: (ws ++ more)) (attributes ++ as) ds rest := (ih hattributes hw).newline hn
    have hends : EndsExpression (n :: (ws ++ more)) := Or.inl hn
    simpa using Derives.assignment hk he hv ha hends hrest

theorem derives_all {forest : List Declaration} {more : List PlacedToken}
    (hf : ∀ d ∈ forest, ∀ {ts more : List PlacedToken} {ds : List Declaration},
      ts.map PlacedToken.token = d.tokens → Derives more as ds rest → Derives (ts ++ more) as (d :: ds) rest)
    (ht : ts.map PlacedToken.token = forest.flatMap Declaration.tokens) (h : Derives more as ds rest) :
    Derives (ts ++ more) as (forest ++ ds) rest := by
  induction forest generalizing ts with
  | nil =>
    obtain rfl := List.map_eq_nil_iff.1 ht
    exact h
  | cons d forest ih =>
    obtain ⟨hd, hforest⟩ := List.forall_mem_cons.1 hf
    obtain ⟨us, ws, rfl, hu, hw⟩ := List.map_eq_append_iff.1 ht
    rw [List.append_assoc]
    exact hd hu (ih hforest hw)

/-- The tokens of a block derive it. -/
theorem derives_declaration {d : Declaration} {more : List PlacedToken} (h : d.Printable)
    (ht : ts.map PlacedToken.token = d.tokens) (hmore : Derives more as ds rest) :
    Derives (ts ++ more) as (d :: ds) rest := by
  induction h generalizing ts more as ds rest with
  | @intro kind labels attributes children hk ha hd hc ih =>
    rw [Declaration.tokens, Declaration.tokensAll_eq] at ht
    obtain ⟨k, ts, rfl, hk', ht⟩ := List.map_eq_cons_iff.1 ht
    obtain ⟨ls, ts, rfl, hl, ht⟩ := List.map_eq_append_iff.1 ht
    obtain ⟨o, ts, rfl, ho, ht⟩ := List.map_eq_cons_iff.1 ht
    obtain ⟨n, ts, rfl, hn, ht⟩ := List.map_eq_cons_iff.1 ht
    obtain ⟨as', ts, rfl, hattributes, ht⟩ := List.map_eq_append_iff.1 ht
    obtain ⟨cs, ts, rfl, hchildren, ht⟩ := List.map_eq_append_iff.1 ht
    obtain ⟨c, ts, rfl, hclose, ht⟩ := List.map_eq_cons_iff.1 ht
    obtain ⟨m, ts, rfl, hm, ht⟩ := List.map_eq_cons_iff.1 ht
    obtain rfl := List.map_eq_nil_iff.1 ht
    have hinner : Derives (cs ++ (c :: m :: more)) [] children (c :: m :: more) := by
      simpa using derives_all (fun d hd => ih d hd) hchildren (@Derives.nil (c :: m :: more))
    have hbody : Derives (n :: (as' ++ (cs ++ (c :: m :: more)))) attributes children (c :: m :: more) := by
      simpa using (derives_attributes (fun a h => (ha a h).2) hattributes hinner).newline hn
    simpa using Derives.block hk' (labels_of_map hl) ho hbody hclose hd (hmore.newline hm)

end Derivations

/-! ### What is printed is read back -/

section RoundTrip

variable {filename : String} {forest : List Declaration}

/-- Every forest that can be printed is read back as it was, without a warning. -/
theorem parse_print (hf : filename ≠ "") (h : ∀ d ∈ forest, d.Printable) :
    ∃ d, Document.parse filename (print forest) = ⟨[], .ok d⟩ ∧ d.blocks.map Block.declaration = forest := by
  have hr : Lexer.Reads (print forest).toList (forest.flatMap Declaration.tokens) [] := by
    rw [print, String.toList_ofList, Declaration.writtenAll_eq]
    exact Declaration.reads_flatMap fun d hd => Declaration.reads_declaration (h d hd)
  obtain ⟨x, hx, ht, hc⟩ := hr.lex
  have hd : Derives x.tokens [] forest [] := by
    simpa using derives_all (fun d hd => derives_declaration (h d hd)) ht (@Derives.nil [])
  obtain ⟨items, hi, -, hden⟩ := hd
  have hreadable : ∀ t ∈ x.tokens, t.token.Readable := by
    intro t hm
    have hmem : t.token ∈ forest.flatMap Declaration.tokens := ht ▸ List.mem_map_of_mem hm
    obtain ⟨d, hd, htd⟩ := List.mem_flatMap.1 hmem
    exact Declaration.readable_tokens (h d hd) _ htd
  obtain ⟨as, bs, hden', hrun⟩ := run_of_items hx hf hreadable hi
  obtain ⟨has, hbs⟩ := hden _ _ _ hden'
  obtain rfl := List.map_eq_nil_iff.1 has
  refine ⟨⟨bs, []⟩, ?_, hbs⟩
  simp [parse, hx, hrun, hc, Except.map]

/-- Marks before a brace and a newline in a string, a negative number in a map, and a nested block. -/
theorem parse_print_nested :
    ∃ d, Document.parse "main.tf" (print
        [⟨"b", ["a \"q\""], [("s", .string "$$$\x7b\n"), ("m", .map [("k 1", .number (.integer (-12)))])],
          [⟨"c-1", [], [("l", .list [.unresolved])], []⟩]⟩]) = ⟨[], .ok d⟩ ∧
      d.blocks.map Block.declaration =
        [⟨"b", ["a \"q\""], [("s", .string "$$$\x7b\n"), ("m", .map [("k 1", .number (.integer (-12)))])],
          [⟨"c-1", [], [("l", .list [.unresolved])], []⟩]⟩] := by
  have hchild : Declaration.Printable ⟨"c-1", [], [("l", .list [.unresolved])], []⟩ := by
    refine .intro (by decide +kernel) ?_ (by decide) (by simp)
    rintro a (_ | ⟨_, ⟨⟩⟩)
    exact ⟨by decide +kernel, .list (by simp [Value.Printable.unresolved])⟩
  have hmap : Value.Printable (.map [("k 1", .number (.integer (-12)))]) := by
    refine .map (by decide) ?_
    rintro e (_ | ⟨_, ⟨⟩⟩)
    exact .integer (by decide)
  refine parse_print (by decide) ?_
  rintro d (_ | ⟨_, ⟨⟩⟩)
  refine .intro (by decide +kernel) ?_ (by decide) (by simpa using hchild)
  rintro a (_ | ⟨_, _ | ⟨_, ⟨⟩⟩⟩)
  · exact ⟨by decide +kernel, .string _⟩
  · exact ⟨by decide +kernel, hmap⟩

end RoundTrip

end InfraAudit.Hcl
