import InfraAudit.Proofs.Hcl.Faults
import InfraAudit.Proofs.Hcl.Traversal

/-!
# InfraAudit.Proofs.Hcl.Enclosure — ranges inside ranges

* `NewlinesPart`: the tokens behind a newline stand on later lines.
* `denotes_of_run`: what the reader makes of items is what they denote.
* `Arranged`: attributes and blocks one after the other, within given lines, and so on inside of the blocks.
* `Located`: tokens in order, within given lines.  `arranged_of_items`: what their items denote is arranged there.
* `arranged_of_tokens`: the ranges of a file are arranged in any lines that hold its tokens.
* `parse_enclosed`: in a file that has a name all ranges are possible, and those of a block enclose the ranges of its
  attributes and children.
-/

namespace InfraAudit

/-- The range is in the file, within the given lines. -/
def SourceRange.Within (filename : String) (first last : Nat) (r : SourceRange) : Prop :=
  r.filename = filename ∧ first ≤ r.startLine ∧ r.startLine ≤ r.endLine ∧ r.endLine ≤ last

theorem SourceRange.Within.mono {filename : String} {first last first' last' : Nat} {r : SourceRange}
    (h : r.Within filename first last) (hf : first' ≤ first) (hl : last ≤ last') : r.Within filename first' last' :=
  ⟨h.1, Nat.le_trans hf h.2.1, h.2.2.1, Nat.le_trans h.2.2.2 hl⟩

namespace Hcl

/-- The range of the block encloses those of its attributes and children.  No two attributes share a line, and a
child starts no earlier than the one before it ends. -/
structure Block.Encloses (b : Block) : Prop where
  attributes : ∀ a ∈ b.attributes, a.range.Within b.range.filename b.range.startLine b.range.endLine
  children : ∀ c ∈ b.children, c.range.Within b.range.filename b.range.startLine b.range.endLine
  apart : b.attributes.Pairwise fun a a' => a.range.endLine < a'.range.startLine
  inOrder : b.children.Pairwise fun c c' => c.range.endLine ≤ c'.range.startLine

/-! ### Lines of tokens -/

/-- The tokens behind a newline stand on later lines. -/
def NewlinesPart (ts : List PlacedToken) : Prop :=
  ts.Pairwise fun t u => t.token = .newline → t.endLine < u.start.line

theorem Lexer.Chain.newlinesPart {p : Position} {ls : List Lexer.Lexeme} (h : Lexer.Chain p ls) :
    NewlinesPart (ls.filterMap Lexer.Lexeme.token?) := by
  induction ls generalizing p with
  | nil => exact .nil
  | cons l ls ih =>
    obtain ⟨rfl, -, hs, h⟩ := h
    cases hl : l.token? with
    | none => simpa [List.filterMap_cons, hl] using ih h
    | some t =>
      rw [List.filterMap_cons, hl]
      refine .cons (fun u hu htok => ?_) (ih h)
      have hu' : (l.start.after l.text).line ≤ u.start.line := h.le_start u hu
      have hitem : l.item = .token .newline := by
        unfold Lexeme.token? at hl
        split at hl <;> cases hl
        next he => rw [he, ← htok]
      obtain htext : l.text = ['\n'] := by rwa [hitem] at hs
      rw [Lexeme.token?_endLine hl, Lexeme.endLine, htext]
      rw [htext, Position.after_line] at hu'
      exact hu'

theorem newlinesPart_of_lex {source : String} {x : Lexed} (h : lex source = .ok x) : NewlinesPart x.tokens := by
  obtain ⟨ls, hls, rfl⟩ := Document.eq_ok_of_map h
  exact (Lexer.chain_of_lexemes hls).newlinesPart

namespace Document

theorem lastLine_le {ts : List PlacedToken} {n : Nat} (h : ∀ t ∈ ts, t.endLine ≤ n) : lastLine ts ≤ n := by
  have key (m : Nat) (hm : m ≤ n) : ts.foldl (fun n t => max n t.endLine) m ≤ n := by
    induction ts generalizing m with
    | nil => exact hm
    | cons t ts ih =>
      obtain ⟨ht, hts⟩ := List.forall_mem_cons.1 h
      exact ih hts _ (Nat.max_le.2 ⟨hm, ht⟩)
  exact key 0 (Nat.zero_le n)

/-! ### What the reader makes of items -/

section Denotation

variable {filename : String} {finish : Position} {ts rest : List PlacedToken} {items : List Item}
  {σ : Progress} {w : List Warning} {bs : List Block}

/-- The tokens of an expression are determined. -/
theorem definition_append_inv {name : String} {line : Nat} {value : List PlacedToken} {a : Attribute}
    {rest' : List PlacedToken} (hn : NestedOver (· ≠ .newline) (value.map PlacedToken.token))
    (hs : EndsExpression rest) (h : definition filename finish name line (value ++ rest) = .ok (a, rest')) :
    rest' = rest ∧ a.name = name ∧ Expression.resolve (value.map PlacedToken.token) = .ok a.value ∧
      Covers filename line (lastLine value) a.range := by
  obtain ⟨value', heq, -, hn', hs', hv, hc, hname⟩ := definition_eq_ok_iff.1 h
  have he := expression_append hn hs
  rw [heq, expression_append hn' hs'] at he
  simp only [Except.ok.injEq, Prod.mk.injEq] at he
  obtain ⟨rfl, rfl⟩ := he
  exact ⟨rfl, hname, hv, hc⟩

theorem Labels.ne_equals {e o : PlacedToken} {body : List PlacedToken} {names : List String}
    (h : Labels (e :: ts) names (o :: body)) (ho : o.token = .opening .curly) : e.token ≠ .equals := by
  cases h with
  | nil => simp [ho]
  | identifier ht _ => simp [ht]
  | string ht _ => simp [ht]

/-- The labels before an opening brace are determined. -/
theorem Labels.unique {o o' : PlacedToken} {body body' : List PlacedToken} {names names' : List String}
    (h : Labels ts names (o :: body)) (ho : o.token = .opening .curly) (h' : Labels ts names' (o' :: body'))
    (ho' : o'.token = .opening .curly) : names' = names ∧ body' = body := by
  have he : header ⟨1, 1⟩ "" ts = .ok (names, body) := h.header_eq ho
  have he' : header ⟨1, 1⟩ "" ts = .ok (names', body') := h'.header_eq ho'
  rw [he] at he'
  cases he'
  exact ⟨rfl, rfl⟩

/-- The closing brace adds the innermost block, with what was added to it. -/
theorem close_of_run {c : PlacedToken} {after : List PlacedToken} {kind : String} {names : List String}
    {lines : SourceRange} {as : List Attribute} {cs : List Block} (hc : c.token = .closing .curly)
    (h : run filename finish
      (Progress.extend { σ with unclosed := .opened kind names lines :: σ.unclosed } as cs) (c :: after) =
        ⟨w, .ok bs⟩) :
    ∃ r, Covers lines.filename lines.startLine c.start.line r ∧
      run filename finish (σ.extend [] [⟨kind, names, r, as, cs⟩]) after = ⟨w, .ok bs⟩ := by
  have hext : Progress.extend { σ with unclosed := .opened kind names lines :: σ.unclosed } as cs =
      { σ with unclosed := ⟨kind, names, lines, as, cs⟩ :: σ.unclosed } := rfl
  rw [hext] at h
  obtain ⟨σ', rest', hstep, hr⟩ := run_cons_inv h rfl
  cases hstep with
  | newline ht => simp [hc] at ht
  | assignment ht => simp [hc] at ht
  | «open» ht => simp [hc] at ht
  | close _ hσ hclose =>
    cases hσ
    obtain ⟨hcov, hb⟩ := close_eq_ok_iff.1 hclose
    rw [Progress.addBlock_eq, hb] at hr
    exact ⟨_, hcov, hr⟩

/-- What the reader adds for items is what they denote. -/
theorem denotes_of_run (h : Items ts items rest) (hr : run filename finish σ ts = ⟨w, .ok bs⟩) :
    ∃ as cs, Denotes filename items as cs ∧ run filename finish (σ.extend as cs) rest = ⟨w, .ok bs⟩ := by
  induction h generalizing σ with
  | nil => exact ⟨[], [], .nil, by rwa [Progress.extend_nil]⟩
  | newline ht _ ih =>
    obtain ⟨σ', rest', hs, hr⟩ := run_cons_inv hr rfl
    cases hs <;> simp_all
  | assignment hk he hv hn hs h ih =>
    obtain ⟨σ', rest', hstep, hr⟩ := run_cons_inv hr rfl
    cases hstep with
    | newline ht => simp [hk] at ht
    | close ht => simp [hk] at ht
    | @assignment _ _ _ _ a _ ht _ hd ha =>
      obtain ⟨rfl, hname, hv', hc⟩ := definition_append_inv hn hs hd
      obtain ⟨rfl, -⟩ := addAttribute_inv ha
      obtain ⟨as, cs, hd', hr'⟩ := ih hr
      rw [Progress.extend_extend] at hr'
      have hnames := Token.identifier.inj (ht.symm.trans hk)
      obtain ⟨aname, v, lines⟩ := a
      obtain rfl := hname.trans hnames
      exact ⟨_ :: as, cs, .assignment hv' hc hd', hr'⟩
    | «open» _ hl ho => exact absurd he (hl.ne_equals ho)
  | block hk hl ho hb hc hd h ihb ih =>
    obtain ⟨σ', rest', hstep, hr⟩ := run_cons_inv hr rfl
    cases hstep with
    | newline ht => simp [hk] at ht
    | close ht => simp [hk] at ht
    | assignment _ he => exact absurd he (hl.ne_equals ho)
    | @«open» _ _ _ _ _ lines ht hl' ho' hlines =>
      obtain ⟨rfl, rfl⟩ := hl.unique ho hl' ho'
      obtain rfl := Token.identifier.inj (ht.symm.trans hk)
      obtain ⟨hfile, hfirst, -⟩ := range_eq_ok_iff.1 hlines
      obtain ⟨as', cs', hd1, hr1⟩ := ihb hr
      obtain ⟨r, hcov, hr2⟩ := close_of_run hc hr1
      obtain ⟨as, cs, hd2, hr3⟩ := ih hr2
      rw [Progress.extend_extend] at hr3
      rw [hfile, hfirst] at hcov
      exact ⟨as, _ :: cs, .block hd1 hcov hd2, hr3⟩

end Denotation

/-! ### Arrangement -/

/-- Attributes and blocks of a file one after the other, within the given lines, and so on inside of the blocks. -/
structure Arranged (filename : String) (first last : Nat) (as : List Attribute) (bs : List Block) : Prop where
  attributes : ∀ a ∈ as, a.range.Within filename first last
  apart : as.Pairwise fun a a' => a.range.endLine < a'.range.startLine
  inOrder : bs.Pairwise fun b b' => b.range.endLine ≤ b'.range.startLine
  walk : ∀ b ∈ Block.walkAll bs, b.range.Within filename first last ∧
    (∀ a ∈ b.attributes, a.range.Within filename first last) ∧ b.Encloses

section Arrangement

variable {filename : String} {first last : Nat} {ts rest : List PlacedToken} {items : List Item}
  {as : List Attribute} {bs : List Block}

theorem Covers.within {a b : Nat} {r : SourceRange} (h : Covers filename a b r) (hf : first ≤ a) (hl : b ≤ last) :
    r.Within filename first last := by
  obtain ⟨rfl, rfl, rfl⟩ := h
  exact ⟨rfl, hf, r.start_le_end, hl⟩

theorem Arranged.nil : Arranged filename first last [] [] :=
  ⟨by simp, .nil, .nil, by simp [Block.walkAll]⟩

/-- An attribute in front of what is arranged on later lines. -/
theorem Arranged.assignment {a : Attribute} (h : Arranged filename first last as bs)
    (ha : a.range.Within filename first last) (hlater : ∀ a' ∈ as, a.range.endLine < a'.range.startLine) :
    Arranged filename first last (a :: as) bs :=
  ⟨List.forall_mem_cons.2 ⟨ha, h.attributes⟩, .cons hlater h.apart, h.inOrder, h.walk⟩

/-- A block around what is arranged in its lines, in front of what is arranged behind. -/
theorem Arranged.block {kind : String} {labels : List String} {lines : SourceRange} {inner : List Attribute}
    {children : List Block} (h : Arranged filename first last as bs) (hl : lines.Within filename first last)
    (hb : Arranged filename lines.startLine lines.endLine inner children)
    (hlater : ∀ b ∈ bs, lines.endLine ≤ b.range.startLine) :
    Arranged filename first last as (⟨kind, labels, lines, inner, children⟩ :: bs) := by
  obtain ⟨hfile, hfirst, hle, hlast⟩ := hl
  refine ⟨h.attributes, h.apart, .cons hlater h.inOrder, fun b hmem => ?_⟩
  rw [Block.walkAll, Block.walk, List.cons_append, List.mem_cons, List.mem_append] at hmem
  rcases hmem with rfl | hmem | hmem
  · refine ⟨⟨hfile, hfirst, hle, hlast⟩, fun a ha => (hb.attributes a ha).mono hfirst hlast, ?_⟩
    subst hfile
    exact ⟨hb.attributes, fun c hc => (hb.walk c (Block.mem_walkAll hc)).1, hb.apart, hb.inOrder⟩
  · obtain ⟨hw, ha, he⟩ := hb.walk b hmem
    exact ⟨hw.mono hfirst hlast, fun a ha' => (ha a ha').mono hfirst hlast, he⟩
  · exact h.walk b hmem

theorem Items.eq_nil_of_closing {c : PlacedToken} (h : Items (c :: ts) items rest) (hc : c.token = .closing .curly) :
    items = [] := by
  cases h with
  | nil => rfl
  | newline ht => simp [hc] at ht
  | assignment hk => simp [hc] at hk
  | block hk => simp [hc] at hk

/-- Tokens in order: their names stand on lines from `first` on, and what is in front of `rest` ends by the line
`last`. -/
structure Located (first last : Nat) (ts rest : List PlacedToken) : Prop where
  inOrder : InOrder ts
  newlines : NewlinesPart ts
  first_le : ∀ t ∈ ts, ∀ name, t.token = .identifier name → first ≤ t.start.line
  le_last : ∀ used, ts = used ++ rest → ∀ t ∈ used, t.endLine ≤ last

theorem Located.suffix {us : List PlacedToken} (h : Located first last (us ++ ts) rest) :
    Located first last ts rest where
  inOrder := h.inOrder.sublist (List.sublist_append_right us ts)
  newlines := h.newlines.sublist (List.sublist_append_right us ts)
  first_le t ht := h.first_le t (List.mem_append_right us ht)
  le_last used hused t ht := h.le_last (us ++ used) (by rw [hused, List.append_assoc]) t (List.mem_append_right us ht)

/-- The body of a block, up to its closing brace. -/
theorem Located.body {k c : PlacedToken} {us body after : List PlacedToken}
    (h : Located first last (k :: (us ++ (body ++ c :: after))) rest) :
    Located k.start.line c.start.line (body ++ c :: after) (c :: after) := by
  have hb : Located first last (body ++ c :: after) rest := @Located.suffix _ _ _ _ (k :: us) h
  refine ⟨hb.inOrder, hb.newlines, fun t ht _ _ => ?_, fun used hused t ht => ?_⟩
  · exact h.inOrder.start_le_start (List.mem_append_right us ht)
  · obtain rfl := List.append_cancel_right hused
    exact (List.pairwise_append.1 hb.inOrder.lines).2.2 t ht c List.mem_cons_self

/-- Names behind an expression stand on later lines, unless a closing brace ends it. -/
theorem lastLine_lt_of_endsExpression {value : List PlacedToken} (ho : InOrder (value ++ ts)) (hn : NewlinesPart ts)
    (hs : EndsExpression ts) (hc : ∀ c ∈ ts.head?, c.token ≠ .closing .curly) :
    ∀ t ∈ ts, ∀ name, t.token = .identifier name → lastLine value < t.start.line := by
  cases ts with
  | nil => simp
  | cons u us =>
    have hu : u.token = .newline := hs.resolve_right (hc u rfl)
    intro t ht name hname
    rcases List.mem_cons.1 ht with rfl | ht
    · simp [hu] at hname
    · have h1 : lastLine value ≤ u.start.line :=
        lastLine_le fun w hw => (List.pairwise_append.1 ho.lines).2.2 w hw u List.mem_cons_self
      have h2 : u.start.line ≤ u.endLine := ho.start_le u (List.mem_append_right value List.mem_cons_self)
      have h3 : u.endLine < t.start.line := List.rel_of_pairwise_cons hn ht hu
      omega

/-- What items denote is arranged in the lines of their tokens. -/
theorem arranged_of_items (h : Items ts items rest) (ht : Located first last ts rest)
    (hd : Denotes filename items as bs) : Arranged filename first last as bs := by
  induction h generalizing first last as bs with
  | nil =>
    cases hd
    exact .nil
  | @newline t ts rest items _ h ih => exact ih (@Located.suffix _ _ _ _ [t] ht) hd
  | @assignment k e value ts rest name items hk he hv hnest hs h ih =>
    cases hd with
    | @assignment _ _ _ _ v lines as _ hv' hl hd =>
      obtain ⟨used, rfl⟩ := h.suffix
      have hts : Located first last (used ++ rest) rest := @Located.suffix _ _ _ _ (k :: e :: value) ht
      have hvalue : ∀ u ∈ value, u.endLine ≤ last := fun u hu =>
        ht.le_last (k :: e :: (value ++ used)) (by simp) u (by simp [hu])
      have hwithin : lines.Within filename first last :=
        hl.within (ht.first_le k List.mem_cons_self name hk) (lastLine_le hvalue)
      refine (ih hts hd).assignment hwithin fun a ha => ?_
      show lines.endLine < a.range.startLine
      rw [hl.2.2]
      -- a closing brace behind the value leaves no further attribute
      have hc : ∀ c ∈ (used ++ rest).head?, c.token ≠ .closing .curly := by
        intro c hc hclosing
        obtain ⟨us, hus⟩ := List.head?_eq_some_iff.1 hc
        rw [hus] at h
        obtain rfl := h.eq_nil_of_closing hclosing
        cases hd
        cases ha
      have ho : InOrder (value ++ (used ++ rest)) := (@Located.suffix _ _ _ _ [k, e] ht).inOrder
      have hlater := lastLine_lt_of_endsExpression ho hts.newlines hs hc
      exact ((ih ⟨hts.inOrder, hts.newlines, hlater, hts.le_last⟩ hd).attributes a ha).2.1
  | @block k o c ts body after rest kind names inner items hk hl ho hb hc hd' h ihb ih =>
    cases hd with
    | @block _ _ _ _ _ _ lines as' _ children _ hdb hlines hd =>
      obtain ⟨pre, rfl⟩ := hl.suffix
      obtain ⟨mid, rfl⟩ := hb.suffix
      obtain ⟨post, rfl⟩ := h.suffix
      have hbrace : Located first last (c :: (post ++ rest)) rest :=
        @Located.suffix _ _ _ _ (k :: (pre ++ o :: mid)) (by simpa using ht)
      have hafter : Located first last (post ++ rest) rest := @Located.suffix _ _ _ _ [c] hbrace
      have hclast : c.start.line ≤ last := by
        have hle := hbrace.inOrder.start_le c List.mem_cons_self
        exact Nat.le_trans hle (hbrace.le_last (c :: post) rfl c List.mem_cons_self)
      have hbody : Located k.start.line c.start.line (mid ++ c :: (post ++ rest)) (c :: (post ++ rest)) :=
        @Located.body _ _ _ _ _ (pre ++ [o]) _ _ (by simpa using ht)
      have hinner : Arranged filename lines.startLine lines.endLine as' children := by
        rw [hlines.2.1, hlines.2.2]
        exact ihb hbody hdb
      have hwithin : lines.Within filename first last :=
        hlines.within (ht.first_le k List.mem_cons_self kind hk) hclast
      refine (ih hafter hd).block hwithin hinner fun b hmem => ?_
      rw [hlines.2.2]
      -- what follows stands behind the closing brace
      have hlater : Located c.start.line last (post ++ rest) rest :=
        ⟨hafter.inOrder, hafter.newlines, fun t ht _ _ => hbrace.inOrder.start_le_start ht, hafter.le_last⟩
      exact ((ih hlater hd).walk b (Block.mem_walkAll hmem)).1.2.1

end Arrangement

/-! ### Whole files -/

section Files

variable {filename source : String} {d : Document}

/-- The ranges of a file that is read are arranged in any lines that hold its tokens. -/
theorem arranged_of_tokens {x : Lexed} {last : Nat} (hx : lex source = .ok x) (ht : ∀ t ∈ x.tokens, t.endLine ≤ last)
    (h : (parse filename source).outcome = .ok d) : ∃ as, Arranged filename 1 last as d.blocks := by
  rw [parse, hx] at h
  obtain ⟨bs, hbs, rfl⟩ := eq_ok_of_map h
  obtain ⟨items, hi⟩ := items_of_run hbs
  have hrun : run filename x.finish .start x.tokens = ⟨_, .ok bs⟩ := congrArg (Logged.mk _) hbs
  obtain ⟨as, cs, hd, hr⟩ := denotes_of_run hi hrun
  -- the items are all that is read
  obtain rfl : cs = bs := by
    rw [run] at hr
    have ho := (Logged.mk.inj hr).2
    simpa [Progress.extend, Progress.start, Progress.finish] using ho
  obtain ⟨hb, -⟩ := bounds_of_lex hx
  have hlocated : Located 1 last x.tokens [] := by
    refine ⟨inOrder_of_lex hx, newlinesPart_of_lex hx, fun t ht _ _ => (hb t ht).1, fun used hused t hmem => ?_⟩
    rw [List.append_nil] at hused
    exact ht t (hused ▸ hmem)
  exact ⟨as, arranged_of_items hi hlocated hd⟩

theorem exists_lex_of_parse (h : (parse filename source).outcome = .ok d) : ∃ x, lex source = .ok x := by
  cases hx : lex source with
  | error e => rw [parse, hx] at h; cases h
  | ok x => exact ⟨x, rfl⟩

/-- The ranges of a file that is read are arranged in its lines. -/
theorem arranged_of_parse (h : (parse filename source).outcome = .ok d) :
    ∃ as, Arranged filename 1 (1 + source.toList.count '\n') as d.blocks := by
  obtain ⟨x, hx⟩ := exists_lex_of_parse h
  have hline : x.finish.line = 1 + source.toList.count '\n' := by
    rw [finish_of_lex hx, Position.after_line, Position.start]
  obtain ⟨hb, -⟩ := bounds_of_lex hx
  exact arranged_of_tokens hx (fun t ht => hline ▸ (hb t ht).2) h

/-- In a file that has a name all ranges are possible.  If it is read, every range is in its lines, that of a block
encloses the ranges of its attributes and children, and blocks start no earlier than the ones before them end. -/
theorem parse_enclosed (hf : filename ≠ "") :
    (∀ e, (parse filename source).outcome ≠ .error (.badRange e)) ∧
      ∀ d, (parse filename source).outcome = .ok d →
        (d.blocks.Pairwise fun b b' => b.range.endLine ≤ b'.range.startLine) ∧
          ∀ b ∈ Block.walkAll d.blocks,
            b.range.Within filename 1 (1 + source.toList.count '\n') ∧
              (∀ a ∈ b.attributes, a.range.Within filename 1 (1 + source.toList.count '\n')) ∧ b.Encloses := by
  refine ⟨fun e he => ?_, fun d hd => ?_⟩
  · rcases fault_of_parse hf he with (⟨_, _, h⟩ | ⟨h, -⟩) | ⟨x, -, ⟨_, _, h⟩ | ⟨⟨_, h⟩, -⟩⟩ <;> cases h
  · obtain ⟨as, h⟩ := arranged_of_parse hd
    exact ⟨h.inOrder, h.walk⟩

/-- A block with a heredoc, a list over two lines in a child, and another child on the line where that one ends. -/
theorem parse_enclosed_children :
    "a.tf" ≠ "" ∧ ∃ d, (parse "a.tf" "b \x7b\n x = <<E\nE\n c \x7b y = [1,\n2] \x7d c \x7b\x7d\n\x7d\nr \x7b\x7d").outcome = .ok d ∧
      (Block.walkAll d.blocks).map (fun b => (b.range.startLine, b.range.endLine)) = [(1, 6), (4, 5), (5, 5), (7, 7)] ∧
      ∀ b ∈ Block.walkAll d.blocks, b.range.Within "a.tf" 1 7 ∧ b.Encloses := by
  let lines (_ : List Warning) (d : Document) : List (Nat × Nat) :=
    (Block.walkAll d.blocks).map fun b => (b.range.startLine, b.range.endLine)
  have hf : "a.tf" ≠ "" := by decide
  obtain ⟨w, d, ho, hw⟩ := Logged.ok_of_map (g := lines) (b := [(1, 6), (4, 5), (5, 5), (7, 7)]) (o := parse "a.tf"
    "b \x7b\n x = <<E\nE\n c \x7b y = [1,\n2] \x7d c \x7b\x7d\n\x7d\nr \x7b\x7d") (by decide +kernel)
  have hd := congrArg Logged.outcome ho
  obtain ⟨-, hall⟩ := (parse_enclosed hf).2 d hd
  exact ⟨hf, d, hd, hw, fun b hb => ⟨(hall b hb).1, (hall b hb).2.2⟩⟩

end Files

end Document

end Hcl

end InfraAudit
