import InfraAudit.Ignore.Index
import InfraAudit.Proofs.Hcl.Continuation
import InfraAudit.Proofs.Hcl.Inversion
import InfraAudit.Proofs.Hcl.Templates

/-!
# InfraAudit.Proofs.Hcl.Displacement — texts and tokens further down

* `down k`: positions, comments, ranges, blocks and warnings as they are `k` lines further down.
* `read_down`: a text further down has the same tokens and comments, further down.
* `Moved k`: the same token `k` lines further down, in whatever column; template sequences may have another text.
* `Step.moved`: a step of the reader on moved tokens, with more tokens behind them.
* `run_moved`: tokens of a whole file, moved and before more tokens, add their blocks and warnings further down.
-/

namespace InfraAudit

/-- The range `k` lines further down. -/
def SourceRange.down (k : Nat) (r : SourceRange) : SourceRange where
  filename := r.filename
  startLine := r.startLine + k
  endLine := r.endLine + k
  filename_ne := r.filename_ne
  one_le_start := Nat.le_add_right_of_le r.one_le_start
  start_le_end := Nat.add_le_add_right r.start_le_end k

/-- The warning about what stands `k` lines further down. -/
def Warning.down (k : Nat) : Warning → Warning
  | .topLevelAttribute filename line name => .topLevelAttribute filename (line + k) name
  | .checkFailed code block range reason => .checkFailed code block (range.down k) reason
  | w => w

theorem Warning.down_zero (w : Warning) : w.down 0 = w := by
  cases w <;> rfl

theorem Warning.map_down_zero (ws : List Warning) : ws.map (down 0) = ws :=
  List.map_id'' down_zero ws

namespace Hcl

/-- The position `k` lines further down. -/
def Position.down (k : Nat) (p : Position) : Position := ⟨p.line + k, p.column⟩

/-- The token `k` lines further down. -/
def PlacedToken.down (k : Nat) (t : PlacedToken) : PlacedToken := ⟨t.token, t.start.down k, t.endLine + k⟩

/-- The comment `k` lines further down. -/
def Comment.down (k : Nat) (c : Comment) : Comment := ⟨c.text, c.line + k, c.endLine + k⟩

/-- The attribute `k` lines further down. -/
def Attribute.down (k : Nat) (a : Attribute) : Attribute := ⟨a.name, a.value, a.range.down k⟩

mutual

/-- The block with its attributes and descendants `k` lines further down. -/
def Block.down (k : Nat) : Block → Block
  | ⟨kind, labels, range, attributes, children⟩ =>
    ⟨kind, labels, range.down k, attributes.map (Attribute.down k), downAll k children⟩

/-- The blocks `k` lines further down. -/
def Block.downAll (k : Nat) : List Block → List Block
  | [] => []
  | b :: bs => Block.down k b :: downAll k bs

end

section Down

variable {k : Nat} {p : Position} {s : List Char}

theorem Block.downAll_eq (bs : List Block) : downAll k bs = bs.map (down k) := by
  induction bs with
  | nil => rfl
  | cons b bs ih => rw [downAll, ih, List.map_cons]

@[simp] theorem Attribute.down_zero : Attribute.down 0 = id := rfl

mutual

theorem Block.down_zero (b : Block) : b.down 0 = b := by
  obtain ⟨kind, labels, range, attributes, children⟩ := b
  rw [down, Block.downAll_zero children, Attribute.down_zero, List.map_id]
  rfl

theorem Block.downAll_zero (bs : List Block) : downAll 0 bs = bs := by
  cases bs with
  | nil => rfl
  | cons b bs => rw [downAll, Block.down_zero b, Block.downAll_zero bs]

end

theorem Block.map_down_zero (bs : List Block) : bs.map (down 0) = bs := by
  rw [← downAll_eq, downAll_zero]

theorem Position.after_down : (p.down k).after s = (p.after s).down k := by
  induction s generalizing p with
  | nil => rfl
  | cons c s ih =>
    have hn : (p.down k).next c = (p.next c).down k := by
      by_cases hc : c = '\n'
      · simp [next, down, hc, Nat.add_right_comm]
      · simp [next, down, hc]
    rw [after_cons, after_cons, hn, ih]

end Down

/-! ### Texts further down -/

namespace Lexer

/-- The lexeme `k` lines further down. -/
def Lexeme.down (k : Nat) (l : Lexeme) : Lexeme := ⟨l.item, l.start.down k, l.text⟩

section Texts

variable {k : Nat} {p : Position} {s : List Char}

theorem Lexeme.endLine_down (l : Lexeme) : (l.down k).endLine = l.endLine + k := by
  rw [endLine, down, Position.after_down]
  rfl

theorem Lexeme.token?_down (l : Lexeme) : (l.down k).token? = l.token?.map (PlacedToken.down k) := by
  obtain ⟨item, start, text⟩ := l
  cases item with
  | token t =>
    have he := endLine_down (k := k) ⟨.token t, start, text⟩
    exact congrArg (fun n => some (PlacedToken.mk t (start.down k) n)) he
  | blank => rfl
  | comment => rfl

theorem Lexeme.comment?_down (l : Lexeme) : (l.down k).comment? = l.comment?.map (Comment.down k) := by
  obtain ⟨item, start, text⟩ := l
  cases item with
  | comment =>
    have he := endLine_down (k := k) ⟨.comment, start, text⟩
    exact congrArg (fun n => some (Comment.mk (String.ofList text) (start.line + k) n)) he
  | blank => rfl
  | token t => rfl

theorem lexemes_down {ls : List Lexeme} (h : lexemes p s = .ok ls) :
    lexemes (p.down k) s = .ok (ls.map (Lexeme.down k)) := by
  fun_induction lexemes p s generalizing ls with
  | case1 =>
    cases h
    rw [lexemes]
    rfl
  | case2 => cases h
  | case3 p c r item j hj ih =>
    obtain ⟨more, hm, rfl⟩ := Document.eq_ok_of_map h
    rw [lexemes_cons (lexeme_anywhere hj (p.down k)), Position.after_down, ih hm]
    rfl

/-- A text further down has the same tokens and comments, further down. -/
theorem read_down {ts : List PlacedToken} {cs : List Comment} (h : read p s = .ok (ts, cs)) :
    read (p.down k) s = .ok (ts.map (PlacedToken.down k), cs.map (Comment.down k)) := by
  obtain ⟨ls, hls, he⟩ := Document.eq_ok_of_map h
  cases he
  rw [read, lexemes_down hls]
  simp only [Except.map, List.filterMap_map, List.map_filterMap, Function.comp_def, Lexeme.token?_down,
    Lexeme.comment?_down]

end Texts

end Lexer

/-! ### Tokens further down -/

namespace Document

/-- The same token `k` lines further down, in whatever column, as far as it is known. -/
structure Moved (k : Nat) (t t' : PlacedToken) : Prop where
  known : t'.token.known = t.token.known
  line : t'.start.line = t.start.line + k
  endLine : t'.endLine = t.endLine + k

/-- The open block `k` lines further down. -/
def OpenBlock.down (k : Nat) (o : OpenBlock) : OpenBlock :=
  ⟨o.kind, o.labels, o.range.down k, o.attributes.map (Attribute.down k), o.children.map (Block.down k)⟩

/-- The progress `k` lines further down, behind blocks and warnings that were there before. -/
def Progress.moved (k : Nat) (done : List Block) (warnings : List Warning) (σ : Progress) : Progress where
  unclosed := σ.unclosed.map (OpenBlock.down k)
  done := done ++ σ.done.map (Block.down k)
  warnings := warnings ++ σ.warnings.map (Warning.down k)

section Lists

variable {k : Nat} {us vs rest ts' : List PlacedToken} {t : PlacedToken}

theorem moved_down (ts : List PlacedToken) : List.Forall₂ (Moved k) ts (ts.map (PlacedToken.down k)) :=
  List.forall₂_map_right_iff.2 (List.forall₂_same.2 fun _ _ => ⟨rfl, rfl, rfl⟩)

theorem moved_append_inv (h : List.Forall₂ (Moved k) (us ++ vs) ts') :
    ∃ us' vs', ts' = us' ++ vs' ∧ List.Forall₂ (Moved k) us us' ∧ List.Forall₂ (Moved k) vs vs' := by
  induction us generalizing ts' with
  | nil => exact ⟨[], ts', rfl, .nil, h⟩
  | cons t us ih =>
    cases h with
    | cons ht h =>
      obtain ⟨us', vs', rfl, hu, hv⟩ := ih h
      exact ⟨_ :: us', vs', rfl, .cons ht hu, hv⟩

theorem Moved.token_eq {t' : PlacedToken} {tok : Token} (h : Moved k t t') (ht : t.token = tok)
    (htok : tok.isTemplate = false) : t'.token = tok := by
  subst ht
  exact Token.eq_of_known h.known htok

theorem map_known_moved (h : List.Forall₂ (Moved k) us ts') :
    (ts'.map PlacedToken.token).map Token.known = (us.map PlacedToken.token).map Token.known := by
  induction h with
  | nil => rfl
  | cons ht _ ih => rw [List.map_cons, List.map_cons, List.map_cons, List.map_cons, ih, ht.known]

theorem lastLine_moved (h : List.Forall₂ (Moved k) us ts') (hne : us ≠ []) : lastLine ts' = lastLine us + k := by
  have key (n : Nat) {us ts' : List PlacedToken} (h : List.Forall₂ (Moved k) us ts') :
      ts'.foldl (fun n t => max n t.endLine) (n + k) = us.foldl (fun n t => max n t.endLine) n + k := by
    induction h generalizing n with
    | nil => rfl
    | @cons t t' _ _ ht _ ih =>
      have hm : max (n + k) t'.endLine = max n t.endLine + k := by
        rw [ht.endLine]
        omega
      rw [List.foldl_cons, List.foldl_cons, hm, ih]
  cases h with
  | nil => exact absurd rfl hne
  | @cons t t' _ _ ht h =>
    have hm : max 0 t'.endLine = max 0 t.endLine + k := by
      rw [ht.endLine]
      omega
    rw [lastLine, lastLine, List.foldl_cons, List.foldl_cons, hm, key _ h]

theorem endsExpression_moved (h : EndsExpression us) (hm : List.Forall₂ (Moved k) us ts')
    (hr : EndsExpression rest) : EndsExpression (ts' ++ rest) := by
  cases hm with
  | nil => exact hr
  | cons ht _ => exact h.imp (fun h => ht.token_eq h rfl) fun h => ht.token_eq h rfl

theorem Labels.moved {names : List String} (h : Labels us names vs) (hm : List.Forall₂ (Moved k) us ts')
    (rest : List PlacedToken) :
    ∃ vs', List.Forall₂ (Moved k) vs vs' ∧ Labels (ts' ++ rest) names (vs' ++ rest) := by
  induction h generalizing ts' with
  | nil => exact ⟨ts', hm, .nil⟩
  | identifier ht _ ih =>
    cases hm with
    | cons hmt hm =>
      obtain ⟨vs', hv, hl⟩ := ih hm
      exact ⟨vs', hv, .identifier (hmt.token_eq ht rfl) hl⟩
  | string ht _ ih =>
    cases hm with
    | cons hmt hm =>
      obtain ⟨vs', hv, hl⟩ := ih hm
      exact ⟨vs', hv, .string (hmt.token_eq ht rfl) hl⟩

end Lists

/-! ### Steps further down -/

section Steps

variable {filename : String} {finish : Position} {k : Nat} {σ σ' : Progress} {done : List Block}
  {warnings : List Warning} {t t' : PlacedToken} {ts ts' rest more : List PlacedToken}

theorem Covers.down {first last : Nat} {r : SourceRange} (h : Covers filename first last r) (k : Nat) :
    Covers filename (first + k) (last + k) (r.down k) :=
  ⟨h.1, congrArg (· + k) h.2.1, congrArg (· + k) h.2.2⟩

theorem addBlock_moved (σ : Progress) (b : Block) :
    (σ.moved k done warnings).addBlock (b.down k) = (σ.addBlock b).moved k done warnings := by
  obtain ⟨u, d, w⟩ := σ
  cases u <;> simp [Progress.addBlock, Progress.moved, OpenBlock.down]

theorem addAttribute_moved {a : Attribute} {p : Position} (h : σ.addAttribute p a = .ok σ') (q : Position) :
    (σ.moved k done warnings).addAttribute q (a.down k) = .ok (σ'.moved k done warnings) := by
  obtain ⟨rfl, hnew⟩ := addAttribute_inv h
  obtain ⟨u, d, w⟩ := σ
  cases u with
  | nil =>
    simp [Progress.addAttribute, Progress.moved, Progress.extend, ignored, Warning.down, Attribute.down,
      SourceRange.down]
  | cons o u =>
    have hf : (o.attributes.map (Attribute.down k)).find? (·.name == (a.down k).name) = none := by
      rw [List.find?_eq_none, List.forall_mem_map]
      intro b hb he
      have he' : b.name = a.name := by simpa [Attribute.down] using he
      exact hnew o rfl (he' ▸ List.mem_map_of_mem hb)
    simp [Progress.addAttribute, Progress.moved, Progress.extend, OpenBlock.down, hf]

theorem definition_moved {name : String} {line line' : Nat} {a : Attribute}
    (h : definition filename finish name line ts = .ok (a, rest)) (hm : List.Forall₂ (Moved k) ts ts')
    (hl : line' = line + k) (hmore : EndsExpression more) (finish' : Position) :
    ∃ rest', List.Forall₂ (Moved k) rest rest' ∧
      definition filename finish' name line' (ts' ++ more) = .ok (a.down k, rest' ++ more) := by
  obtain ⟨value, rfl, hv, hn, hs, hr, hc, hname⟩ := definition_eq_ok_iff.1 h
  obtain ⟨value', rest', rfl, hm1, hm2⟩ := moved_append_inv hm
  have hv' : value' ≠ [] := by
    rintro rfl
    exact hv (List.forall₂_nil_right_iff.1 hm1)
  have hknown := map_known_moved hm1
  have hline : ∀ t u : Token, u.known = t.known → t ≠ .newline → u ≠ .newline := by
    rintro t _ hu ht rfl
    exact ht (Token.eq_of_known hu.symm rfl)
  refine ⟨rest', hm2, definition_eq_ok_iff.2 ⟨value', List.append_assoc _ _ _, hv', hn.of_known hline hknown,
    endsExpression_moved hs hm2 hmore, (Expression.resolve_eq_of_known hknown).trans hr, ?_, hname⟩⟩
  rw [hl, lastLine_moved hm1 hv]
  exact hc.down k

theorem close_moved {o : OpenBlock} {b : Block} {line : Nat} (h : o.close line = .ok b) :
    (o.down k).close (line + k) = .ok (b.down k) := by
  obtain ⟨hc, hb⟩ := close_eq_ok_iff.1 h
  refine close_eq_ok_iff.2 ⟨?_, ?_⟩
  · rw [hb]
    exact hc.down k
  · rw [hb]
    simp [Block.down, Block.downAll_eq, OpenBlock.down]

/-- A step of the reader on moved tokens, with more tokens behind them. -/
theorem Step.moved (finish' : Position) (h : Step filename finish σ t ts σ' rest) (ht : Moved k t t')
    (hm : List.Forall₂ (Moved k) ts ts') (hmore : EndsExpression more) :
    ∃ rest', List.Forall₂ (Moved k) rest rest' ∧
      Step filename finish' (σ.moved k done warnings) t' (ts' ++ more) (σ'.moved k done warnings)
        (rest' ++ more) := by
  cases h with
  | newline h => exact ⟨ts', hm, .newline (ht.token_eq h rfl)⟩
  | @close _ o outer b h hσ hb =>
    have hσ' : (σ.moved k done warnings).unclosed = o.down k :: outer.map (OpenBlock.down k) := by
      rw [Progress.moved, hσ, List.map_cons]
    have hb' : (o.down k).close t'.start.line = .ok (b.down k) := by
      rw [ht.line]
      exact close_moved hb
    have hadd : (Progress.moved k done warnings { σ with unclosed := outer }).addBlock (b.down k) =
        Progress.moved k done warnings ({ σ with unclosed := outer }.addBlock b) := addBlock_moved _ b
    exact ⟨ts', hm, hadd ▸ .close (ht.token_eq h rfl) hσ' hb'⟩
  | assignment h he hd ha =>
    cases hm with
    | cons hme hm =>
      obtain ⟨rest', hr, hd'⟩ := definition_moved hd hm ht.line hmore finish'
      exact ⟨rest', hr, .assignment (ht.token_eq h rfl) (hme.token_eq he rfl) hd' (addAttribute_moved ha _)⟩
  | «open» h hl ho hr =>
    obtain ⟨body', hb, hl'⟩ := hl.moved hm more
    cases hb with
    | cons hmo hb =>
      have hr' := range_eq_ok_iff.2 ((range_eq_ok_iff.1 hr).down k)
      rw [← ht.line] at hr'
      exact ⟨_, hb, .open (ht.token_eq h rfl) hl' (hmo.token_eq ho rfl) hr'⟩

/-- The reader runs through the moved tokens of a whole file and adds its blocks and warnings, moved as well. -/
theorem run_moved {bs : List Block} {w : List Warning} (finish' : Position)
    (h : run filename finish σ ts = ⟨w, .ok bs⟩) (hm : List.Forall₂ (Moved k) ts ts') (hmore : EndsExpression more) :
    run filename finish' (σ.moved k done warnings) (ts' ++ more) =
      run filename finish'
        ⟨[], done ++ bs.map (Block.down k), warnings ++ w.map (Warning.down k)⟩ more := by
  fun_induction run filename finish σ ts generalizing ts' with
  | case1 σ =>
    obtain rfl := List.forall₂_nil_left_iff.1 hm
    obtain ⟨u, d, w⟩ := σ
    cases u with
    | nil =>
      cases h
      rfl
    | cons o u => cases h
  | case2 => cases h
  | case3 σ t ts σ' rest hstep ih =>
    cases hm with
    | cons ht hm =>
      obtain ⟨rest', hr, hs⟩ := (step_inv hstep).moved finish' ht hm hmore
      rw [List.cons_append, run_of_step hs, ih h hr]

/-- A whole file, moved, is read behind other blocks and before other tokens. -/
theorem run_whole {bs : List Block} {w : List Warning} (finish' : Position) (done : List Block)
    (warnings : List Warning) (h : run filename finish .start ts = ⟨w, .ok bs⟩) (hm : List.Forall₂ (Moved k) ts ts')
    (hmore : EndsExpression more) :
    run filename finish' ⟨[], done, warnings⟩ (ts' ++ more) =
      run filename finish'
        ⟨[], done ++ bs.map (Block.down k), warnings ++ w.map (Warning.down k)⟩ more := by
  have hstart : Progress.moved k done warnings .start = ⟨[], done, warnings⟩ := by
    simp [Progress.moved, Progress.start]
  rw [← hstart]
  exact run_moved finish' h hm hmore

/-- The columns of the tokens, and the text of template sequences, do not matter to a file that is read. -/
theorem run_columns {bs : List Block} {w : List Warning} (finish' : Position)
    (h : run filename finish .start ts = ⟨w, .ok bs⟩) (hm : List.Forall₂ (Moved 0) ts ts') :
    run filename finish' .start ts' = ⟨w, .ok bs⟩ := by
  have hnil : EndsExpression [] := trivial
  have hr := run_whole finish' [] [] h hm hnil
  rw [List.append_nil, Block.map_down_zero, Warning.map_down_zero] at hr
  rw [Progress.start, hr, run]
  rfl

theorem moved_zero (ts : List PlacedToken) : List.Forall₂ (Moved 0) ts ts :=
  List.forall₂_same.2 fun _ _ => ⟨rfl, rfl, rfl⟩

end Steps

end Document

end Hcl

end InfraAudit
