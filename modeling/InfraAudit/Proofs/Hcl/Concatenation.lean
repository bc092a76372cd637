import InfraAudit.Proofs.Hcl.Displacement
import InfraAudit.Proofs.Ignore.Suppression

/-!
# InfraAudit.Proofs.Hcl.Concatenation — two texts in one file

* `lex_concat`: the tokens of two texts with a newline between them are those of the first, the newline and those of
  the second, as many lines further down as the first one has.
* `parse_concat`: so are the blocks, the comments and the warnings.
* `addComments_down`: comments further down, on lines that have no directives yet, join their index to the old one.
* `addSource_concat`: a file of two texts is read as the one after the other.
-/

namespace InfraAudit

open InfraAudit.Hcl

/-! ### Keys that are moved -/

namespace Keyed

section Keys

variable {α β : Type} [BEq α] [LawfulBEq α] {key : α} {value : β}

theorem put_append {l m : List (α × β)} (h : key ∉ l.map Prod.fst) : put key value (l ++ m) = l ++ put key value m := by
  induction l with
  | nil => rfl
  | cons p l ih =>
    obtain ⟨k, v⟩ := p
    rw [List.map_cons, List.mem_cons, not_or] at h
    have hk : (k == key) = false := beq_eq_false_iff_ne.2 (Ne.symm h.1)
    simp [put, hk, ih h.2]

theorem lookup_append {l m : List (α × β)} (h : key ∉ l.map Prod.fst) : (l ++ m).lookup key = m.lookup key := by
  induction l with
  | nil => rfl
  | cons p l ih =>
    obtain ⟨k, v⟩ := p
    rw [List.map_cons, List.mem_cons, not_or] at h
    have hk : (key == k) = false := beq_eq_false_iff_ne.2 h.1
    rw [List.cons_append, List.lookup_cons, hk, ih h.2]

variable {g : α → α}

theorem map_put (hg : Function.Injective g) (m : List (α × β)) :
    (put key value m).map (Prod.map g id) = put (g key) value (m.map (Prod.map g id)) := by
  induction m with
  | nil => rfl
  | cons p m ih =>
    obtain ⟨k, v⟩ := p
    by_cases hk : k = key
    · simp [put, hk]
    · have hb : (k == key) = false := beq_eq_false_iff_ne.2 hk
      have hb' : (g k == g key) = false := beq_eq_false_iff_ne.2 (hg.ne hk)
      simp [put, hb, hb', ih]

theorem lookup_map (hg : Function.Injective g) (m : List (α × β)) :
    (m.map (Prod.map g id)).lookup (g key) = m.lookup key := by
  induction m with
  | nil => rfl
  | cons p m ih =>
    obtain ⟨k, v⟩ := p
    rw [List.map_cons, Prod.map_apply, List.lookup_cons, List.lookup_cons, ih]
    by_cases hk : key = k
    · simp [hk]
    · have hb : (key == k) = false := beq_eq_false_iff_ne.2 hk
      have hb' : (g key == g k) = false := beq_eq_false_iff_ne.2 (hg.ne hk)
      rw [hb, hb']

theorem mem_keys_put {k : α} {m : List (α × β)} (h : k ∈ (put key value m).map Prod.fst) :
    k = key ∨ k ∈ m.map Prod.fst := by
  obtain ⟨e, he, rfl⟩ := List.mem_map.1 h
  rcases mem_of_mem_put he with he | rfl
  · exact .inr (List.mem_map_of_mem he)
  · exact .inl rfl

end Keys

end Keyed

/-! ### Directives further down -/

namespace Ignore.Index

/-- The line of a file `k` lines further down. -/
def lineDown (k : Nat) (key : String × Int) : String × Int := (key.1, key.2 + k)

/-- The index of directives that stand `k` lines further down. -/
def down (k : Nat) (ix : Index) : Index := ⟨ix.entries.map (Prod.map (lineDown k) id)⟩

/-- Two indexes joined that have no line of a file in common. -/
def append (ix jx : Index) : Index := ⟨ix.entries ++ jx.entries⟩

section Lines

variable {k : Nat} {filename : String} {ix jx : Index} {comments : List Comment}

theorem lineDown_injective : Function.Injective (lineDown k) := by
  rintro ⟨f, l⟩ ⟨f', l'⟩ h
  simp only [lineDown, Prod.mk.injEq] at h
  obtain ⟨rfl, hl⟩ := h
  obtain rfl : l = l' := by omega
  rfl

theorem append_empty_down : ix.append (empty.down k) = ix := by
  simp [append, down, empty]

theorem add_append_down {line : Int} {scope : Scope} (h : (filename, line + k) ∉ ix.entries.map Prod.fst) :
    (ix.append (jx.down k)).add filename (line + k) scope = ix.append ((jx.add filename line scope).down k) := by
  have hk : (filename, line + (k : Int)) = lineDown k (filename, line) := rfl
  rw [hk] at h
  simp only [add, append, down, hk, Keyed.lookup_append h, Keyed.lookup_map lineDown_injective,
    Keyed.put_append h, Keyed.map_put lineDown_injective]

theorem addComment_down {c : Comment} (h : (filename, (c.endLine : Int) + k) ∉ ix.entries.map Prod.fst) :
    (ix.append (jx.down k)).addComment filename (c.down k) = ix.append ((jx.addComment filename c).down k) := by
  have ht : (c.down k).text = c.text := rfl
  have he : ((c.down k).endLine : Int) = c.endLine + k := Int.natCast_add c.endLine k
  unfold addComment
  rw [ht, he]
  cases Ignore.directive? c.text with
  | none => rfl
  | some scope => exact add_append_down h

/-- Comments further down, on lines that have no directives yet, join their index to the one that was there. -/
theorem addComments_down (jx : Index)
    (h : ∀ c ∈ comments, (filename, (c.endLine : Int) + k) ∉ ix.entries.map Prod.fst) :
    (ix.append (jx.down k)).addComments filename (comments.map (Comment.down k)) =
      ix.append ((jx.addComments filename comments).down k) := by
  induction comments generalizing jx with
  | nil => rfl
  | cons c cs ih =>
    obtain ⟨hc, hcs⟩ := List.forall_mem_cons.1 h
    rw [List.map_cons, addComments_cons, addComments_cons, addComment_down hc, ih _ hcs]

theorem mem_keys_addComment {key : String × Int} {c : Comment}
    (h : key ∈ (ix.addComment filename c).entries.map Prod.fst) :
    key ∈ ix.entries.map Prod.fst ∨ key = (filename, (c.endLine : Int)) := by
  unfold addComment at h
  split at h
  · exact (Keyed.mem_keys_put h).symm
  · exact .inl h

/-- The lines that have directives are those of comments. -/
theorem mem_keys_addComments {key : String × Int} (h : key ∈ (ix.addComments filename comments).entries.map Prod.fst) :
    key ∈ ix.entries.map Prod.fst ∨ ∃ c ∈ comments, key = (filename, (c.endLine : Int)) := by
  induction comments generalizing ix with
  | nil => exact .inl h
  | cons c cs ih =>
    rw [addComments_cons] at h
    rcases ih h with h | ⟨d, hd, rfl⟩
    · exact (mem_keys_addComment h).imp_right fun he => ⟨c, List.mem_cons_self, he⟩
    · exact .inr ⟨d, List.mem_cons_of_mem _ hd, rfl⟩

end Lines

end Ignore.Index

/-! ### Texts in a row -/

namespace Hcl

section Concatenation

variable {s t filename : String} {x y : Lexed} {d e : Document} {w v : List Warning}

theorem toList_concat (s t : String) : (s ++ "\n" ++ t).toList = s.toList ++ '\n' :: t.toList := by
  simp

/-- The tokens of two texts with a newline between them. -/
theorem lex_concat (hx : lex s = .ok x) (hy : lex t = .ok y) :
    lex (s ++ "\n" ++ t) = .ok
      ⟨x.tokens ++ ⟨.newline, x.finish, x.finish.line⟩ :: y.tokens.map (PlacedToken.down x.finish.line),
        x.comments ++ y.comments.map (Comment.down x.finish.line), y.finish.down x.finish.line⟩ := by
  obtain ⟨ls, hls, rfl⟩ := Document.eq_ok_of_map hx
  rw [Lexer.lex_eq_read] at hy
  obtain ⟨⟨ts, cs⟩, hts, rfl⟩ := Document.eq_ok_of_map hy
  -- behind the newline the text starts in the first column
  have hnext : (Position.start.after s.toList).next '\n' =
      Position.start.down (Position.start.after s.toList).line := by
    simp [Position.next, Position.down, Position.start, Nat.add_comm]
  -- no lexeme of the first text goes over the newline
  have hls' : Lexer.lexemes .start (s.toList ++ []) = .ok (ls ++ []) := by
    rwa [List.append_nil, List.append_nil]
  have hend : LineEnd ('\n' :: t.toList) := lineEnd_newline
  have hread := Lexer.read_before hls' (Lexer.lexemes_text hls) halts_nil hend.halts fun _ _ _ => hend
  rw [Lexer.read_newline, hnext, Lexer.read_down hts] at hread
  rw [Lexer.lex_eq_read, toList_concat, hread, Position.after_append, Position.after_cons, hnext, Position.after_down]
  rfl

namespace Document

/-- Two texts that are read are read with a newline between them, one after the other. -/
theorem parse_concat (hd : parse filename s = ⟨w, .ok d⟩) (he : parse filename t = ⟨v, .ok e⟩) :
    parse filename (s ++ "\n" ++ t) =
      ⟨w ++ v.map (Warning.down (1 + s.toList.count '\n')),
        .ok ⟨d.blocks ++ e.blocks.map (Block.down (1 + s.toList.count '\n')),
          d.comments ++ e.comments.map (Comment.down (1 + s.toList.count '\n'))⟩⟩ := by
  obtain ⟨x, hx, hdc, hdr⟩ := parse_ok_inv hd
  obtain ⟨y, hy, hec, her⟩ := parse_ok_inv he
  have hk : x.finish.line = 1 + s.toList.count '\n' := by
    rw [finish_of_lex hx, Position.after_line, Position.start]
  rw [hdc, hec, ← hk]
  refine parse_of_run (lex_concat hx hy) ?_
  have hnewline : EndsExpression
      (⟨.newline, x.finish, x.finish.line⟩ :: y.tokens.map (PlacedToken.down x.finish.line)) := .inl rfl
  have h1 := run_whole (y.finish.down x.finish.line) [] [] hdr (moved_zero x.tokens) hnewline
  have hdown : List.Forall₂ (Moved x.finish.line) y.tokens (y.tokens.map (PlacedToken.down x.finish.line)) :=
    moved_down y.tokens
  have hend : EndsExpression [] := trivial
  have h2 := run_whole (y.finish.down x.finish.line) d.blocks w her hdown hend
  -- the newline between the texts is read outside of blocks
  rw [Block.map_down_zero, Warning.map_down_zero, run_of_step (.newline rfl)] at h1
  rw [List.append_nil] at h2
  rw [Progress.start, h1, List.nil_append, List.nil_append, h2, run]
  rfl

end Document

end Concatenation

end Hcl

namespace Project

section Files

variable {filename s t : String} {w v : List Warning} {p q : Project}

/-- If two texts are read as files of one name, so are the two with a newline between them: the blocks, the
directives and the warnings are those of the first text and then those of the second, as many lines further down as
the first one has. -/
theorem addSource_concat (hp : empty.addSource filename s = ⟨w, .ok p⟩)
    (hq : empty.addSource filename t = ⟨v, .ok q⟩) :
    empty.addSource filename (s ++ "\n" ++ t) =
      ⟨w ++ v.map (Warning.down (1 + s.toList.count '\n')),
        .ok ⟨[filename], p.blocks ++ q.blocks.map (Block.down (1 + s.toList.count '\n')),
          p.ignores.append (q.ignores.down (1 + s.toList.count '\n'))⟩⟩ := by
  obtain ⟨d, hd, rfl⟩ := addSource_eq_ok_iff.1 hp
  obtain ⟨e, he, rfl⟩ := addSource_eq_ok_iff.1 hq
  obtain ⟨x, hx, hdc, -⟩ := Document.parse_ok_inv hd
  obtain ⟨y, hy, hec, -⟩ := Document.parse_ok_inv he
  have hk : x.finish.line = 1 + s.toList.count '\n' := by
    rw [finish_of_lex hx, Position.after_line, Position.start]
  -- the comments of the second text stand below those of the first
  have hfresh : ∀ c ∈ e.comments, (filename, (c.endLine : Int) + (1 + s.toList.count '\n' : Nat)) ∉
      (Ignore.Index.empty.addComments filename d.comments).entries.map Prod.fst := by
    intro c hc hmem
    rcases Ignore.Index.mem_keys_addComments hmem with h | ⟨c', hc', h⟩
    · cases h
    · rw [hec] at hc
      rw [hdc] at hc'
      have h1 : 1 ≤ c.endLine := ((bounds_of_lex hy).2 c hc).1
      have h2 : c'.endLine ≤ x.finish.line := ((bounds_of_lex hx).2 c' hc').2
      have h3 : (c.endLine : Int) + (1 + s.toList.count '\n' : Nat) = c'.endLine := (Prod.mk.inj h).2
      omega
  have hcomments := Ignore.Index.addComments_down .empty hfresh
  rw [Ignore.Index.append_empty_down, ← Ignore.Index.addComments_append] at hcomments
  rw [addSource, Document.parse_concat hd he]
  simp only [Except.map, add, empty, List.nil_append, hcomments]

/-- A first text with an attribute outside of blocks whose heredoc ends with the text, and a second one that ends in a
comment. -/
theorem addSource_concat_heredoc :
    ∃ w p v q,
      empty.addSource "a.tf" "# tfsentinel:ignore:AWS001\nb \x7b x = 1 \x7d\nt = <<E\nq\nE" = ⟨w, .ok p⟩ ∧
      (w.length, p.blocks.length, p.ignores.size) = (1, 1, 1) ∧
      empty.addSource "a.tf" "c \x7b\x7d // tfsentinel:ignore" = ⟨v, .ok q⟩ ∧
      (v.length, q.blocks.length, q.ignores.size) = (0, 1, 1) ∧
      empty.addSource "a.tf"
          ("# tfsentinel:ignore:AWS001\nb \x7b x = 1 \x7d\nt = <<E\nq\nE" ++ "\n" ++
            "c \x7b\x7d // tfsentinel:ignore") =
        ⟨w ++ v.map (Warning.down 5),
          .ok ⟨["a.tf"], p.blocks ++ q.blocks.map (Block.down 5), p.ignores.append (q.ignores.down 5)⟩⟩ := by
  let sizes (w : List Warning) (p : Project) : Nat × Nat × Nat := (w.length, p.blocks.length, p.ignores.size)
  obtain ⟨w, p, hp, hp'⟩ := Logged.ok_of_map (o := empty.addSource "a.tf"
    "# tfsentinel:ignore:AWS001\nb \x7b x = 1 \x7d\nt = <<E\nq\nE") (g := sizes) (b := (1, 1, 1)) (by decide +kernel)
  obtain ⟨v, q, hq, hq'⟩ := Logged.ok_of_map (o := empty.addSource "a.tf" "c \x7b\x7d // tfsentinel:ignore")
    (g := sizes) (b := (0, 1, 1)) (by decide +kernel)
  exact ⟨w, p, v, q, hp, hp', hq, hq', addSource_concat hp hq⟩

end Files

end Project

end InfraAudit
