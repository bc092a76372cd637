import InfraAudit.Proofs.Hcl.Insertion
import InfraAudit.Proofs.Ignore.Suppression
import InfraAudit.Scan

/-!
# InfraAudit.Proofs.Ignore.Insertion — a directive put at the end of a line

* `isCode`: a code as it is written in a directive.  `directive?_comment`: what a comment with one code suppresses.
* `meets`: which findings a directive with one code suppresses.
* `scan_insert`: a directive put at the end of a line leaves the blocks as they are and takes the findings that it
  meets out of every scan, and no others.
-/

namespace InfraAudit

open InfraAudit.Hcl InfraAudit.Text

/-! ### A directive with one code -/

namespace Ignore

/-- ASCII letters, digits, underscores and hyphens. -/
def isPlainChar (c : Char) : Bool :=
  isLatinLetter c || isDigit c || c == '_' || c == '-'

/-- A code as it is written in a directive: a star, or characters that stand for nothing but themselves. -/
def isCode (code : String) : Bool :=
  code == "*" || (code != "" && code.toList.all isPlainChar)

/-- What a directive with one code suppresses. -/
def scopeOf (code : String) : Scope :=
  if code = "*" then .everything else .only [upper code]

/-- Whether a directive with one code on a line of a file suppresses a finding there: the codes are the same but for
their case, or the code is a star, and the line is one of the range or the one before it. -/
def meets (code : String) (line : Nat) (f : Finding) : Bool :=
  (code == "*" || upper f.code == upper code) && f.range.startLine - 1 ≤ (line : Int) &&
    (line : Int) ≤ f.range.endLine

section Directives

variable {code : String} {s : List Char}

theorem dropSame?_append {ps : List Char} (h : ps.all (fun c => sameLetter c c) = true) (s : List Char) :
    dropSame? ps (ps ++ s) = some s := by
  induction ps with
  | nil => rfl
  | cons c ps ih =>
    rw [List.all_cons, Bool.and_eq_true] at h
    rw [List.cons_append, dropSame?, if_pos h.1, ih h.2]

/-- The characters of codes go on in a list, and are no blanks, stars or newlines. -/
theorem isCodeChar_of_plain {c : Char} (h : isPlainChar c = true) :
    isCodeChar c = true ∧ isBlank c = false ∧ c ≠ '*' ∧ c ≠ '\n' := by
  have key : ∀ n < 128, isPlainChar (Char.ofNat n) = true → isCodeChar (Char.ofNat n) = true ∧
      isBlank (Char.ofNat n) = false ∧ Char.ofNat n ≠ '*' ∧ Char.ofNat n ≠ '\n' := by
    decide +kernel
  have hlt : c.toNat < 128 := by
    simp only [isPlainChar, Bool.or_eq_true, beq_iff_eq] at h
    rcases h with ((h | h) | rfl) | rfl
    · simp only [isLatinLetter, Bool.or_eq_true, Bool.and_eq_true, decide_eq_true_eq, Char.le_def,
        UInt32.le_iff_toNat_le] at h
      rcases h with ⟨-, h⟩ | ⟨-, h⟩
      · exact Nat.lt_of_le_of_lt h (by decide)
      · exact Nat.lt_of_le_of_lt h (by decide)
    · have hd := (Lexer.toNat_of_isDigit h).2
      omega
    · decide
    · decide
  have hc := key c.toNat hlt
  rw [Char.ofNat_toNat] at hc
  exact hc h

/-- A code is a star or starts with a plain character. -/
theorem isCode_cases (h : isCode code = true) :
    code = "*" ∨ ∃ c cs, code.toList = c :: cs ∧ ∀ d ∈ c :: cs, isPlainChar d = true := by
  rw [isCode, Bool.or_eq_true, beq_iff_eq, Bool.and_eq_true, bne_iff_ne, List.all_eq_true] at h
  refine h.imp_right fun ⟨hne, hall⟩ => ?_
  obtain ⟨c, cs, hcs⟩ := List.exists_cons_of_ne_nil fun he => hne (String.toList_eq_nil_iff.1 he)
  exact ⟨c, cs, hcs, hcs ▸ hall⟩

theorem newline_not_mem_of_isCode (h : isCode code = true) : '\n' ∉ code.toList := by
  rcases isCode_cases h with rfl | ⟨c, cs, hcs, hall⟩
  · decide
  · rw [hcs]
    exact fun hmem => (isCodeChar_of_plain (hall '\n' hmem)).2.2.2 rfl

theorem scope?_code (h : isCode code = true) : scope? (':' :: code.toList) = some (scopeOf code) := by
  rcases isCode_cases h with rfl | ⟨c, cs, hcs, hplain⟩
  · decide +kernel
  have hall : ∀ d ∈ c :: cs, isCodeChar d = true := fun d hd => (isCodeChar_of_plain (hplain d hd)).1
  obtain ⟨-, hblank, hstar, -⟩ := isCodeChar_of_plain (hplain c List.mem_cons_self)
  have hcode : code ≠ "*" := by
    rintro rfl
    exact hstar (List.cons.inj hcs).1.symm
  have hlist : codeList? (c :: cs) = some [c :: cs] := by
    have htake : (c :: cs).takeWhile isCodeChar = c :: cs := List.takeWhile_eq_self_iff.2 hall
    have hdrop : (c :: cs).dropWhile isCodeChar = [] := List.dropWhile_eq_nil_iff.2 hall
    simp [codeList?, htake, hdrop, moreCodes]
  have hskip : (c :: cs).dropWhile isBlank = c :: cs := by simp [hblank]
  rw [hcs, scope?, hskip]
  split
  · next h => exact absurd (List.cons.inj h).1 hstar
  · rw [hlist, ← hcs, scopeOf, if_neg hcode]
    simp [List.eraseDups_cons]

/-- What a comment with one code suppresses. -/
theorem directive?_comment (h : isCode code = true) :
    directive? ("# tfsentinel:ignore:" ++ code) = some (scopeOf code) := by
  have htext : ("# tfsentinel:ignore:" ++ code).toList = '#' :: ' ' :: (keyword ++ ':' :: code.toList) := by
    rw [String.toList_append]
    rfl
  have hkey : dropSame? keyword (keyword ++ ':' :: code.toList) = some (':' :: code.toList) :=
    dropSame?_append (by decide +kernel) _
  have hfind : afterKeyword? false (keyword ++ ':' :: code.toList) = some (':' :: code.toList) := by
    have hcons : keyword ++ ':' :: code.toList = 't' :: (keyword.tail ++ ':' :: code.toList) := rfl
    have hends : endsWord (':' :: code.toList) = true := by
      have hp : isIdentPart ':' = false := by decide +kernel
      rw [endsWord, hp]
      rfl
    rw [hcons, afterKeyword?, ← hcons, if_neg Bool.false_ne_true, hkey, Option.filter_some, if_pos hends]
  have hhash : isWordChar '#' = false := by decide +kernel
  have hspace : isWordChar ' ' = false := by decide +kernel
  rw [directive?, htext, afterKeyword?_skip (by decide), hhash, afterKeyword?_skip (by decide), hspace, hfind,
    Option.bind_some, scope?_code h]

theorem holds_scopeOf (code c : String) : (scopeOf code).holds c = (code == "*" || c == upper code) := by
  by_cases h : code = "*"
  · simp [scopeOf, h, Scope.holds]
  · have hb : (code == "*") = false := beq_eq_false_iff_ne.2 h
    simp [scopeOf, h, hb, Scope.holds, Bool.beq_eq_decide_eq]

/-- What a comment with one code suppresses in its file. -/
theorem covers_comment (h : isCode code = true) (filename : String) (line : Nat) (f : Finding) :
    covers filename f ⟨"# tfsentinel:ignore:" ++ code, line, line⟩ =
      (filename == f.range.filename && meets code line f) := by
  unfold covers
  rw [directive?_comment h, Option.any_some, Scope.covers, holds_scopeOf, meets]
  simp only [Bool.and_assoc, Bool.and_comm, Bool.and_left_comm]

end Directives

/-- A comment among others adds what it suppresses, wherever it stands. -/
theorem Index.suppresses_insert (ix : Index) (filename : String) (cs cs' : List Comment) (c : Comment) (f : Finding) :
    (ix.addComments filename (cs ++ c :: cs')).suppresses f =
      ((ix.addComments filename (cs ++ cs')).suppresses f || covers filename f c) := by
  rw [suppresses_addComments, suppresses_addComments, List.any_append, List.any_append, List.any_cons]
  simp only [Bool.or_assoc, Bool.or_comm, Bool.or_left_comm]

end Ignore

/-! ### Scans -/

/-- What suppresses more takes so much more out of a scan. -/
theorem scan_filter {ix jx : Ignore.Index} {g : Finding → Bool} (h : ∀ f, jx.suppresses f = (ix.suppresses f || g f))
    (r : Registry) (forest : List Block) :
    scan r (some jx) forest = (scan r (some ix) forest).filter fun f => !g f := by
  simp only [scan, List.filter_filter, h, Bool.not_or, Bool.and_comm]

namespace Project

section Directives

variable {p q : Project} {filename pre post code : String} {x : Lexed} {w : List Warning}

/-- A directive with one code is put at the end of a line of a file that is read, where neither a heredoc nor a line
comment ends.  The file is read with the same blocks and warnings, and every scan finds the same in the same order
but for the findings in the file that the directive meets. -/
theorem scan_insert (hq : p.addSource filename (pre ++ "\n" ++ post) = ⟨w, .ok q⟩)
    (hx : lex (pre ++ "\n" ++ post) = .ok x) (he : EndsLine x (Position.start.after pre.toList))
    (hc : Ignore.isCode code = true) :
    ∃ q', p.addSource filename (pre ++ " # tfsentinel:ignore:" ++ code ++ "\n" ++ post) = ⟨w, .ok q'⟩ ∧
      q'.files = q.files ∧ q'.blocks = q.blocks ∧
      ∀ r : Registry,
        scan r (some q'.ignores) q'.blocks = ((scan r (some q.ignores) q.blocks).filter fun f =>
          !(filename == f.range.filename && Ignore.meets code (1 + pre.toList.count '\n') f)) ∧
        ((∀ f ∈ scan r (some q.ignores) q.blocks, f.range.filename = filename) →
          scan r (some q'.ignores) q'.blocks = (scan r (some q.ignores) q.blocks).filter fun f =>
            !Ignore.meets code (1 + pre.toList.count '\n') f) := by
  obtain ⟨d, hd, rfl⟩ := addSource_eq_ok_iff.1 hq
  have ht : '\n' ∉ (" tfsentinel:ignore:" ++ code).toList := by
    rw [String.toList_append, List.mem_append, not_or]
    exact ⟨by decide, Ignore.newline_not_mem_of_isCode hc⟩
  have hcomment : "#" ++ (" tfsentinel:ignore:" ++ code) = "# tfsentinel:ignore:" ++ code := by
    rw [← String.append_assoc]
    rfl
  have hmark : " #" ++ (" tfsentinel:ignore:" ++ code) = " # tfsentinel:ignore:" ++ code := by
    rw [← String.append_assoc]
    rfl
  have hline : (Position.start.after pre.toList).line = 1 + pre.toList.count '\n' := Position.after_line _ _
  obtain ⟨cs, cs', hcs, hp⟩ := Document.parse_insert hd hx he ht
  rw [hmark, hcomment, hline, ← String.append_assoc] at hp
  refine ⟨_, addSource_eq_ok_iff.2 ⟨_, hp, rfl⟩, rfl, rfl, fun r => ?_⟩
  have hs (f : Finding) := Ignore.Index.suppresses_insert p.ignores filename cs cs'
    ⟨"# tfsentinel:ignore:" ++ code, 1 + pre.toList.count '\n', 1 + pre.toList.count '\n'⟩ f
  simp only [← hcs, Ignore.covers_comment hc] at hs
  refine ⟨scan_filter hs r _, fun hr => ?_⟩
  refine (scan_filter hs r _).trans (List.filter_congr fun f hf => ?_)
  rw [hr f hf, beq_self_eq_true, Bool.true_and]

/-- A second directive on the line of an attribute takes the finding about the attribute away; what the first one
suppresses stays so, and the finding about the block around it stays as well. -/
theorem scan_insert_second :
    ∃ (pre : String) (w : List Warning) (q : Project) (x : Lexed),
      pre = "resource \"aws_s3_bucket\" \"b\" \x7b\n  acl = \"public-read\" /* tfsentinel:ignore:AWS017 */" ∧
      empty.addSource "a.tf" (pre ++ "\n" ++ "\x7d") = ⟨w, .ok q⟩ ∧
      (scan (.ofSelection ⟨[], none⟩) (some q.ignores) q.blocks).map (fun f => (f.code, Ignore.meets "aws001" 2 f)) =
        [("AWS001", true), ("AWS002", false)] ∧
      lex (pre ++ "\n" ++ "\x7d") = .ok x ∧ EndsLine x (Position.start.after pre.toList) ∧
      Ignore.isCode "aws001" = true ∧
      ∃ q', empty.addSource "a.tf" (pre ++ " # tfsentinel:ignore:" ++ "aws001" ++ "\n" ++ "\x7d") = ⟨w, .ok q'⟩ ∧
        q'.blocks = q.blocks ∧
        scan (.ofSelection ⟨[], none⟩) (some q'.ignores) q'.blocks =
          (scan (.ofSelection ⟨[], none⟩) (some q.ignores) q.blocks).filter fun f => !Ignore.meets "aws001" 2 f := by
  obtain ⟨pre, hpre⟩ : ∃ pre : String,
      pre = "resource \"aws_s3_bucket\" \"b\" \x7b\n  acl = \"public-read\" /* tfsentinel:ignore:AWS017 */" := ⟨_, rfl⟩
  let found (q : Project) : List Finding := scan (.ofSelection ⟨[], none⟩) (some q.ignores) q.blocks
  obtain ⟨w, q, hq, hg⟩ := Logged.ok_of_map (o := empty.addSource "a.tf" (pre ++ "\n" ++ "\x7d"))
    (g := fun _ q => ((found q).map fun f => (f.code, Ignore.meets "aws001" 2 f),
      (found q).all (·.range.filename == "a.tf")))
    (b := ([("AWS001", true), ("AWS002", false)], true)) (by rw [hpre]; decide +kernel)
  obtain ⟨hfound, hfile⟩ := Prod.mk.inj hg
  obtain ⟨x, hx⟩ : ∃ x : Lexed, x =
      ⟨[⟨.identifier "resource", ⟨1, 1⟩, 1⟩, ⟨.string "aws_s3_bucket" false, ⟨1, 10⟩, 1⟩,
        ⟨.string "b" false, ⟨1, 26⟩, 1⟩, ⟨.opening .curly, ⟨1, 30⟩, 1⟩, ⟨.newline, ⟨1, 31⟩, 1⟩,
        ⟨.identifier "acl", ⟨2, 3⟩, 2⟩, ⟨.equals, ⟨2, 7⟩, 2⟩, ⟨.string "public-read" false, ⟨2, 9⟩, 2⟩] ++
          ⟨.newline, Position.start.after pre.toList, 2⟩ :: [⟨.closing .curly, ⟨3, 1⟩, 3⟩], [⟨"/* tfsentinel:ignore:AWS017 */", 2, 2⟩], ⟨3, 2⟩⟩ := ⟨_, rfl⟩
  have hlex : lex (pre ++ "\n" ++ "\x7d") = .ok x := by
    rw [hx, hpre]
    decide +kernel
  have he : EndsLine x (Position.start.after pre.toList) := by
    rw [hx]
    refine ⟨⟨_, _, _, rfl, by decide +kernel⟩, fun c hc _ => ?_⟩
    obtain rfl := List.mem_singleton.1 hc
    decide +kernel
  have hcode : Ignore.isCode "aws001" = true := by decide +kernel
  have hline : 1 + pre.toList.count '\n' = 2 := by
    rw [hpre]
    decide +kernel
  obtain ⟨q', hq', -, hblocks, hscan⟩ := scan_insert hq hlex he hcode
  have hfiles : ∀ f ∈ found q, f.range.filename = "a.tf" := fun f hf => eq_of_beq (List.all_eq_true.1 hfile f hf)
  exact ⟨pre, w, q, x, hpre, hq, hfound, hlex, he, hcode, q', hq', hblocks, hline ▸ (hscan _).2 hfiles⟩

end Directives

end Project

end InfraAudit
