import InfraAudit.Proofs.Hcl.LineEnding
import InfraAudit.Proofs.Ignore.Suppression

/-!
# InfraAudit.Proofs.Ignore.LineEnding — directives with carriage returns

* `directive?_returned`: a comment suppresses the same with carriage returns before its newlines.
* `addSource_crlf`: a file is read with the same result if every line ends with a carriage return and a newline.
-/

namespace InfraAudit

open InfraAudit.Hcl InfraAudit.Text

namespace Ignore

section Directives

variable {s s' ps : List Char}

/-- A pattern without line ends is found in both texts. -/
theorem dropSame?_returned (hn : ps.any (sameLetter · '\n') = false) (hr : ps.any (sameLetter · '\r') = false)
    (h : Returned s s') : Option.Rel Returned (dropSame? ps s) (dropSame? ps s') := by
  induction ps generalizing s s' with
  | nil => exact .some h
  | cons p ps ih =>
    rw [List.any_cons, Bool.or_eq_false_iff] at hn hr
    cases h with
    | nil => exact .none
    | last =>
      rw [dropSame?, dropSame?, hr.1]
      exact .none
    | cons _ _ h =>
      rw [dropSame?, dropSame?]
      split
      · exact ih hn.2 hr.2 h
      · exact .none
    | newline =>
      rw [dropSame?, dropSame?, hn.1, hr.1]
      exact .none

theorem endsWord_returned (h : Returned s s') : endsWord s' = endsWord s := by
  have hn : isIdentPart '\n' = false := by decide +kernel
  have hr : isIdentPart '\r' = false := by decide +kernel
  cases h with
  | nil => rfl
  | last => rw [endsWord, endsWord, hr]; rfl
  | cons => rfl
  | newline => rw [endsWord, endsWord, hn, hr]

theorem filter_endsWord_returned {x y : Option (List Char)} (h : Option.Rel Returned x y) :
    Option.Rel Returned (x.filter endsWord) (y.filter endsWord) := by
  cases h with
  | none => exact .none
  | some h =>
    rw [Option.filter_some, Option.filter_some, endsWord_returned h]
    split
    · exact .some h
    · exact .none

/-- Behind the keyword both comments go on alike. -/
theorem afterKeyword?_returned (b : Bool) (h : Returned s s') :
    Option.Rel Returned (afterKeyword? b s) (afterKeyword? b s') := by
  have hn : isWordChar '\n' = false := by decide +kernel
  have hr : isWordChar '\r' = false := by decide +kernel
  induction h generalizing b with
  | nil => exact .none
  | last =>
    rw [afterKeyword?_skip (by decide)]
    exact .none
  | @cons c s s' hcr hb h ih =>
    have hhere : Option.Rel Returned (if b then none else (dropSame? keyword (c :: s)).filter endsWord)
        (if b then none else (dropSame? keyword (c :: s')).filter endsWord) := by
      cases b with
      | true => exact .none
      | false =>
        have hdrop : Option.Rel Returned (dropSame? keyword (c :: s)) (dropSame? keyword (c :: s')) :=
          dropSame?_returned (by decide +kernel) (by decide +kernel) (.cons hcr hb h)
        exact filter_endsWord_returned hdrop
    rw [afterKeyword?, afterKeyword?]
    generalize (if b then none else (dropSame? keyword (c :: s)).filter endsWord) = x at hhere
    generalize (if b then none else (dropSame? keyword (c :: s')).filter endsWord) = y at hhere
    cases hhere with
    | none => exact ih (isWordChar c)
    | some h => exact .some h
  | newline _ ih =>
    rw [afterKeyword?_skip (by decide), afterKeyword?_skip (by decide), afterKeyword?_skip (by decide), hn]
    exact ih false

theorem isCodeChar_newline : isCodeChar '\n' = false := by decide +kernel

theorem isCodeChar_return : isCodeChar '\r' = false := by decide +kernel

theorem moreCodes_other (h : (s.dropWhile isBlank).head? ≠ some ',') (n : Nat) : moreCodes n s = [] := by
  cases n with
  | zero => rfl
  | succ n =>
    rw [moreCodes]
    split
    · next hs =>
      rw [hs] at h
      exact absurd rfl h
    · rfl

/-- A list of codes has the same codes; the bounds on their number do not matter. -/
theorem moreCodes_returned {n m : Nat} (hn : s.length ≤ n) (hm : s'.length ≤ m) (h : Returned s s') :
    moreCodes m s' = moreCodes n s := by
  have le_dropBlank {s r : List Char} {n : Nat} (hs : s.dropWhile isBlank = ',' :: r) (hn : s.length ≤ n) :
      r.length + 1 ≤ n := by
    have hlen := (List.dropWhile_sublist isBlank (l := s)).length_le
    rw [hs, List.length_cons] at hlen
    exact Nat.le_trans hlen hn
  induction n generalizing m s s' with
  | zero =>
    obtain rfl := List.length_eq_zero_iff.1 (Nat.le_zero.1 hn)
    cases h <;> exact moreCodes_other (by decide) m
  | succ n ih =>
    have hd := h.dropBlank
    by_cases hc : (s.dropWhile isBlank).head? = some ','
    · obtain ⟨r, hr⟩ := List.head?_eq_some_iff.1 hc
      rw [hr] at hd
      obtain ⟨r', hr', hrest⟩ := hd.cons_inv (by decide)
      have hlen := le_dropBlank hr hn
      have hlen' := le_dropBlank hr' hm
      obtain ⟨m, rfl⟩ : ∃ k, m = k + 1 := ⟨m - 1, by omega⟩
      -- a code is the same, and behind it there is less left than before
      obtain ⟨htaken, hrest⟩ := hrest.dropBlank.span isCodeChar_newline isCodeChar_return
      have hcode : (r'.dropWhile isBlank).takeWhile isCodeChar = (r.dropWhile isBlank).takeWhile isCodeChar := htaken
      have short {r : List Char} {n : Nat} (h : r.length + 1 ≤ n + 1) :
          ((r.dropWhile isBlank).dropWhile isCodeChar).length ≤ n :=
        Nat.le_trans ((List.dropWhile_sublist _).trans (List.dropWhile_sublist _)).length_le (Nat.le_of_succ_le_succ h)
      have hmore := ih (short hlen) (short hlen') hrest
      rw [moreCodes, moreCodes, hr, hr']
      simp only [hcode]
      split
      · rfl
      · exact congrArg _ hmore
    · rw [moreCodes_other hc, moreCodes_other ((hd.head?_eq_iff (by decide)).not.2 hc)]

theorem codeList?_returned (h : Returned s s') : codeList? s' = codeList? s := by
  obtain ⟨htaken, hrest⟩ := h.span isCodeChar_newline isCodeChar_return
  have hcode : s'.takeWhile isCodeChar = s.takeWhile isCodeChar := htaken
  have hmore : moreCodes s'.length (s'.dropWhile isCodeChar) = moreCodes s.length (s.dropWhile isCodeChar) :=
    moreCodes_returned (List.dropWhile_sublist _).length_le (List.dropWhile_sublist _).length_le hrest
  rw [codeList?, codeList?, hcode, hmore]

theorem scope?_returned (h : Returned s s') : scope? s' = scope? s := by
  have hother {s : List Char} (h : s.head? ≠ some ':') : scope? s = some .everything := by
    unfold scope?
    split
    · simp at h
    · rfl
  by_cases hs : s.head? = some ':'
  · obtain ⟨r, rfl⟩ := List.head?_eq_some_iff.1 hs
    obtain ⟨r', rfl, hr⟩ := h.cons_inv (by decide)
    have hd : Returned (r.dropWhile isBlank) (r'.dropWhile isBlank) := hr.dropBlank
    have hlisted {r : List Char} (h : (r.dropWhile isBlank).head? ≠ some '*') :
        scope? (':' :: r) = (codeList? (r.dropWhile isBlank)).map fun codes =>
          .only (codes.map fun c => upper (String.ofList c)).eraseDups := by
      rw [scope?]
      split
      · next ht =>
        rw [ht] at h
        exact absurd rfl h
      · rfl
    by_cases ht : (r.dropWhile isBlank).head? = some '*'
    · obtain ⟨t, ht⟩ := List.head?_eq_some_iff.1 ht
      rw [ht] at hd
      obtain ⟨t', ht', -⟩ := hd.cons_inv (by decide)
      rw [scope?, scope?, ht, ht']
      rfl
    · rw [hlisted ht, hlisted ((hd.head?_eq_iff (by decide)).not.2 ht), codeList?_returned hd]
  · rw [hother hs, hother ((h.head?_eq_iff (by decide)).not.2 hs)]

/-- A comment suppresses the same with carriage returns before its newlines. -/
theorem directive?_returned {c c' : Comment} (h : c.Returned c') : directive? c'.text = directive? c.text := by
  have hafter := afterKeyword?_returned false h.text
  unfold directive?
  generalize afterKeyword? false c.text.toList = x at hafter
  generalize afterKeyword? false c'.text.toList = y at hafter
  cases hafter with
  | none => rfl
  | some h => exact scope?_returned h

end Directives

/-- What the comments of a file suppress is the same with carriage returns in them. -/
theorem Index.addComments_returned {cs cs' : List Comment} (h : List.Forall₂ Comment.Returned cs cs')
    (filename : String) (ix : Index) : ix.addComments filename cs' = ix.addComments filename cs := by
  induction h generalizing ix with
  | nil => rfl
  | cons hc _ ih =>
    rw [addComments_cons, addComments_cons, ih]
    unfold addComment
    rw [directive?_returned hc, hc.endLine]

end Ignore

namespace Project

/-- If a text without carriage returns, in which no backslash stands before a newline, is read as a file, so is the
text with a carriage return before every newline: the files, the blocks, the directives and the warnings are the
same. -/
theorem addSource_crlf {p q : Project} {filename source : String} {w : List Warning}
    (h : p.addSource filename source = ⟨w, .ok q⟩) (hr : '\r' ∉ source.toList)
    (hb : ¬ ['\\', '\n'] <:+: source.toList) :
    p.addSource filename (String.ofList (crlf source.toList)) = ⟨w, .ok q⟩ := by
  obtain ⟨d, hd, rfl⟩ := addSource_eq_ok_iff.1 h
  have hs : Returned source.toList (String.ofList (crlf source.toList)).toList := by
    rw [String.toList_ofList]
    exact returned_crlf hr hb
  obtain ⟨cs, hp, hcs⟩ := Document.parse_returned hd hs
  refine addSource_eq_ok_iff.2 ⟨⟨d.blocks, cs⟩, hp, ?_⟩
  rw [add, add, Ignore.Index.addComments_returned hcs]

/-- A list of codes over two lines of a comment, a template sequence over two lines, and an indented heredoc. -/
theorem addSource_crlf_multiline :
    ∃ (lines : List String) (w : List Warning) (q : Project),
      lines = ["/* tfsentinel:ignore:A1,", "B2 */", "b \x7b # tfsentinel:ignore", "  t = \"$\x7b", "1\x7d\"",
        "  h = <<-E", "    q", "  E", "\x7d"] ∧
      empty.addSource "a.tf" ("\n".intercalate lines) = ⟨w, .ok q⟩ ∧
      q.blocks.flatMap (fun b => b.attributes.map fun a => (a.value.string?, a.range.startLine, a.range.endLine)) =
        [(none, 4, 5), (some "q\n", 6, 8)] ∧
      q.ignores.entries = [(("a.tf", 2), .only ["A1", "B2"]), (("a.tf", 3), .everything)] ∧
      '\r' ∉ ("\n".intercalate lines).toList ∧ ¬ ['\\', '\n'] <:+: ("\n".intercalate lines).toList ∧
      String.ofList (crlf ("\n".intercalate lines).toList) = "\r\n".intercalate lines ∧
      empty.addSource "a.tf" (String.ofList (crlf ("\n".intercalate lines).toList)) = ⟨w, .ok q⟩ := by
  obtain ⟨lines, hl⟩ : ∃ lines : List String, lines = ["/* tfsentinel:ignore:A1,", "B2 */",
    "b \x7b # tfsentinel:ignore", "  t = \"$\x7b", "1\x7d\"", "  h = <<-E", "    q", "  E", "\x7d"] := ⟨_, rfl⟩
  obtain ⟨w, q, hq, hg⟩ := Logged.ok_of_map (o := empty.addSource "a.tf" ("\n".intercalate lines))
    (g := fun _ q =>
      (q.blocks.flatMap (fun b => b.attributes.map fun a => (a.value.string?, a.range.startLine, a.range.endLine)),
        q.ignores.entries))
    (b := ([(none, 4, 5), (some "q\n", 6, 8)],
      [(("a.tf", 2), .only ["A1", "B2"]), (("a.tf", 3), .everything)]))
    (by rw [hl]; decide +kernel)
  obtain ⟨hattributes, hentries⟩ := Prod.mk.inj hg
  have hr : '\r' ∉ ("\n".intercalate lines).toList := by rw [hl]; decide +kernel
  have hb : ¬ ['\\', '\n'] <:+: ("\n".intercalate lines).toList := by rw [hl]; decide +kernel
  have hcrlf : String.ofList (crlf ("\n".intercalate lines).toList) = "\r\n".intercalate lines := by
    rw [hl]
    decide +kernel
  exact ⟨lines, w, q, hl, hq, hattributes, hentries, hr, hb, hcrlf, addSource_crlf hq hr hb⟩

end Project

end InfraAudit
