import InfraAudit.Proofs.Ignore.Insertion
import InfraAudit.Proofs.Ignore.LineEnding
import Mathlib.Data.List.Infix

/-!
# InfraAudit.Proofs.Ignore.CodeList — directives with several codes

* `IsKeyword`: the keyword of a directive, its letters in any case; `HoldsKeyword`: a text with one somewhere.
  `afterKeyword?_append`: the first keyword is found behind a text that holds none, whatever that text ends with.
* `CodeList`: codes as they are written, with white space around the commas.  `codeList?_append`: they are all read, up
  to a text that ends the list (`EndsList`).
* `only_of_codeList`: what a comment with such a directive suppresses.
-/

namespace InfraAudit.Ignore

open InfraAudit.Hcl InfraAudit.Text

/-! ### The keyword -/

/-- The keyword of a directive, each letter in either case or as a character that stands for it when case is
ignored. -/
def IsKeyword (w : List Char) : Prop :=
  List.Forall₂ (fun p c => sameLetter p c = true) keyword w

/-- A keyword stands somewhere in the text. -/
def HoldsKeyword (s : List Char) : Prop :=
  ∃ k, k <:+: s ∧ IsKeyword k

section Keyword

variable {ps qs s v w rest : List Char} {p q c : Char} {afterWord : Bool}

theorem dropSame?_eq_some_iff :
    dropSame? ps s = some rest ↔ ∃ w, List.Forall₂ (fun p c => sameLetter p c = true) ps w ∧ s = w ++ rest := by
  induction ps generalizing s with
  | nil => simp only [dropSame?, List.forall₂_nil_left_iff, exists_eq_left, List.nil_append, Option.some.injEq]
  | cons p ps ih =>
    cases s with
    | nil => simp [dropSame?, List.forall₂_cons_left_iff]
    | cons c s =>
      by_cases hc : sameLetter p c = true
      · simp [dropSame?, hc, ih, List.forall₂_cons_left_iff, and_assoc]
      · simp [dropSame?, hc, List.forall₂_cons_left_iff, and_assoc]

/-- Whether a text holds a keyword is seen by trying all its ends. -/
theorem holdsKeyword_iff : HoldsKeyword s ↔ ∃ t ∈ s.tails, (dropSame? keyword t).isSome = true := by
  simp only [List.mem_tails, Option.isSome_iff_exists, dropSame?_eq_some_iff]
  constructor
  · rintro ⟨k, ⟨u, v, rfl⟩, hk⟩
    exact ⟨k ++ v, by rw [List.append_assoc]; exact List.suffix_append u _, v, k, hk, rfl⟩
  · rintro ⟨_, ht, rest, k, hk, rfl⟩
    exact ⟨k, (List.prefix_append k rest).isInfix.trans ht.isInfix, hk⟩

theorem HoldsKeyword.mono (h : HoldsKeyword s) (hs : s <:+: v) : HoldsKeyword v :=
  h.imp fun _ ⟨hk, hw⟩ => ⟨hk.trans hs, hw⟩

/-- A character stands for one letter of the keyword at most. -/
theorem eq_of_sameLetter (hp : p ∈ keyword) (hq : q ∈ keyword) (h : sameLetter p c = true)
    (h' : sameLetter q c = true) : p = q := by
  have hspecial : (['\u017f', '\u0130', '\u0131'].all fun c => keyword.all fun p => keyword.all fun q =>
      !(sameLetter p c && sameLetter q c) || p == q) = true := by
    decide +kernel
  by_cases hc : c ∈ ['\u017f', '\u0130', '\u0131']
  · have hkeyword := List.all_eq_true.1 (List.all_eq_true.1 (List.all_eq_true.1 hspecial c hc) p hp) q hq
    simpa [h, h'] using hkeyword
  · -- apart from the three, a character stands for its lower-case form
    have hlower {p : Char} (h : sameLetter p c = true) : lowerLatinChar c = p := by
      simp only [List.mem_cons, List.not_mem_nil, or_false, not_or] at hc
      simpa [sameLetter, hc] using h
    rw [← hlower h, ← hlower h']

theorem eq_of_forall₂_sameLetter (hps : ∀ p ∈ ps, p ∈ keyword) (hqs : ∀ q ∈ qs, q ∈ keyword)
    (h : List.Forall₂ (fun p c => sameLetter p c = true) ps w)
    (h' : List.Forall₂ (fun p c => sameLetter p c = true) qs w) : ps = qs := by
  induction h generalizing qs with
  | nil =>
    cases h'
    rfl
  | cons hp _ ih =>
    cases h' with
    | cons hq h' =>
      rw [List.forall_mem_cons] at hps hqs
      rw [eq_of_sameLetter hps.1 hqs.1 hp hq, ih hps.2 hqs.2 h']

/-- No proper beginning of the keyword is an end of it. -/
theorem drop_keyword_ne_take (n : Nat) (h0 : 0 < n) (hn : n < keyword.length) :
    keyword.drop n ≠ keyword.take (keyword.length - n) := by
  have key : ∀ n < 17, 0 < n → keyword.drop n ≠ keyword.take (17 - n) := by decide +kernel
  exact key n hn h0

/-- Before a keyword, no keyword starts in a text that holds none. -/
theorem dropSame?_before (hv : v ≠ []) (hpre : ¬ HoldsKeyword v) (hw : IsKeyword w) :
    dropSame? keyword (v ++ (w ++ s)) = none := by
  by_contra hne
  obtain ⟨rest, hrest⟩ := Option.ne_none_iff_exists'.1 hne
  obtain ⟨k, hk, he⟩ := dropSame?_eq_some_iff.1 hrest
  rcases List.append_eq_append_iff.1 he with ⟨u, rfl, hu⟩ | ⟨u, rfl, -⟩
  · -- the keyword that starts in `v` ends in `w`: what it has in `w` is an end and a beginning of the keyword
    have hlk : v.length + u.length = keyword.length := by rw [← List.length_append, ← hk.length_eq]
    have hlw : keyword.length = w.length := hw.length_eq
    have hv0 : 0 < v.length := List.length_pos_iff.2 hv
    have hend : List.Forall₂ (fun p c => sameLetter p c = true) (keyword.drop v.length) u := by
      have := List.forall₂_drop v.length hk
      rwa [List.drop_left] at this
    have hbegin : List.Forall₂ (fun p c => sameLetter p c = true) (keyword.take u.length) u := by
      have htake : w.take u.length = u := by
        have := congrArg (List.take u.length) hu
        rwa [List.take_append_of_le_length (by omega), List.take_left] at this
      have := List.forall₂_take u.length hw
      rwa [htake] at this
    have heq : keyword.drop v.length = keyword.take u.length :=
      eq_of_forall₂_sameLetter (fun p hp => List.mem_of_mem_drop hp) (fun p hp => List.mem_of_mem_take hp) hend hbegin
    by_cases hu0 : u = []
    · subst hu0
      rw [List.append_nil] at hk
      exact hpre ⟨v, List.infix_refl v, hk⟩
    · have hlt := List.length_pos_iff.2 hu0
      refine drop_keyword_ne_take v.length hv0 (by omega) ?_
      rw [heq, ← hlk, Nat.add_sub_cancel_left]
  · exact hpre ⟨k, (List.prefix_append k u).isInfix, hk⟩

/-- Where no keyword starts, the search goes on. -/
theorem afterKeyword?_cons (h : dropSame? keyword (c :: s) = none) :
    afterKeyword? afterWord (c :: s) = afterKeyword? (isWordChar c) s := by
  rw [afterKeyword?, h]
  cases afterWord <;> rfl

/-- The first keyword is found behind a text that holds none, if it stands alone as a word. -/
theorem afterKeyword?_append (hpre : ¬ HoldsKeyword v) (hlast : ∀ c ∈ v.getLast?, isWordChar c = false)
    (hw : IsKeyword w) (hs : endsWord s = true) (hfirst : v = [] → afterWord = false) :
    afterKeyword? afterWord (v ++ (w ++ s)) = some s := by
  induction v generalizing afterWord with
  | nil =>
    obtain ⟨c, w', rfl⟩ : ∃ c w', w = c :: w' :=
      List.exists_cons_of_length_pos (by rw [← hw.length_eq]; decide)
    have hdrop : dropSame? keyword (c :: (w' ++ s)) = some s := dropSame?_eq_some_iff.2 ⟨c :: w', hw, rfl⟩
    rw [hfirst rfl, List.nil_append, List.cons_append, afterKeyword?, if_neg Bool.false_ne_true, hdrop,
      Option.filter_some, if_pos hs]
  | cons c v ih =>
    have hnone : dropSame? keyword (c :: (v ++ (w ++ s))) = none := dropSame?_before (List.cons_ne_nil c v) hpre hw
    rw [List.cons_append, afterKeyword?_cons hnone]
    refine ih (fun h => hpre (h.mono (List.suffix_cons c v).isInfix)) (fun d hd => hlast d ?_) ?_
    · cases v with
      | nil => cases hd
      | cons => exact hd
    · rintro rfl
      exact hlast c rfl

end Keyword

/-! ### The codes -/

/-- The text is a list of the codes: each of one or more plain characters, and between one and the next a comma with
white space before and behind it. -/
inductive CodeList : List (List Char) → List Char → Prop
  | last {code : List Char} (hne : code ≠ []) (hcode : ∀ c ∈ code, isPlainChar c = true) : CodeList [code] code
  | more {code : List Char} {codes : List (List Char)} {b b' s : List Char} (hne : code ≠ [])
      (hcode : ∀ c ∈ code, isPlainChar c = true) (hb : ∀ c ∈ b, isBlank c = true) (hb' : ∀ c ∈ b', isBlank c = true)
      (h : CodeList codes s) : CodeList (code :: codes) (code ++ (b ++ ',' :: (b' ++ s)))

/-- Before the text a list ends: neither its last code goes on nor does another one follow. -/
structure EndsList (s : List Char) : Prop where
  code : ∀ c ∈ s.head?, isCodeChar c = false
  list : ∀ b b' c r, s = b ++ ',' :: (b' ++ c :: r) → (∀ d ∈ b, isBlank d = true) → (∀ d ∈ b', isBlank d = true) →
    isCodeChar c = false

section Codes

variable {f : Char → Bool} {codes : List (List Char)} {b b' s t rest : List Char} {c : Char}

/-- White space belongs to no code. -/
theorem isCodeChar_of_isBlank (h : isBlank c = true) : isCodeChar c = false :=
  forall_isBlank (p := fun c => isCodeChar c = false) (by decide +kernel) h

theorem span_eq (hs : ∀ c ∈ s, f c = true) (hr : ∀ c ∈ rest.head?, f c = false) :
    (s ++ rest).takeWhile f = s ∧ (s ++ rest).dropWhile f = rest :=
  Cut.mk.inj (Lexer.span_append hs hr)

/-- Whether a list ends is seen by skipping white space, a comma and white space. -/
theorem endsList_iff :
    EndsList s ↔ (∀ c ∈ s.head?, isCodeChar c = false) ∧
      ∀ r, s.dropWhile isBlank = ',' :: r → ∀ c ∈ (r.dropWhile isBlank).head?, isCodeChar c = false := by
  constructor
  · refine fun h => ⟨h.code, fun r hr c hc => ?_⟩
    obtain ⟨t, ht⟩ := List.head?_eq_some_iff.1 hc
    have hs : s = s.takeWhile isBlank ++ ',' :: (r.takeWhile isBlank ++ c :: t) := by
      rw [← ht, List.takeWhile_append_dropWhile, ← hr, List.takeWhile_append_dropWhile]
    exact h.list _ _ c t hs (fun d hd => List.mem_takeWhile_imp hd) fun d hd => List.mem_takeWhile_imp hd
  · refine fun ⟨hcode, hlist⟩ => ⟨hcode, fun b b' c r hs hb hb' => ?_⟩
    by_cases hc : isBlank c = true
    · exact isCodeChar_of_isBlank hc
    · have hcomma : s.dropWhile isBlank = ',' :: (b' ++ c :: r) := by
        rw [hs]
        refine (span_eq hb ?_).2
        rintro d ⟨⟩
        decide
      have hdrop : (b' ++ c :: r).dropWhile isBlank = c :: r := by
        refine (span_eq hb' ?_).2
        rintro d ⟨⟩
        exact Bool.eq_false_iff.2 hc
      refine hlist _ hcomma c ?_
      rw [hdrop]
      rfl

theorem EndsList.moreCodes_eq (h : EndsList s) (n : Nat) : moreCodes n s = [] := by
  by_cases hc : (s.dropWhile isBlank).head? = some ','
  · obtain ⟨r, hr⟩ := List.head?_eq_some_iff.1 hc
    cases n with
    | zero => rfl
    | succ n =>
      have hcode : (r.dropWhile isBlank).takeWhile isCodeChar = [] := by
        have hhead := (endsList_iff.1 h).2 r hr
        cases hd : r.dropWhile isBlank with
        | nil => rfl
        | cons c t => simp [hhead c (by rw [hd]; rfl)]
      rw [moreCodes, hr]
      simp only [hcode, ite_true]
  · exact moreCodes_other hc n

theorem CodeList.exists_cons (h : CodeList codes s) : ∃ c r, s = c :: r ∧ isPlainChar c = true := by
  cases h with
  | last hne hcode =>
    obtain ⟨c, r, rfl⟩ := List.exists_cons_of_ne_nil hne
    exact ⟨c, r, rfl, hcode c List.mem_cons_self⟩
  | more hne hcode =>
    obtain ⟨c, r, rfl⟩ := List.exists_cons_of_ne_nil hne
    exact ⟨c, _, rfl, hcode c List.mem_cons_self⟩

theorem CodeList.codes_ne_nil (h : CodeList codes s) : codes ≠ [] := by
  cases h <;> exact List.cons_ne_nil _ _

theorem CodeList.length_le (h : CodeList codes s) : codes.length ≤ s.length := by
  induction h with
  | last hne => exact List.length_pos_iff.2 hne
  | more =>
    simp only [List.length_cons, List.length_append]
    omega

/-- White space before a list ends where the list starts. -/
theorem CodeList.dropBlank (h : CodeList codes s) (hb : ∀ c ∈ b, isBlank c = true) (rest : List Char) :
    (b ++ (s ++ rest)).dropWhile isBlank = s ++ rest := by
  obtain ⟨c, r, rfl, hc⟩ := h.exists_cons
  refine (span_eq hb ?_).2
  rintro d ⟨⟩
  exact (isCodeChar_of_plain hc).2.1

theorem isCodeChar_comma : isCodeChar ',' = false := by decide +kernel

/-- Behind a code stands no character of it: white space or a comma. -/
theorem head_comma (hb : ∀ c ∈ b, isBlank c = true) : ∀ c ∈ (b ++ ',' :: s).head?, isCodeChar c = false := by
  cases b with
  | nil =>
    rintro c ⟨⟩
    exact isCodeChar_comma
  | cons d b =>
    rintro c ⟨⟩
    exact isCodeChar_of_isBlank (hb d List.mem_cons_self)

/-- Behind a comma, one code more than those of the rest is read. -/
theorem moreCodes_comma (hb : ∀ c ∈ b, isBlank c = true) (n : Nat) (s : List Char) :
    moreCodes (n + 1) (b ++ ',' :: s) =
      if (s.dropWhile isBlank).takeWhile isCodeChar = [] then []
      else (s.dropWhile isBlank).takeWhile isCodeChar :: moreCodes n ((s.dropWhile isBlank).dropWhile isCodeChar) := by
  have hd : (b ++ ',' :: s).dropWhile isBlank = ',' :: s := by
    refine (span_eq hb ?_).2
    rintro d ⟨⟩
    decide
  rw [moreCodes, hd]
  rfl

/-- The first code of a list, and what stands behind it. -/
theorem takeWhile_code {code : List Char} (hcode : ∀ c ∈ code, isPlainChar c = true)
    (hr : ∀ c ∈ rest.head?, isCodeChar c = false) :
    (code ++ rest).takeWhile isCodeChar = code ∧ (code ++ rest).dropWhile isCodeChar = rest :=
  span_eq (fun c hc => (isCodeChar_of_plain (hcode c hc)).1) hr

/-- The codes behind a comma are those of the list. -/
theorem CodeList.moreCodes_eq (h : CodeList codes s) (he : EndsList rest) (hb : ∀ c ∈ b, isBlank c = true)
    (hb' : ∀ c ∈ b', isBlank c = true) {n : Nat} (hn : codes.length ≤ n) :
    moreCodes n (b ++ ',' :: (b' ++ (s ++ rest))) = codes := by
  induction h generalizing b b' n with
  | @last code hne hcode =>
    obtain ⟨n, rfl⟩ : ∃ m, n = m + 1 := ⟨n - 1, by simp only [List.length_singleton] at hn; omega⟩
    obtain ⟨htake, hdrop⟩ := takeWhile_code hcode he.code
    rw [moreCodes_comma hb, (CodeList.last hne hcode).dropBlank hb' rest, htake, hdrop, if_neg hne, he.moreCodes_eq]
  | @more code codes d d' s hne hcode hd hd' h ih =>
    obtain ⟨n, rfl⟩ : ∃ m, n = m + 1 := ⟨n - 1, by simp only [List.length_cons] at hn; omega⟩
    have hn' : codes.length ≤ n := Nat.le_of_succ_le_succ hn
    have hlist : CodeList (code :: codes) (code ++ (d ++ ',' :: (d' ++ s))) := .more hne hcode hd hd' h
    obtain ⟨htake, hdrop⟩ := takeWhile_code hcode (head_comma (s := d' ++ (s ++ rest)) hd)
    have happ : code ++ (d ++ ',' :: (d' ++ s)) ++ rest = code ++ (d ++ ',' :: (d' ++ (s ++ rest))) := by simp
    rw [moreCodes_comma hb, hlist.dropBlank hb' rest, happ, htake, hdrop, if_neg hne, ih hd hd' hn']

/-- All codes of a list are read. -/
theorem codeList?_append (h : CodeList codes s) (he : EndsList rest) : codeList? (s ++ rest) = some codes := by
  cases h with
  | last hne hcode =>
    obtain ⟨htake, hdrop⟩ := takeWhile_code hcode he.code
    simp only [codeList?, htake, hdrop, if_neg hne, he.moreCodes_eq]
  | @more code codes d d' s hne hcode hd hd' h =>
    obtain ⟨htake, hdrop⟩ := takeWhile_code hcode (head_comma (s := d' ++ (s ++ rest)) hd)
    have happ : code ++ (d ++ ',' :: (d' ++ s)) ++ rest = code ++ (d ++ ',' :: (d' ++ (s ++ rest))) := by simp
    have hn : codes.length ≤ (code ++ (d ++ ',' :: (d' ++ (s ++ rest)))).length := by
      have := h.length_le
      simp only [List.length_append, List.length_cons]
      omega
    simp only [happ, codeList?, htake, hdrop, if_neg hne, h.moreCodes_eq he hd hd' hn]

/-- Behind a colon and white space a list of codes is read, and none of them is the star for all checks. -/
theorem scope?_codeList (h : CodeList codes s) (he : EndsList rest) (hb : ∀ c ∈ b, isBlank c = true) :
    scope? (':' :: (b ++ (s ++ rest))) = some (.only (codes.map fun c => upper (String.ofList c)).eraseDups) := by
  obtain ⟨c, r, hs, hc⟩ := h.exists_cons
  have hstar : c ≠ '*' := (isCodeChar_of_plain hc).2.2.1
  rw [scope?, h.dropBlank hb rest]
  split
  · next t ht =>
    rw [hs, List.cons_append] at ht
    exact absurd (List.cons.inj ht).1 hstar
  · rw [codeList?_append h he]
    rfl

end Codes

/-! ### Whole comments -/

/-- A comment with a directive, before which no keyword stands and no word character, suppresses exactly the codes that
its list has, whatever their case; it is neither no directive nor one for all checks. -/
theorem only_of_codeList {pre word blanks list rest : List Char} {codes : List (List Char)}
    (hpre : ¬ HoldsKeyword pre) (hlast : ∀ c ∈ pre.getLast?, isWordChar c = false)
    (hword : IsKeyword word) (hblanks : ∀ c ∈ blanks, isBlank c = true) (hlist : CodeList codes list)
    (hrest : EndsList rest) :
    ∃ set, directive? (String.ofList (pre ++ (word ++ ':' :: (blanks ++ (list ++ rest))))) = some (.only set) ∧
      set ≠ [] ∧ ∀ c, c ∈ set ↔ ∃ code ∈ codes, c = upper (String.ofList code) := by
  have hcolon : endsWord (':' :: (blanks ++ (list ++ rest))) = true := by
    have hpart : isIdentPart ':' = false := by decide +kernel
    rw [endsWord, hpart]
    rfl
  have hafter := afterKeyword?_append hpre hlast hword hcolon (fun _ => rfl)
  have hmem (c : String) : c ∈ (codes.map fun c => upper (String.ofList c)).eraseDups ↔
      ∃ code ∈ codes, c = upper (String.ofList code) := by
    rw [List.mem_eraseDups, List.mem_map]
    exact exists_congr fun _ => and_congr_right' eq_comm
  refine ⟨(codes.map fun c => upper (String.ofList c)).eraseDups, ?_, ?_, hmem⟩
  · rw [directive?, String.toList_ofList, hafter, Option.bind_some, scope?_codeList hlist hrest hblanks]
  · obtain ⟨code, hcode⟩ := List.exists_mem_of_ne_nil codes hlist.codes_ne_nil
    exact List.ne_nil_of_mem ((hmem _).2 ⟨code, hcode, rfl⟩)

/-- Behind a keyword that breaks off, one in capitals, with three codes, two of which are the same but for their case,
and a comma behind the last one. -/
theorem only_of_codeList_mixed :
    ∃ pre word list rest : String, pre = "# tfsentinel:ignor-" ∧ word = "TF\u017fentinel:\u0130GNORE" ∧
      list = "aws001 ,\n_b-2,AWS001" ∧ rest = " , ;A1" ∧ ¬ HoldsKeyword pre.toList ∧ IsKeyword word.toList ∧
      CodeList ["aws001".toList, "_b-2".toList, "AWS001".toList] list.toList ∧ EndsList rest.toList ∧
      ∃ set, directive? (pre ++ word ++ ": " ++ list ++ rest) = some (.only set) ∧ set ≠ [] ∧
        ∀ c, c ∈ set ↔ c = "AWS001" ∨ c = "_B-2" := by
  have hpre : ¬ HoldsKeyword "# tfsentinel:ignor-".toList := by
    rw [holdsKeyword_iff]
    decide +kernel
  have hword : IsKeyword "TF\u017fentinel:\u0130GNORE".toList := by
    unfold IsKeyword
    decide +kernel
  have hspace : ∀ c ∈ [' '], isBlank c = true := List.forall_mem_singleton.2 (by decide)
  have hnewline : ∀ c ∈ ['\n'], isBlank c = true := List.forall_mem_singleton.2 (by decide)
  have hlist : CodeList ["aws001".toList, "_b-2".toList, "AWS001".toList] "aws001 ,\n_b-2,AWS001".toList := by
    have hlast : CodeList ["AWS001".toList] "AWS001".toList :=
      .last (by decide) (List.all_eq_true.1 (by decide +kernel))
    have hmiddle : CodeList ["_b-2".toList, "AWS001".toList]
        ("_b-2".toList ++ ([] ++ ',' :: ([] ++ "AWS001".toList))) :=
      .more (by decide) (List.all_eq_true.1 (by decide +kernel)) (by simp) (by simp) hlast
    have hall : CodeList ["aws001".toList, "_b-2".toList, "AWS001".toList]
        ("aws001".toList ++ ([' '] ++ ',' :: (['\n'] ++ "_b-2,AWS001".toList))) :=
      .more (by decide) (List.all_eq_true.1 (by decide +kernel)) hspace hnewline hmiddle
    exact hall
  have hrest : EndsList " , ;A1".toList := by
    have hcode {c d : Char} {s : List Char} (hs : s.head? = some d) (hd : isCodeChar d = false) (hc : c ∈ s.head?) :
        isCodeChar c = false := by
      obtain rfl : d = c := Option.some.inj (hs.symm.trans hc)
      exact hd
    refine endsList_iff.2 ⟨fun c => hcode (by decide) (by decide +kernel : isCodeChar ' ' = false), fun r hr c hc => ?_⟩
    have hcomma : " , ;A1".toList.dropWhile isBlank = ",".toList ++ " ;A1".toList := by decide +kernel
    obtain rfl : " ;A1".toList = r := (List.cons.inj (hcomma.symm.trans hr)).2
    exact hcode (by decide +kernel) (by decide +kernel : isCodeChar ';' = false) hc
  have hlast : ∀ c ∈ "# tfsentinel:ignor-".toList.getLast?, isWordChar c = false := by
    intro c hc
    obtain rfl : '-' = c := Option.some.inj hc
    decide +kernel
  obtain ⟨set, hset, hne, hmem⟩ := only_of_codeList hpre hlast hword hspace hlist hrest
  refine ⟨_, _, _, _, rfl, rfl, rfl, rfl, hpre, hword, hlist, hrest, set, hset, hne, fun c => ?_⟩
  have h1 : upper (String.ofList "aws001".toList) = "AWS001" := by decide +kernel
  have h2 : upper (String.ofList "_b-2".toList) = "_B-2" := by decide +kernel
  have h3 : upper (String.ofList "AWS001".toList) = "AWS001" := by decide +kernel
  simp only [hmem, List.mem_cons, List.not_mem_nil, or_false, exists_eq_or_imp, exists_eq_left, h1, h2, h3]
  constructor
  · rintro (h | h | h)
    · exact .inl h
    · exact .inr h
    · exact .inl h
  · exact fun h => h.imp_right .inl

end InfraAudit.Ignore
