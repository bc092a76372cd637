import InfraAudit.Proofs.Files.Naming

/-!
# InfraAudit.Proofs.Files.Listing — the configuration files of a tree

* `HasSuffix`: the names that end in `.tf`, up to case, behind something else; `isSourceName_iff`: these are the names
  of configuration files.
* `Eligible`: the files that are reached through directories that are not skipped.
* `mem_sources_iff`: they are the ones that are found, if their names are not too long.
* `sources_increasing`: they are found in the order of their names, each once.
-/

namespace InfraAudit.Files

open InfraAudit.Text

/-! ### Names of configuration files -/

section Names

variable {c : Char}

theorem toNat_lowerLatinChar (hc : c ≠ '\u212a') :
    (lowerLatinChar c).toNat = if 65 ≤ c.toNat ∧ c.toNat ≤ 90 then c.toNat + 32 else c.toNat := by
  have hne : (c == '\u212a') = false := beq_eq_false_iff_ne.2 hc
  rw [lowerLatinChar, hne]
  simp only [Bool.false_eq_true, if_false]
  delta Char.toLower
  have hcapital : (c.val ≥ 'A'.val ∧ c.val ≤ 'Z'.val) ↔ 65 ≤ c.toNat ∧ c.toNat ≤ 90 := by
    rw [ge_iff_le, UInt32.le_iff_toNat_le, UInt32.le_iff_toNat_le]
    exact Iff.rfl
  split
  · next h =>
    have hbound := hcapital.1 h
    rw [if_pos hbound]
    show (c.val + 32).toNat = c.toNat + 32
    rw [UInt32.toNat_add]
    have hval : c.val.toNat ≤ 90 := hbound.2
    exact Nat.mod_eq_of_lt (show c.val.toNat + 32 < 2 ^ 32 by omega)
  · next h => rw [if_neg (hcapital.not.1 h)]

/-- A letter and its capital are the characters with that lower-case form. -/
theorem lowerLatinChar_eq_iff {p capital : Char} (hp : p ≠ 'k') (hlow : p.toNat = capital.toNat + 32)
    (hcapital : 65 ≤ capital.toNat ∧ capital.toNat ≤ 90) : lowerLatinChar c = p ↔ c = p ∨ c = capital := by
  by_cases hc : c = '\u212a'
  · subst hc
    have hk : lowerLatinChar '\u212a' = 'k' := by decide
    have hkelvin : ('\u212a' : Char).toNat = 8490 := by decide
    rw [hk, ← Char.toNat_inj, ← Char.toNat_inj, ← Char.toNat_inj, hkelvin]
    have hne : 'k'.toNat ≠ p.toNat := fun he => hp (Char.toNat_inj.1 he.symm)
    omega
  · rw [← Char.toNat_inj, toNat_lowerLatinChar hc, ← Char.toNat_inj, ← Char.toNat_inj]
    split <;> omega

/-- The name ends in `.tf`, up to case, and something stands before the dot. -/
def HasSuffix (name : String) : Prop :=
  ∃ stem t f, stem ≠ [] ∧ (t = 't' ∨ t = 'T') ∧ (f = 'f' ∨ f = 'F') ∧ name.toList = stem ++ ['.', t, f]

/-- The names of configuration files are those with the suffix. -/
theorem isSourceName_iff {name : String} : isSourceName name = true ↔ HasSuffix name := by
  constructor
  · intro h
    have hext : (lowerLatin (extension name)).toList = ['.', 't', 'f'] := by
      rw [beq_iff_eq.1 h]
      rfl
    rw [lowerLatin, String.toList_map, extension] at hext
    split at hext
    · cases hext
    · next hne =>
      obtain ⟨-, hstem⟩ := not_or.1 hne
      -- the letters behind the last dot, and the rest of the name, both backwards
      have hsplit := @List.takeWhile_append_dropWhile _ (· != '.') name.toList.reverse
      generalize name.toList.reverse.takeWhile (· != '.') = letters at hext hstem hsplit
      cases hrest : name.toList.reverse.dropWhile (· != '.') with
      | nil =>
        rw [hrest, List.append_nil] at hsplit
        rw [← hsplit] at hstem
        simp at hstem
      | cons dot stem =>
        obtain rfl : dot = '.' := by
          have hhead := List.head?_dropWhile_not (· != '.') name.toList.reverse
          rw [hrest] at hhead
          simpa using hhead
        rw [hrest] at hsplit
        rw [← hsplit] at hstem
        have hlength : letters.length = 2 := by simpa using congrArg List.length hext
        obtain ⟨f, t, rfl⟩ := List.length_eq_two.1 hlength
        obtain ⟨-, ht, hf⟩ : lowerLatinChar '.' = '.' ∧ lowerLatinChar t = 't' ∧ lowerLatinChar f = 'f' := by
          simpa using hext
        refine ⟨stem.reverse, t, f, by simpa using hstem, ?_, ?_, ?_⟩
        · exact (lowerLatinChar_eq_iff (by decide) rfl (by decide)).1 ht
        · exact (lowerLatinChar_eq_iff (by decide) rfl (by decide)).1 hf
        · rw [← List.reverse_reverse name.toList, ← hsplit]
          simp
  · rintro ⟨stem, t, f, hne, rfl | rfl, rfl | rfl, hname⟩ <;>
      simp [isSourceName, extension, hname, hne] <;> decide +kernel

end Names

/-! ### Eligible files -/

/-- The path is that of a configuration file below the place, on a way through the entries on which no directory is
skipped. -/
inductive Eligible : Path → List (String × Node) → Path → Prop
  | file {place : Path} {entries : List (String × Node)} {name : String} {bytes : ByteArray}
      (hmem : (name, .file bytes) ∈ entries) (hname : HasSuffix name) : Eligible place entries (place.child name)
  | directory {place path : Path} {entries inside : List (String × Node)} {name : String}
      (hmem : (name, .directory inside) ∈ entries) (hname : name ∉ skippedDirectories)
      (h : Eligible (place.child name) inside path) : Eligible place entries path

/-- The configuration files of one entry. -/
def sourcesAt (place : Path) : String × Node → List Path
  | (name, .file _) => if isSourceName name then [place.child name] else []
  | (name, .directory entries) =>
    if skippedDirectories.contains name || (nameError? (place.child name).text).isSome then []
    else sourcesIn (place.child name) entries

theorem sourcesIn_eq_flatMap (place : Path) (entries : List (String × Node)) :
    sourcesIn place entries = entries.flatMap (sourcesAt place) := by
  induction entries with
  | nil => rw [sourcesIn, List.flatMap_nil]
  | cons e rest ih =>
    obtain ⟨name, bytes | inside⟩ := e <;> rw [sourcesIn, ih, List.flatMap_cons, sourcesAt]

section Membership

variable {place path : Path} {entries : List (String × Node)}

theorem Eligible.mono {more : List (String × Node)} (h : Eligible place entries path) (hs : entries ⊆ more) :
    Eligible place more path := by
  cases h with
  | file hmem hname => exact .file (hs hmem) hname
  | directory hmem hname h => exact .directory (hs hmem) hname h

theorem eligible_of_mem_sourcesIn (h : path ∈ sourcesIn place entries) : Eligible place entries path := by
  fun_induction sourcesIn place entries with
  | case1 => cases h
  | case2 place name bytes rest ih =>
    rcases List.mem_append.1 h with h | h
    · split at h
      · next hname =>
        obtain rfl := List.mem_singleton.1 h
        exact .file List.mem_cons_self (isSourceName_iff.1 hname)
      · cases h
    · exact (ih h).mono (List.subset_cons_self _ _)
  | case3 place name inside rest ihe ih =>
    rcases List.mem_append.1 h with h | h
    · split at h
      · cases h
      · next hname =>
        rw [Bool.or_eq_true, not_or, List.contains_iff_mem] at hname
        exact .directory List.mem_cons_self hname.1 (ihe h)
    · exact (ih h).mono (List.subset_cons_self _ _)

theorem intercalate_start (xs ys : List (List Char)) : ['/'].intercalate xs <+: ['/'].intercalate (xs ++ ys) := by
  induction xs with
  | nil => exact List.nil_prefix
  | cons x xs ih =>
    cases xs with
    | nil =>
      cases ys with
      | nil => exact List.prefix_refl _
      | cons y ys =>
        rw [List.singleton_append, List.intercalate_cons_cons, List.intercalate_singleton, List.append_assoc]
        exact List.prefix_append _ _
    | cons x' xs =>
      rw [List.cons_append, List.cons_append, List.intercalate_cons_cons, List.intercalate_cons_cons]
      exact (List.prefix_append_right_inj _).2 ih

/-- The name of a directory is the start of the names of what is below it. -/
theorem Path.text_start {p : Path} (hp : p.parts ≠ []) (more : List String) :
    p.text.toList <+: (⟨p.anchor, p.parts ++ more⟩ : Path).text.toList := by
  have h1 : ¬(p.anchor = .here ∧ p.parts = []) := fun h => hp h.2
  have h2 : ¬((⟨p.anchor, p.parts ++ more⟩ : Path).anchor = .here ∧ (⟨p.anchor, p.parts ++ more⟩ : Path).parts = []) :=
    fun h => hp (List.append_eq_nil_iff.1 h.2).1
  rw [Path.text, Path.text, if_neg h1, if_neg h2, String.toList_append, String.toList_append,
    String.toList_intercalate, String.toList_intercalate, List.map_append]
  exact (List.prefix_append_right_inj _).2 (intercalate_start _ _)

theorem nameError?_eq_none_iff {name : String} :
    nameError? name = none ↔ '\x00' ∉ name.toList ∧ name.utf8ByteSize < nameSizeLimit := by
  unfold nameError?
  split
  · next h => simpa using fun hn => absurd (by simpa using h) hn
  · next h =>
    split
    · next h' => simp; omega
    · next h' => simp at h; simp [h]; omega

theorem nameError?_of_prefix {s t : String} (h : s.toList <+: t.toList) (ht : nameError? t = none) :
    nameError? s = none := by
  rw [nameError?_eq_none_iff] at ht ⊢
  obtain ⟨r, hr⟩ := h
  have hst : t = s ++ String.ofList r := by
    apply String.toList_injective
    rw [← hr, String.toList_append, String.toList_ofList]
  refine ⟨fun hmem => ht.1 (hr ▸ List.mem_append_left r hmem), ?_⟩
  have hsize := ht.2
  rw [hst, String.utf8ByteSize_append] at hsize
  omega

/-- What lies below a directory has a name that starts with the names of the way to it. -/
theorem Eligible.exists_parts (h : Eligible place entries path) :
    ∃ more, path = ⟨place.anchor, place.parts ++ more⟩ := by
  induction h with
  | @file place _ name _ _ _ => exact ⟨[name], rfl⟩
  | @directory place _ _ _ name _ _ _ ih =>
    obtain ⟨more, rfl⟩ := ih
    exact ⟨name :: more, by simp [Path.child]⟩

/-- An eligible file is found if it can have its name. -/
theorem Eligible.mem_sourcesIn (h : Eligible place entries path) (hname : nameError? path.text = none) :
    path ∈ sourcesIn place entries := by
  induction h with
  | @file place entries name bytes hmem hsuffix =>
    rw [sourcesIn_eq_flatMap]
    refine List.mem_flatMap.2 ⟨_, hmem, ?_⟩
    rw [sourcesAt, if_pos (isSourceName_iff.2 hsuffix)]
    exact List.mem_singleton_self _
  | @directory place path entries inside name hmem hskip h ih =>
    obtain ⟨more, rfl⟩ := h.exists_parts
    have hdirectory : nameError? (place.child name).text = none :=
      nameError?_of_prefix (Path.text_start (by simp [Path.child]) more) hname
    rw [sourcesIn_eq_flatMap]
    refine List.mem_flatMap.2 ⟨_, hmem, ?_⟩
    have hopen : ¬(skippedDirectories.contains name || (nameError? (place.child name).text).isSome) = true := by
      simpa [hdirectory] using hskip
    rw [sourcesAt, if_neg hopen]
    exact ih hname

/-- The files that are found are the eligible ones, if all of these can have their names. -/
theorem mem_sources_iff (h : ∀ path, Eligible place entries path → nameError? path.text = none) :
    path ∈ sources place entries ↔ Eligible place entries path := by
  rw [sources, List.mem_mergeSort]
  exact ⟨eligible_of_mem_sourcesIn, fun he => he.mem_sourcesIn (h path he)⟩

/-! ### Order -/

/-- The files that are found are in the order of their names. -/
theorem pairwise_sources (place : Path) (entries : List (String × Node)) :
    (sources place entries).Pairwise fun p q => p.text ≤ q.text := by
  have htrans (p q r : Path) (hpq : decide (p.text ≤ q.text) = true) (hqr : decide (q.text ≤ r.text) = true) :
      decide (p.text ≤ r.text) = true :=
    decide_eq_true (String.le_trans (of_decide_eq_true hpq) (of_decide_eq_true hqr))
  have htotal (p q : Path) : (decide (p.text ≤ q.text) || decide (q.text ≤ p.text)) = true := by
    simpa using String.le_total p.text q.text
  exact (List.pairwise_mergeSort htrans htotal (sourcesIn place entries)).imp of_decide_eq_true

/-- In a well-named tree each of them has a greater name than the ones before it. -/
theorem sources_increasing (h : WellNamed entries) (hp : place.Normal) :
    ((sources place entries).map Path.text).Pairwise (· < ·) := by
  have hle : ((sources place entries).map Path.text).Pairwise (· ≤ ·) :=
    List.pairwise_map.2 (pairwise_sources place entries)
  refine (hle.and (text_sources_nodup h hp)).imp ?_
  rintro s t ⟨hst, hne⟩
  exact Decidable.byContradiction fun hlt => hne (String.le_antisymm hst hlt)

end Membership

end InfraAudit.Files
