import InfraAudit.Proofs.CommandLine.Gate
import InfraAudit.Proofs.Text.Spelling

/-!
# InfraAudit.Proofs.Config.Exclusion — codes excluded in settings and on the command line

* `distinctCodes`: codes in their normal form, the blank ones left out, each where it occurs first.
* `addCode_distinctCodes`, `foldl_addCode`: adding codes one at a time gives the distinct ones.
* `Gives`: settings and options that give codes between them, in order.
* `SameCodes`: lists with the same codes up to order, repetition, case and white space around a code.
* `exclude_distinctCodes`: the excluded codes depend on the codes given and not on where they are given; the registry
  does not depend on their order, repetition, case or white space either.
-/

namespace InfraAudit

namespace Config

open InfraAudit.Text

variable {codes others given again : List String} {code : String} {s : Selection}

/-! ### Normal forms -/

theorem toNat_of_mem_trim (h : ∀ c ∈ code.toList, c.toNat < 128) : ∀ c ∈ trim isBlank code.toList, c.toNat < 128 :=
  fun c hc => h c ((Hcl.Expression.trim_sublist isBlank code.toList).mem hc)

theorem toList_normalCode (h : ∀ c ∈ code.toList, c.toNat < 128) :
    (normalCode code).toList = (trim isBlank code.toList).map Char.toUpper := by
  have hstrip : ∀ c ∈ (strip code).toList, c.toNat < 128 := by
    rw [toList_strip]
    exact toNat_of_mem_trim h
  rw [normalCode, upper_latin hstrip, String.toList_ofList, toList_strip]

theorem toNat_of_mem_normalCode (h : ∀ c ∈ code.toList, c.toNat < 128) :
    ∀ c ∈ (normalCode code).toList, c.toNat < 128 := by
  rw [toList_normalCode h, List.forall_mem_map]
  exact fun c hc => (latin_case (toNat_of_mem_trim h c hc)).1

/-- A code in its normal form is its own normal form, in basic Latin. -/
theorem normalCode_normalCode (h : ∀ c ∈ code.toList, c.toNat < 128) :
    normalCode (normalCode code) = normalCode code := by
  rw [← String.toList_inj, toList_normalCode (toNat_of_mem_normalCode h), toList_normalCode h,
    trim_isBlank_map_toUpper h, List.map_map]
  refine List.map_congr_left fun c hc => ?_
  obtain ⟨-, -, htwice, -, -⟩ := latin_case (toNat_of_mem_trim h c hc)
  exact htwice

/-! ### Codes added one at a time -/

/-- The codes stripped and in upper case, the blank ones left out, each where it occurs first. -/
def distinctCodes (codes : List String) : List String :=
  ((codes.map normalCode).filter (· ≠ "")).eraseDups

theorem mem_distinctCodes : code ∈ distinctCodes codes ↔ code ≠ "" ∧ ∃ c ∈ codes, normalCode c = code := by
  rw [distinctCodes, List.mem_eraseDups, List.mem_filter, List.mem_map, decide_eq_true_eq, and_comm]

theorem addCode_of_known (h : normalCode code = "" ∨ normalCode code ∈ codes) : addCode codes code = codes := by
  simp [addCode, h]

theorem addCode_of_new (hb : normalCode code ≠ "") (h : normalCode code ∉ codes) :
    addCode codes code = codes ++ [normalCode code] := by
  simp [addCode, hb, h]

theorem addCode_distinctCodes (given : List String) (code : String) :
    addCode (distinctCodes given) code = distinctCodes (given ++ [code]) := by
  have hconcat : distinctCodes (given ++ [code]) = distinctCodes given ++
      (([normalCode code].filter (· ≠ "")).removeAll ((given.map normalCode).filter (· ≠ ""))).eraseDups := by
    rw [distinctCodes, List.map_append, List.filter_append, List.eraseDups_append]
    rfl
  have hmem : normalCode code ∈ distinctCodes given ↔
      normalCode code ∈ (given.map normalCode).filter (· ≠ "") := List.mem_eraseDups
  rw [hconcat]
  generalize (given.map normalCode).filter (· ≠ "") = known at hmem
  by_cases hb : normalCode code = ""
  · rw [addCode_of_known (.inl hb)]
    simp [hb]
  · by_cases hknown : normalCode code ∈ distinctCodes given
    · rw [addCode_of_known (.inr hknown)]
      simp [List.removeAll, hb, hmem.1 hknown]
    · rw [addCode_of_new hb hknown]
      simp [List.removeAll, hb, mt hmem.2 hknown, List.eraseDups_cons]

theorem foldl_addCode (given codes : List String) :
    codes.foldl addCode (distinctCodes given) = distinctCodes (given ++ codes) := by
  induction codes generalizing given with
  | nil => rw [List.foldl_nil, List.append_nil]
  | cons c codes ih => rw [List.foldl_cons, addCode_distinctCodes, ih, List.append_assoc, List.singleton_append]

/-- Codes without commas, joined by commas, are added one by one; no codes make one blank code. -/
theorem foldl_addCode_splitCodes (h : ∀ c ∈ codes, ',' ∉ c.toList) (known : List String) :
    (splitCodes (",".intercalate codes)).foldl addCode known = codes.foldl addCode known := by
  cases codes with
  | nil =>
    have hnone : splitCodes (",".intercalate []) = [""] := by decide +kernel
    have hblank : normalCode "" = "" := by decide +kernel
    rw [hnone, List.foldl_cons, addCode_of_known (.inl hblank)]
  | cons c cs =>
    have hfree : ∀ l ∈ (c :: cs).map String.toList, ',' ∉ l := List.forall_mem_map.2 h
    have hsplit : splitCodes (",".intercalate (c :: cs)) = c :: cs := by
      rw [splitCodes, String.toList_intercalate]
      show (([','].intercalate ((c :: cs).map String.toList)).splitOn ',').map String.ofList = c :: cs
      rw [List.splitOn_intercalate ',' hfree (by simp), List.map_map]
      exact List.map_id'' (fun _ => String.ofList_toList) _
    rw [hsplit]

/-- Codes that are known already, or blank, make no difference. -/
theorem merge_of_known (h : ∀ c ∈ again, normalCode c = "" ∨ normalCode c ∈ s.exclude) : merge s again = s := by
  have hfold : again.foldl addCode s.exclude = s.exclude := by
    induction again with
    | nil => rfl
    | cons c again ih =>
      obtain ⟨hc, h⟩ := List.forall_mem_cons.1 h
      rw [List.foldl_cons, addCode_of_known hc, ih h]
  rw [merge, hfold]

/-! ### Codes in settings -/

/-- A text that may be given as a code: basic Latin characters, and no comma among them. -/
def IsCodeText (code : String) : Prop :=
  ∀ c ∈ code.toList, c.toNat < 128 ∧ c ≠ ','

instance (code : String) : Decidable (IsCodeText code) :=
  List.decidableBAll _ code.toList

theorem comma_not_mem (h : ∀ c ∈ codes, IsCodeText c) : ∀ c ∈ codes, ',' ∉ c.toList :=
  fun c hc hmem => (h c hc ',' hmem).2 rfl

/-- The ways to give codes in settings: no value, a list, or one text with commas. -/
inductive Listed : List String → Option Yaml.Value → Prop
  | nothing : Listed [] none
  | items (codes : List String) : Listed codes (some (.list (codes.map fun c => .scalar (.text c))))
  | text (codes : List String) : Listed codes (some (.scalar (.text (",".intercalate codes))))

/-- What settings with nothing wrong in them specify: the excluded codes and the least severity, if there is one. -/
inductive Specifies (source : String) : List String → Option Severity → Yaml.Value → Prop
  | nothing : Specifies source [] none (.scalar .null)
  | mapping {codes keys : List String} {minimum : Option Severity} {entries : List (Yaml.Scalar × Yaml.Value)}
      (hkeys : unknownKeys entries = .ok keys) (hcodes : Listed codes (valueOf? entries "exclude"))
      (hminimum : minimumOf source (valueOf? entries "minimum_severity") = .ok minimum) :
      Specifies source codes minimum (.map entries)

theorem excludeOf_listed (source : String) {v : Option Yaml.Value} (hc : ∀ c ∈ codes, ',' ∉ c.toList)
    (h : Listed codes v) :
    ∃ given, excludeOf source v = .ok given ∧ ∀ known, given.foldl addCode known = codes.foldl addCode known := by
  cases h with
  | nothing => exact ⟨[], rfl, fun _ => rfl⟩
  | items =>
    have htexts : (codes.map fun c => Yaml.Value.scalar (.text c)).filterMap textOf? = codes := by
      rw [List.filterMap_map]
      exact List.filterMap_some
    refine ⟨codes, ?_, fun _ => rfl⟩
    rw [excludeOf, htexts, if_pos]
    simp [textOf?]
  | text => exact ⟨_, rfl, foldl_addCode_splitCodes hc⟩

theorem parse_of_specifies {source : String} {minimum : Option Severity} {x : Yaml.Value}
    (hc : ∀ c ∈ codes, ',' ∉ c.toList) (h : Specifies source codes minimum x) :
    (parse source x).outcome = .ok ⟨distinctCodes codes, minimum⟩ := by
  cases h with
  | nothing => rfl
  | @mapping _ keys _ entries hkeys hlisted hminimum =>
    obtain ⟨given, hgiven, hfold⟩ := excludeOf_listed source hc hlisted
    have hcodes : given.foldl addCode [] = distinctCodes codes := (hfold []).trans (foldl_addCode [] codes)
    rw [parse, hkeys]
    simp only [hgiven, hminimum]
    simp only [merge, everything]
    rw [← hcodes]
    rfl

/-! ### The same codes -/

/-- Two texts for one code: they differ in the case of letters and in white space at the ends. -/
def SameCode (a b : String) : Prop :=
  (strip a).toList.map Char.toLower = (strip b).toList.map Char.toLower

/-- Lists with the same codes, in any order, number and spelling. -/
def SameCodes (codes others : List String) : Prop :=
  (∀ a ∈ codes, ∃ b ∈ others, SameCode a b) ∧ ∀ b ∈ others, ∃ a ∈ codes, SameCode a b

instance (a b : String) : Decidable (SameCode a b) :=
  inferInstanceAs (Decidable ((strip a).toList.map Char.toLower = (strip b).toList.map Char.toLower))

instance (codes others : List String) : Decidable (SameCodes codes others) :=
  inferInstanceAs (Decidable ((∀ a ∈ codes, ∃ b ∈ others, SameCode a b) ∧ ∀ b ∈ others, ∃ a ∈ codes, SameCode a b))

theorem SameCode.normalCode_eq {a b : String} (h : SameCode a b) : normalCode a = normalCode b :=
  upper_eq_of_map_toLower h

theorem SameCodes.mem_distinctCodes_iff (h : SameCodes codes others) :
    code ∈ distinctCodes codes ↔ code ∈ distinctCodes others := by
  have hnormal : (∃ a ∈ codes, normalCode a = code) ↔ ∃ b ∈ others, normalCode b = code := by
    constructor
    · rintro ⟨a, ha, rfl⟩
      obtain ⟨b, hb, hab⟩ := h.1 a ha
      exact ⟨b, hb, hab.normalCode_eq.symm⟩
    · rintro ⟨b, hb, rfl⟩
      obtain ⟨a, ha, hab⟩ := h.2 b hb
      exact ⟨a, ha, hab.normalCode_eq⟩
  rw [mem_distinctCodes, mem_distinctCodes, hnormal]

/-- The registry depends on which codes are excluded, and not on their order and number. -/
theorem ofSelection_congr {a b : List String} (h : ∀ code, code ∈ a ↔ code ∈ b) (m : Option Severity) :
    Registry.ofSelection ⟨a, m⟩ = Registry.ofSelection ⟨b, m⟩ := by
  have hexcluded (code : String) :
      (Selection.excluded ⟨a, m⟩).contains code = (Selection.excluded ⟨b, m⟩).contains code := by
    rw [Bool.eq_iff_iff, List.contains_iff_mem, List.contains_iff_mem]
    simp only [Selection.excluded, List.mem_map, List.mem_filter, h]
  have hkeeps : Selection.keeps ⟨a, m⟩ = Selection.keeps ⟨b, m⟩ := by
    funext c
    rw [Selection.keeps, Selection.keeps, hexcluded]
  simp only [Registry.ofSelection, hkeeps]

end Config

namespace CommandLine

open InfraAudit.Config InfraAudit.Files

variable {o : Options} {w : Workspace} {codes : List String} {minimum : Option Severity}

/-! ### Codes in settings and options together -/

/-- The selection of a run: its settings with what the command line adds to them. -/
def Options.selected (o : Options) (w : Workspace) : Except RunFailure Selection :=
  (o.settings w).outcome.mapError .settings >>= o.selection

/-- A run whose settings and options exclude the codes between them: the first ones are given in the settings, and the
others, cut into groups, in one option for each group, joined by commas.  No option lacks a value that it needs. -/
inductive Options.Gives (o : Options) (w : Workspace) (codes : List String) (minimum : Option Severity) : Prop
  | mk {source : String} {settings : Yaml.Value} {inSettings : List String} {groups : List (List String)}
      (hsettings : (o.settings w).outcome = (Config.parse source settings).outcome)
      (hspecified : Specifies source inSettings minimum settings)
      (hoptions : o.exclude = groups.map fun group => some (",".intercalate group)) (hjobs : o.jobs = true)
      (horder : codes = inSettings ++ groups.flatten)

theorem foldl_addCode_groups {groups : List (List String)} (h : ∀ group ∈ groups, ∀ c ∈ group, ',' ∉ c.toList)
    (known : List String) :
    (groups.flatMap fun group => splitCodes (",".intercalate group)).foldl addCode known =
      groups.flatten.foldl addCode known := by
  induction groups generalizing known with
  | nil => rfl
  | cons group groups ih =>
    obtain ⟨hgroup, h⟩ := List.forall_mem_cons.1 h
    rw [List.flatMap_cons, List.flatten_cons, List.foldl_append, List.foldl_append, foldl_addCode_splitCodes hgroup,
      ih h]

theorem selected_of_gives (hc : ∀ c ∈ codes, ',' ∉ c.toList) (h : o.Gives w codes minimum) :
    o.selected w = .ok ⟨distinctCodes codes, o.minimum.or minimum⟩ := by
  obtain ⟨hsettings, hspecified, hoptions, hjobs, rfl⟩ := h
  rename_i source settings inSettings groups
  obtain ⟨hfirst, hgroups⟩ := List.forall_mem_append.1 hc
  have hvalues : o.exclude.filterMap id = groups.map fun group => ",".intercalate group := by
    rw [hoptions, List.filterMap_map]
    exact congrFun List.filterMap_eq_map groups
  have hfold : ((o.exclude.filterMap id).flatMap splitCodes).foldl addCode (distinctCodes inSettings) =
      distinctCodes (inSettings ++ groups.flatten) := by
    rw [hvalues, List.flatMap_map, foldl_addCode_groups fun group hg c hc => hgroups c (List.mem_flatten_of_mem hg hc),
      foldl_addCode]
  have hok : o.selection ⟨distinctCodes inSettings, minimum⟩ =
      .ok (o.narrowed ⟨distinctCodes inSettings, minimum⟩) := selection_eq_ok_iff.2 ⟨⟨by simp [hoptions], hjobs⟩, rfl⟩
  rw [Options.selected, hsettings, parse_of_specifies hfirst hspecified]
  rw [Options.narrowed, hfold] at hok
  exact hok

/-- The codes that a run excludes are those given to it, stripped and in upper case, without blank ones, each where it
occurs first, wherever each of them is given.  To add some of them again changes nothing.  The registry is the same for
all runs that are given the same codes in any order, number and spelling. -/
theorem exclude_distinctCodes (hcodes : ∀ c ∈ codes, IsCodeText c) (h : o.Gives w codes minimum) :
    ∃ s, o.selected w = .ok s ∧ s.exclude = distinctCodes codes ∧ s.minimum = o.minimum.or minimum ∧
      (∀ again, (∀ c ∈ again, c ∈ codes ∨ c ∈ s.exclude) → merge s again = s) ∧
      ∀ (others : List String) (o' : Options) (w' : Workspace) (minimum' : Option Severity),
        (∀ c ∈ others, IsCodeText c) → SameCodes codes others → o'.Gives w' others minimum' →
          ∃ s', o'.selected w' = .ok s' ∧
            ∀ m, Registry.ofSelection ⟨s'.exclude, m⟩ = Registry.ofSelection ⟨s.exclude, m⟩ := by
  refine ⟨_, selected_of_gives (comma_not_mem hcodes) h, rfl, rfl, fun again hagain => ?_,
    fun others o' w' minimum' hothers hsame hgives => ?_⟩
  · refine merge_of_known fun c hc => ?_
    rcases hagain c hc with hc | hc
    · by_cases hb : normalCode c = ""
      · exact .inl hb
      · exact .inr (mem_distinctCodes.2 ⟨hb, c, hc, rfl⟩)
    · obtain ⟨-, d, hd, rfl⟩ := mem_distinctCodes.1 hc
      rw [normalCode_normalCode fun x hx => (hcodes d hd x hx).1]
      exact .inr hc
  · exact ⟨_, selected_of_gives (comma_not_mem hothers) hgives,
      fun m => ofSelection_congr (fun _ => hsame.mem_distinctCodes_iff.symm) m⟩

/-- A list in the settings and two options give five codes, three of them distinct.  A run without settings is given the
same ones in one option. -/
theorem exclude_distinctCodes_shared :
    ∃ (w w' : Workspace) (words words' : List String) (o o' : Options) (s s' : Selection),
      w = ⟨.directory [("s.yml", .file "exclude: [aws002, ' GEN003 ']\nminimum_severity: error\n".toUTF8)], "/work", [],
        []⟩ ∧ w' = ⟨.directory [], "/work", [], []⟩ ∧
      words = ["-c", "s.yml", "-e", "AWS002,aws017", "--exclude=gen003"] ∧ words' = ["-e", "Gen003, aws017 ,AWS002"] ∧
      Options.parse .current words = .ok o ∧ Options.parse .current words' = .ok o' ∧
      o.selected w = .ok s ∧ o'.selected w' = .ok s' ∧
      s.exclude = ["AWS002", "GEN003", "AWS017"] ∧ s.minimum = some .error ∧ merge s ["aws017", "GEN003"] = s ∧
      Registry.ofSelection ⟨s'.exclude, none⟩ = Registry.ofSelection ⟨s.exclude, none⟩ := by
  let w : Workspace := ⟨.directory [("s.yml", .file
    "exclude: [aws002, ' GEN003 ']\nminimum_severity: error\n".toUTF8)], "/work", [], []⟩
  let w' : Workspace := ⟨.directory [], "/work", [], []⟩
  let o : Options := { Options.initial with config := some "s.yml", exclude := [some "AWS002,aws017", some "gen003"] }
  let o' : Options := { Options.initial with exclude := [some "Gen003, aws017 ,AWS002"] }
  let entries : List (Yaml.Scalar × Yaml.Value) :=
    [(.text "exclude", .list [.scalar (.text "aws002"), .scalar (.text " GEN003 ")]),
      (.text "minimum_severity", .scalar (.text "error"))]
  let codes : List String := ["aws002", " GEN003 ", "AWS002", "aws017", "gen003"]
  let others : List String := ["Gen003", " aws017 ", "AWS002"]
  have hspecified : Specifies "s.yml" ["aws002", " GEN003 "] (some .error) (.map entries) := by
    have hkeys : unknownKeys entries = .ok [] := eq_ok_of_toOption (by decide +kernel)
    have hminimum : minimumOf "s.yml" (valueOf? entries "minimum_severity") = .ok (some .error) :=
      eq_ok_of_toOption (by decide +kernel)
    exact .mapping hkeys (.items _) hminimum
  have hgives : o.Gives w codes (some .error) := by
    have hfile : (o.settings w).outcome = .ok ⟨["AWS002", "GEN003"], some .error⟩ :=
      eq_ok_of_toOption (by decide +kernel)
    have hdata : (Config.parse "s.yml" (.map entries)).outcome = .ok ⟨["AWS002", "GEN003"], some .error⟩ :=
      eq_ok_of_toOption (by decide +kernel)
    have hoptions : o.exclude = [["AWS002", "aws017"], ["gen003"]].map fun group => some (",".intercalate group) := by
      decide +kernel
    exact .mk (hfile.trans hdata.symm) hspecified hoptions rfl rfl
  have hgives' : o'.Gives w' others none := by
    have hnone : (o'.settings w').outcome = .ok everything := eq_ok_of_toOption (by decide +kernel)
    have hoptions : o'.exclude = [others].map fun group => some (",".intercalate group) := by decide +kernel
    have hnull : (Config.parse "" (.scalar .null)).outcome = .ok everything := rfl
    exact .mk (hnone.trans hnull.symm) .nothing hoptions rfl rfl
  have hparse : Options.parse .current ["-c", "s.yml", "-e", "AWS002,aws017", "--exclude=gen003"] = .ok o :=
    eq_ok_of_toOption (by decide +kernel)
  have hparse' : Options.parse .current ["-e", "Gen003, aws017 ,AWS002"] = .ok o' :=
    eq_ok_of_toOption (by decide +kernel)
  obtain ⟨s, hs, hexclude, hminimum, hagain, hsame⟩ := exclude_distinctCodes (by decide +kernel) hgives
  obtain ⟨s', hs', hregistry⟩ := hsame others o' w' none (by decide +kernel) (by decide +kernel) hgives'
  have hthree : s.exclude = ["AWS002", "GEN003", "AWS017"] := hexclude.trans (by decide +kernel)
  refine ⟨w, w', _, _, o, o', s, s', rfl, rfl, rfl, rfl, hparse, hparse', hs, hs', hthree, hminimum, hagain _ ?_,
    hregistry none⟩
  rw [hthree]
  decide

end CommandLine

end InfraAudit
