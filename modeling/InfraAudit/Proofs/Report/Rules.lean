import InfraAudit.Proofs.Hcl.Composition
import InfraAudit.Report.Sarif
import Mathlib.Data.List.Nodup

/-!
# InfraAudit.Proofs.Report.Rules — results refer to their rules

* `RuleTable.Indexed`: every index leads to a rule with its code, and every rule is found by its code.  Both ways of
  adding to a table keep this: `Indexed.addCheck`, `Indexed.addFinding`.
* `RuleTable.Extends`: what adding findings does to the rules that are there.
* `Json.field?`, `Sarif.rules?`, `Sarif.results?`: the parts of a log, read from the log as it is.
* `Sarif.log_refers`: each result in the log has an index of a rule with its code; the checks come first among the
  rules, no code is missing, and none is there twice unless two checks share it.
-/

namespace InfraAudit

namespace Report

namespace RuleTable

variable {t u : RuleTable} {f : Finding} {r : Rule}

/-- The codes of the rules. -/
def codes (t : RuleTable) : List String :=
  t.rules.map (·.code)

/-- Every index leads to a rule with its code, and every rule is found by its code. -/
structure Indexed (t : RuleTable) : Prop where
  exists_rule : ∀ {code : String} {k : ℕ}, t.indices.lookup code = some k → ∃ r, t.rules[k]? = some r ∧ r.code = code
  exists_index : ∀ {code : String}, code ∈ t.codes → ∃ k, t.indices.lookup code = some k

theorem Indexed.lookup_isSome_iff (h : t.Indexed) {code : String} :
    (t.indices.lookup code).isSome = true ↔ code ∈ t.codes := by
  rw [Option.isSome_iff_exists]
  constructor
  · rintro ⟨k, hk⟩
    obtain ⟨r, hr, rfl⟩ := h.exists_rule hk
    exact List.mem_map_of_mem (List.mem_of_getElem? hr)
  · exact h.exists_index

/-- The index of a code in the table is that of a rule with this code. -/
theorem Indexed.exists_rule_index (h : t.Indexed) {code : String} (hc : code ∈ t.codes) :
    ∃ r, t.rules[t.index code]? = some r ∧ r.code = code := by
  obtain ⟨k, hk⟩ := h.exists_index hc
  obtain ⟨r, hr, hcode⟩ := h.exists_rule hk
  refine ⟨r, ?_, hcode⟩
  rw [index, hk, Option.getD_some, hr]

/-! ### One more rule -/

theorem indexed_empty : empty.Indexed where
  exists_rule h := nomatch h
  exists_index h := nomatch h

theorem rules_add : (t.add r).rules = t.rules ++ [r] := rfl

theorem codes_add : (t.add r).codes = t.codes ++ [r.code] := by
  rw [codes, rules_add, List.map_append, List.map_singleton, codes]

theorem lookup_add (code : String) :
    (t.add r).indices.lookup code = if code == r.code then some t.rules.length else t.indices.lookup code :=
  Keyed.lookup_put code

/-- From now on the code leads to the new rule; all others lead where they led. -/
theorem Indexed.add (h : t.Indexed) (r : Rule) : (t.add r).Indexed where
  exists_rule {code k} hk := by
    rw [lookup_add] at hk
    rw [rules_add]
    split at hk
    · next hcode =>
      obtain rfl := Option.some.inj hk
      exact ⟨r, List.getElem?_concat_length, (eq_of_beq hcode).symm⟩
    · obtain ⟨old, hold, hcode⟩ := h.exists_rule hk
      have hlt : k < t.rules.length := (List.getElem?_eq_some_iff.1 hold).1
      exact ⟨old, by rw [List.getElem?_append_left hlt, hold], hcode⟩
  exists_index {code} hcode := by
    rw [lookup_add]
    split
    · exact ⟨_, rfl⟩
    · next hne =>
      rw [codes_add, List.mem_append, List.mem_singleton] at hcode
      exact h.exists_index (hcode.resolve_right fun heq => hne (beq_iff_eq.2 heq))

/-- Of two rules with one code, the code leads to the later one. -/
example : (((empty.add ⟨"A", "", .error, ""⟩).add ⟨"B", "", .error, ""⟩).add ⟨"A", "", .info, ""⟩).index "A" = 2 := rfl

/-- The rule of a check. -/
def ofCheck (p : Profile) : Rule :=
  ⟨p.code, p.description, p.severity, p.provider⟩

theorem Indexed.addCheck (h : t.Indexed) (p : Profile) : (t.addCheck p).Indexed :=
  h.add (ofCheck p)

theorem rules_foldl_addCheck (checks : List Profile) (t : RuleTable) :
    (checks.foldl addCheck t).rules = t.rules ++ checks.map ofCheck := by
  induction checks generalizing t with
  | nil => rw [List.foldl_nil, List.map_nil, List.append_nil]
  | cons p checks ih =>
    have hp : (t.addCheck p).rules = t.rules ++ [ofCheck p] := rfl
    rw [List.foldl_cons, ih, hp, List.append_assoc, List.singleton_append, List.map_cons]

theorem Indexed.foldl_addCheck (h : t.Indexed) (checks : List Profile) :
    (checks.foldl RuleTable.addCheck t).Indexed := by
  induction checks generalizing t with
  | nil => exact h
  | cons p checks ih => exact ih (h.addCheck p)

/-! ### One more finding -/

/-- A table with more rules: those that were there stand first, and distinct codes stay distinct. -/
structure Extends (t u : RuleTable) : Prop where
  rules_prefix : t.rules <+: u.rules
  nodup : t.codes.Nodup → u.codes.Nodup

theorem Extends.refl (t : RuleTable) : t.Extends t :=
  ⟨List.prefix_refl _, id⟩

theorem Extends.trans {v : RuleTable} (h : t.Extends u) (h' : u.Extends v) : t.Extends v :=
  ⟨h.rules_prefix.trans h'.rules_prefix, h'.nodup ∘ h.nodup⟩

theorem Extends.mem_codes (h : t.Extends u) {code : String} (hc : code ∈ t.codes) : code ∈ u.codes :=
  (h.rules_prefix.map _).subset hc

theorem extends_add (h : r.code ∉ t.codes) : t.Extends (t.add r) where
  rules_prefix := List.prefix_append _ _
  nodup hnd := by
    rw [codes_add]
    exact List.nodup_append.2 ⟨hnd, List.nodup_singleton _, fun a ha b hb heq => h (by simp_all)⟩

/-- A finding adds a rule if and only if its code has none, and then its code has one. -/
theorem Indexed.addFinding (h : t.Indexed) (f : Finding) :
    (t.addFinding f).Indexed ∧ t.Extends (t.addFinding f) ∧ f.code ∈ (t.addFinding f).codes := by
  rw [RuleTable.addFinding]
  split
  · next hsome => exact ⟨h, .refl t, h.lookup_isSome_iff.1 hsome⟩
  · next hnone =>
    have hfresh : f.code ∉ t.codes := fun hc => hnone (h.lookup_isSome_iff.2 hc)
    refine ⟨h.add _, extends_add hfresh, ?_⟩
    rw [codes_add]
    exact List.mem_append_right _ (List.mem_singleton_self _)

theorem Indexed.foldl_addFinding (h : t.Indexed) (fs : List Finding) :
    (fs.foldl RuleTable.addFinding t).Indexed ∧ t.Extends (fs.foldl RuleTable.addFinding t) ∧
      ∀ f ∈ fs, f.code ∈ (fs.foldl RuleTable.addFinding t).codes := by
  induction fs generalizing t with
  | nil => exact ⟨h, .refl t, by simp⟩
  | cons f fs ih =>
    obtain ⟨hindexed, hextends, hcode⟩ := h.addFinding f
    obtain ⟨hindexed', hextends', hcodes⟩ := ih hindexed
    exact ⟨hindexed', hextends.trans hextends', List.forall_mem_cons.2 ⟨hextends'.mem_codes hcode, hcodes⟩⟩

/-- The table of a log: the rules of the checks stand first, and every finding has one. -/
theorem indexed_of (checks : List Profile) (fs : List Finding) :
    (RuleTable.of checks fs).Indexed ∧ checks.map ofCheck <+: (RuleTable.of checks fs).rules ∧
      (∀ f ∈ fs, f.code ∈ (RuleTable.of checks fs).codes) ∧
      ((checks.map (·.code)).Nodup → (RuleTable.of checks fs).codes.Nodup) := by
  have hrules : (checks.foldl addCheck empty).rules = checks.map ofCheck :=
    (rules_foldl_addCheck checks empty).trans (List.nil_append _)
  have hcodes : (checks.foldl addCheck empty).codes = checks.map (·.code) := by
    rw [codes, hrules, List.map_map]
    rfl
  obtain ⟨hindexed, hextends, hmem⟩ := (indexed_empty.foldl_addCheck checks).foldl_addFinding fs
  exact ⟨hindexed, hrules ▸ hextends.rules_prefix, hmem, hcodes ▸ hextends.nodup⟩

end RuleTable

end Report

/-! ### The log as it is read -/

namespace Json

/-- The value of a field of an object. -/
def field? (name : String) : Json → Option Json
  | .object fields => fields.lookup name
  | _ => none

/-- The items of an array. -/
def items? : Json → Option (List Json)
  | .array items => some items
  | _ => none

/-- The value behind some fields, each inside of the one before. -/
def path? (names : List String) (x : Json) : Option Json :=
  names.foldlM (fun x name => x.field? name) x

end Json

namespace Report.Sarif

/-- The run of a log: a log has one. -/
def run? (log : Json) : Option Json :=
  match (log.field? "runs").bind Json.items? with
  | some [run] => some run
  | _ => none

/-- The rules of a log. -/
def rules? (log : Json) : Option (List Json) :=
  ((run? log).bind (Json.path? ["tool", "driver", "rules"])).bind Json.items?

/-- The results of a log. -/
def results? (log : Json) : Option (List Json) :=
  ((run? log).bind (Json.field? "results")).bind Json.items?

/-- The result is that of the finding, and refers to a rule with its code. -/
structure Refers (rules : List Json) (f : Finding) (result : Json) : Prop where
  ruleId : result.field? "ruleId" = some (.string f.code)
  text : result.path? ["message", "text"] = some (.string f.description)
  ruleIndex : ∃ (k : ℕ) (rule : Json), result.field? "ruleIndex" = some (.integer k) ∧ rules[k]? = some rule ∧
    rule.field? "id" = some (.string f.code)

theorem rules?_log (checks : List Profile) (version base time : String) (fs : List Finding) :
    rules? (log checks version base time fs) = some ((RuleTable.of checks fs).rules.map ruleJson) := rfl

theorem results?_log (checks : List Profile) (version base time : String) (fs : List Finding) :
    results? (log checks version base time fs) = some (fs.map (resultJson base (RuleTable.of checks fs))) := rfl

theorem id_ruleJson (r : Rule) : (ruleJson r).field? "id" = some (.string r.code) := rfl

theorem refers_resultJson {t : RuleTable} {f : Finding} (base : String) (ht : t.Indexed) (hf : f.code ∈ t.codes) :
    Refers (t.rules.map ruleJson) f (resultJson base t f) where
  ruleId := rfl
  text := rfl
  ruleIndex := by
    obtain ⟨r, hr, hcode⟩ := ht.exists_rule_index hf
    refine ⟨t.index f.code, ruleJson r, rfl, ?_, by rw [id_ruleJson, hcode]⟩
    rw [List.getElem?_map, hr, Option.map_some]

/-- A log has a result for each finding, in the same order, with the code of the finding and the index of a rule that
has this code.  The rules start with those of the checks, in the same order; every code of a check or of a finding is
that of a rule; and if the codes of the checks are distinct, those of the rules are. -/
theorem log_refers (checks : List Profile) (version base time : String) (fs : List Finding) :
    ∃ (rules results : List Json) (codes : List String),
      rules? (log checks version base time fs) = some rules ∧
      results? (log checks version base time fs) = some results ∧
      List.Forall₂ (Refers rules) fs results ∧
      rules.map (Json.field? "id") = codes.map (some ∘ Json.string) ∧
      checks.map (fun p => ruleJson ⟨p.code, p.description, p.severity, p.provider⟩) <+: rules ∧
      checks.map (·.code) <+: codes ∧ (∀ f ∈ fs, f.code ∈ codes) ∧
      ((checks.map (·.code)).Nodup → codes.Nodup) := by
  obtain ⟨hindexed, hprefix, hmem, hnodup⟩ := RuleTable.indexed_of checks fs
  refine ⟨_, _, (RuleTable.of checks fs).codes, rules?_log .., results?_log .., ?_, ?_, ?_, ?_, hmem, hnodup⟩
  · rw [List.forall₂_map_right_iff, List.forall₂_same]
    exact fun f hf => refers_resultJson base hindexed (hmem f hf)
  · rw [RuleTable.codes, List.map_map, List.map_map]
    exact List.map_congr_left fun r _ => id_ruleJson r
  · have h := hprefix.map ruleJson
    rwa [List.map_map] at h
  · have h := hprefix.map (·.code)
    rwa [List.map_map] at h

end Report.Sarif

end InfraAudit
