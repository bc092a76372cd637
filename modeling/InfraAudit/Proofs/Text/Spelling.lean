import InfraAudit.Proofs.Hcl.Resolution
import InfraAudit.Text.Case
import Mathlib.Data.List.Basic

/-!
# InfraAudit.Proofs.Text.Spelling — trimmed texts, and basic Latin texts in upper case

* `trim_trim`: what is trimmed stays as it is; `exists_trim_eq`: what trimming leaves is in one piece.
* `upper_eq_of_map_toLower`: upper case is the same for texts that differ in the case of basic Latin letters.
* `upper_latin`, `trim_isBlank_map_toUpper`: a basic Latin text in upper case, character by character, and trimmed.
-/

namespace InfraAudit.Text

/-! ### Trimmed lists -/

section Trim

variable {α : Type} {p : α → Bool} {s : List α} {c : α}

theorem not_of_mem_head?_trim (h : c ∈ (trim p s).head?) : p c = false := by
  rw [trim, trimStart] at h
  cases hd : s.dropWhile p with
  | nil => simp [hd, trimEnd] at h
  | cons x r =>
    have hx : p x = false := by
      have hfirst := List.head?_dropWhile_not p s
      rwa [hd] at hfirst
    have hkeep : trimEnd p ([] ++ x :: r) = [] ++ x :: trimEnd p r := Hcl.Expression.trimEnd_append_cons hx [] r
    rw [hd, ← List.nil_append (x :: r), hkeep] at h
    obtain rfl : x = c := by simpa using h
    exact hx

theorem not_of_mem_getLast?_trim (h : c ∈ (trim p s).getLast?) : p c = false := by
  rw [trim, trimEnd, List.getLast?_reverse] at h
  have hlast := List.head?_dropWhile_not p (trimStart p s).reverse
  rwa [Option.mem_def.1 h] at hlast

theorem trim_trim (p : α → Bool) (s : List α) : trim p (trim p s) = trim p s :=
  Hcl.Expression.trim_eq_self (fun _ hc => not_of_mem_head?_trim hc) fun _ hc => not_of_mem_getLast?_trim hc

theorem exists_trim_eq (p : α → Bool) (s : List α) : ∃ lead trail, s = lead ++ (trim p s ++ trail) := by
  have hstart : s.takeWhile p ++ trimStart p s = s := List.takeWhile_append_dropWhile
  have hend : trim p s ++ ((trimStart p s).reverse.takeWhile p).reverse = trimStart p s := by
    rw [trim, trimEnd, ← List.reverse_append, List.takeWhile_append_dropWhile, List.reverse_reverse]
  exact ⟨_, _, by rw [hend, hstart]⟩

end Trim

/-! ### Upper case -/

section Case

variable {c : Char} {s t : String}

/-- The two cases of the first 128 characters: both are among these, and upper case is what it is of either; no white
space comes or goes with them. -/
theorem latin_case (h : c.toNat < 128) :
    c.toUpper.toNat < 128 ∧ c.toLower.toNat < 128 ∧ c.toUpper.toUpper = c.toUpper ∧
      c.toLower.toUpper = c.toUpper ∧ isBlank c.toUpper = isBlank c := by
  have hall : ∀ n < 128, (Char.ofNat n).toUpper.toNat < 128 ∧ (Char.ofNat n).toLower.toNat < 128 ∧
      (Char.ofNat n).toUpper.toUpper = (Char.ofNat n).toUpper ∧
      (Char.ofNat n).toLower.toUpper = (Char.ofNat n).toUpper ∧
      isBlank (Char.ofNat n).toUpper = isBlank (Char.ofNat n) := by decide +kernel
  simpa only [Char.ofNat_toNat] using hall c.toNat h

theorem toLower_of_not_latin (h : 128 ≤ c.toNat) : c.toLower = c := by
  unfold Char.toLower
  split
  · next hupper =>
    have hle : c.toNat ≤ 90 := UInt32.le_iff_toNat_le.1 hupper.2
    omega
  · rfl

theorem upperChar_latin (h : c.toNat < 128) : upperChar c = [c.toUpper] := by
  simp [upperChar, h]

/-- Lower case is lost in upper case: only basic Latin letters are lowered, and they have one upper-case form. -/
theorem upperChar_toLower (c : Char) : upperChar c.toLower = upperChar c := by
  rcases Nat.lt_or_ge c.toNat 128 with h | h
  · obtain ⟨-, hlower, -, hsame, -⟩ := latin_case h
    rw [upperChar_latin h, upperChar_latin hlower, hsame]
  · rw [toLower_of_not_latin h]

theorem upper_eq_of_map_toLower (h : s.toList.map Char.toLower = t.toList.map Char.toLower) : upper s = upper t := by
  have hchars (s : String) : s.toList.flatMap upperChar = (s.toList.map Char.toLower).flatMap upperChar := by
    rw [List.flatMap_map]
    exact List.flatMap_congr fun c _ => (upperChar_toLower c).symm
  rw [upper, upper, hchars s, hchars t, h]

theorem upper_latin (h : ∀ c ∈ s.toList, c.toNat < 128) : upper s = String.ofList (s.toList.map Char.toUpper) := by
  have hchars : s.toList.flatMap upperChar = s.toList.map Char.toUpper := by
    rw [List.map_eq_flatMap]
    exact List.flatMap_congr fun c hc => upperChar_latin (h c hc)
  rw [upper, hchars]

theorem toList_strip (s : String) : (strip s).toList = trim isBlank s.toList :=
  String.toList_ofList

theorem trim_isBlank_map_toUpper {l : List Char} (h : ∀ c ∈ l, c.toNat < 128) :
    trim isBlank ((trim isBlank l).map Char.toUpper) = (trim isBlank l).map Char.toUpper := by
  have hblank {c d : Char} (hc : c ∈ trim isBlank l) (hd : c.toUpper = d) (hn : isBlank c = false) :
      isBlank d = false := by
    obtain ⟨-, -, -, -, hsame⟩ := latin_case (h c ((Hcl.Expression.trim_sublist isBlank l).mem hc))
    rw [← hd, hsame, hn]
  refine Hcl.Expression.trim_eq_self (fun d hd => ?_) fun d hd => ?_
  · rw [List.head?_map] at hd
    obtain ⟨c, hc, hcd⟩ := Option.map_eq_some_iff.1 hd
    exact hblank (List.mem_of_head? hc) hcd (not_of_mem_head?_trim hc)
  · rw [List.getLast?_map] at hd
    obtain ⟨c, hc, hcd⟩ := Option.map_eq_some_iff.1 hd
    exact hblank (List.mem_of_getLast? hc) hcd (not_of_mem_getLast?_trim hc)

end Case

end InfraAudit.Text
