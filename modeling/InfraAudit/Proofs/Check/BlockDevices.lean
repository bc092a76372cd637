import InfraAudit.Proofs.Check.Reporting
import InfraAudit.Proofs.Hcl.Inversion
import Mathlib.Data.List.Basic

/-!
# InfraAudit.Proofs.Check.BlockDevices — which block devices are reported

* `deviceFault?`: where a block device is at fault, if it is; `deviceFaults`: all faults of a launch configuration,
  first the absence of a root device, then those of its devices.
* `ranges_ofKind`: of the devices of one kind the check reports those at fault, in order.
* `unencryptedBlockDevice_ranges`: with a root device all faults are reported, without one only its absence.
-/

namespace InfraAudit.Check

open InfraAudit.Hcl

/-- Where a block device is at fault: at the device if it does not say whether it is encrypted, at the attribute if
that is the literal `false`. -/
def deviceFault? (device : Block) : Option SourceRange :=
  match device.attribute? "encrypted" with
  | none => some device.range
  | some a =>
    match a.value with
    | .bool false => some a.range
    | _ => none

/-- The block devices of a launch configuration, the root devices first. -/
def blockDevices (b : Block) : List Block :=
  b.blocks "root_block_device" ++ b.blocks "ebs_block_device"

/-- The faults of a launch configuration: the resource itself if it has no root device, and all devices at fault. -/
def deviceFaults (b : Block) : List SourceRange :=
  (if b.blocks "root_block_device" = [] then [b.range] else []) ++ (blockDevices b).filterMap deviceFault?

/-- The range of a finding. -/
def rangesOf (fs : List Finding) : List SourceRange :=
  fs.map (·.range)

section Devices

variable {b : Block} {p : Profile}

theorem block?_isNone_iff {kind : String} : (b.block? kind).isNone = true ↔ b.blocks kind = [] := by
  rw [Block.block?, Block.blocks, List.filter_eq_nil_iff, Option.isNone_iff_eq_none, List.find?_eq_none]

theorem isKnown_false_iff {a : Attribute} : isKnown a false = true ↔ a.value = .bool false := by
  rw [isKnown, beq_iff_eq]
  cases a.value <;> simp [Value.bool?]

/-- Of the devices of one kind those at fault are reported, each where its fault is. -/
theorem ranges_ofKind (kind message : String) :
    rangesOf ((b.blocks kind).flatMap fun device =>
      match device.attribute? "encrypted" with
      | none => [p.onBlock device message "encrypted is not set"]
      | some a => if isKnown a false then [p.onValue a message] else []) =
      (b.blocks kind).filterMap deviceFault? := by
  rw [rangesOf, List.map_flatMap, List.filterMap_eq_flatMap_toList]
  apply List.flatMap_congr
  intro device _
  unfold deviceFault?
  cases device.attribute? "encrypted" with
  | none => rfl
  | some a =>
    show List.map (·.range) (if isKnown a false then [p.onValue a message] else []) =
      Option.toList (match a.value with
        | .bool false => some a.range
        | _ => none)
    by_cases h : isKnown a false = true
    · rw [if_pos h, isKnown_false_iff.1 h]
      rfl
    · rw [if_neg h]
      split
      · next hv => exact absurd (isKnown_false_iff.2 hv) h
      · rfl

/-- What the check finds on a launch configuration. -/
theorem apply_unencryptedBlockDevice {s : Site} (hk : s.block.kind = "resource")
    (ht : s.block.typeLabel? = some "aws_launch_configuration") :
    rangesOf (unencryptedBlockDevice.apply s).kept =
      if s.block.blocks "root_block_device" = [] then [s.block.range]
      else (blockDevices s.block).filterMap deviceFault? := by
  have hres : s.block.isResource ["aws_launch_configuration"] = true := by
    simp [Block.isResource, hk, ht]
  simp only [unencryptedBlockDevice, ofResource, ofFindings, Verdict.kept, hres, block?_isNone_iff, Option.isNone_none,
    if_true]
  by_cases hroot : s.block.blocks "root_block_device" = []
  · rw [if_pos hroot, if_pos hroot]
    rfl
  · rw [if_neg hroot, if_neg hroot, blockDevices, List.filterMap_append]
    simp only [deviceKinds, List.flatMap_cons, List.flatMap_nil, List.append_nil]
    rw [rangesOf, List.map_append]
    exact congrArg₂ (· ++ ·) (ranges_ofKind _ _) (ranges_ofKind _ _)

end Devices

/-- On a launch configuration the check does not fail, and with a root device it reports all faults: every device whose
`encrypted` is missing or false, and no other one.  Without a root device it stops at its absence; so it reports all
faults if and only if there is a root device or no other device is at fault. -/
theorem unencryptedBlockDevice_ranges {s : Site} (hk : s.block.kind = "resource")
    (ht : s.block.typeLabel? = some "aws_launch_configuration") :
    (unencryptedBlockDevice.apply s).failure = none ∧
      (∀ f ∈ (unencryptedBlockDevice.apply s).kept, f.code = "AWS014") ∧
      ((∃ c ∈ s.block.children, c.kind = "root_block_device") →
        rangesOf (unencryptedBlockDevice.apply s).kept = deviceFaults s.block) ∧
      ((∀ c ∈ s.block.children, c.kind ≠ "root_block_device") →
        rangesOf (unencryptedBlockDevice.apply s).kept = [s.block.range]) ∧
      (rangesOf (unencryptedBlockDevice.apply s).kept = deviceFaults s.block ↔
        (∃ c ∈ s.block.children, c.kind = "root_block_device") ∨
          ∀ c ∈ s.block.children, c.kind = "ebs_block_device" → deviceFault? c = none) := by
  have happly := apply_unencryptedBlockDevice hk ht
  have hnone : s.block.blocks "root_block_device" = [] ↔ ∀ c ∈ s.block.children, c.kind ≠ "root_block_device" := by
    simp [Block.blocks, List.filter_eq_nil_iff]
  have hsome : (∃ c ∈ s.block.children, c.kind = "root_block_device") ↔ s.block.blocks "root_block_device" ≠ [] := by
    rw [Ne, hnone]
    simp
  refine ⟨rfl, fun f hf => (precise_unencryptedBlockDevice s f hf).code, ?_, ?_, ?_⟩
  · intro hroot
    rw [happly, deviceFaults, if_neg (hsome.1 hroot), if_neg (hsome.1 hroot), List.nil_append]
  · intro hroot
    rw [happly, if_pos (hnone.2 hroot)]
  · by_cases hroot : s.block.blocks "root_block_device" = []
    · -- what is reported is the absence of a root device, so no other device may be at fault
      have hdevices : blockDevices s.block = s.block.blocks "ebs_block_device" := by
        rw [blockDevices, hroot, List.nil_append]
      have hother : (s.block.blocks "ebs_block_device").filterMap deviceFault? = [] ↔
          ∀ c ∈ s.block.children, c.kind = "ebs_block_device" → deviceFault? c = none := by
        simp [Block.blocks, List.filterMap_eq_nil_iff]
      rw [happly, deviceFaults, if_pos hroot, if_pos hroot, hdevices, hsome, List.self_eq_append_right, hother]
      simp [hroot]
    · rw [happly, deviceFaults, if_neg hroot, if_neg hroot, List.nil_append]
      exact iff_of_true rfl (.inl (hsome.2 hroot))

/-- Two root devices behind another one; it is not known whether the last one is encrypted. -/
def mixedDevices : String :=
  "resource \"aws_launch_configuration\" \"lc\" \x7b
  ebs_block_device \x7b\x7d
  root_block_device \x7b
    encrypted = false
  \x7d
  root_block_device \x7b
    encrypted = e
  \x7d
\x7d"

/-- The fault of the first root device is reported, then that of the other device. -/
theorem unencryptedBlockDevice_ranges_mixed :
    ∃ d, (Document.parse "main.tf" mixedDevices).outcome = .ok d ∧ ∃ s ∈ sites d.blocks,
      s.block.kind = "resource" ∧ s.block.typeLabel? = some "aws_launch_configuration" ∧
        (rangesOf (unencryptedBlockDevice.apply s).kept).map (·.startLine) = [4, 2] := by
  obtain ⟨d, hd, s, hs, hq⟩ := exists_site_of_parse "main.tf" mixedDevices
    (fun s => s.block.kind == "resource" && s.block.typeLabel? == some "aws_launch_configuration" &&
      s.block.children.any (·.kind == "root_block_device") &&
      (deviceFaults s.block).map (·.startLine) == [4, 2]) (by decide +kernel)
  simp only [Bool.and_eq_true, beq_iff_eq, List.any_eq_true] at hq
  obtain ⟨⟨⟨hk, ht⟩, hroot⟩, hlines⟩ := hq
  obtain ⟨-, -, hall, -⟩ := unencryptedBlockDevice_ranges hk ht
  exact ⟨d, hd, s, hs, hk, ht, by rw [hall hroot, hlines]⟩

/-- A launch configuration with one device, which is no root device and not encrypted. -/
def otherDevice : String :=
  "resource \"aws_launch_configuration\" \"lc\" \x7b
  ebs_block_device \x7b
    encrypted = false
  \x7d
\x7d"

/-- Without a root device a device that is known not to be encrypted is overlooked. -/
theorem unencryptedBlockDevice_overlooks :
    ∃ d, (Document.parse "main.tf" otherDevice).outcome = .ok d ∧
      ∃ s ∈ sites d.blocks, s.block.kind = "resource" ∧ s.block.typeLabel? = some "aws_launch_configuration" ∧
        ∃ device ∈ s.block.children, device.kind = "ebs_block_device" ∧
          ∃ a, device.attribute? "encrypted" = some a ∧ a.value = .bool false ∧
            rangesOf (unencryptedBlockDevice.apply s).kept = [s.block.range] ∧ a.range ≠ s.block.range := by
  obtain ⟨d, hd, s, hs, hq⟩ := exists_site_of_parse "main.tf" otherDevice
    (fun s => s.block.kind == "resource" && s.block.typeLabel? == some "aws_launch_configuration" &&
      s.block.children.any (fun device => device.kind == "ebs_block_device" &&
        (device.attribute? "encrypted").any fun a => isKnown a false && a.range != s.block.range) &&
      rangesOf (unencryptedBlockDevice.apply s).kept == [s.block.range]) (by decide +kernel)
  simp only [Bool.and_eq_true, beq_iff_eq, bne_iff_ne, List.any_eq_true, Option.any_eq_true] at hq
  obtain ⟨⟨⟨hk, ht⟩, device, hdevice, hkind, a, ha, hfalse, hne⟩, hranges⟩ := hq
  exact ⟨d, hd, s, hs, hk, ht, device, hdevice, hkind, a, ha, isKnown_false_iff.1 hfalse, hranges, hne⟩

end InfraAudit.Check
