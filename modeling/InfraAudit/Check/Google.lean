import InfraAudit.Check.Basic
import InfraAudit.Check.Names

/-!
# InfraAudit.Check.Google — checks of Google Cloud resources
-/

namespace InfraAudit.Check

open InfraAudit.Hcl

/-- Disks without a key of the customer. -/
def unencryptedComputeDisk : Check :=
  let p : Profile := ⟨"GCP001", "UnencryptedComputeDisk", "Compute disk has no customer supplied encryption key.",
    .warning, "google"⟩
  ofResource p ["google_compute_disk"] fun b =>
    if (b.block? "disk_encryption_key").isNone then
      [p.onBlock b (s!"Resource '{b.fullName}' defines an unencrypted disk. " ++
        "Specify a customer supplied disk_encryption_key.") ""]
    else []

/-- Buckets without uniform access; older configurations use another name for it. -/
def uniformBucketAccess : Check :=
  let p : Profile := ⟨"GCP002", "UniformBucketLevelAccess", "Storage bucket without uniform bucket level access.",
    .warning, "google"⟩
  ofResource p ["google_storage_bucket"] fun b =>
    let message := s!"Resource '{b.fullName}' does not enable uniform bucket level access."
    match b.attribute? "uniform_bucket_level_access" with
    | none =>
      if (b.attribute? "bucket_policy_only").any fun a => !isKnown a false then []
      else [p.onBlock b message "uniform_bucket_level_access is not set"]
    | some a => if isKnown a false then [p.onValue a message] else []

/-- Firewalls that let everybody in. -/
def openIngressFirewall : Check :=
  let p : Profile := ⟨"GCP003", "OpenIngressFirewall", "Firewall allows ingress from the public internet.",
    .warning, "google"⟩
  ofResource p ["google_compute_firewall"] fun b =>
    if (b.attribute? "direction").all (·.value.equals (.string "INGRESS")) && (b.block? "allow").isSome then
      ((b.attribute? "source_ranges").bind fun a => (firstText? a isPublicCidr).map fun cidr =>
        p.onAttribute a s!"Resource '{b.fullName}' defines a fully open ingress firewall rule."
          (doubleQuoted cidr)).toList
    else []

/-- The members that stand for everybody. -/
def publicMembers : List String := ["allUsers", "allAuthenticatedUsers"]

/-- Grants of bucket access to everybody. -/
def publicBucketGrant : Check :=
  let p : Profile := ⟨"GCP004", "PublicBucketIAM",
    "Storage bucket IAM grants access to allUsers or allAuthenticatedUsers.", .error, "google"⟩
  ofResource p ["google_storage_bucket_iam_binding", "google_storage_bucket_iam_member"] fun b =>
    let name := if b.typeLabel? = some "google_storage_bucket_iam_binding" then "members" else "member"
    ((b.attribute? name).bind fun a => (firstText? a publicMembers.contains).map fun member =>
      p.onAttribute a s!"Resource '{b.fullName}' grants bucket access to {member}." (doubleQuoted member)).toList

end InfraAudit.Check
