import InfraAudit.Check.Aws
import InfraAudit.Check.Azure
import InfraAudit.Check.General
import InfraAudit.Check.Google
import InfraAudit.Text.Blank
import InfraAudit.Text.Case
import InfraAudit.Warning

/-!
# InfraAudit.Check.Registry — which checks run

* `Registry`: checks with distinct codes, in order of registration.
* `Registry.register`: one more check.
* `builtins`: the built-in checks; `Registry.ofSelection` registers those that a selection keeps.
-/

namespace InfraAudit

open InfraAudit.Text

/-- Checks with distinct codes, in order of registration. -/
structure Registry where
  checks : List Check
  codes_nodup : (checks.map (·.code)).Nodup

/-- Why a check cannot be registered. -/
inductive RegistryError
  | noCode (name : String)
  | duplicate (code : String)
  deriving DecidableEq

/-- What is said about a check that cannot be registered. -/
def RegistryError.message : RegistryError → String
  | .noCode name => s!"{name} has no code"
  | .duplicate code => s!"Check {code} is already registered"

namespace Registry

/-- No checks. -/
def empty : Registry := ⟨[], List.nodup_nil⟩

/-- The codes, in order of registration. -/
def codes (r : Registry) : List String :=
  r.checks.map (·.code)

/-- The check with the given code. -/
def get? (r : Registry) (code : String) : Option Check :=
  r.checks.find? (·.code == code)

/-- The registry with one more check. -/
def register (r : Registry) (c : Check) : Except RegistryError Registry :=
  if c.code = "" then .error (.noCode c.name)
  else if h : c.code ∈ r.checks.map (·.code) then .error (.duplicate c.code)
  else .ok ⟨r.checks ++ [c], by
    rw [List.map_append]
    refine List.nodup_append.2 ⟨r.codes_nodup, by simp, ?_⟩
    intro a ha b hb
    rw [List.map_singleton, List.mem_singleton] at hb
    rintro rfl
    exact h (hb ▸ ha)⟩

/-- The registry of the given checks. -/
def ofChecks (cs : List Check) : Except RegistryError Registry :=
  cs.foldlM register empty

end Registry

/-! ### Built-in checks -/

open Check in
/-- The built-in checks, in the order in which they report. -/
def builtins : List Check :=
  [bucketPublicAcl, bucketLogging, classicSecurityGroup, plainHttpListener, publicLoadBalancer,
   securityGroupRuleIngress, securityGroupRuleEgress, securityGroupIngress, securityGroupEgress,
   outdatedSslPolicy, publicDatabase, publicAddress, unencryptedBlockDevice, unencryptedQueue, unencryptedTopic,
   unencryptedBucket, missingDescription, unencryptedManagedDisk, openInboundRule, unencryptedDataLake,
   publicBlobAccess, storageHttpsOnly, unencryptedComputeDisk, uniformBucketAccess, openIngressFirewall,
   publicBucketGrant, sensitiveVariableDefault, sensitiveLocal, sensitiveAttribute]

theorem builtins_codes_nodup : (builtins.map (·.code)).Nodup := by decide

/-- A code as it is compared: without white space around it and in upper case. -/
def normalCode (code : String) : String :=
  upper (strip code)

/-- Which built-in checks to run: all but the excluded ones, of at least the given severity. -/
structure Selection where
  exclude : List String
  minimum : Option Severity
  deriving DecidableEq

namespace Selection

/-- The excluded codes in their normal form; blank ones mean nothing. -/
def excluded (s : Selection) : List String :=
  (s.exclude.filter fun c => strip c ≠ "").map normalCode

/-- Whether the selection keeps a check. -/
def keeps (s : Selection) (c : Check) : Bool :=
  !s.excluded.contains c.code && s.minimum.all fun m => m.priority ≤ c.severity.priority

/-- A warning for each excluded code that no built-in check has, in order of the codes. -/
def warnings (s : Selection) : List Warning :=
  let unknown := s.excluded.eraseDups.filter fun code => !(builtins.map (·.code)).contains code
  (unknown.mergeSort fun a b => a ≤ b).map .unknownCheck

end Selection

/-- The registry of the built-in checks that a selection keeps. -/
def Registry.ofSelection (s : Selection) : Registry :=
  ⟨builtins.filter s.keeps, builtins_codes_nodup.sublist (List.filter_sublist.map _)⟩

end InfraAudit
