import InfraAudit.Check.Basic
import InfraAudit.Check.Names

/-!
# InfraAudit.Check.Aws — checks of AWS resources

Each check reads the attributes it cares about through the accessors of values, which give nothing for what is not
known, and reports the attribute at fault, or the whole block when something is missing.
-/

namespace InfraAudit.Check

open InfraAudit.Hcl InfraAudit.Text

/-- The load balancer listeners. -/
def listenerTypes : List String := ["aws_lb_listener", "aws_alb_listener"]

/-- The attributes that hold address ranges. -/
def cidrAttributes : List String := ["cidr_blocks", "ipv6_cidr_blocks"]

/-- The attributes that hold address ranges and the first public one in each. -/
def publicCidrs (b : Block) : List (Attribute × String) :=
  cidrAttributes.filterMap fun name => do
    let a ← b.attribute? name
    let cidr ← firstText? a isPublicCidr
    return (a, cidr)

/-! ### Storage buckets -/

/-- The access control lists that let everybody read. -/
def publicAcls : List String := ["public-read", "public-read-write", "website", "authenticated-read"]

/-- Buckets with a public access control list. -/
def bucketPublicAcl : Check :=
  let p : Profile := ⟨"AWS001", "S3BucketPublicACL",
    "S3 Bucket has an ACL defined which allows public access.", .warning, "aws"⟩
  ofResource p ["aws_s3_bucket", "aws_s3_bucket_acl"] fun b =>
    (b.attribute? "acl").toList.flatMap fun acl =>
      if acl.value.string?.any fun s => publicAcls.contains (lowerLatin s) then
        [p.onValue acl s!"Resource '{b.fullName}' has an ACL which allows public access."]
      else []

/-- Buckets without logging. -/
def bucketLogging : Check :=
  let p : Profile := ⟨"AWS002", "S3BucketLogging", "S3 Bucket does not have logging enabled.", .error, "aws"⟩
  ofResource p ["aws_s3_bucket"] fun b =>
    if (b.block? "logging").isNone then
      [p.onBlock b s!"Resource '{b.fullName}' does not have logging enabled." ""]
    else []

/-- Buckets without encryption. -/
def unencryptedBucket : Check :=
  let p : Profile := ⟨"AWS017", "UnencryptedS3Bucket", "Unencrypted S3 bucket.", .error, "aws"⟩
  ofResource p ["aws_s3_bucket"] fun b =>
    if (b.block? "server_side_encryption_configuration").isNone then
      [p.onBlock b s!"Resource '{b.fullName}' defines an unencrypted S3 bucket." ""]
    else []

/-! ### Security groups -/

/-- Resources of the classic network. -/
def classicSecurityGroup : Check :=
  let p : Profile := ⟨"AWS003", "ClassicSecurityGroup", "AWS Classic resource usage.", .error, "aws"⟩
  ofResource p ["aws_db_security_group", "aws_redshift_security_group", "aws_elasticache_security_group"] fun b =>
    [p.onBlock b s!"Resource '{b.fullName}' uses EC2 Classic. Use a VPC instead." ""]

/-- Rules of the given direction that are open to everybody. -/
def openRule (p : Profile) (direction : String) : Check :=
  ofResource p ["aws_security_group_rule"] fun b =>
    if (b.attribute? "type").any (·.value.equals (.string direction)) then
      (publicCidrs b).map fun (a, cidr) =>
        p.onAttribute a s!"Resource '{b.fullName}' defines a fully open {direction} security group rule."
          (doubleQuoted cidr)
    else []

/-- Ingress rules that are open to everybody. -/
def securityGroupRuleIngress : Check :=
  openRule ⟨"AWS006", "SecurityGroupRuleIngress", "An ingress security group rule allows traffic from /0.",
    .warning, "aws"⟩ "ingress"

/-- Egress rules that are open to everybody. -/
def securityGroupRuleEgress : Check :=
  openRule ⟨"AWS007", "SecurityGroupRuleEgress", "An egress security group rule allows traffic to /0.",
    .warning, "aws"⟩ "egress"

/-- Rules inside a group, of the given direction, that are open to everybody. -/
def openInlineRule (p : Profile) (direction : String) : Check :=
  ofResource p ["aws_security_group"] fun b =>
    (b.blocks direction).flatMap fun rule =>
      (publicCidrs rule).map fun (a, cidr) =>
        p.onAttribute a s!"Resource '{b.fullName}' defines a fully open {direction} security group."
          (doubleQuoted cidr)

/-- Ingress rules inside a group that are open to everybody. -/
def securityGroupIngress : Check :=
  openInlineRule ⟨"AWS008", "SecurityGroupIngress",
    "An inline ingress security group rule allows traffic from /0.", .warning, "aws"⟩ "ingress"

/-- Egress rules inside a group that are open to everybody. -/
def securityGroupEgress : Check :=
  openInlineRule ⟨"AWS009", "SecurityGroupEgress",
    "An inline egress security group rule allows traffic to /0.", .warning, "aws"⟩ "egress"

/-- Groups and rules without a description. -/
def missingDescription : Check :=
  let p : Profile := ⟨"AWS018", "MissingSecurityGroupDescription",
    "Missing description for security group/security group rule.", .warning, "aws"⟩
  ofResource p ["aws_security_group", "aws_security_group_rule"] fun b =>
    let message := s!"Resource '{b.fullName}' should include a description for auditing purposes."
    match b.attribute? "description" with
    | none => [p.onBlock b message ""]
    | some a => if a.value.string? = some "" then [p.onValue a message] else []

/-! ### Load balancers -/

/-- Whether a listener redirects; an action of unknown type counts as a redirect. -/
def redirects (b : Block) : Bool :=
  (b.blocks "default_action").any fun action =>
    (action.attribute? "type").any fun a => a.value.string?.all fun s => lowerLatin s = "redirect"

/-- Listeners that use plain HTTP. -/
def plainHttpListener : Check :=
  let p : Profile := ⟨"AWS004", "PlainHTTPListener", "Use of plain HTTP.", .error, "aws"⟩
  ofResource p listenerTypes fun b =>
    let message := s!"Resource '{b.fullName}' uses plain HTTP instead of HTTPS."
    match b.attribute? "protocol" with
    | none => if redirects b then [] else [p.onBlock b message "protocol defaults to HTTP"]
    | some protocol =>
      if (protocol.value.string?.any fun s => upper s = "HTTP") && !redirects b then [p.onValue protocol message]
      else []

/-- Load balancers that face the internet. -/
def publicLoadBalancer : Check :=
  let p : Profile := ⟨"AWS005", "PublicLoadBalancer", "Load balancer is exposed to the internet.", .warning, "aws"⟩
  ofResource p ["aws_alb", "aws_elb", "aws_lb"] fun b =>
    let message := s!"Resource '{b.fullName}' is exposed publicly."
    match b.attribute? "internal" with
    | none => [p.onBlock b message "internal is not set"]
    | some a => if isKnown a false then [p.onValue a message] else []

/-- The outdated policies. -/
def outdatedPolicies : List String :=
  ["ELBSecurityPolicy-2015-05", "ELBSecurityPolicy-2016-08", "ELBSecurityPolicy-TLS-1-0-2015-04",
   "ELBSecurityPolicy-TLS-1-1-2017-01"]

/-- Listeners with an outdated policy. -/
def outdatedSslPolicy : Check :=
  let p : Profile := ⟨"AWS010", "OutdatedSSLPolicy", "An outdated SSL policy is in use by a load balancer.",
    .error, "aws"⟩
  ofResource p listenerTypes fun b =>
    (b.attribute? "ssl_policy").toList.flatMap fun a =>
      if a.value.string?.any outdatedPolicies.contains then
        [p.onValue a s!"Resource '{b.fullName}' is using an outdated SSL policy."]
      else []

/-! ### Databases and instances -/

/-- Attributes that are known to be true and must not be. -/
def forbiddenTrue (p : Profile) (types : List String) (name complaint : String) : Check :=
  ofResource p types fun b =>
    (b.attribute? name).toList.flatMap fun a =>
      if isKnown a true then [p.onValue a s!"Resource '{b.fullName}' {complaint}"] else []

/-- Databases that are publicly accessible. -/
def publicDatabase : Check :=
  forbiddenTrue ⟨"AWS011", "PubliclyAccessibleDatabase", "A database resource is marked as publicly accessible.",
      .error, "aws"⟩
    ["aws_db_instance", "aws_dms_replication_instance", "aws_rds_cluster_instance", "aws_redshift_cluster"]
    "publicly_accessible" "is exposed publicly."

/-- Instances with a public address. -/
def publicAddress : Check :=
  forbiddenTrue ⟨"AWS012", "PublicIPAddress", "A resource has a public IP address.", .warning, "aws"⟩
    ["aws_instance", "aws_launch_configuration"]
    "associate_public_ip_address" "has a public IP address associated."

/-- The kinds of block devices, and the words for them. -/
def deviceKinds : List (String × String) :=
  [("root_block_device", "root block device"), ("ebs_block_device", "ebs block device")]

/-- Launch configurations with block devices that are not encrypted.  Without a root device only that is said. -/
def unencryptedBlockDevice : Check :=
  let p : Profile := ⟨"AWS014", "UnencryptedBlockDevice", "Launch configuration with unencrypted block device.",
    .error, "aws"⟩
  ofResource p ["aws_launch_configuration"] fun b =>
    if (b.block? "root_block_device").isNone then
      [p.onBlock b s!"Resource '{b.fullName}' uses an unencrypted root EBS block device."
        "root_block_device is not set"]
    else deviceKinds.flatMap fun (kind, words) =>
      let message := s!"Resource '{b.fullName}' uses an unencrypted {words}."
      (b.blocks kind).flatMap fun device =>
        match device.attribute? "encrypted" with
        | none => [p.onBlock device message "encrypted is not set"]
        | some a => if isKnown a false then [p.onValue a message] else []

/-! ### Queues and topics -/

/-- Resources that are encrypted by a key only, unless something else encrypts them. -/
def unencryptedWithoutKey (p : Profile) (types : List String) (noun : String) (otherwise : Block → Bool) : Check :=
  ofResource p types fun b =>
    let message := s!"Resource '{b.fullName}' defines an unencrypted {noun}."
    match b.attribute? "kms_master_key_id" with
    | none => if otherwise b then [] else [p.onBlock b message "kms_master_key_id is not set"]
    | some a => if a.value.string? = some "" then [p.onValue a message] else []

/-- Queues without encryption; they may also be encrypted by a managed key. -/
def unencryptedQueue : Check :=
  unencryptedWithoutKey ⟨"AWS015", "UnencryptedSQSQueue", "Unencrypted SQS queue.", .error, "aws"⟩
    ["aws_sqs_queue"] "SQS queue" fun b => (b.attribute? "sqs_managed_sse_enabled").any fun a => !isKnown a false

/-- Topics without encryption. -/
def unencryptedTopic : Check :=
  unencryptedWithoutKey ⟨"AWS016", "UnencryptedSNSTopic", "Unencrypted SNS topic.", .error, "aws"⟩
    ["aws_sns_topic"] "SNS topic" fun _ => false

end InfraAudit.Check
