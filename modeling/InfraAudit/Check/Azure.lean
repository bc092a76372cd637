import InfraAudit.Check.Basic
import InfraAudit.Check.Names

/-!
# InfraAudit.Check.Azure — checks of Azure resources
-/

namespace InfraAudit.Check

open InfraAudit.Hcl InfraAudit.Text

/-- Disks whose encryption is switched off. -/
def unencryptedManagedDisk : Check :=
  let p : Profile := ⟨"AZU001", "UnencryptedManagedDisk", "Unencrypted managed disk.", .error, "azure"⟩
  ofResource p ["azurerm_managed_disk"] fun b =>
    ((b.block? "encryption_settings").bind (·.attribute? "enabled")).toList.flatMap fun a =>
      if isKnown a false then [p.onValue a s!"Resource '{b.fullName}' defines an unencrypted managed disk."] else []

/-- The words for all sources. -/
def openSources : List String := ["*", "0.0.0.0", "internet", "any"]

/-- Whether a source stands for the whole internet. -/
def isOpenSource (source : String) : Bool :=
  openSources.contains (lowerLatin (strip source)) || isPublicCidr source

/-- Whether an attribute is the given word, in any case. -/
def isWord (a : Attribute) (word : String) : Bool :=
  a.value.string?.any fun s => lowerLatin s = word

/-- Inbound rules that are open to everybody. -/
def openInboundRule : Check :=
  let p : Profile := ⟨"AZU002", "OpenInboundSecurityRule",
    "An inbound network security rule allows traffic from /0.", .warning, "azure"⟩
  ofResource p ["azurerm_network_security_rule"] fun b =>
    if (b.attribute? "direction").any (isWord · "inbound") && (b.attribute? "access").any (isWord · "allow") then
      ["source_address_prefix", "source_address_prefixes"].filterMap fun name => do
        let a ← b.attribute? name
        let source ← firstText? a isOpenSource
        return p.onAttribute a s!"Resource '{b.fullName}' defines a fully open inbound security rule."
          (doubleQuoted source)
    else []

/-- Data lakes whose encryption is disabled. -/
def unencryptedDataLake : Check :=
  let p : Profile := ⟨"AZU003", "UnencryptedDataLakeStore", "Unencrypted data lake store.", .error, "azure"⟩
  ofResource p ["azurerm_data_lake_store"] fun b =>
    (b.attribute? "encryption_state").toList.flatMap fun a =>
      if a.value.equals (.string "Disabled") then
        [p.onValue a s!"Resource '{b.fullName}' defines an unencrypted data lake store."]
      else []

/-- Storage that lets everybody read blobs. -/
def publicBlobAccess : Check :=
  let p : Profile := ⟨"AZU004", "PublicBlobAccess", "Storage allows public access to blobs.", .error, "azure"⟩
  ofResource p ["azurerm_storage_account", "azurerm_storage_container"] fun b =>
    if b.typeLabel? = some "azurerm_storage_account" then
      (b.attribute? "allow_blob_public_access").toList.flatMap fun a =>
        if isKnown a true then
          [p.onBlock b s!"Resource '{b.fullName}' allows public access to blobs."
            ("allow_blob_public_access = " ++ a.value.text)]
        else []
    else
      (b.attribute? "container_access_type").toList.flatMap fun a =>
        if isWord a "blob" || isWord a "container" then
          [p.onValue a s!"Resource '{b.fullName}' defines a publicly accessible storage container."]
        else []

/-- Storage that allows plain HTTP. -/
def storageHttpsOnly : Check :=
  let p : Profile := ⟨"AZU005", "StorageHTTPSOnly", "Storage account allows unencrypted HTTP traffic.",
    .error, "azure"⟩
  ofResource p ["azurerm_storage_account"] fun b =>
    (b.attribute? "enable_https_traffic_only").toList.flatMap fun a =>
      if isKnown a false then [p.onValue a s!"Resource '{b.fullName}' explicitly allows plain HTTP traffic."] else []

end InfraAudit.Check
