import InfraAudit.Text.Blank
import InfraAudit.Text.Case

/-!
# InfraAudit.Check.Names — names of credentials and address ranges

* `isSensitiveName`: a name that is, or ends after `_` or `-` in, a word for a credential.
* `isPublicCidr`: an address range that covers the whole address space.
-/

namespace InfraAudit

open InfraAudit.Text

/-- The words for credentials. -/
def credentialWords : List String :=
  ["password", "passwd", "pass", "secret", "token", "apikey", "api_key", "privatekey", "private_key", "accesskey",
   "access_key", "secretkey", "secret_key", "client_secret", "credential", "credentials"]

/-- Whether two texts are equal when case is ignored; the first is in lower case. -/
def sameWord : List Char → List Char → Bool
  | [], [] => true
  | p :: ps, c :: cs => sameLetter p c && sameWord ps cs
  | _, _ => false

/-- Whether text may stand before a word at the end of a name: nothing, or one line that ends in `_` or `-`. -/
def endsInSeparator (s : List Char) : Bool :=
  match s.getLast? with
  | none => true
  | some c => (c == '_' || c == '-') && !s.contains '\n'

/-- Whether the name ends in the word, which stands at its start or after a separator. -/
def endsInWord (name word : List Char) : Bool :=
  let n := name.length - word.length
  sameWord word (name.drop n) && endsInSeparator (name.take n)

/-- Whether a name is one of a credential; a newline at its end does not matter. -/
def isSensitiveName (name : String) : Bool :=
  let cs := name.toList
  let stem := if cs.getLast? = some '\n' then cs.dropLast else cs
  credentialWords.any fun w => endsInWord stem w.toList

/-- Whether an address range has the prefix length 0. -/
def isPublicCidr (cidr : String) : Bool :=
  (trim isBlank cidr.toList).reverse.take 2 == ['0', '/']

end InfraAudit
