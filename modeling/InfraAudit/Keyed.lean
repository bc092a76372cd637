/-!
# InfraAudit.Keyed — pairs in order of first insertion

A list of pairs serves as a map that remembers the order of its keys: `put` keeps the place of a known key.
Look-up is `List.lookup`.
-/

namespace InfraAudit.Keyed

variable {α β : Type} [BEq α]

/-- The pairs with the value of `key` set: in place if the key is known, else at the end. -/
def put (key : α) (value : β) : List (α × β) → List (α × β)
  | [] => [(key, value)]
  | (k, v) :: rest => if k == key then (k, value) :: rest else (k, v) :: put key value rest

/-- The pairs put one after the other. -/
def ofPairs (pairs : List (α × β)) : List (α × β) :=
  pairs.foldl (fun m p => put p.1 p.2 m) []

end InfraAudit.Keyed
