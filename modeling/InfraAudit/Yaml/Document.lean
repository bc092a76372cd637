import InfraAudit.Yaml.Lexer
import InfraAudit.Yaml.Node

/-!
# InfraAudit.Yaml.Document — the tree of a text

A node is an alias, a scalar, a list or a mapping, with an anchor and a tag in front of it.  Where a node may stand
and none is written, there is nothing: an empty scalar.

* `Document.read`: the only document of a text.
-/

namespace InfraAudit.Yaml

/-- The nodes of a document, and the one that it stands for, if it is not empty. -/
structure Document where
  nodes : Nodes
  root : Option NodeId

namespace Document

/-! ### Reading -/

/-- A document that is read: the tokens left, the nodes so far, those with an anchor, and the handles of tags. -/
structure State where
  lexer : Lexer
  nodes : Nodes
  anchors : List (String × NodeId)
  handles : List (String × String)

/-- A part of the reading. -/
abbrev Reader := StateT State (Except Fault)

/-- The next token, which stays. -/
def peek : Reader Token := fun s =>
  s.lexer.peek.map fun (t, l) => (t, { s with lexer := l })

/-- Takes the next token. -/
def drop : Reader Unit :=
  modify fun s => { s with lexer := s.lexer.drop }

/-- The text has no value. -/
def fail {α : Type} : Reader α :=
  throw Fault.malformed

/-- Adds a node. -/
def add (tag : Tag) (content : Content) : Reader NodeId := do
  let s ← get
  set { s with nodes := s.nodes.push ⟨tag, content⟩ }
  return s.nodes.size

/-- Adds an empty scalar. -/
def nothing : Reader NodeId :=
  add .null (.scalar "")

/-! ### Anchors and tags -/

/-- The handles that always have a meaning. -/
def knownHandles : List (String × String) := [("!", "!"), ("!!", Tag.common)]

/-- What may stand in front of a node. -/
structure Properties where
  anchor : Option String
  tag : Option String

/-- The name of a tag that is written with a handle. -/
def tagName (handle : Option String) (suffix : String) : Reader String :=
  match handle with
  | none => return suffix
  | some h => do
    match (← get).handles.lookup h with
    | some target => return target ++ suffix
    | none => fail

/-- The anchor that comes next, if one does. -/
def anchor? : Reader (Option String) := do
  match ← peek with
  | .anchor name => drop; return some name
  | _ => return none

/-- The tag that comes next, if one does. -/
def tag? : Reader (Option (Option String × String)) := do
  match ← peek with
  | .tag handle suffix => drop; return some (handle, suffix)
  | _ => return none

/-- The anchor and the tag in front of a node, in any order. -/
def properties : Reader Properties := do
  let first ← anchor?
  let tag ← tag?
  let anchor ← if first.isNone ∧ tag.isSome then anchor? else pure first
  return ⟨anchor, ← tag.mapM fun (h, s) => tagName h s⟩

namespace Properties

/-- Whether nothing is written. -/
def isEmpty (p : Properties) : Bool :=
  p.anchor.isNone && p.tag.isNone

/-- The kind that is written, if one is; a lone exclamation mark says none. -/
def kind? (p : Properties) : Option Tag :=
  (p.tag.filter (· != "!")).map Tag.ofName

/-- The kind of a scalar: quotes make it a text, unless it has an exclamation mark. -/
def scalarKind (p : Properties) (text : String) (plain : Bool) : Tag :=
  p.kind?.getD (if plain || p.tag.isSome then .ofPlain text else .text)

end Properties

/-- Gives a node its anchor. -/
def mark (p : Properties) (id : NodeId) : Reader Unit :=
  match p.anchor with
  | none => return ()
  | some name => modify fun s => { s with anchors := (name, id) :: s.anchors }

/-- The node of an alias. -/
def aliased (name : String) : Reader NodeId := do
  match (← get).anchors.lookup name with
  | some id => return id
  | none => fail

/-- An anchor must be new. -/
def checkNew (p : Properties) : Reader Unit := do
  match p.anchor with
  | some name => if ((← get).anchors.lookup name).isSome then fail
  | none => return ()

/-! ### Nodes -/

/-- Where a node stands: between brackets, in a block, or as a part of a block mapping, where the marks of a list need
no indentation. -/
inductive Place
  | flow
  | block
  | part
  deriving DecidableEq

/-- Adds a collection whose parts are still to be read, and then its content. -/
def collection (p : Properties) (default : Tag) (content : Reader Content) : Reader NodeId := do
  let id ← add (p.kind?.getD default) (.list [])
  mark p id
  let c ← content
  modify fun s => { s with nodes := s.nodes.setContent id c }
  return id

mutual

/-- A node; `fuel` bounds the number of steps. -/
def node : (fuel : Nat) → Place → Reader NodeId
  | 0, _ => fail
  | fuel + 1, place => do
    match ← peek with
    | .alias name => drop; aliased name
    | _ =>
      let p ← properties
      let token ← peek
      checkNew p
      match token with
      | .scalar text plain =>
        drop
        let id ← add (p.scalarKind text plain) (.scalar text)
        mark p id
        return id
      | .flowStart .list => drop; collection p .list (.list <$> flowItems fuel true)
      | .flowStart .mapping => drop; collection p .map (.mapping <$> flowEntries fuel true)
      | .blockStart .list =>
        if place = .flow then empty p else drop; collection p .list (.list <$> blockItems fuel)
      | .blockStart .mapping =>
        if place = .flow then empty p else drop; collection p .map (.mapping <$> blockEntries fuel)
      | .dash => if place = .part then collection p .list (.list <$> unindentedItems fuel) else empty p
      | _ => empty p
where
  /-- An empty scalar, which must have an anchor or a tag. -/
  empty (p : Properties) : Reader NodeId := do
    if p.isEmpty then fail
    let id ← add (p.scalarKind "" true) (.scalar "")
    mark p id
    return id

/-- A node, or nothing before a token that ends its place. -/
def slot : (fuel : Nat) → Place → (ends : List Token) → Reader NodeId
  | 0, _, _ => fail
  | fuel + 1, place, ends => do
    if ends.contains (← peek) then nothing else node fuel place

/-- The value behind the sign of a value, or nothing. -/
def valueSlot : (fuel : Nat) → Place → (ends : List Token) → Reader NodeId
  | 0, _, _ => fail
  | fuel + 1, place, ends => do
    if (← peek) = .value then
      drop
      slot fuel place ends
    else nothing

/-- The items of a block list. -/
def blockItems : (fuel : Nat) → Reader (List NodeId)
  | 0 => fail
  | fuel + 1 => do
    match ← peek with
    | .dash =>
      drop
      let x ← slot fuel .block [.dash, .blockEnd]
      return x :: (← blockItems fuel)
    | .blockEnd => drop; return []
    | _ => fail

/-- The items of a block list that is not indented. -/
def unindentedItems : (fuel : Nat) → Reader (List NodeId)
  | 0 => fail
  | fuel + 1 => do
    match ← peek with
    | .dash =>
      drop
      let x ← slot fuel .block [.dash, .key, .value, .blockEnd]
      return x :: (← unindentedItems fuel)
    | _ => return []

/-- The entries of a block mapping. -/
def blockEntries : (fuel : Nat) → Reader (List (NodeId × NodeId))
  | 0 => fail
  | fuel + 1 => do
    match ← peek with
    | .key =>
      drop
      let k ← slot fuel .part [.key, .value, .blockEnd]
      let x ← valueSlot fuel .part [.key, .value, .blockEnd]
      return (k, x) :: (← blockEntries fuel)
    | .blockEnd => drop; return []
    | _ => fail

/-- The items of a list between brackets; a key makes an item a mapping with one entry. -/
def flowItems : (fuel : Nat) → (first : Bool) → Reader (List NodeId)
  | 0, _ => fail
  | fuel + 1, first => do
    let token ← peek
    if !first ∧ token = .comma then drop
    match ← peek with
    | .flowEnd .list => drop; return []
    | next =>
      if !first ∧ token ≠ .comma then fail
      let x ← if next = .key then do
          drop
          let k ← slot fuel .flow [.value, .comma, .flowEnd .list]
          let x ← valueSlot fuel .flow [.comma, .flowEnd .list]
          add .map (.mapping [(k, x)])
        else node fuel .flow
      return x :: (← flowItems fuel false)

/-- The entries of a mapping between brackets; a node without the sign of a value has nothing as its value. -/
def flowEntries : (fuel : Nat) → (first : Bool) → Reader (List (NodeId × NodeId))
  | 0, _ => fail
  | fuel + 1, first => do
    let token ← peek
    if !first ∧ token = .comma then drop
    match ← peek with
    | .flowEnd .mapping => drop; return []
    | next =>
      if !first ∧ token ≠ .comma then fail
      let e ← if next = .key then do
          drop
          let k ← slot fuel .flow [.value, .comma, .flowEnd .mapping]
          pure (k, ← valueSlot fuel .flow [.comma, .flowEnd .mapping])
        else pure (← node fuel .flow, ← nothing)
      return e :: (← flowEntries fuel false)

end

/-! ### Documents -/

/-- Reads the directives in front of a document; `versioned` says whether one of them was a version.  There is one
version, its first number is 1, and a handle has one meaning. -/
def directives (versioned : Bool) (handles : List (String × String)) : (fuel : Nat) → Reader (List (String × String))
  | 0 => fail
  | fuel + 1 => do
    match ← peek with
    | .directive (.version major) =>
      drop
      if versioned ∨ major ≠ 1 then fail else directives true handles fuel
    | .directive (.handle name target) =>
      drop
      if (handles.lookup name).isSome then fail else directives versioned ((name, target) :: handles) fuel
    | .directive .other => drop; directives versioned handles fuel
    | _ => return handles

/-- The content of a document behind its directives. -/
def explicit (fuel : Nat) : Reader NodeId := do
  let handles ← directives false [] fuel
  modify fun s => { s with handles := handles ++ knownHandles }
  match ← peek with
  | .documentStart => drop
  | _ => fail
  match ← peek with
  | .directive _ | .documentStart | .documentEnd | .streamEnd => nothing
  | _ => node fuel .block

/-- Nothing but the end of the text may follow a document. -/
def finish : (fuel : Nat) → Reader Unit
  | 0 => fail
  | fuel + 1 => do
    match ← peek with
    | .documentEnd => drop; finish fuel
    | .streamEnd => return ()
    | _ => let _ ← directives false [] fuel; fail

/-- The document, if the text has one. -/
def content (fuel : Nat) : Reader (Option NodeId) := do
  match ← peek with
  | .streamEnd => return none
  | token =>
    let root ← match token with
      | .directive _ | .documentStart => explicit fuel
      | _ => node fuel .block
    finish fuel
    return some root

/-- The number of steps that reading a text takes at most: a character makes a few tokens, and a token a few steps. -/
def stepsFor (text : List Char) : Nat :=
  16 * text.length + 64

/-- The only document of a text. -/
def read (s : Source) : Except Fault Document :=
  (content (stepsFor s.text)).run ⟨.start s, #[], [], knownHandles⟩ |>.map fun (root, s) => ⟨s.nodes, root⟩

end Document

end InfraAudit.Yaml
