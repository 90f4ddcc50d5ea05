/-
From tokens to a graph.

A node of a document is a text, a sequence of nodes, or a mapping of nodes to nodes.
What is left out reads as empty plain text, and a tag can say that a text holds octets.
An anchor names a node, once, and an alias stands for the node of that name, also within
that node.  So the nodes of a document are numbered, and a node holds the numbers of
others.

Tokens are asked for one after the other, each when it is needed, so that of two things
wrong with a text the first counts.
-/
import Scorecard.Fault
import Scorecard.Yaml.Token

namespace Scorecard.Yaml

/-- What a text may stand for: for what plain text means, for itself, or for octets. -/
inductive Standing where
  | plain
  | itself
  | octets
deriving DecidableEq

/-- A node of a document. -/
inductive Node where
  | scalar (text : String) (standing : Standing)
  | sequence (items : List Nat)
  | mapping (entries : List (Nat × Nat))

/-- The nodes of a document, by their numbers. -/
structure Graph where
  nodes : Array Node
  root : Nat
  /-- An alias stands for a node, so that it may be in several places. -/
  hasAlias : Bool

namespace Node

/-- What is left out. -/
def absent : Node := .scalar "" .plain

/-- What is known in the middle of a document. -/
structure Reading where
  tokens : Tokens
  nodes : Array Node := #[]
  /-- The numbers of the nodes that have a name. -/
  named : List (String × Nat) := []
  hasAlias : Bool := false

/-- A step of reading a document. -/
abbrev Reader := StateT Reading (Except Fault)

namespace Reader

/-- The token ahead; at the end of the text there is none. -/
def ahead : Reader (Option Token) := do
  let tokens := (← get).tokens
  match tokens.ahead.head?, tokens.stop with
  | some t, _ => return some t
  | none, some f => throw f
  | none, none => return none

/-- One of these tokens is ahead. -/
def isAhead (tokens : List Token) : Reader Bool := do
  return (← ahead).any tokens.contains

/-- Behind the token ahead. -/
def advance : Reader Unit :=
  modify fun r => { r with tokens := { r.tokens with ahead := r.tokens.ahead.tail } }

/-- The token ahead is not what must stand here. -/
def refuse {α : Type} : Reader α :=
  throw .badYaml

/-- The number of the node that an alias stands for. -/
def resolve (name : String) : Reader Nat := do
  match (← get).named.lookup name with
  | some place =>
    modify fun r => { r with hasAlias := true }
    return place
  | none => refuse

/-- The anchor ahead, if there is one. -/
def anchor? : Reader (Option String) := do
  match ← ahead with
  | some (.anchor name) =>
    advance
    return some name
  | _ => return none

/-- The tag of octets is ahead. -/
def octetsTag : Reader Bool := do
  if ← isAhead [.octetsTag] then
    advance
    return true
  else return false

/-- Number a node, and give it the name of its anchor, which must be new. -/
def place (node : Node) (anchor : Option String) : Reader Nat := do
  let r ← get
  match anchor with
  | some name =>
    if (r.named.lookup name).isSome then refuse
    else set { r with nodes := r.nodes.push node, named := (name, r.nodes.size) :: r.named }
  | none => set { r with nodes := r.nodes.push node }
  return r.nodes.size

/-- The place of what is left out. -/
def placeAbsent : Reader Nat :=
  place absent none

/-- Complete the node of a number. -/
def complete (number : Nat) (node : Node) : Reader Nat := do
  modify fun r => { r with nodes := r.nodes.setIfInBounds number node }
  return number

/-- A sequence, which its items may refer to. -/
def placeSequence (anchor : Option String) (items : Reader (List Nat)) : Reader Nat := do
  let number ← place (.sequence []) anchor
  complete number (.sequence (← items))

/-- A mapping, which its entries may refer to. -/
def placeMapping (anchor : Option String) (entries : Reader (List (Nat × Nat))) : Reader Nat := do
  let number ← place (.mapping []) anchor
  complete number (.mapping (← entries))

/-- What stands in front of a node: its anchor, and whether it is said to be octets. -/
structure Properties where
  anchor : Option String
  octets : Bool

/-- The properties ahead, in either order. -/
def properties : Reader Properties := do
  let anchor ← anchor?
  let octets ← octetsTag
  if anchor.isSome then return ⟨anchor, octets⟩
  else return ⟨← anchor?, octets⟩

/-- A text. -/
def placeText (p : Properties) (text : String) (plain : Bool) : Reader Nat :=
  place (.scalar text (if p.octets then .octets else if plain then .plain else .itself)) p.anchor

/-- A node with parts, which octets do not have. -/
def placeParts (p : Properties) (node : Option String → Reader Nat) : Reader Nat :=
  if p.octets then refuse else node p.anchor

/-- Properties can stand for a node that is left out. -/
def absentUnder (p : Properties) : Reader Nat :=
  if p.anchor.isSome || p.octets then placeText p "" true else refuse

/-- Behind the comma that stands in front of every item but the first. -/
def separator (first : Bool) : Reader Unit := do
  if first then return ()
  else if ← isAhead [.comma] then advance
  else refuse

end Reader

open Reader

/-- Where a block of entries goes on without the value of an entry. -/
def nextInMapping : List Token :=
  [.key, .value, .blockEnd]

/-! ### Nodes

All the functions below call one another with less fuel, and fuel is enough when
there are four units for each token: no call is more than a few away from taking one. -/

mutual

/-- A node.  Blocks of entries may be read only outside brackets, and entries without
a block of their own only in a mapping. -/
def read (block inMapping : Bool) : (fuel : Nat) → Reader Nat
  | 0 => refuse
  | fuel + 1 => do
    match ← ahead with
    | some (.alias name) =>
      advance
      resolve name
    | _ =>
      let p ← properties
      match ← ahead with
      | some (.scalar text plain) =>
        advance
        placeText p text plain
      | some .openBracket => placeParts p fun anchor => placeSequence anchor (advance *> flowItems true fuel)
      | some .openBrace => placeParts p fun anchor => placeMapping anchor (advance *> flowEntries true fuel)
      | some .entry =>
        if inMapping then placeParts p fun anchor => placeSequence anchor (bareItems fuel)
        else absentUnder p
      | some .sequenceStart =>
        if block then placeParts p fun anchor => placeSequence anchor (advance *> blockItems fuel)
        else absentUnder p
      | some .mappingStart =>
        if block then placeParts p fun anchor => placeMapping anchor (advance *> blockEntries fuel)
        else absentUnder p
      | _ => absentUnder p

/-- A node, or nothing in front of one of these tokens. -/
def readUnless (stops : List Token) (block inMapping : Bool) : (fuel : Nat) → Reader Nat
  | 0 => refuse
  | fuel + 1 => do
    if ← isAhead stops then placeAbsent
    else read block inMapping fuel

/-- The entries of a block, up to its end. -/
def blockItems : (fuel : Nat) → Reader (List Nat)
  | 0 => refuse
  | fuel + 1 => do
    match ← ahead with
    | some .entry =>
      advance
      let item ← readUnless [.entry, .blockEnd] true false fuel
      return item :: (← blockItems fuel)
    | some .blockEnd =>
      advance
      return []
    | _ => refuse

/-- Entries without a block of their own, as far as they go. -/
def bareItems : (fuel : Nat) → Reader (List Nat)
  | 0 => refuse
  | fuel + 1 => do
    if ← isAhead [.entry] then
      advance
      let item ← readUnless (.entry :: nextInMapping) true false fuel
      return item :: (← bareItems fuel)
    else return []

/-- The entries of a mapping's block, up to its end. -/
def blockEntries : (fuel : Nat) → Reader (List (Nat × Nat))
  | 0 => refuse
  | fuel + 1 => do
    match ← ahead with
    | some .key =>
      advance
      let key ← readUnless nextInMapping true true fuel
      let value ← valueUnless nextInMapping true fuel
      return (key, value) :: (← blockEntries fuel)
    | some .blockEnd =>
      advance
      return []
    | _ => refuse

/-- The value of an entry, if there is one. -/
def valueUnless (stops : List Token) (block : Bool) : (fuel : Nat) → Reader Nat
  | 0 => refuse
  | fuel + 1 => do
    if ← isAhead [.value] then
      advance
      readUnless stops block block fuel
    else placeAbsent

/-- The items between brackets, up to the closing one.  An item that is announced as
a key is a mapping of one entry. -/
def flowItems (first : Bool) : (fuel : Nat) → Reader (List Nat)
  | 0 => refuse
  | fuel + 1 => do
    if ← isAhead [.closeBracket] then
      advance
      return []
    else
      separator first
      if ← isAhead [.key] then
        let item ← placeMapping none (onlyEntry fuel)
        return item :: (← flowItems false fuel)
      else if ← isAhead [.closeBracket] then
        advance
        return []
      else
        let item ← read false false fuel
        return item :: (← flowItems false fuel)

/-- The entry of an item that is announced as a key. -/
def onlyEntry : (fuel : Nat) → Reader (List (Nat × Nat))
  | 0 => refuse
  | fuel + 1 => do
    advance
    let key ← readUnless [.value, .comma, .closeBracket] false false fuel
    let value ← valueUnless [.comma, .closeBracket] false fuel
    return [(key, value)]

/-- The entries between braces, up to the closing one.  An entry that is not announced
as a key has no value. -/
def flowEntries (first : Bool) : (fuel : Nat) → Reader (List (Nat × Nat))
  | 0 => refuse
  | fuel + 1 => do
    if ← isAhead [.closeBrace] then
      advance
      return []
    else
      separator first
      if ← isAhead [.key] then
        advance
        let key ← readUnless [.value, .comma, .closeBrace] false false fuel
        let value ← valueUnless [.comma, .closeBrace] false fuel
        return (key, value) :: (← flowEntries false fuel)
      else if ← isAhead [.closeBrace] then
        advance
        return []
      else
        let key ← read false false fuel
        let value ← placeAbsent
        return (key, value) :: (← flowEntries false fuel)

end

/-! ### Documents -/

/-- The token belongs in front of the start of a document. -/
def isDirective (t : Token) : Bool :=
  t matches .version _ | .reserved

/-- Behind the directives ahead, among which there may be one version, the first.  At
most `fuel` are read. -/
def directives (versions : Nat) : (fuel : Nat) → Reader Unit
  | 0 => return ()
  | fuel + 1 => do
    match ← ahead with
    | some (.version major) =>
      if versions = 0 ∧ major = 1 then
        advance
        directives 1 fuel
      else refuse
    | some .reserved =>
      advance
      directives versions fuel
    | _ => return ()

/-- The node of a document whose start is marked.  It may be left out. -/
def marked (fuel : Nat) : Reader Nat := do
  directives 0 fuel
  if ← isAhead [.documentStart] then
    advance
    match ← ahead with
    | none => placeAbsent
    | some t =>
      if isDirective t || t == .documentStart || t == .documentEnd then placeAbsent
      else read true false fuel
  else refuse

/-- Behind the marks at the end of a document.  At most `fuel` are skipped. -/
def skipEnds : (fuel : Nat) → Reader Unit
  | 0 => return ()
  | fuel + 1 => do
    if ← isAhead [.documentEnd] then
      advance
      skipEnds fuel

/-- Nothing may follow a document.  What does is looked at as far as its directives. -/
def finish (fuel : Nat) : Reader Unit := do
  skipEnds fuel
  match ← ahead with
  | none => return ()
  | some _ =>
    directives 0 fuel
    refuse

/-- The number of the only node that a text holds, if it holds one. -/
def only? (fuel : Nat) : Reader (Option Nat) := do
  match ← ahead with
  | none => return none
  | some t =>
    let node ←
      if isDirective t || t == .documentStart then marked fuel
      else read true false fuel
    finish fuel
    return some node

end Node

/-- The only document that tokens hold, if they hold one. -/
def Graph.ofTokens? (tokens : Tokens) : Except Fault (Option Graph) := do
  let (root, reading) ← (Node.only? (4 * (tokens.ahead.length + 1))).run { tokens }
  return root.map fun root => ⟨reading.nodes, root, reading.hasAlias⟩

end Scorecard.Yaml
