import MarkdownOutlets.Data.Value
import MarkdownOutlets.Data.Yaml.Atom

/-! # Nodes of YAML documents

  The structure of a document is a tree of nodes, whose leaves are texts
  that stand for something or for themselves. The value of a node follows in
  two steps: entries that the key `<<` merges into a mapping take their
  place in it, and then every node has its value.

  Several nodes may have no value. The fault that counts is one that is
  nearest to the root, and of those the first one in the document.
-/

namespace MarkdownOutlets

namespace Yaml

/-- A node of a document. -/
inductive Node
  /-- A text without quotation marks, which may stand for another atom. -/
  | plain (t : Text)
  /-- A text that stands for itself. -/
  | quoted (t : Text)
  /-- A list. -/
  | list (items : List Node)
  /-- A mapping, as its entries in the order of the document. -/
  | mapping (entries : List (Node × Node))
  /-- A mapping into which something is merged that is none. -/
  | unmergeable
  deriving Repr

namespace Node

/-- The node that is null without being written. -/
def absent : Node := .plain []

/-! ### Merging -/

/-- The key whose value is merged into the mapping. -/
def mergeKey : Text := "<<".toList

/-- The mark of a standard value, which is a text where it is a key. -/
def valueMark : Text := "=".toList

/-- The entries of a mapping. -/
def entries? : Node → Option (List (Node × Node))
  | .mapping entries => some entries
  | _ => none

/-- The entries that a node merges into a mapping: its own, or those of the
    mappings in a list. Of two mappings in a list the first one counts, and
    so comes last. -/
def mergedEntries? : Node → Option (List (Node × Node))
  | .mapping entries => some entries
  | .list items => (items.mapM entries?).map fun parts => parts.reverse.flatten
  | _ => none

/-- The mapping of some entries, the values of which are merged already.
    What is merged comes in front of the other entries. -/
def merge (entries : List (Node × Node)) : Node :=
  let own := entries.filterMap fun
    | (.plain key, value) =>
      if key = mergeKey then none
      else if key = valueMark then some (.quoted key, value)
      else some (.plain key, value)
    | entry => some entry
  let merged := entries.mapM fun
    | (.plain key, value) => if key = mergeKey then mergedEntries? value else some []
    | _ => some []
  match merged with
  | some parts => .mapping (parts.flatten ++ own)
  | none => .unmergeable

mutual

/-- A node with everything merged in it. -/
def merged : Node → Node
  | .list items => .list (mergedItems items)
  | .mapping entries => merge (mergedValues entries)
  | node => node

/-- Items with everything merged in them. -/
def mergedItems : List Node → List Node
  | [] => []
  | node :: rest => merged node :: mergedItems rest

/-- Entries with everything merged in their keys and values. -/
def mergedValues : List (Node × Node) → List (Node × Node)
  | [] => []
  | (key, value) :: rest => (merged key, merged value) :: mergedValues rest

end

/-! ### Values -/

/-- The first fault at each depth below a node. -/
abbrev Faults := List (Option Fault)

namespace Faults

/-- The faults of two nodes of the same depth, the first one of which comes
    first in the document. -/
def beside : Faults → Faults → Faults
  | [], faults => faults
  | faults, [] => faults
  | a :: rest, b :: rest' => a.or b :: beside rest rest'

/-- The fault that counts. -/
def first? (faults : Faults) : Option Fault := faults.findSome? id

end Faults

/-- The scalar that a plain text stands for. -/
def scalar (t : Text) : Except Fault Scalar :=
  if t = mergeKey || t = valueMark then .error (.malformed .misplacedMark)
  else (resolve t).mapError .value

/-- The key that a value is; a fault otherwise. -/
def key (v : Value) : Scalar × Faults :=
  match v with
  | .scalar s => (s, [])
  | _ => (.null, [some (.malformed .keyKind)])

mutual

/-- The value of a node, with the faults in it. A node without a value counts
    as null. -/
def value : Node → Value × Faults
  | .plain t =>
    match scalar t with
    | .ok s => (.scalar s, [])
    | .error fault => (.null, [some fault])
  | .quoted t => (.text t, [])
  | .list items =>
    let (values, faults) := valuesOf items
    (.list values, none :: faults)
  | .mapping entries =>
    let (values, faults) := entriesOf entries
    (.dict (Entries.ofList values), none :: faults)
  | .unmergeable => (.null, [none, some (.malformed .mergedKind)])

/-- The values of items, with the faults in them. -/
def valuesOf : List Node → List Value × Faults
  | [] => ([], [])
  | node :: rest =>
    let (v, faults) := value node
    let (values, more) := valuesOf rest
    (v :: values, faults.beside more)

/-- The entries of nodes, with the faults in them. -/
def entriesOf : List (Node × Node) → List (Scalar × Value) × Faults
  | [] => ([], [])
  | (k, node) :: rest =>
    let (k, keyFaults) := value k
    let (k, kindFaults) := key k
    let (v, faults) := value node
    let (entries, more) := entriesOf rest
    ((k, v) :: entries, ((Faults.beside keyFaults kindFaults).beside faults).beside more)

end

/-- The value of a document. -/
def toValue (node : Node) : Except Fault Value :=
  let (v, faults) := value node.merged
  match Faults.first? faults with
  | some fault => .error fault
  | none => .ok v

end Node

end Yaml

end MarkdownOutlets
