import Sylar.Foundation.Ordered

/-! # YAML nodes

The trees that yaml-cpp loads and dumps, and how the casts of `config.h` read them.
-/

namespace Sylar.Settings

open Foundation

inductive Exception
  | parserException
  | badSubscript
  | typedBadConversion
  | invalidNode
  | badLexicalCast
  | invalidArgument (name : Text)
  | thrown (what : Text)
deriving DecidableEq, Repr

/-- `YAML::Node`, where a key of a map is given by its `Scalar()`. -/
inductive Node
  | null
  | scalar (text : Text)
  | sequence (items : List Node)
  | map (entries : List (Text × Node))
deriving Repr

/-- What the casts use of yaml-cpp: `Load`, the text that `<<` writes, the index that a
scalar reads as and the string that a null node reads as. -/
structure Yaml where
  load : Text → Except Exception Node
  dump : Node → Text
  index : Text → Option Nat
  nullText : Except Exception Text

namespace Node

def ofItems : List Node → Node
  | [] => .null
  | items => .sequence items

def ofEntries : List (Text × Node) → Node
  | [] => .null
  | entries => .map entries

def assign (key : Text) (value : Node) : List (Text × Node) → List (Text × Node)
  | [] => [(key, value)]
  | (other, old) :: rest =>
      if other = key then (key, value) :: rest else (other, old) :: assign key value rest

/-- `node[0]`, `node[1]` and so on below `node.size()`. A map is searched for the index
among its keys, and where it has none the node is undefined. -/
def items (yaml : Yaml) : Node → List (Option Node)
  | .sequence items => items.map some
  | .map entries => (List.range entries.length).map fun index =>
      (entries.find? fun entry => yaml.index entry.1 = some index).map Prod.snd
  | .null | .scalar _ => []

theorem items_ofItems (yaml : Yaml) (items : List Node) :
    (ofItems items).items yaml = items.map some := by
  cases items <;> rfl

/-- `node[key]` of a node that may be undefined, where the member may be undefined. -/
def member (key : Text) : Option Node → Except Exception (Option Node)
  | some (.map entries) => .ok ((entries.find? fun entry => entry.1 = key).map Prod.snd)
  | some (.scalar _) => .error .badSubscript
  | some .null | some (.sequence _) | none => .ok none

def asString (yaml : Yaml) : Node → Except Exception Text
  | .scalar text => .ok text
  | .null => yaml.nullText
  | .sequence _ | .map _ => .error .typedBadConversion

/-- The loop from `begin()` to `end()`: the first and the second of what it points to are
invalid nodes where it runs over a sequence. -/
def entries : Node → Except Exception (List (Text × Node))
  | .map entries => .ok entries
  | .sequence [] | .null | .scalar _ => .ok []
  | .sequence (_ :: _) => .error .invalidNode

inductive Part : Node → Node → Prop
  | self (node : Node) : Part node node
  | item {part item : Node} {items : List Node} (isItem : item ∈ items)
      (isPart : Part part item) : Part part (.sequence items)
  | entry {part child : Node} {key : Text} {entries : List (Text × Node)}
      (isEntry : (key, child) ∈ entries) (isPart : Part part child) :
      Part part (.map entries)

end Node

def Yaml.write (yaml : Yaml) : Option Node → Text
  | some node => yaml.dump node
  | none => []

end Sylar.Settings
