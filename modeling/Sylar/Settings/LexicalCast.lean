import Sylar.Foundation.Ordered
import Sylar.Foundation.Unordered
import Sylar.Settings.Node

/-! # Casts between values and texts

The casts of a container go through a YAML node with a child for each element, which is
loaded from the text of the element and is dumped again to be read.
-/

namespace Sylar.Settings

open Foundation

abbrev Integer (low high : Int) := { value : Int // low ≤ value ∧ value ≤ high }

structure Boost where
  toText : Int → Text
  ofText (low high : Int) : Text → Except Exception (Integer low high)

/-- `LexicalCast<T, std::string>` and `LexicalCast<std::string, T>`. -/
structure LexicalCast (T : Type) where
  toText : T → Except Exception Text
  ofText : Text → Except Exception T

namespace LexicalCast

/-! ## Integers -/

def integer (boost : Boost) (low high : Int) : LexicalCast (Integer low high) where
  toText v := .ok (boost.toText v.val)
  ofText := boost.ofText low high

def int32 (boost : Boost) := integer boost (-2147483648) 2147483647

def int64 (boost : Boost) := integer boost (-9223372036854775808) 9223372036854775807

def uint64 (boost : Boost) := integer boost 0 18446744073709551615

/-! ## Containers of elements -/

variable {T C : Type}

def itemsOf (yaml : Yaml) (cast : LexicalCast T) : List T → Except Exception (List Node)
  | [] => .ok []
  | i :: rest => do
      let text ← cast.toText i
      let item ← yaml.load text
      let items ← itemsOf yaml cast rest
      pure (item :: items)

def readItems (yaml : Yaml) (cast : LexicalCast T) (add : C → T → C) :
    List (Option Node) → C → Except Exception C
  | [], vec => .ok vec
  | item :: rest, vec => do
      let element ← cast.ofText (yaml.write item)
      readItems yaml cast add rest (add vec element)

def elementwise (yaml : Yaml) (cast : LexicalCast T) (elements : C → List T) (empty : C)
    (add : C → T → C) : LexicalCast C where
  toText v := do
    let items ← itemsOf yaml cast (elements v)
    pure (yaml.dump (Node.ofItems items))
  ofText v := do
    let node ← yaml.load v
    readItems yaml cast add (node.items yaml) empty

def vector (yaml : Yaml) (cast : LexicalCast T) : LexicalCast (Array T) :=
  elementwise yaml cast Array.toList #[] Array.push

def list (yaml : Yaml) (cast : LexicalCast T) : LexicalCast (List T) :=
  elementwise yaml cast (fun v => v) [] fun vec element => vec ++ [element]

def set [LinearOrder T] (yaml : Yaml) (cast : LexicalCast T) :
    LexicalCast (Ordered fun element : T => element) :=
  elementwise yaml cast Ordered.toList ∅ fun vec element => vec.insert element

def unorderedSet [DecidableEq T] (yaml : Yaml) (cast : LexicalCast T) :
    LexicalCast (Unordered fun element : T => element) :=
  elementwise yaml cast Unordered.toList ∅ fun vec element => vec.insert element

/-! ## Maps with texts as keys -/

def entriesOf (yaml : Yaml) (cast : LexicalCast T) :
    List (Text × T) → List (Text × Node) → Except Exception (List (Text × Node))
  | [], node => .ok node
  | i :: rest, node => do
      let text ← cast.toText i.2
      let value ← yaml.load text
      entriesOf yaml cast rest (Node.assign i.1 value node)

def readEntries (yaml : Yaml) (cast : LexicalCast T) (add : C → Text × T → C) :
    List (Text × Node) → C → Except Exception C
  | [], map => .ok map
  | i :: rest, map => do
      let value ← cast.ofText (yaml.dump i.2)
      readEntries yaml cast add rest (add map (i.1, value))

def keyed (yaml : Yaml) (cast : LexicalCast T) (elements : C → List (Text × T)) (empty : C)
    (add : C → Text × T → C) : LexicalCast C where
  toText v := do
    let entries ← entriesOf yaml cast (elements v) []
    pure (yaml.dump (Node.ofEntries entries))
  ofText v := do
    let node ← yaml.load v
    let entries ← node.entries
    readEntries yaml cast add entries empty

def map (yaml : Yaml) (cast : LexicalCast T) :
    LexicalCast (Ordered (Prod.fst : Text × T → Text)) :=
  keyed yaml cast Ordered.toList ∅ fun map entry => map.insert entry

def unorderedMap (yaml : Yaml) (cast : LexicalCast T) :
    LexicalCast (Unordered (Prod.fst : Text × T → Text)) :=
  keyed yaml cast Unordered.toList ∅ fun map entry => map.insert entry

end LexicalCast

end Sylar.Settings
