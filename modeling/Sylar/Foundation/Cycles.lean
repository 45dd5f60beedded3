import Mathlib.Data.Fintype.Card
import Mathlib.Logic.Relation

/-! # Nodes that lead to a cycle

A descent along the edges of a graph ends, whatever edges it takes, exactly if the node
it starts from is accessible. In a finite graph those are the nodes that lead to no cycle.
-/

namespace Sylar.Foundation

variable {Node : Type u} {edge : Node → Node → Prop}

def Circular (edge : Node → Node → Prop) (root : Node) : Prop :=
  ∃ node, Relation.ReflTransGen edge root node ∧ Relation.TransGen edge node node

def Descends (edge : Node → Node → Prop) (root : Node) : Prop :=
  Acc (fun child parent => edge parent child) root

theorem Circular.next {root : Node} (circular : Circular edge root) :
    ∃ child, edge root child ∧ Circular edge child := by
  rcases circular with ⟨node, reached, cycle⟩
  rcases Relation.ReflTransGen.cases_head reached with rfl | ⟨child, isEdge, rest⟩
  · rcases Relation.TransGen.head'_iff.mp cycle with ⟨child, isEdge, back⟩
    exact ⟨child, isEdge, root, back, cycle⟩
  · exact ⟨child, isEdge, node, rest, cycle⟩

theorem Descends.not_circular {root : Node} (descends : Descends edge root) :
    ¬Circular edge root := by
  induction descends with
  | intro root children induction =>
      intro circular
      rcases circular.next with ⟨child, isEdge, rest⟩
      exact induction child isEdge rest

theorem Descends.child {root child : Node} (descends : Descends edge root)
    (isEdge : edge root child) : Descends edge child :=
  descends.inv isEdge

/-- The nodes below a root that leads to no cycle are in a strict order, and a finite one
is well founded. -/
theorem descends_of_not_circular [Finite Node] {root : Node} (acyclic : ¬Circular edge root) :
    Descends edge root := by
  let below (child parent : Node) : Prop :=
    Relation.ReflTransGen edge root parent ∧ Relation.TransGen edge parent child
  have transitive : IsTrans Node below :=
    ⟨fun _ _ _ left right => ⟨right.1, right.2.trans left.2⟩⟩
  have irreflexive : Std.Irrefl below :=
    ⟨fun node cycle => acyclic ⟨node, cycle⟩⟩
  have founded : WellFounded below := Finite.wellFounded_of_trans_of_irrefl below
  have descends (node : Node) :
      Relation.ReflTransGen edge root node → Descends edge node := by
    induction node using founded.induction with
    | _ node induction =>
        intro reached
        apply Acc.intro
        intro child isEdge
        exact induction child ⟨reached, .single isEdge⟩ (reached.tail isEdge)
  exact descends root .refl

theorem descends_iff_not_circular [Finite Node] {root : Node} :
    Descends edge root ↔ ¬Circular edge root :=
  ⟨Descends.not_circular, descends_of_not_circular⟩

theorem descends_of_rank (rank : Node → Nat)
    (decreases : ∀ parent child, edge parent child → rank child < rank parent) (root : Node) :
    Descends edge root :=
  Subrelation.accessible (fun isEdge => decreases _ _ isEdge)
    ((InvImage.wf rank Nat.lt_wfRel.wf).apply root)

end Sylar.Foundation
