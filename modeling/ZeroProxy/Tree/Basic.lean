import Mathlib.Data.List.Nodup
import Mathlib.Data.List.Flatten

/-!
# Labelled trees

Finitely branching trees whose nodes carry a label and an ordered list of
subtrees, and the ways of reading one that the syntax trees of this development
share.
-/

namespace ZeroProxy

/-- A tree with labels in `α`. -/
inductive Tree (α : Type*) where
  | mk (label : α) (children : List (Tree α))

namespace Tree

variable {α β : Type*}

/-- The label of the root. -/
def label : Tree α → α
  | mk a _ => a

/-! ## Subtrees -/

mutual

/-- A tree and everything below it. -/
def subtrees : Tree α → List (Tree α)
  | mk a ts => mk a ts :: subtreesList ts

/-- The trees of a list and everything below them. -/
def subtreesList : List (Tree α) → List (Tree α)
  | [] => []
  | t :: ts => subtrees t ++ subtreesList ts

end

/-! ## Gathering -/

mutual

/-- What `f` reads at the nodes of a tree, the nodes at which `stop` holds and
    everything below them left out. -/
def gather (stop : α → Bool) (f : Tree α → List β) : Tree α → List β
  | mk a ts => if stop a then [] else f (mk a ts) ++ gatherList stop f ts

/-- What `f` reads in the trees of a list, one after the other. -/
def gatherList (stop : α → Bool) (f : Tree α → List β) : List (Tree α) → List β
  | [] => []
  | t :: ts => gather stop f t ++ gatherList stop f ts

end

end Tree

end ZeroProxy
