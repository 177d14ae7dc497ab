/-!
# Trees

This module holds trees with any number of children in order, and their listing from the root down,
every tree before the trees below it.
-/

namespace DesignPages

/-- A tree with a value at every place. -/
inductive Tree (α : Type) where
  | node (value : α) (children : List (Tree α))
  deriving Repr

namespace Tree

variable {α β : Type}

/-- The value at the root. -/
def value : Tree α → α
  | node a _ => a

/-- The trees right below the root. -/
def children : Tree α → List (Tree α)
  | node _ ts => ts

mutual

/-- The tree itself and every tree below it, each before those below it. -/
def subtrees : Tree α → List (Tree α)
  | node a ts => node a ts :: subtreesAll ts

/-- The trees of a list and every tree below them. -/
def subtreesAll : List (Tree α) → List (Tree α)
  | [] => []
  | t :: ts => subtrees t ++ subtreesAll ts

end

/-- The values of the tree in the same order. -/
def values (t : Tree α) : List α :=
  t.subtrees.map value

mutual

/-- Replaces every value. -/
def map (f : α → β) : Tree α → Tree β
  | node a ts => node (f a) (mapAll f ts)

/-- Replaces every value of the trees of a list. -/
def mapAll (f : α → β) : List (Tree α) → List (Tree β)
  | [] => []
  | t :: ts => map f t :: mapAll f ts

end

end Tree
end DesignPages
