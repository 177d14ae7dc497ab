import DesignPages.Proofs.Design.Position

/-!
# Trees with other values

The values of a tree can be replaced by a function of the value alone, or with regard to the position
as well.  A tree of either kind has the shape of the one that it was made from.
-/

namespace DesignPages
namespace Tree

variable {α β γ : Type}

/-! ## By value -/

mutual

theorem subtrees_map (f : α → β) : ∀ t : Tree α, (t.map f).subtrees = t.subtrees.map (map f)
  | node a ts => by
      have hall := subtreesAll_mapAll f ts
      simp only [map, subtrees, List.map_cons, hall]

theorem subtreesAll_mapAll (f : α → β) :
    ∀ ts : List (Tree α), subtreesAll (mapAll f ts) = (subtreesAll ts).map (map f)
  | [] => rfl
  | t :: ts => by
      have ht := subtrees_map f t
      have hts := subtreesAll_mapAll f ts
      simp only [mapAll, subtreesAll, List.map_append, ht, hts]

end

theorem value_map (f : α → β) (t : Tree α) : (t.map f).value = f t.value := by
  cases t
  rfl

theorem mapAll_eq_map (f : α → β) (ts : List (Tree α)) : mapAll f ts = ts.map (map f) := by
  induction ts with
  | nil => rfl
  | cons t ts ih => rw [mapAll, ih, List.map_cons]

theorem children_map (f : α → β) (t : Tree α) : (t.map f).children = t.children.map (map f) := by
  obtain ⟨a, ts⟩ := t
  exact mapAll_eq_map f ts

theorem values_map (f : α → β) (t : Tree α) : (t.map f).values = t.values.map f := by
  rw [values, values, subtrees_map, List.map_map, List.map_map]
  exact List.map_congr_left fun u _ => value_map f u

theorem at?_map (f : α → β) (t : Tree α) (p : Position) :
    (t.map f).at? p = (t.at? p).map (map f) := by
  induction p generalizing t with
  | nil => rfl
  | cons i p ih =>
      rw [at?, at?, children_map, List.getElem?_map]
      cases t.children[i]? with
      | none => rfl
      | some c => exact ih c

mutual

theorem map_map (f : α → β) (g : β → γ) : ∀ t : Tree α, (t.map f).map g = t.map (g ∘ f)
  | node a ts => by
      have hts := mapAll_mapAll f g ts
      rw [map, map, map, hts]
      rfl

theorem mapAll_mapAll (f : α → β) (g : β → γ) :
    ∀ ts : List (Tree α), mapAll g (mapAll f ts) = mapAll (g ∘ f) ts
  | [] => rfl
  | t :: ts => by
      have ht := map_map f g t
      have hts := mapAll_mapAll f g ts
      rw [mapAll, mapAll, mapAll, ht, hts]

end

/-! ## By position -/

mutual

/-- Replaces the value at every position. -/
def mapAt (f : Position → α → β) : Tree α → Tree β
  | node a ts => node (f [] a) (mapAtFrom f 0 ts)

/-- Replaces the values in the children from the number `i` on. -/
def mapAtFrom (f : Position → α → β) (i : ℕ) : List (Tree α) → List (Tree β)
  | [] => []
  | t :: ts => mapAt (fun p => f (i :: p)) t :: mapAtFrom f (i + 1) ts

end

mutual

/-- What a function of values cannot tell apart may be replaced before it is applied. -/
theorem map_mapAt {f : Position → α → β} {g : β → γ} {h : α → γ} (hg : ∀ p a, g (f p a) = h a) :
    ∀ t : Tree α, (t.mapAt f).map g = t.map h
  | node a ts => by
      have hts := mapAll_mapAtFrom hg 0 ts
      rw [mapAt, map, map, hg, hts]

theorem mapAll_mapAtFrom {f : Position → α → β} {g : β → γ} {h : α → γ}
    (hg : ∀ p a, g (f p a) = h a) :
    ∀ (i : ℕ) (ts : List (Tree α)), mapAll g (mapAtFrom f i ts) = mapAll h ts
  | _, [] => rfl
  | i, t :: ts => by
      have ht := map_mapAt (f := fun p => f (i :: p)) (fun p a => hg (i :: p) a) t
      have hts := mapAll_mapAtFrom hg (i + 1) ts
      rw [mapAtFrom, mapAll, mapAll, ht, hts]

end

end Tree
end DesignPages
