import DesignPages.Design.Tree
import Mathlib.Data.List.Lex
import Mathlib.Data.List.Sort

/-!
# Positions in a tree

A position says which child to enter at every step down from the root.  Positions are ordered like
words in a dictionary, which puts every place before the places below it, and these before the places
to the right.  The listing of a tree from the root down is its listing in this order.

The places below a position stand together in the listing.  So the listing falls into what stands
before them, they themselves, and what stands behind them, and of two positions of which neither is
below the other the places below one stand before those below the other.
-/

namespace DesignPages

/-- The steps down to a place in a tree, each the number of the child to enter. -/
abbrev Position := List ℕ

namespace Position

/-- One place comes before another one when a tree is listed from the root down. -/
abbrev Precedes : Position → Position → Prop :=
  List.Lex (· < ·)

variable {p q r : Position}

theorem precedes_append_iff (s : Position) : Precedes (s ++ p) (s ++ q) ↔ Precedes p q := by
  induction s with
  | nil => rfl
  | cons i s ih => simpa [Precedes] using ih

/-- What is below a place comes before all that comes behind the place and is not below it. -/
theorem Precedes.append (h : Precedes p q) (hapart : ¬p <+: q) (s : Position) :
    Precedes (p ++ s) q := by
  induction h with
  | nil => exact absurd List.nil_prefix hapart
  | cons _ ih => exact .cons (ih fun h => hapart (List.cons_prefix_cons.mpr ⟨rfl, h⟩))
  | rel h => exact .rel h

/-- A place that is neither before another one nor below it comes behind it. -/
theorem precedes_of_not (hbefore : ¬Precedes q p) (hapart : ¬p <+: q) : Precedes p q := by
  rcases lt_trichotomy p q with h | rfl | h
  · exact h
  · exact absurd List.prefix_rfl hapart
  · exact absurd h hbefore

/-- Places in order, as far as they have a property that those before a place and those below it have:
these stand in front, and in this order. -/
theorem filter_eq_append {ps : List Position} (hps : ps.Pairwise Precedes) (q : Position)
    {P : Position → Bool} (hP : ∀ r, Precedes r q ∨ q <+: r → P r = true) :
    ps.filter P = ps.filter (Precedes · q) ++ ps.filter (q <+: ·) ++
      ps.filter fun r => P r ∧ ¬Precedes r q ∧ ¬q <+: r := by
  have hsub (P : Position → Bool) : (ps.filter P).Pairwise Precedes := hps.filter P
  -- A sorted list is determined by its elements, and the three parts are sorted one behind the other.
  refine (hsub P).eq_of_mem_iff ?_ fun r => ?_
  · rw [List.pairwise_append, List.pairwise_append]
    refine ⟨⟨hsub _, hsub _, fun r hr s hs => ?_⟩, hsub _, fun r hr s hs => ?_⟩
    · have hrq : Precedes r q := by simpa using (List.mem_filter.mp hr).2
      obtain ⟨t, rfl⟩ : q <+: s := by simpa using (List.mem_filter.mp hs).2
      exact List.Lex.append_right _ t hrq
    · obtain ⟨-, hbefore, hbelow⟩ : P s = true ∧ ¬Precedes s q ∧ ¬q <+: s := by
        simpa using (List.mem_filter.mp hs).2
      have hqs : Precedes q s := precedes_of_not hbefore hbelow
      rcases List.mem_append.mp hr with hr | hr
      · have hrq : Precedes r q := by simpa using (List.mem_filter.mp hr).2
        exact List.lt_trans hrq hqs
      · obtain ⟨t, rfl⟩ : q <+: r := by simpa using (List.mem_filter.mp hr).2
        exact hqs.append hbelow t
  · have hr := hP r
    simp only [List.mem_append, List.mem_filter, decide_eq_true_eq]
    tauto

end Position

namespace Tree

open Position (Precedes)

variable {α : Type}

/-- The tree at a position, if there is one. -/
def at? : Tree α → Position → Option (Tree α)
  | t, [] => some t
  | t, i :: p => t.children[i]?.bind fun c => c.at? p

theorem at?_append (t : Tree α) (p q : Position) :
    t.at? (p ++ q) = (t.at? p).bind fun u => u.at? q := by
  induction p generalizing t with
  | nil => rfl
  | cons i p ih =>
      simp only [List.cons_append, at?]
      cases t.children[i]? with
      | none => rfl
      | some c => exact ih c

mutual

/-- The positions in a tree, from the root down. -/
def positions : Tree α → List Position
  | node _ ts => [] :: positionsFrom 0 ts

/-- The positions in the children from the number `i` on. -/
def positionsFrom (i : ℕ) : List (Tree α) → List Position
  | [] => []
  | t :: ts => (positions t).map (i :: ·) ++ positionsFrom (i + 1) ts

end

theorem exists_of_mem_positionsFrom {i : ℕ} {ts : List (Tree α)} {p : Position}
    (h : p ∈ positionsFrom i ts) : ∃ j q, p = j :: q ∧ i ≤ j := by
  induction ts generalizing i with
  | nil => exact absurd h List.not_mem_nil
  | cons t ts ih =>
      rw [positionsFrom, List.mem_append] at h
      rcases h with h | h
      · obtain ⟨q, -, rfl⟩ := List.mem_map.mp h
        exact ⟨i, q, rfl, le_rfl⟩
      · obtain ⟨j, q, rfl, hj⟩ := ih h
        exact ⟨j, q, rfl, Nat.le_of_succ_le hj⟩

mutual

/-- The positions in a tree are listed in their order. -/
theorem positions_pairwise : ∀ t : Tree α, t.positions.Pairwise Precedes
  | node a ts => by
      rw [positions, List.pairwise_cons]
      refine ⟨fun p hp => ?_, positionsFrom_pairwise 0 ts⟩
      obtain ⟨j, q, rfl, -⟩ := exists_of_mem_positionsFrom hp
      exact .nil

theorem positionsFrom_pairwise :
    ∀ (i : ℕ) (ts : List (Tree α)), (positionsFrom i ts).Pairwise Precedes
  | _, [] => .nil
  | i, t :: ts => by
      rw [positionsFrom, List.pairwise_append]
      refine ⟨?_, positionsFrom_pairwise (i + 1) ts, fun p hp q hq => ?_⟩
      · exact (positions_pairwise t).map _ fun _ _ h => .cons h
      · obtain ⟨p, -, rfl⟩ := List.mem_map.mp hp
        obtain ⟨j, q, rfl, hj⟩ := exists_of_mem_positionsFrom hq
        exact .rel (Nat.lt_of_succ_le hj)

end

mutual

/-- The trees at the positions are the trees from the root down. -/
theorem map_at?_positions : ∀ t : Tree α, t.positions.map t.at? = t.subtrees.map some
  | node a ts => by
      have hts := map_at?_positionsFrom a [] ts
      rw [positions, subtrees, List.map_cons, List.map_cons]
      exact congrArg (some (node a ts) :: ·) hts

theorem map_at?_positionsFrom (a : α) : ∀ done ts : List (Tree α),
    (positionsFrom done.length ts).map (node a (done ++ ts)).at? = (subtreesAll ts).map some
  | _, [] => rfl
  | done, t :: ts => by
      have ht := map_at?_positions t
      have hts := map_at?_positionsFrom a (done ++ [t]) ts
      have hstep (p : Position) : (node a (done ++ t :: ts)).at? (done.length :: p) = t.at? p := by
        simp [at?, children]
      rw [positionsFrom, subtreesAll, List.map_append, List.map_append, List.map_map, ← ht]
      congr 1
      · exact List.map_congr_left fun p _ => hstep p
      · simpa using hts

end

theorem mem_positionsFrom {i j : ℕ} {ts : List (Tree α)} {t : Tree α} {p : Position}
    (ht : ts[j]? = some t) (hp : p ∈ t.positions) : (i + j) :: p ∈ positionsFrom i ts := by
  induction ts generalizing i j with
  | nil => simp at ht
  | cons u ts ih =>
      rw [positionsFrom, List.mem_append]
      cases j with
      | zero =>
          obtain rfl : u = t := by simpa using ht
          exact .inl (List.mem_map_of_mem hp)
      | succ j =>
          have hrest : (i + 1 + j) :: p ∈ positionsFrom (i + 1) ts := ih (by simpa using ht)
          rw [Nat.add_right_comm] at hrest
          exact .inr hrest

/-- The listed positions are those at which there is a tree. -/
theorem mem_positions_iff {t : Tree α} {p : Position} : p ∈ t.positions ↔ (t.at? p).isSome := by
  constructor
  · intro hp
    have hat : t.at? p ∈ t.subtrees.map some := by
      rw [← map_at?_positions]
      exact List.mem_map_of_mem hp
    obtain ⟨u, -, hu⟩ := List.mem_map.mp hat
    rw [← hu]
    rfl
  · intro h
    induction p generalizing t with
    | nil =>
        obtain ⟨a, ts⟩ := t
        exact List.mem_cons_self
    | cons i p ih =>
        obtain ⟨a, ts⟩ := t
        rw [at?, children] at h
        cases hc : ts[i]? with
        | none => simp [hc] at h
        | some c =>
            have hp : p ∈ c.positions := ih (by simpa [hc] using h)
            have hmem : (0 + i) :: p ∈ positionsFrom 0 ts := mem_positionsFrom hc hp
            rw [Nat.zero_add] at hmem
            exact List.mem_cons_of_mem _ hmem

/-! ## What stands below a position -/

/-- The positions before a place. -/
def positionsBefore (t : Tree α) (q : Position) : List Position :=
  t.positions.filter (Precedes · q)

/-- The positions behind a place and everything below it. -/
def positionsBehind (t : Tree α) (q : Position) : List Position :=
  t.positions.filter fun r => ¬Precedes r q ∧ ¬q <+: r

variable {t u : Tree α} {q : Position}

/-- The positions below a place are those of the tree there. -/
theorem filter_prefix_positions (h : t.at? q = some u) :
    t.positions.filter (q <+: ·) = u.positions.map (q ++ ·) := by
  refine (t.positions_pairwise.filter _).eq_of_mem_iff ?_ fun r => ?_
  · exact u.positions_pairwise.map _ fun _ _ h => (Position.precedes_append_iff q).mpr h
  · simp only [List.mem_filter, List.mem_map, decide_eq_true_eq]
    constructor
    · rintro ⟨hr, p, rfl⟩
      rw [mem_positions_iff, at?_append, h] at hr
      exact ⟨p, mem_positions_iff.mpr hr, rfl⟩
    · rintro ⟨p, hp, rfl⟩
      rw [mem_positions_iff, at?_append, h]
      exact ⟨mem_positions_iff.mp hp, List.prefix_append q p⟩

/-- The places below a position stand together. -/
theorem positions_eq_append (h : t.at? q = some u) :
    t.positions = t.positionsBefore q ++ u.positions.map (q ++ ·) ++ t.positionsBehind q := by
  have hall := Position.filter_eq_append t.positions_pairwise q (P := fun _ => true) fun _ _ => rfl
  rw [List.filter_true, filter_prefix_positions h] at hall
  simpa [positionsBefore, positionsBehind] using hall

/-- Of two places of which neither is below the other, what is below the first stands before the
second. -/
theorem positionsBefore_prefix {q' : Position} (h : t.at? q = some u) (hq : Precedes q q')
    (hapart : ¬q <+: q') :
    t.positionsBefore q ++ u.positions.map (q ++ ·) <+: t.positionsBefore q' := by
  have hbefore : ∀ r, Precedes r q ∨ q <+: r → decide (Precedes r q') = true := by
    rintro r (hr | ⟨s, rfl⟩)
    · exact decide_eq_true (List.lt_trans hr hq)
    · exact decide_eq_true (hq.append hapart s)
  have hsplit := Position.filter_eq_append t.positions_pairwise q hbefore
  rw [filter_prefix_positions h] at hsplit
  exact ⟨_, hsplit.symm⟩

end Tree
end DesignPages
