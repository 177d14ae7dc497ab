import DesignPages.Proofs.Json.Ensures

/-!
# Values taken in as a whole

A value that is taken in before any part of it is looked at, and then arranged, is no deeper than it
stands in the text and has the same keys.  How many brackets are allowed inside each other does not
matter for it, as long as it stays below that number.
-/

namespace DesignPages
namespace Json

/-! ## The depth of a value -/

namespace Outline

mutual

/-- How many brackets stand inside each other at most. -/
def depth : Outline → ℕ
  | .arr items _ => depthItems items + 1
  | .obj members _ => depthMembers members + 1
  | _ => 0

/-- The largest depth of an item. -/
def depthItems : List Outline → ℕ
  | [] => 0
  | o :: os => max o.depth (depthItems os)

/-- The largest depth of the value of a member. -/
def depthMembers : List (Key × Outline) → ℕ
  | [] => 0
  | (_, o) :: ms => max o.depth (depthMembers ms)

end

mutual

/-- A value that is taken in as a whole is as deep as it stands in the text. -/
theorem depth_of_visit_eq_ok {room : ℕ} :
    ∀ {o : Outline} {v : Json}, o.visit room = .ok v → (ofJson v).depth = o.depth
  | .null, v, h => by
      rw [visit] at h
      rw [← Except.ok.inj h, ofJson]
  | .bool b, v, h => by
      rw [visit] at h
      rw [← Except.ok.inj h, ofJson]
  | .num l, v, h => by
      rw [visit] at h
      split_ifs at h
      rw [← Except.ok.inj h, ofJson]
  | .str (some s), v, h => by
      rw [visit] at h
      rw [← Except.ok.inj h, ofJson]
  | .str none, v, h => by simp [visit] at h
  | .arr os stop, v, h => by
      rw [visit] at h
      split_ifs at h
      obtain ⟨vs, hvs, h⟩ := exists_of_bind_eq_ok h
      obtain ⟨-, -, h⟩ := exists_of_bind_eq_ok h
      rw [← Except.ok.inj h, ofJson, depth, depth, depthItems_of_visitItems_eq_ok hvs]
  | .obj ms stop, v, h => by
      rw [visit] at h
      split_ifs at h
      obtain ⟨vs, hvs, h⟩ := exists_of_bind_eq_ok h
      obtain ⟨-, -, h⟩ := exists_of_bind_eq_ok h
      rw [← Except.ok.inj h, ofJson, depth, depth, depthMembers_of_visitMembers_eq_ok hvs]
  | .nothing _, v, h => by simp [visit] at h
  | .brokenNull _, v, h => by simp [visit] at h
  | .brokenBool _, v, h => by simp [visit] at h
  | .brokenNumber _, v, h => by simp [visit] at h
  | .brokenText _ _, v, h => by simp [visit] at h

theorem depthItems_of_visitItems_eq_ok {room : ℕ} :
    ∀ {os : List Outline} {vs : List Json}, visitItems room os = .ok vs →
      depthItems (ofItems vs) = depthItems os
  | [], vs, h => by
      rw [visitItems] at h
      rw [← Except.ok.inj h, ofItems]
  | o :: os, vs, h => by
      rw [visitItems] at h
      obtain ⟨w, hw, h⟩ := exists_of_bind_eq_ok h
      obtain ⟨ws, hws, h⟩ := exists_of_bind_eq_ok h
      rw [← Except.ok.inj h, ofItems, depthItems, depthItems, depth_of_visit_eq_ok hw,
        depthItems_of_visitItems_eq_ok hws]

theorem depthMembers_of_visitMembers_eq_ok {room : ℕ} :
    ∀ {ms : List (Key × Outline)} {vs : List (String × Json)}, visitMembers room ms = .ok vs →
      depthMembers (ofMembers vs) = depthMembers ms
  | [], vs, h => by
      rw [visitMembers] at h
      rw [← Except.ok.inj h, ofMembers]
  | (key, o) :: ms, vs, h => by
      rw [visitMembers] at h
      obtain ⟨k, hk, h⟩ := exists_of_bind_eq_ok h
      obtain ⟨w, hw, h⟩ := exists_of_bind_eq_ok h
      obtain ⟨ws, hws, h⟩ := exists_of_bind_eq_ok h
      rw [← Except.ok.inj h, ofMembers, depthMembers, depthMembers, depth_of_visit_eq_ok hw,
        depthMembers_of_visitMembers_eq_ok hws]

end

mutual

/-- A value that is taken in is not deeper than is allowed. -/
theorem depth_le_of_visit_eq_ok {room : ℕ} :
    ∀ {o : Outline} {v : Json}, o.visit room = .ok v → o.depth ≤ room
  | .arr os stop, v, h => by
      rw [visit] at h
      split_ifs at h with hroom
      obtain ⟨vs, hvs, -⟩ := exists_of_bind_eq_ok h
      have hitems := depthItems_le_of_visitItems_eq_ok hvs
      rw [depth]
      omega
  | .obj ms stop, v, h => by
      rw [visit] at h
      split_ifs at h with hroom
      obtain ⟨vs, hvs, -⟩ := exists_of_bind_eq_ok h
      have hmembers := depthMembers_le_of_visitMembers_eq_ok hvs
      rw [depth]
      omega
  | .null, _, _ => Nat.zero_le _
  | .bool _, _, _ => Nat.zero_le _
  | .num _, _, _ => Nat.zero_le _
  | .str _, _, _ => Nat.zero_le _
  | .nothing _, _, _ => Nat.zero_le _
  | .brokenNull _, _, _ => Nat.zero_le _
  | .brokenBool _, _, _ => Nat.zero_le _
  | .brokenNumber _, _, _ => Nat.zero_le _
  | .brokenText _ _, _, _ => Nat.zero_le _

theorem depthItems_le_of_visitItems_eq_ok {room : ℕ} :
    ∀ {os : List Outline} {vs : List Json}, visitItems room os = .ok vs → depthItems os ≤ room
  | [], _, _ => Nat.zero_le _
  | o :: os, vs, h => by
      rw [visitItems] at h
      obtain ⟨w, hw, h⟩ := exists_of_bind_eq_ok h
      obtain ⟨ws, hws, -⟩ := exists_of_bind_eq_ok h
      rw [depthItems]
      exact max_le (depth_le_of_visit_eq_ok hw) (depthItems_le_of_visitItems_eq_ok hws)

theorem depthMembers_le_of_visitMembers_eq_ok {room : ℕ} :
    ∀ {ms : List (Key × Outline)} {vs : List (String × Json)}, visitMembers room ms = .ok vs →
      depthMembers ms ≤ room
  | [], _, _ => Nat.zero_le _
  | (key, o) :: ms, vs, h => by
      rw [visitMembers] at h
      obtain ⟨k, -, h⟩ := exists_of_bind_eq_ok h
      obtain ⟨w, hw, h⟩ := exists_of_bind_eq_ok h
      obtain ⟨ws, hws, -⟩ := exists_of_bind_eq_ok h
      rw [depthMembers]
      exact max_le (depth_le_of_visit_eq_ok hw) (depthMembers_le_of_visitMembers_eq_ok hws)

end

mutual

/-- The number of brackets that are allowed does not matter below it. -/
theorem visit_eq_of_depth_le {room room' : ℕ} :
    ∀ {o : Outline}, o.depth ≤ room → o.depth ≤ room' → o.visit room = o.visit room'
  | .null, _, _ => by rw [visit, visit]
  | .bool _, _, _ => by rw [visit, visit]
  | .num _, _, _ => by rw [visit, visit]
  | .str (some _), _, _ => by rw [visit, visit]
  | .str none, _, _ => by rw [visit, visit]
  | .arr os stop, h, h' => by
      rw [depth] at h h'
      have hitems : visitItems (room - 1) os = visitItems (room' - 1) os :=
        visitItems_eq_of_depth_le (by omega) (by omega)
      rw [visit, visit, if_neg (by omega), if_neg (by omega), hitems]
  | .obj ms stop, h, h' => by
      rw [depth] at h h'
      have hmembers : visitMembers (room - 1) ms = visitMembers (room' - 1) ms :=
        visitMembers_eq_of_depth_le (by omega) (by omega)
      rw [visit, visit, if_neg (by omega), if_neg (by omega), hmembers]
  | .nothing _, _, _ => by rw [visit, visit]
  | .brokenNull _, _, _ => by rw [visit, visit]
  | .brokenBool _, _, _ => by rw [visit, visit]
  | .brokenNumber _, _, _ => by rw [visit, visit]
  | .brokenText _ _, _, _ => by rw [visit, visit]

theorem visitItems_eq_of_depth_le {room room' : ℕ} :
    ∀ {os : List Outline}, depthItems os ≤ room → depthItems os ≤ room' →
      visitItems room os = visitItems room' os
  | [], _, _ => by rw [visitItems, visitItems]
  | o :: os, h, h' => by
      rw [depthItems] at h h'
      have hvalue : o.visit room = o.visit room' := visit_eq_of_depth_le (by omega) (by omega)
      have hrest : visitItems room os = visitItems room' os :=
        visitItems_eq_of_depth_le (by omega) (by omega)
      rw [visitItems, visitItems, hvalue, hrest]

theorem visitMembers_eq_of_depth_le {room room' : ℕ} :
    ∀ {ms : List (Key × Outline)}, depthMembers ms ≤ room → depthMembers ms ≤ room' →
      visitMembers room ms = visitMembers room' ms
  | [], _, _ => by rw [visitMembers, visitMembers]
  | (key, o) :: ms, h, h' => by
      rw [depthMembers] at h h'
      have hvalue : o.visit room = o.visit room' := visit_eq_of_depth_le (by omega) (by omega)
      have hrest : visitMembers room ms = visitMembers room' ms :=
        visitMembers_eq_of_depth_le (by omega) (by omega)
      rw [visitMembers, visitMembers, hvalue, hrest]

end

/-! ## Arranged values -/

theorem depthMembers_insertMember_le (k : String) (v : Json) (ms : List (String × Json)) :
    depthMembers (ofMembers (insertMember k v ms)) ≤
      max (ofJson v).depth (depthMembers (ofMembers ms)) := by
  induction ms with
  | nil => simp [insertMember, ofMembers, depthMembers]
  | cons m ms ih =>
      obtain ⟨j, w⟩ := m
      rw [insertMember]
      split_ifs <;> simp only [ofMembers, depthMembers] <;> omega

mutual

/-- Arranging a value does not make it deeper. -/
theorem depth_arrange_le : ∀ v : Json, (ofJson v.arrange).depth ≤ (ofJson v).depth
  | .null => by simp [arrange]
  | .bool _ => by simp [arrange]
  | .num _ => by simp [arrange]
  | .str _ => by simp [arrange]
  | .arr vs => by
      rw [arrange, ofJson, ofJson, depth, depth]
      exact Nat.succ_le_succ (depthItems_arrangeItems_le vs)
  | .obj ms => by
      have h := depthMembers_arrangeMembers_le ms []
      rw [arrange, ofJson, ofJson, depth, depth]
      rw [ofMembers, depthMembers] at h
      omega

theorem depthItems_arrangeItems_le :
    ∀ vs : List Json, depthItems (ofItems (arrangeItems vs)) ≤ depthItems (ofItems vs)
  | [] => by rw [arrangeItems]
  | v :: vs => by
      have hv := depth_arrange_le v
      have hvs := depthItems_arrangeItems_le vs
      rw [arrangeItems, ofItems, ofItems, depthItems, depthItems]
      omega

theorem depthMembers_arrangeMembers_le : ∀ ms done : List (String × Json),
    depthMembers (ofMembers (arrangeMembers ms done)) ≤
      max (depthMembers (ofMembers ms)) (depthMembers (ofMembers done))
  | [], done => by
      rw [arrangeMembers]
      exact Nat.le_max_right _ _
  | (k, v) :: ms, done => by
      have hv := depth_arrange_le v
      have hms := depthMembers_arrangeMembers_le ms (insertMember k v.arrange done)
      have hinsert := depthMembers_insertMember_le k v.arrange done
      rw [arrangeMembers, ofMembers, depthMembers]
      omega

end

/-! ## Keys -/

/-- A value that is taken in keeps its keys. -/
theorem map_fst_of_visitMembers_eq_ok {room : ℕ} :
    ∀ {ms : List (Key × Outline)} {vs : List (String × Json)}, visitMembers room ms = .ok vs →
      ms.map Prod.fst = vs.map fun m => .text m.1
  | [], vs, h => by
      rw [visitMembers] at h
      rw [← Except.ok.inj h, List.map_nil, List.map_nil]
  | (key, o) :: ms, vs, h => by
      rw [visitMembers] at h
      obtain ⟨k, hk, h⟩ := exists_of_bind_eq_ok h
      obtain ⟨w, -, h⟩ := exists_of_bind_eq_ok h
      obtain ⟨ws, hws, h⟩ := exists_of_bind_eq_ok h
      have hkey : key = .text k := by
        cases key with
        | text s => rw [Except.ok.inj hk]
        | _ => simp [Key.read] at hk
      rw [← Except.ok.inj h, List.map_cons, List.map_cons, map_fst_of_visitMembers_eq_ok hws, hkey]

end Outline

theorem member?_insertMember (key k : String) (v : Json) (ms : List (String × Json)) :
    member? key (insertMember k v ms) = if k = key then some v else member? key ms := by
  induction ms with
  | nil => rfl
  | cons m ms ih =>
      obtain ⟨j, w⟩ := m
      rw [insertMember]
      by_cases heq : k = j
      · subst heq
        rw [if_pos rfl, member?, member?]
        split_ifs <;> rfl
      by_cases hlt : k < j
      · rw [if_neg heq, if_pos hlt, member?]
      · rw [if_neg heq, if_neg hlt, member?, ih, member?]
        by_cases hkey : k = key
        · have hne : j ≠ key := fun h => heq (hkey.trans h.symm)
          rw [if_neg hne, if_pos hkey, if_pos hkey]
        · rw [if_neg hkey, if_neg hkey]

theorem isSome_member?_insertMember (key k : String) (v : Json) (ms : List (String × Json)) :
    (member? key (insertMember k v ms)).isSome = true ↔
      k = key ∨ (member? key ms).isSome = true := by
  rw [member?_insertMember]
  split_ifs with hkey <;> simp [hkey]

/-- An arranged object has the keys that are written in it. -/
theorem isSome_member?_arrangeMembers (key : String) (ms done : List (String × Json)) :
    (member? key (arrangeMembers ms done)).isSome = true ↔
      key ∈ ms.map Prod.fst ∨ (member? key done).isSome = true := by
  induction ms generalizing done with
  | nil => simp [arrangeMembers]
  | cons m ms ih =>
      obtain ⟨k, v⟩ := m
      rw [arrangeMembers, ih, isSome_member?_insertMember, List.map_cons, List.mem_cons,
        eq_comm (a := key)]
      tauto

/-! ## Texts -/

theorem orBroken_eq_ok {α : Type} {x : Except Break α} {a : α} (h : orBroken x = .ok a) :
    x = .ok a := by
  cases x with
  | error why => contradiction
  | ok b => rw [Except.ok.inj h]

/-- What is taken in from a text is its arranged value. -/
theorem exists_of_readWhole_eq_ok {text : String} {v : Json} (h : readWhole text = .ok v) :
    ∃ w, (Outline.ofChars text.toList).1.visit Setting.depthLimit = .ok w ∧ w.arrange = v := by
  obtain ⟨w, hw, h⟩ := exists_of_bind_eq_ok h
  obtain ⟨-, -, h⟩ := exists_of_bind_eq_ok h
  exact ⟨w, orBroken_eq_ok hw, Except.ok.inj h⟩

theorem depth_le_of_readWhole_eq_ok {text : String} {v : Json} (h : readWhole text = .ok v) :
    (Outline.ofJson v).depth ≤ Setting.depthLimit := by
  obtain ⟨w, hw, rfl⟩ := exists_of_readWhole_eq_ok h
  calc (Outline.ofJson w.arrange).depth
      ≤ (Outline.ofJson w).depth := Outline.depth_arrange_le w
    _ = (Outline.ofChars text.toList).1.depth := Outline.depth_of_visit_eq_ok hw
    _ ≤ Setting.depthLimit := Outline.depth_le_of_visit_eq_ok hw

end Json
end DesignPages
