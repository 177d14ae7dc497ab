import DesignPages.Proofs.Json.Decode
import DesignPages.Proofs.Json.Whole
import Mathlib.Data.List.Sort
import Mathlib.Data.String.Basic

/-!
# What a value says

Two values say the same to a reader that knows certain names if they differ only in the order of
members and in members with other names, in any object inside them.  A reader that takes in a whole
value first finds the members of every object in the order of their keys.  So the members with a known
name stand in the same order in both values, and the others are skipped; what is read, or which fault
is found first, is the same.
-/

namespace DesignPages
namespace Json

variable {names : List String} {v w : Json} {vs ws : List Json} {ms ns : List (String × Json)}

/-! ## Values that say the same -/

/-- The values differ only in the order of members and in members whose names are not listed.  Of a
number only its value counts. -/
inductive SameContent (names : List String) : Json → Json → Prop
  | null : SameContent names .null .null
  | bool (b : Bool) : SameContent names (.bool b) (.bool b)
  | num {l l' : Literal} (h : l.number? = l'.number?) : SameContent names (.num l) (.num l')
  | str (s : String) : SameContent names (.str s) (.str s)
  | arr {vs ws : List Json} (h : List.Forall₂ (SameContent names) vs ws) :
      SameContent names (.arr vs) (.arr ws)
  | obj {ms ns : List (String × Json)}
      (h : ∀ name ∈ names, Option.Rel (SameContent names) (member? name ms) (member? name ns)) :
      SameContent names (.obj ms) (.obj ns)

/-- No object in the value has two members with one key. -/
inductive DistinctKeys : Json → Prop
  | null : DistinctKeys .null
  | bool (b : Bool) : DistinctKeys (.bool b)
  | num (l : Literal) : DistinctKeys (.num l)
  | str (s : String) : DistinctKeys (.str s)
  | arr {vs : List Json} (h : ∀ v ∈ vs, DistinctKeys v) : DistinctKeys (.arr vs)
  | obj {ms : List (String × Json)} (hnodup : (ms.map Prod.fst).Nodup)
      (h : ∀ m ∈ ms, DistinctKeys m.2) : DistinctKeys (.obj ms)

theorem distinctKeys_arr_iff : (arr vs).DistinctKeys ↔ ∀ v ∈ vs, v.DistinctKeys := by
  constructor
  · intro h
    cases h with
    | arr h => exact h
  · exact .arr

theorem distinctKeys_obj_iff :
    (obj ms).DistinctKeys ↔ (ms.map Prod.fst).Nodup ∧ ∀ m ∈ ms, m.2.DistinctKeys := by
  constructor
  · intro h
    cases h with
    | obj hnodup h => exact ⟨hnodup, h⟩
  · rintro ⟨hnodup, h⟩
    exact .obj hnodup h

mutual

theorem SameContent.refl : ∀ v : Json, SameContent names v v
  | .null => .null
  | .bool b => .bool b
  | .num _ => .num rfl
  | .str s => .str s
  | .arr vs => .arr (SameContent.refl_items vs)
  | .obj ms => .obj fun name _ => SameContent.refl_member name ms

theorem SameContent.refl_items : ∀ vs : List Json, List.Forall₂ (SameContent names) vs vs
  | [] => .nil
  | v :: vs => .cons (SameContent.refl v) (SameContent.refl_items vs)

theorem SameContent.refl_member (name : String) : ∀ ms : List (String × Json),
    Option.Rel (SameContent names) (member? name ms) (member? name ms)
  | [] => .none
  | (k, v) :: ms => by
      have hv := SameContent.refl v
      have hms := SameContent.refl_member name ms
      rw [member?]
      split
      · exact .some hv
      · exact hms

end

theorem member?_eq_some_iff (hnodup : (ms.map Prod.fst).Nodup) {key : String} :
    member? key ms = some v ↔ (key, v) ∈ ms := by
  induction ms with
  | nil => simp [member?]
  | cons m ms ih =>
      obtain ⟨k, u⟩ := m
      rw [List.map_cons, List.nodup_cons] at hnodup
      rw [member?, List.mem_cons, Prod.mk.injEq]
      by_cases hkey : k = key
      · subst hkey
        have hnot : (k, v) ∉ ms := fun h => hnodup.1 (List.mem_map.mpr ⟨_, h, rfl⟩)
        simp [hnot, eq_comm]
      · rw [if_neg hkey, ih hnodup.2]
        simp [Ne.symm hkey]

theorem isSome_member?_iff {key : String} :
    (member? key ms).isSome = true ↔ key ∈ ms.map Prod.fst := by
  induction ms with
  | nil => simp [member?]
  | cons m ms ih =>
      obtain ⟨k, u⟩ := m
      rw [member?, List.map_cons, List.mem_cons, eq_comm (a := key)]
      split_ifs with hkey
      · simp [hkey]
      · simp [hkey, ih]

/-- The order of members does not matter. -/
theorem sameContent_of_perm (hnodup : (ms.map Prod.fst).Nodup) (h : ms.Perm ns) :
    SameContent names (.obj ms) (.obj ns) := by
  have hnodup' : (ns.map Prod.fst).Nodup := (h.map Prod.fst).nodup_iff.mp hnodup
  have hmember (name : String) : member? name ms = member? name ns := by
    refine Option.ext fun u => ?_
    rw [member?_eq_some_iff hnodup, member?_eq_some_iff hnodup', h.mem_iff]
  exact .obj fun name _ => hmember name ▸ SameContent.refl_member name ms

/-- A member whose name is not listed does not matter. -/
theorem sameContent_cons {k : String} (hk : k ∉ names) (v : Json) (ms : List (String × Json)) :
    SameContent names (.obj ((k, v) :: ms)) (.obj ms) := by
  refine .obj fun name hname => ?_
  have hne : k ≠ name := fun h => hk (h ▸ hname)
  rw [member?, if_neg hne]
  exact SameContent.refl_member name ms

/-! ## Arranged members -/

/-- Members in the order of their keys, no two with one key. -/
def KeysSorted (ms : List (String × Json)) : Prop :=
  ms.Pairwise fun m n => m.1 < n.1

theorem KeysSorted.nodup (h : KeysSorted ms) : (ms.map Prod.fst).Nodup :=
  List.pairwise_map.mpr (List.Pairwise.imp (fun hlt => ne_of_lt hlt) h)

theorem mem_insertMember {k : String} {m : String × Json} (h : m ∈ insertMember k v ms) :
    m = (k, v) ∨ m ∈ ms := by
  induction ms with
  | nil => exact .inl (List.mem_singleton.mp h)
  | cons n ms ih =>
      obtain ⟨j, u⟩ := n
      rw [insertMember] at h
      split_ifs at h with hkey hlt
      · exact (List.mem_cons.mp h).imp_right (List.mem_cons_of_mem _)
      · exact List.mem_cons.mp h
      · rcases List.mem_cons.mp h with rfl | h
        · exact .inr List.mem_cons_self
        · exact (ih h).imp_right (List.mem_cons_of_mem _)

theorem KeysSorted.insertMember (h : KeysSorted ms) (k : String) (v : Json) :
    KeysSorted (insertMember k v ms) := by
  induction ms with
  | nil => exact List.pairwise_singleton _ _
  | cons n ms ih =>
      obtain ⟨j, u⟩ := n
      obtain ⟨hn, hms⟩ := List.pairwise_cons.mp h
      rw [Json.insertMember]
      split_ifs with hkey hlt
      · subst hkey
        exact List.pairwise_cons.mpr ⟨hn, hms⟩
      · refine List.pairwise_cons.mpr ⟨fun m hm => ?_, h⟩
        rcases List.mem_cons.mp hm with rfl | hm
        · exact hlt
        · exact lt_trans hlt (hn m hm)
      · refine List.pairwise_cons.mpr ⟨fun m hm => ?_, ih hms⟩
        rcases mem_insertMember hm with rfl | hm
        · exact lt_of_le_of_ne (not_lt.mp hlt) (Ne.symm hkey)
        · exact hn m hm

theorem KeysSorted.arrangeMembers {done : List (String × Json)} (h : KeysSorted done)
    (ms : List (String × Json)) : KeysSorted (arrangeMembers ms done) := by
  induction ms generalizing done with
  | nil => rwa [Json.arrangeMembers]
  | cons m ms ih =>
      rw [Json.arrangeMembers]
      exact ih (h.insertMember _ _)

theorem member?_arrangeMembers_or (hnodup : (ms.map Prod.fst).Nodup) (key : String)
    (done : List (String × Json)) :
    member? key (arrangeMembers ms done) =
      ((member? key ms).map arrange).or (member? key done) := by
  induction ms generalizing done with
  | nil => rw [arrangeMembers, member?, Option.map_none, Option.none_or]
  | cons m ms ih =>
      obtain ⟨k, v⟩ := m
      rw [List.map_cons, List.nodup_cons] at hnodup
      rw [arrangeMembers, ih hnodup.2, member?_insertMember, member?]
      by_cases hkey : k = key
      · subst hkey
        have hnone : member? k ms = none := by
          rw [← Option.not_isSome_iff_eq_none, isSome_member?_iff]
          exact hnodup.1
        simp [hnone]
      · rw [if_neg hkey, if_neg hkey]

/-- The member with a key is the arranged one that was written with it. -/
theorem member?_arrangeMembers (hnodup : (ms.map Prod.fst).Nodup) (key : String) :
    member? key (arrangeMembers ms []) = (member? key ms).map arrange := by
  rw [member?_arrangeMembers_or hnodup, member?, Option.or_none]

theorem length_ofItems_arrangeItems (vs : List Json) :
    (Outline.ofItems (arrangeItems vs)).length = vs.length := by
  induction vs with
  | nil => rfl
  | cons v vs ih => rw [arrangeItems, Outline.ofItems, List.length_cons, List.length_cons, ih]

/-! ## Pairs of values -/

/-- The values say the same, and no key is written twice in any object of either. -/
structure Alike (names : List String) (v w : Json) : Prop where
  same : SameContent names v w
  left : v.DistinctKeys
  right : w.DistinctKeys

namespace Alike

theorem items (h : Alike names (.arr vs) (.arr ws)) : List.Forall₂ (Alike names) vs ws := by
  obtain ⟨hsame, hleft, hright⟩ := h
  rw [distinctKeys_arr_iff] at hleft hright
  cases hsame with
  | arr hsame =>
  induction hsame with
  | nil => exact .nil
  | cons hv _ ih =>
      rw [List.forall_mem_cons] at hleft hright
      exact .cons ⟨hv, hleft.1, hright.1⟩ (ih hleft.2 hright.2)

theorem nodup (h : Alike names (.obj ms) (.obj ns)) :
    (ms.map Prod.fst).Nodup ∧ (ns.map Prod.fst).Nodup :=
  ⟨(distinctKeys_obj_iff.mp h.left).1, (distinctKeys_obj_iff.mp h.right).1⟩

/-- The members with a listed name are alike, or there are none in either object. -/
theorem member? (h : Alike names (.obj ms) (.obj ns)) {name : String} (hname : name ∈ names) :
    Option.Rel (Alike names) (Json.member? name ms) (Json.member? name ns) := by
  obtain ⟨hsame, hleft, hright⟩ := h
  obtain ⟨hnodup, hleft⟩ := distinctKeys_obj_iff.mp hleft
  obtain ⟨hnodup', hright⟩ := distinctKeys_obj_iff.mp hright
  cases hsame with
  | obj hsame =>
  have hrel := hsame name hname
  generalize hv : Json.member? name ms = x, hw : Json.member? name ns = y at hrel ⊢
  cases hrel with
  | none => exact .none
  | some hvw =>
      exact .some ⟨hvw, hleft _ ((member?_eq_some_iff hnodup).mp hv),
        hright _ ((member?_eq_some_iff hnodup').mp hw)⟩

/-- A listed name stands in both arranged objects or in neither. -/
theorem isSome_member?_eq (h : Alike names (.obj ms) (.obj ns)) {name : String}
    (hname : name ∈ names) :
    (Json.member? name (arrangeMembers ms [])).isSome =
      (Json.member? name (arrangeMembers ns [])).isSome := by
  have hrel := h.member? hname
  rw [member?_arrangeMembers h.nodup.1, member?_arrangeMembers h.nodup.2]
  generalize Json.member? name ms = x, Json.member? name ns = y at hrel ⊢
  cases hrel <;> rfl

theorem refuse_eq (h : Alike names v w) (wanted : Wanted) :
    (Outline.ofJson v.arrange).refuse wanted = (Outline.ofJson w.arrange).refuse wanted := by
  cases h.same with
  | num hl => simp only [arrange, Outline.ofJson, Outline.refuse, hl]
  | arr _ => simp only [arrange, Outline.ofJson, Outline.refuse]
  | obj _ => simp only [arrange, Outline.ofJson, Outline.refuse]
  | _ => rfl

end Alike

/-! ## Known members -/

/-- The members with a listed name. -/
def known (names : List String) (ms : List (String × Json)) : List (String × Json) :=
  ms.filter fun m => m.1 ∈ names

theorem KeysSorted.known (h : KeysSorted ms) (names : List String) : KeysSorted (known names ms) :=
  h.filter _

theorem mem_map_fst_known {key : String} :
    key ∈ (known names ms).map Prod.fst ↔ key ∈ names ∧ (member? key ms).isSome = true := by
  rw [isSome_member?_iff]
  simp only [known, List.mem_map, List.mem_filter, decide_eq_true_eq]
  constructor
  · rintro ⟨m, ⟨hm, hname⟩, rfl⟩
    exact ⟨hname, m, hm, rfl⟩
  · rintro ⟨hname, m, hm, rfl⟩
    exact ⟨m, ⟨hm, hname⟩, rfl⟩

/-- Lists of members with the same keys are related member by member if any two members with one key
are. -/
theorem forall₂_of_map_fst_eq {R : Json → Json → Prop} :
    ∀ {ms ns : List (String × Json)}, ms.map Prod.fst = ns.map Prod.fst →
      (∀ m ∈ ms, ∀ n ∈ ns, m.1 = n.1 → R m.2 n.2) →
      List.Forall₂ (fun m n => m.1 = n.1 ∧ R m.2 n.2) ms ns
  | [], [], _, _ => .nil
  | m :: ms, n :: ns, hkeys, h => by
      rw [List.map_cons, List.map_cons, List.cons.injEq] at hkeys
      refine .cons ⟨hkeys.1, h m List.mem_cons_self n List.mem_cons_self hkeys.1⟩ ?_
      exact forall₂_of_map_fst_eq hkeys.2 fun m hm n hn =>
        h m (List.mem_cons_of_mem _ hm) n (List.mem_cons_of_mem _ hn)

/-- The values are what alike values are arranged to. -/
def ArrangedAlike (names : List String) (v w : Json) : Prop :=
  ∃ v' w', Alike names v' w' ∧ v = v'.arrange ∧ w = w'.arrange

/-- Arranged objects have the same known members in the same order. -/
theorem Alike.forall₂_known (h : Alike names (.obj ms) (.obj ns)) :
    List.Forall₂ (fun m n => m.1 = n.1 ∧ ArrangedAlike names m.2 n.2)
      (known names (arrangeMembers ms [])) (known names (arrangeMembers ns [])) := by
  have hsorted (ms : List (String × Json)) : KeysSorted (arrangeMembers ms []) :=
    KeysSorted.arrangeMembers .nil ms
  refine forall₂_of_map_fst_eq ?_ fun m hm n hn hkey => ?_
  -- Both lists of keys are sorted, so it is enough that they have the same elements.
  · have hkeys {ms : List (String × Json)} (h : KeysSorted ms) :
        ((known names ms).map Prod.fst).Pairwise (· < ·) :=
      List.pairwise_map.mpr (h.known names)
    refine (hkeys (hsorted ms)).eq_of_mem_iff (hkeys (hsorted ns)) fun key => ?_
    rw [mem_map_fst_known, mem_map_fst_known, and_congr_right_iff]
    intro hname
    rw [h.isSome_member?_eq hname]
  · obtain ⟨key, v⟩ := m
    obtain ⟨key', w⟩ := n
    obtain rfl : key = key' := hkey
    obtain ⟨hm, hname⟩ := List.mem_filter.mp hm
    have hv := (member?_eq_some_iff (hsorted ms).nodup).mpr hm
    have hw := (member?_eq_some_iff (hsorted ns).nodup).mpr (List.mem_filter.mp hn).1
    rw [member?_arrangeMembers h.nodup.1] at hv
    rw [member?_arrangeMembers h.nodup.2] at hw
    have hrel := h.member? (of_decide_eq_true hname)
    obtain ⟨v', hv', rfl⟩ := Option.map_eq_some_iff.mp hv
    obtain ⟨w', hw', rfl⟩ := Option.map_eq_some_iff.mp hw
    rw [hv', hw'] at hrel
    cases hrel with
    | some halike => exact ⟨v', w', halike, rfl, rfl⟩

end Json
end DesignPages
