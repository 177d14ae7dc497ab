import DesignPages.CommandLine.Folder
import Mathlib.Data.List.Basic

/-!
# Paths that lead to the same place

Two paths are the same up to repeated slashes and single dots if both or neither start at the root
and the same names are left of them.  This module says which names are left of a path that is joined
to a folder, and that writing to either of two such paths has the same effect in every folder,
provided that both end in a name.
-/

namespace DesignPages
namespace Path

/-- Whether a segment leads nowhere: it is empty or a single dot. -/
def isIdle (s : List Char) : Bool :=
  s == [] || s == ['.']

/-- The names on the way that characters spell. -/
def way (cs : List Char) : List (List Char) :=
  (segments cs).filter fun s => !isIdle s

/-- Two paths are the same up to repeated slashes and single dots. -/
def Same (p q : String) : Prop :=
  isAbsolute p = isAbsolute q ∧ way p.toList = way q.toList

instance (p q : String) : Decidable (Same p q) :=
  inferInstanceAs (Decidable (_ ∧ _))

/-! ## Segments -/

theorem segments_ne_nil (cs : List Char) : segments cs ≠ [] := by
  cases cs with
  | nil => simp [segments]
  | cons c cs =>
      rw [segments]
      split
      · exact List.cons_ne_nil _ _
      · split <;> exact List.cons_ne_nil _ _

theorem segments_append_slash (front rest : List Char) :
    segments (front ++ '/' :: rest) = segments front ++ segments rest := by
  induction front with
  | nil => simp [segments]
  | cons c front ih =>
      by_cases hc : c = '/'
      · simp [segments, hc, ih]
      · obtain ⟨s, ss, hfront⟩ := List.exists_cons_of_ne_nil (segments_ne_nil front)
        simp [segments, hc, ih, hfront]

theorem segments_of_slash_not_mem {cs : List Char} (h : '/' ∉ cs) : segments cs = [cs] := by
  induction cs with
  | nil => rfl
  | cons c cs ih =>
      rw [List.mem_cons, not_or] at h
      rw [segments, if_neg (Ne.symm h.1), ih h.2]

theorem way_append_slash (front rest : List Char) :
    way (front ++ '/' :: rest) = way front ++ way rest := by
  rw [way, segments_append_slash, List.filter_append]
  rfl

/-- A name is all that is left of it. -/
theorem way_of_name {name : List Char} (hslash : '/' ∉ name) (hidle : isIdle name = false) :
    way name = [name] := by
  rw [way, segments_of_slash_not_mem hslash]
  simp [hidle]

/-- Slashes at the end of a path lead nowhere. -/
theorem way_append_slashes (cs : List Char) {slashes : List Char} (h : ∀ d ∈ slashes, d = '/') :
    way (cs ++ slashes) = way cs := by
  induction slashes generalizing cs with
  | nil => rw [List.append_nil]
  | cons d slashes ih =>
      obtain ⟨rfl, hslashes⟩ := List.forall_mem_cons.mp h
      have hrest : way slashes = [] := ih [] hslashes
      rw [way_append_slash, hrest, List.append_nil]

/-! ## Joined paths -/

theorem isAbsolute_append {base : String} (h : base ≠ "") (rest : String) :
    isAbsolute (base ++ rest) = isAbsolute base := by
  have hne : base.toList ≠ [] := fun hnil => h (String.toList_eq_nil_iff.mp hnil)
  obtain ⟨c, cs, hbase⟩ := List.exists_cons_of_ne_nil hne
  simp [isAbsolute, hbase]

theorem join_of_isAbsolute (base : String) {path : String} (h : isAbsolute path = true) :
    join base path = path :=
  if_pos h

theorem join_empty (path : String) : join "" path = path := by
  unfold join
  split_ifs with habsolute hend
  · rfl
  · exact String.empty_append
  · exact absurd rfl hend

/-- A path that does not start at the root goes on from the folder that it is joined to. -/
theorem isAbsolute_join (base : String) {path : String} (h : isAbsolute path = false) :
    isAbsolute (join base path) = isAbsolute base := by
  by_cases hbase : base = ""
  · rw [hbase, join_empty, h]
    rfl
  · have hrelative : ¬isAbsolute path = true := by simp [h]
    rw [join, if_neg hrelative]
    split_ifs
    · exact isAbsolute_append hbase path
    · rw [String.append_assoc]
      exact isAbsolute_append hbase _

/-- In front of the segments of a path that is joined to a folder stand the names of the folder. -/
theorem exists_segments_join (base : String) {path : String} (h : isAbsolute path = false) :
    ∃ front, segments (join base path).toList = front ++ segments path.toList ∧
      front.filter (fun s => !isIdle s) = way base.toList := by
  have hrelative : ¬isAbsolute path = true := by simp [h]
  rw [join, if_neg hrelative]
  split_ifs with hend
  · rw [String.toList_append]
    rcases Bool.or_eq_true_iff.mp hend with hempty | hslash
    · have hbase : base.toList = [] := by simpa using hempty
      exact ⟨[], by rw [hbase]; rfl, by rw [hbase]; rfl⟩
    · obtain ⟨front, hbase⟩ := List.getLast?_eq_some_iff.mp (beq_iff_eq.mp hslash)
      refine ⟨segments front, ?_, ?_⟩
      · rw [hbase, List.append_assoc, List.singleton_append, segments_append_slash]
      · rw [hbase, way_append_slash]
        exact (List.append_nil _).symm
  · refine ⟨segments base.toList, ?_, rfl⟩
    rw [String.toList_append, String.toList_append, List.append_assoc]
    exact segments_append_slash _ _

/-- The names on a joined path are those of the folder and those of the path. -/
theorem way_join (base : String) {path : String} (h : isAbsolute path = false) :
    way (join base path).toList = way base.toList ++ way path.toList := by
  obtain ⟨front, hsegments, hfront⟩ := exists_segments_join base h
  rw [way, hsegments, List.filter_append, hfront]
  rfl

/-- A joined path ends as the path does. -/
theorem getLast?_segments_join (base path : String) :
    (segments (join base path).toList).getLast? = (segments path.toList).getLast? := by
  cases h : isAbsolute path with
  | true => rw [join_of_isAbsolute base h]
  | false =>
      obtain ⟨front, hsegments, -⟩ := exists_segments_join base h
      rw [hsegments, List.getLast?_append_of_ne_nil _ (segments_ne_nil _)]

end Path

/-! ## Places of paths -/

namespace Folder

variable {f : Folder}

theorem step?_of_not_isFolder {place : List String} (h : f.isFolder place = false) (name : String) :
    f.step? place name = none := by
  simp [step?, h]

/-- An idle name leads nowhere, but only in a folder. -/
theorem step?_of_isIdle {name : List Char} (h : Path.isIdle name = true) (place : List String) :
    f.step? place (String.ofList name) = if f.isFolder place = true then some place else none := by
  have hname : ((String.ofList name).isEmpty || String.ofList name == ".") = true := by
    rcases Bool.or_eq_true_iff.mp h with hempty | hdot
    · simp [beq_iff_eq.mp hempty]
    · rw [beq_iff_eq.mp hdot]
      decide
  by_cases hplace : f.isFolder place = true
  · simp [step?, hplace, hname]
  · simp [step?, hplace]

theorem follow?_cons (place : List String) (name : String) (names : List String) :
    f.follow? place (name :: names) = f.step? place name >>= fun next => f.follow? next names := rfl

/-- An idle name in front of another name may be left out. -/
theorem follow?_of_isIdle {s : List Char} (h : Path.isIdle s = true) (place : List String)
    (name : String) (names : List String) :
    f.follow? place (String.ofList s :: name :: names) = f.follow? place (name :: names) := by
  rw [follow?_cons, step?_of_isIdle h]
  by_cases hplace : f.isFolder place = true
  · rw [if_pos hplace]
    rfl
  · rw [if_neg hplace, follow?_cons, step?_of_not_isFolder (Bool.not_eq_true _ ▸ hplace)]
    rfl

/-- On the way to a name, all idle names may be left out. -/
theorem follow?_filter {names : List (List Char)} {last : List Char}
    (hlast : names.getLast? = some last) (hname : Path.isIdle last = false) (place : List String) :
    f.follow? place (names.map String.ofList) =
      f.follow? place ((names.filter fun s => !Path.isIdle s).map String.ofList) := by
  induction names generalizing place with
  | nil => contradiction
  | cons s names ih =>
      cases names with
      | nil =>
          obtain rfl : s = last := Option.some.inj hlast
          simp [hname]
      | cons t names =>
          have hrest := ih (by simpa using hlast)
          by_cases hs : Path.isIdle s = true
          · rw [List.filter_cons_of_neg (by simp [hs]), ← hrest place]
            exact follow?_of_isIdle hs place _ _
          · rw [List.filter_cons_of_pos (by simp [hs])]
            exact congrArg (f.step? place (String.ofList s) >>= ·) (funext hrest)

/-- Writing to a path that ends in a name depends only on where it starts and on the names on it. -/
theorem write?_of_same {p q : String} (h : Path.Same p q) {s t : List Char}
    (hp : (Path.segments p.toList).getLast? = some s) (hs : Path.isIdle s = false)
    (hq : (Path.segments q.toList).getLast? = some t) (ht : Path.isIdle t = false)
    (content : String) : f.write? p content = f.write? q content := by
  have hstart : f.start p = f.start q := by
    rw [start, start, h.1]
  have hplace : f.follow? (f.start p) (names p) = f.follow? (f.start q) (names q) := by
    rw [hstart, names, names, follow?_filter hp hs, follow?_filter hq ht]
    exact congrArg (fun ns => f.follow? (f.start q) (ns.map String.ofList)) h.2
  rw [write?, write?, hplace]

end Folder
end DesignPages
