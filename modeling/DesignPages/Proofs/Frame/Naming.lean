import DesignPages.Proofs.Frame.Selection
import Mathlib.Data.List.Pairwise

/-!
# Names of components

A name is a label, which consists of letters, with the digits of a number behind it or none.  This
module shows that such a name determines its category and its number even when the case of letters is
ignored, and that the names of the selected components are therefore pairwise distinct.

Names are compared by their folded form, in which every ASCII letter is a small one.
-/

namespace DesignPages

/-! ## Folding the case of ASCII letters -/

/-- A text with every ASCII letter as a small one. -/
def foldCase (s : String) : List Char :=
  s.toList.map Char.toLower

theorem sameIgnoringCase_iff {s t : String} :
    Category.sameIgnoringCase s t = true ↔ foldCase s = foldCase t := by
  simp [Category.sameIgnoringCase, foldCase]

theorem foldCase_append (s t : String) :
    foldCase (s ++ t) = foldCase s ++ foldCase t := by
  simp [foldCase]

/-- A digit is not changed by folding. -/
theorem toLower_of_isDigit {c : Char} (h : c.isDigit = true) : c.toLower = c := by
  have hbound : c.val.toNat ≤ 57 := by
    simp only [Char.isDigit, Bool.and_eq_true, decide_eq_true_eq] at h
    exact h.2
  have hsmall : ¬(c.val ≥ 'A'.val ∧ c.val ≤ 'Z'.val) := by
    rintro ⟨hupper, -⟩
    have hleft : 65 ≤ c.val.toNat := UInt32.le_iff_toNat_le.mp hupper
    omega
  exact dif_neg hsmall

/-- A name that a script can use: a letter, followed by letters and digits only. -/
def IsIdentifier (s : String) : Prop :=
  ∃ c cs, s.toList = c :: cs ∧ c.isAlpha = true ∧ ∀ d ∈ cs, d.isAlphanum = true

/-! ## Labels and numbers -/

namespace Category

theorem isAlpha_of_mem_label {c : Category} {d : Char} (h : d ∈ c.label.toList) :
    d.isAlpha = true := by
  have hall : ∀ c : Category, c.label.toList.all Char.isAlpha = true := by
    intro c
    cases c <;> decide
  exact List.all_eq_true.mp (hall c) d h

theorem not_isDigit_of_mem_foldCase_label {c : Category} {d : Char}
    (h : d ∈ foldCase c.label) :
    d.isDigit = false := by
  have hall : ∀ c : Category, (foldCase c.label).all (fun d => !d.isDigit) = true := by
    intro c
    cases c <;> decide
  simpa using List.all_eq_true.mp (hall c) d h

theorem foldCase_label_injective {c d : Category}
    (h : foldCase c.label = foldCase d.label) :
    c = d := by
  have hall : ∀ c d : Category, foldCase c.label = foldCase d.label → c = d := by
    intro c d
    cases c <;> cases d <;> decide
  exact hall c d h

end Category

/-- The digits behind the label in the name with a number. -/
def numberSuffix (number : ℕ) : List Char :=
  if number ≤ 1 then [] else Nat.toDigits 10 number

theorem isDigit_of_mem_numberSuffix {number : ℕ} {c : Char} (h : c ∈ numberSuffix number) :
    c.isDigit = true := by
  unfold numberSuffix at h
  split at h
  · simp at h
  · exact Nat.isDigit_of_mem_toDigits (by decide) (by decide) h

/-- From one on, numbers with the same suffix are equal. -/
theorem numberSuffix_injective {k j : ℕ} (hk : 1 ≤ k) (hj : 1 ≤ j)
    (h : numberSuffix k = numberSuffix j) :
    k = j := by
  have hnil (n : ℕ) : Nat.toDigits 10 n ≠ [] := Nat.toDigits_ne_nil
  unfold numberSuffix at h
  split at h <;> split at h
  · omega
  · exact absurd h.symm (hnil j)
  · exact absurd h (hnil k)
  · have hread := congrArg (fun ds => Nat.ofDigitChars 10 ds 0) h
    simpa using hread

namespace Ledger

theorem toList_nameOf (c : Category) (number : ℕ) :
    (nameOf c number).toList = c.label.toList ++ numberSuffix number := by
  unfold nameOf numberSuffix
  split
  · simp
  · simp

theorem foldCase_nameOf (c : Category) (number : ℕ) :
    foldCase (nameOf c number) = foldCase c.label ++ numberSuffix number := by
  have hdigits : (numberSuffix number).map Char.toLower = numberSuffix number := by
    rw [List.map_congr_left fun d hd => toLower_of_isDigit (isDigit_of_mem_numberSuffix hd)]
    exact List.map_id'' (fun _ => rfl) _
  simp [foldCase, toList_nameOf, hdigits]

/-- The folded name ends its letters where its digits begin. -/
theorem takeWhile_foldCase_nameOf (c : Category) (number : ℕ) :
    (foldCase (nameOf c number)).takeWhile (fun d => !d.isDigit) = foldCase c.label := by
  rw [foldCase_nameOf, List.takeWhile_append_of_pos]
  · have hstop : (numberSuffix number).takeWhile (fun d => !d.isDigit) = [] := by
      cases hsuffix : numberSuffix number with
      | nil => rfl
      | cons d ds =>
          have hd : d.isDigit = true :=
            isDigit_of_mem_numberSuffix (hsuffix ▸ List.mem_cons_self)
          simp [hd]
    rw [hstop, List.append_nil]
  · intro d hd
    simp [Category.not_isDigit_of_mem_foldCase_label hd]

/-- A name determines its category and its number, whatever the case of its letters. -/
theorem nameOf_injective {c d : Category} {k j : ℕ} (hk : 1 ≤ k) (hj : 1 ≤ j)
    (h : foldCase (nameOf c k) = foldCase (nameOf d j)) :
    c = d ∧ k = j := by
  have hlabel : foldCase c.label = foldCase d.label := by
    rw [← takeWhile_foldCase_nameOf c k, h, takeWhile_foldCase_nameOf]
  have hcategory := Category.foldCase_label_injective hlabel
  subst hcategory
  rw [foldCase_nameOf, foldCase_nameOf] at h
  exact ⟨rfl, numberSuffix_injective hk hj (List.append_cancel_left h)⟩

theorem nameOf_isIdentifier (c : Category) (number : ℕ) :
    IsIdentifier (nameOf c number) := by
  have hlabel : c.label.toList ≠ [] := by cases c <;> decide
  obtain ⟨d, ds, hds⟩ := List.exists_cons_of_ne_nil hlabel
  refine ⟨d, ds ++ numberSuffix number, ?_, ?_, ?_⟩
  · rw [toList_nameOf, hds, List.cons_append]
  · exact Category.isAlpha_of_mem_label (c := c) (by simp [hds])
  · intro e he
    rcases List.mem_append.mp he with he | he
    · have halpha := Category.isAlpha_of_mem_label (c := c) (d := e) (by simp [hds, he])
      simp [Char.isAlphanum, halpha]
    · simp [Char.isAlphanum, isDigit_of_mem_numberSuffix he]

/-- No name with the ending of a component file is the name of the page file. -/
theorem nameOf_append_ne_fileName (c : Category) (number : ℕ) :
    foldCase (nameOf c number ++ ".astro") ≠ foldCase Page.fileName := by
  intro h
  have hhead := congrArg List.head? h
  rw [foldCase_append, foldCase_nameOf, List.append_assoc] at hhead
  revert hhead
  cases c <;> simp [foldCase, Category.label, Page.fileName]

end Ledger

/-! ## The names in a selection -/

/-- The number under which the selected frame `a` at position `i` is named. -/
def selectedNumber (frames : List AnalyzedFrame) (i : ℕ) (a : AnalyzedFrame) : ℕ :=
  if a.category = .gallery then galleryNumber frames i else 1

theorem one_le_selectedNumber (frames : List AnalyzedFrame) (i : ℕ) (a : AnalyzedFrame) :
    1 ≤ selectedNumber frames i a := by
  unfold selectedNumber galleryNumber
  split <;> omega

theorem selectedName_eq_nameOf (frames : List AnalyzedFrame) (i : ℕ) (a : AnalyzedFrame) :
    selectedName frames i a = Ledger.nameOf a.category (selectedNumber frames i a) := by
  unfold selectedName selectedNumber Ledger.nameOf
  by_cases hgallery : a.category = .gallery
  · by_cases hsecond : 2 ≤ galleryNumber frames i
    · have hmany : ¬galleryNumber frames i ≤ 1 := by omega
      simp [hgallery, hsecond, hmany]
    · have hfirst : galleryNumber frames i ≤ 1 := by omega
      simp [hgallery, hsecond, hfirst]
  · simp [hgallery]

/-- Behind a selected gallery the galleries are numbered higher. -/
theorem galleryNumber_lt {frames : List AnalyzedFrame} {i j : ℕ} (hij : i < j)
    (hj : j ≤ frames.length) (hkept : ¬(frames[i]).IsSkipped)
    (hgallery : (frames[i]).category = .gallery) :
    galleryNumber frames i < galleryNumber frames j := by
  have hi : i < frames.length := by omega
  have hsplit : frames.take (i + 1) = frames.take i ++ [frames[i]] :=
    (List.take_append_getElem hi).symm
  have hprefix : (frames.take (i + 1)).Sublist (frames.take j) :=
    (List.take_prefix_take_left (by omega)).sublist
  have hle := hprefix.countP_le (p := fun b => ¬b.IsSkipped ∧ b.category = .gallery)
  rw [hsplit, List.countP_append] at hle
  simp only [List.countP_singleton, hkept, hgallery, not_false_eq_true, and_self,
    decide_true, if_true] at hle
  unfold galleryNumber
  omega

/-- Two selected frames at different positions have different names, whatever the case. -/
theorem foldCase_selectedName_ne {frames : List AnalyzedFrame} {i j : ℕ} (hij : i < j)
    (hj : j < frames.length)
    (hselected : IsSelected frames i (frames[i])) (hselected' : IsSelected frames j (frames[j])) :
    foldCase (selectedName frames i (frames[i])) ≠ foldCase (selectedName frames j (frames[j])) := by
  intro h
  rw [selectedName_eq_nameOf, selectedName_eq_nameOf] at h
  obtain ⟨hcategory, hnumber⟩ := Ledger.nameOf_injective
    (one_le_selectedNumber _ _ _) (one_le_selectedNumber _ _ _) h
  have hmem : frames[i] ∈ frames.take j := by
    rw [List.mem_take_iff_getElem]
    exact ⟨i, by omega, rfl⟩
  have hgallery : (frames[j]).category = .gallery :=
    hselected'.2.resolve_right fun hnone => hnone _ hmem hselected.1 hcategory
  rw [selectedNumber, selectedNumber, if_pos (hcategory.trans hgallery), if_pos hgallery] at hnumber
  have hlt := galleryNumber_lt hij (Nat.le_of_lt hj) hselected.1 (hcategory.trans hgallery)
  omega

/-- The names of the selected components are pairwise distinct, whatever the case. -/
theorem selection_names_pairwise (frames : List AnalyzedFrame) :
    (selection frames).Pairwise fun x y => foldCase x.name ≠ foldCase y.name := by
  unfold selection
  rw [List.pairwise_filterMap, List.pairwise_iff_getElem]
  intro i j hi hj hij x hx y hy
  simp only [List.getElem_zipIdx, Nat.zero_add] at hx hy
  split at hx <;> simp only [Option.some.injEq, reduceCtorEq] at hx
  split at hy <;> simp only [Option.some.injEq, reduceCtorEq] at hy
  next hselected hselected' =>
    subst hx hy
    exact foldCase_selectedName_ne hij (by simpa using hj) hselected hselected'

/-- Every selected component is named by a category and a number. -/
theorem exists_nameOf_of_mem_selection {frames : List AnalyzedFrame} {x : Component}
    (h : x ∈ selection frames) :
    ∃ number, x.name = Ledger.nameOf x.category number := by
  obtain ⟨⟨a, i⟩, -, hx⟩ := List.mem_filterMap.mp h
  split at hx
  · cases hx
    exact ⟨selectedNumber frames i a, selectedName_eq_nameOf frames i a⟩
  · simp at hx

theorem isIdentifier_of_mem_selection {frames : List AnalyzedFrame} {x : Component}
    (h : x ∈ selection frames) : IsIdentifier x.name := by
  obtain ⟨number, hname⟩ := exists_nameOf_of_mem_selection h
  rw [hname]
  exact Ledger.nameOf_isIdentifier x.category number

end DesignPages
