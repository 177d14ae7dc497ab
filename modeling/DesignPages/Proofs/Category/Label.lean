import DesignPages.Proofs.Frame.Naming
import DesignPages.Proofs.Text.Ascii
import DesignPages.Proofs.Text.Trim
import Mathlib.Data.List.Forall2

/-!
# Reading a label

A text is read as a category exactly if what is left of it without the blanks around it spells the
label of the category, where a letter may stand for the other form of the same ASCII letter.  Labels
stay different when the case of their letters is ignored, so that a text names at most one category.
Every other text is refused, and the refusal repeats it as it was given.
-/

namespace DesignPages
namespace Category

open Text (SameLetter IsTrimmed IsPadded trimChars)

/-- The characters are those of the label of the category, up to the case of ASCII letters. -/
def Spells (core : List Char) (c : Category) : Prop :=
  List.Forall₂ SameLetter core c.label.toList

theorem sameIgnoringCase_eq_true_iff {s t : String} :
    sameIgnoringCase s t = true ↔ List.Forall₂ SameLetter t.toList s.toList := by
  have hletters : (fun a b : Char => a.toLower = b.toLower) = SameLetter :=
    funext fun _ => funext fun _ => propext Text.toLower_eq_toLower_iff
  rw [sameIgnoringCase_iff, foldCase, foldCase, ← hletters, eq_comm, ← List.forall₂_eq_eq_eq,
    List.forall₂_map_left_iff, List.forall₂_map_right_iff]

theorem sameIgnoringCase_label_trim {s : String} {c : Category} :
    sameIgnoringCase c.label (Text.trim s) = true ↔ Spells (trimChars s.toList) c := by
  rw [sameIgnoringCase_eq_true_iff, Text.trim, String.toList_ofList, Spells]

namespace Spells

variable {core : List Char} {c d : Category}

theorem isAlpha (h : Spells core c) : ∀ x ∈ core, x.isAlpha = true := by
  have hletters : ∀ y ∈ c.label.toList, y.isAlpha = true := fun _ => isAlpha_of_mem_label
  rw [Spells] at h
  generalize c.label.toList = label at h hletters
  induction h with
  | nil => exact fun _ hx => absurd hx List.not_mem_nil
  | cons hletter _ ih =>
      obtain ⟨hy, hrest⟩ := List.forall_mem_cons.mp hletters
      exact List.forall_mem_cons.mpr ⟨hletter.isAlpha hy, ih hrest⟩

theorem isBlank_eq_false (h : Spells core c) {x : Char} (hx : x ∈ core) :
    Text.isBlank x = false :=
  (Text.isVisible_of_isAlpha (h.isAlpha x hx)).isBlank_eq_false

/-- A label begins and ends with a letter. -/
theorem isTrimmed (h : Spells core c) : IsTrimmed core where
  head := by
    cases hhead : core.head? with
    | none => rfl
    | some x => exact h.isBlank_eq_false (List.mem_of_head? hhead)
  last := by
    cases hlast : core.getLast? with
    | none => rfl
    | some x => exact h.isBlank_eq_false (List.mem_of_getLast? hlast)

theorem trimChars_eq {cs : List Char} (h : Spells core c) (hpadded : IsPadded core cs) :
    trimChars cs = core :=
  Text.trimChars_eq_iff.mpr ⟨h.isTrimmed, hpadded⟩

/-- At most one label is spelled. -/
theorem unique (hc : Spells core c) (hd : Spells core d) : c = d := by
  rw [Spells, ← String.toList_ofList (l := core)] at hc hd
  rw [← sameIgnoringCase_eq_true_iff, sameIgnoringCase_iff] at hc hd
  exact foldCase_label_injective (hc.trans hd.symm)

end Spells

theorem spells_label (c : Category) : Spells c.label.toList c :=
  List.forall₂_same.mpr fun x _ => SameLetter.refl x

theorem mem_all (c : Category) : c ∈ all := by
  cases c <;> decide

section Read

variable {s : String} {c : Category}

theorem ofLabel?_eq_some_iff : ofLabel? s = some c ↔ Spells (trimChars s.toList) c := by
  have hsound (d : Category) (h : ofLabel? s = some d) : Spells (trimChars s.toList) d := by
    rw [ofLabel?] at h
    have hsame : sameIgnoringCase d.label (Text.trim s) = true :=
      (List.find?_eq_some_iff_append.mp h).1
    exact sameIgnoringCase_label_trim.mp hsame
  constructor
  · exact hsound c
  · intro h
    have hfound : (ofLabel? s).isSome = true := by
      rw [ofLabel?, List.find?_isSome]
      exact ⟨c, mem_all c, sameIgnoringCase_label_trim.mpr h⟩
    obtain ⟨d, hd⟩ := Option.isSome_iff_exists.mp hfound
    rw [hd, h.unique (hsound d hd)]

theorem ofLabel?_eq_none_iff : ofLabel? s = none ↔ ¬∃ c, Spells (trimChars s.toList) c := by
  simp only [Option.eq_none_iff_forall_ne_some, ne_eq, ofLabel?_eq_some_iff, not_exists]

theorem ofLabel?_label (c : Category) : ofLabel? c.label = some c := by
  have hpadded : IsPadded c.label.toList c.label.toList := ⟨[], [], by simp, by simp, by simp⟩
  rw [ofLabel?_eq_some_iff, (spells_label c).trimChars_eq hpadded]
  exact spells_label c

theorem ofLabel_eq_ok_iff : ofLabel s = .ok c ↔ Spells (trimChars s.toList) c := by
  rw [← ofLabel?_eq_some_iff, ofLabel]
  cases ofLabel? s <;> simp

theorem ofLabel_eq_error_iff {e : UnknownLabel} :
    ofLabel s = .error e ↔ e = ⟨s⟩ ∧ ¬∃ c, Spells (trimChars s.toList) c := by
  rw [← ofLabel?_eq_none_iff, ofLabel]
  cases ofLabel? s <;> simp [eq_comm]

end Read

/-- What becomes of a text that should name a category.  It names the one whose label its core spells,
the part of it with no blank at either end and only blanks around it, and however the label is padded
and whatever the case of its letters is, it is read.  No other category has a label that is spelled
like this.  A text that spells no label is refused as it was given, and so is every text with anything
but ASCII letters in its core.  The label of what was read is read again. -/
theorem ofLabel_outcome (s : String) :
    (∀ c, ofLabel s = .ok c ↔
      ∃ core, IsTrimmed core ∧ IsPadded core s.toList ∧ Spells core c) ∧
    (∀ c core, IsPadded core s.toList → Spells core c → ofLabel s = .ok c) ∧
    (∀ c d core, Spells core c → Spells core d → c = d) ∧
    (∀ e, ofLabel s = .error e ↔
      e = ⟨s⟩ ∧ ¬∃ c core, IsPadded core s.toList ∧ Spells core c) ∧
    (∀ core, IsTrimmed core → IsPadded core s.toList → (∃ x ∈ core, x.isAlpha = false) →
      ofLabel s = .error ⟨s⟩) ∧
    ∀ c, ofLabel s = .ok c → ofLabel c.label = .ok c := by
  have hcore (c : Category) :
      Spells (trimChars s.toList) c ↔ ∃ core, IsPadded core s.toList ∧ Spells core c := by
    constructor
    · exact fun h => ⟨_, Text.trimChars_isPadded _, h⟩
    · rintro ⟨core, hpadded, hspells⟩
      rwa [hspells.trimChars_eq hpadded]
  refine ⟨fun c => ?_, fun c core hpadded hspells => ?_, fun c d core => Spells.unique,
    fun e => ?_, ?_, fun c _ => ?_⟩
  · rw [ofLabel_eq_ok_iff, hcore]
    refine exists_congr fun core => ?_
    exact ⟨fun h => ⟨h.2.isTrimmed, h⟩, fun h => h.2⟩
  · exact ofLabel_eq_ok_iff.mpr ((hcore c).mpr ⟨core, hpadded, hspells⟩)
  · simp only [ofLabel_eq_error_iff, hcore]
  · rintro core htrimmed hpadded ⟨x, hx, hletter⟩
    refine ofLabel_eq_error_iff.mpr ⟨rfl, ?_⟩
    rintro ⟨c, hspells⟩
    rw [Text.trimChars_eq_iff.mpr ⟨htrimmed, hpadded⟩] at hspells
    exact absurd (hspells.isAlpha x hx) (by simp [hletter])
  · exact ofLabel_eq_ok_iff.mpr (ofLabel?_eq_some_iff.mp (ofLabel?_label c))

/-- Ideographic and other blanks are dropped, and a long s is no form of an ASCII letter. -/
example :
    ofLabel "\u3000cTa\u2028\n" = .ok .cta ∧ ofLabel " ſection" = .error ⟨" ſection"⟩ ∧
      ofLabel "About Us" = .error ⟨"About Us"⟩ := by
  decide +kernel

end Category
end DesignPages
