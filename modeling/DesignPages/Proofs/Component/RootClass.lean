import DesignPages.Proofs.Component.Shown
import DesignPages.Proofs.Style.Classes
import DesignPages.Proofs.Text.Run

/-!
# The classes of a component

The root element of a component has one class attribute.  It holds the words that belong to the category
and behind them the classes of the style.  No class has a space in it or anything that an attribute
escapes, so that what stands in the source splits at its spaces into exactly these words.
-/

namespace DesignPages
namespace Template

open Markup

/-- The value of an attribute of the element that a source consists of, as it is written. -/
def rootValue? (attributeName source : String) : Option RawValue := do
  match ← tree? source with
  | [root] => root.rawValue? attributeName.toList
  | _ => none

/-- The words of the category. -/
def baseWords (c : Category) : List (List Char) :=
  (baseClass c).toList.splitOn ' '

/-- The classes of a category, as characters: decoding them from their bytes would be slow. -/
theorem exists_baseClass_eq (c : Category) :
    ∃ cs, baseClass c = String.ofList cs ∧ (∀ word ∈ cs.splitOn ' ', word ≠ []) ∧
      ∀ d ∈ cs, escapeAttributeChar d = [d] := by
  cases c <;> exact ⟨_, rfl, by decide +kernel, List.all_iff_forall_prop.mp (by decide +kernel)⟩

theorem ne_nil_of_mem_baseWords {c : Category} {word : List Char} (h : word ∈ baseWords c) :
    word ≠ [] := by
  obtain ⟨cs, hcs, hwords, -⟩ := exists_baseClass_eq c
  rw [baseWords, hcs, String.toList_ofList] at h
  exact hwords word h

theorem escapeAttributeChar_of_mem_baseClass {c : Category} {d : Char}
    (h : d ∈ (baseClass c).toList) : escapeAttributeChar d = [d] := by
  obtain ⟨cs, hcs, -, hself⟩ := exists_baseClass_eq c
  rw [hcs, String.toList_ofList] at h
  exact hself d h

theorem toList_rootClass (c : Category) (style : StyleTokens) :
    (rootClass c style).toList =
      [' '].intercalate ((baseClass c).toList :: style.classes.map String.toList) := by
  rw [rootClass, String.toList_intercalate]
  rfl

/-- The class attribute splits into the words of the category and the classes of the style. -/
theorem splitOn_rootClass (c : Category) (style : StyleTokens) :
    (rootClass c style).toList.splitOn ' ' = baseWords c ++ style.classes.map String.toList := by
  have hspace : ¬IsClassCharacter ' ' := by decide
  rw [toList_rootClass, Text.splitOn_intercalate_cons, baseWords]
  intro l hl
  obtain ⟨name, hname, rfl⟩ := List.mem_map.mp hl
  exact fun h => hspace ((StyleTokens.isWord_of_mem_classes hname).characters _ h)

/-- No word of the class attribute is empty. -/
theorem ne_nil_of_mem_splitOn {c : Category} {style : StyleTokens} {word : List Char}
    (h : word ∈ (rootClass c style).toList.splitOn ' ') : word ≠ [] := by
  rw [splitOn_rootClass, List.mem_append] at h
  rcases h with hword | hclass
  · exact ne_nil_of_mem_baseWords hword
  · obtain ⟨name, hname, rfl⟩ := List.mem_map.mp hclass
    intro hnil
    exact (StyleTokens.isWord_of_mem_classes hname).ne_empty (String.toList_eq_nil_iff.mp hnil)

/-- The classes stand in the attribute as they are. -/
theorem escapeAttribute_rootClass (c : Category) (style : StyleTokens) :
    escapeAttribute (rootClass c style).toList = (rootClass c style).toList := by
  apply escapeAttribute_eq_self
  rw [toList_rootClass]
  apply Text.forall_mem_intercalate
  · exact List.forall_mem_singleton.mpr (by decide)
  · rw [List.forall_mem_cons]
    refine ⟨fun _ => escapeAttributeChar_of_mem_baseClass, fun l hl d hd => ?_⟩
    obtain ⟨name, hname, rfl⟩ := List.mem_map.mp hl
    exact ((StyleTokens.isWord_of_mem_classes hname).characters d hd).escapeAttributeChar_eq

theorem rootValue?_class (c : Category) (name : String) (texts : List String)
    (style : StyleTokens) :
    rootValue? "class" (render c name texts style) =
      some (.quoted (rootClass c style).toList) := by
  have hid : ("class".toList == "id".toList) = false := by decide
  have hlookup : (rawTag (rootTag c) (rootAttributes c name style)).attributes.lookup
      "class".toList = some (.quoted (rootClass c style).toList) := by
    rw [rootAttributes, rawTag, List.cons_append, List.cons_append, List.map_cons, List.map_cons,
      Attribute.raw, Attribute.text, List.lookup_cons, hid]
    simp [Attribute.raw, Attribute.text, AttributeValue.raw, escapeAttribute_rootClass]
  rw [rootValue?, tree?_render]
  exact hlookup

/-- Styles give the same source exactly if they give the same classes. -/
theorem render_eq_iff (c : Category) (name : String) (texts : List String) {s t : StyleTokens} :
    render c name texts s = render c name texts t ↔ s.classes = t.classes := by
  constructor
  · intro h
    have hvalue := rootValue?_class c name texts s
    rw [h, rootValue?_class, Option.some.injEq, RawValue.quoted.injEq] at hvalue
    have hwords := congrArg (List.splitOn ' ') hvalue
    rw [splitOn_rootClass, splitOn_rootClass] at hwords
    exact (List.map_injective_iff.mpr fun _ _ => String.toList_inj.mp)
      (List.append_cancel_left hwords).symm
  · intro h
    simp only [render, source, rootAttributes, rootClass, h]

/-- The class attribute of the root element splits at its spaces into the words of the category and the
classes of the style, in this order, with no empty word.  There is one class for every token that is
there, each without a blank or a character that an attribute escapes, whatever color and length it
holds.  The class of a background holds the digits of its color, which read back as its bytes: six if
alpha is 255, and else eight. -/
theorem render_root_classes (c : Category) (name : String) (texts : List String)
    (style : StyleTokens) :
    (∃ value, rootValue? "class" (render c name texts style) = some (.quoted value) ∧
      value.splitOn ' ' = (baseClass c).toList.splitOn ' ' ++ style.classes.map String.toList ∧
      ∀ word ∈ value.splitOn ' ', word ≠ []) ∧
    style.classes =
      [style.background.map StyleTokens.backgroundClass,
        if style.elevated then some "shadow-lg" else none,
        style.border.map StyleTokens.borderClass, style.fontSize.map FontSize.className,
        style.fontWeight.map FontWeight.className].reduceOption ∧
    (∀ word ∈ style.classes, ∀ d ∈ word.toList,
      Text.isBlank d = false ∧ escapeAttributeChar d = [d]) ∧
    ∀ color, ∃ digits,
      StyleTokens.backgroundClass color = "bg-[#" ++ String.ofList digits ++ "]" ∧
        (∀ d ∈ digits, d ∈ Text.upperDigits) ∧
        digits.length = (if color.toBytes.2.2.2 = 255 then 6 else 8) ∧
        Color.bytesOfHex? digits = some color.toBytes := by
  refine ⟨⟨_, rootValue?_class c name texts style, splitOn_rootClass c style,
    fun _ => ne_nil_of_mem_splitOn⟩, style.classes_eq_reduceOption, ?_, ?_⟩
  · intro word hword d hd
    have hclass := (StyleTokens.isWord_of_mem_classes hword).characters d hd
    exact ⟨hclass.isVisible.isBlank_eq_false, hclass.escapeAttributeChar_eq⟩
  · intro color
    refine ⟨_, StyleTokens.backgroundClass_eq color,
      fun _ => Color.mem_upperDigits_of_mem_digits, ?_, color.bytesOfHex?_digits⟩
    rw [Text.length_flatMap_hexByteUpper, color.length_shownBytes]
    split <;> rfl

/-- The class of a border that is no number is a word as well. -/
theorem render_root_classes_of_nan :
    "border-[NaNpx]" ∈ StyleTokens.classes ⟨none, false, some (0 / 0), none, none⟩ ∧
      ∀ d ∈ "border-[NaNpx]".toList, Text.isBlank d = false ∧ escapeAttributeChar d = [d] := by
  have hmem : "border-[NaNpx]" ∈ StyleTokens.classes ⟨none, false, some (0 / 0), none, none⟩ := by
    decide
  exact ⟨hmem, (render_root_classes .card "Card" [] _).2.2.1 _ hmem⟩

end Template
end DesignPages
