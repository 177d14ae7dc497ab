import DesignPages.Component.Template
import DesignPages.Proofs.Component.Structure
import DesignPages.Proofs.Style.Classes
import DesignPages.Proofs.Text.FormEncoding

/-!
# What stays on one line

Neither a name for the looks of a frame nor a text in form encoding holds a line feed, whatever the
design holds.  What a template writes of its own therefore never begins a line by itself.
-/

namespace DesignPages

namespace Text

/-- A line feed in a text is a byte of its UTF-8 form. -/
theorem lineFeed_not_mem_of_bytes {s : String} (h : 10 ∉ s.toByteArray.data.toList) :
    '\n' ∉ s.toList := by
  intro hmem
  apply h
  rw [← String.utf8Encode_toList]
  simpa [List.utf8Encode] using ⟨'\n', hmem, by decide⟩

theorem lineFeed_not_mem_toDigits (n : ℕ) : '\n' ∉ Nat.toDigits 10 n := by
  have hfeed : ¬IsClassCharacter '\n' := by decide
  exact fun h => hfeed (isClassCharacter_of_mem_toDigits h)

theorem lineFeed_not_mem_formEncode (s : String) : '\n' ∉ (formEncode s).toList := by
  have hfeed : ¬IsFormCharacter '\n' := by decide
  exact fun h => hfeed (isFormCharacter_of_mem_formEncode h)

end Text

namespace Template

theorem lineFeed_not_mem_rootClass (c : Category) (style : StyleTokens) :
    '\n' ∉ (rootClass c style).toList := by
  have hfeed : ¬IsClassCharacter '\n' := by decide
  rw [rootClass, String.toList_intercalate]
  apply Text.not_mem_intercalate (by decide)
  intro l hl
  obtain ⟨name, hname, rfl⟩ := List.mem_map.mp hl
  rcases List.mem_cons.mp hname with rfl | hname
  · apply Text.lineFeed_not_mem_of_bytes
    cases c <;> decide
  · exact fun h => hfeed ((StyleTokens.isWord_of_mem_classes hname).characters _ h)

end Template
end DesignPages
