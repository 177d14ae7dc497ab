import DesignPages.Link
import DesignPages.Proofs.Text.Ascii
import DesignPages.Proofs.Text.Run
import Mathlib.Tactic.Tauto

/-!
# The key in a share link

A link holds a key where a marker stands with at least one key character behind it, and the key goes on
up to the first other character.  The search tries one place after the other.  This module shows that it
finds the key at the first of these places, and that it fails exactly if there is none.  Markers without
a key behind them are passed over, and a marker can be the key of another one.
-/

namespace DesignPages
namespace Link

/-! ## Places of keys -/

/-- The characters that keys consist of: ASCII letters and digits, `_` and `-`. -/
def IsKeyCharacter (c : Char) : Prop :=
  c.isAlphanum = true ∨ c = '_' ∨ c = '-'

/-- The link splits into a marker, the key behind it, and what stands around them. -/
structure Splits (url before marker key rest : List Char) : Prop where
  marker_eq : marker = "/file/".toList ∨ marker = "/design/".toList
  url_eq : url = before ++ marker ++ key ++ rest
  key_ne_nil : key ≠ []
  key_chars : ∀ c ∈ key, IsKeyCharacter c
  /-- The key goes on as long as it can. -/
  stops : ∀ c ∈ rest.head?, ¬IsKeyCharacter c

/-- A key stands behind this front part of the link. -/
def HasKeyAt (url before key : List Char) : Prop :=
  ∃ marker rest, Splits url before marker key rest

theorem isKeyChar_iff (c : Char) : isKeyChar c = true ↔ IsKeyCharacter c := by
  simp only [isKeyChar, IsKeyCharacter, Text.isAlphanum_iff, Bool.or_eq_true, Bool.and_eq_true,
    decide_eq_true_eq, beq_iff_eq, Char.le_def, UInt32.le_iff_toNat_le]
  change ((((97 ≤ c.toNat ∧ c.toNat ≤ 122) ∨ 65 ≤ c.toNat ∧ c.toNat ≤ 90) ∨
    48 ≤ c.toNat ∧ c.toNat ≤ 57) ∨ c = '_') ∨ c = '-' ↔ _
  tauto

theorem stops_iff (rest : List Char) :
    rest.head?.any isKeyChar = false ↔ ∀ c ∈ rest.head?, ¬IsKeyCharacter c := by
  simp only [← isKeyChar_iff]
  cases rest.head? <;> simp

/-! ## The search at one place -/

variable {cs before marker key rest : List Char}

/-- The key characters behind a marker are a key if there are any. -/
theorem keyBehind_eq_iff (hkey : key ≠ []) :
    keyBehind cs marker = key ↔
      ∃ rest, cs = marker ++ key ++ rest ∧ (∀ c ∈ key, isKeyChar c = true) ∧
        rest.head?.any isKeyChar = false := by
  unfold keyBehind
  by_cases hmarker : marker.isPrefixOf cs = true
  · obtain ⟨behind, rfl⟩ := List.isPrefixOf_iff_prefix.mp hmarker
    rw [if_pos hmarker, List.drop_left, Text.takeWhile_eq_iff]
    simp only [List.append_assoc, List.append_cancel_left_eq]
  · rw [if_neg hmarker]
    constructor
    · exact fun h => absurd h.symm hkey
    · rintro ⟨rest, rfl, -⟩
      rw [List.append_assoc] at hmarker
      exact absurd (List.isPrefixOf_iff_prefix.mpr (List.prefix_append _ _)) hmarker

theorem hasKeyAt_nil_iff :
    HasKeyAt cs [] key ↔ key ≠ [] ∧ ∃ marker ∈ markers, keyBehind cs marker = key := by
  constructor
  · rintro ⟨marker, rest, h⟩
    have hchars : ∀ c ∈ key, isKeyChar c = true := fun c hc =>
      (isKeyChar_iff c).mpr (h.key_chars c hc)
    refine ⟨h.key_ne_nil, marker, by simpa [markers] using h.marker_eq, ?_⟩
    exact (keyBehind_eq_iff h.key_ne_nil).mpr ⟨rest, h.url_eq, hchars, (stops_iff rest).mpr h.stops⟩
  · rintro ⟨hkey, marker, hmarker, hbehind⟩
    obtain ⟨rest, hcs, hchars, hstops⟩ := (keyBehind_eq_iff hkey).mp hbehind
    exact ⟨marker, rest, by simpa [markers] using hmarker, hcs, hkey,
      fun c hc => (isKeyChar_iff c).mp (hchars c hc), (stops_iff rest).mp hstops⟩

theorem prefix_of_keyBehind_ne_nil (h : keyBehind cs marker ≠ []) : marker <+: cs := by
  rw [← List.isPrefixOf_iff_prefix]
  by_contra hmarker
  exact h (if_neg hmarker)

/-- At one place stands one marker at most. -/
theorem keyBehind_file_eq_nil (h : keyBehind cs "/design/".toList ≠ []) :
    keyBehind cs "/file/".toList = [] := by
  by_contra hfile
  have hprefix := List.prefix_of_prefix_length_le (prefix_of_keyBehind_ne_nil hfile)
    (prefix_of_keyBehind_ne_nil h) (by decide)
  exact absurd hprefix (by decide)

theorem keyHere?_eq_some_iff : keyHere? cs = some key ↔ HasKeyAt cs [] key := by
  rw [hasKeyAt_nil_iff]
  constructor
  · intro h
    obtain ⟨marker, hmarker, hbehind⟩ := List.mem_map.mp (List.mem_of_find?_eq_some h)
    have hkey : key ≠ [] := by simpa using List.find?_some h
    exact ⟨hkey, marker, hmarker, hbehind⟩
  · rintro ⟨hkey, marker, hmarker, rfl⟩
    obtain rfl | rfl : marker = "/file/".toList ∨ marker = "/design/".toList := by
      simpa [markers] using hmarker
    · exact List.find?_cons_of_pos (by simpa using hkey)
    · have hfile := keyBehind_file_eq_nil hkey
      rw [keyHere?, markers, List.map_cons, List.map_cons,
        List.find?_cons_of_neg (by rw [hfile]; decide)]
      exact List.find?_cons_of_pos (by simpa using hkey)

theorem keyHere?_eq_none_iff : keyHere? cs = none ↔ ∀ key, ¬HasKeyAt cs [] key := by
  simp only [← keyHere?_eq_some_iff, Option.eq_none_iff_forall_ne_some]

/-! ## The search at all places -/

/-- A key stands right here or behind the first character. -/
theorem hasKeyAt_cons_iff {c : Char} :
    HasKeyAt (c :: cs) before key ↔
      (before = [] ∧ HasKeyAt (c :: cs) [] key) ∨
        ∃ front, before = c :: front ∧ HasKeyAt cs front key := by
  constructor
  · intro h
    cases before with
    | nil => exact .inl ⟨rfl, h⟩
    | cons d front =>
        obtain ⟨marker, rest, hsplits⟩ := h
        obtain ⟨rfl, hcs⟩ := List.cons.inj hsplits.url_eq
        exact .inr ⟨front, rfl, marker, rest, { hsplits with url_eq := hcs }⟩
  · rintro (⟨rfl, h⟩ | ⟨front, rfl, marker, rest, hsplits⟩)
    · exact h
    · exact ⟨marker, rest, { hsplits with url_eq := congrArg (c :: ·) hsplits.url_eq }⟩

/-- If no key stands right here, only those behind the first character are left. -/
theorem hasKeyAt_cons_iff_of_none {c : Char} (h : keyHere? (c :: cs) = none) :
    HasKeyAt (c :: cs) before key ↔ ∃ front, before = c :: front ∧ HasKeyAt cs front key := by
  rw [hasKeyAt_cons_iff]
  exact or_iff_right fun hhere => keyHere?_eq_none_iff.mp h key hhere.2

/-- The key stands behind this front part, and none stands behind a shorter one. -/
def IsFirstKey (url before key : List Char) : Prop :=
  HasKeyAt url before key ∧
    ∀ before' key', HasKeyAt url before' key' → before.length ≤ before'.length

theorem not_hasKeyAt_nil : ¬HasKeyAt [] before key := by
  rintro ⟨marker, rest, h⟩
  obtain ⟨hfront, -⟩ := List.append_eq_nil_iff.mp h.url_eq.symm
  exact h.key_ne_nil (List.append_eq_nil_iff.mp hfront).2

/-- The search finds the first key. -/
theorem keyIn?_eq_some_iff : keyIn? cs = some key ↔ ∃ before, IsFirstKey cs before key := by
  induction cs with
  | nil =>
      constructor
      · intro h
        contradiction
      · rintro ⟨before, h, -⟩
        exact absurd h not_hasKeyAt_nil
  | cons c cs ih =>
      rw [keyIn?]
      cases hhere : keyHere? (c :: cs) with
      | some found =>
          have hfound := keyHere?_eq_some_iff.mp hhere
          constructor
          · rintro ⟨⟩
            exact ⟨[], hfound, fun _ _ _ => Nat.zero_le _⟩
          · rintro ⟨before, hkey, hfirst⟩
            obtain rfl : before = [] := by simpa using hfirst [] found hfound
            exact hhere.symm.trans (keyHere?_eq_some_iff.mpr hkey)
      | none =>
          simp only [ih, IsFirstKey, hasKeyAt_cons_iff_of_none hhere]
          constructor
          · rintro ⟨front, hkey, hfirst⟩
            refine ⟨c :: front, ⟨front, rfl, hkey⟩, ?_⟩
            rintro _ key' ⟨front', rfl, hkey'⟩
            exact Nat.succ_le_succ (hfirst front' key' hkey')
          · rintro ⟨_, ⟨front, rfl, hkey⟩, hfirst⟩
            refine ⟨front, hkey, fun front' key' hkey' => ?_⟩
            exact Nat.le_of_succ_le_succ (hfirst (c :: front') key' ⟨front', rfl, hkey'⟩)

theorem keyIn?_eq_none_iff : keyIn? cs = none ↔ ∀ before key, ¬HasKeyAt cs before key := by
  induction cs with
  | nil => exact iff_of_true rfl fun _ _ => not_hasKeyAt_nil
  | cons c cs ih =>
      rw [keyIn?]
      cases hhere : keyHere? (c :: cs) with
      | some found =>
          refine iff_of_false (Option.some_ne_none found) fun h => ?_
          exact h [] found (keyHere?_eq_some_iff.mp hhere)
      | none =>
          simp only [ih, hasKeyAt_cons_iff_of_none hhere]
          constructor
          · rintro h _ key ⟨front, rfl, hkey⟩
            exact h front key hkey
          · intro h front key hkey
            exact h (c :: front) key ⟨front, rfl, hkey⟩

/-! ## Links -/

theorem fileKey_eq_ok_iff (url key : String) :
    fileKey url = .ok key ↔ keyIn? url.toList = some key.toList := by
  unfold fileKey
  cases keyIn? url.toList with
  | none => simp
  | some found => simp [← String.toList_inj]

theorem fileKey_eq_error_iff (url : String) (e : Invalid) :
    fileKey url = .error e ↔ e = ⟨url⟩ ∧ keyIn? url.toList = none := by
  unfold fileKey
  cases keyIn? url.toList with
  | none => simp [eq_comm]
  | some found => simp

/-- The key of a link is the first one in it: it stands behind a marker and is as long as it can be, and
no marker in front of this one has a key behind it.  A link without a key is no share link, and the
error shows it as it is. -/
theorem fileKey_finds_first (url : String) :
    (∀ key, fileKey url = .ok key ↔
      ∃ before marker rest, Splits url.toList before marker key.toList rest ∧
        ∀ before' marker' key' rest', Splits url.toList before' marker' key' rest' →
          before.length ≤ before'.length) ∧
    ∀ e, fileKey url = .error e ↔
      e = ⟨url⟩ ∧ ∀ before marker key rest, ¬Splits url.toList before marker key rest := by
  constructor
  · intro key
    rw [fileKey_eq_ok_iff, keyIn?_eq_some_iff]
    constructor
    · rintro ⟨before, ⟨marker, rest, hsplits⟩, hfirst⟩
      exact ⟨before, marker, rest, hsplits,
        fun before' marker' key' rest' h => hfirst before' key' ⟨marker', rest', h⟩⟩
    · rintro ⟨before, marker, rest, hsplits, hfirst⟩
      exact ⟨before, ⟨marker, rest, hsplits⟩,
        fun before' key' ⟨marker', rest', h⟩ => hfirst before' marker' key' rest' h⟩
  · intro e
    rw [fileKey_eq_error_iff, keyIn?_eq_none_iff]
    simp only [HasKeyAt, not_exists]
    constructor
    · exact fun ⟨he, h⟩ => ⟨he, fun before marker key rest => h before key marker rest⟩
    · exact fun ⟨he, h⟩ => ⟨he, fun before key marker rest => h before marker key rest⟩

/-- A marker without a key is passed over, and a marker can be a key. -/
example : fileKey "https://x/file//design/file/y" = .ok "file" := by decide

end Link
end DesignPages
