import DesignPages.Link
import DesignPages.Proofs.Text.FormEncoding
import DesignPages.Proofs.Text.Run

/-!
# Parameters of addresses

The query of an address stands behind its question mark and ends with a number sign.  It consists of
parameters with ampersands between them, each a name and a value in form encoding with an equals sign
between them.  This module reads the parameters of an address and shows that those it was written with
read back, whatever texts they hold: no value cuts the query off or adds a parameter.

The preview link of a share link is such an address, with the share link as a value.
-/

namespace DesignPages
namespace Link

open Text (formDecode? formEncode utf8)

/-! ## Reading addresses -/

/-- The query of an address. -/
def query (address : List Char) : List Char :=
  ((address.takeWhile (· != '#')).dropWhile (· != '?')).drop 1

/-- The name and the value of a parameter. -/
def parameter? (cs : List Char) : Option (List UInt8 × List UInt8) := do
  let name ← formDecode? (cs.takeWhile (· != '='))
  let value ← formDecode? ((cs.dropWhile (· != '=')).drop 1)
  return (name, value)

/-- The parameters in the query of an address. -/
def parameters? (address : List Char) : Option (List (List UInt8 × List UInt8)) :=
  ((query address).splitOn '&').mapM parameter?

/-! ## Writing addresses -/

/-- A parameter. -/
def parameterChars (p : String × String) : List Char :=
  (formEncode p.1).toList ++ '=' :: (formEncode p.2).toList

/-- The address of a page with parameters. -/
def addressOf (page : String) (ps : List (String × String)) : List Char :=
  page.toList ++ '?' :: ['&'].intercalate (ps.map parameterChars)

/-- How a parameter reads back. -/
def readBack (p : String × String) : List UInt8 × List UInt8 :=
  (utf8 p.1, utf8 p.2)

/-- No character of form encoding has a meaning in a query or in markup. -/
theorem not_mem_formEncode {c : Char}
    (hc : c ∈ ['=', '?', '#', '&', '"', '<', '>', '\x7b', '\x7d']) (s : String) :
    c ∉ (formEncode s).toList := by
  have hall : ∀ c ∈ ['=', '?', '#', '&', '"', '<', '>', '\x7b', '\x7d'],
      ¬Text.IsFormCharacter c :=
    List.all_iff_forall_prop.mp (by decide)
  exact fun h => hall c hc (Text.isFormCharacter_of_mem_formEncode h)

theorem not_mem_parameterChars {c : Char} (hc : c ∈ ['?', '#', '&']) (p : String × String) :
    c ∉ parameterChars p := by
  have hequals : c ≠ '=' := by
    rintro rfl
    exact absurd hc (by decide)
  have hreserved : c ∈ ['=', '?', '#', '&', '"', '<', '>', '\x7b', '\x7d'] :=
    List.mem_cons_of_mem _ (List.mem_append_left ['"', '<', '>', '\x7b', '\x7d'] hc)
  simp [parameterChars, not_mem_formEncode hreserved, hequals]

/-- The name of a parameter ends with the first equals sign. -/
theorem parameter?_parameterChars (p : String × String) :
    parameter? (parameterChars p) = some (readBack p) := by
  have hname : ∀ c ∈ (formEncode p.1).toList, (c != '=') = true := by
    intro c hc
    exact bne_iff_ne.mpr (ne_of_mem_of_not_mem hc (not_mem_formEncode (by decide) p.1))
  rw [parameter?, parameterChars, Text.takeWhile_run hname rfl, Text.dropWhile_run hname rfl,
    List.drop_one, List.tail_cons, Text.formDecode?_formEncode, Text.formDecode?_formEncode]
  rfl

theorem mapM_parameter? (ps : List (String × String)) :
    (ps.map parameterChars).mapM parameter? = some (ps.map readBack) := by
  induction ps with
  | nil => rfl
  | cons p ps ih => simp [parameter?_parameterChars, ih]

/-- The query of an address is what was written behind the question mark. -/
theorem query_addressOf {page : String} (hquestion : '?' ∉ page.toList) (hsign : '#' ∉ page.toList)
    (ps : List (String × String)) :
    query (addressOf page ps) = ['&'].intercalate (ps.map parameterChars) := by
  have hparameters : '#' ∉ ['&'].intercalate (ps.map parameterChars) := by
    apply Text.not_mem_intercalate (by decide)
    intro l hl
    obtain ⟨p, -, rfl⟩ := List.mem_map.mp hl
    exact not_mem_parameterChars (by decide) p
  have hall : '#' ∉ addressOf page ps := by
    rw [addressOf, List.mem_append, List.mem_cons]
    rintro (h | h | h)
    · exact hsign h
    · exact absurd h (by decide)
    · exact hparameters h
  have hwhole : (addressOf page ps).takeWhile (· != '#') = addressOf page ps := by
    rw [List.takeWhile_eq_self_iff]
    exact fun c hc => bne_iff_ne.mpr (ne_of_mem_of_not_mem hc hall)
  have hpage : ∀ c ∈ page.toList, (c != '?') = true := fun c hc =>
    bne_iff_ne.mpr (ne_of_mem_of_not_mem hc hquestion)
  rw [query, hwhole, addressOf, Text.dropWhile_run hpage rfl, List.drop_one, List.tail_cons]

/-- The parameters of an address are those that it was written with. -/
theorem parameters?_addressOf {page : String} (hquestion : '?' ∉ page.toList)
    (hsign : '#' ∉ page.toList) {ps : List (String × String)} (hps : ps ≠ []) :
    parameters? (addressOf page ps) = some (ps.map readBack) := by
  have hsplit : (['&'].intercalate (ps.map parameterChars)).splitOn '&' = ps.map parameterChars := by
    apply List.splitOn_intercalate
    · intro l hl
      obtain ⟨p, -, rfl⟩ := List.mem_map.mp hl
      exact not_mem_parameterChars (by decide) p
    · simpa using hps
  rw [parameters?, query_addressOf hquestion hsign, hsplit, mapM_parameter?]

/-! ## Preview links -/

/-- A preview link can be made of a share link only. -/
theorem embed_eq_ok_iff (url preview : String) :
    embed url = .ok preview ↔
      (∃ key, fileKey url = .ok key) ∧ preview = embedBase ++ formEncode url := by
  unfold embed
  cases fileKey url with
  | error e => simp [bind, Except.bind]
  | ok key => simp [bind, Except.bind, pure, Except.pure, eq_comm]

theorem exists_embed_iff (url : String) :
    (∃ preview, embed url = .ok preview) ↔ ∃ key, fileKey url = .ok key := by
  constructor
  · rintro ⟨preview, hpreview⟩
    exact ((embed_eq_ok_iff url preview).mp hpreview).1
  · intro hkey
    exact ⟨_, (embed_eq_ok_iff url _).mpr ⟨hkey, rfl⟩⟩

/-- A preview link is an address with the share link as a value. -/
theorem toList_preview (url : String) :
    (embedBase ++ formEncode url).toList =
      addressOf "https://www.figma.com/embed" [("embed_host", "sprig"), ("url", url)] := by
  have hbase : embedBase.toList = "https://www.figma.com/embed".toList ++
      '?' :: (parameterChars ("embed_host", "sprig") ++ "&url=".toList) := by
    decide
  have hname : (formEncode "url").toList = "url".toList := by decide
  simp [hbase, addressOf, List.intercalate_cons_cons, parameterChars, hname]

theorem parameters?_preview (url : String) :
    parameters? (embedBase ++ formEncode url).toList =
      some [(utf8 "embed_host", utf8 "sprig"), (utf8 "url", utf8 url)] := by
  rw [toList_preview, parameters?_addressOf (by decide) (by decide) (List.cons_ne_nil _ _)]
  rfl

theorem preview_injective : Function.Injective fun url => embedBase ++ formEncode url := by
  intro url url' h
  have hchars := congrArg String.toList h
  rw [String.toList_append, String.toList_append] at hchars
  exact Text.formEncode_injective (String.toList_inj.mp (List.append_cancel_left hchars))

end Link
end DesignPages
