import DesignPages.Text.FormEncoding

/-!
# Share links

This module finds the key of a file in a share link and builds the link of its embedded preview.
The key follows the first `/file/` or `/design/` that has at least one key character behind it.
-/

namespace DesignPages
namespace Link

/-- The characters of a key. -/
def isKeyChar (c : Char) : Bool :=
  ('a' ≤ c && c ≤ 'z') || ('A' ≤ c && c ≤ 'Z') || ('0' ≤ c && c ≤ '9') || c == '_' || c == '-'

/-- The markers in front of a key. -/
def markers : List (List Char) :=
  ["/file/".toList, "/design/".toList]

/-- The key characters behind a marker that begins here. -/
def keyBehind (cs marker : List Char) : List Char :=
  if marker.isPrefixOf cs then (cs.drop marker.length).takeWhile isKeyChar else []

/-- The key behind a marker that begins here, if there is one. -/
def keyHere? (cs : List Char) : Option (List Char) :=
  (markers.map (keyBehind cs)).find? fun key => !key.isEmpty

/-- The first key in a list of characters. -/
def keyIn? : List Char → Option (List Char)
  | [] => none
  | c :: cs =>
    match keyHere? (c :: cs) with
    | some key => some key
    | none => keyIn? cs

/-- A text that is no share link. -/
structure Invalid where
  url : String
  deriving DecidableEq, Repr

/-- The message about a text that is no share link. -/
def Invalid.message (e : Invalid) : String :=
  "Invalid design URL: " ++ e.url

/-- The key of the file that a link shares. -/
def fileKey (url : String) : Except Invalid String :=
  match keyIn? url.toList with
  | some key => .ok (String.ofList key)
  | none => .error ⟨url⟩

/-- What stands in front of the encoded link. -/
def embedBase : String := "https://www.figma.com/embed?embed_host=sprig&url="

/-- The link of the embedded preview of a shared file. -/
def embed (url : String) : Except Invalid String := do
  let _ ← fileKey url
  return embedBase ++ Text.formEncode url

end Link
end DesignPages
