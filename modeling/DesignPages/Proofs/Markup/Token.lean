import DesignPages.Proofs.Markup.Skeleton

/-!
# Reading tags and expressions

This module reads markup character by character into tags, expressions and single characters.  The
reader knows attribute values in double quotes and in braces, and it is strict: it stops at a
bracket or a brace that has no place where it stands, and inside a tag at everything that no tag of
this form holds.

What is printed reads back.  A tag reads as one token with the names and values of its attributes,
whatever texts these values hold, and an escaped text between tags reads as its characters.
-/

namespace DesignPages
namespace Markup

/-! ## The reader -/

/-- The value of an attribute as it is written, without the quotes or braces around it. -/
inductive RawValue where
  | quoted (cs : List Char)
  | braced (cs : List Char)
  deriving DecidableEq, Repr

/-- The name of a tag and its attributes as they are written. -/
structure RawTag where
  name : List Char
  attributes : List (List Char × RawValue)
  deriving DecidableEq, Repr

/-- The tag with one attribute more. -/
def RawTag.add (t : RawTag) (name : List Char) (value : RawValue) : RawTag :=
  ⟨t.name, t.attributes ++ [(name, value)]⟩

/-- What markup consists of. -/
inductive Token where
  | opening (t : RawTag)
  | closing (name : List Char)
  | void (t : RawTag)
  | expression (body : List Char)
  | char (c : Char)
  deriving DecidableEq, Repr

/-- Where the reader stands, with what it has read of the token there. -/
inductive Place where
  | content
  /-- Behind the bracket that begins a tag. -/
  | tagStart
  | tagName (name : List Char)
  | closingName (name : List Char)
  /-- Behind a space in a tag. -/
  | gap (t : RawTag)
  | attributeName (t : RawTag) (name : List Char)
  | valueStart (t : RawTag) (name : List Char)
  | quoted (t : RawTag) (name value : List Char)
  | braced (t : RawTag) (name value : List Char)
  | valueEnd (t : RawTag)
  /-- Behind the slash that ends a tag without content. -/
  | slash (t : RawTag)
  | expression (body : List Char)
  deriving DecidableEq, Repr

/-- The characters of names. -/
def isNameChar (c : Char) : Bool :=
  c.isAlphanum || c == '-'

/-- Goes on behind the name of a tag or the value of an attribute. -/
def stepBehind (t : RawTag) (c : Char) : Option (Place × List Token) :=
  if c = ' ' then some (.gap t, [])
  else if c = '/' then some (.slash t, [])
  else if c = '>' then some (.content, [.opening t])
  else none

/-- Reads one character.  The result holds the tokens that end with it. -/
def step : Place → Char → Option (Place × List Token)
  | .content, c =>
    if c = '<' then some (.tagStart, [])
    else if c = '\x7b' then some (.expression [], [])
    else if isStructural c then none
    else some (.content, [.char c])
  | .tagStart, c =>
    if c = '/' then some (.closingName [], [])
    else if c.isAlpha then some (.tagName [c], [])
    else none
  | .tagName name, c =>
    if isNameChar c then some (.tagName (name ++ [c]), []) else stepBehind ⟨name, []⟩ c
  | .closingName name, c =>
    if isNameChar c then some (.closingName (name ++ [c]), [])
    else if c = '>' then some (.content, [.closing name])
    else none
  | .gap t, c => if c.isAlpha then some (.attributeName t [c], []) else stepBehind t c
  | .attributeName t name, c =>
    if isNameChar c then some (.attributeName t (name ++ [c]), [])
    else if c = '=' then some (.valueStart t name, [])
    else none
  | .valueStart t name, c =>
    if c = '"' then some (.quoted t name [], [])
    else if c = '\x7b' then some (.braced t name [], [])
    else none
  | .quoted t name value, c =>
    if c = '"' then some (.valueEnd (t.add name (.quoted value)), [])
    else some (.quoted t name (value ++ [c]), [])
  | .braced t name value, c =>
    if c = '\x7d' then some (.valueEnd (t.add name (.braced value)), [])
    else if c = '\x7b' then none
    else some (.braced t name (value ++ [c]), [])
  | .valueEnd t, c => stepBehind t c
  | .slash t, c => if c = '>' then some (.content, [.void t]) else none
  | .expression body, c =>
    if c = '\x7d' then some (.content, [.expression body])
    else if c = '\x7b' then none
    else some (.expression (body ++ [c]), [])

/-- Reads characters, with the place and the tokens that they lead to. -/
def run : Place → List Char → Option (Place × List Token)
  | p, [] => some (p, [])
  | p, c :: cs => do
    let (q, ts) ← step p c
    let (r, us) ← run q cs
    return (r, ts ++ us)

/-- The tokens of a piece of markup, which must end between them. -/
def tokens (cs : List Char) : Option (List Token) :=
  match run .content cs with
  | some (.content, ts) => some ts
  | _ => none

/-! ## Runs -/

variable {p q r : Place} {cs ds : List Char} {ts us : List Token}

theorem run_cons {c : Char} (h : step p c = some (q, ts)) (hcs : run q cs = some (r, us)) :
    run p (c :: cs) = some (r, ts ++ us) := by
  simp [run, h, hcs]

theorem run_singleton {c : Char} (h : step p c = some (q, ts)) : run p [c] = some (q, ts) := by
  simp [run, h]

/-- One run goes on where another ends. -/
theorem run_append (h : run p cs = some (q, ts)) (hds : run q ds = some (r, us)) :
    run p (cs ++ ds) = some (r, ts ++ us) := by
  induction cs generalizing p ts with
  | nil =>
      obtain ⟨rfl, rfl⟩ : p = q ∧ [] = ts := by simpa [run] using h
      exact hds
  | cons c cs ih =>
      simp only [run, Option.bind_eq_bind, Option.bind_eq_some_iff] at h
      obtain ⟨⟨p', ts₁⟩, hstep, ⟨q', ts₂⟩, hrun, hend⟩ := h
      obtain ⟨rfl, rfl⟩ : q' = q ∧ ts₁ ++ ts₂ = ts := by simpa using hend
      rw [List.append_assoc]
      exact run_cons hstep (ih hrun)

/-- Where every character is added to what was read, a run adds all of them. -/
theorem run_gather_from {place : List Char → Place}
    (h : ∀ read, ∀ c ∈ cs, step (place read) c = some (place (read ++ [c]), []))
    (read : List Char) : run (place read) cs = some (place (read ++ cs), []) := by
  induction cs generalizing read with
  | nil => simp [run]
  | cons c cs ih =>
      have hfirst := h read c List.mem_cons_self
      have hrest := ih (fun read d hd => h read d (List.mem_cons_of_mem c hd)) (read ++ [c])
      rw [List.append_assoc, List.singleton_append] at hrest
      exact run_cons hfirst hrest

theorem run_gather {place : List Char → Place}
    (h : ∀ read, ∀ c ∈ cs, step (place read) c = some (place (read ++ [c]), [])) :
    run (place []) cs = some (place cs, []) :=
  run_gather_from h []

/-! ## Names -/

/-- The names of tags and attributes: a letter, followed by letters, digits and hyphens. -/
def isName : List Char → Bool
  | [] => false
  | c :: cs => c.isAlpha && cs.all isNameChar

theorem isNameChar_of_isAlpha {c : Char} (h : c.isAlpha = true) : isNameChar c = true := by
  simp [isNameChar, Char.isAlphanum, h]

theorem run_name (place : List Char → Place) {first : Place} {name : List Char}
    (hfirst : ∀ c, c.isAlpha = true → step first c = some (place [c], []))
    (hrest : ∀ read c, isNameChar c = true → step (place read) c = some (place (read ++ [c]), []))
    (hname : isName name = true) : run first name = some (place name, []) := by
  cases name with
  | nil => exact absurd hname (by decide)
  | cons c cs =>
      obtain ⟨hc, hcs⟩ : c.isAlpha = true ∧ cs.all isNameChar = true := by
        simpa [isName] using hname
      have hgather := run_gather_from
        (fun read d hd => hrest read d (List.all_eq_true.mp hcs d hd)) [c]
      exact run_cons (hfirst c hc) hgather

theorem run_tagName {name : List Char} (h : isName name = true) :
    run .tagStart name = some (.tagName name, []) := by
  apply run_name .tagName _ _ h
  · intro c hc
    have hslash : c ≠ '/' := by
      rintro rfl
      exact absurd hc (by decide)
    simp [step, hslash, hc]
  · intro read c hc
    simp [step, hc]

theorem run_closingName {name : List Char} (h : isName name = true) :
    run (.closingName []) name = some (.closingName name, []) := by
  apply run_name .closingName _ _ h
  · intro c hc
    simp [step, isNameChar_of_isAlpha hc]
  · intro read c hc
    simp [step, hc]

theorem run_attributeName {name : List Char} (h : isName name = true) (t : RawTag) :
    run (.gap t) name = some (.attributeName t name, []) := by
  apply run_name (.attributeName t) _ _ h
  · intro c hc
    simp [step, hc]
  · intro read c hc
    simp [step, hc]

/-! ## Values and attributes -/

/-- How a value reads back. -/
def AttributeValue.raw : AttributeValue → RawValue
  | text s => .quoted (escapeAttribute s.toList)
  | expression e => .braced e.body

/-- How an attribute reads back. -/
def Attribute.raw (a : Attribute) : List Char × RawValue :=
  (a.name.toList, a.value.raw)

/-- How a tag reads back. -/
def rawTag (tag : String) (attributes : List Attribute) : RawTag :=
  ⟨tag.toList, attributes.map Attribute.raw⟩

theorem Expression.ne_brace_of_mem_body {e : Expression} {c : Char} (h : c ∈ e.body) :
    c ≠ '\x7b' ∧ c ≠ '\x7d' := by
  have hbraces : '\x7b' ∉ e.body ∧ '\x7d' ∉ e.body := by
    cases e with
    | param p => cases p <;> decide
    | initial p => cases p <;> decide
    | currentYear => decide
    | generator => decide
  exact ⟨ne_of_mem_of_not_mem h hbraces.1, ne_of_mem_of_not_mem h hbraces.2⟩

theorem AttributeValue.run_chars (v : AttributeValue) (t : RawTag) (name : List Char) :
    run (.valueStart t name) v.chars = some (.valueEnd (t.add name v.raw), []) := by
  cases v with
  | text s =>
      let value := escapeAttribute s.toList
      have hstart : step (.valueStart t name) '"' = some (.quoted t name [], []) := rfl
      have hgather : run (.quoted t name []) value = some (.quoted t name value, []) := by
        apply run_gather
        intro read c hc
        have hne : c ≠ '"' := ne_of_mem_of_not_mem hc
          (reserved_not_mem_escapeAttribute List.mem_cons_self s.toList)
        simp [step, hne]
      have hend : step (.quoted t name value) '"' =
          some (.valueEnd (t.add name (.quoted value)), []) := rfl
      exact run_append (run_cons hstart hgather) (run_singleton hend)
  | expression e =>
      have hstart : step (.valueStart t name) '\x7b' = some (.braced t name [], []) := rfl
      have hgather : run (.braced t name []) e.body = some (.braced t name e.body, []) := by
        apply run_gather
        intro read c hc
        obtain ⟨hopen, hclose⟩ := e.ne_brace_of_mem_body hc
        simp [step, hopen, hclose]
      have hend : step (.braced t name e.body) '\x7d' =
          some (.valueEnd (t.add name (.braced e.body)), []) := rfl
      exact run_append (run_cons hstart hgather) (run_singleton hend)

/-- The name of a tag or the value of an attribute can end here. -/
def EndsPart (p : Place) (t : RawTag) : Prop :=
  ∀ c, isNameChar c = false → step p c = stepBehind t c

theorem endsPart_tagName (name : List Char) : EndsPart (.tagName name) ⟨name, []⟩ := by
  intro c hc
  simp [step, hc]

theorem endsPart_valueEnd (t : RawTag) : EndsPart (.valueEnd t) t := fun _ _ => rfl

theorem Attribute.run_chars {a : Attribute} (ha : isName a.name.toList = true) {t : RawTag}
    (hp : EndsPart p t) :
    run p a.chars = some (.valueEnd (t.add a.name.toList a.value.raw), []) := by
  have hspace : step p ' ' = some (.gap t, []) := hp ' ' (by decide)
  have hname := run_attributeName ha t
  have hequals : step (.attributeName t a.name.toList) '=' =
      some (.valueStart t a.name.toList, []) := rfl
  have hvalue := a.value.run_chars t a.name.toList
  exact run_append (run_cons hspace hname) (run_cons hequals hvalue)

theorem run_attributesChars {as : List Attribute} (has : ∀ a ∈ as, isName a.name.toList = true)
    {t : RawTag} (hp : EndsPart p t) :
    ∃ q, EndsPart q ⟨t.name, t.attributes ++ as.map Attribute.raw⟩ ∧
      run p (attributesChars as) = some (q, []) := by
  induction as generalizing p t with
  | nil =>
      refine ⟨p, ?_, rfl⟩
      simpa using hp
  | cons a as ih =>
      have hfirst := Attribute.run_chars (has a List.mem_cons_self) hp
      obtain ⟨q, hq, hrest⟩ := ih (fun b hb => has b (List.mem_cons_of_mem a hb))
        (endsPart_valueEnd (t.add a.name.toList a.value.raw))
      refine ⟨q, ?_, run_append hfirst hrest⟩
      simpa [RawTag.add, Attribute.raw] using hq

/-! ## Tags -/

section Tags

variable {tag : String} {attributes : List Attribute}

/-- A tag reads up to the end of its attributes. -/
theorem run_tagHead (htag : isName tag.toList = true)
    (has : ∀ a ∈ attributes, isName a.name.toList = true) :
    ∃ q, EndsPart q (rawTag tag attributes) ∧
      run .content ('<' :: tag.toList ++ attributesChars attributes) = some (q, []) := by
  have hstart : step .content '<' = some (.tagStart, []) := rfl
  obtain ⟨q, hq, hattributes⟩ := run_attributesChars has (endsPart_tagName tag.toList)
  exact ⟨q, hq, run_append (run_cons hstart (run_tagName htag)) hattributes⟩

theorem run_openTag (htag : isName tag.toList = true)
    (has : ∀ a ∈ attributes, isName a.name.toList = true) :
    run .content (openTag tag attributes) =
      some (.content, [.opening (rawTag tag attributes)]) := by
  obtain ⟨q, hq, hhead⟩ := run_tagHead htag has
  have hend : step q '>' = some (.content, [.opening (rawTag tag attributes)]) :=
    hq '>' (by decide)
  exact run_append hhead (run_singleton hend)

theorem run_voidTag (htag : isName tag.toList = true)
    (has : ∀ a ∈ attributes, isName a.name.toList = true) :
    run .content (voidTag tag attributes) =
      some (.content, [.void (rawTag tag attributes)]) := by
  obtain ⟨q, hq, hhead⟩ := run_tagHead htag has
  have hspace : step q ' ' = some (.gap (rawTag tag attributes), []) := hq ' ' (by decide)
  exact run_append hhead (run_cons hspace rfl)

theorem run_closeTag (htag : isName tag.toList = true) :
    run .content (closeTag tag) = some (.content, [.closing tag.toList]) := by
  have hstart : step .content '<' = some (.tagStart, []) := rfl
  have hslash : step .tagStart '/' = some (.closingName [], []) := rfl
  have hend : step (.closingName tag.toList) '>' = some (.content, [.closing tag.toList]) := rfl
  have hname := run_cons hstart (run_cons hslash (run_closingName htag))
  exact run_append hname (run_singleton hend)

end Tags

/-! ## Content -/

/-- Between tags, characters that build nothing read as themselves. -/
theorem run_plain (h : structureOf cs = []) :
    run .content cs = some (.content, cs.map Token.char) := by
  induction cs with
  | nil => rfl
  | cons c cs ih =>
      have hc : isStructural c = false := by
        rw [← Bool.not_eq_true]
        intro hc
        simp [structureOf_cons, hc] at h
      have hcs : structureOf cs = [] := by
        simpa [structureOf_cons, hc] using h
      have hbuilds : c ≠ '<' ∧ c ≠ '\x7b' := by
        constructor
        · rintro rfl
          exact absurd hc (by decide)
        · rintro rfl
          exact absurd hc (by decide)
      have hstep : step .content c = some (.content, [.char c]) := by
        simp [step, hbuilds, hc]
      exact run_cons hstep (ih hcs)

theorem Expression.run_chars (e : Expression) :
    run .content e.chars = some (.content, [.expression e.body]) := by
  have hstart : step .content '\x7b' = some (.expression [], []) := rfl
  have hgather : run (.expression []) e.body = some (.expression e.body, []) := by
    apply run_gather
    intro read c hc
    obtain ⟨hopen, hclose⟩ := e.ne_brace_of_mem_body hc
    simp [step, hopen, hclose]
  have hend : step (.expression e.body) '\x7d' = some (.content, [.expression e.body]) := rfl
  exact run_append (run_cons hstart hgather) (run_singleton hend)

example : tokens "<a x=\"<\">\x7bt\x7d</a>".toList =
    some [.opening ⟨['a'], [(['x'], .quoted ['<'])]⟩, .expression ['t'], .closing ['a']] := by
  decide

end Markup
end DesignPages
