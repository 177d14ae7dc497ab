import DesignPages.Proofs.Component.Declaration

/-!
# What parameters are bound to

A parameter of a component has for its default a text of the frame, several texts with spaces between
them, the name of the component, or a fixed text.  Which of these it is depends on the category and on
the number of texts.  The bindings are described here by the positions of the texts, and the main
statement is that they are what the source of every component declares: no text adds a parameter or
takes one away, and none has to do with more than one of them.
-/

namespace DesignPages
namespace Template

open Markup

/-! ## Bindings by position -/

/-- The texts from one position up to another one, without it, with spaces between them. -/
def joinedTexts (texts : List String) (first last : ℕ) : String :=
  " ".intercalate ((texts.take last).drop first)

/-- What the parameters of a component are bound to, in terms of the positions of the texts. -/
def bindings (c : Category) (name : String) (texts : List String) : List (String × String) :=
  let n := texts.length
  match c with
  | .navbar | .gallery => [("title", name)]
  | .hero =>
    [("title", texts.getD 0 name),
     ("subtitle",
      if n ≤ 1 then "Welcome to our amazing website"
      else if n = 2 then texts.getD 1 ""
      else joinedTexts texts 1 (n - 1)),
     ("cta", if n ≤ 2 then "Get Started" else texts.getD (n - 1) "")]
  | .footer => [("copyright", if n ≤ 6 then name else joinedTexts texts 6 n)]
  | .testimonial =>
    [("quote", texts.getD 0 "This is an amazing service!"),
     ("author", texts.getD 1 "Happy Customer"),
     ("role", texts.getD 2 "Customer")]
  | .newsletter =>
    [("title", texts.getD 0 "Subscribe to our newsletter"),
     ("description", texts.getD 1 "Get the latest updates and news.")]
  | .cta =>
    [("title", texts.getD 0 "Ready to get started?"),
     ("description", texts.getD 1 "Join thousands of satisfied customers."),
     ("buttonText", texts.getD 2 "Get Started Now")]
  | .card | .plainSection | .aboutUs | .blog => [("title", texts.getD 0 name)]

theorem titleOr_eq_getD (name : String) (texts : List String) :
    titleOr name texts = texts.getD 0 name := by
  cases texts <;> rfl

/-- The copy of a hero, by the number of texts. -/
theorem heroCopy_drop_one (texts : List String) :
    heroCopy (texts.drop 1) =
      (if texts.length ≤ 1 then "Welcome to our amazing website"
        else if texts.length = 2 then texts.getD 1 ""
        else joinedTexts texts 1 (texts.length - 1),
       if texts.length ≤ 2 then "Get Started" else texts.getD (texts.length - 1) "") := by
  match texts with
  | [] => rfl
  | [_] => rfl
  | [_, _] => rfl
  | title :: first :: second :: rest =>
      have hlast : (first :: second :: rest).getLastD "" =
          (title :: first :: second :: rest).getD (rest.length + 2) "" := by
        rw [List.getLastD_eq_getLast?, List.getLast?_eq_getElem?, List.getD_eq_getElem?_getD]
        rfl
      have hbetween : (first :: second :: rest).dropLast =
          ((title :: first :: second :: rest).take (rest.length + 2)).drop 1 := by
        rw [List.dropLast_eq_take]
        rfl
      have hlength : (title :: first :: second :: rest).length = rest.length + 3 := rfl
      rw [hlength, if_neg (by omega), if_neg (by omega), if_neg (by omega), List.drop_one,
        List.tail_cons, heroCopy, hlast, hbetween]
      rfl

/-- The copyright line, by the number of texts. -/
theorem copyrightCopy_eq (name : String) (texts : List String) :
    copyrightCopy name texts =
      if texts.length ≤ 6 then name else joinedTexts texts 6 texts.length := by
  unfold copyrightCopy footerLinks joinedTexts
  rw [List.take_length]
  split
  · next hnil => rw [if_pos (List.drop_eq_nil_iff.mp hnil)]
  · next t ts hcons =>
      have hlength : ¬texts.length ≤ 6 := by
        intro hle
        rw [List.drop_eq_nil_of_le hle] at hcons
        contradiction
      rw [if_neg hlength, hcons]

/-- The bindings are the parameters with their defaults. -/
theorem map_defaults (c : Category) (name : String) (texts : List String) :
    (defaults c name texts).map (fun d => (d.1.name, d.2)) = bindings c name texts := by
  cases c with
  | hero =>
      simp only [defaults, heroCopy_drop_one, titleOr_eq_getD]
      rfl
  | footer =>
      simp only [defaults, copyrightCopy_eq]
      rfl
  | card | plainSection | aboutUs | blog =>
      simp only [defaults, titleOr_eq_getD]
      rfl
  | _ => rfl

/-! ## Texts that change -/

/-- The texts before and behind a part do not show in it. -/
theorem joinedTexts_set {texts : List String} {first last i : ℕ} (h : i < first ∨ last ≤ i)
    (s : String) : joinedTexts (texts.set i s) first last = joinedTexts texts first last := by
  unfold joinedTexts
  rcases h with hbefore | hbehind
  · rw [List.take_set, List.drop_set_of_lt hbefore]
  · have hlength : (texts.take last).length ≤ i := (List.length_take_le _ _).trans hbehind
    rw [List.take_set, List.set_eq_of_length_le hlength]

/-- The number of the parameter that the text at a position has to do with. -/
def slotOf (c : Category) (n i : ℕ) : ℕ :=
  match c with
  | .hero => if i = 0 then 0 else if 2 < n ∧ i + 1 = n then 2 else 1
  | .testimonial | .newsletter | .cta => i
  | _ => 0

/-- Of the texts of a hero the first shows in the title, the last of three or more in the call to
action, and every other one in the subtitle. -/
theorem bindings_hero_set {name : String} {texts : List String} {i j : ℕ}
    (hj : j ≠ slotOf .hero texts.length i) (s : String) :
    (bindings .hero name (texts.set i s))[j]? = (bindings .hero name texts)[j]? := by
  match j with
  | 0 =>
      have hi : i ≠ 0 := fun hi => hj (by simp [slotOf, hi])
      simp [bindings, List.getElem?_set_ne hi]
  | 1 =>
      have hi : i = 0 ∨ 2 < texts.length ∧ i + 1 = texts.length := by
        by_contra hi
        exact hj (by simp_all [slotOf])
      have hbetween : i < 1 ∨ texts.length - 1 ≤ i := by omega
      by_cases htwo : texts.length = 2
      · have hfirst : i ≠ 1 := by omega
        simp [bindings, htwo, hfirst]
      · simp [bindings, htwo, joinedTexts_set hbetween]
  | 2 =>
      have hlast (h : ¬texts.length ≤ 2) :
          (texts.set i s)[texts.length - 1]? = texts[texts.length - 1]? := by
        refine List.getElem?_set_ne fun hi => hj ?_
        rw [slotOf, if_neg (by omega), if_pos (by omega)]
      simp +contextual [bindings, hlast]
  | _ + 3 => rfl

/-- A text that is put in place of another one shows in one binding at most. -/
theorem bindings_set {c : Category} {name : String} {texts : List String} {i j : ℕ}
    (hj : j ≠ slotOf c texts.length i) (s : String) :
    (bindings c name (texts.set i s))[j]? = (bindings c name texts)[j]? := by
  cases c with
  | navbar | gallery => rfl
  | hero => exact bindings_hero_set hj s
  | footer | card | plainSection | aboutUs | blog =>
      match j with
      | 0 => exact absurd rfl hj
      | _ + 1 => rfl
  | testimonial | newsletter | cta =>
      have hsame : (texts.set i s)[j]? = texts[j]? := List.getElem?_set_ne hj.symm
      match j with
      | 0 | 1 | 2 => simp [bindings, hsame]
      | _ + 3 => rfl

theorem map_fst_bindings (c : Category) (name : String) (texts texts' : List String) :
    (bindings c name texts).map Prod.fst = (bindings c name texts').map Prod.fst := by
  cases c <;> rfl

/-! ## Sources -/

/-- The source declares parameters with defaults: its second line, which stands between two fences,
reads as these and nothing else. -/
def Declares (source : String) (pairs : List (String × String)) : Prop :=
  ∃ declaration markup,
    source.toList =
        "---".toList ++ '\n' :: (declaration ++ '\n' :: ("---".toList ++ '\n' :: markup)) ∧
      '\n' ∉ declaration ∧
      Script.declaration? declaration = some (pairs.map fun d => (d.1.toList, d.2.toList))

theorem declares_render (c : Category) (name : String) (texts : List String)
    (style : StyleTokens) : Declares (render c name texts style) (bindings c name texts) := by
  have hsource : (render c name texts style).toList = _ :=
    String.toList_ofList.trans (ComponentSource.chars_eq (source c name texts style))
  have hread := Script.declaration?_declaration (defaults_ne_nil c name texts)
  refine ⟨_, _, hsource, ComponentSource.lineFeed_not_mem_declaration _, ?_⟩
  rw [← map_defaults, List.map_map]
  exact hread

/-- The source of every component declares the parameters of its category, bound to the texts at the
positions that the category gives them.  Whatever the texts are, the names are the same in the same
order, and a text that is put in place of another one changes one default at most. -/
theorem render_declares_bindings (c : Category) (name : String) (texts : List String)
    (style : StyleTokens) :
    Declares (render c name texts style) (bindings c name texts) ∧
      (∀ texts', (bindings c name texts').map Prod.fst = (bindings c name texts).map Prod.fst) ∧
      ∀ i s j, j = slotOf c texts.length i ∨
        (bindings c name (texts.set i s))[j]? = (bindings c name texts)[j]? :=
  ⟨declares_render c name texts style, fun texts' => map_fst_bindings c name texts' texts,
    fun _ s _ => or_iff_not_imp_left.mpr fun hj => bindings_set hj s⟩

/-- Of four texts of a hero the two in the middle form the subtitle. -/
example : bindings .hero "Hero" ["Ship", "fast,", "sleep", "Go"] =
    [("title", "Ship"), ("subtitle", "fast, sleep"), ("cta", "Go")] := by
  decide

end Template
end DesignPages
