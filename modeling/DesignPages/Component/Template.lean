import DesignPages.Category
import DesignPages.Component.Source
import DesignPages.Style.Tokens
import DesignPages.Text.FormEncoding
import DesignPages.Text.Lowercase

/-!
# Templates of components

This module writes the source of a component from its category, its name, the texts of its frame and
its style.  Every template is total: where a text is missing a fixed one takes its place.
-/

namespace DesignPages
namespace Template

open Markup

/-- The classes of the root element before those of the style. -/
def baseClass : Category → String
  | .navbar => "p-4 mb-4 bg-white shadow rounded flex justify-center space-x-2"
  | .hero =>
    "p-8 mb-4 bg-gradient-to-r from-blue-500 to-purple-600 text-white rounded shadow-lg text-center"
  | .footer => "p-6 mb-4 bg-gray-800 text-white rounded"
  | .testimonial => "p-6 mb-4 bg-gray-50 border-l-4 border-blue-500 rounded shadow"
  | .newsletter => "p-6 mb-4 bg-blue-50 border rounded shadow"
  | .cta => "p-8 mb-4 bg-orange-500 text-white rounded shadow-lg text-center"
  | .card =>
    "p-4 mb-4 border rounded bg-white shadow hover:shadow-lg transition-shadow duration-200"
  | .gallery | .aboutUs | .blog | .plainSection => "p-4 mb-4 border rounded bg-white shadow"

/-- The tag of the root element. -/
def rootTag : Category → String
  | .navbar => "nav"
  | .footer => "footer"
  | .card => "div"
  | _ => "section"

/-- The words of the class attribute of the root element. -/
def rootClass (c : Category) (style : StyleTokens) : String :=
  " ".intercalate (baseClass c :: style.classes)

/-- A link that leads nowhere yet. -/
def link (className text : String) : Element :=
  .inline "a" [.text "href" "#", .text "class" className] [.text text]

/-- The texts `first`, `first + 1`, … of which at most `count` are taken. -/
def slice (texts : List String) (first count : Nat) : List String :=
  (texts.drop first).take count

/-- The most links that a footer shows. -/
def footerLinks : Nat := 6

/-- The most images that a gallery shows. -/
def galleryImages : Nat := 8

/-- The most paragraphs that a card or section shows. -/
def bodyParagraphs : Nat := 3

/-- The title of what has a text for it, and else its name. -/
def titleOr (name : String) (texts : List String) : String :=
  texts.headD name

/-- The subtitle and the call to action of a hero, from the texts behind the title.  Of two or more
the last is the call to action and those before it form the subtitle. -/
def heroCopy : List String → String × String
  | [] => ("Welcome to our amazing website", "Get Started")
  | [subtitle] => (subtitle, "Get Started")
  | first :: second :: rest =>
    (" ".intercalate ((first :: second :: rest).dropLast),
      (first :: second :: rest).getLastD "")

/-- The copyright line of a footer: the texts behind the links, or else the name. -/
def copyrightCopy (name : String) (texts : List String) : String :=
  match texts.drop footerLinks with
  | [] => name
  | t :: ts => " ".intercalate (t :: ts)

/-- The parameters of a component with their defaults. -/
def defaults (c : Category) (name : String) (texts : List String) : List (Param × String) :=
  match c with
  | .navbar | .gallery => [(.title, name)]
  | .hero =>
    let (subtitle, cta) := heroCopy (texts.drop 1)
    [(.title, titleOr name texts), (.subtitle, subtitle), (.cta, cta)]
  | .footer => [(.copyright, copyrightCopy name texts)]
  | .testimonial =>
    [(.quote, texts.getD 0 "This is an amazing service!"),
     (.author, texts.getD 1 "Happy Customer"),
     (.role, texts.getD 2 "Customer")]
  | .newsletter =>
    [(.title, texts.getD 0 "Subscribe to our newsletter"),
     (.description, texts.getD 1 "Get the latest updates and news.")]
  | .cta =>
    [(.title, texts.getD 0 "Ready to get started?"),
     (.description, texts.getD 1 "Join thousands of satisfied customers."),
     (.buttonText, texts.getD 2 "Get Started Now")]
  | .card | .aboutUs | .blog | .plainSection => [(.title, titleOr name texts)]

/-- A link for every text, or one with the name if there is none. -/
def navbarBody (name : String) (texts : List String) : List Element :=
  (if texts = [] then [name] else texts).map
    (link "text-gray-700 hover:text-orange-500 px-4 py-2")

/-- The title, the subtitle and the button of a hero. -/
def heroBody : List Element :=
  [.ofParam "h1" "font-bold text-4xl mb-4" .title,
   .ofParam "p" "text-xl mb-6" .subtitle,
   .block "button"
    [.text "class"
      ("bg-white text-blue-600 px-6 py-3 rounded-lg font-semibold hover:bg-gray-100 " ++
        "transition-colors")]
    [.line [.expression (.param .cta)]]]

/-- The links of a footer, if there are any, and the copyright line. -/
def footerBody (texts : List String) : List Element :=
  (match texts.take footerLinks with
    | [] => []
    | t :: ts =>
      [.block "div" [.text "class" "flex justify-center space-x-4 mb-4"]
        ((t :: ts).map (link "text-gray-400 hover:text-white"))]) ++
    [.block "div" [.text "class" "text-center text-gray-400"]
      [.inline "p" []
        [.copyrightSign, .text " ", .expression .currentYear, .text " ",
         .expression (.param .copyright), .text ". All rights reserved."]]]

/-- An image of a gallery with its caption. -/
def figure (number : Nat) (caption : String) : Element :=
  .block "figure" [.text "class" "flex flex-col items-center"]
    [.void "img"
      [.text "src" ("https://via.placeholder.com/150?text=Image+" ++ toString number),
       .text "alt" caption,
       .text "class" "rounded shadow mb-2"],
     .ofText "figcaption" "text-sm text-gray-600 text-center" caption]

/-- The images for the captions, numbered from the given number on. -/
def figures : Nat → List String → List Element
  | _, [] => []
  | number, caption :: captions => figure number caption :: figures (number + 1) captions

/-- The title and the images of a gallery, one with the name if there is no text. -/
def galleryBody (name : String) (texts : List String) : List Element :=
  [.ofParam "h2" "font-bold text-xl mb-4" .title,
   .block "div" [.text "class" "grid grid-cols-2 md:grid-cols-4 gap-4"]
    (figures 1 (if texts = [] then [name] else texts.take galleryImages))]

/-- The quote and its author. -/
def testimonialBody : List Element :=
  [.inline "blockquote" [.text "class" "text-lg italic text-gray-700 mb-4"]
    [.text "\"", .expression (.param .quote), .text "\""],
   .block "div" [.text "class" "flex items-center"]
    [.block "div"
      [.text "class"
        ("w-12 h-12 bg-blue-500 rounded-full flex items-center justify-center text-white " ++
          "font-bold mr-4")]
      [.line [.expression (.initial .author)]],
     .block "div" []
      [.ofParam "p" "font-semibold" .author,
       .ofParam "p" "text-gray-600 text-sm" .role]]]

/-- The invitation and the form of a newsletter. -/
def newsletterBody : List Element :=
  [.ofParam "h3" "font-bold text-xl mb-2" .title,
   .ofParam "p" "text-gray-700 mb-4" .description,
   .block "form" [.text "class" "flex gap-2"]
    [.void "input"
      [.text "type" "email",
       .text "placeholder" "Enter your email",
       .text "class"
        "flex-1 px-3 py-2 border rounded focus:outline-none focus:ring-2 focus:ring-blue-500"],
     .block "button"
      [.text "type" "submit",
       .text "class"
        "bg-blue-500 text-white px-4 py-2 rounded hover:bg-blue-600 transition-colors"]
      [.line [.text "Subscribe"]]]]

/-- The title, the description and the button of a call to action. -/
def ctaBody : List Element :=
  [.ofParam "h2" "font-bold text-2xl mb-2" .title,
   .ofParam "p" "text-lg mb-6" .description,
   .block "button"
    [.text "class"
      ("bg-white text-orange-500 px-8 py-3 rounded-lg font-semibold hover:bg-gray-100 " ++
        "transition-colors text-lg")]
    [.line [.expression (.param .buttonText)]]]

/-- A paragraph for each text, or one with the fallback if there is none. -/
def paragraphs (className fallback : String) : List String → List Element
  | [] => [.ofText "p" className fallback]
  | t :: ts => (t :: ts).map (.ofText "p" className)

/-- The title, the description and the image of a card. -/
def cardBody (name : String) (texts : List String) : List Element :=
  .ofParam "h3" "font-bold text-lg mb-2" .title ::
    paragraphs "text-gray-700 mb-2" "This is a card component with some description text."
      (slice texts 1 bodyParagraphs) ++
    [.void "img"
      [.text "src"
        ("https://via.placeholder.com/300x150?text=" ++ Text.formEncode (titleOr name texts)),
       .param "alt" .title,
       .text "class" "rounded mt-2 w-full"]]

/-- The text of a section that has none. -/
def sectionFallback (c : Category) : String :=
  "This is a " ++ Text.lowercase c.label ++ " section with some content."

/-- The title and the paragraphs of a section. -/
def sectionBody (c : Category) (texts : List String) : List Element :=
  .ofParam "h2" "font-bold text-xl mb-4" .title ::
    paragraphs "mb-2" (sectionFallback c) (slice texts 1 bodyParagraphs)

/-- What stands inside the root element. -/
def body (c : Category) (name : String) (texts : List String) : List Element :=
  match c with
  | .navbar => navbarBody name texts
  | .hero => heroBody
  | .footer => footerBody texts
  | .gallery => galleryBody name texts
  | .testimonial => testimonialBody
  | .newsletter => newsletterBody
  | .cta => ctaBody
  | .card => cardBody name texts
  | .aboutUs | .blog | .plainSection => sectionBody c texts

/-- The attributes of the root element. -/
def rootAttributes (c : Category) (name : String) (style : StyleTokens) : List Attribute :=
  [.text "id" name, .text "class" (rootClass c style)] ++
    (if c = .navbar then [.param "aria-label" .title] else [])

/-- The source of a component. -/
def source (c : Category) (name : String) (texts : List String) (style : StyleTokens) :
    ComponentSource where
  defaults := defaults c name texts
  root := .block (rootTag c) (rootAttributes c name style) (body c name texts)

/-- The text of the source of a component. -/
def render (c : Category) (name : String) (texts : List String) (style : StyleTokens) : String :=
  (source c name texts style).text

end Template
end DesignPages
