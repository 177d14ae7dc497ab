/-!
# Markup

This module holds markup as data: elements with their attributes, texts, and the expressions that a
template evaluates.  Texts stand here as they are; they are escaped when the markup is printed.
-/

namespace DesignPages
namespace Markup

/-- The parameters that components declare. -/
inductive Param where
  | title
  | subtitle
  | cta
  | copyright
  | quote
  | author
  | role
  | description
  | buttonText
  deriving DecidableEq, Repr

/-- The name of a parameter. -/
def Param.name : Param → String
  | title => "title"
  | subtitle => "subtitle"
  | cta => "cta"
  | copyright => "copyright"
  | quote => "quote"
  | author => "author"
  | role => "role"
  | description => "description"
  | buttonText => "buttonText"

/-- What a template puts in when the page is built. -/
inductive Expression where
  | param (p : Param)
  /-- The first letter of a parameter. -/
  | initial (p : Param)
  | currentYear
  /-- The name of the program that builds the page. -/
  | generator
  deriving DecidableEq, Repr

/-- The parameter that an expression uses, if it uses one. -/
def Expression.param? : Expression → Option Param
  | param p => some p
  | initial p => some p
  | currentYear => none
  | generator => none

/-- The value of an attribute. -/
inductive AttributeValue where
  | text (s : String)
  | expression (e : Expression)
  deriving DecidableEq, Repr

/-- An attribute of an element. -/
structure Attribute where
  name : String
  value : AttributeValue
  deriving DecidableEq, Repr

/-- An attribute whose value is a text. -/
def Attribute.text (name value : String) : Attribute :=
  ⟨name, .text value⟩

/-- An attribute whose value is a parameter. -/
def Attribute.param (name : String) (p : Param) : Attribute :=
  ⟨name, .expression (.param p)⟩

/-- What can stand inside a line. -/
inductive Inline where
  | text (s : String)
  | copyrightSign
  | expression (e : Expression)
  deriving DecidableEq, Repr

/-- A piece of markup that begins on a line of its own. -/
inductive Element where
  /-- A line of content. -/
  | line (content : List Inline)
  /-- An element on one line, with its content between the tags. -/
  | inline (tag : String) (attributes : List Attribute) (content : List Inline)
  /-- An element without content and closing tag. -/
  | void (tag : String) (attributes : List Attribute)
  /-- An element with its children on the lines between its tags. -/
  | block (tag : String) (attributes : List Attribute) (children : List Element)
  deriving Repr

/-- An element with a class and a text. -/
def Element.ofText (tag className text : String) : Element :=
  .inline tag [.text "class" className] [.text text]

/-- An element with a class that shows a parameter. -/
def Element.ofParam (tag className : String) (p : Param) : Element :=
  .inline tag [.text "class" className] [.expression (.param p)]

end Markup
end DesignPages
