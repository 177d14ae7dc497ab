import DesignPages.Json.Literal

/-!
# JSON values

This module holds the values of JSON.  Numbers keep their spelling, and objects keep the order of
their members.
-/

namespace DesignPages

/-- A JSON value. -/
inductive Json where
  | null
  | bool (value : Bool)
  | num (literal : Json.Literal)
  | str (text : String)
  | arr (items : List Json)
  | obj (members : List (String × Json))
  deriving Repr, Inhabited

namespace Json

/-- An integer as a value. -/
def ofInt (n : Int) : Json :=
  .num (.ofInt n)

/-- A natural number as a value. -/
def ofNat (n : Nat) : Json :=
  .ofInt n

/-- A double as a value; infinities and NaN are written as `null`. -/
def ofDouble (x : Float) : Json :=
  (Literal.ofDouble? x).elim .null .num

/-- A single as a value; infinities and NaN are written as `null`. -/
def ofSingle (x : Float32) : Json :=
  (Literal.ofSingle? x).elim .null .num

/-- A value that may be missing, which is written as `null`. -/
def ofOption {α : Type} (write : α → Json) (x : Option α) : Json :=
  x.elim .null write

/-- A list of values. -/
def ofList {α : Type} (write : α → Json) (xs : List α) : Json :=
  .arr (xs.map write)

/-- A list of texts. -/
def ofTexts (xs : List String) : Json :=
  ofList .str xs

end Json
end DesignPages
