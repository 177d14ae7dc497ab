/-!
# Paths

This module holds what the command line does with the text of a path.
-/

namespace DesignPages
namespace Path

/-- The parts of a path between its slashes. -/
def segments : List Char → List (List Char)
  | [] => [[]]
  | c :: cs =>
    if c = '/' then [] :: segments cs
    else match segments cs with
      | [] => [[c]]
      | s :: ss => (c :: s) :: ss

/-- Whether a path starts at the root. -/
def isAbsolute (path : String) : Bool :=
  path.toList.head? == some '/'

/-- A path followed from the folder at another one; one that starts at the root stays as it is. -/
def join (base path : String) : String :=
  if isAbsolute path then path
  else if base.isEmpty || base.toList.getLast? == some '/' then base ++ path
  else base ++ "/" ++ path

/-- Whether a path stands for the standard input: it is one dash, whatever slashes follow. -/
def isStandardInput (path : String) : Bool :=
  match segments path.toList with
  | ['-'] :: rest => rest.all fun s => s == [] || s == ['.']
  | _ => false

end Path
end DesignPages
