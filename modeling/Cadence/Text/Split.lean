/-!
# Splitting at a separator

Cron fields are lists of ranges and steps.  A list is split at every comma, a
range or step at its first separator only.
-/

namespace Cadence

/-- The parts between the separators; `n` separators leave `n + 1` parts. -/
def splitAll (separator : Char) : List Char → List (List Char)
  | [] => [[]]
  | c :: rest =>
    if c = separator then [] :: splitAll separator rest
    else match splitAll separator rest with
      | part :: parts => (c :: part) :: parts
      | [] => [[c]]

/-- What stands before and after the first separator, if there is one. -/
def splitFirst? (separator : Char) : List Char → Option (List Char × List Char)
  | [] => none
  | c :: rest =>
    if c = separator then some ([], rest)
    else (splitFirst? separator rest).map fun (before, after) => (c :: before, after)

/-- The text before a final character, if the text ends with it. -/
def dropFinal? (final : Char) (text : List Char) : Option (List Char) :=
  match text.reverse with
  | c :: before => if c = final then some before.reverse else none
  | [] => none

/-- Joins texts with a separator between neighbours. -/
def joined (separator : String) : List String → String
  | [] => ""
  | [text] => text
  | text :: rest => text ++ separator ++ joined separator rest

end Cadence
