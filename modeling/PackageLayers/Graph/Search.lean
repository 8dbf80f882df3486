/-
Purpose: Shortest paths in a table of neighbours.
Main exports: Neighbours, Neighbours.of, Neighbours.shortestPath?
-/
import PackageLayers.Dict

namespace PackageLayers

/-!
A table lists, for some names, their neighbours in any order and with
repetitions; a neighbour need not have an entry.  The search is breadth first.
A trail is the way back from a name to the start, so the first trail that ends
at the goal is a shortest path and needs only to be turned round.

The number of rounds is bounded by the entries of the table: every round takes
one trail off the queue, and a name is queued at most once.
-/

/-- A table of neighbours. -/
abbrev Neighbours := List (String × List String)

namespace Neighbours

/-- The neighbours of a name. -/
def of (table : Neighbours) (name : String) : List String :=
  (Dict.lookup name table).getD []

/-- The names that are new among some names, each once. -/
def fresh (seen : List String) : List String → List String
  | [] => []
  | name :: rest =>
      if seen.contains name then fresh seen rest
      else name :: fresh (name :: seen) rest

/-- Go on with a queue of trails; a trail is a name and the names before it, back
to the start. -/
def search (table : Neighbours) (goal : String) :
    (rounds : Nat) → (queue : List (String × List String)) →
      (seen : List String) → Option (List String)
  | 0, _, _ => none
  | _ + 1, [], _ => none
  | rounds + 1, (last, before) :: queue, seen =>
      let found := fresh seen (table.of last)
      if found.contains goal then some (goal :: last :: before).reverse
      else
        search table goal rounds
          (queue ++ found.map fun name => (name, last :: before))
          (seen ++ found)

/-- Enough rounds for every search in a table. -/
def rounds (table : Neighbours) : Nat :=
  (table.flatMap Prod.snd).length + 2

/-- A shortest path between two names, both included. -/
def shortestPath? (table : Neighbours) (start goal : String) :
    Option (List String) :=
  if start = goal then some [start]
  else search table goal table.rounds [(start, [])] [start]

/-- Of two ways the shorter is found, and a circle does not trap the search. -/
example :
    shortestPath? [("a", ["a", "b", "c"]), ("b", ["a", "d"]), ("c", ["b", "d"]),
      ("d", ["e"])] "a" "e" = some ["a", "b", "d", "e"] := by
  decide

end Neighbours

end PackageLayers
