-- SUMMARY: Items inserted one after the other, up to the first that is refused.
import LinearProbing.Fault

/-! # Series of insertions

Maps and sets take items from a list one after the other. An item that is refused ends the series;
what was inserted before it stays.
-/

namespace LinearProbing

universe u v w

variable {State : Type u} {Item : Type v} {Answer : Type w}

/-- Inserts the items one after the other, up to the first that is refused. Yields the state that is
left, with the fault if there was one. -/
def insertEach (insert : State → Item → Except Fault (Answer × State)) (s : State) :
    List Item → State × Option Fault
  | [] => (s, none)
  | item :: rest =>
    match insert s item with
    | .ok (_, s) => insertEach insert s rest
    | .error fault => (s, some fault)

/-- Inserts the items into a container that must have a place for all of them. -/
def collect (insert : State → Item → Except Fault (Answer × State)) (s : State)
    (items : List Item) : Except Fault State :=
  match insertEach insert s items with
  | (s, none) => .ok s
  | (_, some fault) => .error fault

end LinearProbing
