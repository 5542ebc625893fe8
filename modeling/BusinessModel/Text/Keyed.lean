/-!
Values by names, in the order in which the names first occur. A name that occurs again keeps its
place and takes the new value.
-/

namespace BusinessModel.Keyed

/-- Sets the value of a name. -/
def put {α : Type} (entries : List (String × α)) (name : String) (value : α) :
    List (String × α) :=
  match entries with
  | [] => [(name, value)]
  | (n, v) :: rest => if n == name then (n, value) :: rest else (n, v) :: put rest name value

/-- The values of names that may occur several times. -/
def ofList {α : Type} (entries : List (String × α)) : List (String × α) :=
  entries.foldl (fun seen (name, value) => put seen name value) []

end BusinessModel.Keyed
