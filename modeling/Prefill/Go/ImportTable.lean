import Prefill.Go.Import

/-! The imports of a file that is being written: by local name, in the order of the names. -/

namespace Prefill.Go

abbrev ImportTable := List (Text × ImportSpec)

namespace ImportTable

/-- The import under a name. -/
def find? (table : ImportTable) (name : Text) : Option ImportSpec :=
  (List.find? (fun entry => entry.1 = name) table).map (·.2)

/-- Enters an import under a name, in place of the one that is there. -/
def put (name : Text) (spec : ImportSpec) : ImportTable → ImportTable
  | [] => [(name, spec)]
  | entry :: rest =>
    if name = entry.1 then (name, spec) :: rest
    else if name < entry.1 then (name, spec) :: entry :: rest
    else entry :: put name spec rest

/-- Enters an import under a name, unless there is one already. -/
def add (name : Text) (spec : ImportSpec) (table : ImportTable) : ImportTable :=
  match table.find? name with
  | some _ => table
  | none => table.put name spec

/-- The imports in order. -/
def specs (table : ImportTable) : List ImportSpec := table.map (·.2)

end ImportTable

end Prefill.Go
