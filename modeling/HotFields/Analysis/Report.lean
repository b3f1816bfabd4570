import HotFields.Analysis.Table

namespace HotFields.Report

def heading : String := "Member access heatmap:"

/-- The lines of one structure. A structure without fields is left out. -/
def bucketLines (owner : String) (counts : FieldCounts) : List String :=
  if counts.isEmpty then []
  else
    (owner ++ ":") ::
      counts.map fun (field, n) => Nat.repr field.toNat ++ ": " ++ Nat.repr n.toNat

/-- The lines of the report: a heading, then every structure with its fields and counts, one to a line. -/
def lines (t : Table) : List String :=
  heading :: t.buckets.flatMap fun (owner, counts) => bucketLines owner counts

/-- The text of the report. Every line ends with a line feed. -/
def render (t : Table) : String :=
  (lines t).foldl (fun text line => text ++ line ++ "\n") ""

end HotFields.Report
