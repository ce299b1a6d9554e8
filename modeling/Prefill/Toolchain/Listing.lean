import Prefill.Text.Line

/-! The listing of the standard library's packages, one import path to a line. -/

namespace Prefill.Toolchain

open Text

/-- Whether a listed path can be imported under a package name: its last segment is the name, and
it is neither internal nor vendored. -/
def listsAs (name path : Text) : Bool :=
  let segments := pieces '/' path
  !path.isEmpty && !segments.contains "internal".toList && !segments.contains "vendor".toList &&
    segments.getLast? = some name

/-- The shorter of two paths, the first one when they are equally long. -/
def shorter (best : Option Text) (path : Text) : Option Text :=
  match best with
  | some chosen => if byteLength path < byteLength chosen then some path else some chosen
  | none => some path

/-- The shortest listed path whose last segment is a package name; the first one of several. -/
def matchListing (listing name : Text) : Option Text :=
  (((lines listing).map fun line => trim line.body).filter (listsAs name)).foldl shorter none

end Prefill.Toolchain
