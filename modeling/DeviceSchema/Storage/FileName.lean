import DeviceSchema.Text.Lowercase

/-! # File names

The parts of a path of the file system: steps are separated by slashes, empty
steps and points that mean the same directory do not count.
-/
namespace DeviceSchema.Storage

/-- The steps of a path that count. -/
def steps (path : String) : List (List Char) :=
  (path.toList.splitOn '/').filter fun step => step ≠ [] && step ≠ ['.']

/-- The name of the file that a path leads to.  A path that ends in no name stands
for itself. -/
def fileName (path : String) : String :=
  match (steps path).getLast? with
  | none | some ['.', '.'] => path
  | some name => String.ofList name

/-- What follows the last point of a name, unless the point comes first. -/
def suffix? (name : List Char) : Option (List Char) :=
  let reversed := name.reverse
  let stem := (reversed.dropWhile (· ≠ '.')).drop 1
  if stem.isEmpty then none else some (reversed.takeWhile (· ≠ '.')).reverse

/-- The extension of the file that a path leads to, in lower case. -/
def extension? (path : String) : Option String :=
  match (steps path).getLast? with
  | none | some ['.', '.'] => none
  | some name => (suffix? name).map fun s => Text.lowercase (String.ofList s)

end DeviceSchema.Storage
