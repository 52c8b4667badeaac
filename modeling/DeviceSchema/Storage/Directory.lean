import DeviceSchema.Storage.FileName

/-! # Directories

What a path leads to, and a **directory** held in memory in which paths are looked
up the way a file system does it: step by step, where every step but the last has
to reach a directory.  Above a directory only other directories are known.
-/
namespace DeviceSchema.Storage

/-- Why a path leads to nothing. -/
inductive Absence where
  | notFound
  | notADirectory
  | nameTooLong
  /-- The path has a null character. -/
  | malformed
deriving DecidableEq, Repr

/-- What a path leads to. -/
inductive Lookup where
  | absent (reason : Absence)
  | directory
  /-- A file, with its path after all steps have been taken. -/
  | file (path : String) (bytes : ByteArray)
  /-- Something that may not be read. -/
  | denied (path : String)
  /-- Something that cannot be read. -/
  | unreadable (path reason : String)

/-- What a directory holds under a name. -/
inductive Entry where
  | directory
  | file (bytes : ByteArray)

/-- A directory with everything below it, by the names that lead there. -/
structure Directory where
  entries : List (List String × Entry) := []

/-- A place that steps reach. -/
inductive Place where
  /-- The entry with these names. -/
  | inside (names : List String)
  /-- So many directories above the top. -/
  | above (levels : Nat)

namespace Directory

/-- What is held under some names. -/
def find? (d : Directory) (names : List String) : Option Entry :=
  if names.isEmpty then some .directory
  else (d.entries.find? (·.1 = names)).map Prod.snd

/-- Holds an entry in place of what was there. -/
def put (d : Directory) (names : List String) (entry : Entry) : Directory :=
  ⟨d.entries.filter (·.1 ≠ names) ++ [(names, entry)]⟩

/-- Adds an entry, and the directories above it. -/
def add (d : Directory) (path : String) (entry : Entry) : Directory :=
  let names := (steps path).map String.ofList
  let parents := ((List.range names.length).drop 1).map names.take
  let missing := parents.filter fun names => (d.find? names).isNone
  (missing.foldl (fun d names => d.put names .directory) d).put names entry

/-- Takes a step from a place, which has to be a directory. -/
def step (d : Directory) (place : Place) (name : String) : Except Absence Place :=
  match place with
  | .above levels =>
    if name = "" ∨ name = "." then .ok (.above levels)
    else if name = ".." then .ok (.above (levels + 1))
    else .error .notFound
  | .inside names =>
    match d.find? names with
    | some .directory =>
      if name = "" ∨ name = "." then .ok (.inside names)
      else if name = ".." then
        .ok (if names.isEmpty then .above 1 else .inside names.dropLast)
      else if 255 < name.utf8ByteSize then .error .nameTooLong
      else if (d.find? (names ++ [name])).isSome then .ok (.inside (names ++ [name]))
      else .error .notFound
    | some (.file _) => .error .notADirectory
    | none => .error .notFound

/-- What a path leads to. -/
def lookup (d : Directory) (path : String) : Lookup :=
  if path.toList.contains (Char.ofNat 0) then .absent .malformed
  else
    let names := (path.toList.splitOn '/').map String.ofList
    let start := if path.toList.head? = some '/' then Place.above 1 else .inside []
    match if path.isEmpty then .error .notFound else names.foldlM d.step start with
    | .error reason => .absent reason
    | .ok (.above _) => .directory
    | .ok (.inside names) =>
      match d.find? names with
      | some (.file bytes) => .file ("/".intercalate names) bytes
      | some .directory => .directory
      | none => .absent .notFound

end Directory
end DeviceSchema.Storage
