import DeviceSchema.Journal.Event
import DeviceSchema.Storage.Directory
import DeviceSchema.Text.Blank
import DeviceSchema.Text.Lines
import DeviceSchema.Text.Quoted
import DeviceSchema.Text.Utf8

/-! # Source files

A **source file** is a description read from a file, with what is known of the
file.  Files are bounded in size before they are decoded and in lines afterwards.
A file that is not in UTF-8 may be taken for Latin-1, in which every byte is a
character.
-/
namespace DeviceSchema.Storage

/-- Why a file is no source file. -/
inductive Fault where
  | notFound (path : String)
  | wrongExtension (found : Option String)
  | tooLarge (size most : Nat)
  | empty
  | denied (path : String)
  | notUtf8 (path : String)
  | unreadable (reason : String)
  | invalidPath (path : String)
  | tooManyLines (lines most : Nat)
deriving DecidableEq, Repr

namespace Fault

def message : Fault → String
  | notFound path => "File not found: " ++ path
  | wrongExtension found =>
    "Invalid file extension: expected .rci, found " ++
      match found with
      | some extension => "Some(" ++ Text.inQuotes extension ++ ")"
      | none => "None"
  | tooLarge size most =>
    "File too large: " ++ toString size ++ " bytes (max: " ++ toString most ++ ")"
  | empty => "File is empty"
  | denied path => "Permission denied: " ++ path
  | notUtf8 path => "Invalid UTF-8 encoding in file: " ++ path
  | unreadable reason => "I/O error reading file: " ++ reason
  | invalidPath path => "Invalid file path: " ++ path
  | tooManyLines lines most =>
    "File exceeds maximum line count: " ++ toString lines ++ " (max: " ++ toString most ++ ")"

def code : Fault → ErrorCode
  | notFound _ => .fileNotFound
  | wrongExtension _ => .invalidExtension
  | tooLarge _ _ => .fileTooLarge
  | empty => .emptyFile
  | denied _ => .permissionDenied
  | notUtf8 _ => .invalidEncoding
  | unreadable _ => .readFailure
  | invalidPath _ => .invalidPath
  | tooManyLines _ _ => .tooManyLines

end Fault

/-- How the bytes of a file were read. -/
inductive Encoding where
  | utf8
  | latin1
deriving DecidableEq, Repr

def Encoding.word : Encoding → String
  | utf8 => "utf-8"
  | latin1 => "iso-8859-1"

/-- What may differ in reading files. -/
structure Preferences where
  requireExtension : Bool := false
  /-- Whether the event about a file that was read has its measures. -/
  logMeasures : Bool := true
  allowLatin1 : Bool := true
deriving DecidableEq, Repr

/-- What is known of a file. -/
structure Metadata where
  path : String
  size : Nat
  extension : Option String
  lineCount : Nat
  encoding : Encoding
deriving DecidableEq, Repr

section Size

/-- Divides by 1024 while the size allows it, at most `steps` times.  The answer
is the number of divisions. -/
def unitSteps (size : Nat) : Nat → Nat
  | 0 => 0
  | steps + 1 => if size < 1024 then 0 else unitSteps (size / 1024) steps + 1

/-- A size for people: bytes as they are, and larger units with two places of
the size to 53 significant bits. -/
def readableSize (size : Nat) : String :=
  let rounded := Text.significant 53 size 1
  match unitSteps rounded 3 with
  | 0 => toString size ++ " B"
  | unit => Text.fixed (Text.roundedQuotient (100 * rounded) (Nat.pow 1024 unit)) 2 ++
      match unit with
      | 1 => " KB"
      | 2 => " MB"
      | _ => " GB"

end Size

namespace Metadata

/-- The extension by which descriptions are known. -/
def expectedExtension : String := "rci"

def hasExpectedExtension (m : Metadata) : Bool := m.extension = some expectedExtension

def fileName (m : Metadata) : String := Storage.fileName m.path

def readableSize (m : Metadata) : String := Storage.readableSize m.size

def members (m : Metadata) : List (String × Json) :=
  [("size", .count m.size), ("extension", Json.text? m.extension),
    ("line_count", .count m.lineCount), ("is_rci_file", .bool m.hasExpectedExtension),
    ("encoding", .text m.encoding.word), ("human_readable_size", .text m.readableSize),
    ("file_name", .text m.fileName)]

end Metadata

/-- A description read from a file. -/
structure SourceFile where
  source : String
  metadata : Metadata
deriving DecidableEq, Repr

namespace SourceFile

/-- Whether the file has nothing but blanks. -/
def isBlank (f : SourceFile) : Bool := f.source.toList.all Text.isBlank

/-- A step of reading a file, which logs events. -/
abbrev Opening := EStateM Fault (Array Event)

namespace Opening

/-- Logs an event. -/
def tell (event : Event) : Opening Unit := fun events => .ok () (events.push event)

/-- Fails with a fault, which is logged. -/
def fail {α : Type} (fault : Fault) (message : String) (details : List (String × String)) :
    Opening α :=
  fun events =>
    .error fault (events.push ((Event.ofError fault.code.text message).details details))

/-- The path and the bytes of a file. -/
def contents (path : String) : Lookup → Opening (String × ByteArray)
  | .absent _ => fail (.notFound path) "File not found" [("path", path)]
  | .directory => fail (.invalidPath path) "Path is not a file" [("path", path)]
  | .denied found =>
    fail (.denied found) "I/O error reading file" [("file", path), ("io_error", "denied")]
  | .unreadable found reason =>
    fail (.unreadable (found ++ ": " ++ reason)) "I/O error reading file"
      [("file", path), ("io_error", reason)]
  | .file found bytes => return (found, bytes)

/-- The size and the extension of a file suit the preferences. -/
def checkFile (preferences : Preferences) (path : String) (size : Nat)
    (extension : Option String) : Opening Unit :=
  if Ceiling.fileBytes < size then
    fail (.tooLarge size Ceiling.fileBytes) "File exceeds compile-time maximum size limit"
      [("file", path), ("size_bytes", toString size),
        ("limit_bytes", toString Ceiling.fileBytes)]
  else if size = 0 then fail .empty "File is empty" [("file", path)]
  else if preferences.requireExtension && extension ≠ some Metadata.expectedExtension then
    fail (.wrongExtension extension) "File does not have required .rci extension"
      [("file", path), ("extension", extension.getD "none")]
  else return ()

/-- The text of a file. -/
def decode (preferences : Preferences) (path found : String) (bytes : ByteArray) :
    Opening (String × Encoding) :=
  match String.fromUTF8? bytes with
  | some source => return (source, .utf8)
  | none =>
    if preferences.allowLatin1 then do
      tell ((Event.ofWarning "File is not valid UTF-8, decoding as ISO-8859-1").details
        [("file", path), ("valid_up_to", toString (Text.Utf8.validUpTo bytes 0))])
      return (Text.Utf8.latin1 bytes, .latin1)
    else fail (.notUtf8 found) "Invalid UTF-8 encoding in file" [("file", path)]

/-- The event about a file that was read. -/
def completion (preferences : Preferences) (path : String) (m : Metadata) : Event :=
  if preferences.logMeasures then
    { (Event.ofSuccess Milestone.fileRead.text
        "File processed successfully with performance metrics").details
      [("file", path), ("size_bytes", toString m.size), ("size_human", m.readableSize),
        ("lines", toString m.lineCount), ("encoding", m.encoding.word)] with timed := true }
  else
    (Event.ofSuccess Milestone.fileRead.text "File processed successfully").details
      [("file", path), ("lines", toString m.lineCount)]

/-- Reads the file that a path leads to. -/
def sourceFile (preferences : Preferences) (path : String) (lookup : Lookup) :
    Opening SourceFile := do
  tell ((Event.ofDebug "Starting file processing").detail "file" path)
  if path.isEmpty then fail (.invalidPath path) "Empty file path provided" []
  let (found, bytes) ← contents path lookup
  let extension := extension? found
  checkFile preferences path bytes.size extension
  let (source, encoding) ← decode preferences path found bytes
  let lineCount := Text.lineCount source.toList
  if Ceiling.fileLines < lineCount then
    fail (.tooManyLines lineCount Ceiling.fileLines) "File exceeds maximum line count"
      [("file", path), ("lines", toString lineCount),
        ("max_lines", toString Ceiling.fileLines)]
  let metadata := { path := found, size := bytes.size, extension, lineCount, encoding }
  tell (completion preferences path metadata)
  return { source, metadata }

end Opening
end SourceFile
end DeviceSchema.Storage
