import SignalBroker.Files.Location
import SignalBroker.Table

namespace SignalBroker

inductive FileEntry where
  | text (content : String)
  | directory

inductive FileError where
  | missing
  | notDirectory
  | isDirectory
  | nameTooLong
  | nulInName
  deriving DecidableEq

def FileError.message : FileError → String
  | .missing => "No such file or directory (os error 2)"
  | .notDirectory => "Not a directory (os error 20)"
  | .isDirectory => "Is a directory (os error 21)"
  | .nameTooLong => "File name too long (os error 36)"
  | .nulInName => "file name contained an unexpected NUL byte"

structure Files where
  entries : Table String FileEntry

namespace Files

def empty : Files := ⟨.empty⟩

instance : EmptyCollection Files := ⟨empty⟩
instance : Inhabited Files := ⟨empty⟩

/-- What is at a place. The root, the working directory and all above it are directories. -/
def entryAt? (fs : Files) (l : Location) : Option FileEntry :=
  if l.parts.isEmpty then some .directory else fs.entries.find? l.name

def putAt (fs : Files) (l : Location) (entry : FileEntry) : Files :=
  ⟨(l.parents.foldl (fun entries p => entries.insert p.name .directory) fs.entries).insert
    l.name entry⟩

def put (fs : Files) (name content : String) : Files :=
  fs.putAt (.ofName name) (.text content)

def obstruct (fs : Files) (name : String) : Files :=
  fs.putAt (.ofName name) .directory

def maxPartBytes : Nat := 255

def maxNameBytes : Nat := 4095

def nameFault? (name : String) : Option FileError :=
  if name.toList.contains '\x00' then some .nulInName
  else if name = "" then some .missing
  else if maxNameBytes < name.utf8ByteSize then some .nameTooLong
  else none

/-- Go from a place through one part of a name, which only a directory allows. -/
def advance (fs : Files) (l : Location) (part : String) : Except FileError Location :=
  match fs.entryAt? l with
  | none => .error .missing
  | some (.text _) => .error .notDirectory
  | some .directory =>
    if maxPartBytes < part.utf8ByteSize then .error .nameTooLong else .ok (l.step part)

def locate (fs : Files) (name : String) : Except FileError Location :=
  match nameFault? name with
  | some e => .error e
  | none => (Location.partsOf name).foldlM fs.advance (.start name)

def read (fs : Files) (name : String) : Except FileError String := do
  let l ← fs.locate name
  match fs.entryAt? l with
  | some (.text content) => return content
  | some .directory => throw .isDirectory
  | none => throw .missing

def write (fs : Files) (name content : String) : Except FileError Files := do
  let l ← fs.locate name
  match fs.entryAt? l with
  | some .directory => throw .isDirectory
  | _ => return fs.putAt l (.text content)

end Files

end SignalBroker
