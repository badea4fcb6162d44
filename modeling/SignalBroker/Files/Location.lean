namespace SignalBroker

/-- A place: first up from the working directory, or to the root, and then down some parts. -/
structure Location where
  isAbsolute : Bool
  ups : Nat
  parts : List String
  deriving DecidableEq, Repr

namespace Location

def root : Location := ⟨true, 0, []⟩

def workingDirectory : Location := ⟨false, 0, []⟩

def start (name : String) : Location :=
  if name.startsWith "/" then root else workingDirectory

def up (l : Location) : Location :=
  if !l.parts.isEmpty then { l with parts := l.parts.dropLast }
  else if l.isAbsolute then l
  else { l with ups := l.ups + 1 }

def down (l : Location) (part : String) : Location :=
  { l with parts := l.parts ++ [part] }

def step (l : Location) (part : String) : Location :=
  if part = "" || part = "." then l
  else if part = ".." then l.up
  else l.down part

def splitSlashes : List Char → List (List Char)
  | [] => [[]]
  | c :: cs =>
    if c = '/' then [] :: splitSlashes cs
    else match splitSlashes cs with
      | [] => [[c]]
      | p :: ps => (c :: p) :: ps

def partsOf (name : String) : List String :=
  (splitSlashes name.toList).map String.ofList

def ofName (name : String) : Location :=
  (partsOf name).foldl step (start name)

def name (l : Location) : String :=
  let front := if l.isAbsolute then "/" else String.join (List.replicate l.ups "../")
  front ++ "/".intercalate l.parts

def parents (l : Location) : List Location :=
  (List.range l.parts.length).tail.map fun n => { l with parts := l.parts.take n }

end Location

end SignalBroker
