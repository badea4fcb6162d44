import SignalBroker.Path.Segments

/-!
Hosts to listen on, seen from a machine without network. A host is an address in numbers, or a name
that stands for one. There is nobody to ask for names but the machine itself, which knows its own. With
no interface to tell them apart it takes every short address for its own, and of the long ones those
that hold a short one and the one that stands for all.
-/

namespace SignalBroker

inductive HostFault where
  | nulInName
  | notName
  | noLookup
  | reserved
  | invalid
  | notOwn
  deriving DecidableEq, Repr

inductive Address where
  | short (bits : Nat)
  | long (bits : Nat)
  deriving DecidableEq, Repr

namespace Address

def digit? (base : Nat) (c : Char) : Option Nat :=
  let d :=
    if '0' ≤ c && c ≤ '9' then some (c.toNat - '0'.toNat)
    else if 'a' ≤ c && c ≤ 'f' then some (c.toNat - 'a'.toNat + 10)
    else if 'A' ≤ c && c ≤ 'F' then some (c.toNat - 'A'.toNat + 10)
    else none
  d.filter (· < base)

def digits? (base : Nat) (cs : List Char) : Option Nat :=
  if cs.isEmpty then none
  else cs.foldlM (fun n c => do return n * base + (← digit? base c)) 0

def number? : List Char → Option Nat
  | '0' :: 'x' :: cs => digits? 16 cs
  | '0' :: 'X' :: cs => digits? 16 cs
  | '0' :: cs => digits? 8 ('0' :: cs)
  | cs => digits? 10 cs

/-- Parts of a short address after those already read: each is a byte, but the last one takes the
bytes that are left. -/
def fillBytes (bits : Nat) : Nat → List Nat → Option Nat
  | _, [] => none
  | left, [last] => if last < Nat.pow 256 left then some (bits * Nat.pow 256 left + last) else none
  | left, part :: parts =>
    if part < 256 && 1 < left then fillBytes (bits * 256 + part) (left - 1) parts else none

def short? (host : String) : Option Nat := do
  let parts ← (Path.splitDots host.toList).mapM number?
  fillBytes 0 4 parts

def dotted? (cs : List Char) : Option Nat := do
  let bytes ← (Path.splitDots cs).mapM fun part => do
    let n ← digits? 10 part
    if n < 256 && Nat.toDigits 10 n = part then some n else none
  if bytes.length = 4 then fillBytes 0 4 bytes else none

def group? (cs : List Char) : Option Nat :=
  if cs.length ≤ 4 then digits? 16 cs else none

def groups? : List (List Char) → Option (List Nat)
  | [] => some []
  | [last] =>
    match dotted? last with
    | some bits => some [bits / 0x10000, bits % 0x10000]
    | none => (group? last).map ([·])
  | part :: parts => do return (← group? part) :: (← groups? parts)

def splitColons : List Char → List (List Char)
  | [] => [[]]
  | c :: cs =>
    if c = ':' then [] :: splitColons cs
    else match splitColons cs with
      | [] => [[c]]
      | s :: ss => (c :: s) :: ss

def splitGap? : List Char → Option (List Char × List Char)
  | [] => none
  | c :: cs =>
    match c, cs with
    | ':', ':' :: rest => some ([], rest)
    | _, _ => (splitGap? cs).map fun (front, back) => (c :: front, back)

def joinGroups (groups : List Nat) : Nat :=
  groups.foldl (fun bits g => bits * 0x10000 + g) 0

/-- A long address: eight groups, of which a pair of colons may stand for one or more that are zero. -/
def long? (cs : List Char) : Option Nat :=
  match splitGap? cs with
  | some (front, back) => do
    let front ← if front.isEmpty then some [] else (splitColons front).mapM group?
    let back ← if back.isEmpty then some [] else groups? (splitColons back)
    let given := front.length + back.length
    if given < 8 then some (joinGroups (front ++ List.replicate (8 - given) 0 ++ back)) else none
  | none => do
    let groups ← groups? (splitColons cs)
    if groups.length = 8 then some (joinGroups groups) else none

def ofHost? (host : String) : Option Address :=
  match short? host with
  | some bits => some (.short bits)
  | none =>
    let cs := host.toList
    let cs := match cs with
      | '[' :: rest => if rest.getLast? == some ']' then rest.dropLast else cs
      | _ => cs
    (long? cs).map .long

def isGroup : Address → Bool
  | .short _ => false
  | .long bits => bits / Nat.pow 2 120 = 0xff

def needsInterface : Address → Bool
  | .short _ => false
  | .long bits => bits / Nat.pow 2 118 = 0x3fa

def isOwn : Address → Bool
  | .short _ => true
  | .long bits => bits = 0 || bits / 0x100000000 = 0xffff

end Address

namespace Host

def isNameChar (c : Char) : Bool :=
  c.isAlphanum || c = '-' || c = '_'

def isNamePart (part : String) : Bool :=
  !part.isEmpty && part.length ≤ 63 && part.toList.all isNameChar

/-- Whether a text has the form of a name: parts between dots, no hyphen first, and at most 253
characters. A dot at the end does not count, and may be all there is. -/
def isName (host : String) : Bool :=
  let parts := Path.segments host
  let parts := if 1 < parts.length && parts.getLast? == some "" then parts.dropLast else parts
  host = "." || host.length ≤ 253 && host.toList.head? != some '-' && parts.all isNamePart

/-- The address of a host. The only name that is known is that of the machine itself. -/
def address (host : String) : Except HostFault Address :=
  if host.toList.contains '\x00' then .error .nulInName
  else match Address.ofHost? host with
    | some a => .ok a
    | none =>
      if host.map Char.toLower = "localhost" then .ok (.short 0x7f000001)
      else if isName host then .error .noLookup
      else .error .notName

def leastFree : Nat := 1024

def fault? (host : String) (number : Nat) : Option HostFault :=
  match address host with
  | .error e => some e
  | .ok a =>
    if a.isGroup then some .invalid
    else if number < leastFree then some .reserved
    else if a.needsInterface then some .invalid
    else if a.isOwn then none
    else some .notOwn

end Host

end SignalBroker
