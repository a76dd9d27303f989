import TwoPass.Files.Path
import TwoPass.Text.Quoted
import TwoPass.Text.Utf8

/-
  The files a run can see: directories and files by the parts of their path, seen from a working
  directory. Reading and writing follow a path through directories that exist. The bytes of a name
  and of a whole path are limited, and no path holds a null character.
-/

namespace TwoPass

inductive Node
  | directory
  | file (content : List UInt8)
  deriving DecidableEq

inductive FileReason
  | notFound
  | notDirectory
  | isDirectory
  | nameTooLong
  | nullCharacter
  deriving DecidableEq

def FileReason.text : FileReason → Text
  | .notFound => "[Errno 2] No such file or directory"
  | .notDirectory => "[Errno 20] Not a directory"
  | .isDirectory => "[Errno 21] Is a directory"
  | .nameTooLong => "[Errno 36] File name too long"
  | .nullCharacter => "embedded null byte"

structure FileFault where
  reason : FileReason
  path : Text
  deriving DecidableEq

/-- The reason and the path; a path that is none is not shown. -/
def FileFault.text (f : FileFault) : Text :=
  if f.reason = .nullCharacter then f.reason.text
  else f.reason.text ++ ": " ++ Text.quoted f.path

structure Store where
  entries : List (List Text × Node) := []
  deriving DecidableEq

namespace Store

/-- The working directory, the directories above it, and the root of absolute paths. -/
def isGiven (place : List Text) : Bool := place.all (· = "..".toList) || place = [['/']]

def node? (s : Store) (place : List Text) : Option Node :=
  if isGiven place then some .directory
  else (s.entries.find? fun e => e.1 = place).map Prod.snd

def insert (s : Store) (place : List Text) (node : Node) : Store :=
  if (s.entries.find? fun e => e.1 = place).isSome then
    { entries := s.entries.map fun e => if e.1 = place then (place, node) else e }
  else { entries := s.entries ++ [(place, node)] }

def parent (place : List Text) : List Text :=
  if place.all (· = "..".toList) then place ++ ["..".toList]
  else if place = [['/']] then place
  else place.dropLast

/-- Bytes of the longest name. -/
def nameLimit : Nat := 255

/-- Bytes of the longest path. -/
def pathLimit : Nat := 4095

def isTooLong (name : Text) : Bool := nameLimit < (Utf8.encode name).length

/-- The place that the parts of a path lead to. All but the last must be directories. -/
def walk (s : Store) : (place : List Text) → List Text → Except FileReason (List Text)
  | place, [] => .ok place
  | place, part :: rest =>
    if part = ['.'] then s.walk place rest
    else if part = "..".toList then s.walk (parent place) rest
    else if rest = [] then .ok (place ++ [part])
    else if isTooLong part then .error .nameTooLong
    else
      match s.node? (place ++ [part]) with
      | some .directory => s.walk (place ++ [part]) rest
      | some (.file _) => .error .notDirectory
      | none => .error .notFound

/-- Where a path starts: the root of absolute paths, or the working directory. -/
def origin (path : Text) : List Text := if path.head? = some '/' then [['/']] else []

/-- The place a path names; nothing need be there. -/
def locate (s : Store) (path : Text) : Except FileReason (List Text) :=
  if path.contains '\x00' then .error .nullCharacter
  else if path = [] then .error .notFound
  else if pathLimit < (Utf8.encode path).length then .error .nameTooLong
  else s.walk (origin path) ((Path.split '/' path).filter (· ≠ []))

def endsInSlash (path : Text) : Bool := path.getLast? = some '/'

/-- What a path names, if it names anything. -/
def at? (s : Store) (path : Text) : Option Node :=
  match s.locate path with
  | .error _ => none
  | .ok place =>
    match s.node? place with
    | some (.file content) => if endsInSlash path then none else some (.file content)
    | found => found

def read (s : Store) (path : Text) : Except FileFault (List UInt8) :=
  match s.locate path with
  | .error reason => .error { reason, path }
  | .ok place =>
    match s.node? place with
    | none =>
      if place.getLast?.any isTooLong then .error { reason := .nameTooLong, path }
      else .error { reason := .notFound, path }
    | some .directory => .error { reason := .isDirectory, path }
    | some (.file content) =>
      if endsInSlash path then .error { reason := .notDirectory, path } else .ok content

/-- Write a file, there or not. A path that ends in a slash is taken for a directory, whatever is
    there. -/
def write (s : Store) (path : Text) (content : List UInt8) : Except FileFault Store :=
  match s.locate path with
  | .error reason => .error { reason, path }
  | .ok place =>
    if endsInSlash path ∨ s.node? place = some .directory then
      .error { reason := .isDirectory, path }
    else if place.getLast?.any isTooLong then .error { reason := .nameTooLong, path }
    else .ok (s.insert place (.file content))

def writeText (s : Store) (path text : Text) : Except FileFault Store :=
  s.write path (Utf8.encode text)

/-- Put a node where the parts of a path lead, with directories all the way to it. -/
def placeAt (s : Store) (node : Node) : (place : List Text) → List Text → Store
  | place, [] => if (s.node? place).isSome then s else s.insert place node
  | place, part :: rest =>
    if part = ['.'] then s.placeAt node place rest
    else if part = "..".toList then s.placeAt node (parent place) rest
    else if rest = [] then s.insert (place ++ [part]) node
    else if (s.node? (place ++ [part])).isSome then s.placeAt node (place ++ [part]) rest
    else (s.insert (place ++ [part]) .directory).placeAt node (place ++ [part]) rest

def put (s : Store) (path : Text) (node : Node) : Store :=
  s.placeAt node (origin path) ((Path.split '/' path).filter (· ≠ []))

/-- Whether a place lies in the working directory. -/
def isInside (place : List Text) : Bool :=
  !place.head?.any fun p => p = "..".toList ∨ p = ['/']

/-- The files whose content is not what it was before. -/
def changedSince (s before : Store) : List (List Text × List UInt8) :=
  s.entries.filterMap fun e =>
    match e.2 with
    | .directory => none
    | .file content =>
      if before.node? e.1 = some (.file content) then none else some (e.1, content)

end Store

end TwoPass
