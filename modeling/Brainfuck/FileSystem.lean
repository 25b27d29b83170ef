import Brainfuck.Descriptor.SystemError

/-!
# File systems

Files and directories under a working directory, and the lookup of a path. A path is
walked name by name. Every name is looked up in a directory, so a file in the middle of a
path, or before a trailing slash, is an error of its own and is met before anything is
said about the names behind it.

Programs are loaded through an interface that reports the size of a file and returns its
contents, so that the files of a process can stand in for a file system in memory.

What lies outside the working directory cannot be named: the directories that lead to it
are there, and every other name in them is missing.
-/
namespace Brainfuck

inductive Entry where
  | file (contents : List UInt8)
  | directory
  deriving DecidableEq, Repr

/-- The size that is reported for an entry; a directory occupies one block. -/
def Entry.size : Entry → Nat
  | .file contents => contents.length
  | .directory => 4096

/-- Files and directories by the names that lead to them from the working directory. An
entry hides those behind it with the same names. -/
structure FileSystem where
  entries : List (List String × Entry)
  deriving DecidableEq, Repr

/-- A place that a walk can reach: a way down from the working directory, the last name
first, or one of the directories that lead to the working directory. Of those nothing is
known but that they lead up to the root. -/
inductive Place where
  | inside (way : List String)
  | outside
  deriving DecidableEq, Repr

namespace Place

def parent : Place → Place
  | .inside (_ :: way) => .inside way
  | .inside [] => .outside
  | .outside => .outside

/-- The place that a name leads to, when it is a directory's own name, its parent's, or
one that has been made. -/
def down (name : String) (place : Place) : Place :=
  if name = "" ∨ name = "." then place
  else if name = ".." then place.parent
  else
    match place with
    | .inside way => .inside (name :: way)
    | .outside => .outside

end Place

namespace FileSystem

/-- The longest name that a directory can hold, in octets. -/
def maxName : Nat := 255

/-- The length of a path, in octets, from which on it is refused. -/
def maxPath : Nat := 4096

/-- The names of a path, with an empty name for each superfluous slash. -/
def names (path : String) : List String := path.splitOn "/"

def empty : FileSystem := ⟨[]⟩

def entry? (fs : FileSystem) : Place → Option Entry
  | .outside => some .directory
  | .inside [] => some .directory
  | .inside way => (fs.entries.find? (·.1 == way)).map (·.2)

/-- Makes an entry at a place inside the working directory. -/
def make (place : Place) (entry : Entry) (fs : FileSystem) : FileSystem :=
  match place with
  | .inside way => ⟨(way, entry) :: fs.entries⟩
  | .outside => fs

/-- Makes the directories along a path that are missing. -/
def makeDirectories (place : Place) (fs : FileSystem) : List String → FileSystem × Place
  | [] => (fs, place)
  | name :: more =>
    let next := place.down name
    let fs := if (fs.entry? next).isSome then fs else fs.make next .directory
    makeDirectories next fs more

def makeDirectory (path : String) (fs : FileSystem) : FileSystem :=
  (makeDirectories (.inside []) fs (names path)).1

/-- Makes a file, and the directories that lead to it. -/
def makeFile (path : String) (contents : List UInt8) (fs : FileSystem) : FileSystem :=
  let all := names path
  let (fs, place) := makeDirectories (.inside []) fs all.dropLast
  fs.make (place.down (all.getLastD "")) (.file contents)

/-- A file system with the given files and directories in its working directory. -/
def ofEntries (files : List (String × List UInt8)) (directories : List String) : FileSystem :=
  let fs := directories.foldl (fun fs path => fs.makeDirectory path) empty
  files.foldl (fun fs (path, contents) => fs.makeFile path contents) fs

/-- Follows names from an entry at a place. -/
def walk (fs : FileSystem) (place : Place) (entry : Entry) : List String → Except Errno Entry
  | [] => .ok entry
  | name :: more =>
    match entry with
    | .file _ => .error .notDirectory
    | .directory =>
      if name = "" ∨ name = "." then walk fs place entry more
      else if name = ".." then walk fs place.parent entry more
      else if maxName < name.utf8ByteSize then .error .nameTooLong
      else
        match place with
        | .outside => .error .noEntry
        | .inside way =>
          match fs.entry? (.inside (name :: way)) with
          | some next => walk fs (.inside (name :: way)) next more
          | none => .error .noEntry

/-- The entry that a path leads to. A path that starts with a slash starts at the root. -/
def lookup (fs : FileSystem) (path : String) : Except Errno Entry :=
  if path = "" then .error .noEntry
  else if maxPath ≤ path.utf8ByteSize then .error .nameTooLong
  else walk fs (if path.startsWith "/" then .outside else .inside []) .directory (names path)

end FileSystem

/-- Access to files by path: the size of a file and its contents. -/
structure FileAccess (m : Type → Type) where
  size : String → m (Except SystemError Nat)
  contents : String → m (Except SystemError (List UInt8))

/-- Files that always answer in the same way, for computations of any kind. -/
def FileAccess.lift {m : Type → Type} [Monad m] (files : FileAccess Id) : FileAccess m where
  size path := pure (files.size path).run
  contents path := pure (files.contents path).run

def FileSystem.size (fs : FileSystem) (path : String) : Except SystemError Nat :=
  match fs.lookup path with
  | .ok entry => .ok entry.size
  | .error errno => .error { errno, call := "stat", path := some path }

def FileSystem.contents (fs : FileSystem) (path : String) : Except SystemError (List UInt8) :=
  match fs.lookup path with
  | .ok (.file contents) => .ok contents
  | .ok .directory => .error { errno := .isDirectory, call := "read" }
  | .error errno => .error { errno, call := "open", path := some path }

def FileSystem.access (fs : FileSystem) : FileAccess Id where
  size path := fs.size path
  contents path := fs.contents path

end Brainfuck
