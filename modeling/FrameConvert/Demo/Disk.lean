/-
# A tree of files

The text of a path is names between slashes.  Following it starts in the working
directory, or at the root when a slash comes first, and takes one name after another:
`.` stays, `..` goes up, which at the root stays as well, and any other name has to be
there.

| a name | is refused as |
| --- | --- |
| after that of a file | `notADirectory` |
| longer than 255 bytes | `nameTooLong` |
| that is not there | `notFound` |

An empty text is `notFound`, and one longer than 4095 bytes `nameTooLong`.
-/

import FrameConvert.Plane

namespace FrameConvert
namespace Demo

/-- Names from the root on. -/
abbrev Path := List String

/-- Why a file cannot be opened. -/
inductive DiskError
  | notFound | notADirectory | isADirectory | nameTooLong
  /-- anything else that a machine reports -/
  | other (text : String)
  deriving DecidableEq, Repr

namespace DiskError

/-- The text shown for an error. -/
def message : DiskError → String
  | notFound => "No such file or directory (os error 2)"
  | notADirectory => "Not a directory (os error 20)"
  | isADirectory => "Is a directory (os error 21)"
  | nameTooLong => "File name too long (os error 36)"
  | other text => text

end DiskError

/-- Where to start, and the names to follow from there. -/
structure Route where
  start : Path
  names : List String

namespace Route

/-- The most bytes of a text. -/
def maxBytes : Nat := 4095

/-- The most bytes of a name. -/
def maxNameBytes : Nat := 255

/-- The names between the slashes of a text. -/
def between (text : String) : List String :=
  ((text.toList.splitOn '/').map String.ofList).filter (· != "")

/-- The names in a text.  A slash at the end asks for a directory, as a last name
`.` does. -/
def namesOf (text : String) : List String :=
  between text ++ if text.toList.getLast? = some '/' then ["."] else []

/-- The route that a text describes in a working directory. -/
def ofText (home : Path) (text : String) : Except DiskError Route :=
  if text = "" then .error .notFound
  else if maxBytes < text.utf8ByteSize then .error .nameTooLong
  else .ok ⟨if text.toList.head? = some '/' then [] else home, namesOf text⟩

end Route

/-- A file in a directory. -/
structure File where
  directory : Path
  name : String
  bytes : Plane

/-- The names that lead to a file. -/
def File.path (f : File) : Path := f.directory ++ [f.name]

/-- Directories and files.  The working directory is there, and all that lead to it. -/
structure Disk where
  home : Path
  directories : List Path
  files : List File

namespace Disk

/-- Whether a path leads to a directory. -/
def isDirectory (d : Disk) (p : Path) : Bool := p.isPrefixOf d.home || d.directories.contains p

/-- The file at a path. -/
def file? (d : Disk) (p : Path) : Option File := d.files.find? fun f => f.path == p

/-- Where a name leads. -/
def enter (d : Disk) (here : Path) (name : String) : Except DiskError Path :=
  if !d.isDirectory here then .error .notADirectory
  else if Route.maxNameBytes < name.utf8ByteSize then .error .nameTooLong
  else if name = "." then .ok here
  else if name = ".." then .ok here.dropLast
  else
    let there := here ++ [name]
    if d.isDirectory there || (d.file? there).isSome then .ok there else .error .notFound

/-- Where a route leads. -/
def follow (d : Disk) (r : Route) : Except DiskError Path := r.names.foldlM d.enter r.start

/-- With a file of a name in a directory, instead of the one that was there. -/
def put (d : Disk) (here : Path) (name : String) (bytes : Plane) : Disk :=
  { d with files := d.files.filter (·.path != here ++ [name]) ++ [⟨here, name, bytes⟩] }

/-- The bytes of the file at the end of a text. -/
def read (d : Disk) (text : String) : Except DiskError Plane := do
  match d.file? (← d.follow (← Route.ofText d.home text)) with
  | some f => .ok f.bytes
  | none => .error .isADirectory

/-- With a file at the end of a text.  All but its own name must be there already. -/
def write (d : Disk) (text : String) (bytes : Plane) : Except DiskError Disk := do
  let r ← Route.ofText d.home text
  let name := r.names.getLastD "."
  let here ← d.follow ⟨r.start, r.names.dropLast⟩
  match d.enter here name with
  | .error .notFound => .ok (d.put here name bytes)
  | .error e => .error e
  | .ok there =>
    if d.isDirectory there then .error .isADirectory else .ok (d.put here name bytes)

/-- A file that was put is found. -/
theorem file?_put (d : Disk) (p : Path) (name : String) (bytes : Plane) :
    (d.put p name bytes).file? (p ++ [name]) = some ⟨p, name, bytes⟩ := by
  have h : (d.files.filter (·.path != p ++ [name])).find? (·.path == p ++ [name]) = none := by
    rw [List.find?_eq_none]
    intro f hf
    simpa using (List.mem_filter.1 hf).2
  rw [put, file?, List.find?_append, h, Option.none_or, List.find?_cons_of_pos]
  exact beq_self_eq_true _

/-- Putting a file leaves those of other paths. -/
theorem file?_put_of_ne (d : Disk) (p : Path) (name : String) (bytes : Plane) {q : Path}
    (h : q ≠ p ++ [name]) : (d.put p name bytes).file? q = d.file? q := by
  have hf (f : File) : (f.path != p ++ [name] && f.path == q) = (f.path == q) := by
    by_cases hp : f.path = q
    · rw [hp, bne_iff_ne.2 h, Bool.true_and]
    · rw [beq_false_of_ne hp, Bool.and_false]
  have hn : ([⟨p, name, bytes⟩] : List File).find? (·.path == q) = none := by
    rw [List.find?_cons_of_neg, List.find?_nil]
    simpa [File.path] using h.symm
  rw [put, file?, List.find?_append, List.find?_filter, hn, Option.or_none]
  simp only [Bool.decide_and, Bool.decide_eq_true, hf]
  rfl

/-- Putting a file changes no directory. -/
theorem isDirectory_put (d : Disk) (here there : Path) (name : String) (bytes : Plane) :
    (d.put here name bytes).isDirectory there = d.isDirectory there := rfl

end Disk
end Demo
end FrameConvert
