/-
Directories of text files.

A path is resolved step by step, and every step but the last has to lead to a directory.
Outside the directory that paths start from there are other directories, of which nothing is
known but that they can be climbed.  The entries of a directory come in no particular order;
`list` gives the files below one in the order of their paths.

Every entry can be opened, and every file is a text: there are no permissions, no links and no
files of bytes that are not UTF-8.  The length of a path is limited where a file is read, not
where a directory is listed.
-/
import Reify.Path

namespace Reify

/-- A text file, or a directory with its entries by name. -/
inductive Entry
  | file (text : String)
  | directory (entries : List (String × Entry))

inductive ReadError
  | notFound
  | notADirectory
  | isADirectory
  | nameTooLong
  /-- The path holds a NUL character, which no name may. -/
  | nulInPath
  deriving DecidableEq, Repr

def ReadError.message : ReadError → String
  | notFound => "No such file or directory (os error 2)"
  | notADirectory => "Not a directory (os error 20)"
  | isADirectory => "Is a directory (os error 21)"
  | nameTooLong => "File name too long (os error 36)"
  | nulInPath => "file name contained an unexpected NUL byte"

namespace Entry

def child? (e : Entry) (name : String) : Option Entry :=
  match e with
  | file _ => none
  | directory entries => entries.lookup name

def find? (e : Entry) : List String → Option Entry
  | [] => some e
  | step :: rest =>
    match e.child? step with
    | some next => find? next rest
    | none => none

/-! ## Building -/

/-- The entries of a directory; a file is taken for an empty one. -/
def entries : Entry → List (String × Entry)
  | file _ => []
  | directory entries => entries

/-- The entry with a file put where the steps lead, through new directories if need be. -/
def put (text : String) (e : Entry) : List String → Entry
  | [] => file text
  | step :: rest =>
    let others := e.entries.filter fun entry => entry.1 != step
    directory ((step, put text ((e.child? step).getD (directory [])) rest) :: others)

theorem find?_put (text : String) (e : Entry) (steps : List String) :
    (e.put text steps).find? steps = some (file text) := by
  induction steps generalizing e with
  | nil => rfl
  | cons step rest ih => simp only [put, find?, child?, List.lookup_cons_self, ih]

def ofFiles (files : List (Path × String)) : Entry :=
  files.foldl (fun e (path, text) => e.put text (Path.settle path.steps)) (directory [])

/-! ## Reading -/

def nameLimit : Nat := 255

def pathLimit : Nat := 4095

def missing (name : String) : ReadError :=
  if nameLimit < name.utf8ByteSize then .nameTooLong else .notFound

def resolveOutside : List String → Except ReadError Entry
  | [] => .ok (directory [])
  | step :: rest =>
    if step = "" ∨ step = "." ∨ step = ".." then resolveOutside rest
    else .error (missing step)

/-- What the steps `rest` lead to from the directory at `here`. -/
def resolve (root : Entry) (here : List String) : List String → Except ReadError Entry
  | [] => .ok (directory [])
  | "" :: rest => resolve root here rest
  | "." :: rest => resolve root here rest
  | ".." :: rest =>
    if here.isEmpty then resolveOutside rest else resolve root here.dropLast rest
  | step :: rest =>
    match root.find? (here ++ [step]) with
    | none => .error (missing step)
    | some (directory _) => resolve root (here ++ [step]) rest
    | some (file text) => if rest.isEmpty then .ok (file text) else .error .notADirectory

def locate (root : Entry) (p : Path) : Except ReadError Entry :=
  let steps := (Path.pieces p.text.toList).map String.ofList
  if p.isAbsolute then resolveOutside steps else resolve root [] steps

/-- The text of the file at a path from the directory `root`, itself at `base`. -/
def read (root : Entry) (base p : Path) : Except ReadError String :=
  let full := (base.join p).text
  if full.toList.contains '\x00' then .error .nulInPath
  else if pathLimit < full.utf8ByteSize then .error .nameTooLong
  else
    match root.locate p with
    | .ok (file text) => .ok text
    | .ok (directory _) => .error .isADirectory
    | .error e => .error e

/-! ## Listing -/

mutual

/-- The steps to the files at or below an entry, itself reached by `here`. -/
def walk (here : List String) : Entry → List (List String)
  | file _ => [here]
  | directory entries => walkEach here entries

def walkEach (here : List String) : List (String × Entry) → List (List String)
  | [] => []
  | (name, e) :: rest => walk (here ++ [name]) e ++ walkEach here rest

end

theorem walkEach_eq (here : List String) (entries : List (String × Entry)) :
    walkEach here entries = entries.flatMap fun entry => walk (here ++ [entry.1]) entry.2 := by
  induction entries with
  | nil => rfl
  | cons entry rest ih => rw [walkEach, ih, List.flatMap_cons]

/-- The paths of the files below the entry `name` whose extension is `extension`, in order. -/
def list (root : Entry) (name extension : String) : Except ReadError (List Path) :=
  match root.child? name with
  | none => .error .notFound
  | some (file _) => .error .notADirectory
  | some (directory entries) =>
    let found := (walkEach [name] entries).filter fun steps =>
      (Path.ofSteps steps).extension? == some extension
    .ok ((Path.inOrder found).map .ofSteps)

end Entry
end Reify
