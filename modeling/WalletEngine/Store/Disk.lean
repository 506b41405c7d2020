import WalletEngine.Store.Files

/-! # Pure disks

A disk is a finite tree of directories and files, given as a list of paths with what is there. The
root is always a directory. It has no links and no permissions; every refusal of an operation comes
from the kind of thing that a path leads to.
-/

namespace WalletEngine

/-- What a path leads to. -/
inductive Disk.Node where
  | directory
  | file (content : Bytes)
  deriving DecidableEq, Repr

/-- The parts of a path from the root. -/
abbrev Disk.Path := List String

/-- A tree of directories and files. -/
structure Disk where
  entries : List (Disk.Path × Disk.Node) := []
  deriving DecidableEq, Repr

namespace Disk

def parts (path : String) : Path :=
  (((path.toList.splitOn '/').map String.ofList).foldl (fun acc part =>
    if part = "" || part = "." then acc
    else if part = ".." then acc.drop 1
    else part :: acc) []).reverse

/-- What is at a path, whatever is above it. -/
def get? (disk : Disk) : Path → Option Node
  | [] => some .directory
  | path => disk.entries.lookup path

def erase (disk : Disk) (path : Path) : Disk :=
  ⟨disk.entries.filter fun entry => entry.1 != path⟩

def put (disk : Disk) (path : Path) (node : Node) : Disk :=
  ⟨(path, node) :: (disk.erase path).entries⟩

theorem get?_erase_of_ne (disk : Disk) {path other : Path} (h : other ≠ path) :
    (disk.erase path).get? other = disk.get? other := by
  cases other with
  | nil => rfl
  | cons part rest =>
    simp only [get?, erase]
    induction disk.entries with
    | nil => rfl
    | cons entry entries ih =>
      obtain ⟨p, node⟩ := entry
      by_cases hp : p = path
      · subst hp
        simp [List.lookup_cons, ih, beq_eq_false_iff_ne.mpr h]
      · by_cases ho : part :: rest = p
        · simp [hp, ho]
        · simp [List.lookup_cons, hp, beq_eq_false_iff_ne.mpr ho, ih]

theorem get?_put_self (disk : Disk) {path : Path} (node : Node) (h : path ≠ []) :
    (disk.put path node).get? path = some node := by
  cases path with
  | nil => contradiction
  | cons part rest => simp [get?, put]

theorem get?_put_of_ne (disk : Disk) {path other : Path} (node : Node) (h : other ≠ path) :
    (disk.put path node).get? other = disk.get? other := by
  rw [← get?_erase_of_ne disk h]
  cases other with
  | nil => rfl
  | cons part rest => simp [get?, put, List.lookup_cons, beq_eq_false_iff_ne.mpr h]

/-- The directories on the way to a path, from the root, must all be there. -/
def checkWay (disk : Disk) (above : Path) : Path → Except FileFault Unit
  | [] | [_] => .ok ()
  | part :: rest =>
    let way := above ++ [part]
    match disk.get? way with
    | some .directory => disk.checkWay way rest
    | some (.file _) => .error .notDirectory
    | none => .error .notFound

def find (disk : Disk) (path : Path) : Except FileFault Node := do
  disk.checkWay [] path
  match disk.get? path with
  | some node => .ok node
  | none => .error .notFound

def readBytes (disk : Disk) (path : Path) : Except FileFault Bytes := do
  match ← disk.find path with
  | .file content => .ok content
  | .directory => .error .isDirectory

def readText (disk : Disk) (path : Path) : Except FileFault String := do
  match Utf8.decode? (← disk.readBytes path) with
  | some text => .ok text
  | none => .error .notText

/-- The disk on which a file has this content; `change` is given what it had before. -/
def writeBytes (disk : Disk) (path : Path) (change : Option Bytes → Bytes) :
    Except FileFault Disk := do
  disk.checkWay [] path
  match disk.get? path with
  | some .directory => .error .isDirectory
  | some (.file content) => .ok (disk.put path (.file (change (some content))))
  | none => .ok (disk.put path (.file (change none)))

def makeDirectories (disk : Disk) (above : Path) : Path → Except FileFault Disk
  | [] => .ok disk
  | part :: rest =>
    let way := above ++ [part]
    match disk.get? way with
    | some .directory => disk.makeDirectories way rest
    | some (.file _) => .error (if rest.isEmpty then .alreadyExists else .notDirectory)
    | none => (disk.put way .directory).makeDirectories way rest

def move (disk : Disk) (source target : Path) : Except FileFault Disk := do
  let content ← disk.readBytes source
  disk.checkWay [] target
  match disk.get? target with
  | some .directory => .error .isDirectory
  | _ => .ok ((disk.erase source).put target (.file content))

/-- The names in a directory, in order. -/
def list (disk : Disk) (path : Path) : List String :=
  let names := disk.entries.filterMap fun (p, _) =>
    if p.dropLast = path then p.getLast? else none
  names.mergeSort

/-- The disk after an operation, or the disk as it was. -/
def settle (disk : Disk) : Except FileFault Disk → Except FileFault Unit × Disk
  | .ok disk => (.ok (), disk)
  | .error fault => (.error fault, disk)

/-- File operations on the disk that a computation carries along; `step` runs a function on it. A
path that does not start at the root starts at `directory`. -/
def files {m : Type → Type} [Monad m] (directory : String)
    (step : {α : Type} → (Disk → α × Disk) → m α) : Files m :=
  let resolve (path : String) : Path := parts (joinPath directory path)
  { makeDirectory := fun path =>
      step fun disk => disk.settle (disk.makeDirectories [] (resolve path))
    isPresent := fun path => step fun disk => ((disk.find (resolve path)).isOk, disk)
    withLock := fun path action => do
      match ← step fun disk =>
        disk.settle (disk.writeBytes (resolve path) fun content => content.getD []) with
      | .ok () => Except.ok <$> action
      | .error fault => pure (.error fault)
    readText := fun path => step fun disk => (disk.readText (resolve path), disk)
    writeText := fun path text => step fun disk =>
      disk.settle (disk.writeBytes (resolve path) fun _ => Bytes.ofText text)
    rename := fun source target => step fun disk =>
      disk.settle (disk.move (resolve source) (resolve target)) }

end Disk
end WalletEngine
