import WalletEngine.Bytes.Utf8

/-! # Files

What a store asks of a file system, and the ways in which it can be refused. The operations are a
record over an arbitrary monad, so that the same store runs on real files and on the pure disks of
`Store.Disk`.
-/

namespace WalletEngine

/-- Why a file operation failed. -/
inductive FileFault where
  | notFound
  | alreadyExists
  | notDirectory
  | isDirectory
  /-- The content is not UTF-8. -/
  | notText
  | other (reason : String)
  deriving DecidableEq, Repr

/-- The wording of a fault, as the operating system has it. -/
def FileFault.message : FileFault → String
  | .notFound => "No such file or directory (os error 2)"
  | .alreadyExists => "File exists (os error 17)"
  | .notDirectory => "Not a directory (os error 20)"
  | .isDirectory => "Is a directory (os error 21)"
  | .notText => "stream did not contain valid UTF-8"
  | .other reason => reason

/-- File operations within `m`. -/
structure Files (m : Type → Type) where
  /-- Makes a directory and those above it; one that is there already will do. -/
  makeDirectory : String → m (Except FileFault Unit)
  /-- Whether anything has this path. -/
  isPresent : String → m Bool
  /-- Holds the lock file with this path, which is made if it is not there, during an action. -/
  withLock : {α : Type} → String → m α → m (Except FileFault α)
  /-- The text of a file. -/
  readText : String → m (Except FileFault String)
  /-- Replaces the content of a file, which is made if it is not there. -/
  writeText : String → String → m (Except FileFault Unit)
  /-- Gives a file another path; a file that has that path is replaced in one step. -/
  rename : String → String → m (Except FileFault Unit)

/-- The path of a name in a directory. A name that starts at the root is its own path, and the empty
directory leaves the name as it is. -/
def joinPath (directory name : String) : String :=
  if name.startsWith "/" || directory.isEmpty then name
  else if directory.endsWith "/" then directory ++ name
  else directory ++ "/" ++ name

end WalletEngine
