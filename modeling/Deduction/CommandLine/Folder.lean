set_option autoImplicit false

/-! # Files in the working folder

The program runs in a folder of its own, which is empty at first and lies in the folder for temporary
files. A path leads through folders to a file that is created there or written over. Of the folders
outside no more is known than what every system has. -/

namespace Deduction.CommandLine

/-- Why no file can be written. -/
inductive WriteError where
  /-- The path has a null character in it. -/
  | nullCharacter
  /-- The path, or a name in it, is too long. -/
  | tooLong
  /-- The path leads through a folder that is not there. -/
  | noFolder
  /-- The path leads through something that is no folder. -/
  | notAFolder
  /-- The path leads to a folder. -/
  | folder
  /-- There is no room for the content. -/
  | full
  /-- The folder takes no files. -/
  | denied
deriving DecidableEq

/-- A folder that is known. -/
inductive Folder where
  | working | temporary | devices | processes | system | root
  /-- A folder of which no more is known than that it is there. -/
  | standard
deriving DecidableEq

/-- What a name in a folder stands for. -/
inductive Entry where
  | folder (f : Folder)
  /-- A device that takes any content. -/
  | sink
  /-- A device that takes no content. -/
  | fullDevice
deriving DecidableEq

/-- The greatest length of a path, in bytes. -/
def maxPathSize : Nat := 4095

/-- The greatest length of a name in a path, in bytes. -/
def maxNameSize : Nat := 255

/-- Folders of the root of which nothing else is known. -/
def standardFolders : List String := [
  "bin", "boot", "etc", "home", "lib", "lib64", "media", "mnt", "opt", "root", "run", "sbin", "srv",
  "usr", "var"]

/-- Devices that take any content. -/
def sinks : List String := ["null", "random", "urandom", "zero"]

/-- The folder around a folder. -/
def Folder.parent : Folder → Folder
  | .working => .temporary
  | .temporary | .devices | .processes | .system | .root | .standard => .root

/-- What is known to be in a folder. -/
def Folder.find? (folder : Folder) (name : String) : Option Entry :=
  if name = "." then some (.folder folder)
  else if name = ".." then some (.folder folder.parent)
  else
    match folder with
    | .root =>
      if name = "tmp" then some (.folder .temporary)
      else if name = "dev" then some (.folder .devices)
      else if name = "proc" then some (.folder .processes)
      else if name = "sys" then some (.folder .system)
      else if standardFolders.contains name then some (.folder .standard)
      else none
    | .devices =>
      if sinks.contains name then some .sink
      else if name = "full" ∨ name = "tty" then some .fullDevice
      else if name = "pts" ∨ name = "shm" then some (.folder .standard)
      else none
    | .working | .temporary | .processes | .system | .standard => none

/-- Makes a new file in a folder. The result is its name if that is the working folder. The folders of
    processes and of the system hold what the system puts there, and nothing else. -/
def Folder.create (folder : Folder) (name : String) : Except WriteError (Option String) :=
  match folder with
  | .working => .ok (some name)
  | .processes => .error .noFolder
  | .system => .error .denied
  | .temporary | .devices | .root | .standard => .ok none

/-- Writes to a name in a folder; `slash` says that the path ends in a slash, as only those of folders
    do. -/
def Folder.write (folder : Folder) (slash : Bool) (name : String) :
    Except WriteError (Option String) :=
  if slash then .error .folder
  else if maxNameSize < name.utf8ByteSize then .error .tooLong
  else
    match folder.find? name with
    | some (.folder _) => .error .folder
    | some .sink => .ok none
    | some .fullDevice => .error .full
    | none => folder.create name

/-- Follows names to a file and writes to it. -/
def Folder.follow (folder : Folder) (slash : Bool) : List String → Except WriteError (Option String)
  | [] => .error .folder
  | [name] => folder.write slash name
  | name :: names =>
    if maxNameSize < name.utf8ByteSize then .error .tooLong
    else
      match folder.find? name with
      | some (.folder inner) => inner.follow slash names
      | some _ => .error .notAFolder
      | none => .error .noFolder

/-- The name, in the working folder, of the file that a path leads to. -/
def fileName (path : String) : Except WriteError (Option String) :=
  if path.toList.contains '\x00' then .error .nullCharacter
  else if maxPathSize < path.utf8ByteSize then .error .tooLong
  else
    let start : Folder := if path.startsWith "/" then .root else .working
    start.follow (path.endsWith "/") ((path.splitOn "/").filter (· ≠ ""))

/-- The files in the working folder once contents have been written to paths. -/
def filesWritten (contents : List (String × String)) : Except WriteError (List (String × String)) :=
  contents.foldlM (fun files (path, content) => do
    match ← fileName path with
    | none => return files
    | some name => return files.filter (·.1 ≠ name) ++ [(name, content)]) []

end Deduction.CommandLine
