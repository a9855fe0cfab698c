import CodeAtlas.World

/-!
# Folders of projects

Files and folders on disk, and the archive that fills the folder of a project.
-/
namespace CodeAtlas

/-! ## Files and folders of projects -/

namespace Folder

def remove (path : String) : Run Unit := do
  Run.note (.folderRemoved path)
  modify fun w => { w with files := w.files.removeFolder path }

/-- Removes the folder of a project that is no longer needed. In development mode it is kept. -/
def discard (path : Json) : Run Unit := do
  if ← Run.inDevelopment then return ()
  match path with
  | .str p => if (← get).files.isFolder p then remove p
  | _ => return ()

def make (path : String) : Run Unit := modify fun w => { w with files := w.files.makeFolder path }

def write (path : String) (bytes : ByteArray) : Run Unit := do
  if (← get).unwritable.contains path then throw (.fileDenied path)
  modify fun w => { w with files := w.files.write path bytes }

def removeFile (path : String) : Run Unit := do
  if (← get).unremovable.contains path then throw (.fileDenied path)
  modify fun w => { w with files := w.files.removeFile path }

end Folder

/-!
## Archives of hosted repositories

The files of a branch come as one archive, which is written to disk, unpacked into the folder of the
project, and removed. A fault on the way ends this early; what was written up to there stays. What
the service sends with another status than that of success is no archive.
-/

namespace Archive

/-- Why an archive could not be fetched or unpacked. -/
inductive Fault where
  | notServed
  | denied
  | damaged
  deriving DecidableEq, Repr

def Fault.name : Fault → String
  | notServed => "HTTPError"
  | denied => "PermissionError"
  | damaged => "ReadError"

def Fault.failure (f : Fault) : Failure :=
  .unfit ("expected str, bytes or os.PathLike object, not " ++ f.name)

def target (folder entry : String) : String :=
  Path.join folder (Path.relative ("top/" ++ entry) "top")

def unpackEntry (folder : String) (entry : String × String) : Run Unit := do
  let path := target folder entry.1
  if Text.endsWith "/" entry.1 then Folder.make path
  else
    let parent := Path.parent path
    if !(← get).files.contains parent then Folder.make parent
    Folder.write path entry.2.toUTF8

/-- Tells an attempt to write or remove a file that was denied. -/
def attempt (r : Run Unit) : Run (Option Fault) := do
  match ← Run.outcome r with
  | .ok _ => return none
  | .error (.fileDenied _) => return some .denied
  | .error e => throw e

def fetch (r : HostedRepository) (archive folder : String) : Run (Option Fault) := do
  if r.archiveStatus.any (400 ≤ ·) then return some .notServed
  if let some f ← attempt (Folder.write archive ByteArray.empty) then return some f
  if r.archiveDamaged || r.archiveStatus.isSome then return some .damaged
  if let some f ← attempt (r.files.forM (unpackEntry folder)) then return some f
  attempt (Folder.removeFile archive)

end Archive

end CodeAtlas
