import CodeAtlas.Failure
import CodeAtlas.Path
import CodeAtlas.Text.Basic

/-!
# Files

Files by their paths, and the folders that were made. A folder exists if it was made or if something
lies below it. A walk goes top down: the files of a folder, then its folders, both in the order in which
the file system lists them.
-/
namespace CodeAtlas

/-- The order in which a file system lists the names in a folder. It may be any. -/
structure Listing where
  order : String → List String → List String
  perm : ∀ folder names, (order folder names).Perm names

def Listing.byName : Listing :=
  ⟨fun _ names => names.mergeSort (· ≤ ·), fun _ names => List.mergeSort_perm names _⟩

/-- Files by their paths, the folders that were made, and the order in which both are listed. -/
structure FileTree where
  files : Table String ByteArray
  folders : List String
  listing : Listing

namespace FileTree

/-- Files and folders that are listed by their names. -/
def named (files : Table String ByteArray) (folders : List String) : FileTree :=
  ⟨files, folders, .byName⟩

def empty : FileTree := .named [] []

def inside (folder : String) : String := if Text.endsWith "/" folder then folder else folder ++ "/"

def isBelow (folder p : String) : Bool := Text.startsWith (inside folder) p

def isFile (t : FileTree) (p : String) : Bool := Table.has t.files p

def isFolder (t : FileTree) (p : String) : Bool :=
  p != "" && (t.folders.contains p || t.folders.any (isBelow p) || t.files.keys.any (isBelow p))

def contains (t : FileTree) (p : String) : Bool := t.isFile p || t.isFolder p

/-- Names as they are listed for a folder, each once. -/
def listed (t : FileTree) (folder : String) (names : List String) : List String :=
  t.listing.order folder names.eraseDups

def remainders (folder : String) (paths : List String) : List String :=
  paths.filterMap fun p => (Chars.after? (inside folder).toList p.toList).map String.ofList

def filesIn (t : FileTree) (folder : String) : List String :=
  t.listed folder
    ((remainders folder t.files.keys).filter fun r => r != "" && !r.toList.contains '/')

def foldersIn (t : FileTree) (folder : String) : List String :=
  let above := (remainders folder t.files.keys).filter fun r => r.toList.contains '/'
  let made := (remainders folder t.folders).filter (· != "")
  t.listed folder (((above ++ made).map (Text.before '/')).filter (· != ""))

def walkFrom (t : FileTree) : Nat → String → List (String × List String)
  | 0, _ => []
  | depth + 1, folder =>
    (folder, t.filesIn folder) ::
      (t.foldersIn folder).flatMap fun name => walkFrom t depth (Path.join folder name)

/-- More levels than any path has. -/
def depth (t : FileTree) : Nat :=
  ((t.files.keys ++ t.folders).map fun p => p.toList.count '/').foldl max 0 + 2

def walk (t : FileTree) (folder : String) : List (String × List String) :=
  if t.isFolder folder then t.walkFrom t.depth folder else []

def below (t : FileTree) (folder : String) : List String :=
  (t.walk folder).flatMap fun (root, names) => names.map (Path.join root)

def isSource (name : String) : Bool := Text.endsWith ".py" name && !Text.startsWith "test" name

def sources (t : FileTree) (folder : String) : List String :=
  (t.walk folder).flatMap fun (root, names) => (names.filter isSource).map (Path.join root)

def sourcesWith (t : FileTree) (folder part : String) : List String :=
  (t.sources folder).filter (Text.contains part)

def bytes (t : FileTree) (p : String) : Except Failure ByteArray :=
  match Table.get? t.files p with
  | some b => .ok b
  | none => .error (.fileMissing p)

def readText (t : FileTree) (p : String) : Except Failure String := do
  let b ← t.bytes p
  match Utf8.decode b with
  | .ok s => return String.ofList (Lines.unify s.toList)
  | .error f => throw (.undecodable f)

def write (t : FileTree) (p : String) (b : ByteArray) : FileTree :=
  { t with files := Table.set t.files p b }

def makeFolder (t : FileTree) (p : String) : FileTree :=
  if t.folders.contains p then t else { t with folders := t.folders ++ [p] }

def removeFile (t : FileTree) (p : String) : FileTree := { t with files := Table.erase t.files p }

def removeFolder (t : FileTree) (p : String) : FileTree :=
  { t with
    files := t.files.filter fun f => !(f.1 == p || isBelow p f.1)
    folders := t.folders.filter fun f => !(f == p || isBelow p f) }

def copyFolder (t : FileTree) (p q : String) : FileTree :=
  let copied := t.files.filterMap fun (f, b) =>
    (Chars.after? (inside p).toList f.toList).map fun r => (inside q ++ String.ofList r, b)
  let made := (remainders p t.folders).map (inside q ++ ·)
  { t with
    files := Table.setAll t.files copied
    folders := (made ++ [q]).foldl (fun fs f => if fs.contains f then fs else fs ++ [f]) t.folders }

def size (t : FileTree) (p : String) : Nat := ((Table.get? t.files p).map ByteArray.size).getD 0

def sizeBelow (t : FileTree) (folder : String) : Nat :=
  (t.below folder).foldl (fun n p => n + t.size p) 0

def sourceSizeBelow (t : FileTree) (folder : String) : Nat :=
  ((t.below folder).filter fun p => Path.suffix (Path.base p) == ".py").foldl
    (fun n p => n + t.size p) 0

end FileTree
end CodeAtlas
