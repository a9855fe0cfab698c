import CodeAtlas.World

/-!
# Keys that users keep

A user may keep a key for the provider of the language model. The key is a secret; that there is one,
and for which provider, stands in the user's preferences.
-/

/-!
## Documents

Documents lie in collections under names. `put` replaces a document, `patch` changes members of it,
and `deleteKey` takes one member away. Changing a document that is not there fails; `patch` makes it
instead.
-/
namespace CodeAtlas.Documents

/-- Where a document lies. -/
def path (collection name : Json) : String := collection.display ++ "/" ++ name.display

def get? (collection name : Json) : Run (Option Json) :=
  return Table.get? (← get).documents (path collection name)

def put (collection name data : Json) : Run Unit := do
  Run.note (.documentSet (path collection name) data)
  modify fun w => { w with documents := Table.set w.documents (path collection name) data }

/-- The mark of a member that is to be taken away. -/
def deletion : Json := .str "$DELETE"

def merged (document data : Json) : Except Failure Json :=
  match data with
  | .obj members =>
    .ok (.obj ((Table.setAll document.members members).filter fun (_, v) => v != deletion))
  | v => .error (.noMember v.kindName "items")

def update (collection name data : Json) : Run Unit := do
  Run.note (.documentUpdated (path collection name) data)
  match ← get? collection name with
  | none => throw (.missingKey (.str (path collection name)))
  | some document =>
    let changed ← merged document data
    modify fun w => { w with documents := Table.set w.documents (path collection name) changed }

/-- Changes members of a document, or makes it. -/
def patch (collection name data : Json) : Run Unit := do
  match ← get? collection name with
  | none => put collection name data
  | some _ => update collection name data

def delete (collection name : Json) : Run Unit := do
  Run.note (.documentDeleted (path collection name))
  modify fun w => { w with documents := Table.erase w.documents (path collection name) }

/-- Takes a member of a document away. -/
def deleteKey (collection name key : Json) : Run Unit :=
  update collection name (.obj [(key.display, deletion)])

end CodeAtlas.Documents

/-! ## Keys -/
namespace CodeAtlas.Secrets

def provider : String := "openai"

def idFor (wanted user : Json) : Except Failure String :=
  if wanted = .str provider then .ok ("openai-api-key-" ++ user.display)
  else .error (.refuse 400 "Invalid provider")

def vault : String := "projects/proj"

def nameOf (id : String) : String := vault ++ "/secrets/" ++ id

def preferences : Json := .str "preferences"

def notePreference (user : Json) : Run Unit :=
  Documents.put preferences user (.obj [("provider", .str provider)])

def addVersion (name key : String) : Run Unit := do
  Run.note (.secretVersioned (.obj [("parent", .str name),
    ("payload", .obj [("data", .obj [("$bytes", .str key)])])]))
  modify fun w => { w with secrets := Table.set w.secrets name key }

def create (user : Json) (key : String) : Run String := do
  notePreference user
  let id ← idFor (.str provider) user
  Run.note (.secretCreated (.obj [("parent", .str vault), ("secret_id", .str id),
    ("secret", .obj [("replication", .obj [("automatic", .obj [])])])]))
  addVersion (nameOf id) key
  return "Secret created successfully"

def update (user : Json) (key : String) : Run String := do
  addVersion (nameOf (← idFor (.str provider) user)) key
  notePreference user
  return "Secret updated successfully"

def key (wanted user : Json) : Run String := do
  match Table.get? (← get).secrets (nameOf (← idFor wanted user)) with
  | some k => return k
  | none => throw (.refuse 404 "Secret not found")

def delete (wanted user : Json) : Run String := do
  let name := nameOf (← idFor wanted user)
  Run.note (.secretDeleted (.obj [("name", .str name)]))
  match Table.get? (← get).secrets name with
  | none => throw (.refuse 404 "Secret not found")
  | some _ =>
    modify fun w => { w with secrets := Table.erase w.secrets name }
    Documents.delete preferences user
    return "Secret deleted successfully"

end CodeAtlas.Secrets
