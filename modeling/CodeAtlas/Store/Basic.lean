import CodeAtlas.Store.Row

/-!
# The store

Five tables, each a list of rows. A statement that writes is refused as a whole if its values do not
suit the columns, then if the store is read only, then if a table would break its rules:

* users have distinct ids and distinct addresses;
* projects have distinct numbers and, where they have one, distinct directories;
* entry points are told apart by project and identifier, data models by file and name, explanations
  by number and by what they explain.

Projects and explanations are listed by number, entry points of a project by identifier, the others
in the order of insertion.
-/
namespace CodeAtlas

/-- The tables. -/
structure Store where
  users : List User
  projects : List Project
  endpoints : List Endpoint
  explanations : List Explanation
  models : List ModelClass
  readOnly : Bool

namespace Store

def empty : Store := ⟨[], [], [], [], [], false⟩

/-! ## Rules -/

def usersConsistent (rows : List User) : Bool :=
  decide (rows.map User.uid).Nodup && decide (rows.map User.email).Nodup

def projectsConsistent (rows : List Project) : Bool :=
  decide (rows.map Project.id).Nodup && decide (rows.filterMap Project.directory).Nodup

def endpointsConsistent (rows : List Endpoint) : Bool :=
  decide (rows.map fun e => (e.project, e.identifier)).Nodup

def explanationsConsistent (rows : List Explanation) : Bool :=
  decide (rows.map Explanation.id).Nodup &&
    decide (rows.map fun e => (e.identifier, e.hash, e.project)).Nodup

def modelsConsistent (rows : List ModelClass) : Bool :=
  decide (rows.map fun m => (m.file, m.name)).Nodup

/-! ## Statements on one table -/

/-- The rows of a table after a statement that writes, if it is carried out. -/
def settle {ρ : Type} (readOnly : Bool) (consistent : List ρ → Bool) (rows : List ρ) :
    Except Failure (List ρ) :=
  if readOnly then .error .storeRefused
  else if consistent rows then .ok rows
  else .error .constraintBroken

def assignAll {ρ : Type} (assign : ρ → Change → Except Failure ρ) (changes : List Change) (row : ρ) :
    Except Failure ρ :=
  changes.foldlM assign row

def change {ρ : Type} (select : ρ → Bool) (f : ρ → Except Failure ρ) :
    List ρ → Except Failure (List ρ)
  | [] => .ok []
  | r :: rs => do
    let r ← if select r then f r else .ok r
    return r :: (← change select f rs)

def updateRows {ρ : Type} (readOnly : Bool) (assign : ρ → Change → Except Failure ρ)
    (consistent : List ρ → Bool) (select : ρ → Bool) (changes : List Change) (rows : List ρ) :
    Except Failure (List ρ) := do
  if readOnly then throw .storeRefused
  settle readOnly consistent (← change select (assignAll assign changes) rows)

def checkChanges (columns : List Column) (changes : List Change) : Except Failure Unit :=
  if changes.isEmpty then .error .storeRefused else Column.ofChanges columns changes

def deleteRows {ρ : Type} (readOnly : Bool) (select : ρ → Bool) (rows : List ρ) :
    Except Failure (List ρ) :=
  if readOnly then .error .storeRefused else .ok (rows.filter fun r => !select r)

def insertBy {ρ : Type} (number : ρ → Int) (row : ρ) : List ρ → List ρ
  | [] => [row]
  | r :: rs => if number row < number r then row :: r :: rs else r :: insertBy number row rs

def nextNumber : List Int → Int
  | [] => 1
  | n :: ns => ns.foldl max n + 1

def writable (s : Store) : Except Failure Unit := if s.readOnly then .error .storeRefused else .ok ()

/-! ## Users -/

def createUser (s : Store) (c : Json) : Except Failure (User × Store) := do
  Column.ofNew User.columns c
  s.writable
  let u ← User.ofColumns c
  let users ← settle s.readOnly usersConsistent (s.users ++ [u])
  return (u, { s with users })

def updateUser (s : Store) (uid : Json) (changes : List Change) : Except Failure Store := do
  checkChanges User.columns changes
  let uid ← Column.text uid
  let users ← updateRows s.readOnly User.assign usersConsistent (fun u => some u.uid = uid) changes
    s.users
  return { s with users }

def deleteUser (s : Store) (uid : Option String) : Except Failure Store := do
  return { s with users := ← deleteRows s.readOnly (fun u => some u.uid = uid) s.users }

def user? (s : Store) (uid : Option String) : Option User := s.users.find? fun u => some u.uid = uid

def userByEmail? (s : Store) (email : Option String) : Option User :=
  s.users.find? fun u => some u.email = email

def userByName? (s : Store) (name : Option String) : Option User :=
  s.users.find? fun u => u.providerUsername = name

/-! ## Projects -/

def isProject (id : Cell) (p : Project) : Bool := Cell.number p.id = id

def project? (s : Store) (id : Cell) : Option Project := s.projects.find? (isProject id)

def projectOf? (s : Store) (id : Cell) (user : Option String) : Option Project :=
  s.projects.find? fun p => isProject id p && some p.owner = user

def projectsOf (s : Store) (user : Option String) : List Project :=
  s.projects.filter fun p => some p.owner = user

def projectsFor (s : Store) (repository user : Option String) (deleted : Option Bool) :
    List Project :=
  s.projects.filter fun p => p.repository = repository && some p.owner = user && p.isDeleted = deleted

def projectNamed? (s : Store) (name user : Option String) : Option Project :=
  s.projects.find? fun p => p.name = name && some p.owner = user

def projectOfRepository? (s : Store) (repository : Option String) : Option Project :=
  s.projects.find? fun p => p.repository = repository

def projectOfBranch? (s : Store) (repository branch : Option String) : Option Project :=
  s.projects.find? fun p => p.repository = repository && p.branch = branch

def defaultProject? (s : Store) (user : Option String) : Option Project :=
  s.projects.find? fun p => p.isDefault = some true && some p.owner = user

def addProject (s : Store) (p : Project) : Except Failure Store := do
  let projects ← settle s.readOnly projectsConsistent (insertBy Project.id p s.projects)
  return { s with projects }

def nextProject (s : Store) : Int := nextNumber (s.projects.map Project.id)

def createProject (s : Store) (c : Json) : Except Failure (Project × Store) := do
  Column.ofNew Project.columns c
  s.writable
  let p ← Project.ofColumns s.nextProject c
  return (p, ← s.addProject p)

/-- Sets columns of the project with a number; the answer says whether there is one. -/
def updateProject (s : Store) (id : Cell) (changes : List Change) : Except Failure (Bool × Store) := do
  match s.project? id with
  | none => return (false, s)
  | some _ =>
    Column.ofChanges Project.columns changes
    let projects ← updateRows s.readOnly Project.assign projectsConsistent (isProject id) changes
      s.projects
    return (true, { s with projects })

def deleteProject (s : Store) (id : Cell) : Except Failure Store := do
  return { s with projects := ← deleteRows s.readOnly (isProject id) s.projects }

/-! ## Entry points -/

def isEndpoint (identifier : Option String) (project : Cell) (e : Endpoint) : Bool :=
  some e.identifier = identifier && e.project = project

def endpoint? (s : Store) (identifier : Option String) (project : Cell) : Option Endpoint :=
  s.endpoints.find? (isEndpoint identifier project)

def endpointsOf (s : Store) (project : Cell) : List Endpoint :=
  (s.endpoints.filter fun e => e.project = project).mergeSort
    fun a b => decide (a.identifier ≤ b.identifier)

def endpointServing? (s : Store) (path : Option String) (project : Cell) : Option Endpoint :=
  (s.endpointsOf project).find? fun e => e.path = path

def addEndpoint (s : Store) (e : Endpoint) : Except Failure Store := do
  let endpoints ← settle s.readOnly endpointsConsistent (s.endpoints ++ [e])
  return { s with endpoints }

def createEndpoint (s : Store) (c : Json) : Except Failure (Endpoint × Store) := do
  Column.ofNew Endpoint.columns c
  s.writable
  let e ← Endpoint.ofColumns c
  return (e, ← s.addEndpoint e)

def updateEndpoint (s : Store) (identifier project : Json) (changes : List Change) :
    Except Failure Store := do
  checkChanges Endpoint.columns changes
  let identifier ← Column.text identifier
  let project := (← Cell.ofJson project).asNumber
  let endpoints ← updateRows s.readOnly Endpoint.assign endpointsConsistent
    (isEndpoint identifier project) changes s.endpoints
  return { s with endpoints }

def deleteEndpoint (s : Store) (identifier : Option String) (project : Cell) :
    Except Failure Store := do
  return { s with endpoints := ← deleteRows s.readOnly (isEndpoint identifier project) s.endpoints }

def deleteEndpointsOf (s : Store) (project : Cell) (user : Option String) :
    Except Failure Store := do
  let owned := (s.projectsOf user).map fun p => Cell.number p.id
  let endpoints ← deleteRows s.readOnly
    (fun e => e.project = project && owned.contains e.project) s.endpoints
  return { s with endpoints }

/-! ## Explanations -/

def explanation? (s : Store) (identifier hash : Option String) : Option Explanation :=
  s.explanations.find? fun e => some e.identifier = identifier && some e.hash = hash

def explanationsOf (s : Store) (project : Cell) : List Explanation :=
  s.explanations.filter fun e => e.project = project

def nextExplanation (s : Store) : Int := nextNumber (s.explanations.map Explanation.id)

def addExplanation (s : Store) (e : Explanation) : Except Failure Store := do
  let explanations ← settle s.readOnly explanationsConsistent
    (insertBy Explanation.id e s.explanations)
  return { s with explanations }

def createExplanation (s : Store) (c : Json) : Except Failure (Explanation × Store) := do
  Column.ofNew Explanation.columns c
  s.writable
  let e ← Explanation.ofColumns s.nextExplanation c
  return (e, ← s.addExplanation e)

def isExplanation (identifier : Option String) (project : Cell) (e : Explanation) : Bool :=
  some e.identifier = identifier && e.project = project

def updateExplanation (s : Store) (identifier project : Json) (changes : List Change) :
    Except Failure Store := do
  checkChanges Explanation.columns changes
  let identifier ← Column.text identifier
  let project := (← Cell.ofJson project).asNumber
  let explanations ← updateRows s.readOnly Explanation.assign explanationsConsistent
    (isExplanation identifier project) changes s.explanations
  return { s with explanations }

def deleteExplanation (s : Store) (identifier : Option String) (project : Cell) :
    Except Failure Store := do
  let explanations ← deleteRows s.readOnly (isExplanation identifier project) s.explanations
  return { s with explanations }

/-! ## Data models -/

def isModel (file name : Option String) (m : ModelClass) : Bool :=
  some m.file = file && some m.name = name

def model? (s : Store) (file name : Option String) : Option ModelClass :=
  s.models.find? (isModel file name)

def modelsOf (s : Store) (project : Cell) : List ModelClass :=
  s.models.filter fun m => m.project = project

def createModel (s : Store) (c : Json) : Except Failure (ModelClass × Store) := do
  Column.ofNew ModelClass.columns c
  s.writable
  let m ← ModelClass.ofColumns c
  let models ← settle s.readOnly modelsConsistent (s.models ++ [m])
  return (m, { s with models })

def updateModel (s : Store) (file name : Json) (changes : List Change) : Except Failure Store := do
  checkChanges ModelClass.columns changes
  let file ← Column.text file
  let name ← Column.text name
  let models ← updateRows s.readOnly ModelClass.assign modelsConsistent (isModel file name) changes
    s.models
  return { s with models }

def deleteModel (s : Store) (file name : Option String) : Except Failure Store := do
  return { s with models := ← deleteRows s.readOnly (isModel file name) s.models }

end Store
end CodeAtlas
