import CodeAtlas.Analysis.Calls
import CodeAtlas.Analysis.Inheritance
import CodeAtlas.Entry.Detection
import CodeAtlas.Project.Folder

/-!
# The analysis of a project

First every source file is surveyed and its functions and classes become nodes. Then the data models
are found and connected with their bases, the calls of every function are connected, and the routers
are noted. Last the entry points are detected.
-/
namespace CodeAtlas.Analysis

structure SurveyedFile where
  path : String
  source : String
  survey : Survey

def SurveyedFile.functions (directory : String) (f : SurveyedFile) : Table String Node :=
  Table.ofPairs (f.survey.functions.map fun d => (identifier directory f.path d.name, d.node))

def surveyFile (directory : String) (project : ProjectKey) (path : String) : Run SurveyedFile := do
  let source ← (← get).files.readText path
  let root ← Run.treeOf source
  let survey := Survey.ofTree source root
  recordSurvey directory path project survey
  return ⟨path, source, survey⟩

def indexOf (directory : String) (files : List SurveyedFile) : FileIndex :=
  Table.ofPairs (files.map fun f => (f.path, f.survey.toEntry directory f.path))

def definedIn (directory : String) (files : List SurveyedFile) : List String :=
  files.flatMap fun f => Table.keys (f.functions directory)

def classesIn (files : List SurveyedFile) : List ClassSource :=
  files.flatMap fun f => f.survey.classes.map fun c => ⟨f.path, f.source, c.node⟩

def connectFile (directory : String) (project : ProjectKey) (index : FileIndex)
    (defined : List String) (routers : RouterTable) (f : SurveyedFile) : Run RouterTable := do
  let scope : Calls.Scope := ⟨directory, f.path, index, defined⟩
  Calls.connectFile f.source scope project (f.functions directory)
  Routers.mountAll (← get).files scope f.survey.mounts routers

/-- Nodes are made of all definitions, and classes connected with their bases. -/
def firstPass (directory : String) (project : ProjectKey) : Run (List SurveyedFile) := do
  let files ← ((← get).files.sources directory).mapM (surveyFile directory project)
  let models ← ModelSearch.models (classesIn files)
  Inheritance.connectAll models project
  return files

/-- Functions are connected with what they call, and routers are mounted. -/
def secondPass (directory : String) (project : ProjectKey) (files : List SurveyedFile) :
    Run RouterTable :=
  files.foldlM
    (connectFile directory project (indexOf directory files) (definedIn directory files)) []

def analyse (directory : String) (user : Json) (project : ProjectKey) : Run Unit := do
  let files ← firstPass directory project
  let routers ← secondPass directory project files
  Entry.analyse ⟨directory, routers, indexOf directory files⟩ project user
  Folder.discard (.str directory)

end CodeAtlas.Analysis
