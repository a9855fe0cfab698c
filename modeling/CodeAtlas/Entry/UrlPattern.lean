import CodeAtlas.Code.Reader
import CodeAtlas.Entry.Decorator
import CodeAtlas.Index

/-!
# Entry points by URL patterns

Files named `urls.py` list patterns: calls with a path and a view. The view is resolved through the
imports of the file. For a class-based view whose code names a generic view, the model and the form it
is built on are connected with it.
-/
namespace CodeAtlas.UrlPattern

structure Listing where
  path : Option String
  view : Option String
  deriving DecidableEq, Repr

def unquoted (s : String) : String := Text.trimBy ServedPath.isQuote s

def readArgument (src : String) (l : Listing) (n : Node) : Except Failure Listing := do
  if n.kind == "string" then
    let path := unquoted (← n.text src)
    return { l with path := some (if path == "" then "/" else path) }
  else if n.kind == "call" then
    match n.children.find? (·.kind == "attribute") with
    | some view =>
      let name ← view.text src
      return { l with view := some name }
    | none => return l
  else if n.kind == "keyword_argument" then
    let name ← (← n.child 0).text src
    if name == "name" then
      let _ ← (← n.child 2).text src
      return l
    else return l
  else return l

/-- What a pattern says. -/
def listing (src : String) (n : Node) : Except Failure Listing :=
  match n.children.find? (·.kind == "argument_list") with
  | some arguments => arguments.children.foldlM (readArgument src) ⟨none, none⟩
  | none => .ok ⟨none, none⟩

def patterns (statement : Node) : Except Failure (List Node) := do
  let first ← statement.child 0
  if first.kind == "assignment" then
    let value ← first.child 2
    return if value.kind == "list" then value.children.filter (·.kind == "call") else []
  else return []

def genericViews : List String :=
  ["RedirectView", "TemplateView", "View", "ArchiveIndexView", "DateDetailView", "DayArchiveView",
   "MonthArchiveView", "TodayArchiveView", "WeekArchiveView", "YearArchiveView", "DetailView",
   "CreateView", "DeleteView", "FormView", "UpdateView"]

/-- The word after `key =` where a text starts with it; blanks may stand around the sign. -/
def assignedHere? (key s : List Char) : Option (List Char) :=
  match Chars.after? key s with
  | none => none
  | some rest =>
    match rest.dropWhile Text.isBlank with
    | '=' :: rest =>
      let word := (rest.dropWhile Text.isBlank).takeWhile Text.isWord
      if word.isEmpty then none else some word
    | _ => none

def assigned? (key : List Char) : List Char → Option (List Char)
  | [] => none
  | c :: cs =>
    match assignedHere? key (c :: cs) with
    | some word => some word
    | none => assigned? key cs

structure Scope where
  directory : String
  index : FileIndex

def connectNamed (s : Scope) (project : ProjectKey) (entry file key code : String) : Run Unit := do
  match assigned? key.toList code.toList with
  | none => return ()
  | some word =>
    let found ← Resolve.classTarget (← get).files s.index s.directory file (String.ofList word)
    match found.name with
    | none => return ()
    | some name =>
      if name == "" then return ()
      else
        GraphService.connect (.str entry) (.str (identifier s.directory found.file name)) project
          GraphService.callProperties

def connectView (s : Scope) (project : ProjectKey) (entry file : String) (node : GraphNode) :
    Run Unit := do
  match ← Code.hosted node.properties with
  | none => throw (.unfit "argument of type 'NoneType' is not iterable")
  | some code =>
    genericViews.forM fun view =>
      if Text.contains view code then do
        connectNamed s project entry file "model" code
        connectNamed s project entry file "form_class" code
      else return ()

def viewName (name : String) : String × Bool :=
  if Text.endsWith "as_view" name then
    let parts := Text.fields '.' name
    (if parts.length ≤ 1 then name else ".".intercalate parts.dropLast, true)
  else (name, false)

def ofPattern (src file : String) (s : Scope) (project : ProjectKey) (n : Node) :
    Run (List (String × String)) := do
  let l ← listing src n
  match l.path, l.view with
  | some path, some view =>
    if path == "" || view == "" then return []
    let (name, isClass) := viewName view
    let t := (← get).files
    let found ← if isClass then Resolve.classTarget t s.index s.directory file name
      else Resolve.functionTarget t s.index s.directory file name
    match found.name with
    | none => return []
    | some name =>
      if name == "" then return []
      let entry := identifier s.directory found.file name
      match ← GraphService.node? (.str entry) project with
      | some node => connectView s project entry found.file node
      | none => pure ()
      return [("HTTP " ++ path, entry)]
  | _, _ => return []

def inFile (s : Scope) (project : ProjectKey) (file : String) : Run (List (String × String)) := do
  let src ← (← get).files.readText file
  let root ← Run.treeOf src
  Run.gather (fun statement => do
      let found ← patterns statement
      Run.gather (ofPattern src file s project) found)
    (root.children.filter (·.kind == "expression_statement"))

def files (t : FileTree) (directory : String) : List String :=
  (t.walk directory).filterMap fun (folder, names) =>
    if names.contains "urls.py" then some (Path.join folder "urls.py") else none

def below (s : Scope) (folder : String) (project : ProjectKey) : Run (List (String × String)) := do
  Run.gather (inFile s project) (files (← get).files folder)

end CodeAtlas.UrlPattern
