import CodeAtlas.Schema.Statement

/-!
# The history of the schema

The schema grew in revisions, one after the other. Each says what it changes and how that is undone.
-/
namespace CodeAtlas.Schema

inductive Change where
  | run (statement : Statement)
  /-- A table is made unless there is one with its name. -/
  | ensure (table : TableShape)
  /-- A constraint is dropped that has no name. -/
  | dropNameless (table : String)
  deriving DecidableEq, Repr

structure Revision where
  id : String
  up : List Change
  down : List Change
  deriving DecidableEq, Repr

/-! ## Tables -/

private def may (name : String) (type : ColumnType) : Column := ⟨name, type, false, none⟩

private def must (name : String) (type : ColumnType) : Column := ⟨name, type, true, none⟩

/-- A row goes when the project that it belongs to goes. -/
private def ofProject (follows : Bool) : Rule := .reference ["project_id"] "projects" ["id"] follows

def users : TableShape :=
  ⟨"users",
   [must "uid" (.varchar 255), must "email" (.varchar 255), may "display_name" (.varchar 255),
    may "email_verified" .boolean, may "created_at" .timestamp, may "last_login_at" .timestamp,
    may "provider_username" (.varchar 255), may "provider_info" .json],
   [⟨none, .primaryKey ["uid"]⟩, ⟨none, .unique ["email"]⟩]⟩

def projects : TableShape :=
  ⟨"projects",
   [must "id" .counter, may "directory" .text, may "is_default" .boolean, may "project_name" .text,
    may "repo_name" .text, may "branch_name" .text, must "user_id" (.varchar 255),
    ⟨"created_at", .timestamp, false, some .now⟩, ⟨"updated_at", .timestamp, false, some .now⟩,
    may "status" (.varchar 255)],
   [⟨none, .primaryKey ["id"]⟩, ⟨none, .reference ["user_id"] "users" ["uid"] true⟩,
    ⟨some "check_status", .check "status IN ('created', 'ready', 'error')" ["status"]⟩,
    ⟨none, .unique ["directory"]⟩, ⟨none, .unique ["project_name"]⟩]⟩

def endpoints : TableShape :=
  ⟨"endpoints",
   [may "path" .text, must "identifier" .text, may "test_plan" .text, may "preferences" .text,
    must "project_id" .integer],
   [⟨none, .primaryKey ["project_id", "identifier"]⟩, ⟨none, ofProject true⟩]⟩

def explanations : TableShape :=
  ⟨"explanation",
   [must "id" .counter, must "identifier" .text, must "hash" .text, must "explanation" .text,
    must "project_id" .integer],
   [⟨none, .primaryKey ["id"]⟩, ⟨none, ofProject true⟩,
    ⟨none, .unique ["identifier", "hash", "project_id"]⟩]⟩

def models : TableShape :=
  ⟨"pydantic",
   [must "filepath" .text, must "classname" .text, may "definition" .text, must "project_id" .integer],
   [⟨none, .primaryKey ["filepath", "classname"]⟩, ⟨none, ofProject true⟩]⟩

def inferences : TableShape :=
  ⟨"inference",
   [must "key" .text, may "inference" .text, may "hash" .text, may "explanation" .text,
    must "project_id" .integer],
   [⟨none, .primaryKey ["key", "project_id"]⟩, ⟨none, ofProject true⟩]⟩

/-! ## Revisions -/

private def create (t : TableShape) : Change := .run (.createTable t)

private def drop (t : TableShape) : Change := .run (.dropTable t.name)

private def adding (id table : String) (c : Column) (after : List Change) : Revision :=
  ⟨id, .run (.addColumn table c) :: after, [.run (.dropColumn table c.name)]⟩

def history : List Revision :=
  [⟨"6c007877a09d", [create users, create projects, create endpoints, create explanations],
    [drop explanations, drop endpoints, drop projects, drop users]⟩,
   adding "b3242d1b9b45" "projects" (may "commit_id" (.varchar 255)) [],
   ⟨"b01941f39347", [.run (.dropConstraint "projects" "projects_project_name_key")],
    [.run (.addConstraint "projects" ⟨some "projects_project_name_key", .unique ["project_name"]⟩)]⟩,
   ⟨"cbd8239ae1b7",
    [create models, .run (.dropConstraint "explanation" "explanation_project_id_fkey"),
     .run (.addConstraint "explanation" ⟨none, ofProject false⟩)],
    [.dropNameless "explanation",
     .run (.addConstraint "explanation" ⟨some "explanation_project_id_fkey", ofProject true⟩),
     drop models]⟩,
   ⟨"fbc3da27ae0c", [.ensure inferences], [drop inferences]⟩,
   ⟨"754403255064", [drop models], [create models]⟩,
   adding "a982f043a300" "projects" ⟨"is_deleted", .boolean, true, some .no⟩
     [.run (.clear "projects" "is_deleted")],
   adding "0d03ae5e3938" "projects" (may "properties" .bytes) []]

def latest : Nat := history.length

def revision? : Nat → Option Revision
  | 0 => none
  | version + 1 => history[version]?

def idOf? (version : Nat) : Option String := (revision? version).map Revision.id

end CodeAtlas.Schema
