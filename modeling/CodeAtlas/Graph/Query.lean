import CodeAtlas.Graph.Basic

/-!
# Queries to the graph service

The queries that are sent, as texts and parameters. They are noted when queries are traced; what they
answer is said by the operations of `Graph`.
-/
namespace CodeAtlas

structure GraphQuery where
  text : String
  parameters : List (String × Json)

namespace GraphQuery

/-- The pattern of a node of a project whose identifier is a parameter. -/
def keyed (name parameter : String) : String :=
  "(" ++ name ++ ":Function \x7bid: $" ++ parameter ++ ", project_id: $project_id\x7d)"

def upsert (id : Json) (project : ProjectKey) (ps : List (String × Json)) : GraphQuery :=
  ⟨"MERGE " ++ keyed "n" "function_identifier" ++ " SET n += $properties RETURN n",
   [("function_identifier", id), ("properties", .obj ps), ("project_id", project.given)]⟩

def connect (source target : Json) (project : ProjectKey) (properties : Json) : GraphQuery :=
  ⟨"MATCH " ++ keyed "a" "parent_function" ++ ", " ++ keyed "b" "called_function_identifier" ++ " MERGE (a)-[r:CALLS]->(b) SET r += $relationship_properties RETURN r",
   [("parent_function", source), ("called_function_identifier", target),
    ("relationship_properties", properties), ("project_id", project.given)]⟩

def edge (first second kind : Json) : GraphQuery :=
  ⟨Text.collapse ("MATCH " ++ keyed "a" "node1_id" ++ ", " ++ keyed "b" "node2_id" ++ " MERGE (a)-[r:" ++
      kind.display ++ "]->(b) RETURN r"),
   [("node1_id", first), ("node2_id", second)]⟩

def extend (base derived : Json) (project : ProjectKey) : GraphQuery :=
  ⟨"MATCH " ++ keyed "base" "base_class_id" ++ ", " ++ keyed "derived" "derived_class_id" ++ " MERGE (derived)-[r:EXTENDS]->(base) RETURN r",
   [("base_class_id", base), ("derived_class_id", derived),
    ("project_id", project.given)]⟩

def deleteProject (project : ProjectKey) : GraphQuery :=
  ⟨"MATCH (n \x7bproject_id: $project_id\x7d) DETACH DELETE n", [("project_id", project.given)]⟩

def node (id : Json) (project : ProjectKey) : GraphQuery :=
  ⟨"MATCH " ++ keyed "n" "node_id" ++ " RETURN n",
   [("node_id", id), ("project_id", project.given)]⟩

def file (id : Json) (project : ProjectKey) : GraphQuery :=
  ⟨"MATCH " ++ keyed "n" "identifier" ++ " RETURN n.file AS file",
   [("identifier", id), ("project_id", project.given)]⟩

def callees (id : Json) (project : ProjectKey) : GraphQuery :=
  ⟨"MATCH " ++ keyed "n" "node_id" ++ "-[:CALLS]->(neighbor:Function) RETURN neighbor",
   [("node_id", id), ("project_id", project.given)]⟩

/-- What is returned of the neighbours: the nodes, or each node with its body. -/
def collected (bodies : Bool) : String :=
  if bodies then "collect(\x7bneighbor: neighbor, body: neighbor.body\x7d) AS neighbors"
  else "collect(neighbor) AS neighbors"

def callersText (bodies : Bool) : String :=
  "MATCH " ++ keyed "start" "identifier" ++ " OPTIONAL MATCH (neighbor:Function \x7bproject_id: $project_id\x7d)-[:CALLS]->(start) RETURN start, " ++ collected bodies

def callers (id : Json) (project : ProjectKey) : GraphQuery :=
  ⟨callersText false, [("identifier", id), ("project_id", project.given)]⟩

def pattern : Option Direction → String
  | some .either => "MATCH (start)-[:CALLS*]-(neighbor:Function \x7bproject_id: $project_id\x7d) "
  | some .outward => "MATCH (start)-[:CALLS*]->(neighbor:Function \x7bproject_id: $project_id\x7d) "
  | some .inward => "MATCH (start)<-[:CALLS*]-(neighbor:Function \x7bproject_id: $project_id\x7d) "
  | none => ""

def returned (bodies : Bool) : String :=
  if bodies then "RETURN neighbor, neighbor.body AS body" else "RETURN neighbor"

def trailsInside (d : Option Direction) (bodies : Bool) (id : Json) (project : ProjectKey) :
    GraphQuery :=
  ⟨"MATCH " ++ keyed "start" "endpoint_id" ++ " CALL \x7b WITH start " ++
    pattern d ++ returned bodies ++ " \x7d RETURN start, " ++ collected bodies,
   [("endpoint_id", id), ("project_id", project.given)]⟩

def trails (d : Option Direction) (bodies : Bool) (id : Json) (project : ProjectKey) :
    GraphQuery :=
  ⟨"MATCH " ++ keyed "start" "identifier" ++ " " ++ pattern d ++
    "RETURN start, " ++ collected bodies,
   [("identifier", id), ("project_id", project.given)]⟩

def trailsTo (bodies : Bool) (id : Json) (project : ProjectKey) : GraphQuery :=
  ⟨"MATCH " ++ keyed "start" "endpoint_id" ++ " CALL \x7b WITH start MATCH (neighbor:Function \x7bproject_id: $project_id\x7d)-[:CALLS*]->(start) " ++
    returned bodies ++ " \x7d RETURN start, collect(\x7bneighbor: neighbor" ++
    (if bodies then ", body: neighbor.body" else "") ++ "\x7d) AS neighbors",
   [("endpoint_id", id), ("project_id", project.given)]⟩

def lineage (className : Json) (project : ProjectKey) : GraphQuery :=
  ⟨"MATCH (derived:Function \x7bclass_name: $class_name, project_id: $project_id\x7d) CALL \x7b WITH derived MATCH path = (derived)-[:EXTENDS*0..]->(base) RETURN base AS node, length(path) AS depth ORDER BY depth \x7d RETURN DISTINCT node ORDER BY depth",
   [("class_name", className), ("project_id", project.given)]⟩

def lineages (classNames : Json) (project : ProjectKey) : GraphQuery :=
  ⟨"MATCH (derived:Function) WHERE derived.class_name IN $classnames AND derived.project_id = $project_id MATCH path = (derived)-[:EXTENDS*0..]->(base) WITH derived.class_name AS root_class_name, base AS node, length(path) AS depth ORDER BY root_class_name, depth RETURN DISTINCT root_class_name, node, depth",
   [("classnames", classNames), ("project_id", project.given)]⟩

end GraphQuery
end CodeAtlas
