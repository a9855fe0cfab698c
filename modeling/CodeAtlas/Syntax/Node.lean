import CodeAtlas.Failure

/-!
# Syntax trees

Trees over a source text, and how they are shown.
-/
namespace CodeAtlas

/-!
## Syntax trees

A tree covers a source text: each node has a kind, a span of the text's UTF-8 bytes and children.
Trees come from outside and may have any shape, so a span may cut a character; reading the text of
such a node fails.

Three ways to take a span out of a source are in use: the bytes themselves (`Node.text`), the rows
they lie on (`Node.firstRow`, `Node.lastRow`), and the characters at the positions that the byte
offsets name (`Node.cutOut`), which is the text of the node only when all characters up to it are
ASCII.
-/

inductive Node where
  | mk (kind : String) (start stop : Nat) (children : List Node)
  deriving Inhabited

namespace Node

def kind : Node → String
  | mk k _ _ _ => k

def start : Node → Nat
  | mk _ a _ _ => a

def stop : Node → Nat
  | mk _ _ b _ => b

def children : Node → List Node
  | mk _ _ _ cs => cs

def whole (src : String) : Node := .mk "module" 0 src.utf8ByteSize []

/-- The bytes of a source between two offsets; those beyond its end do not count. -/
def bytesIn (src : String) (start stop : Nat) : ByteArray :=
  src.toByteArray.extract (min start src.utf8ByteSize) (min stop src.utf8ByteSize)

def text (src : String) (n : Node) : Except Failure String :=
  match Utf8.decode (bytesIn src n.start n.stop) with
  | .ok s => .ok s
  | .error f => .error (.undecodable f)

/-- The number of line ends among the first `offset` bytes. -/
def rowAt (src : String) (offset : Nat) : Nat :=
  (bytesIn src 0 offset).toList.count 10

def firstRow (src : String) (n : Node) : Nat := rowAt src n.start

def lastRow (src : String) (n : Node) : Nat := rowAt src n.stop

/-- The characters at the positions that the byte offsets of a node name. -/
def cutOut (src : String) (n : Node) : String := Text.slice n.start n.stop src

mutual

def preorder : Node → List Node
  | mk k a b cs => mk k a b cs :: preorderAll cs

def preorderAll : List Node → List Node
  | [] => []
  | c :: cs => preorder c ++ preorderAll cs

end

def child (n : Node) (i : Nat) : Except Failure Node :=
  match n.children[i]? with
  | some c => .ok c
  | none => .error (.outOfRange "list")

def lastChild (n : Node) : Except Failure Node :=
  match n.children.getLast? with
  | some c => .ok c
  | none => .error (.outOfRange "list")

end Node

/-!
## Trees as indented text

One line for each node, with its kind and its text, indented by its depth.
-/

namespace Node

mutual

def sketch (src : String) (depth : Nat) : Node → Except Failure String
  | .mk kind a b children => do
    let text ← (Node.mk kind a b children).text src
    let below ← sketchAll src (depth + 1) children
    return String.ofList (List.replicate (2 * depth) ' ') ++ kind ++ ": " ++ text ++ "\n" ++ below

def sketchAll (src : String) (depth : Nat) : List Node → Except Failure String
  | [] => .ok ""
  | n :: ns => do
    let first ← sketch src depth n
    return first ++ (← sketchAll src depth ns)

end

end Node

end CodeAtlas
