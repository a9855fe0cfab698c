import CodeAtlas.Text.Basic

/-!
# Paths

Paths are texts with `/` between their parts. The operations look at the text alone:

* `join`: a path below another one, or the second one if it starts at the root;
* `normal`: without empty parts, `.`, and `..` after a part that it cancels;
* `relative`: a path as seen from another one;
* `base`, `parent`, `suffix`: the last part, what stands before it, and its suffix.
-/
namespace CodeAtlas.Path

def isRooted (p : String) : Bool := p.toList.head? == some '/'

def join (a b : String) : String :=
  if isRooted b then b
  else if a == "" || a.toList.getLast? == some '/' then a ++ b
  else a ++ "/" ++ b

def settle (rooted : Bool) : List String → List String → List String
  | done, [] => done.reverse
  | done, part :: rest =>
    if part == "" || part == "." then settle rooted done rest
    else if part != ".." then settle rooted (part :: done) rest
    else
      match done with
      | [] => if rooted then settle rooted [] rest else settle rooted [".."] rest
      | last :: before =>
        if last == ".." then settle rooted (".." :: done) rest else settle rooted before rest

/-- Without empty parts, `.`, and `..` after a part that it cancels. Exactly two slashes at the
beginning are kept. -/
def normal (p : String) : String :=
  if p == "" then "."
  else
    let slashes := (p.toList.takeWhile (· == '/')).length
    let root := if slashes == 2 then "//" else if slashes > 0 then "/" else ""
    let body := root ++ "/".intercalate (settle (slashes > 0) [] (Text.fields '/' p))
    if body == "" then "." else body

/-- The directory in which relative paths start. -/
def home : String := "/cwd"

def absolute (p : String) : String := normal (if isRooted p then p else join home p)

def partsOf (p : String) : List String := (Text.fields '/' (absolute p)).filter (· != "")

/-- Two lists without their common beginning. -/
def beyond : List String → List String → List String × List String
  | a :: as, b :: bs => if a == b then beyond as bs else (a :: as, b :: bs)
  | as, bs => (as, bs)

def relative (p start : String) : String :=
  let (up, down) := beyond (partsOf start) (partsOf p)
  let parts := up.map (fun _ => "..") ++ down
  if parts.isEmpty then "." else "/".intercalate parts

def base (p : String) : String := (Text.fields '/' p).getLast?.getD ""

/-- What stands before the last part of a path. -/
def parent (p : String) : String :=
  let kept := (p.toList.reverse.dropWhile (· != '/')).reverse
  if kept.all (· == '/') then String.ofList kept
  else String.ofList (kept.reverse.dropWhile (· == '/')).reverse

/-- The suffix of a file name: its last point and what follows, if another character than a point
stands before it. -/
def suffix (name : String) : String :=
  let rev := name.toList.reverse
  match rev.dropWhile (· != '.') with
  | [] => ""
  | _ :: before =>
    if before.all (· == '.') then "" else String.ofList ('.' :: (rev.takeWhile (· != '.')).reverse)

end CodeAtlas.Path
