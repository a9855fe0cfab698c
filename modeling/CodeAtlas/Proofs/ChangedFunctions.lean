import CodeAtlas.Change.Detection
import CodeAtlas.Proofs.CallRequests

/-!
# Functions that a patch changes

* `Hunk.touches_iff`: a hunk touches rows in which it has a line;
* `Change.ends_functions`: what is answered for patches, file by file;
* `Change.functionId_eq`: a function goes by the identifier of its node;
* `Change.changed_function_iff`: it is answered if and only if a hunk has a line in the last
  definition of its name;
* `Change.decorator_change_missed`: so a change in a decorator is missed.

The analysis knows a function by the path of its file, from which the text of the project's folder
is taken out. The search for changed functions joins the folder with the name of a file and looks
at the result from the folder. Below a folder in normal form both give the same key.

* `Change.functionId_below`, `Change.identifier_below`: the two ways to make a key;
* `Change.functions_named_alike`: every key of the analysis is the one that a change of the function
  shows.
-/
namespace CodeAtlas

/-! ## Hunks -/

theorem Hunk.touches_iff (h : Hunk) (first last : Int) :
    h.touches first last = true ↔ ∃ l ∈ h.lines, first ≤ l ∧ l ≤ last := by
  simp only [touches, decide_eq_true_eq, lines, List.mem_map, List.mem_range]
  constructor
  · intro hle
    refine ⟨max h.start first, ⟨(max h.start first - h.start).toNat, ?_, ?_⟩, ?_, ?_⟩ <;> omega
  · rintro ⟨l, ⟨i, hi, rfl⟩, hfirst, hlast⟩
    omega

/-- Some hunk has a line in rows that are counted from zero. -/
def Hunk.Within (hunks : List Hunk) (first last : Nat) : Prop :=
  ∃ h ∈ hunks, ∃ l ∈ h.lines, (first : Int) + 1 ≤ l ∧ l ≤ (last : Int) + 1

theorem Hunk.Within.mono {hunks : List Hunk} {a b c d : Nat} (h : Within hunks a b) (hfirst : c ≤ a)
    (hlast : b ≤ d) : Within hunks c d := by
  obtain ⟨k, hk, l, hl, hla, hlb⟩ := h
  exact ⟨k, hk, l, hl, by omega, by omega⟩

theorem ChangedLines.ofPatches_single (root file : String) {patch : String} {hunks : List Hunk}
    (h : ofPatch patch = .ok hunks) :
    ofPatches root [(file, some patch)] = .ok [(Path.normal (Path.join root file), hunks)] := by
  simp only [ofPatches, List.foldlM_cons, List.foldlM_nil, add, h]
  rfl

namespace Change

variable {source : FileSource} {root branch path : String} {w : World}

theorem functionId_injective {a b : String} (h : functionId root path a = functionId root path b) :
    a = b := by
  unfold functionId at h
  exact String.append_right_inj _ |>.1 h

theorem mem_touched {hunks : List Hunk} {functions : Table String RowRange}
    (hn : functions.keys.Nodup) {name : String} :
    functionId root path name ∈ touched root path hunks functions ↔
      ∃ rows, functions.get? name = some rows ∧
        ∃ h ∈ hunks, ∃ l ∈ h.lines, (rows.first : Int) ≤ l ∧ l ≤ rows.last := by
  unfold touched
  simp only [List.mem_map, List.mem_filter, List.any_eq_true, Hunk.touches_iff]
  constructor
  · rintro ⟨⟨other, rows⟩, ⟨hmem, htouched⟩, hid⟩
    obtain rfl := functionId_injective hid
    exact ⟨rows, (Table.get?_eq_some_iff hn).2 hmem, htouched⟩
  · rintro ⟨rows, hget, htouched⟩
    exact ⟨(name, rows), ⟨Table.mem_of_get? hget, htouched⟩, rfl⟩

/-- The functions that are found in a changed file: none if it cannot be read. -/
def foundIn (source : FileSource) (root branch : String) (w : World) (entry : String × List Hunk) :
    List String :=
  match (functionsOf source branch entry.1).answer w with
  | .ok functions => touched root entry.1 entry.2 functions
  | .error _ => []

theorem keeps_readFile (source : FileSource) (branch path : String) :
    Run.Keeps id (readFile source branch path) := by
  unfold readFile
  split
  · exact Run.Keeps.get.bind fun _ => Run.Keeps.lift _
  · split
    · exact Run.Keeps.lift _
    · exact Run.Keeps.throw _

theorem keeps_functionsOf (source : FileSource) (branch path : String) :
    Run.Keeps id (functionsOf source branch path) := by
  refine (keeps_readFile source branch path).bind fun src => ?_
  refine (Run.Keeps.get.bind fun _ => Run.Keeps.pure _).bind fun tree => ?_
  exact Run.Keeps.lift _

theorem ends_inFile (entry : String × List Hunk) :
    (inFile source root branch entry).ends w = (.ok (foundIn source root branch w entry), w) := by
  unfold inFile foundIn
  rw [Run.ends_bind_ok _ (Run.ends_outcome _ _)]
  have hkeeps : ((functionsOf source branch entry.1).ends w).2 = w :=
    keeps_functionsOf source branch entry.1 w
  rw [hkeeps]
  unfold Run.answer
  cases ((functionsOf source branch entry.1).ends w).1 <;> rfl

theorem ends_inFiles (changed : ChangedLines) :
    (inFiles source root branch changed).ends w =
      (.ok (changed.flatMap (foundIn source root branch w)), w) := by
  induction changed with
  | nil => rfl
  | cons entry rest ih =>
    unfold inFiles
    rw [Run.ends_bind_ok _ (ends_inFile entry), Run.ends_bind_ok _ ih]
    rfl

/-- What is answered for patches: the functions found in each file, one file after the other. -/
theorem ends_functions {patches : List (String × Option String)} {changed : ChangedLines}
    (h : ChangedLines.ofPatches root patches = .ok changed) :
    (functions source root branch patches).ends w =
      (.ok (changed.flatMap (foundIn source root branch w)), w) := by
  unfold functions
  rw [h, Run.ends_bind_lift]
  exact ends_inFiles changed

theorem answer_functionsOf {src : String} {tree : Node} {ds : List (String × Node)}
    (hread : (readFile source branch path).answer w = .ok src)
    (htree : (Run.treeOf src).answer w = .ok tree)
    (hds : Definitions.listed src none tree = .ok ds) :
    (functionsOf source branch path).answer w = .ok (Definitions.note src [] ds) := by
  have hends : (readFile source branch path).ends w = (.ok src, w) :=
    Prod.ext hread (keeps_readFile source branch path w)
  have htree' : (Run.treeOf src).ends w = (.ok tree, w) := Prod.ext htree rfl
  unfold functionsOf Run.answer
  rw [Run.ends_bind_ok _ hends, Run.ends_bind_ok _ htree', Definitions.ofTree_eq hds]
  rfl

/-! ## The identifier of a function -/

section
variable {folder inner : List String}

theorem folder_ne_nil
    (honce : Text.contains (Path.ofParts folder) (Path.ofParts inner) = false) : folder ≠ [] := by
  rintro rfl
  have hslash : Text.contains (Path.ofParts []) (Path.ofParts inner) = true := by
    rw [Text.contains, Chars.contains, Path.toList_ofParts, Path.toList_ofParts]
    exact congrArg Option.isSome (Chars.cut?_append ['/'] _)
  rw [hslash] at honce
  cases honce

/-- Both walks know a function by the same identifier, if the folder does not occur again in the
path below it. -/
theorem functionId_eq (h : Path.Proper (folder ++ inner)) (hinner : inner ≠ [])
    (honce : Text.contains (Path.ofParts folder) (Path.ofParts inner) = false) (name : String) :
    functionId (Path.ofParts folder) (Path.ofParts (folder ++ inner)) name =
      identifier (Path.ofParts folder) (Path.ofParts (folder ++ inner)) name := by
  have hfolder := folder_ne_nil honce
  have hstart : Text.startsWith "/" ("/".intercalate inner) = false := by
    rw [← Bool.not_eq_true, Text.startsWith, Option.isSome_iff_exists]
    rintro ⟨r, hr⟩
    rw [Chars.after?_eq_some, String.toList_intercalate] at hr
    exact Path.head?_intercalate h.append_right (congrArg List.head? hr)
  unfold functionId identifier
  rw [Path.relative_ofParts h hfolder hinner, Path.remove_ofParts hfolder hinner honce]
  simp [hstart, Path.ofParts]

variable {src : String} {tree : Node} {ds : List (String × Node)} {name : String} {d : Node}

/-- A function is found in its file if and only if a hunk has a line in the last definition of its
name. -/
theorem mem_foundIn (hproper : Path.Proper (folder ++ inner)) (hinner : inner ≠ [])
    (honce : Text.contains (Path.ofParts folder) (Path.ofParts inner) = false)
    (hread : (readFile source branch (Path.ofParts (folder ++ inner))).answer w = .ok src)
    (htree : (Run.treeOf src).answer w = .ok tree)
    (hds : Definitions.listed src none tree = .ok ds)
    (hd : Table.get? (Table.ofPairs ds) name = some d) (hunks : List Hunk) :
    identifier (Path.ofParts folder) (Path.ofParts (folder ++ inner)) name ∈
        foundIn source (Path.ofParts folder) branch w (Path.ofParts (folder ++ inner), hunks) ↔
      Hunk.Within hunks (d.firstRow src) (d.lastRow src) := by
  have hrows := Definitions.get?_note src ds name
  rw [hd, Option.map_some] at hrows
  have hnodup : (Definitions.note src [] ds).keys.Nodup := Table.nodup_setAll _ List.nodup_nil
  rw [← functionId_eq hproper hinner honce, foundIn, answer_functionsOf hread htree hds]
  simp only [mem_touched hnodup, hrows, Option.some.injEq, exists_eq_left', Definitions.rows,
    Hunk.Within, Int.natCast_add, Int.natCast_one]

end

def LastDefinition (src : String) (tree : Node) (name : String) (d : Node) : Prop :=
  ∃ ds, Definitions.listed src none tree = .ok ds ∧ Table.get? (Table.ofPairs ds) name = some d

def DefinedOnce (src : String) (tree : Node) (name : String) : Prop :=
  ∀ ds, Definitions.listed src none tree = .ok ds →
    ∀ d e, (name, d) ∈ ds → (name, e) ∈ ds → d = e

theorem exists_lastDefinition {src : String} {tree : Node} (h : Definitions.Shaped src tree)
    {f : FunctionFound} (hf : .function f ∈ (Survey.ofTree src tree).findings) :
    ∃ d, LastDefinition src tree f.name d ∧
      (DefinedOnce src tree f.name → Definitions.Names f.node d) := by
  obtain ⟨ds, hds, hlisted⟩ := Definitions.findings_listed h
  obtain ⟨e, he, hnames⟩ := hlisted _ hf
  obtain ⟨d, hd⟩ := Table.exists_get?_setAll (t := []) (Or.inr ⟨e, he⟩)
  have hmem : (f.name, d) ∈ ds :=
    (Table.mem_setAll (Table.mem_of_get? hd)).resolve_left (by simp)
  refine ⟨d, ⟨ds, hds, hd⟩, fun honce => ?_⟩
  rw [honce ds hds d e hmem he]
  exact hnames

/-- **Changes inside known functions**: a function of the survey of a file is answered for a patch
of the file if and only if the patch has a line in the last definition under its name. So no line of
the rows that are kept for the function is missed when the last definition covers them, whatever
other patches there are. It does cover them if the name is defined once and not decorated. -/
theorem changed_function_iff {folder inner : List String} {src : String} {tree : Node}
    {f : FunctionFound} (hproper : Path.Proper (folder ++ inner)) (hinner : inner ≠ [])
    (honce : Text.contains (Path.ofParts folder) (Path.ofParts inner) = false)
    (hread : (readFile source branch (Path.ofParts (folder ++ inner))).answer w = .ok src)
    (htree : (Run.treeOf src).answer w = .ok tree) (hshaped : Definitions.Shaped src tree)
    (hf : .function f ∈ (Survey.ofTree src tree).findings) :
    (f.signature.firstRow = f.node.firstRow src ∧ f.signature.lastRow = f.node.lastRow src) ∧
    ∃ d, LastDefinition src tree f.name d ∧
      (DefinedOnce src tree f.name → Definitions.Names f.node d) ∧
      (∀ patch hunks, ChangedLines.ofPatch patch = .ok hunks →
        ∃ ids, (functions source (Path.ofParts folder) branch
            [("/".intercalate inner, some patch)]).answer w = .ok ids ∧
          (identifier (Path.ofParts folder) (Path.ofParts (folder ++ inner)) f.name ∈ ids ↔
            Hunk.Within hunks (d.firstRow src) (d.lastRow src))) ∧
      (∀ patches changed hunks, ChangedLines.ofPatches (Path.ofParts folder) patches = .ok changed →
        Table.get? changed (Path.ofParts (folder ++ inner)) = some hunks →
        ∃ ids, (functions source (Path.ofParts folder) branch patches).answer w = .ok ids ∧
          (d.firstRow src ≤ f.signature.firstRow → f.signature.lastRow ≤ d.lastRow src →
            Hunk.Within hunks f.signature.firstRow f.signature.lastRow →
              identifier (Path.ofParts folder) (Path.ofParts (folder ++ inner)) f.name ∈ ids)) := by
  obtain ⟨d, hlast, hnames⟩ := exists_lastDefinition hshaped hf
  obtain ⟨ds, hds, hd⟩ := hlast
  have hfound := mem_foundIn hproper hinner honce hread htree hds hd
  refine ⟨Survey.rowsOf_ofTree src tree _ hf, d, ⟨ds, hds, hd⟩, hnames,
    fun patch hunks hpatch => ?_, fun patches changed hunks hchanged hhunks => ?_⟩
  · have hsingle := ChangedLines.ofPatches_single (Path.ofParts folder) ("/".intercalate inner)
      hpatch
    rw [Path.normal_join hproper (folder_ne_nil honce) hinner] at hsingle
    refine ⟨_, congrArg Prod.fst (ends_functions hsingle), ?_⟩
    rw [List.flatMap_singleton]
    exact hfound hunks
  · refine ⟨_, congrArg Prod.fst (ends_functions hchanged), fun hfirst hlast hwithin => ?_⟩
    refine List.mem_flatMap.2 ⟨_, Table.mem_of_get? hhunks, ?_⟩
    exact (hfound hunks).2 (hwithin.mono hfirst hlast)

/-! ## Two small files -/

def oneFile (src : String) (tree : Node) : World :=
  { World.vacant with
    files := .named [("/demo/m.py", src.toUTF8)] ["/demo"]
    trees := [(src, tree)] }

/-- A class with a method in the second row. -/
def memberSource : String := "class K:\n    def m(): pass\n"

def member : Node := .mk "function_definition" 13 26 [.mk "identifier" 17 18 []]

def memberTree : Node :=
  .mk "module" 0 27 [.mk "class_definition" 0 26
    [.mk "class" 0 5 [], .mk "identifier" 6 7 [], .mk "block" 13 26 [member]]]

theorem listed_member : Definitions.listed memberSource none memberTree = .ok [("K.m", member)] :=
  rfl

theorem shaped_member : Definitions.Shaped memberSource memberTree where
  top := rfl
  readable := by
    have hclass : Node.text memberSource (.mk "identifier" 6 7 []) = .ok "K" := rfl
    have hmethod : Node.text memberSource (.mk "identifier" 17 18 []) = .ok "m" := rfl
    simp [memberTree, member, Node.preorder, Node.preorderAll, Node.kind, hclass, hmethod]
  named := by
    simp [memberTree, member, Node.preorder, Node.preorderAll, Node.kind, Node.children,
      Definitions.identifier?]
  decorated := by
    simp [memberTree, member, Node.preorder, Node.preorderAll, Node.kind]

theorem function_member : ∃ f, .function f ∈ (Survey.ofTree memberSource memberTree).findings ∧
    f.name = "K.m" ∧ f.signature.firstRow = 1 ∧ f.signature.lastRow = 1 := by
  have hmap : (Survey.ofTree memberSource memberTree).functions.map (fun f => (f.name, f.node)) =
      [("K.m", member)] := rfl
  have hrow (offset : Nat) : Node.rowAt memberSource offset =
      (Node.bytesIn memberSource 0 offset).data.toList.count 10 := by
    rw [Node.rowAt, toList_byteArray]
  obtain ⟨f, hf, he⟩ := List.mem_map.1 (hmap ▸ List.mem_cons_self)
  obtain ⟨finding, hfinding, hfunction⟩ := List.mem_filterMap.1 hf
  obtain ⟨hname, hnode⟩ := Prod.mk.inj he
  have hmem : .function f ∈ (Survey.ofTree memberSource memberTree).findings := by
    cases finding <;> simp_all
  obtain ⟨hfirst, hlast⟩ := Survey.rowsOf_ofTree memberSource memberTree _ hmem
  rw [hnode] at hfirst hlast
  refine ⟨f, hmem, hname, hfirst.trans ?_, hlast.trans ?_⟩
  · exact (hrow 13).trans (by decide)
  · exact (hrow 26).trans (by decide)

/-- A change in a method is found. -/
theorem method_change_found : ∃ f, .function f ∈ (Survey.ofTree memberSource memberTree).findings ∧
    f.name = "K.m" ∧ f.signature.firstRow = 1 ∧ f.signature.lastRow = 1 ∧
    ∃ ids, (functions .disk "/demo" "main" [("m.py", some "@@ -2 +2 @@")]).answer
      (oneFile memberSource memberTree) = .ok ids ∧
        identifier "/demo" "/demo/m.py" f.name ∈ ids := by
  have hpatch : ChangedLines.ofPatch "@@ -2 +2 @@" = .ok [⟨2, 1⟩] :=
    Run.eq_ok_of_toOption (by decide +kernel)
  have hread : (readFile .disk "main" "/demo/m.py").answer (oneFile memberSource memberTree) =
      .ok memberSource := Run.eq_ok_of_toOption (by decide +kernel)
  have hproper : Path.Proper (["demo"] ++ ["m.py"]) := by
    unfold Path.Proper
    decide
  obtain ⟨f, hf, hname, hfirst, hlast⟩ := function_member
  refine ⟨f, hf, hname, hfirst, hlast, ?_⟩
  obtain ⟨-, d, ⟨ds, hds, hd⟩, -, -, hpatched⟩ := changed_function_iff hproper
    (by simp) (by decide +kernel) hread rfl shaped_member hf
  cases hds.symm.trans listed_member
  rw [hname] at hd
  obtain rfl : member = d := Option.some.inj hd
  have hrows : member.firstRow memberSource = 1 ∧ member.lastRow memberSource = 1 := by
    decide +kernel
  obtain ⟨ids, hids, hfound⟩ := hpatched [("m.py", some "@@ -2 +2 @@")] _ _
    (ChangedLines.ofPatches_single "/demo" "m.py" hpatch) rfl
  refine ⟨ids, hids, hfound ?_ ?_ ⟨⟨2, 1⟩, List.mem_cons_self, 2, by decide, ?_, ?_⟩⟩ <;>
    simp [hrows, hfirst, hlast]

/-- A decorated function in the first three rows. -/
def decoratedSource : String := "@a\ndef f():\n    pass\n"

def decoratedTree : Node :=
  .mk "module" 0 21 [.mk "decorated_definition" 0 20 [
    .mk "decorator" 0 2 [.mk "@" 0 1 [], .mk "identifier" 1 2 []],
    .mk "function_definition" 3 20 [.mk "identifier" 7 8 []]]]

/-- A change in a decorator is missed, although its row is kept for the function. -/
theorem decorator_change_missed :
    (Survey.ofTree decoratedSource decoratedTree).functions.map (fun f =>
        (identifier "/demo" "/demo/m.py" f.name, f.signature.firstRow, f.signature.lastRow)) =
      [("/m.py:f", 0, 2)] ∧
    ChangedLines.ofPatches "/demo" [("m.py", some "@@ -1,1 +1,1 @@")] =
      .ok [("/demo/m.py", [⟨1, 1⟩])] ∧
    Hunk.Within [⟨1, 1⟩] 0 2 ∧
    (functions .disk "/demo" "main" [("m.py", some "@@ -1,1 +1,1 @@")]).answer
      (oneFile decoratedSource decoratedTree) = .ok [] := by
  refine ⟨by decide +kernel, Run.eq_ok_of_toOption (by decide +kernel), ?_,
    Run.eq_ok_of_toOption (by decide +kernel)⟩
  exact ⟨⟨1, 1⟩, List.mem_cons_self, 1, by decide, by decide, by decide⟩

end Change

/-! ## One key for a function -/

theorem Path.startsWith_slash (p : String) : Text.startsWith "/" p = Path.isRooted p := by
  unfold Text.startsWith Path.isRooted
  cases p.toList with
  | nil => rfl
  | cons c cs =>
    by_cases hc : c = '/'
    · simp [Chars.after?, hc]
    · simp [Chars.after?, hc, Ne.symm hc]

theorem Definitions.mem_keys_note {src name : String} {d : Node} {ds : List (String × Node)}
    (h : (name, d) ∈ ds) : name ∈ Table.keys (note src [] ds) := by
  obtain ⟨r, hr⟩ := Table.exists_get?_setAll (t := [])
    (.inr ⟨_, List.mem_map_of_mem (f := fun d => (d.1, rows src d.2)) h⟩)
  exact List.mem_map.2 ⟨_, Table.mem_of_get? hr, rfl⟩

namespace Change

section
variable {above below : String}

theorem ne_root (honce : Text.contains above ("/" ++ below) = false) : above ≠ "/" := by
  rintro rfl
  have hslash : Text.contains "/" ("/" ++ below) = true := by
    rw [Text.contains, Chars.contains, String.toList_append, Chars.cut?_append]
    rfl
  rw [hslash] at honce
  cases honce

/-- The key that is shown for a changed function of a file below a folder. -/
theorem functionId_below (hrooted : Path.isRooted above = true)
    (habove : Path.normal above = above)
    (hbelow : Path.normal (above ++ "/" ++ below) = above ++ "/" ++ below) (hroot : above ≠ "/")
    (name : String) :
    functionId above (above ++ "/" ++ below) name = "/" ++ below ++ ":" ++ name := by
  have hstart : Text.startsWith "/" below = false := by
    rw [Path.startsWith_slash, ← Path.intercalate_fields below]
    exact Path.isRooted_intercalate (Path.proper_below hrooted habove hbelow hroot)
  unfold functionId
  rw [Path.relative_below hrooted habove hbelow hroot]
  simp [hstart]

/-- The key that the analysis gives to a function of a file below a folder, if the folder does not
occur again in the path below it. -/
theorem identifier_below (hrooted : Path.isRooted above = true)
    (honce : Text.contains above ("/" ++ below) = false) (name : String) :
    identifier above (above ++ "/" ++ below) name = "/" ++ below ++ ":" ++ name := by
  have hne : above.toList ≠ [] := by
    intro hnil
    simp [Path.isRooted, hnil] at hrooted
  have hpath : above ++ "/" ++ below = above ++ ("/" ++ below) := String.append_assoc
  rw [identifier, Text.remove, Text.swap, hpath, String.toList_append, String.toList_empty,
    Chars.swap_append hne honce, String.ofList_toList]

end

theorem listed_of_mem_functions {src : String} {tree : Node} {ds : List (String × Node)}
    (h : Survey.All (Definitions.ListedIn ds) (Survey.ofTree src tree)) {f : FunctionFound}
    (hf : f ∈ (Survey.ofTree src tree).functions) : ∃ d, (f.name, d) ∈ ds := by
  obtain ⟨finding, hfinding, hfunction⟩ := List.mem_filterMap.1 hf
  cases finding with
  | function g =>
    obtain ⟨d, hd, -⟩ := h _ hfinding
    cases hfunction
    exact ⟨d, hd⟩
  | _ => cases hfunction

/-- **One key for a function**: below a folder in normal form, every key that the analysis gives to
a function of a file is made of the path below the folder and of a name that the search for changed
functions knows, too. For a patch of the file this search answers these keys, for the names whose
rows the patch touches. -/
theorem functions_named_alike {above below src : String} {tree : Node}
    (hrooted : Path.isRooted above = true) (habove : Path.normal above = above)
    (hbelow : Path.normal (above ++ "/" ++ below) = above ++ "/" ++ below)
    (honce : Text.contains above ("/" ++ below) = false) (hshaped : Definitions.Shaped src tree) :
    ∃ defined, Definitions.ofTree src tree = .ok defined ∧
      (∀ key ∈ Table.keys (Analysis.SurveyedFile.functions above
          ⟨above ++ "/" ++ below, src, Survey.ofTree src tree⟩),
        ∃ name ∈ Table.keys defined, key = "/" ++ below ++ ":" ++ name) ∧
      ∀ (source : FileSource) (branch : String) (w : World),
        (readFile source branch (above ++ "/" ++ below)).answer w = .ok src →
        (Run.treeOf src).answer w = .ok tree →
        ∀ patch hunks, ChangedLines.ofPatch patch = .ok hunks →
          (functions source above branch [(below, some patch)]).answer w = .ok
            ((defined.filter fun d => hunks.any fun h => h.touches d.2.first d.2.last).map
              fun d => "/" ++ below ++ ":" ++ d.1) := by
  have hroot := ne_root honce
  obtain ⟨ds, hds, hlisted⟩ := Definitions.findings_listed hshaped
  refine ⟨Definitions.note src [] ds, Definitions.ofTree_eq hds, fun key hkey => ?_,
    fun source branch w hread htree patch hunks hpatch => ?_⟩
  · obtain ⟨g, hg, rfl⟩ := List.mem_map.1 hkey
    obtain ⟨f, hf, hid⟩ := Analysis.mem_functions hg
    obtain ⟨e, he⟩ := listed_of_mem_functions hlisted hf
    refine ⟨f.name, Definitions.mem_keys_note he, ?_⟩
    rw [hid, identifier_below hrooted honce]
  · have hsingle := ChangedLines.ofPatches_single above below hpatch
    rw [Path.join_below hrooted habove hbelow hroot, hbelow] at hsingle
    rw [Run.answer, ends_functions hsingle, List.flatMap_singleton, foundIn,
      answer_functionsOf hread htree hds]
    simp only [touched, functionId_below hrooted habove hbelow hroot]

/-! ## A decorated method in a folder of the project -/

def methodSource : String := "class K:\n    @a\n    def m(): pass\n"

def methodTree : Node :=
  .mk "module" 0 34 [.mk "class_definition" 0 33
    [.mk "class" 0 5 [], .mk "identifier" 6 7 [], .mk "block" 13 33 [.mk "decorated_definition" 13 33
      [.mk "decorator" 13 15 [.mk "@" 13 14 [], .mk "identifier" 14 15 []],
       .mk "function_definition" 20 33 [.mk "def" 20 23 [], .mk "identifier" 24 25 []]]]]]

theorem shaped_method : Definitions.Shaped methodSource methodTree where
  top := rfl
  readable := by
    have hclass : Node.text methodSource (.mk "identifier" 6 7 []) = .ok "K" := rfl
    have hdecorator : Node.text methodSource (.mk "identifier" 14 15 []) = .ok "a" := rfl
    have hmethod : Node.text methodSource (.mk "identifier" 24 25 []) = .ok "m" := rfl
    simp [methodTree, Node.preorder, Node.preorderAll, Node.kind, hclass, hdecorator, hmethod]
  named := by
    simp [methodTree, Node.preorder, Node.preorderAll, Node.kind, Node.children,
      Definitions.identifier?]
  decorated := by
    simp [methodTree, Node.preorder, Node.preorderAll, Node.kind, Node.children,
      Definitions.identifier?]

def nestedFile : World :=
  { World.vacant with
    files := .named [("/srv/demo/pkg/m.py", methodSource.toUTF8)] ["/srv/demo/pkg"]
    trees := [(methodSource, methodTree)] }

/-- The method goes by one key in the analysis and in the answer to a patch of its row. -/
theorem method_named_alike :
    (∀ key ∈ Table.keys (Analysis.SurveyedFile.functions "/srv/demo"
        ⟨"/srv/demo/pkg/m.py", methodSource, Survey.ofTree methodSource methodTree⟩),
      key = "/pkg/m.py:K.m") ∧
    "/pkg/m.py:K.m" ∈ Table.keys (Analysis.SurveyedFile.functions "/srv/demo"
        ⟨"/srv/demo/pkg/m.py", methodSource, Survey.ofTree methodSource methodTree⟩) ∧
    (functions .disk "/srv/demo" "main" [("pkg/m.py", some "@@ -3 +3 @@")]).answer nestedFile =
      .ok ["/pkg/m.py:K.m"] := by
  have hpatch : ChangedLines.ofPatch "@@ -3 +3 @@" = .ok [⟨3, 1⟩] :=
    Run.eq_ok_of_toOption (by decide +kernel)
  have hread : (readFile .disk "main" "/srv/demo/pkg/m.py").answer nestedFile = .ok methodSource :=
    Run.eq_ok_of_toOption (by decide +kernel)
  have hrows : Definitions.ofTree methodSource methodTree = .ok [("K.m", ⟨3, 3⟩)] :=
    Run.eq_ok_of_toOption (by decide +kernel)
  obtain ⟨defined, hdefined, hkeys, hanswer⟩ := @functions_named_alike "/srv/demo" "pkg/m.py" _ _
    rfl (by decide +kernel) (by decide +kernel) (by decide +kernel) shaped_method
  obtain rfl : [("K.m", ⟨3, 3⟩)] = defined := Except.ok.inj (hrows.symm.trans hdefined)
  refine ⟨fun key hkey => ?_, by decide +kernel,
    hanswer .disk "main" nestedFile hread rfl _ _ hpatch⟩
  obtain ⟨name, hname, hkey⟩ := hkeys key hkey
  obtain rfl := List.mem_singleton.1 hname
  exact hkey

end Change
end CodeAtlas
