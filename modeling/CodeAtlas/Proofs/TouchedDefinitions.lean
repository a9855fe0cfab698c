import CodeAtlas.Proofs.ChangedFunctions

/-!
# Definitions that hunks touch

The walk that collects definitions carries the class around it and a table, in which a later
definition takes the place of an earlier one of its name. What it finds can be said of the nodes
alone, each with those around it.

* `Node.placed`: the nodes of a tree in pre-order, with those around them;
* `Definitions.defined?`: the definitions among them with their names, unless a name cannot be read;
* `Definitions.toOption_listed`: the walk passes these definitions;
* `Table.keys_ofPairs`, `Table.get?_ofPairs`: a table keeps the order of first occurrences and the
  last values;
* `Change.foundIn_eq`: what is found in one changed file;
* `Change.functions_by_definition`: what is found for patches, file by file.
-/
namespace CodeAtlas

/-! ## Nodes with those around them -/

namespace Node

/-- A node with the nodes around it, the nearest first. -/
structure Placed where
  node : Node
  around : List Node

mutual

def placed (around : List Node) : Node → List Placed
  | mk k a b cs => ⟨mk k a b cs, around⟩ :: placedAll (mk k a b cs :: around) cs

def placedAll (around : List Node) : List Node → List Placed
  | [] => []
  | n :: ns => placed around n ++ placedAll around ns

end

mutual

theorem suffix_of_mem_placed {around : List Node} {x : Placed} : ∀ {n : Node},
    x ∈ n.placed around → around <:+ x.around
  | mk k a b cs, h => by
    rcases List.mem_cons.1 h with rfl | h
    · exact List.suffix_refl _
    · exact (List.suffix_cons _ _).trans (suffix_of_mem_placedAll h)

theorem suffix_of_mem_placedAll {around : List Node} {x : Placed} : ∀ {ns : List Node},
    x ∈ placedAll around ns → around <:+ x.around
  | n :: ns, h => by
    rw [placedAll, List.mem_append] at h
    exact h.elim suffix_of_mem_placed suffix_of_mem_placedAll

end

end Node

/-! ## The definitions of a tree -/

namespace Definitions
open Node

def hides (n : Node) : Bool :=
  n.kind == "function_definition" ||
    n.kind == "class_definition" && (identifier? n.children).isNone

/-- The name of a definition, if it has one that can be read. -/
def name? (src : String) (n : Node) : Option String :=
  (identifier? n.children).bind fun c => (c.text src).toOption

def owner? (src : String) (around : List Node) : Option String :=
  (around.find? fun n => n.kind == "class_definition").bind (name? src)

def definition? (src : String) (x : Placed) : Option (String × Node) :=
  if x.node.kind == "function_definition" && !x.around.any hides then
    (name? src x.node).map fun name => (qualified (owner? src x.around) name, x.node)
  else none

def illegible (src : String) (x : Placed) : Bool :=
  (x.node.kind == "function_definition" || x.node.kind == "class_definition") &&
    !x.around.any hides && (identifier? x.node.children).isSome && (name? src x.node).isNone

/-- The functions that nodes define, in their order, unless a name cannot be read. -/
def defined? (src : String) (xs : List Placed) : Option (List (String × Node)) :=
  if xs.any (illegible src) then none else some (xs.filterMap (definition? src))

section
variable {src : String}

theorem defined?_append (xs ys : List Placed) : defined? src (xs ++ ys) =
    (defined? src xs).bind fun ds => (defined? src ys).map fun es => ds ++ es := by
  unfold defined?
  rw [List.any_append, List.filterMap_append]
  cases xs.any (illegible src) <;> cases ys.any (illegible src) <;> rfl

theorem defined?_hidden {xs : List Placed} (h : ∀ x ∈ xs, x.around.any hides = true) :
    defined? src xs = some [] := by
  have hlegible : xs.any (illegible src) = false :=
    List.any_eq_false.2 fun x hx => by simp [illegible, h x hx]
  have hnone : xs.filterMap (definition? src) = [] :=
    List.filterMap_eq_nil_iff.2 fun x hx => by simp [definition?, h x hx]
  rw [defined?, hlegible, hnone]
  rfl

theorem defined?_below {around ns : List Node} {n : Node} (h : hides n = true) :
    defined? src (placedAll (n :: around) ns) = some [] := by
  refine defined?_hidden fun x hx => List.any_eq_true.2 ⟨n, ?_, h⟩
  exact (suffix_of_mem_placedAll hx).subset List.mem_cons_self

section
variable {around : List Node} {n : Node} (hopen : around.any hides = false)
include hopen

theorem defined?_function (hkind : n.kind = "function_definition") :
    defined? src [⟨n, around⟩] = match identifier? n.children with
      | none => some []
      | some c => (c.text src).toOption.map fun name => [(qualified (owner? src around) name, n)] := by
  cases hc : identifier? n.children with
  | none => simp [defined?, illegible, definition?, name?, hc]
  | some c => cases hname : c.text src <;>
      simp [defined?, illegible, definition?, name?, hkind, hopen, hc, hname, Except.toOption]

theorem defined?_class (hkind : n.kind = "class_definition") :
    defined? src [⟨n, around⟩] = match identifier? n.children with
      | none => some []
      | some c => (c.text src).toOption.map fun _ => [] := by
  cases hc : identifier? n.children with
  | none => simp [defined?, illegible, definition?, hkind, hc]
  | some c => cases hname : c.text src <;>
      simp [defined?, illegible, definition?, name?, hkind, hopen, hc, hname, Except.toOption]

end

theorem defined?_other {around : List Node} {n : Node} (hfunction : n.kind ≠ "function_definition")
    (hclass : n.kind ≠ "class_definition") : defined? src [⟨n, around⟩] = some [] := by
  simp [defined?, illegible, definition?, hfunction, hclass]

mutual

/-- The walk passes the definitions of a tree. -/
theorem listed_eq {owner : Option String} : ∀ {around : List Node} (n : Node),
    around.any hides = false → owner? src around = owner →
      (listed src owner n).toOption = defined? src (n.placed around)
  | around, .mk kind a b children, hopen, howner => by
    unfold listed placed
    rw [← List.singleton_append, defined?_append]
    generalize hn : Node.mk kind a b children = n
    have hkind : n.kind = kind := hn ▸ rfl
    have hchildren : n.children = children := hn ▸ rfl
    split
    · next h =>
      -- nothing inside a function counts
      have hfunction : n.kind = "function_definition" := hkind.trans (beq_iff_eq.1 h)
      rw [defined?_below (by simp [hides, hfunction]), defined?_function hopen hfunction, hchildren,
        howner]
      cases identifier? children with
      | none => rfl
      | some c =>
        simp only
        cases c.text src <;> rfl
    · next h =>
      rw [beq_iff_eq, ← hkind] at h
      split
      · next hc =>
        have hclass : n.kind = "class_definition" := hkind.trans (beq_iff_eq.1 hc)
        rw [defined?_class hopen hclass, hchildren]
        cases hid : identifier? children with
        | none => rw [defined?_below (by simp [hides, hclass, hchildren, hid])]; rfl
        | some c =>
          simp only
          cases hname : c.text src with
          | error _ => rfl
          | ok name =>
            have hinside : (n :: around).any hides = false := by
              simp [hides, hclass, hchildren, hid, hopen]
            have hnearest : owner? src (n :: around) = some name := by
              simp [owner?, name?, hclass, hchildren, hid, hname, Except.toOption]
            refine (listedAll_eq children hinside hnearest).trans ?_
            cases defined? src (placedAll (n :: around) children) <;> rfl
      · next hc =>
        rw [beq_iff_eq, ← hkind] at hc
        have hinside : (n :: around).any hides = false := by simp [hides, h, hc, hopen]
        have hnearest : owner? src (n :: around) = owner := by
          simpa [owner?, hc] using howner
        rw [defined?_other h hc, listedAll_eq children hinside hnearest]
        cases defined? src (placedAll (n :: around) children) <;> rfl

theorem listedAll_eq {owner : Option String} : ∀ {around : List Node} (ns : List Node),
    around.any hides = false → owner? src around = owner →
      (listedAll src owner ns).toOption = defined? src (placedAll around ns)
  | around, [], hopen, howner => rfl
  | around, n :: ns, hopen, howner => by
    unfold listedAll placedAll
    rw [defined?_append, ← listed_eq n hopen howner, ← listedAll_eq ns hopen howner]
    cases listed src owner n with
    | error _ => rfl
    | ok ds => cases listedAll src owner ns <;> rfl

end

/-- The walk over a whole tree. -/
theorem toOption_listed (src : String) (root : Node) :
    (listed src none root).toOption = defined? src (root.placed []) := listed_eq root rfl rfl

end
end Definitions

/-! ## Tables made of pairs -/

namespace Table

variable {κ α : Type} [DecidableEq κ]

theorem ofPairs_concat (ps : List (κ × α)) (p : κ × α) :
    ofPairs (ps ++ [p]) = (ofPairs ps).set p.1 p.2 := by
  simp [ofPairs, setAll, List.foldl_append]

/-- The keys stand in the order of their first occurrences. -/
theorem keys_ofPairs (ps : List (κ × α)) : (ofPairs ps).keys = (ps.map Prod.fst).eraseDups := by
  induction ps using List.reverseRecOn with
  | nil => rfl
  | append_singleton ps p ih =>
    rw [ofPairs_concat, List.map_append, List.eraseDups_append, ← ih]
    by_cases hp : p.1 ∈ ps.map Prod.fst
    · have hkeys : p.1 ∈ (ofPairs ps).keys := by rwa [ih, List.mem_eraseDups]
      rw [keys_set_of_mem p.2 hkeys]
      simp [List.removeAll, hp]
    · have hkeys : p.1 ∉ (ofPairs ps).keys := by rwa [ih, List.mem_eraseDups]
      rw [keys_set_of_not_mem p.2 hkeys]
      simp [List.removeAll, hp, List.eraseDups_cons]

/-- A key reads as what it has last. -/
theorem get?_ofPairs (ps : List (κ × α)) (x : κ) :
    (ofPairs ps).get? x = ((ps.filter fun p => p.1 = x).getLast?).map Prod.snd := by
  induction ps using List.reverseRecOn with
  | nil => rfl
  | append_singleton ps p ih =>
    rw [ofPairs_concat, get?_set, ih, List.filter_append]
    by_cases hp : p.1 = x <;> simp [hp]

theorem map_filter {β : Type} {t : Table κ α} (hn : t.keys.Nodup) (q : α → Bool) (f : κ → β) :
    (t.filter fun p => q p.2).map (fun p => f p.1) =
      (t.keys.filter fun k => (t.get? k).any q).map f := by
  rw [keys, List.filter_map, List.map_map]
  have hread : t.filter (fun p => q p.2) = t.filter fun p => (t.get? p.1).any q :=
    List.filter_congr fun p hp => by rw [(get?_eq_some_iff hn).2 hp, Option.any_some]
  rw [hread]
  rfl

end Table

/-! ## Changed files -/

/-- The hunks of a patch whose headers can be read. -/
def ChangedLines.hunksOf (patch : String) : List Hunk := (ofPatch patch).toOption.getD []

/-- Patches of different files, in their order. -/
theorem ChangedLines.ofPatches_of_nodup {root : String} {patches : List (String × String)}
    (hwell : ∀ e ∈ patches, (ofPatch e.2).isOk)
    (hdistinct : (patches.map fun e => Path.normal (Path.join root e.1)).Nodup) :
    ofPatches root (patches.map fun e => (e.1, some e.2)) =
      .ok (patches.map fun e => (Path.normal (Path.join root e.1), hunksOf e.2)) := by
  have hfold : ∀ changed : ChangedLines,
      (patches.map fun e => (e.1, some e.2)).foldlM (add root) changed = .ok (changed.setAll
        (patches.map fun e => (Path.normal (Path.join root e.1), hunksOf e.2))) := by
    clear hdistinct
    induction patches with
    | nil => exact fun _ => rfl
    | cons e patches ih =>
      intro changed
      rw [List.forall_mem_cons] at hwell
      cases hpatch : ofPatch e.2 with
      | error f => rw [hpatch] at hwell; cases hwell.1
      | ok hunks =>
        have hadd : add root changed (e.1, some e.2) =
            .ok (changed.set (Path.normal (Path.join root e.1)) hunks) := by
          simp only [add, hpatch]; rfl
        have hhunks : hunksOf e.2 = hunks := by rw [hunksOf, hpatch]; rfl
        rw [List.map_cons, List.foldlM_cons, hadd, List.map_cons, hhunks]
        exact ih hwell.2 _
  rw [ofPatches, hfold [], ← Table.ofPairs, Table.ofPairs_of_nodup]
  simpa [Function.comp_def] using hdistinct

namespace Change
open Definitions

variable {source : FileSource} {root branch path : String} {w : World}

/-- The text of a file and the functions that its tree defines, if these can be read. -/
def definedIn? (source : FileSource) (branch : String) (w : World) (path : String) :
    Option (String × List (String × Node)) := do
  let src ← ((readFile source branch path).answer w).toOption
  let ds ← defined? src (((Table.get? w.trees src).getD (Node.whole src)).placed [])
  return (src, ds)

def lastNamed (ds : List (String × Node)) (name : String) : Option Node :=
  ((ds.filter fun d => d.1 = name).getLast?).map Prod.snd

def meets (src : String) (hunks : List Hunk) (d : Node) : Bool :=
  (hunks.flatMap Hunk.lines).any fun l => (d.firstRow src : Int) + 1 ≤ l ∧ l ≤ d.lastRow src + 1

/-- What a changed file contributes: each name, in the order of first occurrences, whose last
definition meets the hunks. -/
def contribution (source : FileSource) (root branch : String) (w : World)
    (entry : String × List Hunk) : List String :=
  match definedIn? source branch w entry.1 with
  | some (src, ds) =>
    ((ds.map Prod.fst).eraseDups.filter fun name => (lastNamed ds name).any (meets src entry.2)).map
      fun name => "/" ++ Path.relative entry.1 root ++ ":" ++ name
  | none => []

theorem functionId_relative (root path name : String) :
    functionId root path name = "/" ++ Path.relative path root ++ ":" ++ name := by
  unfold functionId
  simp [Path.startsWith_slash, Path.isRooted_relative]

theorem meets_eq (src : String) (hunks : List Hunk) (d : Node) : meets src hunks d =
    hunks.any fun h => h.touches (rows src d).first (rows src d).last := by
  rw [Bool.eq_iff_iff]
  simp [meets, rows, Hunk.touches_iff]

theorem touched_note (src : String) (ds : List (String × Node)) (hunks : List Hunk) :
    touched root path hunks (note src [] ds) =
      ((ds.map Prod.fst).eraseDups.filter fun name => (lastNamed ds name).any (meets src hunks)).map
        fun name => "/" ++ Path.relative path root ++ ":" ++ name := by
  have hnote : note src [] ds = Table.ofPairs (ds.map fun d => (d.1, rows src d.2)) := rfl
  have hkeys : (note src [] ds).keys = (ds.map Prod.fst).eraseDups := by
    rw [hnote, Table.keys_ofPairs, List.map_map]; rfl
  have hmeets (name : String) : (Table.get? (note src [] ds) name).any
      (fun r => hunks.any fun h => h.touches r.first r.last) =
        (lastNamed ds name).any (meets src hunks) := by
    rw [get?_note, Table.get?_ofPairs, lastNamed, Option.any_map, funext (meets_eq src hunks)]
  have hnodup : (note src [] ds).keys.Nodup := Table.nodup_setAll _ List.nodup_nil
  refine (Table.map_filter hnodup (fun r => hunks.any fun h => h.touches r.first r.last)
    (functionId root path)).trans ?_
  simp only [hkeys, hmeets, funext (functionId_relative root path)]

theorem toOption_functionsOf : ((functionsOf source branch path).answer w).toOption =
    (definedIn? source branch w path).map fun d => note d.1 [] d.2 := by
  have hkept := keeps_readFile source branch path w
  unfold functionsOf definedIn?
  cases hread : (readFile source branch path).answer w with
  | error f =>
    rw [Run.answer, Run.ends_bind_error _ (Prod.ext hread hkept)]
    rfl
  | ok src =>
    have htree : (Run.treeOf src).ends w =
        (.ok ((Table.get? w.trees src).getD (Node.whole src)), w) := rfl
    rw [Run.answer, Run.ends_bind_ok _ (Prod.ext hread hkept), Run.ends_bind_ok _ htree, ofTree,
      collect_eq]
    change _ = ((defined? src _).bind fun ds => some (src, ds)).map _
    rw [← toOption_listed]
    cases listed src none _ <;> rfl

/-- What is found in a changed file. -/
theorem foundIn_eq (entry : String × List Hunk) :
    foundIn source root branch w entry = contribution source root branch w entry := by
  have hfunctions : ((functionsOf source branch entry.1).answer w).toOption = _ :=
    toOption_functionsOf
  unfold foundIn contribution
  cases hdefined : definedIn? source branch w entry.1 with
  | none =>
    rw [hdefined] at hfunctions
    cases h : (functionsOf source branch entry.1).answer w with
    | error f => rfl
    | ok functions => rw [h] at hfunctions; cases hfunctions
  | some d =>
    rw [hdefined] at hfunctions
    rw [Run.eq_ok_of_toOption hfunctions]
    exact touched_note d.1 d.2 entry.2

/-- What a file contributes is not changed by files that cannot be read, and these contribute
nothing. -/
theorem contribution_of_unread {entry : String × List Hunk}
    (h : definedIn? source branch w entry.1 = none) :
    contribution source root branch w entry = [] := by
  rw [contribution, h]

def entryOf (root : String) (patch : String × String) : String × List Hunk :=
  (Path.normal (Path.join root patch.1), ChangedLines.hunksOf patch.2)

/-- **What patches change**: file by file, the names whose last definition meets the hunks of the
file. A file that cannot be read contributes nothing, and the answer is the same without it. -/
theorem functions_by_definition {patches : List (String × String)}
    (hwell : ∀ e ∈ patches, (ChangedLines.ofPatch e.2).isOk)
    (hdistinct : (patches.map fun e => Path.normal (Path.join root e.1)).Nodup) :
    (functions source root branch (patches.map fun e => (e.1, some e.2))).answer w =
      .ok (patches.flatMap fun e => contribution source root branch w (entryOf root e)) ∧
    ∀ before e after, patches = before ++ e :: after →
      definedIn? source branch w (entryOf root e).1 = none →
        (functions source root branch (patches.map fun e => (e.1, some e.2))).answer w =
          (functions source root branch ((before ++ after).map fun e => (e.1, some e.2))).answer w := by
  have hanswer {patches : List (String × String)}
      (hwell : ∀ e ∈ patches, (ChangedLines.ofPatch e.2).isOk)
      (hdistinct : (patches.map fun e => Path.normal (Path.join root e.1)).Nodup) :
      (functions source root branch (patches.map fun e => (e.1, some e.2))).answer w =
        .ok (patches.flatMap fun e => contribution source root branch w (entryOf root e)) := by
    rw [Run.answer, ends_functions (ChangedLines.ofPatches_of_nodup hwell hdistinct),
      List.flatMap_map]
    simp only [foundIn_eq]
    rfl
  refine ⟨hanswer hwell hdistinct, ?_⟩
  rintro before e after rfl hunread
  have hsub : (before ++ after).Sublist (before ++ e :: after) :=
    (List.sublist_cons_self e after).append_left before
  rw [hanswer hwell hdistinct, hanswer (fun f hf => hwell f (hsub.subset hf))
    ((hsub.map _).nodup hdistinct)]
  simp [contribution_of_unread hunread]

/-- A class that defines a method twice, in the second row and in the third. -/
def repeatedSource : String := "class K:\n    def m(): pass\n    def m(): pass\n"

def repeatedTree : Node :=
  .mk "module" 0 45 [.mk "class_definition" 0 44
    [.mk "class" 0 5 [], .mk "identifier" 6 7 [], .mk "block" 13 44
      [.mk "function_definition" 13 26 [.mk "identifier" 17 18 []],
       .mk "function_definition" 31 44 [.mk "identifier" 35 36 []]]]]

/-- A patch of the third row changes the method, one of the second row does not, and a file that is
not there makes no difference. -/
theorem later_method_changed :
    (functions .disk "/demo" "main"
        [("m.py", some "@@ -3 +3 @@"), ("gone.py", some "@@ -1 +1 @@")]).answer
      (oneFile repeatedSource repeatedTree) = .ok ["/m.py:K.m"] ∧
    (functions .disk "/demo" "main"
        [("m.py", some "@@ -3 +3 @@"), ("gone.py", some "@@ -1 +1 @@")]).answer
      (oneFile repeatedSource repeatedTree) =
    (functions .disk "/demo" "main" [("m.py", some "@@ -3 +3 @@")]).answer
      (oneFile repeatedSource repeatedTree) ∧
    (functions .disk "/demo" "main" [("m.py", some "@@ -2 +2 @@")]).answer
      (oneFile repeatedSource repeatedTree) = .ok [] := by
  obtain ⟨hthird, hgone⟩ := @functions_by_definition .disk "/demo" "main"
    (oneFile repeatedSource repeatedTree) [("m.py", "@@ -3 +3 @@"), ("gone.py", "@@ -1 +1 @@")]
    (by decide +kernel) (by decide +kernel)
  obtain ⟨hsecond, -⟩ := @functions_by_definition .disk "/demo" "main"
    (oneFile repeatedSource repeatedTree) [("m.py", "@@ -2 +2 @@")] (by decide +kernel)
    (by decide +kernel)
  have hunread : (definedIn? .disk "main" (oneFile repeatedSource repeatedTree)
      "/demo/gone.py").isNone = true := by decide +kernel
  refine ⟨hthird.trans (congrArg Except.ok (by decide +kernel)), ?_,
    hsecond.trans (congrArg Except.ok (by decide +kernel))⟩
  exact hgone [("m.py", "@@ -3 +3 @@")] ("gone.py", "@@ -1 +1 @@") [] rfl
    (Option.isNone_iff_eq_none.1 hunread)

end Change
end CodeAtlas
