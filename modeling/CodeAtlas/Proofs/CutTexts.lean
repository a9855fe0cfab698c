import CodeAtlas.Proofs.DetectedEntries
import CodeAtlas.Proofs.Spans

/-!
# Texts cut out by bytes

The text of a decorator is cut out of the source at the positions that the byte counts of its span
name among the characters (`Node.Covers.cutOut_eq_iff`).

* `Decorator.inTreeBy`: the detection with the texts of decorators read in some other way;
* `Decorator.detected_by_bytes`: when the texts are those of the nodes, and that the detection is
  then the one that reads the nodes;
* `Decorator.accent_garbles`: an accent in a comment spoils the path of the next entry point.
-/
namespace CodeAtlas

/-! ## The detection -/

namespace Decorator
variable {src directory file : String} {p : ProjectKey} {root : Node}
  {read read' : Node → Except Failure String}

/-- The decorators in a tree that the detection looks at. -/
def decorators (root : Node) : List Node :=
  (root.preorder.filter (·.kind == "decorated_definition")).flatMap fun n =>
    n.children.filter (·.kind == "decorator")

def ofDecoratorBy (read : Node → Except Failure String) (src directory file : String)
    (project : ProjectKey) (definition decorator : Node) : Run (List (String × String)) := do
  ofText src directory file project definition decorator (← read decorator)

/-- The entry points in a tree, with the texts of decorators read by `read`. -/
def inTreeBy (read : Node → Except Failure String) (src directory file : String)
    (project : ProjectKey) (root : Node) : Run (List (String × String)) :=
  Run.gather (fun n =>
    if n.kind == "decorated_definition" then
      Run.gather (ofDecoratorBy read src directory file project n)
        (n.children.filter (·.kind == "decorator"))
    else return []) root.preorder

/-- The detection is the one that cuts the texts out. -/
theorem inTree_eq :
    inTree src directory file p root =
      inTreeBy (fun d => .ok (d.cutOut src)) src directory file p root := rfl

/-- Only the texts of decorators of definitions matter. -/
theorem inTreeBy_congr (h : ∀ d ∈ decorators root, read d = read' d) :
    inTreeBy read src directory file p root = inTreeBy read' src directory file p root := by
  refine Run.gather_congr fun n hn => ?_
  split
  · next hkind =>
    refine Run.gather_congr fun d hd => ?_
    have hmem : d ∈ decorators root :=
      List.mem_flatMap.2 ⟨n, List.mem_filter.2 ⟨hn, hkind⟩, hd⟩
    unfold ofDecoratorBy
    rw [h d hmem]
  · rfl

/-- **Detection by bytes**: the text that is cut out is that of the node for every decorator if and
only if each of these texts stands again as many characters on as there are surplus bytes before it,
and ends the source there if it has surplus bytes itself. The detection is then the one that reads
the nodes. -/
theorem detected_by_bytes
    (hover : ∀ d ∈ decorators root, ∃ before inside after, d.Covers src before inside after) :
    ((∀ d ∈ decorators root, d.text src = .ok (d.cutOut src)) ↔
      ∀ d ∈ decorators root, ∃ before inside after, d.Covers src before inside after ∧
        Node.Recurs before inside after) ∧
    ((∀ d ∈ decorators root, d.text src = .ok (d.cutOut src)) →
      inTree src directory file p root = inTreeBy (Node.text src) src directory file p root) := by
  refine ⟨forall₂_congr fun d hd => ?_, fun h => ?_⟩
  · constructor
    · intro htext
      obtain ⟨before, inside, after, hcovers⟩ := hover d hd
      have hcut : d.cutOut src = inside := by
        rw [hcovers.text] at htext
        exact (Except.ok.inj htext).symm
      exact ⟨before, inside, after, hcovers, hcovers.cutOut_eq_iff.1 hcut⟩
    · rintro ⟨before, inside, after, hcovers, hrecurs⟩
      rw [hcovers.text, hcovers.cutOut_eq_iff.2 hrecurs]
  · rw [inTree_eq]
    exact inTreeBy_congr fun d hd => (h d hd).symm

/-! ## Two small files -/

/-- A source with an accent after its decorator. -/
def lateSource : String := "@app.get('/x')\ndef f(): return 'é'\n"

def lateTree : Node :=
  .mk "module" 0 37 [.mk "decorated_definition" 0 36 [
    .mk "decorator" 0 14 [.mk "call" 1 14 []],
    .mk "function_definition" 15 36 [.mk "identifier" 19 20 []]]]

theorem late_accent_detected :
    (∀ d ∈ decorators lateTree, d.Covers lateSource "" "@app.get('/x')" "\ndef f(): return 'é'\n") ∧
    inTree lateSource "/p" "/p/m.py" (.number 1) lateTree =
      inTreeBy (Node.text lateSource) lateSource "/p" "/p/m.py" (.number 1) lateTree := by
  have hcovers : ∀ d ∈ decorators lateTree,
      d.Covers lateSource "" "@app.get('/x')" "\ndef f(): return 'é'\n" := by
    intro d hd
    obtain rfl : d = .mk "decorator" 0 14 [.mk "call" 1 14 []] := by
      simpa [decorators, lateTree, Node.preorder, Node.preorderAll, Node.kind, Node.children]
        using hd
    exact ⟨by decide, by decide, by decide⟩
  have hover : ∀ d ∈ decorators lateTree, ∃ before inside after,
      d.Covers lateSource before inside after := fun d hd => ⟨_, _, _, hcovers d hd⟩
  have hrecurs : Node.Recurs "" "@app.get('/x')" "\ndef f(): return 'é'\n" :=
    Node.recurs_of_ascii (by decide) (by decide) _
  obtain ⟨hiff, hsame⟩ := detected_by_bytes hover
  exact ⟨hcovers, hsame (hiff.2 fun d hd => ⟨_, _, _, hcovers d hd, hrecurs⟩)⟩

def accentSource : String := "# é\n@app.get('/x')\ndef f(): pass\n"

def accentTree : Node :=
  .mk "module" 0 34 [.mk "comment" 0 4 [], .mk "decorated_definition" 5 33 [
    .mk "decorator" 5 19 [.mk "call" 6 19 []],
    .mk "function_definition" 20 33 [.mk "identifier" 24 25 []]]]

/-- The cut is one character late: it loses the sign of the decorator and takes the line end, so that
the closing parenthesis is taken for a part of the path. -/
theorem accent_garbles :
    (Node.mk "decorator" 5 19 [.mk "call" 6 19 []]).Covers accentSource "# é\n" "@app.get('/x')"
      "\ndef f(): pass\n" ∧
    (inTree accentSource "/p" "/p/m.py" (.number 1) accentTree).answer
      (World.oneSource accentSource accentTree) = .ok [("GET '/x')", "/m.py:f")] ∧
    (inTreeBy (Node.text accentSource) accentSource "/p" "/p/m.py" (.number 1) accentTree).answer
      (World.oneSource accentSource accentTree) = .ok [("GET /x", "/m.py:f")] :=
  ⟨⟨by decide, by decide, by decide⟩, Run.eq_ok_of_toOption (by decide +kernel),
    Run.eq_ok_of_toOption (by decide +kernel)⟩

end Decorator
end CodeAtlas
