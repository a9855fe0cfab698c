import CodeAtlas.Proofs.GraphInvariant
import Mathlib.Logic.Relation

/-!
# Calls between the functions of a project

The code graph as a relation. `Graph.Calls` says that one function of a project calls another, and
`Graph.Reaches` that a path of calls of any length leads from one to the other.

* `mem_withCallers`: the answer to a question for callers is the function and what calls it
  directly;
* `length_withCallers_eq_one`: it is the function alone if and only if nothing calls it;
* `Calls.hasNode`: both ends of a call are nodes;
* `sound_ofNames`: a graph that is given by the names of its functions and calls is well formed.
-/
namespace CodeAtlas.Graph

variable {g : Graph} {p : ProjectKey} {x y : String} {n : GraphNode}

def Calls (g : Graph) (p : ProjectKey) (x y : String) : Prop :=
  ∃ e ∈ g.calls, e.is p (.str x) (.str y) = true

/-- A path of calls leads from a function of a project to another; every function reaches itself. -/
def Reaches (g : Graph) (p : ProjectKey) : String → String → Prop :=
  Relation.ReflTransGen (g.Calls p)

def Named (g : Graph) (p : ProjectKey) : Prop :=
  ∀ n ∈ g.nodes, n.project.same p = true → ∃ x, n.id = .str x

theorem Calls.hasNode (hg : g.Sound) (h : g.Calls p x y) :
    g.hasNode p (.str x) = true ∧ g.hasNode p (.str y) = true := by
  obtain ⟨e, he, his⟩ := h
  simp only [CallEdge.is, Bool.and_eq_true, NodeRef.is_iff_same, Json.same_str_iff] at his
  obtain ⟨⟨hp, hsource⟩, -, htarget⟩ := his
  exact hasNodes_iff.1 (hsource ▸ htarget ▸ (hg.callEnds e he).hasNodes hp)

theorem mem_callers (ht : g.Named p) :
    n ∈ g.callers p (.str x) ↔ ∃ y, g.node? p (.str y) = some n ∧ g.Calls p y x := by
  simp only [callers, List.mem_filterMap, Option.ite_none_right_eq_some, Bool.and_eq_true]
  constructor
  · rintro ⟨e, he, ⟨htarget, hp⟩, hn⟩
    rw [nodeAt?_of_same hp] at hn
    obtain ⟨hmem, hk⟩ := node?_eq_some hn
    simp only [GraphNode.key, Prod.mk.injEq] at hk
    -- the edge may give its source as any value of that meaning; for a text there is only one
    obtain ⟨y, hy⟩ := ht n hmem (ProjectKey.same_iff.2 hk.1)
    have hsource : e.source.id = .str y := Json.str_same_iff.1 (Json.same_iff.2 (hy ▸ hk.2))
    rw [hsource] at hn
    exact ⟨y, hn, e, he, by simp [CallEdge.is, NodeRef.is_iff_same, hp, hsource, htarget]⟩
  · rintro ⟨y, hn, e, he, his⟩
    simp only [CallEdge.is, Bool.and_eq_true] at his
    exact ⟨e, he, ⟨his.2, (NodeRef.is_iff_same.1 his.1).1⟩, (nodeAt?_of_is his.1).trans hn⟩

theorem mem_withCallers (ht : g.Named p) : n ∈ g.withCallers p (.str x) ↔
    g.hasNode p (.str x) = true ∧ ∃ y, g.node? p (.str y) = some n ∧ (y = x ∨ g.Calls p y x) := by
  unfold withCallers hasNode
  cases hm : g.node? p (.str x) with
  | none => simp
  | some m =>
    obtain ⟨-, -, hid⟩ := node?_str hm
    simp only [hid, List.mem_cons, mem_callers ht, Option.isSome_some, true_and]
    constructor
    · rintro (rfl | ⟨y, hn, hc⟩)
      · exact ⟨x, hm, Or.inl rfl⟩
      · exact ⟨y, hn, Or.inr hc⟩
    · rintro ⟨y, hn, rfl | hc⟩
      · exact Or.inl (Option.some.inj (hn.symm.trans hm))
      · exact Or.inr ⟨y, hn, hc⟩

theorem callers_eq_nil (hg : g.Sound) (ht : g.Named p) :
    g.callers p (.str x) = [] ↔ ∀ y, ¬ g.Calls p y x := by
  constructor
  · intro h y hc
    obtain ⟨n, hn⟩ := Option.isSome_iff_exists.1 (hc.hasNode hg).1
    have hmem := (mem_callers ht).2 ⟨y, hn, hc⟩
    rw [h] at hmem
    cases hmem
  · intro h
    refine List.eq_nil_iff_forall_not_mem.2 fun n hn => ?_
    obtain ⟨y, -, hc⟩ := (mem_callers ht).1 hn
    exact h y hc

/-- A function is answered alone if and only if it is known and nothing calls it. -/
theorem length_withCallers_eq_one (hg : g.Sound) (ht : g.Named p) :
    (g.withCallers p (.str x)).length = 1 ↔
      g.hasNode p (.str x) = true ∧ ∀ y, ¬ g.Calls p y x := by
  unfold withCallers hasNode
  cases hm : g.node? p (.str x) with
  | none => simp
  | some m =>
    obtain ⟨-, -, hid⟩ := node?_str hm
    simp [hid, callers_eq_nil hg ht]

/-! ## Graphs of names -/

/-- The graph of functions of a project that show nothing but their names, with the given calls. -/
def ofNames (p : ProjectKey) (names : List String) (calls : List (String × String)) : Graph where
  nodes := names.map fun x => freshNode p (.str x)
  calls := calls.map fun c => ⟨⟨p, .str c.1⟩, ⟨p, .str c.2⟩, []⟩
  extensions := []

variable {names : List String} {calls : List (String × String)}

theorem mem_nodes_ofNames : n ∈ (ofNames p names calls).nodes ↔
    ∃ x ∈ names, n = freshNode p (.str x) := by
  simp only [ofNames, List.mem_map, eq_comm]

theorem hasNode_ofNames (h : x ∈ names) : (ofNames p names calls).hasNode p (.str x) = true :=
  hasNode_iff.2 (List.mem_map.2 ⟨_, mem_nodes_ofNames.2 ⟨x, h, rfl⟩, rfl⟩)

/-- Such a graph is well formed if its calls are between its functions. -/
theorem sound_ofNames (hnames : names.Nodup) (hcalls : calls.Nodup)
    (hends : ∀ c ∈ calls, c.1 ∈ names ∧ c.2 ∈ names) : (ofNames p names calls).Sound where
  nodes := by
    rw [ofNames, List.map_map]
    refine hnames.map fun x y h => ?_
    simpa [GraphNode.key, freshNode, Json.canonical] using h
  calls := by
    rw [ofNames, List.map_map]
    refine hcalls.map fun c d h => Prod.ext ?_ ?_
    · simpa [CallEdge.key, NodeRef.key, Json.canonical] using congrArg (fun k => k.1.2) h
    · simpa [CallEdge.key, NodeRef.key, Json.canonical] using congrArg (fun k => k.2.2) h
  extensions := List.nodup_nil
  callEnds e he := by
    obtain ⟨c, hc, rfl⟩ := List.mem_map.1 he
    exact joins_of_hasNodes
      (hasNodes_iff.2 ⟨hasNode_ofNames (hends c hc).1, hasNode_ofNames (hends c hc).2⟩)
  extensionEnds e he := by cases he
  properties n hn := by
    obtain ⟨x, -, rfl⟩ := mem_nodes_ofNames.1 hn
    simp [freshNode, Table.keys]
  ids n hn := by
    obtain ⟨x, -, rfl⟩ := mem_nodes_ofNames.1 hn
    exact (freshNode_shows _ _).1
  projects n hn := by
    obtain ⟨x, -, rfl⟩ := mem_nodes_ofNames.1 hn
    exact (freshNode_shows _ _).2

theorem named_ofNames : (ofNames p names calls).Named p := by
  intro n hn _
  obtain ⟨x, -, rfl⟩ := mem_nodes_ofNames.1 hn
  exact ⟨x, rfl⟩

end CodeAtlas.Graph
