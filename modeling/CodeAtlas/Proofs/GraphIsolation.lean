import CodeAtlas.Flow.Basic
import CodeAtlas.Proofs.Trails

/-!
# Projects do not see each other

`Graph.only g p` is the part of a graph that belongs to a project: its nodes, and the edges between them.
The questions for calls do not ask for the project of what they come to, so an edge that led out of a
project would let it be seen from there. `Graph.Confined` says that there is none.

* `GraphCommand.only_effect`: a command of the project does to its part what it does to a graph, and
  any other leaves it as it is;
* `GraphCommand.only_effects`: so the part is what the project's own commands make of it;
* `Graph.only_callees`, `Graph.only_callers`, `Graph.only_withTrailEnds`: in a confined graph the
  questions about a project are answered from its part;
* `AlikeOn.respects_functions`, `AlikeOn.respects_unfold`: so the answers for a project depend on nothing
  else, whatever requests fail;
* `GraphCommand.session_isolated`: what projects see does not depend on the commands of others.
-/
namespace CodeAtlas

theorem filter_map_of_keeps {α : Type} {q : α → Bool} {f : α → α} (hf : ∀ a, q (f a) = q a)
    (l : List α) : (l.map f).filter q = (l.filter q).map f := by
  rw [List.filter_map]
  congr 2
  exact funext hf

theorem filter_map_of_fixes {α : Type} {q : α → Bool} {f : α → α} (hf : ∀ a, q (f a) = q a)
    (hq : ∀ a, q a = true → f a = a) (l : List α) : (l.map f).filter q = l.filter q := by
  rw [filter_map_of_keeps hf]
  refine (List.map_congr_left fun a ha => hq a (List.mem_filter.1 ha).2).trans (List.map_id' _)

/-- A filter that what is looked for passes anyway. -/
theorem any_filter_of_imp {α : Type} {q r : α → Bool} (h : ∀ a, r a = true → q a = true)
    (l : List α) : (l.filter q).any r = l.any r := by
  rw [List.any_filter]
  congr 1
  funext a
  cases hr : r a with
  | false => simp
  | true => simp [h a hr]

namespace ProjectKey

theorem same_congr_right {p q : ProjectKey} (h : q.same p = true) (k : ProjectKey) :
    k.same q = k.same p := by
  rw [Bool.eq_iff_iff, same_iff, same_iff, same_iff.1 h]

theorem same_apart {p q k : ProjectKey} (h : q.same p = false) (hk : k.same p = true) :
    k.same q = false := by
  rw [← Bool.not_eq_true]
  intro hq
  rw [same_trans (same_comm q k ▸ hq) hk] at h
  cases h

end ProjectKey

/-- Ends that are known by a project are of every project that means the same. -/
theorem NodeRef.same_of_is {r s : NodeRef} {p q : ProjectKey} {a b : Json} (h : q.same p = true)
    (hrs : (r.is q a && s.is q b) = true) : (r.project.same p && s.project.same p) = true := by
  simp only [is, Bool.and_eq_true] at hrs ⊢
  exact ⟨ProjectKey.same_trans hrs.1.1 h, ProjectKey.same_trans hrs.2.1 h⟩

namespace Graph

def only (g : Graph) (p : ProjectKey) : Graph where
  nodes := g.nodes.filter (·.project.same p)
  calls := g.calls.filter fun e => e.source.project.same p && e.target.project.same p
  extensions := g.extensions.filter fun e => e.derived.project.same p && e.base.project.same p

/-- No call leads from one project to another. -/
def Confined (g : Graph) : Prop :=
  ∀ e ∈ g.calls, e.source.project.same e.target.project = true

theorem Sound.confined {g : Graph} (hg : g.Sound) : g.Confined := fun e he =>
  (hg.callEnds e he).project

variable {g : Graph} {p q : ProjectKey}

/-- Both ends of a call are of a project if one of them is. -/
theorem Confined.ends (hg : g.Confined) {e : CallEdge} (he : e ∈ g.calls)
    (h : e.source.project.same p = true ∨ e.target.project.same p = true) :
    e.source.project.same p = true ∧ e.target.project.same p = true := by
  have hsame := ProjectKey.same_iff.1 (hg e he)
  rw [ProjectKey.same_iff, ProjectKey.same_iff, hsame, or_self] at h
  rw [ProjectKey.same_iff, ProjectKey.same_iff, hsame]
  exact ⟨h, h⟩

/-! ## Reading the part of a project -/

theorem only_node? (h : q.same p = true) (id : Json) : (g.only p).node? q id = g.node? q id := by
  unfold node? only
  rw [List.find?_filter]
  congr 1
  funext n
  rw [← ProjectKey.same_congr_right h]
  cases hn : n.project.same q <;> simp [GraphNode.is, hn]

theorem only_hasNodes (h : q.same p = true) (a b : Json) :
    (g.only p).hasNodes q a b = g.hasNodes q a b := by
  simp only [hasNodes, hasNode, only_node? h]

theorem only_nodeAt? {r : NodeRef} (h : r.project.same p = true) :
    (g.only p).nodeAt? r = g.nodeAt? r := only_node? h r.id

theorem only_callees (hg : g.Confined) (id : Json) :
    (g.only p).callees p id = g.callees p id := by
  unfold callees
  rw [only, List.filterMap_filter]
  refine List.filterMap_congr fun e he => ?_
  by_cases hsource : e.source.is p id = true
  · obtain ⟨hs, ht⟩ := hg.ends he (.inl (NodeRef.is_iff_same.1 hsource).1)
    rw [if_pos (by rw [hs, ht]; rfl), if_pos hsource, if_pos hsource]
    exact only_nodeAt? ht
  · rw [if_neg hsource, if_neg hsource, ite_self]

theorem only_callers (id : Json) : (g.only p).callers p id = g.callers p id := by
  unfold callers
  rw [only, List.filterMap_filter]
  refine List.filterMap_congr fun e he => ?_
  by_cases hends : (e.target.is p id && e.source.project.same p) = true
  · obtain ⟨htarget, hs⟩ := Bool.and_eq_true_iff.1 hends
    rw [if_pos (by rw [hs, (NodeRef.is_iff_same.1 htarget).1]; rfl), if_pos hends, if_pos hends]
    exact only_nodeAt? hs
  · rw [if_neg hends, if_neg hends, ite_self]

theorem only_withCallers (id : Json) : (g.only p).withCallers p id = g.withCallers p id := by
  simp only [withCallers, only_node? p.same_self, only_callers]

/-- A call that is followed from a node of a project is the project's, and so is where it leads. -/
theorem Confined.follow (hg : g.Confined) {d : Direction} {e : CallEdge} (he : e ∈ g.calls)
    {x y : NodeRef} (hx : x.project.same p = true) (h : d.follow e x = some y) :
    (e.source.project.same p && e.target.project.same p) = true ∧ y.project.same p = true := by
  have hsame {r : NodeRef} (hr : r.same x = true) : r.project.same p = true :=
    ProjectKey.same_trans (NodeRef.is_iff_same.1 hr).1 hx
  have hends : e.source.project.same p = true ∨ e.target.project.same p = true := by
    unfold Direction.follow at h
    grind
  obtain ⟨hs, ht⟩ := hg.ends he hends
  refine ⟨by rw [hs, ht]; rfl, ?_⟩
  unfold Direction.follow at h
  grind

theorem only_trailEnds (hg : g.Confined) (d : Direction) (id : Json) :
    (g.only p).trailEnds d p id = g.trailEnds d p id := by
  have hlength : (g.only p).calls.length ≤ g.calls.length := List.length_filter_le _ _
  have htrails : trailsOver d (g.only p).calls.length (g.only p).calls ⟨p, id⟩ =
      trailsOver d g.calls.length g.calls ⟨p, id⟩ :=
    (trailsOver_fuel (Nat.le_refl _) hlength).trans (trailsOver_filter
      (K := fun r => r.project.same p = true) (fun e he _ _ hx h => hg.follow he hx h) p.same_self)
  unfold trailEnds
  rw [htrails]
  refine List.filterMap_congr fun r _ => ?_
  split
  · next hr => exact only_nodeAt? hr
  · rfl

theorem only_withTrailEnds (hg : g.Confined) (d : Direction) (id : Json) :
    (g.only p).withTrailEnds d p id = g.withTrailEnds d p id := by
  simp only [withTrailEnds, only_node? p.same_self, only_trailEnds hg]

/-! ## Changing the part of a project -/

theorem only_upsert (id : Json) (ps : List (String × Json)) : (g.upsert q id ps).only p =
    if q.same p then (g.only p).upsert q id ps else g.only p := by
  unfold upsert hasNode
  cases h : q.same p with
  | true =>
    rw [if_pos rfl, only_node? h]
    split
    · simp only [only, Graph.mk.injEq, and_self, and_true]
      exact filter_map_of_keeps (fun n => by split <;> rfl) g.nodes
    · simp [only, freshNode, h]
  | false =>
    rw [if_neg Bool.false_ne_true]
    split
    · simp only [only, Graph.mk.injEq, and_self, and_true]
      refine filter_map_of_fixes (fun n => by split <;> rfl) (fun n hn => ?_) g.nodes
      simp [GraphNode.is, ProjectKey.same_apart h hn]
    · simp [only, freshNode, h]

theorem only_connect (a b : Json) (ps : List (String × Json)) : (g.connect q a b ps).only p =
    if q.same p then (g.only p).connect q a b ps else g.only p := by
  unfold connect
  cases h : q.same p with
  | true =>
    have hany : (g.only p).calls.any (·.is q a b) = g.calls.any (·.is q a b) :=
      any_filter_of_imp (fun _ he => NodeRef.same_of_is h he) g.calls
    rw [if_pos rfl, only_hasNodes h, hany]
    split
    · split
      · simp only [only, Graph.mk.injEq, and_true, true_and]
        exact filter_map_of_keeps (fun e => by split <;> rfl) g.calls
      · simp [only, h]
    · rfl
  | false =>
    rw [if_neg Bool.false_ne_true]
    split
    · split
      · simp only [only, Graph.mk.injEq, and_true, true_and]
        refine filter_map_of_fixes (fun e => by split <;> rfl) (fun e he => ?_) g.calls
        simp only [Bool.and_eq_true] at he
        simp [CallEdge.is, NodeRef.is, ProjectKey.same_apart h he.1]
      · simp [only, h]
    · rfl

theorem only_extend (a b : Json) : (g.extend q a b).only p =
    if q.same p then (g.only p).extend q a b else g.only p := by
  unfold extend
  cases h : q.same p with
  | true =>
    have hany : (g.only p).extensions.any (·.is q a b) = g.extensions.any (·.is q a b) :=
      any_filter_of_imp (fun _ he => NodeRef.same_of_is h he) g.extensions
    rw [if_pos rfl, only_hasNodes h, hany]
    split
    · simp [only, h]
    · rfl
  | false =>
    rw [if_neg Bool.false_ne_true]
    split
    · simp [only, h]
    · rfl

theorem only_deleteProject : (g.deleteProject q).only p =
    if q.same p then (g.only p).deleteProject q else g.only p := by
  cases h : q.same p with
  | true => simp only [deleteProject, only, List.filter_filter, Bool.and_comm, if_true]
  | false =>
    have hkeep (k : ProjectKey) : (k.same p && !k.same q) = k.same p := by
      cases hk : k.same p with
      | false => rfl
      | true => simp [ProjectKey.same_apart h hk]
    have hkeeps (k l : ProjectKey) :
        (k.same p && l.same p && (!k.same q && !l.same q)) = (k.same p && l.same p) := by
      calc _ = ((k.same p && !k.same q) && (l.same p && !l.same q)) := by ac_rfl
        _ = (k.same p && l.same p) := by rw [hkeep, hkeep]
    simp [deleteProject, only, List.filter_filter, hkeep, hkeeps]

end Graph

/-! ## Commands of a project and of others -/

namespace GraphCommand

variable {c : GraphCommand} {p : ProjectKey}

theorem only_effect (c : GraphCommand) (p : ProjectKey) (g : Graph) : (c.effect g).only p =
    if c.project.same p then c.effect (g.only p) else g.only p := by
  cases c with
  | upsert id q ps =>
    simp only [effect]
    split
    · exact Graph.only_upsert id _
    · exact (ite_self _).symm
  | connect a b q properties =>
    simp only [effect]
    split
    · exact Graph.only_connect a b _
    · exact (ite_self _).symm
  | extend base derived q =>
    simp only [effect]
    split
    · exact Graph.only_extend derived base
    · exact (ite_self _).symm
  | delete q => exact Graph.only_deleteProject

theorem only_effects (cs : List GraphCommand) (p : ProjectKey) (g : Graph) :
    (effects cs g).only p = effects (cs.filter (·.project.same p)) (g.only p) := by
  induction cs generalizing g with
  | nil => rfl
  | cons c cs ih =>
    refine (ih _).trans ?_
    rw [only_effect, List.filter_cons]
    split <;> rfl

end GraphCommand

/-! ## What a project sees -/

/-- Two worlds in which a project has one part of the graph, no call leaves its project, and the service
meets the same. -/
structure AlikeOn (p : ProjectKey) (w v : World) : Prop where
  only : w.graph.only p = v.graph.only p
  first : w.graph.Confined
  second : v.graph.Confined
  troubles : w.troubles = v.troubles

/-- Two worlds give the same answers about a project. -/
structure SeenAlike (p : ProjectKey) (w v : World) : Prop where
  node : ∀ id, (GraphService.node? id p).answer w = (GraphService.node? id p).answer v
  callees : ∀ id, (GraphService.callees id p).answer w = (GraphService.callees id p).answer v
  callers : ∀ id, (GraphService.withCallers id p).answer w = (GraphService.withCallers id p).answer v
  functions : ∀ id, (Flow.functions id p).answer w = (Flow.functions id p).answer v
  tree : ∀ id, (Flow.tree id p).answer w = (Flow.tree id p).answer v

namespace AlikeOn
open Run GraphService

variable {p : ProjectKey}

theorem steady : Steady (AlikeOn p) :=
  ⟨fun h => h.troubles, fun _ _ _ h => ⟨h.only, h.first, h.second, rfl⟩⟩

/-- What is answered from the project's part is answered alike. -/
theorem part {α : Type} {w v : World} (h : AlikeOn p w v) {f : Graph → α}
    (hf : ∀ g : Graph, g.Confined → f (g.only p) = f g) : f w.graph = f v.graph := by
  rw [← hf w.graph h.first, h.only, hf v.graph h.second]

theorem respects_node? (id : Json) : Respects (AlikeOn p) (node? id p) :=
  steady.ask fun _ _ h => h.part (f := (Graph.node? · p id)) fun _ _ =>
    Graph.only_node? p.same_self id

theorem respects_callees (id : Json) : Respects (AlikeOn p) (GraphService.callees id p) :=
  steady.openSession.bind fun _ => (steady.send _).bind fun _ => Respects.getBind
    (fun w v h => by rw [h.part (f := (Graph.callees · p id)) fun _ hg => Graph.only_callees hg id])
    fun _ => Respects.pure _

theorem respects_withCallers (id : Json) : Respects (AlikeOn p) (withCallers id p) :=
  steady.ask fun _ _ h => h.part (f := (Graph.withCallers · p id)) fun _ _ =>
    Graph.only_withCallers id

theorem respects_trails (d : Direction) (bodies : Bool) (id : Json) :
    Respects (AlikeOn p) (trails (some d) bodies id p) := by
  unfold trails trailsBy
  exact steady.ask fun _ _ h => h.part (f := (Graph.withTrailEnds · d p id)) fun _ hg =>
    Graph.only_withTrailEnds hg d id

theorem respects_functions (id : Json) : Respects (AlikeOn p) (Flow.functions id p) := by
  refine (respects_trails .outward true id).bind fun l => ?_
  cases l with
  | nil => exact Respects.pure _
  | cons n ends =>
    refine (Respects.lift _).bind fun a => ?_
    exact (Respects.composes.mapM fun m _ => Respects.lift m.shownId).bind fun _ => Respects.pure _

theorem respects_known? (id : Json) : Respects (AlikeOn p) (Flow.known? id p) :=
  (respects_node? id).bind fun _ => Respects.pure _

theorem respects_unfold (cut : Bool) (depth : Nat) :
    ∀ id, Respects (AlikeOn p) (Flow.unfold p cut depth id) := by
  induction depth with
  | zero =>
    intro id
    cases cut with
    | false => exact fun _ _ h => ⟨rfl, h⟩
    | true =>
      refine (respects_known? id).bind fun found => ?_
      cases found <;> exact Respects.pure _
  | succ depth ih =>
    intro id
    refine (respects_known? id).bind fun found => ?_
    cases found with
    | none => exact Respects.pure _
    | some n =>
      refine (respects_callees id).bind fun next => ?_
      refine (Respects.composes.gather fun c _ => ?_).bind fun _ => Respects.pure _
      exact (Respects.lift _).bind ih

theorem seenAlike {w v : World} (h : AlikeOn p w v) : SeenAlike p w v where
  node id := (respects_node? id w v h).1
  callees id := (respects_callees id w v h).1
  callers id := (respects_withCallers id w v h).1
  functions id := (respects_functions id w v h).1
  tree id := (respects_unfold true Flow.shownDepth id w v h).1

end AlikeOn

namespace GraphCommand

/-- **Isolation**: commands from the empty graph make a well-formed one, and what a project sees of
it is what it would see if only its own commands had been given. -/
theorem session_isolated {w : World} (hw : w.troubles = []) (hg : w.graph = .empty)
    {cs : List GraphCommand} (hcs : ∀ c ∈ cs, c.Proper) : (session cs w).graph.Sound ∧
      ∀ p, SeenAlike p (session cs w) (session (cs.filter (·.project.same p)) w) := by
  have hempty : w.graph.Sound := hg ▸ Graph.sound_empty
  have hall := session_sound hcs hw hempty
  refine ⟨hall, fun p => ?_⟩
  have hown : (session (cs.filter (·.project.same p)) w).graph.Sound :=
    session_sound (fun c hc => hcs c (List.mem_of_mem_filter hc)) hw hempty
  obtain ⟨l, hl⟩ := after_session cs hw
  obtain ⟨k, hk⟩ := after_session (cs.filter (·.project.same p)) hw
  refine AlikeOn.seenAlike ⟨?_, hall.confined, hown.confined, by rw [hl, hk]⟩
  rw [hl, hk]
  simp only [only_effects, List.filter_filter, Bool.and_self]

/-- Two projects with functions of the same names; one of them is deleted. -/
def twoProjects : List GraphCommand :=
  [.upsert (.str "/a.py:f") (.number 1) [("file", .str "/a.py")],
   .upsert (.str "/a.py:f") (.number 2) [("id", .str "/a.py:f")],
   .upsert (.str "/a.py:g") (.number 2) [],
   .connect (.str "/a.py:f") (.str "/a.py:g") (.number 2) GraphService.callProperties,
   .connect (.str "/a.py:f") (.str "/a.py:g") (.number 1) GraphService.callProperties,
   .extend (.str "/a.py:g") (.str "/a.py:f") (.number 2),
   .delete (.number 1)]

theorem twoProjects_isolated : (session twoProjects .vacant).graph.Sound ∧
    ∀ p, SeenAlike p (session twoProjects .vacant)
      (session (twoProjects.filter (·.project.same p)) .vacant) := by
  refine session_isolated rfl rfl fun c hc => ?_
  simp only [twoProjects, List.mem_cons, List.not_mem_nil, or_false] at hc
  rcases hc with rfl | rfl | rfl | rfl | rfl | rfl | rfl <;> simp [Proper, Table.keys]

end GraphCommand
end CodeAtlas
