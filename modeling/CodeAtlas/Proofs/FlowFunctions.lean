import CodeAtlas.Proofs.FlowTree
import CodeAtlas.Proofs.Trails

/-!
# The functions below an entry point

The list of a flow holds the end of each trail from an entry point: a path over call edges that uses
none of them twice. Every function that can be reached ends a trail, so none is missed. But a function
that two trails lead to is listed twice, and where there is no trail nothing is listed, not even the
entry point.

* `Graph.trail_subset_callsOf`: a trail stays in the project that it starts in;
* `Graph.exists_trail`: a call of a function that can be reached is the last one of some trail;
* `Flow.mem_reached`: the ends of the trails are the functions that can be reached;
* `Flow.reached_once_iff`: each is listed once if and only if the calls below the entry point form a
  tree;
* `Flow.functions_once_iff`: so the flow is the entry point and each other function that it reaches,
  once, if and only if it calls something and the calls below it form a tree;
* `Flow.leaf_left_out`: for a function that calls nothing the flow is empty.
-/
namespace CodeAtlas

namespace Graph

variable {es : List CallEdge} {e : CallEdge} {x : NodeRef}

/-! ## Where trails lead -/

variable {g : Graph} {p : ProjectKey} {a b v : Json} {f : CallEdge} {n : GraphNode}

def Below (g : Graph) (p : ProjectKey) : Json → Json → Prop := Relation.ReflTransGen (g.LeadsTo p)

/-- The identifier that is shown for a function. -/
def shownAs (g : Graph) (p : ProjectKey) (v : Json) : Json :=
  ((g.node? p v).map GraphNode.label).getD v

theorem shownAs_of_node? (h : g.node? p v = some n) : g.shownAs p v = n.label := by
  simp [shownAs, h]

theorem shownAs_congr (h : a.same b = true) (hb : g.node? p b = some n) :
    g.shownAs p a = g.shownAs p b := by
  rw [shownAs_of_node? hb, shownAs_of_node? ((node?_congr h).trans hb)]

/-- The calls that the functions of a project make. -/
def callsOf (g : Graph) (p : ProjectKey) : List CallEdge :=
  g.calls.filter fun e => e.source.project.same p

theorem mem_callsOf : e ∈ g.callsOf p ↔ e ∈ g.calls ∧ e.source.project.same p = true :=
  List.mem_filter

theorem callsOf_subset : g.callsOf p ⊆ g.calls := List.filter_subset_self g.calls

theorem shownAs_of_leadsTo (h : g.LeadsTo p a b) : g.shownAs p b = b := by
  obtain ⟨-, n, hn, hshown⟩ := h
  rw [shownAs_of_node? hn, GraphNode.label, hshown, Option.getD_some]

theorem exists_edge_of_leadsTo (h : g.LeadsTo p a b) :
    ∃ e ∈ g.callsOf p, e.source.id.same a = true ∧ e.target.id.same b = true := by
  obtain ⟨⟨e, he, his⟩, -⟩ := h
  simp only [CallEdge.is, Bool.and_eq_true, NodeRef.is_iff_same] at his
  exact ⟨e, mem_callsOf.2 ⟨he, his.1.1⟩, his.1.2, his.2.2⟩

/-- Two ends of edges in one project are the same if their identifiers are. -/
theorem same_of_ids {r s : NodeRef} (hr : r.project.same p = true) (hs : s.project.same p = true)
    (h : r.id.same s.id = true) : r.same s = true :=
  NodeRef.is_iff_same.2 ⟨ProjectKey.same_trans hr (ProjectKey.same_comm s.project p ▸ hs), h⟩

section
variable (hg : g.Sound)
include hg

theorem nodup_calls : g.calls.Nodup := List.Nodup.of_map _ hg.calls

theorem target_project (he : e ∈ g.callsOf p) : e.target.project.same p = true := by
  obtain ⟨he, hp⟩ := mem_callsOf.1 he
  exact (hg.callEnds e he).second_same hp

theorem exists_node?_of_mem (he : e ∈ g.callsOf p) :
    (∃ m, g.node? p e.source.id = some m) ∧ ∃ n, g.node? p e.target.id = some n := by
  obtain ⟨he, hp⟩ := mem_callsOf.1 he
  have hends := hasNodes_iff.1 ((hg.callEnds e he).hasNodes hp)
  exact ⟨Option.isSome_iff_exists.1 hends.1, Option.isSome_iff_exists.1 hends.2⟩

/-- A trail does not leave the project that it starts in. -/
theorem trail_subset_callsOf (hx : x.project.same p = true) (htrail : Trail x es)
    (hsub : es ⊆ g.calls) : es ⊆ g.callsOf p := by
  induction es generalizing x with
  | nil => exact List.nil_subset _
  | cons e es ih =>
    obtain ⟨hsource, htrail⟩ := htrail
    obtain ⟨he, hsub⟩ := List.cons_subset.1 hsub
    have hmem : e ∈ g.callsOf p :=
      mem_callsOf.2 ⟨he, ProjectKey.same_trans (NodeRef.is_iff_same.1 hsource).1 hx⟩
    exact List.cons_subset.2 ⟨hmem, ih (target_project hg hmem) htrail hsub⟩

variable (hi : g.Identified p)
include hi

theorem shownAs_same (h : g.node? p v = some n) : (g.shownAs p v).same v = true := by
  rw [shownAs_of_node? h]
  exact (label_of_node? hg hi h).2

theorem leadsTo_of_mem (he : e ∈ g.callsOf p) :
    g.LeadsTo p (g.shownAs p e.source.id) (g.shownAs p e.target.id) := by
  obtain ⟨⟨m, hm⟩, n, hn⟩ := exists_node?_of_mem hg he
  have hproject := target_project hg he
  obtain ⟨he, hp⟩ := mem_callsOf.1 he
  have hsource := (Json.same_comm _ _).trans (shownAs_same hg hi hm)
  have htarget := (Json.same_comm _ _).trans (shownAs_same hg hi hn)
  obtain ⟨hshown, hlabel⟩ := label_of_node? hg hi hn
  refine ⟨⟨e, he, by simp [CallEdge.is, NodeRef.is, hp, hproject, hsource, htarget]⟩, n, ?_, ?_⟩
  · exact (node?_congr (shownAs_same hg hi hn)).trans hn
  · rw [shownAs_of_node? hn]
    exact hshown

/-- There is one call from a function to another. -/
theorem eq_of_shownAs (he : e ∈ g.callsOf p) (hf : f ∈ g.callsOf p)
    (hsource : g.shownAs p e.source.id = g.shownAs p f.source.id)
    (htarget : g.shownAs p e.target.id = g.shownAs p f.target.id) : e = f := by
  have hkey {r s : NodeRef} {m n : GraphNode} (hr : r.project.same p = true)
      (hs : s.project.same p = true) (hm : g.node? p r.id = some m) (hn : g.node? p s.id = some n)
      (h : g.shownAs p r.id = g.shownAs p s.id) : r.key = s.key := by
    refine NodeRef.same_iff.1 (same_of_ids hr hs (Json.same_iff.2 ?_))
    rw [← Json.same_iff.1 (shownAs_same hg hi hm), h, Json.same_iff.1 (shownAs_same hg hi hn)]
  obtain ⟨⟨m, hm⟩, n, hn⟩ := exists_node?_of_mem hg he
  obtain ⟨⟨m', hm'⟩, n', hn'⟩ := exists_node?_of_mem hg hf
  refine List.inj_on_of_nodup_map hg.calls (callsOf_subset he) (callsOf_subset hf) (Prod.ext ?_ ?_)
  · exact hkey (mem_callsOf.1 he).2 (mem_callsOf.1 hf).2 hm hm' hsource
  · exact hkey (target_project hg he) (target_project hg hf) hn hn' htarget

theorem below_of_trail (hx : g.node? p x.id = some n) (htrail : Trail x es)
    (hsub : es ⊆ g.callsOf p) :
    g.Below p (g.shownAs p x.id) (g.shownAs p (trailEnd x es).id) := by
  induction es generalizing x n with
  | nil => exact .refl
  | cons e es ih =>
    obtain ⟨hsource, htrail⟩ := htrail
    obtain ⟨he, hsub⟩ := List.cons_subset.1 hsub
    obtain ⟨-, m, hm⟩ := exists_node?_of_mem hg he
    have hstep := leadsTo_of_mem hg hi he
    rw [shownAs_congr (NodeRef.is_iff_same.1 hsource).2 hx] at hstep
    exact (ih hm htrail hsub).head hstep

theorem shownAs_of_below (hx : g.node? p v = some n) (h : g.Below p (g.shownAs p v) a) :
    g.shownAs p a = a := by
  cases h with
  | refl => exact shownAs_congr (shownAs_same hg hi hx) hx
  | tail _ hstep => exact shownAs_of_leadsTo hstep

/-- A call of a function that can be reached is the last one of some trail: where the trail to the
function has made this call already, it is cut off there. -/
theorem exists_trail (hx : g.node? p v = some n) (hbelow : g.Below p (g.shownAs p v) a)
    (he : e ∈ g.callsOf p) (hsource : e.source.id.same a = true) :
    ∃ es, Trail ⟨p, v⟩ (es ++ [e]) ∧ (es ++ [e]).Nodup ∧ es ++ [e] ⊆ g.callsOf p := by
  have hproject := (mem_callsOf.1 he).2
  induction hbelow generalizing e with
  | refl =>
    have hfirst := Json.same_trans hsource (shownAs_same hg hi hx)
    exact ⟨[], ⟨same_of_ids hproject p.same_self hfirst, trivial⟩, List.nodup_singleton e,
      by simpa using he⟩
  | tail _ hstep ih =>
    obtain ⟨f, hf, hfsource, hftarget⟩ := exists_edge_of_leadsTo hstep
    obtain ⟨es, htrail, hnodup, hsub⟩ := ih hf hfsource (mem_callsOf.1 hf).2
    by_cases hmem : e ∈ es ++ [f]
    · obtain ⟨s, t, hs⟩ := List.append_of_mem hmem
      rw [hs, List.append_cons] at htrail hnodup hsub
      exact ⟨s, (trail_append.1 htrail).1, hnodup.of_append_left,
        fun d hd => hsub (List.mem_append_left t hd)⟩
    · have hend : e.source.same (trailEnd ⟨p, v⟩ (es ++ [f])) = true := by
        rw [trailEnd_concat]
        exact same_of_ids hproject (target_project hg hf)
          (Json.same_trans hsource ((Json.same_comm _ _).trans hftarget))
      refine ⟨es ++ [f], trail_concat.2 ⟨htrail, hend⟩, ?_, ?_⟩
      · exact List.nodup_append.2 ⟨hnodup, List.nodup_singleton e, fun d hd c hc hdc =>
          hmem (List.mem_singleton.1 hc ▸ hdc ▸ hd)⟩
      · exact List.append_subset.2 ⟨hsub, by simpa using he⟩

end

/-- The calls below a function form a tree: none leads back to the function, and none of the others is
called by two of the functions below it. -/
structure TreeBelow (g : Graph) (p : ProjectKey) (x : Json) : Prop where
  rooted : ∀ a, g.Below p x a → ¬ g.LeadsTo p a x
  single : ∀ a b y, g.Below p x a → g.Below p x b → g.LeadsTo p a y → g.LeadsTo p b y → a = b

/-- A list names a function first and then every other function below it, each once. -/
def ListsBelow (g : Graph) (p : ProjectKey) (x : Json) (flow : List Json) : Prop :=
  ∃ rest, flow = x :: rest ∧ rest.Nodup ∧ ∀ y, y ∈ rest ↔ y ≠ x ∧ g.Below p x y

end Graph

/-! ## The ends of the trails -/

namespace Flow
open CodeAtlas.Graph

variable {g : Graph} {s : Store} {p : ProjectKey} {x y id : Json} {n : GraphNode}
  {es fs : List CallEdge}

def trailsOf (g : Graph) (p : ProjectKey) (x : Json) : List (List CallEdge) :=
  edgeTrails g.calls.length g.calls ⟨p, x⟩

def reached (g : Graph) (p : ProjectKey) (x : Json) : List Json :=
  (trailsOf g p x).map fun es => g.shownAs p (trailEnd ⟨p, x⟩ es).id

section
variable (hg : g.Sound)
include hg

theorem mem_trailsOf : es ∈ trailsOf g p x ↔
    es ≠ [] ∧ Trail ⟨p, x⟩ es ∧ es.Nodup ∧ es ⊆ g.callsOf p := by
  rw [trailsOf, mem_edgeTrails (nodup_calls hg) (Nat.le_refl _)]
  refine and_congr_right fun _ => and_congr_right fun htrail => and_congr_right fun _ => ?_
  exact ⟨trail_subset_callsOf hg p.same_self htrail, fun h => List.Subset.trans h callsOf_subset⟩

theorem trailEnd_of_mem (h : es ∈ trailsOf g p x) : (trailEnd ⟨p, x⟩ es).project.same p = true ∧
    ∃ m, g.node? p (trailEnd ⟨p, x⟩ es).id = some m := by
  obtain ⟨hne, -, -, hsub⟩ := (mem_trailsOf hg).1 h
  obtain ⟨init, e, rfl⟩ := List.eq_nil_or_concat es |>.resolve_left hne
  have he : e ∈ g.callsOf p := hsub (by simp)
  rw [List.concat_eq_append, trailEnd_concat]
  exact ⟨target_project hg he, (exists_node?_of_mem hg he).2⟩

theorem map_label_trailEnds :
    (g.trailEnds .outward p x).map GraphNode.label = reached g p x := by
  rw [Graph.trailEnds, trailsOver_eq_map, List.filterMap_map, List.map_filterMap, reached,
    ← List.filterMap_eq_map]
  refine List.filterMap_congr fun es hes => ?_
  obtain ⟨hproject, m, hm⟩ := trailEnd_of_mem hg hes
  simp [hproject, nodeAt?_of_same hproject, hm, shownAs_of_node? hm]

variable (hi : g.Identified p) (hx : g.node? p x = some n)
include hi hx

theorem mem_reached :
    y ∈ reached g p x ↔ Relation.TransGen (g.LeadsTo p) (g.shownAs p x) y := by
  simp only [reached, List.mem_map, mem_trailsOf hg]
  constructor
  · rintro ⟨es, ⟨hne, htrail, -, hsub⟩, rfl⟩
    cases es with
    | nil => exact absurd rfl hne
    | cons e es =>
      obtain ⟨hsource, htrail⟩ := htrail
      obtain ⟨he, hsub⟩ := List.cons_subset.1 hsub
      obtain ⟨-, m, hm⟩ := exists_node?_of_mem hg he
      have hstep := leadsTo_of_mem hg hi he
      rw [shownAs_congr (NodeRef.is_iff_same.1 hsource).2 hx] at hstep
      exact .head' hstep (below_of_trail hg hi hm htrail hsub)
  · intro h
    obtain ⟨a, hbelow, hstep⟩ := Relation.TransGen.tail'_iff.1 h
    obtain ⟨e, he, hsource, htarget⟩ := exists_edge_of_leadsTo hstep
    obtain ⟨es, htrail, hnodup, hsub⟩ := exists_trail hg hi hx hbelow he hsource
    refine ⟨es ++ [e], ⟨by simp, htrail, hnodup, hsub⟩, ?_⟩
    obtain ⟨m, hm, -⟩ := hstep.2
    rw [trailEnd_concat, shownAs_congr htarget hm, shownAs_of_leadsTo hstep]

/-- Something is reached exactly if there is a first call. -/
theorem reached_ne_nil_iff : reached g p x ≠ [] ↔ ∃ y, g.LeadsTo p (g.shownAs p x) y := by
  constructor
  · intro hne
    obtain ⟨y, hy⟩ := List.exists_mem_of_ne_nil _ hne
    obtain ⟨b, hstep, -⟩ := Relation.TransGen.head'_iff.1 ((mem_reached hg hi hx).1 hy)
    exact ⟨b, hstep⟩
  · rintro ⟨y, hstep⟩
    exact List.ne_nil_of_mem ((mem_reached hg hi hx).2 (.single hstep))

theorem below_source {e : CallEdge} (htrail : Trail ⟨p, x⟩ (es ++ [e]))
    (hsub : es ++ [e] ⊆ g.callsOf p) :
    g.shownAs p (trailEnd ⟨p, x⟩ es).id = g.shownAs p e.source.id ∧
      g.Below p (g.shownAs p x) (g.shownAs p e.source.id) := by
  obtain ⟨htrail, hsource⟩ := trail_concat.1 htrail
  obtain ⟨hsub, he⟩ := List.append_subset.1 hsub
  obtain ⟨⟨m, hm⟩, -⟩ := exists_node?_of_mem hg (he List.mem_cons_self)
  have hshown := shownAs_congr ((Json.same_comm _ _).trans (NodeRef.is_iff_same.1 hsource).2) hm
  exact ⟨hshown, hshown ▸ below_of_trail hg hi hx htrail hsub⟩

theorem eq_of_tree (ht : g.TreeBelow p (g.shownAs p x)) (htrail : Trail ⟨p, x⟩ es)
    (hsub : es ⊆ g.callsOf p) (htrail' : Trail ⟨p, x⟩ fs) (hsub' : fs ⊆ g.callsOf p)
    (hend : g.shownAs p (trailEnd ⟨p, x⟩ es).id = g.shownAs p (trailEnd ⟨p, x⟩ fs).id) :
    es = fs := by
  induction es using List.reverseRecOn generalizing fs with
  | nil =>
    rcases List.eq_nil_or_concat fs with rfl | ⟨fs, f, rfl⟩
    · rfl
    · rw [List.concat_eq_append] at htrail' hsub' hend
      have hf := leadsTo_of_mem hg hi (hsub' (by simp : f ∈ fs ++ [f]))
      rw [trailEnd_concat] at hend
      rw [← hend] at hf
      exact absurd hf (ht.rooted _ (below_source hg hi hx htrail' hsub').2)
  | append_singleton es e ih =>
    have he := leadsTo_of_mem hg hi (hsub (by simp : e ∈ es ++ [e]))
    obtain ⟨hlast, hbelow⟩ := below_source hg hi hx htrail hsub
    rcases List.eq_nil_or_concat fs with rfl | ⟨fs, f, rfl⟩
    · rw [trailEnd_concat] at hend
      rw [hend] at he
      exact absurd he (ht.rooted _ hbelow)
    · rw [List.concat_eq_append] at htrail' hsub' hend ⊢
      have hf := leadsTo_of_mem hg hi (hsub' (by simp : f ∈ fs ++ [f]))
      obtain ⟨hlast', hbelow'⟩ := below_source hg hi hx htrail' hsub'
      rw [trailEnd_concat, trailEnd_concat] at hend
      rw [← hend] at hf
      have hsource := ht.single _ _ _ hbelow hbelow' he hf
      obtain rfl : e = f := eq_of_shownAs hg hi (hsub (by simp)) (hsub' (by simp)) hsource hend
      rw [ih (trail_append.1 htrail).1 (List.append_subset.1 hsub).1 (trail_append.1 htrail').1
        (List.append_subset.1 hsub').1 (hlast.trans hlast'.symm)]

theorem reached_once_iff : (reached g p x).Nodup ∧ g.shownAs p x ∉ reached g p x ↔
    g.TreeBelow p (g.shownAs p x) := by
  have htrails : (trailsOf g p x).Nodup := nodup_edgeTrails (nodup_calls hg)
  rw [mem_reached hg hi hx, reached, List.nodup_map_iff_inj_on htrails]
  constructor
  · rintro ⟨hinj, hroot⟩
    constructor
    · exact fun a hbelow hstep => hroot (.tail' hbelow hstep)
    · intro a b y ha hb hay hby
      obtain ⟨e, he, hea, hey⟩ := exists_edge_of_leadsTo hay
      obtain ⟨f, hf, hfb, hfy⟩ := exists_edge_of_leadsTo hby
      obtain ⟨es, htrail, hnodup, hsub⟩ := exists_trail hg hi hx ha he hea
      obtain ⟨fs, htrail', hnodup', hsub'⟩ := exists_trail hg hi hx hb hf hfb
      obtain ⟨m, hm, -⟩ := hay.2
      have hsame := hinj _ ((mem_trailsOf hg).2 ⟨by simp, htrail, hnodup, hsub⟩)
        _ ((mem_trailsOf hg).2 ⟨by simp, htrail', hnodup', hsub'⟩) (by
          rw [trailEnd_concat, trailEnd_concat, shownAs_congr hey hm, shownAs_congr hfy hm])
      obtain ⟨-, hlast⟩ := List.append_inj' hsame rfl
      obtain rfl := List.singleton_inj.1 hlast
      obtain ⟨⟨k, hk⟩, -⟩ := exists_node?_of_mem hg he
      rw [← shownAs_of_below hg hi hx ha, ← shownAs_of_below hg hi hx hb,
        shownAs_congr ((Json.same_comm _ _).trans hea) hk,
        shownAs_congr ((Json.same_comm _ _).trans hfb) hk]
  · intro ht
    refine ⟨fun es hes fs hfs hend => ?_, fun h => ?_⟩
    · obtain ⟨-, htrail, -, hsub⟩ := (mem_trailsOf hg).1 hes
      obtain ⟨-, htrail', -, hsub'⟩ := (mem_trailsOf hg).1 hfs
      exact eq_of_tree hg hi hx ht htrail hsub htrail' hsub' hend
    · obtain ⟨a, hbelow, hstep⟩ := Relation.TransGen.tail'_iff.1 h
      exact ht.rooted a hbelow hstep

end

/-! ## The list that is answered -/

/-- A function and the ends of the trails from it; nothing if there is no trail. -/
def listed (g : Graph) (p : ProjectKey) (n : GraphNode) : List Json :=
  if reached g p n.id = [] then [] else n.label :: reached g p n.id

section
variable (hg : g.Sound) (hi : g.Identified p)
include hg hi

theorem shownId_trailEnds {m : GraphNode} (h : m ∈ g.trailEnds .outward p x) :
    m.shownId = .ok m.label := by
  obtain ⟨r, -, hr⟩ := List.mem_filterMap.1 h
  obtain ⟨hproject, hr⟩ := Option.ite_none_right_eq_some.1 hr
  rw [nodeAt?_of_same hproject] at hr
  rw [GraphNode.shownId, (label_of_node? hg hi hr).1]

theorem gives_listed {P : World → Prop} (hP : Calm P) (hgraph : ∀ w, P w → w.graph = g)
    (hp : p.given.checkKey = .ok ()) (hn : g.node? p id = some n) :
    Run.Gives P (functions id p) (.ok (listed g p n)) := by
  have hends : Run.Gives P (GraphService.trails (some .outward) true id p) _ :=
    GraphService.gives_ask (f := (Graph.withTrailEnds · .outward p id)) hP
      fun w hw => by rw [hgraph w hw]
  have hids := Run.Gives.mapM (P := P) (l := g.trailEnds .outward p n.id)
    (h := fun m => liftM m.shownId) (g := GraphNode.label)
    fun m hm => shownId_trailEnds hg hi hm ▸ Run.Gives.lift _
  rw [map_label_trailEnds hg] at hids
  rw [GraphService.checkKeys_single hp (checkKey_of_node? hi hn)] at hends
  cases htrails : g.trailEnds .outward p n.id with
  | nil =>
    have hwith : g.withTrailEnds .outward p id = [] := by simp [Graph.withTrailEnds, hn, htrails]
    have hnone : reached g p n.id = [] := by rw [← map_label_trailEnds hg, htrails, List.map_nil]
    rw [hwith] at hends
    rw [listed, if_pos hnone]
    exact hends.bind (Run.Gives.pure [])
  | cons m ms =>
    have hwith : g.withTrailEnds .outward p id = n :: m :: ms := by
      simp [Graph.withTrailEnds, hn, htrails]
    have hsome : reached g p n.id ≠ [] := by
      rw [← map_label_trailEnds hg, htrails]
      simp
    have hstart : start n = .ok [n.label] := by rw [start, (label_of_node? hg hi hn).1]
    have hfirst : Run.Gives P (liftM (start n)) (.ok [n.label]) := hstart ▸ Run.Gives.lift (start n)
    rw [htrails] at hids
    rw [hwith] at hends
    rw [listed, if_neg hsome]
    exact hends.bind (hfirst.bind (hids.bind (Run.Gives.pure _)))

theorem gives_functions (hp : p.given.checkKey = .ok ()) (hn : g.node? p id = some n) :
    Run.Gives (Fixed g s) (functions id p) (.ok (listed g p n)) :=
  gives_listed hg hi (calm_fixed g s) (fun _ hw => hw.1) hp hn

end

/-- **The functions below an entry point**: what is listed for a function that is known is this
function and then every other one below it, each once, if and only if it calls something and the calls
below it form a tree. If it calls something, all functions that can be reached are listed after it and
nothing else is; if it calls nothing, nothing is listed. -/
theorem functions_once_iff {w : World} (hw : w.troubles = []) (hg : w.graph.Sound)
    (hi : w.graph.Identified p) (hp : p.given.checkKey = .ok ()) (hn : w.graph.node? p id = some n) :
    ∃ flow, (functions id p).answer w = .ok flow ∧
      (w.graph.ListsBelow p n.label flow ↔
        (∃ y, w.graph.LeadsTo p n.label y) ∧ w.graph.TreeBelow p n.label) ∧
      ((∃ y, w.graph.LeadsTo p n.label y) → ∃ rest, flow = n.label :: rest ∧
        ∀ y, y ∈ rest ↔ Relation.TransGen (w.graph.LeadsTo p) n.label y) ∧
      ((∀ y, ¬ w.graph.LeadsTo p n.label y) → flow = []) := by
  have hanswer := (gives_functions (s := w.store) hg hi hp hn w ⟨rfl, rfl, hw⟩).1
  have hown : w.graph.node? p n.id = some n :=
    (node?_congr (mem_of_node? hn).2.2).trans hn
  have hshown : w.graph.shownAs p n.id = n.label := shownAs_of_node? hown
  have hmem (y : Json) := mem_reached (y := y) hg hi hown
  have honce := reached_once_iff hg hi hown
  have hcalls := reached_ne_nil_iff hg hi hown
  rw [hshown] at honce hcalls
  simp only [hshown] at hmem
  refine ⟨_, hanswer, ?_, fun hstep => ?_, fun hleaf => ?_⟩
  · rw [← hcalls, ← honce, listed]
    constructor
    · rintro ⟨rest, hflow, hnodup, hrest⟩
      split at hflow
      · cases hflow
      · next hne =>
        obtain rfl := List.tail_eq_of_cons_eq hflow
        exact ⟨hne, hnodup, fun h => ((hrest _).1 h).1 rfl⟩
    · rintro ⟨hne, hnodup, hroot⟩
      refine ⟨_, if_neg hne, hnodup, fun y => ?_⟩
      rw [hmem y, Graph.Below, Relation.reflTransGen_iff_eq_or_transGen]
      constructor
      · intro hy
        refine ⟨?_, .inr hy⟩
        rintro rfl
        exact hroot ((hmem _).2 hy)
      · rintro ⟨hne, heq | hy⟩
        · exact absurd heq hne
        · exact hy
  · exact ⟨_, if_neg (hcalls.2 hstep), hmem⟩
  · refine if_pos (by_contra fun hne => ?_)
    obtain ⟨y, hstep⟩ := hcalls.1 hne
    exact hleaf y hstep

/-! ## Two ways to one function -/

theorem exists_of_leadsTo_ofNames {names : List String} {calls : List (String × String)} {a b : Json}
    (h : (Graph.ofNames p names calls).LeadsTo p a b) :
    ∃ x y, (x, y) ∈ calls ∧ a = .str x ∧ b = .str y := by
  obtain ⟨⟨e, he, his⟩, -⟩ := h
  obtain ⟨c, hc, rfl⟩ := List.mem_map.1 he
  simp only [CallEdge.is, NodeRef.is, Bool.and_eq_true, Json.str_same_iff] at his
  exact ⟨c.1, c.2, hc, his.1.2, his.2.2⟩

/-- A function calls two others, which both call a fourth one. -/
def diamond : World :=
  { World.vacant with
    graph := .ofNames (.number 1) ["/a.py:f", "/b.py:g", "/c.py:h", "/d.py:k"]
      [("/a.py:f", "/b.py:g"), ("/a.py:f", "/c.py:h"), ("/b.py:g", "/d.py:k"),
       ("/c.py:h", "/d.py:k")] }

/-- Below one of the two functions in the middle the calls form a tree. -/
theorem diamond_side_once : ∃ flow,
    (functions (.str "/b.py:g") (.number 1)).answer diamond = .ok flow ∧
      diamond.graph.ListsBelow (.number 1) (.str "/b.py:g") flow := by
  have hstep : diamond.graph.LeadsTo (.number 1) (.str "/b.py:g") (.str "/d.py:k") :=
    ⟨by decide, _, rfl, rfl⟩
  have hbelow {a : Json} (h : diamond.graph.Below (.number 1) (.str "/b.py:g") a) :
      a = .str "/b.py:g" ∨ a = .str "/d.py:k" := by
    induction h with
    | refl => exact .inl rfl
    | tail _ hab ih =>
      obtain ⟨x, y, hcall, rfl, rfl⟩ := exists_of_leadsTo_ofNames hab
      rcases ih with ih | ih <;> simp_all
  have htree : diamond.graph.TreeBelow (.number 1) (.str "/b.py:g") := by
    constructor
    · intro a ha hab
      obtain ⟨x, y, hcall, rfl, hy⟩ := exists_of_leadsTo_ofNames hab
      cases hy
      rcases hbelow ha with hx | hx <;> cases hx <;> simp at hcall
    · intro a b y ha hb hay hby
      obtain ⟨x, y, hcall, rfl, rfl⟩ := exists_of_leadsTo_ofNames hay
      obtain ⟨z, y, hcall', rfl, hy⟩ := exists_of_leadsTo_ofNames hby
      rcases hbelow ha with ha | ha <;> rcases hbelow hb with hb | hb <;> simp_all
  have hnode : diamond.graph.node? (.number 1) (.str "/b.py:g") =
      some (Graph.freshNode (.number 1) (.str "/b.py:g")) := rfl
  obtain ⟨flow, hanswer, hiff, -⟩ := functions_once_iff rfl
    (Graph.sound_ofNames (by decide) (by decide) (by decide)) Graph.named_ofNames.identified rfl hnode
  exact ⟨flow, hanswer, hiff.2 ⟨⟨_, hstep⟩, htree⟩⟩

/-- The last function calls nothing, and nothing is listed for it; it is listed twice for the first
one. -/
theorem leaf_left_out : diamond.graph.hasNode (.number 1) (.str "/d.py:k") = true ∧
    (functions (.str "/d.py:k") (.number 1)).answer diamond = .ok [] ∧
    ¬ diamond.graph.ListsBelow (.number 1) (.str "/d.py:k") [] ∧
    (functions (.str "/a.py:f") (.number 1)).answer diamond =
      .ok (["/a.py:f", "/b.py:g", "/d.py:k", "/c.py:h", "/d.py:k"].map .str) := by
  refine ⟨by decide, rfl, ?_, rfl⟩
  rintro ⟨rest, hrest, -⟩
  cases hrest

end Flow
end CodeAtlas
