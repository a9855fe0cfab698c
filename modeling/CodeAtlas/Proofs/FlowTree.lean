import CodeAtlas.Proofs.BlastRadius

/-!
# Trees of calls

The tree below a function unfolds the calls from it down to a depth, whatever cycles they make. Each
place in the tree stands for one walk over call edges, and shows what is kept about the function in
which the walk ends.

* `CallTree.places`: the places of a tree, with the labels from the root down to each of them;
* `Graph.Walk`: identifiers along call edges;
* `Flow.gives_branch`: the tree that is answered, as a function of the graph;
* `Flow.mem_places_branch`, `Flow.nodup_trails_branch`: its places are the walks up to the depth, each
  once;
* `Flow.tree_unfolds`: what is answered for a function that is known and for one that is not.
-/
namespace CodeAtlas

/-! ## Places in a tree -/

namespace CallTree

/-- A place in a tree: the labels from the root down to it, and what is shown there. -/
structure Place where
  labels : List Json
  parameters : Json
  response : Json

/-- A place as seen from above a root. -/
def Place.under (f : Json) (x : Place) : Place := { x with labels := f :: x.labels }

mutual

def places : CallTree → List Place
  | .mk f ps r children => ⟨[f], ps, r⟩ :: (placesAll children).map (Place.under f)

def placesAll : List CallTree → List Place
  | [] => []
  | t :: ts => places t ++ placesAll ts

end

theorem placesAll_eq (ts : List CallTree) : placesAll ts = ts.flatMap places := by
  induction ts with
  | nil => rfl
  | cons t ts ih => rw [placesAll, ih, List.flatMap_cons]

end CallTree

/-! ## Walks -/

/-- The identifier that a node shows. -/
def GraphNode.label (n : GraphNode) : Json := (Table.get? n.properties "id").getD n.id

namespace Graph

variable {g : Graph} {p : ProjectKey} {a b id : Json} {m n : GraphNode}

/-- A call leads to the function that shows an identifier. -/
def LeadsTo (g : Graph) (p : ProjectKey) (a b : Json) : Prop :=
  (∃ e ∈ g.calls, e.is p a b = true) ∧
    ∃ n, g.node? p b = some n ∧ Table.get? n.properties "id" = some b

/-- Each of some steps follows a call, the first of them one of the start. -/
def Walk (g : Graph) (p : ProjectKey) (start : Json) (steps : List Json) : Prop :=
  (start :: steps).IsChain (g.LeadsTo p)

def Identified (g : Graph) (p : ProjectKey) : Prop :=
  ∀ n ∈ g.nodes, n.project.same p = true → n.id ≠ .null ∧ n.id.checkKey = .ok ()

/-- Texts are such identifiers. -/
theorem Named.identified (h : g.Named p) : g.Identified p := by
  intro n hn hp
  obtain ⟨x, hx⟩ := h n hn hp
  rw [hx]
  exact ⟨nofun, rfl⟩

theorem walk_nil (g : Graph) (p : ProjectKey) (a : Json) : g.Walk p a [] := .singleton a

theorem walk_cons {steps : List Json} :
    g.Walk p a (b :: steps) ↔ g.LeadsTo p a b ∧ g.Walk p b steps := List.isChain_cons_cons

theorem Walk.exists_node? {steps : List Json} (hw : g.Walk p a steps) (h : g.node? p a = some n) :
    ∃ m, g.node? p (steps.getLastD a) = some m := by
  induction steps generalizing a n with
  | nil => exact ⟨n, h⟩
  | cons b steps ih =>
    obtain ⟨⟨-, m, hm, -⟩, hw⟩ := walk_cons.1 hw
    rw [List.getLastD_cons]
    exact ih hw hm

/-- Values that mean the same find the same node. -/
theorem node?_congr (h : a.same b = true) : g.node? p a = g.node? p b := by
  simp only [node?, GraphNode.is, Json.same, Json.same_iff.1 h]

theorem mem_of_node? (h : g.node? p id = some n) :
    n ∈ g.nodes ∧ n.project.same p = true ∧ n.id.same id = true := by
  obtain ⟨hn, hkey⟩ := node?_eq_some h
  simp only [GraphNode.key, Prod.mk.injEq] at hkey
  exact ⟨hn, ProjectKey.same_iff.2 hkey.1, Json.same_iff.2 hkey.2⟩

/-- What can be found can be looked up. -/
theorem checkKey_of_node? (hi : g.Identified p) (h : g.node? p id = some n) :
    id.checkKey = .ok () := by
  obtain ⟨hn, hp, hid⟩ := mem_of_node? h
  rw [← Json.checkKey_canonical, ← Json.same_iff.1 hid, Json.checkKey_canonical]
  exact (hi n hn hp).2

section
variable (hg : g.Sound) (hi : g.Identified p)
include hg hi

/-- A node that is found shows what it was looked for by. -/
theorem label_of_node? (h : g.node? p id = some n) :
    Table.get? n.properties "id" = some n.label ∧ n.label.same id = true := by
  obtain ⟨hn, hp, hid⟩ := mem_of_node? h
  obtain ⟨v, hv, hs⟩ := hg.ids n hn (hi n hn hp).1
  have hlabel : n.label = v := by rw [GraphNode.label, hv]; rfl
  rw [hlabel]
  exact ⟨hv, Json.same_trans hs hid⟩

/-- The function that a call leads to: it is of the project of the caller, though nothing asks for
that. -/
theorem target_of_call {e : CallEdge} (he : e ∈ g.calls) (hsource : e.source.is p a = true)
    (hm : g.nodeAt? e.target = some m) :
    Table.get? m.properties "id" = some m.label ∧ e.target.is p m.label = true := by
  have hp := (hg.callEnds e he).second_same (NodeRef.is_iff_same.1 hsource).1
  rw [nodeAt?_of_same hp] at hm
  obtain ⟨hshown, hsame⟩ := label_of_node? hg hi hm
  exact ⟨hshown, NodeRef.is_iff_same.2 ⟨hp, (Json.same_comm _ _).trans hsame⟩⟩

/-- What a function calls, by the identifiers that are shown. -/
theorem mem_callees : m ∈ g.callees p a ↔ g.node? p m.label = some m ∧ g.LeadsTo p a m.label := by
  simp only [callees, List.mem_filterMap, Option.ite_none_right_eq_some]
  constructor
  · rintro ⟨e, he, hsource, hm⟩
    obtain ⟨hshown, htarget⟩ := target_of_call hg hi he hsource hm
    have hfound : g.node? p m.label = some m := (nodeAt?_of_is htarget).symm.trans hm
    exact ⟨hfound, ⟨e, he, by simp [CallEdge.is, hsource, htarget]⟩, m, hfound, hshown⟩
  · rintro ⟨hm, ⟨e, he, his⟩, -⟩
    -- the edge names its target in some way that means the label
    simp only [CallEdge.is, Bool.and_eq_true] at his
    exact ⟨e, he, his.1, (nodeAt?_of_is his.2).trans hm⟩

/-- A function calls no two functions that show one identifier. -/
theorem pairwise_callees : (g.callees p a).Pairwise fun m n => m.label ≠ n.label := by
  have hcalls : g.calls.Pairwise fun e f => e.key ≠ f.key := List.pairwise_map.1 hg.calls
  have hkey {e : CallEdge} {m : GraphNode} (he : e ∈ g.calls)
      (hm : (if e.source.is p a then g.nodeAt? e.target else none) = some m) :
      e.key = ((p.meaning, a.canonical), p.meaning, m.label.canonical) := by
    obtain ⟨hsource, hm⟩ := Option.ite_none_right_eq_some.1 hm
    have htarget := (target_of_call hg hi he hsource hm).2
    exact CallEdge.is_iff.1 (by rw [CallEdge.is, hsource, htarget]; rfl)
  refine (hcalls.imp_of_mem fun he hf hkeys => ?_).filterMap _ fun e f h => h
  exact fun m hm n hn hlabel => hkeys ((hkey he hm).trans (hlabel ▸ (hkey hf hn).symm))

end
end Graph

/-! ## The tree that is answered -/

/-- A key of a project and one of a node are all that a question about a node needs. -/
theorem GraphService.checkKeys_single {p : ProjectKey} {id : Json} (hp : p.given.checkKey = .ok ())
    (hid : id.checkKey = .ok ()) : checkKeys p [id] = .ok () := by
  unfold checkKeys
  rw [hp]
  change (id.checkKey >>= fun _ => pure ()) = _
  rw [hid]
  rfl

namespace Flow
open CodeAtlas.Graph CallTree

variable {g : Graph} {s : Store} {p : ProjectKey} {id : Json} {n : GraphNode}

def branch (g : Graph) (p : ProjectKey) : Nat → Json → GraphNode → CallTree
  | 0, id, n => .mk id (shown n "parameters") (shown n "response") []
  | depth + 1, id, n => .mk id (shown n "parameters") (shown n "response")
      ((g.callees p id).map fun m => branch g p depth m.label m)

section
variable {P : World → Prop} (hP : Calm P) (hgraph : ∀ w, P w → w.graph = g)
  (hp : p.given.checkKey = .ok ())
include hP hgraph hp

theorem gives_known? (hid : id.checkKey = .ok ()) : Run.Gives P (known? id p)
    (.ok ((g.node? p id).filter fun n => !n.properties.isEmpty)) := by
  have hnode : Run.Gives P (GraphService.node? id p) _ :=
    GraphService.gives_ask (f := (Graph.node? · p id)) hP fun w hw => by rw [hgraph w hw]
  rw [GraphService.checkKeys_single hp hid] at hnode
  exact Run.Gives.bind hnode (Run.Gives.pure _)

variable (hg : g.Sound) (hi : g.Identified p)
include hg hi

theorem gives_known?_some (h : g.node? p id = some n) :
    Run.Gives P (known? id p) (.ok (some n)) := by
  obtain ⟨hshown, -⟩ := label_of_node? hg hi h
  have hne : n.properties.isEmpty = false := by
    cases hprops : n.properties with
    | nil => rw [hprops] at hshown; cases hshown
    | cons _ _ => rfl
  have hknown := gives_known? hP hgraph hp (checkKey_of_node? hi h)
  rwa [h, Option.filter_some, hne] at hknown

/-- What is answered for a function that is known: one tree. -/
theorem gives_branch (depth : Nat) : ∀ {id : Json} {n : GraphNode}, g.node? p id = some n →
    Run.Gives P (Flow.unfold p true depth id) (.ok [branch g p depth id n]) := by
  induction depth with
  | zero =>
    intro id n h
    exact Run.Gives.bind (gives_known?_some hP hgraph hp hg hi h) (Run.Gives.pure _)
  | succ depth ih =>
    intro id n h
    refine Run.Gives.bind (gives_known?_some hP hgraph hp hg hi h) ?_
    have hcallees := GraphService.gives_callees hP
      fun w hw => congrArg (Graph.callees · p id) (hgraph w hw)
    refine Run.Gives.bind hcallees ?_
    have hchild (m : GraphNode) (hm : m ∈ g.callees p id) : Run.Gives P
        (do Flow.unfold p true depth (← m.shownId)) (.ok [branch g p depth m.label m]) := by
      obtain ⟨hfound, -, k, hk, hshown⟩ := (mem_callees hg hi).1 hm
      obtain rfl : m = k := Option.some.inj (hfound.symm.trans hk)
      have hid : m.shownId = .ok m.label := by rw [GraphNode.shownId, hshown]
      rw [hid]
      exact Run.Gives.bind (Run.Gives.lift _) (ih hfound)
    refine Run.Gives.bind (Run.Gives.gather hchild) ?_
    rw [← List.map_eq_flatMap]
    exact Run.Gives.pure _

end

section
variable (hp : p.given.checkKey = .ok ())
include hp

/-- Nothing is answered for a function that is not known. -/
theorem gives_unfold_none (hid : id.checkKey = .ok ()) (h : g.node? p id = none) (depth : Nat) :
    Run.Gives (Fixed g s) (Flow.unfold p true depth id) (.ok []) := by
  have hknown := gives_known? (calm_fixed g s) (fun _ hw => hw.1) hp hid
  rw [h] at hknown
  cases depth <;> exact Run.Gives.bind hknown (Run.Gives.pure _)

theorem gives_unfold (hg : g.Sound) (hi : g.Identified p) (depth : Nat)
    (h : g.node? p id = some n) :
    Run.Gives (Fixed g s) (Flow.unfold p true depth id) (.ok [branch g p depth id n]) :=
  gives_branch (calm_fixed g s) (fun _ hw => hw.1) hp hg hi depth h

end

/-! ## Its places -/

/-- A place stands for a walk of at most so many calls, and shows what is kept about the function in
which the walk ends. -/
def Traced (g : Graph) (p : ProjectKey) (depth : Nat) (start : Json) (x : Place) : Prop :=
  ∃ steps m, g.Walk p start steps ∧ steps.length ≤ depth ∧
    g.node? p (steps.getLastD start) = some m ∧
    x = ⟨start :: steps, shown m "parameters", shown m "response"⟩

/-- The place of the walk that makes no step. -/
def root (id : Json) (n : GraphNode) : Place := ⟨[id], shown n "parameters", shown n "response"⟩

theorem traced_zero (h : g.node? p id = some n) {x : Place} :
    Traced g p 0 id x ↔ x = root id n := by
  constructor
  · rintro ⟨steps, m, -, hlength, hm, rfl⟩
    obtain rfl := List.eq_nil_of_length_eq_zero (Nat.le_zero.1 hlength)
    obtain rfl : n = m := Option.some.inj (h.symm.trans hm)
    rfl
  · rintro rfl
    exact ⟨[], n, walk_nil g p id, Nat.le_refl 0, h, rfl⟩

theorem traced_succ (h : g.node? p id = some n) {depth : Nat} {x : Place} :
    Traced g p (depth + 1) id x ↔
      x = root id n ∨ ∃ b, g.LeadsTo p id b ∧ ∃ y, Traced g p depth b y ∧ y.under id = x := by
  constructor
  · rintro ⟨steps, m, hwalk, hlength, hm, rfl⟩
    cases steps with
    | nil =>
      obtain rfl : n = m := Option.some.inj (h.symm.trans hm)
      exact Or.inl rfl
    | cons b steps =>
      obtain ⟨hb, hwalk⟩ := walk_cons.1 hwalk
      rw [List.getLastD_cons] at hm
      exact Or.inr ⟨b, hb, _, ⟨steps, m, hwalk, Nat.le_of_succ_le_succ hlength, hm, rfl⟩, rfl⟩
  · rintro (rfl | ⟨b, hb, y, ⟨steps, m, hwalk, hlength, hm, rfl⟩, rfl⟩)
    · exact ⟨[], n, walk_nil g p id, Nat.zero_le _, h, rfl⟩
    · exact ⟨b :: steps, m, walk_cons.2 ⟨hb, hwalk⟩, Nat.succ_le_succ hlength,
        (List.getLastD_cons ..).symm ▸ hm, rfl⟩

theorem places_branch_zero : (branch g p 0 id n).places = [root id n] := rfl

theorem places_branch_succ (depth : Nat) : (branch g p (depth + 1) id n).places =
    root id n :: ((g.callees p id).flatMap fun m =>
      (branch g p depth m.label m).places).map (Place.under id) := by
  rw [branch, CallTree.places, placesAll_eq, List.flatMap_map]
  rfl

def trails (t : CallTree) : List (List Json) := t.places.map Place.labels

theorem trails_branch_succ (depth : Nat) : trails (branch g p (depth + 1) id n) =
    [id] :: ((g.callees p id).flatMap fun m => trails (branch g p depth m.label m)).map
      (List.cons id) := by
  simp only [trails, places_branch_succ, List.map_cons, List.map_map, List.map_flatMap]
  rfl

section
variable (hg : g.Sound) (hi : g.Identified p)
include hg hi

theorem mem_places_branch (depth : Nat) : ∀ {id : Json} {n : GraphNode} {x : Place},
    g.node? p id = some n → (x ∈ (branch g p depth id n).places ↔ Traced g p depth id x) := by
  induction depth with
  | zero =>
    intro id n x h
    rw [traced_zero h, places_branch_zero, List.mem_singleton]
  | succ depth ih =>
    intro id n x h
    simp only [traced_succ h, places_branch_succ, List.mem_cons, List.mem_map, List.mem_flatMap]
    refine or_congr_right ⟨?_, ?_⟩
    · rintro ⟨y, ⟨m, hm, hy⟩, rfl⟩
      obtain ⟨hfound, hleads⟩ := (mem_callees hg hi).1 hm
      exact ⟨m.label, hleads, y, (ih hfound).1 hy, rfl⟩
    · rintro ⟨b, hleads, y, hy, rfl⟩
      obtain ⟨m, hfound, hshown⟩ := hleads.2
      obtain rfl : m.label = b := by rw [GraphNode.label, hshown]; rfl
      exact ⟨y, ⟨m, (mem_callees hg hi).2 ⟨hfound, hleads⟩, (ih hfound).2 hy⟩, rfl⟩

theorem mem_trails_branch {depth : Nat} (h : g.node? p id = some n) {s : List Json} :
    s ∈ trails (branch g p depth id n) ↔
      ∃ steps, g.Walk p id steps ∧ steps.length ≤ depth ∧ s = id :: steps := by
  simp only [trails, List.mem_map, mem_places_branch hg hi depth h]
  constructor
  · rintro ⟨x, ⟨steps, m, hwalk, hlength, -, rfl⟩, rfl⟩
    exact ⟨steps, hwalk, hlength, rfl⟩
  · rintro ⟨steps, hwalk, hlength, rfl⟩
    obtain ⟨m, hm⟩ := hwalk.exists_node? h
    exact ⟨_, ⟨steps, m, hwalk, hlength, hm, rfl⟩, rfl⟩

/-- No walk is shown twice: below a function, its callees start different trails. -/
theorem nodup_trails_branch (depth : Nat) : ∀ {id : Json} {n : GraphNode},
    g.node? p id = some n → (trails (branch g p depth id n)).Nodup := by
  induction depth with
  | zero =>
    intro id n _
    exact List.nodup_singleton _
  | succ depth ih =>
    intro id n h
    have hstart {m : GraphNode} (hm : m ∈ g.callees p id) {s : List Json}
        (hs : s ∈ trails (branch g p depth m.label m)) : s.head? = some m.label := by
      obtain ⟨steps, -, -, rfl⟩ :=
        (mem_trails_branch hg hi ((mem_callees hg hi).1 hm).1).1 hs
      rfl
    rw [trails_branch_succ, List.nodup_cons]
    constructor
    · simp only [List.mem_map, List.mem_flatMap]
      rintro ⟨s, ⟨m, hm, hs⟩, hnil⟩
      obtain rfl : s = [] := List.tail_eq_of_cons_eq hnil
      exact absurd (hstart hm hs) (by simp)
    · refine List.Nodup.map (fun _ _ he => List.tail_eq_of_cons_eq he) ?_
      rw [List.nodup_flatMap]
      refine ⟨fun m hm => ih ((mem_callees hg hi).1 hm).1, ?_⟩
      refine (pairwise_callees hg hi).imp_of_mem fun ha hb hlabels s hs ht => hlabels ?_
      exact Option.some.inj ((hstart ha hs).symm.trans (hstart hb ht))

end

/-- **The tree of calls**: for a function that is known it is one tree, whose trails are the walks of
up to four calls, each once, and each place of which shows the function at the end of its trail. For
one that is not known there is none. -/
theorem tree_unfolds {w : World} (hw : w.troubles = []) (hg : w.graph.Sound)
    (hi : w.graph.Identified p) (hp : p.given.checkKey = .ok ()) (id : Json) :
    (w.graph.hasNode p id = true → ∃ t, (tree id p).answer w = .ok [t] ∧ (trails t).Nodup ∧
      (∀ s, s ∈ trails t ↔ ∃ steps, w.graph.Walk p id steps ∧ steps.length ≤ 4 ∧ s = id :: steps) ∧
      ∀ x ∈ t.places, ∃ m, w.graph.node? p (x.labels.getLastD id) = some m ∧
        x.parameters = shown m "parameters" ∧ x.response = shown m "response") ∧
    (w.graph.hasNode p id = false → id.checkKey = .ok () → (tree id p).answer w = .ok []) := by
  have hfixed : Fixed w.graph w.store w := ⟨rfl, rfl, hw⟩
  constructor
  · intro hknown
    obtain ⟨n, hn⟩ := Option.isSome_iff_exists.1 hknown
    refine ⟨branch w.graph p shownDepth id n, ?_, nodup_trails_branch hg hi _ hn,
      fun s => mem_trails_branch hg hi hn, fun x hx => ?_⟩
    · exact (gives_unfold hp hg hi shownDepth hn w hfixed).1
    · obtain ⟨steps, m, -, -, hm, rfl⟩ := (mem_places_branch hg hi _ hn).1 hx
      exact ⟨m, (List.getLastD_cons ..).symm ▸ hm, rfl, rfl⟩
  · intro hmissing hid
    have hnone : w.graph.node? p id = none := by
      rwa [hasNode, Option.isSome_eq_false_iff, Option.isNone_iff_eq_none] at hmissing
    exact (gives_unfold_none hp hid hnone shownDepth w hfixed).1

/-- Two functions that call each other, one of which also calls itself. -/
def ring : World :=
  { World.vacant with
    graph := .ofNames (.number 1) ["/a.py:f", "/b.py:g"]
      [("/a.py:f", "/b.py:g"), ("/b.py:g", "/a.py:f"), ("/b.py:g", "/b.py:g")] }

theorem ring_sound : ring.graph.Sound :=
  Graph.sound_ofNames (by decide) (by decide) (by decide)

theorem ring_identified : ring.graph.Identified (.number 1) := Graph.named_ofNames.identified

/-- On a cycle the tree follows the calls round until four are made. -/
theorem ring_unfolds :
    (∃ t, (tree (.str "/a.py:f") (.number 1)).answer ring = .ok [t] ∧ (trails t).Nodup ∧
      ["/a.py:f", "/b.py:g", "/b.py:g", "/a.py:f", "/b.py:g"].map Json.str ∈ trails t ∧
      ∀ s ∈ trails t, s.length ≤ 5) ∧
    (tree (.str "/c.py:h") (.number 1)).answer ring = .ok [] := by
  obtain ⟨hknown, -⟩ := tree_unfolds (w := ring) rfl ring_sound ring_identified rfl
    (.str "/a.py:f")
  obtain ⟨-, hmissing⟩ := tree_unfolds (w := ring) rfl ring_sound ring_identified rfl
    (.str "/c.py:h")
  obtain ⟨t, hanswer, hnodup, htrails, -⟩ := hknown (by decide)
  have hfg : ring.graph.LeadsTo (.number 1) (.str "/a.py:f") (.str "/b.py:g") :=
    ⟨by decide, _, rfl, rfl⟩
  have hgf : ring.graph.LeadsTo (.number 1) (.str "/b.py:g") (.str "/a.py:f") :=
    ⟨by decide, _, rfl, rfl⟩
  have hgg : ring.graph.LeadsTo (.number 1) (.str "/b.py:g") (.str "/b.py:g") :=
    ⟨by decide, _, rfl, rfl⟩
  refine ⟨⟨t, hanswer, hnodup, ?_, fun s hs => ?_⟩, hmissing (by decide) rfl⟩
  · refine (htrails _).2 ⟨["/b.py:g", "/b.py:g", "/a.py:f", "/b.py:g"].map .str, ?_, by decide, rfl⟩
    exact walk_cons.2 ⟨hfg, walk_cons.2 ⟨hgg, walk_cons.2 ⟨hgf, walk_cons.2 ⟨hfg,
      walk_nil _ _ _⟩⟩⟩⟩
  · obtain ⟨steps, -, hlength, rfl⟩ := (htrails s).1 hs
    exact Nat.succ_le_succ hlength

end Flow
end CodeAtlas
