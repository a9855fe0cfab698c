import CodeAtlas.Proofs.GraphSession
import CodeAtlas.Proofs.Table
import Mathlib.Data.List.Nodup

/-!
# The code graph stays well formed

`Graph.Sound` says what every graph is that the service can build: nodes are told apart by project
and identifier and show both, edges are told apart by their ends, and the ends of an edge are nodes
of one project.

* `Sound.upsert`, `Sound.connect`, `Sound.extend`, `Sound.deleteProject`: what one change keeps;
* `GraphCommand.session_sound`: what any sequence of commands keeps.
-/
namespace CodeAtlas

/-! ## Values of one meaning -/

namespace Json

theorem same_iff {a b : Json} : a.same b = true ↔ a.canonical = b.canonical := by simp [same]

theorem canonical_real (x : Binary64) :
    (real x).canonical = .real x ∨ ∃ n, (real x).canonical = .int n := by
  cases h : x.whole? with
  | none => left; simp [canonical, h]
  | some n => right; exact ⟨n, by simp [canonical, h]⟩

theorem canonical_eq_null_iff {v : Json} : v.canonical = .null ↔ v = .null := by
  cases v with
  | real x => rcases canonical_real x with h | ⟨n, h⟩ <;> simp [h]
  | _ => simp [canonical]

theorem canonical_eq_str_iff {v : Json} {s : String} : v.canonical = .str s ↔ v = .str s := by
  cases v with
  | real x => rcases canonical_real x with h | ⟨n, h⟩ <;> simp [h]
  | _ => simp [canonical]

/-- A text means the same as no other value. -/
theorem same_str_iff {v : Json} {s : String} : v.same (.str s) = true ↔ v = .str s := by
  rw [same_iff, show (Json.str s).canonical = .str s by simp [canonical], canonical_eq_str_iff]

theorem str_same_iff {v : Json} {s : String} : (Json.str s).same v = true ↔ v = .str s := by
  rw [same_comm, same_str_iff]

theorem ne_null_of_same {v k : Json} (h : v.same k = true) (hk : k ≠ .null) : v ≠ .null := by
  rintro rfl
  rw [same_iff, eq_comm, show Json.null.canonical = .null by simp [canonical],
    canonical_eq_null_iff] at h
  exact hk h

theorem checkKey_canonical (v : Json) : v.canonical.checkKey = v.checkKey := by
  cases v with
  | real x => rcases canonical_real x with h | ⟨n, h⟩ <;> simp [h, checkKey]
  | _ => simp [canonical, checkKey]

/-- What means the same as a key is no list and no object, so it is kept as it is. -/
theorem serialised_of_same {v k : Json} (hk : k.checkKey = .ok ()) (h : v.same k = true) :
    GraphService.serialised v = v := by
  have hv : v.checkKey = .ok () := by
    rw [← checkKey_canonical, same_iff.1 h, checkKey_canonical, hk]
  cases v with
  | arr _ => cases hv
  | obj _ => cases hv
  | _ => rfl

end Json

def ProjectKey.meaning (p : ProjectKey) : Json := p.given.canonical

theorem ProjectKey.same_iff {p q : ProjectKey} : p.same q = true ↔ p.meaning = q.meaning :=
  Json.same_iff

/-- What stands for a number of a project can tell nodes apart. -/
theorem ProjectKey.checkKey_of_cell {p : ProjectKey} {c : Cell} (h : p.cell = .ok c) :
    p.given.checkKey = .ok () := by
  unfold cell at h
  cases hp : p.given with
  | arr _ => rw [hp] at h; cases h
  | obj _ => rw [hp] at h; cases h
  | _ => rfl

theorem ProjectKey.checkKeys_str {p : ProjectKey} {c : Cell} (h : p.cell = .ok c) (x : String) :
    GraphService.checkKeys p [.str x] = .ok () := by
  unfold GraphService.checkKeys
  rw [p.checkKey_of_cell h]
  rfl

def GraphNode.key (n : GraphNode) : Json × Json := (n.project.meaning, n.id.canonical)

def NodeRef.key (r : NodeRef) : Json × Json := (r.project.meaning, r.id.canonical)

/-- What tells a call apart from the others: the nodes that it leads from and to. -/
def CallEdge.key (e : CallEdge) : (Json × Json) × Json × Json := (e.source.key, e.target.key)

/-- What tells the connection of a class with a base apart from the others. -/
def ExtendsEdge.key (e : ExtendsEdge) : (Json × Json) × Json × Json := (e.derived.key, e.base.key)

theorem GraphNode.is_iff {n : GraphNode} {p : ProjectKey} {id : Json} :
    n.is p id = true ↔ n.key = (p.meaning, id.canonical) := by
  simp [is, key, ProjectKey.same_iff, Json.same_iff]

namespace NodeRef

variable {r s : NodeRef} {p : ProjectKey} {id : Json}

theorem is_iff : r.is p id = true ↔ r.key = (p.meaning, id.canonical) := by
  simp [is, key, ProjectKey.same_iff, Json.same_iff]

theorem is_iff_same : r.is p id = true ↔ r.project.same p = true ∧ r.id.same id = true := by
  simp [is]

theorem same_iff : r.same s = true ↔ r.key = s.key := is_iff

end NodeRef

theorem CallEdge.is_iff {e : CallEdge} {p : ProjectKey} {a b : Json} :
    e.is p a b = true ↔ e.key = ((p.meaning, a.canonical), p.meaning, b.canonical) := by
  simp [is, key, NodeRef.is_iff]

theorem ExtendsEdge.is_iff {e : ExtendsEdge} {p : ProjectKey} {a b : Json} :
    e.is p a b = true ↔ e.key = ((p.meaning, a.canonical), p.meaning, b.canonical) := by
  simp [is, key, NodeRef.is_iff]

/-! ## Properties of a node -/

namespace Properties

/-- A property is there with a given meaning; nothing is asked of a property that means nothing. -/
def Shows (t : Properties) (key : String) (v : Json) : Prop :=
  v ≠ .null → ∃ x, Table.get? t key = some x ∧ x.same v = true

theorem Shows.assign {t : Properties} {key : String} {v : Json} (h : Shows t key v) (k : String)
    (x : Json) (hx : k = key → x.same v = true) : Shows (t.assign k x) key v := by
  intro hv
  by_cases hk : k = key
  · subst hk
    have hn := Json.ne_null_of_same (hx rfl) hv
    exact ⟨x, by simp [Properties.assign, hn], hx rfl⟩
  · obtain ⟨y, hy, hs⟩ := h hv
    refine ⟨y, ?_, hs⟩
    unfold Properties.assign
    split
    · rw [Table.get?_erase_of_ne t hk]; exact hy
    · rw [Table.get?_set_of_ne t x hk]; exact hy

theorem Shows.assignAll {key : String} {v : Json} (ps : List (String × Json))
    (hps : ∀ x, (key, x) ∈ ps → x.same v = true) :
    ∀ {t : Properties}, Shows t key v → Shows (t.assignAll ps) key v := by
  induction ps with
  | nil => exact fun h => h
  | cons p ps ih =>
    obtain ⟨k, x⟩ := p
    intro t h
    refine ih (fun y hy => hps y (List.mem_cons_of_mem _ hy)) (h.assign k x ?_)
    rintro rfl
    exact hps x List.mem_cons_self

theorem nodup_assignAll (ps : List (String × Json)) :
    ∀ {t : Properties}, (Table.keys t).Nodup → (Table.keys (t.assignAll ps)).Nodup := by
  induction ps with
  | nil => exact fun h => h
  | cons p ps ih =>
    obtain ⟨k, x⟩ := p
    intro t h
    refine ih ?_
    simp only [Properties.assign]
    split
    · exact Table.nodup_erase h k
    · exact Table.nodup_set h k x

end Properties

/-! ## The invariant -/

namespace Graph

/-- Two ends of an edge are nodes of the graph, and of one project. -/
structure Joins (g : Graph) (r s : NodeRef) : Prop where
  first : r.key ∈ g.nodes.map GraphNode.key
  second : s.key ∈ g.nodes.map GraphNode.key
  project : r.project.same s.project = true

/-- What every graph is that the service can build. -/
structure Sound (g : Graph) : Prop where
  nodes : (g.nodes.map GraphNode.key).Nodup
  calls : (g.calls.map CallEdge.key).Nodup
  extensions : (g.extensions.map ExtendsEdge.key).Nodup
  callEnds : ∀ e ∈ g.calls, g.Joins e.source e.target
  extensionEnds : ∀ e ∈ g.extensions, g.Joins e.derived e.base
  properties : ∀ n ∈ g.nodes, (Table.keys n.properties).Nodup
  ids : ∀ n ∈ g.nodes, n.properties.Shows "id" n.id
  projects : ∀ n ∈ g.nodes, n.properties.Shows "project_id" n.project.given

theorem sound_empty : empty.Sound := by
  constructor <;> simp [empty]

theorem freshNode_shows (p : ProjectKey) (id : Json) :
    (freshNode p id).properties.Shows "id" id ∧
      (freshNode p id).properties.Shows "project_id" p.given :=
  ⟨fun _ => ⟨id, by simp [freshNode, Table.get?], Json.same_self id⟩,
    fun _ => ⟨p.given, by simp [freshNode, Table.get?], Json.same_self p.given⟩⟩

theorem hasNode_iff {g : Graph} {p : ProjectKey} {id : Json} :
    g.hasNode p id = true ↔ (p.meaning, id.canonical) ∈ g.nodes.map GraphNode.key := by
  simp [hasNode, node?, List.find?_isSome, GraphNode.is_iff]

theorem hasNodes_iff {g : Graph} {p : ProjectKey} {a b : Json} :
    g.hasNodes p a b = true ↔ g.hasNode p a = true ∧ g.hasNode p b = true := by
  simp [hasNodes]

theorem hasNodes_iff_key {g : Graph} {p : ProjectKey} {a b : Json} :
    g.hasNodes p a b = true ↔ (p.meaning, a.canonical) ∈ g.nodes.map GraphNode.key ∧
      (p.meaning, b.canonical) ∈ g.nodes.map GraphNode.key := by
  rw [hasNodes_iff, hasNode_iff, hasNode_iff]

theorem joins_of_hasNodes {g : Graph} {p : ProjectKey} {a b : Json}
    (h : g.hasNodes p a b = true) : g.Joins ⟨p, a⟩ ⟨p, b⟩ :=
  ⟨(hasNodes_iff_key.1 h).1, (hasNodes_iff_key.1 h).2, p.same_self⟩

namespace Joins

variable {g : Graph} {r s : NodeRef} {p : ProjectKey} {a b : Json}

theorem mono (h : g.Joins r s) {k : Graph}
    (hk : g.nodes.map GraphNode.key ⊆ k.nodes.map GraphNode.key) : k.Joins r s :=
  ⟨hk h.first, hk h.second, h.project⟩

theorem congr (h : g.Joins r s) {r' s' : NodeRef} (hr : r.key = r'.key) (hs : s.key = s'.key) :
    g.Joins r' s' := by
  refine ⟨hr ▸ h.first, hs ▸ h.second, ?_⟩
  have hproject := ProjectKey.same_iff.1 h.project
  rw [(Prod.mk.inj hr).1, (Prod.mk.inj hs).1] at hproject
  exact ProjectKey.same_iff.2 hproject

/-- The second end is of the project of the first. -/
theorem second_same (h : g.Joins r s) (hp : r.project.same p = true) : s.project.same p = true :=
  ProjectKey.same_trans (ProjectKey.same_comm r.project s.project ▸ h.project) hp

theorem hasNodes (h : g.Joins r s) (hp : r.project.same p = true) :
    g.hasNodes p r.id s.id = true := by
  have hs := h.second_same hp
  rw [ProjectKey.same_iff] at hp hs
  rw [hasNodes_iff_key, ← hp]
  exact ⟨h.first, hp ▸ hs ▸ h.second⟩

end Joins

theorem nodeAt?_of_is {g : Graph} {r : NodeRef} {p : ProjectKey} {id : Json}
    (h : r.is p id = true) : g.nodeAt? r = g.node? p id := by
  unfold nodeAt? node?
  congr 1
  funext n
  rw [Bool.eq_iff_iff, GraphNode.is_iff, GraphNode.is_iff, ← NodeRef.is_iff.1 h, NodeRef.key]

theorem nodeAt?_of_same {g : Graph} {r : NodeRef} {p : ProjectKey} (h : r.project.same p = true) :
    g.nodeAt? r = g.node? p r.id :=
  nodeAt?_of_is (NodeRef.is_iff_same.2 ⟨h, Json.same_self r.id⟩)

theorem node?_eq_some {g : Graph} {p : ProjectKey} {id : Json} {n : GraphNode}
    (h : g.node? p id = some n) : n ∈ g.nodes ∧ n.key = (p.meaning, id.canonical) := by
  unfold node? at h
  have his := List.find?_some h
  exact ⟨List.mem_of_find?_eq_some h, GraphNode.is_iff.1 his⟩

theorem node?_str {g : Graph} {p : ProjectKey} {x : String} {n : GraphNode}
    (h : g.node? p (.str x) = some n) : n ∈ g.nodes ∧ n.project.same p = true ∧ n.id = .str x := by
  obtain ⟨hn, hk⟩ := node?_eq_some h
  simp only [GraphNode.key, Prod.mk.injEq] at hk
  exact ⟨hn, ProjectKey.same_iff.2 hk.1, Json.same_str_iff.1 (Json.same_iff.2 hk.2)⟩

/-- A node that is known by a text shows it. -/
theorem Sound.get?_id {g : Graph} (hg : g.Sound) {n : GraphNode} (hn : n ∈ g.nodes) {x : String}
    (hx : n.id = .str x) : Table.get? n.properties "id" = some (.str x) := by
  obtain ⟨v, hv, hs⟩ := hg.ids n hn (by simp [hx])
  rw [hx, Json.same_str_iff] at hs
  rw [hv, hs]

/-! ## What one change keeps -/

@[simp] theorem upsert_calls (g : Graph) (p : ProjectKey) (id : Json) (ps : List (String × Json)) :
    (g.upsert p id ps).calls = g.calls := by
  unfold upsert; split <;> rfl

@[simp] theorem upsert_extensions (g : Graph) (p : ProjectKey) (id : Json)
    (ps : List (String × Json)) : (g.upsert p id ps).extensions = g.extensions := by
  unfold upsert; split <;> rfl

def setOn (ps : List (String × Json)) (n : GraphNode) : GraphNode :=
  { n with properties := Properties.assignAll n.properties ps }

theorem mem_upsert {g : Graph} {p : ProjectKey} {id : Json} {ps : List (String × Json)}
    {m : GraphNode} (h : m ∈ (g.upsert p id ps).nodes) :
    m ∈ g.nodes ∨ ∃ n, (n ∈ g.nodes ∨ n = freshNode p id) ∧ n.is p id = true ∧ m = setOn ps n := by
  unfold upsert at h
  split at h
  · simp only [List.mem_map] at h
    obtain ⟨n, hn, rfl⟩ := h
    split
    · exact Or.inr ⟨n, Or.inl hn, ‹_›, rfl⟩
    · exact Or.inl hn
  · simp only [List.mem_append, List.mem_singleton] at h
    rcases h with h | rfl
    · exact Or.inl h
    · exact Or.inr ⟨freshNode p id, Or.inr rfl, by simp [freshNode, GraphNode.is], rfl⟩

theorem map_key_upsert (g : Graph) (p : ProjectKey) (id : Json) (ps : List (String × Json)) :
    (g.upsert p id ps).nodes.map GraphNode.key =
      if g.hasNode p id then g.nodes.map GraphNode.key
      else g.nodes.map GraphNode.key ++ [(p.meaning, id.canonical)] := by
  unfold upsert
  split
  · rw [List.map_map]
    refine List.map_congr_left fun n _ => ?_
    simp only [Function.comp_apply]
    split <;> rfl
  · rw [List.map_append]; rfl

theorem nodup_key_upsert {g : Graph} (hg : (g.nodes.map GraphNode.key).Nodup) (p : ProjectKey)
    (id : Json) (ps : List (String × Json)) :
    ((g.upsert p id ps).nodes.map GraphNode.key).Nodup := by
  rw [map_key_upsert]
  split
  · exact hg
  · next hn =>
    rw [hasNode_iff] at hn
    exact List.nodup_append.2 ⟨hg, by simp, fun a ha b hb he =>
      hn (List.mem_singleton.1 hb ▸ he ▸ ha)⟩

theorem Sound.upsert {g : Graph} (hg : g.Sound) {p : ProjectKey} {id : Json}
    {ps : List (String × Json)} (hid : ∀ v, ("id", v) ∈ ps → v.same id = true)
    (hp : ∀ v, ("project_id", v) ∈ ps → v.same p.given = true) : (g.upsert p id ps).Sound := by
  have hkeys : g.nodes.map GraphNode.key ⊆ (g.upsert p id ps).nodes.map GraphNode.key := by
    rw [map_key_upsert]
    split
    · exact List.Subset.refl _
    · exact List.subset_append_left _ _
  constructor
  · exact nodup_key_upsert hg.nodes p id ps
  · simpa using hg.calls
  · simpa using hg.extensions
  · intro e he
    exact (hg.callEnds e (by simpa using he)).mono hkeys
  · intro e he
    exact (hg.extensionEnds e (by simpa using he)).mono hkeys
  · intro m hm
    rcases mem_upsert hm with hm | ⟨n, hn | rfl, -, rfl⟩
    · exact hg.properties m hm
    · exact Properties.nodup_assignAll ps (hg.properties n hn)
    · exact Properties.nodup_assignAll ps (by simp [freshNode, Table.keys])
  · intro m hm
    rcases mem_upsert hm with hm | ⟨n, hn, his, rfl⟩
    · exact hg.ids m hm
    · simp only [GraphNode.is, Bool.and_eq_true] at his
      refine Properties.Shows.assignAll ps (fun v hv => ?_) ?_
      · exact Json.same_trans (hid v hv) (Json.same_comm id n.id ▸ his.2)
      · rcases hn with hn | rfl
        · exact hg.ids n hn
        · exact (freshNode_shows p id).1
  · intro m hm
    rcases mem_upsert hm with hm | ⟨n, hn, his, rfl⟩
    · exact hg.projects m hm
    · simp only [GraphNode.is, Bool.and_eq_true] at his
      refine Properties.Shows.assignAll ps (fun v hv => ?_) ?_
      · exact Json.same_trans (hp v hv) (Json.same_comm p.given n.project.given ▸ his.1)
      · rcases hn with hn | rfl
        · exact hg.projects n hn
        · exact (freshNode_shows p id).2

theorem map_key_connect (g : Graph) (p : ProjectKey) (a b : Json) (ps : List (String × Json)) :
    (g.connect p a b ps).calls.map CallEdge.key =
      if g.hasNodes p a b && !(g.calls.any fun e => e.is p a b) then
        g.calls.map CallEdge.key ++ [((p.meaning, a.canonical), p.meaning, b.canonical)]
      else g.calls.map CallEdge.key := by
  unfold connect
  cases g.hasNodes p a b with
  | false => rfl
  | true =>
    cases g.calls.any fun e => e.is p a b with
    | false => simp [CallEdge.key, NodeRef.key]
    | true =>
      simp only [if_true, Bool.not_true, Bool.and_false, Bool.false_eq_true, if_false, List.map_map]
      refine List.map_congr_left fun e _ => ?_
      simp only [Function.comp_apply]
      split <;> rfl

@[simp] theorem connect_nodes (g : Graph) (p : ProjectKey) (a b : Json)
    (ps : List (String × Json)) : (g.connect p a b ps).nodes = g.nodes := by
  unfold connect; split
  · split <;> rfl
  · rfl

@[simp] theorem connect_extensions (g : Graph) (p : ProjectKey) (a b : Json)
    (ps : List (String × Json)) : (g.connect p a b ps).extensions = g.extensions := by
  unfold connect; split
  · split <;> rfl
  · rfl

theorem joins_of_key {g : Graph} {e f : CallEdge} (hk : f.key = e.key)
    (hf : g.Joins f.source f.target) : g.Joins e.source e.target :=
  hf.congr (Prod.mk.inj hk).1 (Prod.mk.inj hk).2

theorem Sound.connect {g : Graph} (hg : g.Sound) (p : ProjectKey) (a b : Json)
    (ps : List (String × Json)) : (g.connect p a b ps).Sound := by
  have hcalls := map_key_connect g p a b ps
  refine ⟨by simpa using hg.nodes, ?_, by simpa using hg.extensions, ?_, ?_,
    by simpa using hg.properties, by simpa using hg.ids, by simpa using hg.projects⟩
  · rw [hcalls]
    split
    · rename_i hc
      simp only [Bool.and_eq_true, Bool.not_eq_true', List.any_eq_false, CallEdge.is_iff] at hc
      refine List.nodup_append.2 ⟨hg.calls, by simp, fun k hk l hl he => ?_⟩
      obtain ⟨e, he', rfl⟩ := List.mem_map.1 hk
      exact hc.2 e he' (he.trans (List.mem_singleton.1 hl))
    · exact hg.calls
  · intro e he
    -- a call afterwards has the key of one from before or that of the new one; both have ends
    suffices hends : g.Joins e.source e.target from hends.mono (by simp)
    have hk : e.key ∈ (g.connect p a b ps).calls.map CallEdge.key := List.mem_map_of_mem he
    rw [hcalls] at hk
    split at hk
    · rename_i hc
      rcases List.mem_append.1 hk with hk | hk
      · obtain ⟨f, hf, hkey⟩ := List.mem_map.1 hk
        exact joins_of_key hkey (hg.callEnds f hf)
      · exact joins_of_key (f := ⟨⟨p, a⟩, ⟨p, b⟩, []⟩) (List.mem_singleton.1 hk).symm
          (joins_of_hasNodes (Bool.and_eq_true_iff.1 hc).1)
    · obtain ⟨f, hf, hkey⟩ := List.mem_map.1 hk
      exact joins_of_key hkey (hg.callEnds f hf)
  · exact fun e he => (hg.extensionEnds e (by simpa using he)).mono (by simp)

theorem extend_eq {g : Graph} {p : ProjectKey} {derived base : Json}
    (hnodes : g.hasNodes p derived base = true)
    (hold : (g.extensions.map ExtendsEdge.key).Nodup) :
    ∃ new, g.extend p derived base = { g with extensions := g.extensions ++ new } ∧
      ((g.extensions ++ new).map ExtendsEdge.key).Nodup ∧ (∀ x ∈ new, x = ⟨⟨p, derived⟩, ⟨p, base⟩⟩) ∧
      ∃ x ∈ g.extensions ++ new, x.is p derived base = true := by
  unfold Graph.extend
  rw [hnodes, Bool.true_and]
  by_cases hany : g.extensions.any (fun e => e.is p derived base) = true
  · refine ⟨[], by simp [hany], by simpa using hold, by simp, ?_⟩
    simpa using hany
  · refine ⟨[⟨⟨p, derived⟩, ⟨p, base⟩⟩], by simp [hany], ?_, by simp, ⟨⟨p, derived⟩, ⟨p, base⟩⟩,
      by simp, ?_⟩
    · rw [List.map_append]
      refine List.nodup_append.2 ⟨hold, by simp, fun k hk l hl he => hany ?_⟩
      obtain ⟨e, hmem, rfl⟩ := List.mem_map.1 hk
      exact List.any_eq_true.2
        ⟨e, hmem, ExtendsEdge.is_iff.2 (he.trans (List.mem_singleton.1 hl))⟩
    · exact ExtendsEdge.is_iff.2 rfl

theorem Sound.extend {g : Graph} (hg : g.Sound) (p : ProjectKey) (a b : Json) :
    (g.extend p a b).Sound := by
  by_cases hnodes : g.hasNodes p a b = true
  · obtain ⟨new, heq, honce, honly, -⟩ := extend_eq hnodes hg.extensions
    rw [heq]
    refine { hg with
      extensions := honce
      callEnds := fun e he => (hg.callEnds e he).mono (List.Subset.refl _)
      extensionEnds := fun e he => Joins.mono (g := g) ?_ (List.Subset.refl _) }
    rcases List.mem_append.1 he with he | he
    · exact hg.extensionEnds e he
    · rw [honly e he]
      exact joins_of_hasNodes hnodes
  · unfold Graph.extend
    rw [Bool.eq_false_iff.2 hnodes, Bool.false_and, if_neg Bool.false_ne_true]
    exact hg

/-- Where edges can be told apart, one that is there is there once. -/
theorem countP_is {p : ProjectKey} {es : List ExtendsEdge}
    (hes : (es.map ExtendsEdge.key).Nodup) {derived base : Json}
    (h : ∃ x ∈ es, x.is p derived base = true) : es.countP (·.is p derived base) = 1 := by
  obtain ⟨x, hx, his⟩ := h
  have hkey : ((p.meaning, derived.canonical), p.meaning, base.canonical) ∈
      es.map ExtendsEdge.key :=
    ExtendsEdge.is_iff.1 his ▸ List.mem_map_of_mem hx
  rw [← List.count_eq_one_of_mem hes hkey, List.count, List.countP_map]
  refine List.countP_congr fun e _ => ?_
  simp [ExtendsEdge.is_iff]

/-- Nodes of other projects are still there. -/
theorem mem_nodes_deleteProject {g : Graph} {p : ProjectKey} {r : NodeRef}
    (hp : r.project.same p = false) (h : r.key ∈ g.nodes.map GraphNode.key) :
    r.key ∈ (g.deleteProject p).nodes.map GraphNode.key := by
  obtain ⟨n, hn, hkey⟩ := List.mem_map.1 h
  refine List.mem_map.2 ⟨n, List.mem_filter.2 ⟨hn, ?_⟩, hkey⟩
  have hproject : n.project.meaning = r.project.meaning := (Prod.mk.inj hkey).1
  rw [Bool.not_eq_true', ← Bool.not_eq_true, ProjectKey.same_iff, hproject, ← ProjectKey.same_iff,
    Bool.not_eq_true]
  exact hp

theorem Joins.deleteProject {g : Graph} {p : ProjectKey} {r s : NodeRef} (h : g.Joins r s)
    (hleft : (!r.project.same p && !s.project.same p) = true) : (g.deleteProject p).Joins r s := by
  simp only [Bool.and_eq_true, Bool.not_eq_true'] at hleft
  exact ⟨mem_nodes_deleteProject hleft.1 h.first, mem_nodes_deleteProject hleft.2 h.second, h.project⟩

theorem Sound.deleteProject {g : Graph} (hg : g.Sound) (p : ProjectKey) :
    (g.deleteProject p).Sound := by
  refine ⟨(List.filter_sublist.map _).nodup hg.nodes, (List.filter_sublist.map _).nodup hg.calls,
    (List.filter_sublist.map _).nodup hg.extensions, ?_, ?_,
    fun n hn => hg.properties n (List.mem_filter.1 hn).1,
    fun n hn => hg.ids n (List.mem_filter.1 hn).1,
    fun n hn => hg.projects n (List.mem_filter.1 hn).1⟩
  · intro e he
    obtain ⟨hm, hleft⟩ := List.mem_filter.1 he
    exact (hg.callEnds e hm).deleteProject hleft
  · intro e he
    obtain ⟨hm, hleft⟩ := List.mem_filter.1 he
    exact (hg.extensionEnds e hm).deleteProject hleft

end Graph

/-! ## What commands keep -/

namespace GraphCommand
open GraphService

/-- Properties have each name once, and none of them is a different identifier. -/
def Proper : GraphCommand → Prop
  | upsert id _ ps => (Table.keys ps).Nodup ∧ ∀ v, ("id", v) ∈ ps → v.same id = true
  | _ => True

theorem checkKeys_ok {p : ProjectKey} {ids : List Json} (h : checkKeys p ids = .ok ()) :
    p.given.checkKey = .ok () ∧ ∀ id ∈ ids, id.checkKey = .ok () := by
  have hforM (ids : List Json) (h : ids.forM Json.checkKey = .ok ()) :
      ∀ id ∈ ids, id.checkKey = .ok () := by
    induction ids with
    | nil => simp
    | cons id ids ih =>
      simp only [List.forM] at h
      cases hid : id.checkKey with
      | error e => rw [hid] at h; cases h
      | ok _ =>
        rw [hid] at h
        exact List.forall_mem_cons.2 ⟨hid, ih h⟩
  unfold checkKeys at h
  cases hp : p.given.checkKey with
  | error e => rw [hp] at h; cases h
  | ok _ =>
    rw [hp] at h
    exact ⟨rfl, hforM ids h⟩

theorem mem_written {p : ProjectKey} {ps : List (String × Json)} (hn : (Table.keys ps).Nodup)
    {k : String} {v : Json} (h : (k, v) ∈ written p ps) : ∃ x, v = serialised x ∧
      (k = "project_id" ∧ x = p.given ∨ k ≠ "project_id" ∧ (k, x) ∈ ps) := by
  obtain ⟨⟨j, x⟩, hx, he⟩ := List.mem_map.1 h
  simp only [Prod.mk.injEq] at he
  obtain ⟨rfl, rfl⟩ := he
  refine ⟨x, rfl, ?_⟩
  by_cases hj : j = "project_id"
  · subst hj
    exact Or.inl ⟨rfl, Table.eq_of_mem_set hn hx⟩
  · refine Or.inr ⟨hj, (Table.mem_set hx).resolve_right fun he => hj ?_⟩
    exact (Prod.mk.inj he).1

theorem effect_sound {c : GraphCommand} (hc : c.Proper) {g : Graph} (hg : g.Sound) :
    (c.effect g).Sound := by
  cases c with
  | upsert id p ps =>
    simp only [effect]
    split
    · rename_i hk
      obtain ⟨hp, hid⟩ := checkKeys_ok hk
      refine hg.upsert (fun v hv => ?_) (fun v hv => ?_)
      · obtain ⟨x, rfl, hx | hx⟩ := mem_written hc.1 hv
        · exact absurd hx.1 (by decide)
        · have hs := hc.2 x hx.2
          rwa [Json.serialised_of_same (hid id (List.mem_singleton_self id)) hs]
      · obtain ⟨x, rfl, hx | hx⟩ := mem_written hc.1 hv
        · rw [hx.2, Json.serialised_of_same hp (Json.same_self _)]
          exact Json.same_self _
        · exact absurd rfl hx.1
    · exact hg
  | connect a b p properties =>
    simp only [effect]
    split
    · exact hg.connect p a b _
    · exact hg
  | extend base derived p =>
    simp only [effect]
    split
    · exact hg.extend p derived base
    · exact hg
  | delete p => exact hg.deleteProject p

theorem effects_sound {cs : List GraphCommand} (hcs : ∀ c ∈ cs, c.Proper) {g : Graph}
    (hg : g.Sound) : (effects cs g).Sound :=
  effects_keep (fun c hc _ => effect_sound (hcs c hc)) hg

/-- **Every reachable graph**: commands keep a graph well formed. -/
theorem session_sound {cs : List GraphCommand} (hcs : ∀ c ∈ cs, c.Proper) {w : World}
    (hw : w.troubles = []) (hg : w.graph.Sound) : (session cs w).graph.Sound := by
  obtain ⟨l, hl⟩ := after_session cs hw
  rw [hl]
  exact effects_sound hcs hg

end GraphCommand
end CodeAtlas
