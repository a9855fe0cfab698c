import CodeAtlas.Proofs.Confinement
import CodeAtlas.Proofs.DetectedEntries
import Mathlib.Data.List.Forall2

/-!
# What the detection of entry points writes

Where a decorator names a response type, the detection asks the graph service for the node of the
function and writes all that it read back, with the response type among it. The service turns lists
and objects into texts, takes null for a removal and writes the number of the project, so this does no
harm only because no node that the service made has a property that it would write in another way.

* `Graph.Stable`: the properties of nodes are such that writing them back changes nothing;
  `GraphCommand.effects_stable`: every graph that commands make is so;
* `Graph.Renoted`: the only difference between two graphs are response types of a project that
  somebody named;
* `Decorator.noteResponse_cases`: what noting one response type does;
* `Decorator.only_responses_noted`: the detection, however often it is made, makes no other
  difference, and if it ends well every response type that is named was noted.
-/
namespace CodeAtlas

theorem GraphService.serialised_serialised (v : Json) :
    serialised (serialised v) = serialised v := by
  cases v <;> rfl

/-! ## Graphs in which writing back changes nothing -/

theorem ProjectKey.number_same_iff {i j : Int} : (number i).same (number j) = true ↔ i = j := by
  simp [same_iff, meaning, number, Json.canonical]

/-- The properties of a node are such that writing them back changes nothing: each is kept as it is,
and one is the number of the project. -/
structure GraphNode.Stable (n : GraphNode) : Prop where
  keys : (Table.keys n.properties).Nodup
  values : n.id ≠ .null → ∀ k v, Table.get? n.properties k = some v →
    GraphService.serialised v = v ∧ v ≠ .null
  project : ∃ i : Int, n.project = .number i ∧ Table.get? n.properties "project_id" = some (.int i)

/-- Nodes are told apart, and each is stable. -/
structure Graph.Stable (g : Graph) : Prop where
  distinct : (g.nodes.map GraphNode.key).Nodup
  nodes : ∀ n ∈ g.nodes, n.Stable

namespace Graph

theorem stable_empty : empty.Stable := ⟨List.nodup_nil, fun _ hn => by cases hn⟩

theorem stable_setOn {i : Int} {id : Json} {ps : List (String × Json)} {n : GraphNode}
    (hkeys : GraphService.checkKeys (.number i) [id] = .ok ()) (hps : (Table.keys ps).Nodup)
    (his : n.is (.number i) id = true) (hn : n.Stable ∨ n = freshNode (.number i) id) :
    (setOn (GraphCommand.written (.number i) ps) n).Stable := by
  have hid := (GraphCommand.checkKeys_ok hkeys).2 id (List.mem_singleton_self id)
  refine ⟨?_, fun hnull k v hv => ?_, i, ?_, ?_⟩
  · refine Properties.nodup_assignAll _ ?_
    rcases hn with hn | rfl
    · exact hn.keys
    · simp [freshNode, Table.keys]
  · rw [GraphCommand.get?_setOn hps] at hv
    split at hv
    · cases hv
      exact ⟨rfl, fun h => by cases h⟩
    · next hk =>
      cases hget : Table.get? ps k with
      | some x =>
        rw [hget] at hv
        obtain ⟨rfl, hx⟩ := Properties.shown_eq_some.1 hv
        exact ⟨GraphService.serialised_serialised x, hx⟩
      | none =>
        rw [hget] at hv
        rcases hn with hn | rfl
        · exact hn.values hnull k v hv
        · -- a new node has nothing but its identifier and its project
          simp only [Option.map_none, Option.getD_none, freshNode, Table.get?, if_neg hk] at hv
          split at hv
          · rw [← Option.some.inj hv]
            exact ⟨Json.serialised_of_same hid (Json.same_self id), hnull⟩
          · cases hv
  · rcases hn with hn | rfl
    · obtain ⟨j, hj, -⟩ := hn.project
      simp only [GraphNode.is, Bool.and_eq_true, hj, ProjectKey.number_same_iff] at his
      exact his.1 ▸ hj
    · rfl
  · rw [GraphCommand.get?_setOn hps, if_pos rfl]
    rfl

theorem Stable.upsert {g : Graph} (hg : g.Stable) {i : Int} {id : Json} {ps : List (String × Json)}
    (hkeys : GraphService.checkKeys (.number i) [id] = .ok ()) (hps : (Table.keys ps).Nodup) :
    (g.upsert (.number i) id (GraphCommand.written (.number i) ps)).Stable := by
  constructor
  · exact nodup_key_upsert hg.distinct _ id _
  · intro m hm
    rcases mem_upsert hm with hm | ⟨n, hn, his, rfl⟩
    · exact hg.nodes m hm
    · exact stable_setOn hkeys hps his (hn.imp_left (hg.nodes n))

end Graph

namespace GraphCommand

/-- The properties that a command sets have each name once. -/
def Distinct : GraphCommand → Prop
  | upsert _ _ ps => (Table.keys ps).Nodup
  | _ => True

/-- The project of a command is a number. -/
def Numbered (c : GraphCommand) : Prop := ∃ i : Int, c.project = .number i

theorem effect_stable {c : GraphCommand} (hc : c.Distinct) (hnumber : c.Numbered) {g : Graph}
    (hg : g.Stable) : (c.effect g).Stable := by
  cases c with
  | upsert id p ps =>
    obtain ⟨i, rfl⟩ := hnumber
    simp only [effect]
    split
    · next hk => exact hg.upsert hk hc
    · exact hg
  | connect a b p properties =>
    simp only [effect]
    split
    · exact ⟨by simpa using hg.distinct, by simpa using hg.nodes⟩
    · exact hg
  | extend base derived p =>
    simp only [effect, Graph.extend]
    split
    · split
      · exact ⟨hg.distinct, hg.nodes⟩
      · exact hg
    · exact hg
  | delete p =>
    exact ⟨(List.filter_sublist.map _).nodup hg.distinct,
      fun n hn => hg.nodes n (List.mem_filter.1 hn).1⟩

/-- **Every graph that commands make**: writing back what was read from it changes nothing. -/
theorem effects_stable {cs : List GraphCommand} (hcs : ∀ c ∈ cs, c.Distinct)
    (hnumbers : ∀ c ∈ cs, c.Numbered) {g : Graph} (hg : g.Stable) : (effects cs g).Stable :=
  effects_keep (fun c hc _ => effect_stable (hcs c hc) (hnumbers c hc)) hg

end GraphCommand

/-! ## Graphs that differ in response types -/

section
variable {p : ProjectKey} {i : Int} {named : String → String → Prop}

/-- A node before and after response types of a project were noted, where `named` says which
response types belong to which identifiers. No other property changes. -/
structure GraphNode.Renoted (p : ProjectKey) (named : String → String → Prop) (n m : GraphNode) :
    Prop where
  project : m.project = n.project
  id : m.id = n.id
  others : ∀ k, k ≠ "response" → Table.get? m.properties k = Table.get? n.properties k
  response : Table.get? m.properties "response" = Table.get? n.properties "response" ∨
    n.project.same p = true ∧ ∃ id r, n.id = .str id ∧ named id r ∧
      Table.get? m.properties "response" = some (.str r)

/-- Two graphs have the same nodes and the same edges, and differ at most in response types. -/
structure Graph.Renoted (p : ProjectKey) (named : String → String → Prop) (g h : Graph) : Prop where
  calls : h.calls = g.calls
  extensions : h.extensions = g.extensions
  nodes : List.Forall₂ (GraphNode.Renoted p named) g.nodes h.nodes

namespace GraphNode.Renoted

variable {n m l : GraphNode}

theorem refl (n : GraphNode) : Renoted p named n n :=
  ⟨rfl, rfl, fun _ _ => rfl, .inl rfl⟩

theorem trans (h : Renoted p named n m) (h' : Renoted p named m l) : Renoted p named n l where
  project := h'.project.trans h.project
  id := h'.id.trans h.id
  others k hk := (h'.others k hk).trans (h.others k hk)
  response := by
    rcases h'.response with hl | ⟨hp, id, r, hid, hr, hl⟩
    · rw [hl]
      exact h.response
    · exact .inr ⟨h.project ▸ hp, id, r, h.id ▸ hid, hr, hl⟩

theorem is_eq (h : Renoted p named n m) (q : ProjectKey) (id : Json) : m.is q id = n.is q id := by
  unfold GraphNode.is
  rw [h.project, h.id]

end GraphNode.Renoted

/-- **Reading and writing back**: what is written on a stable node is a response type and nothing
else. -/
theorem GraphNode.Stable.renoted {n : GraphNode} (hn : n.Stable) {id r : String}
    (hp : n.project.same (.number i) = true) (hid : n.id = .str id) (hr : named id r) :
    Renoted (.number i) named n (Graph.setOn
      (GraphCommand.written (.number i) (Table.set n.properties "response" (.str r))) n) := by
  have hread := GraphCommand.get?_setOn (Table.nodup_set hn.keys "response" (.str r)) (.number i) n
  refine ⟨rfl, rfl, fun k hk => ?_, .inr ⟨hp, id, r, hid, hr, ?_⟩⟩
  · rw [hread, Table.get?_set_of_ne _ _ (Ne.symm hk)]
    by_cases hproject : "project_id" = k
    · -- the number that is written is the one that was read
      subst hproject
      obtain ⟨j, hj, hshown⟩ := hn.project
      rw [hj, ProjectKey.number_same_iff] at hp
      rw [if_pos rfl, hshown, hp]
      rfl
    · rw [if_neg hproject]
      cases hget : Table.get? n.properties k with
      | none => rfl
      | some v =>
        obtain ⟨hv, hnull⟩ := hn.values (by simp [hid]) k v hget
        simp [hv, Properties.shown, hnull]
  · rw [hread, if_neg (by decide), Table.get?_set_self]
    rfl

namespace Graph.Renoted

variable {g h l : Graph}

theorem refl (g : Graph) : Renoted p named g g :=
  ⟨rfl, rfl, List.forall₂_same.2 fun n _ => .refl n⟩

theorem forall₂_trans {ns ms ls : List GraphNode}
    (hnm : List.Forall₂ (GraphNode.Renoted p named) ns ms)
    (hml : List.Forall₂ (GraphNode.Renoted p named) ms ls) :
    List.Forall₂ (GraphNode.Renoted p named) ns ls := by
  induction hnm generalizing ls with
  | nil => exact hml
  | cons hhead _ ih =>
    cases hml with
    | cons hhead' htail => exact .cons (hhead.trans hhead') (ih htail)

theorem trans (h₁ : Renoted p named g h) (h₂ : Renoted p named h l) : Renoted p named g l :=
  ⟨h₂.calls.trans h₁.calls, h₂.extensions.trans h₁.extensions, forall₂_trans h₁.nodes h₂.nodes⟩

/-- A node is found again. -/
theorem node?_eq_some (hgh : Renoted p named g h) {q : ProjectKey} {id : Json} {n : GraphNode}
    (hn : g.node? q id = some n) :
    ∃ m, h.node? q id = some m ∧ GraphNode.Renoted p named n m := by
  have hfind : ∀ {ns ms : List GraphNode}, List.Forall₂ (GraphNode.Renoted p named) ns ms →
      ns.find? (·.is q id) = some n →
        ∃ m, ms.find? (·.is q id) = some m ∧ GraphNode.Renoted p named n m := by
    intro ns ms hnodes hfound
    induction hnodes with
    | nil => cases hfound
    | @cons a b as bs hab _ ih =>
      rw [List.find?_cons] at hfound ⊢
      rw [hab.is_eq]
      cases his : a.is q id with
      | true =>
        rw [his] at hfound
        exact ⟨b, rfl, Option.some.inj hfound ▸ hab⟩
      | false =>
        rw [his] at hfound
        exact ih hfound
  exact hfind hgh.nodes hn

end Graph.Renoted

/-- What is written on the node of a function is a response type and nothing else. -/
theorem Graph.Stable.renoted {g : Graph} (hg : g.Stable) {id r : String} {n : GraphNode}
    (hn : g.node? (.number i) (.str id) = some n) (hr : named id r) :
    Renoted (.number i) named g (g.upsert (.number i) (.str id)
      (GraphCommand.written (.number i) (Table.set n.properties "response" (.str r)))) := by
  obtain ⟨hmem, hproject, hid⟩ := node?_str hn
  refine ⟨upsert_calls _ _ _ _, upsert_extensions _ _ _ _, ?_⟩
  rw [Graph.upsert, if_pos (by simp [hasNode, hn])]
  refine List.forall₂_map_right_iff.2 (List.forall₂_same.2 fun m hm => ?_)
  split
  · next his =>
    -- nodes are told apart, so this is the one that was read
    have hkey : m.key = n.key := (GraphNode.is_iff.1 his).trans (node?_eq_some hn).2.symm
    obtain rfl := List.inj_on_of_nodup_map hg.distinct hm hmem hkey
    exact (hg.nodes m hm).renoted hproject hid hr
  · exact .refl m

end

/-! ## One response type -/

namespace GraphService
open Run

theorem apart_graph : Apart World.graph := ⟨fun _ _ _ => rfl⟩

theorem eq_node?_of_ends {id : Json} {p : ProjectKey} {w v : World} {n : Option GraphNode}
    (h : (node? id p).ends w = (.ok n, v)) : n = w.graph.node? p id := by
  obtain ⟨_, u, hu, h⟩ := ends_bind_eq_ok h
  obtain ⟨_, t, ht, h⟩ := ends_bind_eq_ok h
  have hgraph := ((apart_graph.send _).bind fun _ => Keeps.lift _).of_ends ht
  rw [apart_graph.openSession.of_ends hu] at hgraph
  cases h
  rw [← hgraph]

/-- What setting properties on a node does, whatever the state of the service. -/
theorem upsert_cases {id : Json} {p : ProjectKey} {ps : List (String × Json)} {w v : World}
    {x : Except Failure Unit} (h : (upsert id p ps).ends w = (x, v)) :
    (∃ e, x = .error e) ∧ v.graph = w.graph ∨
      x = .ok () ∧ checkKeys p [id] = .ok () ∧
        v.graph = w.graph.upsert p id (GraphCommand.written p ps) := by
  unfold upsert upsertIn at h
  rcases apart_graph.openSession.bind_cases h with h | ⟨_, u, -, hu, h⟩
  · exact .inl h
  rcases (apart_graph.send _).bind_cases h with ⟨he, ht⟩ | ⟨_, t, -, ht, h⟩
  · exact .inl ⟨he, ht.trans hu⟩
  rw [ends_bind_ok _ (ends_note _ t), ends_bind_lift] at h
  cases hkeys : checkKeys p [id] with
  | error e =>
    rw [hkeys] at h
    cases h
    exact .inl ⟨⟨e, rfl⟩, ht.trans hu⟩
  | ok _ =>
    rw [hkeys] at h
    cases h
    refine .inr ⟨rfl, rfl, ?_⟩
    change Graph.upsert t.graph p id _ = _
    rw [ht, hu]
    rfl

end GraphService

namespace Decorator
open Run

section
variable {p : ProjectKey} {i : Int} {named : String → String → Prop} {id r : String} {w v : World}

/-- What noting a response type does: it is written on a node that is there, or nothing changes. -/
theorem noteResponse_cases {x : Except Failure Unit} (h : (noteResponse id p r).ends w = (x, v)) :
    (∃ e, x = .error e) ∧ v.graph = w.graph ∨
      x = .ok () ∧ GraphService.checkKeys p [.str id] = .ok () ∧
        ∃ n, w.graph.node? p (.str id) = some n ∧ v.graph = w.graph.upsert p (.str id)
          (GraphCommand.written p (Table.set n.properties "response" (.str r))) := by
  rcases (GraphService.apart_graph.node? _ _).bind_cases h with h | ⟨n, u, hnode, hu, h⟩
  · exact .inl h
  have hn := GraphService.eq_node?_of_ends hnode
  cases n with
  | none =>
    cases h
    exact .inl ⟨⟨_, rfl⟩, hu⟩
  | some n =>
    rcases GraphService.upsert_cases h with ⟨he, hv⟩ | ⟨hx, hkeys, hv⟩
    · exact .inl ⟨he, hv.trans hu⟩
    · exact .inr ⟨hx, hkeys, n, hn.symm, hu ▸ hv⟩

/-- The graph of a world stays stable and changes in response types only. -/
def Renotes (p : ProjectKey) (named : String → String → Prop) (w v : World) : Prop :=
  w.graph.Stable → v.graph.Stable ∧ w.graph.Renoted p named v.graph

theorem passes_renotes : Passes (Renotes p named) where
  refl _ hw := ⟨hw, .refl _⟩
  trans h h' hw := ⟨(h' (h hw).1).1, (h hw).2.trans (h' (h hw).1).2⟩

def Noted (p : ProjectKey) (named : String → String → Prop) (id : String) (g : Graph) : Prop :=
  ∃ n r, g.node? p (.str id) = some n ∧ Table.get? n.properties "response" = some (.str r) ∧
    named id r

theorem Noted.renoted {g h : Graph} (hg : Noted p named id g) (hgh : g.Renoted p named h) :
    Noted p named id h := by
  obtain ⟨n, r, hn, hresponse, hr⟩ := hg
  obtain ⟨m, hm, hnm⟩ := hgh.node?_eq_some hn
  rcases hnm.response with heq | ⟨-, id', r', hid', hr', heq⟩
  · exact ⟨m, r, hm, heq.trans hresponse, hr⟩
  · obtain rfl : id' = id := by
      rw [(Graph.node?_str hn).2.2] at hid'
      exact (Json.str.inj hid').symm
    exact ⟨m, r', hm, heq, hr'⟩

/-- **One response type**: whether it can be noted or not, nothing else changes. -/
theorem leads_noteResponse (hr : named id r) :
    Leads (Renotes (.number i) named) (noteResponse id (.number i) r) := by
  intro w hw
  have hends := Run.ends_of_answer (r := noteResponse id (.number i) r) (w := w) rfl
  rcases noteResponse_cases hends with ⟨-, hgraph⟩ | ⟨-, hkeys, n, hn, hgraph⟩
  · rw [hgraph]
    exact ⟨hw, .refl _⟩
  · have hdistinct := (hw.nodes n (Graph.node?_str hn).1).keys
    rw [hgraph]
    exact ⟨hw.upsert hkeys (Table.nodup_set hdistinct _ _), hw.renoted hn hr⟩

theorem noted_of_noteResponse (hr : named id r) (hw : w.graph.Stable)
    (h : (noteResponse id p r).ends w = (.ok (), v)) : Noted p named id v.graph := by
  rcases noteResponse_cases h with ⟨⟨e, he⟩, -⟩ | ⟨-, -, n, hn, hgraph⟩
  · cases he
  · have hdistinct := (hw.nodes n (Graph.node?_str hn).1).keys
    refine ⟨_, r, by rw [hgraph, Graph.node?_upsert_self, hn, Option.getD_some], ?_, hr⟩
    rw [GraphCommand.get?_setOn (Table.nodup_set hdistinct _ _), if_neg (by decide),
      Table.get?_set_self]
    rfl

end

/-! ## The detection in a tree -/

variable {src directory file : String} {i : Int} {root : Node} {w v : World}

theorem responseType?_eq_some {a : Node} {r : String} : responseType? src a = .ok (some r) ↔
    ∃ name value, a.child 0 = .ok name ∧ name.text src = .ok "response_model" ∧
      a.child 2 = .ok value ∧ value.text src = .ok r := by
  unfold responseType?
  constructor
  · intro h
    obtain ⟨name, hname, h⟩ := bind_eq_ok h
    obtain ⟨s, hs, h⟩ := bind_eq_ok h
    split at h
    · next heq =>
      obtain ⟨value, hvalue, h⟩ := bind_eq_ok h
      obtain ⟨t, ht, h⟩ := bind_eq_ok h
      cases h
      exact ⟨name, value, hname, beq_iff_eq.1 heq ▸ hs, hvalue, ht⟩
    · cases h
  · rintro ⟨name, value, hname, hs, hvalue, ht⟩
    simp only [hname, hs, hvalue, ht, ok_bind]
    rfl

/-- A decorator of the entry point with an identifier has an argument `response_model`. -/
def NamesResponse (src directory file : String) (root : Node) (id response : String) : Prop :=
  ∃ n ∈ root.preorder, n.kind = "decorated_definition" ∧ functionId src directory file n = .ok id ∧
    ∃ d ∈ n.children, d.kind = "decorator" ∧ isMarked (d.cutOut src) = true ∧
      ∃ a ∈ namedArguments d, ∃ name value, a.child 0 = .ok name ∧
        name.text src = .ok "response_model" ∧ a.child 2 = .ok value ∧ value.text src = .ok response

theorem leads_argument {named : String → String → Prop} {id : String} {d : Node}
    (h : ∀ a ∈ namedArguments d, ∀ r, responseType? src a = .ok (some r) → named id r) :
    ∀ a ∈ namedArguments d, Leads (Renotes (.number i) named) (do
      match ← responseType? src a with
      | some response => noteResponse id (.number i) response
      | none => return ()) := by
  intro a ha
  refine passes_renotes.lift_bind fun r hr => ?_
  cases r with
  | none => exact passes_renotes.pure ()
  | some r => exact leads_noteResponse (h a ha r hr)

theorem namesResponse {n d : Node} (hn : n ∈ root.preorder)
    (hkind : n.kind = "decorated_definition") (hd : d ∈ n.children.filter (·.kind == "decorator"))
    (hmarked : isMarked (d.cutOut src) = true) {id : String}
    (hid : functionId src directory file n = .ok id) :
    ∀ a ∈ namedArguments d, ∀ r, responseType? src a = .ok (some r) →
      NamesResponse src directory file root id r := by
  intro a ha r hr
  obtain ⟨hd, hdecorator⟩ := List.mem_filter.1 hd
  exact ⟨n, hn, hkind, hid, d, hd, beq_iff_eq.1 hdecorator, hmarked, a, ha,
    responseType?_eq_some.1 hr⟩

theorem leads_ofDecorator {n d : Node} (hn : n ∈ root.preorder)
    (hkind : n.kind = "decorated_definition")
    (hd : d ∈ n.children.filter (·.kind == "decorator")) :
    Leads (Renotes (.number i) (NamesResponse src directory file root))
      (ofDecorator src directory file (.number i) n d) := by
  unfold ofDecorator ofText
  split
  · next hmarked =>
    refine passes_renotes.lift_bind fun id hid => passes_renotes.lift_bind fun paths _ => ?_
    have hnamed := namesResponse hn hkind hd hmarked hid
    exact passes_renotes.bind (passes_renotes.composes.forM (leads_argument hnamed)) fun _ =>
      passes_renotes.pure _
  · exact passes_renotes.pure []

theorem leads_ofDefinition {n : Node} (hn : n ∈ root.preorder) :
    Leads (Renotes (.number i) (NamesResponse src directory file root))
      (ofDefinition src directory file (.number i) n) := by
  unfold ofDefinition
  split
  · next hkind =>
    exact passes_renotes.composes.gather fun d hd => leads_ofDecorator hn (beq_iff_eq.1 hkind) hd
  · exact passes_renotes.pure []

theorem leads_inTree : Leads (Renotes (.number i) (NamesResponse src directory file root))
    (inTree src directory file (.number i) root) :=
  passes_renotes.composes.gather fun _ hn => leads_ofDefinition hn

theorem exists_noteResponse {found : List (String × String)} {id r : String}
    (h : (inTree src directory file (.number i) root).ends w = (.ok found, v))
    (hnamed : NamesResponse src directory file root id r) :
    ∃ u x, Renotes (.number i) (NamesResponse src directory file root) w u ∧
      (noteResponse id (.number i) r).ends u = (.ok (), x) ∧
      Renotes (.number i) (NamesResponse src directory file root) x v := by
  obtain ⟨n, hn, hkind, hid, d, hd, hdecorator, hmarked, a, ha, hargument⟩ := hnamed
  have hd : d ∈ n.children.filter (·.kind == "decorator") :=
    List.mem_filter.2 ⟨hd, beq_iff_eq.2 hdecorator⟩
  obtain ⟨w₁, here, v₁, hw₁, hdefinition, -, hv₁⟩ :=
    passes_renotes.exists_of_gather (fun _ hn => leads_ofDefinition hn) h hn
  rw [ofDefinition, if_pos (beq_iff_eq.2 hkind)] at hdefinition
  obtain ⟨w₂, there, v₂, hw₂, hdecorated, -, hv₂⟩ :=
    passes_renotes.exists_of_gather (fun _ hd => leads_ofDecorator hn hkind hd) hdefinition hd
  unfold ofDecorator ofText at hdecorated
  rw [if_pos hmarked, hid, lift_ok_bind] at hdecorated
  obtain ⟨paths, u, hpaths, hrest⟩ := ends_bind_eq_ok hdecorated
  obtain ⟨_, t, hnotes, hanswer⟩ := ends_bind_eq_ok hrest
  have hu : w₂ = u := congrArg Prod.snd hpaths
  have ht : t = v₂ := congrArg Prod.snd hanswer
  rw [← hu, ht] at hnotes
  obtain ⟨w₃, v₃, hw₃, hnote, hv₃⟩ := passes_renotes.exists_of_forM
    (leads_argument (namesResponse hn hkind hd hmarked hid)) hnotes ha
  rw [responseType?_eq_some.2 hargument, lift_ok_bind] at hnote
  exact ⟨w₃, v₃, passes_renotes.trans hw₁ (passes_renotes.trans hw₂ hw₃), hnote,
    passes_renotes.trans hv₃ (passes_renotes.trans hv₂ hv₁)⟩

/-- **Only response types are noted.** In a graph that commands made, the detection makes and
removes no node and no edge, and changes no property but `response`; it changes that one only on
nodes of the project with the identifier of a decorated function that has a `response_model`. This
holds whether the detection ends well or not, in whatever state the service is, and however often it
is made. If it ends well, every function with a `response_model` has a response type. -/
theorem only_responses_noted {cs : List GraphCommand} (hcs : ∀ c ∈ cs, c.Distinct)
    (hnumbers : ∀ c ∈ cs, c.Numbered) (hw : w.graph = GraphCommand.effects cs .empty)
    (src directory file : String) (i : Int) (root : Node) :
    (∀ k, w.graph.Renoted (.number i) (NamesResponse src directory file root)
      ((inTree src directory file (.number i) root).after^[k] w).graph) ∧
    ∀ found v, (inTree src directory file (.number i) root).ends w = (.ok found, v) →
      ∀ id r, NamesResponse src directory file root id r →
        Noted (.number i) (NamesResponse src directory file root) id v.graph := by
  have hstable : w.graph.Stable := by
    rw [hw]
    exact GraphCommand.effects_stable hcs hnumbers Graph.stable_empty
  refine ⟨fun k => (passes_renotes.iterate leads_inTree k w hstable).2, ?_⟩
  intro found v h id r hnamed
  obtain ⟨u, x, hu, hnote, hx⟩ := exists_noteResponse h hnamed
  obtain ⟨hustable, -⟩ := hu hstable
  obtain ⟨hxstable, -⟩ := (leads_noteResponse hnamed).of_ends hnote hustable
  exact (noted_of_noteResponse hnamed hustable hnote).renoted (hx hxstable).2

/-- A function with parameters, which are kept as a text. -/
def parameterised : List GraphCommand :=
  [.upsert (.str "/m.py:f") (.number 1) [("parameters", .arr [.str "x"])]]

def parameterisedWorld : World :=
  { World.vacant with graph := GraphCommand.effects parameterised .empty }

/-- The route of the function names a response type; its parameters stay the text that they are. -/
theorem route_noted : ∃ v,
    (inTree Entry.routeSource "/p" "/p/m.py" (.number 1) Entry.routeTree).ends parameterisedWorld =
      (.ok [("GET /x", "/m.py:f")], v) ∧
    (∀ n ∈ v.graph.nodes, Table.get? n.properties "parameters" = some (.str "[\"x\"]")) ∧
    parameterisedWorld.graph.Renoted (.number 1)
      (NamesResponse Entry.routeSource "/p" "/p/m.py" Entry.routeTree) v.graph ∧
    Noted (.number 1) (NamesResponse Entry.routeSource "/p" "/p/m.py" Entry.routeTree) "/m.py:f"
      v.graph := by
  have hdistinct : ∀ c ∈ parameterised, c.Distinct := by
    simp [parameterised, GraphCommand.Distinct, Table.keys]
  have hnumbers : ∀ c ∈ parameterised, c.Numbered := by
    simp [parameterised, GraphCommand.Numbered, GraphCommand.project]
  obtain ⟨hframe, hnoted⟩ := only_responses_noted (w := parameterisedWorld) hdistinct hnumbers rfl
    Entry.routeSource "/p" "/p/m.py" 1 Entry.routeTree
  have hanswer : (inTree Entry.routeSource "/p" "/p/m.py" (.number 1) Entry.routeTree).answer
      parameterisedWorld = .ok [("GET /x", "/m.py:f")] := Run.eq_ok_of_toOption (by decide +kernel)
  refine ⟨_, Run.ends_of_answer hanswer, by decide +kernel, hframe 1, ?_⟩
  have hwritten : ∃ n ∈ Entry.routeTree.preorder, n.kind = "decorated_definition" ∧
      (functionId Entry.routeSource "/p" "/p/m.py" n).toOption = some "/m.py:f" ∧
      ∃ d ∈ n.children, d.kind = "decorator" ∧ isMarked (d.cutOut Entry.routeSource) = true ∧
        ∃ a ∈ namedArguments d,
          (responseType? Entry.routeSource a).toOption = some (some "R") := by decide +kernel
  obtain ⟨n, hn, hkind, hid, d, hd, hdecorator, hmarked, a, ha, hargument⟩ := hwritten
  exact hnoted _ _ (Run.ends_of_answer hanswer) "/m.py:f" "R" ⟨n, hn, hkind,
    Run.eq_ok_of_toOption hid, d, hd, hdecorator, hmarked, a, ha,
    responseType?_eq_some.1 (Run.eq_ok_of_toOption hargument)⟩

end Decorator
end CodeAtlas
