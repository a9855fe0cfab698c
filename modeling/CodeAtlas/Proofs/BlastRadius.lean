import CodeAtlas.Flow.BlastRadius
import CodeAtlas.Proofs.CallGraph
import CodeAtlas.Proofs.Text
import Mathlib.Data.List.Induction

/-!
# What a blast radius lists

A change of some functions can affect an entry point whose own function is changed or reaches a
changed one through calls. The listing goes one call up from each changed function and keeps what
nothing calls.

* `endpoints_listing`: the answer lists exactly the entry points whose function is known, is called
  by nothing, and is changed or calls a changed function directly;
* `endpoints_complete_iff`: so it is the listing of all affected entry points if and only if each of
  these is such a function;
* `endpoints_union`: it takes the union over the changed functions, in any order;
* `chain_start_missed`: two calls above the changed function an entry point is not listed.
-/
namespace CodeAtlas

/-! ## Objects of one meaning -/

namespace Json

theorem canonicalMembers_eq_map (t : List (String × Json)) :
    canonicalMembers t = t.map fun p => (p.1, p.2.canonical) := by
  induction t with
  | nil => rfl
  | cons p t ih => obtain ⟨k, v⟩ := p; simp [canonicalMembers, ih]

/-- Objects that mean the same have members that mean the same under the same names. -/
theorem get?_of_same_obj {t u : Table String Json} (hu : u.keys.Nodup)
    (h : (Json.obj t).same (.obj u) = true) {k : String} {v : Json} (hv : t.get? k = some v) :
    ∃ x, u.get? k = some x ∧ x.same v = true := by
  simp only [same_iff, canonical, Json.obj.injEq, canonicalMembers_eq_map] at h
  have hmem : (k, v.canonical) ∈ t.map fun p => (p.1, p.2.canonical) :=
    List.mem_map.2 ⟨(k, v), Table.mem_of_get? hv, rfl⟩
  rw [← List.mem_mergeSort, h, List.mem_mergeSort] at hmem
  obtain ⟨⟨k, x⟩, hx, he⟩ := List.mem_map.1 hmem
  simp only [Prod.mk.injEq] at he
  obtain ⟨rfl, he⟩ := he
  exact ⟨x, (Table.get?_eq_some_iff hu).2 hx, same_iff.2 he⟩

end Json

theorem GraphNode.alike_self (n : GraphNode) : n.alike n = true := Json.same_self _

/-! ## Lists without what came before -/

section
variable {α : Type} {r : α → α → Bool}

theorem firsts_concat (l : List α) (a : α) : firsts r (l ++ [a]) =
    if (firsts r l).any (r a) then firsts r l else firsts r l ++ [a] := by
  simp [firsts, List.foldl_append]

theorem firsts_subset (l : List α) : firsts r l ⊆ l := by
  induction l using List.reverseRecOn with
  | nil => exact List.Subset.refl _
  | append_singleton l a ih =>
    rw [firsts_concat]
    split
    · exact List.subset_append_of_subset_left _ ih
    · exact List.append_subset.2 ⟨List.subset_append_of_subset_left _ ih, by simp⟩

/-- Every member is related to one that is kept. -/
theorem exists_mem_firsts (hr : ∀ a, r a a = true) {l : List α} {a : α} (h : a ∈ l) :
    ∃ b ∈ firsts r l, r a b = true := by
  induction l using List.reverseRecOn with
  | nil => cases h
  | append_singleton l c ih =>
    rw [firsts_concat]
    split
    · rename_i hc
      rcases List.mem_append.1 h with h | h
      · exact ih h
      · rw [List.mem_singleton.1 h]
        exact List.any_eq_true.1 hc
    · rcases List.mem_append.1 h with h | h
      · obtain ⟨b, hb, hab⟩ := ih h
        exact ⟨b, List.mem_append_left _ hb, hab⟩
      · rw [List.mem_singleton.1 h]
        exact ⟨c, by simp, hr c⟩

/-- No member that is kept is related to one that is kept before it. -/
theorem pairwise_firsts (l : List α) : (firsts r l).Pairwise fun a b => r b a = false := by
  induction l using List.reverseRecOn with
  | nil => exact List.Pairwise.nil
  | append_singleton l a ih =>
    rw [firsts_concat]
    split
    · exact ih
    · rename_i hc
      refine List.pairwise_append.2 ⟨ih, List.pairwise_singleton _ _, fun b hb c hc' => ?_⟩
      rw [List.mem_singleton.1 hc']
      exact Bool.not_eq_true _ ▸ fun h => hc (List.any_eq_true.2 ⟨b, hb, h⟩)

theorem nodup_firsts (hr : ∀ a, r a a = true) (l : List α) : (firsts r l).Nodup := by
  induction l using List.reverseRecOn with
  | nil => exact List.nodup_nil
  | append_singleton l a ih =>
    rw [firsts_concat]
    split
    · exact ih
    · rename_i hc
      refine List.nodup_append.2 ⟨ih, by simp, fun b hb c hc' he => hc ?_⟩
      rw [List.mem_singleton.1 hc'] at he
      exact List.any_eq_true.2 ⟨b, hb, he ▸ hr a⟩

end

/-! ## Entry points by file -/

/-- The file of an entry point: the part of its identifier before the colon. -/
def ShownEndpoint.file (e : ShownEndpoint) : String := Text.before ':' e.identifier

namespace EndpointsByFile

def under (t : EndpointsByFile) (file : String) : List ShownEndpoint := (Table.get? t file).getD []

/-- Entry points, each under its file. -/
def ofList (es : List ShownEndpoint) : EndpointsByFile := es.foldl (fun t e => t.add e.file e) []

theorem ofList_concat (es : List ShownEndpoint) (e : ShownEndpoint) :
    ofList (es ++ [e]) = (ofList es).add e.file e := by simp [ofList, List.foldl_append]

theorem under_add (t : EndpointsByFile) (file : String) (e : ShownEndpoint) (f : String) :
    (t.add file e).under f = if file = f then t.under f ++ [e] else t.under f := by
  unfold under add
  split
  · rename_i h; subst h; simp
  · rename_i h; rw [Table.get?_set_of_ne t _ h]

theorem under_ofList (es : List ShownEndpoint) (file : String) :
    (ofList es).under file = es.filter fun e => e.file = file := by
  induction es using List.reverseRecOn with
  | nil => rfl
  | append_singleton es e ih =>
    rw [ofList_concat, under_add, ih, List.filter_append]
    split <;> simp [*]

theorem nodup_keys_ofList (es : List ShownEndpoint) : (Table.keys (ofList es)).Nodup := by
  induction es using List.reverseRecOn with
  | nil => exact List.nodup_nil
  | append_singleton es e ih => rw [ofList_concat]; exact Table.nodup_set ih _ _

theorem under_ofList_ne_nil {es : List ShownEndpoint} {file : String}
    (h : file ∈ Table.keys (ofList es)) : (ofList es).under file ≠ [] := by
  induction es using List.reverseRecOn with
  | nil => cases h
  | append_singleton es e ih =>
    rw [ofList_concat, under_add]
    split
    · simp
    · rename_i hne
      refine ih ?_
      rw [ofList_concat] at h
      obtain ⟨⟨f, l⟩, hm, rfl⟩ := List.mem_map.1 h
      rcases Table.mem_set hm with hm | he
      · exact List.mem_map.2 ⟨_, hm, rfl⟩
      · exact absurd (Prod.mk.inj he).1.symm hne

end EndpointsByFile

namespace BlastRadius

theorem group_eq (t : EndpointsByFile) {e : ShownEndpoint}
    (h : (Text.fields ':' e.identifier).length = 2) :
    group t (.str e.identifier, e.path) = .ok (t.add e.file e) := by
  obtain ⟨file, name, hf⟩ := List.length_eq_two.1 h
  have hhead := Text.head?_fields ':' e.identifier
  rw [hf, List.head?_cons, Option.some.injEq] at hhead
  simp only [group, hf, hhead, ShownEndpoint.file]

/-- Entry points with one colon in their identifiers can be grouped. -/
theorem groupAll_eq (es : List ShownEndpoint)
    (h : ∀ e ∈ es, (Text.fields ':' e.identifier).length = 2) :
    groupAll (es.map fun e => (.str e.identifier, e.path)) = .ok (.ofList es) := by
  unfold groupAll
  induction es using List.reverseRecOn with
  | nil => rfl
  | append_singleton es e ih =>
    have hes : ∀ e ∈ es, (Text.fields ':' e.identifier).length = 2 :=
      fun e he => h e (List.mem_append_left _ he)
    rw [List.map_append, List.foldlM_append, ih hes, EndpointsByFile.ofList_concat]
    simp [group_eq _ (h e (by simp)), bind, Except.bind, pure, Except.pure]

end BlastRadius

/-- The store keeps an entry point of a project. -/
def Store.Serves (s : Store) (c : Cell) (x : ShownEndpoint) : Prop :=
  ∃ e ∈ s.endpoints, e.project = c ∧ e.identifier = x.identifier ∧ e.path = x.path

/-- Entry points that are told apart are found by project and identifier. -/
theorem Store.endpoint?_eq_some {s : Store} (hs : endpointsConsistent s.endpoints = true)
    {x : String} {c : Cell} {e : Endpoint} : s.endpoint? (some x) c = some e ↔
      e ∈ s.endpoints ∧ e.project = c ∧ e.identifier = x := by
  unfold endpoint?
  constructor
  · intro h
    have his := List.find?_some h
    simp only [isEndpoint, Option.some.injEq, Bool.and_eq_true, decide_eq_true_eq] at his
    exact ⟨List.mem_of_find?_eq_some h, his.2, his.1⟩
  · rintro ⟨he, rfl, rfl⟩
    obtain ⟨f, hf⟩ : ∃ f,
        s.endpoints.find? (isEndpoint (some e.identifier) e.project) = some f := by
      apply Option.isSome_iff_exists.1
      rw [List.find?_isSome]
      exact ⟨e, he, by simp [isEndpoint]⟩
    have his := List.find?_some hf
    simp only [isEndpoint, Option.some.injEq, Bool.and_eq_true, decide_eq_true_eq] at his
    simp only [endpointsConsistent, decide_eq_true_eq] at hs
    rw [hf, List.inj_on_of_nodup_map hs (List.mem_of_find?_eq_some hf) he
      (Prod.ext his.2 his.1)]

/-! ## The runs -/

/-- The worlds with a given graph and store in which the graph service is in order. -/
def Fixed (g : Graph) (s : Store) (w : World) : Prop :=
  w.graph = g ∧ w.store = s ∧ w.troubles = []

theorem calm_fixed (g : Graph) (s : Store) : Calm (Fixed g s) :=
  ⟨fun _ h => h.2.2, fun _ _ h => h⟩

namespace BlastRadius

variable {g : Graph} {s : Store} {p : ProjectKey} {c : Cell}

theorem gives_ask_str (hc : p.cell = .ok c) (x : String) : Run.Gives (Fixed g s)
    (GraphService.withCallers (.str x) p) (.ok (g.withCallers p (.str x))) := by
  have hgives : Run.Gives (Fixed g s) (GraphService.withCallers (.str x) p) _ :=
    GraphService.gives_ask (f := (Graph.withCallers · p (.str x))) (calm_fixed g s)
      fun w hw => by rw [hw.1]
  rwa [p.checkKeys_str hc] at hgives

/-- The changed functions and their direct callers. -/
def touched (g : Graph) (p : ProjectKey) (ids : List String) : List GraphNode :=
  firsts GraphNode.alike (ids.flatMap fun x => g.withCallers p (.str x))

theorem gives_reached (hc : p.cell = .ok c) (ids : List String) :
    Run.Gives (Fixed g s) (reached (ids.map .str) p) (.ok (touched g p ids)) := by
  have hgather : Run.Gives (Fixed g s)
      (Run.gather (fun id => GraphService.withCallers id p) (ids.map .str))
      (.ok ((ids.map Json.str).flatMap (g.withCallers p))) := by
    refine Run.Gives.gather fun v hv => ?_
    obtain ⟨x, -, rfl⟩ := List.mem_map.1 hv
    exact gives_ask_str hc x
  rw [List.flatMap_map] at hgather
  exact hgather.bind (Run.Gives.pure _)

theorem id_eq_of_alike (hg : g.Sound) {n m : GraphNode} (hn : n ∈ g.nodes) (hm : m ∈ g.nodes)
    {x y : String} (hx : n.id = .str x) (hy : m.id = .str y) (h : n.alike m = true) : y = x := by
  obtain ⟨v, hv, hs⟩ := Json.get?_of_same_obj (hg.properties m hm) h (hg.get?_id hn hx)
  rw [hg.get?_id hm hy, Option.some.injEq] at hv
  rw [← hv, Json.same_str_iff, Json.str.injEq] at hs
  exact hs

/-- A function is changed, or calls a changed function directly. -/
def Near (g : Graph) (p : ProjectKey) (ids : List String) (x : String) : Prop :=
  x ∈ ids ∨ ∃ y ∈ ids, g.Calls p x y

theorem mem_gathered (ht : g.Named p) {ids : List String} {n : GraphNode} :
    n ∈ (ids.flatMap fun x => g.withCallers p (.str x)) ↔
      ∃ x ∈ ids, g.hasNode p (.str x) = true ∧
        ∃ y, g.node? p (.str y) = some n ∧ (y = x ∨ g.Calls p y x) := by
  simp only [List.mem_flatMap, Graph.mem_withCallers ht]

theorem of_mem_touched (ht : g.Named p) {ids : List String} {n : GraphNode}
    (h : n ∈ touched g p ids) : ∃ x, g.node? p (.str x) = some n ∧ Near g p ids x := by
  obtain ⟨x, hx, -, y, hy, rfl | hc⟩ := (mem_gathered ht).1 (firsts_subset _ h)
  · exact ⟨y, hy, Or.inl hx⟩
  · exact ⟨y, hy, Or.inr ⟨x, hx, hc⟩⟩

/-- Nodes that are left out show the identifier of one that is kept, so no function is lost. -/
theorem exists_mem_touched (hg : g.Sound) (ht : g.Named p) {ids : List String} {x : String}
    (hx : g.hasNode p (.str x) = true) (h : Near g p ids x) :
    ∃ n ∈ touched g p ids, n.id = .str x := by
  obtain ⟨n, hn⟩ := Option.isSome_iff_exists.1 hx
  have hmem : n ∈ (ids.flatMap fun x => g.withCallers p (.str x)) := by
    rw [mem_gathered ht]
    rcases h with h | ⟨y, hy, hc⟩
    · exact ⟨x, h, hx, x, hn, Or.inl rfl⟩
    · exact ⟨y, hy, (hc.hasNode hg).2, x, hn, Or.inr hc⟩
  obtain ⟨m, hm, ha⟩ := exists_mem_firsts GraphNode.alike_self hmem
  obtain ⟨y, hy, -⟩ := of_mem_touched ht hm
  obtain ⟨hnmem, -, hnid⟩ := Graph.node?_str hn
  obtain ⟨hmmem, -, hmid⟩ := Graph.node?_str hy
  exact ⟨m, hm, by rw [hmid, id_eq_of_alike hg hnmem hmmem hnid hmid ha]⟩

/-- A function that is listed if it is kept as an entry point: it is known, nothing calls it, and it
is near the change. -/
def Exposed (g : Graph) (p : ProjectKey) (ids : List String) (x : String) : Prop :=
  g.hasNode p (.str x) = true ∧ (∀ y, ¬ g.Calls p y x) ∧ Near g p ids x

/-- The identifiers of the nodes near a change that nothing calls. -/
def topIds (g : Graph) (p : ProjectKey) (ids : List String) : List Json :=
  (touched g p ids).filterMap fun n =>
    if (g.withCallers p n.id).length == 1 then some n.id else none

theorem mem_topIds (hg : g.Sound) (ht : g.Named p) {ids : List String} {v : Json} :
    v ∈ topIds g p ids ↔ ∃ x, v = .str x ∧ Exposed g p ids x := by
  simp only [topIds, List.mem_filterMap, Option.ite_none_right_eq_some, beq_iff_eq,
    Option.some.injEq]
  constructor
  · rintro ⟨n, hn, hlen, rfl⟩
    obtain ⟨x, hx, hnear⟩ := of_mem_touched ht hn
    obtain ⟨-, -, hid⟩ := Graph.node?_str hx
    rw [hid, Graph.length_withCallers_eq_one hg ht] at hlen
    exact ⟨x, hid, hlen.1, hlen.2, hnear⟩
  · rintro ⟨x, rfl, hnode, hfree, hnear⟩
    obtain ⟨n, hn, hid⟩ := exists_mem_touched hg ht hnode hnear
    exact ⟨n, hn, by rw [hid, Graph.length_withCallers_eq_one hg ht]; exact ⟨hnode, hfree⟩, hid⟩

theorem gives_tops (hg : g.Sound) (ht : g.Named p) (hc : p.cell = .ok c) (ids : List String) :
    Run.Gives (Fixed g s) (tops (ids.map .str) p) (.ok (topIds g p ids)) := by
  refine (gives_reached hc ids).bind (Run.Gives.filterMapM fun n hn => ?_)
  obtain ⟨x, hx, -⟩ := of_mem_touched ht hn
  obtain ⟨hmem, -, hid⟩ := Graph.node?_str hx
  have hshown : n.shownId = .ok (.str x) := by
    unfold GraphNode.shownId
    rw [hg.get?_id hmem hid]
  rw [hshown, hid]
  have htop : Run.Gives (Fixed g s) (isTop p (.str x))
      (.ok ((g.withCallers p (.str x)).length == 1)) :=
    (gives_ask_str hc x).bind (Run.Gives.pure _)
  exact (Run.Gives.lift _).bind (htop.bind (Run.Gives.pure _))

/-- The entry point that is kept for an identifier. -/
def endpointOf (s : Store) (c : Cell) : Json → Option ShownEndpoint
  | .str x => (s.endpoint? (some x) c).map fun e => ⟨e.path, x⟩
  | _ => none

theorem endpointOf_eq_some (hs : Store.endpointsConsistent s.endpoints = true) {v : Json}
    {x : ShownEndpoint} : endpointOf s c v = some x ↔ v = .str x.identifier ∧ s.Serves c x := by
  cases v with
  | str y =>
    simp only [endpointOf, Option.map_eq_some_iff, Store.endpoint?_eq_some hs, Json.str.injEq]
    constructor
    · rintro ⟨e, ⟨he, hp, rfl⟩, rfl⟩
      exact ⟨rfl, e, he, hp, rfl, rfl⟩
    · rintro ⟨rfl, e, he, hp, hi, hpath⟩
      exact ⟨e, ⟨he, hp, hi⟩, by rw [hpath]⟩
  | _ => simp [endpointOf]

theorem gives_shown? (hc : p.cell = .ok c) (x : String) : Run.Gives (Fixed g s) (shown? p (.str x))
    (.ok ((endpointOf s c (.str x)).map fun e => (.str e.identifier, e.path))) := by
  unfold shown? endpointOf
  rw [hc]
  refine (Run.Gives.lift (.ok (some x))).bind ((Run.Gives.lift _).bind ?_)
  refine Run.Gives.bind (a := s.endpoint? (some x) c) (fun w hw => ?_) ?_
  · rw [Run.ends_look, hw.2.1]
    exact ⟨rfl, hw⟩
  · rw [Option.map_map]
    exact Run.Gives.pure _

/-- The entry points near a change whose functions nothing calls. -/
def listed (g : Graph) (s : Store) (p : ProjectKey) (c : Cell) (ids : List String) :
    List ShownEndpoint :=
  (firsts Json.same (topIds g p ids)).filterMap (endpointOf s c)

theorem mem_firsts_topIds (hg : g.Sound) (ht : g.Named p) {ids : List String} {v : Json} :
    v ∈ firsts Json.same (topIds g p ids) ↔ ∃ x, v = .str x ∧ Exposed g p ids x := by
  refine ⟨fun h => (mem_topIds hg ht).1 (firsts_subset _ h), ?_⟩
  -- what is left out means the same as what is kept, and texts of one meaning are equal
  rintro ⟨x, rfl, hx⟩
  obtain ⟨u, hu, hs⟩ := exists_mem_firsts Json.same_self ((mem_topIds hg ht).2 ⟨x, rfl, hx⟩)
  rwa [Json.str_same_iff.1 hs] at hu

theorem mem_listed (hg : g.Sound) (ht : g.Named p)
    (hs : Store.endpointsConsistent s.endpoints = true) {ids : List String} {x : ShownEndpoint} :
    x ∈ listed g s p c ids ↔ s.Serves c x ∧ Exposed g p ids x.identifier := by
  simp only [listed, List.mem_filterMap, mem_firsts_topIds hg ht, endpointOf_eq_some hs]
  constructor
  · rintro ⟨v, ⟨y, rfl, hy⟩, hv, hx⟩
    exact ⟨hx, Json.str.inj hv ▸ hy⟩
  · rintro ⟨hx, hy⟩
    exact ⟨_, ⟨_, rfl, hy⟩, rfl, hx⟩

theorem nodup_listed (hs : Store.endpointsConsistent s.endpoints = true) (ids : List String) :
    (listed g s p c ids).Nodup := by
  refine List.Nodup.filterMap (fun v u x hv hu => ?_) (nodup_firsts Json.same_self _)
  exact ((endpointOf_eq_some hs).1 hv).1.trans ((endpointOf_eq_some hs).1 hu).1.symm

theorem gives_endpoints (hg : g.Sound) (ht : g.Named p) (hc : p.cell = .ok c)
    (hs : Store.endpointsConsistent s.endpoints = true)
    (hcolon : ∀ x, s.Serves c x → (Text.fields ':' x.identifier).length = 2) (ids : List String) :
    Run.Gives (Fixed g s) (endpoints (ids.map .str) p) (.ok (.ofList (listed g s p c ids))) := by
  refine (gives_tops hg ht hc ids).bind ?_
  refine Run.Gives.bind (a := (listed g s p c ids).map fun e => (.str e.identifier, e.path)) ?_ ?_
  · unfold listed
    rw [List.map_filterMap]
    refine Run.Gives.filterMapM fun v hv => ?_
    obtain ⟨x, rfl, -⟩ := (mem_firsts_topIds hg ht).1 hv
    exact gives_shown? hc x
  · rw [groupAll_eq _ fun e he => hcolon e ((mem_listed hg ht hs).1 he).1]
    exact Run.Gives.lift _

/-! ## What is listed, and what is not -/

/-- A function is changed, or reaches a changed one through calls. -/
def Affected (g : Graph) (p : ProjectKey) (ids : List String) (x : String) : Prop :=
  ∃ y ∈ ids, g.Reaches p x y

theorem Exposed.affected {ids : List String} {x : String} (h : Exposed g p ids x) :
    Affected g p ids x := by
  obtain ⟨-, -, hx | ⟨y, hy, hc⟩⟩ := h
  · exact ⟨x, hx, Relation.ReflTransGen.refl⟩
  · exact ⟨y, hy, Relation.ReflTransGen.single hc⟩

/-- A table lists, each once and under its file, the entry points of which `R` holds. -/
structure Lists (t : EndpointsByFile) (R : ShownEndpoint → Prop) : Prop where
  files : (Table.keys t).Nodup
  filled : ∀ file ∈ Table.keys t, t.under file ≠ []
  once : ∀ file, (t.under file).Nodup
  members : ∀ file x, x ∈ t.under file ↔ file = x.file ∧ R x

theorem lists_ofList {es : List ShownEndpoint} (h : es.Nodup) :
    Lists (.ofList es) (· ∈ es) where
  files := EndpointsByFile.nodup_keys_ofList es
  filled _ hf := EndpointsByFile.under_ofList_ne_nil hf
  once file := by rw [EndpointsByFile.under_ofList]; exact h.filter _
  members file x := by
    rw [EndpointsByFile.under_ofList, List.mem_filter, decide_eq_true_eq, and_comm, eq_comm]

theorem Lists.congr {t : EndpointsByFile} {R S : ShownEndpoint → Prop} (h : Lists t R)
    (hRS : ∀ x, R x ↔ S x) : Lists t S :=
  ⟨h.files, h.filled, h.once, fun file x => by rw [h.members, hRS]⟩

/-- A table lists one set of entry points. -/
theorem Lists.unique {t : EndpointsByFile} {R S : ShownEndpoint → Prop} (h : Lists t R)
    (k : Lists t S) (x : ShownEndpoint) : R x ↔ S x := by
  have := (h.members x.file x).symm.trans (k.members x.file x)
  simpa using this

/-- Two tables that list the same entry points hold the same ones, as often, under each file. -/
theorem Lists.perm {t u : EndpointsByFile} {R S : ShownEndpoint → Prop} (h : Lists t R)
    (k : Lists u S) (hRS : ∀ x, R x ↔ S x) (file : String) :
    (t.under file).Perm (u.under file) := by
  refine (List.perm_ext_iff_of_nodup (h.once file) (k.once file)).2 fun x => ?_
  rw [h.members, k.members, hRS]

theorem near_append {A B : List String} {x : String} :
    Near g p (A ++ B) x ↔ Near g p A x ∨ Near g p B x := by
  simp only [Near, List.mem_append, or_and_right, exists_or]
  exact or_or_or_comm

theorem exposed_append {A B : List String} {x : String} :
    Exposed g p (A ++ B) x ↔ Exposed g p A x ∨ Exposed g p B x := by
  simp only [Exposed, near_append, and_or_left]

/-- Neither order nor repetition of the changed functions matters. -/
theorem exposed_congr {A B : List String} (h : ∀ x, x ∈ A ↔ x ∈ B) {x : String} :
    Exposed g p A x ↔ Exposed g p B x := by
  simp only [Exposed, Near, h]

/-- A world in which the blast radius of a project can be told: the graph service is in order, the
graph is well formed and names the functions of the project by texts, and the entry points of the
project can be told apart and have one colon in their identifiers. -/
structure Surveyed (w : World) (p : ProjectKey) (c : Cell) : Prop where
  order : w.troubles = []
  graph : w.graph.Sound
  named : w.graph.Named p
  cell : p.cell = .ok c
  entries : Store.endpointsConsistent w.store.endpoints = true
  colon : ∀ x, w.store.Serves c x → (Text.fields ':' x.identifier).length = 2

/-- The answer lists the entry points whose functions are exposed. -/
theorem endpoints_listing {w : World} (h : Surveyed w p c) (ids : List String) :
    ∃ t, (endpoints (ids.map .str) p).answer w = .ok t ∧
      Lists t fun x => w.store.Serves c x ∧ Exposed w.graph p ids x.identifier :=
  ⟨_, (gives_endpoints h.graph h.named h.cell h.entries h.colon ids w ⟨rfl, rfl, h.order⟩).1,
    (lists_ofList (nodup_listed h.entries ids)).congr fun _ => mem_listed h.graph h.named h.entries⟩

/-- **Completeness of the blast radius**: the answer lists only affected entry points. It lists all
of them if and only if each affected one is a known function that nothing calls and that is changed
or calls a changed function directly. -/
theorem endpoints_complete_iff {w : World} (h : Surveyed w p c) (ids : List String) :
    ∃ t, (endpoints (ids.map .str) p).answer w = .ok t ∧
      (Lists t fun x => w.store.Serves c x ∧ Exposed w.graph p ids x.identifier) ∧
      (∀ file, ∀ x ∈ t.under file, file = x.file ∧ w.store.Serves c x ∧
        Affected w.graph p ids x.identifier) ∧
      ((Lists t fun x => w.store.Serves c x ∧ Affected w.graph p ids x.identifier) ↔
        ∀ x, w.store.Serves c x → Affected w.graph p ids x.identifier →
          Exposed w.graph p ids x.identifier) := by
  obtain ⟨t, hanswer, hlists⟩ := endpoints_listing h ids
  refine ⟨t, hanswer, hlists, fun file x hx => ?_, fun hall x hx ha => ?_, fun hall => ?_⟩
  · obtain ⟨hfile, hserves, hexposed⟩ := (hlists.members file x).1 hx
    exact ⟨hfile, hserves, hexposed.affected⟩
  · exact ((hlists.unique hall x).2 ⟨hx, ha⟩).2
  · exact hlists.congr fun x =>
      ⟨fun h => ⟨h.1, h.2.affected⟩, fun h => ⟨h.1, hall x h.1 h.2⟩⟩

/-- **The blast radius is a union**: a change of `A` and `B` lists what a change of `A` lists and
what a change of `B` lists, whatever the order of the changed functions and however often each is
named. An entry point is listed once and under its own file, exactly if it is kept for the project
and its function is known, is called by nothing, and is changed or calls a changed function. -/
theorem endpoints_union {w : World} (h : Surveyed w p c) (A B : List String) :
    ∃ a b t, (endpoints (A.map .str) p).answer w = .ok a ∧
      (endpoints (B.map .str) p).answer w = .ok b ∧
      (endpoints ((A ++ B).map .str) p).answer w = .ok t ∧
      (∀ file x, x ∈ t.under file ↔ x ∈ a.under file ∨ x ∈ b.under file) ∧
      (∀ ids : List String, (∀ x, x ∈ ids ↔ x ∈ A ∨ x ∈ B) →
        ∃ u, (endpoints (ids.map .str) p).answer w = .ok u ∧
          ∀ file, (u.under file).Perm (t.under file)) ∧
      Lists t fun x => w.store.Serves c x ∧ w.graph.hasNode p (.str x.identifier) = true ∧
        (∀ y, ¬ w.graph.Calls p y x.identifier) ∧
        (x.identifier ∈ A ++ B ∨ ∃ y ∈ A ++ B, w.graph.Calls p x.identifier y) := by
  obtain ⟨a, ha, hla⟩ := endpoints_listing h A
  obtain ⟨b, hb, hlb⟩ := endpoints_listing h B
  obtain ⟨t, hanswer, hlists⟩ := endpoints_listing h (A ++ B)
  refine ⟨a, b, t, ha, hb, hanswer, fun file x => ?_, fun ids hids => ?_, hlists⟩
  · rw [hlists.members, hla.members, hlb.members, exposed_append, and_or_left, and_or_left]
  · obtain ⟨u, hu, hlu⟩ := endpoints_listing h ids
    refine ⟨u, hu, hlu.perm hlists fun x => and_congr_right' (exposed_congr fun y => ?_)⟩
    rw [hids, List.mem_append]

/-! ## A chain of calls -/

/-- An entry point that calls a function, which calls another. -/
def chain : World :=
  { World.vacant with
    graph := .ofNames (.number 1) ["/a.py:h", "/b.py:mid", "/c.py:leaf"]
      [("/a.py:h", "/b.py:mid"), ("/b.py:mid", "/c.py:leaf")]
    store := { Store.empty with endpoints := [⟨some "GET /h", "/a.py:h", none, none, .number 1⟩] } }

theorem chain_serves {x : ShownEndpoint} :
    chain.store.Serves (.number 1) x ↔ x = ⟨some "GET /h", "/a.py:h"⟩ := by
  constructor
  · rintro ⟨e, he, -, hi, hp⟩
    obtain rfl := List.mem_singleton.1 he
    obtain ⟨path, identifier⟩ := x
    cases hi
    cases hp
    rfl
  · rintro rfl
    exact ⟨_, List.mem_singleton_self _, rfl, rfl, rfl⟩

theorem chain_surveyed : Surveyed chain (.number 1) (.number 1) where
  order := rfl
  graph := Graph.sound_ofNames (by decide) (by decide) (by decide)
  named := Graph.named_ofNames
  cell := rfl
  entries := by decide
  colon x h := by
    rw [chain_serves.1 h]
    decide

theorem chain_start_free (y : String) : ¬ chain.graph.Calls (.number 1) y "/a.py:h" := by
  rintro ⟨e, he, his⟩
  have hother : ∀ e ∈ chain.graph.calls, e.target.is (.number 1) (.str "/a.py:h") = false := by
    decide
  simp only [CallEdge.is, hother e he, Bool.and_false, Bool.false_eq_true] at his

/-- One call above a change the entry point is listed, and so the listing is complete. -/
theorem chain_middle_complete : ∃ t,
    (endpoints [.str "/b.py:mid"] (.number 1)).answer chain = .ok t ∧
    ⟨some "GET /h", "/a.py:h"⟩ ∈ t.under "/a.py" ∧
    Lists t fun x => chain.store.Serves (.number 1) x ∧
      Affected chain.graph (.number 1) ["/b.py:mid"] x.identifier := by
  obtain ⟨t, hanswer, hlists, -, hiff⟩ := endpoints_complete_iff chain_surveyed
    ["/b.py:mid"]
  have hexposed : Exposed chain.graph (.number 1) ["/b.py:mid"] "/a.py:h" :=
    ⟨by decide, chain_start_free, Or.inr ⟨"/b.py:mid", by simp, by unfold Graph.Calls; decide⟩⟩
  refine ⟨t, hanswer, ?_, hiff.2 fun x hx _ => ?_⟩
  · exact (hlists.members _ _).2 ⟨by decide, chain_serves.2 rfl, hexposed⟩
  · rw [chain_serves.1 hx]
    exact hexposed

/-- A change of the last function and of one that is not known adds nothing to a change of the
middle one, and naming the middle one twice changes nothing. -/
theorem chain_middle_union : ∃ a b t,
    (endpoints [.str "/b.py:mid"] (.number 1)).answer chain = .ok a ∧
    (endpoints [.str "/c.py:leaf", .str "/x.py:absent"] (.number 1)).answer chain = .ok b ∧
    (endpoints [.str "/x.py:absent", .str "/b.py:mid", .str "/c.py:leaf", .str "/b.py:mid"]
      (.number 1)).answer chain = .ok t ∧
    (∀ file x, x ∈ t.under file ↔ x ∈ a.under file ∨ x ∈ b.under file) ∧
    t.under "/a.py" = [⟨some "GET /h", "/a.py:h"⟩] := by
  obtain ⟨a, b, t, ha, hb, -, hunion, hother, hlists⟩ := endpoints_union chain_surveyed
    ["/b.py:mid"] ["/c.py:leaf", "/x.py:absent"]
  obtain ⟨u, hu, hperm⟩ := hother ["/x.py:absent", "/b.py:mid", "/c.py:leaf", "/b.py:mid"]
    fun x => by simp only [List.mem_cons, List.not_mem_nil]; tauto
  refine ⟨a, b, u, ha, hb, hu, fun file x => (hperm file).mem_iff.trans (hunion file x), ?_⟩
  have hstart : ∀ x, x ∈ t.under "/a.py" ↔ x = ⟨some "GET /h", "/a.py:h"⟩ := by
    intro x
    rw [hlists.members, chain_serves]
    refine ⟨fun h => h.2.1, ?_⟩
    rintro rfl
    exact ⟨by decide, rfl, by decide, chain_start_free,
      Or.inr ⟨"/b.py:mid", by simp, by unfold Graph.Calls; decide⟩⟩
  have honce : (t.under "/a.py").Perm [⟨some "GET /h", "/a.py:h"⟩] :=
    (List.perm_ext_iff_of_nodup (hlists.once _) (List.nodup_singleton _)).2 fun x => by
      rw [hstart, List.mem_singleton]
  exact List.perm_singleton.1 ((hperm "/a.py").trans honce)

/-- Two calls above a change an affected entry point is not listed. -/
theorem chain_start_missed : ∃ t, (endpoints [.str "/c.py:leaf"] (.number 1)).answer chain = .ok t ∧
    (∀ file, t.under file = []) ∧
    chain.store.Serves (.number 1) ⟨some "GET /h", "/a.py:h"⟩ ∧
    Affected chain.graph (.number 1) ["/c.py:leaf"] "/a.py:h" := by
  obtain ⟨t, hanswer, hlists⟩ := endpoints_listing chain_surveyed ["/c.py:leaf"]
  refine ⟨t, hanswer, fun file => ?_, chain_serves.2 rfl, "/c.py:leaf", by simp, ?_⟩
  · refine List.eq_nil_iff_forall_not_mem.2 fun x hx => ?_
    obtain ⟨-, hserves, -, -, hnear⟩ := (hlists.members file x).1 hx
    rw [chain_serves.1 hserves] at hnear
    rcases hnear with hin | ⟨y, hy, hc⟩
    · exact absurd hin (by decide)
    · rw [List.mem_singleton.1 hy] at hc
      exact absurd hc (by unfold Graph.Calls; decide)
  · have h1 : chain.graph.Calls (.number 1) "/a.py:h" "/b.py:mid" := by
      unfold Graph.Calls; decide
    have h2 : chain.graph.Calls (.number 1) "/b.py:mid" "/c.py:leaf" := by
      unfold Graph.Calls; decide
    exact (Relation.ReflTransGen.single h1).tail h2

end BlastRadius
end CodeAtlas
