import CodeAtlas.Proofs.AnalysisSteps
import CodeAtlas.Proofs.GraphIsolation

/-!
# An analysis stays inside its project

`World.others p c w` is what is not the project's: the world without the project's part of the graph
and without its entry points. `World.own p c w` is what is the project's: of the graph and of the
entry points nothing but its part. The graph knows the project by its key `p`, the store by the cell
`c`.

* `Analysis.keeps_analyse`: an analysis leaves alone what is not its project's;
* `Analysis.respects_analyse`: worlds that are alike for the project (`World.AlikeFor`) give one
  answer, and are alike for it after the analysis.

Both are proved for one step at a time; the loops of the analysis are those of `Run.MadeOf`. The
service may fail at any step.
-/
namespace CodeAtlas

/-! ## Keeping an entry point -/

namespace Store

theorem endpoint?_filter (s : Store) (id : Option String) (c : Cell) :
    (s.endpoints.filter fun e => e.project = c).find? (isEndpoint id c) = s.endpoint? id c := by
  unfold endpoint?
  rw [List.find?_filter]
  congr 1
  funext e
  cases h : decide (e.project = c) <;> simp_all [isEndpoint]

def adding (s : Store) (es : List Endpoint) : Store := { s with endpoints := s.endpoints ++ es }

/-- A new entry point that is told apart from all others breaks no rule. -/
theorem endpointsConsistent_concat {s : Store} {e : Endpoint}
    (h : s.endpoint? (some e.identifier) e.project = none) :
    endpointsConsistent (s.endpoints ++ [e]) = endpointsConsistent s.endpoints := by
  have hnew : (e.project, e.identifier) ∉ s.endpoints.map fun e => (e.project, e.identifier) := by
    intro hmem
    obtain ⟨d, hd, he⟩ := List.mem_map.1 hmem
    have hno := List.find?_eq_none.1 h d hd
    obtain ⟨hp, hi⟩ := Prod.mk.inj he
    simp [isEndpoint, hp, hi] at hno
  unfold endpointsConsistent
  rw [List.map_append, List.map_singleton]
  congr 1
  rw [eq_iff_iff, ← List.concat_eq_append, List.nodup_concat]
  exact and_iff_right hnew

end Store

namespace Entry

variable {p : ProjectKey} {c : Cell}

/-- The row that is kept for an entry point. -/
def row (routers : RouterTable) (c : Cell) (found : String × String) : Endpoint :=
  ⟨some (ServedPath.qualified found.1 (routerOf routers found.2).path), found.2, none, none, c⟩

/-- A new entry point of a project is a row that the store adds if it takes changes. -/
theorem createEndpoint_eq (hp : p.cell = .ok c) (hc : c ≠ .null) (path id : String) (s : Store) :
    s.createEndpoint
        (.obj [("path", .str path), ("identifier", .str id), ("project_id", p.given)]) =
      s.writable >>= fun _ => s.addEndpoint ⟨some path, id, none, none, c⟩ >>= fun s =>
        .ok (⟨some path, id, none, none, c⟩, s) := by
  obtain ⟨d, hd, hdc⟩ := Run.bind_eq_ok hp
  obtain rfl := Except.ok.inj hdc
  have hnew : Column.ofNew Endpoint.columns
      (.obj [("path", .str path), ("identifier", .str id), ("project_id", p.given)]) = .ok () := by
    have hplain : Column.isCompound p.given = false := by
      cases hg : p.given <;> simp_all [Column.isCompound, Cell.ofJson]
    have htext (t : String) : Cell.ofJson (.str t) = .ok (.text t) := rfl
    have hnull : Cell.ofJson .null = .ok .null := rfl
    have hstr (t : String) : Column.isCompound (.str t) = false := rfl
    simp [Column.ofNew, Column.check, Endpoint.columns, hstr, hplain, ColumnKind.takes,
      ColumnKind.handOver, Json.getD, Json.get?, Table.get?, hd, htext, hnull, bind, Except.bind,
      pure, Except.pure]
  have hrow : Endpoint.ofColumns
      (.obj [("path", .str path), ("identifier", .str id), ("project_id", p.given)]) =
        .ok ⟨some path, id, none, none, d.asNumber⟩ := by
    have hnumber : Column.number p.given = .ok d.asNumber := by
      simp only [Column.number, hd, Run.ok_bind]
      rfl
    change (do
      let n ← Column.number p.given
      return (⟨some path, id, none, none, n⟩ : Endpoint)) = _
    rw [hnumber]
    rfl
  unfold Store.createEndpoint
  rw [hnew, hrow]
  rfl

/-- Keeping an entry point: one that is known stays, a new one is added if the store takes it. -/
theorem keep_eq (hp : p.cell = .ok c) (hc : c ≠ .null) (routers : RouterTable)
    (f : String × String) (s : Store) : keep routers p f s =
      if (s.endpoint? (some f.2) c).isSome then .ok s
      else if s.readOnly then .error .storeRefused
      else if Store.endpointsConsistent s.endpoints then
        .ok (s.adding [row routers c f])
      else .error .constraintBroken := by
  unfold keep
  rw [hp, Run.ok_bind]
  cases h : s.endpoint? (some f.2) c with
  | some e => rfl
  | none =>
    have hrules := Store.endpointsConsistent_concat (e := row routers c f) h
    simp only [createEndpoint_eq hp hc, Store.writable, Store.addEndpoint, Store.settle,
      Store.adding]
    rw [row] at hrules ⊢
    rw [hrules]
    cases s.readOnly <;> cases Store.endpointsConsistent s.endpoints <;> rfl

end Entry

/-! ## What is not the project's -/

namespace Graph

variable {g : Graph} {p : ProjectKey}

theorem deleteProject_upsert (id : Json) (ps : List (String × Json)) :
    (g.upsert p id ps).deleteProject p = g.deleteProject p := by
  unfold upsert
  split
  · simp only [deleteProject, Graph.mk.injEq, and_self, and_true]
    refine filter_map_of_fixes (fun n => by split <;> rfl) (fun n hn => ?_) g.nodes
    simp [GraphNode.is, Bool.not_eq_true' _ ▸ hn]
  · simp [deleteProject, freshNode]

theorem deleteProject_connect (a b : Json) (ps : List (String × Json)) :
    (g.connect p a b ps).deleteProject p = g.deleteProject p := by
  unfold connect
  split
  · split
    · simp only [deleteProject, Graph.mk.injEq, and_true, true_and]
      refine filter_map_of_fixes (fun e => by split <;> rfl) (fun e he => ?_) g.calls
      have hs : e.source.project.same p = false := Bool.not_eq_true' _ ▸ (Bool.and_eq_true_iff.1 he).1
      simp [CallEdge.is, NodeRef.is, hs]
    · simp [deleteProject]
  · rfl

theorem deleteProject_extend (a b : Json) :
    (g.extend p a b).deleteProject p = g.deleteProject p := by
  unfold extend
  split
  · simp [deleteProject]
  · rfl

theorem deleteProject_deleteProject : (g.deleteProject p).deleteProject p = g.deleteProject p := by
  simp [deleteProject]

theorem only_deleteProject_self : (g.deleteProject p).only p = .empty := by
  simp +contextual [deleteProject, only, empty, List.filter_filter]

end Graph

namespace World

def aside (p : ProjectKey) (w : World) : World :=
  { w with graph := w.graph.deleteProject p, troubles := [], log := [] }

/-- The world without the entry points of a project and without files. -/
def besides (c : Cell) (w : World) : World :=
  { w with
    files := .empty
    store := { w.store with endpoints := w.store.endpoints.filter fun e => e.project ≠ c } }

def others (p : ProjectKey) (c : Cell) (w : World) : World := (w.aside p).besides c

end World

namespace GraphService
open Run

/-- A part of the world that says nothing about trouble ahead, nor about the log. -/
structure Apart {γ : Type} (part : World → γ) : Prop where
  moved : ∀ (w : World) (l : List Effect) (ts : List (Option GraphTrouble)),
    part { w with log := l, troubles := ts } = part w

section
variable {γ : Type} {part : World → γ} (h : Apart part)
include h

theorem Apart.openSession : Keeps part openSession := by
  intro w
  rw [ends_openSession_any]
  exact h.moved w w.log _

theorem Apart.note (e : Effect) : Keeps part (note e) :=
  Keeps.modify fun w => h.moved w _ w.troubles

theorem Apart.send (q : GraphQuery) : Keeps part (send q) := by
  intro w
  rw [ends_send_any]
  exact h.moved w _ _

theorem Apart.node? (id : Json) (p : ProjectKey) : Keeps part (node? id p) :=
  h.openSession.bind fun _ => Keeps.bind ((h.send _).bind fun _ => Keeps.lift _)
    fun _ => Keeps.get.bind fun _ => Keeps.pure _

end

variable {p : ProjectKey}

theorem apart_aside : Apart (World.aside p) := ⟨fun _ _ _ => rfl⟩

/-- A command or a question about a project leaves the rest of the graph alone, and all that is not
in the graph. -/
theorem Own.keeps {α : Type} {r : Run α} (h : Own p α r) : Keeps (World.aside p) r := by
  cases h with
  | upsert id ps =>
    refine apart_aside.openSession.bind fun _ => (apart_aside.send _).bind fun _ =>
      (apart_aside.note _).bind fun _ => (Keeps.lift _).bind fun _ => Keeps.modify fun w => ?_
    simp only [World.aside, Graph.deleteProject_upsert]
  | connect a b properties =>
    refine apart_aside.openSession.bind fun _ => (apart_aside.send _).bind fun _ =>
      (apart_aside.note _).bind fun _ => (Keeps.lift _).bind fun _ => Keeps.get.bind fun w => ?_
    split
    · refine (Keeps.lift _).bind fun ps => Keeps.modify fun w => ?_
      simp only [World.aside, Graph.deleteProject_connect]
    · exact Keeps.pure _
  | extend base derived =>
    refine apart_aside.openSession.bind fun _ => Keeps.bind (Keeps.outcome ?_) fun _ => Keeps.pure _
    refine (apart_aside.send _).bind fun _ => (apart_aside.note _).bind fun _ =>
      (Keeps.lift _).bind fun _ => Keeps.modify fun w => ?_
    simp only [World.aside, Graph.deleteProject_extend]
  | node? id => exact apart_aside.node? id p

end GraphService

theorem GraphService.Own.keeps_part {p : ProjectKey} {α γ : Type} {part : World → γ}
    (hpart : ∀ w : World, part (w.aside p) = part w) {r : Run α} (h : Own p α r) :
    Run.Keeps part r := by
  intro w
  rw [← hpart, h.keeps w, hpart]

theorem GraphService.Own.keeps_store {p : ProjectKey} {α : Type} {r : Run α} (h : Own p α r) :
    Run.Keeps World.store r := h.keeps_part fun _ => rfl

namespace Entry
open Run

variable {p : ProjectKey} {c : Cell}

theorem keeps_keep (hp : p.cell = .ok c) (hc : c ≠ .null) (routers : RouterTable)
    (f : String × String) : Keeps (World.others p c) (alter (keep routers p f)) := by
  intro w
  rw [ends_alter, keep_eq hp hc]
  split
  · rename_i s hs
    split at hs
    · rw [← Except.ok.inj hs]
    · split at hs
      · cases hs
      · split at hs
        · rw [← Except.ok.inj hs]
          simp [World.others, World.aside, World.besides, Store.adding, row]
        · cases hs
  · rfl

end Entry

/-! ## What is the project's -/

namespace World

/-- The project's part of the world: of the graph and of the entry points only what is the
project's, and no log. -/
def own (p : ProjectKey) (c : Cell) (w : World) : World :=
  { w with
    graph := w.graph.only p
    store := { w.store with endpoints := w.store.endpoints.filter fun e => e.project = c }
    log := [] }

/-- Two worlds are the same for a project: its part is, and the entry points of both keep their
rules or of both do not. -/
structure AlikeFor (p : ProjectKey) (c : Cell) (w v : World) : Prop where
  own : w.own p c = v.own p c
  rules : Store.endpointsConsistent w.store.endpoints = Store.endpointsConsistent v.store.endpoints

namespace AlikeFor

variable {p : ProjectKey} {c : Cell} {w v : World}

theorem agree (h : AlikeFor p c w v) : w.Agree v where
  settings := congrArg (·.settings) h.own
  files := congrArg (·.files) h.own
  trees := congrArg (·.trees) h.own
  projects := congrArg (·.store.projects) h.own
  hosted := congrArg (·.hosted) h.own

theorem only (h : AlikeFor p c w v) : w.graph.only p = v.graph.only p := congrArg (·.graph) h.own

theorem node? (h : AlikeFor p c w v) (id : Json) : w.graph.node? p id = v.graph.node? p id := by
  rw [← Graph.only_node? p.same_self, h.only, Graph.only_node? p.same_self]

theorem hasNodes (h : AlikeFor p c w v) (a b : Json) :
    w.graph.hasNodes p a b = v.graph.hasNodes p a b := by
  simp only [Graph.hasNodes, Graph.hasNode, h.node?]

theorem endpoint? (h : AlikeFor p c w v) (id : Option String) :
    w.store.endpoint? id c = v.store.endpoint? id c := by
  rw [← Store.endpoint?_filter, ← Store.endpoint?_filter,
    show w.store.endpoints.filter _ = v.store.endpoints.filter _ from
      congrArg (·.store.endpoints) h.own]

/-- Changing the graph of both in a way that is the same for the project. -/
theorem graph (h : AlikeFor p c w v) {g k : Graph} (hg : g.only p = k.only p) :
    AlikeFor p c { w with graph := g } { v with graph := k } where
  own := by
    change { w.own p c with graph := g.only p } = { v.own p c with graph := k.only p }
    rw [h.own, hg]
  rules := h.rules

theorem add (h : AlikeFor p c w v) {e : Endpoint} (he : e.project = c)
    (hnew : w.store.endpoint? (some e.identifier) c = none) : AlikeFor p c
      { w with store := w.store.adding [e] } { v with store := v.store.adding [e] } where
  own := by
    have happend (l : List Endpoint) : (l ++ [e]).filter (fun e => decide (e.project = c)) =
        l.filter (fun e => decide (e.project = c)) ++ [e] := by simp [he]
    unfold World.own Store.adding
    simp only [happend]
    exact congrArg (fun u : World => { u with store := u.store.adding [e] }) h.own
  rules := by
    have hw := Store.endpointsConsistent_concat (e := e) (s := w.store) (he ▸ hnew)
    have hv := Store.endpointsConsistent_concat (e := e) (s := v.store) (he ▸ h.endpoint? _ ▸ hnew)
    simp only [Store.adding, hw, hv, h.rules]

theorem withFiles (h : AlikeFor p c w v) (t : FileTree) :
    AlikeFor p c { w with files := t } { v with files := t } :=
  ⟨congrArg (fun u : World => { u with files := t }) h.own, h.rules⟩

theorem steady : Steady (AlikeFor p c) where
  troubles h := congrArg (·.troubles) h.own
  moved _ _ ts h := ⟨congrArg (fun u : World => { u with troubles := ts }) h.own, h.rules⟩

end AlikeFor
end World

namespace GraphService
open Run World

variable {p : ProjectKey} {c : Cell}

/-- A command or a question about a project depends on nothing but its part of the graph. -/
theorem Own.respects {α : Type} {r : Run α} (h : Own p α r) : Respects (AlikeFor p c) r := by
  cases h with
  | upsert id ps =>
    refine AlikeFor.steady.openSession.bind fun _ => (AlikeFor.steady.send _).bind fun _ =>
      (AlikeFor.steady.note _).bind fun _ => (Respects.lift _).bind fun _ =>
        Respects.modify fun w v h => h.graph ?_
    simp only [Graph.only_upsert, p.same_self, if_true, h.only]
  | connect a b properties =>
    refine AlikeFor.steady.openSession.bind fun _ => (AlikeFor.steady.send _).bind fun _ =>
      (AlikeFor.steady.note _).bind fun _ => (Respects.lift _).bind fun _ => ?_
    refine Respects.getBind (fun w v h => by rw [h.hasNodes]) fun w => ?_
    split
    · refine (Respects.lift _).bind fun ps => Respects.modify fun w v h => h.graph ?_
      simp only [Graph.only_connect, p.same_self, if_true, h.only]
    · exact Respects.pure _
  | extend base derived =>
    refine AlikeFor.steady.openSession.bind fun _ => Respects.bind (Respects.outcome ?_) fun _ =>
      Respects.pure _
    refine (AlikeFor.steady.send _).bind fun _ => (AlikeFor.steady.note _).bind fun _ =>
      (Respects.lift _).bind fun _ => Respects.modify fun w v h => h.graph ?_
    simp only [Graph.only_extend, p.same_self, if_true, h.only]
  | node? id => exact AlikeFor.steady.ask fun w v h => h.node? id

end GraphService

namespace Entry
open Run World

variable {p : ProjectKey} {c : Cell}

theorem respects_keep (hp : p.cell = .ok c) (hc : c ≠ .null) (routers : RouterTable)
    (f : String × String) : Respects (AlikeFor p c) (alter (keep routers p f)) := by
  intro w v h
  have hreadOnly : w.store.readOnly = v.store.readOnly := congrArg (·.store.readOnly) h.own
  rw [ends_alter, ends_alter, keep_eq hp hc, keep_eq hp hc, h.endpoint?, hreadOnly, h.rules]
  cases hknown : (v.store.endpoint? (some f.2) c).isSome with
  | true => exact ⟨rfl, h⟩
  | false =>
    cases v.store.readOnly with
    | true => exact ⟨rfl, h⟩
    | false =>
      cases Store.endpointsConsistent v.store.endpoints with
      | false => exact ⟨rfl, h⟩
      | true =>
        refine ⟨rfl, h.add (e := Entry.row routers c f) rfl ?_⟩
        rw [h.endpoint?]
        exact Option.not_isSome_iff_eq_none.1 (by simp [row, hknown])

end Entry

/-! ## The analysis -/

namespace Analysis
open Run World

variable {p : ProjectKey} {c : Cell}

/-- A step of an analysis leaves alone what is not the project's. -/
theorem Own.keeps (hp : p.cell = .ok c) (hc : c ≠ .null) {α : Type} {r : Run α} (h : Own p α r) :
    Keeps (World.others p c) r := by
  cases h with
  | graph h => exact fun w => congrArg (World.besides c) (h.keeps w)
  | keep routers f => exact Entry.keeps_keep hp hc routers f
  | note e => exact fun w => rfl
  | remove path => exact fun w => rfl

/-- A step of an analysis depends on nothing but what is the project's. -/
theorem Own.respects (hp : p.cell = .ok c) (hc : c ≠ .null) {α : Type} {r : Run α}
    (h : Own p α r) : Respects (AlikeFor p c) r := by
  cases h with
  | graph h => exact h.respects
  | keep routers f => exact Entry.respects_keep hp hc routers f
  | note e => exact AlikeFor.steady.note e
  | remove path =>
    exact (AlikeFor.steady.note _).bind fun _ => Respects.modify fun w v h =>
      h.agree.files ▸ h.withFiles (w.files.removeFolder path)

/-- **An analysis leaves alone what is not its project's.** -/
theorem keeps_analyse (hp : p.cell = .ok c) (hc : c ≠ .null) (directory : String) (user : Json) :
    Keeps (World.others p c) (analyse directory user p) :=
  (madeOf_analyse directory user).keeps fun _ _ => Own.keeps hp hc

/-- **An analysis depends on nothing but what is its project's.** -/
theorem respects_analyse (hp : p.cell = .ok c) (hc : c ≠ .null) (directory : String) (user : Json) :
    Respects (AlikeFor p c) (analyse directory user p) :=
  (madeOf_analyse directory user).respects (fun _ _ h => h.agree) fun _ _ => Own.respects hp hc

end Analysis
end CodeAtlas
