import CodeAtlas.Project.Setup
import CodeAtlas.Proofs.Confinement
import CodeAtlas.Proofs.DetectedEntries

/-!
# Analysing a project again

Before a project is analysed again, what was found in it is cleared away: its entry points, its part
of the graph and its folder (`Setup.ends_clear`). After that the project is as in a world that never
had anything of it (`Setup.alike_cleared`), and an analysis depends on nothing but what is its
project's.

* `Analysis.again_afresh`: clearing a project away and analysing it gives the answer, the nodes, the
  edges and the entry points that an analysis gives where there is nothing of the project, and
  leaves those of other projects as they were.
-/
namespace CodeAtlas

/-! ## Clearing a project away -/

namespace Store

def withoutEndpoints (s : Store) (c : Cell) : Store :=
  { s with endpoints := s.endpoints.filter fun e => e.project ≠ c }

/-- The entry points of a project that belongs to the user are deleted. -/
theorem deleteEndpointsOf_eq {s : Store} (hs : s.readOnly = false) {n : Int} {u : String}
    (howner : ∃ q ∈ s.projects, q.id = n ∧ q.owner = u) :
    s.deleteEndpointsOf (.number n) (some u) = .ok (s.withoutEndpoints (.number n)) := by
  obtain ⟨q, hq, rfl, rfl⟩ := howner
  have howned : ((s.projectsOf (some q.owner)).map fun p => Cell.number p.id).contains
      (.number q.id) := by
    simp only [List.contains_iff_mem, List.mem_map, projectsOf]
    exact ⟨q, List.mem_filter.2 ⟨hq, by simp⟩, rfl⟩
  have hselect : (fun e : Endpoint => !(decide (e.project = .number q.id) &&
      ((s.projectsOf (some q.owner)).map fun p => Cell.number p.id).contains e.project)) =
        fun e => decide (e.project ≠ .number q.id) := by
    funext e
    by_cases he : e.project = .number q.id
    · rw [he, howned]
      simp
    · simp [he]
  simp only [deleteEndpointsOf, withoutEndpoints, deleteRows, hs, Bool.false_eq_true, if_false,
    hselect]
  rfl

theorem endpointsConsistent_withoutEndpoints {s : Store}
    (h : endpointsConsistent s.endpoints = true) (c : Cell) :
    endpointsConsistent (s.withoutEndpoints c).endpoints = true := by
  unfold endpointsConsistent at h ⊢
  rw [decide_eq_true_eq] at h ⊢
  exact h.sublist (List.filter_sublist.map _)

end Store

theorem GraphService.ends_deleteProject {w : World} (h : w.troubles = []) (p : ProjectKey) :
    (deleteProject p).ends w = (.ok (), GraphCommand.sent w [.delete p]) := by
  refine Prod.ext ?_ (GraphCommand.after_delete h p)
  unfold deleteProject
  rw [Run.ends_bind_ok _ (ends_openSession h), Run.ends_bind_ok _ (Run.ends_outcome _ _),
    ends_send h]
  rfl

theorem Folder.ends_discard (path : Json) (w : World) :
    ∃ files log, (discard path).ends w = (.ok (), { w with files, log }) := by
  have hmode : Run.inDevelopment.ends w =
      (.ok (Table.get? w.settings "isDevelopmentMode" == some "enabled"), w) := rfl
  unfold discard
  rw [Run.ends_bind_ok _ hmode]
  split
  · exact ⟨w.files, w.log, rfl⟩
  · cases path with
    | str p =>
      simp only [Run.ends_bind_ok _ (Run.ends_get w)]
      split
      · exact ⟨_, _, rfl⟩
      · exact ⟨w.files, w.log, rfl⟩
    | _ => exact ⟨w.files, w.log, rfl⟩

namespace Setup
open World

/-- What was found in a project can be cleared away: the graph service is in order, and the store
takes changes and deletes by a condition on another table. -/
structure Clearable (w : World) : Prop where
  order : w.troubles = []
  joined : w.deletesJoined = true
  writable : w.store.readOnly = false

/-- The world without the nodes, edges and entry points of a project. -/
def cleared (p : ProjectKey) (c : Cell) (w : World) : World :=
  { w with graph := w.graph.deleteProject p, store := w.store.withoutEndpoints c }

variable {p : ProjectKey} {c : Cell} {n : Int} {u : String} {w v : World}

theorem ends_clear (hw : Clearable w) (hp : p.cell = .ok (.number n))
    (howner : ∃ q ∈ w.store.projects, q.id = n ∧ q.owner = u) (directory : Json) :
    ∃ files log, (clear directory p (.str u)).ends w =
      (.ok (), { cleared p (.number n) w with files, log }) := by
  have hsaved : (Saved.clear p (.str u)).ends w =
      (.ok (), { w with store := w.store.withoutEndpoints (.number n) }) := by
    unfold Saved.clear
    rw [Run.ends_bind_ok _ (Run.ends_get w), if_pos hw.joined, hp, Run.ends_bind_lift]
    change (Run.alter fun s => s.deleteEndpointsOf (.number n) (some u)).ends w = _
    rw [Run.ends_alter, Store.deleteEndpointsOf_eq hw.writable howner]
  have hdelete := GraphService.ends_deleteProject (p := p)
    (w := { w with store := w.store.withoutEndpoints (.number n) }) hw.order
  unfold clear
  rw [Run.ends_bind_ok _ hsaved, Run.ends_bind_ok _ hdelete]
  obtain ⟨files, log, h⟩ := Folder.ends_discard directory _
  exact ⟨files, log, h⟩

/-- `v` is a world in which there is nothing of the project, and that is like `w` but for the graph,
the entry points, the files and the log. -/
structure Afresh (p : ProjectKey) (c : Cell) (w v : World) : Prop where
  graph : v.graph.only p = .empty
  endpoints : v.store.endpoints.filter (fun e => e.project = c) = []
  rules : Store.endpointsConsistent v.store.endpoints = true
  rest : { v with
    graph := w.graph
    store := { v.store with endpoints := w.store.endpoints }
    files := w.files
    log := w.log } = w

/-- A project that was cleared away is as where there is nothing of it. -/
theorem alike_cleared (hw : Store.endpointsConsistent w.store.endpoints = true)
    (hv : Afresh p c w v) (files : FileTree) (log : List Effect) :
    AlikeFor p c { cleared p c w with files, log } { v with files } where
  own := by
    have hnone : (w.store.withoutEndpoints c).endpoints.filter (fun e => e.project = c) = [] := by
      simp [Store.withoutEndpoints, List.filter_filter]
    have hrest := congrArg (fun u : World =>
      { u with graph := .empty, store := { u.store with endpoints := [] }, files, log := [] })
      hv.rest
    simp only [World.own, cleared, Graph.only_deleteProject_self, hnone, hv.graph, hv.endpoints]
    exact hrest.symm
  rules := (Store.endpointsConsistent_withoutEndpoints hw c).trans hv.rules.symm

theorem others_cleared (files : FileTree) (log : List Effect) :
    World.others p c { cleared p c w with files, log } = World.others p c w := by
  simp [World.others, World.aside, World.besides, cleared, Store.withoutEndpoints,
    Graph.deleteProject_deleteProject]

end Setup

/-! ## Analysing again -/

/-- Two worlds have the same nodes, edges and entry points of a project. -/
structure World.SameOf (p : ProjectKey) (c : Cell) (w v : World) : Prop where
  graph : w.graph.only p = v.graph.only p
  endpoints : w.store.endpoints.filter (fun e => e.project = c) =
    v.store.endpoints.filter fun e => e.project = c

namespace World

variable {p : ProjectKey} {c : Cell} {w v : World}

theorem AlikeFor.sameOf (h : AlikeFor p c w v) : SameOf p c w v :=
  ⟨h.only, congrArg (·.store.endpoints) h.own⟩

theorem sameOf_of_others (h : w.others p c = v.others p c) {q : ProjectKey} {d : Cell}
    (hq : q.same p = false) (hd : d ≠ c) : SameOf q d w v where
  graph := by
    have hdelete : w.graph.deleteProject p = v.graph.deleteProject p := congrArg (·.graph) h
    have hpq : p.same q = false := by rw [ProjectKey.same_comm, hq]
    have hother (g : Graph) : (g.deleteProject p).only q = g.only q := by
      rw [Graph.only_deleteProject, hpq, if_neg Bool.noConfusion]
    rw [← hother, hdelete, hother]
  endpoints := by
    have hrows : w.store.endpoints.filter (fun e => e.project ≠ c) =
        v.store.endpoints.filter fun e => e.project ≠ c := congrArg (·.store.endpoints) h
    have hpart (l : List Endpoint) : l.filter (fun e => e.project = d) =
        (l.filter fun e => e.project ≠ c).filter fun e => e.project = d := by
      rw [List.filter_filter]
      refine List.filter_congr fun e _ => ?_
      by_cases he : e.project = d
      · simp [he, hd]
      · simp [he]
    rw [hpart, hrows, ← hpart]

end World

namespace Analysis
open World Setup

def ofFiles (files : FileTree) (directory : String) (user : Json) (p : ProjectKey) : Run Unit := do
  modify fun w => { w with files }
  analyse directory user p

/-- What was found in a project is cleared away together with its folder, then given files are
analysed. -/
def again (folder : Json) (files : FileTree) (directory : String) (user : Json) (p : ProjectKey) :
    Run Unit := do
  clear folder p user
  ofFiles files directory user p

variable {p : ProjectKey} {n : Int} {u : String} {w v : World}

/-- **Analysing again is analysing afresh**: whatever is known of a project of the user, clearing it
away succeeds, and the analysis of any files ends as it ends where there is nothing of the project,
with the same nodes, edges and entry points. Those of any other project stay as they were. -/
theorem again_afresh (hw : Clearable w)
    (hrules : Store.endpointsConsistent w.store.endpoints = true)
    (hp : p.cell = .ok (.number n)) (howner : ∃ q ∈ w.store.projects, q.id = n ∧ q.owner = u)
    (hv : Afresh p (.number n) w v) (folder : Json) (files : FileTree) (directory : String) :
    (clear folder p (.str u)).answer w = .ok () ∧
    (again folder files directory (.str u) p).answer w =
      (ofFiles files directory (.str u) p).answer v ∧
    SameOf p (.number n) ((again folder files directory (.str u) p).after w)
      ((ofFiles files directory (.str u) p).after v) ∧
    ∀ q d, q.same p = false → d ≠ .number n →
      SameOf q d ((again folder files directory (.str u) p).after w) w := by
  obtain ⟨left, log, hclear⟩ := ends_clear hw hp howner folder
  have hagain : (again folder files directory (.str u) p).ends w =
      (analyse directory (.str u) p).ends { cleared p (.number n) w with files, log } := by
    unfold again
    rw [Run.ends_bind_ok _ hclear]
    rfl
  have hfresh : (ofFiles files directory (.str u) p).ends v =
      (analyse directory (.str u) p).ends { v with files } := rfl
  have hc : Cell.number n ≠ .null := by simp
  obtain ⟨hanswer, hafter⟩ := respects_analyse hp hc directory (.str u) _ _
    (alike_cleared hrules hv files log)
  have hothers := keeps_analyse hp hc directory (.str u) { cleared p (.number n) w with files, log }
  rw [← hagain, others_cleared] at hothers
  rw [← hagain, ← hfresh] at hanswer hafter
  exact ⟨congrArg Prod.fst hclear, hanswer, hafter.sameOf, fun q d hq hd =>
    sameOf_of_others hothers hq hd⟩

/-- Two projects with an entry point of one identifier; what is known of the first one is old. -/
def outdated : World :=
  { World.oneSource Entry.routeSource Entry.routeTree with
    deletesJoined := true
    graph :=
      { nodes := [Graph.freshNode (.number 1) (.str "/m.py:f"),
          Graph.freshNode (.number 1) (.str "/m.py:old"),
          Graph.freshNode (.number 2) (.str "/m.py:f")]
        calls := [⟨⟨.number 1, .str "/m.py:f"⟩, ⟨.number 1, .str "/m.py:old"⟩, []⟩]
        extensions := [] }
    store := { Store.empty with
      projects := [.sample 1 "u"]
      endpoints := [⟨some "GET /old", "/m.py:f", some "plan", none, .number 1⟩,
        ⟨some "GET /x", "/m.py:f", none, none, .number 2⟩] } }

def renewed : World :=
  { outdated with graph := .empty, store := { outdated.store with endpoints := [] } }

theorem outdated_again :
    (again (.str "/p") outdated.files "/p" (.str "u") (.number 1)).answer outdated =
      (ofFiles outdated.files "/p" (.str "u") (.number 1)).answer renewed ∧
    SameOf (.number 1) (.number 1)
      ((again (.str "/p") outdated.files "/p" (.str "u") (.number 1)).after outdated)
      ((ofFiles outdated.files "/p" (.str "u") (.number 1)).after renewed) ∧
    SameOf (.number 2) (.number 2)
      ((again (.str "/p") outdated.files "/p" (.str "u") (.number 1)).after outdated) outdated := by
  have h := again_afresh (w := outdated) (v := renewed) (p := .number 1) (n := 1) (u := "u")
    ⟨rfl, rfl, rfl⟩ (by decide) rfl ⟨_, List.mem_cons_self, rfl, rfl⟩ ⟨rfl, rfl, rfl, rfl⟩
    (.str "/p") outdated.files "/p"
  exact ⟨h.2.1, h.2.2.1, h.2.2.2 (.number 2) (.number 2) (by decide) (by decide)⟩

end Analysis
end CodeAtlas
