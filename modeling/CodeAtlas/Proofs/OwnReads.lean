import CodeAtlas.Api
import CodeAtlas.Proofs.GraphIsolation

/-!
# What a user reads does not depend on other users

`AgreeFor user w v` says that two worlds agree on the projects of a user, on the entry points of
these and on their parts of the graph. About the projects of others nothing is said.

* `Registry.ends_projectOf?`: a project is found for a user among the projects of that user;
* `AgreeFor.about`, `AgreeFor.aboutOwned`: so a request about a project is answered alike if it is
  answered alike for every project of the user;
* `AgreeFor.seenAlike`: the graph shows the same of a project of the user, also when it is in
  trouble;
* `AgreeFor.endpoint?`, `AgreeFor.byFile`: so does the table of entry points;
* `Api.reads_alike`: the six requests that read are answered alike, for every project and every
  identifier.
-/
namespace CodeAtlas

/-! ## What belongs to a user -/

/-- The entry points of a project, in the order of the table. -/
def Store.entriesOf (s : Store) (project : Cell) : List Endpoint :=
  s.endpoints.filter fun e => e.project = project

/-- Two worlds agree on the projects of a user, on the entry points of these and on their parts of
the graph. The projects of other users may differ in everything, but no call leads into or out of
them. -/
structure AgreeFor (user : String) (w v : World) : Prop where
  projects : w.store.projectsOf (some user) = v.store.projectsOf (some user)
  entries : ∀ p ∈ w.store.projectsOf (some user),
    w.store.entriesOf (.number p.id) = v.store.entriesOf (.number p.id)
  graph : ∀ p ∈ w.store.projectsOf (some user),
    w.graph.only (.number p.id) = v.graph.only (.number p.id)
  first : w.graph.Confined
  second : v.graph.Confined
  /-- The same trouble is ahead of the graph service in both. -/
  troubles : w.troubles = v.troubles

/-! ## Finding a project -/

theorem Store.projectOf?_eq (s : Store) (id : Cell) (user : Option String) :
    s.projectOf? id user = (s.projectsOf user).find? (isProject id) := by
  unfold Store.projectOf? Store.projectsOf
  rw [List.find?_filter]
  congr 1
  funext p
  simp [Bool.and_comm]

theorem Registry.ends_projectOf? (project : ProjectKey) (user : String) (w : World) :
    (Registry.projectOf? project (.str user)).ends w =
      (project.cell.map fun c =>
        (w.store.projectsOf (some user)).find? (Store.isProject c), w) := by
  unfold Registry.projectOf?
  rw [Run.ends_bind_lift]
  cases project.cell with
  | error e => rfl
  | ok c =>
    simp only [Except.map, ← Store.projectOf?_eq]
    rfl

theorem Store.endpoint?_eq (s : Store) (identifier : Option String) (project : Cell) :
    s.endpoint? identifier project =
      (s.entriesOf project).find? fun e => some e.identifier = identifier := by
  unfold Store.endpoint? Store.entriesOf
  rw [List.find?_filter]
  congr 1
  funext e
  simp [Store.isEndpoint, Bool.and_comm]

namespace AgreeFor

variable {α : Type} {user : String} {w v : World} (h : AgreeFor user w v)
include h

theorem afterSearch {project : ProjectKey} {k : Option Project → Run α}
    (hnone : (k none).answer w = (k none).answer v)
    (hsome : ∀ p ∈ w.store.projectsOf (some user),
      (Registry.projectOf? project (.str user)).answer w = .ok (some p) →
        (k (some p)).answer w = (k (some p)).answer v) :
    (Registry.projectOf? project (.str user) >>= k).answer w =
      (Registry.projectOf? project (.str user) >>= k).answer v := by
  have hw := Registry.ends_projectOf? project user w
  have hv := Registry.ends_projectOf? project user v
  rw [← h.projects] at hv
  cases hc : project.cell with
  | error e =>
    rw [hc] at hw hv
    rw [Run.answer_bind_error k (congrArg Prod.fst hw),
      Run.answer_bind_error k (congrArg Prod.fst hv)]
  | ok c =>
    rw [hc] at hw hv
    simp only [Except.map] at hw hv
    rw [Run.answer_bind_ok k hw, Run.answer_bind_ok k hv]
    cases hfound : (w.store.projectsOf (some user)).find? (Store.isProject c) with
    | none => exact hnone
    | some p =>
      rw [hfound] at hw
      exact hsome p (List.mem_of_find?_eq_some hfound) (congrArg Prod.fst hw)

theorem about {f : Project → Run α} (hf : ∀ p ∈ w.store.projectsOf (some user),
    (f p).answer w = (f p).answer v) (project : ProjectKey) :
    (Reply.about project (.str user) f).answer w =
      (Reply.about project (.str user) f).answer v := by
  refine h.afterSearch rfl fun p hp _ => ?_
  simp only [Run.answer_bind_pure, hf p hp]

theorem aboutOwned {f : Project → Run α} (hf : ∀ p ∈ w.store.projectsOf (some user),
    (f p).answer w = (f p).answer v) (project : ProjectKey) :
    (Reply.aboutOwned project (.str user) f).answer w =
      (Reply.aboutOwned project (.str user) f).answer v :=
  h.afterSearch rfl fun p hp _ => hf p hp

/-! ## Reading about a project -/

variable {p : Project} (hp : p ∈ w.store.projectsOf (some user))
include hp

/-- The graph shows the same of a project of the user. -/
theorem seenAlike : SeenAlike (.number p.id) w v :=
  AlikeOn.seenAlike ⟨h.graph p hp, h.first, h.second, h.troubles⟩

theorem byFile :
    Endpoint.byFile w.store (.number p.id) = Endpoint.byFile v.store (.number p.id) := by
  have hrows := h.entries p hp
  unfold Store.entriesOf at hrows
  unfold Endpoint.byFile Store.endpointsOf
  rw [hrows]

theorem endpoint? (identifier : Json) :
    (Saved.endpoint? identifier (.number p.id)).answer w =
      (Saved.endpoint? identifier (.number p.id)).answer v := by
  unfold Saved.endpoint?
  cases hi : Column.text identifier with
  | error e => rfl
  | ok name =>
    cases hc : (ProjectKey.number p.id).cell with
    | error e => rfl
    | ok c =>
      have hcell : c = .number p.id := by
        simp only [ProjectKey.cell, ProjectKey.number, Cell.ofJson] at hc
        split at hc
        · cases hc; rfl
        · cases hc
      change Except.ok (w.store.endpoint? name c) = Except.ok (v.store.endpoint? name c)
      rw [Store.endpoint?_eq, Store.endpoint?_eq, hcell, h.entries p hp]

theorem savedPlan (identifier : Json) : (Saved.plan identifier (.number p.id)).answer w =
    (Saved.plan identifier (.number p.id)).answer v := by
  refine Run.answer_bind_congr (h.endpoint? hp identifier) fun e _ _ => ?_
  cases e <;> rfl

theorem savedPreferences (identifier : Json) :
    (Saved.preferences identifier (.number p.id)).answer w =
      (Saved.preferences identifier (.number p.id)).answer v := by
  refine Run.answer_bind_congr (h.endpoint? hp identifier) fun e _ _ => ?_
  cases e <;> rfl

end AgreeFor

/-! ## Requests -/

namespace Api

def PlanSaved (user : String) (w : World) (project : ProjectKey) (identifier : Json) : Prop :=
  ∀ p, (Registry.projectOf? project (.str user)).answer w = .ok (some p) →
    (Saved.plan identifier (.number p.id)).answer w ≠ .ok .null

/-- The requests of a user that read are answered alike in two worlds, whatever project and
identifier they name. -/
structure ReadsAlike (user : String) (w v : World) : Prop where
  list : ∀ project, (Endpoints.list project (.str user)).answer w =
    (Endpoints.list project (.str user)).answer v
  flow : ∀ project identifier, (Endpoints.flow project identifier (.str user)).answer w =
    (Endpoints.flow project identifier (.str user)).answer v
  dependencies : ∀ project identifier,
    (Endpoints.dependencies project identifier (.str user)).answer w =
      (Endpoints.dependencies project identifier (.str user)).answer v
  node : ∀ project identifier, (Endpoints.node project identifier (.str user)).answer w =
    (Endpoints.node project identifier (.str user)).answer v
  preferences : ∀ project identifier,
    (Plans.preferences project identifier (.str user)).answer w =
      (Plans.preferences project identifier (.str user)).answer v
  plan : ∀ project identifier, PlanSaved user w project identifier →
    (Plans.plan project identifier (.str user)).answer w =
      (Plans.plan project identifier (.str user)).answer v

variable {user : String} {w v : World}

theorem plan_alike (h : AgreeFor user w v) {project : ProjectKey} {identifier : Json}
    (hs : PlanSaved user w project identifier) :
    (Plans.plan project identifier (.str user)).answer w =
      (Plans.plan project identifier (.str user)).answer v := by
  refine h.afterSearch rfl fun p hp hfound => ?_
  have hsaved := h.savedPlan hp identifier
  have hnull := hs p hfound
  cases hw : (Saved.plan identifier (.number p.id)).answer w with
  | error e =>
    simp only
    rw [Run.answer_bind_error _ hw, Run.answer_bind_error _ (hsaved ▸ hw)]
  | ok saved =>
    -- a saved plan is the answer, and nothing else is looked at
    have hends {u : World} (hu : (Saved.plan identifier (.number p.id)).answer u = .ok saved) :
        (Saved.plan identifier (.number p.id)).ends u =
          (.ok saved, (Saved.plan identifier (.number p.id)).after u) := Prod.ext hu rfl
    simp only
    rw [Run.answer_bind_ok _ (hends hw), Run.answer_bind_ok _ (hends (hsaved ▸ hw))]
    cases saved with
    | null => exact absurd hw hnull
    | _ => rfl

/-- **A user reads nothing of others**: in two worlds that agree on what belongs to a user, every
request of the user that reads is answered alike, also about projects of other users. -/
theorem reads_alike (h : AgreeFor user w v) : ReadsAlike user w v where
  list := h.about fun p hp => congrArg Except.ok (h.byFile hp)
  flow project identifier := h.about (fun p hp => (h.seenAlike hp).tree identifier) project
  dependencies project identifier := by
    refine h.about (fun p hp => ?_) project
    exact Run.answer_bind_congr ((h.seenAlike hp).functions identifier) fun _ _ _ => rfl
  node project identifier := h.about (fun p hp => (h.seenAlike hp).node identifier) project
  preferences project identifier :=
    h.aboutOwned (fun p hp => h.savedPreferences hp identifier) project
  plan _ _ := plan_alike h

/-- A project with a saved plan and two functions, and nothing else. -/
def alone : World :=
  { World.vacant with
    store := { Store.empty with
      projects := [Project.sample 1 "u"]
      endpoints := [⟨some "GET /f", "/a.py:f", some "[1]", none, .number 1⟩] }
    graph :=
      ⟨[⟨.number 1, .str "/a.py:f", [("id", .str "/a.py:f")]⟩,
        ⟨.number 1, .str "/a.py:g", [("id", .str "/a.py:g")]⟩],
       [⟨⟨.number 1, .str "/a.py:f"⟩, ⟨.number 1, .str "/a.py:g"⟩, []⟩], []⟩ }

/-- The same project beside one of another user, with functions of the same names. -/
def beside : World :=
  { alone with
    store := { alone.store with
      projects := [Project.sample 1 "u", Project.sample 2 "v"]
      endpoints := ⟨some "GET /g", "/a.py:f", some "[2]", some "[3]", .number 2⟩ ::
        alone.store.endpoints }
    graph :=
      ⟨⟨.number 2, .str "/a.py:f", []⟩ :: ⟨.number 2, .str "/a.py:g", []⟩ :: alone.graph.nodes,
       ⟨⟨.number 2, .str "/a.py:g"⟩, ⟨.number 2, .str "/a.py:f"⟩, []⟩ :: alone.graph.calls, []⟩ }

theorem beside_unseen : AgreeFor "u" alone beside ∧
    alone.store.projects ≠ beside.store.projects ∧ ReadsAlike "u" alone beside ∧
    (Plans.plan (.number 1) (.str "/a.py:f") (.str "u")).answer beside =
      .ok (.arr [.int 1]) := by
  have hagree : AgreeFor "u" alone beside := by
    have hown : ∀ p ∈ alone.store.projectsOf (some "u"), p.id = 1 := by decide
    exact ⟨by decide, fun p hp => by rw [hown p hp]; decide,
      fun p hp => by rw [hown p hp]; rfl, by unfold Graph.Confined; decide,
      by unfold Graph.Confined; decide, rfl⟩
  have hplan : (Plans.plan (.number 1) (.str "/a.py:f") (.str "u")).answer alone =
      .ok (.arr [.int 1]) := by rfl
  refine ⟨hagree, by decide, reads_alike hagree, ?_⟩
  rw [← (reads_alike hagree).plan (.number 1) (.str "/a.py:f"), hplan]
  intro p hp
  cases hp
  decide

end Api
end CodeAtlas
