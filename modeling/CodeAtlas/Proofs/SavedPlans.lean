import CodeAtlas.Proofs.BlastRadius
import CodeAtlas.Proofs.JsonText
import CodeAtlas.Proofs.OwnReads
import CodeAtlas.Proofs.ProjectTable

/-!
# Plans that are saved

A plan is sent as an object, brought into the form of a plan, written as text into a column of its
entry point, and read from there.

* `Store.updateEndpoint_eq`: setting a column puts one row in the place of another and leaves the
  rest;
* `Saved.ends_set`, `Saved.ends_set_none`: so does saving, and for an entry point that is not there
  nothing is written;
* `PlanSent.read`: lists of texts pass through the form as they are;
* `Api.Plans.plan_read_back`: a plan that was saved is read as it was sent.
-/
namespace CodeAtlas

/-! ## One row in the place of another -/

namespace Store

variable {s : Store} {e e' : Endpoint}

/-- A store with an entry point in the place of another. -/
def replace (s : Store) (e e' : Endpoint) : Store :=
  { s with endpoints := s.endpoints.map fun r => if r = e then e' else r }

theorem replace_self (s : Store) (e : Endpoint) : s.replace e e = s := by
  have hsame : (s.endpoints.map fun r => if r = e then e else r) = s.endpoints := by
    conv => rhs; rw [← List.map_id' s.endpoints]
    refine List.map_congr_left fun r _ => ?_
    split
    · next h => exact h.symm
    · rfl
  rw [replace, hsame]

/-- An entry point that keeps its project and its identifier can take its own place. -/
theorem endpointsConsistent_replace (hproject : e'.project = e.project)
    (hidentifier : e'.identifier = e.identifier) (hs : endpointsConsistent s.endpoints = true) :
    endpointsConsistent (s.replace e e').endpoints = true := by
  have hkeys : (s.replace e e').endpoints.map (fun e => (e.project, e.identifier)) =
      s.endpoints.map fun e => (e.project, e.identifier) := by
    rw [replace, List.map_map]
    refine List.map_congr_left fun r _ => ?_
    rw [Function.comp]
    split
    · next h => rw [hproject, hidentifier, h]
    · rfl
  rwa [endpointsConsistent, hkeys]

theorem endpoint?_replace {c : Cell} (e' : Endpoint) (he : e ∈ s.endpoints) (hc : e.project = c)
    (hproject : e'.project = e.project) (hidentifier : e'.identifier = e.identifier)
    (hs : endpointsConsistent s.endpoints = true) :
    (s.replace e e').endpoint? (some e.identifier) c = some e' := by
  rw [endpoint?_eq_some (endpointsConsistent_replace hproject hidentifier hs)]
  exact ⟨List.mem_map.2 ⟨e, he, if_pos rfl⟩, hproject.trans hc, hidentifier⟩

theorem change_one {ρ : Type} [DecidableEq ρ] {select : ρ → Bool} {f : ρ → Except Failure ρ}
    {a b : ρ} (hf : f a = .ok b) (rows : List ρ) (h : ∀ r ∈ rows, select r = true ↔ r = a) :
    change select f rows = .ok (rows.map fun r => if r = a then b else r) := by
  induction rows with
  | nil => rfl
  | cons r rows ih =>
    obtain ⟨hr, hrows⟩ := List.forall_mem_cons.1 h
    rw [change, ih hrows, List.map_cons]
    by_cases hra : r = a
    · rw [if_pos (hr.2 hra), if_pos hra, hra, hf]
      rfl
    · rw [if_neg (fun hsel => hra (hr.1 hsel)), if_neg hra]
      rfl

theorem isEndpoint_iff (he : e ∈ s.endpoints) (hs : endpointsConsistent s.endpoints = true) :
    ∀ r ∈ s.endpoints, isEndpoint (some e.identifier) e.project r = true ↔ r = e := by
  intro r hr
  simp only [isEndpoint, Option.some.injEq, Bool.and_eq_true, decide_eq_true_eq]
  refine ⟨fun h => ?_, fun h => h ▸ ⟨rfl, rfl⟩⟩
  simp only [endpointsConsistent, decide_eq_true_eq] at hs
  exact List.inj_on_of_nodup_map hs hr he (Prod.ext h.2 h.1)

theorem updateEndpoint_eq {n : Int} {c : Change} (he : e ∈ s.endpoints) (hn : e.project = .number n)
    (hfits : Cell.fits n = true) (hro : s.readOnly = false)
    (hs : endpointsConsistent s.endpoints = true)
    (hcolumn : Column.ofChanges Endpoint.columns [c] = .ok ())
    (hassign : Endpoint.assign e c = .ok e') (hproject : e'.project = e.project)
    (hidentifier : e'.identifier = e.identifier) :
    s.updateEndpoint (.str e.identifier) (.int n) [c] = .ok (s.replace e e') := by
  have hone : assignAll Endpoint.assign [c] e = .ok e' := by
    rw [assignAll, List.foldlM_cons, hassign]
    rfl
  have hrows := change_one hone s.endpoints (isEndpoint_iff he hs)
  have hupdate : updateRows s.readOnly Endpoint.assign endpointsConsistent
      (isEndpoint (some e.identifier) e.project) [c] s.endpoints =
        .ok (s.replace e e').endpoints := by
    have hconsistent := endpointsConsistent_replace hproject hidentifier hs
    rw [updateRows, hrows, hro]
    exact if_pos hconsistent
  have hcell : Cell.ofJson (.int n) = .ok e.project := by
    rw [hn]
    exact if_pos hfits
  have hnumber : e.project.asNumber = e.project := by
    rw [hn]
    rfl
  unfold updateEndpoint checkChanges
  rw [if_neg (by simp), hcolumn, hcell]
  change (do
    let endpoints ← updateRows s.readOnly Endpoint.assign endpointsConsistent
      (isEndpoint (some e.identifier) e.project.asNumber) [c] s.endpoints
    return { s with endpoints }) = _
  rw [hnumber, hupdate]
  rfl

end Store

/-! ## Columns of an entry point -/

namespace Saved

variable {w : World} {e e' : Endpoint} {n : Int}

theorem ends_endpoint? (identifier : String) (hfits : Cell.fits n = true) (w : World) :
    (endpoint? (.str identifier) (.number n)).ends w =
      (.ok (w.store.endpoint? (some identifier) (.number n)), w) := by
  unfold endpoint?
  rw [Registry.cell_number hfits]
  rfl

/-- Nothing is written for an entry point that is not there. -/
theorem ends_set_none (column : String) (held : Endpoint → Option String) (v : Json)
    {identifier : String} (hfits : Cell.fits n = true)
    (hnone : w.store.endpoint? (some identifier) (.number n) = none) :
    (set column held v (.str identifier) (.number n)).ends w =
      (.error (.refuse 404 "Endpoint not found"), w) := by
  unfold set
  rw [Run.ends_bind_ok _ (ends_endpoint? identifier hfits w), hnone]
  rfl

theorem ends_set {column text : String} {held : Endpoint → Option String}
    (he : e ∈ w.store.endpoints) (hn : e.project = .number n) (hfits : Cell.fits n = true)
    (hro : w.store.readOnly = false) (hs : Store.endpointsConsistent w.store.endpoints = true)
    (hcolumn : Column.ofChanges Endpoint.columns [(column, .str text)] = .ok ())
    (hassign : Endpoint.assign e (column, .str text) = .ok e') (hproject : e'.project = e.project)
    (hidentifier : e'.identifier = e.identifier) (hheld : held e = some text → e' = e) :
    (set column held (.str text) (.str e.identifier) (.number n)).ends w =
      (.ok (), { w with store := w.store.replace e e' }) := by
  have hfound : w.store.endpoint? (some e.identifier) (.number n) = some e :=
    (Store.endpoint?_eq_some hs).2 ⟨he, hn, rfl⟩
  have hupdate := Store.updateEndpoint_eq he hn hfits hro hs hcolumn hassign hproject hidentifier
  unfold set
  rw [Run.ends_bind_ok _ (ends_endpoint? e.identifier hfits w), hfound]
  by_cases hsame : Json.ofOption (held e) = .str text
  · have hkept : e' = e := by
      refine hheld ?_
      cases h : held e with
      | none => rw [h] at hsame; cases hsame
      | some t => rw [h] at hsame; exact congrArg some (Json.str.inj hsame)
    rw [hkept, Store.replace_self]
    simp only [hsame, if_true]
    rfl
  · simp only [hsame, if_false]
    change (Run.alter fun s =>
      s.updateEndpoint (.str e.identifier) (.int n) [(column, .str text)]).ends w = _
    rw [Run.ends_alter, hupdate]

end Saved

/-! ## Plans -/

def Json.plan (happy edge : List String) : Json :=
  .obj [("happy_path", .arr (happy.map .str)), ("edge_case", .arr (edge.map .str))]

theorem Json.ofTexts_texts (d : Nat) (ts : List String) : OfTexts (d + 1) (.arr (ts.map .str)) := by
  refine .arr fun x hx => ?_
  obtain ⟨t, -, rfl⟩ := List.mem_map.1 hx
  exact .str d t

theorem Json.ofText_plan (happy edge : List String) :
    ofText ((plan happy edge).render .compact) = .ok (plan happy edge) := by
  refine ofText_render Layout.standard_compact (.obj (by simp) ?_)
  simp only [List.forall_mem_cons]
  exact ⟨ofTexts_texts _ happy, ofTexts_texts _ edge, by simp⟩

/-! ## The form of a request -/

namespace Shape

theorem collect_ok {α : Type} (xs : List α) : collect (xs.map Except.ok) = .ok xs := by
  induction xs with
  | nil => rfl
  | cons x xs ih =>
    rw [List.map_cons, collect, ih]
    rfl

theorem read_texts (ts : List String) :
    read .texts (.arr (ts.map .str)) = .ok (.arr (ts.map .str)) := by
  have hitems : (ts.map Json.str).mapIdx readItem = (ts.map Json.str).map Except.ok := by
    refine List.ext_getElem (by simp) fun i _ _ => ?_
    simp [readItem, textOf?]
  simp only [read, hitems, collect_ok]
  rfl

theorem namedOf_obj (members : List (String × Json)) : namedOf (.obj members) = .ok members := by
  have hnames : (members.map fun m => (Json.str m.1, m.2)).mapM
      (fun m => m.1.str?.map fun name => (name, m.2)) = some members := by
    induction members with
    | nil => rfl
    | cons m members ih =>
      rw [List.map_cons, List.mapM_cons, ih]
      rfl
  simp only [namedOf, Json.entries, hnames]

theorem readFields_required {name : String} {shape : Shape} {rest : List Field}
    {members vs : List (String × Json)} {v v' : Json} (hget : Table.get? members name = some v)
    (hnull : v ≠ .null) (hread : read shape v = .ok v') (hrest : readFields rest members = .ok vs) :
    readFields ((name, .required, shape) :: rest) members = .ok ((name, v') :: vs) := by
  rw [readFields.eq_def]
  simp only [hget, hrest]
  cases v with
  | null => exact absurd rfl hnull
  | _ => simp only [hread]

end Shape

/-- The members of a request bring a plan for an entry point of a project. -/
structure PlanSent (members scenarios : List (String × Json)) (happy edge : List String)
    (project : Int) (identifier : String) : Prop where
  plan : Table.get? members "plan" = some (.obj scenarios)
  happyPath : Table.get? scenarios "happy_path" = some (.arr (happy.map .str))
  edgeCase : Table.get? scenarios "edge_case" = some (.arr (edge.map .str))
  project : Table.get? members "project_id" = some (.int project)
  identifier : Table.get? members "identifier" = some (.str identifier)

theorem PlanSent.read {members scenarios : List (String × Json)} {happy edge : List String}
    {n : Int} {identifier : String} (h : PlanSent members scenarios happy edge n identifier) :
    Form.planDetails.read (.obj members) = .ok (.obj [("plan", .plan happy edge),
      ("project_id", .int n), ("identifier", .str identifier)]) := by
  have hscenarios :
      Shape.read (.form Form.planFields) (.obj scenarios) = .ok (.plan happy edge) := by
    have hfields : Shape.readFields Form.planFields scenarios =
        .ok [("happy_path", .arr (happy.map .str)), ("edge_case", .arr (edge.map .str))] :=
      Shape.readFields_required h.happyPath (by simp) (Shape.read_texts happy)
        (Shape.readFields_required h.edgeCase (by simp) (Shape.read_texts edge) rfl)
    simp only [Shape.read, Shape.namedOf_obj, hfields]
    rfl
  have hfields : Shape.readFields Form.planDetails.fields members =
      .ok [("plan", .plan happy edge), ("project_id", .int n), ("identifier", .str identifier)] :=
    Shape.readFields_required h.plan (by simp) hscenarios
      (Shape.readFields_required h.project (by simp) rfl
        (Shape.readFields_required h.identifier (by simp) rfl rfl))
  have hendless : Form.planDetails.fields.any (Form.isEndless members) = false := by
    have hinteger : Form.planDetails.fields.any (Form.isEndless members) =
        (Form.isEndless members ("project_id", .required, .integer) || false) := rfl
    rw [hinteger, Bool.or_false]
    simp only [Form.isEndless, h.project]
  simp only [Form.read, Form.readMembers, hendless, hfields]
  rfl

/-! ## Saving a plan and reading it -/

theorem Registry.ends_projectOf?_some {w : World} {user : String} {n : Int} {p : Project}
    (hfits : Cell.fits n = true) (hp : w.store.projectOf? (.number n) (some user) = some p) :
    (projectOf? (.number n) (.str user)).ends w = (.ok (some p), w) := by
  rw [ends_projectOf?, cell_number hfits, ← hp, Store.projectOf?_eq]
  rfl

namespace Saved

variable {w : World} {e : Endpoint} {n : Int}

theorem ends_setPlan (text : String) (he : e ∈ w.store.endpoints) (hn : e.project = .number n)
    (hfits : Cell.fits n = true) (hro : w.store.readOnly = false)
    (hs : Store.endpointsConsistent w.store.endpoints = true) :
    (setPlan (.str e.identifier) (.str text) (.number n)).ends w =
      (.ok (), { w with store := w.store.replace e { e with plan := some text } }) :=
  ends_set he hn hfits hro hs rfl rfl rfl rfl fun h => by rw [← h]

theorem value_of_ofText {text : String} {j : Json} (h : Json.ofText text = .ok j) :
    value (some text) = .ok j := by
  have hempty : text ≠ "" := by
    rintro rfl
    cases h
  rw [value, if_neg (by simpa using hempty), h]
  rfl

/-- A plan that was saved is what is read. -/
theorem ends_plan {happy edge : List String} {identifier : String} (hfits : Cell.fits n = true)
    (he : w.store.endpoint? (some identifier) (.number n) = some e)
    (hplan : e.plan = some ((Json.plan happy edge).render .compact)) :
    (plan (.str identifier) (.number n)).ends w = (.ok (.plan happy edge), w) := by
  have hvalue : value e.plan = .ok (.plan happy edge) := by
    rw [hplan]
    exact value_of_ofText (Json.ofText_plan happy edge)
  unfold plan
  rw [Run.ends_bind_ok _ (ends_endpoint? identifier hfits w), he]
  change (liftM (value e.plan) : Run Json).ends w = _
  rw [hvalue, Run.ends_lift]

end Saved

namespace Api.Plans

variable {w : World} {user : String} {p : Project} {happy edge : List String} {identifier : String}
  {members scenarios : List (String × Json)}

/-- A request to save a plan. -/
def put (body : Json) (user : Json) : Run (Reply Unit) := do
  set (← Form.planDetails.read body) user

theorem ends_put (hp : w.store.projectOf? (.number p.id) (some user) = some p)
    (hfits : Cell.fits p.id = true) (h : PlanSent members scenarios happy edge p.id identifier) :
    (put (.obj members) (.str user)).ends w = (Reply.value <$> Saved.setPlan (.str identifier)
      (.str ((Json.plan happy edge).render .compact)) (.number p.id)).ends w := by
  unfold put
  rw [h.read, Run.ends_bind_ok _ (Run.ends_lift _ w)]
  exact Run.ends_bind_ok _ (Registry.ends_projectOf?_some hfits hp)

theorem ends_plan (hp : w.store.projectOf? (.number p.id) (some user) = some p)
    (hfits : Cell.fits p.id = true)
    (hsaved : (Saved.plan (.str identifier) (.number p.id)).ends w = (.ok (.plan happy edge), w)) :
    (plan (.number p.id) (.str identifier) (.str user)).ends w = (.ok (.plan happy edge), w) := by
  unfold plan
  rw [Run.ends_bind_ok _ (Registry.ends_projectOf?_some hfits hp)]
  exact Run.ends_bind_ok _ hsaved

/-- A plan that is saved for an entry point is read back as it was sent, whatever its texts. Nothing
changes but the text of that plan: no other column, no other row and nothing else in the world, in
which every question to the language model is noted. For an entry point that is not there saving is
refused, and nothing changes at all. -/
theorem plan_read_back (hp : w.store.projectOf? (.number p.id) (some user) = some p)
    (hfits : Cell.fits p.id = true) (hro : w.store.readOnly = false)
    (hs : Store.endpointsConsistent w.store.endpoints = true)
    (h : PlanSent members scenarios happy edge p.id identifier) :
    (∀ e ∈ w.store.endpoints, e.identifier = identifier → e.project = .number p.id →
      ∃ text v, v = { w with store := w.store.replace e { e with plan := some text } } ∧
        (put (.obj members) (.str user)).ends w = (.ok (.value ()), v) ∧
        (plan (.number p.id) (.str identifier) (.str user)).ends v = (.ok (.plan happy edge), v)) ∧
    ((∀ e ∈ w.store.endpoints, e.identifier = identifier → e.project ≠ .number p.id) →
      (put (.obj members) (.str user)).ends w =
        (.error (.refuse 404 "Endpoint not found"), w)) := by
  constructor
  · rintro e he rfl hproject
    have hset := Saved.ends_setPlan ((Json.plan happy edge).render .compact) he hproject hfits
      hro hs
    refine ⟨(Json.plan happy edge).render .compact, _, rfl, ?_, ?_⟩
    · rw [ends_put hp hfits h]
      exact Run.ends_bind_ok _ hset
    · have hrow := Store.endpoint?_replace
        { e with plan := some ((Json.plan happy edge).render .compact) } he hproject rfl rfl hs
      exact ends_plan hp hfits (Saved.ends_plan hfits hrow rfl)
  · intro hnone
    have hfind : w.store.endpoint? (some identifier) (.number p.id) = none := by
      refine List.find?_eq_none.2 fun e he => ?_
      simp only [Store.isEndpoint, Option.some.injEq, Bool.and_eq_true, decide_eq_true_eq, not_and]
      exact hnone e he
    rw [ends_put hp hfits h]
    exact Run.ends_bind_error _ (Saved.ends_set_none "test_plan" Endpoint.plan _ hfits hfind)

/-- A plan with quotes, a backslash, control characters and a character outside the first plane, in
a request with a member that does not belong there. -/
def greeting (identifier : String) : List (String × Json) :=
  [("identifier", .str identifier), ("by", .null), ("project_id", .int 1),
   ("plan", .obj [("edge_case", .arr [.str "\"\\\"", .str "\x01\x1f\x7f"]),
     ("happy_path", .arr [.str "", .str "é\n\t🐕"])])]

/-- The entry point has a plan already, and the one of another user with the same identifier keeps
its own. -/
theorem greeting_read_back :
    (∃ text v, v = { beside with
        store := beside.store.replace ⟨some "GET /f", "/a.py:f", some "[1]", none, .number 1⟩
          ⟨some "GET /f", "/a.py:f", some text, none, .number 1⟩ } ∧
      (put (.obj (greeting "/a.py:f")) (.str "u")).ends beside = (.ok (.value ()), v) ∧
      (plan (.number 1) (.str "/a.py:f") (.str "u")).ends v =
        (.ok (.plan ["", "é\n\t🐕"] ["\"\\\"", "\x01\x1f\x7f"]), v)) ∧
    (put (.obj (greeting "/a.py:g")) (.str "u")).ends beside =
      (.error (.refuse 404 "Endpoint not found"), beside) := by
  have hp : beside.store.projectOf? (.number 1) (some "u") = some (Project.sample 1 "u") := rfl
  have hs : Store.endpointsConsistent beside.store.endpoints = true := by decide
  have hback (identifier : String) := @plan_read_back beside "u" (Project.sample 1 "u") ["", "é\n\t🐕"]
    ["\"\\\"", "\x01\x1f\x7f"] identifier (greeting identifier) _ hp rfl rfl hs
    ⟨rfl, rfl, rfl, rfl, rfl⟩
  exact ⟨(hback "/a.py:f").1 ⟨some "GET /f", "/a.py:f", some "[1]", none, .number 1⟩ (by decide)
    rfl rfl, (hback "/a.py:g").2 (by decide)⟩

end Api.Plans

end CodeAtlas
