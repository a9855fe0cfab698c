import CodeAtlas.Project.Setup
import CodeAtlas.Proofs.Confinement
import CodeAtlas.Proofs.Ownership

/-!
# The table of projects

What registering a project and setting its status do to the rows of the table.

* `ProjectTable.Apart`: two tables differ at most in the row with one number;
* `Registry.table_change`, `Registry.answer_change`: what setting columns of a project does;
* `Store.createProject_eq_ok`: what a new project brings into the table;
* `Setup.readies_register`: registering a project ends early with the table as it was, or leaves a
  row of the project there and all other rows as they were;
* `Setup.register_eq_ok`: the row that it leaves is one whose analysis has not begun.
-/
namespace CodeAtlas

/-- The rows of the table of projects, and whether the store takes no changes. -/
structure ProjectTable where
  rows : List Project
  readOnly : Bool

def World.table (w : World) : ProjectTable := ⟨w.store.projects, w.store.readOnly⟩

namespace ProjectTable

/-- The rules of the table hold, and its numbers are those that the store hands out, with room for
the next one. -/
structure Numbered (σ : ProjectTable) : Prop where
  consistent : Store.projectsConsistent σ.rows = true
  numbers : ∀ x ∈ σ.rows, 0 < x.id ∧ x.id < 9223372036854775807

theorem Numbered.fits {σ : ProjectTable} (h : σ.Numbered) {x : Project} (hx : x ∈ σ.rows) :
    Cell.fits x.id = true := by
  have := h.numbers x hx
  simp only [Cell.fits, Bool.and_eq_true, decide_eq_true_eq]
  omega

theorem eq_of_id {σ : ProjectTable} (h : Store.projectsConsistent σ.rows = true) {x y : Project}
    (hx : x ∈ σ.rows) (hy : y ∈ σ.rows) (hid : x.id = y.id) : x = y := by
  simp only [Store.projectsConsistent, Bool.and_eq_true, decide_eq_true_eq] at h
  exact List.inj_on_of_nodup_map h.1 hx hy hid

def set (σ : ProjectTable) (k : Int) (f : Project → Project) : ProjectTable :=
  { σ with rows := σ.rows.map fun r => if r.id = k then f r else r }

/-- Two tables differ at most in the row with one number. -/
structure Apart (k : Int) (σ τ : ProjectTable) : Prop where
  readOnly : τ.readOnly = σ.readOnly
  consistent : Store.projectsConsistent τ.rows = true
  others : ∀ x : Project, x.id ≠ k → (x ∈ τ.rows ↔ x ∈ σ.rows)

variable {σ τ υ : ProjectTable} {k : Int}

theorem Apart.trans (h : Apart k σ τ) (h' : Apart k τ υ) : Apart k σ υ :=
  ⟨h'.readOnly.trans h.readOnly, h'.consistent, fun x hx => (h'.others x hx).trans (h.others x hx)⟩

theorem mem_set {f : Project → Project} (hf : ∀ r, (f r).id = r.id) {x : Project} (hx : x.id ≠ k) :
    x ∈ (σ.set k f).rows ↔ x ∈ σ.rows := by
  constructor
  · intro h
    obtain ⟨r, hr, rfl⟩ := List.mem_map.1 h
    split at hx
    · next hk => exact absurd ((hf r).trans hk) hx
    · next hk => rwa [if_neg hk]
  · exact fun h => List.mem_map.2 ⟨x, h, by rw [if_neg hx]⟩

theorem apart_set {f : Project → Project} (h : Store.projectsConsistent σ.rows = true)
    (hf : ∀ r, (f r).id = r.id ∧ (f r).directory = r.directory) : Apart k σ (σ.set k f) := by
  refine ⟨rfl, Store.projectsConsistent_map (fun r => ?_) h,
    fun x hx => mem_set (fun r => (hf r).1) hx⟩
  split
  · exact hf r
  · exact ⟨rfl, rfl⟩

theorem mem_set_self {f : Project → Project} {y : Project} (hy : y ∈ σ.rows) (hk : y.id = k) :
    f y ∈ (σ.set k f).rows :=
  List.mem_map.2 ⟨y, hy, by rw [if_pos hk]⟩

end ProjectTable

/-! ## Setting columns -/

namespace Registry

variable {changes : List Change} {f : Project → Project} {w : World} {k : Int}

def stated (st : ProjectStatus) (r : Project) : Project := { r with status := some st }

def committed (c : String) (r : Project) : Project := { r with commit := some c }

theorem settles_stated (st : ProjectStatus) : Settles [("status", .str st.text)] (stated st) where
  columns := by cases st <;> rfl
  assigns r := by cases st <;> rfl
  keeps _ := ⟨rfl, rfl⟩

theorem settles_committed (c : String) : Settles [("commit_id", .str c)] (committed c) where
  columns := rfl
  assigns _ := rfl
  keeps _ := ⟨rfl, rfl⟩

theorem cell_number (hk : Cell.fits k = true) : (ProjectKey.number k).cell = .ok (.number k) := by
  simp only [ProjectKey.cell, ProjectKey.number, Cell.ofJson, hk, if_true]
  rfl

theorem altered_number (hk : Cell.fits k = true) (ro : Bool) :
    altered (.number k) ro f = fun r => if r.id = k ∧ ro = false then f r else r := by
  funext r
  simp only [altered, ProjectKey.names, cell_number hk, Store.isProject, Cell.number.injEq,
    Bool.and_eq_true, decide_eq_true_eq, Bool.not_eq_true']

theorem table_change (h : Settles changes f) (hk : Cell.fits k = true)
    (hs : Store.projectsConsistent w.table.rows = true) :
    ((change (.number k) changes).after w).table =
      if w.table.readOnly then w.table else w.table.set k f := by
  rw [after_change h _ hs, altered_number hk]
  cases hro : w.store.readOnly with
  | true => simp [World.table, Store.mapProjects, hro]
  | false => simp [World.table, Store.mapProjects, hro, ProjectTable.set]

theorem answer_change (h : Settles changes f) (hk : Cell.fits k = true)
    (hs : Store.projectsConsistent w.table.rows = true) (hro : w.table.readOnly = false) :
    ∃ b, (change (.number k) changes).answer w = .ok b := by
  unfold change Run.answer
  rw [cell_number hk, Run.ends_bind_ok _ (Run.ends_lift _ w), Run.ends_alterWith]
  cases hr : w.store.project? (.number k) with
  | none =>
    rw [Store.updateProject, hr]
    exact ⟨false, rfl⟩
  | some r =>
    rw [updateProject_eq h hs hro hr]
    exact ⟨true, rfl⟩

theorem answer_change_readOnly (h : Settles changes f) (hk : Cell.fits k = true)
    (hro : w.table.readOnly = true) {q : Project} (hq : q ∈ w.table.rows) (hid : q.id = k) :
    (change (.number k) changes).answer w = .error .storeRefused := by
  have hsome : (w.store.project? (.number k)).isSome = true :=
    List.find?_isSome.2 ⟨q, hq, by simp [Store.isProject, hid]⟩
  obtain ⟨r, hr⟩ := Option.isSome_iff_exists.1 hsome
  unfold change Run.answer
  rw [cell_number hk, Run.ends_bind_ok _ (Run.ends_lift _ w), Run.ends_alterWith,
    updateProject_readOnly h hro hr]

/-- A key that is nothing names no project. -/
theorem table_change_null (h : Settles changes f)
    (hs : Store.projectsConsistent w.table.rows = true) :
    ((change ⟨.null⟩ changes).after w).table = w.table := by
  have hnone : altered ⟨.null⟩ w.store.readOnly f = id := by
    funext r
    have hcell : (⟨.null⟩ : ProjectKey).cell = .ok .null := rfl
    simp [altered, ProjectKey.names, hcell, Store.isProject]
  rw [after_change h _ hs, hnone]
  simp [World.table, Store.mapProjects]

theorem ends_setStatus (hk : Cell.fits k = true)
    (hs : Store.projectsConsistent w.table.rows = true) (hro : w.table.readOnly = false)
    (st : ProjectStatus) : ∃ v, (setStatus (.number k) st).ends w = (.ok (), v) ∧
      v.table = w.table.set k (stated st) := by
  obtain ⟨b, hb⟩ := answer_change (settles_stated st) hk hs hro
  have htable := table_change (settles_stated st) hk hs
  rw [hro, if_neg Bool.false_ne_true] at htable
  exact ⟨_, Run.ends_bind_ok _ (Prod.ext hb rfl), htable⟩

end Registry

/-! ## New projects -/

namespace Store

theorem mem_insertBy {ρ : Type} (number : ρ → Int) (row x : ρ) (rows : List ρ) :
    x ∈ insertBy number row rows ↔ x = row ∨ x ∈ rows := by
  induction rows with
  | nil => simp [insertBy]
  | cons r rows ih =>
    unfold insertBy
    split
    · simp
    · simp only [List.mem_cons, ih]
      exact or_left_comm

theorem le_foldl_max (ns : List Int) : ∀ n : Int,
    n ≤ ns.foldl max n ∧ (∀ m ∈ ns, m ≤ ns.foldl max n) ∧
      (ns.foldl max n = n ∨ ns.foldl max n ∈ ns) := by
  induction ns with
  | nil => simp
  | cons m ns ih =>
    intro n
    obtain ⟨hle, hall, hmem⟩ := ih (max n m)
    simp only [List.foldl_cons, List.mem_cons, forall_eq_or_imp]
    refine ⟨by omega, ⟨by omega, hall⟩, ?_⟩
    rcases hmem with hmem | hmem
    · rcases Int.le_total n m with h | h
      · exact .inr (.inl (by omega))
      · exact .inl (by omega)
    · exact .inr (.inr hmem)

theorem nextProject_new {s : Store} {σ : ProjectTable} (hσ : σ.Numbered)
    (hs : s.projects = σ.rows) :
    Cell.fits s.nextProject = true ∧ ∀ x ∈ σ.rows, x.id ≠ s.nextProject := by
  unfold nextProject
  rw [hs]
  cases hrows : σ.rows with
  | nil => exact ⟨rfl, by simp⟩
  | cons r rows =>
    obtain ⟨hle, hall, hmem⟩ := le_foldl_max (rows.map Project.id) r.id
    have hbound : 0 < (rows.map Project.id).foldl max r.id ∧
        (rows.map Project.id).foldl max r.id < 9223372036854775807 := by
      have hid : ∃ x ∈ σ.rows, x.id = (rows.map Project.id).foldl max r.id := by
        rw [hrows]
        rcases hmem with hmem | hmem
        · exact ⟨r, List.mem_cons_self, hmem.symm⟩
        · obtain ⟨x, hx, hid⟩ := List.mem_map.1 hmem
          exact ⟨x, List.mem_cons_of_mem r hx, hid⟩
      obtain ⟨x, hx, hid⟩ := hid
      rw [← hid]
      exact hσ.numbers x hx
    simp only [List.map_cons, nextNumber, Cell.fits, Bool.and_eq_true, decide_eq_true_eq]
    refine ⟨by omega, fun x hx => ?_⟩
    rcases List.mem_cons.1 hx with rfl | hx
    · omega
    · have := hall x.id (List.mem_map_of_mem hx)
      omega

theorem text_of_someText {v : Json} {u : String} (h : Column.someText v = .ok u) :
    Column.text v = .ok (some u) := by
  obtain ⟨o, ho, h⟩ := Run.bind_eq_ok h
  cases o with
  | none => cases h
  | some x =>
    cases h
    exact ho

theorem ofColumns_eq_ok {next : Int} {c : Json} (hid : c.getD "id" = .null) {p : Project}
    (h : Project.ofColumns next c = .ok p) : p.id = next ∧
      Column.text (c.getD "project_name") = .ok p.name ∧
      Column.text (c.getD "user_id") = .ok (some p.owner) := by
  unfold Project.ofColumns at h
  rw [if_pos hid] at h
  obtain ⟨_, hnext, h⟩ := Run.bind_eq_ok h
  obtain ⟨_, -, h⟩ := Run.bind_eq_ok h
  obtain ⟨_, hname, h⟩ := Run.bind_eq_ok h
  obtain ⟨_, -, h⟩ := Run.bind_eq_ok h
  obtain ⟨_, -, h⟩ := Run.bind_eq_ok h
  obtain ⟨_, -, h⟩ := Run.bind_eq_ok h
  obtain ⟨_, howner, h⟩ := Run.bind_eq_ok h
  obtain ⟨_, -, h⟩ := Run.bind_eq_ok h
  obtain ⟨_, -, h⟩ := Run.bind_eq_ok h
  cases h
  exact ⟨(Except.ok.inj hnext).symm, hname, text_of_someText howner⟩

/-- What a new project brings into the table: a row with the next number, if the rules of the table
allow it. -/
theorem createProject_eq_ok {s t : Store} {p : Project} {r : Registry.Registration} {name : String}
    (hname : r.name = .str name) (h : s.createProject r.columns = .ok (p, t)) :
    s.readOnly = false ∧ t = { s with projects := insertBy Project.id p s.projects } ∧
      projectsConsistent t.projects = true ∧ p.id = s.nextProject ∧ p.name = some name ∧
      Column.text r.user = .ok (some p.owner) := by
  unfold createProject at h
  obtain ⟨_, -, h⟩ := Run.bind_eq_ok h
  obtain ⟨_, -, h⟩ := Run.bind_eq_ok h
  obtain ⟨_, hp, h⟩ := Run.bind_eq_ok h
  obtain ⟨_, ht, h⟩ := Run.bind_eq_ok h
  cases h
  obtain ⟨_, hrows, ht⟩ := Run.bind_eq_ok ht
  cases ht
  obtain ⟨hid, hp, howner⟩ := ofColumns_eq_ok rfl hp
  have htext : Column.text r.name = .ok p.name := hp
  rw [hname] at htext
  unfold settle at hrows
  split at hrows
  · cases hrows
  · next hro =>
    split at hrows
    · next hconsistent =>
      cases hrows
      exact ⟨by simpa using hro, rfl, hconsistent, hid, (Except.ok.inj htext).symm, howner⟩
    · cases hrows

end Store

/-! ## Registering -/

namespace Setup
open ProjectTable

variable {σ : ProjectTable} {r : Request} {owner : Option String}

/-- A project was set up: the table has a row with its number, name and owner, and all other rows
are as they were. The row is the one that was asked for, or a new one. -/
structure Readied (σ : ProjectTable) (r : Request) (owner : Option String) (k : Int)
    (τ : ProjectTable) : Prop where
  writable : σ.readOnly = false
  fits : Cell.fits k = true
  apart : Apart k σ τ
  row : ∃ y ∈ τ.rows, y.id = k ∧ y.name = some r.projectName ∧ some y.owner = owner
  known : r.project = .number k ∨ r.project = ⟨.null⟩ ∧ ∀ x ∈ σ.rows, x.id ≠ k

/-- A run that sets a project up ends early with the table as it was, or the project was set up. -/
structure Readies (σ : ProjectTable) (r : Request) (owner : Option String) (run : Run Prepared) :
    Prop where
  early : ∀ w e v, w.table = σ → run.ends w = (.error e, v) → v.table = σ
  ready : ∀ w p v, w.table = σ → run.ends w = (.ok p, v) →
    ∃ k, p.project = .number k ∧ Readied σ r owner k v.table

theorem Readies.throw (e : Failure) : Readies σ r owner (throw e) where
  early _ _ _ hw h := by cases h; exact hw
  ready _ _ _ _ h := by cases h

/-- What goes before may end early, and leaves the table as it was. -/
theorem Readies.bind {α : Type} {a : Run α} {f : α → Run Prepared} (ha : Run.Keeps World.table a)
    (hf : ∀ x, Readies σ r owner (f x)) : Readies σ r owner (a >>= f) := by
  refine ⟨fun w e v hw h => ?_, fun w p v hw h => ?_⟩
  · rw [Run.ends_bind] at h
    cases hx : (a.ends w).1 with
    | error e' =>
      rw [hx] at h
      cases h
      exact (ha w).trans hw
    | ok x =>
      rw [hx] at h
      exact (hf x).early _ e v ((ha w).trans hw) h
  · obtain ⟨x, u, hx, h⟩ := Run.ends_bind_eq_ok h
    have hu : u.table = w.table := (congrArg (World.table ∘ Prod.snd) hx).symm.trans (ha w)
    exact (hf x).ready u p v (hu.trans hw) h

/-- The project that is asked for is there, with its name and owner; or none is asked for. -/
def Request.Fits (r : Request) (σ : ProjectTable) (owner : Option String) : Prop :=
  r.project = ⟨.null⟩ ∨
    ∃ q ∈ σ.rows, r.project = .number q.id ∧ q.name = some r.projectName ∧ some q.owner = owner

variable {g : Registry.Registration} {w v : World}

theorem readied_create (hσ : σ.Numbered) (hr : r.project = ⟨.null⟩)
    (howner : Column.text r.user = .ok owner) (hname : g.name = .str r.projectName)
    (huser : g.user = r.user) (hw : w.table = σ) {p : Project} {t : Store}
    (h : w.store.createProject g.columns = .ok (p, t)) :
    Readied σ r owner p.id { w with store := t }.table := by
  obtain ⟨hro, rfl, hconsistent, hid, hp, hto⟩ := Store.createProject_eq_ok hname h
  obtain rfl : some p.owner = owner := by
    rw [huser, howner] at hto
    exact (Except.ok.inj hto).symm
  obtain rfl := hw
  obtain ⟨hfits, hnew⟩ := Store.nextProject_new hσ rfl
  rw [← hid] at hfits hnew
  have hmem (x : Project) :
      x ∈ Store.insertBy Project.id p w.store.projects ↔ x = p ∨ x ∈ w.store.projects :=
    Store.mem_insertBy Project.id p x w.store.projects
  have hothers (x : Project) (hx : x.id ≠ p.id) :
      x ∈ Store.insertBy Project.id p w.store.projects ↔ x ∈ w.store.projects :=
    (hmem x).trans (or_iff_right fun he => hx (congrArg Project.id he))
  exact ⟨hro, hfits, ⟨rfl, hconsistent, hothers⟩, ⟨p, (hmem p).2 (.inl rfl), rfl, hp, rfl⟩,
    .inr ⟨hr, hnew⟩⟩

theorem readied_change (hσ : σ.Numbered) {q : Project} (hq : q ∈ σ.rows)
    (hr : r.project = .number q.id) (hname : q.name = some r.projectName)
    (hown : some q.owner = owner) (hro : σ.readOnly = false) (commit : String) :
    Readied σ r owner q.id (σ.set q.id (Registry.committed commit)) where
  writable := hro
  fits := hσ.fits hq
  apart := apart_set hσ.consistent (Registry.settles_committed commit).keeps
  row := ⟨_, mem_set_self hq rfl, rfl, hname, hown⟩
  known := .inl hr

theorem Readied.stated {k : Int} {τ : ProjectTable} (h : Readied σ r owner k τ)
    (st : ProjectStatus) : Readied σ r owner k (τ.set k (Registry.stated st)) := by
  obtain ⟨y, hy, hid, hname, hown⟩ := h.row
  exact ⟨h.writable, h.fits,
    h.apart.trans (apart_set h.apart.consistent (Registry.settles_stated st).keeps),
    ⟨_, mem_set_self hy hid, hid, hname, hown⟩, h.known⟩

theorem isGiven_number {k : Int} (hk : 0 < k) : (ProjectKey.number k).given.isGiven = true := by
  have : k ≠ 0 := by omega
  simpa [ProjectKey.number, Json.isGiven] using this

/-- The register has a row of the project, or is as it was. -/
theorem ends_registry (hσ : σ.Numbered) (hr : r.Fits σ owner)
    (howner : Column.text r.user = .ok owner) (hname : g.name = .str r.projectName)
    (huser : g.user = r.user) {commit : String} (hcommit : g.commit = .str commit)
    (hw : w.table = σ) :
    (∃ k v, (Registry.register g r.project).ends w = (.ok (.number k), v) ∧
        Readied σ r owner k v.table) ∨
      ∃ e v, (Registry.register g r.project).ends w = (.error e, v) ∧ v.table = σ := by
  rcases hr with hr | ⟨q, hq, hr, hqname, hown⟩
  · have hnull : ¬ (r.project.given.isGiven = true) := by rw [hr]; decide
    unfold Registry.register
    rw [if_neg hnull]
    have hends := Run.ends_alterWith (fun s => s.createProject g.columns) w
    cases hcreate : w.store.createProject g.columns with
    | error e =>
      rw [hcreate] at hends
      exact .inr ⟨e, w, Run.ends_bind_error _ hends, hw⟩
    | ok x =>
      rw [hcreate] at hends
      exact .inl ⟨x.1.id, _, Run.ends_bind_ok _ hends,
        readied_create hσ hr howner hname huser hw hcreate⟩
  · have hgiven : r.project.given.isGiven = true := by
      rw [hr]
      exact isGiven_number (hσ.numbers q hq).1
    obtain rfl := hw
    have hsettles := Registry.settles_committed commit
    have htable := Registry.table_change hsettles (hσ.fits hq) hσ.consistent
    unfold Registry.register
    rw [if_pos hgiven, hr, hcommit]
    cases hro : w.table.readOnly with
    | true =>
      have hanswer := Registry.answer_change_readOnly hsettles (hσ.fits hq) hro hq rfl
      rw [hro, if_pos rfl] at htable
      exact .inr ⟨_, _, Run.ends_bind_error _ (Prod.ext hanswer rfl), htable⟩
    | false =>
      obtain ⟨b, hb⟩ := Registry.answer_change hsettles (hσ.fits hq) hσ.consistent hro
      rw [hro, if_neg Bool.false_ne_true] at htable
      refine .inl ⟨q.id, _, Run.ends_bind_ok _ (Prod.ext hb rfl), ?_⟩
      exact htable ▸ readied_change hσ hq hr hqname hown hro commit

theorem ends_registered (hσ : σ.Numbered) (hr : r.Fits σ owner)
    (howner : Column.text r.user = .ok owner) (hname : g.name = .str r.projectName)
    (huser : g.user = r.user) {commit : String} (hcommit : g.commit = .str commit)
    (directory : String) (isSupported : Bool) (hw : w.table = σ) {x : Except Failure Prepared}
    (h : Run.ends (do
      let project ← Registry.register g r.project
      Registry.setStatus project .created
      return { directory, project, isSupported }) w = (x, v)) :
    (∃ k τ, x = .ok ⟨directory, .number k, isSupported⟩ ∧ Readied σ r owner k τ ∧
        v.table = τ.set k (Registry.stated .created)) ∨
      ∃ e, x = .error e ∧ v.table = σ := by
  rcases ends_registry hσ hr howner hname huser hcommit hw with
    ⟨k, u, hu, hready⟩ | ⟨e, u, hu, htable⟩
  · -- once there is a row, its status can be set
    obtain ⟨u', hu', htable⟩ := Registry.ends_setStatus hready.fits hready.apart.consistent
      (hready.apart.readOnly.trans hready.writable) .created
    rw [Run.ends_bind_ok _ hu, Run.ends_bind_ok _ hu'] at h
    cases h
    exact .inl ⟨k, _, rfl, hready, htable⟩
  · rw [Run.ends_bind_error _ hu] at h
    cases h
    exact .inr ⟨e, rfl, htable⟩

theorem readies_registered (hσ : σ.Numbered) (hr : r.Fits σ owner)
    (howner : Column.text r.user = .ok owner) (hname : g.name = .str r.projectName)
    (huser : g.user = r.user) {commit : String} (hcommit : g.commit = .str commit)
    (directory : String) (isSupported : Bool) : Readies σ r owner (do
      let project ← Registry.register g r.project
      Registry.setStatus project .created
      return { directory, project, isSupported }) := by
  have hends {w v : World} {x : Except Failure Prepared} (hw : w.table = σ) :=
    ends_registered (v := v) (x := x) hσ hr howner hname huser hcommit directory isSupported hw
  refine ⟨fun w e v hw h => ?_, fun w p v hw h => ?_⟩
  · rcases hends hw h with ⟨k, τ, hx, -⟩ | ⟨-, -, htable⟩
    · cases hx
    · exact htable
  · rcases hends hw h with ⟨k, τ, hx, hready, htable⟩ | ⟨e, hx, -⟩
    · cases hx
      exact ⟨k, rfl, htable ▸ hready.stated .created⟩
    · cases hx

theorem readies_register (hσ : σ.Numbered) (hr : r.Fits σ owner)
    (howner : Column.text r.user = .ok owner) (directory commit : String) (isDefault : Bool)
    (profile : Profile) : Readies σ r owner (register r directory commit isDefault profile) := by
  unfold register
  refine Readies.bind (Run.Keeps.setting? _) fun mode => ?_
  dsimp only
  split
  · exact Readies.bind (Run.Keeps.lift _) fun isSupported =>
      readies_registered hσ hr howner rfl rfl rfl directory isSupported
  · exact Readies.bind (Run.Keeps.pure _) fun isSupported =>
      readies_registered hσ hr howner rfl rfl rfl directory isSupported

theorem registered_of_register {directory commit : String} {isDefault : Bool} {profile : Profile}
    {p : Prepared} (h : (register r directory commit isDefault profile).ends w = (.ok p, v)) :
    ∃ (g : Registry.Registration) (isSupported : Bool), g.name = .str r.projectName ∧
      g.user = r.user ∧ g.commit = .str commit ∧ Run.ends (do
        let project ← Registry.register g r.project
        Registry.setStatus project .created
        return { directory, project, isSupported }) w = (.ok p, v) := by
  obtain ⟨mode, u, hmode, h⟩ := Run.ends_bind_eq_ok h
  obtain rfl : w = u := congrArg Prod.snd hmode
  dsimp only at h
  split at h
  all_goals
    obtain ⟨isSupported, u, hu, h⟩ := Run.ends_bind_eq_ok h
    obtain rfl : w = u := congrArg Prod.snd hu
    exact ⟨_, isSupported, rfl, rfl, rfl, h⟩

theorem directory_of_register {directory commit : String} {isDefault : Bool} {profile : Profile}
    {p : Prepared} (h : (register r directory commit isDefault profile).ends w = (.ok p, v)) :
    p.directory = directory := by
  obtain ⟨g, isSupported, -, -, -, h⟩ := registered_of_register h
  obtain ⟨project, u, -, h⟩ := Run.ends_bind_eq_ok h
  obtain ⟨_, u, -, h⟩ := Run.ends_bind_eq_ok h
  cases h
  rfl

theorem register_eq_ok (hσ : σ.Numbered) (hr : r.Fits σ owner)
    (howner : Column.text r.user = .ok owner) {directory commit : String} {isDefault : Bool}
    {profile : Profile} {p : Prepared} (hw : w.table = σ)
    (h : (register r directory commit isDefault profile).ends w = (.ok p, v)) :
    ∃ k τ, p.project = .number k ∧ Readied σ r owner k τ ∧
      v.table = τ.set k (Registry.stated .created) := by
  obtain ⟨g, isSupported, hname, huser, hcommit, h⟩ := registered_of_register h
  rcases ends_registered hσ hr howner hname huser hcommit directory isSupported hw h with
    ⟨k, τ, hx, hready, htable⟩ | ⟨e, hx, -⟩
  · cases hx
    exact ⟨k, τ, rfl, hready, htable⟩
  · cases hx

end Setup
end CodeAtlas
