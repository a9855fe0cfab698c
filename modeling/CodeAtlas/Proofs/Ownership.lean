import CodeAtlas.Project.Registry
import CodeAtlas.Proofs.Run
import Mathlib.Data.List.Forall2
import Mathlib.Data.List.Nodup

/-!
# Who owns a project

Operations that mark projects as deleted or restore them on behalf of a user. Those that go by
repository change only projects of the user. Those that name one project hand it to the user,
whoever had it before.

* `RegistryCommand.step`: what one operation does to each row;
* `RegistryCommand.session_step`: what a sequence of operations does to each row;
* `RegistryCommand.ownership_kept_iff`: a sequence leaves the owners, and the rows of other users,
  as they are if and only if it names no project of another user (or the store takes no changes);
* `RegistryCommand.delete_takes_over`: naming one project of another user is enough.
-/
namespace CodeAtlas

/-! ## Setting columns of projects -/

namespace Store

theorem change_total {ρ : Type} (select : ρ → Bool) {f : ρ → Except Failure ρ} {g : ρ → ρ}
    (hf : ∀ r, f r = .ok (g r)) (rows : List ρ) :
    change select f rows = .ok (rows.map fun r => if select r then g r else r) := by
  induction rows with
  | nil => rfl
  | cons r rows ih =>
    rw [change, ih]
    cases h : select r <;> simp [h, hf, bind, Except.bind, pure, Except.pure]

theorem updateRows_total {ρ : Type} {assign : ρ → Change → Except Failure ρ} {changes : List Change}
    {g : ρ → ρ} (hg : ∀ r, assignAll assign changes r = .ok (g r)) {consistent : List ρ → Bool}
    {select : ρ → Bool} {rows : List ρ}
    (hc : consistent (rows.map fun r => if select r then g r else r) = true) :
    updateRows false assign consistent select changes rows =
      .ok (rows.map fun r => if select r then g r else r) := by
  simp [updateRows, change_total select hg, settle, hc, bind, Except.bind]

/-- Changes that keep numbers and directories keep the rules of the table. -/
theorem projectsConsistent_map {f : Project → Project}
    (hf : ∀ r, (f r).id = r.id ∧ (f r).directory = r.directory) {rows : List Project}
    (h : projectsConsistent rows = true) : projectsConsistent (rows.map f) = true := by
  have hid : (rows.map f).map Project.id = rows.map Project.id := by
    rw [List.map_map]
    exact List.map_congr_left fun r _ => (hf r).1
  have hdir : (rows.map f).filterMap Project.directory = rows.filterMap Project.directory := by
    rw [List.filterMap_map]
    exact List.filterMap_congr fun r _ => (hf r).2
  simpa only [projectsConsistent, hid, hdir] using h

def mapProjects (s : Store) (f : Project → Project) : Store :=
  { s with projects := s.projects.map f }

theorem mapProjects_id (s : Store) {f : Project → Project} (hf : ∀ r ∈ s.projects, f r = r) :
    s.mapProjects f = s := by
  rw [mapProjects, List.map_congr_left hf, List.map_id']

end Store

/-- Changes of a project that are always carried out, and keep what the rules of the table are
about. -/
structure Settles (changes : List Change) (f : Project → Project) : Prop where
  columns : Column.ofChanges Project.columns changes = .ok ()
  assigns : ∀ r, Store.assignAll Project.assign changes r = .ok (f r)
  keeps : ∀ r, (f r).id = r.id ∧ (f r).directory = r.directory

def ProjectKey.names (k : ProjectKey) (r : Project) : Bool :=
  match k.cell with
  | .ok c => Store.isProject c r
  | .error _ => false

namespace Registry

variable {changes : List Change} {f : Project → Project} {w : World}

/-- What setting columns does to a row: it changes the one that is named, unless the store takes no
changes. -/
def altered (k : ProjectKey) (readOnly : Bool) (f : Project → Project) (r : Project) : Project :=
  if k.names r && !readOnly then f r else r

theorem updateProject_eq (h : Settles changes f) {s : Store} {c : Cell}
    (hs : Store.projectsConsistent s.projects = true) (hro : s.readOnly = false)
    {r : Project} (hr : s.project? c = some r) : s.updateProject c changes =
      .ok (true, s.mapProjects fun r => if Store.isProject c r then f r else r) := by
  have hmap : ∀ r : Project, (if Store.isProject c r then f r else r).id = r.id ∧
      (if Store.isProject c r then f r else r).directory = r.directory := by
    intro r
    split
    · exact h.keeps r
    · exact ⟨rfl, rfl⟩
  have hrows := Store.updateRows_total h.assigns (Store.projectsConsistent_map hmap hs)
  unfold Store.updateProject
  rw [hr]
  simp only [h.columns, hro, hrows, Store.mapProjects]
  rfl

theorem updateProject_readOnly (h : Settles changes f) {s : Store} {c : Cell}
    (hro : s.readOnly = true) {r : Project} (hr : s.project? c = some r) :
    s.updateProject c changes = .error .storeRefused := by
  unfold Store.updateProject
  rw [hr]
  simp only [h.columns, Store.updateRows, hro]
  rfl

theorem after_change (h : Settles changes f) (k : ProjectKey)
    (hs : Store.projectsConsistent w.store.projects = true) : (change k changes).after w =
      { w with store := w.store.mapProjects (altered k w.store.readOnly f) } := by
  have hsame (hid : ∀ r ∈ w.store.projects, altered k w.store.readOnly f r = r) :
      w = { w with store := w.store.mapProjects (altered k w.store.readOnly f) } := by
    rw [w.store.mapProjects_id hid]
  unfold change Run.after
  cases hk : k.cell with
  | error e => exact hsame fun r _ => by simp [altered, ProjectKey.names, hk]
  | ok c =>
    rw [Run.ends_bind_ok _ (Run.ends_lift _ w), Run.ends_alterWith]
    cases hr : w.store.project? c with
    | none =>
      rw [Store.updateProject, hr]
      refine hsame fun r hmem => ?_
      have := List.find?_eq_none.1 hr r hmem
      simp [altered, ProjectKey.names, hk, this]
    | some r =>
      cases hro : w.store.readOnly with
      | true =>
        rw [updateProject_readOnly h hro hr, ← hro]
        exact hsame fun r _ => by simp [altered, hro]
      | false =>
        have hf : altered k false f = fun r => if Store.isProject c r then f r else r := by
          funext r
          simp [altered, ProjectKey.names, hk]
        rw [updateProject_eq h hs hro hr, hf]

def flagged (d : Bool) (r : Project) : Project := { r with isDeleted := some d }

def handed (d : Bool) (u : String) (r : Project) : Project :=
  { r with isDeleted := some d, owner := u }

theorem settles_flagged (d : Bool) : Settles [("is_deleted", .bool d)] (flagged d) where
  columns := by cases d <;> rfl
  assigns r := by cases d <;> rfl
  keeps _ := ⟨rfl, rfl⟩

theorem settles_handed_of_text (d : Bool) {user : Json} {u : String}
    (h : Column.text user = .ok (some u)) :
    Settles [("is_deleted", .bool d), ("user_id", user)] (handed d u) := by
  obtain ⟨cell, hcell, hu⟩ := Run.bind_eq_ok h
  refine ⟨?_, fun r => ?_, fun _ => ⟨rfl, rfl⟩⟩
  · have hhand : ColumnKind.handOver .text user = .ok () := by
      unfold ColumnKind.handOver
      rw [hcell]
      rfl
    cases d <;> simp [Column.ofChanges, Column.check, Project.columns, Table.get?, ColumnKind.takes,
      List.forM_cons, hhand] <;> rfl
  · have htext : Column.someText user = .ok u := by
      unfold Column.someText
      rw [h]
      rfl
    cases d <;> simp [Store.assignAll, Project.assign, htext, handed, Column.truth] <;> rfl

theorem settles_handed (d : Bool) (u : String) :
    Settles [("is_deleted", .bool d), ("user_id", .str u)] (handed d u) :=
  settles_handed_of_text d rfl

end Registry

/-! ## What happens to a row -/

/-- What a row becomes, on behalf of a user: it keeps its number; if it is marked the user owns it
afterwards; if not, its owner is the same, and it is not changed at all if it is not the user's. -/
structure Handled (u : String) (marked : Bool) (r r' : Project) : Prop where
  id : r'.id = r.id
  owner : r'.owner = if marked then u else r.owner
  kept : marked = false → r.owner ≠ u → r' = r

namespace Handled

theorem refl (u : String) (r : Project) : Handled u false r r := ⟨rfl, rfl, fun _ _ => rfl⟩

theorem trans {u : String} {m n : Bool} {r r' r'' : Project} (h : Handled u m r r')
    (k : Handled u n r' r'') : Handled u (m || n) r r'' := by
  refine ⟨k.id.trans h.id, ?_, fun hm hr => ?_⟩
  · rw [k.owner, h.owner]
    cases m <;> cases n <;> rfl
  · obtain ⟨rfl, rfl⟩ := Bool.or_eq_false_iff.1 hm
    have he := h.kept rfl hr
    rw [k.kept rfl (he ▸ hr), he]

end Handled

/-- What the table of projects becomes, on behalf of a user: its rows are handled one by one, and no
row is marked in a store that takes no changes. -/
structure Store.Handles (u : String) (marked : Project → Bool) (s t : Store) : Prop where
  consistent : projectsConsistent t.projects = true
  rows : ∃ f, t = s.mapProjects f ∧ ∀ r ∈ s.projects, Handled u (marked r && !s.readOnly) r (f r)

namespace Store.Handles

variable {u : String} {marked : Project → Bool} {s t v : Store}

theorem refl (hs : projectsConsistent s.projects = true) : Handles u (fun _ => false) s s :=
  ⟨hs, fun r => r, (s.mapProjects_id fun _ _ => rfl).symm, fun r _ => Handled.refl u r⟩

/-- What is marked depends on nothing but the number of a row. -/
theorem trans {m n : Project → Bool} (h : Handles u m s t) (k : Handles u n t v)
    (hn : ∀ r r' : Project, r'.id = r.id → n r' = n r) : Handles u (fun r => m r || n r) s v := by
  obtain ⟨f, rfl, hf⟩ := h.rows
  obtain ⟨g, rfl, hg⟩ := k.rows
  refine ⟨k.consistent, g ∘ f, by simp [mapProjects], fun r hr => ?_⟩
  have hk := hg (f r) (List.mem_map_of_mem hr)
  rw [hn r (f r) (hf r hr).id] at hk
  rw [Bool.and_or_distrib_right]
  exact (hf r hr).trans hk

theorem alter {changes : List Change} {f : Project → Project} (h : Settles changes f)
    (hs : projectsConsistent s.projects = true) (k : ProjectKey)
    (hf : ∀ r ∈ s.projects, k.names r = true → s.readOnly = false → Handled u (marked r) r (f r))
    (hm : ∀ r ∈ s.projects, marked r = true → k.names r = true) :
    Handles u marked s (s.mapProjects (Registry.altered k s.readOnly f)) := by
  refine ⟨projectsConsistent_map (fun r => ?_) hs, _, rfl, fun r hr => ?_⟩
  · unfold Registry.altered
    split
    · exact h.keeps r
    · exact ⟨rfl, rfl⟩
  · unfold Registry.altered
    cases hro : s.readOnly with
    | true => simpa using Handled.refl u r
    | false =>
      cases hk : k.names r with
      | true => simpa using hf r hr hk hro
      | false =>
        have : marked r = false := by
          cases hmr : marked r with
          | false => rfl
          | true => rw [hm r hr hmr] at hk; cases hk
        simpa [this] using Handled.refl u r

end Store.Handles

namespace Registry

variable {u : String} {w : World}

theorem names_number {n : Int} {r : Project} (h : (ProjectKey.number n).names r = true) :
    r.id = n := by
  have hcell : (ProjectKey.number n).cell = .ok (.number n) ∨
      (ProjectKey.number n).cell = .error Cell.tooLarge := by
    simp only [ProjectKey.cell, ProjectKey.number, Cell.ofJson]
    split
    · exact Or.inl rfl
    · exact Or.inr rfl
  rcases hcell with hc | hc
  · simpa [ProjectKey.names, hc, Store.isProject] using h
  · simp [ProjectKey.names, hc] at h

theorem handles_mark (d : Bool) (k : ProjectKey)
    (hs : Store.projectsConsistent w.store.projects = true) :
    w.store.Handles u k.names ((mark d k (.str u)).after w).store := by
  rw [mark, after_change (settles_handed d u) k hs]
  refine Store.Handles.alter (settles_handed d u) hs k (fun r _ hk _ => ?_) fun _ _ h => h
  rw [hk]
  exact ⟨rfl, rfl, fun h => by cases h⟩

/-- Marking projects of the user by their numbers changes no other row. -/
theorem handles_markAll (d : Bool) (ids : List Int) :
    ∀ {w : World}, Store.projectsConsistent w.store.projects = true →
      (∀ r ∈ w.store.projects, r.id ∈ ids → r.owner = u) →
      w.store.Handles u (fun _ => false) ((markAll d ids).after w).store := by
  induction ids with
  | nil => exact fun hs _ => Store.Handles.refl hs
  | cons n ids ih =>
    intro w hs hown
    have hafter := after_change (settles_flagged d) (.number n) hs
    have hone : w.store.Handles u (fun _ => false)
        ((change (.number n) [("is_deleted", .bool d)]).after w).store := by
      rw [hafter]
      refine Store.Handles.alter (settles_flagged d) hs (.number n) (fun r hr hk _ => ?_) (by simp)
      refine ⟨rfl, rfl, fun _ hne => absurd (hown r hr ?_) hne⟩
      rw [names_number hk]
      exact List.mem_cons_self
    have hcons : markAll d (n :: ids) =
        change (.number n) [("is_deleted", .bool d)] >>= fun _ => markAll d ids := by
      simp [markAll]
    rw [hcons, Run.after_bind]
    split
    · -- the rows that are left keep their numbers and owners, so they are the user's still
      refine hone.trans (ih hone.consistent fun r hr hmem => ?_) fun _ _ _ => rfl
      obtain ⟨f, hf, hrows⟩ := hone.rows
      rw [hf] at hr
      obtain ⟨q, hq, rfl⟩ := List.mem_map.1 hr
      have hq' := hrows q hq
      rw [hq'.id] at hmem
      rw [hq'.owner]
      exact hown q hq (List.mem_cons_of_mem n hmem)
    · exact hone

theorem ends_projectsFor (repository deleted : Json) (w : World) :
    ∃ x, (projectsFor repository (.str u) deleted).ends w = (x, w) ∧
      ∀ ps, x = .ok ps → ∀ p ∈ ps, p ∈ w.store.projects ∧ p.owner = u := by
  unfold projectsFor
  rw [Run.ends_bind_lift]
  cases truthOf _ deleted with
  | error e => exact ⟨_, rfl, fun ps h => by cases h⟩
  | ok flag =>
    simp only [Run.ends_bind_lift]
    cases Column.text repository with
    | error e => exact ⟨_, rfl, fun ps h => by cases h⟩
    | ok name =>
      refine ⟨.ok (w.store.projectsFor name (some u) flag), rfl, fun ps h p hp => ?_⟩
      cases h
      obtain ⟨hmem, hp⟩ := List.mem_filter.1 hp
      simp only [Option.some.injEq, Bool.and_eq_true, decide_eq_true_eq] at hp
      exact ⟨hmem, hp.1.2⟩

/-- Marking the projects that are found for a user changes no other row. -/
theorem handles_found (repository deleted : Json) (d : Bool)
    (hs : Store.projectsConsistent w.store.projects = true) :
    w.store.Handles u (fun _ => false) (Run.after (do
      let ids := (← projectsFor repository (.str u) deleted).map Project.id
      markAll d ids
      return ids) w).store := by
  obtain ⟨x, hx, hfound⟩ := ends_projectsFor (u := u) repository deleted w
  cases x with
  | error e =>
    rw [Run.after, Run.ends_bind_error _ hx]
    exact Store.Handles.refl hs
  | ok ps =>
    rw [Run.after, Run.ends_bind_ok _ hx]
    have hown : ∀ r ∈ w.store.projects, r.id ∈ ps.map Project.id → r.owner = u := by
      intro r hr hid
      obtain ⟨p, hp, he⟩ := List.mem_map.1 hid
      obtain ⟨hmem, howner⟩ := hfound ps rfl p hp
      simp only [Store.projectsConsistent, Bool.and_eq_true, decide_eq_true_eq] at hs
      rw [← List.inj_on_of_nodup_map hs.1 hmem hr he, howner]
    -- numbers occur once, so no other user has a row with a number that was found
    have hall := handles_markAll d (ps.map Project.id) hs hown
    rw [Run.ends_bind]
    split <;> exact hall

theorem keeps_projectOf? (k : ProjectKey) (user : Json) :
    Run.Keeps World.store (projectOf? k user) :=
  (Run.Keeps.lift _).bind fun _ => (Run.Keeps.lift _).bind fun _ => Run.Keeps.look _

theorem keeps_removeLocalFolder (k : ProjectKey) (user : Json) :
    Run.Keeps World.store (removeLocalFolder k user) := by
  refine Run.Keeps.bind ((Run.Keeps.setting? _).bind fun _ => Run.Keeps.pure _) fun dev => ?_
  refine Run.Keeps.bind ((Run.Keeps.setting? _).bind fun _ => Run.Keeps.pure _) fun own => ?_
  split
  · refine (keeps_projectOf? k user).bind fun found => ?_
    split
    · exact Run.Keeps.throw _
    · split
      · exact Run.Keeps.throw _
      · refine Run.Keeps.bind Run.Keeps.get fun v => ?_
        split
        · exact fun _ => rfl
        · exact Run.Keeps.pure _
  · exact Run.Keeps.pure _

end Registry

/-! ## Operations and sequences of them -/

/-- An operation on projects that is done on behalf of a user. -/
inductive RegistryCommand where
  | delete (project : ProjectKey)
  | restore (project : ProjectKey)
  | deleteAll (repository : Json)
  | restoreAll (repository : Json)

namespace RegistryCommand
open Registry

variable {u : String} {w : World}

def run (u : String) : RegistryCommand → Run Unit
  | delete k => Registry.delete k (.str u)
  | restore k => do let _ ← Registry.restore k (.str u)
  | deleteAll repository => do let _ ← Registry.deleteAll repository (.str u)
  | restoreAll repository => do let _ ← Registry.restoreAll repository (.str u)

def names (c : RegistryCommand) (r : Project) : Bool :=
  match c with
  | delete k | restore k => k.names r
  | deleteAll _ | restoreAll _ => false

theorem names_congr (c : RegistryCommand) {r r' : Project} (h : r'.id = r.id) :
    c.names r' = c.names r := by
  cases c <;> simp [names, ProjectKey.names, Store.isProject, h]

/-- **One operation**: it hands the project that it names to the user, and changes no other project
that is not the user's. -/
theorem step (c : RegistryCommand) (hs : Store.projectsConsistent w.store.projects = true) :
    w.store.Handles u c.names ((c.run u).after w).store := by
  cases c with
  | delete k =>
    have hwork : (Run.after (do
        if ← mark true k (.str u) then removeLocalFolder k (.str u)
        else throw (.refuse 404 "No matching project found or project is already deleted."))
        w).store = ((mark true k (.str u)).after w).store := by
      rw [Run.after_bind]
      split
      · split
        · exact keeps_removeLocalFolder k (.str u) _
        · rfl
      · rfl
    rw [run, Registry.delete, Run.after_outcome_bind _ (fun x v => by cases x <;> rfl), hwork]
    exact handles_mark true k hs
  | restore k =>
    rw [run, Run.after_bind_pure, Registry.restore,
      Run.after_outcome_bind _ (fun x v => by split <;> rfl)]
    exact handles_mark false k hs
  | deleteAll repository =>
    rw [run, Run.after_bind_pure, Registry.deleteAll, markFound,
      Run.after_outcome_bind _ (fun x v => by split <;> rfl)]
    exact handles_found repository (.bool false) true hs
  | restoreAll repository =>
    rw [run, Run.after_bind_pure, Registry.restoreAll, markFound,
      Run.after_outcome_bind _ (fun x v => by split <;> rfl)]
    exact handles_found repository (.bool true) false hs

/-- The world after operations on behalf of a user; one that fails does not stop the next. -/
def session (u : String) (cs : List RegistryCommand) (w : World) : World :=
  cs.foldl (fun w c => (c.run u).after w) w

/-- **A sequence of operations**: it hands the projects that it names to the user, and changes no
other project that is not the user's. -/
theorem session_step (cs : List RegistryCommand) :
    ∀ {w : World}, Store.projectsConsistent w.store.projects = true →
      w.store.Handles u (fun r => cs.any (·.names r)) (session u cs w).store := by
  induction cs with
  | nil => exact fun hs => Store.Handles.refl hs
  | cons c cs ih =>
    intro w hs
    have hc := c.step (u := u) hs
    refine hc.trans (ih hc.consistent) fun r r' h => ?_
    simp only [names_congr _ h]

/-! ## Ownership -/

/-- Rows of a table before and after: every row keeps its owner, and those that are not the user's
are not changed at all. -/
def OwnersKept (u : String) (before after : List Project) : Prop :=
  List.Forall₂ (fun r r' => r'.id = r.id ∧ r'.owner = r.owner ∧ (r.owner ≠ u → r' = r)) before after

/-- **Ownership**: operations on behalf of a user keep it if and only if the store takes no changes,
or every project that they delete or restore by its key is the user's. -/
theorem ownership_kept_iff (hs : Store.projectsConsistent w.store.projects = true)
    (cs : List RegistryCommand) :
    OwnersKept u w.store.projects (session u cs w).store.projects ↔
      w.store.readOnly = true ∨
        ∀ c ∈ cs, ∀ r ∈ w.store.projects, c.names r = true → r.owner = u := by
  obtain ⟨f, hf, hrows⟩ := (session_step (u := u) cs hs).rows
  rw [hf, OwnersKept, Store.mapProjects, List.forall₂_map_right_iff, List.forall₂_same]
  constructor
  · intro hkept
    cases hro : w.store.readOnly with
    | true => exact Or.inl rfl
    | false =>
      refine Or.inr fun c hc r hr hn => ?_
      have hany : cs.any (·.names r) = true := List.any_eq_true.2 ⟨c, hc, hn⟩
      have howner := (hrows r hr).owner
      rw [hany, hro, (hkept r hr).2.1] at howner
      exact howner
  · intro hcond r hr
    have h := hrows r hr
    cases hm : cs.any (·.names r) && !w.store.readOnly with
    | false =>
      rw [hm] at h
      exact ⟨h.id, h.owner, h.kept rfl⟩
    | true =>
      -- a project is only handed to the user who has it already
      rw [hm] at h
      simp only [Bool.and_eq_true, Bool.not_eq_true', List.any_eq_true] at hm
      obtain ⟨⟨c, hc, hn⟩, hro⟩ := hm
      have hu : r.owner = u := by
        rcases hcond with hro' | hcond
        · rw [hro] at hro'; cases hro'
        · exact hcond c hc r hr hn
      exact ⟨h.id, h.owner.trans hu.symm, fun hne => absurd hu hne⟩

/-- Two users with a project each for the same branch. -/
def shared : World :=
  { World.vacant with
    store := { Store.empty with projects := [Project.sample 1 "u", Project.sample 2 "v"] } }

theorem shared_ownership_kept : OwnersKept "u" shared.store.projects
    (session "u" [.deleteAll (.str "o/demo"), .restore (.number 1)] shared).store.projects :=
  (ownership_kept_iff (by decide) _).2 (Or.inr (by decide))

/-- Deleting a project of another user hands it over. -/
theorem delete_takes_over :
    (session "u" [.delete (.number 2)] shared).store.projects =
      [Project.sample 1 "u", handed true "u" (Project.sample 2 "v")] ∧
    ¬ OwnersKept "u" shared.store.projects
      (session "u" [.delete (.number 2)] shared).store.projects := by
  have hrows : (session "u" [.delete (.number 2)] shared).store.projects =
      [Project.sample 1 "u", handed true "u" (Project.sample 2 "v")] := by rfl
  refine ⟨hrows, fun hkept => ?_⟩
  rw [hrows] at hkept
  cases hkept with
  | cons _ htail =>
    cases htail with
    | cons hsecond _ => exact absurd hsecond.2.1 (by decide)

end RegistryCommand
end CodeAtlas
