import CodeAtlas.Proofs.FileTree
import CodeAtlas.Proofs.IntakeStages

/-!
# Requests that are refused

A request for the analysis of a branch is only refused before its project is looked up, so the store
and the graph are left as they were. But a local repository is copied before its branch is looked
for. If there is no such branch the copy stays, and then every request for that repository fails,
whatever branch it names.

* `Intake.breaks_settle`: once its project was looked up, a request is not refused but fails;
* `Intake.reach_refused`: what a request leaves that is refused when its files are looked for;
* `Intake.ends_run_copied`: requests for a repository of which there is a copy;
* `Intake.refusal_unchanged_iff`: a refusal leaves all as it was unless the repository was found;
* `Intake.unknown_branch_copied`: a branch that does not exist.
-/
namespace CodeAtlas

/-! ## What fails after the look-up -/

theorem Column.spared_text (j : Json) : Spared (text j) :=
  (Cell.spared_ofJson j).bind fun _ => .ok _

namespace Registry
open Run

theorem spared_updateProject {changes : List Change} {f : Project → Project}
    (h : Settles changes f) (s : Store) (c : Cell) : Spared (s.updateProject c changes) := by
  unfold Store.updateProject
  split
  · exact .ok _
  · rw [h.columns]
    refine Spared.bind (.ok _) fun _ => Spared.bind ?_ fun _ => .ok _
    unfold Store.updateRows
    rw [Store.change_total _ h.assigns]
    intro status detail headers he
    split at he
    · cases he
    · change Store.settle _ _ _ = _ at he
      unfold Store.settle at he
      split at he
      · cases he
      · split at he <;> cases he

theorem spares_setStatus (id : ProjectKey) (status : ProjectStatus) :
    Spares (setStatus id status) := by
  have hcell : Spared id.cell := (Cell.spared_ofJson id.given).bind fun _ => .ok _
  refine Spares.bind ((Spares.lift hcell).bind fun c => ?_) fun _ => .pure _
  exact Spares.get.bind fun w =>
    (Spares.lift (spared_updateProject (settles_stated status) w.store c)).bind fun x =>
      (Spares.modify _).bind fun _ => .pure _

theorem spares_projectNamed? (name : String) (user : Json) : Spares (projectNamed? name user) :=
  (Spares.lift (Column.spared_text user)).bind fun _ => Spares.get.bind fun _ => .pure _

theorem spared_shortName (repository path : Json) : Spared (shortName repository path) := by
  intro status detail headers h
  unfold shortName at h
  split at h
  · cases repository <;> cases h
  · cases path <;> cases h

end Registry

namespace Intake
open Run

variable {r : Request} {w v : World} {status : Nat} {detail : String}
  {headers : List (String × String)}

theorem breaks_fault {α : Type} (key : ProjectKey) (e : Failure) : Breaks (fault key e : Run α) :=
  (Registry.spares_setStatus key .error).breaks.bind fun _ _ _ _ _ h => by cases h; rfl

/-- Whatever fails once the project was looked up, fails as a whole. -/
theorem breaks_settle (f : Found) : Breaks f.settle := by
  unfold Found.settle
  split
  · refine Breaks.outcome_bind fun x => ?_
    split
    · exact breaks_fault _ _
    · exact (Spares.pure _).breaks
  · refine Breaks.outcome_bind fun x => ?_
    unfold Found.conclude
    split
    · exact breaks_fault _ _
    · refine Breaks.outcome_bind fun y => ?_
      split
      · exact breaks_fault _ _
      · exact (Spares.pure _).breaks

theorem spared_size (r : Request) (source : Source) : Spared (size r source) := by
  intro status detail headers h
  unfold size at h
  split at h
  · cases h
  · unfold hostedSize at h
    split at h <;> cases h
  · cases h

theorem spares_report (r : Request) (f : Found) (outcome : Outcome) : Spares (f.report r outcome) :=
  (Spares.lift (spared_size r f.source)).bind fun _ =>
    (Spares.modify _).bind fun _ => .pure _

theorem spared_folderName (r : Request) : Spared r.folderName := by
  intro status detail headers h
  unfold Request.folderName at h
  split at h <;> cases h

/-! ## What a refusal leaves -/

theorem refused_early (hstatus : status ≠ 500)
    (h : (run r).ends w = (.error (.refused status detail headers), v)) :
    (permit r).ends w = (.error (.refused status detail headers), v) ∨
      (permit r).ends w = (.ok (), w) ∧
        (reach r).ends w = (.error (.refused status detail headers), v) := by
  unfold run at h
  rcases ends_bind_eq_error h with hfind | ⟨f, u, -, hlate⟩
  · rcases ends_bind_eq_error hfind with hpermit | ⟨_, u, hpermit, hreach⟩
    · exact .inl hpermit
    · have hkeeps : Keeps id (permit r) := keeps_permit r
      obtain rfl : u = w := hkeeps.of_ends hpermit
      rcases ends_bind_eq_error hreach with hreach | ⟨source, u', -, hlate⟩
      · exact .inr ⟨hpermit, hreach⟩
      · refine absurd (congrArg Prod.fst hlate) (Spares.bind ?_ (fun name => ?_) u' _ _ _)
        · exact .lift (Registry.spared_shortName _ _)
        · exact (Registry.spares_projectNamed? _ _).bind fun known => .pure _
  · have hrest : Breaks (f.settle >>= f.report r) :=
      (breaks_settle f).bind fun o => (spares_report r f o).breaks
    exact absurd (hrest u status detail headers (congrArg Prod.fst hlate)) hstatus

/-- The folder that a request copies its repository to. -/
def Request.Target (r : Request) (w : World) (target : String) : Prop :=
  ∃ projects name, Table.get? w.settings "PROJECT_PATH" = some projects ∧ r.folderName = .ok name ∧
    target = Path.join projects name

theorem Request.Target.ne_empty {target : String} (h : r.Target w target) : target ≠ "" := by
  obtain ⟨projects, name, -, hname, rfl⟩ := h
  refine Path.join_ne_empty ?_
  unfold folderName at hname
  split at hname <;> cases hname <;> simp

/-- What a request for the analysis of a local repository does. -/
theorem ends_reach_local {path target : String} (hpath : r.path? = some path)
    (htarget : r.Target w target) (hthere : w.files.contains path = true) :
    (reach r).ends w = (copyFolder path target >>= fun _ =>
      switchTo target (.str r.branch) >>= fun _ => pure (.cloned target)).ends w := by
  obtain ⟨projects, name, hprojects, hname, rfl⟩ := htarget
  have hsetting : (setting? "PROJECT_PATH").ends w = (.ok (some projects), w) :=
    congrArg (fun x => (Except.ok x, w)) hprojects
  unfold reach
  rw [ends_bind_ok _ hsetting, ends_bind_lift, hname]
  simp only [hpath]
  rw [ends_bind_ok _ (ends_get w), hthere]
  rfl

theorem ends_copyFolder (path : String) {target : String} (h : w.files.contains target = false) :
    ∃ clones, (copyFolder path target).ends w =
      (.ok (), { w with files := w.files.copyFolder path target, clones }) := by
  apply Exists.intro
  unfold copyFolder
  rw [ends_bind_ok _ (ends_get w), h]
  rfl

theorem ends_copyFolder_taken {path target : String} (h : w.files.contains target = true) :
    (copyFolder path target).ends w = (.error (.fileExists target), w) := by
  unfold copyFolder
  rw [ends_bind_ok _ (ends_get w), h]
  rfl

theorem exists_target (h : (reach r).ends w = (.error (.refused status detail headers), v)) :
    ∃ target, r.Target w target := by
  unfold reach at h
  cases hname : r.folderName with
  | error e =>
    rw [ends_bind_ok _ (rfl : (setting? "PROJECT_PATH").ends w = (.ok _, w)), hname] at h
    split at h <;> cases h <;> exact absurd hname (spared_folderName r _ _ _)
  | ok name =>
    rw [ends_bind_ok _ (rfl : (setting? "PROJECT_PATH").ends w = (.ok _, w)), hname] at h
    split at h
    · cases h
    · next projects hprojects => exact ⟨_, projects, name, hprojects, hname, rfl⟩

/-- Nothing is changed where there is no local repository. -/
theorem after_reach_absent (h : ∀ path, r.path? = some path → w.files.contains path = false) :
    (reach r).after w = w := by
  unfold reach after
  rw [ends_bind_ok _ (rfl : (setting? "PROJECT_PATH").ends w = (.ok _, w))]
  split
  · exact ((Keeps.lift _).bind fun _ => Keeps.throw _ : Keeps id _) w
  · rw [ends_bind_lift]
    cases r.folderName with
    | error e => rfl
    | ok name =>
      dsimp only
      split
      · next path hpath =>
        rw [ends_bind_ok _ (ends_get w), h path hpath]
        rfl
      · refine (Keeps.bind (Keeps.lift _) fun owner => (keeps_isInstalled _).bind fun installed =>
          Keeps.check fun _ => (keeps_repository _).outcome.bind fun x => ?_ : Keeps id _) w
        split
        · exact Keeps.pure _
        · exact Keeps.throw _

/-- A request that is refused when its files are looked for has changed nothing, or has copied its
repository and then not found the branch. -/
theorem reach_refused (h : (reach r).ends w = (.error (.refused status detail headers), v)) :
    v = w ∧ (∀ path, r.path? = some path → w.files.contains path = false) ∨
      ∃ path target log clones, r.path? = some path ∧ w.files.contains path = true ∧
        r.Target w target ∧ w.files.contains target = false ∧
        v = { w with files := w.files.copyFolder path target, log, clones } := by
  by_cases habsent : ∀ path, r.path? = some path → w.files.contains path = false
  · have hafter := after_reach_absent habsent
    rw [after, h] at hafter
    exact .inl ⟨hafter, habsent⟩
  · obtain ⟨path, hpath, hthere⟩ : ∃ path, r.path? = some path ∧ w.files.contains path = true := by
      simpa using habsent
    obtain ⟨target, htarget⟩ := exists_target h
    rw [ends_reach_local hpath htarget hthere] at h
    cases htaken : w.files.contains target with
    | true =>
      rw [ends_bind_error _ (ends_copyFolder_taken htaken)] at h
      cases h
    | false =>
      obtain ⟨clones, hcopy⟩ := ends_copyFolder path htaken
      rw [ends_bind_ok _ hcopy] at h
      have hswitch : Keeps (fun u => { u with log := [], clones := [] })
          (switchTo target (.str r.branch)) := keeps_switchTo (fun _ _ _ => rfl) _ _
      have hv := (hswitch.bind fun _ => Keeps.pure (Source.cloned target)).of_ends h
      refine .inr ⟨path, target, v.log, v.clones, hpath, hthere, htarget, htaken, ?_⟩
      exact congrArg (fun u => { u with log := v.log, clones := v.clones }) hv

/-- Permission depends on the settings only. -/
theorem permitted_again (hsettings : w.settings = v.settings)
    (h : (permit r).ends w = (.ok (), w)) : (permit r).ends v = (.ok (), v) := by
  have hsetting (name : String) : Respects (fun w v => w.settings = v.settings) (setting? name) :=
    fun w v hs => ⟨congrArg (fun t => Except.ok (Table.get? t name)) hs, hs⟩
  have hthrow (e : Failure) {α : Type} :
      Respects (fun w v => w.settings = v.settings) (throw e : Run α) := fun _ _ hs => ⟨rfl, hs⟩
  have hrespects : Respects (fun w v => w.settings = v.settings) (permit r) := by
    refine ((hsetting _).bind fun _ => .pure _).bind fun dev => ?_
    dsimp only
    split
    · exact hthrow _
    · refine ((hsetting _).bind fun _ => .pure _).bind fun user => ?_
      split
      · exact hthrow _
      · exact .pure _
  have hkeeps : Keeps id (permit r) := keeps_permit r
  exact Prod.ext ((hrespects w v hsettings).1.symm.trans (congrArg Prod.fst h :)) (hkeeps v)

/-- Where there is a copy of the repository, every request for it fails. -/
theorem ends_run_copied {path target : String} (hpermit : (permit r).ends w = (.ok (), w))
    (hpath : r.path? = some path) (htarget : r.Target w target)
    (hthere : w.files.contains path = true) (hcopied : w.files.contains target = true)
    (branch : String) : (run { r with branch }).ends w = (.error (.fileExists target), w) := by
  have hreach : (reach { r with branch }).ends w = (.error (.fileExists target), w) := by
    rw [ends_reach_local (r := { r with branch }) hpath htarget hthere]
    exact ends_bind_error _ (ends_copyFolder_taken hcopied)
  refine ends_bind_error _ ?_
  rw [find, ends_bind_ok _ (show (permit { r with branch }).ends w = (.ok (), w) from hpermit)]
  exact ends_bind_error _ hreach

/-- The request may use a local repository, and there is one. -/
def Request.Finds (r : Request) (w : World) (path : String) : Prop :=
  (permit r).ends w = (.ok (), w) ∧ r.path? = some path ∧ w.files.contains path = true

theorem refused_cases (hstatus : status ≠ 500)
    (h : (run r).ends w = (.error (.refused status detail headers), v)) :
    v = w ∧ (¬ ∃ path, r.Finds w path) ∨
      ∃ path target log clones, r.Finds w path ∧ r.Target w target ∧
        w.files.contains target = false ∧
        v = { w with files := w.files.copyFolder path target, log, clones } := by
  rcases refused_early hstatus h with hrefused | ⟨hpermit, hreach⟩
  · have hkeeps : Keeps id (permit r) := keeps_permit r
    refine .inl ⟨hkeeps.of_ends hrefused, ?_⟩
    rintro ⟨path, hpermit, -⟩
    rw [hpermit] at hrefused
    cases hrefused
  · rcases reach_refused hreach with ⟨rfl, habsent⟩ |
      ⟨path, target, log, clones, hpath, hthere, htarget, hfree, hv⟩
    · refine .inl ⟨rfl, ?_⟩
      rintro ⟨path, -, hpath, hthere⟩
      rw [habsent path hpath] at hthere
      cases hthere
    · exact .inr ⟨path, target, log, clones, ⟨hpermit, hpath, hthere⟩, htarget, hfree, hv⟩

/-- **What a refusal leaves**: the store and the graph are as they were. The files are so, and later
requests end as they would have ended, exactly if no local repository was found. One that was found
has been copied, and every further request for it fails because of the copy. -/
theorem refusal_unchanged_iff (hstatus : status = 400 ∨ status = 403)
    (h : (run r).ends w = (.error (.refused status detail headers), v)) :
    v.store = w.store ∧ v.graph = w.graph ∧
    (v.files = w.files ↔ ¬ ∃ path, r.Finds w path) ∧
    ((∀ later : Request, (run later).ends v = (run later).ends w) ↔ ¬ ∃ path, r.Finds w path) ∧
    ∀ path, r.Finds w path → ∃ target, w.files.contains target = false ∧
      v.files = w.files.copyFolder path target ∧
      ∀ branch, (run { r with branch }).ends v = (.error (.fileExists target), v) := by
  have hother : status ≠ 500 := by omega
  rcases refused_cases hother h with ⟨rfl, hnone⟩ |
    ⟨path, target, log, clones, hfinds, htarget, hfree, hv⟩
  · exact ⟨rfl, rfl, iff_of_true rfl hnone, iff_of_true (fun _ => rfl) hnone,
      fun path hpath => absurd ⟨path, hpath⟩ hnone⟩
  · obtain ⟨hpermit, hpath, hthere⟩ := hfinds
    have hfiles : v.files = w.files.copyFolder path target := congrArg World.files hv
    have hcopied : v.files.contains target = true :=
      hfiles ▸ FileTree.contains_copyFolder htarget.ne_empty
    have hsettings : v.settings = w.settings := by rw [hv]
    have htarget' : r.Target v target := by
      rw [Request.Target, hsettings]
      exact htarget
    have hlater := ends_run_copied (permitted_again hsettings.symm hpermit) hpath htarget'
      (hfiles ▸ FileTree.contains_copyFolder_of_contains hthere) hcopied
    refine ⟨by rw [hv], by rw [hv], iff_of_false ?_ ?_, iff_of_false ?_ ?_, ?_⟩
    · intro hsame
      rw [← hsame, hcopied] at hfree
      cases hfree
    · exact fun hnone => hnone ⟨path, hpermit, hpath, hthere⟩
    · intro hsame
      have hagain := (hlater r.branch).symm.trans ((hsame r).trans h)
      cases hagain
    · exact fun hnone => hnone ⟨path, hpermit, hpath, hthere⟩
    · rintro path' ⟨-, hpath', -⟩
      obtain rfl : path = path' := Option.some.inj (hpath.symm.trans hpath')
      exact ⟨target, hfree, hfiles, hlater⟩

/-- A local repository with one branch. -/
def oneBranch : World :=
  { World.vacant with
    settings := [("isDevelopmentMode", "enabled"), ("PROJECT_PATH", "/projects")]
    files := .named [("/home/r/m.py", "x = 1\n".toUTF8)] []
    clones := [("/home/r", ⟨[("main", "c1")], "main", [], [], [], []⟩)] }

def asking (branch : String) : Request := ⟨none, some "/home/r", branch, .str "u"⟩

theorem ends_asking : (run (asking "nope")).ends oneBranch =
    (.error (.refuse 400 "Branch not found in local repository"),
      (run (asking "nope")).after oneBranch) := rfl

/-- After a request for a branch that is not there, the one that is there cannot be asked for. -/
theorem known_branch_blocked : (asking "nope").Finds oneBranch "/home/r" ∧
    ∃ target, (run (asking "main")).ends ((run (asking "nope")).after oneBranch) =
      (.error (.fileExists target), (run (asking "nope")).after oneBranch) := by
  have hfinds : (asking "nope").Finds oneBranch "/home/r" := ⟨rfl, rfl, by decide +kernel⟩
  obtain ⟨-, -, -, -, hcopied⟩ := refusal_unchanged_iff (.inl rfl) ends_asking
  obtain ⟨target, -, -, hlater⟩ := hcopied "/home/r" hfinds
  exact ⟨hfinds, target, hlater "main"⟩

theorem unknown_branch_copied : (run (asking "nope")).answer oneBranch =
      .error (.refuse 400 "Branch not found in local repository") ∧
    oneBranch.files.contains "/projects/r-u/m.py" = false ∧
    ((run (asking "nope")).after oneBranch).files.contains "/projects/r-u/m.py" = true :=
  ⟨rfl, by decide +kernel, by decide +kernel⟩

end Intake
end CodeAtlas
