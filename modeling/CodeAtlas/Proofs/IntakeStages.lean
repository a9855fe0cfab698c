import CodeAtlas.Project.Intake
import CodeAtlas.Proofs.ProjectTable

/-!
# The stages of taking a repository in

What the stages of a request for the analysis of a branch do to the table of projects.

* `Intake.readies_setUp`: setting up ends early with the table of projects as it was, or leaves a
  row of the project there;
* `Intake.keeps_find`, `Intake.foundFor_of_ends`: the look-up changes no project, and finds the
  first project of the user with the name that is asked for.
-/
namespace CodeAtlas

/-! ## What leaves the table of projects alone -/

section
open Run

theorem Folder.keeps_write (path : String) (bytes : ByteArray) :
    Keeps World.table (write path bytes) :=
  Keeps.get.bind fun _ => Keeps.check fun _ => Keeps.modify fun _ => rfl

theorem Folder.keeps_removeFile (path : String) : Keeps World.table (removeFile path) :=
  Keeps.get.bind fun _ => Keeps.check fun _ => Keeps.modify fun _ => rfl

theorem Folder.keeps_make (path : String) : Keeps World.table (make path) :=
  Keeps.modify fun _ => rfl

theorem Archive.keeps_unpackEntry (folder : String) (entry : String × String) :
    Keeps World.table (unpackEntry folder entry) := by
  unfold unpackEntry
  dsimp only
  split
  · exact Folder.keeps_make _
  · refine Keeps.get.bind fun w => ?_
    split
    · exact (Folder.keeps_make _).bind fun _ => Folder.keeps_write _ _
    · exact Folder.keeps_write _ _

theorem Archive.keeps_attempt {r : Run Unit} (h : Keeps World.table r) :
    Keeps World.table (attempt r) := by
  refine h.outcome.bind fun x => ?_
  split
  · exact Keeps.pure _
  · exact Keeps.pure _
  · exact Keeps.throw _

theorem Archive.keeps_fetch (r : HostedRepository) (archive folder : String) :
    Keeps World.table (fetch r archive folder) := by
  have hlast : Keeps World.table (attempt (Folder.removeFile archive)) :=
    keeps_attempt (Folder.keeps_removeFile archive)
  unfold fetch
  split
  · exact Keeps.pure _
  · refine (keeps_attempt (Folder.keeps_write _ _)).bind fun written => ?_
    split
    · exact Keeps.pure _
    · split
      · exact Keeps.pure _
      · refine (keeps_attempt (Keeps.composes.forM fun e _ => keeps_unpackEntry folder e)).bind fun unpacked => ?_
        split
        · exact Keeps.pure _
        · exact hlast

theorem Clone.keeps_inFolder {γ : Type} {part : World → γ} (path : Json) :
    Keeps part (inFolder path) := by
  refine Keeps.get.bind fun w => (Keeps.lift _).bind fun found => ?_
  split
  · exact Keeps.pure _
  · exact Keeps.throw _

theorem Clone.keeps_checkoutAt {γ : Type} {part : World → γ}
    (hpart : ∀ w log clones, part { w with log, clones } = part w) (path : String) (branch : Json) :
    Keeps part (checkoutAt path branch) := by
  refine (keeps_inFolder _).bind fun c => ?_
  refine Keeps.bind (Keeps.modify fun w => hpart w _ w.clones) fun _ => (Keeps.lift _).bind fun c => ?_
  exact Keeps.bind (Keeps.modify fun w => hpart w w.log _) fun _ => Keeps.pure _

theorem Setup.keeps_prepare (directory : String) : Keeps World.table (prepare directory) :=
  (Folder.keeps_make _).bind fun _ => Folder.keeps_write _ _

theorem Saved.keeps_clear (p : ProjectKey) (user : Json) : Keeps World.table (clear p user) := by
  refine Keeps.get.bind fun w => ?_
  split
  · refine (Keeps.lift _).bind fun c => (Keeps.lift _).bind fun u => fun w => ?_
    rw [ends_alter]
    cases hdelete : w.store.deleteEndpointsOf c u with
    | error e => rfl
    | ok s =>
      obtain ⟨rows, -, hdelete⟩ := bind_eq_ok hdelete
      cases hdelete
      rfl
  · exact Keeps.throw _

theorem GraphService.keeps_deleteProject (p : ProjectKey) :
    Keeps World.table (deleteProject p) := by
  have hapart : Apart World.table := ⟨fun _ _ _ => rfl⟩
  refine hapart.openSession.bind fun _ => (hapart.send _).outcome.bind fun x => ?_
  split
  · exact Keeps.throw _
  · exact Keeps.bind (Keeps.modify fun _ => rfl) fun _ => Keeps.modify fun _ => rfl

theorem Folder.keeps_discard (path : Json) : Keeps World.table (discard path) := by
  refine Keeps.bind ((Keeps.setting? _).bind fun _ => Keeps.pure _) fun dev => ?_
  split
  · exact Keeps.pure _
  · split
    · refine Keeps.get.bind fun w => ?_
      split
      · exact fun _ => rfl
      · exact Keeps.pure _
    · exact Keeps.pure _

theorem Setup.keeps_clear (directory : Json) (p : ProjectKey) (user : Json) :
    Keeps World.table (clear directory p user) :=
  (Saved.keeps_clear p user).bind fun _ => (GraphService.keeps_deleteProject p).bind fun _ =>
    Folder.keeps_discard directory

end

/-! ## Setting a project up -/

namespace Setup
open Run ProjectTable

variable {σ : ProjectTable} {r : Request} {owner : Option String}

theorem readies_hosted (hσ : σ.Numbered) (hr : r.Fits σ owner)
    (howner : Column.text r.user = .ok owner) (fullName : String) (repository : HostedRepository) :
    Readies σ r owner (hosted r fullName repository) := by
  refine Readies.bind (Keeps.setting? _) fun projects => ?_
  split
  · exact Readies.throw _
  · refine Readies.bind (Archive.keeps_fetch _ _ _) fun fault => ?_
    refine Readies.bind (Keeps.lift _) fun commit => ?_
    split
    · exact Readies.throw _
    · refine Readies.bind (keeps_prepare _) fun _ => ?_
      exact Readies.bind (Keeps.lift _) fun _ => readies_register hσ hr howner _ _ _ _

theorem hosted_eq_ok {fullName : String} {repository : HostedRepository} {p : Prepared} {w v : World}
    (h : (hosted r fullName repository).ends w = (.ok p, v)) :
    ∃ projects u commit isDefault profile, Table.get? w.settings "PROJECT_PATH" = some projects ∧
      u.table = w.table ∧ (register r (Path.join projects (r.projectName ++ "-" ++ r.user.display))
        commit isDefault profile).ends u = (.ok p, v) := by
  obtain ⟨found, u, hfound, h⟩ := ends_bind_eq_ok h
  obtain rfl : w = u := congrArg Prod.snd hfound
  have hsetting : Table.get? w.settings "PROJECT_PATH" = found :=
    Except.ok.inj (congrArg Prod.fst hfound)
  cases found with
  | none => cases h
  | some projects =>
    obtain ⟨fault, u₁, hfetch, h⟩ := ends_bind_eq_ok h
    obtain ⟨commit, u₂, hcommit, h⟩ := ends_bind_eq_ok h
    obtain rfl : u₁ = u₂ := congrArg Prod.snd hcommit
    have htable₁ : u₁.table = w.table := (Archive.keeps_fetch _ _ _).of_ends hfetch
    cases fault with
    | some f => cases h
    | none =>
      obtain ⟨_, u₃, hprepare, h⟩ := ends_bind_eq_ok h
      have htable₃ : u₃.table = u₁.table := (keeps_prepare _).of_ends hprepare
      obtain ⟨profile, u₄, hprofile, h⟩ := ends_bind_eq_ok h
      obtain rfl : u₃ = u₄ := congrArg Prod.snd hprofile
      exact ⟨projects, u₃, commit, _, _, hsetting, htable₃.trans htable₁, h⟩

theorem readies_cloned (hσ : σ.Numbered) (hr : r.Fits σ owner)
    (howner : Column.text r.user = .ok owner) (folder : String) :
    Readies σ r owner (cloned r folder) := by
  refine Readies.bind (Clone.keeps_checkoutAt (fun _ _ _ => rfl) _ _).outcome fun clone => ?_
  split
  · exact Readies.throw _
  · exact Readies.throw _
  · refine Readies.bind (keeps_prepare _) fun _ => ?_
    refine Readies.bind Keeps.get fun _ => ?_
    exact Readies.bind (Keeps.lift _) fun _ => readies_register hσ hr howner _ _ _ _

end Setup

namespace Intake
open Run ProjectTable Setup

theorem readies_setUp {σ : ProjectTable} {owner : Option String} {r : Setup.Request}
    (hσ : σ.Numbered) (hr : r.Fits σ owner) (howner : Column.text r.user = .ok owner)
    (source : Source) : Readies σ r owner (setUp r source) := by
  cases source with
  | cloned folder => exact readies_cloned hσ hr howner folder
  | hosted _ fullName repository => exact readies_hosted hσ hr howner fullName repository

/-! ## The look-up -/

theorem keeps_permit {γ : Type} {part : World → γ} (r : Request) : Keeps part (permit r) := by
  have hmode : Keeps part inDevelopment := (Keeps.setting? _).bind fun _ => Keeps.pure _
  have huser : Keeps part (isDefaultUser r.user) := (Keeps.setting? _).bind fun _ => Keeps.pure _
  refine hmode.bind fun _ => Keeps.check fun _ => huser.bind fun _ => ?_
  split
  · exact Keeps.throw _
  · exact Keeps.pure _

theorem keeps_copyFolder (path target : String) : Keeps World.table (copyFolder path target) :=
  Keeps.get.bind fun _ => Keeps.check fun _ => Keeps.modify fun _ => rfl

theorem keeps_switchTo {γ : Type} {part : World → γ}
    (hpart : ∀ w log clones, part { w with log, clones } = part w) (folder : String) (branch : Json) :
    Keeps part (switchTo folder branch) := by
  refine (Clone.keeps_inFolder _).bind fun clone => (Keeps.lift _).bind fun head =>
    Keeps.check fun _ => (Clone.keeps_checkoutAt hpart folder branch).outcome.bind fun x => ?_
  split
  · exact Keeps.pure _
  · exact Keeps.throw _

theorem keeps_isInstalled {γ : Type} {part : World → γ} (name : Json) :
    Keeps part (Hosting.isInstalled name) :=
  (Keeps.lift _).bind fun _ => Keeps.get.bind fun _ => Keeps.pure _

theorem keeps_repository {γ : Type} {part : World → γ} (name : Json) :
    Keeps part (Hosting.repository name) := by
  refine Keeps.get.bind fun _ => (Keeps.lift _).bind fun found => ?_
  split
  · split
    · exact Keeps.throw _
    · exact Keeps.pure _
  · exact Keeps.throw _

theorem keeps_reach (r : Request) : Keeps World.table (reach r) := by
  refine (Keeps.setting? _).bind fun projects => ?_
  split
  · exact (Keeps.lift _).bind fun _ => Keeps.throw _
  · refine (Keeps.lift _).bind fun name => ?_
    split
    · exact Keeps.get.bind fun _ => Keeps.check fun _ => (keeps_copyFolder _ _).bind fun _ =>
        (keeps_switchTo (fun _ _ _ => rfl) _ _).bind fun _ => Keeps.pure _
    · refine (Keeps.lift _).bind fun owner => (keeps_isInstalled _).bind fun installed =>
        Keeps.check fun _ => (keeps_repository _).outcome.bind fun x => ?_
      split
      · exact Keeps.pure _
      · exact Keeps.throw _

theorem keeps_find (r : Request) : Keeps World.table (find r) :=
  (keeps_permit r).bind fun _ => (keeps_reach r).bind fun _ => (Keeps.lift _).bind fun _ =>
    Keeps.bind ((Keeps.lift _).bind fun _ => Keeps.look _) fun _ => Keeps.pure _

def Request.projectName (r : Request) : Except Failure String := do
  let repository ← Registry.shortName (Json.ofOption r.repository) (Json.ofOption r.path)
  return Registry.projectName (.str repository) (.str r.branch)

/-- What the look-up finds: the first project of the user with the name that is asked for. -/
structure FoundFor (r : Request) (w : World) (owner : Option String) (f : Found) : Prop where
  name : r.projectName = .ok f.request.projectName
  user : f.request.user = r.user
  owned : Column.text r.user = .ok owner
  fresh : f.request.project = ⟨.null⟩
  known : f.known = w.store.projectNamed? (some f.request.projectName) owner

theorem foundFor_of_ends {r : Request} {w v : World} {f : Found}
    (h : (find r).ends w = (.ok f, v)) : v.table = w.table ∧ ∃ owner, FoundFor r w owner f := by
  have htable : v.table = w.table := (keeps_find r).of_ends h
  obtain ⟨_, u₁, h₁, h⟩ := ends_bind_eq_ok h
  obtain ⟨source, u₂, h₂, h⟩ := ends_bind_eq_ok h
  obtain ⟨name, u₃, h₃, h⟩ := ends_bind_eq_ok h
  obtain ⟨known, u₄, h₄, h⟩ := ends_bind_eq_ok h
  cases h
  obtain ⟨owner, u₅, h₅, h₄⟩ := ends_bind_eq_ok h₄
  cases h₄
  have howner : Column.text r.user = .ok owner := congrArg Prod.fst h₅
  obtain rfl : u₃ = v := congrArg Prod.snd h₅
  have hname : Registry.shortName (Json.ofOption r.repository) (Json.ofOption r.path) = .ok name :=
    congrArg Prod.fst h₃
  refine ⟨htable, owner, ?_, rfl, howner, rfl, ?_⟩
  · unfold Request.projectName
    rw [hname]
    rfl
  · have hrows : u₃.store.projects = w.store.projects := congrArg ProjectTable.rows htable
    exact congrArg (List.find? _) hrows

end Intake
end CodeAtlas
