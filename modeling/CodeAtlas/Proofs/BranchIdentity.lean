import CodeAtlas.Proofs.IntakeStages
import CodeAtlas.Proofs.Text

/-!
# Projects of different branches

A project goes by the short name of its repository, a dash and the name of its branch, and its folder
by this name and that of the user. The owner of the repository does not count, and a dash may stand
in either name.

* `Branch.Blends`: the branches that go by one name;
* `Branch.projectName_eq_iff`, `Branch.directory_eq_iff`: their projects have one name and one folder;
* `Branch.blends_of_known`, `Branch.known_of_blends`: a look-up for one of them finds the project of
  the other;
* `Branch.confused_iff`: all of this, for any two branches;
* `Branch.owners_confused`: branches of two owners that are taken for one.
-/
namespace CodeAtlas

/-! ## Texts around a dash -/

theorem Chars.append_cons_eq_iff {α : Type} {c : α} {as bs cs ds : List α} :
    as ++ c :: bs = cs ++ c :: ds ↔ as = cs ∧ bs = ds ∨
      (∃ m, cs = as ++ c :: m ∧ bs = m ++ c :: ds) ∨ ∃ m, as = cs ++ c :: m ∧ ds = m ++ c :: bs := by
  constructor
  · intro h
    rcases List.append_eq_append_iff.1 h with ⟨m, hm, hrest⟩ | ⟨m, hm, hrest⟩
    · cases m with
      | nil => exact Or.inl ⟨by simpa using hm.symm, by simpa using hrest⟩
      | cons x m =>
        obtain ⟨rfl, rfl⟩ := List.cons.inj hrest
        exact Or.inr (Or.inl ⟨m, hm, rfl⟩)
    · cases m with
      | nil => exact Or.inl ⟨by simpa using hm, by simpa using hrest.symm⟩
      | cons x m =>
        obtain ⟨rfl, rfl⟩ := List.cons.inj hrest
        exact Or.inr (Or.inr ⟨m, hm, rfl⟩)
  · rintro (⟨rfl, rfl⟩ | ⟨m, rfl, rfl⟩ | ⟨m, rfl, rfl⟩) <;> simp

theorem Text.dash_eq_iff {a b c d : String} : a ++ "-" ++ b = c ++ "-" ++ d ↔ a = c ∧ b = d ∨
    (∃ m, c = a ++ "-" ++ m ∧ b = m ++ "-" ++ d) ∨ ∃ m, a = c ++ "-" ++ m ∧ d = m ++ "-" ++ b := by
  have hexists {p : List Char → Prop} : (∃ m, p m) ↔ ∃ m : String, p m.toList :=
    ⟨fun ⟨m, hm⟩ => ⟨String.ofList m, by rwa [String.toList_ofList]⟩, fun ⟨m, hm⟩ => ⟨m.toList, hm⟩⟩
  have hdash (s t : String) : (s ++ "-" ++ t).toList = s.toList ++ '-' :: t.toList := by simp
  simp only [← String.toList_inj, hdash, Chars.append_cons_eq_iff, hexists]

theorem Path.join_inj {folder p q : String} (hp : isRooted p = false) (hq : isRooted q = false) :
    join folder p = join folder q ↔ p = q := by
  unfold join
  rw [hp, hq, if_neg Bool.false_ne_true, if_neg Bool.false_ne_true]
  split
  · exact String.append_right_inj folder
  · exact String.append_right_inj (folder ++ "/")

/-! ## Branches -/

/-- A branch of a hosted repository. -/
structure Branch where
  owner : String
  repository : String
  name : String
  /-- A slash divides the owner from the repository. -/
  plain : '/' ∉ repository.toList

namespace Branch
open Run ProjectTable Setup

def request (b : Branch) (user : String) : Intake.Request :=
  ⟨some (b.owner ++ "/" ++ b.repository), none, b.name, .str user⟩

def setup (b : Branch) (user : String) : Setup.Request :=
  ⟨.str b.owner, .str b.repository, .str b.name, .str user, ⟨.null⟩⟩

/-- The branches that go by one name: they differ at most in the owner, or one name goes on where
the other has the dash. -/
def Blends (a b : Branch) : Prop :=
  a.repository = b.repository ∧ a.name = b.name ∨
    (∃ m, b.repository = a.repository ++ "-" ++ m ∧ a.name = m ++ "-" ++ b.name) ∨
    ∃ m, a.repository = b.repository ++ "-" ++ m ∧ b.name = m ++ "-" ++ a.name

variable {a b : Branch} {user : String} {w v : World} {p : Prepared}

theorem projectName_setup (b : Branch) (user : String) :
    (b.setup user).projectName = b.repository ++ "-" ++ b.name := rfl

theorem projectName_eq_iff {u : String} :
    (a.setup u).projectName = (b.setup u).projectName ↔ a.Blends b := by
  rw [projectName_setup, projectName_setup]
  exact Text.dash_eq_iff

theorem projectName_request (b : Branch) (user : String) :
    (b.request user).projectName = .ok (b.setup user).projectName := by
  have hlast : Text.last '/' (b.owner ++ "/" ++ b.repository) = b.repository :=
    Text.last_of_toList (l := b.owner.toList) (by simp) b.plain
  have hgiven : (Json.str (b.owner ++ "/" ++ b.repository)).isGiven = true := by
    simp [Json.isGiven]
  have hshort : Registry.shortName (Json.ofOption (b.request user).repository)
      (Json.ofOption (b.request user).path) = .ok b.repository := by
    simp only [Registry.shortName, request, Json.ofOption, hgiven, if_true]
    exact congrArg Except.ok hlast
  unfold Intake.Request.projectName
  rw [hshort]
  rfl

/-! ## The folder of a branch -/

def folder (b : Branch) (user : String) : String :=
  (b.setup user).projectName ++ "-" ++ user

theorem isRooted_folder (b : Branch) (user : String) : Path.isRooted (b.folder user) = false := by
  have hlist : (b.folder user).toList =
      b.repository.toList ++ '-' :: (b.name ++ "-" ++ user).toList := by
    simp [folder, projectName_setup]
  unfold Path.isRooted
  rw [hlist]
  have hplain := b.plain
  cases hr : b.repository.toList with
  | nil => rfl
  | cons c cs =>
    rw [hr, List.mem_cons, not_or] at hplain
    simpa using Ne.symm hplain.1

theorem folder_eq_iff : a.folder user = b.folder user ↔ a.Blends b := by
  unfold folder
  rw [String.append_left_inj, String.append_left_inj, projectName_eq_iff]

theorem directory_of_hosted {fullName : String} {repository : HostedRepository}
    (h : (hosted (b.setup user) fullName repository).ends w = (.ok p, v)) :
    ∃ projects, Table.get? w.settings "PROJECT_PATH" = some projects ∧
      p.directory = Path.join projects (b.folder user) := by
  obtain ⟨projects, u, commit, isDefault, profile, hsetting, -, h⟩ := hosted_eq_ok h
  exact ⟨projects, hsetting, directory_of_register h⟩

/-- Two branches are brought into one folder if and only if they go by one name. -/
theorem directory_eq_iff {fullName fullName' : String} {repository repository' : HostedRepository}
    {w' v' : World} {q : Prepared}
    (hsetting : Table.get? w.settings "PROJECT_PATH" = Table.get? w'.settings "PROJECT_PATH")
    (hp : (hosted (a.setup user) fullName repository).ends w = (.ok p, v))
    (hq : (hosted (b.setup user) fullName' repository').ends w' = (.ok q, v')) :
    p.directory = q.directory ↔ a.Blends b := by
  obtain ⟨projects, hprojects, hp⟩ := directory_of_hosted hp
  obtain ⟨projects', hprojects', hq⟩ := directory_of_hosted hq
  obtain rfl : projects = projects' := by
    rw [hprojects, hprojects'] at hsetting
    exact Option.some.inj hsetting
  rw [hp, hq, Path.join_inj (a.isRooted_folder user) (b.isRooted_folder user), folder_eq_iff]

/-! ## The row and the look-up -/

/-- The row of a branch that was set up. -/
theorem row_of_hosted (hw : w.table.Numbered) {fullName : String} {repository : HostedRepository}
    (h : (hosted (a.setup user) fullName repository).ends w = (.ok p, v)) :
    ∃ y ∈ v.table.rows, p.project = .number y.id ∧ y.name = some (a.setup user).projectName ∧
      y.owner = user ∧ Apart y.id w.table v.table := by
  obtain ⟨projects, u, commit, isDefault, profile, -, htable, h⟩ := hosted_eq_ok h
  have howner : Column.text (a.setup user).user = .ok (some user) := rfl
  obtain ⟨k, τ, hproject, hready, hv⟩ := register_eq_ok hw (.inl rfl) howner htable h
  have hready := hready.stated .created
  rw [← hv] at hready
  obtain ⟨y, hy, rfl, hname, hown⟩ := hready.row
  exact ⟨y, hy, hproject, hname, Option.some.inj hown, hready.apart⟩

theorem known_request {f : Intake.Found} (h : (Intake.find (b.request user)).ends w = (.ok f, v)) :
    f.known = w.store.projectNamed? (some (b.setup user).projectName) (some user) := by
  obtain ⟨-, owner, hfound⟩ := Intake.foundFor_of_ends h
  obtain rfl : some user = owner := Except.ok.inj hfound.owned
  have hasked : f.request.projectName = (b.setup user).projectName :=
    Except.ok.inj (hfound.name.symm.trans (projectName_request b user))
  rw [hfound.known, hasked]

section
variable {fullName : String} {repository : HostedRepository} (hw : w.table.Numbered)
  (hp : (hosted (a.setup user) fullName repository).ends w = (.ok p, v)) {x z : World}
  (hx : x.table = v.table) {f : Intake.Found}
  (hf : (Intake.find (b.request user)).ends x = (.ok f, z))
include hw hp hx hf

theorem blends_of_known {q : Project} (hq : f.known = some q) (hid : p.project = .number q.id) :
    a.Blends b := by
  obtain ⟨y, hy, hproject, hname, -, hapart⟩ := row_of_hosted hw hp
  rw [known_request hf] at hq
  have hmem : q ∈ v.table.rows := hx ▸ List.mem_of_find?_eq_some hq
  have hfits := List.find?_some hq
  simp only [Bool.and_eq_true, decide_eq_true_eq] at hfits
  have hsame : q.id = y.id := by simpa [ProjectKey.number] using hid.symm.trans hproject
  obtain rfl : q = y := eq_of_id hapart.consistent hmem hy hsame
  exact projectName_eq_iff.1 (Option.some.inj (hname.symm.trans hfits.1))

theorem known_of_blends
    (hnone : w.store.projectNamed? (some (a.setup user).projectName) (some user) = none)
    (hblends : a.Blends b) : ∃ q, f.known = some q ∧ p.project = .number q.id := by
  obtain ⟨y, hy, hproject, hname, hown, hapart⟩ := row_of_hosted hw hp
  rw [known_request hf, ← projectName_eq_iff.2 hblends]
  have hy' : y ∈ x.table.rows := hx ▸ hy
  cases hq : x.store.projectNamed? (some (a.setup user).projectName) (some user) with
  | none =>
    have hnot := List.find?_eq_none.1 hq y hy'
    simp [hname, hown] at hnot
  | some q =>
    refine ⟨q, rfl, ?_⟩
    have hmem : q ∈ v.table.rows := hx ▸ List.mem_of_find?_eq_some hq
    have hfits := List.find?_some hq
    by_cases hid : q.id = y.id
    · exact hid ▸ hproject
    · -- another row was there before, and would have been found then
      have hold : q ∈ w.store.projects := (hapart.others q hid).1 hmem
      exact absurd hfits (List.find?_eq_none.1 hnone q hold)

end

/-- **When projects of two branches are taken for one**: they have one name, and one folder, if and
only if the branches blend. A look-up for the one branch finds the project of the other only then,
and always does if the user had no project of this name before. -/
theorem confused_iff (a b : Branch) {fullName : String} {repository : HostedRepository}
    (hw : w.table.Numbered)
    (hp : (hosted (a.setup user) fullName repository).ends w = (.ok p, v)) :
    (∀ fullName' repository' w' v' q, w'.table.Numbered →
      Table.get? w.settings "PROJECT_PATH" = Table.get? w'.settings "PROJECT_PATH" →
      (hosted (b.setup user) fullName' repository').ends w' = (.ok q, v') →
      ∃ y ∈ v.table.rows, ∃ y' ∈ v'.table.rows,
        p.project = .number y.id ∧ q.project = .number y'.id ∧
        (y.name = y'.name ↔ a.Blends b) ∧ (p.directory = q.directory ↔ a.Blends b)) ∧
    ∀ x z f, x.table = v.table → (Intake.find (b.request user)).ends x = (.ok f, z) →
      ((∃ q, f.known = some q ∧ p.project = .number q.id) → a.Blends b) ∧
      (w.store.projectNamed? (some (a.setup user).projectName) (some user) = none → a.Blends b →
        ∃ q, f.known = some q ∧ p.project = .number q.id) := by
  constructor
  · intro fullName' repository' w' v' q hw' hsetting hq
    obtain ⟨y, hy, hproject, hname, -, -⟩ := row_of_hosted hw hp
    obtain ⟨y', hy', hproject', hname', -, -⟩ := row_of_hosted hw' hq
    refine ⟨y, hy, y', hy', hproject, hproject', ?_, directory_eq_iff hsetting hp hq⟩
    rw [hname, hname', Option.some.injEq, projectName_eq_iff]
  · intro x z f hx hf
    exact ⟨fun ⟨_, hq, hid⟩ => blends_of_known hw hp hx hf hq hid,
      fun hnone hblends => known_of_blends hw hp hx hf hnone hblends⟩

/-! ## Branches of two owners -/

def twoBranches : HostedRepository :=
  { HostedRepository.blank with branches := [("main", "s1"), ("dev", "s2")] }

def twoOwners : World :=
  { World.vacant with
    settings := [("PROJECT_PATH", "/projects")]
    hosted := [("a/demo", twoBranches), ("b/demo", twoBranches)] }

def demo (owner name : String) : Branch := ⟨owner, "demo", name, by decide⟩

/-- The second branch of a repository has a folder of its own, and is not taken for the first. -/
theorem second_branch_apart : ∃ p v q v' f z,
    (hosted ((demo "a" "main").setup "u") "a/demo" twoBranches).ends twoOwners = (.ok p, v) ∧
    (hosted ((demo "a" "dev").setup "u") "a/demo" twoBranches).ends twoOwners = (.ok q, v') ∧
    (Intake.find ((demo "a" "dev").request "u")).ends v = (.ok f, z) ∧
    p.directory ≠ q.directory ∧ ∀ y, f.known = some y → p.project ≠ .number y.id := by
  have hfirst : ((do
      let _ ← hosted ((demo "a" "main").setup "u") "a/demo" twoBranches
      let _ ← Intake.find ((demo "a" "dev").request "u")
      pure () : Run Unit).answer twoOwners).toOption = some () := by decide +kernel
  have hsecond : ((do
      let _ ← hosted ((demo "a" "dev").setup "u") "a/demo" twoBranches
      pure () : Run Unit).answer twoOwners).toOption = some () := by decide +kernel
  obtain ⟨p, v, hp, hfirst⟩ := ends_bind_eq_ok (Prod.ext (eq_ok_of_toOption hfirst) rfl)
  obtain ⟨f, z, hf, -⟩ := ends_bind_eq_ok hfirst
  obtain ⟨q, v', hq, -⟩ := ends_bind_eq_ok (Prod.ext (eq_ok_of_toOption hsecond) rfl)
  have hnumbered : twoOwners.table.Numbered := ⟨by decide +kernel, by decide +kernel⟩
  have hapart : ¬ (demo "a" "main").Blends (demo "a" "dev") := fun h =>
    absurd (projectName_eq_iff (u := "u") |>.2 h) (by decide +kernel)
  obtain ⟨hset, hfound⟩ := confused_iff (demo "a" "main") (demo "a" "dev") hnumbered hp
  obtain ⟨-, -, -, -, -, -, -, hfolder⟩ := hset _ _ _ _ _ hnumbered rfl hq
  exact ⟨p, v, q, v', f, z, hp, hq, hf, fun h => hapart (hfolder.1 h),
    fun y hy hid => hapart ((hfound v z f rfl hf).1 ⟨y, hy, hid⟩)⟩

/-- A look-up for the main branch of the one owner finds the project of the other. -/
theorem owners_confused : ((do
    let p ← hosted ((demo "a" "main").setup "u") "a/demo" twoBranches
    let f ← Intake.find ((demo "b" "main").request "u")
    pure (p.directory, f.known.map fun q => (q.id, q.repository)) : Run _).answer
      twoOwners).toOption = some ("/projects/demo-main-u", some (1, some "a/demo")) := by
  decide +kernel

end Branch
end CodeAtlas
