import CodeAtlas.Hook.PullRequest
import CodeAtlas.Proofs.IntakeStatus

/-!
# Branches that pull requests bring in

A pull request whose branch has no project has the branch set up and analysed, like a request for the
analysis of a branch. But it registers the project under the first character of the user's name, it
analyses whatever the language is, and a failure leaves the project as it was set up.

* `PullRequest.prepare_eq_ok`, `PullRequest.table_conclude`: what the stages leave in the table of
  projects;
* `PullRequest.opened_registers`: the row of the new project, and when it is the one that a request
  for the analysis would have left;
* `PullRequest.owner_cut_off`: the name of a user is cut off.
-/
namespace CodeAtlas.PullRequest
open Run ProjectTable Setup

/-! ## What is announced -/

theorem keeps_radius (project : ProjectKey) (pull : Pull) :
    Keeps World.table (radius project pull) := by
  refine Keeps.bind ((Keeps.lift _).bind fun _ => Keeps.look _) fun known => ?_
  have hcompared : Keeps World.table (do
      let repository ← Hosting.repository pull.repository
      Hosting.compare repository pull.base pull.branch) :=
    (Intake.keeps_repository _).bind fun _ => Keeps.lift _
  refine hcompared.outcome.bind fun comparison => ?_
  split
  · exact Keeps.pure _
  · exact Keeps.pure _
  · exact Keeps.throw _

theorem keeps_impact (found : List (String × Json)) :
    Keeps World.table (Markdown.impact found) := by
  have hbot : Keeps World.table Markdown.botName := by
    refine (Keeps.setting? _).bind fun name => ?_
    split
    · exact Keeps.pure _
    · exact Keeps.throw _
  exact (Keeps.lift _).bind fun _ => hbot.bind fun _ => Keeps.pure _

theorem keeps_announce (project : ProjectKey) (pull : Pull) (number : Json) :
    Keeps World.table (announce project pull number) := by
  refine (keeps_radius project pull).bind fun found => ?_
  split
  · exact Keeps.throw _
  · exact (keeps_impact _).bind fun _ => (Keeps.lift _).bind fun _ => Keeps.modify fun _ => rfl

/-! ## What the stages leave in the table -/

variable {o : Opened} {p : Prepared} {user : String} {w u v : World}

/-- A branch that could not be set up leaves the table as it was. -/
theorem table_prepare_error (hu : u.table.Numbered) {e : Failure}
    (h : o.prepare.ends u = (.error e, v)) : v.table = u.table := by
  unfold Opened.prepare at h
  rw [ends_bind_lift] at h
  cases hname : o.pull.repository.asText "split" with
  | error f => rw [hname] at h; cases h; rfl
  | ok fullName =>
    simp only [hname, ends_bind_lift] at h
    cases hinitial : initial o.user with
    | error f => rw [hinitial] at h; cases h; rfl
    | ok c =>
      simp only [hinitial] at h
      have howner : Column.text (.str c) = .ok (some c) := rfl
      exact (readies_hosted hu (.inl rfl) howner fullName o.repository).early u e v rfl h

theorem initial_eq_ok {name : String} (h : initial (some user) = .ok name) :
    ∃ c, user.toList.head? = some c ∧ name = String.singleton c := by
  simp only [initial] at h
  cases hchars : user.toList with
  | nil => rw [hchars] at h; cases h
  | cons c cs =>
    rw [hchars] at h
    exact ⟨c, rfl, (Except.ok.inj h).symm⟩

/-- A branch that was set up has a new row, which belongs to the first character of the name. -/
theorem prepare_eq_ok (hu : u.table.Numbered) (huser : o.user = some user)
    (h : o.prepare.ends u = (.ok p, v)) :
    ∃ c k τ r, user.toList.head? = some c ∧ p.project = .number k ∧
      (∀ x ∈ u.table.rows, x.id ≠ k) ∧ Readied u.table r (some (String.singleton c)) k τ ∧
      v.table = τ.set k (Registry.stated .created) := by
  obtain ⟨fullName, u₁, hname, h⟩ := ends_bind_eq_ok h
  obtain rfl : u = u₁ := congrArg Prod.snd hname
  obtain ⟨name, u₂, hinitial, h⟩ := ends_bind_eq_ok h
  obtain rfl : u = u₂ := congrArg Prod.snd hinitial
  obtain ⟨c, hc, rfl⟩ := initial_eq_ok (huser ▸ congrArg Prod.fst hinitial)
  obtain ⟨projects, u₃, commit, isDefault, profile, -, htable, h⟩ := hosted_eq_ok h
  have howner : Column.text (.str (String.singleton c)) = .ok (some (String.singleton c)) := rfl
  obtain ⟨k, τ, hproject, hready, hstatus⟩ := register_eq_ok hu (.inl rfl) howner htable h
  have hnew : ∀ x ∈ u.table.rows, x.id ≠ k := hready.known.elim nofun And.right
  exact ⟨c, k, τ, _, hc, hproject, hnew, hready, hstatus⟩

/-- The status that a branch of a pull request ends in: it is ready if its analysis ends well, and
stays as it was set up otherwise. -/
def statusOf (p : Prepared) (user : Json) (w : World) : ProjectStatus :=
  match (Analysis.analyse p.directory user p.project).answer w with
  | .ok _ => .ready
  | .error _ => .created

theorem set_stated (τ : ProjectTable) (k : Int) (a b : ProjectStatus) :
    (τ.set k (Registry.stated a)).set k (Registry.stated b) = τ.set k (Registry.stated b) := by
  simp only [ProjectTable.set, List.map_map]
  refine congrArg (ProjectTable.mk · τ.readOnly) (List.map_congr_left fun r _ => ?_)
  by_cases hr : r.id = k <;> simp [Function.comp, Registry.stated, hr]

theorem statusOf_ne_error (p : Prepared) (user : Json) (w : World) : statusOf p user w ≠ .error := by
  unfold statusOf
  split <;> nofun

/-- What is left of a branch that was set up, when it was analysed and announced. -/
theorem table_conclude {k : Int} {τ : ProjectTable} (hp : p.project = .number k)
    (hk : Cell.fits k = true) (hs : Store.projectsConsistent v.table.rows = true)
    (hro : v.table.readOnly = false) (hv : v.table = τ.set k (Registry.stated .created))
    (o : Opened) :
    ((o.conclude p >>= fun key => announce key o.pull o.number).after v).table =
      τ.set k (Registry.stated (statusOf p (Json.ofOption o.user) v)) := by
  have htable := Intake.table_analyse hk p.directory (Json.ofOption o.user) v
  rw [← hp] at htable
  unfold Opened.conclude statusOf
  generalize Analysis.analyse p.directory (Json.ofOption o.user) p.project = run at htable ⊢
  cases hanswer : run.answer v with
  | error e =>
    have hends : run.ends v = (.error e, run.after v) := Prod.ext hanswer rfl
    rw [bind_assoc, Run.after, ends_bind_error _ hends]
    exact htable.trans hv
  | ok _ =>
    have hends : run.ends v = (.ok (), run.after v) := Prod.ext hanswer rfl
    obtain ⟨v', hset, hv'⟩ := Registry.ends_setStatus hk (htable ▸ hs) (htable ▸ hro) .ready
    rw [← hp] at hset
    rw [htable, hv, set_stated] at hv'
    rw [bind_assoc, Run.after, ends_bind_ok _ hends, bind_assoc, ends_bind_ok _ hset, pure_bind]
    exact (keeps_announce _ _ _ v').trans hv'

theorem keeps_find (payload : Json) : Keeps World.table (find payload) :=
  (Keeps.lift _).bind fun _ => (Keeps.lift _).bind fun _ => (Keeps.lift _).bind fun _ =>
    (Keeps.lift _).bind fun _ => (Intake.keeps_repository _).bind fun _ =>
    Keeps.bind ((Keeps.lift _).bind fun _ => (Keeps.look _).bind fun _ => Keeps.pure _) fun _ =>
    Keeps.bind ((Keeps.lift _).bind fun _ => (Keeps.lift _).bind fun _ => Keeps.look _) fun _ =>
    Keeps.pure _

/-- The status of a branch of a pull request is the one that its analysis would have earned if and
only if the branch is ready and its language is supported. -/
theorem statusOf_eq_iff (p : Prepared) (user : Json) (w : World) :
    statusOf p user w = Intake.resultOf p user w ↔ p.isSupported = true ∧
      (Analysis.analyse p.directory user p.project).answer w = .ok () := by
  unfold statusOf Intake.resultOf
  cases p.isSupported <;> cases (Analysis.analyse p.directory user p.project).answer w <;> simp

section
variable {payload : Json} (ho : (find payload).ends w = (.ok o, u)) (hnew : o.known = none)
include ho hnew

theorem ends_opened : (opened payload).ends w =
    (o.prepare >>= fun p => o.conclude p >>= fun key => announce key o.pull o.number).ends u := by
  unfold opened
  rw [ends_bind_ok _ ho, hnew]

variable (hw : w.table.Numbered)
include hw

/-- A branch that could not be set up. -/
theorem table_opened_error {e : Failure} (h : o.prepare.ends u = (.error e, v)) :
    ((opened payload).after w).table = w.table := by
  have hu : u.table = w.table := (keeps_find payload).of_ends ho
  rw [Run.after, ends_opened ho hnew, ends_bind_error _ h]
  exact (table_prepare_error (hu ▸ hw) h).trans hu

/-- A branch that was set up. -/
theorem table_opened (huser : o.user = some user) (h : o.prepare.ends u = (.ok p, v)) :
    ∃ c k τ r, user.toList.head? = some c ∧ p.project = .number k ∧
      (∀ x ∈ w.table.rows, x.id ≠ k) ∧ Readied w.table r (some (String.singleton c)) k τ ∧
      ((opened payload).after w).table =
        τ.set k (Registry.stated (statusOf p (.str user) v)) := by
  have hu : u.table = w.table := (keeps_find payload).of_ends ho
  obtain ⟨c, k, τ, r, hc, hproject, hfresh, hready, hcreated⟩ := prepare_eq_ok (hu ▸ hw) huser h
  rw [hu] at hfresh hready
  have hset := hready.stated .created
  rw [← hcreated] at hset
  have hconclude := table_conclude hproject hready.fits hset.apart.consistent
    (hset.apart.readOnly.trans hset.writable) hcreated o
  rw [huser] at hconclude
  refine ⟨c, k, τ, r, hc, hproject, hfresh, hready, ?_⟩
  rw [Run.after, ends_opened ho hnew, ends_bind_ok _ h]
  exact hconclude

end

/-- **A branch that a pull request brings in**: if it cannot be set up, the table of projects is as
it was. Otherwise it has a new row, which belongs to the first character of the user's name, and is
ready if its analysis ends well and left as it was set up if not. So the row has the owner and the
status that a request for the analysis gives it if and only if the name has one character, the
language is supported and the analysis ends well. -/
theorem opened_registers {payload : Json} (hw : w.table.Numbered)
    (ho : (find payload).ends w = (.ok o, u)) (hnew : o.known = none) (huser : o.user = some user) :
    (∀ e v, o.prepare.ends u = (.error e, v) → ((opened payload).after w).table = w.table) ∧
    ∀ p v, o.prepare.ends u = (.ok p, v) → ∃ k c, p.project = .number k ∧
      user.toList.head? = some c ∧ (∀ x ∈ w.table.rows, x.id ≠ k) ∧
      Apart k w.table ((opened payload).after w).table ∧
      ∃ y ∈ ((opened payload).after w).table.rows, y.id = k ∧ y.owner = String.singleton c ∧
        y.status = some (statusOf p (.str user) v) ∧
        (y.owner = user ∧ y.status = some (Intake.resultOf p (.str user) v) ↔
          user = String.singleton c ∧ p.isSupported = true ∧
            (Analysis.analyse p.directory (.str user) p.project).answer v = .ok ()) := by
  refine ⟨fun e v hv => table_opened_error ho hnew hw hv, fun p v hv => ?_⟩
  obtain ⟨c, k, τ, r, hc, hproject, hfresh, hready, htable⟩ := table_opened ho hnew hw huser hv
  obtain ⟨y, hy, hid, -, hown⟩ := hready.row
  have hown : y.owner = String.singleton c := Option.some.inj hown
  rw [htable]
  refine ⟨k, c, hproject, hc, hfresh, (hready.stated _).apart, _, mem_set_self hy hid, hid, hown,
    rfl, ?_⟩
  simp only [Registry.stated, Option.some.injEq, statusOf_eq_iff, hown]
  rw [eq_comm]

/-! ## A pull request for a second branch -/

/-- The main branch of a repository, analysed for a user. -/
def mainFor (user : String) : Project :=
  { Project.sample 1 user with isDefault := some true }

/-- A repository with two branches, one of which was analysed. -/
def halfKnown (user : String) : World :=
  { World.vacant with
    settings := [("PROJECT_PATH", "/projects")]
    hosted := [("o/demo", { HostedRepository.blank with
      branches := [("main", "s1"), ("dev", "s2")] })]
    store := { Store.empty with projects := [mainFor user] } }

def message : Json := .obj
  [("repository", .obj [("full_name", .str "o/demo")]),
   ("pull_request", .obj
     [("number", .int 7), ("base", .obj [("ref", .str "main")]),
      ("head", .obj [("ref", .str "dev"), ("repo", .obj [("owner", .obj [("login", .str "o")])])])]),
   ("installation", .obj [("id", .int 1)])]

/-- What the stages up to the analysis show. -/
def begins (payload : Json) : Run (Bool × Option String × Bool) :=
  find payload >>= fun o => o.prepare >>= fun p => pure (o.known.isNone, o.user, p.isSupported)

theorem stages_of_begins {payload : Json} {isSupported : Bool}
    (h : ((begins payload).answer w).toOption = some (true, some user, isSupported)) :
    ∃ o u p v, (find payload).ends w = (.ok o, u) ∧ o.known = none ∧ o.user = some user ∧
      o.prepare.ends u = (.ok p, v) ∧ p.isSupported = isSupported := by
  have hends : (begins payload).ends w = (.ok (true, some user, isSupported), _) :=
    Prod.ext (eq_ok_of_toOption h) rfl
  obtain ⟨o, u, ho, hends⟩ := ends_bind_eq_ok hends
  obtain ⟨p, v, hp, hends⟩ := ends_bind_eq_ok hends
  have hshown := Except.ok.inj (congrArg Prod.fst hends)
  simp only [Prod.mk.injEq, Option.isNone_iff_eq_none] at hshown
  exact ⟨o, u, p, v, ho, hshown.1, hshown.2.1, hp, hshown.2.2⟩

/-- A user whose name has one character gets the branch, in the status that it has earned if its
analysis ends well. -/
theorem short_name_kept : ∃ o u p v, (find message).ends (halfKnown "u") = (.ok o, u) ∧
    o.known = none ∧ o.user = some "u" ∧ o.prepare.ends u = (.ok p, v) ∧
    ∃ y ∈ ((opened message).after (halfKnown "u")).table.rows, p.project = .number y.id ∧
      y.owner = "u" ∧ (y.status = some (Intake.resultOf p (.str "u") v) ↔
        (Analysis.analyse p.directory (.str "u") p.project).answer v = .ok ()) := by
  have hbegins : ((begins message).answer (halfKnown "u")).toOption = some (true, some "u", true) :=
    by decide +kernel
  obtain ⟨o, u, p, v, ho, hnew, huser, hp, hsupported⟩ := stages_of_begins hbegins
  have hnumbered : (halfKnown "u").table.Numbered := ⟨by decide +kernel, by decide +kernel⟩
  obtain ⟨k, c, hproject, hc, -, -, y, hy, hid, hown, -, hiff⟩ :=
    (opened_registers hnumbered ho hnew huser).2 p v hp
  obtain rfl : 'u' = c := Option.some.inj hc
  refine ⟨o, u, p, v, ho, hnew, huser, hp, y, hy, hid ▸ hproject, hown, fun hstatus => ?_,
    fun hanalysed => ?_⟩
  · exact (hiff.1 ⟨hown, hstatus⟩).2.2
  · exact (hiff.2 ⟨rfl, hsupported, hanalysed⟩).2

/-- A user whose name is longer does not get the branch: it belongs to the first character of the
name. -/
theorem owner_cut_off : ∃ o u p v, (find message).ends (halfKnown "u1") = (.ok o, u) ∧
    o.known = none ∧ o.user = some "u1" ∧ o.prepare.ends u = (.ok p, v) ∧
    ∃ y ∈ ((opened message).after (halfKnown "u1")).table.rows, p.project = .number y.id ∧
      y.owner = "u" ∧ y.status ≠ some .error := by
  have hbegins : ((begins message).answer (halfKnown "u1")).toOption =
      some (true, some "u1", true) := by decide +kernel
  obtain ⟨o, u, p, v, ho, hnew, huser, hp, -⟩ := stages_of_begins hbegins
  have hnumbered : (halfKnown "u1").table.Numbered := ⟨by decide +kernel, by decide +kernel⟩
  obtain ⟨c, k, τ, r, hc, hproject, -, hready, htable⟩ := table_opened ho hnew hnumbered huser hp
  obtain rfl : 'u' = c := Option.some.inj hc
  obtain ⟨y, hy, rfl, -, hown⟩ := hready.row
  rw [htable]
  refine ⟨o, u, p, v, ho, hnew, huser, hp, _, mem_set_self hy rfl, hproject,
    Option.some.inj hown, fun he => statusOf_ne_error _ _ _ (Option.some.inj he)⟩

end CodeAtlas.PullRequest
