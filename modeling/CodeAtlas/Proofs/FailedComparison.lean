import CodeAtlas.Change.Impact
import CodeAtlas.Proofs.IntakeStages

/-!
# Comparisons that fail

When the branches of a project cannot be compared, the request is not refused: the entry points are
answered that the patches gathered so far reach. A comparison that does not come to its files has
gathered none, and then nothing is reached.

* `Impact.Opened.after_compare_of_fails`: a comparison that fails leaves the world as it is;
* `Impact.answer_reached_nil`: no patches reach nothing;
* `Impact.spares_reached`: following patches never ends in a refusal, since every step that can fail
  does so with a cause of its own;
* `Impact.failed_comparison_passed_over`: what is answered after a comparison that failed;
* `Impact.unknown_base_unnoticed`: a base branch that does not exist is not reported.
-/
namespace CodeAtlas

/-! ## The runs that follow patches -/

namespace GraphService
open Run

theorem spares_openSession : Spares openSession := by
  intro w
  rw [Run.answer, ends_openSession_any]
  unfold opened
  split <;> exact fun _ _ _ h => by cases h

theorem spares_send (q : GraphQuery) : Spares (send q) := by
  intro w
  rw [Run.answer, ends_send_any]
  unfold responded
  split
  · next t _ _ => exact fun _ _ _ h => by cases t <;> cases h
  · exact .ok ()

theorem spares_withCallers (id : Json) (p : ProjectKey) : Spares (withCallers id p) := by
  have hkeys : Spared (checkKeys p [id]) :=
    (Json.spared_checkKey _).bind fun _ => .forM Json.spared_checkKey _
  exact spares_openSession.bind fun _ =>
    ((spares_send _).bind fun _ => .lift hkeys).bind fun _ => Spares.get.bind fun w => .pure _

end GraphService

namespace BlastRadius
open Run

theorem spares_reached (p : ProjectKey) (ids : List Json) : Spares (reached ids p) :=
  (Spares.composes.gather fun id _ => GraphService.spares_withCallers id p).bind
    fun _ => .pure _

theorem spares_tops (ids : List Json) (p : ProjectKey) : Spares (tops ids p) := by
  refine (spares_reached p ids).bind fun found =>
    Spares.composes.filterMapM fun n _ => ?_
  have hshown : Spared n.shownId := by
    intro status detail headers h
    rw [GraphNode.shownId] at h
    split at h <;> cases h
  refine (Spares.lift hshown).bind fun id => Spares.bind ?_ fun top => .pure _
  exact (GraphService.spares_withCallers id p).bind fun _ => .pure _

theorem spares_shown? (p : ProjectKey) (id : Json) : Spares (shown? p id) := by
  have htext : Spared (Column.text id) := (Cell.spared_ofJson id).bind fun _ => .ok _
  have hcell : Spared p.cell := (Cell.spared_ofJson p.given).bind fun _ => .ok _
  refine (Spares.lift htext).bind fun name => (Spares.lift hcell).bind fun c =>
    Spares.bind ?_ fun e => .pure _
  exact Spares.get.bind fun w => .pure _

theorem spared_group (t : EndpointsByFile) (e : Json × Option String) : Spared (group t e) := by
  intro status detail headers h
  rw [group] at h
  split at h
  · split at h <;> cases h
  · cases h

theorem spares_endpoints (ids : List Json) (p : ProjectKey) : Spares (endpoints ids p) :=
  (spares_tops ids p).bind fun _ =>
    (Spares.composes.filterMapM fun id _ => spares_shown? p id).bind fun shown =>
      .lift (.foldlM spared_group shown [])

end BlastRadius

namespace Impact
open Run

variable {w v : World} {r : Request} {project : Project} {o : Opened} {base branch : Json}

theorem spares_orElse {α : Type} (usual : α) (r : Run α) : Spares (orElse usual r) := by
  intro w
  rw [answer, orElse, ends_bind_ok _ (ends_outcome r w)]
  cases (r.ends w).1 <;> exact .ok _

theorem spares_reached (source : Change.FileSource) (project : Project)
    (patches : List (String × Option String)) : Spares (reached source project patches) := by
  have hfollowed (changed : List String) : Spares (if changed.isEmpty then pure none
      else some <$> BlastRadius.endpoints (changed.map .str) (.number project.id)) := by
    split
    · exact .pure _
    · exact (BlastRadius.spares_endpoints _ _).bind fun _ => .pure _
  unfold reached
  cases project.directory with
  | none => exact (Spares.pure []).bind hfollowed
  | some d => exact (spares_orElse _ _).bind hfollowed

/-- No patches reach nothing. -/
theorem answer_reached_nil (source : Change.FileSource) (project : Project) (w : World) :
    (reached source project []).answer w = .ok none := by
  unfold reached
  cases project.directory with
  | none => rfl
  | some d => rfl

/-! ## After a failed comparison -/

def Opened.gathered (o : Opened) (base branch : Json) (v : World) : Gathered :=
  .ofOutcome ((o.compare base branch).answer v)

/-- A comparison fails: a branch or the comparison itself is unknown, its numbers cannot be added up, its
commits cannot be counted, or a file that differs cannot be read. -/
def Opened.Fails (o : Opened) (base branch : Json) (v : World) : Prop :=
  (o.gathered base branch v).cause ≠ none

/-- A comparison that changes the world, by a note, is a whole one. -/
def NotesWhole (r : Run Gathered) : Prop :=
  ∀ v, r.after v = v ∨ (Gathered.ofOutcome (r.answer v)).cause = none

theorem NotesWhole.bind {α : Type} {r : Run α} {f : α → Run Gathered} (hr : Keeps id r)
    (hf : ∀ a, NotesWhole (f a)) : NotesWhole (r >>= f) := by
  intro v
  have hv : (r.ends v).2 = v := hr v
  rw [after, answer, ends_bind, hv]
  cases (r.ends v).1 with
  | ok a => exact hf a v
  | error e => exact .inl rfl

theorem notesWhole_compare (o : Opened) (base branch : Json) : NotesWhole (o.compare base branch) := by
  cases o with
  | cloned folder =>
    refine .bind (Clone.keeps_inFolder _) fun clone => .bind (Keeps.lift _) fun old =>
      .bind (Keeps.lift _) fun new => .bind (Keeps.lift _) fun commits v => ?_
    rcases hfound : differences old new (differing old new) with ⟨found, _ | cause⟩
    · exact .inr rfl
    · exact .inl rfl
  | hosted repository name =>
    refine .bind (Keeps.lift _) fun c v => ?_
    cases Quantity.sum? (c.files.map ChangedFile.additions) with
    | none => exact .inl rfl
    | some additions =>
      cases Quantity.sum? (c.files.map ChangedFile.deletions) with
      | none => exact .inl rfl
      | some deletions => exact .inr rfl

/-- Between two branches that a clone has and whose commits it can count, the comparison fails if a file
that differs cannot be read. -/
theorem Opened.cause_cloned {folder : String} {clone : Clone} {old new : Table String ByteArray}
    {commits : Int} (hclone : (Clone.inFolder (.str folder)).answer v = .ok clone)
    (hold : clone.filesOf base = .ok old) (hnew : clone.filesOf branch = .ok new)
    (hcount : clone.commitCount (base.display ++ ".." ++ branch.display) = .ok commits) :
    ((Opened.cloned folder).gathered base branch v).cause =
      (differences old new (differing old new)).2 := by
  have hkeeps : Keeps id (Clone.inFolder (.str folder)) := Clone.keeps_inFolder _
  have hends : (Clone.inFolder (.str folder)).ends v = (.ok clone, v) := Prod.ext hclone (hkeeps v)
  rw [Opened.gathered, Opened.compare, clonedPatches, answer, ends_bind_ok _ hends, ends_bind_lift,
    hold]
  simp only
  rw [ends_bind_lift, hnew]
  simp only
  rw [ends_bind_lift, hcount]
  simp only
  rcases differences old new (differing old new) with ⟨found, _ | cause⟩ <;> rfl

theorem Opened.after_compare_of_fails (h : o.Fails base branch v) :
    (o.compare base branch).after v = v :=
  (notesWhole_compare o base branch v).resolve_right h

/-- **A failed comparison is not reported.** Where the project of a user was found and its repository
was opened, but the comparison fails, the request ends as if the patches gathered so far were all there
are. It is never refused, and if the comparison did not come to its files, nothing is found. -/
theorem failed_comparison_passed_over
    (hproject : (Registry.projectOf? r.project r.user).answer w = .ok (some project))
    (hopened : (openFor project r.user).ends w = (.ok o, v))
    (hfails : o.Fails r.base (Json.ofOption project.branch) v) :
    (run r).ends w =
      (reached o.source project (o.gathered r.base (Json.ofOption project.branch) v).patches).ends v ∧
    (∀ status detail headers, (run r).answer w ≠ .error (.refused status detail headers)) ∧
    (∀ e, (o.compare r.base (Json.ofOption project.branch)).answer v = .error e →
      (run r).answer w = .ok none) := by
  have hends : (run r).ends w = (reached o.source project
      (o.gathered r.base (Json.ofOption project.branch) v).patches).ends v := by
    have hkeeps : Keeps id (Registry.projectOf? r.project r.user) :=
      (Keeps.lift _).bind fun _ => (Keeps.lift _).bind fun _ => Keeps.look _
    have hfound : (Registry.projectOf? r.project r.user).ends w = (.ok (some project), w) :=
      Prod.ext hproject (hkeeps w)
    rw [run, ends_bind_ok _ hfound]
    simp only
    rw [ends_bind_ok _ hopened, ends_bind_ok _ (ends_outcome _ v)]
    exact congrArg _ (Opened.after_compare_of_fails hfails)
  refine ⟨hends, fun status detail headers => ?_, fun e he => ?_⟩
  · rw [answer, hends]
    exact spares_reached o.source project _ v status detail headers
  · rw [answer, hends, Opened.gathered, he]
    exact answer_reached_nil o.source project v

/-! ## A project on two branches -/

/-- A project of the default user, on the branch `dev`. -/
def onDev : Project :=
  { Project.sample 1 "u" with directory := some "/p", branch := some "dev" }

def baseFiles : Table String ByteArray := [("a.py", "x = 1".toUTF8), ("b.py", "y = 1".toUTF8)]

/-- The files of the branch, of which the second one is no text. -/
def tornFiles : Table String ByteArray := [("a.py", "x = 2".toUTF8), ("b.py", ⟨#[0xFF]⟩)]

/-- The project is cloned. -/
def torn : World :=
  { World.vacant with
    settings := [("defaultUsername", "u")]
    files := .named [] ["/p"]
    store := { Store.empty with projects := [onDev] }
    clones := [("/p",
      { heads := [("main", "s1"), ("dev", "s2")], head := "main", commits := []
        branchFiles := [("main", baseFiles), ("dev", tornFiles)]
        conflicts := [], unreadable := [] })] }

/-- A request to compare the branch of the project with another one. -/
def asked (base : String) : Request := ⟨.number 1, .str base, .str "u"⟩

theorem differing_torn : differing baseFiles tornFiles = ["a.py", "b.py"] := by
  have hsorted : (baseFiles.keys ++ tornFiles.keys).mergeSort (· ≤ ·) =
      ["a.py", "a.py", "b.py", "b.py"] := by
    simp [baseFiles, tornFiles, Table.keys, List.mergeSort]
  rw [differing, hsorted]
  decide +kernel

/-- The file that is no text makes the comparison fail after the other one was compared, and the request
goes on. -/
theorem torn_file_passed_over :
    (Opened.cloned "/p").Fails (.str "main") (.str "dev") ((openFor onDev (.str "u")).after torn) ∧
      ∀ status detail headers,
        (run (asked "main")).answer torn ≠ .error (.refused status detail headers) := by
  have hcause : (differences baseFiles tornFiles ["a.py", "b.py"]).2.isSome = true := by
    decide +kernel
  have hfails : (Opened.cloned "/p").Fails (.str "main") (.str "dev")
      ((openFor onDev (.str "u")).after torn) := by
    rw [Opened.Fails, Opened.cause_cloned rfl rfl rfl rfl, differing_torn]
    exact Option.isSome_iff_ne_none.1 hcause
  exact ⟨hfails, (failed_comparison_passed_over rfl (ends_of_answer rfl) hfails).2.1⟩

/-- A base branch that does not exist is not reported: nothing is found. -/
theorem unknown_base_unnoticed :
    (openFor onDev (.str "u")).answer torn = .ok (.cloned "/p") ∧
    ((Opened.cloned "/p").compare (.str "none") (.str "dev")).answer
      ((openFor onDev (.str "u")).after torn) = .error (.missingKey (.str "none")) ∧
    (run (asked "none")).answer torn = .ok none := ⟨rfl, rfl, rfl⟩

end Impact
end CodeAtlas
