import CodeAtlas.Proofs.IntakeStages

/-!
# The status of a project that was taken in

However a request ends, its project is not left half way. Once there is a row of the project, every
way out of the request sets its status: to ready if the analysis ended well, and to faulty if the
project could not be set up, is in a language that is not supported, or its analysis failed.

* `Intake.table_conclude`: the status of a project that was set up is the one its analysis has
  earned;
* `Intake.settled_early`, `Intake.settled_ready`, `Intake.settled_restored`: the three ways in which
  a request goes on after its project was looked up;
* `Intake.run_settled`: what every request leaves in the table of projects.
-/
namespace CodeAtlas.Intake
open Run ProjectTable Setup

variable {owner : Option String} {r : Request} {w v : World} {f : Found}

/-! ## Taking a project in -/

theorem FoundFor.mem (h : FoundFor r w owner f) {q : Project} (hq : f.known = some q) :
    q ∈ w.table.rows ∧ q.name = some f.request.projectName ∧ some q.owner = owner := by
  have hfind := h.known.symm.trans hq
  have hsome := List.find?_some hfind
  simp only [Bool.and_eq_true, decide_eq_true_eq] at hsome
  exact ⟨List.mem_of_find?_eq_some hfind, hsome⟩

theorem FoundFor.fits (h : FoundFor r w owner f) : f.wanted.Fits w.table owner := by
  unfold Request.Fits Found.wanted Found.key
  cases hq : f.known with
  | none => exact .inl rfl
  | some q =>
    obtain ⟨hmem, hname, hown⟩ := h.mem hq
    exact .inr ⟨q, hmem, rfl, hname, hown⟩

theorem FoundFor.readies (hw : w.table.Numbered) (h : FoundFor r w owner f) :
    Readies w.table f.wanted owner f.prepare := by
  have howner : Column.text f.wanted.user = .ok owner := h.user ▸ h.owned
  have hsetUp := readies_setUp hw h.fits howner f.source
  unfold Found.prepare
  split
  · exact hsetUp
  · exact Readies.bind (keeps_clear _ _ _) fun _ => hsetUp
  · exact Readies.bind (Keeps.lift _) fun _ => Readies.throw _

/-- The status that a project that was set up earns: it is ready if its language is supported and
its analysis ends well. -/
def resultOf (p : Prepared) (user : Json) (w : World) : ProjectStatus :=
  match p.isSupported, (Analysis.analyse p.directory user p.project).answer w with
  | true, .ok _ => .ready
  | _, _ => .error

theorem resultOf_cases (p : Prepared) (user : Json) (w : World) :
    some (resultOf p user w) = some .ready ∧ (p.isSupported = true ∧
        (Analysis.analyse p.directory user p.project).answer w = .ok ()) ∨
      some (resultOf p user w) = some .error ∧ ¬ (p.isSupported = true ∧
        (Analysis.analyse p.directory user p.project).answer w = .ok ()) := by
  unfold resultOf
  cases p.isSupported with
  | false => simp
  | true => cases (Analysis.analyse p.directory user p.project).answer w <;> simp

theorem after_fault {α : Type} (key : ProjectKey) (e : Failure) (w : World) :
    (fault key e : Run α).after w = (Registry.setStatus key .error).after w := by
  unfold fault
  rw [after_bind]
  cases (Registry.setStatus key .error).answer w <;> rfl

theorem table_analyse {k : Int} (hk : Cell.fits k = true) (directory : String) (user : Json)
    (w : World) : ((Analysis.analyse directory user (.number k)).after w).table = w.table := by
  have hkeeps := Analysis.keeps_analyse (Registry.cell_number hk) (by simp) directory user w
  have htable := congrArg World.table hkeeps
  exact htable

theorem after_conclude_error {p : Prepared} {e : Failure}
    (h : (analyse p f.request.user f.done).ends w = (.error e, v)) :
    (f.conclude (.ok p)).after w = (Registry.setStatus p.project .error).after v := by
  unfold Found.conclude
  rw [Run.after, ends_bind_ok _ (ends_outcome _ w), h]
  exact after_fault p.project e v

theorem after_conclude_ok {p : Prepared} {message : String}
    (h : (analyse p f.request.user f.done).ends w = (.ok message, v)) :
    (f.conclude (.ok p)).after w = v := by
  unfold Found.conclude
  rw [Run.after, ends_bind_ok _ (ends_outcome _ w), h]
  rfl

/-- A project that was set up ends in the status that its analysis has earned. -/
theorem table_conclude {k : Int} {p : Prepared} (hp : p.project = .number k)
    (hk : Cell.fits k = true) (hs : Store.projectsConsistent w.table.rows = true)
    (hro : w.table.readOnly = false) (f : Found) : ((f.conclude (.ok p)).after w).table =
      w.table.set k (Registry.stated (resultOf p f.request.user w)) := by
  -- in a world with the same table the status can be set
  have hset (st : ProjectStatus) {u : World} (hu : u.table = w.table) :
      ∃ v, (Registry.setStatus p.project st).ends u = (.ok (), v) ∧
        v.table = w.table.set k (Registry.stated st) := by
    rw [hp, ← hu]
    exact Registry.ends_setStatus hk (hu ▸ hs) (hu ▸ hro) st
  have htable := table_analyse hk p.directory f.request.user w
  rw [← hp] at htable
  unfold resultOf
  cases hsupported : p.isSupported with
  | false =>
    obtain ⟨v, hv, hv'⟩ := hset .error rfl
    have hends : (analyse p f.request.user f.done).ends w = (.ok unsupported, v) := by
      simp only [analyse, hsupported, Bool.false_eq_true, if_false, ends_bind_ok _ hv, ends_pure]
    rw [after_conclude_ok hends]
    exact hv'
  | true =>
    cases hanswer : (Analysis.analyse p.directory f.request.user p.project).answer w with
    | error e =>
      have hends : (analyse p f.request.user f.done).ends w =
          (.error e, (Analysis.analyse p.directory f.request.user p.project).after w) := by
        simp only [analyse, hsupported, if_true]
        exact ends_bind_error _ (Prod.ext hanswer rfl)
      obtain ⟨v, hv, hv'⟩ := hset .error htable
      rw [after_conclude_error hends, Run.after, hv, hv']
    | ok _ =>
      obtain ⟨v, hv, hv'⟩ := hset .ready htable
      have hends : (analyse p f.request.user f.done).ends w = (.ok f.done, v) := by
        simp only [analyse, hsupported, if_true]
        exact (ends_bind_ok _ (Prod.ext hanswer rfl)).trans (ends_bind_ok _ hv)
      rw [after_conclude_ok hends]
      exact hv'

/-- A project that is not deleted is set up and analysed. -/
theorem after_settle (hlive : ∀ q, f.known = some q → q.isDeleted ≠ some true)
    {x : Except Failure Prepared} (h : f.prepare.ends w = (x, v)) :
    f.settle.after w = (f.conclude x).after v := by
  have hnone : (f.known.filter fun q => q.isDeleted == some true) = none :=
    Option.filter_eq_none_iff.2 fun q hq => by simpa using hlive q hq
  unfold Found.settle
  rw [hnone, Run.after, ends_bind_ok _ (ends_outcome _ w), h]
  rfl

theorem table_restored {q : Project} (hq : f.known = some q) (hdeleted : q.isDeleted = some true)
    (hfits : Cell.fits q.id = true) (hs : Store.projectsConsistent w.table.rows = true)
    (howner : Column.text f.request.user = .ok (some q.owner)) :
    (f.settle.after w).table =
      if w.table.readOnly then w.table else w.table.set q.id (Registry.handed false q.owner) := by
  let marking := Registry.mark false (.number q.id) f.request.user
  have hrestore : ∃ message, (Registry.restore (.number q.id) f.request.user).ends w =
      (.ok message, marking.after w) := by
    unfold Registry.restore
    rw [ends_bind_ok _ (ends_outcome _ w)]
    match (marking.ends w).1 with
    | .ok true => exact ⟨_, rfl⟩
    | .ok false => exact ⟨_, rfl⟩
    | .error e => exact ⟨_, rfl⟩
  obtain ⟨message, hrestore⟩ := hrestore
  have hafter : f.settle.after w = marking.after w := by
    simp only [Found.settle, hq, Option.filter, hdeleted, beq_self_eq_true, if_true, Found.restore]
    rw [Run.after, ends_bind_ok _ (ends_outcome _ w), hrestore]
    rfl
  rw [hafter]
  exact Registry.table_change (Registry.settles_handed_of_text false howner) hfits hs

/-! ## What a request leaves in the table -/

/-- A row is registered by a request, or analysed again: it is new, or it is the row that was found
and that is not deleted. -/
def Found.Takes (f : Found) (σ : ProjectTable) (y : Project) : Prop :=
  (∀ x ∈ σ.rows, x.id ≠ y.id) ∨ ∃ q, f.known = some q ∧ q.isDeleted ≠ some true ∧ q.id = y.id

def Found.Analysed (f : Found) (w : World) (k : Int) : Prop :=
  ∃ p v, f.prepare.ends w = (.ok p, v) ∧ p.project = .number k ∧ p.isSupported = true ∧
    (Analysis.analyse p.directory f.request.user p.project).answer v = .ok ()

/-- What a request leaves of a table `σ`, from the world `w` in which its project was found. -/
structure Settled (f : Found) (owner : Option String) (w : World) (σ τ : ProjectTable) : Prop where
  /-- The rules of the table hold. -/
  consistent : Store.projectsConsistent τ.rows = true
  /-- A store that takes no changes is left as it was. -/
  refused : σ.readOnly = true → τ = σ
  /-- All rows but the one that was found are left as they were. -/
  others : ∀ x ∈ σ.rows, f.known ≠ some x → x ∈ τ.rows
  /-- What is changed or new is the project of the user with the name that was asked for. -/
  own : ∀ y ∈ τ.rows, y ∉ σ.rows → y.name = some f.request.projectName ∧ some y.owner = owner
  /-- The row that was found is still there. -/
  there : ∀ q, f.known = some q → ∃ y ∈ τ.rows, y.id = q.id
  /-- A row that was registered or analysed again is ready if and only if its analysis ended well,
  and is marked as faulty otherwise. -/
  status : σ.readOnly = false → ∀ y ∈ τ.rows, f.Takes σ y →
    y.status = some .ready ∧ f.Analysed w y.id ∨ y.status = some .error ∧ ¬ f.Analysed w y.id
  /-- A project that was set up has a row. -/
  registered : ∀ p v, (∀ q, f.known = some q → q.isDeleted ≠ some true) →
    f.prepare.ends w = (.ok p, v) → ∃ y ∈ τ.rows, p.project = .number y.id ∧ f.Takes σ y
  /-- A deleted project is restored, and keeps its status. -/
  restored : σ.readOnly = false → ∀ q, f.known = some q → q.isDeleted = some true →
    Registry.handed false q.owner q ∈ τ.rows

section
variable {σ τ : ProjectTable}

/-- The row that a request is about: the one that was found, or a new one. -/
def Found.Row (f : Found) (σ : ProjectTable) (k : Int) : Prop :=
  (∃ q ∈ σ.rows, f.known = some q ∧ q.id = k) ∨ f.known = none ∧ ∀ x ∈ σ.rows, x.id ≠ k

theorem Found.Row.ne {k : Int} (h : f.Row σ k) (hσ : Store.projectsConsistent σ.rows = true)
    {x : Project} (hx : x ∈ σ.rows) (hne : f.known ≠ some x) : x.id ≠ k := by
  rcases h with ⟨q, hq, hknown, rfl⟩ | ⟨-, hnew⟩
  · exact fun hid => hne (hknown.trans (congrArg some (eq_of_id hσ hq hx hid.symm)))
  · exact hnew x hx

theorem Found.Row.of_takes {k : Int} (h : f.Row σ k) (hapart : Apart k σ τ) {y : Project}
    (hy : y ∈ τ.rows) (htakes : f.Takes σ y) : y.id = k := by
  rcases htakes with hnew | ⟨q, hq, -, hid⟩
  · by_contra hne
    exact hnew y ((hapart.others y hne).1 hy) rfl
  · rcases h with ⟨q', -, hq', rfl⟩ | ⟨hnone, -⟩
    · rw [hq] at hq'
      cases hq'
      exact hid.symm
    · rw [hq] at hnone
      cases hnone

theorem Found.Row.takes {k : Int} (h : f.Row σ k) {y : Project} (hid : y.id = k) :
    f.Takes σ y ↔ ∀ q, f.known = some q → q.isDeleted ≠ some true := by
  subst hid
  rcases h with ⟨q, hmem, hq, hid⟩ | ⟨hnone, hnew⟩
  · constructor
    · rintro (hnew | ⟨q', hq', hlive, -⟩) q'' hq''
      · exact absurd hid (hnew q hmem)
      · rw [hq'] at hq''
        cases hq''
        exact hlive
    · exact fun hlive => .inr ⟨q, hq, hlive q hq, hid⟩
  · exact ⟨fun _ q hq => (nomatch hnone.symm.trans hq), fun _ => .inl hnew⟩

/-- The table is as it was: the store takes no changes, or a new project could not be set up. -/
theorem settled_same (hσ : σ.Numbered) (hready : Readies σ f.wanted owner f.prepare)
    (hw : w.table = σ)
    (h : σ.readOnly = true ∨ f.known = none ∧ ∃ e v, f.prepare.ends w = (.error e, v))
    (hmem : ∀ q, f.known = some q → q ∈ σ.rows) : Settled f owner w σ σ where
  consistent := hσ.consistent
  refused _ := rfl
  others _ hx _ := hx
  own y hy hnot := absurd hy hnot
  there q hq := ⟨q, hmem q hq, rfl⟩
  status hro y hy htakes := by
    rcases h with h | ⟨hnone, -⟩
    · rw [hro] at h
      cases h
    · rcases htakes with hnew | ⟨q, hq, -⟩
      · exact absurd rfl (hnew y hy)
      · rw [hnone] at hq
        cases hq
  registered p v _ hp := by
    rcases h with h | ⟨-, e, u, he⟩
    · obtain ⟨k, -, hk⟩ := hready.ready w p v hw hp
      rw [hk.writable] at h
      cases h
    · rw [he] at hp
      cases hp
  restored hro q hq _ := by
    rcases h with h | ⟨hnone, -⟩
    · rw [hro] at h
      cases h
    · rw [hnone] at hq
      cases hq

/-- One row was changed, or is new. -/
theorem settled_row {k : Int} (hσ : σ.Numbered) (hro : σ.readOnly = false) (hrow : f.Row σ k)
    (hapart : Apart k σ τ) {y : Project} (hy : y ∈ τ.rows) (hid : y.id = k)
    (hname : y.name = some f.request.projectName) (hown : some y.owner = owner)
    (hstatus : (∀ q, f.known = some q → q.isDeleted ≠ some true) →
      y.status = some .ready ∧ f.Analysed w k ∨ y.status = some .error ∧ ¬ f.Analysed w k)
    (hregistered : (∀ q, f.known = some q → q.isDeleted ≠ some true) →
      ∀ p v, f.prepare.ends w = (.ok p, v) → p.project = .number k)
    (hrestored : ∀ q, f.known = some q → q.isDeleted = some true →
      y = Registry.handed false q.owner q) : Settled f owner w σ τ where
  consistent := hapart.consistent
  refused h := by
    rw [hro] at h
    cases h
  others x hx hne := (hapart.others x (hrow.ne hσ.consistent hx hne)).2 hx
  own x hx hnot := by
    have hxk : x.id = k := by
      by_contra hne
      exact hnot ((hapart.others x hne).1 hx)
    rw [eq_of_id hapart.consistent hx hy (hxk.trans hid.symm)]
    exact ⟨hname, hown⟩
  there q hq := by
    rcases hrow with ⟨q', -, hq', rfl⟩ | ⟨hnone, -⟩
    · rw [hq] at hq'
      cases hq'
      exact ⟨y, hy, hid⟩
    · rw [hq] at hnone
      cases hnone
  status _ x hx htakes := by
    have hxk := hrow.of_takes hapart hx htakes
    obtain rfl := eq_of_id hapart.consistent hx hy (hxk.trans hid.symm)
    rw [hid]
    exact hstatus ((hrow.takes hid).1 htakes)
  registered p v hlive hp := ⟨y, hy, hid ▸ hregistered hlive p v hp, (hrow.takes hid).2 hlive⟩
  restored _ q hq hdeleted := hrestored q hq hdeleted ▸ hy

end

section
variable {u : World}

theorem FoundFor.row (h : FoundFor r w owner f) {q : Project} (hq : f.known = some q) :
    f.Row w.table q.id :=
  .inl ⟨q, (h.mem hq).1, hq, rfl⟩

theorem FoundFor.row_of_readied (h : FoundFor r w owner f) {k : Int} {τ : ProjectTable}
    (hk : Readied w.table f.wanted owner k τ) : f.Row w.table k := by
  have hkey : f.wanted.project = f.key := rfl
  have hknown := hk.known
  rw [hkey] at hknown
  unfold Found.key at hknown
  cases hq : f.known with
  | none =>
    rw [hq] at hknown
    rcases hknown with hsame | ⟨-, hnew⟩
    · cases hsame
    · exact .inr ⟨hq, hnew⟩
  | some q =>
    rw [hq] at hknown
    rcases hknown with hsame | ⟨hnull, -⟩
    · cases hsame
      exact h.row hq
    · cases hnull

/-- The row of a known project was changed, if the store takes changes. -/
theorem settled_set (hw : w.table.Numbered) (h : FoundFor r w owner f) (hu : u.table = w.table)
    {q : Project} (hq : f.known = some q) {g : Project → Project}
    (hkeeps : ∀ x, (g x).id = x.id ∧ (g x).directory = x.directory)
    (hname : (g q).name = q.name) (hown : (g q).owner = q.owner)
    (hstatus : q.isDeleted ≠ some true → (g q).status = some .error ∧
      ∃ e v, f.prepare.ends u = (.error e, v))
    (hrestored : q.isDeleted = some true → g q = Registry.handed false q.owner q) :
    Settled f owner u w.table (if w.table.readOnly then w.table else w.table.set q.id g) := by
  obtain ⟨hmem, hqname, hqown⟩ := h.mem hq
  cases hro : w.table.readOnly with
  | true =>
    rw [if_pos rfl]
    exact settled_same hw (h.readies hw) hu (.inl hro) fun q hq => (h.mem hq).1
  | false =>
    rw [if_neg Bool.false_ne_true]
    refine settled_row hw hro (h.row hq) (apart_set hw.consistent hkeeps) (mem_set_self hmem rfl)
      (hkeeps q).1 (hname.trans hqname) (hown ▸ hqown) (fun hlive => ?_) (fun hlive p v hp => ?_)
      fun q' hq' => ?_
    · obtain ⟨hstated, e, v, he⟩ := hstatus (hlive q hq)
      refine .inr ⟨hstated, ?_⟩
      rintro ⟨p, v', hp, -⟩
      rw [he] at hp
      cases hp
    · obtain ⟨-, e, v', he⟩ := hstatus (hlive q hq)
      rw [he] at hp
      cases hp
    · rw [hq] at hq'
      cases hq'
      exact hrestored

/-- A project that could not be set up is marked as faulty, if there is one. -/
theorem settled_early (hw : w.table.Numbered) (h : FoundFor r w owner f) (hu : u.table = w.table)
    (hlive : ∀ q, f.known = some q → q.isDeleted ≠ some true) {e : Failure} {v : World}
    (he : f.prepare.ends u = (.error e, v)) :
    Settled f owner u w.table (f.settle.after u).table := by
  have hready := h.readies hw
  have hv : v.table = w.table := hready.early u e v hu he
  have hsettle : f.settle.after u = (Registry.setStatus f.key .error).after v :=
    (after_settle hlive he).trans (after_fault _ _ v)
  have hstatus : ((Registry.setStatus f.key .error).after v) =
      (Registry.change f.key [("status", .str ProjectStatus.error.text)]).after v :=
    after_bind_pure _ _ v
  rw [hsettle, hstatus]
  have hsettles := Registry.settles_stated .error
  cases hq : f.known with
  | none =>
    have hkey : f.key = ⟨.null⟩ := by simp [Found.key, hq]
    rw [hkey, Registry.table_change_null hsettles (hv ▸ hw.consistent), hv]
    exact settled_same hw hready hu (.inr ⟨hq, e, v, he⟩) fun q hq' => by
      rw [hq] at hq'
      cases hq'
  | some q =>
    have hkey : f.key = .number q.id := by simp [Found.key, hq]
    rw [hkey, Registry.table_change hsettles (hw.fits (h.mem hq).1) (hv ▸ hw.consistent), hv]
    exact settled_set hw h hu hq hsettles.keeps rfl rfl (fun _ => ⟨rfl, e, v, he⟩)
      fun hdeleted => absurd hdeleted (hlive q hq)

/-- A project that was set up ends in the status that its analysis has earned. -/
theorem settled_ready (hw : w.table.Numbered) (h : FoundFor r w owner f) (hu : u.table = w.table)
    (hlive : ∀ q, f.known = some q → q.isDeleted ≠ some true) {p : Prepared} {v : World}
    (hp : f.prepare.ends u = (.ok p, v)) :
    Settled f owner u w.table (f.settle.after u).table := by
  obtain ⟨k, hk, hready⟩ := (h.readies hw).ready u p v hu hp
  obtain ⟨y, hy, hid, hname, hown⟩ := hready.row
  have hkeeps := (Registry.settles_stated (resultOf p f.request.user v)).keeps
  rw [after_settle hlive hp, table_conclude hk hready.fits hready.apart.consistent
    (hready.apart.readOnly.trans hready.writable)]
  refine settled_row hw hready.writable (h.row_of_readied hready)
    (hready.apart.trans (apart_set hready.apart.consistent hkeeps)) (mem_set_self hy hid) hid hname
    hown (fun _ => ?_) (fun _ p' v' hp' => ?_) fun q hq hdeleted => absurd hdeleted (hlive q hq)
  · have hiff : f.Analysed u k ↔ p.isSupported = true ∧
        (Analysis.analyse p.directory f.request.user p.project).answer v = .ok () := by
      constructor
      · rintro ⟨p', v', hp', -, hresult⟩
        rw [hp] at hp'
        cases hp'
        exact hresult
      · exact fun hresult => ⟨p, v, hp, hk, hresult⟩
    rw [hiff]
    exact resultOf_cases p f.request.user v
  · rw [hp] at hp'
    cases hp'
    exact hk

theorem settled_restored (hw : w.table.Numbered) (h : FoundFor r w owner f)
    (hu : u.table = w.table) {q : Project} (hq : f.known = some q)
    (hdeleted : q.isDeleted = some true) : Settled f owner u w.table (f.settle.after u).table := by
  obtain ⟨hmem, -, hown⟩ := h.mem hq
  have howner : Column.text f.request.user = .ok (some q.owner) := by
    rw [h.user, h.owned, hown]
  have hsettles := Registry.settles_handed_of_text false howner
  rw [table_restored hq hdeleted (hw.fits hmem) (hu ▸ hw.consistent) howner, hu]
  exact settled_set hw h hu hq hsettles.keeps rfl rfl (fun hlive => absurd hdeleted hlive)
    fun _ => rfl

end

theorem keeps_report (r : Request) (f : Found) (outcome : Outcome) :
    Keeps World.table (f.report r outcome) :=
  (Keeps.lift _).bind fun _ => Keeps.bind (Keeps.modify fun _ => rfl) fun _ => Keeps.pure _

/-- **No project is left half way**: a request that fails before its project is looked up leaves the
table of projects as it was. From there on, however the request ends, the table is settled: a
project that was registered or analysed again is ready if and only if its analysis ended well and is
marked as faulty otherwise, and no other row is changed. -/
theorem run_settled (hw : w.table.Numbered) :
    (∀ e u, (find r).ends w = (.error e, u) →
      (run r).answer w = .error e ∧ ((run r).after w).table = w.table) ∧
    ∀ f u, (find r).ends w = (.ok f, u) → (run r).ends w = (f.settle >>= f.report r).ends u ∧
      ∃ owner, FoundFor r w owner f ∧ Settled f owner u w.table ((run r).after w).table := by
  unfold run
  refine ⟨fun e u h => ?_, fun f u h => ?_⟩
  · have hu : u.table = w.table := by
      have := keeps_find r w
      rwa [h] at this
    rw [Run.answer, Run.after, ends_bind_error _ h]
    exact ⟨rfl, hu⟩
  · obtain ⟨hu, owner, hfound⟩ := foundFor_of_ends h
    have hends := ends_bind_ok (fun f => f.settle >>= f.report r) h
    refine ⟨hends, owner, hfound, ?_⟩
    have hreport : ((f.settle >>= f.report r).after u).table = (f.settle.after u).table := by
      rw [after_bind]
      cases f.settle.answer u with
      | error e => rfl
      | ok outcome => exact keeps_report r f outcome _
    rw [Run.after, hends]
    refine hreport ▸ ?_
    by_cases hlive : ∀ q, f.known = some q → q.isDeleted ≠ some true
    · cases hp : f.prepare.ends u with
      | mk x v =>
        cases x with
        | error e => exact settled_early hw hfound hu hlive hp
        | ok p => exact settled_ready hw hfound hu hlive hp
    · obtain ⟨q, hq, hdeleted⟩ : ∃ q, f.known = some q ∧ q.isDeleted = some true := by
        simpa using hlive
      exact settled_restored hw hfound hu hq hdeleted

/-- A project whose analysis has not ended. -/
def begun (id : Int) (owner : String) : Project :=
  { Project.sample id owner with
    name := some "r-main", repository := some "None/r", status := some .created }

/-- A branch that was registered for two users, and whose analysis has not ended for either. -/
def halfWay : World :=
  { World.vacant with
    settings := [("isDevelopmentMode", "enabled"), ("PROJECT_PATH", "/projects")]
    files := .named [("/home/r/m.py", "x = 1\n".toUTF8)] []
    clones := [("/home/r", ⟨[("main", "c1")], "main", [], [], [], []⟩)]
    deletesJoined := true
    store := { Store.empty with projects := [begun 1 "v", begun 2 "u"] } }

def askedAgain : Request := ⟨none, some "/home/r", "main", .str "u"⟩

theorem begun_again_settled : halfWay.table.Numbered ∧
    begun 1 "v" ∈ ((run askedAgain).after halfWay).table.rows ∧
    ∃ y ∈ ((run askedAgain).after halfWay).table.rows, y.id = 2 ∧
      (y.status = some .ready ∨ y.status = some .error) := by
  have hnumbered : halfWay.table.Numbered := ⟨by decide +kernel, by decide +kernel⟩
  cases hfind : (find askedAgain).ends halfWay with
  | mk x u =>
    cases x with
    | error e =>
      have hok : ((find askedAgain).answer halfWay).toOption.isSome = true := by decide +kernel
      rw [Run.answer, hfind] at hok
      cases hok
    | ok f =>
      obtain ⟨-, owner, hfound, hsettled⟩ := (run_settled hnumbered).2 f u hfind
      have hname : askedAgain.projectName = .ok "r-main" := eq_ok_of_toOption (by decide +kernel)
      have hknown : f.known = some (begun 2 "u") := by
        rw [hfound.known, Except.ok.inj (hfound.name.symm.trans hname),
          Except.ok.inj (hfound.owned.symm.trans rfl : Except.ok owner = .ok (some "u"))]
        decide +kernel
      obtain ⟨y, hy, hid⟩ := hsettled.there _ hknown
      have htakes : f.Takes halfWay.table y := .inr ⟨_, hknown, by decide, hid.symm⟩
      refine ⟨hnumbered, hsettled.others _ List.mem_cons_self ?_, y, hy, hid, ?_⟩
      · rw [hknown]
        decide
      · exact (hsettled.status rfl y hy htakes).imp And.left And.left

end CodeAtlas.Intake
