import CodeAtlas.Plan.Explanation
import CodeAtlas.Proofs.IntakeStages
import CodeAtlas.Proofs.RecordedCode
import Mathlib.Tactic.SplitIfs

/-!
# Explanations that are kept

An explanation is looked up by the function and the hash of its code, whatever the project. The row
that is found first decides: its project is answered from it, for another one a row is added. So the
project of that row can ask as often as it likes, and every other one only as long as it has no row.

* `CodeSource.settled_code`: code that was read is read again as it was;
* `Store.createExplanation_eq`: when the store takes a row;
* `Explaining.Call.serves`: what a call does, whatever it is about;
* `Explaining.known_step`, `Explaining.known_run`: calls about code that is known;
* `Explaining.mem_projects_afterAll`: the projects with a row are those that were answered;
* `Explaining.explained_again_iff`: when calls about the same code are answered;
* `Explaining.copies_refused`: a project that was not the first one is refused when it asks again.
-/
namespace CodeAtlas

/-! ## Reading code again -/

def Clone.bare (c : Clone) : Clone := { c with head := "" }

/-- What the code of functions is read from. -/
structure Ground where
  settings : Table String String
  files : FileTree
  hosted : Table String HostedRepository
  projects : List Project
  clones : Table String Clone

def World.ground (w : World) : Ground :=
  ⟨w.settings, w.files, w.hosted, w.store.projects, w.clones.map fun c => (c.1, c.2.bare)⟩

namespace Clone

theorem checkout_bare (c : Clone) (branch : Json) :
    c.bare.checkout branch = c.checkout branch := rfl

theorem bare_of_checkout {c d : Clone} {branch : Json} (h : c.checkout branch = .ok d) :
    d.bare = c.bare := by
  obtain ⟨_, -, h⟩ := Run.bind_eq_ok h
  split at h
  · split at h
    · cases h
    · cases h
      rfl
  · cases h

theorem ends_checkoutAt (path : String) (branch : Json) (w : World) :
    (checkoutAt path branch).ends w = match Table.get? w.clones path with
      | none => (.error (.notRepository (Json.str path).display), w)
      | some c => match c.checkout branch with
        | .error e => (.error e, { w with log := w.log ++ [.checkedOut branch] })
        | .ok d => (.ok d, { w with
            log := w.log ++ [.checkedOut branch], clones := Table.set w.clones path d }) := by
  have hfolder : (inFolder (.str path)).ends w = match Table.get? w.clones path with
      | none => (.error (.notRepository (Json.str path).display), w)
      | some c => (.ok c, w) := by
    have hfind : Json.find? w.clones (.str path) = .ok (Table.get? w.clones path) := rfl
    unfold inFolder
    rw [Run.ends_bind_ok _ (Run.ends_get w), Run.ends_bind_lift, hfind]
    cases Table.get? w.clones path <;> rfl
  unfold checkoutAt
  cases hc : Table.get? w.clones path with
  | none => rw [Run.ends_bind_error _ (hfolder.trans (by rw [hc]))]
  | some c =>
    rw [Run.ends_bind_ok _ (hfolder.trans (by rw [hc])), Run.ends_bind_ok _ (Run.ends_note _ w),
      Run.ends_bind_lift]
    dsimp only
    cases c.checkout branch <;> rfl

end Clone

namespace CodeSource
open Run

variable (g : Ground)

def On (w : World) : Prop := w.ground = g

theorem settled_checkoutAt (path : String) (branch : Json) :
    Settled (On g) (Clone.checkoutAt path branch) := by
  refine ⟨match Table.get? g.clones path with
    | none => .error (.notRepository (Json.str path).display)
    | some c => c.checkout branch, fun w hw => ?_⟩
  obtain rfl : w.ground = g := hw
  have hget : Table.get? w.ground.clones path = (Table.get? w.clones path).map Clone.bare :=
    Table.get?_map Clone.bare w.clones path
  rw [Clone.ends_checkoutAt, hget]
  cases hc : Table.get? w.clones path with
  | none => exact ⟨rfl, rfl⟩
  | some c =>
    simp only [Option.map_some, Clone.checkout_bare]
    cases hd : c.checkout branch with
    | error e => exact ⟨rfl, rfl⟩
    | ok d =>
      refine ⟨rfl, ?_⟩
      have hclones := Table.map_set hc (Clone.bare_of_checkout hd)
      simp only [On, World.ground, hclones]

theorem settled_projectOf (l : Code.Location) : Settled (On g) (Code.projectOf l) := by
  unfold Code.projectOf Run.look
  refine (Settled.lift _).bind fun key => Settled.bind ?_ fun found => ?_
  · refine Settled.getBind (fun w v hw hv => ?_) fun w _ => Settled.pure _
    have hprojects : w.store.projects = v.store.projects :=
      congrArg Ground.projects (hw.trans hv.symm)
    simp [Store.project?, hprojects]
  · split
    · exact Settled.pure _
    · exact Settled.throw _

theorem settled_installed (name : Json) : Settled (On g) (Hosting.installedRepository name) := by
  have hhosted {w v : World} (hw : On g w) (hv : On g v) : w.hosted = v.hosted :=
    congrArg Ground.hosted (hw.trans hv.symm)
  unfold Hosting.installedRepository Hosting.isInstalled Hosting.repository
  refine Settled.bind ?_ fun yes => ?_
  · refine (Settled.lift _).bind fun pair => Settled.getBind (fun w v hw hv => ?_) fun w _ =>
      Settled.pure _
    rw [hhosted hw hv]
  · split
    · refine Settled.getBind (fun w v hw hv => by rw [hhosted hw hv]) fun w _ => ?_
      refine (Settled.lift _).bind fun found => ?_
      split
      · split
        · exact Settled.throw _
        · exact Settled.pure _
      · exact Settled.throw _
    · exact Settled.throw _

theorem settled_readHosted (node : List (String × Json)) :
    Settled (On g) (Code.readHosted node) := by
  unfold Code.readHosted
  refine (Settled.lift _).bind fun l => (settled_projectOf g l).bind fun p => ?_
  split
  · refine (settled_installed g _).bind fun r => (Settled.lift _).bind fun text => ?_
    exact (Settled.lift _).bind fun rows => Settled.pure _
  · exact Settled.throw _

theorem settled_readCloned (node : List (String × Json)) :
    Settled (On g) (Code.readCloned node) := by
  unfold Code.readCloned
  refine (Settled.lift _).bind fun l => (settled_projectOf g l).bind fun p => ?_
  refine Settled.bind ?_ fun user => ?_
  · refine Settled.getBind (fun w v hw hv => ?_) fun w _ => Settled.pure _
    rw [show w.settings = v.settings from congrArg Ground.settings (hw.trans hv.symm)]
  · split
    · refine (settled_checkoutAt g _ _).bind fun _ => ?_
      refine Settled.getBind (fun w v hw hv => ?_) fun w _ => ?_
      · rw [show w.files = v.files from congrArg Ground.files (hw.trans hv.symm)]
      · exact (Settled.lift _).bind fun text => (Settled.lift _).bind fun rows => Settled.pure _
    · exact Settled.throw _

/-- Reading code gives the same again. -/
theorem settled_code (source : CodeSource) (node : List (String × Json)) :
    Settled (On g) (source.code node) := by
  have hcode : Settled (On g) (source.code? node) := by
    cases source with
    | hosted => exact (settled_readHosted g node).outcome.bind fun _ => Settled.pure _
    | cloned => exact (settled_readCloned g node).outcome.bind fun _ => Settled.pure _
  refine hcode.bind fun found => ?_
  cases found with
  | some c => exact Settled.pure _
  | none => exact Settled.throw _

end CodeSource

/-- What explanations are kept in and asked for. -/
def World.memory (w : World) : Store × List String := (w.store, w.replies)

namespace CodeSource
open Run

variable {γ : Type} {part : World → γ}

theorem keeps_projectOf (l : Code.Location) : Keeps part (Code.projectOf l) := by
  refine (Keeps.lift _).bind fun key => (Keeps.look _).bind fun found => ?_
  split
  · exact Keeps.pure _
  · exact Keeps.throw _

theorem keeps_code (hpart : ∀ w log clones, part { w with log, clones } = part w)
    (source : CodeSource) (node : List (String × Json)) : Keeps part (source.code node) := by
  have hcode : Keeps part (source.code? node) := by
    cases source with
    | hosted =>
      refine Keeps.bind (Keeps.outcome ?_) fun _ => Keeps.pure _
      refine (Keeps.lift _).bind fun l => (keeps_projectOf l).bind fun p => ?_
      split
      · refine Keeps.bind (fun w => congrArg part (Code.keeps_installedRepository _ w))
          fun r => (Keeps.lift _).bind fun text => (Keeps.lift _).bind fun rows => Keeps.pure _
      · exact Keeps.throw _
    | cloned =>
      refine Keeps.bind (Keeps.outcome ?_) fun _ => Keeps.pure _
      refine (Keeps.lift _).bind fun l => (keeps_projectOf l).bind fun p =>
        (Keeps.setting? _).bind fun user => ?_
      split
      · refine (Clone.keeps_checkoutAt hpart _ _).bind fun _ => Keeps.get.bind fun w => ?_
        exact (Keeps.lift _).bind fun text => (Keeps.lift _).bind fun rows => Keeps.pure _
      · exact Keeps.throw _
  refine hcode.bind fun found => ?_
  cases found with
  | some c => exact Keeps.pure _
  | none => exact Keeps.throw _

theorem store_code (source : CodeSource) (node : List (String × Json)) (w : World) :
    ((source.code node).after w).store = w.store :=
  (keeps_code (fun _ _ _ => rfl) source node : Keeps World.store _) w

theorem ground_code (source : CodeSource) (node : List (String × Json)) (w : World) :
    ((source.code node).after w).ground = w.ground := by
  obtain ⟨x, hx⟩ := settled_code w.ground source node
  exact (hx w rfl).2

end CodeSource

/-! ## The table of explanations -/

namespace Store

theorem lt_nextNumber {n : Int} {ns : List Int} (h : n ∈ ns) : n < nextNumber ns := by
  cases ns with
  | nil => cases h
  | cons m ns =>
    obtain ⟨hle, hall, -⟩ := le_foldl_max ns m
    rw [nextNumber]
    rcases List.mem_cons.1 h with rfl | hn
    · omega
    · have := hall n hn
      omega

theorem insertBy_last {ρ : Type} {number : ρ → Int} {row : ρ} {rows : List ρ}
    (h : ∀ r ∈ rows, number r < number row) : insertBy number row rows = rows ++ [row] := by
  induction rows with
  | nil => rfl
  | cons r rows ih =>
    rw [List.forall_mem_cons] at h
    rw [insertBy, if_neg (by omega), ih h.2, List.cons_append]

/-- The values of the row of an explanation. -/
def draft (identifier hash text : String) (n : Int) : Json :=
  .obj [("identifier", .str identifier), ("hash", .str hash), ("explanation", .str text),
    ("project_id", .int n)]

def newRow (s : Store) (identifier hash text : String) (n : Int) : Explanation :=
  ⟨s.nextExplanation, identifier, hash, text, .number n⟩

theorem addExplanation_newRow (s : Store) (identifier hash text : String) (n : Int) :
    s.addExplanation (s.newRow identifier hash text n) =
      if s.readOnly then .error .storeRefused
      else if explanationsConsistent (s.explanations ++ [s.newRow identifier hash text n]) then
        .ok { s with explanations := s.explanations ++ [s.newRow identifier hash text n] }
      else .error .constraintBroken := by
  have hlast : insertBy Explanation.id (s.newRow identifier hash text n) s.explanations =
      s.explanations ++ [s.newRow identifier hash text n] :=
    insertBy_last fun r hr => lt_nextNumber (List.mem_map_of_mem hr)
  unfold addExplanation settle
  rw [hlast]
  split
  · rfl
  · split <;> rfl

theorem createExplanation_eq (s : Store) (identifier hash text : String) (n : Int) :
    s.createExplanation (draft identifier hash text n) =
      if Cell.fits n = false then .error Cell.tooLarge
      else if s.readOnly then .error .storeRefused
      else if explanationsConsistent (s.explanations ++ [s.newRow identifier hash text n]) then
        .ok (s.newRow identifier hash text n,
          { s with explanations := s.explanations ++ [s.newRow identifier hash text n] })
      else .error .constraintBroken := by
  have hnumber : Cell.ofJson (.int n) =
      if Cell.fits n then .ok (.number n) else .error Cell.tooLarge := rfl
  have hnew : Column.ofNew Explanation.columns (draft identifier hash text n) =
      (do ColumnKind.number.handOver (.int n); .ok ()) := rfl
  have hrow : Explanation.ofColumns s.nextExplanation (draft identifier hash text n) = (do
      let p ← Column.number (.int n)
      return (⟨s.nextExplanation, identifier, hash, text, p⟩ : Explanation)) := rfl
  unfold createExplanation
  rw [hnew, hrow, ColumnKind.handOver, Column.number, hnumber]
  cases Cell.fits n with
  | false => rfl
  | true =>
    change (s.writable >>= fun _ => s.addExplanation (s.newRow identifier hash text n) >>= fun t =>
      .ok (s.newRow identifier hash text n, t)) = _
    rw [addExplanation_newRow, writable, if_neg (Bool.noConfusion : ¬ true = false)]
    split_ifs <;> rfl

end Store

namespace Explaining
open Run

def kept (rows : List Explanation) (identifier hash : String) : List Explanation :=
  rows.filter fun e => e.identifier = identifier && e.hash = hash

def projects (rows : List Explanation) (identifier hash : String) : List Cell :=
  (kept rows identifier hash).map Explanation.project

/-- The tables that calls lead to: the rules hold, rows belong to numbered projects, and the same
code of a function has one explanation. -/
structure Sound (rows : List Explanation) : Prop where
  consistent : Store.explanationsConsistent rows = true
  numbered : ∀ e ∈ rows, ∃ n, e.project = .number n
  alike : ∀ e ∈ rows, ∀ f ∈ rows, e.identifier = f.identifier → e.hash = f.hash →
    e.explanation = f.explanation

section
variable {rows : List Explanation} {row e : Explanation} {identifier hash : String}

theorem mem_kept : e ∈ kept rows identifier hash ↔
    e ∈ rows ∧ e.identifier = identifier ∧ e.hash = hash := by
  simp [kept]

theorem consistent_concat (h : Store.explanationsConsistent rows = true)
    (hid : ∀ e ∈ rows, e.id < row.id) : Store.explanationsConsistent (rows ++ [row]) = true ↔
      row.project ∉ projects rows row.identifier row.hash := by
  have hfresh : row.id ∉ rows.map Explanation.id := fun hmem => by
    obtain ⟨e, he, heq⟩ := List.mem_map.1 hmem
    have := hid e he
    omega
  have hkey : (row.identifier, row.hash, row.project) ∈
      rows.map (fun e => (e.identifier, e.hash, e.project)) ↔
        row.project ∈ projects rows row.identifier row.hash := by
    simp [projects, mem_kept, and_assoc]
  simp only [Store.explanationsConsistent, Bool.and_eq_true, decide_eq_true_eq] at h ⊢
  rw [← hkey, List.map_append, List.map_append, List.map_singleton, List.map_singleton,
    ← List.concat_eq_append, ← List.concat_eq_append, List.nodup_concat, List.nodup_concat]
  exact ⟨fun hnodup => hnodup.2.1, fun hnot => ⟨⟨hfresh, h.1⟩, hnot, h.2⟩⟩

theorem kept_concat (rows : List Explanation) (row : Explanation) :
    kept (rows ++ [row]) row.identifier row.hash = kept rows row.identifier row.hash ++ [row] := by
  simp [kept]

theorem mem_projects_concat {p : Cell} : p ∈ projects (rows ++ [row]) identifier hash ↔
    p ∈ projects rows identifier hash ∨
      row.identifier = identifier ∧ row.hash = hash ∧ p = row.project := by
  simp only [projects, List.mem_map, mem_kept, List.mem_append, List.mem_singleton]
  constructor
  · rintro ⟨e, ⟨he | rfl, hid, hhash⟩, rfl⟩
    · exact .inl ⟨e, ⟨he, hid, hhash⟩, rfl⟩
    · exact .inr ⟨hid, hhash, rfl⟩
  · rintro (⟨e, ⟨he, hid, hhash⟩, rfl⟩ | ⟨hid, hhash, rfl⟩)
    · exact ⟨e, ⟨.inl he, hid, hhash⟩, rfl⟩
    · exact ⟨row, ⟨.inr rfl, hid, hhash⟩, rfl⟩

theorem nodup_projects (h : Sound rows) (identifier hash : String) :
    (projects rows identifier hash).Nodup := by
  have hkeys : (rows.map fun e => (e.identifier, e.hash, e.project)).Nodup := by
    have := h.consistent
    simp only [Store.explanationsConsistent, Bool.and_eq_true, decide_eq_true_eq] at this
    exact this.2
  have hkept : ((kept rows identifier hash).map fun e => (e.identifier, e.hash, e.project)).Nodup :=
    (List.filter_sublist.map _).nodup hkeys
  have hmap : (kept rows identifier hash).map (fun e => (e.identifier, e.hash, e.project)) =
      (projects rows identifier hash).map fun p => (identifier, hash, p) := by
    rw [projects, List.map_map]
    refine List.map_congr_left fun e he => ?_
    obtain ⟨-, rfl, rfl⟩ := mem_kept.1 he
    rfl
  rw [hmap] at hkept
  exact List.Nodup.of_map _ hkept

/-- A new row that says the same as the others for its code keeps a table sound. -/
theorem Sound.concat (h : Sound rows)
    (hconsistent : Store.explanationsConsistent (rows ++ [row]) = true)
    (hnumber : ∃ n, row.project = .number n)
    (halike : ∀ e ∈ kept rows row.identifier row.hash, e.explanation = row.explanation) :
    Sound (rows ++ [row]) where
  consistent := hconsistent
  numbered e he := by
    rcases List.mem_append.1 he with he | he
    · exact h.numbered e he
    · rw [List.mem_singleton.1 he]
      exact hnumber
  alike e he f hf hid hhash := by
    simp only [List.mem_append, List.mem_singleton] at he hf
    rcases he with he | rfl
    · rcases hf with hf | rfl
      · exact h.alike e he f hf hid hhash
      · exact halike e (mem_kept.2 ⟨he, hid, hhash⟩)
    · rcases hf with hf | rfl
      · exact (halike f (mem_kept.2 ⟨hf, hid.symm, hhash.symm⟩)).symm
      · rfl

theorem explanation?_eq (s : Store) (identifier hash : String) :
    s.explanation? (some identifier) (some hash) = (kept s.explanations identifier hash).head? := by
  simp [Store.explanation?, kept, List.head?_filter]

theorem same_number {p : Cell} (h : ∃ m, p = .number m) (n : Int) :
    p.toJson.same (.int n) = true ↔ p = .number n := by
  obtain ⟨m, rfl⟩ := h
  simp [Cell.toJson, Json.same, Json.canonical]

end

/-! ## What a call does -/

def adding (identifier hash text : String) (n : Int) (w : World) : World :=
  { w with store := { w.store with
      explanations := w.store.explanations ++ [w.store.newRow identifier hash text n] } }

theorem ends_keep (identifier hash text : String) (n : Int) (w : World) :
    (keep identifier hash text (.number n)).ends w =
      if Cell.fits n = false then (.error Cell.tooLarge, w)
      else if w.store.readOnly then (.error .storeRefused, w)
      else if Store.explanationsConsistent
          (w.store.explanations ++ [w.store.newRow identifier hash text n]) then
        (.ok (), adding identifier hash text n w)
      else (.error .constraintBroken, w) := by
  have hcreate := Store.createExplanation_eq w.store identifier hash text n
  unfold keep
  change (Run.alterWith (fun s => s.createExplanation (Store.draft identifier hash text n)) >>=
    fun _ => pure ()).ends w = _
  rw [Run.ends_bind, Run.ends_alterWith, hcreate]
  split_ifs <;> rfl

section
variable {source : CodeSource} {node : List (String × Json)} {w : World}

theorem ends_explain_unread {e : Failure} (h : (source.code node).answer w = .error e)
    (identifier : String) (n : Int) : (explain source identifier node (.number n)).ends w =
      (.error e, (source.code node).after w) :=
  Run.ends_bind_error _ (Prod.ext h rfl)

/-- Code that can be read is looked for among the explanations. -/
theorem ends_explain_read {code : String} {v : World}
    (hcode : (source.code node).ends w = (.ok code, v)) (identifier : String) (n : Int) :
    (explain source identifier node (.number n)).ends w =
      (match (kept w.store.explanations identifier (Sha256.hex code)).head? with
        | some e => do
          if !e.project.toJson.same (.int n) then
            keep identifier (Sha256.hex code) e.explanation (.number n)
          return e.explanation
        | none => do
          let text ← ask (.str (← source.code node))
          keep identifier (Sha256.hex code) text (.number n)
          return text : Run String).ends v := by
  have hstore : v.store = w.store :=
    (congrArg (·.2.store) hcode).symm.trans (CodeSource.store_code source node w)
  unfold explain
  rw [Run.ends_bind_ok _ hcode, Run.ends_bind_ok _ (Run.ends_look _ _), explanation?_eq, hstore]
  rfl

theorem ends_explain_known {code identifier : String} {e : Explanation} {rest : List Explanation}
    (hcode : (source.code node).answer w = .ok code)
    (hkept : kept w.store.explanations identifier (Sha256.hex code) = e :: rest) (n : Int) :
    (explain source identifier node (.number n)).ends w =
      if e.project.toJson.same (.int n) then (.ok e.explanation, (source.code node).after w)
      else (keep identifier (Sha256.hex code) e.explanation (.number n) >>= fun _ =>
        pure e.explanation).ends ((source.code node).after w) := by
  rw [ends_explain_read (Prod.ext hcode rfl), hkept]
  cases hsame : e.project.toJson.same (.int n) with
  | true => simp only [List.head?_cons, hsame]; rfl
  | false => simp only [List.head?_cons, hsame]; rfl

/-- Code that is not known yet is read once more and asked about. -/
theorem ends_explain_unknown {code identifier : String}
    (hcode : (source.code node).answer w = .ok code)
    (hkept : kept w.store.explanations identifier (Sha256.hex code) = []) (n : Int) :
    ∃ u, u.ground = w.ground ∧ u.memory = w.memory ∧
      (explain source identifier node (.number n)).ends w = (ask (.str code) >>= fun text =>
        keep identifier (Sha256.hex code) text (.number n) >>= fun _ => pure text).ends u := by
  obtain ⟨x, hx⟩ := CodeSource.settled_code w.ground source node
  have hmemory : Keeps World.memory _ := CodeSource.keeps_code (fun _ _ _ => rfl) source node
  have hagain : (source.code node).answer ((source.code node).after w) = .ok code :=
    ((hx _ (hx w rfl).2).1.trans (hx w rfl).1.symm).trans hcode
  refine ⟨(source.code node).after ((source.code node).after w), (hx _ (hx w rfl).2).2,
    (hmemory _).trans (hmemory w), ?_⟩
  rw [ends_explain_read (Prod.ext hcode rfl), hkept]
  exact Run.ends_bind_ok _ (Prod.ext hagain rfl)

theorem keeps_ask (code : Json) : Keeps (fun w => (w.ground, w.store)) (ask code) := by
  refine Keeps.bind (Keeps.modify fun _ => rfl) fun _ => Keeps.get.bind fun w => ?_
  split
  · exact Keeps.throw _
  · exact Keeps.bind (Keeps.modify fun _ => rfl) fun _ => Keeps.pure _

end

/-- What a run does to the explanations for some code, by its answer `x` and the world `v` after it.
The table stays sound. If there is an answer, it is the explanation that is kept, for the project of
the call, too; and no other row is added. -/
structure Serves (identifier hash : String) (n : Int) (w : World) (x : Except Failure String)
    (v : World) : Prop where
  ground : v.ground = w.ground
  readOnly : v.store.readOnly = w.store.readOnly
  sound : Sound v.store.explanations
  answered : ∀ text, x = .ok text →
    (∀ e ∈ kept v.store.explanations identifier hash, e.explanation = text) ∧
      .number n ∈ projects v.store.explanations identifier hash
  grown : v.store.explanations = w.store.explanations ∨
    ∃ text row, x = .ok text ∧ row.identifier = identifier ∧ row.hash = hash ∧
      row.project = .number n ∧ v.store.explanations = w.store.explanations ++ [row]

section
variable {identifier hash : String} {n : Int} {w u : World}

theorem Serves.refused (h : Sound w.store.explanations) (hground : u.ground = w.ground)
    (hstore : u.store = w.store) (e : Failure) : Serves identifier hash n w (.error e) u :=
  ⟨hground, congrArg Store.readOnly hstore, hstore ▸ h, fun text htext => (by cases htext),
    .inl (congrArg Store.explanations hstore)⟩

theorem Serves.mono {x : Except Failure String} {v : World} (h : Serves identifier hash n u x v)
    (hground : u.ground = w.ground) (hstore : u.store = w.store) : Serves identifier hash n w x v :=
  ⟨h.ground.trans hground, h.readOnly.trans (congrArg Store.readOnly hstore), h.sound, h.answered,
    hstore ▸ h.grown⟩

theorem serves_keep {text : String} (h : Sound w.store.explanations)
    (halike : ∀ e ∈ kept w.store.explanations identifier hash, e.explanation = text) (n : Int) :
    Serves identifier hash n w
      ((keep identifier hash text (.number n) >>= fun _ => pure text).ends w).1
      ((keep identifier hash text (.number n) >>= fun _ => pure text).ends w).2 := by
  rw [Run.ends_bind, ends_keep]
  split_ifs with hfits hopen hconsistent
  · exact .refused h rfl rfl _
  · exact .refused h rfl rfl _
  · have hkept := kept_concat w.store.explanations (w.store.newRow identifier hash text n)
    refine ⟨rfl, rfl, h.concat hconsistent ⟨n, rfl⟩ halike, fun t ht => ?_,
      .inr ⟨text, _, rfl, rfl, rfl, rfl, rfl⟩⟩
    cases ht
    refine ⟨fun e he => ?_, mem_projects_concat.2 (.inr ⟨rfl, rfl, rfl⟩)⟩
    rcases List.mem_append.1 (hkept ▸ he) with he | he
    · exact halike e he
    · rw [List.mem_singleton.1 he]
      rfl
  · exact .refused h rfl rfl _

variable {source : CodeSource} {node : List (String × Json)} {code : String}

theorem serves_unknown (h : Sound w.store.explanations)
    (hcode : (source.code node).answer w = .ok code)
    (hkept : kept w.store.explanations identifier (Sha256.hex code) = []) (n : Int) :
    Serves identifier (Sha256.hex code) n w ((explain source identifier node (.number n)).ends w).1
      ((explain source identifier node (.number n)).ends w).2 := by
  obtain ⟨u, hu, hmemory, hends⟩ := ends_explain_unknown hcode hkept n
  have hask := keeps_ask (.str code) u
  have hground : ((ask (.str code)).after u).ground = w.ground := (congrArg Prod.fst hask).trans hu
  have hstore : ((ask (.str code)).after u).store = w.store :=
    (congrArg Prod.snd hask).trans (congrArg Prod.fst hmemory)
  rw [hends]
  cases hanswer : (ask (.str code)).answer u with
  | error e =>
    rw [Run.ends_bind_error _ (Prod.ext hanswer rfl)]
    exact .refused h hground hstore e
  | ok reply =>
    rw [Run.ends_bind_ok _ (Prod.ext hanswer rfl)]
    refine (serves_keep (hstore ▸ h) (fun e he => ?_) n).mono hground hstore
    change e ∈ kept ((ask (.str code)).after u).store.explanations _ _ at he
    rw [hstore, hkept] at he
    cases he

/-- All that is kept for some code says the same. -/
theorem Sound.kept_alike (h : Sound w.store.explanations) {e : Explanation}
    (he : e ∈ kept w.store.explanations identifier hash) :
    ∀ f ∈ kept w.store.explanations identifier hash, f.explanation = e.explanation := fun f hf => by
  obtain ⟨hfrows, hfid, hfhash⟩ := mem_kept.1 hf
  obtain ⟨herows, heid, hehash⟩ := mem_kept.1 he
  exact h.alike f hfrows e herows (hfid.trans heid.symm) (hfhash.trans hehash.symm)

theorem serves_known (h : Sound w.store.explanations)
    (hcode : (source.code node).answer w = .ok code) {e : Explanation} {rest : List Explanation}
    (hkept : kept w.store.explanations identifier (Sha256.hex code) = e :: rest) (n : Int) :
    Serves identifier (Sha256.hex code) n w ((explain source identifier node (.number n)).ends w).1
      ((explain source identifier node (.number n)).ends w).2 := by
  have hground := CodeSource.ground_code source node w
  have hstore := CodeSource.store_code source node w
  have he : e ∈ kept w.store.explanations identifier (Sha256.hex code) := hkept ▸ List.mem_cons_self
  have halike := h.kept_alike he
  rw [ends_explain_known hcode hkept]
  split_ifs with hsame
  · refine ⟨hground, congrArg Store.readOnly hstore, hstore ▸ h, fun text htext => ?_,
      .inl (congrArg Store.explanations hstore)⟩
    cases htext
    have hproject := (same_number (h.numbered e (mem_kept.1 he).1) n).1 hsame
    rw [hstore]
    exact ⟨halike, List.mem_map.2 ⟨e, he, hproject⟩⟩
  · exact (serves_keep (hstore ▸ h) (hstore ▸ halike) n).mono hground hstore

end

/-! ## Calls one after the other -/

/-- A call for the explanation of a function. -/
structure Call where
  source : CodeSource
  identifier : String
  node : List (String × Json)
  project : Int

namespace Call

def run (c : Call) : Run String := explain c.source c.identifier c.node (.number c.project)

def code (c : Call) : Run String := c.source.code c.node

theorem serves (c : Call) {w : World} (h : Sound w.store.explanations) :
    ∃ hash, (∀ code, c.code.answer w = .ok code → hash = Sha256.hex code) ∧
      Serves c.identifier hash c.project w (c.run.answer w) (c.run.after w) := by
  unfold Run.answer Run.after run
  cases hcode : (c.source.code c.node).answer w with
  | error e =>
    refine ⟨"", fun code hcode' => absurd (hcode.symm.trans hcode') (by simp), ?_⟩
    rw [ends_explain_unread hcode]
    exact .refused h (CodeSource.ground_code _ _ w) (CodeSource.store_code _ _ w) e
  | ok code =>
    refine ⟨Sha256.hex code, fun code' hcode' =>
      congrArg Sha256.hex (Except.ok.inj (hcode.symm.trans hcode')), ?_⟩
    cases hkept : kept w.store.explanations c.identifier (Sha256.hex code) with
    | nil => exact serves_unknown h hcode hkept c.project
    | cons e rest => exact serves_known h hcode hkept c.project

end Call

def answers : List Call → World → List (Except Failure String)
  | [], _ => []
  | c :: cs, w => c.run.answer w :: answers cs (c.run.after w)

def afterAll (cs : List Call) (w : World) : World := cs.foldl (fun w c => c.run.after w) w

/-- A table to which calls led is sound, whether they were answered or not. -/
theorem sound_afterAll (cs : List Call) : ∀ {w : World}, Sound w.store.explanations →
    Sound (afterAll cs w).store.explanations ∧ (afterAll cs w).ground = w.ground ∧
      (afterAll cs w).store.readOnly = w.store.readOnly := by
  induction cs with
  | nil => exact fun h => ⟨h, rfl, rfl⟩
  | cons c cs ih =>
    intro w h
    obtain ⟨hash, -, hserves⟩ := c.serves h
    obtain ⟨hsound, hground, hopen⟩ := ih hserves.sound
    exact ⟨hsound, hground.trans hserves.ground, hopen.trans hserves.readOnly⟩

/-- In the worlds of `Known` some code has an explanation that is kept for projects. -/
structure Known (identifier code text : String) (ps : List Cell) (g : Ground) (w : World) :
    Prop where
  ground : w.ground = g
  writable : w.store.readOnly = false
  sound : Sound w.store.explanations
  texts : ∀ e ∈ kept w.store.explanations identifier (Sha256.hex code), e.explanation = text
  projects : projects w.store.explanations identifier (Sha256.hex code) = ps

section
variable {identifier code text : String} {ps : List Cell} {first : Cell} {others : List Cell}
  {g : Ground} {w u : World}

theorem Known.nodup (h : Known identifier code text ps g w) : ps.Nodup :=
  h.projects ▸ nodup_projects h.sound _ _

theorem Known.congr (h : Known identifier code text ps g w) (hground : u.ground = w.ground)
    (hstore : u.store = w.store) : Known identifier code text ps g u :=
  ⟨hground.trans h.ground, hstore ▸ h.writable, hstore ▸ h.sound, hstore ▸ h.texts,
    hstore ▸ h.projects⟩

theorem Known.exists_kept (h : Known identifier code text (first :: others) g w) :
    ∃ e rest, kept w.store.explanations identifier (Sha256.hex code) = e :: rest ∧
      e.project = first ∧ e.explanation = text := by
  obtain ⟨e, rest, hkept, hfirst, -⟩ := List.map_eq_cons_iff.1 h.projects
  exact ⟨e, rest, hkept, hfirst, h.texts e (hkept ▸ List.mem_cons_self)⟩

theorem Known.consistent_iff (h : Known identifier code text ps g w) (n : Int) :
    Store.explanationsConsistent
        (w.store.explanations ++ [w.store.newRow identifier (Sha256.hex code) text n]) = true ↔
      .number n ∉ ps := by
  have hlater : ∀ e ∈ w.store.explanations, e.id < w.store.nextExplanation := fun e he =>
    Store.lt_nextNumber (List.mem_map_of_mem he)
  rw [← h.projects]
  exact consistent_concat h.sound.consistent hlater

/-- The row of another project is added. -/
theorem Known.adding (h : Known identifier code text ps g w) {n : Int} (hn : .number n ∉ ps) :
    Known identifier code text (ps ++ [.number n]) g
      (adding identifier (Sha256.hex code) text n w) := by
  have hkept := kept_concat w.store.explanations
    (w.store.newRow identifier (Sha256.hex code) text n)
  have hsound := h.sound.concat ((h.consistent_iff n).2 hn) ⟨n, rfl⟩ h.texts
  refine ⟨h.ground, h.writable, hsound, fun e he => ?_, ?_⟩
  · rcases List.mem_append.1 (hkept ▸ he) with he | he
    · exact h.texts e he
    · rw [List.mem_singleton.1 he]
      rfl
  · rw [← h.projects]
    exact (congrArg (List.map Explanation.project) hkept).trans List.map_append

theorem Known.ends_keep (h : Known identifier code text ps g w) {n : Int}
    (hfits : Cell.fits n = true) :
    (keep identifier (Sha256.hex code) text (.number n) >>= fun _ => pure text).ends w =
      if .number n ∈ ps then (.error .constraintBroken, w)
      else (.ok text, Explaining.adding identifier (Sha256.hex code) text n w) := by
  have hconsistent := h.consistent_iff n
  rw [Run.ends_bind, Explaining.ends_keep, if_neg (by simp [hfits]), if_neg (by simp [h.writable])]
  by_cases hn : .number n ∈ ps
  · rw [if_neg fun hc => hconsistent.1 hc hn, if_pos hn]
  · rw [if_pos (hconsistent.2 hn), if_neg hn]
    rfl

/-- The projects besides the first one after a call for a project. -/
def joined (first : Cell) (others : List Cell) (n : Int) : List Cell :=
  if .number n ∈ first :: others then others else others ++ [.number n]

theorem known_step {c : Call} (h : Known c.identifier code text (first :: others) g w)
    (hcode : c.code.answer w = .ok code) (hfits : Cell.fits c.project = true) :
    c.run.answer w = (if .number c.project ∈ others then .error .constraintBroken else .ok text) ∧
    Known c.identifier code text (first :: joined first others c.project) g (c.run.after w) ∧
    (c.run.after w).replies = w.replies := by
  obtain ⟨e, rest, hkept, rfl, rfl⟩ := h.exists_kept
  have hread : Known c.identifier code e.explanation (e.project :: others) g
      (c.code.after w) := h.congr (CodeSource.ground_code _ _ w) (CodeSource.store_code _ _ w)
  have hreplies : (c.code.after w).replies = w.replies :=
    (CodeSource.keeps_code (fun _ _ _ => rfl) c.source c.node : Keeps World.replies _) w
  have hrow : e ∈ w.store.explanations := (mem_kept.1 (hkept ▸ List.mem_cons_self)).1
  have hsame := same_number (h.sound.numbered e hrow) c.project
  have hends : c.run.ends w =
      if e.project.toJson.same (.int c.project) then (.ok e.explanation, c.code.after w)
      else (keep c.identifier (Sha256.hex code) e.explanation (.number c.project) >>= fun _ =>
        pure e.explanation).ends (c.code.after w) := ends_explain_known hcode hkept c.project
  unfold Run.answer Run.after joined
  rw [hends]
  by_cases hfirst : e.project = .number c.project
  · have hothers : .number c.project ∉ others := hfirst ▸ (List.nodup_cons.1 h.nodup).1
    rw [if_pos (hsame.2 hfirst), if_neg hothers, if_pos (hfirst ▸ List.mem_cons_self)]
    exact ⟨rfl, hread, hreplies⟩
  · have hmem : .number c.project ∈ e.project :: others ↔ .number c.project ∈ others := by
      simp [Ne.symm hfirst]
    rw [if_neg (fun hs => hfirst (hsame.1 hs)), hread.ends_keep hfits]
    by_cases hothers : .number c.project ∈ others
    · rw [if_pos (hmem.2 hothers), if_pos hothers, if_pos (hmem.2 hothers)]
      exact ⟨rfl, hread, hreplies⟩
    · rw [if_neg (hmem.not.2 hothers), if_neg hothers, if_neg (hmem.not.2 hothers)]
      exact ⟨rfl, hread.adding (hmem.not.2 hothers), hreplies⟩

theorem answer_code {c : Call} (h : c.code.answer w = .ok code) (hground : u.ground = w.ground) :
    c.code.answer u = .ok code :=
  ((CodeSource.settled_code w.ground c.source c.node).answer_eq hground rfl).trans h

theorem mem_joined {n : Int} {x : Cell} :
    x ∈ first :: joined first others n ↔ x ∈ first :: others ∨ x = .number n := by
  unfold joined
  split
  · next h => exact ⟨.inl, fun hx => hx.elim id fun hx => hx ▸ h⟩
  · simp [or_assoc]

theorem count_joined {n x : Int} (hn : .number n ∉ others) (hx : .number x ≠ first) :
    (first :: joined first others n).count (.number x) =
      (first :: others).count (.number x) + [n].count x := by
  unfold joined
  split
  · next h =>
    have hfirst : .number n = first := (List.mem_cons.1 h).resolve_right hn
    have hne : n ≠ x := fun he => hx (he ▸ hfirst)
    simp [hne]
  · simp [List.count_cons, List.count_append]
    omega

theorem known_run {calls : List Call} (h : Known identifier code text (first :: others) g w)
    (hcalls : ∀ c ∈ calls, c.identifier = identifier ∧ c.code.answer w = .ok code ∧
      Cell.fits c.project = true) :
    ((∀ a ∈ answers calls w, a = .ok text) ↔ ∀ x, .number x ≠ first →
      (first :: others).count (.number x) + (calls.map Call.project).count x ≤ 1) ∧
    (∀ a ∈ answers calls w, a = .ok text ∨ a = .error .constraintBroken) ∧
    (afterAll calls w).replies = w.replies ∧
    ∃ ps, Known identifier code text (first :: ps) g (afterAll calls w) ∧
      ∀ x, x ∈ first :: ps ↔ x ∈ first :: others ∨ ∃ c ∈ calls, x = .number c.project := by
  induction calls generalizing w others with
  | nil =>
    refine ⟨?_, by simp [answers], rfl, others, h, by simp⟩
    simpa [answers] using fun x _ => List.nodup_iff_count_le_one.1 h.nodup (.number x)
  | cons c calls ih =>
    rw [List.forall_mem_cons] at hcalls
    obtain ⟨⟨rfl, hcode, hfits⟩, hcalls⟩ := hcalls
    obtain ⟨hanswer, hknown, hreplies⟩ := known_step h hcode hfits
    have hrest : ∀ d ∈ calls, d.identifier = c.identifier ∧
        d.code.answer (c.run.after w) = .ok code ∧ Cell.fits d.project = true := fun d hd =>
      ⟨(hcalls d hd).1, answer_code (hcalls d hd).2.1 (hknown.ground.trans h.ground.symm),
        (hcalls d hd).2.2⟩
    obtain ⟨hiff, heither, hreplies', ps, hps, hmem⟩ := ih hknown hrest
    refine ⟨?_, ?_, hreplies'.trans hreplies, ps, hps, fun x => ?_⟩
    · rw [answers, List.forall_mem_cons, hanswer, hiff, List.map_cons]
      by_cases hothers : .number c.project ∈ others
      · have hne : .number c.project ≠ first := fun he =>
          (List.nodup_cons.1 h.nodup).1 (he ▸ hothers)
        have hcount := List.count_pos_iff.2 (List.mem_cons_of_mem first hothers)
        rw [if_pos hothers]
        refine ⟨fun hboth => (by cases hboth.1), fun hall => ?_⟩
        have := hall c.project hne
        rw [List.count_cons_self] at this
        omega
      · rw [if_neg hothers, and_iff_right rfl]
        refine forall₂_congr fun x hx => ?_
        have hsplit : (c.project :: calls.map Call.project).count x =
            [c.project].count x + (calls.map Call.project).count x := by
          rw [← List.count_append, List.singleton_append]
        rw [count_joined hothers hx, hsplit, Nat.add_assoc]
    · rw [answers, List.forall_mem_cons, hanswer]
      refine ⟨?_, heither⟩
      split
      · exact .inr rfl
      · exact .inl rfl
    · rw [hmem, mem_joined]
      simp [or_assoc]

theorem code_of_answer {c : Call} (h : c.run.answer w = .ok text) :
    ∃ code, c.code.answer w = .ok code := by
  cases hcode : c.code.answer w with
  | error e =>
    have herror : c.run.ends w = _ := ends_explain_unread hcode c.identifier c.project
    rw [Run.answer, herror] at h
    cases h
  | ok code => exact ⟨code, rfl⟩

theorem known_of_answer {c : Call} (hsound : Sound w.store.explanations)
    (hopen : w.store.readOnly = false) (h : c.run.answer w = .ok text) :
    ∃ code first others, c.code.answer w = .ok code ∧ .number c.project ∈ first :: others ∧
      Known c.identifier code text (first :: others) w.ground (c.run.after w) := by
  obtain ⟨hash, hhash, hserves⟩ := c.serves hsound
  obtain ⟨code, hcode⟩ := code_of_answer h
  obtain rfl := hhash code hcode
  obtain ⟨htexts, hmem⟩ := hserves.answered text h
  obtain ⟨first, others, hprojects⟩ := List.exists_cons_of_ne_nil (List.ne_nil_of_mem hmem)
  refine ⟨code, first, others, hcode, hprojects ▸ hmem, ?_⟩
  exact ⟨hserves.ground, hserves.readOnly.trans hopen, hserves.sound, htexts, hprojects⟩

end

def Call.Hashes (c : Call) (w : World) (hash : String) : Prop :=
  ∃ code, c.code.answer w = .ok code ∧ Sha256.hex code = hash

section
variable {w u : World}

theorem Call.hashes_congr (c : Call) (h : u.ground = w.ground) (hash : String) :
    c.Hashes u hash ↔ c.Hashes w hash := by
  have hanswer : c.code.answer u = c.code.answer w :=
    (CodeSource.settled_code w.ground c.source c.node).answer_eq h rfl
  rw [Hashes, Hashes, hanswer]

/-- A call that is answered leaves its project among those with a row, and no other one. -/
theorem mem_projects_step (h : Sound w.store.explanations) (c : Call) (identifier hash : String)
    (x : Cell) : x ∈ projects (c.run.after w).store.explanations identifier hash ↔
      x ∈ projects w.store.explanations identifier hash ∨
        (∃ text, c.run.answer w = .ok text) ∧ c.identifier = identifier ∧ c.Hashes w hash ∧
          x = .number c.project := by
  obtain ⟨served, hserved, hserves⟩ := c.serves h
  constructor
  · intro hx
    rcases hserves.grown with hsame | ⟨text, row, hanswer, hid, hhash, hproject, hrows⟩
    · exact .inl (hsame ▸ hx)
    · rw [hrows, mem_projects_concat] at hx
      refine hx.imp id fun ⟨hid', hhash', hp⟩ => ?_
      obtain ⟨code, hcode⟩ := code_of_answer hanswer
      have hhex : Sha256.hex code = hash :=
        (hserved code hcode).symm.trans (hhash.symm.trans hhash')
      exact ⟨⟨text, hanswer⟩, hid.symm.trans hid', ⟨code, hcode, hhex⟩, hp.trans hproject⟩
  · rintro (hx | ⟨⟨text, hanswer⟩, rfl, ⟨code, hcode, rfl⟩, rfl⟩)
    · rcases hserves.grown with hsame | ⟨text, row, -, -, -, -, hrows⟩
      · exact hsame ▸ hx
      · rw [hrows, mem_projects_concat]
        exact .inl hx
    · rw [← hserved code hcode]
      exact (hserves.answered text hanswer).2

theorem mem_projects_afterAll (cs : List Call) (h : Sound w.store.explanations)
    (identifier hash : String) (x : Cell) :
    x ∈ projects (afterAll cs w).store.explanations identifier hash ↔
      x ∈ projects w.store.explanations identifier hash ∨
        ∃ d text, (d, .ok text) ∈ cs.zip (answers cs w) ∧ d.identifier = identifier ∧
          d.Hashes w hash ∧ x = .number d.project := by
  induction cs generalizing w with
  | nil => simp [afterAll, answers]
  | cons c cs ih =>
    obtain ⟨served, -, hserves⟩ := c.serves h
    have hnext := ih hserves.sound
    have hhashes (d : Call) := d.hashes_congr hserves.ground hash
    simp only [hhashes, mem_projects_step h c, or_assoc] at hnext
    rw [afterAll, List.foldl_cons]
    refine hnext.trans (or_congr_right ?_)
    simp only [answers, List.zip_cons_cons, List.mem_cons, Prod.mk.injEq]
    constructor
    · rintro (⟨⟨text, hanswer⟩, hid, hhash, hx⟩ | ⟨d, text, hd, hrest⟩)
      · exact ⟨c, text, .inl ⟨rfl, hanswer.symm⟩, hid, hhash, hx⟩
      · exact ⟨d, text, .inr hd, hrest⟩
    · rintro ⟨d, text, ⟨rfl, hanswer⟩ | hd, hrest⟩
      · exact .inl ⟨⟨text, hanswer.symm⟩, hrest⟩
      · exact .inr ⟨d, text, hd, hrest⟩

end

/-- **Explanations are kept for all who ask.** From a table without explanations, calls lead to one
with a single row for each function, hash and project that was answered. After an answer, calls
about the same code get the same answer, without the language model being asked, or are refused by
the rules of the table. All of them are answered exactly if no project but that of the first row
asks when it has a row already. -/
theorem explained_again_iff {w : World} (hempty : w.store.explanations = [])
    (hopen : w.store.readOnly = false) :
    (∀ (calls : List Call) (identifier hash : String),
      (projects (afterAll calls w).store.explanations identifier hash).Nodup ∧
      ∀ x, x ∈ projects (afterAll calls w).store.explanations identifier hash ↔
        ∃ d text, (d, .ok text) ∈ calls.zip (answers calls w) ∧ d.identifier = identifier ∧
          d.Hashes w hash ∧ x = .number d.project) ∧
    ∀ (history : List Call) (c : Call) (text : String),
      c.run.answer (afterAll history w) = .ok text →
      ∃ code first others, c.code.answer w = .ok code ∧
        projects (c.run.after (afterAll history w)).store.explanations c.identifier
          (Sha256.hex code) = first :: others ∧
        ∀ calls : List Call, (∀ d ∈ calls, d.identifier = c.identifier ∧
            d.code.answer w = .ok code ∧ Cell.fits d.project = true) →
          ((∀ a ∈ answers calls (c.run.after (afterAll history w)), a = .ok text) ↔
            ∀ x, .number x ≠ first →
              (first :: others).count (.number x) + (calls.map Call.project).count x ≤ 1) ∧
          (∀ a ∈ answers calls (c.run.after (afterAll history w)),
            a = .ok text ∨ a = .error .constraintBroken) ∧
          (afterAll calls (c.run.after (afterAll history w))).replies =
            (c.run.after (afterAll history w)).replies := by
  have hnone : Sound w.store.explanations :=
    hempty ▸ ⟨rfl, fun e he => (by cases he), fun e he => (by cases he)⟩
  refine ⟨fun calls identifier hash => ⟨?_, fun x => ?_⟩, fun history c text hc => ?_⟩
  · exact nodup_projects (sound_afterAll calls hnone).1 identifier hash
  · rw [mem_projects_afterAll calls hnone, hempty]
    exact or_iff_right List.not_mem_nil
  · obtain ⟨hsound, hground, hwritable⟩ := sound_afterAll history hnone
    obtain ⟨code, first, others, hcode, -, hknown⟩ :=
      known_of_answer hsound (hwritable.trans hopen) hc
    refine ⟨code, first, others, answer_code hcode hground.symm, hknown.projects,
      fun calls hcalls => ?_⟩
    have hsame := hknown.ground.trans hground
    obtain ⟨hiff, heither, hreplies, -⟩ := known_run hknown fun d hd =>
      ⟨(hcalls d hd).1, answer_code (hcalls d hd).2.1 hsame, (hcalls d hd).2.2⟩
    exact ⟨hiff, heither, hreplies⟩

/-! ## A function in two projects -/

/-- Two projects with the same function, in the repository and in a clone. -/
def copies : World :=
  { World.vacant with
    store := { Store.empty with projects := [.sample 1 "u", .sample 2 "u"] }
    files := .named [("o/demo/m.py", "def f(): pass".toUTF8)] ["o/demo"]
    hosted := [("o/demo", { HostedRepository.blank with files := [("m.py", "def f(): pass")] })]
    clones := [("o/demo", ⟨[("main", "c0")], "main", [], [], [], []⟩)]
    replies := ["It does nothing."] }

def copy (source : CodeSource) (n : Int) : Call :=
  ⟨source, "/m.py:f", [("id", .str "/m.py:f"), ("project_id", .int n), ("start", .int 1),
    ("end", .int 1)], n⟩

/-- The project that asked first is answered again and again, another one is answered once. -/
theorem copies_explained :
    (copy .hosted 1).run.answer copies = .ok "It does nothing." ∧
    (∀ a ∈ answers [copy .cloned 1, copy .hosted 2, copy .hosted 1]
      ((copy .hosted 1).run.after copies), a = .ok "It does nothing.") ∧
    projects (afterAll [copy .hosted 1, copy .cloned 1, copy .hosted 2, copy .hosted 1]
      copies).store.explanations "/m.py:f" (Sha256.hex "def f(): pass") =
        [.number 1, .number 2] := by
  have hfirst : (copy .hosted 1).run.answer (afterAll [] copies) = .ok "It does nothing." := by
    decide +kernel
  have hcode : (copy .hosted 1).code.answer copies = .ok "def f(): pass" := by decide +kernel
  have hrows : projects ((copy .hosted 1).run.after copies).store.explanations "/m.py:f"
      (Sha256.hex "def f(): pass") = [.number 1] := by decide +kernel
  obtain ⟨-, hagain⟩ := explained_again_iff (w := copies) rfl rfl
  obtain ⟨code, first, others, hread, hprojects, hcalls⟩ := hagain [] _ _ hfirst
  obtain rfl := Except.ok.inj (hcode.symm.trans hread)
  obtain ⟨rfl, rfl⟩ := List.cons.inj (hrows.symm.trans hprojects)
  refine ⟨hfirst, (hcalls _ ?_).1.2 fun x hx => ?_, by decide +kernel⟩
  · intro d hd
    simp only [List.mem_cons, List.not_mem_nil, or_false] at hd
    obtain rfl | rfl | rfl := hd <;> exact ⟨rfl, by decide +kernel, rfl⟩
  · have hone : (1 : Int) ≠ x := fun h => hx (h ▸ rfl)
    by_cases htwo : 2 = x <;> simp [copy, hone, htwo]

/-- A project that was not the first one is refused when it asks again. -/
theorem copies_refused : answers [copy .hosted 1, copy .hosted 2, copy .hosted 2] copies =
    [.ok "It does nothing.", .ok "It does nothing.", .error .constraintBroken] := by
  decide +kernel

end Explaining
end CodeAtlas
