import CodeAtlas.Analysis.Directory
import CodeAtlas.Proofs.GraphInvariant

/-!
# The pass that connects calls

Functions are searched for names, and each name asks for a call from its function to what the name
means. The search ends at the first name that cannot be resolved. So what the pass sends to the
graph is described by a list of steps, which does not depend on the graph.

* `Calls.issued`, `Calls.ended`: the calls that steps ask for up to the first failure, and that
  failure;
* `Calls.Performs`: a run that sends what some steps ask for and ends as they do;
* `Calls.performs_connectFunction`: the steps of a function, over its parts from the top down;
* `Analysis.performs_secondPass`: the steps of the pass over all files.
-/
namespace CodeAtlas

namespace Calls
open GraphCommand

/-- What a name in a function asks for, if it can be resolved: a call from one function to another,
or nothing. -/
abbrev Step := Except Failure (Option (String × String))

/-- The calls that steps ask for, up to the first step that fails. -/
def issued : List Step → List (String × String)
  | [] => []
  | .error _ :: _ => []
  | .ok none :: ss => issued ss
  | .ok (some e) :: ss => e :: issued ss

def ended : List Step → Option Failure
  | [] => none
  | .error e :: _ => some e
  | .ok _ :: ss => ended ss

theorem ended_append (ss ts : List Step) : ended (ss ++ ts) = (ended ss).or (ended ts) := by
  induction ss with
  | nil => rfl
  | cons s ss ih =>
    cases s with
    | error e => rfl
    | ok x => exact ih

theorem issued_append (ss ts : List Step) :
    issued (ss ++ ts) = issued ss ++ if ended ss = none then issued ts else [] := by
  induction ss with
  | nil => rfl
  | cons s ss ih =>
    cases s with
    | error e => rfl
    | ok x =>
      cases x with
      | none => exact ih
      | some e => exact congrArg (e :: ·) ih

theorem mem_of_mem_issued {ss : List Step} {e : String × String} (h : e ∈ issued ss) :
    .ok (some e) ∈ ss := by
  induction ss with
  | nil => cases h
  | cons s ss ih =>
    cases s with
    | error _ => cases h
    | ok x =>
      cases x with
      | none => exact List.mem_cons_of_mem _ (ih h)
      | some d =>
        rcases List.mem_cons.1 h with rfl | h
        · exact List.mem_cons_self
        · exact List.mem_cons_of_mem _ (ih h)

theorem ended_eq_none_iff {ss : List Step} : ended ss = none ↔ ∀ s ∈ ss, ∃ x, s = .ok x := by
  induction ss with
  | nil => simp [ended]
  | cons s ss ih =>
    cases s with
    | error e => simp [ended]
    | ok x => simp [ended, ih]

def request (p : ProjectKey) (e : String × String) : GraphCommand :=
  .connect (.str e.1) (.str e.2) p GraphService.callProperties

/-- How something ended, if it failed. -/
def failure? {α : Type} : Except Failure α → Option Failure
  | .ok _ => none
  | .error e => some e

section
variable {α β : Type} {t : FileTree} {p : ProjectKey} {r : Run α} {f : α → Run β}
  {ss ts : List Step}

/-- Where the files are `t` and the graph is in order, a run sends what some steps ask for and ends
as they do. -/
def Performs (t : FileTree) (p : ProjectKey) (r : Run α) (ss : List Step) : Prop :=
  ∀ w : World, w.troubles = [] → w.files = t →
    ∃ x, r.ends w = (x, sent w ((issued ss).map (request p))) ∧ failure? x = ended ss

theorem Performs.pure (a : α) : Performs t p (pure a : Run α) [] := fun w _ _ =>
  ⟨.ok a, congrArg (Prod.mk _) (sent_nil w).symm, rfl⟩

theorem Performs.lift (x : Except Failure α) :
    Performs t p (liftM x : Run α) [x.map fun _ => none] := by
  intro w _ _
  cases x with
  | error e => exact ⟨.error e, congrArg (Prod.mk _) (sent_nil w).symm, rfl⟩
  | ok a => exact ⟨.ok a, congrArg (Prod.mk _) (sent_nil w).symm, rfl⟩

/-- Steps after other steps, where what follows does not depend on the answer. -/
theorem Performs.bind (hr : Performs t p r ss) (hf : ∀ a, Performs t p (f a) ts) :
    Performs t p (r >>= f) (ss ++ ts) := by
  intro w hw ht
  obtain ⟨x, hx, hended⟩ := hr w hw ht
  cases x with
  | error e =>
    have hstops : ended ss = some e := hended.symm
    refine ⟨.error e, ?_, ?_⟩
    · rw [issued_append, hstops, if_neg (Option.some_ne_none e), List.append_nil]
      exact Run.ends_bind_error f hx
    · rw [ended_append, hstops]
      rfl
  | ok a =>
    have hgoes : ended ss = none := hended.symm
    obtain ⟨y, hy, hended'⟩ := hf a (sent w ((issued ss).map (request p))) hw ht
    refine ⟨y, ?_, ?_⟩
    · rw [Run.ends_bind_ok f hx, hy, sent_append, issued_append, if_pos hgoes, List.map_append]
    · rw [ended_append, hgoes, hended']
      rfl

/-- Steps after a reading, which they may depend on. -/
theorem Performs.afterReading {x : Except Failure α}
    (hok : ∀ a, x = .ok a → Performs t p (f a) ss) (herror : ∀ e, x = .error e → ss = [.error e]) :
    Performs t p ((liftM x : Run α) >>= f) ss := by
  cases x with
  | error e =>
    rw [herror e rfl]
    exact fun w _ _ => ⟨.error e, congrArg (Prod.mk _) (sent_nil w).symm, rfl⟩
  | ok a => exact hok a rfl

theorem Performs.afterLook {k : World → Run α} (hk : ∀ w, w.files = t → Performs t p (k w) ss) :
    Performs t p (get >>= k) ss := by
  intro w hw ht
  rw [Run.ends_bind_ok _ (Run.ends_get w)]
  exact hk w ht w hw ht

theorem Performs.forM {steps : α → List Step} {g : α → Run Unit} :
    ∀ {l : List α}, (∀ a ∈ l, Performs t p (g a) (steps a)) →
      Performs t p (l.forM g) (l.flatMap steps)
  | [], _ => Performs.pure ()
  | a :: l, h => by
    rw [List.flatMap_cons]
    exact (h a List.mem_cons_self).bind fun _ =>
      Performs.forM fun b hb => h b (List.mem_cons_of_mem a hb)

theorem Performs.foldlM {steps : α → List Step} {g : β → α → Run β} :
    ∀ {l : List α}, (∀ a ∈ l, ∀ b, Performs t p (g b a) (steps a)) →
      ∀ b, Performs t p (l.foldlM g b) (l.flatMap steps)
  | [], _, b => Performs.pure b
  | a :: l, h, b => by
    rw [List.flatMap_cons, List.foldlM_cons]
    exact (h a List.mem_cons_self b).bind fun c =>
      Performs.foldlM (fun d hd => h d (List.mem_cons_of_mem a hd)) c

end

/-! ## The steps of a function -/

section
variable {t : FileTree} {p : ProjectKey} {c : Cell} {src : String} {s : Scope}

/-- What a name in a function asks for. -/
def nameStep (t : FileTree) (s : Scope) (caller name : String) : Step :=
  (target? t s name).map (Option.map (Prod.mk caller))

def partSteps (t : FileTree) (src : String) (s : Scope) (caller : String) (owner : Option String)
    (part : Node) : List Step :=
  match namesAt src owner part with
  | .ok names => names.map (nameStep t s caller)
  | .error e => [.error e]

/-- What the names in a function ask for. -/
def functionSteps (t : FileTree) (src : String) (s : Scope) (f : String × Node) : List Step :=
  match ownerOf f.1 with
  | .ok owner => f.2.preorder.flatMap (partSteps t src s f.1 owner)
  | .error e => [.error e]

theorem performs_request (hc : p.cell = .ok c) (a b : String) :
    Performs t p (GraphService.connect (.str a) (.str b) p GraphService.callProperties)
      [.ok (some (a, b))] := by
  intro w hw _
  have hafter := after_connect hw (.str a) (.str b) p GraphService.callProperties
  refine ⟨.ok (), Prod.ext ?_ hafter, rfl⟩
  have hkeys : GraphService.checkKeys p [.str a, .str b] = .ok () := by
    unfold GraphService.checkKeys
    rw [p.checkKey_of_cell hc]
    rfl
  unfold GraphService.connect GraphService.connectIn
  rw [Run.ends_bind_ok _ (GraphService.ends_openSession hw),
    Run.ends_bind_ok _ (GraphService.ends_send hw _), Run.ends_bind_ok _ (Run.ends_note _ _), hkeys,
    Run.ends_bind_lift]
  simp only [Run.ends_bind_ok _ (Run.ends_get _)]
  split <;> rfl

theorem performs_connect (hc : p.cell = .ok c) (caller name : String) :
    Performs t p (connect s p caller name) [nameStep t s caller name] := by
  refine Performs.afterLook fun w hw => ?_
  rw [hw]
  unfold nameStep
  cases target? t s name with
  | error e => exact Performs.lift (.error e : Except Failure Unit)
  | ok found =>
    cases found with
    | none => exact Performs.lift (.ok () : Except Failure Unit)
    | some id => exact performs_request hc caller id

/-- The parts of a function are searched from the top down. -/
theorem performs_connectFunction (hc : p.cell = .ok c) (f : String × Node) :
    Performs t p (connectFunction src s p f.1 f.2) (functionSteps t src s f) := by
  unfold functionSteps
  refine Performs.afterReading (fun owner howner => ?_) fun e he => by rw [he]
  rw [howner]
  refine Performs.forM fun part _ => ?_
  unfold partSteps
  refine Performs.afterReading (fun names hnames => ?_) fun e he => by rw [he]
  rw [hnames]
  simp only [List.map_eq_flatMap]
  exact Performs.forM fun name _ => performs_connect hc f.1 name

end

end Calls

/-! ## The steps of the pass -/

namespace Routers

variable {t : FileTree} {s : Calls.Scope}

/-- Whether routers can be noted does not depend on those that were noted before. -/
theorem mountAll_map {α : Type} (a : α) (ms : List Mount) : ∀ table table' : RouterTable,
    (mountAll t s ms table).map (fun _ => a) = (mountAll t s ms table').map fun _ => a := by
  induction ms with
  | nil => exact fun _ _ => rfl
  | cons m ms ih =>
    intro table table'
    unfold mountAll mount
    rw [List.foldlM_cons, List.foldlM_cons]
    cases Resolve.functionTarget t s.index s.directory s.file m.router with
    | error e => rfl
    | ok router =>
      simp only [Run.ok_bind]
      cases dependencies t s m.depends with
      | error e => rfl
      | ok depends => exact ih _ _

end Routers

namespace Analysis
open Calls

variable {t : FileTree} {p : ProjectKey} {c : Cell} {directory : String}

def mountStep (t : FileTree) (s : Scope) (ms : List Mount) : Step :=
  (Routers.mountAll t s ms []).map fun _ => none

/-- Where the calls of a file are resolved. -/
def scopeOf (directory : String) (files : List SurveyedFile) (f : SurveyedFile) : Scope :=
  ⟨directory, f.path, indexOf directory files, definedIn directory files⟩

def fileSteps (t : FileTree) (s : Scope) (f : SurveyedFile) : List Step :=
  (f.functions s.directory).flatMap (functionSteps t f.source s) ++ [mountStep t s f.survey.mounts]

def passSteps (t : FileTree) (directory : String) (files : List SurveyedFile) : List Step :=
  files.flatMap fun f => fileSteps t (scopeOf directory files f) f

theorem performs_mountAll (s : Scope) (ms : List Mount) (table : RouterTable) :
    Performs t p (liftM (Routers.mountAll t s ms table) : Run RouterTable) [mountStep t s ms] := by
  rw [mountStep, Routers.mountAll_map none ms [] table]
  exact Performs.lift _

theorem performs_connectFile (hc : p.cell = .ok c) (files : List SurveyedFile)
    (routers : RouterTable) (f : SurveyedFile) :
    Performs t p (connectFile directory p (indexOf directory files) (definedIn directory files)
      routers f) (fileSteps t (scopeOf directory files f) f) := by
  refine Performs.bind (Performs.forM fun g _ => performs_connectFunction hc g) fun _ => ?_
  refine Performs.afterLook fun w hw => ?_
  rw [hw]
  exact performs_mountAll _ _ routers

/-- **The second pass** sends what its steps ask for, and ends as they do. -/
theorem performs_secondPass (hc : p.cell = .ok c) (files : List SurveyedFile) :
    Performs t p (secondPass directory p files) (passSteps t directory files) :=
  Performs.foldlM (fun f _ routers => performs_connectFile hc files routers f) []

end Analysis
end CodeAtlas
