import CodeAtlas.Analysis.Directory
import CodeAtlas.Proofs.Run

/-!
# What an analysis is made of

`Run.MadeOf Step r` says that a run is put together from steps of a sort and from looking at parts
of the world on which no step depends (`World.Agree`): settings, files, syntax trees, the projects
of the store and hosted repositories. What every step keeps, leads to or respects, the
whole run does (`MadeOf.keeps`, `MadeOf.leads`, `MadeOf.respects`).

* `Entry.madeOf_detect`: the detection of entry points is made of commands and questions to the
  graph service about its project (`GraphService.Own`);
* `Analysis.madeOf_analyse`: an analysis is made of these, of keeping entry points of its project,
  of notes and of the removal of folders (`Analysis.Own`).
-/
namespace CodeAtlas

/-- Two worlds agree on what an analysis looks at besides the graph and the entry points. -/
structure World.Agree (w v : World) : Prop where
  settings : w.settings = v.settings
  files : w.files = v.files
  trees : w.trees = v.trees
  projects : w.store.projects = v.store.projects
  hosted : w.hosted = v.hosted

namespace Run

variable {α β : Type}

/-- A run is made of steps, answers, failures and what it looks at: there it does the same in worlds
that agree. -/
inductive MadeOf (Step : (α : Type) → Run α → Prop) : (α : Type) → Run α → Prop
  | step {α : Type} {r : Run α} (h : Step α r) : MadeOf Step α r
  | pure {α : Type} (a : α) : MadeOf Step α (pure a)
  | lift {α : Type} (x : Except Failure α) : MadeOf Step α (liftM x)
  | look {α : Type} {k : World → Run α} (hk : ∀ w v, w.Agree v → k w = k v)
      (h : ∀ w, MadeOf Step α (k w)) : MadeOf Step α (get >>= k)
  | bind {α β : Type} {r : Run α} {f : α → Run β} (hr : MadeOf Step α r)
      (hf : ∀ a, MadeOf Step β (f a)) : MadeOf Step β (r >>= f)
  | outcome {α : Type} {r : Run α} (h : MadeOf Step α r) :
      MadeOf Step (Except Failure α) r.outcome

namespace MadeOf

variable {Step : (α : Type) → Run α → Prop}

theorem keeps {γ : Type} {part : World → γ} (hstep : ∀ α r, Step α r → Keeps part r) {r : Run α}
    (h : MadeOf Step α r) : Keeps part r := by
  induction h with
  | step h => exact hstep _ _ h
  | pure a => exact Keeps.pure a
  | lift x => exact Keeps.lift x
  | look _ _ ih => exact Keeps.get.bind ih
  | bind _ _ ihr ihf => exact ihr.bind ihf
  | outcome _ ih => exact ih.outcome

theorem leads {R : World → World → Prop} (hR : Passes R) (hstep : ∀ α r, Step α r → Leads R r)
    {r : Run α} (h : MadeOf Step α r) : Leads R r := by
  induction h with
  | step h => exact hstep _ _ h
  | pure a => exact hR.pure a
  | lift x => exact hR.lift x
  | look _ _ ih => exact hR.bind hR.refl ih
  | bind _ _ ihr ihf => exact hR.bind ihr ihf
  | @outcome _ r _ ih =>
    intro w
    rw [after, ends_outcome]
    exact ih w

theorem respects {R : World → World → Prop} (hagree : ∀ w v, R w v → w.Agree v)
    (hstep : ∀ α r, Step α r → Respects R r) {r : Run α} (h : MadeOf Step α r) :
    Respects R r := by
  induction h with
  | step h => exact hstep _ _ h
  | pure a => exact Respects.pure a
  | lift x => exact Respects.lift x
  | look hk _ ih => exact Respects.getBind (fun w v h => hk w v (hagree w v h)) ih
  | bind _ _ ihr ihf => exact ihr.bind ihf
  | outcome _ ih => exact ih.outcome

theorem imp {Step' : (α : Type) → Run α → Prop} (hstep : ∀ α r, Step α r → Step' α r) {r : Run α}
    (h : MadeOf Step α r) : MadeOf Step' α r := by
  induction h with
  | step h => exact .step (hstep _ _ h)
  | pure a => exact .pure a
  | lift x => exact .lift x
  | look hk _ ih => exact .look hk ih
  | bind _ _ ihr ihf => exact .bind ihr ihf
  | outcome _ ih => exact .outcome ih

theorem throw (e : Failure) : MadeOf Step α (throw e) := .lift (.error e)

theorem ite {c : Prop} [Decidable c] {r s : Run α} (hr : MadeOf Step α r) (hs : MadeOf Step α s) :
    MadeOf Step α (if c then r else s) := by
  split
  · exact hr
  · exact hs

theorem composes : Composes (MadeOf Step) := ⟨.pure, .bind⟩

/-! ### What is looked at -/

theorem setting? (name : String) : MadeOf Step (Option String) (setting? name) :=
  .look (fun w v h => by rw [h.settings]) fun _ => .pure _

theorem treeOf (src : String) : MadeOf Step Node (treeOf src) :=
  .look (fun w v h => by rw [h.trees]) fun _ => .pure _

theorem installedRepository (name : Json) :
    MadeOf Step HostedRepository (Hosting.installedRepository name) := by
  refine .bind (.bind (.lift _) fun n => ?_) fun b => .ite ?_ (.throw _)
  · exact .look (fun w v h => by rw [h.hosted]) fun _ => .pure _
  · refine .look (fun w v h => by rw [h.hosted]) fun w => .bind (.lift _) fun r => ?_
    split
    · exact .ite (.throw _) (.pure _)
    · exact .throw _

theorem projectOf (l : Code.Location) : MadeOf Step Project (Code.projectOf l) := by
  refine .bind (.lift _) fun key => .bind ?_ fun found => ?_
  · exact .look (fun w v h => by simp only [Store.project?, h.projects]) fun _ => .pure _
  · cases found with
    | none => exact .throw _
    | some q => exact .pure q

theorem hostedCode (node : List (String × Json)) :
    MadeOf Step (Option String) (Code.hosted node) := by
  refine .bind (.outcome ?_) fun _ => .pure _
  refine .bind (.lift _) fun l => .bind (projectOf l) fun q => ?_
  split
  · exact .bind (installedRepository _) fun r => .bind (.lift _) fun text =>
      .bind (.lift _) fun rows => .pure _
  · exact .throw _

end MadeOf
end Run

/-! ## Steps in the graph -/

/-- The commands and questions about a project that an analysis sends to the graph service. -/
inductive GraphService.Own (p : ProjectKey) : (α : Type) → Run α → Prop
  | upsert (id : Json) (ps : List (String × Json)) : Own p Unit (GraphService.upsert id p ps)
  | connect (a b properties : Json) : Own p Unit (GraphService.connect a b p properties)
  | extend (base derived : Json) : Own p Unit (GraphService.extend base derived p)
  | node? (id : Json) : Own p (Option GraphNode) (GraphService.node? id p)

namespace Analysis
open Run GraphService

variable {p : ProjectKey}

theorem madeOf_setNode (id : String) (ps : List (String × Json)) :
    MadeOf (Own p) Unit (setNode id p ps) := by
  refine .bind (.outcome (.step (.upsert _ _))) fun x => ?_
  split
  · exact .pure ()
  · exact .pure ()
  · exact .throw _

theorem madeOf_recordSurvey (directory path : String) (s : CodeAtlas.Survey) :
    MadeOf (Own p) Unit (recordSurvey directory path p s) := by
  refine .bind (MadeOf.composes.forM fun f _ => ?_) fun _ => ?_
  · cases f with
    | function f => exact madeOf_setNode _ _
    | «class» c => exact madeOf_setNode _ _
    | _ => exact .pure ()
  · split
    · exact .throw _
    · exact .pure ()

theorem madeOf_surveyFile (directory path : String) :
    MadeOf (Own p) SurveyedFile (surveyFile directory p path) := by
  refine .look (fun w v h => by rw [h.files]) fun w => .bind (.lift _) fun source => ?_
  exact .bind (.treeOf source) fun root => .bind (madeOf_recordSurvey directory path _) fun _ =>
    .pure _

theorem madeOf_inherit (models : ModelTable) (steps : Nat) :
    ∀ name, MadeOf (Own p) (Option String) (Inheritance.connect models p steps name) := by
  induction steps with
  | zero => exact fun name => .bind (.lift _) fun _ => .pure _
  | succ steps ih =>
    intro name
    rw [Inheritance.connect]
    refine .bind (.lift _) fun c => .ite (.pure _) (.bind (.lift _) fun bases => .ite (.pure _) ?_)
    refine .bind (MadeOf.composes.forM fun base _ => ?_) fun _ => .pure _
    exact .bind (.lift _) fun b => .bind (.step (.extend _ _)) fun _ => .bind (ih base) fun _ =>
      .pure _

theorem madeOf_connectAll (models : ModelTable) :
    MadeOf (Own p) Unit (Inheritance.connectAll models p) :=
  MadeOf.composes.forM fun name _ => .bind (madeOf_inherit models 3 name) fun _ => .pure _

theorem madeOf_calls (src : String) (s : Calls.Scope) (functions : Table String Node) :
    MadeOf (Own p) Unit (Calls.connectFile src s p functions) := by
  refine MadeOf.composes.forM fun f _ => .bind (.lift _) fun owner =>
    MadeOf.composes.forM fun part _ => ?_
  refine .bind (.lift _) fun names => MadeOf.composes.forM fun name _ => ?_
  refine .look (fun w v h => by rw [h.files]) fun w => .bind (.lift _) fun target => ?_
  cases target with
  | none => exact .pure _
  | some id => exact .step (.connect _ _ _)

theorem madeOf_connectFile (directory : String) (index : FileIndex) (defined : List String)
    (routers : RouterTable) (f : SurveyedFile) :
    MadeOf (Own p) RouterTable (connectFile directory p index defined routers f) :=
  .bind (madeOf_calls _ _ _) fun _ => .look (fun w v h => by rw [h.files]) fun _ => .lift _

end Analysis

/-! ## Steps of the detection -/

namespace Entry
open Run GraphService

variable {p : ProjectKey}

theorem madeOf_connectNamed (s : UrlPattern.Scope) (entry file key code : String) :
    MadeOf (Own p) Unit (UrlPattern.connectNamed s p entry file key code) := by
  unfold UrlPattern.connectNamed
  split
  · exact .pure _
  · refine .look (fun w v h => by rw [h.files]) fun w => .bind (.lift _) fun found => ?_
    split
    · exact .pure _
    · exact .ite (.pure _) (.step (.connect _ _ _))

theorem madeOf_connectView (s : UrlPattern.Scope) (entry file : String) (node : GraphNode) :
    MadeOf (Own p) Unit (UrlPattern.connectView s p entry file node) := by
  refine .bind (.hostedCode _) fun code => ?_
  cases code with
  | none => exact .throw _
  | some code =>
    refine MadeOf.composes.forM fun view _ => .ite ?_ (.pure _)
    exact .bind (madeOf_connectNamed s entry file _ code) fun _ =>
      madeOf_connectNamed s entry file _ code

theorem madeOf_ofPattern (src file : String) (s : UrlPattern.Scope) (n : Node) :
    MadeOf (Own p) (List (String × String)) (UrlPattern.ofPattern src file s p n) := by
  refine .bind (.lift _) fun l => ?_
  split
  · refine .ite (.pure _) (.look (fun w v h => by rw [h.files]) fun w => ?_)
    -- a class and a function are resolved differently, what follows is the same
    refine .ite (.bind (.lift _) ?entry) (.bind (.lift _) ?entry)
    intro found
    dsimp only
    split
    · exact .pure _
    · refine .ite (.pure _) (.bind (.step (.node? _)) fun node => ?_)
      split
      · exact .bind (madeOf_connectView s _ _ _) fun _ => .pure _
      · exact .pure _
  · exact .pure _

theorem madeOf_listed (s : UrlPattern.Scope) (folder : String) :
    MadeOf (Own p) (List (String × String)) (UrlPattern.below s folder p) := by
  refine .look (fun w v h => by rw [h.files]) fun w =>
    MadeOf.composes.gather fun file _ => ?_
  refine .look (fun w v h => by rw [h.files]) fun w => .bind (.lift _) fun src =>
    .bind (.treeOf src) fun root => MadeOf.composes.gather fun statement _ =>
      .bind (.lift _) fun found => ?_
  exact MadeOf.composes.gather fun p _ => madeOf_ofPattern src file s p

theorem madeOf_noteResponses (src id : String) (decorator : Node) :
    MadeOf (Own p) Unit (Decorator.noteResponses src id p decorator) := by
  refine MadeOf.composes.forM fun a _ => .bind (.lift _) fun response => ?_
  cases response with
  | none => exact .pure _
  | some response =>
    refine .bind (.step (.node? _)) fun n => ?_
    cases n with
    | none => exact .throw _
    | some n => exact .step (.upsert _ _)

theorem madeOf_decorated (directory file : String) :
    MadeOf (Own p) (List (String × String)) (decoratedIn directory p file) := by
  refine .look (fun w v h => by rw [h.files]) fun w => .bind (.lift _) fun src =>
    .bind (.treeOf src) fun root => MadeOf.composes.gather fun n _ =>
      .ite (MadeOf.composes.gather fun d _ => ?_) (.pure _)
  exact .ite (.bind (.lift _) fun id => .bind (.lift _) fun paths =>
    .bind (madeOf_noteResponses src id d) fun _ => .pure _) (.pure _)

/-- The detection of entry points is made of commands and questions to the graph service about its
project. -/
theorem madeOf_detect (s : Survey) : MadeOf (Own p) (List (String × String)) (detect s p) :=
  .bind (madeOf_listed _ _) fun listed => .look (fun w v h => by rw [h.files]) fun w =>
    .bind (MadeOf.composes.gather fun f _ => madeOf_decorated s.directory f) fun _ => .pure _

theorem madeOf_connectDependencies (routers : RouterTable) (found : List (String × String)) :
    MadeOf (Own p) Unit (connectDependencies routers p found) := by
  unfold connectDependencies
  split
  · exact .throw _
  · exact MadeOf.composes.forM fun d _ => .step (.connect _ _ _)

end Entry

/-! ## Steps of an analysis -/

namespace Analysis
open Run

variable {p : ProjectKey}

/-- The steps of an analysis. -/
inductive Own (p : ProjectKey) : (α : Type) → Run α → Prop
  | graph {α : Type} {r : Run α} (h : GraphService.Own p α r) : Own p α r
  | keep (routers : RouterTable) (f : String × String) :
      Own p Unit (Run.alter (Entry.keep routers p f))
  | note (e : Effect) : Own p Unit (Run.note e)
  | remove (path : String) : Own p Unit (Folder.remove path)

theorem madeOf_entries (s : Entry.Survey) (user : Json) :
    MadeOf (Own p) Unit (Entry.analyse s p user) :=
  .bind ((Entry.madeOf_detect s).imp fun _ _ => .graph) fun _ =>
    .bind (MadeOf.composes.forM fun f _ => .step (.keep s.routers f)) fun _ =>
      .bind ((Entry.madeOf_connectDependencies _ _).imp fun _ _ => .graph) fun _ => .step (.note _)

theorem madeOf_discard (path : Json) : MadeOf (Own p) Unit (Folder.discard path) := by
  refine .bind (.bind (.setting? _) fun _ => .pure _) fun b => .ite (.pure _) ?_
  split
  · exact .look (fun w v h => by rw [h.files]) fun w => .ite (.step (.remove _)) (.pure _)
  · exact .pure _

theorem madeOf_analyse (directory : String) (user : Json) :
    MadeOf (Own p) Unit (analyse directory user p) := by
  refine .bind (.look (fun w v h => by rw [h.files]) fun w => .bind ?_ fun files => ?_) fun files =>
    .bind ?_ fun routers => .bind (madeOf_entries _ user) fun _ => madeOf_discard _
  · exact (MadeOf.composes.mapM fun f _ => madeOf_surveyFile directory f).imp fun _ _ => .graph
  · refine .bind (.lift _) fun models => .bind ?_ fun _ => .pure _
    exact (madeOf_connectAll models).imp fun _ _ => .graph
  · exact (MadeOf.composes.foldlM (madeOf_connectFile directory _ _) files []).imp fun _ _ => .graph

end Analysis
end CodeAtlas
