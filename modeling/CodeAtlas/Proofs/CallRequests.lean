import CodeAtlas.Proofs.CallGraph
import CodeAtlas.Proofs.CallPass
import CodeAtlas.Proofs.DefinitionWalk
import CodeAtlas.Proofs.ResolvedTargets

/-!
# The calls that an analysis records

The first pass makes a node of every function, the second one connects them. A request that names
something else than a node would be passed over by the graph without a word.

* `Inheritance.joins_connectAll`: the edges that are asked for between classes;
* `Analysis.ends_firstPass`, `Analysis.sends_firstPass`: what the first pass sends to the graph;
* `Analysis.closed_passSteps`: the second pass asks only for calls between functions of the project;
* `Analysis.partSteps_plain`: a name of the same file means the function there;
* `Analysis.ended_passSteps`: no step fails if what names are bound to is known and the functions can
  be read;
* `Analysis.calls_requested`: what an analysis asks for, however its passes end;
* `Analysis.unnamed_callee_stops`: a name bound to a call without a named callee stops the pass.
-/
namespace CodeAtlas

/-! ## Runs that send commands -/

namespace GraphCommand

/-- A run that sends commands of a sort to the graph and changes nothing else, however it ends. -/
def Sends {α : Type} (Q : GraphCommand → Prop) (r : Run α) : Prop :=
  ∀ w : World, w.troubles = [] → ∃ cs, (∀ c ∈ cs, Q c) ∧ r.after w = sent w cs

section
variable {α β : Type} {Q : GraphCommand → Prop} {r : Run α} {f : α → Run β}

theorem Sends.of_same (h : ∀ w, r.after w = w) : Sends Q r := fun w _ =>
  ⟨[], by simp, by rw [h w, sent_nil]⟩

theorem Sends.bind (hr : Sends Q r) (hf : ∀ a, Sends Q (f a)) : Sends Q (r >>= f) := by
  intro w hw
  obtain ⟨cs, hcs, hafter⟩ := hr w hw
  rw [Run.after_bind]
  cases r.answer w with
  | error e => exact ⟨cs, hcs, hafter⟩
  | ok a =>
    obtain ⟨ds, hds, hafter'⟩ := hf a (sent w cs) hw
    refine ⟨cs ++ ds, fun c hc => (List.mem_append.1 hc).elim (hcs c) (hds c), ?_⟩
    rw [hafter]
    exact hafter'.trans (sent_append w cs ds)

theorem Sends.imp {R : GraphCommand → Prop} (hr : Sends Q r) (h : ∀ c, Q c → R c) : Sends R r := by
  intro w hw
  obtain ⟨cs, hcs, hafter⟩ := hr w hw
  exact ⟨cs, fun c hc => h c (hcs c hc), hafter⟩

theorem Sends.bind_lift {x : Except Failure α} (h : ∀ a, x = .ok a → Sends Q (f a)) :
    Sends Q ((liftM x : Run α) >>= f) := by
  intro w hw
  rw [Run.after, Run.ends_bind_lift]
  cases x with
  | error e => exact ⟨[], by simp, (sent_nil w).symm⟩
  | ok a => exact h a rfl w hw

theorem Sends.composes : Run.Composes fun _ r => Sends Q r :=
  ⟨fun _ => Sends.of_same fun _ => rfl, Sends.bind⟩

end

end GraphCommand

/-! ## The edges between classes -/

namespace Inheritance
open GraphCommand

/-- A command that connects two data models, by the names that `id` gives them. -/
def Joins (id : ClassText → String → String) (models : ModelTable) (p : ProjectKey)
    (c : GraphCommand) : Prop :=
  ∃ base ∈ models, ∃ derived ∈ models,
    c = .extend (.str (id base.2 base.1)) (.str (id derived.2 derived.1)) p

theorem mem_of_lookup {models : ModelTable} {name : String} {c : ClassText}
    (h : lookup models name = .ok c) : (name, c) ∈ models := by
  unfold lookup at h
  split at h
  · next hget =>
    cases h
    exact Table.mem_of_get? hget
  · cases h

theorem joins_connect (models : ModelTable) (p : ProjectKey) :
    ∀ steps name, Sends (Joins classId models p) (connect models p steps name)
  | 0, name => Sends.bind_lift fun _ _ => Sends.of_same fun _ => rfl
  | steps + 1, name => by
    unfold connect
    refine Sends.bind_lift fun c hc => ?_
    split
    · exact Sends.of_same fun _ => rfl
    · refine Sends.bind_lift fun bases _ => ?_
      split
      · exact Sends.of_same fun _ => rfl
      · refine (Sends.composes.forM fun base _ => ?_).bind fun _ => Sends.of_same fun _ => rfl
        refine Sends.bind_lift fun b hb => ?_
        refine Sends.bind (fun w hw => ⟨[_], ?_, after_extend hw _ _ p⟩) fun _ => ?_
        · simp only [List.mem_singleton, forall_eq]
          exact ⟨_, mem_of_lookup hb, _, mem_of_lookup hc, rfl⟩
        · exact (joins_connect models p steps base).bind fun _ => Sends.of_same fun _ => rfl

theorem joins_connectAll (models : ModelTable) (p : ProjectKey) :
    Sends (Joins classId models p) (connectAll models p) :=
  Sends.composes.forM fun name _ => (joins_connect models p 3 name).bind fun _ =>
    Sends.of_same fun _ => rfl

end Inheritance

/-! ## What commands leave in the graph -/

namespace GraphCommand

/-- A command about a definition: it sets a node or connects a class with a base. -/
def Declares : GraphCommand → Prop
  | upsert _ _ _ | extend _ _ _ => True
  | connect _ _ _ _ | delete _ => False

theorem declares_of_joins {id : ClassText → String → String} {models : ModelTable} {p : ProjectKey}
    {c : GraphCommand} (h : Inheritance.Joins id models p c) : c.Declares := by
  obtain ⟨base, -, derived, -, rfl⟩ := h
  trivial

theorem hasNode_effect {c : GraphCommand} (hc : c.Declares) {g : Graph} {p : ProjectKey} {id : Json}
    (h : g.hasNode p id = true) : (c.effect g).hasNode p id = true := by
  rw [Graph.hasNode_iff] at h ⊢
  cases c with
  | upsert a q ps =>
    simp only [effect]
    split
    · rw [Graph.map_key_upsert]
      split
      · exact h
      · exact List.mem_append_left _ h
    · exact h
  | connect a b q properties => exact hc.elim
  | extend a b q =>
    simp only [effect]
    split
    · unfold Graph.extend
      split <;> exact h
    · exact h
  | delete q => exact hc.elim

theorem hasNode_effects {cs : List GraphCommand} (hcs : ∀ c ∈ cs, c.Declares) {p : ProjectKey}
    {id : Json} {g : Graph} (h : g.hasNode p id = true) : (effects cs g).hasNode p id = true :=
  effects_keep (P := fun g => g.hasNode p id = true) (fun c hc _ => hasNode_effect (hcs c hc)) h

/-- A node that was set is there afterwards. -/
theorem hasNode_of_upsert {cs : List GraphCommand} (hcs : ∀ c ∈ cs, c.Declares) {p : ProjectKey}
    {c : Cell} (hc : p.cell = .ok c) {id : String} {ps : List (String × Json)}
    (h : .upsert (.str id) p ps ∈ cs) (g : Graph) :
    (effects cs g).hasNode p (.str id) = true := by
  obtain ⟨before, rest, rfl⟩ := List.append_of_mem h
  have hself : ((upsert (.str id) p ps).effect (effects before g)).hasNode p (.str id) = true := by
    simp only [effect, p.checkKeys_str hc]
    rw [Graph.hasNode_iff, Graph.map_key_upsert]
    split
    · next hn => exact Graph.hasNode_iff.1 hn
    · simp
  have hrest : ∀ c ∈ rest, c.Declares := fun c hc => hcs c (by simp [hc])
  rw [effects_append]
  exact hasNode_effects hrest hself

end GraphCommand

namespace Graph

variable {g : Graph} {p : ProjectKey} {x y a b : String}

theorem calls_iff : g.Calls p x y ↔
    ((p.meaning, (Json.str x).canonical), p.meaning, (Json.str y).canonical) ∈
      g.calls.map CallEdge.key := by
  simp [Calls, CallEdge.is_iff]

theorem Calls.connect (h : g.Calls p x y) (ps : List (String × Json)) :
    (g.connect p (.str a) (.str b) ps).Calls p x y := by
  rw [calls_iff] at h ⊢
  rw [map_key_connect]
  split
  · exact List.mem_append_left _ h
  · exact h

theorem calls_connect_self (h : g.hasNodes p (.str a) (.str b) = true) (ps : List (String × Json)) :
    (g.connect p (.str a) (.str b) ps).Calls p a b := by
  rw [calls_iff, map_key_connect, h]
  cases hany : g.calls.any fun e => e.is p (.str a) (.str b) with
  | false => simp
  | true =>
    obtain ⟨e, he, his⟩ := List.any_eq_true.1 hany
    exact calls_iff.1 ⟨e, he, his⟩

end Graph

namespace Calls
open GraphCommand

variable {p : ProjectKey} {c : Cell}

theorem effect_request (hc : p.cell = .ok c) (e : String × String) (g : Graph) :
    (request p e).effect g = g.connect p (.str e.1) (.str e.2) [("action", .str "calls")] := by
  have hkeys : GraphService.checkKeys p [.str e.1, .str e.2] = .ok () := by
    unfold GraphService.checkKeys
    rw [p.checkKey_of_cell hc]
    rfl
  simp only [request, effect, hkeys]
  rfl

theorem calls_requests_mono (hc : p.cell = .ok c) {x y : String} (es : List (String × String))
    {g : Graph} (h : g.Calls p x y) : (effects (es.map (request p)) g).Calls p x y := by
  refine effects_keep (P := fun g => g.Calls p x y) (fun cmd hcmd g hg => ?_) h
  obtain ⟨e, -, rfl⟩ := List.mem_map.1 hcmd
  rw [effect_request hc]
  exact hg.connect _

theorem calls_requests (hc : p.cell = .ok c) (es : List (String × String)) : ∀ {g : Graph},
    (∀ e ∈ es, g.hasNodes p (.str e.1) (.str e.2) = true) →
      ∀ e ∈ es, (effects (es.map (request p)) g).Calls p e.1 e.2 := by
  induction es with
  | nil => exact fun _ e he => by cases he
  | cons d es ih =>
    intro g hg e he
    have hstep : (effects ((d :: es).map (request p)) g) =
        effects (es.map (request p))
          (g.connect p (.str d.1) (.str d.2) [("action", .str "calls")]) :=
      congrArg (effects (es.map (request p))) (effect_request hc d g)
    rw [hstep]
    rcases List.mem_cons.1 he with rfl | he
    · exact calls_requests_mono hc es (Graph.calls_connect_self (hg _ List.mem_cons_self) _)
    · refine ih (fun e he => ?_) e he
      rw [Graph.hasNodes, Graph.hasNode, Graph.hasNode, Graph.node?, Graph.node?,
        Graph.connect_nodes]
      exact hg e (List.mem_cons_of_mem d he)

end Calls

/-! ## The first pass -/

namespace Analysis
open GraphCommand Calls

variable {p : ProjectKey} {c : Cell} {directory : String} {w v : World}

def SurveyedFile.commands (directory : String) (p : ProjectKey) (f : SurveyedFile) :
    List GraphCommand :=
  f.survey.findings.filterMap (command? directory f.path p)

/-- A file of a world and what a survey finds in it. -/
structure SurveyedIn (w : World) (f : SurveyedFile) : Prop where
  source : w.files.readText f.path = .ok f.source
  survey : f.survey = Survey.ofTree f.source
    ((Table.get? w.trees f.source).getD (Node.whole f.source))

theorem ends_surveyFile (hw : w.troubles = []) (hc : p.cell = .ok c) {path : String}
    {f : SurveyedFile} (h : (surveyFile directory p path).ends w = (.ok f, v)) :
    f.path = path ∧ SurveyedIn w f ∧ v = sent w (f.commands directory p) := by
  unfold surveyFile at h
  rw [Run.ends_bind_ok _ (Run.ends_get w), Run.ends_bind_lift] at h
  cases hsource : w.files.readText path with
  | error e => rw [hsource] at h; cases h
  | ok source =>
    rw [hsource] at h
    obtain ⟨root, u, hroot, h⟩ := Run.ends_bind_eq_ok h
    cases hroot
    obtain ⟨_, u, hrecord, h⟩ := Run.ends_bind_eq_ok h
    rw [ends_recordSurvey directory path hw hc] at hrecord
    cases h
    exact ⟨rfl, ⟨hsource, rfl⟩, (congrArg Prod.snd hrecord).symm⟩

theorem ends_surveyFiles (hc : p.cell = .ok c) {paths : List String} :
    ∀ {w v : World} {files : List SurveyedFile}, w.troubles = [] →
      (paths.mapM (surveyFile directory p)).ends w = (.ok files, v) →
      files.map SurveyedFile.path = paths ∧ (∀ f ∈ files, SurveyedIn w f) ∧
        v = sent w (files.flatMap (SurveyedFile.commands directory p)) := by
  induction paths with
  | nil =>
    intro w v files _ h
    cases h
    exact ⟨rfl, by simp, (sent_nil w).symm⟩
  | cons path paths ih =>
    intro w v files hw h
    rw [List.mapM_cons] at h
    obtain ⟨f, u, hf, h⟩ := Run.ends_bind_eq_ok h
    obtain ⟨fs, u', hfs, h⟩ := Run.ends_bind_eq_ok h
    cases h
    obtain ⟨hpath, hin, rfl⟩ := ends_surveyFile hw hc hf
    obtain ⟨hpaths, hins, rfl⟩ := ih (w := sent w _) hw hfs
    refine ⟨by simp [hpath, hpaths], ?_, by rw [sent_append, List.flatMap_cons]⟩
    rw [List.forall_mem_cons]
    exact ⟨hin, fun g hg => ⟨(hins g hg).source, (hins g hg).survey⟩⟩

/-- What the first pass sends to the graph: the definitions of the source files, and then nothing
but connections of classes with their bases. -/
theorem ends_firstPass (hw : w.troubles = []) (hc : p.cell = .ok c) {files : List SurveyedFile}
    (h : (firstPass directory p).ends w = (.ok files, v)) :
    files.map SurveyedFile.path = w.files.sources directory ∧ (∀ f ∈ files, SurveyedIn w f) ∧
      ∃ models cs, (∀ c ∈ cs, Inheritance.Joins Inheritance.classId models p c) ∧
        v = sent w (files.flatMap (SurveyedFile.commands directory p) ++ cs) := by
  unfold firstPass at h
  rw [Run.ends_bind_ok _ (Run.ends_get w)] at h
  obtain ⟨fs, u, hfs, h⟩ := Run.ends_bind_eq_ok h
  obtain ⟨hpaths, hin, rfl⟩ := ends_surveyFiles hc hw hfs
  obtain ⟨models, u, hmodels, h⟩ := Run.ends_bind_eq_ok h
  obtain ⟨_, u', hextends, h⟩ := Run.ends_bind_eq_ok h
  cases h
  obtain rfl : sent w (files.flatMap (SurveyedFile.commands directory p)) = u :=
    congrArg Prod.snd hmodels
  obtain ⟨cs, hcs, hafter⟩ := Inheritance.joins_connectAll models p
    (sent w (files.flatMap (SurveyedFile.commands directory p))) hw
  refine ⟨hpaths, hin, models, cs, hcs, ?_⟩
  rw [← sent_append, ← hafter]
  exact (congrArg Prod.snd hextends).symm

def UpsertedIn (cs : List GraphCommand) (p : ProjectKey) (id : String) : Prop :=
  ∃ ps, .upsert (.str id) p ps ∈ cs ∧ ("type", .str "function") ∈ ps

theorem mem_functions {f : SurveyedFile} {g : String × Node} (h : g ∈ f.functions directory) :
    ∃ d ∈ f.survey.functions, g.1 = identifier directory f.path d.name := by
  rcases Table.mem_setAll h with h | h
  · cases h
  · obtain ⟨d, hd, rfl⟩ := List.mem_map.1 h
    exact ⟨d, hd, rfl⟩

theorem mem_definedIn {files : List SurveyedFile} {f : SurveyedFile} (hf : f ∈ files)
    {g : String × Node} (hg : g ∈ f.functions directory) : g.1 ∈ definedIn directory files :=
  List.mem_flatMap.2 ⟨f, hf, List.mem_map.2 ⟨g, hg, rfl⟩⟩

/-- Every function of the project is set as a node in the first pass. -/
theorem upsertedIn_of_mem (p : ProjectKey) {files : List SurveyedFile} {id : String}
    (h : id ∈ definedIn directory files) :
    UpsertedIn (files.flatMap (SurveyedFile.commands directory p)) p id := by
  obtain ⟨f, hf, hid⟩ := List.mem_flatMap.1 h
  obtain ⟨g, hg, rfl⟩ := List.mem_map.1 hid
  obtain ⟨d, hd, hname⟩ := mem_functions hg
  obtain ⟨finding, hfinding, hfunction⟩ := List.mem_filterMap.1 hd
  have hcommand : command? directory f.path p finding = some (.upsert (.str g.1) p
      (functionProperties f.path d.signature)) := by
    cases finding <;> cases hfunction
    rw [hname]
    rfl
  refine ⟨functionProperties f.path d.signature, ?_, by simp [functionProperties]⟩
  exact List.mem_flatMap.2 ⟨f, hf, List.mem_filterMap.2 ⟨finding, hfinding, hcommand⟩⟩

theorem declares_command {path : String} {findings : List Finding} {cmd : GraphCommand}
    (h : cmd ∈ findings.filterMap (command? directory path p)) : cmd.Declares := by
  obtain ⟨finding, -, hfinding⟩ := List.mem_filterMap.1 h
  cases finding <;> cases hfinding <;> trivial

/-- The first pass asks for no calls, however it ends. -/
theorem sends_firstPass (directory : String) (hc : p.cell = .ok c) :
    Sends Declares (firstPass directory p) := by
  have hfile (path : String) : Sends Declares (surveyFile directory p path) := by
    refine (Sends.of_same fun _ => rfl).bind fun w => ?_
    refine (Sends.of_same fun _ => rfl).bind fun source => ?_
    refine (Sends.of_same fun _ => rfl).bind fun root => ?_
    refine Sends.bind (fun w hw => ?_) fun _ => Sends.of_same fun _ => rfl
    exact ⟨_, fun _ => declares_command,
      congrArg Prod.snd (ends_recordSurvey directory path hw hc _)⟩
  refine (Sends.of_same fun _ => rfl).bind fun w => ?_
  refine (Sends.composes.mapM fun path _ => hfile path).bind fun files => ?_
  refine (Sends.of_same fun _ => rfl).bind fun models => ?_
  exact ((Inheritance.joins_connectAll models p).imp fun _ => declares_of_joins).bind fun _ =>
    Sends.of_same fun _ => rfl

/-! ## Calls inside the project -/

section
variable {t : FileTree} {files : List SurveyedFile}

theorem mem_defined_of_target {s : Scope} {name id : String}
    (h : target? t s name = .ok (some id)) : id ∈ s.defined := by
  obtain ⟨x, -, h⟩ := Run.bind_eq_ok h
  simpa using (Option.filter_eq_some_iff.1 (Except.ok.inj h)).2

theorem mem_functionSteps {src : String} {s : Scope} {f : String × Node} {e : String × String}
    (h : .ok (some e) ∈ functionSteps t src s f) : e.1 = f.1 ∧ e.2 ∈ s.defined := by
  unfold functionSteps at h
  split at h
  · obtain ⟨part, -, h⟩ := List.mem_flatMap.1 h
    unfold partSteps at h
    split at h
    · obtain ⟨name, -, h⟩ := List.mem_map.1 h
      unfold nameStep at h
      cases htarget : target? t s name with
      | error e => rw [htarget] at h; cases h
      | ok found =>
        rw [htarget] at h
        obtain ⟨id, rfl, rfl⟩ := Option.map_eq_some_iff.1 (Except.ok.inj h)
        exact ⟨rfl, mem_defined_of_target htarget⟩
    · simp at h
  · simp at h

/-- The second pass asks only for calls from one function of the project to another. -/
theorem closed_passSteps {e : String × String}
    (h : .ok (some e) ∈ passSteps t directory files) :
    e.1 ∈ definedIn directory files ∧ e.2 ∈ definedIn directory files := by
  obtain ⟨f, hf, h⟩ := List.mem_flatMap.1 h
  rcases List.mem_append.1 h with h | h
  · obtain ⟨g, hg, h⟩ := List.mem_flatMap.1 h
    obtain ⟨hcaller, hcallee⟩ := mem_functionSteps h
    exact ⟨hcaller ▸ mem_definedIn hf hg, hcallee⟩
  · -- what routers are mounted asks for no call
    have hmount := List.mem_singleton.1 h
    unfold mountStep at hmount
    cases hall : Routers.mountAll t (scopeOf directory files f) f.survey.mounts [] with
    | error e => rw [hall] at hmount; cases hmount
    | ok table => rw [hall] at hmount; cases hmount

/-- A call of a plain name. -/
structure PlainCall (src : String) (n : Node) (name : String) : Prop where
  kind : n.kind = "call"
  callee : ∃ c, n.children.head? = some c ∧ c.kind = "identifier" ∧ c.text src = .ok name
  nonempty : name ≠ ""

theorem namesAt_plain {src name : String} {n : Node} (h : PlainCall src n name)
    (owner : Option String) : namesAt src owner n = .ok [name] := by
  obtain ⟨hkind, ⟨c, hc, hid, htext⟩, hne⟩ := h
  obtain ⟨cs, hcs⟩ : ∃ cs, n.children = c :: cs := List.head?_eq_some_iff.1 hc
  have hcall : Callee.ofCall src owner n = .ok (some name) := by
    rw [Callee.ofCall, hcs, Callee.ofChildren, if_pos (by simp [hid]), htext]
    rfl
  unfold namesAt
  rw [if_neg (by simp [hkind]), if_pos (by simp [hkind]), hcall]
  exact congrArg Except.ok (if_neg (by simpa using hne))

theorem partSteps_plain {src name : String} {s : Scope} {n : Node} (h : PlainCall src n name)
    (hown : identifier s.directory s.file name ∈ s.defined) (caller : String)
    (owner : Option String) : partSteps t src s caller owner n =
      [.ok (some (caller, identifier s.directory s.file name))] := by
  have htarget : target? t s name = .ok (some (identifier s.directory s.file name)) := by
    simp only [target?, meant?, List.contains_iff_mem.2 hown, if_true]
    simp [Option.filter, hown, pure, Except.pure, bind, Except.bind]
  simp only [partSteps, namesAt_plain h, List.map_cons, List.map_nil, nameStep, htarget]
  rfl

theorem exists_ownerOf (path name : String) :
    ∃ owner, ownerOf (path ++ ":" ++ name) = .ok owner := by
  have hlen : 2 ≤ (Text.fields ':' (path ++ ":" ++ name)).length := by
    rw [Text.length_fields]
    simp only [String.toList_append, List.count_append]
    have : ":".toList.count ':' = 1 := rfl
    omega
  unfold ownerOf
  match hfields : Text.fields ':' (path ++ ":" ++ name) with
  | [] => simp [hfields] at hlen
  | [_] => simp [hfields] at hlen
  | _ :: name :: _ =>
    match hparts : Text.fields '.' name with
    | owner :: _ :: _ => exact ⟨some owner, by simp [hparts]⟩
    | [_] => exact ⟨none, by simp [hparts]⟩
    | [] => exact ⟨none, by simp [hparts]⟩

theorem exists_flatMap {α β : Type} (g : α → List β) {l : List α} {a : α} (h : a ∈ l) :
    ∃ before rest, l.flatMap g = before ++ g a ++ rest := by
  obtain ⟨xs, ys, rfl⟩ := List.append_of_mem h
  exact ⟨xs.flatMap g, ys.flatMap g, by simp⟩

theorem exists_functionSteps {f : SurveyedFile} {g : String × Node}
    (hg : g ∈ f.functions directory) (src : String) (s : Scope) :
    ∃ owner, functionSteps t src s g = g.2.preorder.flatMap (partSteps t src s g.1 owner) := by
  obtain ⟨d, -, hname⟩ := mem_functions hg
  obtain ⟨owner, howner⟩ := exists_ownerOf (Text.remove directory f.path) d.name
  exact ⟨owner, by rw [functionSteps, hname, identifier, howner]⟩

theorem exists_partSteps {f : SurveyedFile} (hf : f ∈ files) {g : String × Node}
    (hg : g ∈ f.functions directory) {part : Node} (hpart : part ∈ g.2.preorder) :
    ∃ owner before rest, passSteps t directory files = before ++
      partSteps t f.source (scopeOf directory files f) g.1 owner part ++ rest := by
  obtain ⟨owner, hsteps⟩ := exists_functionSteps (t := t) hg f.source (scopeOf directory files f)
  obtain ⟨b₁, r₁, hfile⟩ :=
    exists_flatMap (fun f => fileSteps t (scopeOf directory files f) f) hf
  obtain ⟨b₂, r₂, hfunction⟩ :=
    exists_flatMap (functionSteps t f.source (scopeOf directory files f)) hg
  obtain ⟨b₃, r₃, hpart⟩ :=
    exists_flatMap (partSteps t f.source (scopeOf directory files f) g.1 owner) hpart
  refine ⟨owner, b₁ ++ (b₂ ++ b₃), r₃ ++ (r₂ ++ [mountStep t (scopeOf directory files f)
    f.survey.mounts] ++ r₁), ?_⟩
  have hdirectory : (scopeOf directory files f).directory = directory := rfl
  rw [passSteps, hfile, fileSteps, hdirectory, hfunction, hsteps, hpart]
  simp only [List.append_assoc]

end

end Analysis

/-! ## When names can be resolved -/

namespace Calls

variable {t : FileTree} {s : Scope} {e : FileEntry}

theorem exists_meant (h : Resolve.Bound s.index) (he : Table.get? s.index s.file = some e)
    (name : String) : ∃ x, meant? t s name = .ok x := by
  simp only [meant?]
  split
  · exact ⟨_, rfl⟩
  · obtain ⟨found, hfound⟩ := Resolve.exists_functionTarget h he name
    rw [hfound, Run.ok_bind]
    exact ⟨_, rfl⟩

theorem exists_target (h : Resolve.Bound s.index) (he : Table.get? s.index s.file = some e)
    (name : String) : ∃ x, target? t s name = .ok x := by
  obtain ⟨x, hx⟩ := exists_meant (t := t) h he name
  exact ⟨x.filter s.defined.contains, by rw [target?, hx]; rfl⟩

theorem exists_dependencies (h : Resolve.Bound s.index) (he : Table.get? s.index s.file = some e)
    (names : List String) : ∃ ids, Routers.dependencies t s names = .ok ids := by
  induction names with
  | nil => exact ⟨[], rfl⟩
  | cons name names ih =>
    obtain ⟨x, hx⟩ := exists_meant (t := t) h he name
    obtain ⟨ids, hids⟩ := ih
    unfold Routers.dependencies
    rw [hx, Run.ok_bind]
    cases x with
    | none => exact ⟨ids, hids⟩
    | some id =>
      simp only [hids]
      exact ⟨_, rfl⟩

theorem exists_mountAll (h : Resolve.Bound s.index) (he : Table.get? s.index s.file = some e)
    (ms : List Mount) : ∀ table, ∃ table', Routers.mountAll t s ms table = .ok table' := by
  induction ms with
  | nil => exact fun table => ⟨table, rfl⟩
  | cons m ms ih =>
    intro table
    obtain ⟨router, hrouter⟩ := Resolve.exists_functionTarget h he m.router
    obtain ⟨ids, hids⟩ := exists_dependencies (t := t) h he m.depends
    unfold Routers.mountAll Routers.mount
    rw [List.foldlM_cons, hrouter, hids]
    exact ih _

/-- What the grammar promises about a function: the texts of its parts can be read, and an attribute
has a name. -/
structure Readable (src : String) (n : Node) : Prop where
  text : ∀ m ∈ n.preorder, ∃ s, m.text src = .ok s
  named : ∀ m ∈ n.preorder, m.kind = "attribute" → ∃ c ∈ m.children, c.kind = "identifier"

instance (src : String) (n : Node) : Decidable (Readable src n) :=
  decidable_of_iff (n.preorder.all (fun m => (m.text src).toOption.isSome &&
      (m.kind != "attribute" || m.children.any fun c => c.kind == "identifier")) = true) <| by
    have hnamed (m : Node) : (m.kind != "attribute" || m.children.any fun c =>
        c.kind == "identifier") = true ↔
          (m.kind = "attribute" → ∃ c ∈ m.children, c.kind = "identifier") := by
      by_cases hm : m.kind = "attribute" <;> simp [hm]
    simp only [List.all_eq_true, Bool.and_eq_true, Run.isSome_toOption_iff, hnamed]
    exact ⟨fun h => ⟨fun m hm => (h m hm).1, fun m hm => (h m hm).2⟩,
      fun h m hm => ⟨h.text m hm, h.named m hm⟩⟩

theorem exists_joined {src : String} {cs : List Node} (h : ∀ c ∈ cs, ∃ s, c.text src = .ok s) :
    ∀ name, (name ≠ none ∨ ∃ c ∈ cs, c.kind = "identifier") →
      ∃ n, Callee.joined src name cs = .ok (some n) := by
  induction cs with
  | nil =>
    intro name hname
    obtain ⟨n, rfl⟩ := Option.ne_none_iff_exists'.1 (hname.resolve_right (by simp))
    exact ⟨n, rfl⟩
  | cons c cs ih =>
    intro name hname
    rw [List.forall_mem_cons] at h
    obtain ⟨s, hs⟩ := h.1
    unfold Callee.joined
    rw [hs]
    split
    · exact ih h.2 _ (Or.inl (by simp))
    · split
      · simp only [Run.ok_bind]
        split
        · split <;> exact ih h.2 _ (Or.inl (by simp))
        · exact ih h.2 _ (Or.inl (by simp))
      · next hkind =>
        refine ih h.2 name (hname.imp_right ?_)
        rintro ⟨d, hd, hid⟩
        rcases List.mem_cons.1 hd with rfl | hd
        · simp [hid] at hkind
        · exact ⟨d, hd, hid⟩

theorem exists_namesAt {src : String} {n m : Node} (h : Readable src n) (hm : m ∈ n.preorder)
    (owner : Option String) : ∃ names, namesAt src owner m = .ok names := by
  have hcallee : ∀ cs, (∀ c ∈ cs, c ∈ m.children) →
      ∃ name, Callee.ofChildren src owner cs = .ok name := by
    intro cs
    induction cs with
    | nil => exact fun _ => ⟨none, rfl⟩
    | cons c cs ih =>
      intro hcs
      rw [List.forall_mem_cons] at hcs
      have hc := Node.mem_preorder_child hm hcs.1
      obtain ⟨s, hs⟩ := h.text c hc
      unfold Callee.ofChildren
      rw [hs]
      split
      · exact ⟨some s, rfl⟩
      · split
        · next hkind =>
          obtain ⟨name, hname⟩ := exists_joined
            (fun d hd => h.text d (Node.mem_preorder_child hc hd)) none
            (Or.inr (h.named c hc (beq_iff_eq.1 hkind)))
          rw [hname, Run.ok_bind]
          unfold Callee.inClass
          split
          · exact ⟨_, rfl⟩
          · split <;> exact ⟨_, rfl⟩
        · exact ih hcs.2
  unfold namesAt
  split
  · obtain ⟨s, hs⟩ := h.text m hm
    rw [hs]
    exact ⟨_, rfl⟩
  · split
    · obtain ⟨name, hname⟩ := hcallee m.children fun c hc => hc
      rw [Callee.ofCall, hname, Run.ok_bind]
      cases name <;> exact ⟨_, rfl⟩
    · exact ⟨[], rfl⟩

end Calls

namespace Analysis
open GraphCommand Calls

variable {t : FileTree} {p : ProjectKey} {c : Cell} {directory : String} {files : List SurveyedFile}

theorem bound_indexOf (h : ∀ f ∈ files, ∀ b ∈ f.survey.bindings, b.2 ≠ none) :
    Resolve.Bound (indexOf directory files) := by
  intro path e he b hb
  rcases Table.mem_setAll (Table.mem_of_get? he) with hm | hm
  · cases hm
  · obtain ⟨f, hf, hentry⟩ := List.mem_map.1 hm
    cases hentry
    exact h f hf b hb

theorem exists_entry {f : SurveyedFile} (hf : f ∈ files) :
    ∃ e, Table.get? (indexOf directory files) f.path = some e :=
  Table.exists_get?_setAll (Or.inr ⟨_, List.mem_map.2 ⟨f, hf, rfl⟩⟩)

theorem ended_passSteps (hbound : ∀ f ∈ files, ∀ b ∈ f.survey.bindings, b.2 ≠ none)
    (hread : ∀ f ∈ files, ∀ g ∈ f.functions directory, Readable f.source g.2) :
    ended (passSteps t directory files) = none := by
  rw [ended_eq_none_iff]
  intro step hstep
  obtain ⟨f, hf, hstep⟩ := List.mem_flatMap.1 hstep
  obtain ⟨e, he⟩ : ∃ e, Table.get? (indexOf directory files) f.path = some e := exists_entry hf
  have hindex : Resolve.Bound (indexOf directory files) := bound_indexOf hbound
  rcases List.mem_append.1 hstep with hstep | hstep
  · obtain ⟨g, hg, hstep⟩ := List.mem_flatMap.1 hstep
    obtain ⟨owner, hsteps⟩ := exists_functionSteps (t := t) hg f.source (scopeOf directory files f)
    rw [hsteps] at hstep
    obtain ⟨part, hpart, hstep⟩ := List.mem_flatMap.1 hstep
    obtain ⟨names, hnames⟩ := exists_namesAt (hread f hf g hg) hpart owner
    rw [partSteps, hnames] at hstep
    obtain ⟨name, -, rfl⟩ := List.mem_map.1 hstep
    obtain ⟨x, hx⟩ := exists_target (t := t) (s := scopeOf directory files f) hindex he name
    exact ⟨x.map _, by rw [nameStep, hx]; rfl⟩
  · obtain ⟨table, htable⟩ := exists_mountAll (t := t) (s := scopeOf directory files f) hindex he
      f.survey.mounts []
    exact ⟨none, by rw [List.mem_singleton.1 hstep, mountStep, htable]; rfl⟩

theorem recorded_firstPass {w v : World} (hw : w.troubles = []) (hc : p.cell = .ok c)
    (h : (firstPass directory p).ends w = (.ok files, v)) :
    ∃ first, v = sent w first ∧ (∀ cmd ∈ first, cmd.Declares) ∧
      ∀ id ∈ definedIn directory files,
        UpsertedIn first p id ∧ v.graph.hasNode p (.str id) = true := by
  obtain ⟨-, -, models, cs, hcs, hv⟩ := ends_firstPass hw hc h
  have hdeclares : ∀ cmd ∈ files.flatMap (SurveyedFile.commands directory p) ++ cs,
      cmd.Declares := by
    intro cmd hcmd
    rcases List.mem_append.1 hcmd with hcmd | hcmd
    · obtain ⟨f, -, hcmd⟩ := List.mem_flatMap.1 hcmd
      exact declares_command hcmd
    · exact declares_of_joins (hcs cmd hcmd)
  refine ⟨_, hv, hdeclares, fun id hid => ?_⟩
  obtain ⟨ps, hps, htype⟩ := upsertedIn_of_mem p hid
  have hset := List.mem_append_left cs hps
  refine ⟨⟨ps, hset, htype⟩, ?_⟩
  rw [hv]
  exact hasNode_of_upsert hdeclares hc hset w.graph

/-- What the second pass over files asks for, where the first pass sent some commands and left the
world `v`. -/
structure CallsRequested (directory : String) (p : ProjectKey) (files : List SurveyedFile)
    (first : List GraphCommand) (v : World) (x : Except Failure RouterTable) : Prop where
  /-- The pass sends what its steps ask for up to the first failure, and ends with that. -/
  ends : (secondPass directory p files).ends v =
    (x, sent v ((issued (passSteps v.files directory files)).map (request p)))
  fails : failure? x = ended (passSteps v.files directory files)
  /-- Both ends of a call were set as nodes by the first pass, so the call is made. -/
  closed : ∀ e ∈ issued (passSteps v.files directory files), UpsertedIn first p e.1 ∧
    UpsertedIn first p e.2 ∧ ((secondPass directory p files).after v).graph.Calls p e.1 e.2
  /-- A call of a plain name that is defined in the file asks for the function there and for nothing
  else. It is requested unless a step before it fails. -/
  own : ∀ f ∈ files, ∀ g ∈ f.functions directory, ∀ call ∈ g.2.preorder, ∀ name,
    PlainCall f.source call name → identifier directory f.path name ∈ definedIn directory files →
    ∃ owner before rest,
      passSteps v.files directory files = before ++
        partSteps v.files f.source (scopeOf directory files f) g.1 owner call ++ rest ∧
      partSteps v.files f.source (scopeOf directory files f) g.1 owner call =
        [.ok (some (g.1, identifier directory f.path name))] ∧
      (ended before = none →
        (g.1, identifier directory f.path name) ∈ issued (passSteps v.files directory files))
  /-- No step fails if every name that is bound to a call is bound to one whose callee is known. -/
  resolved : (∀ f ∈ files, ∀ b ∈ f.survey.bindings, b.2 ≠ none) →
    (∀ f ∈ files, ∀ g ∈ f.functions directory, Readable f.source g.2) → ∃ routers, x = .ok routers

theorem callsRequested_of_firstPass {w v : World} (hw : w.troubles = []) (hc : p.cell = .ok c)
    (h : (firstPass directory p).ends w = (.ok files, v)) :
    ∃ first x, v = sent w first ∧ (∀ cmd ∈ first, cmd.Declares) ∧
      CallsRequested directory p files first v x := by
  obtain ⟨first, hv, hdeclares, hrecorded⟩ := recorded_firstPass hw hc h
  have hcalm : v.troubles = [] := by rw [hv]; exact hw
  obtain ⟨x, hends, hfails⟩ : ∃ x, (secondPass directory p files).ends v =
      (x, sent v ((issued (passSteps v.files directory files)).map (request p))) ∧
        failure? x = ended (passSteps v.files directory files) :=
    performs_secondPass hc files v hcalm rfl
  have hclosed {e : String × String} (he : e ∈ issued (passSteps v.files directory files)) :=
    closed_passSteps (mem_of_mem_issued he)
  refine ⟨first, x, hv, hdeclares, hends, hfails, fun e he => ?_,
    fun f hf g hg call hcall name hplain hown => ?_, fun hbound hread => ?_⟩
  · refine ⟨(hrecorded _ (hclosed he).1).1, (hrecorded _ (hclosed he).2).1, ?_⟩
    rw [Run.after, hends]
    refine calls_requests hc _ (fun d hd => Graph.hasNodes_iff.2 ?_) e he
    exact ⟨(hrecorded _ (hclosed hd).1).2, (hrecorded _ (hclosed hd).2).2⟩
  · obtain ⟨owner, before, rest, hsteps⟩ := exists_partSteps (t := v.files) hf hg hcall
    have hpart := partSteps_plain (t := v.files) (s := scopeOf directory files f) hplain hown g.1
      owner
    refine ⟨owner, before, rest, hsteps, hpart, fun hbefore => ?_⟩
    rw [hsteps, hpart, List.append_assoc, issued_append, if_pos hbefore]
    exact List.mem_append_right _ List.mem_cons_self
  · rw [ended_passSteps hbound hread] at hfails
    cases x with
    | error e => cases hfails
    | ok routers => exact ⟨routers, rfl⟩

/-- **The calls of a project**: every call that an analysis asks for leads from one function to
another that the first pass made nodes of. A call inside a file is asked for unless a pass was
stopped before: the first by a file that cannot be surveyed, the second by a name that cannot be
resolved. -/
theorem calls_requested {w : World} (hw : w.troubles = []) (hc : p.cell = .ok c) :
    (∀ e v, (firstPass directory p).ends w = (.error e, v) →
      (∀ user, (analyse directory user p).ends w = (.error e, v)) ∧
      ∃ first, v = sent w first ∧ ∀ cmd ∈ first, cmd.Declares) ∧
    ∀ files v, (firstPass directory p).ends w = (.ok files, v) →
      (∀ user, (analyse directory user p).ends w = (do
        let routers ← secondPass directory p files
        Entry.analyse ⟨directory, routers, indexOf directory files⟩ p user
        Folder.discard (.str directory)).ends v) ∧
      ∃ first x, v = sent w first ∧ (∀ cmd ∈ first, cmd.Declares) ∧
        CallsRequested directory p files first v x := by
  refine ⟨fun e v h => ⟨fun user => ?_, ?_⟩, fun files v h => ⟨fun user => ?_, ?_⟩⟩
  · exact Run.ends_bind_error _ h
  · obtain ⟨first, hfirst, hafter⟩ := sends_firstPass directory hc w hw
    rw [Run.after, h] at hafter
    exact ⟨first, hafter, hfirst⟩
  · exact Run.ends_bind_ok _ h
  · exact callsRequested_of_firstPass hw hc h

/-! ## Two small projects -/

def oneSurvey (src : String) (tree : Node) : SurveyedFile :=
  ⟨"/p/m.py", src, Survey.ofTree src tree⟩

theorem firstPass_oneSource {src : String} {tree : Node}
    (htext : (World.oneSource src tree).files.readText "/p/m.py" = .ok src)
    (hpaths : (World.oneSource src tree).files.sources "/p" = ["/p/m.py"])
    (hok : ((firstPass "/p" (.number 1)).answer (World.oneSource src tree)).toOption.isSome = true) :
    ∃ v, (firstPass "/p" (.number 1)).ends (World.oneSource src tree) =
      (.ok [oneSurvey src tree], v) := by
  cases hanswer : (firstPass "/p" (.number 1)).answer (World.oneSource src tree) with
  | error e => rw [hanswer] at hok; cases hok
  | ok files =>
    have hends : (firstPass "/p" (.number 1)).ends (World.oneSource src tree) = (.ok files, _) :=
      Prod.ext hanswer rfl
    obtain ⟨hfiles, hin, -⟩ := ends_firstPass (c := .number 1) rfl rfl hends
    rw [hpaths] at hfiles
    obtain ⟨f, rfl, hpath⟩ := List.map_eq_singleton_iff.1 hfiles
    obtain ⟨hsource, hsurvey⟩ := hin f List.mem_cons_self
    rw [hpath, htext] at hsource
    have hknown : Table.get? (World.oneSource src tree).trees src = some tree := by
      simp [World.oneSource, Table.get?]
    obtain ⟨path, source, survey⟩ := f
    obtain rfl := Except.ok.inj hsource
    simp only [hknown, Option.getD_some] at hsurvey
    subst hpath hsurvey
    exact ⟨_, hends⟩

theorem identifier_oneSource (name : String) :
    identifier "/p" "/p/m.py" name = "/m.py:" ++ name := by
  have hpath : Text.remove "/p" "/p/m.py" = "/m.py" := by cbv
  rw [identifier, hpath]
  rfl

def shadowingSource : String := "from lib import g\ndef g(): pass\ndef f(): g()\n"

def shadowingCall : Node := .mk "call" 41 44 [.mk "identifier" 41 42 []]

def shadowingCaller : Node :=
  .mk "function_definition" 32 44 [.mk "identifier" 36 37 [], shadowingCall]

def shadowed : Node := .mk "function_definition" 18 31 [.mk "identifier" 22 23 []]

def shadowingTree : Node :=
  .mk "module" 0 45 [
    .mk "import_from_statement" 0 17 [.mk "dotted_name" 5 8 [], .mk "dotted_name" 16 17 []],
    shadowed, shadowingCaller]

theorem functions_oneSurvey {src : String} {tree : Node} {ds : List (String × Node)}
    (h : (Survey.ofTree src tree).functions.map (fun d => (d.name, d.node)) = ds) :
    (oneSurvey src tree).functions "/p" =
      Table.ofPairs (ds.map fun d => ("/m.py:" ++ d.1, d.2)) := by
  rw [← h, List.map_map]
  exact congrArg Table.ofPairs (List.map_congr_left fun d _ =>
    congrArg (Prod.mk · d.node) (identifier_oneSource d.name))

theorem functions_shadowing : (oneSurvey shadowingSource shadowingTree).functions "/p" =
    [("/m.py:g", shadowed), ("/m.py:f", shadowingCaller)] :=
  functions_oneSurvey rfl

/-- A name that is both imported and defined in the file means the function of the file. -/
theorem shadowing_call_local : ∃ v,
    (firstPass "/p" (.number 1)).ends (World.oneSource shadowingSource shadowingTree) =
      (.ok [oneSurvey shadowingSource shadowingTree], v) ∧
    ((secondPass "/p" (.number 1) [oneSurvey shadowingSource shadowingTree]).after v).graph.Calls
      (.number 1) "/m.py:f" "/m.py:g" := by
  obtain ⟨v, hv⟩ : ∃ v, (firstPass "/p" (.number 1)).ends
      (World.oneSource shadowingSource shadowingTree) =
        (.ok [oneSurvey shadowingSource shadowingTree], v) :=
    firstPass_oneSource (Run.eq_ok_of_toOption (by decide +kernel)) (by decide +kernel)
      (by decide +kernel)
  obtain ⟨-, first, x, -, -, hpass⟩ := (calls_requested (c := .number 1) rfl rfl).2 _ _ hv
  have hbound : (Survey.ofTree shadowingSource shadowingTree).bindings = [] := by decide +kernel
  have hread : Readable shadowingSource shadowed ∧ Readable shadowingSource shadowingCaller := by
    decide +kernel
  have hreadable : ∀ g ∈ (oneSurvey shadowingSource shadowingTree).functions "/p",
      Readable shadowingSource g.2 := by
    simpa [functions_shadowing] using hread
  obtain ⟨routers, rfl⟩ := hpass.resolved (by simp [oneSurvey, hbound]) (by
    simp only [List.mem_singleton, forall_eq]
    exact hreadable)
  have hplain : PlainCall shadowingSource shadowingCall "g" :=
    ⟨rfl, ⟨_, rfl, rfl, rfl⟩, by decide⟩
  have hown : identifier "/p" "/p/m.py" "g" ∈
      definedIn "/p" [oneSurvey shadowingSource shadowingTree] := by
    simp [definedIn, functions_shadowing, Table.keys, identifier_oneSource]
  obtain ⟨owner, before, rest, hsteps, -, hissued⟩ := hpass.own _ List.mem_cons_self
    ("/m.py:f", shadowingCaller) (by simp [functions_shadowing]) shadowingCall
    (Node.mem_preorder_child (Node.mem_preorder_self _)
      (by simp [shadowingCaller, Node.children])) "g" hplain hown
  have hended := hpass.fails
  rw [hsteps, List.append_assoc, ended_append] at hended
  have hbefore : ended before = none := (Option.or_eq_none_iff.1 hended.symm).1
  have hcalls := (hpass.closed _ (hissued hbefore)).2.2
  rw [show identifier "/p" (oneSurvey shadowingSource shadowingTree).path "g" = "/m.py:g" from
    identifier_oneSource "g"] at hcalls
  exact ⟨v, hv, hcalls⟩

/-- A file with a name that is bound to a call without a named callee. -/
def unnamedSource : String :=
  "import a as b\nx = h[0]()\ndef g(): pass\ndef f():\n    x()\n    g()\n"

def unnamedCall : Node := .mk "call" 60 63 [.mk "identifier" 60 61 []]

def unnamedCaller : Node :=
  .mk "function_definition" 39 63 [.mk "identifier" 43 44 [],
    .mk "call" 52 55 [.mk "identifier" 52 53 []], unnamedCall]

def unnamedTree : Node :=
  .mk "module" 0 64 [
    .mk "import_statement" 0 13 [.mk "aliased_import" 7 13 []],
    .mk "expression_statement" 14 24 [.mk "assignment" 14 24 [.mk "identifier" 14 15 [],
      .mk "call" 18 24 [.mk "subscript" 18 22 []]]],
    .mk "function_definition" 25 38 [.mk "identifier" 29 30 []],
    unnamedCaller]

def isCalled : Effect → Bool
  | .called .. => true
  | _ => false

/-- A name that is bound to a call without a named callee stops the analysis, and a call after it of
a function of the same file is not asked for. -/
theorem unnamed_callee_stops :
    ("/m.py:f", unnamedCaller) ∈ (oneSurvey unnamedSource unnamedTree).functions "/p" ∧
    unnamedCall ∈ unnamedCaller.preorder ∧ PlainCall unnamedSource unnamedCall "g" ∧
    identifier "/p" "/p/m.py" "g" ∈ definedIn "/p" [oneSurvey unnamedSource unnamedTree] ∧
    (∃ v, (firstPass "/p" (.number 1)).ends (World.oneSource unnamedSource unnamedTree) =
      (.ok [oneSurvey unnamedSource unnamedTree], v)) ∧
    failure? ((analyse "/p" (.str "u") (.number 1)).answer (World.oneSource unnamedSource unnamedTree)) =
      some (.unfit "'in <string>' requires string as left operand, not NoneType") ∧
    ((analyse "/p" (.str "u") (.number 1)).after
      (World.oneSource unnamedSource unnamedTree)).log.any isCalled = false := by
  have hfunctions : (oneSurvey unnamedSource unnamedTree).functions "/p" =
      [("/m.py:g", .mk "function_definition" 25 38 [.mk "identifier" 29 30 []]),
        ("/m.py:f", unnamedCaller)] := functions_oneSurvey rfl
  -- One evaluation of the whole analysis gives both what it answers and what it leaves.
  have hrun : Prod.map failure? (fun v : World => v.log.any isCalled)
      ((analyse "/p" (.str "u") (.number 1)).ends (World.oneSource unnamedSource unnamedTree)) =
        (some (.unfit "'in <string>' requires string as left operand, not NoneType"), false) := by
    decide +kernel
  refine ⟨by simp [hfunctions], Node.mem_preorder_child (Node.mem_preorder_self _)
    (by simp [unnamedCaller, Node.children]), ⟨rfl, ⟨_, rfl, rfl, rfl⟩, by decide⟩, ?_, ?_,
    congrArg Prod.fst hrun, congrArg Prod.snd hrun⟩
  · simp [definedIn, hfunctions, Table.keys, identifier_oneSource]
  · exact firstPass_oneSource (Run.eq_ok_of_toOption (by decide +kernel)) (by decide +kernel)
      (by decide +kernel)

end Analysis
end CodeAtlas
