import CodeAtlas.Proofs.CallRequests
import CodeAtlas.Proofs.DefinedNames

/-!
# Which detected entry points are nodes

The survey of a file registers the functions of its top level and the methods of its classes, these
with the name of their class. The detection of entry points walks the whole tree and names every
decorated definition plainly. So the two agree on the functions of the top level, and on others only
if a function of the top level happens to have their name.

* `Run.Succeeds`: a run that ends well in every world of a class, and stays in it;
* `Decorator.endpoints_cases`: when the methods of a route can be read;
* `Decorator.succeeds_noteResponses`: the response types can be noted on a function that is a node;
* `Decorator.inTree_iff`: when the detection in a tree ends well and finds functions of a list only;
* `Analysis.registered_surveyFile`: the functions that a file registers are nodes;
* `Entry.detected_registered_iff`: the detection in a file that was surveyed ends well and finds
  registered functions only if and only if every entry point has the plain name of a function at the
  top level, and the methods of every route can be read.
-/
namespace CodeAtlas

namespace Decorator
open Run

/-! ## Decorators -/

def MethodsGiven (text : String) : Prop :=
  Text.contains ".route" text = true → Text.contains "methods" text = true →
    Text.contains "methods=" text = true

instance (text : String) : Decidable (MethodsGiven text) :=
  inferInstanceAs (Decidable (_ → _ → _))

theorem methods_of_contains {text : String} (h : Text.contains "methods=" text = true) :
    ∃ ms, methods text = .ok ms ∧ ms ≠ [] := by
  have hcut : (Text.cut? "methods=" text).isSome = true := by
    rwa [Text.cut?, Option.isSome_map]
  obtain ⟨⟨a, rest⟩, hcut⟩ := Option.isSome_iff_exists.1 hcut
  unfold methods
  rw [hcut]
  refine ⟨_, rfl, fun hnil => ?_⟩
  have hlength := congrArg List.length (List.map_eq_nil_iff.1 hnil)
  rw [Text.length_fields] at hlength
  cases hlength

theorem methods_of_not_contains {text : String} (h : Text.contains "methods=" text = false) :
    methods text = .error (.outOfRange "list") := by
  have hcut : Text.cut? "methods=" text = none := by
    rw [← Option.not_isSome_iff_eq_none, Text.cut?, Option.isSome_map]
    exact Bool.not_eq_true _ ▸ h
  unfold methods
  rw [hcut]
  rfl

/-- The entry points of a decorator are known if and only if its methods can be read, and then there
is at least one. -/
theorem endpoints_cases (text : String) :
    (MethodsGiven text ∧ ∃ ps, endpoints text = .ok ps ∧ ps ≠ []) ∨
      (¬ MethodsGiven text ∧ ∃ e, endpoints text = .error e) := by
  unfold MethodsGiven endpoints
  cases hroute : Text.contains ".route" text with
  | false => exact .inl ⟨by simp, _, rfl, by simp⟩
  | true =>
    cases hmethods : Text.contains "methods" text with
    | false => exact .inl ⟨by simp, _, rfl, by simp⟩
    | true =>
      cases hgiven : Text.contains "methods=" text with
      | true =>
        obtain ⟨ms, hms, hne⟩ := methods_of_contains hgiven
        rw [hms]
        exact .inl ⟨by simp, _, rfl, by simpa using hne⟩
      | false =>
        rw [methods_of_not_contains hgiven]
        exact .inr ⟨by simp, _, rfl⟩

theorem functionId_eq {src : String} {n : Node} (h : Definitions.Legible src n)
    (directory file : String) : functionId src directory file n =
      match Definitions.functionName? src n with
      | some name => .ok (identifier directory file name)
      | none => .error (.unfit "can only concatenate str (not \"NoneType\") to str") := by
  obtain ⟨o, ho⟩ := Definitions.exists_outline h
  unfold functionId
  rw [ho, Run.ok_bind, Definitions.name_outline ho]
  cases Definitions.functionName? src n <;> rfl

/-! ## Response types -/

section
variable {p : ProjectKey} {c : Cell} {ids : List String}

/-- The graph service is in order, and some functions are nodes of a project. -/
structure Registered (p : ProjectKey) (ids : List String) (w : World) : Prop where
  order : w.troubles = []
  nodes : ∀ id ∈ ids, w.graph.hasNode p (.str id) = true

theorem Registered.sent {w : World} (h : Registered p ids w) {cs : List GraphCommand}
    (hcs : ∀ c ∈ cs, c.Declares) : Registered p ids (GraphCommand.sent w cs) :=
  ⟨h.order, fun id hid => GraphCommand.hasNode_effects hcs (h.nodes id hid)⟩

theorem succeeds_node? (hc : p.cell = .ok c) {id : String} (hid : id ∈ ids) :
    Succeeds (Registered p ids) (fun n => n.isSome = true) (GraphService.node? (.str id) p) := by
  intro w hw
  -- the question changes nothing but the log
  let Same : World → Prop := fun u => u.troubles = [] ∧ u.graph = w.graph
  have hcalm : Calm Same := ⟨fun u hu => hu.1, fun u l hu => hu⟩
  have hgives : Gives Same (GraphService.node? (.str id) p) _ :=
    GraphService.gives_ask (f := (Graph.node? · p (.str id))) hcalm fun u hu => by rw [hu.2]
  obtain ⟨hanswer, horder, hgraph⟩ := hgives w ⟨hw.order, rfl⟩
  rw [p.checkKeys_str hc] at hanswer
  exact ⟨_, _, Prod.ext hanswer rfl, ⟨horder, fun id hid => hgraph ▸ hw.nodes id hid⟩,
    hw.nodes id hid⟩

theorem succeeds_noteResponse (hc : p.cell = .ok c) {id : String} (hid : id ∈ ids)
    (response : String) :
    Succeeds (Registered p ids) (fun _ => True) (noteResponse id p response) := by
  refine (succeeds_node? hc hid).bind fun n hn => ?_
  obtain ⟨n, rfl⟩ := Option.isSome_iff_exists.1 hn
  intro w hw
  have hends := GraphCommand.ends_upsert hw.order (.str id) p
    (Table.set n.properties "response" (.str response))
  rw [p.checkKeys_str hc] at hends
  exact ⟨(), _, hends, hw.sent (by simp [GraphCommand.Declares]), trivial⟩

/-- What the grammar promises about the arguments of calls, beside what it promises about names: a
named argument has a name, a sign and a value. -/
structure WellFormed (src : String) (root : Node) : Prop extends Definitions.Worded src root where
  arguments : ∀ n ∈ root.preorder, n.kind = "keyword_argument" → 3 ≤ n.children.length

variable {src : String} {root : Node}

theorem wellFormed_iff : WellFormed src root ↔ ∀ n ∈ root.preorder,
    (n.text src).toOption.isSome = true ∧
    (n.kind = "identifier" → ∀ s ∈ (n.text src).toOption, s ≠ "" ∧ '.' ∉ s.toList) ∧
    (n.kind = "class_definition" → ∀ c ∈ (n.child 1).toOption, c.kind = "identifier") ∧
    (n.kind = "keyword_argument" → 3 ≤ n.children.length) := by
  have hok {α : Type} {x : Except Failure α} {a : α} : a ∈ x.toOption ↔ x = .ok a :=
    ⟨Run.eq_ok_of_toOption, fun h => by rw [h]; rfl⟩
  simp only [Option.isSome_iff_exists, ← Option.mem_def, hok]
  refine ⟨fun h n hn => ⟨h.texts n hn, h.words n hn, h.classes n hn, h.arguments n hn⟩, fun h => ?_⟩
  exact ⟨⟨fun n hn => (h n hn).1, fun n hn => (h n hn).2.1, fun n hn => (h n hn).2.2.1⟩,
    fun n hn => (h n hn).2.2.2⟩

instance : Decidable (WellFormed src root) := decidable_of_iff _ wellFormed_iff.symm

theorem exists_child {n : Node} {i : Nat} (h : i < n.children.length) :
    ∃ m ∈ n.children, n.child i = .ok m := by
  refine ⟨n.children[i], List.getElem_mem h, ?_⟩
  unfold Node.child
  rw [List.getElem?_eq_getElem h]

theorem mem_namedArguments {d a : Node} (h : a ∈ namedArguments d) :
    a ∈ d.preorder ∧ a.kind = "keyword_argument" := by
  obtain ⟨l, hl, ha⟩ := List.mem_flatMap.1 h
  obtain ⟨call, hcall, hl⟩ := List.mem_flatMap.1 (List.mem_filter.1 hl).1
  obtain ⟨ha, hkind⟩ := List.mem_filter.1 ha
  have hcall := Node.mem_preorder_child d.mem_preorder_self (List.mem_filter.1 hcall).1
  exact ⟨Node.mem_preorder_child (Node.mem_preorder_child hcall hl) ha, beq_iff_eq.1 hkind⟩

theorem exists_responseType? (h : WellFormed src root) {a : Node} (ha : a ∈ root.preorder)
    (hkind : a.kind = "keyword_argument") : ∃ r, responseType? src a = .ok r := by
  have hlength := h.arguments a ha hkind
  obtain ⟨name, hname, hchild⟩ := exists_child (n := a) (i := 0) (by omega)
  obtain ⟨value, hvalue, hchild'⟩ := exists_child (n := a) (i := 2) (by omega)
  obtain ⟨s, hs⟩ := h.texts name (Node.mem_preorder_child ha hname)
  obtain ⟨t, ht⟩ := h.texts value (Node.mem_preorder_child ha hvalue)
  unfold responseType?
  simp only [hchild, hchild', Run.ok_bind, hs, ht]
  split <;> exact ⟨_, rfl⟩

theorem succeeds_noteResponses (h : WellFormed src root) (hc : p.cell = .ok c) {id : String}
    (hid : id ∈ ids) {d : Node} (hd : d ∈ root.preorder) :
    Succeeds (Registered p ids) (fun _ => True) (noteResponses src id p d) := by
  refine Succeeds.forM fun a ha => ?_
  obtain ⟨hmem, hkind⟩ := mem_namedArguments ha
  obtain ⟨r, hr⟩ := exists_responseType? h (Node.mem_preorder_trans hd hmem) hkind
  refine (Succeeds.lift (Q := fun _ => True) hr trivial).bind fun r _ => ?_
  cases r with
  | none => exact Succeeds.pure trivial
  | some response => exact succeeds_noteResponse hc hid response

/-! ## The detection in a tree -/

/-- A decorator of an entry point is sound if the plain name of its definition is that of a function
of `ids`, and its methods can be read. -/
def SoundOn (ids : List String) (src directory file : String) (n d : Node) : Prop :=
  isMarked (d.cutOut src) = true →
    (∃ name, Definitions.functionName? src n = some name ∧ identifier directory file name ∈ ids) ∧
      MethodsGiven (d.cutOut src)

variable {directory file : String} {w v : World}

theorem succeeds_ofDecorator (h : WellFormed src root) (hc : p.cell = .ok c) {n d : Node}
    (hn : n ∈ root.preorder) (hd : d ∈ n.children) (hsound : SoundOn ids src directory file n d) :
    Succeeds (Registered p ids) (fun es => ∀ e ∈ es, e.2 ∈ ids)
      (ofDecorator src directory file p n d) := by
  unfold ofDecorator ofText
  split
  · next hmarked =>
    obtain ⟨⟨name, hname, hid⟩, hmethods⟩ := hsound hmarked
    have hfunction : functionId src directory file n = .ok (identifier directory file name) := by
      rw [functionId_eq (h.texts.of_mem hn), hname]
    obtain ⟨-, ps, hps, -⟩ | ⟨hnot, -⟩ := endpoints_cases (d.cutOut src)
    · refine (Succeeds.lift (Q := (· ∈ ids)) hfunction hid).bind fun id hid => ?_
      refine (Succeeds.lift (Q := fun _ => True) hps trivial).bind fun ps _ => ?_
      refine (succeeds_noteResponses h hc hid (Node.mem_preorder_child hn hd)).bind fun _ _ => ?_
      refine Succeeds.pure fun e he => ?_
      obtain ⟨_, _, rfl⟩ := List.mem_map.1 he
      exact hid
    · exact absurd hmethods hnot
  · exact Succeeds.pure fun _ he => by cases he

theorem soundOn_of_ofDecorator {n d : Node} (hlegible : Definitions.Legible src n)
    {es : List (String × String)} (h : (ofDecorator src directory file p n d).ends w = (.ok es, v))
    (hids : ∀ e ∈ es, e.2 ∈ ids) : SoundOn ids src directory file n d := by
  intro hmarked
  unfold ofDecorator ofText at h
  rw [if_pos hmarked, functionId_eq hlegible] at h
  obtain ⟨id, u, hid, h⟩ := ends_bind_eq_ok h
  obtain ⟨ps, u', hps, h⟩ := ends_bind_eq_ok h
  obtain ⟨_, u'', -, h⟩ := ends_bind_eq_ok h
  cases h
  obtain ⟨hmethods, qs, hqs, hne⟩ | ⟨-, e, he⟩ := endpoints_cases (d.cutOut src)
  · refine ⟨?_, hmethods⟩
    obtain rfl : qs = ps := by
      rw [hqs] at hps
      exact Except.ok.inj (congrArg Prod.fst hps)
    obtain ⟨q, hq⟩ := List.exists_mem_of_ne_nil qs hne
    cases hname : Definitions.functionName? src n with
    | none => rw [hname] at hid; cases hid
    | some name =>
      rw [hname] at hid
      cases hid
      exact ⟨name, rfl, hids _ (List.mem_map_of_mem hq)⟩
  · rw [he] at hps
    cases hps

theorem inTree_iff (h : WellFormed src root) (hc : p.cell = .ok c) (hw : Registered p ids w) :
    (∃ found, (inTree src directory file p root).answer w = .ok found ∧ ∀ e ∈ found, e.2 ∈ ids) ↔
      ∀ n ∈ root.preorder, n.kind = "decorated_definition" →
        ∀ d ∈ n.children, d.kind = "decorator" → SoundOn ids src directory file n d := by
  constructor
  · rintro ⟨found, hfound, hids⟩ n hn hkind d hd hdecorator
    have hends : (inTree src directory file p root).ends w =
        (.ok found, (inTree src directory file p root).after w) := Prod.ext hfound rfl
    obtain ⟨here, u, t, hhere, hsub⟩ := exists_of_gather hends n hn
    unfold ofDefinition at hhere
    rw [if_pos (beq_iff_eq.2 hkind)] at hhere
    obtain ⟨es, _, _, hes, hsub'⟩ := exists_of_gather hhere d
      (List.mem_filter.2 ⟨hd, by simp [hdecorator]⟩)
    exact soundOn_of_ofDecorator (h.texts.of_mem hn) hes fun e he => hids e (hsub (hsub' he))
  · intro hsound
    have hsucceeds : Succeeds (Registered p ids) (fun es => ∀ e ∈ es, e.2 ∈ ids)
        (inTree src directory file p root) := by
      refine Succeeds.gather (R := fun e : String × String => e.2 ∈ ids) fun n hn => ?_
      unfold ofDefinition
      split
      · next hkind =>
        refine Succeeds.gather (R := fun e : String × String => e.2 ∈ ids) fun d hd => ?_
        obtain ⟨hd, hdecorator⟩ := List.mem_filter.1 hd
        exact succeeds_ofDecorator h hc hn hd
          (hsound n hn (beq_iff_eq.1 hkind) d hd (beq_iff_eq.1 hdecorator))
      · exact Succeeds.pure fun _ he => by cases he
    obtain ⟨found, v, hends, -, hids⟩ := hsucceeds w hw
    exact ⟨found, congrArg Prod.fst hends, hids⟩

end

end Decorator

/-! ## What the survey registered -/

namespace Analysis

variable {directory path : String} {p : ProjectKey} {c : Cell} {w v : World} {f : SurveyedFile}

theorem identifier_injective {a b : String}
    (h : identifier directory path a = identifier directory path b) : a = b :=
  (String.append_right_inj _).1 h

theorem mem_keys_functions {name : String} :
    identifier directory f.path name ∈ Table.keys (f.functions directory) ↔
      ∃ d ∈ f.survey.functions, d.name = name := by
  constructor
  · intro h
    obtain ⟨g, hg, hname⟩ := List.mem_map.1 h
    obtain ⟨d, hd, hid⟩ := mem_functions hg
    exact ⟨d, hd, identifier_injective (hid.symm.trans hname)⟩
  · rintro ⟨d, hd, rfl⟩
    obtain ⟨n, hn⟩ := Table.exists_get?_setAll (t := [])
      (.inr ⟨d.node, List.mem_map_of_mem (f := fun d : FunctionFound =>
        (identifier directory f.path d.name, d.node)) hd⟩)
    exact List.mem_map.2 ⟨_, Table.mem_of_get? hn, rfl⟩

theorem ended_surveyFile (hw : w.troubles = []) (hc : p.cell = .ok c)
    (h : (surveyFile directory p path).ends w = (.ok f, v)) : f.survey.ended = none := by
  unfold surveyFile at h
  obtain ⟨_, _, hget, h⟩ := Run.ends_bind_eq_ok h
  cases hget
  obtain ⟨source, u, hsource, h⟩ := Run.ends_bind_eq_ok h
  obtain rfl : w = u := congrArg Prod.snd hsource
  obtain ⟨root, _, hroot, h⟩ := Run.ends_bind_eq_ok h
  cases hroot
  obtain ⟨_, _, hrecord, h⟩ := Run.ends_bind_eq_ok h
  cases h
  rw [ends_recordSurvey directory path hw hc] at hrecord
  dsimp only at hrecord ⊢
  split at hrecord
  · cases hrecord
  · assumption

theorem registered_surveyFile (hw : w.troubles = []) (hc : p.cell = .ok c)
    (h : (surveyFile directory p path).ends w = (.ok f, v)) :
    Decorator.Registered p (Table.keys (f.functions directory)) v := by
  obtain ⟨-, -, rfl⟩ := ends_surveyFile hw hc h
  refine ⟨hw, fun id hid => ?_⟩
  have hdefined : id ∈ definedIn directory [f] := by simpa [definedIn] using hid
  obtain ⟨ps, hps, -⟩ := upsertedIn_of_mem p hdefined
  rw [List.flatMap_singleton] at hps
  exact GraphCommand.hasNode_of_upsert (fun _ => declares_command) hc hps _

end Analysis

namespace Entry
open Decorator

variable {directory path : String} {p : ProjectKey} {c : Cell} {w v : World}
  {f : Analysis.SurveyedFile} {root : Node}

theorem ends_treeOf {src : String}
    (hroot : (Table.get? w.trees src).getD (Node.whole src) = root) :
    (Run.treeOf src).ends w = (.ok root, w) := by
  rw [← hroot]
  rfl

theorem answer_decoratedIn {src : String} (hsource : w.files.readText path = .ok src)
    (hroot : (Table.get? w.trees src).getD (Node.whole src) = root) :
    (decoratedIn directory p path).answer w = (inTree src directory path p root).answer w := by
  unfold decoratedIn Run.answer
  rw [Run.ends_bind_ok _ (Run.ends_get w), Run.ends_bind_lift, hsource]
  exact congrArg Prod.fst (Run.ends_bind_ok _ (ends_treeOf hroot))

/-- **Which detected entry points are nodes**: after the survey of a file the functions that it
registered are nodes. The detection in the same file then ends well and finds registered functions
only if and only if each marked decorator belongs to a definition with the plain name of a function
at the top level, and the methods of each route can be read. -/
theorem detected_registered_iff (hw : w.troubles = []) (hc : p.cell = .ok c)
    (hsurvey : (Analysis.surveyFile directory p path).ends w = (.ok f, v))
    (hroot : (Table.get? w.trees f.source).getD (Node.whole f.source) = root)
    (hform : WellFormed f.source root) :
    (∀ id ∈ Table.keys (f.functions directory), v.graph.hasNode p (.str id) = true) ∧
    ((∃ found, (decoratedIn directory p path).answer v = .ok found ∧
        ∀ e ∈ found, e.2 ∈ Table.keys (f.functions directory)) ↔
      ∀ n ∈ root.preorder, n.kind = "decorated_definition" →
        ∀ d ∈ n.children, d.kind = "decorator" → isMarked (d.cutOut f.source) = true →
          (∃ name, Definitions.functionName? f.source n = some name ∧
            ∃ m ∈ root.children, Survey.isFunction m = true ∧
              Definitions.functionName? f.source m = some name) ∧
          MethodsGiven (d.cutOut f.source)) := by
  have hnodes := Analysis.registered_surveyFile hw hc hsurvey
  have hended := Analysis.ended_surveyFile hw hc hsurvey
  obtain ⟨rfl, ⟨hsource, htree⟩, rfl⟩ := Analysis.ends_surveyFile hw hc hsurvey
  rw [hroot] at htree
  refine ⟨hnodes.nodes, ?_⟩
  rw [answer_decoratedIn (w := GraphCommand.sent w _) hsource hroot, inTree_iff hform hc hnodes]
  -- both sides speak of the same decorators; what differs is how the function is found
  refine forall₂_congr fun n hn => forall_congr' fun _ => forall₂_congr fun d _ =>
    forall₂_congr fun _ _ => and_congr_left fun _ => exists_congr fun name =>
      and_congr_right fun hname => ?_
  rw [Analysis.mem_keys_functions, htree]
  exact Definitions.mem_functions_iff hform.toWorded (htree ▸ hended) (hform.functionName hn hname)

/-! ## Two small files -/

theorem surveyFile_oneSource (src : String) (tree : Node)
    (htext : (World.oneSource src tree).files.readText "/p/m.py" = .ok src)
    (hended : (Survey.ofTree src tree).ended = none) :
    ∃ v, (Analysis.surveyFile "/p" (.number 1) "/p/m.py").ends (World.oneSource src tree) =
      (.ok (Analysis.oneSurvey src tree), v) := by
  have hknown : (Table.get? (World.oneSource src tree).trees src).getD (Node.whole src) =
      tree := by
    simp [World.oneSource, Table.get?]
  unfold Analysis.surveyFile
  rw [Run.ends_bind_ok _ (Run.ends_get _), Run.ends_bind_lift, htext]
  dsimp only
  rw [Run.ends_bind_ok _ (ends_treeOf hknown), Run.ends_bind,
    Analysis.ends_recordSurvey (c := .number 1) "/p" "/p/m.py" rfl rfl, hended]
  exact ⟨_, rfl⟩

/-- A route at the top level that names a response type. -/
def routeSource : String := "@app.get(\"/x\", response_model=R)\ndef f(): pass\n"

def routeTree : Node :=
  .mk "module" 0 47 [.mk "decorated_definition" 0 46 [
    .mk "decorator" 0 32 [.mk "call" 1 32 [.mk "argument_list" 8 32 [.mk "keyword_argument" 15 31 [
      .mk "identifier" 15 29 [], .mk "=" 29 30 [], .mk "identifier" 30 31 []]]]],
    .mk "function_definition" 33 46 [.mk "identifier" 37 38 []]]]

theorem route_registered : ∃ v,
    (Analysis.surveyFile "/p" (.number 1) "/p/m.py").ends
        (World.oneSource routeSource routeTree) =
      (.ok (Analysis.oneSurvey routeSource routeTree), v) ∧
    WellFormed routeSource routeTree ∧
    ∃ found, (decoratedIn "/p" (.number 1) "/p/m.py").answer v = .ok found ∧
      ∀ e ∈ found,
        e.2 ∈ Table.keys ((Analysis.oneSurvey routeSource routeTree).functions "/p") := by
  have hform : WellFormed routeSource routeTree := by decide +kernel
  obtain ⟨v, hv⟩ := surveyFile_oneSource routeSource routeTree
    (Run.eq_ok_of_toOption (by decide +kernel)) (by decide +kernel)
  have hname : ∀ n ∈ routeTree.preorder, n.kind = "decorated_definition" →
      Definitions.functionName? routeSource n = some "f" := by decide +kernel
  have htop : ∃ m ∈ routeTree.children, Survey.isFunction m = true ∧
      Definitions.functionName? routeSource m = some "f" := by decide +kernel
  have hmethods : ∀ n ∈ routeTree.preorder, n.kind = "decorated_definition" →
      ∀ d ∈ n.children, d.kind = "decorator" → MethodsGiven (d.cutOut routeSource) := by
    decide +kernel
  refine ⟨v, hv, hform, (detected_registered_iff rfl (c := .number 1) rfl hv rfl hform).2.2 ?_⟩
  exact fun n hn hkind d hd hdecorator _ =>
    ⟨⟨"f", hname n hn hkind, htop⟩, hmethods n hn hkind d hd hdecorator⟩

def methodSource : String := "class A:\n    @app.get(\"/x\")\n    def f(self): pass\n"

def methodTree : Node :=
  .mk "module" 0 50 [.mk "class_definition" 0 49 [
    .mk "class" 0 5 [], .mk "identifier" 6 7 [], .mk "block" 13 49 [
      .mk "decorated_definition" 13 49 [
        .mk "decorator" 13 27 [.mk "call" 14 27 []],
        .mk "function_definition" 32 49 [.mk "identifier" 36 37 []]]]]]

/-- The method is registered with the name of its class, but is detected without it. -/
theorem method_unregistered : ∃ v,
    (Analysis.surveyFile "/p" (.number 1) "/p/m.py").ends
        (World.oneSource methodSource methodTree) =
      (.ok (Analysis.oneSurvey methodSource methodTree), v) ∧
    WellFormed methodSource methodTree ∧
    Table.keys ((Analysis.oneSurvey methodSource methodTree).functions "/p") = ["/m.py:A.f"] ∧
    (decoratedIn "/p" (.number 1) "/p/m.py").answer v = .ok [("GET /x", "/m.py:f")] ∧
    v.graph.hasNode (.number 1) (.str "/m.py:f") = false := by
  have hended : (Survey.ofTree methodSource methodTree).ended = none := by decide +kernel
  obtain ⟨v, hv⟩ := surveyFile_oneSource methodSource methodTree
    (Run.eq_ok_of_toOption (by decide +kernel)) hended
  have hafter : (Analysis.surveyFile "/p" (.number 1) "/p/m.py").after
      (World.oneSource methodSource methodTree) = v := congrArg Prod.snd hv
  refine ⟨v, hv, by decide +kernel, by decide +kernel, ?_, ?_⟩
  · rw [← hafter]
    exact Run.eq_ok_of_toOption (by decide +kernel)
  · rw [← hafter]
    decide +kernel

end Entry
end CodeAtlas
