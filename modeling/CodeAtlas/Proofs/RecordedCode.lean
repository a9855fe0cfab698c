import CodeAtlas.Analysis.Calls
import CodeAtlas.Proofs.GraphInvariant
import CodeAtlas.Proofs.SourceRows
import Mathlib.Data.List.Induction

/-!
# The code that is shown for a recorded definition

A survey of a source becomes nodes of the graph, which keep the rows of their definitions. Reading
the code of such a node cuts these rows out of the hosted file.

* `Survey.rowsOf_ofTree`: the rows that are kept are those of the definition in the tree;
* `Analysis.after_recordSurvey`: the graph after a survey was recorded;
* `Code.answer_hosted`: what is read for a node;
* `Code.hosted_definition_iff`: when it is the code of the definition;
* `Code.second_row_early`: a definition from the second row on is shown one row too early.
-/
namespace CodeAtlas

/-! ## What a survey notes -/

def Finding.definition? : Finding → Option (String × Node)
  | .function f => some (f.name, f.node)
  | .class c => some (c.name, c.node)
  | _ => none

def Finding.RowsOf (src : String) : Finding → Prop
  | .function f =>
    f.signature.firstRow = f.node.firstRow src ∧ f.signature.lastRow = f.node.lastRow src
  | .class c => c.firstRow = c.node.firstRow src ∧ c.lastRow = c.node.lastRow src
  | _ => True

namespace Survey

variable {P : Finding → Prop}

/-- Something holds of all findings. -/
def All (P : Finding → Prop) (s : Survey) : Prop := ∀ f ∈ s.findings, P f

theorem All.followedBy {a b : Survey} (ha : All P a) (hb : All P b) : All P (a.followedBy b) := by
  unfold Survey.followedBy
  split
  · exact ha
  · exact fun f hf => (List.mem_append.1 hf).elim (ha f) (hb f)

theorem All.sequence {ss : List Survey} (h : ∀ s ∈ ss, All P s) : All P (Survey.sequence ss) := by
  induction ss with
  | nil => exact fun f hf => by cases hf
  | cons s ss ih =>
    rw [List.forall_mem_cons] at h
    exact h.1.followedBy (ih h.2)

theorem All.ofReading {r : Except Failure (List Finding)} (h : ∀ fs, r = .ok fs → ∀ f ∈ fs, P f) :
    All P (Survey.ofReading r) := by
  cases r with
  | ok fs => exact h fs rfl
  | error e => exact fun f hf => by cases hf

theorem read_rows {src : String} {owner : Option String} {n : Node} {s : Signature}
    (h : Signature.read src owner n = .ok s) :
    s.firstRow = n.firstRow src ∧ s.lastRow = n.lastRow src := by
  have hend (d : Signature.Draft) (h : (do
      let d ← Signature.readChildren src owner d n.children
      return Signature.mk d.name d.parameters (n.firstRow src) (n.lastRow src) d.response) =
        .ok s) :
      s.firstRow = n.firstRow src ∧ s.lastRow = n.lastRow src := by
    obtain ⟨d', -, h⟩ := Run.bind_eq_ok h
    cases h
    exact ⟨rfl, rfl⟩
  unfold Signature.read at h
  split at h
  · obtain ⟨d, -, h⟩ := Run.bind_eq_ok h
    exact hend d h
  · exact hend _ h

theorem rowsOf_functionOf (src : String) (owner : Option String) (n : Node) :
    All (Finding.RowsOf src) (ofReading (functionOf src owner n)) := by
  refine All.ofReading fun fs h f hf => ?_
  unfold functionOf at h
  obtain ⟨s, hs, h⟩ := Run.bind_eq_ok h
  split at h
  · split at h
    · cases h; cases hf
    · cases h
      obtain rfl := List.mem_singleton.1 hf
      exact read_rows hs
  · cases h; cases hf

theorem All.ofClass {src : String} {n : Node} (h : ∀ c name, n.child 1 = .ok c →
    c.text src = .ok name → P (.class ⟨name, n, n.firstRow src, n.lastRow src⟩) ∧
      ∀ b ∈ n.children, b.kind = "block" → ∀ m ∈ b.children, isFunction m = true →
        All P (Survey.ofReading (functionOf src (some name) m))) :
    All P (Survey.ofClass src n) := by
  unfold Survey.ofClass
  split
  · exact fun f hf => by cases hf
  · next c hc =>
    split
    · exact fun f hf => by cases hf
    · next name hname =>
      obtain ⟨hself, hmethods⟩ := h c name hc hname
      refine All.followedBy (fun f hf => ?_) (All.sequence fun s hs => ?_)
      · obtain rfl := List.mem_singleton.1 hf
        exact hself
      · obtain ⟨m, hm, rfl⟩ := List.mem_map.1 hs
        rw [List.mem_filter, List.mem_flatMap] at hm
        obtain ⟨⟨b, hb, hmb⟩, hfunction⟩ := hm
        rw [List.mem_filter, beq_iff_eq] at hb
        exact hmethods b hb.1 hb.2 m hmb hfunction

theorem All.ofExpression {src : String} (n : Node)
    (hother : ∀ f : Finding, f.definition? = none → P f) :
    All P (Survey.ofReading (Survey.ofExpression src n)) := by
  refine All.ofReading fun fs h f hf => ?_
  unfold Survey.ofExpression at h
  split at h
  · obtain ⟨mounts, -, h⟩ := Run.bind_eq_ok h
    cases h
    obtain ⟨m, -, rfl⟩ := List.mem_map.1 hf
    exact hother _ rfl
  · split at h
    · unfold bindingOf at h
      obtain ⟨target, -, h⟩ := Run.bind_eq_ok h
      obtain ⟨name, -, h⟩ := Run.bind_eq_ok h
      obtain ⟨value, -, h⟩ := Run.bind_eq_ok h
      split at h
      · obtain ⟨callee, -, h⟩ := Run.bind_eq_ok h
        cases h
        obtain rfl := List.mem_singleton.1 hf
        exact hother _ rfl
      · cases h; cases hf
    · cases h; cases hf

theorem All.ofTree {src : String} {root : Node} (hother : ∀ f : Finding, f.definition? = none → P f)
    (hfunction : ∀ n ∈ root.children, isFunction n = true →
      All P (Survey.ofReading (functionOf src none n)))
    (hclass : ∀ n ∈ root.children, n.kind = "class_definition" → All P (Survey.ofClass src n)) :
    All P (Survey.ofTree src root) := by
  refine All.sequence fun s hs => ?_
  obtain ⟨n, hn, rfl⟩ := List.mem_map.1 hs
  unfold ofTopLevel
  split
  · refine All.ofReading fun fs h f hf => ?_
    cases hi : Import.ofStatement src n with
    | error e => rw [hi] at h; cases h
    | ok entries =>
      rw [hi] at h
      cases h
      obtain ⟨e, -, rfl⟩ := List.mem_map.1 hf
      exact hother _ rfl
  · split
    · refine All.sequence fun s hs => ?_
      obtain ⟨c, -, rfl⟩ := List.mem_map.1 hs
      exact All.ofExpression c hother
    · split
      · next hkind => exact hclass n hn (beq_iff_eq.1 hkind)
      · split
        · next hkind => exact hfunction n hn hkind
        · exact fun f hf => by cases hf

/-- The rows that a survey notes are those of the definitions. -/
theorem rowsOf_ofTree (src : String) (root : Node) :
    All (Finding.RowsOf src) (ofTree src root) := by
  refine All.ofTree (fun f hf => ?_) (fun n _ _ => rowsOf_functionOf src none n) fun n _ _ => ?_
  · cases f <;> trivial
  · exact All.ofClass fun c name _ _ => ⟨⟨rfl, rfl⟩, fun _ _ _ m _ _ =>
      rowsOf_functionOf src (some name) m⟩

end Survey

/-! ## Looking up what was set -/

namespace Properties

/-- How a property reads that was set to a value: null removes it. -/
def shown (v : Json) : Option Json := if v = .null then none else some v

theorem shown_eq_some {v x : Json} : shown v = some x ↔ v = x ∧ x ≠ .null := by
  unfold shown
  split <;> simp_all
  rintro rfl
  assumption

theorem get?_assign (t : Properties) (j : String) (x : Json) (k : String) :
    Table.get? (t.assign j x) k = if j = k then shown x else Table.get? t k := by
  unfold assign shown
  by_cases hj : j = k
  · subst hj
    split <;> simp
  · rw [if_neg hj]
    split
    · exact Table.get?_erase_of_ne t hj
    · exact Table.get?_set_of_ne t x hj

theorem get?_assignAll {ps : List (String × Json)} (hn : (Table.keys ps).Nodup) (t : Properties)
    (k : String) : Table.get? (t.assignAll ps) k =
      ((Table.get? ps k).map shown).getD (Table.get? t k) := by
  induction ps generalizing t with
  | nil => rfl
  | cons q ps ih =>
    obtain ⟨j, x⟩ := q
    simp only [Table.keys, List.map_cons, List.nodup_cons] at hn
    have hrest := ih hn.2 (t.assign j x)
    rw [get?_assign] at hrest
    refine hrest.trans ?_
    by_cases hj : j = k
    · subst hj
      have hnone : Table.get? ps j = none :=
        Option.eq_none_iff_forall_not_mem.2 fun y hy => hn.1 (Table.mem_keys_iff.2 ⟨y, hy⟩)
      simp [Table.get?, hnone]
    · simp [Table.get?, hj]

end Properties

namespace Graph

/-- Setting properties on a node that is there. -/
theorem node?_upsert_of_hasNode {g : Graph} {p : ProjectKey} {a : Json}
    (h : g.hasNode p a = true) (ps : List (String × Json)) (b : Json) :
    (g.upsert p a ps).node? p b =
      (g.node? p b).map fun n => if n.is p a then setOn ps n else n := by
  unfold upsert node?
  rw [if_pos h, List.find?_map]
  have hkeeps : (fun n : GraphNode => n.is p b) ∘ (fun n => if n.is p a then setOn ps n else n) =
      (·.is p b) := by
    funext n
    simp only [Function.comp_apply]
    split <;> rfl
  exact congrArg (fun q => (g.nodes.find? q).map _) hkeeps

/-- Setting properties on a node that is not there makes it. -/
theorem node?_upsert_of_not_hasNode {g : Graph} {p : ProjectKey} {a : Json}
    (h : g.hasNode p a = false) (ps : List (String × Json)) (b : Json) :
    (g.upsert p a ps).node? p b =
      (g.node? p b).or (if a.same b then some (setOn ps (freshNode p a)) else none) := by
  unfold upsert node?
  rw [if_neg (by simp [h]), List.find?_append]
  have hlast : ∀ n : GraphNode, [n].find? (·.is p b) = if n.is p b then some n else none := by
    intro n
    cases hn : n.is p b <;> simp [hn]
  rw [hlast]
  simp [freshNode, setOn, GraphNode.is]

theorem node?_upsert_self (g : Graph) (p : ProjectKey) (id : Json) (ps : List (String × Json)) :
    (g.upsert p id ps).node? p id = some (setOn ps ((g.node? p id).getD (freshNode p id))) := by
  cases hn : g.node? p id with
  | none =>
    rw [node?_upsert_of_not_hasNode (by simp [hasNode, hn]), hn]
    simp
  | some n =>
    have his : n.is p id = true := GraphNode.is_iff.2 (node?_eq_some hn).2
    rw [node?_upsert_of_hasNode (by simp [hasNode, hn]), hn]
    simp [his]

theorem node?_upsert_of_ne (g : Graph) (p : ProjectKey) {a b : Json} (h : a.same b = false)
    (ps : List (String × Json)) : (g.upsert p a ps).node? p b = g.node? p b := by
  cases ha : g.hasNode p a with
  | false =>
    rw [node?_upsert_of_not_hasNode ha, h]
    simp
  | true =>
    rw [node?_upsert_of_hasNode ha]
    cases hn : g.node? p b with
    | none => rfl
    | some n =>
      have hnot : n.is p a = false := by
        rw [← Bool.not_eq_true, GraphNode.is_iff, (node?_eq_some hn).2]
        intro he
        rw [Json.same_iff.2 (Prod.mk.inj he).2.symm] at h
        cases h
      simp [hnot]

end Graph

/-! ## Recording -/

/-- What a node keeps about a definition of a source. -/
structure Recorded (src : String) (p : ProjectKey) (d : Node) (t : Properties) : Prop where
  start : Table.get? t "start" = some (.int (d.firstRow src))
  stop : Table.get? t "end" = some (.int (d.lastRow src))
  project : p.given ≠ .null → Table.get? t "project_id" = some p.given

theorem keys_written (p : ProjectKey) (ps : List (String × Json)) :
    Table.keys (GraphCommand.written p ps) = Table.keys (Table.set ps "project_id" p.given) := by
  simp [Table.keys, GraphCommand.written, Function.comp_def]

namespace GraphCommand
open GraphService Properties

theorem get?_written (p : ProjectKey) (ps : List (String × Json)) (k : String) :
    Table.get? (written p ps) k =
      if "project_id" = k then some (serialised p.given) else (Table.get? ps k).map serialised := by
  have hmap := Table.get?_map serialised (Table.set ps "project_id" p.given) k
  rw [Table.get?_set] at hmap
  refine hmap.trans ?_
  split <;> rfl

theorem nodup_written {ps : List (String × Json)} (hn : (Table.keys ps).Nodup) (p : ProjectKey) :
    (Table.keys (written p ps)).Nodup := by
  rw [keys_written]
  exact Table.nodup_set hn _ _

theorem get?_setOn {ps : List (String × Json)} (hn : (Table.keys ps).Nodup) (p : ProjectKey)
    (n : GraphNode) (k : String) :
    Table.get? (Graph.setOn (written p ps) n).properties k =
      if "project_id" = k then shown (serialised p.given)
      else ((Table.get? ps k).map (shown ∘ serialised)).getD (Table.get? n.properties k) := by
  refine (get?_assignAll (nodup_written hn p) n.properties k).trans ?_
  rw [get?_written]
  split
  · rfl
  · rw [Option.map_map]

end GraphCommand

/-- A property that is written is there afterwards, unless it is null. -/
theorem get?_setOn_written {p : ProjectKey} {ps : List (String × Json)}
    (hn : (Table.keys ps).Nodup) {k : String} {v : Json}
    (h : Table.get? (Table.set ps "project_id" p.given) k = some v)
    (hv : GraphService.serialised v = v) (hnull : v ≠ .null) (n : GraphNode) :
    Table.get? (Graph.setOn (GraphCommand.written p ps) n).properties k = some v := by
  rw [Table.get?_set] at h
  rw [GraphCommand.get?_setOn hn]
  split
  · next hk =>
    rw [if_pos hk] at h
    rw [Option.some.inj h, hv, Properties.shown, if_neg hnull]
  · next hk =>
    rw [if_neg hk] at h
    simp [h, hv, Properties.shown, hnull]

theorem recorded_setOn {src : String} {p : ProjectKey} (hp : p.given.checkKey = .ok ()) {d : Node}
    {ps : List (String × Json)} (hn : (Table.keys ps).Nodup)
    (hstart : Table.get? ps "start" = some (.int (d.firstRow src)))
    (hstop : Table.get? ps "end" = some (.int (d.lastRow src))) (n : GraphNode) :
    Recorded src p d (Graph.setOn (GraphCommand.written p ps) n).properties where
  start := get?_setOn_written hn (by rw [Table.get?_set_of_ne ps _ (by decide), hstart]) rfl
    (by simp) n
  stop := get?_setOn_written hn (by rw [Table.get?_set_of_ne ps _ (by decide), hstop]) rfl
    (by simp) n
  project hnull := get?_setOn_written hn (Table.get?_set_self ps _ _)
    (Json.serialised_of_same hp (Json.same_self _)) hnull n

namespace Analysis
open GraphCommand

variable {w : World} {p : ProjectKey} {c : Cell} {directory path : String}

def command? (directory path : String) (p : ProjectKey) : Finding → Option GraphCommand
  | .function f => some (.upsert (.str (identifier directory path f.name)) p
      (functionProperties path f.signature))
  | .class c => some (.upsert (.str (identifier directory path c.name)) p (classProperties path c))
  | _ => none

theorem ends_setNode (hw : w.troubles = []) (hc : p.cell = .ok c) (id : String)
    (ps : List (String × Json)) :
    (setNode id p ps).ends w = (.ok (), sent w [.upsert (.str id) p ps]) := by
  rw [setNode, Run.ends_bind_ok _ (Run.ends_outcome _ _), ends_upsert hw, p.checkKeys_str hc]
  rfl

theorem ends_recordFinding (directory path : String) (hw : w.troubles = []) (hc : p.cell = .ok c)
    (f : Finding) : (recordFinding directory path p f).ends w =
      (.ok (), sent w (command? directory path p f).toList) := by
  cases f with
  | function f => exact ends_setNode hw hc _ _
  | «class» c => exact ends_setNode hw hc _ _
  | _ => exact congrArg (Prod.mk _) (sent_nil w).symm

theorem ends_recordFindings (directory path : String) (hc : p.cell = .ok c) (fs : List Finding) :
    ∀ {w : World}, w.troubles = [] → (fs.forM (recordFinding directory path p)).ends w =
      (.ok (), sent w (fs.filterMap (command? directory path p))) := by
  induction fs with
  | nil => exact fun {w} _ => congrArg (Prod.mk _) (sent_nil w).symm
  | cons f fs ih =>
    intro w hw
    have hcons : (f :: fs).filterMap (command? directory path p) =
        (command? directory path p f).toList ++ fs.filterMap (command? directory path p) := by
      cases hf : command? directory path p f <;> simp [hf]
    rw [hcons, ← sent_append, ← ih (w := sent w _) hw]
    exact Run.ends_bind_ok _ (ends_recordFinding directory path hw hc f)

theorem ends_recordSurvey (directory path : String) (hw : w.troubles = []) (hc : p.cell = .ok c)
    (s : Survey) : (recordSurvey directory path p s).ends w =
      (match s.ended with
        | some e => .error e
        | none => .ok (),
        sent w (s.findings.filterMap (command? directory path p))) := by
  unfold recordSurvey
  rw [Run.ends_bind_ok _ (ends_recordFindings directory path hc s.findings hw)]
  cases s.ended <;> rfl

theorem after_recordSurvey (directory path : String) (hw : w.troubles = []) (hc : p.cell = .ok c)
    (s : Survey) : ∃ l, (recordSurvey directory path p s).after w = { w with
      graph := effects (s.findings.filterMap (command? directory path p)) w.graph, log := l } :=
  ⟨_, congrArg Prod.snd (ends_recordSurvey directory path hw hc s)⟩

/-- The definitions among findings by their identifiers; of an identifier that is found twice the
last definition counts. -/
def definitions (directory path : String) (fs : List Finding) : Table String Node :=
  Table.ofPairs (fs.filterMap fun f =>
    f.definition?.map fun d => (identifier directory path d.1, d.2))

theorem recorded_command (directory path : String) {src : String} (hp : p.given.checkKey = .ok ())
    {f : Finding} (hf : f.RowsOf src) {name : String} {d : Node}
    (hd : f.definition? = some (name, d)) :
    ∃ ps, command? directory path p f =
        some (.upsert (.str (identifier directory path name)) p ps) ∧
      ∀ n, Recorded src p d (Graph.setOn (written p ps) n).properties := by
  cases f with
  | function f =>
    cases hd
    refine ⟨_, rfl, recorded_setOn hp (by simp [functionProperties, Table.keys]) ?_ ?_⟩
    · rw [← hf.1]; rfl
    · rw [← hf.2]; rfl
  | «class» c =>
    cases hd
    refine ⟨_, rfl, recorded_setOn hp (by simp [classProperties, Table.keys]) ?_ ?_⟩
    · rw [← hf.1]; rfl
    · rw [← hf.2]; rfl
  | _ => cases hd

theorem definitions_concat (fs : List Finding) (f : Finding) :
    definitions directory path (fs ++ [f]) = match f.definition? with
      | some d => Table.set (definitions directory path fs) (identifier directory path d.1) d.2
      | none => definitions directory path fs := by
  unfold definitions Table.ofPairs Table.setAll
  rw [List.filterMap_append, List.foldl_append]
  cases h : f.definition? <;> simp [h]

theorem effect_upsert (hc : p.cell = .ok c) (id : String) (ps : List (String × Json)) (g : Graph) :
    (GraphCommand.upsert (.str id) p ps).effect g = g.upsert p (.str id) (written p ps) := by
  simp only [effect, p.checkKeys_str hc]

theorem recorded_definitions {src : String} (hc : p.cell = .ok c) {fs : List Finding}
    (hfs : ∀ f ∈ fs, f.RowsOf src) {id : String} {d : Node}
    (h : Table.get? (definitions directory path fs) id = some d) (g : Graph) :
    ∃ n, (effects (fs.filterMap (command? directory path p)) g).node? p (.str id) = some n ∧
      Recorded src p d n.properties := by
  -- from the end: the last definition with an identifier is the one that its node keeps
  induction fs using List.reverseRecOn with
  | nil => cases h
  | append_singleton fs f ih =>
    have hinit : ∀ f ∈ fs, f.RowsOf src := fun f hf => hfs f (List.mem_append_left _ hf)
    rw [definitions_concat] at h
    rw [List.filterMap_append, effects_append]
    cases hd : f.definition? with
    | none =>
      have hnone : command? directory path p f = none := by cases f <;> first | rfl | cases hd
      rw [hd] at h
      simpa [hnone, effects] using ih hinit h
    | some e =>
      obtain ⟨name, e⟩ := e
      obtain ⟨ps, hps, hrec⟩ := recorded_command directory path (p.checkKey_of_cell hc)
        (hfs f (by simp)) hd
      rw [hd] at h
      simp only [List.filterMap_cons, List.filterMap_nil, hps, effects, List.foldl_cons,
        List.foldl_nil, effect_upsert hc]
      by_cases hid : identifier directory path name = id
      · subst hid
        rw [Table.get?_set_self, Option.some.injEq] at h
        subst h
        exact ⟨_, Graph.node?_upsert_self _ _ _ _, hrec _⟩
      · rw [Table.get?_set_of_ne _ _ hid] at h
        rw [Graph.node?_upsert_of_ne _ _ (by
          rw [← Bool.not_eq_true, Json.str_same_iff, Json.str.injEq, eq_comm]; exact hid)]
        exact ih hinit h

theorem exists_name {fs : List Finding} {id : String} {d : Node}
    (h : Table.get? (definitions directory path fs) id = some d) :
    ∃ name, id = identifier directory path name := by
  rcases Table.mem_setAll (Table.mem_of_get? h) with hm | hm
  · cases hm
  · obtain ⟨f, -, hf⟩ := List.mem_filterMap.1 hm
    obtain ⟨e, -, he⟩ := Option.map_eq_some_iff.1 hf
    exact ⟨e.1, (Prod.mk.inj he).1.symm⟩

theorem proper_command {f : Finding} {cmd : GraphCommand}
    (h : command? directory path p f = some cmd) : cmd.Proper := by
  cases f with
  | function f =>
    cases h
    exact ⟨by simp [functionProperties, Table.keys], by simp [functionProperties]⟩
  | «class» c =>
    cases h
    exact ⟨by simp [classProperties, Table.keys], by simp [classProperties]⟩
  | _ => cases h

end Analysis

/-! ## Reading -/

namespace Code

variable {v : World} {p : ProjectKey}

def Hosts (v : World) (p : ProjectKey) (file text : String) : Prop :=
  ∃ c row name r, p.cell = .ok c ∧ v.store.project? c = some row ∧ row.repository = some name ∧
    (Hosting.installedRepository (.str name)).answer v = .ok r ∧ r.file? file = some text

theorem given_ne_null {c : Cell} {row : Project} (hc : p.cell = .ok c)
    (h : v.store.project? c = some row) : p.given ≠ .null := by
  intro hnull
  rw [ProjectKey.cell, hnull] at hc
  cases hc
  unfold Store.project? at h
  have his := List.find?_some h
  simp [Store.isProject, Cell.asNumber] at his

theorem keeps_installedRepository (name : Json) :
    Run.Keeps id (Hosting.installedRepository name) := by
  have hinstalled : Run.Keeps id (Hosting.isInstalled name) := by
    refine (Run.Keeps.lift _).bind fun pair => ?_
    exact Run.Keeps.get.bind fun _ => Run.Keeps.pure _
  have hrepository : Run.Keeps id (Hosting.repository name) := by
    refine Run.Keeps.get.bind fun _ => (Run.Keeps.lift _).bind fun found => ?_
    split
    · split
      · exact Run.Keeps.throw _
      · exact Run.Keeps.pure _
    · exact Run.Keeps.throw _
  refine hinstalled.bind fun yes => ?_
  split
  · exact hrepository
  · exact Run.Keeps.throw _

theorem locate_eq {t : Properties} {src id : String} {d : Node} (h : Recorded src p d t)
    (hnull : p.given ≠ .null) (hid : Table.get? t "id" = some (.str id)) :
    locate t = .ok ⟨p.given, Text.trimLeft '/' (Text.before ':' id), .int (d.firstRow src),
      .int (d.lastRow src)⟩ := by
  unfold locate
  rw [h.project hnull, hid, h.start, h.stop]
  rfl

/-- What is read for a node: the lines that are cut out of the hosted file by the rows that it
keeps. -/
theorem answer_hosted {t : Properties} {src id text : String} {d : Node} (h : Recorded src p d t)
    (hid : Table.get? t "id" = some (.str id))
    (hv : Hosts v p (Text.swap "\\" "/" (Text.trimLeft '/' (Text.before ':' id))) text) :
    (hosted t).answer v = .ok (some ("\n".intercalate
      (rows (Text.fields '\n' text) (d.firstRow src) (d.lastRow src)))) := by
  obtain ⟨c, row, name, r, hc, hrow, hname, hr, hfile⟩ := hv
  have hproject : (projectOf ⟨p.given, Text.trimLeft '/' (Text.before ':' id),
      .int (d.firstRow src), .int (d.lastRow src)⟩).ends v = (.ok row, v) := by
    unfold projectOf
    rw [show (ProjectKey.mk p.given).cell = .ok c from hc, Run.ends_bind_lift]
    simp only [Run.ends_bind_ok _ (Run.ends_look _ v), hrow]
    rfl
  have hrepository : (Hosting.installedRepository (.str name)).ends v = (.ok r, v) :=
    Prod.ext hr (keeps_installedRepository (.str name) v)
  have hread : (readHosted t).ends v = (.ok ("\n".intercalate
      (rows (Text.fields '\n' text) (d.firstRow src) (d.lastRow src))), v) := by
    unfold readHosted
    rw [locate_eq h (given_ne_null hc hrow) hid, Run.ends_bind_lift]
    simp only [Run.ends_bind_ok _ hproject, hname, Run.ends_bind_ok _ hrepository,
      Hosting.fileText, hfile, Run.ends_bind_lift]
    rfl
  unfold hosted Run.answer
  rw [Run.ends_bind_ok _ (Run.ends_outcome _ _), hread]
  rfl

section
variable {w : World} {c : Cell} {directory path src : String} {root : Node}

/-- The path of a file in the repository of its project. -/
def hostedPath (directory path : String) : String :=
  Text.swap "\\" "/" (Text.trimLeft '/' (Text.remove directory path))

/-- A definition that was recorded is read by its rows from the file that it stands in. -/
theorem hosted_definition (hw : w.troubles = []) (hg : w.graph.Sound) (hc : p.cell = .ok c)
    (hcolon : ':' ∉ (Text.remove directory path).toList) {id : String} {d : Node}
    (hd : Table.get? (Analysis.definitions directory path (Survey.ofTree src root).findings) id =
      some d) :
    ∃ n, ((Analysis.recordSurvey directory path p (Survey.ofTree src root)).after w).graph.node? p
        (.str id) = some n ∧ Recorded src p d n.properties ∧
      ∀ v text, Hosts v p (hostedPath directory path) text →
        (hosted n.properties).answer v = .ok (some ("\n".intercalate
          (rows (Text.fields '\n' text) (d.firstRow src) (d.lastRow src)))) := by
  obtain ⟨l, hl⟩ := Analysis.after_recordSurvey directory path hw hc (Survey.ofTree src root)
  obtain ⟨n, hn, hrec⟩ := Analysis.recorded_definitions hc (Survey.rowsOf_ofTree src root)
    hd w.graph
  refine ⟨n, by rw [hl]; exact hn, hrec, fun v text hv => ?_⟩
  have hsound : (GraphCommand.effects ((Survey.ofTree src root).findings.filterMap
      (Analysis.command? directory path p)) w.graph).Sound := by
    refine GraphCommand.effects_sound (fun cmd hcmd => ?_) hg
    obtain ⟨f, -, hf⟩ := List.mem_filterMap.1 hcmd
    exact Analysis.proper_command hf
  -- the node shows the identifier that it is known by, and its part before the colon is the path
  obtain ⟨hmem, -, hid⟩ := Graph.node?_str hn
  obtain ⟨name, rfl⟩ := Analysis.exists_name hd
  refine answer_hosted hrec (hsound.get?_id hmem hid) ?_
  rw [identifier, Text.before_colon hcolon]
  exact hv

/-- **The code of a recorded definition**: when the hosted file is the source that was surveyed,
some text is read for every definition. It is that of the rows of the definition if and only if each
row repeats the row before it, or the only row is the first one and is empty. -/
theorem hosted_definition_iff (hw : w.troubles = []) (hg : w.graph.Sound) (hc : p.cell = .ok c)
    (hcolon : ':' ∉ (Text.remove directory path).toList) {id : String} {d : Node}
    (hd : Table.get? (Analysis.definitions directory path (Survey.ofTree src root).findings) id =
      some d) :
    ∃ n, ((Analysis.recordSurvey directory path p (Survey.ofTree src root)).after w).graph.node? p
        (.str id) = some n ∧ Recorded src p d n.properties ∧
      ∀ v, Hosts v p (hostedPath directory path) src →
        ∃ text, (hosted n.properties).answer v = .ok (some text) ∧
          (text = "\n".intercalate
              (span (Text.fields '\n' src) (d.firstRow src) (d.lastRow src)) ↔
            (1 ≤ d.firstRow src ∧ ∀ i, d.firstRow src ≤ i → i ≤ d.lastRow src →
              (Text.fields '\n' src)[i]? = (Text.fields '\n' src)[i - 1]?) ∨
            (d.firstRow src = 0 ∧ d.lastRow src = 0 ∧ (Text.fields '\n' src)[0]? = some "")) := by
  obtain ⟨n, hn, hrec, hread⟩ := hosted_definition hw hg hc hcolon hd
  refine ⟨n, hn, hrec, fun v hv => ⟨_, hread v src hv, ?_⟩⟩
  exact rows_joined_iff rfl (Node.rowAt_lt src d.stop)

end

/-! ## Two small files -/

/-- A project whose repository has one file, `m.py`. -/
def demo (src : String) : World :=
  { World.vacant with
    store := { Store.empty with
      projects := [{ Project.sample 1 "u" with directory := some "/demo" }] }
    hosted := [("o/demo", { HostedRepository.blank with files := [("m.py", src)] })] }

theorem demo_hosts (src : String) :
    Hosts (demo src) (.number 1) (hostedPath "/demo" "/demo/m.py") src := by
  have hpath : hostedPath "/demo" "/demo/m.py" = "m.py" := by cbv
  rw [hpath]
  exact ⟨.number 1, _, _, { HostedRepository.blank with files := [("m.py", src)] }, rfl, rfl, rfl,
    rfl, rfl⟩

def demoFunction (start stop : Nat) : Node :=
  .mk "function_definition" start stop [.mk "identifier" (start + 4) (start + 5) []]

theorem ofTopLevel_demoFunction {src : String} {start stop : Nat}
    (h : Node.text src (.mk "identifier" (start + 4) (start + 5) []) = .ok "f") :
    Survey.ofTopLevel src (demoFunction start stop) =
      ⟨[.function ⟨"f", demoFunction start stop, ⟨some "f", [],
        (demoFunction start stop).firstRow src, (demoFunction start stop).lastRow src, ""⟩⟩],
        none⟩ := by
  have hread : Signature.read src none (demoFunction start stop) = .ok ⟨some "f", [],
      (demoFunction start stop).firstRow src, (demoFunction start stop).lastRow src, ""⟩ := by
    simp [Signature.read, demoFunction, Node.children, Node.kind, Signature.readChildren,
      Definitions.qualified, h, bind, Except.bind, pure, Except.pure]
  have hkind : (demoFunction start stop).kind = "function_definition" := rfl
  simp [Survey.ofTopLevel, Survey.isFunction, Survey.functionOf, Survey.ofReading, hkind, hread,
    bind, Except.bind, pure, Except.pure]

/-- A function twice, in the same words. -/
def repeatedSource : String := "def f(): pass\ndef f(): pass"

def repeatedTree : Node := .mk "module" 0 27 [demoFunction 0 13, demoFunction 14 27]

/-- A function in the second and third row. -/
def laterSource : String := "x = 1\ndef f():\n    return x\n"

def laterTree : Node := .mk "module" 0 28 [demoFunction 6 27]

theorem demo_identifier : identifier "/demo" "/demo/m.py" "f" = "/m.py:f" := by cbv

theorem later_definition : Table.get? (Analysis.definitions "/demo" "/demo/m.py"
    (Survey.ofTree laterSource laterTree).findings) "/m.py:f" = some (demoFunction 6 27) := by
  have hname : Node.text laterSource (.mk "identifier" 10 11 []) = .ok "f" := rfl
  have htree : Survey.ofTree laterSource laterTree =
      (Survey.ofTopLevel laterSource (demoFunction 6 27)).followedBy Survey.empty := rfl
  rw [htree, ofTopLevel_demoFunction hname, ← demo_identifier]
  simp [Survey.followedBy, Survey.empty, Analysis.definitions, Finding.definition?, Table.ofPairs,
    Table.setAll, Table.set, Table.get?]

theorem repeated_definition : Table.get? (Analysis.definitions "/demo" "/demo/m.py"
    (Survey.ofTree repeatedSource repeatedTree).findings) "/m.py:f" =
      some (demoFunction 14 27) := by
  have hfirst : Node.text repeatedSource (.mk "identifier" 4 5 []) = .ok "f" := rfl
  have hsecond : Node.text repeatedSource (.mk "identifier" 18 19 []) = .ok "f" := rfl
  have htree : Survey.ofTree repeatedSource repeatedTree =
      (Survey.ofTopLevel repeatedSource (demoFunction 0 13)).followedBy
        ((Survey.ofTopLevel repeatedSource (demoFunction 14 27)).followedBy Survey.empty) := rfl
  rw [htree, ofTopLevel_demoFunction hfirst, ofTopLevel_demoFunction hsecond, ← demo_identifier]
  simp [Survey.followedBy, Survey.empty, Analysis.definitions, Finding.definition?, Table.ofPairs,
    Table.setAll, Table.set, Table.get?]

theorem demo_colon : ':' ∉ (Text.remove "/demo" "/demo/m.py").toList := by decide_cbv

/-- The second of two equal definitions is read as it is, because the first one is. -/
theorem repeated_definition_read : ∃ n, ((Analysis.recordSurvey "/demo" "/demo/m.py" (.number 1)
      (Survey.ofTree repeatedSource repeatedTree)).after (demo repeatedSource)).graph.node?
        (.number 1) (.str "/m.py:f") = some n ∧
    (hosted n.properties).answer (demo repeatedSource) = .ok (some "def f(): pass") := by
  have hfirst : (demoFunction 14 27).firstRow repeatedSource = 1 := by decide +kernel
  have hlast : (demoFunction 14 27).lastRow repeatedSource = 1 := by decide +kernel
  have hlines : Text.fields '\n' repeatedSource = ["def f(): pass", "def f(): pass"] := by
    decide +kernel
  obtain ⟨n, hn, -, hread⟩ := hosted_definition_iff (w := demo repeatedSource) (p := .number 1)
    (c := .number 1) rfl Graph.sound_empty rfl demo_colon repeated_definition
  obtain ⟨text, htext, hiff⟩ := hread _ (demo_hosts repeatedSource)
  rw [hfirst, hlast, hlines] at hiff
  have heq := hiff.2 (Or.inl ⟨Nat.le_refl 1, fun i h1 h2 => by
    obtain rfl : i = 1 := Nat.le_antisymm h2 h1
    rfl⟩)
  exact ⟨n, hn, by rw [htext, heq]; rfl⟩

/-- A definition from the second row on is shown one row too early. -/
theorem second_row_early : ∃ n, ((Analysis.recordSurvey "/demo" "/demo/m.py" (.number 1)
      (Survey.ofTree laterSource laterTree)).after (demo laterSource)).graph.node? (.number 1)
        (.str "/m.py:f") = some n ∧
    Recorded laterSource (.number 1) (demoFunction 6 27) n.properties ∧
    (hosted n.properties).answer (demo laterSource) = .ok (some "x = 1\ndef f():") ∧
    "\n".intercalate (span (Text.fields '\n' laterSource) ((demoFunction 6 27).firstRow laterSource)
      ((demoFunction 6 27).lastRow laterSource)) = "def f():\n    return x" := by
  have hfirst : (demoFunction 6 27).firstRow laterSource = 1 := by decide +kernel
  have hlast : (demoFunction 6 27).lastRow laterSource = 2 := by decide +kernel
  have hlines : Text.fields '\n' laterSource = ["x = 1", "def f():", "    return x", ""] := by
    decide +kernel
  obtain ⟨n, hn, hrec, hread⟩ := hosted_definition (w := demo laterSource) (p := .number 1)
    (c := .number 1) rfl Graph.sound_empty rfl demo_colon later_definition
  refine ⟨n, hn, hrec, ?_, ?_⟩
  · rw [hread _ _ (demo_hosts laterSource), hfirst, hlast, hlines]
    rfl
  · rw [hfirst, hlast, hlines]
    rfl

end Code
end CodeAtlas
