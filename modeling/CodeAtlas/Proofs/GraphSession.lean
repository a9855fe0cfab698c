import CodeAtlas.Graph.Service
import CodeAtlas.Proofs.Run

/-!
# Sessions with the graph service

What the operations on the code graph do. While the service is in order, that is, while no trouble is
ahead, opening a session changes nothing and sending a query changes at most the log.

* `ends_openSession_any`, `ends_send_any`: how a session is opened and a query is sent, with any trouble
  ahead;
* `GraphCommand.after_run`: a command changes the graph by its `effect`, which is a function of the
  graph alone, and adds its `notes` to the log; this holds whether the command ends well or not;
* `GraphCommand.session_eq`: the same for a sequence of commands, after which the world is `sent`;
* `Steady`: what two worlds agree on after a request, if they did before;
* `gives_ask`, `gives_callees`: what questions answer in a class of worlds that agree on the part of
  the graph asked about (`Calm`).
-/
namespace CodeAtlas
namespace GraphService

/-- How opening a session ends with what is ahead, and what is ahead then. -/
def opened : List (Option GraphTrouble) → Except Failure Unit × List (Option GraphTrouble)
  | some .down :: ts => (.error .graphDown, ts)
  | ts => (.ok (), ts)

/-- How a query ends with what is ahead. -/
def responded : List (Option GraphTrouble) → Except Failure Unit
  | some t :: _ => .error (failureOf t)
  | _ => .ok ()

def noted (tracing : Bool) (q : GraphQuery) : List Effect :=
  if tracing then [.queried q.text q.parameters] else []

theorem with_troubles {w : World} {ts : List (Option GraphTrouble)} (h : w.troubles = ts) :
    { w with troubles := ts } = w := h ▸ rfl

theorem ends_openSession_any (w : World) :
    openSession.ends w = ((opened w.troubles).1, { w with troubles := (opened w.troubles).2 }) := by
  unfold openSession
  rw [Run.ends_bind_ok _ (Run.ends_get w)]
  rcases h : w.troubles with _ | ⟨_ | t, ts⟩
  · exact Prod.ext rfl (with_troubles h).symm
  · exact Prod.ext rfl (with_troubles h).symm
  · cases t with
    | down => rfl
    | _ => exact Prod.ext rfl (with_troubles h).symm

theorem ends_respond (w : World) :
    respond.ends w = (responded w.troubles, { w with troubles := w.troubles.tail }) := by
  unfold respond
  rw [Run.ends_bind_ok _ (Run.ends_get w)]
  cases h : w.troubles with
  | nil => exact Prod.ext rfl (with_troubles h).symm
  | cons trouble troubles => cases trouble <;> rfl

theorem ends_send_any (q : GraphQuery) (w : World) : (send q).ends w = (responded w.troubles,
    { w with log := w.log ++ noted w.tracing q, troubles := w.troubles.tail }) := by
  unfold send
  rw [Run.ends_bind_ok _ (Run.ends_get w), noted]
  split
  · rw [Run.ends_bind_ok _ (Run.ends_note _ w), ends_respond]
  · rw [ends_respond, List.append_nil]

theorem ends_openSession {w : World} (h : w.troubles = []) : openSession.ends w = (.ok (), w) := by
  rw [ends_openSession_any, h]
  exact Prod.ext rfl (with_troubles h)

theorem ends_send {w : World} (h : w.troubles = []) (q : GraphQuery) :
    (send q).ends w = (.ok (), { w with log := w.log ++ noted w.tracing q }) := by
  rw [ends_send_any, h]
  rfl

end GraphService

/-! ## Commands -/

/-- A command that changes the graph. -/
inductive GraphCommand where
  | upsert (id : Json) (project : ProjectKey) (properties : List (String × Json))
  | connect (source target : Json) (project : ProjectKey) (properties : Json)
  | extend (base derived : Json) (project : ProjectKey)
  | delete (project : ProjectKey)

namespace GraphCommand
open GraphService

def project : GraphCommand → ProjectKey
  | upsert _ p _ => p
  | connect _ _ p _ => p
  | extend _ _ p => p
  | delete p => p

def run : GraphCommand → Run Unit
  | upsert id p ps => GraphService.upsert id p ps
  | connect a b p properties => GraphService.connect a b p properties
  | extend base derived p => GraphService.extend base derived p
  | delete p => GraphService.deleteProject p

/-- The properties that are set on a node, the project among them. -/
def written (p : ProjectKey) (ps : List (String × Json)) : List (String × Json) :=
  (Table.set ps "project_id" p.given).map fun (k, v) => (k, serialised v)

/-- What a command does to the graph: nothing if it names nodes by values that are no keys. -/
def effect : GraphCommand → Graph → Graph
  | upsert id p ps, g =>
    match checkKeys p [id] with
    | .ok _ => g.upsert p id (written p ps)
    | .error _ => g
  | connect a b p properties, g =>
    match checkKeys p [a, b] >>= fun _ => properties.asMembers with
    | .ok ps => g.connect p a b ps
    | .error _ => g
  | extend base derived p, g =>
    match checkKeys p [base, derived] with
    | .ok _ => g.extend p derived base
    | .error _ => g
  | delete p, g => g.deleteProject p

def notes (tracing : Bool) : GraphCommand → List Effect
  | upsert id p ps => noted tracing (.upsert id p (written p ps)) ++ [.nodeSet id p (written p ps)]
  | connect a b p properties =>
    noted tracing (.connect a b p properties) ++ [.called a b p properties]
  | extend base derived p => noted tracing (.extend base derived p) ++ [.extended derived base p]
  | delete p => noted tracing (.deleteProject p) ++ [.nodesDeleted p]

def effects (cs : List GraphCommand) (g : Graph) : Graph := cs.foldl (fun g c => c.effect g) g

theorem effects_append (cs ds : List GraphCommand) (g : Graph) :
    effects (cs ++ ds) g = effects ds (effects cs g) := List.foldl_append

/-- What each of some commands keeps, they keep one after the other. -/
theorem effects_keep {P : Graph → Prop} {cs : List GraphCommand}
    (h : ∀ c ∈ cs, ∀ g, P g → P (c.effect g)) {g : Graph} (hg : P g) : P (effects cs g) := by
  induction cs generalizing g with
  | nil => exact hg
  | cons c cs ih =>
    rw [List.forall_mem_cons] at h
    exact ih h.2 (h.1 g hg)

def sent (w : World) (cs : List GraphCommand) : World :=
  { w with graph := effects cs w.graph, log := w.log ++ cs.flatMap (notes w.tracing) }

@[simp] theorem sent_nil (w : World) : sent w [] = w := by
  simp [sent, effects]

theorem sent_append (w : World) (cs ds : List GraphCommand) :
    sent (sent w cs) ds = sent w (cs ++ ds) := by
  simp [sent, effects_append]

theorem ends_upsert {w : World} (h : w.troubles = []) (id : Json) (p : ProjectKey)
    (ps : List (String × Json)) :
    (GraphService.upsert id p ps).ends w = (checkKeys p [id], sent w [upsert id p ps]) := by
  have hsend := ends_send h (.upsert id p (written p ps))
  unfold written at hsend
  simp only [GraphService.upsert, upsertIn, sent, effects, List.foldl_cons, List.foldl_nil, effect,
    List.flatMap_singleton, notes, written]
  rw [Run.ends_bind_ok _ (ends_openSession h), Run.ends_bind_ok _ hsend,
    Run.ends_bind_ok _ (Run.ends_note _ _), Run.ends_bind_lift, List.append_assoc]
  cases checkKeys p [id] <;> rfl

theorem after_connect {w : World} (h : w.troubles = []) (a b : Json) (p : ProjectKey)
    (properties : Json) : (GraphService.connect a b p properties).after w =
      sent w [connect a b p properties] := by
  have hsend := ends_send h (.connect a b p properties)
  simp only [GraphService.connect, connectIn, Run.after, sent, effects, List.foldl_cons,
    List.foldl_nil, effect, List.flatMap_singleton, notes]
  rw [Run.ends_bind_ok _ (ends_openSession h), Run.ends_bind_ok _ hsend,
    Run.ends_bind_ok _ (Run.ends_note _ _), Run.ends_bind_lift, List.append_assoc]
  cases checkKeys p [a, b] with
  | error e => rfl
  | ok _ =>
    simp only [Run.ends_bind_ok _ (Run.ends_get _)]
    split
    · rw [Run.ends_bind_lift]
      cases properties.asMembers <;> rfl
    · -- what is no pair of nodes is not connected, whatever the properties are
      rename_i hn
      cases properties.asMembers with
      | error e => rfl
      | ok ps =>
        simp only [bind, Except.bind, Graph.connect, if_neg hn]
        rfl

theorem ends_extend {w : World} (h : w.troubles = []) (base derived : Json) (p : ProjectKey) :
    (GraphService.extend base derived p).ends w = (.ok (), sent w [extend base derived p]) := by
  have hsend := ends_send h (.extend base derived p)
  simp only [GraphService.extend, sent, effects, List.foldl_cons, List.foldl_nil, effect,
    List.flatMap_singleton, notes]
  rw [Run.ends_bind_ok _ (ends_openSession h), Run.ends_bind_ok _ (Run.ends_outcome _ _),
    Run.ends_pure, Run.ends_bind_ok _ hsend, Run.ends_bind_ok _ (Run.ends_note _ _),
    Run.ends_bind_lift, List.append_assoc]
  cases checkKeys p [base, derived] <;> rfl

theorem after_extend {w : World} (h : w.troubles = []) (base derived : Json) (p : ProjectKey) :
    (GraphService.extend base derived p).after w = sent w [extend base derived p] :=
  congrArg Prod.snd (ends_extend h base derived p)

theorem after_delete {w : World} (h : w.troubles = []) (p : ProjectKey) :
    (GraphService.deleteProject p).after w = sent w [delete p] := by
  have hsend := ends_send h (.deleteProject p)
  simp only [GraphService.deleteProject, Run.after, sent, effects, List.foldl_cons, List.foldl_nil,
    effect, List.flatMap_singleton, notes]
  rw [Run.ends_bind_ok _ (ends_openSession h), Run.ends_bind_ok _ (Run.ends_outcome _ _), hsend,
    ← List.append_assoc]
  rfl

/-- **One command**: it changes the graph by its effect and adds to the log what it notes, and does
nothing else. -/
theorem after_run (c : GraphCommand) {w : World} (h : w.troubles = []) :
    c.run.after w = sent w [c] := by
  cases c with
  | upsert id p ps => exact congrArg Prod.snd (ends_upsert h id p ps)
  | connect a b p properties => exact after_connect h a b p properties
  | extend base derived p => exact after_extend h base derived p
  | delete p => exact after_delete h p

/-- The world after commands, one after the other; one that fails does not stop the next. -/
def session (cs : List GraphCommand) (w : World) : World := cs.foldl (fun w c => c.run.after w) w

theorem session_eq (cs : List GraphCommand) {w : World} (h : w.troubles = []) :
    session cs w = sent w cs := by
  induction cs generalizing w with
  | nil => exact (sent_nil w).symm
  | cons c cs ih =>
    have hcons : session (c :: cs) w = session cs (c.run.after w) := rfl
    rw [hcons, c.after_run h, ih (w := sent w [c]) h, sent_append]
    rfl

/-- **A sequence of commands**: it changes the graph by their effects, and nothing else but the
log. -/
theorem after_session (cs : List GraphCommand) {w : World} (h : w.troubles = []) :
    ∃ l, session cs w = { w with graph := effects cs w.graph, log := l } :=
  ⟨_, session_eq cs h⟩

end GraphCommand

/-! ## Worlds that are alike -/

/-- A relation between worlds in which the service meets the same, and that does not depend on the
log. -/
structure Steady (R : World → World → Prop) : Prop where
  troubles : ∀ {w v}, R w v → w.troubles = v.troubles
  moved : ∀ {w v} (l k : List Effect) (ts : List (Option GraphTrouble)), R w v →
    R { w with log := l, troubles := ts } { v with log := k, troubles := ts }

namespace Steady
open GraphService

variable {R : World → World → Prop} (hR : Steady R)
include hR

theorem note (e : Effect) : Run.Respects R (Run.note e) :=
  Run.Respects.modify fun w v h => hR.troubles h ▸ hR.moved (w.log ++ [e]) (v.log ++ [e]) w.troubles h

theorem openSession : Run.Respects R openSession := by
  intro w v h
  rw [ends_openSession_any, ends_openSession_any, ← hR.troubles h]
  exact ⟨rfl, hR.moved w.log v.log _ h⟩

theorem send (q : GraphQuery) : Run.Respects R (send q) := by
  intro w v h
  rw [ends_send_any, ends_send_any, ← hR.troubles h]
  exact ⟨rfl, hR.moved _ _ _ h⟩

theorem sendAbout (q : GraphQuery) (p : ProjectKey) (ids : List Json) :
    Run.Respects R (sendAbout q p ids) := (hR.send q).bind fun _ => Run.Respects.lift _

theorem ask {α : Type} {q : GraphQuery} {p : ProjectKey} {ids : List Json} {f : Graph → α}
    (h : ∀ w v, R w v → f w.graph = f v.graph) : Run.Respects R (ask q p ids f) :=
  hR.openSession.bind fun _ => (hR.sendAbout q p ids).bind fun _ =>
    Run.Respects.getBind (fun w v hs => by rw [h w v hs]) fun _ => Run.Respects.pure _

end Steady

/-! ## Questions -/

/-- A class of worlds in which the service is in order and that does not depend on the log. -/
structure Calm (P : World → Prop) : Prop where
  order : ∀ w, P w → w.troubles = []
  logs : ∀ w l, P w → P { w with log := l }

namespace GraphService

variable {P : World → Prop} (hP : Calm P)
include hP

theorem gives_openSession : Run.Gives P openSession (.ok ()) := by
  intro w hw
  rw [ends_openSession (hP.order w hw)]
  exact ⟨rfl, hw⟩

theorem gives_send (q : GraphQuery) : Run.Gives P (send q) (.ok ()) := by
  intro w hw
  rw [ends_send (hP.order w hw) q]
  exact ⟨rfl, hP.logs w _ hw⟩

/-- A question about nodes is answered if they are named by keys. -/
theorem gives_ask {α : Type} {q : GraphQuery} {p : ProjectKey} {ids : List Json} {f : Graph → α}
    {a : α} (ha : ∀ w, P w → f w.graph = a) :
    Run.Gives P (ask q p ids f) ((checkKeys p ids).map fun _ => a) := by
  have hsend : Run.Gives P (sendAbout q p ids) (checkKeys p ids) :=
    (gives_send hP q).bind (Run.Gives.lift _)
  refine (gives_openSession hP).bind ?_
  cases hc : checkKeys p ids with
  | error e => rw [hc] at hsend; exact hsend.bind_error
  | ok _ =>
    rw [hc] at hsend
    exact hsend.bind (Run.Gives.getBind (fun w hw => by rw [ha w hw]) (Run.Gives.pure a))

theorem gives_callees {p : ProjectKey} {id : Json} {l : List GraphNode}
    (hl : ∀ w, P w → w.graph.callees p id = l) : Run.Gives P (callees id p) (.ok l) := by
  refine (gives_openSession hP).bind ((gives_send hP _).bind ?_)
  exact Run.Gives.getBind (fun w hw => by rw [hl w hw]) (Run.Gives.pure l)

end GraphService
end CodeAtlas
