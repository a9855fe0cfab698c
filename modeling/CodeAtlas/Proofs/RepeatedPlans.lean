import CodeAtlas.Proofs.FlowFunctions
import CodeAtlas.Proofs.KeptExplanations
import CodeAtlas.Proofs.SavedPlans

/-!
# Plans that are asked for again

A plan that is not there yet is made: the functions of the flow are explained one after the other,
each with a question to the language model unless it is explained already, and then the plan is
asked for and saved. Who asks again is answered what was saved.

* `Shape.readFields_eq_ok`, `Form.plan_read`: what is saved are two lists of texts;
* `Planning.unexplained`: the functions that the language model is asked about;
* `Planning.Underway`: the worlds on the way;
* `Planning.functionContext_step`, `Planning.flowContext_run`: one function, and all of a flow;
* `Planning.generate_cases`: a request fails early, or comes to the question for a plan;
* `Api.Plans.planned_again_iff`: when it is answered, and answered the same again.
-/
namespace CodeAtlas

/-! ## The form of a plan -/

namespace Shape

theorem mem_of_collect {α : Type} {xs : List (Except Faults α)} {as : List α}
    (h : collect xs = .ok as) : ∀ a ∈ as, .ok a ∈ xs := by
  induction xs generalizing as with
  | nil =>
    cases h
    exact fun a ha => absurd ha List.not_mem_nil
  | cons x xs ih =>
    cases x with
    | error f =>
      rw [collect] at h
      split at h <;> cases h
    | ok b =>
      rw [collect] at h
      cases hxs : collect xs with
      | error f => rw [hxs] at h; cases h
      | ok bs =>
        rw [hxs] at h
        cases h
        exact List.forall_mem_cons.2
          ⟨List.mem_cons_self, fun a ha => List.mem_cons_of_mem _ (ih hxs a ha)⟩

theorem exists_texts {as : List Json} (h : ∀ a ∈ as, ∃ s, a = .str s) :
    ∃ ts : List String, as = ts.map .str := by
  induction as with
  | nil => exact ⟨[], rfl⟩
  | cons a as ih =>
    obtain ⟨⟨s, rfl⟩, has⟩ := List.forall_mem_cons.1 h
    obtain ⟨ts, rfl⟩ := ih has
    exact ⟨s :: ts, rfl⟩

/-- What is read from a list are texts. -/
theorem texts_of_read {items : List Json} {v : Json} (h : read .texts (.arr items) = .ok v) :
    ∃ ts : List String, v = .arr (ts.map .str) := by
  simp only [read] at h
  cases hitems : collect (items.mapIdx readItem) with
  | error f => rw [hitems] at h; cases h
  | ok as =>
    rw [hitems] at h
    cases h
    have htexts : ∀ a ∈ as, ∃ s, a = .str s := by
      intro a ha
      obtain ⟨i, hi, hitem⟩ := List.mem_mapIdx.1 (mem_of_collect hitems a ha)
      unfold readItem at hitem
      split at hitem
      · cases hitem
      · split at hitem
        · exact ⟨_, (Except.ok.inj hitem).symm⟩
        · cases hitem
    obtain ⟨ts, rfl⟩ := exists_texts htexts
    exact ⟨ts, rfl⟩

theorem readFields_eq_ok {name : String} {shape : Shape} {rest : List Field}
    {members vs : List (String × Json)} {items : List Json}
    (hget : Table.get? members name = some (.arr items))
    (h : readFields ((name, .required, shape) :: rest) members = .ok vs) :
    ∃ v vs', read shape (.arr items) = .ok v ∧ readFields rest members = .ok vs' ∧
      vs = (name, v) :: vs' := by
  rw [readFields.eq_def] at h
  simp only [hget] at h
  cases hread : read shape (.arr items) with
  | error f =>
    simp only [hread] at h
    cases hrest : readFields rest members <;> simp only [hrest] at h <;> cases h
  | ok v =>
    simp only [hread] at h
    cases hrest : readFields rest members with
    | error g => simp only [hrest] at h; cases h
    | ok vs' =>
      simp only [hrest] at h
      exact ⟨v, vs', rfl, rfl, (Except.ok.inj h).symm⟩

end Shape

section
variable {ms : List (String × Json)} {happy edge : List Json}

theorem Form.plan_read {v : Json} (hhappy : Table.get? ms "happy_path" = some (.arr happy))
    (hedge : Table.get? ms "edge_case" = some (.arr edge)) (h : Form.plan.read (.obj ms) = .ok v) :
    ∃ hs es, v = .plan hs es := by
  have hendless : Form.plan.fields.any (Form.isEndless ms) = false := rfl
  simp only [Form.read, Form.readMembers, hendless] at h
  cases hfields : Shape.readFields Form.plan.fields ms with
  | error f => simp only [hfields] at h; cases h
  | ok vs =>
    simp only [hfields] at h
    cases h
    obtain ⟨x, rest, hx, hrest, rfl⟩ := Shape.readFields_eq_ok hhappy hfields
    obtain ⟨y, _, hy, hnil, rfl⟩ := Shape.readFields_eq_ok hedge hrest
    obtain ⟨hs, rfl⟩ := Shape.texts_of_read hx
    obtain ⟨es, rfl⟩ := Shape.texts_of_read hy
    cases hnil
    exact ⟨hs, es, rfl⟩

theorem Json.texts_of_same {ts : List String} {items : List Json}
    (h : (Json.arr (ts.map .str)).same (.arr items) = true) : items = ts.map .str := by
  simp only [same_iff, canonical, Json.arr.injEq] at h
  induction ts generalizing items with
  | nil => cases items <;> simp_all [canonicalItems]
  | cons t ts ih =>
    cases items with
    | nil => simp [canonicalItems] at h
    | cons x items =>
      simp only [List.map_cons, canonicalItems, List.cons.injEq] at h ⊢
      exact ⟨str_same_iff.1 (same_iff.2 h.1), ih h.2⟩

/-- An object that means the same as two lists of texts is saved as these. -/
theorem Form.plan_read_same {hs es : List String}
    (hhappy : Table.get? ms "happy_path" = some (.arr happy))
    (hedge : Table.get? ms "edge_case" = some (.arr edge))
    (h : (Json.obj ms).same (.plan hs es) = true) :
    Form.plan.read (.obj ms) = .ok (.plan hs es) := by
  obtain ⟨_, hx, hsame⟩ := Json.get?_of_same_obj (by simp [Table.keys]) h hhappy
  obtain rfl := Option.some.inj hx
  obtain rfl := Json.texts_of_same hsame
  obtain ⟨_, hy, hsame'⟩ := Json.get?_of_same_obj (by simp [Table.keys]) h hedge
  obtain rfl := Option.some.inj hy
  obtain rfl := Json.texts_of_same hsame'
  have hfields : Shape.readFields Form.plan.fields ms =
      .ok [("happy_path", .arr (hs.map .str)), ("edge_case", .arr (es.map .str))] :=
    Shape.readFields_required hhappy (by simp) (Shape.read_texts hs)
      (Shape.readFields_required hedge (by simp) (Shape.read_texts es) rfl)
  have hendless : Form.plan.fields.any (Form.isEndless ms) = false := rfl
  simp only [Form.read, Form.readMembers, hendless, hfields]
  rfl

theorem Planning.scenarios_obj (hhappy : Table.get? ms "happy_path" = some (.arr happy))
    (hedge : Table.get? ms "edge_case" = some (.arr edge)) :
    scenarios (.obj ms) = .ok (happy.length + edge.length) := by
  simp only [scenarios, Json.key, hhappy, hedge]
  rfl

end

namespace Planning
open Run Explaining

/-! ## Asking for a plan -/

section
variable {w : World} {reply : String} {rest : List String} {x : Json} {n : Nat}

theorem ends_ask (h : w.replies = reply :: rest) (model : String) (messages : List Message)
    (temperature : String) : (Assistant.ask model messages temperature).ends w = (.ok reply,
      { w with log := w.log ++ [.prompted model messages temperature], replies := rest }) := by
  unfold Assistant.ask
  rw [ends_bind_ok _ (ends_note _ w), ends_bind_ok _ (ends_get _)]
  simp only [h]
  rfl

theorem isShort_six (n : Nat) : isShort n (.int 6) = .ok (decide (n < 6)) := by
  change Except.ok (decide ((n : Int) < 6)) = _
  rw [decide_eq_decide.2 (by omega : (n : Int) < 6 ↔ n < 6)]

theorem draft_enough (a : Assistant) {wish : Wish} (hleast : wish.least = .int 6)
    (h : w.replies = reply :: rest) (hx : Extraction.value reply = .ok x)
    (hn : scenarios x = .ok n) (hsix : 6 ≤ n) :
    ∃ log, (draft a wish).ends w = (.ok (.plan reply), { w with log, replies := rest }) := by
  unfold draft Assistant.askReasoning
  apply Exists.intro
  rw [ends_bind_ok _ (ends_ask h _ _ _), ends_bind_lift, hx]
  simp only [ends_bind_lift, hn, hleast, isShort_six, decide_eq_false (Nat.not_lt.2 hsix)]
  rfl

theorem draft_few (a : Assistant) {wish : Wish} (hleast : wish.least = .int 6)
    (h : w.replies = reply :: rest) (hx : Extraction.value reply = .ok x)
    (hn : scenarios x = .ok n) (hfew : n < 6) (text : String) :
    (draft a wish).answer w ≠ .ok (.plan text) := by
  intro hplan
  unfold draft Assistant.askReasoning at hplan
  rw [answer, ends_bind_ok _ (ends_ask h _ _ _), ends_bind_lift, hx] at hplan
  simp only [ends_bind_lift, hn, hleast, isShort_six, decide_eq_true hfew, if_true] at hplan
  obtain ⟨_, _, _, hmore⟩ := ends_bind_eq_ok (ends_of_answer hplan)
  cases hmore

end

/-! ## On the way to a plan -/

/-- The worlds on the way from `w` to a plan: some replies are used and explanations added, and
nothing else has changed but notes and what is checked out. -/
structure Underway (w : World) (rows : List Explanation) (replies : List String) (v : World) :
    Prop where
  graph : v.graph = w.graph
  order : v.troubles = []
  ground : v.ground = w.ground
  store : v.store = { w.store with explanations := rows }
  replies : v.replies = replies

/-- The explanations of the functions of a flow are all kept for one project. -/
structure Owned (flow : List Json) (n : Int) (rows : List Explanation) : Prop where
  consistent : Store.explanationsConsistent rows = true
  own : ∀ row ∈ rows, .str row.identifier ∈ flow → row.project = .number n

/-- The hash of the code that a function of a project has now. -/
def hashOf? (w : World) (source : CodeSource) (p : ProjectKey) (x : Json) : Option String :=
  (w.graph.node? p x).bind fun m =>
    ((source.code m.properties).answer w).toOption.map Sha256.hex

/-- An explanation is kept of the code that a function has now. -/
def isExplained (w : World) (source : CodeSource) (p : ProjectKey) (rows : List Explanation)
    (x : Json) : Bool :=
  rows.any fun row => .str row.identifier = x && some row.hash = hashOf? w source p x

/-- The functions that the language model is asked about, each of them once. -/
def unexplained (w : World) (source : CodeSource) (p : ProjectKey) (rows : List Explanation)
    (fs : List Json) : List Json :=
  (fs.filter fun x => !isExplained w source p rows x).eraseDups

section
variable {w : World} {source : CodeSource} {p : ProjectKey} {rows rows' : List Explanation}

theorem isExplained_str {f hash : String} (h : hashOf? w source p (.str f) = some hash) :
    isExplained w source p rows (.str f) = false ↔ kept rows f hash = [] := by
  simp only [isExplained, kept, h, List.any_eq_false, List.filter_eq_nil_iff, Json.str.injEq,
    Option.some.injEq]

/-- An explanation that is added explains one function more. -/
theorem isExplained_concat {row : Explanation}
    (h : hashOf? w source p (.str row.identifier) = some row.hash) (y : Json) :
    isExplained w source p (rows ++ [row]) y =
      (isExplained w source p rows y || y == .str row.identifier) := by
  simp only [isExplained, List.any_append, List.any_cons, List.any_nil, Bool.or_false]
  by_cases hy : y = .str row.identifier
  · simp [hy, h]
  · simp [hy, Ne.symm hy]

theorem isExplained_or {x : Json} (h : isExplained w source p rows x = true) (y : Json) :
    (isExplained w source p rows y || y == x) = isExplained w source p rows y := by
  cases hy : y == x with
  | true => rw [LawfulBEq.eq_of_beq hy, h, Bool.or_true]
  | false => rw [Bool.or_false]

theorem unexplained_singleton (x : Json) : unexplained w source p rows [x] =
    if isExplained w source p rows x then [] else [x] := by
  cases hx : isExplained w source p rows x <;> simp [unexplained, hx, List.eraseDups_cons]

/-- Once a function is asked about, it is not asked about again. -/
theorem unexplained_cons {x : Json} (fs : List Json)
    (h : ∀ y, isExplained w source p rows' y = (isExplained w source p rows y || y == x)) :
    unexplained w source p rows (x :: fs) =
      unexplained w source p rows [x] ++ unexplained w source p rows' fs := by
  cases hx : isExplained w source p rows x with
  | true =>
    have hsame : isExplained w source p rows' = isExplained w source p rows :=
      funext fun y => (h y).trans (isExplained_or hx y)
    simp [unexplained, hx, hsame]
  | false =>
    have hleft : (fs.filter fun y => !isExplained w source p rows' y) =
        (fs.filter fun y => !isExplained w source p rows y).filter fun y => !y == x := by
      rw [List.filter_filter]
      refine List.filter_congr fun y _ => ?_
      rw [h, Bool.not_or, Bool.and_comm]
    simp [unexplained, hx, hleft, List.eraseDups_cons]

end

/-- A function of a flow is told about: this took a reply if the function was not explained, and now
it is. -/
structure Told (w : World) (source : CodeSource) (flow : List Json) (n : Int)
    (rows : List Explanation) (replies : List String) (x : Json) (rows' : List Explanation)
    (v : World) : Prop where
  underway : Underway w rows' (replies.drop (unexplained w source (.number n) rows [x]).length) v
  owned : Owned flow n rows'
  explained : ∀ y, isExplained w source (.number n) rows' y =
    (isExplained w source (.number n) rows y || y == x)

section
variable {w v : World} {rows : List Explanation} {replies : List String} {flow : List Json}
  {n : Int} {source : CodeSource} {node : List (String × Json)} {code f : String}

theorem calm_underway (w : World) (rows : List Explanation) (replies : List String) :
    Calm (Underway w rows replies) :=
  ⟨fun _ h => h.order, fun _ _ h => ⟨h.graph, h.order, h.ground, h.store, h.replies⟩⟩

theorem gives_code (hcode : (source.code node).answer w = .ok code) :
    Gives (Underway w rows replies) (source.code node) (.ok code) := by
  intro v hv
  have hsettled := CodeSource.settled_code w.ground source node
  have hkeeps : Keeps (fun u => (u.graph, u.troubles, u.store, u.replies)) (source.code node) :=
    CodeSource.keeps_code (fun _ _ _ => rfl) source node
  have hafter := hkeeps v
  simp only [Prod.mk.injEq] at hafter
  obtain ⟨hgraph, htroubles, hstore, hreplies⟩ := hafter
  refine ⟨(hsettled.answer_eq hv.ground rfl).trans hcode, hgraph.trans hv.graph,
    htroubles.trans hv.order, ?_, hstore.trans hv.store, hreplies.trans hv.replies⟩
  exact (CodeSource.ground_code source node v).trans hv.ground

/-- Where code is read does not change on the way. -/
theorem ends_source {user : Json} (hv : Underway w rows replies v)
    (hsource : (CodeSource.ofUser user).answer w = .ok source) :
    (CodeSource.ofUser user).ends v = (.ok source, v) := by
  have hsettings : v.settings = w.settings := congrArg Ground.settings hv.ground
  have hends (u : World) : (CodeSource.ofUser user).ends u =
      (.ok (if Table.get? u.settings "isDevelopmentMode" == some "enabled" &&
        Json.ofOption (Table.get? u.settings "defaultUsername") = user then .cloned
        else .hosted), u) := rfl
  rw [hends v, hsettings, ← hsource, answer, hends w]

theorem Underway.asked {reply : String} (h : Underway w rows (reply :: replies) v) (model : String)
    (messages : List Message) (temperature : String) : ∃ u,
      (Assistant.ask model messages temperature).ends v = (.ok reply, u) ∧
        Underway w rows replies u :=
  ⟨_, ends_ask h.replies model messages temperature, h.graph, h.order, h.ground, h.store, rfl⟩

theorem Owned.concat {row : Explanation} (h : Owned flow n rows)
    (hproject : row.project = .number n) (hid : ∀ r ∈ rows, r.id < row.id)
    (hnone : kept rows row.identifier row.hash = []) : Owned flow n (rows ++ [row]) where
  consistent := by
    rw [consistent_concat h.consistent hid, projects, hnone]
    exact List.not_mem_nil
  own r hr hflow := by
    rcases List.mem_append.1 hr with hr | hr
    · exact h.own r hr hflow
    · rw [List.mem_singleton.1 hr]
      exact hproject

variable (hopen : w.store.readOnly = false) (hfits : Cell.fits n = true)
include hopen hfits

theorem keep_step {hash : String} (hv : Underway w rows replies v) (hrows : Owned flow n rows)
    (hnone : kept rows f hash = []) (text : String) : ∃ row u,
      (keep f hash text (.number n)).ends v = (.ok (), u) ∧
        Underway w (rows ++ [row]) replies u ∧ Owned flow n (rows ++ [row]) ∧
          row.identifier = f ∧ row.hash = hash := by
  have hheld : v.store.explanations = rows := by rw [hv.store]
  have hid : ∀ r ∈ rows, r.id < (v.store.newRow f hash text n).id := by
    intro r hr
    rw [← hheld] at hr
    exact Store.lt_nextNumber (List.mem_map_of_mem hr)
  have howned : Owned flow n (rows ++ [v.store.newRow f hash text n]) :=
    hrows.concat rfl hid hnone
  refine ⟨_, adding f hash text n v, ?_, ⟨hv.graph, hv.order, hv.ground, ?_, hv.replies⟩, howned,
    rfl, rfl⟩
  · rw [ends_keep, hfits, hheld, hv.store, if_neg Bool.noConfusion, hopen, if_neg Bool.noConfusion]
    rw [hv.store] at howned
    exact if_pos howned.consistent
  · simp only [adding, hheld]
    rw [hv.store]

/-- An explanation is there for the project, or it is asked for and kept. -/
theorem explain_step (hv : Underway w rows replies v) (hrows : Owned flow n rows)
    (hf : .str f ∈ flow) (hcode : (source.code node).answer w = .ok code)
    (hhash : hashOf? w source (.number n) (.str f) = some (Sha256.hex code))
    (hreplies : (unexplained w source (.number n) rows [.str f]).length ≤ replies.length) :
    ∃ text rows' u, (explain source f node (.number n)).ends v = (.ok text, u) ∧
      Told w source flow n rows replies (.str f) rows' u := by
  obtain ⟨v₁, hread, hv₁⟩ := (gives_code hcode).exists_ends hv
  have hheld : v.store.explanations = rows := by rw [hv.store]
  have hknown : isExplained w source (.number n) rows (.str f) = false ↔ kept rows f _ = [] :=
    isExplained_str hhash
  rw [ends_explain_read hread, hheld]
  cases hkept : kept rows f (Sha256.hex code) with
  | cons row rest =>
    obtain ⟨hrow, hname, -⟩ := mem_kept.1 (hkept ▸ List.mem_cons_self : row ∈ kept rows f _)
    have hproject : row.project = .number n := hrows.own row hrow (hname ▸ hf)
    have hsame : row.project.toJson.same (.int n) = true := (same_number ⟨n, hproject⟩ n).2 hproject
    have hthere : isExplained w source (.number n) rows (.str f) = true := by
      rw [← Bool.not_eq_false, hknown, hkept]
      exact List.cons_ne_nil _ _
    refine ⟨row.explanation, rows, v₁, ?_, ?_, hrows, fun y => (isExplained_or hthere y).symm⟩
    · simp only [List.head?_cons, hsame]
      rfl
    · rw [unexplained_singleton, if_pos hthere]
      exact hv₁
  | nil =>
    have hmissing := hknown.2 hkept
    rw [unexplained_singleton, hmissing, if_neg Bool.noConfusion] at hreplies
    obtain ⟨v₂, hagain, hv₂⟩ := (gives_code hcode).exists_ends hv₁
    obtain ⟨reply, rest, rfl⟩ := List.exists_cons_of_length_pos hreplies
    obtain ⟨v₃, hasked, hv₃⟩ := hv₂.asked Assistant.quick
      [.system Plan.Prompt.explainer, .human (Plan.Prompt.explain (Json.str code).display)]
      Assistant.usualTemperature
    obtain ⟨row, u, hkeep, hu, howned, rfl, hrowHash⟩ :=
      keep_step hopen hfits hv₃ hrows hkept reply
    refine ⟨reply, rows ++ [row], u, ?_, ?_, howned, isExplained_concat (hrowHash ▸ hhash)⟩
    · simp only [List.head?_nil]
      rw [ends_bind_ok _ hagain, ask, Assistant.askQuick, ends_bind_ok _ hasked,
        ends_bind_ok _ hkeep]
      rfl
    · rw [unexplained_singleton, hmissing, if_neg Bool.noConfusion]
      exact hu

/-- What is told about a function takes a reply if the function is not explained. -/
theorem functionContext_step {m : GraphNode} (hv : Underway w rows replies v)
    (hrows : Owned flow n rows) (hf : .str f ∈ flow)
    (hnode : w.graph.node? (.number n) (.str f) = some m)
    (hcode : (source.code m.properties).answer w = .ok code)
    (hreplies : (unexplained w source (.number n) rows [.str f]).length ≤ replies.length) :
    ∃ text rows' u, (functionContext source (.number n) (.str f)).ends v = (.ok text, u) ∧
      Told w source flow n rows replies (.str f) rows' u := by
  have hhash : hashOf? w source (.number n) (.str f) = some (Sha256.hex code) := by
    rw [hashOf?, hnode, Option.bind_some, hcode]
    rfl
  have hlook : Gives (Underway w rows replies) (GraphService.node? (.str f) (.number n))
      (.ok (some m)) :=
    GraphService.gives_ask (f := (Graph.node? · (.number n) (.str f)))
      (calm_underway w rows replies) fun u hu => hu.graph ▸ hnode
  obtain ⟨v₁, hfound, hv₁⟩ := hlook.exists_ends hv
  obtain ⟨v₂, hread, hv₂⟩ := (gives_code hcode).exists_ends hv₁
  obtain ⟨text, rows', u, hexplained, hu⟩ :=
    explain_step hopen hfits hv₂ hrows hf hcode hhash hreplies
  refine ⟨"\n" ++ f ++ "\n code: \n" ++ code ++ "\n explanation: \n" ++ text, rows', u, ?_, hu⟩
  unfold functionContext
  rw [ends_bind_ok _ hfound, ends_bind_lift]
  simp only [nameOf, Option.map_some, Option.getD_some]
  rw [ends_bind_ok _ hread, ends_bind_ok _ hexplained]
  rfl

/-- What is told about the functions of a flow takes one reply for each that is not explained. -/
theorem flowContext_run (hflow : ∀ x ∈ flow, ∃ f m code, x = .str f ∧
      w.graph.node? (.number n) x = some m ∧ (source.code m.properties).answer w = .ok code)
    {fs : List Json} (hfs : fs ⊆ flow)
    (hreplies : (unexplained w source (.number n) rows fs).length ≤ replies.length)
    (hv : Underway w rows replies v) (hrows : Owned flow n rows) :
    ∃ text rows' u, (flowContext source (.number n) fs).ends v = (.ok text, u) ∧
      Underway w rows' (replies.drop (unexplained w source (.number n) rows fs).length) u := by
  -- `Owned` is about the whole flow, so that a function which is listed twice is known by then
  induction fs generalizing rows replies v with
  | nil => exact ⟨"", rows, v, rfl, hv⟩
  | cons x fs ih =>
    obtain ⟨hx, htail⟩ := List.cons_subset.1 hfs
    obtain ⟨f, m, code, rfl, hnode, hcode⟩ := hflow x hx
    -- the reply for the first function is there, whatever the others need
    have hone : (unexplained w source (.number n) rows [.str f]).length ≤ replies.length := by
      refine Nat.le_trans ?_ hreplies
      rw [unexplained_singleton]
      split
      · exact Nat.zero_le _
      · next hmissing => simp [unexplained, hmissing, List.eraseDups_cons]
    obtain ⟨first, rows₁, v₁, hfirst, hv₁⟩ :=
      functionContext_step hopen hfits hv hrows hx hnode hcode hone
    rw [unexplained_cons fs hv₁.explained, List.length_append] at hreplies ⊢
    have hleft : (unexplained w source (.number n) rows₁ fs).length ≤
        (replies.drop (unexplained w source (.number n) rows [.str f]).length).length := by
      rw [List.length_drop]
      omega
    obtain ⟨others, rows₂, u, hothers, hu⟩ := ih htail hleft hv₁.underway hv₁.owned
    rw [List.drop_drop] at hu
    refine ⟨first ++ others, rows₂, u, ?_, hu⟩
    rw [flowContext, ends_bind_ok _ hfirst, ends_bind_ok _ hothers]
    rfl

end

/-! ## A request for a plan -/

/-- A plan can be made for an entry point of a user's project: the function is in the graph, the
code of every function of its flow can be read, what was explained of them was explained for this
project, and the language model can be asked. Preferences that were saved are a text. -/
structure Ready (w : World) (user : String) (source : CodeSource) (p : Project) (e : Endpoint)
    (flow : List Json) : Prop where
  project : w.store.projectOf? (.number p.id) (some user) = some p
  fits : Cell.fits p.id = true
  row : e ∈ w.store.endpoints
  ofProject : e.project = .number p.id
  endpoints : Store.endpointsConsistent w.store.endpoints = true
  writable : w.store.readOnly = false
  unplanned : e.plan = none
  preferences : e.preferences = none ∨
    ∃ s, s ≠ "" ∧ e.preferences = some ((Json.str s).render .spaced)
  assistant : ∃ a, (Assistant.ofUser (.str user)).ends w = (.ok a, w)
  order : w.troubles = []
  graph : w.graph.Sound
  identified : w.graph.Identified (.number p.id)
  listed : ∃ n, w.graph.node? (.number p.id) (.str e.identifier) = some n ∧
    Flow.listed w.graph (.number p.id) n = flow
  place : (CodeSource.ofUser (.str user)).answer w = .ok source
  code : ∀ x ∈ flow, ∃ f m text, x = .str f ∧ w.graph.node? (.number p.id) x = some m ∧
    (source.code m.properties).answer w = .ok text
  explanations : Owned flow p.id w.store.explanations

section
variable {w : World} {user : String} {source : CodeSource} {p : Project} {e : Endpoint}
  {flow : List Json}

/-- A text that was saved as preference says nothing about what is to be mocked. -/
theorem mocking_text {s : String} (hs : s ≠ "") :
    mocking (.str s) = .error (.unfit "string indices must be integers, not 'str'") := by
  have hgiven : (Json.str s).isGiven = true := by simpa [Json.isGiven] using hs
  rw [mocking, hgiven]
  rfl

theorem Ready.ends_endpoint? (h : Ready w user source p e flow) :
    (Saved.endpoint? (.str e.identifier) (.number p.id)).ends w = (.ok (some e), w) := by
  rw [Saved.ends_endpoint? e.identifier h.fits w,
    (Store.endpoint?_eq_some h.endpoints).2 ⟨h.row, h.ofProject, rfl⟩]

theorem Ready.ends_preferences (h : Ready w user source p e flow) :
    (Saved.preferences (.str e.identifier) (.number p.id)).ends w =
      (Saved.value e.preferences, w) := by
  unfold Saved.preferences
  rw [ends_bind_ok _ h.ends_endpoint?]
  rfl

/-- A request fails early, or comes to the question for a plan. -/
theorem generate_cases (h : Ready w user source p e flow) (hreplies : (unexplained w source
      (.number p.id) w.store.explanations flow).length ≤ w.replies.length) :
    (e.preferences ≠ none ∨ flow = []) ∧
      (∃ failure v, (generate (.str user) (.str e.identifier) p.details .null).ends w =
        (.error failure, v)) ∨
    e.preferences = none ∧ flow ≠ [] ∧
      ∃ a rows v, Underway w rows (w.replies.drop (unexplained w source (.number p.id)
        w.store.explanations flow).length) v ∧ ∃ wish : Wish, wish.least = .int 6 ∧
        (generate (.str user) (.str e.identifier) p.details .null).ends w =
          (draft a wish >>= close (.str e.identifier) (.number p.id)).ends v := by
  obtain ⟨a, ha⟩ := h.assistant
  obtain ⟨n, hnode, hlisted⟩ := h.listed
  have hdirectory : p.details.key "directory" = .ok (Json.ofOption p.directory) := rfl
  have hkey : keyOf p.details = .ok (.number p.id) := rfl
  have hsaved := h.ends_preferences
  unfold generate
  rw [ends_bind_ok _ ha, if_pos rfl]
  simp only [hdirectory, hkey, lift_ok_bind]
  rcases h.preferences with hnone | ⟨s, hs, htext⟩
  · have hnull : Saved.value e.preferences = .ok .null := by rw [hnone]; rfl
    have hmock : mocking .null = .ok (.str "", .bool false) := rfl
    rw [hnull] at hsaved
    rw [ends_bind_ok _ hsaved]
    simp only [hmock, lift_ok_bind]
    have hw : Underway w w.store.explanations w.replies w := ⟨rfl, h.order, rfl, rfl, rfl⟩
    have hcalm := calm_underway w w.store.explanations w.replies
    obtain ⟨v₁, hflow, hv₁⟩ := (Flow.gives_listed h.graph h.identified hcalm
      (fun _ hu => hu.graph) rfl hnode).exists_ends hw
    obtain ⟨v₂, htree, hv₂⟩ := (Flow.gives_branch hcalm (fun _ hu => hu.graph) rfl h.graph
      h.identified Flow.shownDepth hnode).exists_ends hv₁
    rw [hlisted] at hflow
    rw [ends_bind_ok _ hflow, Flow.tree, ends_bind_ok _ htree]
    by_cases hcalls : flow = []
    · refine .inl ⟨.inr hcalls, .refuse 404 "Identifier not found, run code", v₂, ?_⟩
      rw [if_pos (by rw [hcalls]; rfl)]
      rfl
    · refine .inr ⟨hnone, hcalls, ?_⟩
      obtain ⟨text, rows, v, hcontext, hv⟩ := flowContext_run h.writable h.fits h.code
        (List.Subset.refl _) hreplies hv₂ h.explanations
      rw [if_neg (by simpa using hcalls), ends_bind_ok _ (ends_source hv₂ h.place),
        ends_bind_ok _ hcontext]
      exact ⟨a, rows, v, hv, ⟨_, .str "", .bool false, .str "pytest", .int 6⟩, rfl, rfl⟩
  · have hvalue : Saved.value e.preferences = .ok (.str s) := by
      rw [htext]
      exact Saved.value_of_ofText (Json.ofText_render Json.Layout.standard_spaced (.str _ s))
    rw [hvalue] at hsaved
    refine .inl ⟨.inl (by rw [htext]; exact Option.some_ne_none _),
      .unfit "string indices must be integers, not 'str'", w, ?_⟩
    rw [ends_bind_ok _ hsaved, mocking_text hs]
    rfl

end

end Planning

/-! ## Asking twice -/

namespace Api.Plans
open Run Planning

variable {w : World} {user : String} {source : CodeSource} {p : Project} {e : Endpoint}
  {flow : List Json}

theorem ends_plan_unplanned (h : Ready w user source p e flow) :
    (plan (.number p.id) (.str e.identifier) (.str user)).ends w =
      (generate (.str user) (.str e.identifier) p.details .null).ends w := by
  have hsaved : (Saved.plan (.str e.identifier) (.number p.id)).ends w = (.ok .null, w) := by
    unfold Saved.plan
    rw [ends_bind_ok _ h.ends_endpoint?]
    simp only [h.unplanned]
    rfl
  unfold plan
  rw [ends_bind_ok _ (Registry.ends_projectOf?_some h.fits h.project), ends_bind_ok _ hsaved]

/-- What was saved is answered the next time. -/
theorem ends_close {rows : List Explanation} {replies : List String} {v : World} {reply : String}
    {ms : List (String × Json)} {hs es : List String} (h : Ready w user source p e flow)
    (hv : Underway w rows replies v) (hvalue : Extraction.value reply = .ok (.obj ms))
    (hread : Form.plan.read (.obj ms) = .ok (.plan hs es)) : ∃ u,
      (close (.str e.identifier) (.number p.id) (.plan reply)).ends v = (.ok (.obj ms), u) ∧
      (plan (.number p.id) (.str e.identifier) (.str user)).ends u = (.ok (.plan hs es), u) := by
  have hrow : e ∈ v.store.endpoints := hv.store ▸ h.row
  have hconsistent : Store.endpointsConsistent v.store.endpoints = true := hv.store ▸ h.endpoints
  have hproject : v.store.projectOf? (.number p.id) (some user) = some p := hv.store ▸ h.project
  have hset := Saved.ends_setPlan ((Json.plan hs es).render .compact) hrow h.ofProject h.fits
    (hv.store ▸ h.writable) hconsistent
  have hsaved := Store.endpoint?_replace
    { e with plan := some ((Json.plan hs es).render .compact) } hrow h.ofProject rfl rfl hconsistent
  refine ⟨{ v with store := (v.store.replace e
    { e with plan := some ((Json.plan hs es).render .compact) }) }, ?_, ?_⟩
  · rw [close, hvalue, lift_ok_bind, hread, lift_ok_bind]
    exact ends_bind_ok _ hset
  · exact ends_plan hproject h.fits (Saved.ends_plan h.fits hsaved rfl)

/-- A request for a plan is answered, and answered with a value that means the same when it is made
once more. -/
def AnsweredAgain (w : World) (request : Run Json) : Prop :=
  ∃ j v j' u, request.ends w = (.ok j, v) ∧ request.ends v = (.ok j', u) ∧ j.same j' = true

/-- A flow is empty if and only if the function calls nothing. -/
theorem flow_ne_nil_iff (h : Ready w user source p e flow) : flow ≠ [] ↔
    ∃ y, w.graph.LeadsTo (.number p.id) (.str e.identifier) y := by
  obtain ⟨n, hnode, rfl⟩ := h.listed
  have hlabel : n.label = .str e.identifier :=
    Json.same_str_iff.1 (Graph.label_of_node? h.graph h.identified hnode).2
  have hown : w.graph.node? (.number p.id) n.id = some n :=
    (Graph.node?_congr (Graph.mem_of_node? hnode).2.2).trans hnode
  have hreached := Flow.reached_ne_nil_iff h.graph h.identified hown
  rw [Graph.shownAs_of_node? hown, hlabel] at hreached
  rw [← hreached, Flow.listed]
  split <;> simp_all

/-- **Plans that are asked for again.** The reply to the question for a plan is the one after as many
replies as there are functions in the flow that are not explained. If this reply holds an object with
two lists, the request for the plan is answered, and answered the same when it is made again, exactly
if no preference was saved, the function calls something, there are six scenarios, and the object is
nothing but two lists of texts. -/
theorem planned_again_iff (h : Ready w user source p e flow) {reply : String}
    (hreply : w.replies[(unexplained w source (.number p.id) w.store.explanations flow).length]? =
      some reply)
    {ms : List (String × Json)} {happy edge : List Json}
    (hvalue : Extraction.value reply = .ok (.obj ms))
    (hhappy : Table.get? ms "happy_path" = some (.arr happy))
    (hedge : Table.get? ms "edge_case" = some (.arr edge)) :
    AnsweredAgain w (plan (.number p.id) (.str e.identifier) (.str user)) ↔
      e.preferences = none ∧ (∃ y, w.graph.LeadsTo (.number p.id) (.str e.identifier) y) ∧
        6 ≤ happy.length + edge.length ∧ ∃ hs es, (Json.obj ms).same (.plan hs es) = true := by
  have hrequest := ends_plan_unplanned h
  obtain ⟨hlt, hget⟩ := List.getElem?_eq_some_iff.1 hreply
  rcases generate_cases h hlt.le with
    ⟨hearly, failure, v, hfail⟩ | ⟨hnone, hcalls, a, rows, v, hv, wish, hleast, hends⟩
  · refine iff_of_false ?_ ?_
    · rintro ⟨j, _, _, _, hj, -⟩
      cases (hrequest.trans hfail).symm.trans hj
    · rintro ⟨hpreferences, hstep, -⟩
      rcases hearly with hsaved | hleaf
      · exact hsaved hpreferences
      · exact (flow_ne_nil_iff h).2 hstep hleaf
  · obtain ⟨rest, hrest⟩ : ∃ rest, w.replies.drop _ = reply :: rest :=
      ⟨_, (List.drop_eq_getElem_cons hlt).trans (by rw [hget])⟩
    rw [hrest] at hv
    have hcount := scenarios_obj hhappy hedge
    by_cases hsix : 6 ≤ happy.length + edge.length
    · obtain ⟨log, hdraft⟩ := draft_enough a hleast hv.replies hvalue hcount hsix
      have hfirst := (hrequest.trans hends).trans (ends_bind_ok _ hdraft)
      have hu : Underway w rows rest { v with log, replies := rest } :=
        ⟨hv.graph, hv.order, hv.ground, hv.store, rfl⟩
      constructor
      · rintro ⟨j, x, j', y, hj, hj', hsame⟩
        rw [hfirst] at hj
        cases hread : Form.plan.read (.obj ms) with
        | error failure =>
          rw [close, hvalue, lift_ok_bind, hread] at hj
          cases hj
        | ok r =>
          obtain ⟨hs, es, rfl⟩ := Form.plan_read hhappy hedge hread
          obtain ⟨x', hclose, hagain⟩ := ends_close h hu hvalue hread
          cases hclose.symm.trans hj
          cases hagain.symm.trans hj'
          exact ⟨hnone, (flow_ne_nil_iff h).1 hcalls, hsix, hs, es, hsame⟩
      · rintro ⟨-, -, -, hs, es, hsame⟩
        obtain ⟨x, hclose, hagain⟩ :=
          ends_close h hu hvalue (Form.plan_read_same hhappy hedge hsame)
        exact ⟨_, x, _, x, hfirst.trans hclose, hagain, hsame⟩
    · -- the plan is asked for once more, and what comes back is refused
      refine iff_of_false ?_ fun hright => hsix hright.2.2.1
      rintro ⟨j, x, _, _, hj, -⟩
      rw [hrequest, hends] at hj
      obtain ⟨d, u, hdraft, hclose⟩ := ends_bind_eq_ok hj
      cases d with
      | elaborated text => cases hclose
      | plan text =>
        exact draft_few a hleast hv.replies hvalue hcount (by omega) text (congrArg Prod.fst hdraft)

/-! ## A plan for a function that calls another -/

def calling : List GraphCommand :=
  let rows : List (String × Json) := [("start", .int 1), ("end", .int 1)]
  [.upsert (.str "/m.py:f") (.number 1) rows, .upsert (.str "/m.py:g") (.number 1) rows,
   .connect (.str "/m.py:f") (.str "/m.py:g") (.number 1) GraphService.callProperties]

def entry : Endpoint := ⟨some "GET /f", "/m.py:f", none, none, .number 1⟩

/-- An entry point that calls another function. The other function is explained, so that the second
reply is the plan. -/
def demo : World :=
  { Explaining.copies with
    settings := [("OPENAI_MODEL_REASONING", "gpt-4")]
    graph := GraphCommand.effects calling .empty
    store := { Store.empty with
      projects := [Project.sample 1 "u"]
      endpoints := [entry]
      explanations := [⟨1, "/m.py:g", Sha256.hex "def f(): pass", "It passes.", .number 1⟩] }
    replies := ["It does nothing.", (Json.plan ["a", "b", "c"] ["d", "e", "f"]).render .compact] }

theorem demo_planned_again :
    AnsweredAgain demo (plan (.number 1) (.str "/m.py:f") (.str "u")) := by
  have hproper : ∀ c ∈ calling, c.Proper := by
    simp [calling, GraphCommand.Proper, Table.keys]
  have hnodes : ∀ n ∈ demo.graph.nodes, n.id = .str "/m.py:f" ∨ n.id = .str "/m.py:g" := by
    decide
  have hready : Ready demo "u" .hosted (Project.sample 1 "u") entry
      (["/m.py:f", "/m.py:g"].map Json.str) :=
    { project := rfl
      fits := rfl
      row := List.mem_singleton_self entry
      ofProject := rfl
      endpoints := rfl
      writable := rfl
      unplanned := rfl
      preferences := .inl rfl
      assistant := ⟨_, rfl⟩
      order := rfl
      graph := GraphCommand.effects_sound hproper Graph.sound_empty
      identified := Graph.Named.identified fun n hn _ =>
        (hnodes n hn).elim (fun h => ⟨_, h⟩) fun h => ⟨_, h⟩
      listed := ⟨_, rfl, rfl⟩
      place := rfl
      code := by
        simp only [List.map_cons, List.map_nil, List.forall_mem_cons]
        refine ⟨⟨"/m.py:f", _, "def f(): pass", rfl, rfl, ?_⟩,
          ⟨"/m.py:g", _, "def f(): pass", rfl, rfl, ?_⟩, fun x hx => absurd hx List.not_mem_nil⟩
        all_goals decide +kernel
      explanations := ⟨rfl, fun row hrow _ => congrArg Explanation.project (List.mem_singleton.1 hrow)⟩ }
  have hasked : (unexplained demo .hosted (.number 1) demo.store.explanations
      (["/m.py:f", "/m.py:g"].map Json.str)).length = 1 := by
    decide +kernel
  have hreply : demo.replies[(unexplained demo .hosted (.number 1) demo.store.explanations
      (["/m.py:f", "/m.py:g"].map Json.str)).length]? =
        some ((Json.plan ["a", "b", "c"] ["d", "e", "f"]).render .compact) := by
    rw [hasked]
    rfl
  have hvalue : Extraction.value ((Json.plan ["a", "b", "c"] ["d", "e", "f"]).render .compact) =
      .ok (.plan ["a", "b", "c"] ["d", "e", "f"]) := by
    rw [Extraction.value, Json.ofText_plan]
  exact (planned_again_iff hready hreply hvalue rfl rfl).2
    ⟨rfl, ⟨.str "/m.py:g", by decide, _, rfl, rfl⟩, by decide, _, _, Json.same_self _⟩

/-- A preference that was saved before loses the plan. -/
theorem preference_unread :
    (setPreferences (.obj [("project_id", .int 1), ("identifier", .str "/m.py:f"),
        ("preference", .str "x")]) (.str "u") >>= fun _ =>
      plan (.number 1) (.str "/m.py:f") (.str "u")).answer demo =
        .error (.unfit "string indices must be integers, not 'str'") := by
  rfl

end Api.Plans
end CodeAtlas
