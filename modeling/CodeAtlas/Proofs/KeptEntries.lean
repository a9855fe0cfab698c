import CodeAtlas.Proofs.BlastRadius
import CodeAtlas.Proofs.CallRequests
import CodeAtlas.Proofs.Confinement

/-!
# Which rows are kept for entry points

The entry points that were detected are kept one after the other. One whose function has a row
already is passed over, whether the row was there before or was added for an entry point before it.
So the table only grows, and it grows by one row for each function that had none.

* `Entry.isNew`, `Entry.keptRows`: the entry points without a row, and the rows that are kept for
  them, one for each function;
* `Entry.foldlM_keep`: what keeping entry points does to a store, by one step at a time;
* `Entry.mem_firsts_iff`: the entry point that is kept for a function is the first one;
* `Entry.store_analyse`: the store after the detection;
* `Entry.rows_kept_once`: the rows from before stay as they are, each function that had none gets
  one row with the path of its first entry point, the same detection changes nothing more, and
  afterwards every row of the project is listed once, under its file.
-/
namespace CodeAtlas

namespace Store

variable {s : Store} {c : Cell}

theorem endpoint?_adding (es : List Endpoint) (id : String) : (s.adding es).endpoint? (some id) c =
    (s.endpoint? (some id) c).or (es.find? (isEndpoint (some id) c)) := List.find?_append

theorem adding_adding (es ds : List Endpoint) : (s.adding es).adding ds = s.adding (es ++ ds) := by
  simp [adding]

end Store

theorem Endpoint.byFile_eq (s : Store) (c : Cell) : Endpoint.byFile s c =
    .ofList ((s.endpointsOf c).map fun e => ⟨e.path, e.identifier⟩) := by
  unfold Endpoint.byFile EndpointsByFile.ofList
  rw [List.foldl_map]
  rfl

namespace Entry
open Run

variable {p : ProjectKey} {c : Cell} {w : World}

/-! ## The first entry point of a function -/

/-- Are two entry points those of one function? -/
def sameFunction (f g : String × String) : Bool := f.2 == g.2

theorem sameFunction_self (f : String × String) : sameFunction f f = true := beq_self_eq_true _

theorem nodup_firsts_snd (found : List (String × String)) :
    ((firsts sameFunction found).map Prod.snd).Nodup := by
  refine List.pairwise_map.2 ((pairwise_firsts found).imp fun {f g} hfg he => ?_)
  rw [sameFunction, he, beq_self_eq_true] at hfg
  cases hfg

theorem mem_firsts_iff {found : List (String × String)} {f : String × String} :
    f ∈ firsts sameFunction found ↔ found.find? (sameFunction f) = some f := by
  induction found using List.reverseRecOn with
  | nil => simp [firsts]
  | append_singleton found g ih =>
    rw [firsts_concat, List.find?_append]
    split
    · next hany =>
      -- the new one has a function that came before, so it is not what is looked for
      obtain ⟨b, hb, hgb⟩ := List.any_eq_true.1 hany
      rw [ih]
      refine ⟨fun h => by rw [h]; rfl, fun h => ?_⟩
      cases hfind : found.find? (sameFunction f) with
      | some e => rw [hfind] at h; exact h
      | none =>
        rw [hfind, Option.none_or] at h
        obtain rfl := List.mem_singleton.1 (List.mem_of_find?_eq_some h)
        exact absurd hgb (List.find?_eq_none.1 hfind b (firsts_subset found hb))
    · next hany =>
      rw [List.mem_append, List.mem_singleton, ih]
      constructor
      · rintro (h | rfl)
        · rw [h]
          rfl
        · have hnone : found.find? (sameFunction f) = none := by
            refine List.find?_eq_none.2 fun b hb hfb => hany ?_
            obtain ⟨d, hd, hbd⟩ := exists_mem_firsts sameFunction_self hb
            simp only [sameFunction, beq_iff_eq] at hfb hbd
            exact List.any_eq_true.2 ⟨d, hd, beq_iff_eq.2 (hfb.trans hbd)⟩
          rw [hnone]
          simp [sameFunction]
      · intro h
        cases hfind : found.find? (sameFunction f) with
        | some e => rw [hfind] at h; exact .inl h
        | none =>
          rw [hfind, Option.none_or] at h
          exact .inr (List.mem_singleton.1 (List.mem_of_find?_eq_some h))

/-! ## What is kept -/

/-- Has the function of an entry point no row yet? -/
def isNew (s : Store) (c : Cell) (f : String × String) : Bool :=
  (s.endpoint? (some f.2) c).isNone

def keptRows (routers : RouterTable) (c : Cell) (found : List (String × String)) : List Endpoint :=
  (firsts sameFunction found).map (row routers c)

theorem isSome_find?_keptRows (routers : RouterTable) (found : List (String × String))
    (f : String × String) :
    ((keptRows routers c found).find? (Store.isEndpoint (some f.2) c)).isSome =
      (firsts sameFunction found).any (sameFunction f) := by
  have hrow (g : String × String) :
      Store.isEndpoint (some f.2) c (row routers c g) = true ↔ sameFunction f g = true := by
    simpa [Store.isEndpoint, row, sameFunction] using eq_comm
  unfold keptRows
  rw [Bool.eq_iff_iff, List.find?_isSome, List.any_eq_true]
  simp only [List.mem_map, exists_exists_and_eq_and, hrow]

/-- The rows that are kept after one more entry point: another one if its function is new and did
not come before. -/
theorem keptRows_concat (routers : RouterTable) (s : Store) (found : List (String × String))
    (f : String × String) : keptRows routers c ((found ++ [f]).filter (isNew s c)) =
      keptRows routers c (found.filter (isNew s c)) ++
        if ((s.adding (keptRows routers c (found.filter (isNew s c)))).endpoint?
            (some f.2) c).isSome then []
        else [row routers c f] := by
  rw [Store.endpoint?_adding, Option.isSome_or, isSome_find?_keptRows, List.filter_append,
    List.filter_singleton]
  cases hnew : isNew s c f with
  | false =>
    have hknown : (s.endpoint? (some f.2) c).isSome = true := by simpa [isNew] using hnew
    simp [hknown]
  | true =>
    have hknown : (s.endpoint? (some f.2) c).isSome = false := by simpa [isNew] using hnew
    simp only [hknown, Bool.false_or, cond_true, keptRows, firsts_concat]
    split <;> simp

/-- **What is kept**: the first entry point of each function that is new. -/
theorem foldlM_keep (hp : p.cell = .ok c) (hc : c ≠ .null) {s : Store} (hs : s.readOnly = false)
    (routers : RouterTable) (hrules : Store.endpointsConsistent s.endpoints = true)
    (found : List (String × String)) :
    found.foldlM (fun s f => keep routers p f s) s =
        .ok (s.adding (keptRows routers c (found.filter (isNew s c)))) ∧
      Store.endpointsConsistent
        (s.adding (keptRows routers c (found.filter (isNew s c)))).endpoints = true := by
  induction found using List.reverseRecOn with
  | nil =>
    have hsame : s.adding (keptRows routers c (List.filter (isNew s c) [])) = s := by
      simp [keptRows, firsts, Store.adding]
    rw [hsame]
    exact ⟨rfl, hrules⟩
  | append_singleton found f ih =>
    obtain ⟨hkept, hstill⟩ := ih
    rw [List.foldlM_append, hkept, Run.ok_bind, List.foldlM_cons, keep_eq hp hc, keptRows_concat,
      ← Store.adding_adding]
    generalize hnow : s.adding (keptRows routers c (found.filter (isNew s c))) = now at hstill ⊢
    have hwritable : now.readOnly = false := hnow ▸ hs
    rw [hwritable, hstill]
    cases hknown : now.endpoint? (some f.2) c with
    | some e =>
      have hsame : now.adding [] = now := by simp [Store.adding]
      simp only [Option.isSome_some, if_true, hsame]
      exact ⟨rfl, hstill⟩
    | none =>
      simp only [Option.isSome_none, Bool.false_eq_true, if_false, if_true]
      exact ⟨rfl, (Store.endpointsConsistent_concat (e := row routers c f) hknown).trans hstill⟩

/-- Entry points are kept by one statement each. -/
theorem ends_keepAll {routers : RouterTable} {t : Store} (found : List (String × String))
    (h : found.foldlM (fun s f => keep routers p f s) w.store = .ok t) :
    (keepAll routers p found).ends w = (.ok (), { w with store := t }) := by
  induction found generalizing w with
  | nil =>
    obtain rfl := Except.ok.inj h
    rfl
  | cons f found ih =>
    rw [List.foldlM_cons] at h
    obtain ⟨s, hs, h⟩ := bind_eq_ok h
    have hstep : (alter (keep routers p f)).ends w = (.ok (), { w with store := s }) := by
      rw [ends_alter, hs]
    exact (ends_bind_ok _ hstep).trans (ih h)

/-- What is detected does not depend on the routers. -/
theorem detect_eq (s t : Survey) (hd : s.directory = t.directory) (hi : s.index = t.index) :
    detect s p = detect t p := by
  unfold detect
  rw [hd, hi]

theorem keeps_detect (s : Survey) : Keeps World.store (detect s p) :=
  (madeOf_detect s).keeps fun _ _ h => h.keeps_store

theorem keeps_connectDependencies (routers : RouterTable) (found : List (String × String)) :
    Keeps World.store (connectDependencies routers p found) :=
  (madeOf_connectDependencies routers found).keeps fun _ _ h => h.keeps_store

section
variable (hp : p.cell = .ok c) (hc : c ≠ .null) (hw : w.store.readOnly = false)
  (hrules : Store.endpointsConsistent w.store.endpoints = true) {s : Survey}
  {found : List (String × String)} (hfound : (detect s p).answer w = .ok found)
include hp hc hw hrules hfound

theorem store_analyse (user : Json) : ((analyse s p user).after w).store =
    w.store.adding (keptRows s.routers c (found.filter (isNew w.store c))) := by
  have hstore : ((detect s p).after w).store = w.store := keeps_detect s w
  have hdetect : (detect s p).ends w = (.ok found, (detect s p).after w) := Prod.ext hfound rfl
  obtain ⟨hrows, -⟩ := foldlM_keep hp hc hw s.routers hrules found
  rw [← hstore] at hrows
  have hkeep := ends_keepAll found hrows
  have hrest : Keeps World.store (do
      connectDependencies s.routers p found
      note (.queued "knowledgegraph.task.infer_flows"
        [("project_id", p.given), ("directory", .str s.directory), ("user_id", user)])) :=
    (keeps_connectDependencies s.routers found).bind fun _ => Keeps.modify fun _ => rfl
  unfold analyse Run.after
  rw [ends_bind_ok _ hdetect, ends_bind_ok _ hkeep]
  exact (hrest _).trans (by rw [hstore])

/-- Where every function has a row, nothing changes. -/
theorem store_analyse_of_known (hknown : ∀ f ∈ found, isNew w.store c f = false) (user : Json) :
    ((analyse s p user).after w).store = w.store := by
  have hnone : found.filter (isNew w.store c) = [] :=
    List.filter_eq_nil_iff.2 fun f hf => by simp [hknown f hf]
  rw [store_analyse hp hc hw hrules hfound user, hnone]
  simp [keptRows, firsts, Store.adding]

end

theorem mem_keptRows {routers : RouterTable} {s : Store} {found : List (String × String)}
    {e : Endpoint} : e ∈ keptRows routers c (found.filter (isNew s c)) ↔
      ∃ f, found.find? (sameFunction f) = some f ∧ s.endpoint? (some f.2) c = none ∧
        e = row routers c f := by
  -- what is new depends on the function only, so the first one that is new is the first one
  have hfirst (f : String × String) (hnew : isNew s c f = true) :
      (found.filter (isNew s c)).find? (sameFunction f) = found.find? (sameFunction f) := by
    rw [List.find?_filter]
    congr 1
    funext g
    cases hfg : sameFunction f g with
    | false => simp
    | true =>
      have hnew' : isNew s c g = true := by
        rw [isNew, ← beq_iff_eq.1 hfg]
        exact hnew
      simp [hnew']
  simp only [keptRows, List.mem_map, mem_firsts_iff]
  constructor
  · rintro ⟨f, hf, rfl⟩
    have hnew : isNew s c f = true := (List.mem_filter.1 (List.mem_of_find?_eq_some hf)).2
    exact ⟨f, hfirst f hnew ▸ hf, Option.isNone_iff_eq_none.1 hnew, rfl⟩
  · rintro ⟨f, hf, hnone, rfl⟩
    exact ⟨f, (hfirst f (Option.isNone_iff_eq_none.2 hnone)).symm ▸ hf, rfl⟩

theorem isNew_adding {routers : RouterTable} {s : Store} {found : List (String × String)}
    {f : String × String} (hf : f ∈ found) :
    isNew (s.adding (keptRows routers c (found.filter (isNew s c)))) c f = false := by
  rw [isNew, Store.endpoint?_adding, ← Option.not_isSome, Option.isSome_or, isSome_find?_keptRows]
  cases hnew : isNew s c f with
  | false =>
    have hknown : (s.endpoint? (some f.2) c).isSome = true := by simpa [isNew] using hnew
    simp [hknown]
  | true =>
    obtain ⟨g, hg, hfg⟩ := exists_mem_firsts sameFunction_self (List.mem_filter.2 ⟨hf, hnew⟩)
    simp [List.any_eq_true.2 ⟨g, hg, hfg⟩]

/-! ## The table after the detection -/

/-- **Which rows are kept**: the detection leaves the rows that there were as they are and adds one
row, without plan and preferences, for each function that it found and that had none, with the path
of its first entry point. The same detection changes nothing more. Afterwards each row of the
project is listed once, under the file that its identifier names. -/
theorem rows_kept_once (hp : p.cell = .ok c) (hc : c ≠ .null) (hw : w.store.readOnly = false)
    (hrules : Store.endpointsConsistent w.store.endpoints = true) {s : Survey}
    {found : List (String × String)} (hfound : (detect s p).answer w = .ok found) (user : Json) :
    ∃ new : List Endpoint, ((analyse s p user).after w).store = w.store.adding new ∧
      (new.map Endpoint.identifier).Nodup ∧
      (∀ e, e ∈ new ↔ ∃ f, found.find? (·.2 == f.2) = some f ∧
        w.store.endpoint? (some f.2) c = none ∧
        e = ⟨some (ServedPath.qualified f.1 (routerOf s.routers f.2).path), f.2, none, none, c⟩) ∧
      (∀ v t user', v.store = w.store.adding new → (detect t p).answer v = .ok found →
        ((analyse t p user').after v).store = w.store.adding new) ∧
      (Table.keys (Endpoint.byFile (w.store.adding new) c)).Nodup ∧
      ∀ file, ((Endpoint.byFile (w.store.adding new) c).under file).Perm
        (((w.store.adding new).endpoints.filter fun e =>
          e.project = c ∧ Text.before ':' e.identifier = file).map
            fun e => ⟨e.path, e.identifier⟩) := by
  refine ⟨_, store_analyse hp hc hw hrules hfound user, ?_, fun e => ?_,
    fun v t user' hv hagain => ?_, ?_, fun file => ?_⟩
  · rw [keptRows, List.map_map]
    exact nodup_firsts_snd _
  · have hsym (f : String × String) : sameFunction f = fun g => g.2 == f.2 := by
      funext g
      exact Bool.beq_comm
    simp only [mem_keptRows, hsym, row]
  · obtain ⟨-, hstill⟩ := foldlM_keep hp hc hw s.routers hrules found
    rw [← hv] at hstill ⊢
    refine store_analyse_of_known hp hc (hv ▸ hw) hstill hagain (fun f hf => ?_) user'
    rw [hv]
    exact isNew_adding hf
  · rw [Endpoint.byFile_eq]
    exact EndpointsByFile.nodup_keys_ofList _
  · rw [Endpoint.byFile_eq, EndpointsByFile.under_ofList, Store.endpointsOf, List.filter_map]
    refine List.Perm.map _ ?_
    refine ((List.mergeSort_perm _ _).filter _).trans (List.Perm.of_eq ?_)
    rw [List.filter_filter]
    refine List.filter_congr fun e _ => ?_
    rw [Bool.eq_iff_iff]
    simp only [Function.comp_apply, Bool.and_eq_true, decide_eq_true_eq]
    exact and_comm

/-- A file with a route that has two methods, and with another one. -/
def growingSource : String :=
  "@app.route(\"/x\", methods=[\"GET\", \"POST\"])\ndef f(): pass\n" ++
    "@app.get(\"/y\")\ndef g(): pass\n"

def growingTree : Node :=
  .mk "module" 0 85 [
    .mk "decorated_definition" 0 55 [.mk "decorator" 0 41 [],
      .mk "function_definition" 42 55 [.mk "identifier" 46 47 []]],
    .mk "decorated_definition" 56 84 [.mk "decorator" 56 70 [],
      .mk "function_definition" 71 84 [.mk "identifier" 75 76 []]]]

/-- A table with a plan for the second route, and with a row of another project. -/
def grownStore : Store :=
  { Store.empty with endpoints := [
      ⟨some "GET /old", "/m.py:g", some "{}", none, .number 1⟩,
      ⟨some "GET /x", "/m.py:f", none, some "{}", .number 2⟩] }

def growing : World := { World.oneSource growingSource growingTree with store := grownStore }

theorem detect_growing : (detect ⟨"/p", [], []⟩ (.number 1)).answer growing =
    .ok [("GET /x", "/m.py:f"), ("POST /x", "/m.py:f"), ("GET /y", "/m.py:g")] :=
  eq_ok_of_toOption (by decide +kernel)

theorem first_method_added : ∃ new,
    ((analyse ⟨"/p", [], []⟩ (.number 1) (.str "u")).after growing).store = grownStore.adding new ∧
    ∀ e, e ∈ new ↔ e = ⟨some "GET /x", "/m.py:f", none, none, .number 1⟩ := by
  obtain ⟨new, hstore, -, hmem, -⟩ :=
    rows_kept_once (c := .number 1) rfl (by decide) rfl (by decide) detect_growing (.str "u")
  refine ⟨new, hstore, fun e => (hmem e).trans ⟨?_, ?_⟩⟩
  · rintro ⟨f, hf, hnone, rfl⟩
    have hone := List.mem_of_find?_eq_some hf
    simp only [List.mem_cons, List.not_mem_nil, or_false] at hone
    rcases hone with rfl | rfl | rfl
    · rfl
    · exact absurd hf (by decide)
    · exact absurd hnone (by decide)
  · rintro rfl
    exact ⟨("GET /x", "/m.py:f"), by decide, by decide, by decide⟩

end Entry
end CodeAtlas
