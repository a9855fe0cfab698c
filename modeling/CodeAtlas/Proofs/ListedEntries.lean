import CodeAtlas.Proofs.KeptEntries

/-!
# Which entry points are listed

Detection may find several entry points of one function: a route with several methods, or several
decorators. They are kept one after the other, and one whose identifier is known already is passed
over. So of the entry points with one identifier the first one is kept and listed.

* `Entry.store_after_analyse`: what is kept where there is nothing of the project yet;
* `Endpoint.mem_byFile`: what is listed under a file;
* `Entry.listed_all_iff`: after the detection the first entry point of each identifier is listed,
  and every entry point that was found is if and only if those with one identifier have one path.
-/
namespace CodeAtlas

/-- What is listed under a file are the entry points of the project whose identifier names the
file. -/
theorem Endpoint.mem_byFile (s : Store) (c : Cell) (x : ShownEndpoint) (file : String) :
    x ∈ (Endpoint.byFile s c).under file ↔ x.file = file ∧ s.Serves c x := by
  rw [Endpoint.byFile_eq, EndpointsByFile.under_ofList, List.mem_filter, decide_eq_true_eq,
    and_comm]
  refine and_congr_right fun _ => ?_
  simp only [List.mem_map, Store.endpointsOf, List.mem_mergeSort, List.mem_filter,
    decide_eq_true_eq, Store.Serves]
  constructor
  · rintro ⟨e, ⟨he, hc⟩, rfl⟩
    exact ⟨e, he, hc, rfl, rfl⟩
  · rintro ⟨e, he, hc, hid, hpath⟩
    exact ⟨e, ⟨he, hc⟩, by rw [hid, hpath]⟩

namespace Entry
open Run

variable {p : ProjectKey} {c : Cell} {w : World}

theorem firsts_unique {found : List (String × String)} {f g : String × String}
    (hf : f ∈ firsts sameFunction found) (hg : g ∈ firsts sameFunction found) (h : f.2 = g.2) :
    f = g :=
  List.inj_on_of_nodup_map (nodup_firsts_snd found) hf hg h

/-! ## What is listed -/

/-- An entry point as it is listed: with the path below that of its router. -/
def shown (routers : RouterTable) (f : String × String) : ShownEndpoint :=
  ⟨some (ServedPath.qualified f.1 (routerOf routers f.2).path), f.2⟩

theorem store_after_analyse (hp : p.cell = .ok c) (hc : c ≠ .null) (hw : w.store.readOnly = false)
    (hrules : Store.endpointsConsistent w.store.endpoints = true)
    (hnone : ∀ e ∈ w.store.endpoints, e.project ≠ c) {s : Survey} {found : List (String × String)}
    (hfound : (detect s p).answer w = .ok found) (user : Json) :
    ((analyse s p user).after w).store = w.store.adding (keptRows s.routers c found) := by
  have hnew : found.filter (isNew w.store c) = found := by
    refine List.filter_eq_self.2 fun f _ => Option.isNone_iff_eq_none.2 ?_
    exact List.find?_eq_none.2 fun e he => by simp [Store.isEndpoint, hnone e he]
  rw [store_analyse hp hc hw hrules hfound user, hnew]

theorem mem_byFile_adding {s : Store} (hs : ∀ e ∈ s.endpoints, e.project ≠ c)
    (routers : RouterTable) (found : List (String × String)) (x : ShownEndpoint) (file : String) :
    x ∈ (Endpoint.byFile (s.adding (keptRows routers c found)) c).under file ↔
      x.file = file ∧ ∃ f ∈ firsts sameFunction found, shown routers f = x := by
  rw [Endpoint.mem_byFile]
  refine and_congr_right fun _ => ?_
  constructor
  · rintro ⟨e, he, hc, hid, hpath⟩
    rcases List.mem_append.1 he with he | he
    · exact absurd hc (hs e he)
    · obtain ⟨f, hf, rfl⟩ := List.mem_map.1 he
      exact ⟨f, hf, by rw [shown]; cases x; simp_all [row]⟩
  · rintro ⟨f, hf, rfl⟩
    exact ⟨row routers c f, List.mem_append_right _ (List.mem_map_of_mem hf), rfl, rfl, rfl⟩

/-- **Which entry points are listed**: after the detection for a project without entry points, the
first one of each function is listed under its file, with the path below that of its router. All
that were found are listed if and only if those of one function have one path. -/
theorem listed_all_iff (hp : p.cell = .ok c) (hc : c ≠ .null) (hw : w.store.readOnly = false)
    (hrules : Store.endpointsConsistent w.store.endpoints = true)
    (hnone : ∀ e ∈ w.store.endpoints, e.project ≠ c) {s : Survey} {found : List (String × String)}
    (hfound : (detect s p).answer w = .ok found) (user : Json) :
    (∀ x file, x ∈ (Endpoint.byFile ((analyse s p user).after w).store c).under file ↔
      x.file = file ∧ ∃ f ∈ firsts sameFunction found, shown s.routers f = x) ∧
    ((∀ f ∈ found, shown s.routers f ∈
        (Endpoint.byFile ((analyse s p user).after w).store c).under (shown s.routers f).file) ↔
      ∀ f ∈ found, ∀ g ∈ found, f.2 = g.2 → shown s.routers f = shown s.routers g) := by
  rw [store_after_analyse hp hc hw hrules hnone hfound user]
  have hmem := mem_byFile_adding hnone s.routers found
  refine ⟨hmem, ?_⟩
  simp only [hmem, true_and]
  refine ⟨fun h f hf g hg hfg => ?_, fun h f hf => ?_⟩
  · obtain ⟨a, ha, haf⟩ := h f hf
    obtain ⟨b, hb, hbg⟩ := h g hg
    have hid : a.2 = b.2 :=
      (congrArg ShownEndpoint.identifier haf).trans
        (hfg.trans (congrArg ShownEndpoint.identifier hbg).symm)
    rw [← haf, ← hbg, firsts_unique ha hb hid]
  · obtain ⟨g, hg, hfg⟩ := exists_mem_firsts sameFunction_self hf
    exact ⟨g, hg, h g (firsts_subset found hg) f hf (beq_iff_eq.1 hfg).symm⟩

/-- A file with two functions, each with one route. -/
def routesSource : String := "@app.get(\"/x\")\ndef f(): pass\n@app.post(\"/y\")\ndef g(): pass\n"

def routesTree : Node :=
  .mk "module" 0 59 [
    .mk "decorated_definition" 0 28 [.mk "decorator" 0 14 [],
      .mk "function_definition" 15 28 [.mk "identifier" 19 20 []]],
    .mk "decorated_definition" 29 58 [.mk "decorator" 29 44 [],
      .mk "function_definition" 45 58 [.mk "identifier" 49 50 []]]]

/-- The folder of the file, with a router for it. -/
def routed : Survey := ⟨"/p", [("/m.py", ⟨some "\"/api\"", []⟩)], []⟩

theorem two_routes_listed : ∃ found,
    (detect routed (.number 1)).answer (World.oneSource routesSource routesTree) = .ok found ∧
    found.map (shown routed.routers) =
      [⟨some "GET /api/x", "/m.py:f"⟩, ⟨some "POST /api/y", "/m.py:g"⟩] ∧
    ∀ f ∈ found, shown routed.routers f ∈
      (Endpoint.byFile ((analyse routed (.number 1) (.str "u")).after
        (World.oneSource routesSource routesTree)).store (.number 1)).under
        (shown routed.routers f).file := by
  have hfound : (detect routed (.number 1)).answer (World.oneSource routesSource routesTree) =
      .ok [("GET /x", "/m.py:f"), ("POST /y", "/m.py:g")] :=
    Run.eq_ok_of_toOption (by decide +kernel)
  refine ⟨_, hfound, by decide +kernel, ?_⟩
  refine (listed_all_iff rfl (by decide) rfl rfl (fun _ h => by cases h) hfound (.str "u")).2.2 ?_
  decide +kernel

def methodsSource : String := "@app.route(\"/x\", methods=[\"GET\", \"POST\"])\ndef f(): pass\n"

def methodsTree : Node :=
  .mk "module" 0 56 [.mk "decorated_definition" 0 55 [.mk "decorator" 0 41 [],
    .mk "function_definition" 42 55 [.mk "identifier" 46 47 []]]]

/-- Of the two entry points of a route with two methods only the first one is listed. -/
theorem second_method_lost :
    (detect ⟨"/p", [], []⟩ (.number 1)).answer (World.oneSource methodsSource methodsTree) =
      .ok [("GET /x", "/m.py:f"), ("POST /x", "/m.py:f")] ∧
    Endpoint.byFile ((analyse ⟨"/p", [], []⟩ (.number 1) (.str "u")).after
        (World.oneSource methodsSource methodsTree)).store (.number 1) =
      [("/m.py", [⟨some "GET /x", "/m.py:f"⟩])] :=
  ⟨Run.eq_ok_of_toOption (by decide +kernel), by decide +kernel⟩

end Entry
end CodeAtlas
