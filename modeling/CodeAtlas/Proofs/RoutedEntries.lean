import CodeAtlas.Proofs.KeptEntries
import CodeAtlas.Proofs.WrittenDecorators

/-!
# What routers lend to entry points

A call of `include_router` mounts a router, and the router lends a path and dependencies to the
entry points of the file in which it is defined. The path is kept as it is written in the call, with
its quotes, and only a path in double quotes loses them where it is lent.

* `ServedPath.qualified_verb`: an entry point below the path of a router;
  `ServedPath.lent_eq_iff`: which of the paths that are written are lent as they are meant;
* `Mount.mem_mounts`: the path of a router, from the tree of a call to the survey of its file;
* `Analysis.get?_secondPass`: what is noted about a file is what one of the routers in it lends;
* `Entry.prefix_kept_iff`: the path that is kept for an entry point, and when it is the path of the
  router followed by its own;
* `Entry.dependencies_of_last`: only the last entry point is connected with the dependencies of its
  router.
-/
namespace CodeAtlas

/-! ## Paths in quotes -/

namespace ServedPath

variable {q : Char} {parts : List String}

/-- The path of a router goes between the verb and the path of the entry point. -/
theorem qualified_verb {verb : String} (hverb : '/' ∉ verb.toList) (rest router : String) :
    qualified (verb ++ " /" ++ rest) (some router) =
      verb ++ " /" ++ Text.trimBy (· == '/') (Text.trimBy (· == '"') router) ++ "/" ++ rest := by
  have hfields : Text.fields '/' (verb ++ " /" ++ rest) =
      (verb ++ " ") :: Text.fields '/' rest := by
    have hfirst : '/' ∉ (verb ++ " ").toList := by simpa using hverb
    rw [Text.fields_of_toList (a := verb ++ " ") (b := rest) (by simp)]
    simp only [Text.fields, Text.splitOn_of_not_mem hfirst]
    simp
  have hjoined : "/".intercalate (Text.fields '/' rest) = rest :=
    Text.intercalate_fields (by simp) rest
  simp only [qualified, hfields, List.head?_cons, Option.getD_some, List.drop_succ_cons,
    List.drop_zero, hjoined]
  rw [← String.toList_inj]
  simp

def lent (q : Char) (parts : List String) : String :=
  if q = '"' then Text.trimBy (· == '/') ("/".intercalate parts)
  else quoted q (Path.ofParts parts)

theorem trimmed_quoted (hq : isQuote q = true)
    (hparts : ∀ s ∈ parts, ∀ c ∈ s.toList, isQuote c = false) :
    Text.trimBy (· == '/') (Text.trimBy (· == '"') (quoted q (Path.ofParts parts))) =
      lent q parts := by
  have hplain : ∀ c ∈ (Path.ofParts parts).toList, isQuote c = false := by
    rw [Path.ofParts, String.toList_append]
    intro c hc
    rcases List.mem_append.1 hc with hc | hc
    · rw [List.mem_singleton.1 hc]
      decide
    · exact Text.forall_mem_intercalate (by simp [isQuote]) hparts c hc
  rcases eq_of_isQuote hq with rfl | rfl
  · have hkept (f : Char → Bool) (hf : f '\'' = false) :
        Text.trimBy f (quoted '\'' (Path.ofParts parts)) = quoted '\'' (Path.ofParts parts) := by
      rw [Text.trimBy, quoted, String.toList_ofList, Chars.trimBy_of_refused hf hf]
    rw [hkept _ (by decide), hkept _ (by decide)]
    rfl
  · have hinside : Chars.trimBy (· == '"') (Path.ofParts parts).toList =
        (Path.ofParts parts).toList := by
      refine Chars.trimBy_eq_self fun c hc => ?_
      have hc := hplain c hc
      simp only [isQuote, Bool.or_eq_false_iff] at hc
      exact hc.2
    have hquotes : Text.trimBy (· == '"') (quoted '"' (Path.ofParts parts)) =
        Path.ofParts parts := by
      rw [Text.trimBy, quoted, String.toList_ofList,
        Chars.trimBy_cons (f := (· == '"')) (beq_self_eq_true _),
        Chars.trimBy_concat (f := (· == '"')) (beq_self_eq_true _), hinside, String.ofList_toList]
    rw [hquotes, Text.trimBy, Path.toList_ofParts,
      Chars.trimBy_cons (f := (· == '/')) (beq_self_eq_true _), lent, if_pos rfl, Text.trimBy,
      String.toList_intercalate]
    rfl

/-- A path is lent as it is meant if it is in double quotes, and its ends are no empty parts. -/
theorem lent_eq_iff (hq : isQuote q = true) (hne : parts ≠ [])
    (hparts : ∀ s ∈ parts, ∀ c ∈ s.toList, isQuote c = false ∧ c ≠ '/') :
    lent q parts = "/".intercalate parts ↔
      q = '"' ∧ (parts.length = 1 ∨ parts.head? ≠ some "" ∧ parts.getLast? ≠ some "") := by
  have hfields : Text.fields '/' ("/".intercalate parts) = parts :=
    Text.fields_intercalate (by simp) (fun s hs hc => (hparts s hs '/' hc).2 rfl) hne
  unfold lent
  rcases eq_of_isQuote hq with rfl | rfl
  · -- a single quote is lent, but is not meant
    have hplain : ∀ c ∈ ("/".intercalate parts).toList, isQuote c = false :=
      Text.forall_mem_intercalate (by simp [isQuote]) fun s hs c hc => (hparts s hs c hc).1
    simp only [Char.reduceEq, if_false, false_and, iff_false]
    intro he
    have hmem : '\'' ∈ ("/".intercalate parts).toList := by simp [← he, quoted]
    exact absurd (hplain _ hmem) (by decide)
  · rw [if_pos rfl, Text.trimBy, ← String.toList_inj, String.toList_ofList,
      Chars.trimBy_eq_self_iff, Text.head?_ne_iff, Text.getLast?_ne_iff, hfields, ← or_and_left]
    simp

end ServedPath

/-! ## Calls that mount a router -/

namespace Mount

variable {src router path : String} {root : Node}

/-- An argument that gives neither the router nor the path by name. -/
def Unnamed (s : String) : Prop :=
  assigned? s = none ∨ Text.startsWith "router" s = false ∧ Text.startsWith "prefix" s = false

theorem named_append {args : List String} (h : ∀ a ∈ args, Unnamed a) (r q : Option String)
    (rest : List String) : named r q (args ++ rest) = named r q rest := by
  induction args with
  | nil => rfl
  | cons a args ih =>
    rw [List.forall_mem_cons] at h
    rw [List.cons_append, named]
    rcases h.1 with hnone | ⟨hrouter, hprefix⟩
    · rw [hnone]
      exact ih h.2
    · cases assigned? a with
      | none => exact ih h.2
      | some value =>
        rw [hrouter, hprefix]
        exact ih h.2

theorem named_path (path : String) (args : List String) (r q : Option String) :
    named r q (("prefix=" ++ path) :: args) = named r (some path) args := by
  have hchars : ("prefix=" ++ path).toList = "prefix".toList ++ '=' :: path.toList := by simp
  have hcut : assigned? ("prefix=" ++ path) = some path := by
    rw [assigned?, (Text.cut?_single (c := '=') rfl).2 ⟨hchars, by decide⟩]
    rfl
  have hrouter : Text.startsWith "router" ("prefix=" ++ path) = false := by
    rw [Text.startsWith, hchars]
    rfl
  have hprefix : Text.startsWith "prefix" ("prefix=" ++ path) = true := by
    rw [Text.startsWith, hchars]
    rfl
  rw [named, hcut, hrouter, hprefix]
  rfl

/-- The arguments of a call that mounts a router under a path: the router comes first, and the path
is given by name. -/
structure Arguments (src : String) (n : Node) (router path : String) : Prop where
  text : ∃ text, n.text src = .ok text
  texts : ∃ before after,
    Import.textsWhere src (fun c => !(["(", ")", ","].contains c.kind)) n.children =
      .ok (router :: before ++ ("prefix=" ++ path) :: after) ∧
    ∀ a ∈ router :: before ++ after, Unnamed a

/-- The path is taken as it is written. -/
theorem ofArguments_eq {n : Node} (h : Arguments src n router path) :
    ∃ depends, ofArguments src n = .ok ⟨router, some path, depends⟩ := by
  obtain ⟨⟨text, htext⟩, before, after, htexts, hunnamed⟩ := h
  have hnamed := calc named none none (router :: before ++ ("prefix=" ++ path) :: after)
    _ = named none none (("prefix=" ++ path) :: after) :=
      named_append (fun a ha => hunnamed a (List.mem_append_left _ ha)) none none _
    _ = named none (some path) (after ++ []) := by rw [named_path, List.append_nil]
    _ = (none, some path) :=
      named_append (fun a ha => hunnamed a (List.mem_append_right _ ha)) none (some path) []
  refine ⟨Injection.names text, ?_⟩
  unfold ofArguments
  rw [htexts, Run.ok_bind, hnamed, htext]
  rfl

def Written (src : String) (root : Node) (router path : String) : Prop :=
  ∃ statement ∈ root.children, statement.kind = "expression_statement" ∧
    ∃ call ∈ statement.children, call.kind = "call" ∧
      ∃ callee arguments, call.children = [callee, arguments] ∧ callee.kind = "attribute" ∧
        (∃ text, callee.text src = .ok text ∧ Text.contains "include_router" text = true) ∧
        arguments.kind = "argument_list" ∧ Arguments src arguments router path

theorem mem_mounts (h : Written src root router path)
    (hended : (Survey.ofTree src root).ended = none) :
    ∃ depends, (⟨router, some path, depends⟩ : Mount) ∈ (Survey.ofTree src root).mounts := by
  obtain ⟨statement, hstatement, hkind, call, hcall, hcallKind, callee, arguments, hchildren,
    hcallee, ⟨text, htext, hcontains⟩, hlist, harguments⟩ := h
  obtain ⟨depends, hmount⟩ := ofArguments_eq harguments
  have hexpression : Survey.ofExpression src call =
      .ok [.mounted ⟨router, some path, depends⟩] := by
    simp only [Survey.ofExpression, hcallKind, hchildren, ofCall, hcallee, hlist, htext, hcontains,
      hmount, Run.ok_bind]
    rfl
  have htop : Survey.ofTopLevel src statement = Survey.sequence
      (statement.children.map fun c => Survey.ofReading (Survey.ofExpression src c)) := by
    simp [Survey.ofTopLevel, hkind]
  obtain ⟨hnone, hall⟩ := Survey.mem_sequence hended (List.mem_map_of_mem hstatement)
  rw [htop] at hnone hall
  obtain ⟨-, hcalls⟩ := Survey.mem_sequence hnone (List.mem_map_of_mem hcall)
  rw [hexpression] at hcalls
  exact ⟨depends, List.mem_filterMap.2 ⟨_, hall _ (hcalls _ List.mem_cons_self), rfl⟩⟩

end Mount

/-! ## What is noted about a file -/

namespace Routers

variable {t : FileTree} {s : Calls.Scope} {table routers : RouterTable}

def lends (t : FileTree) (s : Calls.Scope) (m : Mount) : Except Failure (String × RouterInfo) := do
  let router ← Resolve.functionTarget t s.index s.directory s.file m.router
  let depends ← dependencies t s m.depends
  return (Text.remove s.directory router.file, ⟨m.path, depends⟩)

theorem get?_mount {m : Mount} (h : mount t s table m = .ok routers) (k : String) :
    ∃ file info, lends t s m = .ok (file, info) ∧
      Table.get? routers k = if file = k then some info else Table.get? table k := by
  unfold mount at h
  obtain ⟨router, hrouter, h⟩ := Run.bind_eq_ok h
  obtain ⟨depends, hdepends, h⟩ := Run.bind_eq_ok h
  cases h
  refine ⟨_, ⟨m.path, depends⟩, ?_, Table.get?_set _ _ _ _⟩
  rw [lends, hrouter, Run.ok_bind, hdepends]
  rfl

/-- What is noted about a file in the end was lent by one of the routers, unless none lent anything
to it. -/
theorem get?_foldlM_mount {mounts : List (Calls.Scope × Mount)}
    (h : mounts.foldlM (fun table e => mount t e.1 table e.2) table = .ok routers) (k : String) :
    (Table.get? routers k = Table.get? table k ∧
        ∀ e ∈ mounts, ∃ file info, lends t e.1 e.2 = .ok (file, info) ∧ file ≠ k) ∨
      ∃ e ∈ mounts, ∃ info, lends t e.1 e.2 = .ok (k, info) ∧ Table.get? routers k = some info := by
  induction mounts generalizing table with
  | nil =>
    cases h
    exact .inl ⟨rfl, fun _ he => by cases he⟩
  | cons e mounts ih =>
    rw [List.foldlM_cons] at h
    obtain ⟨next, hnext, h⟩ := Run.bind_eq_ok h
    obtain ⟨file, info, hlends, hget⟩ := get?_mount hnext k
    rcases ih h with ⟨hsame, hnone⟩ | ⟨d, hd, hlast⟩
    · rw [hget] at hsame
      by_cases hfile : file = k
      · subst hfile
        rw [if_pos rfl] at hsame
        exact .inr ⟨e, List.mem_cons_self, info, hlends, hsame⟩
      · rw [if_neg hfile] at hsame
        exact .inl ⟨hsame, List.forall_mem_cons.2 ⟨⟨file, info, hlends, hfile⟩, hnone⟩⟩
    · exact .inr ⟨d, List.mem_cons_of_mem e hd, hlast⟩

end Routers

namespace Analysis
open Run

variable {directory : String} {p : ProjectKey} {files : List SurveyedFile} {u v : World}
  {routers : RouterTable}

/-- The routers that files mount, in order, with what their names are resolved in. -/
def mountsIn (directory : String) (files : List SurveyedFile) : List (Calls.Scope × Mount) :=
  files.flatMap fun f => f.survey.mounts.map (Prod.mk (scopeOf directory files f))

theorem foldlM_secondPass (h : (secondPass directory p files).ends u = (.ok routers, v)) :
    (mountsIn directory files).foldlM (fun table e => Routers.mount u.files e.1 table e.2) [] =
      .ok routers := by
  have hfold (fs : List SurveyedFile) : ∀ (w : World) (table : RouterTable),
      w.files = u.files → (fs.foldlM (connectFile directory p (indexOf directory files)
        (definedIn directory files)) table).ends w = (.ok routers, v) →
      (fs.flatMap fun f => f.survey.mounts.map (Prod.mk (scopeOf directory files f))).foldlM
        (fun table e => Routers.mount u.files e.1 table e.2) table = .ok routers := by
    induction fs with
    | nil =>
      intro w table _ hends
      cases hends
      rfl
    | cons f fs ih =>
      intro w table hw hends
      rw [List.foldlM_cons] at hends
      obtain ⟨next, w', hfile, hrest⟩ := ends_bind_eq_ok hends
      have hkeep : w'.files = w.files := ((madeOf_connectFile directory _ _ table f).keeps
        fun _ _ hstep => hstep.keeps_part fun _ => rfl).of_ends hfile
      obtain ⟨_, x, hcalls, hmounts⟩ := ends_bind_eq_ok hfile
      have hx : x.files = w.files :=
        ((madeOf_calls _ _ _).keeps fun _ _ hstep => hstep.keeps_part fun _ => rfl).of_ends hcalls
      rw [ends_bind_ok _ (ends_get x), ends_lift, hx, hw] at hmounts
      have hnext : Routers.mountAll u.files (scopeOf directory files f) f.survey.mounts table =
          .ok next := congrArg Prod.fst hmounts
      rw [List.flatMap_cons, List.foldlM_append, List.foldlM_map]
      refine (congrArg (· >>= _) hnext).trans ?_
      exact ih w' next (hkeep.trans hw) hrest
  exact hfold files u [] rfl h

theorem get?_secondPass (h : (secondPass directory p files).ends u = (.ok routers, v))
    {g : SurveyedFile} (hg : g ∈ files) {m : Mount} (hm : m ∈ g.survey.mounts) {target : Target}
    (htarget : Resolve.functionTarget u.files (indexOf directory files) directory g.path m.router =
      .ok target) :
    ∃ g' ∈ files, ∃ m' ∈ g'.survey.mounts, ∃ target' depends,
      Resolve.functionTarget u.files (indexOf directory files) directory g'.path m'.router =
        .ok target' ∧
      Text.remove directory target'.file = Text.remove directory target.file ∧
      Table.get? routers (Text.remove directory target.file) = some ⟨m'.path, depends⟩ := by
  have hmem (e : Calls.Scope × Mount) : e ∈ mountsIn directory files ↔
      ∃ f ∈ files, ∃ n ∈ f.survey.mounts, (scopeOf directory files f, n) = e := by
    simp [mountsIn]
  have hlends {f : SurveyedFile} {n : Mount} {file : String} {info : RouterInfo}
      (hok : Routers.lends u.files (scopeOf directory files f) n = .ok (file, info)) :
      ∃ target', Resolve.functionTarget u.files (indexOf directory files) directory f.path
        n.router = .ok target' ∧ Text.remove directory target'.file = file ∧
        info.path = n.path := by
    unfold Routers.lends at hok
    obtain ⟨target', hrouter, hok⟩ := bind_eq_ok hok
    obtain ⟨depends, hdepends, hok⟩ := bind_eq_ok hok
    cases hok
    exact ⟨target', hrouter, rfl, rfl⟩
  rcases Routers.get?_foldlM_mount (foldlM_secondPass h) (Text.remove directory target.file) with
    ⟨-, hnone⟩ | ⟨e, he, info, hok, hget⟩
  · -- the router itself lends something to the file
    obtain ⟨file, info, hok, hne⟩ := hnone _ ((hmem _).2 ⟨g, hg, m, hm, rfl⟩)
    obtain ⟨target', htarget', hfile, -⟩ := hlends hok
    rw [htarget] at htarget'
    cases htarget'
    exact absurd hfile.symm hne
  · obtain ⟨f, hf, n, hn, rfl⟩ := (hmem e).1 he
    obtain ⟨target', htarget', hfile, hpath⟩ := hlends hok
    exact ⟨f, hf, n, hn, target', info.depends, htarget', hfile, by rw [hget, ← hpath]⟩

/-- A statement of a file mounts a router that is found in another file, or the same one, and no
statement gives that file another path. -/
structure MountedAt (t : FileTree) (directory : String) (files : List SurveyedFile)
    (file path : String) : Prop where
  written : ∃ g ∈ files, ∃ root router target, g.survey = Survey.ofTree g.source root ∧
    g.survey.ended = none ∧ Mount.Written g.source root router path ∧
    Resolve.functionTarget t (indexOf directory files) directory g.path router = .ok target ∧
    target.file = file
  only : ∀ g ∈ files, ∀ m ∈ g.survey.mounts, ∀ target,
    Resolve.functionTarget t (indexOf directory files) directory g.path m.router = .ok target →
    Text.remove directory target.file = Text.remove directory file → m.path = some path

theorem MountedAt.get?_routers {file path : String}
    (hmounted : MountedAt u.files directory files file path)
    (h : (secondPass directory p files).ends u = (.ok routers, v)) :
    ∃ depends, Table.get? routers (Text.remove directory file) = some ⟨some path, depends⟩ := by
  obtain ⟨g, hg, root, router, target, hsurvey, hended, hwritten, htarget, rfl⟩ := hmounted.written
  rw [hsurvey] at hended
  obtain ⟨_, hm⟩ := Mount.mem_mounts hwritten hended
  rw [← hsurvey] at hm
  obtain ⟨g', hg', m', hm', target', depends, htarget', hfile, hget⟩ :=
    get?_secondPass h hg hm htarget
  exact ⟨depends, by rw [hget, hmounted.only g' hg' m' hm' target' htarget' hfile]⟩

end Analysis

/-! ## The paths that are kept -/

namespace Entry
open Run
open ServedPath (isQuote quoted)

variable {p : ProjectKey} {c : Cell} {w v : World}

/-- The detection finds `f` first for a function that had no row, and a row can be added. -/
structure FoundNew (w : World) (s : Survey) (p : ProjectKey) (c : Cell) (f : String × String) :
    Prop where
  project : p.cell = .ok c
  given : c ≠ .null
  writable : w.store.readOnly = false
  rules : Store.endpointsConsistent w.store.endpoints = true
  first : ∃ found, (detect s p).answer w = .ok found ∧ found.find? (·.2 == f.2) = some f
  unlisted : w.store.endpoint? (some f.2) c = none

/-- The row of a function that had none, after the detection. -/
theorem FoundNew.endpoint?_analyse {s : Survey} {f : String × String} (h : FoundNew w s p c f)
    (user : Json) :
    ((analyse s p user).after w).store.endpoint? (some f.2) c = some (row s.routers c f) := by
  obtain ⟨found, hfound, hfirst⟩ := h.first
  have hsame : (fun g : String × String => g.2 == f.2) = sameFunction f := by
    funext g
    exact Bool.beq_comm
  rw [hsame] at hfirst
  rw [store_analyse h.project h.given h.writable h.rules hfound user, Store.endpoint?_adding,
    h.unlisted, Option.none_or]
  have hrow : row s.routers c f ∈ keptRows s.routers c (found.filter (isNew w.store c)) :=
    mem_keptRows.2 ⟨f, hfirst, h.unlisted, rfl⟩
  obtain ⟨e, he⟩ := Option.isSome_iff_exists.1 (List.find?_isSome.2
    ⟨_, hrow, show Store.isEndpoint (some f.2) c (row s.routers c f) = true by
      simp [Store.isEndpoint, row]⟩)
  -- a row of the function is that of its first entry point
  obtain ⟨g, hg, -, rfl⟩ := mem_keptRows.1 (List.mem_of_find?_eq_some he)
  have hid : g.2 = f.2 := by
    have his := List.find?_some he
    simp only [Store.isEndpoint, row, decide_true, Bool.and_true] at his
    exact Option.some.inj (of_decide_eq_true his)
  have hgf : sameFunction g = sameFunction f := by
    funext d
    rw [sameFunction, sameFunction, hid]
  rw [hgf, hfirst] at hg
  rw [he, Option.some.inj hg]

/-- A router of a file is mounted under a path, written in quotes `q`. -/
structure Mounted (w : World) (directory : String) (files : List Analysis.SurveyedFile)
    (file : String) (q : Char) (parts : List String) : Prop where
  quote : isQuote q = true
  ne_nil : parts ≠ []
  plain : ∀ s ∈ parts, ∀ a ∈ s.toList, isQuote a = false ∧ a ≠ '/'
  mount : Analysis.MountedAt w.files directory files file (quoted q (Path.ofParts parts))
  place : ':' ∉ (Text.remove directory file).toList

/-- **The path of a router is lent as it is written.** An entry point of a file gets the path that a
router in it is mounted under, and its own path after that. It is the path that is meant if and only
if it is written in double quotes and, where it has several parts, does not begin or end with an
empty one; what is in single quotes is lent with its quotes. -/
theorem prefix_kept_iff {directory file : String} {files : List Analysis.SurveyedFile}
    {routers : RouterTable} {q : Char} {parts : List String}
    (hpass : (Analysis.secondPass directory p files).ends w = (.ok routers, v))
    (hmounted : Mounted w directory files file q parts) {verb rest name : String}
    (hverb : '/' ∉ verb.toList)
    (hfound : FoundNew v ⟨directory, routers, Analysis.indexOf directory files⟩ p c
      (verb ++ " /" ++ rest, identifier directory file name)) (user : Json) :
    ∃ e, ((analyse ⟨directory, routers, Analysis.indexOf directory files⟩ p user).after
        v).store.endpoint? (some (identifier directory file name)) c = some e ∧
      e.path = some (verb ++ " /" ++ ServedPath.lent q parts ++ "/" ++ rest) ∧
      (e.path = some (verb ++ " /" ++ "/".intercalate parts ++ "/" ++ rest) ↔
        q = '"' ∧ (parts.length = 1 ∨ parts.head? ≠ some "" ∧ parts.getLast? ≠ some "")) := by
  obtain ⟨depends, hget⟩ := hmounted.mount.get?_routers hpass
  have hrouter : routerOf routers (identifier directory file name) =
      ⟨some (quoted q (Path.ofParts parts)), depends⟩ := by
    rw [routerOf, identifier, Text.before_colon hmounted.place, hget]
    rfl
  have hkept := hfound.endpoint?_analyse user
  have hpath : ServedPath.qualified (verb ++ " /" ++ rest) (some (quoted q (Path.ofParts parts))) =
      verb ++ " /" ++ ServedPath.lent q parts ++ "/" ++ rest := by
    rw [ServedPath.qualified_verb hverb,
      ServedPath.trimmed_quoted hmounted.quote fun s hs a ha => (hmounted.plain s hs a ha).1]
  refine ⟨_, hkept, ?_, ?_⟩
  · rw [row, hrouter, hpath]
  · rw [row, hrouter, hpath, ← ServedPath.lent_eq_iff hmounted.quote
      hmounted.ne_nil hmounted.plain]
    simp only [Option.some.injEq, ← String.toList_inj, String.toList_append, List.append_assoc,
      List.append_cancel_left_eq, List.append_cancel_right_eq]

def mountedSource (q : Char) : String :=
  "r = APIRouter()\napp.include_router(r, prefix=" ++ quoted q "/x" ++
    ")\n@r.get(\"/p\")\ndef f(): pass\n"

def mountedArguments : Node :=
  .mk "argument_list" 34 50 [.mk "(" 34 35 [], .mk "identifier" 35 36 [], .mk "," 36 37 [],
    .mk "keyword_argument" 38 49 [], .mk ")" 49 50 []]

def mountedTree : Node :=
  .mk "module" 0 78 [
    .mk "expression_statement" 0 15 [.mk "assignment" 0 15 [.mk "identifier" 0 1 [],
      .mk "=" 2 3 [], .mk "call" 4 15 [.mk "identifier" 4 13 [], .mk "argument_list" 13 15 []]]],
    .mk "expression_statement" 16 50 [.mk "call" 16 50 [.mk "attribute" 16 34 [],
      mountedArguments]],
    .mk "decorated_definition" 51 77 [.mk "decorator" 51 63 [.mk "call" 52 63 []],
      .mk "function_definition" 64 77 [.mk "identifier" 68 69 []]]]

abbrev mountedSurvey (q : Char) : Analysis.SurveyedFile :=
  Analysis.oneSurvey (mountedSource q) mountedTree

abbrev mountedWorld (q : Char) : World := World.oneSource (mountedSource q) mountedTree

/-- What the second pass notes about the routers of the file. -/
def mountedRouters (q : Char) : RouterTable := [("/m.py", ⟨some (quoted q "/x"), []⟩)]

/-- What the detection works on. -/
abbrev mountedScope (q : Char) : Survey :=
  ⟨"/p", mountedRouters q, Analysis.indexOf "/p" [mountedSurvey q]⟩

theorem ends_mounted {q : Char} (hq : isQuote q = true) :
    (Analysis.secondPass "/p" (.number 1) [mountedSurvey q]).ends (mountedWorld q) =
      (.ok (mountedRouters q), mountedWorld q) := by
  have hevaluated : Calls.issued (Analysis.passSteps (mountedWorld q).files "/p"
        [mountedSurvey q]) = [] ∧
      ((Analysis.secondPass "/p" (.number 1) [mountedSurvey q]).answer
        (mountedWorld q)).toOption = some (mountedRouters q) := by
    rcases ServedPath.eq_of_isQuote hq with rfl | rfl <;> decide +kernel
  obtain ⟨hnone, hanswer⟩ := hevaluated
  have hperforms : Calls.Performs (mountedWorld q).files (.number 1)
      (Analysis.secondPass "/p" (.number 1) [mountedSurvey q])
      (Analysis.passSteps (mountedWorld q).files "/p" [mountedSurvey q]) :=
    Analysis.performs_secondPass (c := .number 1) rfl _
  obtain ⟨x, hends, -⟩ := hperforms (mountedWorld q) rfl rfl
  rw [hnone, List.map_nil, GraphCommand.sent_nil] at hends
  rw [answer, hends] at hanswer
  rw [hends]
  exact congrArg (·, mountedWorld q) (eq_ok_of_toOption hanswer)

theorem detect_mounted {q : Char} (hq : isQuote q = true) :
    (detect (mountedScope q) (.number 1)).answer (mountedWorld q) =
      .ok [("GET /p", "/m.py:f")] := by
  refine eq_ok_of_toOption ?_
  rcases ServedPath.eq_of_isQuote hq with rfl | rfl <;> decide +kernel

theorem mountedAt {q : Char} (hq : isQuote q = true) :
    Analysis.MountedAt (mountedWorld q).files "/p"
      [mountedSurvey q] "/p/m.py" (quoted q (Path.ofParts ["x"])) := by
  have hparts : Path.ofParts ["x"] = "/x" := by decide +kernel
  have hevaluated : (mountedSurvey q).survey.ended = none ∧
      (mountedSurvey q).survey.mounts.map Mount.path = [some (quoted q "/x")] ∧
      (Import.textsWhere (mountedSource q) (fun c => !(["(", ")", ","].contains c.kind))
        mountedArguments.children).toOption = some ["r", "prefix=" ++ quoted q "/x"] ∧
      (mountedArguments.text (mountedSource q)).toOption.isSome = true ∧
      ((Node.mk "attribute" 16 34 []).text (mountedSource q)).toOption =
        some "app.include_router" ∧
      (Resolve.functionTarget (mountedWorld q).files
        (Analysis.indexOf "/p" [mountedSurvey q]) "/p" "/p/m.py" "r").toOption.map Target.file =
          some "/p/m.py" := by
    rcases ServedPath.eq_of_isQuote hq with rfl | rfl <;> decide +kernel
  obtain ⟨hended, hmounts, htexts, htext, hcallee, htarget⟩ := hevaluated
  obtain ⟨text, htext⟩ := Option.isSome_iff_exists.1 htext
  obtain ⟨target, htarget, hfile⟩ := Option.map_eq_some_iff.1 htarget
  have harguments : Mount.Arguments (mountedSource q) mountedArguments "r"
      (quoted q (Path.ofParts ["x"])) := by
    refine ⟨⟨text, eq_ok_of_toOption htext⟩, [], [], ?_, ?_⟩
    · rw [hparts]
      exact eq_ok_of_toOption htexts
    · simp only [List.append_nil, List.forall_mem_singleton]
      exact .inl (by decide)
  have hsurvey (src : String) (tree : Node) : (Analysis.oneSurvey src tree).survey =
      CodeAtlas.Survey.ofTree (Analysis.oneSurvey src tree).source tree := rfl
  constructor
  · refine ⟨mountedSurvey q, List.mem_singleton_self _, mountedTree, "r", target, hsurvey _ _,
      hended, ?_, eq_ok_of_toOption htarget, hfile⟩
    exact ⟨_, List.mem_cons_of_mem _ List.mem_cons_self, rfl, _, List.mem_cons_self, rfl, _, _, rfl,
      rfl, ⟨_, eq_ok_of_toOption hcallee, by decide⟩, rfl, harguments⟩
  · intro g hg m hm _ _ _
    obtain rfl := List.mem_singleton.1 hg
    have hpath := List.mem_map_of_mem (f := Mount.path) hm
    rw [hmounts, List.mem_singleton] at hpath
    rw [hpath, hparts]

/-- A path in double quotes is lent without them. -/
theorem double_quotes_lent : ∃ e,
    ((analyse (mountedScope '"') (.number 1) (.str "u")).after (mountedWorld '"')).store.endpoint?
      (some "/m.py:f") (.number 1) = some e ∧ e.path = some "GET /x/p" := by
  have hid : identifier "/p" "/p/m.py" "f" = "/m.py:f" := Analysis.identifier_oneSource "f"
  have hfirst : [("GET /p", "/m.py:f")].find? (·.2 == identifier "/p" "/p/m.py" "f") =
      some ("GET" ++ " /" ++ "p", identifier "/p" "/p/m.py" "f") := by
    rw [hid]
    decide
  have hnew : (mountedWorld '"').store.endpoint? (some (identifier "/p" "/p/m.py" "f"))
      (.number 1) = none := by
    rw [hid]
    decide
  have hmounted : Mounted (mountedWorld '"') "/p" [mountedSurvey '"'] "/p/m.py" '"' ["x"] :=
    ⟨rfl, by simp, by simp [isQuote], mountedAt rfl, by decide +kernel⟩
  obtain ⟨e, he, -, hpath⟩ := prefix_kept_iff (ends_mounted rfl) hmounted (by decide)
    ⟨rfl, by decide, rfl, by decide, ⟨_, detect_mounted rfl, hfirst⟩, hnew⟩ (.str "u")
  rw [hid] at he
  exact ⟨e, he, hpath.2 (by decide)⟩

/-- A path in single quotes is lent with them. -/
theorem single_quotes_lent :
    Analysis.MountedAt (mountedWorld '\'').files "/p" [mountedSurvey '\''] "/p/m.py"
      (quoted '\'' (Path.ofParts ["x"])) ∧
    (detect (mountedScope '\'') (.number 1)).answer (mountedWorld '\'') =
      .ok [("GET /p", "/m.py:f")] ∧
    ∃ e, ((analyse (mountedScope '\'') (.number 1) (.str "u")).after
      (mountedWorld '\'')).store.endpoint? (some "/m.py:f") (.number 1) = some e ∧
        e.path = some "GET /'/x'/p" := by
  have hfound : FoundNew (mountedWorld '\'') (mountedScope '\'') (.number 1) (.number 1)
      ("GET /p", "/m.py:f") :=
    ⟨rfl, by decide, rfl, by decide, ⟨_, detect_mounted rfl, by decide⟩, by decide⟩
  exact ⟨mountedAt rfl, detect_mounted rfl, _, hfound.endpoint?_analyse (.str "u"),
    by decide +kernel⟩

end Entry

/-! ## Dependencies -/

/-- The service stays in order where it is used for commands and questions. -/
theorem GraphService.Own.ordered {p : ProjectKey} {α : Type} {r : Run α} (h : Own p α r) :
    Run.Leads (fun w v => w.troubles = [] → v.troubles = []) r := by
  intro w hw
  have hcommand (c : GraphCommand) : (c.run.after w).troubles = [] := by
    rw [c.after_run hw]
    exact hw
  cases h with
  | upsert id ps => exact hcommand (.upsert id p ps)
  | connect a b properties => exact hcommand (.connect a b p properties)
  | extend base derived => exact hcommand (.extend base derived p)
  | node? id =>
    let Same : World → Prop := fun u => u.troubles = [] ∧ u.graph = w.graph
    have hcalm : Calm Same := ⟨fun u hu => hu.1, fun u l hu => hu⟩
    have hgives : Run.Gives Same (GraphService.node? id p) _ :=
      gives_ask (f := (Graph.node? · p id)) hcalm fun u hu => by rw [hu.2]
    exact (hgives w ⟨hw, rfl⟩).2.1

namespace Entry
open Run GraphCommand

variable {p : ProjectKey} {c : Cell} {w v : World} {s : Survey} {found : List (String × String)}
  {last : String × String}

/-- The calls that connect a function with the dependencies of the router of its file. -/
def dependencyCalls (routers : RouterTable) (id : String) : List (String × String) :=
  (routerOf routers id).depends.map (Prod.mk id)

theorem ends_connectDependencies (hp : p.cell = .ok c) (hw : w.troubles = [])
    (routers : RouterTable) (hlast : found.getLast? = some last) :
    (connectDependencies routers p found).ends w =
      (.ok (), sent w ((dependencyCalls routers last.2).map (Calls.request p))) := by
  have hforM := Calls.Performs.forM (t := w.files) (l := (routerOf routers last.2).depends)
    fun d _ => Calls.performs_request hp last.2 d
  have hissued (ds : List String) :
      Calls.issued (ds.flatMap fun d => [.ok (some (last.2, d))]) = ds.map (Prod.mk last.2) ∧
        Calls.ended (ds.flatMap fun d => [.ok (some (last.2, d))]) = none := by
    induction ds with
    | nil => exact ⟨rfl, rfl⟩
    | cons d ds ih => exact ⟨congrArg ((last.2, d) :: ·) ih.1, ih.2⟩
  obtain ⟨x, hx, hended⟩ := hforM w hw rfl
  rw [(hissued _).1] at hx
  rw [(hissued _).2] at hended
  unfold connectDependencies
  rw [hlast]
  refine hx.trans ?_
  cases x with
  | error e => cases hended
  | ok _ => rfl

theorem ordered_detect (hw : w.troubles = []) (hdetect : (detect s p).ends w = (.ok found, v)) :
    v.troubles = [] := by
  have hpasses : Passes fun w v : World => w.troubles = [] → v.troubles = [] :=
    ⟨fun _ => id, fun h h' hw => h' (h hw)⟩
  exact ((madeOf_detect s).leads hpasses fun _ _ hstep => hstep.ordered).of_ends hdetect hw

def handedOn (s : Survey) (p : ProjectKey) (user : Json) (rows : List Endpoint)
    (asked : List (String × String)) (v : World) : World :=
  { sent v (asked.map (Calls.request p)) with
    store := v.store.adding rows
    log := (sent v (asked.map (Calls.request p))).log ++
      [.queued "knowledgegraph.task.infer_flows"
        [("project_id", p.given), ("directory", .str s.directory), ("user_id", user)]] }

theorem ends_analyse (hp : p.cell = .ok c) (hc : c ≠ .null) (hstore : w.store.readOnly = false)
    (hrules : Store.endpointsConsistent w.store.endpoints = true)
    (hw : w.troubles = []) (hdetect : (detect s p).ends w = (.ok found, v))
    (hlast : found.getLast? = some last) (user : Json) :
    (analyse s p user).ends w = (.ok (), handedOn s p user
      (keptRows s.routers c (found.filter (isNew v.store c)))
      (dependencyCalls s.routers last.2) v) := by
  have hsame : v.store = w.store := (keeps_detect s).of_ends hdetect
  have hv := ordered_detect hw hdetect
  rw [← hsame] at hstore hrules
  obtain ⟨hrows, -⟩ := foldlM_keep hp hc hstore s.routers hrules found
  unfold analyse
  rw [ends_bind_ok _ hdetect, ends_bind_ok _ (ends_keepAll found hrows),
    ends_bind_ok _ (ends_connectDependencies hp (by exact hv) s.routers hlast), ends_note]
  rfl

/-- **Only the last entry point** is connected with the dependencies of its router. So the calls
that are asked for are those of all entry points if and only if no other function among them has a
router with dependencies. -/
theorem dependencies_of_last (hp : p.cell = .ok c) (hc : c ≠ .null)
    (hstore : w.store.readOnly = false)
    (hrules : Store.endpointsConsistent w.store.endpoints = true)
    (hw : w.troubles = []) (hdetect : (detect s p).ends w = (.ok found, v))
    (hlast : found.getLast? = some last) (user : Json) :
    (analyse s p user).ends w = (.ok (), handedOn s p user
      (keptRows s.routers c (found.filter (isNew v.store c)))
      (dependencyCalls s.routers last.2) v) ∧
    ((∀ e, e ∈ dependencyCalls s.routers last.2 ↔
        ∃ f ∈ found, e ∈ dependencyCalls s.routers f.2) ↔
      ∀ f ∈ found, (routerOf s.routers f.2).depends ≠ [] → f.2 = last.2) := by
  refine ⟨ends_analyse hp hc hstore hrules hw hdetect hlast user, ?_⟩
  constructor
  · intro hall f hf hne
    obtain ⟨d, hd⟩ := List.exists_mem_of_ne_nil _ hne
    have hasked := (hall (f.2, d)).2 ⟨f, hf, List.mem_map_of_mem hd⟩
    obtain ⟨_, -, he⟩ := List.mem_map.1 hasked
    exact (Prod.mk.inj he).1.symm
  · intro hone e
    constructor
    · exact fun he => ⟨last, List.mem_of_getLast? hlast, he⟩
    · rintro ⟨f, hf, he⟩
      obtain ⟨d, hd, -⟩ := List.mem_map.1 he
      rwa [← hone f hf (List.ne_nil_of_mem hd)]

/-- What the detection works on where the router of the file has a dependency. -/
def guarded (index : FileIndex) : Survey :=
  ⟨"/p", [("/m.py", ⟨none, ["/m.py:check"]⟩)], index⟩

/-- In a file with one route all that is to be asked for is asked for. -/
theorem only_route_guarded :
    (analyse (guarded (mountedScope '"').index) (.number 1) (.str "u")).answer (mountedWorld '"') =
      .ok () ∧
    ∀ e, e ∈ dependencyCalls (guarded (mountedScope '"').index).routers "/m.py:f" ↔
      ∃ f ∈ [("GET /p", "/m.py:f")],
        e ∈ dependencyCalls (guarded (mountedScope '"').index).routers f.2 := by
  have hlast : [("GET /p", "/m.py:f")].getLast? = some ("GET /p", "/m.py:f") := rfl
  have hanswer : (detect (guarded (mountedScope '"').index) (.number 1)).answer (mountedWorld '"') =
      .ok [("GET /p", "/m.py:f")] := by
    rw [detect_eq (guarded (mountedScope '"').index) (mountedScope '"') rfl rfl]
    exact detect_mounted rfl
  obtain ⟨hends, hiff⟩ := dependencies_of_last (c := .number 1) rfl (by decide) rfl (by decide) rfl
    (ends_of_answer hanswer) hlast (.str "u")
  refine ⟨?_, hiff.2 (by simp)⟩
  rw [answer, hends]

/-- In a file with two functions the last one is connected with the dependency, and the first one is
not. -/
theorem first_route_unguarded : ∃ v,
    (detect (guarded []) (.number 1)).ends growing =
      (.ok [("GET /x", "/m.py:f"), ("POST /x", "/m.py:f"), ("GET /y", "/m.py:g")], v) ∧
    (routerOf (guarded []).routers "/m.py:f").depends = ["/m.py:check"] ∧
    ((analyse (guarded []) (.number 1) (.str "u")).after growing).log = v.log ++
      [.called (.str "/m.py:g") (.str "/m.py:check") (.number 1) GraphService.callProperties,
        .queued "knowledgegraph.task.infer_flows"
          [("project_id", .int 1), ("directory", .str "/p"), ("user_id", .str "u")]] := by
  have hanswer : (detect (guarded []) (.number 1)).answer growing =
      .ok [("GET /x", "/m.py:f"), ("POST /x", "/m.py:f"), ("GET /y", "/m.py:g")] := by
    rw [detect_eq (guarded []) ⟨"/p", [], []⟩ rfl rfl]
    exact detect_growing
  have hlast : [("GET /x", "/m.py:f"), ("POST /x", "/m.py:f"), ("GET /y", "/m.py:g")].getLast? =
      some ("GET /y", "/m.py:g") := rfl
  have hdetect := ends_of_answer hanswer
  have hkeeps : Keeps World.tracing (detect (guarded []) (.number 1)) :=
    (madeOf_detect (guarded [])).keeps fun _ _ hstep => hstep.keeps_part fun _ => rfl
  have htracing := hkeeps.of_ends hdetect
  refine ⟨_, hdetect, rfl, ?_⟩
  rw [Run.after, ends_analyse (c := .number 1) rfl (by decide) rfl (by decide) rfl hdetect hlast
    (.str "u")]
  simp only [handedOn, sent, htracing, List.append_assoc]
  rfl

end Entry
end CodeAtlas
