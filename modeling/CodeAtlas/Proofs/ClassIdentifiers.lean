import CodeAtlas.Proofs.CallRequests
import Mathlib.Data.List.Chain
import Mathlib.Data.List.TakeWhile

/-!
# The names of classes in nodes and edges

The node of a class is named by its path with the project's folder taken out, an edge by what
follows the leftmost folder `projects` of the path. The two are the same for a project whose
directory holds no such folder further up, and only then.

* `Text.remove_append_iff`: when taking out a folder leaves what stands below it;
* `ProjectPath.search?_passed`, `ProjectPath.search?_not_passed`: what the search finds in a path;
* `ProjectPath.afterProject?_iff`, `ProjectPath.classId_eq_iff`: when the two names agree;
* `ProjectPath.class_ids_agree_iff`: the names of classes in nodes and edges;
* `ProjectPath.pets_apart`: below another folder `projects` an edge is lost.
-/
namespace CodeAtlas

/-! ## Taking out a text that may occur again -/

namespace Chars
variable {p : List Char}

theorem length_pieces_le (p s : List Char) : (pieces p s).flatten.length ≤ s.length := by
  fun_induction pieces p s with
  | case1 s hcut => simp
  | case2 s a b hcut hlt ih =>
    rw [eq_append_of_cut? hcut]
    simp only [List.flatten_cons, List.length_append]
    omega
  | case3 s a b hcut hge => simp

/-- What is left is shorter if the text occurs. -/
theorem length_pieces_lt (hp : p ≠ []) {s : List Char} (h : contains p s = true) :
    (pieces p s).flatten.length < s.length := by
  have hpos := List.length_pos_iff.2 hp
  obtain ⟨⟨a, b⟩, hcut⟩ := Option.isSome_iff_exists.1 h
  have hs := eq_append_of_cut? hcut
  have hlt : b.length < s.length := by
    rw [hs]
    simp only [List.length_append]
    omega
  have hle := length_pieces_le p b
  rw [pieces, hcut]
  simp only [hlt, if_true, List.flatten_cons, List.length_append]
  rw [hs]
  simp only [List.length_append]
  omega

theorem swap_nil_append (hp : p ≠ []) (s : List Char) :
    swap p [] (p ++ s) = (pieces p s).flatten := by
  rw [swap_nil hp, pieces_of_cut? hp (cut?_append p s)]
  rfl

end Chars

namespace Text
variable {p : String}

theorem length_remove_append_le (hp : p ≠ "") (s : String) :
    (remove p (p ++ s)).length ≤ s.length := by
  have hne : p.toList ≠ [] := by simpa using hp
  have hle := Chars.length_pieces_le p.toList s.toList
  rw [remove, swap, String.toList_append, String.toList_empty, Chars.swap_nil_append hne,
    String.length_ofList, ← String.length_toList]
  exact hle

/-- Taking a text out gives what follows it exactly if it does not occur there. -/
theorem remove_append_iff (hp : p ≠ "") {s : String} :
    remove p (p ++ s) = s ↔ contains p s = false := by
  have hne : p.toList ≠ [] := by simpa using hp
  constructor
  · intro h
    rw [Bool.eq_false_iff]
    intro hcontains
    have hlt := Chars.length_pieces_lt hne hcontains
    rw [remove, swap, String.toList_append, String.toList_empty, Chars.swap_nil_append hne] at h
    have hlength := congrArg String.length h
    rw [String.length_ofList, ← String.length_toList] at hlength
    omega
  · intro h
    rw [remove, swap, String.toList_append, String.toList_empty, Chars.swap_append hne h,
      String.ofList_toList]

end Text

namespace ProjectPath

/-! ## The leftmost folder of a project -/

section
variable {p q l : List Char}

/-- A part ends at the next slash. -/
theorem part_inj {m : List Char} (hp : '/' ∉ p) (hq : '/' ∉ q)
    (hl : l.head? = some '/') (hm : m.head? = some '/') (h : p ++ l = q ++ m) : p = q ∧ l = m := by
  have htake {a k : List Char} (ha : '/' ∉ a) (hk : k.head? = some '/') :
      (a ++ k).takeWhile (· != '/') = a := by
    obtain ⟨rest, rfl⟩ := List.head?_eq_some_iff.1 hk
    have hall : ∀ c ∈ a, (c != '/') = true := fun c hc => by
      simpa using fun he : c = '/' => ha (he ▸ hc)
    simp [List.takeWhile_append_of_pos hall]
  have hpq : p = q := by rw [← htake hp hl, h, htake hq hm]
  exact ⟨hpq, List.append_cancel_left (hpq ▸ h)⟩

/-- A place that does not begin with a slash is none. -/
theorem fromHere?_cons {c : Char} (h : c ≠ '/') (s : List Char) : fromHere? (c :: s) = none := by
  unfold fromHere?
  have hafter : Chars.after? "/projects/".toList (c :: s) = none := by
    simp [Chars.after?, Ne.symm h]
  rw [hafter]

/-- A part with another name is not the folder of the projects. -/
theorem fromHere?_of_ne (hp : '/' ∉ p) (hne : p ≠ "projects".toList) (hl : l.head? = some '/') :
    fromHere? ('/' :: p ++ l) = none := by
  unfold fromHere?
  cases hafter : Chars.after? "/projects/".toList ('/' :: p ++ l) with
  | none => rfl
  | some rest =>
    have heq : p ++ l = "projects".toList ++ ('/' :: rest) := by
      simpa using Chars.after?_eq_some.1 hafter
    exact absurd (part_inj hp (by decide) hl rfl heq).1 hne

/-- In the folder of the projects, what follows a project is taken up to the end of the line. -/
theorem fromHere?_projects (hq : '/' ∉ q) (hl : l.head? = some '/') :
    fromHere? ("/projects/".toList ++ q ++ l) =
      if q = [] then none else some (l.takeWhile (· != '\n')) := by
  have hafter : Chars.after? "/projects/".toList ("/projects/".toList ++ q ++ l) = some (q ++ l) :=
    Chars.after?_eq_some.2 (List.append_assoc _ _ _)
  obtain ⟨rest, rfl⟩ : ∃ rest, l = '/' :: rest := List.head?_eq_some_iff.1 hl
  have hall : ∀ c ∈ q, (c != '/') = true := fun c hc => by
    simpa using fun he : c = '/' => hq (he ▸ hc)
  unfold fromHere?
  rw [hafter]
  simp only [List.takeWhile_append_of_pos hall, List.dropWhile_append_of_pos hall]
  by_cases hne : q = []
  · simp [hne]
  · simp [hne]

theorem search?_skip (hp : '/' ∉ p) (l : List Char) : search? (p ++ l) = search? l := by
  induction p with
  | nil => rfl
  | cons c p ih =>
    rw [List.mem_cons, not_or] at hp
    rw [List.cons_append, search?, fromHere?_cons (Ne.symm hp.1)]
    exact ih hp.2

/-- A part at which no project begins is passed over. -/
theorem search?_part (hp : '/' ∉ p) (h : fromHere? ('/' :: p ++ l) = none) :
    search? ('/' :: p ++ l) = search? l := by
  rw [List.cons_append] at h ⊢
  rw [search?, h]
  exact search?_skip hp l

theorem search?_here {r : List Char} (h : fromHere? ('/' :: p ++ l) = some r) :
    search? ('/' :: p ++ l) = some r := by
  rw [List.cons_append] at h ⊢
  rw [search?, h]

end

/-- The parts of a path as they are written, each after a slash. -/
def texts (ps : List String) : List Char := ps.flatMap fun p => '/' :: p.toList

theorem texts_cons (p : String) (ps : List String) :
    texts (p :: ps) = '/' :: p.toList ++ texts ps := rfl

theorem head?_texts {below : List Char} (h : below.head? = some '/') (ps : List String) :
    (texts ps ++ below).head? = some '/' := by
  cases ps with
  | nil => exact h
  | cons p ps => rfl

theorem toList_of_fields {s w : String} {ps : List String} (h : Text.fields '/' s = w :: ps) :
    s.toList = w.toList ++ texts ps := by
  rw [← Path.intercalate_fields s, h, String.toList_intercalate]
  clear h
  induction ps generalizing w with
  | nil => simp [texts]
  | cons p ps ih =>
    have := ih (w := p)
    simp_all [texts_cons, List.intercalate]

/-- A project begins at a part that is called `projects` and is followed by a part with a name. -/
theorem fromHere?_texts {p q : String} {qs : List String} {below : List Char}
    (hp : '/' ∉ p.toList) (hq : '/' ∉ q.toList) (hbelow : below.head? = some '/') :
    fromHere? (texts (p :: q :: qs) ++ below) =
      if p = "projects" ∧ q ≠ "" then some ((texts qs ++ below).takeWhile (· != '\n'))
      else none := by
  by_cases hpp : p = "projects"
  · subst hpp
    have hshape : texts ("projects" :: q :: qs) ++ below =
        "/projects/".toList ++ q.toList ++ (texts qs ++ below) := by
      simp [texts]
    rw [hshape, fromHere?_projects hq (head?_texts hbelow qs)]
    by_cases hqe : q = "" <;> simp [hqe]
  · have hne : p.toList ≠ "projects".toList := fun h => hpp (String.toList_inj.1 h)
    rw [texts_cons, List.append_assoc, fromHere?_of_ne hp hne (head?_texts hbelow (q :: qs)),
      if_neg fun h => hpp h.1]

theorem takeWhile_line {l : List Char} (h : '\n' ∉ l) : l.takeWhile (· != '\n') = l := by
  have hall : ∀ c ∈ l, (c != '\n') = true := fun c hc => by
    simpa using fun he : c = '\n' => h (he ▸ hc)
  exact List.takeWhile_eq_self_iff.2 hall

/-- A part after which a project could begin leads to it, or to what stands further on. -/
theorem search?_texts {p q : String} {qs : List String} {below : List Char}
    (hp : '/' ∉ p.toList) (hq : '/' ∉ q.toList) (hbelow : below.head? = some '/') :
    search? (texts (p :: q :: qs) ++ below) =
      if p = "projects" ∧ q ≠ "" then some ((texts qs ++ below).takeWhile (· != '\n'))
      else search? (texts (q :: qs) ++ below) := by
  have hfrom := @fromHere?_texts p q qs below hp hq hbelow
  rw [texts_cons, List.append_assoc] at hfrom ⊢
  split
  · next h => exact search?_here (hfrom.trans (if_pos h))
  · next h => exact search?_part hp (hfrom.trans (if_neg h))

/-- A part is not taken for the folder of the projects if it has another name, or if the next part
has none. -/
def Passed (p q : String) : Prop := p = "projects" → q = ""

instance (p q : String) : Decidable (Passed p q) :=
  inferInstanceAs (Decidable (p = "projects" → q = ""))

/-- Where no part above the folder of the projects is taken for it, the search finds what stands
below the project. -/
theorem search?_passed {ps : List String} {name : String} {below : List Char}
    (hps : ∀ p ∈ ps, '/' ∉ p.toList) (hname : name ≠ "") (hslash : '/' ∉ name.toList)
    (hbelow : below.head? = some '/') (hline : '\n' ∉ below)
    (hchain : (ps ++ ["projects"]).IsChain Passed) :
    search? (texts (ps ++ ["projects", name]) ++ below) = some below := by
  have hpp : '/' ∉ "projects".toList := by decide
  induction ps with
  | nil =>
    rw [List.nil_append, search?_texts hpp hslash hbelow, if_pos ⟨rfl, hname⟩]
    exact congrArg some (takeWhile_line hline)
  | cons p ps ih =>
    rw [List.forall_mem_cons] at hps
    cases ps with
    | nil =>
      have hpassed : Passed p "projects" := by simpa using hchain
      rw [List.cons_append, List.nil_append, search?_texts hps.1 hpp hbelow,
        if_neg fun h => h.2 (hpassed h.1)]
      exact ih hps.2 (by simp)
    | cons q ps =>
      simp only [List.cons_append, List.isChain_cons_cons] at hchain ih ⊢
      rw [search?_texts hps.1 (hps.2 q List.mem_cons_self) hbelow,
        if_neg fun h => h.2 (hchain.1 h.1)]
      exact ih hps.2 hchain.2

theorem not_mem_texts {c : Char} {p : String} {ps : List String} {below : List Char}
    (h : c ∉ texts (p :: ps) ++ below) : c ∉ texts ps ++ below := fun hmem => h (by
  rw [texts_cons, List.append_assoc]
  exact List.mem_append_right _ hmem)

/-- At a part that is taken for the folder of the projects, more is found than what stands below the
project. -/
theorem search?_taken {p q : String} {qs : List String} {below : List Char} (hp : '/' ∉ p.toList)
    (hq : '/' ∉ q.toList) (hbelow : below.head? = some '/')
    (hline : '\n' ∉ texts (p :: q :: qs) ++ below) (htaken : ¬ Passed p q) (hqs : qs ≠ []) :
    ∃ t, search? (texts (p :: q :: qs) ++ below) = some t ∧ below.length < t.length := by
  unfold Passed at htaken
  rw [Classical.not_imp] at htaken
  refine ⟨texts qs ++ below, ?_, ?_⟩
  · rw [search?_texts hp hq hbelow, if_pos htaken,
      takeWhile_line (not_mem_texts (not_mem_texts hline))]
  · obtain ⟨r, rs, rfl⟩ := List.exists_cons_of_ne_nil hqs
    simp only [texts_cons, List.length_append, List.length_cons]
    omega

/-- Otherwise it finds more than what stands below the project. -/
theorem search?_not_passed {ps : List String} {name : String} {below : List Char}
    (hps : ∀ p ∈ ps, '/' ∉ p.toList) (hbelow : below.head? = some '/')
    (hline : '\n' ∉ texts (ps ++ ["projects", name]) ++ below)
    (hchain : ¬ (ps ++ ["projects"]).IsChain Passed) :
    ∃ t, search? (texts (ps ++ ["projects", name]) ++ below) = some t ∧
      below.length < t.length := by
  have hpp : '/' ∉ "projects".toList := by decide
  induction ps with
  | nil => simp at hchain
  | cons p ps ih =>
    rw [List.forall_mem_cons] at hps
    cases ps with
    | nil => exact search?_taken hps.1 hpp hbelow hline (by simpa using hchain) (by simp)
    | cons q ps =>
      simp only [List.cons_append, List.isChain_cons_cons] at hchain hline ih ⊢
      have hq := hps.2 q List.mem_cons_self
      by_cases hpassed : Passed p q
      · rw [search?_texts hps.1 hq hbelow, if_neg fun h => h.2 (hpassed h.1)]
        exact ih hps.2 (not_mem_texts hline) fun h => hchain ⟨hpassed, h⟩
      · exact search?_taken hps.1 hq hbelow hline hpassed (by simp)

/-! ## The part of a path below a project -/

def folder (home name : String) : String := home ++ "/projects/" ++ name

/-- No part of a directory is taken for the folder of the projects. -/
def Sheltered (home : String) : Prop :=
  ((Text.fields '/' home).tail ++ ["projects"]).IsChain Passed

/-- In a directory whose parts have names, this means that none of them is called `projects`. -/
theorem sheltered_iff {home : String} (h : ∀ p ∈ (Text.fields '/' home).tail, p ≠ "") :
    Sheltered home ↔ "projects" ∉ (Text.fields '/' home).tail := by
  unfold Sheltered
  generalize (Text.fields '/' home).tail = ps at h
  induction ps with
  | nil => simp
  | cons p ps ih =>
    rw [List.forall_mem_cons] at h
    have hstep : ((p :: ps) ++ ["projects"]).IsChain Passed ↔
        p ≠ "projects" ∧ (ps ++ ["projects"]).IsChain Passed := by
      cases ps with
      | nil => simp [Passed]
      | cons q ps =>
        have hq : q ≠ "" := h.2 q List.mem_cons_self
        simp [Passed, hq]
    rw [hstep, ih h.2, List.mem_cons, not_or, ne_comm]

/-- What can stand below a project. -/
structure Inside (below : String) : Prop where
  slash : below.toList.head? = some '/'
  line : '\n' ∉ below.toList

section
variable {home name below : String}

theorem exists_toList (home name below : String) : ∃ first, '/' ∉ first ∧
    (folder home name ++ below).toList =
      first ++ (texts ((Text.fields '/' home).tail ++ ["projects", name]) ++ below.toList) := by
  obtain ⟨ps, hfields⟩ := List.head?_eq_some_iff.1 (Text.head?_fields '/' home)
  refine ⟨_, Text.not_mem_of_mem_fields (hfields ▸ List.mem_cons_self), ?_⟩
  simp [folder, toList_of_fields hfields, hfields, texts]

theorem slash_not_mem_tail : ∀ p ∈ (Text.fields '/' home).tail, '/' ∉ p.toList := fun _ hp =>
  Text.not_mem_of_mem_fields (List.mem_of_mem_tail hp)

theorem afterProject?_sheltered (hname : name ≠ "") (hslash : '/' ∉ name.toList)
    (hbelow : Inside below) (h : Sheltered home) :
    afterProject? (folder home name ++ below) = some below := by
  obtain ⟨first, hfirst, htext⟩ := exists_toList home name below
  have hsearch := search?_passed slash_not_mem_tail hname hslash hbelow.slash hbelow.line h
  rw [afterProject?, htext, search?_skip hfirst, hsearch, Option.map_some, String.ofList_toList]

/-- Otherwise the path is cut too early. -/
theorem afterProject?_not_sheltered (hline : '\n' ∉ (folder home name).toList)
    (hbelow : Inside below) (h : ¬ Sheltered home) :
    ∃ t, afterProject? (folder home name ++ below) = some t ∧ below.length < t.length := by
  obtain ⟨first, hfirst, htext⟩ := exists_toList home name below
  have hlines : '\n' ∉ first ++ (texts ((Text.fields '/' home).tail ++ ["projects", name]) ++
      below.toList) := by
    rw [← htext, String.toList_append]
    exact fun hmem => (List.mem_append.1 hmem).elim hline hbelow.line
  obtain ⟨t, ht, hlength⟩ := search?_not_passed slash_not_mem_tail hbelow.slash
    (fun hmem => hlines (List.mem_append_right _ hmem)) h
  refine ⟨String.ofList t, ?_, ?_⟩
  · rw [afterProject?, htext, search?_skip hfirst, ht, Option.map_some]
  · rw [String.length_ofList, ← String.length_toList]
    exact hlength

theorem afterProject?_iff (hname : name ≠ "") (hslash : '/' ∉ name.toList)
    (hline : '\n' ∉ (folder home name).toList) (hbelow : Inside below) :
    afterProject? (folder home name ++ below) = some below ↔ Sheltered home := by
  refine ⟨fun h => ?_, afterProject?_sheltered hname hslash hbelow⟩
  by_contra hnot
  obtain ⟨t, ht, hlength⟩ := afterProject?_not_sheltered hline hbelow hnot
  cases h.symm.trans ht
  exact Nat.lt_irrefl _ hlength

/-- The two names of a class agree exactly if no part of the directory is taken for the folder of
the projects and the project's folder occurs in the path once. -/
theorem classId_eq_iff (hname : name ≠ "") (hslash : '/' ∉ name.toList)
    (hline : '\n' ∉ (folder home name).toList) (hbelow : Inside below) (text cls : String) :
    Inheritance.classId ⟨folder home name ++ below, text⟩ cls =
        identifier (folder home name) (folder home name ++ below) cls ↔
      Sheltered home ∧ Text.contains (folder home name) below = false := by
  have hne : folder home name ≠ "" := by simp [folder]
  have hcut : Inheritance.classId ⟨folder home name ++ below, text⟩ cls =
        identifier (folder home name) (folder home name ++ below) cls ↔
      (afterProject? (folder home name ++ below)).getD "None" =
        Text.remove (folder home name) (folder home name ++ below) := by
    simp [Inheritance.classId, identifier, String.append_left_inj]
  rw [hcut, ← Text.remove_append_iff hne]
  constructor
  · intro heq
    by_cases hsheltered : Sheltered home
    · rw [afterProject?_sheltered hname hslash hbelow hsheltered] at heq
      exact ⟨hsheltered, heq.symm⟩
    · obtain ⟨t, ht, hlength⟩ := afterProject?_not_sheltered hline hbelow hsheltered
      have hle := Text.length_remove_append_le hne below
      rw [ht, Option.getD_some] at heq
      rw [← heq] at hle
      omega
  · rintro ⟨hsheltered, honce⟩
    rw [afterProject?_sheltered hname hslash hbelow hsheltered, honce, Option.getD_some]

end
end ProjectPath

/-! ## The edges between classes -/

namespace Inheritance

theorem Joins.congr {id id' : ClassText → String → String} {models : ModelTable} {p : ProjectKey}
    (h : ∀ m ∈ models, id m.2 m.1 = id' m.2 m.1) {c : GraphCommand} (hc : Joins id models p c) :
    Joins id' models p c := by
  obtain ⟨base, hbase, derived, hderived, rfl⟩ := hc
  exact ⟨base, hbase, derived, hderived, by rw [h base hbase, h derived hderived]⟩

end Inheritance

namespace ProjectPath
open GraphCommand

def nodeId (directory : String) (c : ClassText) (name : String) : String :=
  identifier directory c.file name

/-- For a project in a folder of its own: the path below it is found exactly if no part of the
directory above is taken for the folder of the projects; taking the project's folder out gives that
path exactly if it does not occur there again; and the node of a class has the name that the edges
use exactly if both is so. Then edges are asked for between nodes of classes only. -/
theorem class_ids_agree_iff {home name : String} (hname : name ≠ "") (hslash : '/' ∉ name.toList)
    (hline : '\n' ∉ (folder home name).toList) (p : ProjectKey) :
    (∀ below, Inside below →
      (afterProject? (folder home name ++ below) = some below ↔ Sheltered home) ∧
      (Text.remove (folder home name) (folder home name ++ below) = below ↔
        Text.contains (folder home name) below = false) ∧
      ∀ (text : String) (c : ClassFound),
        Analysis.command? (folder home name) (folder home name ++ below) p (.class c) =
            some (.upsert (.str (Inheritance.classId ⟨folder home name ++ below, text⟩ c.name)) p
              (Analysis.classProperties (folder home name ++ below) c)) ↔
          Sheltered home ∧ Text.contains (folder home name) below = false) ∧
    (Sheltered home → ∀ models : ModelTable,
      (∀ m ∈ models, ∃ below, Inside below ∧ Text.contains (folder home name) below = false ∧
        m.2.file = folder home name ++ below) →
      Sends (Inheritance.Joins (nodeId (folder home name)) models p)
        (Inheritance.connectAll models p)) := by
  refine ⟨fun below hbelow => ⟨afterProject?_iff hname hslash hline hbelow,
    Text.remove_append_iff (by simp [folder]), fun text c => ?_⟩,
    fun hsheltered models hmodels => ?_⟩
  · rw [← classId_eq_iff hname hslash hline hbelow text c.name, eq_comm]
    simp [Analysis.command?]
  · refine (Inheritance.joins_connectAll models p).imp fun c => Inheritance.Joins.congr ?_
    rintro ⟨name', file, text⟩ hm
    obtain ⟨below, hbelow, honce, rfl⟩ := hmodels _ hm
    exact (classId_eq_iff hname hslash hline hbelow text name').2 ⟨hsheltered, honce⟩

/-- Two data models, one derived from the other. -/
def petModels (directory : String) : ModelTable :=
  [("Pet", ⟨directory ++ "/m.py", "class Pet(BaseModel): pass"⟩),
   ("Dog", ⟨directory ++ "/n/o.py", "class Dog(Pet): pass"⟩)]

/-- The edges in the graph after the two classes were recorded and connected. -/
def petEdges (directory : String) : List (Json × Json) :=
  let run : Run Unit := do
    Analysis.recordFinding directory (directory ++ "/m.py") (.number 1)
      (.class ⟨"Pet", .mk "class_definition" 0 26 [], 0, 0⟩)
    Analysis.recordFinding directory (directory ++ "/n/o.py") (.number 1)
      (.class ⟨"Dog", .mk "class_definition" 0 20 [], 0, 0⟩)
    Inheritance.connectAll (petModels directory) (.number 1)
  (run.after .vacant).graph.extensions.map fun e => (e.derived.id, e.base.id)

/-- In a directory without another folder `projects` the two are connected. -/
theorem pets_joined :
    afterProject? "/srv/app/projects/demo-main-u/n/o.py" = some "/n/o.py" ∧
    Text.remove "/srv/app/projects/demo-main-u" "/srv/app/projects/demo-main-u/n/o.py" = "/n/o.py" ∧
    Sends (Inheritance.Joins (nodeId "/srv/app/projects/demo-main-u")
        (petModels "/srv/app/projects/demo-main-u") (.number 1))
      (Inheritance.connectAll (petModels "/srv/app/projects/demo-main-u") (.number 1)) ∧
    petEdges "/srv/app/projects/demo-main-u" = [(.str "/n/o.py:Dog", .str "/m.py:Pet")] := by
  have hsheltered : Sheltered "/srv/app" :=
    (sheltered_iff (by decide +kernel)).2 (by decide +kernel)
  have hagree := @class_ids_agree_iff "/srv/app" "demo-main-u" (by decide) (by decide)
    (by decide +kernel) (.number 1)
  have honce : Text.contains (folder "/srv/app" "demo-main-u") "/n/o.py" = false := by
    decide +kernel
  obtain ⟨hafter, hremove, -⟩ := hagree.1 "/n/o.py" ⟨by decide, by decide⟩
  refine ⟨hafter.2 hsheltered, hremove.2 honce, hagree.2 hsheltered _ ?_, by decide +kernel⟩
  intro m hm
  simp only [petModels, List.mem_cons, List.not_mem_nil, or_false] at hm
  obtain rfl | rfl := hm
  · exact ⟨"/m.py", ⟨by decide, by decide⟩, by decide +kernel, by decide +kernel⟩
  · exact ⟨"/n/o.py", ⟨by decide, by decide⟩, honce, by decide +kernel⟩

/-- Below another folder `projects` the edge is lost: it is asked for between names that no node
has. -/
theorem pets_apart :
    afterProject? "/srv/projects/app/projects/demo-main-u/n/o.py" =
      some "/projects/demo-main-u/n/o.py" ∧
    Text.remove "/srv/projects/app/projects/demo-main-u"
      "/srv/projects/app/projects/demo-main-u/n/o.py" = "/n/o.py" ∧
    petEdges "/srv/projects/app/projects/demo-main-u" = [] := by
  decide +kernel

end ProjectPath
end CodeAtlas
