import CodeAtlas.Proofs.ClassIdentifiers
import CodeAtlas.Proofs.ModelChains

/-!
# The edges between data models

The bases of a data model are cut out of its text, and each is looked up among the data models that
were found in the trees. Following the bases adds no edge but those of the classes above, which are
asked for in their own right, so that neither a cycle nor the limit of three steps matters.

* `Inheritance.cites_iff`: what is cut out of a text are the names that it cites;
* `Inheritance.asks_connect`: what one class asks for, however far it is followed;
* `Inheritance.connected_exactly`: all classes together get the edges to their bases, each once;
* `Inheritance.ends_connectAll_iff`: this ends well exactly if the bases are data models;
* `ModelSearch.connected_iff`: what that means for the data models that the search finds;
* `ModelSearch.hound_fails`: a class with `BaseModel` and another base is found, and fails.
-/
namespace CodeAtlas

namespace Inheritance
open GraphCommand

/-! ## The bases that a text cites -/

def plain (c : Char) : Bool := c != '(' && c != ')'

/-- The text between the first opening parenthesis and the next parenthesis, or the end. -/
def Encloses (text inner : String) : Prop :=
  ∃ lead tail, text.toList = lead ++ '(' :: (inner.toList ++ tail) ∧ '(' ∉ lead ∧
    (∀ c ∈ inner.toList, plain c = true) ∧ ∀ c ∈ tail.head?, plain c = false

/-- The names of bases in a text: they are separated by commas, and blanks around them do not
count. -/
def Cites (text : String) (names : List String) : Prop :=
  ∃ inner, Encloses text inner ∧ names = (Text.fields ',' inner).map Text.trim

theorem toList_before_before (s : String) :
    (Text.before ')' (Text.before '(' s)).toList = s.toList.takeWhile plain := by
  simp only [Text.before, String.toList_ofList, List.takeWhile_takeWhile]
  congr 1
  funext c
  rw [Bool.eq_iff_iff]
  simp [plain, and_comm]

/-- What is enclosed stands in front of the first parenthesis of what follows the opening one. -/
theorem encloses_iff {text inner : String} : Encloses text inner ↔
    ∃ lead rest, Text.cut? "(" text = some (lead, rest) ∧
      inner = Text.before ')' (Text.before '(' rest) := by
  have hparen : "(".toList = ['('] := rfl
  simp only [Text.cut?_single hparen, ← String.toList_inj, toList_before_before]
  constructor
  · rintro ⟨lead, tail, htext, hlead, hinner, hstop⟩
    refine ⟨String.ofList lead, String.ofList (inner.toList ++ tail), by simp [htext, hlead], ?_⟩
    rw [String.toList_ofList, List.takeWhile_append_of_pos hinner]
    cases tail with
    | nil => simp
    | cons c tail => rw [List.takeWhile_cons_of_neg (by simp [hstop c rfl]), List.append_nil]
  · rintro ⟨lead, rest, ⟨htext, hlead⟩, hinner⟩
    refine ⟨lead.toList, rest.toList.dropWhile plain, ?_, hlead, fun c hc => ?_, fun c hc => ?_⟩
    · rw [hinner, List.takeWhile_append_dropWhile, htext]
    · rw [hinner] at hc
      exact List.mem_takeWhile_imp hc
    · have hstop := List.head?_dropWhile_not plain rest.toList
      rwa [Option.mem_def.1 hc] at hstop

theorem baseList_eq_ok {text bases : String} :
    baseList text = .ok bases ↔ ∃ inner, Encloses text inner ∧ bases = Text.trim inner := by
  simp only [encloses_iff]
  unfold baseList
  cases hcut : Text.cut? "(" text with
  | none => simp
  | some parts =>
    obtain ⟨lead, rest⟩ := parts
    simp [eq_comm]

theorem baseNames_trim (inner : String) : baseNames (Text.trim inner) = baseNames inner := by
  have hparts := congrArg (List.map String.ofList)
    (Chars.trimmed_parts_trimBy (f := Text.isBlank) (c := ',') (by decide) inner.toList)
  simpa [baseNames, Text.fields, Text.trim, Text.trimBy, Function.comp_def] using hparts

/-- A single base is all that is enclosed. -/
theorem trim_eq_iff {inner name : String} (hname : baseNames name = [name]) :
    Text.trim inner = name ↔ baseNames inner = [name] := by
  constructor
  · intro h
    rw [← baseNames_trim, h, hname]
  · intro h
    -- a single name means that there is no comma at which the text was cut
    have hlength := congrArg List.length h
    simp only [baseNames, List.length_map, Text.length_fields, List.length_singleton,
      Nat.add_eq_right, List.count_eq_zero] at hlength
    simpa [baseNames, Text.fields, Text.splitOn_of_not_mem hlength] using h

theorem cites_iff {text : String} {names : List String} :
    Cites text names ↔ ∃ bases, baseList text = .ok bases ∧ baseNames bases = names := by
  simp only [baseList_eq_ok]
  constructor
  · rintro ⟨inner, hinner, rfl⟩
    exact ⟨_, ⟨inner, hinner, rfl⟩, baseNames_trim inner⟩
  · rintro ⟨bases, ⟨inner, hinner, rfl⟩, rfl⟩
    exact ⟨inner, hinner, baseNames_trim inner⟩

theorem Cites.unique {text : String} {names names' : List String} (h : Cites text names)
    (h' : Cites text names') : names = names' := by
  obtain ⟨bases, hbases, rfl⟩ := cites_iff.1 h
  obtain ⟨bases', hbases', rfl⟩ := cites_iff.1 h'
  cases hbases.symm.trans hbases'
  rfl

instance (text : String) (names : List String) : Decidable (Cites text names) :=
  decidable_of_iff ((baseList text).toOption.map baseNames = some names) (by
    rw [cites_iff]
    cases baseList text <;> simp [Except.toOption])

/-! ## One class -/

section
variable {models : ModelTable} {p : ProjectKey} {name : String} {c : ClassText}

theorem lookup_eq_ok : lookup models name = .ok c ↔ Table.get? models name = some c := by
  unfold lookup
  cases Table.get? models name <;> simp

def follow (models : ModelTable) (p : ProjectKey) (steps : Nat) (c : ClassText)
    (name base : String) : Run Unit := do
  let b ← lookup models base
  GraphService.extend (.str (classId b base)) (.str (classId c name)) p
  let _ ← connect models p steps base

theorem connect_cited {names : List String} (hget : Table.get? models name = some c)
    (hname : name ≠ "BaseModel") (hcites : Cites c.text names) (steps : Nat) :
    connect models p (steps + 1) name =
      if names = ["BaseModel"] then pure (some c.text)
      else (do names.forM (follow models p steps c name); pure none) := by
  obtain ⟨inner, hinner, rfl⟩ := hcites
  have hbases : baseList c.text = .ok (Text.trim inner) := baseList_eq_ok.2 ⟨inner, hinner, rfl⟩
  have halone : Text.trim inner = "BaseModel" ↔ baseNames inner = ["BaseModel"] :=
    trim_eq_iff (by decide)
  rw [connect, lookup_eq_ok.2 hget, Run.lift_ok_bind, if_neg (by simpa using hname), hbases,
    Run.lift_ok_bind, baseNames_trim]
  simp only [beq_iff_eq, halone]
  rfl

def Resolved (models : ModelTable) (c : ClassText) : Prop :=
  ∃ names, Cites c.text names ∧
    (names = ["BaseModel"] ∨ ∀ base ∈ names, base ∈ Table.keys models)

theorem resolved_iff : Resolved models c ↔ ∃ bases ∈ (baseList c.text).toOption,
    baseNames bases = ["BaseModel"] ∨ ∀ base ∈ baseNames bases, base ∈ Table.keys models := by
  unfold Resolved
  simp only [cites_iff]
  cases baseList c.text <;> simp [Except.toOption]

instance (models : ModelTable) (c : ClassText) : Decidable (Resolved models c) :=
  decidable_of_iff _ resolved_iff.symm

theorem resolved_of_ends {steps : Nat} {w v : World} {x : Option String}
    (h : (connect models p (steps + 1) name).ends w = (.ok x, v))
    (hget : Table.get? models name = some c) (hname : name ≠ "BaseModel") :
    Resolved models c := by
  have hcites : ∃ names, Cites c.text names := by
    rw [connect, lookup_eq_ok.2 hget, Run.lift_ok_bind, if_neg (by simpa using hname)] at h
    obtain ⟨bases, u, hbases, -⟩ := Run.ends_bind_eq_ok h
    exact ⟨_, cites_iff.2 ⟨bases, (Prod.mk.inj hbases).1, rfl⟩⟩
  obtain ⟨names, hcites⟩ := hcites
  -- each base was looked up, and the first one that is no data model would have been a failure
  refine ⟨names, hcites, Decidable.or_iff_not_imp_left.2 fun hne base hbase => ?_⟩
  rw [connect_cited hget hname hcites, if_neg hne] at h
  obtain ⟨_, u, hnames, -⟩ := Run.ends_bind_eq_ok h
  obtain ⟨u', x', hfollow⟩ := Run.exists_of_forM hnames base hbase
  obtain ⟨b, _, hb, -⟩ := Run.ends_bind_eq_ok hfollow
  exact Table.mem_keys_iff.2 ⟨b, lookup_eq_ok.1 (Prod.mk.inj hb).1⟩

/-- Every data model can be connected; a class that is called `BaseModel` is left alone. -/
def Closed (models : ModelTable) : Prop :=
  ∀ name c, Table.get? models name = some c → name = "BaseModel" ∨ Resolved models c

instance (models : ModelTable) : Decidable (Closed models) :=
  decidable_of_iff (∀ m ∈ models, Table.get? models m.1 = some m.2 →
      m.1 = "BaseModel" ∨ Resolved models m.2)
    ⟨fun h name c hget => h (name, c) (Table.mem_of_get? hget) hget, fun h m _ => h m.1 m.2⟩

/-- A class called `a` has a base called `b`. A class with no base but `BaseModel` has none in this
sense, nor has a class that is called `BaseModel`. -/
def Extends (models : ModelTable) (a b : String) : Prop :=
  a ≠ "BaseModel" ∧ ∃ c names, Table.get? models a = some c ∧ Cites c.text names ∧
    names ≠ ["BaseModel"] ∧ b ∈ names

theorem extends_iff {names : List String} (hget : Table.get? models name = some c)
    (hname : name ≠ "BaseModel") (hcites : Cites c.text names) {base : String} :
    Extends models name base ↔ names ≠ ["BaseModel"] ∧ base ∈ names := by
  constructor
  · rintro ⟨-, c', names', hget', hcites', hne, hbase⟩
    cases hget.symm.trans hget'
    cases hcites.unique hcites'
    exact ⟨hne, hbase⟩
  · rintro ⟨hne, hbase⟩
    exact ⟨hname, c, names, hget, hcites, hne, hbase⟩

theorem Extends.known {a b : String} (hclosed : Closed models) (h : Extends models a b) :
    a ∈ Table.keys models ∧ b ∈ Table.keys models := by
  obtain ⟨ha, c, -, hget, -⟩ := id h
  obtain ⟨names, hcites, hnames⟩ := (hclosed a c hget).resolve_left ha
  obtain ⟨hne, hb⟩ := (extends_iff hget ha hcites).1 h
  exact ⟨Table.mem_keys_iff.2 ⟨c, hget⟩, hnames.resolve_left hne b hb⟩

/-! ## The edges that are asked for -/

/-- The identifier of the node of a data model. -/
def idOf (models : ModelTable) (name : String) : String :=
  (Table.get? models name).elim "" fun c => classId c name

/-- The command that connects a class with a base, by their names. -/
def link (models : ModelTable) (p : ProjectKey) (e : String × String) : GraphCommand :=
  .extend (.str (idOf models e.2)) (.str (idOf models e.1)) p

/-- A run that ends well and asks for edges of `may`, for those of `must` among them. -/
def Asks {α : Type} (models : ModelTable) (p : ProjectKey) (must may : String × String → Prop)
    (r : Run α) : Prop :=
  ∀ w : World, w.troubles = [] → ∃ a, ∃ es : List (String × String),
    r.ends w = (.ok a, sent w (es.map (link models p))) ∧
      (∀ e, must e → e ∈ es) ∧ ∀ e ∈ es, may e

section
variable {α β : Type} {must must' may : String × String → Prop} {r : Run α}

theorem Asks.pure (a : α) : Asks models p (fun _ => False) may (pure a : Run α) := fun w _ =>
  ⟨a, [], by simp, fun _ h => h.elim, by simp⟩

theorem Asks.imp (h : Asks models p must may r) (hmust : ∀ e, must' e → must e) :
    Asks models p must' may r := by
  intro w hw
  obtain ⟨a, es, hends, hin, hall⟩ := h w hw
  exact ⟨a, es, hends, fun e he => hin e (hmust e he), hall⟩

theorem Asks.bind {f : α → Run β} (hr : Asks models p must may r)
    (hf : ∀ a, Asks models p must' may (f a)) :
    Asks models p (fun e => must e ∨ must' e) may (r >>= f) := by
  intro w hw
  obtain ⟨a, es, hends, hin, hall⟩ := hr w hw
  obtain ⟨b, ds, hends', hin', hall'⟩ := hf a (sent w (es.map (link models p))) hw
  refine ⟨b, es ++ ds, ?_, fun e he => ?_, fun e he => ?_⟩
  · rw [Run.ends_bind_ok f hends, hends', sent_append, List.map_append]
  · exact List.mem_append.2 (he.imp (hin e) (hin' e))
  · exact (List.mem_append.1 he).elim (hall e) (hall' e)

theorem Asks.forM {must : α → String × String → Prop} {f : α → Run Unit} : ∀ {l : List α},
    (∀ a ∈ l, Asks models p (must a) may (f a)) →
      Asks models p (fun e => ∃ a ∈ l, must a e) may (l.forM f)
  | [], _ => (Asks.pure ()).imp fun e he => by simp at he
  | a :: l, h => ((h a List.mem_cons_self).bind fun _ =>
      Asks.forM fun b hb => h b (List.mem_cons_of_mem a hb)).imp fun e he => by simpa using he

end

theorem asks_extend {base : String} {b : ClassText} {may : String × String → Prop}
    (hget : Table.get? models name = some c) (hbase : Table.get? models base = some b)
    (hmay : may (name, base)) :
    Asks models p (· = (name, base)) may
      (GraphService.extend (.str (classId b base)) (.str (classId c name)) p) := by
  intro w hw
  refine ⟨(), [(name, base)], ?_, by simp, by simpa using hmay⟩
  rw [ends_extend hw]
  simp [link, idOf, hget, hbase]

/-- A class asks for the edges to its bases, if it is followed at all, and the classes above ask for
edges to theirs only. -/
theorem asks_connect (hclosed : Closed models) : ∀ steps name, name ∈ Table.keys models →
    Asks models p (fun e => 0 < steps ∧ e.1 = name ∧ Extends models e.1 e.2)
      (fun e => Extends models e.1 e.2) (connect models p steps name)
  | 0, name, hkey => by
    obtain ⟨c, hget⟩ := Table.mem_keys_iff.1 hkey
    rw [connect, lookup_eq_ok.2 hget]
    exact (Asks.pure _).imp fun e he => absurd he.1 (Nat.lt_irrefl 0)
  | steps + 1, name, hkey => by
    obtain ⟨c, hget⟩ := Table.mem_keys_iff.1 hkey
    by_cases hname : name = "BaseModel"
    · rw [connect, lookup_eq_ok.2 hget, Run.lift_ok_bind, if_pos (by simpa using hname)]
      exact (Asks.pure _).imp fun e he => he.2.2.1 (he.2.1.trans hname)
    · obtain ⟨names, hcites, hnames⟩ := (hclosed name c hget).resolve_left hname
      rw [connect_cited hget hname hcites]
      split
      · next halone =>
        refine (Asks.pure _).imp ?_
        rintro ⟨a, base⟩ ⟨-, rfl, he⟩
        exact ((extends_iff hget hname hcites).1 he).1 halone
      · next halone =>
        -- the edge to a base is asked for here; what its own bases ask for is allowed, not needed
        have hfollow : ∀ base ∈ names, Asks models p (· = (name, base))
            (fun e => Extends models e.1 e.2) (follow models p steps c name base) := by
          intro base hbase
          have hknown := hnames.resolve_left halone base hbase
          obtain ⟨b, hb⟩ := Table.mem_keys_iff.1 hknown
          rw [follow, lookup_eq_ok.2 hb, Run.lift_ok_bind]
          have hextends := (extends_iff hget hname hcites).2 ⟨halone, hbase⟩
          exact ((asks_extend hget hb hextends).bind fun _ =>
            (asks_connect hclosed steps base hknown).bind fun _ => Asks.pure ()).imp fun e => Or.inl
        refine ((Asks.forM hfollow).bind fun _ => Asks.pure none).imp ?_
        rintro ⟨a, base⟩ ⟨-, rfl, he⟩
        exact Or.inl ⟨base, ((extends_iff hget hname hcites).1 he).2, rfl⟩

def connectEach (models : ModelTable) (p : ProjectKey) (order : List String) : Run Unit :=
  order.forM fun name => do let _ ← connect models p 3 name

theorem connectAll_eq (models : ModelTable) (p : ProjectKey) :
    connectAll models p = connectEach models p (Table.keys models) := rfl

theorem asks_connectEach (hclosed : Closed models) {order : List String}
    (horder : ∀ name, name ∈ order ↔ name ∈ Table.keys models) :
    Asks models p (fun e => Extends models e.1 e.2) (fun e => Extends models e.1 e.2)
      (connectEach models p order) := by
  refine (Asks.forM fun name hname => (asks_connect hclosed 3 name ((horder name).1 hname)).bind
    fun _ => Asks.pure ()).imp ?_
  rintro ⟨a, b⟩ he
  obtain ⟨-, c, -, hget, -⟩ := id he
  have hkey : a ∈ order := (horder a).2 (Table.mem_keys_iff.2 ⟨c, hget⟩)
  exact ⟨a, hkey, Or.inl ⟨by decide, rfl, he⟩⟩

end

/-! ## The edges that are made -/

section
variable {models : ModelTable} {p : ProjectKey}

/-- The edge between two classes, by their names. -/
def edge (models : ModelTable) (p : ProjectKey) (e : String × String) : ExtendsEdge :=
  ⟨⟨p, .str (idOf models e.1)⟩, ⟨p, .str (idOf models e.2)⟩⟩

theorem effect_link (hp : p.given.checkKey = .ok ()) (e : String × String) (g : Graph) :
    (link models p e).effect g = g.extend p (edge models p e).derived.id (edge models p e).base.id := by
  simp only [link, effect, GraphService.checkKeys, hp]
  rfl

theorem effects_links (hp : p.given.checkKey = .ok ()) {es : List (String × String)} {g : Graph}
    (hnodes : ∀ e ∈ es, g.hasNodes p (edge models p e).derived.id (edge models p e).base.id = true)
    (hold : (g.extensions.map ExtendsEdge.key).Nodup) :
    ∃ new, effects (es.map (link models p)) g = { g with extensions := g.extensions ++ new } ∧
      ((g.extensions ++ new).map ExtendsEdge.key).Nodup ∧ (∀ x ∈ new, ∃ e ∈ es, x = edge models p e) ∧
      ∀ e ∈ es, ∃ x ∈ g.extensions ++ new,
        x.is p (edge models p e).derived.id (edge models p e).base.id = true := by
  induction es generalizing g with
  | nil => exact ⟨[], by simp [effects], by simpa using hold, by simp, by simp⟩
  | cons e es ih =>
    rw [List.forall_mem_cons] at hnodes
    obtain ⟨first, hfirst, honce, honly, hthere⟩ := Graph.extend_eq hnodes.1 hold
    obtain ⟨rest, hrest, honce', honly', hthere'⟩ :=
      ih (g := { g with extensions := g.extensions ++ first }) hnodes.2 honce
    simp only [List.append_assoc] at hrest honce' hthere'
    refine ⟨first ++ rest, ?_, honce', fun x hx => ?_, fun d hd => ?_⟩
    · rw [← hrest, ← hfirst, ← effect_link hp]
      rfl
    · rcases List.mem_append.1 hx with hx | hx
      · exact ⟨e, List.mem_cons_self, honly x hx⟩
      · obtain ⟨d, hd, rfl⟩ := honly' x hx
        exact ⟨d, List.mem_cons_of_mem e hd, rfl⟩
    · rcases List.mem_cons.1 hd with rfl | hd
      · obtain ⟨x, hx, his⟩ := hthere
        refine ⟨x, ?_, his⟩
        rw [← List.append_assoc]
        exact List.mem_append_left rest hx
      · exact hthere' d hd

/-- **Inheritance edges**: where each data model has no base but `BaseModel`, or only bases that are
data models, connecting them in any order, also around a cycle, ends well. It leaves the edges that
were there and one edge from each class to each of its bases, and changes nothing else but the
log. -/
theorem connected_exactly {w : World} (hw : w.troubles = []) (hp : p.given.checkKey = .ok ())
    (hold : (w.graph.extensions.map ExtendsEdge.key).Nodup) (hclosed : Closed models)
    (hnodes : ∀ name ∈ Table.keys models,
      w.graph.hasNode p (.str (idOf models name)) = true)
    {order : List String} (horder : ∀ name, name ∈ order ↔ name ∈ Table.keys models) :
    ∃ new log, (connectEach models p order).ends w =
        (.ok (), { w with
          graph := { w.graph with extensions := w.graph.extensions ++ new }, log := log }) ∧
      (∀ x ∈ new, x ∉ w.graph.extensions ∧
        ∃ a b, Extends models a b ∧
          x = ⟨⟨p, .str (idOf models a)⟩, ⟨p, .str (idOf models b)⟩⟩) ∧
      ∀ a b, Extends models a b → (w.graph.extensions ++ new).countP
        (·.is p (.str (idOf models a)) (.str (idOf models b))) = 1 := by
  obtain ⟨_, es, hends, hmust, hmay⟩ := asks_connectEach (p := p) hclosed horder w hw
  -- both ends of an edge are data models, and these have nodes
  have hends' : ∀ e ∈ es, w.graph.hasNodes p (edge models p e).derived.id (edge models p e).base.id := by
    intro e he
    obtain ⟨ha, hb⟩ := (hmay e he).known hclosed
    exact Graph.hasNodes_iff.2 ⟨hnodes e.1 ha, hnodes e.2 hb⟩
  obtain ⟨new, hgraph, honce, honly, hthere⟩ := effects_links hp hends' hold
  refine ⟨new, (sent w (es.map (link models p))).log, ?_, fun x hx => ⟨fun hmem => ?_, ?_⟩,
    fun a b hab => ?_⟩
  · rw [hends, ← hgraph]
    rfl
  · rw [List.map_append, List.nodup_append] at honce
    exact honce.2.2 _ (List.mem_map_of_mem hmem) _ (List.mem_map_of_mem hx) rfl
  · obtain ⟨e, he, rfl⟩ := honly x hx
    exact ⟨e.1, e.2, hmay e he, rfl⟩
  · exact Graph.countP_is honce (hthere (a, b) (hmust (a, b) hab))

/-- Two classes that extend each other, and one that extends the first of them and another. -/
def ring : ModelTable :=
  [("A", ⟨"/srv/projects/demo/m.py", "class A(B): pass"⟩),
   ("B", ⟨"/srv/projects/demo/m.py", "class B(A): pass"⟩),
   ("C", ⟨"/srv/projects/demo/n.py", "class C(BaseModel): pass"⟩),
   ("D", ⟨"/srv/projects/demo/n.py", "class D(\n    A,\n    C\n): pass"⟩)]

/-- A graph with the four classes, in which one of the edges is there already. -/
def ringWorld : World :=
  { World.vacant with
    graph :=
      { nodes := ["/m.py:A", "/m.py:B", "/n.py:C", "/n.py:D"].map fun id =>
          Graph.freshNode (.number 1) (.str id)
        calls := []
        extensions := [⟨⟨.number 1, .str "/m.py:A"⟩, ⟨.number 1, .str "/m.py:B"⟩⟩] } }

/-- The cycle is connected, the edge that was there stays the only one, and a base on a line of its
own is found. -/
theorem ring_connected : ∃ new log,
    (connectEach ring (.number 1) ["D", "B", "C", "A"]).ends ringWorld =
      (.ok (), { ringWorld with
        graph := { ringWorld.graph with extensions := ringWorld.graph.extensions ++ new },
        log := log }) ∧
    ∀ e ∈ [("A", "B"), ("B", "A"), ("D", "A"), ("D", "C")],
      (ringWorld.graph.extensions ++ new).countP
        (·.is (.number 1) (.str (idOf ring e.1)) (.str (idOf ring e.2))) = 1 := by
  have hclosed : Closed ring := by decide +kernel
  have hnodes : ∀ name ∈ Table.keys ring,
      ringWorld.graph.hasNode (.number 1) (.str (idOf ring name)) = true := by decide +kernel
  have horder : (["D", "B", "C", "A"] : List String).Perm (Table.keys ring) := by decide
  obtain ⟨new, log, hends, -, hcount⟩ := connected_exactly rfl rfl (by decide) hclosed hnodes
    fun _ => horder.mem_iff
  refine ⟨new, log, hends, fun e he => hcount e.1 e.2 ?_⟩
  have hcites : ∀ e ∈ [("A", "B"), ("B", "A"), ("D", "A"), ("D", "C")], ∃ m ∈ ring,
      m.1 = e.1 ∧ e.1 ≠ "BaseModel" ∧ Table.get? ring e.1 = some m.2 ∧
        ∃ names ∈ [["A"], ["B"], ["A", "C"]], Cites m.2.text names ∧ e.2 ∈ names := by
    decide +kernel
  obtain ⟨m, -, -, hne, hget, names, hnames, hcited, hbase⟩ := hcites e he
  refine ⟨hne, m.2, names, hget, hcited, ?_, hbase⟩
  rintro rfl
  exact absurd hnames (by decide)

/-! ## Which data models can be connected -/

theorem ends_connectAll_iff {w : World} (hw : w.troubles = []) :
    (connectAll models p).answer w = .ok () ↔ Closed models := by
  rw [connectAll_eq]
  constructor
  · intro h name c hget
    refine or_iff_not_imp_left.2 fun hname => ?_
    have hkey : name ∈ Table.keys models := Table.mem_keys_iff.2 ⟨c, hget⟩
    obtain ⟨u, v, hends⟩ := Run.exists_of_forM (Prod.ext h rfl) name hkey
    obtain ⟨x, _, hconnect, -⟩ := Run.ends_bind_eq_ok hends
    exact resolved_of_ends hconnect hget hname
  · intro hclosed
    obtain ⟨_, es, hends, -⟩ := asks_connectEach (p := p) hclosed (fun _ => Iff.rfl) w hw
    exact congrArg Prod.fst hends

end

end Inheritance

namespace ModelSearch
open Inheritance
variable {classes : List ClassSource} {models : ModelTable}

def Cited (classes : List ClassSource) : Prop :=
  ∀ d ∈ definitions classes, d.bases ≠ [] → ∀ text, d.text = .ok text → Cites text d.bases

instance (classes : List ClassSource) : Decidable (Cited classes) :=
  decidable_of_iff (∀ d ∈ definitions classes, d.bases ≠ [] →
      ∀ text ∈ d.text.toOption, Cites text d.bases)
    ⟨fun h d hd hne text ht => h d hd hne text (by rw [ht]; rfl),
      fun h d hd hne text ht => h d hd hne text (Run.eq_ok_of_toOption ht)⟩

def Connects (models : ModelTable) (d : ClassSource) : Prop :=
  d.bases = ["BaseModel"] ∨ ∀ base ∈ d.bases, base ∈ Table.keys models

theorem closed_iff (hfounded : Founded classes models) (hcited : Cited classes) :
    Closed models ↔ ∀ d ∈ definitions classes, ∀ name entry, Enters d name entry →
      Table.get? models name = some entry → name = "BaseModel" ∨ Connects models d := by
  constructor
  · intro hclosed d hd name entry henters hget
    refine (hclosed name entry hget).imp_right fun hresolved => ?_
    obtain ⟨names, hnames, hknown⟩ := hresolved
    by_cases hbases : d.bases = []
    · exact Or.inr (by simp [hbases])
    · cases hnames.unique (hcited d hd hbases _ henters.text)
      exact hknown
  · intro hall name entry hget
    obtain ⟨d, n, hchain, henters, b, hb, -⟩ := hfounded name entry hget
    have hd := hchain.mem_definitions
    refine (hall d hd name entry henters hget).imp_right fun hconnects => ?_
    exact ⟨d.bases, hcited d hd (List.ne_nil_of_mem hb) _ henters.text, hconnects⟩

theorem connects_of_single {d : ClassSource} (hderives : d.Derives models)
    (hsingle : d.bases.length ≤ 1) : Connects models d := by
  obtain ⟨b, hb, hmodel⟩ := hderives
  have hbases : d.bases = [b] := by
    match h : d.bases with
    | [] => simp [h] at hb
    | [x] => simp_all
    | x :: y :: l => simp [h] at hsingle
  unfold Connects
  rw [hbases]
  refine hmodel.imp (fun h => by rw [h]) fun h base hbase => ?_
  rw [List.mem_singleton.1 hbase]
  exact Table.mem_keys_iff_has.2 h

/-- **Recording inheritance**: the data models that were found are connected without a failure
exactly if the text of each of them, but for one that is called `BaseModel`, cites `BaseModel` alone
or data models only. Where texts cite the bases that trees show, this is so exactly if each class
that was entered has such bases, and so always if no class has more than one base. -/
theorem connected_iff (hmodels : ModelSearch.models classes = .ok models) {w : World}
    (hw : w.troubles = []) (p : ProjectKey) :
    ((connectAll models p).answer w = .ok () ↔
      ∀ name c, Table.get? models name = some c → name = "BaseModel" ∨
        ∃ names, Cites c.text names ∧
          (names = ["BaseModel"] ∨ ∀ base ∈ names, base ∈ Table.keys models)) ∧
    (Cited classes →
      ((connectAll models p).answer w = .ok () ↔
        ∀ d ∈ definitions classes, ∀ name entry, Enters d name entry →
          Table.get? models name = some entry →
            name = "BaseModel" ∨ d.bases = ["BaseModel"] ∨
              ∀ base ∈ d.bases, base ∈ Table.keys models) ∧
      ((∀ d ∈ definitions classes, d.bases.length ≤ 1) →
        (connectAll models p).answer w = .ok ())) := by
  have hfounded : Founded classes models := founded_rounds founded_nil hmodels
  refine ⟨ends_connectAll_iff hw, fun hcited => ⟨?_, fun hsingle => ?_⟩⟩
  · rw [ends_connectAll_iff hw]
    exact closed_iff hfounded hcited
  · rw [ends_connectAll_iff hw]
    intro name entry hget
    obtain ⟨d, n, hchain, henters, hderives⟩ := hfounded name entry hget
    have hd := hchain.mem_definitions
    obtain ⟨b, hb, -⟩ := id hderives
    exact Or.inr ⟨d.bases, hcited d hd (List.ne_nil_of_mem hb) _ henters.text,
      connects_of_single hderives (hsingle d hd)⟩

def petAlone : ClassSource := ⟨"/p/pet.py", "class Pet(BaseModel): pass", plainClass 0 3 9⟩

def dogAlone : ClassSource := ⟨"/p/dog.py", "class Dog(Pet): pass", plainClass 0 3 3⟩

/-- Classes with one base each are connected, whichever comes first. -/
theorem pets_connected : ∃ models, ModelSearch.models [dogAlone, petAlone] = .ok models ∧
    Table.keys models = ["Pet", "Dog"] ∧
    (connectAll models (.number 1)).answer World.vacant = .ok () := by
  have hmodels : ModelSearch.models [dogAlone, petAlone] = .ok
      [("Pet", ⟨"/p/pet.py", "class Pet(BaseModel): pass"⟩),
       ("Dog", ⟨"/p/dog.py", "class Dog(Pet): pass"⟩)] :=
    Run.eq_ok_of_toOption (by decide +kernel)
  obtain ⟨-, hcited⟩ := connected_iff hmodels (w := World.vacant) rfl (.number 1)
  exact ⟨_, hmodels, rfl, (hcited (by decide +kernel)).2 (by decide +kernel)⟩

def hound : ClassSource :=
  ⟨"/p/hound.py", "class Hound(Pet, BaseModel): pass", .mk "class_definition" 0 33 [
    .mk "class" 0 5 [], .mk "identifier" 6 11 [],
    .mk "argument_list" 11 27 [.mk "(" 11 12 [], .mk "identifier" 12 15 [], .mk "," 15 16 [],
      .mk "identifier" 17 26 [], .mk ")" 26 27 []],
    .mk ":" 27 28 [], .mk "block" 29 33 [.mk "pass_statement" 29 33 []]]⟩

/-- A class that names `BaseModel` beside another base is entered as a data model, and then fails to
be connected: `BaseModel` is looked up like any base, and is no data model. -/
theorem hound_fails : Cited [petAlone, hound] ∧ hound.bases = ["Pet", "BaseModel"] ∧
    ∃ models, ModelSearch.models [petAlone, hound] = .ok models ∧
      Table.keys models = ["Pet", "Hound"] ∧
      (connectAll models (.number 1)).answer World.vacant =
        .error (.missingKey (.str "BaseModel")) := by
  have hmodels : ModelSearch.models [petAlone, hound] = .ok
      [("Pet", ⟨"/p/pet.py", "class Pet(BaseModel): pass"⟩),
       ("Hound", ⟨"/p/hound.py", "class Hound(Pet, BaseModel): pass"⟩)] :=
    Run.eq_ok_of_toOption (by decide +kernel)
  exact ⟨by decide +kernel, by decide +kernel, _, hmodels, rfl, by decide +kernel⟩

end ModelSearch
end CodeAtlas
