import CodeAtlas.Change.Detection
import CodeAtlas.Proofs.RecordedCode

/-!
# Two walks over definitions

The functions that become nodes of the graph are found by a survey of the top level of a tree. The
functions that a patch changes are looked up in another walk, which goes deeper into the tree and
notes the rows of plain definitions only.

* `Definitions.listed`: the definitions that this walk passes, in order;
* `Definitions.collect_eq`: it gives the table of their rows;
* `Definitions.name_signature`: the name that the survey reads off a definition, with the class
  before it;
* `Definitions.findings_listed`: the walk passes every function of the survey.
-/
namespace CodeAtlas

/-! ## The walk over definitions -/

namespace Node

theorem mem_preorderAll {n m : Node} {ns : List Node} (hn : n ∈ ns) (hm : m ∈ n.preorder) :
    m ∈ preorderAll ns := by
  induction ns with
  | nil => cases hn
  | cons k ns ih =>
    rw [preorderAll, List.mem_append]
    rcases List.mem_cons.1 hn with rfl | hn
    · exact Or.inl hm
    · exact Or.inr (ih hn)

theorem mem_preorder_self (n : Node) : n ∈ n.preorder := by
  cases n
  exact List.mem_cons_self

theorem mem_preorder_of_mem_children {n m k : Node} (hm : m ∈ n.children) (hk : k ∈ m.preorder) :
    k ∈ n.preorder := by
  cases n
  exact List.mem_cons_of_mem _ (mem_preorderAll hm hk)

mutual

theorem mem_preorder_trans : ∀ {n m k : Node}, m ∈ n.preorder → k ∈ m.preorder → k ∈ n.preorder
  | .mk kind a b children, m, k, hm, hk => by
    rcases List.mem_cons.1 hm with rfl | hm
    · exact hk
    · exact List.mem_cons_of_mem _ (mem_preorderAll_trans hm hk)

theorem mem_preorderAll_trans : ∀ {ns : List Node} {m k : Node},
    m ∈ preorderAll ns → k ∈ m.preorder → k ∈ preorderAll ns
  | n :: ns, m, k, hm, hk => by
    rw [preorderAll, List.mem_append] at hm ⊢
    exact hm.imp (fun h => mem_preorder_trans h hk) fun h => mem_preorderAll_trans h hk

end

theorem mem_preorder_child {n m c : Node} (hm : m ∈ n.preorder) (hc : c ∈ m.children) :
    c ∈ n.preorder :=
  mem_preorder_trans hm (mem_preorder_of_mem_children hc c.mem_preorder_self)

end Node

namespace Definitions

mutual

/-- The definitions that a walk passes, in order, with their names; `owner` is the class around. -/
def listed (src : String) (owner : Option String) : Node → Except Failure (List (String × Node))
  | .mk kind a b children =>
    if kind == "function_definition" then
      match identifier? children with
      | none => .ok []
      | some c => do
        let name ← c.text src
        return [(qualified owner name, .mk kind a b children)]
    else if kind == "class_definition" then
      match identifier? children with
      | none => .ok []
      | some c => do
        let name ← c.text src
        listedAll src (some name) children
    else listedAll src owner children

def listedAll (src : String) (owner : Option String) :
    List Node → Except Failure (List (String × Node))
  | [] => .ok []
  | n :: ns => do
    let here ← listed src owner n
    return here ++ (← listedAll src owner ns)

end

def rows (src : String) (d : Node) : RowRange := ⟨d.firstRow src + 1, d.lastRow src + 1⟩

def note (src : String) (found : Table String RowRange) (ds : List (String × Node)) :
    Table String RowRange :=
  found.setAll (ds.map fun d => (d.1, rows src d.2))

theorem note_append (src : String) (found : Table String RowRange) (ds es : List (String × Node)) :
    note src found (ds ++ es) = note src (note src found ds) es := by
  simp only [note, Table.setAll, List.map_append, List.foldl_append]

mutual

theorem collect_eq (src : String) (owner : Option String) : ∀ (n : Node) found,
    collect src owner n found = (listed src owner n).map (note src found)
  | .mk kind a b children, found => by
    unfold collect listed
    split
    · unfold addFunction
      simp only [Node.children]
      cases identifier? children with
      | none => rfl
      | some c =>
        simp only
        cases c.text src <;> rfl
    · split
      · cases identifier? children with
        | none => rfl
        | some c =>
          simp only
          cases c.text src with
          | error e => rfl
          | ok name => exact collectAll_eq src (some name) children found
      · exact collectAll_eq src owner children found

theorem collectAll_eq (src : String) (owner : Option String) : ∀ (ns : List Node) found,
    collectAll src owner ns found = (listedAll src owner ns).map (note src found)
  | [], found => rfl
  | n :: ns, found => by
    unfold collectAll listedAll
    rw [collect_eq src owner n found]
    cases listed src owner n with
    | error e => rfl
    | ok ds =>
      refine (collectAll_eq src owner ns (note src found ds)).trans ?_
      cases listedAll src owner ns with
      | error e => rfl
      | ok es => exact congrArg Except.ok (note_append src found ds es).symm

end

theorem ofTree_eq {src : String} {root : Node} {ds : List (String × Node)}
    (h : listed src none root = .ok ds) : ofTree src root = .ok (note src [] ds) := by
  rw [ofTree, collect_eq, h]
  rfl

theorem get?_note (src : String) (ds : List (String × Node)) (name : String) :
    Table.get? (note src [] ds) name = (Table.get? (Table.ofPairs ds) name).map (rows src) :=
  Table.get?_setAll_map (rows src) ds (fun _ => rfl) name

/-! ## What the walk passes -/

section
variable {src : String} {owner : Option String}

theorem identifier?_eq_some {ns : List Node} {c : Node} (h : identifier? ns = some c) :
    c ∈ ns ∧ c.kind = "identifier" :=
  ⟨List.mem_of_find?_eq_some h, by simpa using List.find?_some h⟩

theorem listed_of_inside {n : Node} (hfunction : n.kind ≠ "function_definition")
    (hclass : n.kind ≠ "class_definition") :
    listed src owner n = listedAll src owner n.children := by
  obtain ⟨kind, a, b, children⟩ := n
  simp only [Node.kind] at hfunction hclass
  simp [listed, hfunction, hclass, Node.children]

theorem listed_of_class {n c : Node} {name : String} (hclass : n.kind = "class_definition")
    (hc : identifier? n.children = some c) (hname : c.text src = .ok name) :
    listed src owner n = listedAll src (some name) n.children := by
  obtain ⟨kind, a, b, children⟩ := n
  simp only [Node.kind, Node.children] at hclass hc
  subst hclass
  simp only [listed, hc, hname]
  rfl

theorem listed_of_function {n c : Node} {name : String} (hfunction : n.kind = "function_definition")
    (hc : identifier? n.children = some c) (hname : c.text src = .ok name) :
    listed src owner n = .ok [(qualified owner name, n)] := by
  obtain ⟨kind, a, b, children⟩ := n
  simp only [Node.kind, Node.children] at hfunction hc
  subst hfunction
  simp only [listed, hc, hname]
  rfl

theorem mem_listedAll {ns : List Node} {n : Node} {ds : List (String × Node)}
    (h : listedAll src owner ns = .ok ds) (hn : n ∈ ns) :
    ∃ es, listed src owner n = .ok es ∧ ∀ d ∈ es, d ∈ ds := by
  induction ns generalizing ds with
  | nil => cases hn
  | cons m ns ih =>
    unfold listedAll at h
    obtain ⟨here, hhere, h⟩ := Run.bind_eq_ok h
    obtain ⟨there, hthere, h⟩ := Run.bind_eq_ok h
    cases h
    rcases List.mem_cons.1 hn with rfl | hn
    · exact ⟨here, hhere, fun d hd => List.mem_append_left _ hd⟩
    · obtain ⟨es, hes, hsub⟩ := ih hthere hn
      exact ⟨es, hes, fun d hd => List.mem_append_right _ (hsub d hd)⟩

mutual

/-- The walk ends well if the names that it reads can be read. -/
theorem exists_listed (src : String) : ∀ (n : Node) (owner : Option String),
    (∀ m ∈ n.preorder, m.kind = "identifier" → ∃ s, m.text src = .ok s) →
      ∃ ds, listed src owner n = .ok ds
  | .mk kind a b children, owner, h => by
    have hchildren : ∀ m ∈ Node.preorderAll children, m.kind = "identifier" →
        ∃ s, m.text src = .ok s := fun m hm => h m (List.mem_cons_of_mem _ hm)
    have hname : ∀ {c}, identifier? children = some c → ∃ s, c.text src = .ok s := fun hc =>
      hchildren _ (Node.mem_preorderAll (identifier?_eq_some hc).1 (Node.mem_preorder_self _))
        (identifier?_eq_some hc).2
    unfold listed
    split
    · split
      · exact ⟨[], rfl⟩
      · next c hc =>
        obtain ⟨s, hs⟩ := hname hc
        rw [hs]
        exact ⟨_, rfl⟩
    · split
      · split
        · exact ⟨[], rfl⟩
        · next c hc =>
          obtain ⟨s, hs⟩ := hname hc
          rw [hs]
          exact exists_listedAll src children (some s) hchildren
      · exact exists_listedAll src children owner hchildren

theorem exists_listedAll (src : String) : ∀ (ns : List Node) (owner : Option String),
    (∀ m ∈ Node.preorderAll ns, m.kind = "identifier" → ∃ s, m.text src = .ok s) →
      ∃ ds, listedAll src owner ns = .ok ds
  | [], owner, _ => ⟨[], rfl⟩
  | n :: ns, owner, h => by
    obtain ⟨here, hhere⟩ := exists_listed src n owner fun m hm => h m (by
      rw [Node.preorderAll]; exact List.mem_append_left _ hm)
    obtain ⟨there, hthere⟩ := exists_listedAll src ns owner fun m hm => h m (by
      rw [Node.preorderAll]; exact List.mem_append_right _ hm)
    exact ⟨here ++ there, by rw [listedAll, hhere, hthere]; rfl⟩

end

end

/-! ## The names that signatures give -/

def firstName? (src : String) (ns : List Node) : Option String :=
  (identifier? ns).bind fun c => (c.text src).toOption

def lastFunction? (ns : List Node) : Option Node :=
  (ns.filter fun n => n.kind == "function_definition").getLast?

def functionName? (src : String) (n : Node) : Option String :=
  if n.kind == "decorated_definition" then
    ((lastFunction? n.children).bind fun f => firstName? src f.children).or
      (firstName? src n.children)
  else firstName? src n.children

section
variable {src : String} {owner : Option String}

theorem firstName?_cons_self {c : Node} {s : String} (h : c.kind = "identifier")
    (hs : c.text src = .ok s) (cs : List Node) : firstName? src (c :: cs) = some s := by
  simp [firstName?, identifier?, h, hs, Except.toOption]

theorem firstName?_cons_of_ne {c : Node} (h : c.kind ≠ "identifier") (cs : List Node) :
    firstName? src (c :: cs) = firstName? src cs := by
  simp [firstName?, identifier?, h]

theorem lastFunction?_cons_of_ne {c : Node} (h : c.kind ≠ "function_definition") (cs : List Node) :
    lastFunction? (c :: cs) = lastFunction? cs := by simp [lastFunction?, h]

theorem lastFunction?_cons_self {c : Node} (h : c.kind = "function_definition") (cs : List Node) :
    lastFunction? (c :: cs) = (lastFunction? cs).or (some c) := by
  simp only [lastFunction?, List.filter_cons, h, beq_self_eq_true, if_true, List.getLast?_cons]
  cases (cs.filter fun n => n.kind == "function_definition").getLast? <;> rfl

theorem firstName?_eq_some {ns : List Node} {name : String} (h : firstName? src ns = some name) :
    ∃ c, identifier? ns = some c ∧ c.text src = .ok name := by
  obtain ⟨c, hc, hname⟩ := Option.bind_eq_some_iff.1 h
  exact ⟨c, hc, Run.eq_ok_of_toOption hname⟩

/-- One child of a definition: it names the function, or leaves the name as it is. -/
theorem readChildren_cons {c : Node} {cs : List Node} {d e : Signature.Draft}
    (h : Signature.readChildren src owner d (c :: cs) = .ok e) :
    ∃ d', Signature.readChildren src owner d' cs = .ok e ∧
      ((c.kind = "identifier" ∧ d.name = none ∧
          ∃ s, c.text src = .ok s ∧ d'.name = some (qualified owner s)) ∨
        (¬ (c.kind = "identifier" ∧ d.name = none) ∧ d'.name = d.name)) := by
  unfold Signature.readChildren at h
  split at h
  · next hc =>
    rw [Bool.and_eq_true, beq_iff_eq, Option.isNone_iff_eq_none] at hc
    obtain ⟨s, hs, h⟩ := Run.bind_eq_ok h
    exact ⟨_, h, Or.inl ⟨hc.1, hc.2, s, hs, rfl⟩⟩
  · next hc =>
    rw [Bool.and_eq_true, beq_iff_eq, Option.isNone_iff_eq_none] at hc
    split at h
    · obtain ⟨ps, -, h⟩ := Run.bind_eq_ok h
      exact ⟨_, h, Or.inr ⟨hc, rfl⟩⟩
    · split at h
      · obtain ⟨response, -, h⟩ := Run.bind_eq_ok h
        exact ⟨_, h, Or.inr ⟨hc, rfl⟩⟩
      · exact ⟨d, h, Or.inr ⟨hc, rfl⟩⟩

theorem name_readChildren {cs : List Node} : ∀ {d e : Signature.Draft},
    Signature.readChildren src owner d cs = .ok e →
      e.name = d.name.or ((firstName? src cs).map (qualified owner)) := by
  induction cs with
  | nil =>
    intro d e h
    cases h
    simp [firstName?, identifier?]
  | cons c cs ih =>
    intro d e h
    obtain ⟨d', h', ⟨hc, hnone, s, hs, hname⟩ | ⟨hc, hsame⟩⟩ := readChildren_cons h
    · rw [ih h', hname, hnone, firstName?_cons_self hc hs]
      rfl
    · rw [ih h', hsame]
      cases hd : d.name with
      | some x => rfl
      | none =>
        have hkind : c.kind ≠ "identifier" := fun hk => hc ⟨hk, hd⟩
        rw [firstName?_cons_of_ne hkind]

theorem name_readInner {cs : List Node} : ∀ {d e : Signature.Draft},
    Signature.readInner src owner d cs = .ok e → e.name = match lastFunction? cs with
      | some f => (firstName? src f.children).map (qualified owner)
      | none => d.name := by
  induction cs with
  | nil =>
    intro d e h
    cases h
    rfl
  | cons c cs ih =>
    intro d e h
    unfold Signature.readInner at h
    split at h
    · next hc =>
      obtain ⟨d', hd', h⟩ := Run.bind_eq_ok h
      rw [ih h, lastFunction?_cons_self (beq_iff_eq.1 hc)]
      cases lastFunction? cs with
      | some f => rfl
      | none => exact (name_readChildren hd').trans (Option.none_or)
    · next hc =>
      rw [ih h, lastFunction?_cons_of_ne (by simpa using hc)]

theorem name_signature {n : Node} {sig : Signature} (h : Signature.read src owner n = .ok sig) :
    sig.name = (functionName? src n).map (qualified owner) := by
  unfold Signature.read at h
  unfold functionName?
  split at h
  · next hk =>
    obtain ⟨d, hd, h⟩ := Run.bind_eq_ok h
    obtain ⟨e, he, h⟩ := Run.bind_eq_ok h
    cases h
    have hinner := name_readInner hd
    rw [if_pos hk, name_readChildren he, hinner, Option.map_or]
    cases lastFunction? n.children <;> rfl
  · next hk =>
    rw [Run.ok_bind] at h
    obtain ⟨e, he, h⟩ := Run.bind_eq_ok h
    cases h
    rw [if_neg hk, name_readChildren he, Option.none_or]

end

/-! ## The two walks -/

def Names (n d : Node) : Prop := d = n ∨ n.kind = "decorated_definition" ∧ d ∈ n.children

/-- What the grammar promises about definitions: identifiers can be read, a class is named by its
second part, and no identifier is a part of a decorated definition. -/
structure Shaped (src : String) (root : Node) : Prop where
  top : root.kind = "module"
  readable : ∀ n ∈ root.preorder, n.kind = "identifier" → ∃ s, n.text src = .ok s
  named : ∀ n ∈ root.preorder, n.kind = "class_definition" →
    ∃ c, n.children[1]? = some c ∧ identifier? n.children = some c
  decorated : ∀ n ∈ root.preorder, n.kind = "decorated_definition" → identifier? n.children = none

section
variable {src : String} {owner : Option String}

/-- The name of a signature is that of a plain definition, which may stand among decorators. -/
theorem read_name {n : Node} {sig : Signature} {name : String} (hn : Survey.isFunction n = true)
    (hdecorated : n.kind = "decorated_definition" → identifier? n.children = none)
    (h : Signature.read src owner n = .ok sig) (hname : sig.name = some name) :
    ∃ d, Names n d ∧ d.kind = "function_definition" ∧
      ∃ c s, identifier? d.children = some c ∧ c.text src = .ok s ∧ name = qualified owner s := by
  rw [name_signature h] at hname
  obtain ⟨s, hs, rfl⟩ := Option.map_eq_some_iff.1 hname
  unfold functionName? at hs
  split at hs
  · next hk =>
    rw [beq_iff_eq] at hk
    -- no identifier stands beside the decorators, so the name is that of an inner definition
    have hown : firstName? src n.children = none := by rw [firstName?, hdecorated hk]; rfl
    rw [hown, Option.or_none] at hs
    obtain ⟨f, hf, hs⟩ := Option.bind_eq_some_iff.1 hs
    obtain ⟨hmem, hkind⟩ := List.mem_filter.1 (List.mem_of_getLast? hf)
    obtain ⟨c, hc, hs⟩ := firstName?_eq_some hs
    exact ⟨f, Or.inr ⟨hk, hmem⟩, beq_iff_eq.1 hkind, c, s, hc, hs, rfl⟩
  · next hk =>
    obtain ⟨c, hc, hs⟩ := firstName?_eq_some hs
    refine ⟨n, Or.inl rfl, ?_, c, s, hc, hs, rfl⟩
    simpa [Survey.isFunction, hk] using hn

def ListedIn (ds : List (String × Node)) : Finding → Prop
  | .function f => ∃ d, (f.name, d) ∈ ds ∧ Names f.node d
  | _ => True

theorem ListedIn.mono {ds es : List (String × Node)} (h : ∀ d ∈ ds, d ∈ es) {f : Finding}
    (hf : ListedIn ds f) : ListedIn es f := by
  cases f with
  | function f =>
    obtain ⟨d, hd, hnames⟩ := hf
    exact ⟨d, h _ hd, hnames⟩
  | _ => trivial

theorem functionOf_listed {n : Node} {ds : List (String × Node)} (hn : Survey.isFunction n = true)
    (hdecorated : n.kind = "decorated_definition" → identifier? n.children = none)
    (h : listed src owner n = .ok ds) :
    Survey.All (ListedIn ds) (.ofReading (Survey.functionOf src owner n)) := by
  refine Survey.All.ofReading fun fs hfs f hf => ?_
  unfold Survey.functionOf at hfs
  obtain ⟨sig, hsig, hfs⟩ := Run.bind_eq_ok hfs
  split at hfs
  · next name hname =>
    split at hfs
    · cases hfs; cases hf
    · cases hfs
      obtain rfl := List.mem_singleton.1 hf
      obtain ⟨d, hd, hkind, c, s, hc, hs, rfl⟩ := read_name hn hdecorated hsig hname
      have hself : listed src owner d = .ok [(qualified owner s, d)] :=
        listed_of_function hkind hc hs
      refine ⟨d, ?_, hd⟩
      rcases hd with rfl | ⟨hk, hmem⟩
      · cases hself.symm.trans h
        exact List.mem_cons_self
      · rw [listed_of_inside (by simp [hk]) (by simp [hk])] at h
        obtain ⟨es, hes, hsub⟩ := mem_listedAll h hmem
        cases hself.symm.trans hes
        exact hsub _ List.mem_cons_self
  · cases hfs; cases hf

/-- The methods of a class are passed by the walk through the class. -/
theorem ofClass_listed {root n : Node} {ds : List (String × Node)} (hroot : Shaped src root)
    (hin : n ∈ root.children) (hn : n.kind = "class_definition")
    (h : listed src owner n = .ok ds) : Survey.All (ListedIn ds) (Survey.ofClass src n) := by
  have hbelow {m : Node} (hm : m ∈ n.preorder) : m ∈ root.preorder :=
    Node.mem_preorder_of_mem_children hin hm
  refine Survey.All.ofClass fun c name hc hname => ⟨trivial, fun b hb hblock m hm hfunction => ?_⟩
  obtain ⟨k, hk, hk'⟩ := hroot.named n (hbelow n.mem_preorder_self) hn
  obtain rfl : k = c := by
    rw [Node.child, hk] at hc
    exact Except.ok.inj hc
  rw [listed_of_class hn hk' hname] at h
  obtain ⟨es, hes, hsub⟩ := mem_listedAll h hb
  rw [listed_of_inside (by simp [hblock]) (by simp [hblock])] at hes
  obtain ⟨gs, hgs, hsub'⟩ := mem_listedAll hes hm
  have hdecorated := hroot.decorated m (hbelow (Node.mem_preorder_of_mem_children hb
    (Node.mem_preorder_of_mem_children hm m.mem_preorder_self)))
  exact fun f hf => (functionOf_listed hfunction hdecorated hgs f hf).mono fun d hd =>
    hsub d (hsub' d hd)

/-- The walk ends well and passes every function of the survey. -/
theorem findings_listed {root : Node} (h : Shaped src root) :
    ∃ ds, listed src none root = .ok ds ∧ Survey.All (ListedIn ds) (Survey.ofTree src root) := by
  obtain ⟨ds, hds⟩ := exists_listed src root none h.readable
  refine ⟨ds, hds, ?_⟩
  rw [listed_of_inside (by simp [h.top]) (by simp [h.top])] at hds
  refine Survey.All.ofTree (fun f hf => ?_) (fun n hn hfunction => ?_) fun n hn hclass => ?_
  · cases f <;> trivial
  · obtain ⟨es, hes, hsub⟩ := mem_listedAll hds hn
    have hdecorated := h.decorated n (Node.mem_preorder_of_mem_children hn n.mem_preorder_self)
    exact fun f hf => (functionOf_listed hfunction hdecorated hes f hf).mono hsub
  · obtain ⟨es, hes, hsub⟩ := mem_listedAll hds hn
    exact fun f hf => (ofClass_listed h hn hclass hes f hf).mono hsub

end

end Definitions

end CodeAtlas
