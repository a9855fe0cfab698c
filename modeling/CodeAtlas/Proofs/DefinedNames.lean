import CodeAtlas.Proofs.DefinitionWalk

/-!
# The names that definitions give

A definition is read twice: as a `Signature` for the graph and as an `Outline` for entry points.
Both readings take the name from the same identifier (`functionName?`), but a signature puts the
class before it (`name_signature`).

* `name_outline`: the name that an outline gives;
* `exists_outline`: an outline can be read where all texts can;
* `mem_functions_iff`: a plain name is that of a function of the survey if and only if a definition
  at the top level of the file gives it.
-/
namespace CodeAtlas

namespace Definitions

variable {src : String} {owner : Option String}

/-! ## Outlines -/

theorem name_outline_readChildren {cs : List Node} : ∀ {name : Option String} {ps : List String}
    {r : Option String × List String}, Outline.readChildren src name ps cs = .ok r →
      r.1 = name.or (firstName? src cs) := by
  induction cs with
  | nil =>
    intro name ps r h
    cases h
    simp [firstName?, identifier?]
  | cons c cs ih =>
    intro name ps r h
    unfold Outline.readChildren at h
    split at h
    · next hc =>
      rw [Bool.and_eq_true, beq_iff_eq, Option.isNone_iff_eq_none] at hc
      obtain ⟨s, hs, h⟩ := Run.bind_eq_ok h
      rw [ih h, hc.2, firstName?_cons_self hc.1 hs]
      rfl
    · next hc =>
      have hskip : name.or (firstName? src (c :: cs)) = name.or (firstName? src cs) := by
        cases name with
        | some x => rfl
        | none =>
          have hkind : c.kind ≠ "identifier" := by simpa using hc
          rw [firstName?_cons_of_ne hkind]
      rw [hskip]
      split at h
      · obtain ⟨ps', -, h⟩ := Run.bind_eq_ok h
        exact ih h
      · exact ih h

theorem name_readPlain {name : Option String} {n : Node} {o : Outline}
    (h : Outline.readPlain src name n = .ok o) : o.name = name.or (firstName? src n.children) := by
  unfold Outline.readPlain at h
  obtain ⟨r, hr, h⟩ := Run.bind_eq_ok h
  obtain ⟨t, -, h⟩ := Run.bind_eq_ok h
  cases h
  exact name_outline_readChildren hr

theorem name_innerName {cs : List Node} : ∀ {name r : Option String},
    Outline.innerName src name cs = .ok r → r = match lastFunction? cs with
      | some f => firstName? src f.children
      | none => name := by
  induction cs with
  | nil =>
    intro name r h
    cases h
    rfl
  | cons c cs ih =>
    intro name r h
    unfold Outline.innerName at h
    split at h
    · next hc =>
      obtain ⟨o, ho, h⟩ := Run.bind_eq_ok h
      rw [ih h, lastFunction?_cons_self (beq_iff_eq.1 hc)]
      cases lastFunction? cs with
      | some f => rfl
      | none => exact (name_readPlain ho).trans Option.none_or
    · next hc => rw [ih h, lastFunction?_cons_of_ne (by simpa using hc)]

theorem name_outline {n : Node} {o : Outline} (h : Outline.read src n = .ok o) :
    o.name = functionName? src n := by
  unfold Outline.read at h
  unfold functionName?
  split at h
  · next hk =>
    obtain ⟨name, hname, h⟩ := Run.bind_eq_ok h
    rw [if_pos hk, name_readPlain h, name_innerName hname]
    cases lastFunction? n.children <;> rfl
  · next hk =>
    rw [Run.ok_bind] at h
    rw [if_neg hk, name_readPlain h, Option.none_or]

def Legible (src : String) (n : Node) : Prop := ∀ m ∈ n.preorder, ∃ s, m.text src = .ok s

instance (src : String) (n : Node) : Decidable (Legible src n) :=
  decidable_of_iff (∀ m ∈ n.preorder, (m.text src).toOption.isSome = true) <| by
    simp only [Run.isSome_toOption_iff, Legible]

theorem Legible.of_mem {n m : Node} (h : Legible src n) (hm : m ∈ n.preorder) : Legible src m :=
  fun k hk => h k (Node.mem_preorder_trans hm hk)

theorem Legible.child {n c : Node} (h : Legible src n) (hc : c ∈ n.children) : Legible src c :=
  h.of_mem (Node.mem_preorder_child n.mem_preorder_self hc)

theorem Legible.text {n : Node} (h : Legible src n) : ∃ s, n.text src = .ok s :=
  h n n.mem_preorder_self

theorem exists_identifiers {cs : List Node} (h : ∀ c ∈ cs, Legible src c) :
    ∃ names, Outline.identifiers src cs = .ok names := by
  induction cs with
  | nil => exact ⟨[], rfl⟩
  | cons c cs ih =>
    rw [List.forall_mem_cons] at h
    obtain ⟨names, hnames⟩ := ih h.2
    obtain ⟨s, hs⟩ := h.1.text
    unfold Outline.identifiers
    rw [hs, hnames]
    split
    · exact ⟨s :: names, rfl⟩
    · exact ⟨names, rfl⟩

theorem exists_outline_readChildren {cs : List Node} (h : ∀ c ∈ cs, Legible src c) :
    ∀ (name : Option String) (ps : List String),
      ∃ r, Outline.readChildren src name ps cs = .ok r := by
  induction cs with
  | nil => exact fun name ps => ⟨(name, ps), rfl⟩
  | cons c cs ih =>
    intro name ps
    rw [List.forall_mem_cons] at h
    obtain ⟨s, hs⟩ := h.1.text
    obtain ⟨names, hnames⟩ := exists_identifiers fun b hb => h.1.child hb
    unfold Outline.readChildren
    rw [hs, hnames]
    split
    · exact ih h.2 (some s) ps
    · split
      · exact ih h.2 name names
      · exact ih h.2 name ps

theorem exists_readPlain {n : Node} (h : Legible src n) (name : Option String) :
    ∃ o, Outline.readPlain src name n = .ok o := by
  obtain ⟨r, hr⟩ := exists_outline_readChildren (fun c hc => h.child hc) name []
  obtain ⟨s, hs⟩ := h.text
  unfold Outline.readPlain
  rw [hr, hs]
  exact ⟨_, rfl⟩

theorem exists_innerName {cs : List Node} (h : ∀ c ∈ cs, Legible src c) :
    ∀ name : Option String, ∃ r, Outline.innerName src name cs = .ok r := by
  induction cs with
  | nil => exact fun name => ⟨name, rfl⟩
  | cons c cs ih =>
    intro name
    rw [List.forall_mem_cons] at h
    obtain ⟨o, ho⟩ := exists_readPlain h.1 none
    unfold Outline.innerName
    rw [ho]
    split
    · exact ih h.2 o.name
    · exact ih h.2 name

theorem exists_outline {n : Node} (h : Legible src n) : ∃ o, Outline.read src n = .ok o := by
  unfold Outline.read
  split
  · obtain ⟨name, hname⟩ := exists_innerName (fun c hc => h.child hc) none
    rw [hname]
    exact exists_readPlain h name
  · exact exists_readPlain h none

end Definitions

/-! ## The functions of a survey -/

namespace Survey

theorem mem_sequence {ss : List Survey} (h : (sequence ss).ended = none) {s : Survey}
    (hs : s ∈ ss) : s.ended = none ∧ ∀ f ∈ s.findings, f ∈ (sequence ss).findings := by
  induction ss with
  | nil => cases hs
  | cons a ss ih =>
    unfold sequence followedBy at h ⊢
    cases ha : a.ended with
    | some e => rw [ha] at h; cases h
    | none =>
      rw [ha] at h
      rcases List.mem_cons.1 hs with rfl | hs
      · exact ⟨ha, fun f hf => List.mem_append_left _ hf⟩
      · obtain ⟨hended, hall⟩ := ih h hs
        exact ⟨hended, fun f hf => List.mem_append_right _ (hall f hf)⟩

end Survey

namespace Definitions
open Survey

variable {src : String} {root : Node}

/-- What the grammar promises about names: every text can be read, an identifier is not empty and
has no dot, and a class is named by an identifier. -/
structure Worded (src : String) (root : Node) : Prop where
  texts : Legible src root
  words : ∀ n ∈ root.preorder, n.kind = "identifier" → ∀ s, n.text src = .ok s →
    s ≠ "" ∧ '.' ∉ s.toList
  classes : ∀ n ∈ root.preorder, n.kind = "class_definition" → ∀ c, n.child 1 = .ok c →
    c.kind = "identifier"

theorem functionName?_eq_some {n : Node} {name : String} (h : functionName? src n = some name) :
    ∃ c ∈ n.preorder, c.kind = "identifier" ∧ c.text src = .ok name := by
  have hfirst {m : Node} (hm : m ∈ n.preorder) (h : firstName? src m.children = some name) :
      ∃ c ∈ n.preorder, c.kind = "identifier" ∧ c.text src = .ok name := by
    obtain ⟨c, hc, htext⟩ := firstName?_eq_some h
    obtain ⟨hmem, hkind⟩ := identifier?_eq_some hc
    exact ⟨c, Node.mem_preorder_child hm hmem, hkind, htext⟩
  unfold functionName? at h
  split at h
  · rcases Option.or_eq_some_iff.1 h with h | ⟨-, h⟩
    · obtain ⟨f, hf, h⟩ := Option.bind_eq_some_iff.1 h
      have hmem : f ∈ n.children := (List.mem_filter.1 (List.mem_of_getLast? hf)).1
      exact hfirst (Node.mem_preorder_child n.mem_preorder_self hmem) h
    · exact hfirst n.mem_preorder_self h
  · exact hfirst n.mem_preorder_self h

theorem Worded.functionName {n : Node} (h : Worded src root) (hn : n ∈ root.preorder)
    {name : String} (hname : functionName? src n = some name) : name ≠ "" ∧ '.' ∉ name.toList := by
  obtain ⟨c, hc, hkind, htext⟩ := functionName?_eq_some hname
  exact h.words c (Node.mem_preorder_trans hn hc) hkind name htext

/-- A definition that gives a name is found under it. -/
theorem functionOf_of_name {m : Node} {fs : List Finding} (h : functionOf src none m = .ok fs)
    {name : String} (hname : functionName? src m = some name) (hne : name ≠ "") :
    ∃ sig, fs = [.function ⟨name, m, sig⟩] := by
  unfold functionOf at h
  obtain ⟨sig, hsig, h⟩ := Run.bind_eq_ok h
  have hsame : sig.name = some name := by rw [name_signature hsig, hname]; rfl
  rw [hsame] at h
  cases h
  exact ⟨sig, by simp [hne]⟩

theorem mem_functionOf {owner : Option String} {m : Node} {fs : List Finding}
    (h : functionOf src owner m = .ok fs) {f : FunctionFound} :
    .function f ∈ fs → ∃ s, functionName? src m = some s ∧ f.name = qualified owner s := by
  intro hf
  unfold functionOf at h
  obtain ⟨sig, hsig, h⟩ := Run.bind_eq_ok h
  have hsame := name_signature hsig
  split at h
  · next name hname =>
    rw [hname] at hsame
    obtain ⟨s, hs, hq⟩ := Option.map_eq_some_iff.1 hsame.symm
    split at h
    · cases h; cases hf
    · cases h
      obtain ⟨rfl⟩ := Finding.function.inj (List.mem_singleton.1 hf)
      exact ⟨s, hs, hq.symm⟩
  · cases h; cases hf

theorem mem_of_child {n c : Node} {i : Nat} (h : n.child i = .ok c) : c ∈ n.children := by
  unfold Node.child at h
  split at h
  · next d hd =>
    cases h
    exact List.mem_of_getElem? hd
  · cases h

/-- Where a function of the survey has its name from: a definition at the top level, or one in a
class, whose name goes before it. -/
def NamedIn (src : String) (root : Node) : Finding → Prop
  | .function f => '.' ∈ f.name.toList ∨
    ∃ m ∈ root.children, isFunction m = true ∧ functionName? src m = some f.name
  | _ => True

theorem findings_named (h : Worded src root) : All (NamedIn src root) (Survey.ofTree src root) := by
  refine All.ofTree (fun f hf => ?_) (fun m hm hfunction => ?_) fun n hn hclass => ?_
  · cases f <;> trivial
  · refine All.ofReading fun fs hfs f hf => ?_
    cases f with
    | function f =>
      obtain ⟨s, hs, hname⟩ := mem_functionOf hfs hf
      exact .inr ⟨m, hm, hfunction, hs.trans (congrArg some hname.symm)⟩
    | _ => trivial
  · have hin : n ∈ root.preorder := Node.mem_preorder_child root.mem_preorder_self hn
    refine All.ofClass fun c name hc hname => ⟨trivial, fun b _ _ m _ _ => ?_⟩
    have hchild : c ∈ n.children := mem_of_child hc
    have hword := (h.words c (Node.mem_preorder_child hin hchild) (h.classes n hin hclass c hc) name
      hname).1
    refine All.ofReading fun fs hfs f hf => ?_
    cases f with
    | function f =>
      obtain ⟨s, -, hf⟩ := mem_functionOf hfs hf
      refine .inl ?_
      rw [hf]
      simp [qualified, hword]
    | _ => trivial

theorem mem_functions_iff (h : Worded src root) (hended : (Survey.ofTree src root).ended = none)
    {name : String} (hname : name ≠ "" ∧ '.' ∉ name.toList) :
    (∃ f ∈ (Survey.ofTree src root).functions, f.name = name) ↔
      ∃ m ∈ root.children, isFunction m = true ∧ functionName? src m = some name := by
  constructor
  · rintro ⟨f, hf, rfl⟩
    obtain ⟨finding, hfinding, hfunction⟩ := List.mem_filterMap.1 hf
    have hnamed := findings_named h finding hfinding
    cases finding <;> cases hfunction
    exact hnamed.resolve_left hname.2
  · rintro ⟨m, hm, hfunction, hs⟩
    have htop : ofTopLevel src m = ofReading (functionOf src none m) := by
      have hkind : m.kind = "function_definition" ∨ m.kind = "decorated_definition" := by
        simpa [isFunction] using hfunction
      unfold ofTopLevel
      rcases hkind with hk | hk <;> simp [hk, isFunction]
    obtain ⟨hnone, hall⟩ := mem_sequence hended (List.mem_map_of_mem hm)
    rw [htop] at hnone hall
    cases hfs : functionOf src none m with
    | error e => rw [hfs] at hnone; cases hnone
    | ok fs =>
      rw [hfs] at hall
      obtain ⟨sig, rfl⟩ := functionOf_of_name hfs hs hname.1
      exact ⟨_, List.mem_filterMap.2 ⟨_, hall _ List.mem_cons_self, rfl⟩, rfl⟩

end Definitions
end CodeAtlas
