import CodeAtlas.Analysis.Inheritance
import CodeAtlas.Proofs.DefinedNames

/-!
# Data models are the ends of chains

A chain is a sequence of classes, each of which names the next one among its bases, and the last one
names `BaseModel`. The search for data models goes over all classes several times, and a class that
it takes up counts at once for the classes after it. So what one round finds depends on the order of
the classes. What is found in the end depends on it for long chains only.

* `ModelSearch.visit_eq_ok`: what one class does to the data models that are known;
* `ModelSearch.Founded`: every known data model starts a chain; the invariant of all rounds;
* `ModelSearch.Reached`: all chains up to a length start with known data models; a round adds one to
  this length;
* `ModelSearch.models_chained`: the search finds the starts of chains only, and those of all chains
  of at most five classes, whatever the order.
-/
namespace CodeAtlas

/-! ## What a class says -/

def ModelSearch.identifiers (src : String) (ns : List Node) : List String :=
  ns.filterMap fun n => if n.kind == "identifier" then (n.text src).toOption else none

namespace ClassSource

def text (c : ClassSource) : Except Failure String := c.node.text c.source

def name (c : ClassSource) : Except Failure String := do (← c.node.child 1).text c.source

def bases (c : ClassSource) : List String :=
  c.node.children.flatMap fun part => ModelSearch.identifiers c.source part.children

/-- The class definitions in a tree, nested ones included. -/
def definitions (s : ClassSource) : List ClassSource :=
  (s.node.preorder.filter fun n => n.kind == "class_definition").map fun n => { s with node := n }

def Derives (c : ClassSource) (known : ModelTable) : Prop :=
  ∃ b ∈ c.bases, b = "BaseModel" ∨ Table.has known b = true

theorem Derives.set {c : ClassSource} {known : ModelTable} (h : c.Derives known) (name : String)
    (entry : ClassText) : c.Derives (Table.set known name entry) := by
  obtain ⟨b, hb, hmodel⟩ := h
  exact ⟨b, hb, hmodel.imp_right fun hknown => Table.has_set_of_has hknown name entry⟩

end ClassSource

namespace ModelSearch

def definitions (classes : List ClassSource) : List ClassSource :=
  classes.flatMap ClassSource.definitions

theorem mem_definitions {classes : List ClassSource} {c : ClassSource} :
    c ∈ definitions classes ↔ ∃ s ∈ classes, ∃ n ∈ s.node.preorder,
      n.kind = "class_definition" ∧ c = { s with node := n } := by
  simp only [definitions, ClassSource.definitions, List.mem_flatMap, List.mem_map, List.mem_filter,
    beq_iff_eq, and_assoc, @eq_comm _ c]

theorem definitions_subset {classes order : List ClassSource} (h : classes ⊆ order) :
    definitions classes ⊆ definitions order := by
  intro c hc
  obtain ⟨s, hs, hc⟩ := List.mem_flatMap.1 hc
  exact List.mem_flatMap.2 ⟨s, h hs, hc⟩

/-! ## One class -/

section
variable {src file : String} {known found : ModelTable}

theorem namesModel_eq_ok {ns : List Node} {b : Bool} (h : namesModel src known ns = .ok b) :
    b = true ↔ ∃ x ∈ identifiers src ns, x = "BaseModel" ∨ Table.has known x = true := by
  induction ns with
  | nil =>
    cases h
    simp [identifiers]
  | cons n ns ih =>
    unfold namesModel at h
    by_cases hk : n.kind = "identifier"
    · simp only [hk, beq_self_eq_true, if_true] at h
      obtain ⟨x, hx, h⟩ := Run.bind_eq_ok h
      have hids : identifiers src (n :: ns) = x :: identifiers src ns := by
        simp [identifiers, hk, hx, Except.toOption]
      rw [hids]
      by_cases hmodel : x = "BaseModel" ∨ Table.has known x = true
      · have hb : b = true := by
          simp only [Bool.or_eq_true, beq_iff_eq, hmodel, if_true] at h
          exact (Except.ok.inj h).symm
        exact ⟨fun _ => ⟨x, List.mem_cons_self, hmodel⟩, fun _ => hb⟩
      · simp only [Bool.or_eq_true, beq_iff_eq, hmodel, if_false] at h
        simp only [List.mem_cons, exists_eq_or_imp, hmodel, false_or]
        exact ih h
    · have hids : identifiers src (n :: ns) = identifiers src ns := by
        simp [identifiers, hk]
      rw [hids]
      simp only [beq_iff_eq, hk, if_false] at h
      exact ih h

/-- What a class does to the data models that are known. -/
inductive Noted (c : ClassSource) (known : ModelTable) : ModelTable → Prop
  | found {name text : String} : c.name = .ok name → c.text = .ok text → c.Derives known →
      Noted c known (Table.set known name ⟨c.file, text⟩)
  | passed : ¬ c.Derives known → Noted c known known

/-- The parts of a class are looked at one after the other. Once the class is a data model, the parts
that follow can only add it again. -/
theorem examine_eq_ok {c : ClassSource} {parts : List Node}
    (h : parts.foldlM (examine c.source c.file c.node) known = .ok found) :
    (∃ name text, c.name = .ok name ∧ c.text = .ok text ∧
        found = Table.set known name ⟨c.file, text⟩ ∧
        ∃ part ∈ parts, ∃ x ∈ identifiers c.source part.children,
          x = "BaseModel" ∨ Table.has known x = true) ∨
      found = known ∧ ∀ part ∈ parts, ∀ x ∈ identifiers c.source part.children,
        ¬ (x = "BaseModel" ∨ Table.has known x = true) := by
  induction parts generalizing known with
  | nil => exact Or.inr ⟨(Except.ok.inj h).symm, by simp⟩
  | cons part parts ih =>
    rw [List.foldlM_cons] at h
    obtain ⟨next, hnext, hrest⟩ := Run.bind_eq_ok h
    unfold examine at hnext
    obtain ⟨b, hb, hnext⟩ := Run.bind_eq_ok hnext
    have hiff := namesModel_eq_ok hb
    cases b with
    | true =>
      obtain ⟨x, hx, hmodel⟩ := hiff.1 rfl
      simp only [if_true] at hnext
      obtain ⟨text, htext, hnext⟩ := Run.bind_eq_ok hnext
      obtain ⟨second, hsecond, hnext⟩ := Run.bind_eq_ok hnext
      obtain ⟨name, hname, hnext⟩ := Run.bind_eq_ok hnext
      obtain rfl := Except.ok.inj hnext
      have hclass : c.name = .ok name := by
        rw [ClassSource.name, hsecond, Run.ok_bind, hname]
      refine Or.inl ⟨name, text, hclass, htext, ?_, part, List.mem_cons_self, x, hx, hmodel⟩
      rcases ih hrest with ⟨name', text', hname', htext', hfound, -⟩ | ⟨hfound, -⟩
      · obtain rfl := Except.ok.inj (hclass.symm.trans hname')
        obtain rfl := Except.ok.inj (htext.symm.trans htext')
        rw [hfound, Table.set_set]
      · exact hfound
    | false =>
      simp only [Bool.false_eq_true, if_false] at hnext
      obtain rfl := Except.ok.inj hnext
      have hnone : ∀ x ∈ identifiers c.source part.children,
          ¬ (x = "BaseModel" ∨ Table.has known x = true) := fun x hx hmodel =>
        Bool.false_ne_true (hiff.2 ⟨x, hx, hmodel⟩)
      rcases ih hrest with ⟨name, text, hname, htext, hfound, p, hp, hx⟩ | ⟨hfound, hothers⟩
      · exact Or.inl ⟨name, text, hname, htext, hfound, p, List.mem_cons_of_mem part hp, hx⟩
      · exact Or.inr ⟨hfound, List.forall_mem_cons.2 ⟨hnone, hothers⟩⟩

/-- **One node**: a class is noted, anything else is passed over. -/
theorem visit_eq_ok {n : Node} (h : visit src file known n = .ok found) :
    if n.kind = "class_definition" then Noted ⟨file, src, n⟩ known found else found = known := by
  unfold visit at h
  by_cases hk : n.kind = "class_definition"
  · simp only [hk, beq_self_eq_true, if_true] at h ⊢
    rcases examine_eq_ok (c := ⟨file, src, n⟩) h with
      ⟨name, text, hname, htext, rfl, part, hpart, x, hx, hmodel⟩ | ⟨rfl, hnone⟩
    · exact .found hname htext ⟨x, List.mem_flatMap.2 ⟨part, hpart, hx⟩, hmodel⟩
    · refine .passed ?_
      rintro ⟨x, hx, hmodel⟩
      obtain ⟨part, hpart, hx⟩ := List.mem_flatMap.1 hx
      exact hnone part hpart x hx hmodel
  · simp only [beq_iff_eq, hk, if_false] at h ⊢
    exact (Except.ok.inj h).symm

end

/-! ## What the search keeps -/

section
variable {classes : List ClassSource} {known found : ModelTable}

/-- What holds of the known data models before a class definition is looked at holds after it. -/
def Stable (classes : List ClassSource) (P : ModelTable → Prop) : Prop :=
  ∀ c ∈ definitions classes, ∀ known found, P known → Noted c known found → P found

theorem stable_has (classes : List ClassSource) (x : String) :
    Stable classes fun t => Table.has t x = true := by
  intro c _ known found hknown hnoted
  cases hnoted with
  | found => exact Table.has_set_of_has hknown _ _
  | passed => exact hknown

theorem stable_derives (classes : List ClassSource) (c : ClassSource) :
    Stable classes c.Derives := by
  intro d _ known found hknown hnoted
  cases hnoted with
  | found => exact hknown.set _ _
  | passed => exact hknown

section
variable {P : ModelTable → Prop} (hP : Stable classes P)
include hP

theorem Stable.nodes {s : ClassSource} (hs : s ∈ classes) {ns : List Node}
    (hns : ns ⊆ s.node.preorder) (hknown : P known)
    (h : ns.foldlM (visit s.source s.file) known = .ok found) : P found := by
  refine Run.foldlM_keeps (fun n hn known found hknown hvisit => ?_) hknown h
  have hnoted := visit_eq_ok hvisit
  split at hnoted
  · next hk =>
    have hdefined := mem_definitions.2 ⟨s, hs, n, hns hn, hk, rfl⟩
    exact hP _ hdefined known found hknown hnoted
  · exact hnoted ▸ hknown

theorem Stable.inClass {s : ClassSource} (hs : s ∈ classes) (hknown : P known)
    (h : inClass known s = .ok found) : P found := by
  unfold ModelSearch.inClass at h
  obtain ⟨text, -, h⟩ := Run.bind_eq_ok h
  split at h
  · exact Except.ok.inj h ▸ hknown
  · exact hP.nodes hs (List.Subset.refl _) hknown h

theorem Stable.trees {ss : List ClassSource} (hss : ss ⊆ classes) (hknown : P known)
    (h : ss.foldlM ModelSearch.inClass known = .ok found) : P found :=
  Run.foldlM_keeps (fun _ hs _ _ hknown h => hP.inClass (hss hs) hknown h) hknown h

end

/-! ## Chains -/

/-- A chain of `n` classes that starts with a class: each class names the next one among its bases,
and the last one names `BaseModel`. -/
inductive Chain (classes : List ClassSource) : Nat → ClassSource → Prop
  | root {c : ClassSource} : c ∈ definitions classes → "BaseModel" ∈ c.bases → Chain classes 1 c
  | derived {n : Nat} {c d : ClassSource} {name : String} : c ∈ definitions classes →
      name ∈ c.bases → d.name = .ok name → Chain classes n d → Chain classes (n + 1) c

theorem Chain.mono {order : List ClassSource} (h : classes ⊆ order) {n : Nat} {c : ClassSource}
    (hc : Chain classes n c) : Chain order n c := by
  have hsub := definitions_subset h
  induction hc with
  | root hdefined hroot => exact .root (hsub hdefined) hroot
  | derived hdefined hname hd _ ih => exact .derived (hsub hdefined) hname hd ih

theorem Chain.mem_definitions {n : Nat} {c : ClassSource} (h : Chain classes n c) :
    c ∈ definitions classes := by
  cases h <;> assumption

/-- A class is entered under its name, with its file and its text. -/
structure Enters (c : ClassSource) (name : String) (entry : ClassText) : Prop where
  name : c.name = .ok name
  text : c.text = .ok entry.text
  file : c.file = entry.file

def Founded (classes : List ClassSource) (t : ModelTable) : Prop :=
  ∀ name entry, Table.get? t name = some entry →
    ∃ c n, Chain classes n c ∧ Enters c name entry ∧ c.Derives t

theorem founded_nil : Founded classes [] := by
  intro name entry h
  cases h

/-- A class that is derived from known data models starts a chain, and so does what was known. -/
theorem stable_founded (classes : List ClassSource) : Stable classes (Founded classes) := by
  intro c hc known found hknown hnoted
  cases hnoted with
  | passed => exact hknown
  | @found name text hname htext hderives =>
    intro name' entry h
    rw [Table.get?_set] at h
    split at h
    · next heq =>
      subst heq
      obtain rfl := Option.some.inj h
      obtain ⟨b, hb, hmodel⟩ := hderives
      have hchain : ∃ n, Chain classes n c := by
        rcases hmodel with rfl | hmodel
        · exact ⟨1, .root hc hb⟩
        · obtain ⟨base, hbase⟩ := Table.has_iff.1 hmodel
          obtain ⟨d, n, hd, henters, -⟩ := hknown b base hbase
          exact ⟨n + 1, .derived hc hb henters.name hd⟩
      obtain ⟨n, hn⟩ := hchain
      exact ⟨c, n, hn, ⟨hname, htext, rfl⟩, ClassSource.Derives.set ⟨b, hb, hmodel⟩ _ _⟩
    · obtain ⟨d, n, hd, henters, hderives'⟩ := hknown name' entry h
      exact ⟨d, n, hd, henters, hderives'.set _ _⟩

theorem founded_rounds {m : Nat} (hknown : Founded classes known)
    (h : rounds classes m known = .ok found) : Founded classes found := by
  induction m generalizing known with
  | zero => exact Except.ok.inj h ▸ hknown
  | succ m ih =>
    unfold rounds at h
    obtain ⟨next, hnext, h⟩ := Run.bind_eq_ok h
    exact ih ((stable_founded classes).trees (List.Subset.refl _) hknown hnext) h

/-! ## What rounds reach -/

def Apart (classes : List ClassSource) : Prop :=
  ∀ s ∈ classes, ∀ c ∈ definitions classes, ∀ name, c.name = .ok name → s.text ≠ .ok name

theorem round_finds (hapart : Apart classes) (hfounded : Founded classes known)
    (h : round classes known = .ok found) {c : ClassSource} (hc : c ∈ definitions classes)
    (hderives : c.Derives known) : ∃ name, c.name = .ok name ∧ Table.has found name = true := by
  obtain ⟨s, hs, n, hn, hk, rfl⟩ := mem_definitions.1 hc
  -- up to the tree of the class nothing that is known gets lost, and after it neither
  obtain ⟨ss, ts, k₁, k₂, hsplit, h₁, htree, h₂⟩ := Run.foldlM_at hs h
  have hss : ss ⊆ classes := hsplit ▸ List.subset_append_left _ _
  have hts : ts ⊆ classes := fun t ht => by
    rw [hsplit]
    exact List.mem_append_right _ (List.mem_cons_of_mem s ht)
  have hfounded₁ := (stable_founded classes).trees hss hfounded h₁
  have hderives₁ := (stable_derives classes _).trees hss hderives h₁
  unfold inClass at htree
  obtain ⟨text, htext, htree⟩ := Run.bind_eq_ok htree
  have hnew : Table.has k₁ text = false := by
    by_contra hhas
    obtain ⟨entry, hentry⟩ := Table.has_iff.1 (Bool.not_eq_false _ ▸ hhas)
    obtain ⟨d, m, hd, henters, -⟩ := hfounded₁ text entry hentry
    exact hapart s hs d hd.mem_definitions text henters.name htext
  simp only [hnew, Bool.false_eq_true, if_false] at htree
  -- the same inside the tree, up to the node of the class
  obtain ⟨ns, ms, k₃, k₄, hsplit', h₃, hvisit, h₄⟩ := Run.foldlM_at hn htree
  have hns : ns ⊆ s.node.preorder := hsplit' ▸ List.subset_append_left _ _
  have hms : ms ⊆ s.node.preorder := fun m hm => by
    rw [hsplit']
    exact List.mem_append_right _ (List.mem_cons_of_mem n hm)
  have hderives₃ := (stable_derives classes _).nodes hs hns hderives₁ h₃
  have hnoted := visit_eq_ok hvisit
  rw [if_pos hk] at hnoted
  cases hnoted with
  | passed hnot => exact absurd hderives₃ hnot
  | @found name text' hname =>
    have hhas₂ := (stable_has classes name).nodes hs hms (Table.has_set_self k₃ name _) h₄
    exact ⟨name, hname, (stable_has classes name).trees hts hhas₂ h₂⟩

def Reached (classes : List ClassSource) (k : Nat) (t : ModelTable) : Prop :=
  ∀ n c, Chain classes n c → n ≤ k → ∃ name, c.name = .ok name ∧ Table.has t name = true

theorem reached_zero (t : ModelTable) : Reached classes 0 t := by
  intro n c hc hn
  cases hc <;> omega

/-- **One round**: the chains that are reached get longer by one class. -/
theorem Reached.round {k : Nat} (hapart : Apart classes) (hfounded : Founded classes known)
    (hknown : Reached classes k known) (h : round classes known = .ok found) :
    Reached classes (k + 1) found := by
  intro n c hc hn
  cases hc with
  | root hdefined hroot =>
    exact round_finds hapart hfounded h hdefined ⟨_, hroot, Or.inl rfl⟩
  | derived hdefined hb hd hchain =>
    obtain ⟨name, hname, hhas⟩ := hknown _ _ hchain (by omega)
    obtain rfl := Except.ok.inj (hd.symm.trans hname)
    exact round_finds hapart hfounded h hdefined ⟨_, hb, Or.inr hhas⟩

theorem Reached.rounds {k m : Nat} (hapart : Apart classes) (hfounded : Founded classes known)
    (hknown : Reached classes k known) (h : rounds classes m known = .ok found) :
    Reached classes (k + m) found := by
  induction m generalizing known k with
  | zero => exact Except.ok.inj h ▸ hknown
  | succ m ih =>
    unfold ModelSearch.rounds at h
    obtain ⟨next, hnext, h⟩ := Run.bind_eq_ok h
    have hfounded' := (stable_founded classes).trees (List.Subset.refl _) hfounded hnext
    have hreached := ih hfounded' (hknown.round hapart hfounded hnext) h
    rwa [show k + (m + 1) = k + 1 + m by omega]

/-! ## The search ends well -/

theorem exists_namesModel {src : String} {ns : List Node}
    (h : ∀ n ∈ ns, ∃ s, n.text src = .ok s) (known : ModelTable) :
    ∃ b, namesModel src known ns = .ok b := by
  induction ns with
  | nil => exact ⟨false, rfl⟩
  | cons n ns ih =>
    rw [List.forall_mem_cons] at h
    obtain ⟨x, hx⟩ := h.1
    obtain ⟨b, hb⟩ := ih h.2
    unfold namesModel
    rw [hx, hb]
    split
    · rw [Run.ok_bind]
      split
      · exact ⟨true, rfl⟩
      · exact ⟨b, rfl⟩
    · exact ⟨b, rfl⟩

theorem exists_visit {s : ClassSource} (hread : Definitions.Legible s.source s.node)
    {n : Node} (hn : n ∈ s.node.preorder)
    (hparts : n.kind = "class_definition" → 2 ≤ n.children.length) (known : ModelTable) :
    ∃ found, visit s.source s.file known n = .ok found := by
  unfold visit
  split
  · next hk =>
    refine Run.exists_foldlM (fun part hpart known => ?_) known
    have hlegible := (hread.of_mem hn).child hpart
    obtain ⟨b, hb⟩ := exists_namesModel (fun m hm => (hlegible.child hm).text) known
    obtain ⟨text, htext⟩ := (hread.of_mem hn).text
    have hlength := hparts (by simpa using hk)
    have hsecond : n.child 1 = .ok n.children[1] := by
      unfold Node.child
      rw [List.getElem?_eq_getElem hlength]
    have hmem : n.children[1] ∈ n.children := List.getElem_mem hlength
    obtain ⟨name, hname⟩ := ((hread.of_mem hn).child hmem).text
    unfold examine
    rw [hb, Run.ok_bind, htext, Run.ok_bind, hsecond, Run.ok_bind, hname]
    cases b <;> exact ⟨_, rfl⟩
  · exact ⟨known, rfl⟩

/-- Texts that can be read, and classes with two parts, are all that the search needs. -/
theorem exists_rounds (hread : ∀ s ∈ classes, Definitions.Legible s.source s.node)
    (hparts : ∀ c ∈ definitions classes, 2 ≤ c.node.children.length) (m : Nat) :
    ∀ known, ∃ found, rounds classes m known = .ok found := by
  have hround : ∀ known, ∃ found, round classes known = .ok found := by
    refine Run.exists_foldlM fun s hs known => ?_
    obtain ⟨text, htext⟩ := (hread s hs).text
    unfold inClass
    rw [htext, Run.ok_bind]
    split
    · exact ⟨known, rfl⟩
    · refine Run.exists_foldlM (fun n hn known => ?_) known
      refine exists_visit (hread s hs) hn (fun hk => ?_) known
      exact hparts _ (mem_definitions.2 ⟨s, hs, n, hn, hk, rfl⟩)
  induction m with
  | zero => exact fun known => ⟨known, rfl⟩
  | succ m ih =>
    intro known
    obtain ⟨next, hnext⟩ := hround known
    unfold rounds
    rw [hnext]
    exact ih next

/-- **The search for data models**: the classes may come in any order and from any files. Every entry
is a class that starts a chain. Every class that starts a chain of at most five classes has an entry
under its name, which is its own if no other class has this name. -/
theorem models_chained (hread : ∀ s ∈ classes, Definitions.Legible s.source s.node)
    (hparts : ∀ c ∈ definitions classes, 2 ≤ c.node.children.length) (hapart : Apart classes)
    {order : List ClassSource} (horder : order.Perm classes) :
    ∃ t, models order = .ok t ∧
      (∀ name entry, Table.get? t name = some entry →
        ∃ c n, Chain classes n c ∧ Enters c name entry) ∧
      ∀ n c, Chain classes n c → n ≤ 5 →
        ∃ name entry, c.name = .ok name ∧ Table.get? t name = some entry ∧
          ((∀ d ∈ definitions classes, d.name = c.name → d = c) → Enters c name entry) := by
  have hsub : order ⊆ classes := horder.subset
  have hsub' := definitions_subset hsub
  obtain ⟨t, ht⟩ := exists_rounds (fun s hs => hread s (hsub hs))
    (fun c hc => hparts c (hsub' hc)) 5 []
  have hapart' : Apart order := fun s hs c hc => hapart s (hsub hs) c (hsub' hc)
  have hsound : ∀ name entry, Table.get? t name = some entry →
      ∃ c n, Chain classes n c ∧ Enters c name entry := by
    intro name entry h
    obtain ⟨c, n, hc, henters, -⟩ := founded_rounds founded_nil ht name entry h
    exact ⟨c, n, hc.mono hsub, henters⟩
  refine ⟨t, ht, hsound, fun n c hc hn => ?_⟩
  have hreached := (reached_zero []).rounds hapart' founded_nil ht
  obtain ⟨name, hname, hhas⟩ := hreached n c (hc.mono horder.symm.subset) hn
  obtain ⟨entry, hentry⟩ := Table.has_iff.1 hhas
  refine ⟨name, entry, hname, hentry, fun honly => ?_⟩
  obtain ⟨d, m, hd, henters⟩ := hsound name entry hentry
  exact honly d hd.mem_definitions (henters.name.trans hname.symm) ▸ henters

end

/-! ## A class before its bases -/

/-- The node of a statement `class N(B): pass`, from its place and the lengths of the two names. -/
def plainClass (start name base : Nat) : Node :=
  let opening := start + 6 + name
  let closing := opening + 1 + base
  .mk "class_definition" start (closing + 7) [
    .mk "class" start (start + 5) [], .mk "identifier" (start + 6) opening [],
    .mk "argument_list" opening (closing + 1) [.mk "(" opening (opening + 1) [],
      .mk "identifier" (opening + 1) closing [], .mk ")" closing (closing + 1) []],
    .mk ":" (closing + 1) (closing + 2) [],
    .mk "block" (closing + 3) (closing + 7) [.mk "pass_statement" (closing + 3) (closing + 7) []]]

def kennelSource : String := "class Kennel:\n    class Pup(Dog): pass\n"

def petSource : String := "class Dog(Pet): pass\nclass Pet(BaseModel): pass\n"

/-- A class with another one inside. -/
def kennel : ClassSource :=
  ⟨"/p/kennel.py", kennelSource, .mk "class_definition" 0 38 [.mk "class" 0 5 [],
    .mk "identifier" 6 12 [], .mk ":" 12 13 [], .mk "block" 18 38 [plainClass 18 3 3]]⟩

def pup : ClassSource := ⟨"/p/kennel.py", kennelSource, plainClass 18 3 3⟩

def dog : ClassSource := ⟨"/p/pet.py", petSource, plainClass 0 3 3⟩

def pet : ClassSource := ⟨"/p/pet.py", petSource, plainClass 21 3 9⟩

theorem definitions_pets : definitions [kennel, dog, pet] = [kennel, pup, dog, pet] := rfl

theorem chain_pup : Chain [kennel, dog, pet] 3 pup := by
  have hdefined : ∀ c ∈ [pup, dog, pet], c ∈ definitions [kennel, dog, pet] := by
    rw [definitions_pets]
    simp
  have hpet : Chain [kennel, dog, pet] 1 pet := .root (hdefined pet (by simp)) (by decide)
  have hdog : Chain [kennel, dog, pet] 2 dog :=
    .derived (hdefined dog (by simp)) (show "Pet" ∈ dog.bases by decide) rfl hpet
  exact .derived (hdefined pup (by simp)) (show "Dog" ∈ pup.bases by decide) rfl hdog

/-- A class is found though it stands inside another one, and before its bases. -/
theorem pup_found : ∃ t entry, models [kennel, dog, pet] = .ok t ∧
    Table.get? t "Pup" = some entry ∧ Enters pup "Pup" entry := by
  have hread : ∀ s ∈ [kennel, dog, pet], Definitions.Legible s.source s.node := by
    decide +kernel
  have hapart : ∀ s ∈ [kennel, dog, pet], ∀ c ∈ definitions [kennel, dog, pet],
      s.text.toOption ≠ c.name.toOption := by
    decide +kernel
  have hothers : ∀ d ∈ [kennel, dog, pet], d.name.toOption ≠ pup.name.toOption := by
    decide +kernel
  obtain ⟨t, ht, -, hall⟩ := models_chained hread (by decide +kernel)
    (fun s hs c hc name hname htext => hapart s hs c hc (by rw [hname, htext]))
    (List.Perm.refl _)
  obtain ⟨name, entry, hname, hentry, hown⟩ := hall 3 pup chain_pup (by decide)
  obtain rfl : "Pup" = name := Except.ok.inj hname
  refine ⟨t, entry, ht, hentry, hown fun d hd heq => ?_⟩
  rw [definitions_pets] at hd
  by_contra hne
  refine hothers d ?_ (by rw [heq])
  simp only [List.mem_cons, hne, false_or] at hd ⊢
  exact hd

end ModelSearch
end CodeAtlas
