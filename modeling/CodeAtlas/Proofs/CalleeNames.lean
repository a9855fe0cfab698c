import CodeAtlas.Proofs.Run
import CodeAtlas.Proofs.Text
import CodeAtlas.Syntax.Definition

/-!
# The names of callees

A callee is written as names joined by points. An attribute holds the last of them beside the node of
the others, so that the names nest to the left, but only the identifiers among its direct children
are read: two names are seen, of more only the last one. Inside a class every `self.` is taken for
the class, also at the end of a longer name.

* `Names`: the names that a callee is written with;
* `ofCall_names`: what is read of them;
* `callee_named_iff`: the whole chain is read, with nothing but a leading `self.` replaced, exactly
  for one name, and for two unless the first one ends in `self` without being it;
* `inner_attribute_dropped`: of three names the last one is left.
-/
namespace CodeAtlas.Callee

variable {src : String}

/-- An identifier of the source. -/
structure Word (src : String) (n : Node) (x : String) : Prop where
  kind : n.kind = "identifier"
  text : n.text src = .ok x
  nonempty : x ≠ ""
  plain : '.' ∉ x.toList

/-- A node that is written as names joined by points: an identifier, or an attribute of such a node.
What else stands in an attribute, its point above all, names nothing. -/
inductive Names (src : String) : Node → List String → Prop where
  | single {n : Node} {x : String} (word : Word src n x) : Names src n [x]
  | member {n object last : Node} {between : List Node} {xs : List String} {x : String}
      (kind : n.kind = "attribute") (children : n.children = object :: (between ++ [last]))
      (inner : Names src object xs)
      (silent : ∀ c ∈ between, c.kind ≠ "identifier" ∧ c.kind ≠ "call")
      (word : Word src last x) : Names src n (xs ++ [x])

/-- A leading `self.` read as the class around the call, and nothing else changed. -/
def ofSelf (owner : Option String) (name : String) : String :=
  match owner, Chars.after? "self.".toList name.toList with
  | some c, some rest => c ++ "." ++ String.ofList rest
  | _, _ => name

/-- What is seen of names joined by points: one or two as they are, of more the last one. -/
def seen (xs : List String) : String :=
  if xs.length ≤ 2 then ".".intercalate xs else xs.getLast?.getD ""

/-! ## Reading an attribute -/

theorem Names.ne_nil {n : Node} {xs : List String} (h : Names src n xs) : xs ≠ [] := by
  cases h <;> simp

theorem Names.plain {n : Node} {xs : List String} (h : Names src n xs) :
    ∀ x ∈ xs, '.' ∉ x.toList := by
  induction h with
  | single word =>
    intro x hx
    obtain rfl := List.mem_singleton.1 hx
    exact word.plain
  | member kind children inner silent word ih =>
    intro x hx
    rcases List.mem_append.1 hx with hx | hx
    · exact ih x hx
    · obtain rfl := List.mem_singleton.1 hx
      exact word.plain

theorem joined_silent {cs ds : List Node} (h : ∀ c ∈ cs, c.kind ≠ "identifier" ∧ c.kind ≠ "call")
    (name : Option String) : joined src name (cs ++ ds) = joined src name ds := by
  induction cs with
  | nil => rfl
  | cons c cs ih =>
    rw [List.forall_mem_cons] at h
    rw [List.cons_append, joined, if_neg (by simpa using h.1.2), if_neg (by simpa using h.1.1),
      ih h.2]

theorem joined_word {c : Node} {x : String} (h : Word src c x) (name : Option String)
    (cs : List Node) : joined src name (c :: cs) =
      joined src (some (if name.getD "" = "" then x else name.getD "" ++ "." ++ x)) cs := by
  rw [joined, if_neg (by simp [h.kind]), if_pos (by simp [h.kind]), h.text, Run.ok_bind]
  cases name with
  | none => rfl
  | some n => by_cases hn : n = "" <;> simp [hn]

theorem joined_attribute {n object last : Node} {between : List Node} {xs : List String}
    {x : String} (children : n.children = object :: (between ++ [last]))
    (inner : Names src object xs)
    (silent : ∀ c ∈ between, c.kind ≠ "identifier" ∧ c.kind ≠ "call") (word : Word src last x) :
    joined src none n.children = .ok (some (seen (xs ++ [x]))) := by
  rw [children]
  cases inner with
  | single first =>
    rw [joined_word first, joined_silent silent, joined_word word]
    simp [joined, first.nonempty, seen]
  | @member _ _ _ _ ys y kind _ inner =>
    have hlength : ¬ (ys ++ [y] ++ [x]).length ≤ 2 := by
      have hpos := List.length_pos_iff.2 inner.ne_nil
      simp only [List.length_append, List.length_singleton]
      omega
    rw [joined, if_neg (by simp [kind]), if_neg (by simp [kind]), joined_silent silent,
      joined_word word, seen, if_neg hlength]
    simp [joined]

/-! ## The class around a call -/

section
variable {x y : List Char}

theorem self_absent (hx : '.' ∉ x) : ¬ "self.".toList <:+: x :=
  fun h => hx (h.subset (by decide))

/-- In two names `self.` can only be the end of the first one and the point. -/
theorem self_occurs_iff (hx : '.' ∉ x) (hy : '.' ∉ y) :
    "self.".toList <:+: x ++ '.' :: y ↔ "self".toList <:+ x := by
  constructor
  · rintro ⟨s, t, hst⟩
    have hsplit : x ++ '.' :: y = (s ++ "self".toList) ++ '.' :: t := by
      rw [← hst]
      simp
    obtain ⟨rfl, -, -⟩ := (List.append_cons_inj_of_notMem hx hy).1 hsplit
    exact List.suffix_append s _
  · rintro ⟨s, rfl⟩
    exact ⟨s, y, by simp⟩

end

section
variable {x y c : String} (hx : '.' ∉ x.toList) (hy : '.' ∉ y.toList)
include hx hy

theorem ofSelf_pair :
    ofSelf (some c) (x ++ "." ++ y) = (if x = "self" then c else x) ++ "." ++ y := by
  have hlead {rest : List Char} : Chars.after? "self.".toList (x ++ "." ++ y).toList = some rest ↔
      x = "self" ∧ y.toList = rest := by
    have hself : "self.".toList ++ rest = "self".toList ++ '.' :: rest := by simp
    have hlist : (x ++ "." ++ y).toList = x.toList ++ '.' :: y.toList := by simp
    rw [Chars.after?_eq_some, hlist, hself, List.append_cons_inj_of_notMem hx hy,
      String.toList_inj]
    simp
  unfold ofSelf
  by_cases hself : x = "self"
  · rw [hlead.2 ⟨hself, rfl⟩, if_pos hself]
    simp
  · rw [if_neg hself]
    split
    · next hafter => exact absurd (hlead.1 hafter).1 hself
    · rfl

/-- Two names are read as they are meant, unless the first one ends in `self` without being it. -/
theorem swap_pair_iff :
    Text.swap "self." (c ++ ".") (x ++ "." ++ y) = ofSelf (some c) (x ++ "." ++ y) ↔
      ("self".toList <:+ x.toList → x = "self" ∨ c = "self") := by
  have hlist : (x ++ "." ++ y).toList = x.toList ++ '.' :: y.toList := by simp
  rw [ofSelf_pair hx hy]
  by_cases hself : "self".toList <:+ x.toList
  · obtain ⟨front, hfront⟩ := hself
    obtain ⟨front, rfl⟩ : ∃ s : String, s.toList = front := ⟨String.ofList front, by simp⟩
    obtain rfl : front ++ "self" = x := by simpa [← String.toList_inj] using hfront
    have hpoint : '.' ∉ front.toList ++ "self".toList := by simpa using hx
    have hswap : Text.swap "self." (c ++ ".") (front ++ "self" ++ "." ++ y) =
        front ++ c ++ "." ++ y := by
      have hsplit : (front ++ "self" ++ "." ++ y).toList =
          front.toList ++ "self.".toList ++ y.toList := by simp
      rw [Text.swap, hsplit, Chars.swap_of_once _
        (fun hin => hpoint (hin.subset (by decide))) (self_absent hy)]
      simp [← String.toList_inj]
    have hempty : front ++ "self" = "self" ↔ front = "" := by
      constructor
      · intro h
        have hlength := congrArg String.length h
        rw [String.length_append] at hlength
        exact String.length_eq_zero_iff.1 (by omega)
      · rintro rfl
        rfl
    rw [hswap]
    by_cases hfront : front = ""
    · simp [hfront]
    · rw [if_neg (mt hempty.1 hfront), String.append_left_inj, String.append_left_inj,
        String.append_right_inj]
      have hsuffix : "self".toList <:+ (front ++ "self").toList := by simp
      exact ⟨fun hc _ => .inr hc, fun h => (h hsuffix).resolve_left (mt hempty.1 hfront)⟩
  · have hsame : Text.swap "self." (c ++ ".") (x ++ "." ++ y) = x ++ "." ++ y := by
      rw [Text.swap, Chars.swap_of_absent _ (by rwa [hlist, self_occurs_iff hx hy]),
        String.ofList_toList]
    have hne : x ≠ "self" := by
      rintro rfl
      exact hself List.suffix_rfl
    rw [hsame, if_neg hne]
    exact iff_of_true rfl fun h => absurd h hself

end

theorem point_ofSelf {name : String} (h : '.' ∈ name.toList) (owner : Option String) :
    '.' ∈ (ofSelf owner name).toList := by
  unfold ofSelf
  split
  · simp
  · exact h

/-! ## Reading a call -/

section
variable {call callee : Node} {rest : List Node} {xs : List String} {owner : Option String}

/-- A name in the class around a call, as it is read. -/
def swapped (owner : Option String) (name : String) : String :=
  match owner with
  | some c => Text.swap "self." (c ++ ".") name
  | none => name

theorem swapped_plain {x : String} (h : '.' ∉ x.toList) (owner : Option String) :
    swapped owner x = x := by
  cases owner with
  | none => rfl
  | some c => rw [swapped, Text.swap, Chars.swap_of_absent _ (self_absent h), String.ofList_toList]

theorem ofCall_names (h : Names src callee xs) (hcall : call.children = callee :: rest)
    (howner : ∀ c ∈ owner, c ≠ "") :
    ofCall src owner call = .ok (some (swapped owner (seen xs))) := by
  rw [ofCall, hcall, ofChildren]
  cases h with
  | @single _ x word =>
    have hx : seen [x] = x := by simp [seen]
    rw [if_pos (by simp [word.kind]), word.text, Run.ok_bind, hx, swapped_plain word.plain]
    rfl
  | member kind children inner silent word =>
    rw [if_neg (by simp [kind]), if_pos (by simp [kind]),
      joined_attribute children inner silent word, Run.ok_bind]
    cases owner with
    | none => rfl
    | some c => simp [inClass, swapped, howner c rfl]

/-- **The name of a callee**: a call with a callee of joined names is always read as some name, of
more than two names as the last one. It is the whole chain, with nothing but a leading `self.`
replaced by the class, if and only if there are at most two names, and inside a class the first of
two does not end in `self` without being it. -/
theorem callee_named_iff (h : Names src callee xs) (hcall : call.children = callee :: rest)
    (howner : ∀ c ∈ owner, c ≠ "") :
    ∃ name, ofCall src owner call = .ok (some name) ∧
      (2 < xs.length → xs.getLast? = some name) ∧
      (name = ofSelf owner (".".intercalate xs) ↔ xs.length ≤ 2 ∧
        ∀ c ∈ owner, ∀ x y, xs = [x, y] → "self".toList <:+ x.toList → x = "self" ∨ c = "self") := by
  have hplain := h.plain
  refine ⟨_, ofCall_names h hcall howner, ?_⟩
  match xs, h.ne_nil with
  | [x], _ =>
    have hx := hplain x List.mem_cons_self
    have hself : ofSelf owner x = x := by
      unfold ofSelf
      split
      · next hafter =>
        have hlead := Chars.after?_eq_some.1 hafter
        exact absurd (hlead ▸ List.infix_append_left) (self_absent hx)
      · rfl
    refine ⟨fun hlong => by simp at hlong, ?_⟩
    simp [seen, hself, swapped_plain hx]
  | [x, y], _ =>
    have hx := hplain x List.mem_cons_self
    have hy := hplain y (List.mem_cons_of_mem x List.mem_cons_self)
    have hpair : ".".intercalate [x, y] = x ++ "." ++ y := by simp
    refine ⟨fun hlong => by simp at hlong, ?_⟩
    cases owner with
    | none => simp [seen, swapped, ofSelf]
    | some c =>
      have hread := swap_pair_iff (c := c) hx hy
      simpa [seen, swapped, hpair] using hread
  | x :: y :: z :: zs, _ =>
    obtain ⟨w, hw⟩ : ∃ w, (x :: y :: z :: zs).getLast? = some w :=
      ⟨_, List.getLast?_eq_some_getLast (List.cons_ne_nil _ _)⟩
    have hplainw := hplain w (List.mem_of_getLast? hw)
    have hseen : swapped owner (seen (x :: y :: z :: zs)) = w := by
      rw [seen, if_neg (by simp), hw]
      exact swapped_plain hplainw owner
    rw [hseen]
    refine ⟨fun _ => hw, fun hname => ?_, fun hshort => absurd hshort.1 (by simp)⟩
    -- the last name has no point, the chain has one with or without the class
    have hpoint : '.' ∈ (".".intercalate (x :: y :: z :: zs)).toList := by simp
    exact absurd (hname ▸ point_ofSelf hpoint owner) hplainw

end

/-! ## Two calls -/

def methodCallSource : String := "self.save(x)\n"

def methodCallee : Node :=
  .mk "attribute" 0 9 [.mk "identifier" 0 4 [], .mk "." 4 5 [], .mk "identifier" 5 9 []]

def methodCall : Node := .mk "call" 0 12 [methodCallee, .mk "argument_list" 9 12 []]

theorem method_call_named : Names methodCallSource methodCallee ["self", "save"] ∧
    ofCall methodCallSource (some "Store") methodCall = .ok (some "Store.save") := by
  have hself : Word methodCallSource (.mk "identifier" 0 4 []) "self" :=
    ⟨rfl, Run.eq_ok_of_toOption (by decide), by decide, by decide⟩
  have hsave : Word methodCallSource (.mk "identifier" 5 9 []) "save" :=
    ⟨rfl, Run.eq_ok_of_toOption (by decide), by decide, by decide⟩
  have hpoint : ∀ c ∈ [Node.mk "." 4 5 []], c.kind ≠ "identifier" ∧ c.kind ≠ "call" := by
    simp [Node.kind]
  have hnames : Names methodCallSource methodCallee (["self"] ++ ["save"]) :=
    .member rfl rfl (.single hself) hpoint hsave
  have hcallee : methodCall.children = [methodCallee, .mk "argument_list" 9 12 []] := rfl
  have howner : ∀ c ∈ some "Store", c ≠ "" := by simp
  obtain ⟨name, hname, -, hiff⟩ := callee_named_iff hnames hcallee howner
  have hmeant := hiff.2 ⟨by simp, by simp⟩
  refine ⟨hnames, ?_⟩
  rw [hname, hmeant]
  decide

/-- A call through an attribute of an attribute. -/
def chainSource : String := "a.b.c()\n"

def chainCallee : Node :=
  .mk "attribute" 0 5 [
    .mk "attribute" 0 3 [.mk "identifier" 0 1 [], .mk "." 1 2 [], .mk "identifier" 2 3 []],
    .mk "." 3 4 [], .mk "identifier" 4 5 []]

def chainCall : Node := .mk "call" 0 7 [chainCallee, .mk "argument_list" 5 7 []]

/-- Of the three names the last one is left, as if a function of that name were called. -/
theorem inner_attribute_dropped : Names chainSource chainCallee ["a", "b", "c"] ∧
    ofCall chainSource none chainCall = .ok (some "c") := by
  have hword (a b : Nat) (x : String) (h : (Node.mk "identifier" a b []).text chainSource = .ok x)
      (hne : x ≠ "" ∧ '.' ∉ x.toList) : Word chainSource (.mk "identifier" a b []) x :=
    ⟨rfl, h, hne.1, hne.2⟩
  have ha := hword 0 1 "a" (Run.eq_ok_of_toOption (by decide)) (by decide)
  have hb := hword 2 3 "b" (Run.eq_ok_of_toOption (by decide)) (by decide)
  have hc := hword 4 5 "c" (Run.eq_ok_of_toOption (by decide)) (by decide)
  have hpoint (a b : Nat) :
      ∀ c ∈ [Node.mk "." a b []], c.kind ≠ "identifier" ∧ c.kind ≠ "call" := by
    simp [Node.kind]
  have hinner : Names chainSource (.mk "attribute" 0 3 [.mk "identifier" 0 1 [], .mk "." 1 2 [],
      .mk "identifier" 2 3 []]) (["a"] ++ ["b"]) := .member rfl rfl (.single ha) (hpoint 1 2) hb
  have hnames : Names chainSource chainCallee (["a", "b"] ++ ["c"]) :=
    .member rfl rfl hinner (hpoint 3 4) hc
  exact ⟨hnames, Run.eq_ok_of_toOption (by decide)⟩

end CodeAtlas.Callee
