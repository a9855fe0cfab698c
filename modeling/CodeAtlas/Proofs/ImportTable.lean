import CodeAtlas.Proofs.Run
import CodeAtlas.Proofs.Text
import CodeAtlas.Syntax.Survey
import Mathlib.Algebra.GroupWithZero.Nat
import Mathlib.Algebra.Order.BigOperators.Group.List
import Mathlib.Algebra.Order.Group.Nat
import Mathlib.Data.List.Forall2

/-!
# What import statements say and what the table of imports holds

An import statement names modules, or members of one module, and may rename each of them. The table
of imports is filled from the texts of its parts: the first plain name is taken for the module of all
others, a point is put after it, and a renamed one is cut at ` as `. This is what the statement says
for most statements, but not for all.

* `Import.Statement`, `Import.Statement.said`: a statement by its parts, and what it asks for;
* `Import.Shown`: the statement that a node is written as;
* `Import.weight_made`: an entry is never lighter than the one that is asked for;
* `Import.perm_made_iff`: so the same entries in another order are the same one by one;
* `Import.ofStatement_iff`: when the entries of a statement are those that it asks for;
* `Survey.imports_said_iff`: what a statement adds to the table of its file, and that this is what it
  asks for if and only if it is written without spare blanks, imports one module or renames all of
  them, and has more than points before its members;
* `Survey.plain_modules_joined`: two plain modules become one entry.
-/
namespace CodeAtlas

/-! ## Statements by their parts -/

namespace Import

/-- What may stand between the parts of a name: blanks, and the sign of a continued line. -/
def isGap (c : Char) : Bool := Text.isBlank c || c == '\\'

def Gapless (s : String) : Prop := ∀ c ∈ s.toList, isGap c = false

instance (s : String) : Decidable (Gapless s) :=
  decidable_of_iff (s.toList.all (!isGap ·) = true) (by simp [Gapless])

def bare (s : String) : String := String.ofList (s.toList.filter (!isGap ·))

/-- The word `as` with what stands around it, and another name. -/
structure Renaming where
  before : String
  after : String
  name : String

/-- An imported name as it is written. -/
structure Imported where
  name : String
  other : Option Renaming

namespace Imported

def text (w : Imported) : String :=
  match w.other with
  | none => w.name
  | some r => w.name ++ r.before ++ "as" ++ r.after ++ r.name

/-- The word `as` is set off on both sides, and the other name is a word. -/
def Proper (w : Imported) : Prop :=
  ∀ r ∈ w.other, r.before ≠ "" ∧ r.after ≠ "" ∧ Gapless r.name

/-- No spare blanks: none in the name, and one on each side of `as`. -/
def Tidy (w : Imported) : Prop :=
  Gapless w.name ∧ ∀ r ∈ w.other, r.before = " " ∧ r.after = " "

instance (w : Imported) : Decidable w.Tidy := inferInstanceAs (Decidable (_ ∧ _))

end Imported

def onlyPoints (base : String) : Bool := base.toList.all (· == '.')

def member (base name : String) : String :=
  if onlyPoints base then base ++ name else base ++ "." ++ name

/-- The entry that an imported name asks for, as a member of a module; at the top there is none. -/
def asked (base : String) (w : Imported) : Import :=
  ⟨member (bare base) (bare w.name), w.other.map Renaming.name⟩

/-- An import statement by its parts. -/
inductive Statement where
  | names (ws : List Imported)
  | members (base : String) (ws : List Imported)
  | all (base : String)

namespace Statement

def said : Statement → List Import
  | names ws => ws.map (asked "")
  | members base ws => ws.map (asked base)
  | all base => [⟨bare base, none⟩]

/-- What it takes for a statement to be read as it is meant. -/
def Faithful : Statement → Prop
  | names ws => (∀ w ∈ ws, w.Tidy) ∧ (ws.length = 1 ∨ ∀ w ∈ ws, w.other ≠ none)
  | members base ws => (∀ w ∈ ws, w.Tidy) ∧ Gapless base ∧ onlyPoints base = false
  | all base => Gapless base

instance : (s : Statement) → Decidable s.Faithful
  | names ws => inferInstanceAs (Decidable ((∀ w ∈ ws, w.Tidy) ∧ (_ ∨ ∀ w ∈ ws, w.other ≠ none)))
  | members base ws => inferInstanceAs (Decidable ((∀ w ∈ ws, w.Tidy) ∧ Gapless base ∧ _))
  | all base => inferInstanceAs (Decidable (Gapless base))

end Statement

/-! ## Nodes -/

def isPlain (c : Node) : Bool := c.kind == "dotted_name" || c.kind == "relative_import"

def isRenamed (c : Node) : Bool := c.kind == "aliased_import"

def parts (n : Node) : List Node := n.children.filter fun c => isPlain c || isRenamed c

/-- The imported name that a node is written as. A renamed one has its two names in its first and its
last child. -/
structure Shows (src : String) (c : Node) (w : Imported) : Prop where
  text : c.text src = .ok w.text
  proper : w.Proper
  plain : w.other = none → c.kind = "dotted_name"
  renamed : ∀ r ∈ w.other, c.kind = "aliased_import" ∧
    (∃ m, c.children.head? = some m ∧ m.text src = .ok w.name) ∧
    ∃ m, c.children.getLast? = some m ∧ m.text src = .ok r.name

/-- The statement that a node is written as. -/
inductive Shown (src : String) (n : Node) : Statement → Prop where
  | names {ws : List Imported} (kind : n.kind = "import_statement")
      (shows : List.Forall₂ (Shows src) (parts n) ws) (some : ws ≠ []) : Shown src n (.names ws)
  | members {base : String} {b : Node} {cs : List Node} {ws : List Imported}
      (kind : n.kind = "import_from_statement") (children : parts n = b :: cs)
      (plain : isPlain b = true) (text : b.text src = .ok base) (nonempty : base ≠ "")
      (shows : List.Forall₂ (Shows src) cs ws) (some : ws ≠ []) : Shown src n (.members base ws)
  | all {base : String} {b : Node} (kind : n.kind = "import_from_statement")
      (children : parts n = [b]) (plain : isPlain b = true) (text : b.text src = .ok base)
      (wildcard : ∃ c ∈ n.children, c.kind = "wildcard_import") : Shown src n (.all base)

/-! ## Names without gaps -/

section
variable {s base : String} {w : Imported} {r : Renaming}

theorem length_bare_le (s : String) : (bare s).length ≤ s.length := by
  rw [← String.length_toList, ← String.length_toList, bare, String.toList_ofList]
  exact List.length_filter_le _ _

theorem gapless_of_length (h : (bare s).length = s.length) : Gapless s := by
  rw [← String.length_toList, ← String.length_toList, bare, String.toList_ofList,
    List.length_filter_eq_length_iff] at h
  exact fun c hc => by simpa using h c hc

theorem bare_of_gapless (h : Gapless s) : bare s = s := by
  rw [bare, List.filter_eq_self.2 fun c hc => by simp [h c hc], String.ofList_toList]

theorem space_not_mem (h : Gapless s) : ' ' ∉ s.toList := fun hc => by
  have hspace := h _ hc
  revert hspace
  decide

/-! ## The weight of entries -/

def weight (i : Import) : Nat := i.module.length + (i.otherName.map String.length).getD 0

def made (base : String) (w : Imported) : Import :=
  match w.other with
  | none => ⟨base ++ "." ++ w.text, none⟩
  | some _ => Import.renamed base w.text

/-- What is right about the module of members: there is none, or it has no gaps and more than
points. -/
def Sound (base : String) : Prop := base = "" ∨ Gapless base ∧ onlyPoints base = false

theorem length_member (base name : String) : (member base name).length =
    base.length + name.length + if onlyPoints base then 0 else 1 := by
  unfold member
  split
  · simp
  · simp only [String.length_append]
    have hpoint : ".".length = 1 := rfl
    omega

/-- A text of two pieces is cut at its ` as `. -/
theorem renamed_of_otherName {text other : String}
    (h : (Import.renamed base text).otherName = some other) : ∃ name,
      Import.renamed base text = ⟨below base name, some other⟩ ∧
        text = name ++ " as " ++ other := by
  unfold Import.renamed at h ⊢
  split at h
  · next name other' hpieces =>
    cases h
    refine ⟨name, rfl, ?_⟩
    have hflat := Chars.flatten_intersperse_pieces " as ".toList text.toList
    have hchars : Chars.pieces " as ".toList text.toList = [name.toList, other.toList] := by
      have hmap := congrArg (List.map String.toList) hpieces
      simpa [Text.pieces, Function.comp_def] using hmap
    rw [hchars] at hflat
    rw [← String.toList_inj]
    simpa using hflat.symm
  · cases h
  · cases h

/-- Two names without gaps, and the word between them, make two pieces. -/
theorem pieces_of_gapless {name other : String} (hname : Gapless name) (hother : Gapless other) :
    Text.pieces " as " (name ++ " as " ++ other) = [name, other] := by
  have hfirst : ¬ " as ".toList <:+: name.toList ++ " as ".toList.dropLast := by
    intro hin
    -- the word has two blanks, and there is only one up to its last character
    have hcount := hin.sublist.count_le ' '
    rw [List.count_append, List.count_eq_zero.2 (space_not_mem hname)] at hcount
    revert hcount
    decide
  have hlast : ¬ " as ".toList <:+: other.toList :=
    fun hin => space_not_mem hother (hin.subset (by decide))
  have hpieces := Chars.pieces_of_cut? (by decide) (Chars.cut?_of_first hfirst other.toList)
  rw [Chars.pieces_of_absent hlast] at hpieces
  rw [Text.pieces, String.toList_append, String.toList_append, hpieces]
  simp

theorem otherName_made (h : (made base w).otherName.isSome = true) : w.other.isSome = true := by
  unfold made at h
  split at h
  · cases h
  · next hr => rw [hr]; rfl

theorem made_eq_asked (hw : w.Proper) (htidy : w.Tidy) (hsound : Sound base)
    (hbase : base = "" → w.other ≠ none) : made base w = asked base w := by
  unfold made asked
  rw [bare_of_gapless htidy.1]
  cases hr : w.other with
  | none =>
    have hne : base ≠ "" := fun he => hbase he hr
    obtain ⟨hgapless, hpoints⟩ := hsound.resolve_left hne
    simp [Imported.text, hr, bare_of_gapless hgapless, member, hpoints]
  | some r =>
    obtain ⟨hbefore, hafter⟩ := htidy.2 r hr
    have htext : w.text = w.name ++ " as " ++ r.name := by
      simp [Imported.text, hr, hbefore, hafter, String.append_assoc]
    have hrenamed : Import.renamed base w.text = ⟨below base w.name, some r.name⟩ := by
      rw [Import.renamed, htext, pieces_of_gapless htidy.1 (hw r hr).2.2]
    have hbelow : below base w.name = member (bare base) w.name := by
      rcases hsound with rfl | ⟨hgapless, hpoints⟩
      · simp [below, member, bare, onlyPoints]
      · have hne : base ≠ "" := by
          rintro rfl
          cases hpoints
        simp [below, member, bare_of_gapless hgapless, hpoints, hne]
    simp [hrenamed, hbelow]

theorem length_below (base name : String) : (below base name).length =
    name.length + if base = "" then 0 else base.length + 1 := by
  unfold below
  have hpoint : ".".length = 1 := rfl
  by_cases h : base = ""
  · simp [h]
  · simp only [beq_iff_eq, h, if_false, String.length_append]
    omega

/-- The blanks around `as` are those that a text is cut at, if there is one character on each
side. -/
theorem blanks_of_cut {name other : String} (hname : Gapless w.name) (hr : Gapless r.name)
    (hbefore : r.before.length = 1) (hafter : r.after.length = 1)
    (h : w.name ++ r.before ++ "as" ++ r.after ++ r.name = name ++ " as " ++ other) :
    r.before = " " ∧ r.after = " " := by
  rw [← String.length_toList, List.length_eq_one_iff] at hbefore hafter
  obtain ⟨b, hb⟩ := hbefore
  obtain ⟨a, ha⟩ := hafter
  have hcount := congrArg (fun s : String => s.toList.count ' ') h
  have hword : "as".toList.count ' ' = 0 := by decide
  have hcut : " as ".toList.count ' ' = 2 := by decide
  simp only [String.toList_append, List.count_append, hb, ha, hword, hcut,
    List.count_eq_zero.2 (space_not_mem hname), List.count_eq_zero.2 (space_not_mem hr),
    List.count_singleton, beq_iff_eq] at hcount
  have hblank : b = ' ' ∧ a = ' ' := by
    by_cases hbs : b = ' ' <;> by_cases has : a = ' ' <;> simp_all <;> omega
  rw [← String.toList_inj, ← String.toList_inj, hb, ha, hblank.1, hblank.2]
  exact ⟨rfl, rfl⟩

def asking (base : String) : Nat :=
  (bare base).length + if onlyPoints (bare base) then 0 else 1

theorem asking_le (base : String) : asking base ≤ base.length + 1 := by
  have hle := length_bare_le base
  unfold asking
  split <;> omega

theorem sound_of_asking (h : asking base = base.length + 1) : Sound base := by
  have hle := length_bare_le base
  unfold asking at h
  have hlength : (bare base).length = base.length := by split at h <;> omega
  have hgapless := gapless_of_length hlength
  rw [bare_of_gapless hgapless] at h
  refine .inr ⟨hgapless, ?_⟩
  split at h
  · omega
  · next hpoints => simpa using hpoints

theorem weight_asked (base : String) (w : Imported) : weight (asked base w) =
    asking base + (bare w.name).length + (w.other.map (·.name.length)).getD 0 := by
  simp only [weight, asked, asking, length_member, Option.map_map, Function.comp_def]
  omega

theorem weight_made (hw : w.Proper) (hsome : w.other.isSome = (made base w).otherName.isSome) :
    weight (asked base w) ≤ weight (made base w) ∧
      (weight (asked base w) = weight (made base w) → w.Tidy ∧ Sound base) := by
  have hname := length_bare_le w.name
  have hasking := asking_le base
  have hasked := weight_asked base w
  cases hr : w.other with
  | none =>
    have hmade : weight (made base w) = base.length + 1 + w.name.length := by
      have hpoint : ".".length = 1 := rfl
      simp [weight, made, hr, Imported.text, hpoint]
    rw [hr, Option.map_none, Option.getD_none] at hasked
    refine ⟨by omega, fun heq => ⟨⟨gapless_of_length (by omega), by simp [hr]⟩, ?_⟩⟩
    exact sound_of_asking (by omega)
  | some r =>
    obtain ⟨hbefore, hafter, hother⟩ := hw r hr
    rw [hr, Option.map_some, Option.getD_some] at hasked
    have hrenamed : made base w = Import.renamed base w.text := by simp [made, hr]
    rw [hr, hrenamed] at hsome
    obtain ⟨other, hsome⟩ := Option.isSome_iff_exists.1 hsome.symm
    obtain ⟨name, hcut, htext⟩ := renamed_of_otherName hsome
    have hshape : w.name ++ r.before ++ "as" ++ r.after ++ r.name = name ++ " as " ++ other := by
      rw [← htext, Imported.text, hr]
    have hlength := congrArg String.length hshape
    have hwords : "as".length = 2 ∧ " as ".length = 4 := ⟨rfl, rfl⟩
    simp only [String.length_append, hwords.1, hwords.2] at hlength
    have hsides : 0 < r.before.length ∧ 0 < r.after.length :=
      ⟨Nat.pos_of_ne_zero (mt String.length_eq_zero_iff.1 hbefore),
        Nat.pos_of_ne_zero (mt String.length_eq_zero_iff.1 hafter)⟩
    have hmade : weight (made base w) =
        name.length + (if base = "" then 0 else base.length + 1) + other.length := by
      simp [weight, hrenamed, hcut, length_below]
    -- at the top there is no module on either side
    have hmodule : asking base ≤ (if base = "" then 0 else base.length + 1) ∧
        (asking base = (if base = "" then 0 else base.length + 1) → Sound base) := by
      by_cases hempty : base = ""
      · rw [if_pos hempty, hempty]
        exact ⟨Nat.le_refl 0, fun _ => .inl rfl⟩
      · rw [if_neg hempty]
        exact ⟨hasking, sound_of_asking⟩
    refine ⟨by omega, fun heq => ⟨⟨gapless_of_length (by omega), fun r' hr' => ?_⟩,
      hmodule.2 (by omega)⟩⟩
    obtain rfl : r = r' := Option.some.inj (hr.symm.trans hr')
    exact blanks_of_cut (gapless_of_length (by omega)) hother (by omega) (by omega) hshape

end

/-! ## Entries in another order -/

section
variable {base : String} {ws : List Imported}

theorem eq_of_sum_eq {α : Type} {f g : α → Nat} {l : List α} (hle : ∀ a ∈ l, f a ≤ g a)
    (hsum : (l.map f).sum = (l.map g).sum) : ∀ a ∈ l, f a = g a := by
  intro a ha
  by_contra hne
  have hlt := List.sum_lt_sum f g hle ⟨a, ha, lt_of_le_of_ne (hle a ha) hne⟩
  omega

/-- The same entries in another order are the same one by one. -/
theorem perm_made_iff (hws : ∀ w ∈ ws, w.Proper) (hbase : base = "" → ∀ w ∈ ws, w.other ≠ none) :
    (ws.map (made base)).Perm (ws.map (asked base)) ↔ ∀ w ∈ ws, w.Tidy ∧ Sound base := by
  constructor
  · intro hperm
    -- as many entries are renamed as names are, so every renamed name makes a renamed entry
    have hsome : ∀ w ∈ ws, (made base w).otherName.toList.length =
        (asked base w).otherName.toList.length := by
      refine eq_of_sum_eq (fun w _ => ?_) ?_
      · cases hm : (made base w).otherName with
        | none => simp
        | some other =>
          have hmade : (made base w).otherName.isSome = true := by rw [hm]; rfl
          have hother := otherName_made hmade
          obtain ⟨r, hr⟩ := Option.isSome_iff_exists.1 hother
          simp [asked, hr]
      · have hlengths := (hperm.map fun i => i.otherName.toList.length).sum_nat
        simpa [Function.comp_def] using hlengths
    have hsame : ∀ w ∈ ws, w.other.isSome = (made base w).otherName.isSome := by
      intro w hw
      have hlength := hsome w hw
      cases hm : (made base w).otherName <;> cases hr : w.other <;> simp_all [asked]
    have hweight := (hperm.map weight).sum_nat
    rw [List.map_map, List.map_map] at hweight
    have hequal := eq_of_sum_eq
      (fun w hw => (weight_made (hws w hw) (hsame w hw)).1) hweight.symm
    exact fun w hw =>
      (weight_made (hws w hw) (hsame w hw)).2 (hequal w hw)
  · intro h
    rw [List.map_congr_left fun w hw =>
      made_eq_asked (hws w hw) (h w hw).1 (h w hw).2 fun he => hbase he w hw]

end

/-! ## Reading a statement -/

section
variable {src : String} {n : Node} {ws : List Imported}

/-- Only the parts that name something are read. -/
theorem textsWhere_filter {f k : Node → Bool} (h : ∀ c, f c = true → k c = true) :
    ∀ cs : List Node, textsWhere src f cs = textsWhere src f (cs.filter k)
  | [] => rfl
  | c :: cs => by
    cases hk : k c with
    | true => rw [List.filter_cons_of_pos hk, textsWhere, textsWhere, textsWhere_filter h cs]
    | false =>
      have hf : ¬ f c = true := fun hf => by simp [h c hf] at hk
      rw [List.filter_cons_of_neg (by simp [hk]), textsWhere, if_neg hf, textsWhere_filter h cs]

theorem Shows.isRenamed_eq {c : Node} {w : Imported} (h : Shows src c w) :
    isRenamed c = !w.other.isNone := by
  cases hr : w.other with
  | none => simp [isRenamed, h.plain hr]
  | some r => simp [isRenamed, (h.renamed r hr).1]

theorem Shows.isPlain_eq {c : Node} {w : Imported} (h : Shows src c w) :
    isPlain c = w.other.isNone := by
  cases hr : w.other with
  | none => simp [isPlain, h.plain hr]
  | some r => simp [isPlain, (h.renamed r hr).1]

theorem textsWhere_shows {f : Node → Bool} {g : Imported → Bool} {cs : List Node}
    (hf : ∀ c w, Shows src c w → f c = g w) (h : List.Forall₂ (Shows src) cs ws) :
    textsWhere src f cs = .ok ((ws.filter g).map Imported.text) := by
  induction h with
  | nil => rfl
  | @cons c w cs ws hc _ ih =>
    rw [textsWhere, hf c w hc, hc.text, ih]
    cases hg : g w with
    | true => simp [hg]; rfl
    | false => simp [hg]

theorem isRenamed_of_isPlain {c : Node} (h : isPlain c = true) : isRenamed c = false := by
  unfold isPlain at h
  unfold isRenamed
  rcases Bool.or_eq_true_iff.1 h with hk | hk <;> rw [beq_iff_eq.1 hk] <;> rfl

/-- The entries of a statement by the texts of its plain and of its renamed parts. -/
def entriesOf : List String → List String → List Import
  | base :: t :: ts, us =>
    (t :: ts).map (fun name => ⟨base ++ "." ++ name, none⟩) ++ us.map (Import.renamed base)
  | ts, us =>
    if us.isEmpty then [⟨ts.head?.getD "", none⟩] else us.map (Import.renamed (ts.head?.getD ""))

theorem ofStatement_eq {ts us : List String} (hplain : textsWhere src isPlain (parts n) = .ok ts)
    (hrenamed : textsWhere src isRenamed (parts n) = .ok us) :
    ofStatement src n = .ok (entriesOf ts us) := by
  rw [parts, ← textsWhere_filter fun c hc => by simp [hc]] at hplain hrenamed
  change (textsWhere src isPlain n.children >>= fun names =>
    textsWhere src isRenamed n.children >>= fun aliased => _) = _
  rw [hplain, hrenamed]
  match ts with
  | [] => simp only [Run.ok_bind, entriesOf]; split <;> rfl
  | [base] => simp only [Run.ok_bind, entriesOf]; split <;> rfl
  | base :: t :: ts => rfl

def plainNames (ws : List Imported) : List Imported := ws.filter (·.other.isNone)

def renamedNames (ws : List Imported) : List Imported := ws.filter (!·.other.isNone)

theorem plain_append_renamed (ws : List Imported) : (plainNames ws ++ renamedNames ws).Perm ws :=
  List.filter_append_perm _ ws

theorem map_made_plain (base : String) (ws : List Imported) : (plainNames ws).map (made base) =
    ((plainNames ws).map Imported.text).map fun t => ⟨base ++ "." ++ t, none⟩ := by
  rw [List.map_map]
  refine List.map_congr_left fun w hw => ?_
  have hnone : w.other = none := by simpa using (List.mem_filter.1 hw).2
  simp [made, hnone]

theorem map_made_renamed (base : String) (ws : List Imported) : (renamedNames ws).map (made base) =
    ((renamedNames ws).map Imported.text).map (Import.renamed base) := by
  rw [List.map_map]
  refine List.map_congr_left fun w hw => ?_
  obtain ⟨r, hr⟩ := Option.isSome_iff_exists.1 (by simpa using (List.mem_filter.1 hw).2)
  simp [made, hr]

theorem entriesOf_members {base : String} (hne : ws ≠ []) :
    entriesOf (base :: (plainNames ws).map Imported.text) ((renamedNames ws).map Imported.text) =
      (plainNames ws ++ renamedNames ws).map (made base) := by
  rw [List.map_append, map_made_plain, map_made_renamed]
  cases hp : plainNames ws with
  | cons w ps => rfl
  | nil =>
    have hsome : renamedNames ws ≠ [] := by
      intro hr
      have hperm := plain_append_renamed ws
      rw [hp, hr] at hperm
      exact hne hperm.symm.eq_nil
    simp [entriesOf, hsome]

theorem entriesOf_renamed (hne : ws ≠ []) (h : ∀ w ∈ ws, w.other ≠ none) :
    entriesOf ((plainNames ws).map Imported.text) ((renamedNames ws).map Imported.text) =
      ws.map (made "") := by
  have hplain : plainNames ws = [] :=
    List.filter_eq_nil_iff.2 fun w hw => by simpa using h w hw
  have hall : renamedNames ws = ws :=
    List.filter_eq_self.2 fun w hw => by simpa [Option.isSome_iff_ne_none] using h w hw
  have hmade := map_made_renamed "" ws
  rw [hall] at hmade
  rw [hplain, hall, hmade]
  simp [entriesOf, hne]

/-- Two or more names at the top, one of them plain, make one entry too few: the plain name is taken
for the module of the others. -/
theorem length_entriesOf {w : Imported} (hw : w ∈ ws) (hplain : w.other = none)
    (hlength : ws.length ≠ 1) :
    (entriesOf ((plainNames ws).map Imported.text)
      ((renamedNames ws).map Imported.text)).length + 1 = ws.length := by
  have hsum : (plainNames ws).length + (renamedNames ws).length = ws.length := by
    rw [← List.length_append]
    exact (plain_append_renamed ws).length_eq
  have hmem : w ∈ plainNames ws := List.mem_filter.2 ⟨hw, by simp [hplain]⟩
  match hp : plainNames ws with
  | [] => rw [hp] at hmem; cases hmem
  | [v] =>
    rw [hp, List.length_singleton] at hsum
    have hsome : renamedNames ws ≠ [] := by
      intro hr
      rw [hr] at hsum
      exact hlength hsum.symm
    simp only [List.map_cons, List.map_nil, entriesOf, List.isEmpty_map, List.isEmpty_iff, hsome,
      if_false, List.length_map]
    omega
  | v :: u :: vs =>
    rw [hp] at hsum
    simp only [List.map_cons, entriesOf, List.length_append, List.length_map, List.length_cons]
      at hsum ⊢
    omega

/-! ## Statements that are read as they are meant -/

theorem proper_of_shows {cs : List Node} (h : List.Forall₂ (Shows src) cs ws) :
    ∀ w ∈ ws, w.Proper := by
  induction h with
  | nil => simp
  | cons hc _ ih => exact List.forall_mem_cons.2 ⟨hc.proper, ih⟩

/-- A single plain name is its own entry, if it has no gaps. -/
theorem single_perm_iff (t : String) :
    [(⟨t, none⟩ : Import)].Perm [⟨bare t, none⟩] ↔ Gapless t := by
  rw [List.singleton_perm_singleton, Import.mk.injEq, and_iff_left rfl]
  refine ⟨fun h => gapless_of_length (by rw [← h]), fun h => (bare_of_gapless h).symm⟩

theorem names_perm_iff (hws : ∀ w ∈ ws, w.Proper) (hne : ws ≠ []) :
    (entriesOf ((plainNames ws).map Imported.text) ((renamedNames ws).map Imported.text)).Perm
      (Statement.names ws).said ↔ (Statement.names ws).Faithful := by
  simp only [Statement.said, Statement.Faithful]
  by_cases hall : ∀ w ∈ ws, w.other ≠ none
  · rw [entriesOf_renamed hne hall, perm_made_iff hws fun _ => hall]
    have hsound : Sound "" := .inl rfl
    exact ⟨fun h => ⟨fun w hw => (h w hw).1, .inr hall⟩, fun h w hw => ⟨h.1 w hw, hsound⟩⟩
  · obtain ⟨w, hw, hplain⟩ : ∃ w ∈ ws, w.other = none := by simpa using hall
    by_cases hone : ws.length = 1
    · obtain ⟨v, rfl⟩ := List.length_eq_one_iff.1 hone
      obtain rfl := List.mem_singleton.1 hw
      have hentries : entriesOf ((plainNames [w]).map Imported.text)
          ((renamedNames [w]).map Imported.text) = [⟨w.name, none⟩] := by
        simp [plainNames, renamedNames, entriesOf, Imported.text, hplain]
      have hasked : [w].map (asked "") = [⟨bare w.name, none⟩] := by
        simp [asked, member, onlyPoints, bare, hplain]
      rw [hentries, hasked, single_perm_iff]
      simp [Imported.Tidy, hplain]
    · have hlength := length_entriesOf hw hplain hone
      refine iff_of_false (fun hperm => ?_) fun h => h.2.elim hone hall
      have hsame := hperm.length_eq
      rw [List.length_map] at hsame
      omega

theorem members_perm_iff {base : String} (hws : ∀ w ∈ ws, w.Proper) (hne : ws ≠ [])
    (hbase : base ≠ "") :
    (entriesOf (base :: (plainNames ws).map Imported.text)
      ((renamedNames ws).map Imported.text)).Perm (Statement.members base ws).said ↔
        (Statement.members base ws).Faithful := by
  simp only [Statement.said, Statement.Faithful]
  rw [entriesOf_members hne, ((plain_append_renamed ws).map _).congr_left,
    perm_made_iff hws fun he => absurd he hbase]
  obtain ⟨v, hv⟩ := List.exists_mem_of_ne_nil ws hne
  constructor
  · exact fun h => ⟨fun w hw => (h w hw).1, (h v hv).2.resolve_left hbase⟩
  · exact fun h w hw => ⟨h.1 w hw, .inr h.2⟩

theorem ofStatement_iff {s : Statement} (h : Shown src n s) :
    ∃ entries, ofStatement src n = .ok entries ∧ (entries.Perm s.said ↔ s.Faithful) := by
  cases h with
  | @names ws kind shows some =>
    have hplain := textsWhere_shows (fun _ _ hc => hc.isPlain_eq) shows
    have hrenamed := textsWhere_shows (fun _ _ hc => hc.isRenamed_eq) shows
    exact ⟨_, ofStatement_eq hplain hrenamed, names_perm_iff (proper_of_shows shows) some⟩
  | @members base b cs ws kind children plain text nonempty shows some =>
    have hplain : textsWhere src isPlain (parts n) =
        .ok (base :: (plainNames ws).map Imported.text) := by
      rw [children, textsWhere, if_pos plain, text,
        textsWhere_shows (fun _ _ hc => hc.isPlain_eq) shows]
      rfl
    have hrenamed : textsWhere src isRenamed (parts n) =
        .ok ((renamedNames ws).map Imported.text) := by
      rw [children, textsWhere, isRenamed_of_isPlain plain,
        textsWhere_shows (fun _ _ hc => hc.isRenamed_eq) shows]
      rfl
    exact ⟨_, ofStatement_eq hplain hrenamed,
      members_perm_iff (proper_of_shows shows) some nonempty⟩
  | @all base b kind children plain text wildcard =>
    have hplain : textsWhere src isPlain (parts n) = .ok [base] := by
      rw [children, textsWhere, if_pos plain, text]
      rfl
    have hrenamed : textsWhere src isRenamed (parts n) = .ok [] := by
      rw [children, textsWhere, isRenamed_of_isPlain plain]
      rfl
    exact ⟨_, ofStatement_eq hplain hrenamed, single_perm_iff base⟩

end
end Import

/-! ## The table of a file -/

namespace Survey
open Import (Shown Statement)

variable {src : String} {n root : Node} {before after : List Node} {s : Statement}

theorem followedBy_assoc (a b c : Survey) :
    (a.followedBy b).followedBy c = a.followedBy (b.followedBy c) := by
  cases ha : a.ended with
  | some e => simp [followedBy, ha]
  | none => cases hb : b.ended <;> simp [followedBy, ha, hb]

theorem sequence_append (as bs : List Survey) :
    sequence (as ++ bs) = (sequence as).followedBy (sequence bs) := by
  induction as with
  | nil => simp [sequence, followedBy, empty]
  | cons a as ih => rw [List.cons_append, sequence, ih, sequence, followedBy_assoc]

theorem imports_followedBy {a : Survey} (h : a.ended = none) (b : Survey) :
    (a.followedBy b).imports = a.imports ++ b.imports := by
  simp [followedBy, imports, h]

theorem ofTopLevel_import {entries : List Import} (h : Shown src n s)
    (hentries : Import.ofStatement src n = .ok entries) :
    ofTopLevel src n = ⟨entries.map .imported, none⟩ := by
  have hkind : (n.kind == "import_from_statement" || n.kind == "import_statement") = true := by
    cases h with
    | names kind => simp [kind]
    | members kind => simp [kind]
    | all kind => simp [kind]
  rw [ofTopLevel, if_pos hkind, hentries]
  rfl

theorem imports_imported (entries : List Import) :
    imports ⟨entries.map .imported, none⟩ = entries := by
  simp [imports, List.filterMap_map]

/-- **The table of imports**: an import statement adds one entry to the table for each name that it
imports, the one that it asks for, if and only if it is faithful: there are no spare blanks in its
names and around `as`, it imports a single module or renames all of them, and the module of its
members has more than points. -/
theorem imports_said_iff (h : Shown src n s) (hroot : root.children = before ++ n :: after)
    (hbefore : (sequence (before.map (ofTopLevel src))).ended = none) :
    ∃ entries, (ofTree src root).imports = (sequence (before.map (ofTopLevel src))).imports ++
        entries ++ (sequence (after.map (ofTopLevel src))).imports ∧
      (entries.Perm s.said ↔ s.Faithful) := by
  obtain ⟨entries, hentries, hiff⟩ := Import.ofStatement_iff h
  refine ⟨entries, ?_, hiff⟩
  rw [ofTree, hroot, List.map_append, List.map_cons, sequence_append, imports_followedBy hbefore,
    sequence, ofTopLevel_import h hentries, imports_followedBy rfl, imports_imported,
    List.append_assoc]

/-- Two members of a module nearby, one of them renamed. -/
def memberSource : String := "from .a import b as c, d\n"

def renamedMember : Node :=
  .mk "aliased_import" 15 21 [
    .mk "dotted_name" 15 16 [], .mk "as" 17 19 [], .mk "identifier" 20 21 []]

def memberStatement : Node :=
  .mk "import_from_statement" 0 24 [
    .mk "from" 0 4 [], .mk "relative_import" 5 7 [], .mk "import" 8 14 [], renamedMember,
    .mk "," 21 22 [], .mk "dotted_name" 23 24 []]

def memberTree : Node := .mk "module" 0 25 [memberStatement]

def memberNames : List Import.Imported := [⟨"b", some ⟨" ", " ", "c"⟩⟩, ⟨"d", none⟩]

theorem members_listed :
    Shown memberSource memberStatement (.members ".a" memberNames) ∧
    (ofTree memberSource memberTree).imports.Perm [⟨".a.b", some "c"⟩, ⟨".a.d", none⟩] := by
  have hrenamed : Import.Shows memberSource renamedMember ⟨"b", some ⟨" ", " ", "c"⟩⟩ := by
    refine ⟨Run.eq_ok_of_toOption (by decide), ?_, by simp, ?_⟩
    · rintro r ⟨⟩
      exact ⟨by decide, by decide, by decide⟩
    · rintro r ⟨⟩
      exact ⟨rfl, ⟨_, rfl, Run.eq_ok_of_toOption (by decide)⟩,
        _, rfl, Run.eq_ok_of_toOption (by decide)⟩
  have hplain : Import.Shows memberSource (.mk "dotted_name" 23 24 []) ⟨"d", none⟩ :=
    ⟨Run.eq_ok_of_toOption (by decide), by rintro r ⟨⟩, fun _ => rfl, by rintro r ⟨⟩⟩
  have hshown : Shown memberSource memberStatement (.members ".a" memberNames) :=
    .members rfl rfl rfl (Run.eq_ok_of_toOption (by decide)) (by decide)
      (.cons hrenamed (.cons hplain .nil)) (by simp [memberNames])
  have hroot : memberTree.children = [] ++ memberStatement :: [] := rfl
  obtain ⟨entries, hentries, hiff⟩ := imports_said_iff hshown hroot rfl
  have hfaithful : (Statement.members ".a" memberNames).Faithful := by decide
  have hempty : (sequence (([] : List Node).map (ofTopLevel memberSource))).imports = [] := rfl
  have hsaid : (Statement.members ".a" memberNames).said =
      [⟨".a.b", some "c"⟩, ⟨".a.d", none⟩] := by decide
  refine ⟨hshown, ?_⟩
  rw [hentries, hempty, List.nil_append, List.append_nil, ← hsaid]
  exact hiff.2 hfaithful

def modulesSource : String := "import p, q\n"

def modulesStatement : Node :=
  .mk "import_statement" 0 11 [
    .mk "import" 0 6 [], .mk "dotted_name" 7 8 [], .mk "," 8 9 [], .mk "dotted_name" 10 11 []]

def modulesTree : Node := .mk "module" 0 12 [modulesStatement]

/-- The first module is taken for a package of the second one, and neither is in the table. -/
theorem plain_modules_joined :
    Shown modulesSource modulesStatement (.names [⟨"p", none⟩, ⟨"q", none⟩]) ∧
    (Statement.names [⟨"p", none⟩, ⟨"q", none⟩]).said = [⟨"p", none⟩, ⟨"q", none⟩] ∧
    (ofTree modulesSource modulesTree).imports = [⟨"p.q", none⟩] := by
  have hshows (a b : Nat) (x : String)
      (h : (Node.mk "dotted_name" a b []).text modulesSource = .ok x) :
      Import.Shows modulesSource (.mk "dotted_name" a b []) ⟨x, none⟩ :=
    ⟨h, by rintro r ⟨⟩, fun _ => rfl, by rintro r ⟨⟩⟩
  have hp := hshows 7 8 "p" (Run.eq_ok_of_toOption (by decide))
  have hq := hshows 10 11 "q" (Run.eq_ok_of_toOption (by decide))
  exact ⟨.names rfl (.cons hp (.cons hq .nil)) (by simp), by decide, by decide⟩

end Survey
end CodeAtlas
