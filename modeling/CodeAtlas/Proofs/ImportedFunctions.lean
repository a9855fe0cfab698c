import CodeAtlas.Proofs.CallPass
import CodeAtlas.Proofs.ResolvedTargets

/-!
# Functions that are imported

An import of a function names a module by its parts, possibly after leading points. The search looks
for the parts, joined by slashes, in the paths of the source files; leading points put as many of
the importing file's own folders before them, counted from the last one.

* `Resolve.place_importPath`: where an import points;
* `Resolve.functionTarget_eq_iff`: when a plain name is resolved to a function of that name;
* `Calls.import_requested_iff`: a function that only one file can mean is found, and the call is
  asked for unless the calling file shares the identifier with another one;
* `Calls.nested_copy_misled`: it does, where the text of the directory occurs twice in a path;
* `Resolve.relative_import_iff`: an import with one point leads to the file it means unless a class
  or bound name stands in the way; one with more points does not, unless folders happen to repeat;
* `Resolve.parent_import_missed`: with two points the folder of the file is not left.
-/
namespace CodeAtlas

namespace Resolve

variable {t : FileTree} {index : FileIndex} {directory file : String} {e : FileEntry}

/-! ## Where an import points -/

/-- A name as the grammar has it: not empty, without points and colons. -/
def Word (s : String) : Prop := s ≠ "" ∧ '.' ∉ s.toList ∧ ':' ∉ s.toList

instance (s : String) : Decidable (Word s) :=
  inferInstanceAs (Decidable (s ≠ "" ∧ '.' ∉ s.toList ∧ ':' ∉ s.toList))

/-- What an import of a name says: leading points, the parts of the module, the name. -/
def importPath (points : Nat) (parts : List String) (g : String) : String :=
  String.ofList (List.replicate points '.') ++ ".".intercalate (parts ++ [g])

def foldersOf (file : String) : List String := (Text.fields '/' file).dropLast

section
variable {points : Nat} {parts : List String} {g : String}

theorem points_of_words {names : List String} (h : ∀ s ∈ names, Word s) :
    (".".intercalate names).toList.takeWhile (· == '.') = [] ∧
      (".".intercalate names).toList.dropWhile (· == '.') = (".".intercalate names).toList := by
  cases names with
  | nil => simp
  | cons s names =>
    obtain ⟨hempty, hdot, -⟩ := h s List.mem_cons_self
    obtain ⟨c, cs, hc⟩ := List.exists_cons_of_ne_nil (mt String.toList_eq_nil_iff.1 hempty)
    rw [hc, List.mem_cons, not_or] at hdot
    rw [String.toList_intercalate]
    cases names <;> simp [hc, Ne.symm hdot.1]

section
variable (hnames : ∀ s ∈ parts ++ [g], Word s)
include hnames

theorem takeWhile_importPath :
    (importPath points parts g).toList.takeWhile (· == '.') = List.replicate points '.' := by
  rw [importPath, String.toList_append, String.toList_ofList,
    List.takeWhile_append_of_pos (by simp [List.mem_replicate]), (points_of_words hnames).1,
    List.append_nil]

theorem trimLeft_importPath :
    Text.trimLeft '.' (importPath points parts g) = ".".intercalate (parts ++ [g]) := by
  rw [Text.trimLeft, importPath, String.toList_append, String.toList_ofList,
    List.dropWhile_append_of_pos (by simp [List.mem_replicate]), (points_of_words hnames).2,
    String.ofList_toList]

theorem startsWith_importPath :
    Text.startsWith "." (importPath points parts g) = decide (0 < points) := by
  cases points with
  | succ k => simp [Text.startsWith, importPath, List.replicate_succ, Chars.after?]
  | zero =>
    have htake : (importPath 0 parts g).toList.takeWhile (· == '.') = [] :=
      takeWhile_importPath hnames
    unfold Text.startsWith
    cases hl : (importPath 0 parts g).toList with
    | nil => rfl
    | cons c cs =>
      have hc : c ≠ '.' := by
        rintro rfl
        simp [hl] at htake
      simp [Chars.after?, Ne.symm hc]

end

/-- The last folders of the importing file and the parts of the module say where to look, the name
says what to look for. -/
theorem place_importPath (hparts : ∀ a ∈ parts, Word a) (hg : Word g)
    (hpoints : points ≤ (foldersOf file).length) :
    place file (importPath points parts g) =
      ("/".intercalate ((foldersOf file).drop ((foldersOf file).length - points) ++ parts), g) := by
  have hnames : ∀ s ∈ parts ++ [g], Word s := by
    simpa [or_imp, forall_and] using ⟨hparts, hg⟩
  have hfields : Text.fields '.' (".".intercalate (parts ++ [g])) = parts ++ [g] :=
    Text.fields_intercalate rfl (fun s hs => (hnames s hs).2.1) (by simp)
  unfold place
  rw [startsWith_importPath hnames, takeWhile_importPath hnames, trimLeft_importPath hnames,
    hfields, List.length_replicate]
  cases points with
  | zero =>
    have hplain : importPath 0 parts g = ".".intercalate (parts ++ [g]) := by simp [importPath]
    rw [hplain, hfields]
    simp
  | succ k =>
    have hkept : k + 1 ≤ (Text.fields '/' file).dropLast.length := hpoints
    simp only [Nat.zero_lt_succ, decide_true, if_true, hkept]
    simp [foldersOf]

/-- The last of some joined parts stand at the end. -/
theorem intercalate_isSuffix (sep : String) (front : List String) {rest : List String}
    (hrest : rest ≠ []) :
    (sep.intercalate rest).toList <:+ (sep.intercalate (front ++ rest)).toList := by
  by_cases hfront : front = []
  · subst hfront
    exact List.suffix_rfl
  · rw [String.intercalate_append_of_ne_nil hfront hrest, String.toList_append]
    exact List.suffix_append _ _

theorem contains_importPath (points : Nat) (parts : List String) (g : String) :
    Text.contains g (importPath points parts g) = true := by
  have hend := intercalate_isSuffix "." parts (List.cons_ne_nil g [])
  rw [String.intercalate_singleton] at hend
  rw [Text.contains_iff, importPath, String.toList_append]
  exact (hend.trans (List.suffix_append _ _)).isInfix

theorem importPath_ne_empty (hg : Word g) : importPath points parts g ≠ "" := by
  intro h
  have hcontains := contains_importPath points parts g
  rw [h, Text.contains_iff, String.toList_empty, List.infix_nil,
    String.toList_eq_nil_iff] at hcontains
  exact hg.1 hcontains

theorem find?_answersTo {before after : List Import} {i : Import}
    (hbefore : ∀ j ∈ before, j.otherName ≠ some g ∧ Text.contains g j.module = false)
    (hi : Text.contains g i.module = true) :
    (before ++ i :: after).find? (answersTo g) = some i := by
  have hnone : before.find? (answersTo g) = none := by
    rw [List.find?_eq_none]
    intro j hj
    simp [answersTo, hbefore j hj]
  rw [List.find?_append, hnone, List.find?_cons_of_pos (by simp [answersTo, hi])]
  rfl

end

/-! ## Functions of the called name -/

section
variable {g q : String} {i : Import}

theorem method_ne (c g : String) : c ++ "." ++ g ≠ g := by
  intro h
  have hlength := congrArg String.length h
  simp only [String.length_append] at hlength
  have hdot : ".".length = 1 := rfl
  omega

section
variable (hroot : Path.isRooted directory = true) (hi : e.imports.find? (answersTo g) = some i)
  (hne : i.module ≠ "") (hlast : Text.last '.' i.module = g)
include hroot hi hne hlast

theorem importedTarget_of_chosen : importedTarget t index directory file e g g =
    firstIn index (pickCallable g g) (t.sourcesWith directory (place file i.module).1) := by
  have hmodule : importOf (some g) e.imports = .ok (some i.module) := by rw [importOf_some, hi]; rfl
  have hthrough : importedTarget t index directory file e g g =
      firstIn index (pickCallable (Text.last '.' i.module) g)
        (candidates t directory (place file i.module).1) := throughImport_of_chosen hmodule hne
  rw [hthrough, hlast, candidates_eq hroot]

/-- A function is found in the first file that knows its name, if it is not known there as a class
or as bound to a call. -/
theorem importedTarget_eq_iff :
    importedTarget t index directory file e g g = .ok (some ⟨q, some g⟩) ↔
      ∃ f, FirstAmong index (fun f => Owns g f ∨ Defines g f)
        (t.sourcesWith directory (place file i.module).1) q f ∧ ¬ Owns g f := by
  rw [importedTarget_of_chosen hroot hi hne hlast,
    firstIn_eq_some_iff fun _ => pickCallable_eq_none_iff]
  refine exists_congr fun f => and_congr_right fun hfirst => ?_
  rw [pickCallable_eq_some_iff]
  constructor
  · rintro (hmethod | ⟨hnot, -⟩)
    · obtain ⟨c, hc⟩ := pickMethod_named hmethod
      exact absurd (Option.some.inj hc).symm (method_ne c g)
    · exact hnot
  · exact fun hnot => Or.inr ⟨hnot, hfirst.holds.resolve_left hnot, rfl⟩

end

/-- A plain name is resolved to a function of that name if it is not bound to something that can be
found, and its import leads to the function. -/
theorem functionTarget_eq_iff (he : Table.get? index file = some e) (hg : '.' ∉ g.toList) :
    functionTarget t index directory file g = .ok ⟨q, some g⟩ ↔
      boundTarget t index directory file e g g = .ok none ∧
        importedTarget t index directory file e g g = .ok (some ⟨q, some g⟩) := by
  rw [functionTarget_eq he, firstAndRest_of_not_mem hg]
  constructor
  · intro h
    obtain ⟨bound, hbound, h⟩ := Run.bind_eq_ok h
    cases bound with
    | some target =>
      obtain ⟨c, hc⟩ := boundTarget_named hbound
      rw [Except.ok.inj h] at hc
      exact absurd (Option.some.inj hc).symm (method_ne c g)
    | none =>
      obtain ⟨imported, himported, h⟩ := Run.bind_eq_ok h
      refine ⟨hbound, ?_⟩
      cases imported with
      | none => cases h
      | some target =>
        obtain rfl : target = ⟨q, some g⟩ := Except.ok.inj h
        exact himported
  · rintro ⟨hbound, himported⟩
    simp only [hbound, Run.ok_bind, himported]
    rfl

end

/-- The index holds files of the walk below a directory from the root. -/
structure Walked (t : FileTree) (index : FileIndex) (directory : String) : Prop where
  rooted : Path.isRooted directory = true
  met : ∀ p e, Table.get? index p = some e → p ∈ t.sources directory

theorem forall_entry {P : String → FileEntry → Prop} (h : ∀ x ∈ index, P x.1 x.2) (p : String)
    (f : FileEntry) (hf : Table.get? index p = some f) : P p f :=
  h (p, f) (Table.mem_of_get? hf)

theorem walked_of_parts (hroot : Path.isRooted directory = true)
    (files : List (List String × String))
    (h : ∀ x ∈ index, x.1 ∈ t.files.keys ∧ ∃ y ∈ files, Path.Proper (y.1 ++ [y.2]) ∧
      x.1 = FileTree.inside directory ++ "/".intercalate (y.1 ++ [y.2]) ∧
      FileTree.isSource y.2 = true) : Walked t index directory := by
  have hne : directory ≠ "" := by
    rintro rfl
    cases hroot
  refine ⟨hroot, forall_entry fun x hx => ?_⟩
  obtain ⟨hfile, y, -, hparts, hpath, hsource⟩ := h x hx
  exact FileTree.mem_sources hne y.1 y.2 hparts hpath hsource hfile

/-! ## Imports with leading points -/

/-- The file that is meant: one point stands for the folder of the importing file, each further one
for a folder less. -/
def packageFile (directory : String) (folders parts : List String) (points : Nat) : String :=
  directory ++ "/" ++ "/".intercalate (folders.take (folders.length + 1 - points) ++ parts) ++ ".py"

/-- The text that paths are searched for: as many of the last folders as there are points. -/
def soughtPath (folders parts : List String) (points : Nat) : String :=
  "/".intercalate (folders.drop (folders.length - points) ++ parts)

/-- A file in some folders below the directory imports a function after leading points. The file
mentions it in no other import, and no file but the one that is meant defines it. -/
structure RelativeImport (index : FileIndex) (directory file : String) (e : FileEntry)
    (folders parts : List String) (points : Nat) (g : String) : Prop where
  entry : Table.get? index file = some e
  path : ∃ base, file = directory ++ "/" ++ "/".intercalate (folders ++ [base]) ∧
    ∀ s ∈ folders ++ [base], '/' ∉ s.toList
  within : 1 ≤ points ∧ points ≤ folders.length
  module : parts ≠ [] ∧ ∀ a ∈ parts, Word a
  word : Word g
  imported : ∃ before after, e.imports = before ++ ⟨importPath points parts g, none⟩ :: after ∧
    ∀ i ∈ before ++ after, i.otherName ≠ some g ∧ Text.contains g i.module = false
  defined : ∃ f, Table.get? index (packageFile directory folders parts points) = some f ∧
    Defines g f
  only : ∀ p f, Table.get? index p = some f → Defines g f →
    p = packageFile directory folders parts points

/-- Up to a file of a walk, no file with a text in its path knows a name as a class or as bound to a
call. -/
def Clear (t : FileTree) (index : FileIndex) (directory part g q : String) : Prop :=
  ∃ before after, t.sources directory = before ++ q :: after ∧ q ∉ before ∧
    ∀ p ∈ q :: before, Text.contains part p = true →
      ∀ f, Table.get? index p = some f → ¬ Owns g f

section
variable {folders parts : List String} {points : Nat} {g q part : String} {f : FileEntry}

/-- The only file that defines a function is the first one to know its name, and not as that of a
class, if it is among the files that are searched and the way to it is clear. -/
theorem firstAmong_iff_clear (hf : Table.get? index q = some f) (hdefines : Defines g f)
    (honly : ∀ p f, Table.get? index p = some f → Defines g f → p = q) :
    (∃ f, FirstAmong index (fun f => Owns g f ∨ Defines g f) (t.sourcesWith directory part) q f ∧
      ¬ Owns g f) ↔
      Text.contains part q = true ∧ Clear t index directory part g q := by
  constructor
  · rintro ⟨f', ⟨hf', hholds, front, back, hsplit, hfront⟩, howns⟩
    -- the files before it in the walk are those before it in the search, and some without the text
    obtain ⟨passed, rest, hsources, rfl, hrest⟩ := List.filter_eq_append_iff.1 hsplit
    obtain ⟨skipped, after, rfl, hskipped, hcontains, -⟩ := List.filter_eq_cons_iff.1 hrest
    have hpassed : ∀ p ∈ passed, Text.contains part p = true →
        ∀ f, Table.get? index p = some f → ¬ (Owns g f ∨ Defines g f) :=
      fun p hp hpart => hfront p (List.mem_filter.2 ⟨hp, hpart⟩)
    refine ⟨hcontains, passed ++ skipped, after, by rw [hsources, List.append_assoc], ?_, ?_⟩
    · rw [List.mem_append, not_or]
      exact ⟨fun hq => hpassed q hq hcontains f' hf' hholds, fun hq => hskipped q hq hcontains⟩
    · intro p hp hpart h hh
      rcases List.mem_cons.1 hp with rfl | hp
      · rwa [Option.some.inj (hh.symm.trans hf')]
      · rcases List.mem_append.1 hp with hp | hp
        · exact fun how => hpassed p hp hpart h hh (Or.inl how)
        · exact absurd hpart (hskipped p hp)
  · rintro ⟨hcontains, before, after, hsources, hbefore, hclear⟩
    have hsplit : t.sourcesWith directory part =
        before.filter (Text.contains part) ++ q :: after.filter (Text.contains part) := by
      rw [FileTree.sourcesWith, hsources, List.filter_append, List.filter_cons_of_pos hcontains]
    refine ⟨f, ⟨hf, Or.inr hdefines, _, _, hsplit, ?_⟩,
      hclear q List.mem_cons_self hcontains f hf⟩
    intro p hp h hh
    obtain ⟨hmem, hpart⟩ := List.mem_filter.1 hp
    rintro (how | hdef)
    · exact hclear p (List.mem_cons_of_mem q hmem) hpart h hh how
    · exact hbefore (honly p h hh hdef ▸ hmem)

theorem clear_of_not_owns (hq : q ∈ t.sources directory)
    (h : ∀ p f, Table.get? index p = some f → ¬ Owns g f) : Clear t index directory part g q := by
  obtain ⟨before, after, hsources, hbefore⟩ := List.eq_append_cons_of_mem hq
  exact ⟨before, after, hsources, hbefore, fun p _ _ f hf => h p f hf⟩

namespace RelativeImport

theorem foldersOf_eq (h : RelativeImport index directory file e folders parts points g) :
    foldersOf file = Text.fields '/' directory ++ folders := by
  obtain ⟨base, rfl, hslash⟩ := h.path
  have hinner : Text.fields '/' ("/".intercalate (folders ++ [base])) = folders ++ [base] :=
    Text.fields_intercalate rfl hslash (by simp)
  rw [foldersOf, Path.fields_below, hinner, ← List.append_assoc, List.dropLast_concat]

theorem chosen (h : RelativeImport index directory file e folders parts points g) :
    e.imports.find? (answersTo g) = some ⟨importPath points parts g, none⟩ := by
  obtain ⟨before, after, himports, hothers⟩ := h.imported
  rw [himports]
  exact find?_answersTo (fun i hi => hothers i (List.mem_append_left after hi))
    (contains_importPath points parts g)

theorem place_eq (h : RelativeImport index directory file e folders parts points g) :
    place file (importPath points parts g) = (soughtPath folders parts points, g) := by
  have hlength : points ≤ (foldersOf file).length := by
    rw [h.foldersOf_eq, List.length_append]
    exact Nat.le_trans h.within.2 (Nat.le_add_left _ _)
  rw [place_importPath h.module.2 h.word hlength, h.foldersOf_eq, List.length_append,
    Nat.add_sub_assoc h.within.2, List.drop_length_add_append, soughtPath]

theorem importedTarget_eq (h : RelativeImport index directory file e folders parts points g)
    (hroot : Path.isRooted directory = true) : importedTarget t index directory file e g g =
      firstIn index (pickCallable g g)
        (t.sourcesWith directory (soughtPath folders parts points)) := by
  have hlast : Text.last '.' (importPath points parts g) = g := by rw [← place_snd file, h.place_eq]
  rw [importedTarget_of_chosen hroot h.chosen (importPath_ne_empty h.word) hlast, h.place_eq]

theorem contains_soughtPath (h : RelativeImport index directory file e folders parts points g)
    (hone : points = 1) :
    Text.contains (soughtPath folders parts points) (packageFile directory folders parts points) =
      true := by
  have hne : folders.drop (folders.length - 1) ++ parts ≠ [] := by simp [h.module.1]
  have hend := intercalate_isSuffix "/" (folders.take (folders.length - 1)) hne
  rw [← List.append_assoc, List.take_append_drop] at hend
  rw [Text.contains_iff, hone, soughtPath, packageFile, Nat.add_sub_cancel, List.take_length]
  simp only [String.toList_append]
  exact (hend.trans (List.suffix_append _ _)).isInfix.trans (List.prefix_append _ _).isInfix

end RelativeImport

/-- **Imports with leading points**: the function is found in the file that is meant if and only if
its name is not bound to something else, the way is clear, and there is one point, or the path of
the file happens to contain the folders that more points leave in place. -/
theorem relative_import_iff (hw : Walked t index directory)
    (h : RelativeImport index directory file e folders parts points g) :
    functionTarget t index directory file g =
        .ok ⟨packageFile directory folders parts points, some g⟩ ↔
      boundTarget t index directory file e g g = .ok none ∧
      (points = 1 ∨ Text.contains (soughtPath folders parts points)
        (packageFile directory folders parts points) = true) ∧
      Clear t index directory (soughtPath folders parts points) g
        (packageFile directory folders parts points) := by
  obtain ⟨f, hf, hdefines⟩ := h.defined
  have hlast : Text.last '.' (importPath points parts g) = g := by rw [← place_snd file, h.place_eq]
  rw [functionTarget_eq_iff h.entry h.word.2.1,
    importedTarget_eq_iff hw.rooted h.chosen (importPath_ne_empty h.word) hlast, h.place_eq,
    firstAmong_iff_clear hf hdefines h.only, or_iff_right_of_imp h.contains_soughtPath]

end

/-- A file that imports a function from one beside it. -/
def sibling : FileIndex :=
  [("/p/a/s.py", ⟨[], [], [], ["/a/s.py:g"]⟩),
   ("/p/a/x.py", ⟨[⟨".s.g", none⟩], [], [], ["/a/x.py:f"]⟩)]

def siblingTree : FileTree := .named (sibling.map fun x => (x.1, .empty)) []

/-- One point leads to the file beside another one. -/
theorem sibling_import_found :
    Walked siblingTree sibling "/p" ∧
    (∃ e, RelativeImport sibling "/p" "/p/a/x.py" e ["a"] ["s"] 1 "g") ∧
    functionTarget siblingTree sibling "/p" "/p/a/x.py" "g" = .ok ⟨"/p/a/s.py", some "g"⟩ := by
  have hwalked : Walked siblingTree sibling "/p" :=
    walked_of_parts (by decide) [(["a"], "s.py"), (["a"], "x.py")] (by decide)
  have himport : RelativeImport sibling "/p" "/p/a/x.py" _ ["a"] ["s"] 1 "g" :=
    { entry := rfl
      path := ⟨"x.py", by decide, by decide⟩
      within := by decide
      module := by decide
      word := by decide
      imported := ⟨[], [], rfl, by simp⟩
      defined := ⟨_, rfl, "/a/s.py:g", by decide, by decide⟩
      only := forall_entry (by decide) }
  have hclear : Clear siblingTree sibling "/p" (soughtPath ["a"] ["s"] 1) "g"
      (packageFile "/p" ["a"] ["s"] 1) :=
    clear_of_not_owns (hwalked.met _ _ rfl) (forall_entry (by decide))
  exact ⟨hwalked, ⟨_, himport⟩,
    (relative_import_iff hwalked himport).2 ⟨rfl, Or.inl rfl, hclear⟩⟩

/-- A file that imports a function from the folder above its own. -/
def parent : FileIndex :=
  [("/p/a/s.py", ⟨[], [], [], ["/a/s.py:g"]⟩),
   ("/p/a/b/x.py", ⟨[⟨"..s.g", none⟩], [], [], ["/a/b/x.py:f"]⟩)]

def parentTree : FileTree := .named (parent.map fun x => (x.1, .empty)) []

/-- Two points do not leave the folder of a file, so the function above is not found. -/
theorem parent_import_missed :
    Walked parentTree parent "/p" ∧
    (∃ e, RelativeImport parent "/p" "/p/a/b/x.py" e ["a", "b"] ["s"] 2 "g") ∧
    packageFile "/p" ["a", "b"] ["s"] 2 = "/p/a/s.py" ∧
    functionTarget parentTree parent "/p" "/p/a/b/x.py" "g" = .ok ⟨"/p/a/b/x.py", none⟩ := by
  have hwalked : Walked parentTree parent "/p" :=
    walked_of_parts (by decide) [(["a"], "s.py"), (["a", "b"], "x.py")] (by decide)
  have himport : RelativeImport parent "/p" "/p/a/b/x.py" _ ["a", "b"] ["s"] 2 "g" :=
    { entry := rfl
      path := ⟨"x.py", by decide, by decide⟩
      within := by decide
      module := by decide
      word := by decide
      imported := ⟨[], [], rfl, by simp⟩
      defined := ⟨_, rfl, "/a/s.py:g", by decide, by decide⟩
      only := forall_entry (by decide) }
  -- the search is for a file in the importing file's own folder, and none is indexed there
  have houtside : ∀ p f, Table.get? parent p = some f →
      ¬ Text.contains (soughtPath ["a", "b"] ["s"] 2) p = true := forall_entry (by decide)
  have hnone : firstIn parent (pickCallable "g" "g")
      (parentTree.sourcesWith "/p" (soughtPath ["a", "b"] ["s"] 2)) = .ok none :=
    firstIn_eq_none (fun _ => pickCallable_eq_none_iff)
      fun p hp f hf => absurd (List.mem_filter.1 hp).2 (houtside p f hf)
  refine ⟨hwalked, ⟨_, himport⟩, by decide, ?_⟩
  rw [functionTarget_eq himport.entry, firstAndRest_of_not_mem (by decide),
    himport.importedTarget_eq hwalked.rooted, hnone]
  rfl

end Resolve

/-! ## Calls of imported functions -/

namespace Calls
open Resolve GraphCommand

variable {t : FileTree} {s : Scope} {e : FileEntry} {parts : List String} {caller g q : String}

/-- In every world with these files, connecting a function with what a name means is asking the
graph for one call, and nothing else. -/
def Requests (t : FileTree) (s : Scope) (caller name id : String) : Prop :=
  ∀ (w : World) (p : ProjectKey), w.files = t → (connect s p caller name).ends w =
    (GraphService.connect (.str caller) (.str id) p GraphService.callProperties).ends w

theorem requests_of_target {name id : String} (h : target? t s name = .ok (some id)) :
    Requests t s caller name id := by
  intro w p hw
  rw [connect, Run.ends_bind_ok _ (Run.ends_get w), hw, h]
  rfl

/-- What is asked for can be told from what the graph notes. -/
theorem Requests.unique {name id id' : String} (h : Requests t s caller name id)
    (h' : Requests t s caller name id') : id = id' := by
  let w : World := { World.vacant with files := t }
  have hends := (h w (.number 1) rfl).symm.trans (h' w (.number 1) rfl)
  have hafter := congrArg (fun x => x.2.log) hends
  have hlog (id : String) : ((GraphService.connect (.str caller) (.str id) (.number 1)
      GraphService.callProperties).ends w).2.log =
        [.called (.str caller) (.str id) (.number 1) GraphService.callProperties] :=
    congrArg World.log (after_connect (w := w) rfl (.str caller) (.str id) (.number 1)
      GraphService.callProperties)
  simp only [hlog] at hafter
  simpa using hafter

/-- An import of a function that only one file can mean: the calling file neither binds nor defines
the name, no import before it mentions the name, and one file of the index has the path of the
module in its own. That file defines the function, and no class or bound name like it. -/
structure Unambiguous (s : Scope) (e : FileEntry) (parts : List String) (g q : String) : Prop where
  entry : Table.get? s.index s.file = some e
  unbound : Table.get? e.instances g = none
  foreign : identifier s.directory s.file g ∉ e.functions
  module : parts ≠ [] ∧ ∀ a ∈ parts, Word a
  word : Word g
  imported : ∃ before after, e.imports = before ++ ⟨importPath 0 parts g, none⟩ :: after ∧
    ∀ i ∈ before, i.otherName ≠ some g ∧ Text.contains g i.module = false
  defined : ∃ f, Table.get? s.index q = some f ∧ identifier s.directory q g ∈ f.functions ∧
    g ∉ f.classes ∧ Table.get? f.instances g = none
  path : Text.contains ("/".intercalate parts) q = true
  only : ∀ p f, Table.get? s.index p = some f → Text.contains ("/".intercalate parts) p = true →
    p = q

theorem last_identifier (directory path : String) (hg : Word g) :
    Text.last ':' (identifier directory path g) = g :=
  Text.last_of_toList (l := (Text.remove directory path).toList) (by simp [identifier]) hg.2.2

theorem functionTarget_of_unambiguous (hw : Walked t s.index s.directory)
    (h : Unambiguous s e parts g q) :
    functionTarget t s.index s.directory s.file g = .ok ⟨q, some g⟩ := by
  obtain ⟨before, after, himports, hbefore⟩ := h.imported
  obtain ⟨f, hf, hid, hclass, hinstance⟩ := h.defined
  have hplace := place_importPath h.module.2 h.word (Nat.zero_le (foldersOf s.file).length)
  have hchosen : e.imports.find? (answersTo g) = some ⟨importPath 0 parts g, none⟩ := by
    rw [himports]
    exact find?_answersTo hbefore (contains_importPath 0 parts g)
  have hlast : Text.last '.' (importPath 0 parts g) = g := by rw [← place_snd s.file, hplace]
  have hknown : Owns g f ∨ Defines g f := Or.inr ⟨_, hid, last_identifier s.directory q h.word⟩
  have howns : ¬ Owns g f := by simp [Owns, hclass, hinstance]
  rw [functionTarget_eq_iff h.entry h.word.2.1]
  refine ⟨by simp [boundTarget, boundTo, h.unbound], ?_⟩
  rw [importedTarget_eq_iff hw.rooted hchosen (importPath_ne_empty h.word) hlast, hplace]
  simp only [Nat.sub_zero, List.drop_length, List.nil_append]
  -- the only indexed file among the candidates is the one that defines the function
  have hmem : q ∈ t.sourcesWith s.directory ("/".intercalate parts) :=
    List.mem_filter.2 ⟨hw.met q f hf, h.path⟩
  rcases exists_firstAmong s.index (fun f => Owns g f ∨ Defines g f)
      (t.sourcesWith s.directory ("/".intercalate parts)) with hnone | ⟨p, f', hfirst⟩
  · exact absurd hknown (hnone q hmem f hf)
  · obtain rfl := h.only p f' hfirst.entry (List.mem_filter.1 hfirst.mem).2
    obtain rfl : f' = f := Option.some.inj (hfirst.entry.symm.trans hf)
    exact ⟨f', hfirst, howns⟩

def Once (directory path : String) : Prop :=
  ∃ below, path = directory ++ below ∧ Text.contains directory below = false

theorem remove_of_once {directory below : String} (hroot : Path.isRooted directory = true)
    (h : Text.contains directory below = false) :
    Text.remove directory (directory ++ below) = below := by
  have hne : directory.toList ≠ [] := by
    intro hnil
    simp [Path.isRooted, hnil] at hroot
  rw [Text.remove, Text.swap, String.toList_append, String.toList_empty, Chars.swap_append hne h,
    String.ofList_toList]

/-- Identifiers of different files are different, if the text of the directory occurs in their paths
at the beginning only. -/
theorem identifier_inj {directory path path' n n' : String} (hroot : Path.isRooted directory = true)
    (hpath : Once directory path) (hpath' : Once directory path') (hn : ':' ∉ n.toList)
    (hn' : ':' ∉ n'.toList) (h : identifier directory path n = identifier directory path' n') :
    path = path' ∧ n = n' := by
  obtain ⟨below, rfl, hbelow⟩ := hpath
  obtain ⟨below', rfl, hbelow'⟩ := hpath'
  simp only [identifier, remove_of_once hroot hbelow, remove_of_once hroot hbelow'] at h
  have hlast (below : String) {n : String} (hn : ':' ∉ n.toList) :
      Text.last ':' (below ++ ":" ++ n) = n := Text.last_of_toList (l := below.toList) (by simp) hn
  obtain rfl : n = n' := by rw [← hlast below hn, h, hlast below' hn']
  have hbelows : below = below' := by simpa [← String.toList_inj] using h
  exact ⟨by rw [hbelows], rfl⟩

/-- **Calls of imported functions**: a function that only one file can mean is found. The call of it
is asked for if and only if the identifier that the function would have in the calling file is not
that of some other function of the project; so always, if the text of the directory occurs in no
path but at its beginning. -/
theorem import_requested_iff (hw : Walked t s.index s.directory)
    (hdefined : ∀ id, id ∈ s.defined ↔ ∃ p f, Table.get? s.index p = some f ∧ id ∈ f.functions)
    (h : Unambiguous s e parts g q) (caller : String) :
    functionTarget t s.index s.directory s.file g = .ok ⟨q, some g⟩ ∧
    (Requests t s caller g (identifier s.directory q g) ↔
      (identifier s.directory s.file g ∈ s.defined →
        identifier s.directory s.file g = identifier s.directory q g)) ∧
    ((∀ p f, Table.get? s.index p = some f → Once s.directory p ∧
        ∀ id ∈ f.functions, ∃ n, ':' ∉ n.toList ∧ id = identifier s.directory p n) →
      Requests t s caller g (identifier s.directory q g)) := by
  have htarget := functionTarget_of_unambiguous hw h
  obtain ⟨f, hf, hid, -, -⟩ := h.defined
  have hq : identifier s.directory q g ∈ s.defined := (hdefined _).2 ⟨q, f, hf, hid⟩
  have hforeign (hown : identifier s.directory s.file g ∉ s.defined) :
      Requests t s caller g (identifier s.directory q g) := by
    apply requests_of_target
    simp only [target?, meant?, List.contains_iff_mem, hown, if_false, htarget, Run.ok_bind]
    simp [Option.filter, h.word.1, hq, pure, Except.pure, bind, Except.bind]
  have hown (hown : identifier s.directory s.file g ∈ s.defined) :
      Requests t s caller g (identifier s.directory s.file g) := by
    apply requests_of_target
    simp only [target?, meant?, List.contains_iff_mem, hown, if_true]
    simp [Option.filter, hown, pure, Except.pure, bind, Except.bind]
  refine ⟨htarget, ⟨fun hrequests hmem => (hown hmem).unique hrequests, fun hsame => ?_⟩,
    fun honce => hforeign fun hmem => ?_⟩
  · by_cases hmem : identifier s.directory s.file g ∈ s.defined
    · exact hsame hmem ▸ hown hmem
    · exact hforeign hmem
  · obtain ⟨p, f', hf', hid'⟩ := (hdefined _).1 hmem
    obtain ⟨n, hn, heq⟩ := (honce p f' hf').2 _ hid'
    obtain ⟨hfile, rfl⟩ := identifier_inj hw.rooted (honce _ e h.entry).1 (honce p f' hf').1
      h.word.2.2 hn heq
    obtain rfl : e = f' := Option.some.inj (h.entry.symm.trans (hfile ▸ hf'))
    exact h.foreign hid'

/-! ## Two small projects -/

def definedBy (index : FileIndex) : List String := index.flatMap fun x => x.2.functions

theorem mem_definedBy {index : FileIndex} (h : (Table.keys index).Nodup) (id : String) :
    id ∈ definedBy index ↔ ∃ p f, Table.get? index p = some f ∧ id ∈ f.functions := by
  simp [definedBy, Table.get?_eq_some_iff h]

def importing : FileIndex :=
  [("/p/m.py", ⟨[⟨"os", none⟩, ⟨"lib.u.g", none⟩], [], [], ["/m.py:h"]⟩),
   ("/p/lib/u.py", ⟨[], [], [], ["/lib/u.py:g"]⟩)]

def importingTree : FileTree := .named [("/p/lib/u.py", .empty), ("/p/m.py", .empty)] []

def importingScope : Scope := ⟨"/p", "/p/m.py", importing, definedBy importing⟩

/-- The call of an imported function is asked for. -/
theorem imported_call_requested :
    Requests importingTree importingScope "/m.py:h" "g" "/lib/u.py:g" := by
  have hwalked : Walked importingTree importing "/p" :=
    walked_of_parts (by decide) [([], "m.py"), (["lib"], "u.py")] (by decide)
  have hlib : identifier "/p" "/p/lib/u.py" "g" = "/lib/u.py:g" := by cbv
  have hown : identifier "/p" "/p/m.py" "g" = "/m.py:g" := by cbv
  have honly : ∀ p f, Table.get? importing p = some f → Text.contains "lib/u" p = true →
      p = "/p/lib/u.py" := forall_entry (by decide)
  have himport : Unambiguous importingScope _ ["lib", "u"] "g" "/p/lib/u.py" :=
    { entry := rfl
      unbound := rfl
      foreign := by rw [importingScope, hown]; decide
      module := by decide
      word := by decide
      imported := ⟨[⟨"os", none⟩], [], rfl, by decide⟩
      defined := ⟨_, rfl, by rw [importingScope, hlib]; decide, by decide, rfl⟩
      path := by decide
      only := honly }
  have hrequested :=
    (import_requested_iff hwalked (mem_definedBy (by decide)) himport "/m.py:h").2.1
  rw [importingScope, hlib, hown] at hrequested
  exact hrequested.2 fun hmem => absurd hmem (by decide)

/-- A project that holds a copy of its own folder. -/
def nested : FileIndex :=
  [("/projects/d/util.py", ⟨[], [], [], ["/util.py:g"]⟩),
   ("/projects/d/x/m.py", ⟨[], [], [], ["/x/m.py:g"]⟩),
   ("/projects/d/x/projects/d/m.py", ⟨[⟨"util.g", none⟩], [], [], ["/x/m.py:h"]⟩)]

def nestedTree : FileTree := .named (nested.map fun x => (x.1, .empty)) []

def nestedScope : Scope :=
  ⟨"/projects/d", "/projects/d/x/projects/d/m.py", nested, definedBy nested⟩

/-- In the copy an imported function is found, but a call of another one is asked for. -/
theorem nested_copy_misled :
    Walked nestedTree nested "/projects/d" ∧
    (∃ e, Unambiguous nestedScope e ["util"] "g" "/projects/d/util.py") ∧
    identifier "/projects/d" "/projects/d/util.py" "g" = "/util.py:g" ∧
    Requests nestedTree nestedScope "/x/m.py:h" "g" "/x/m.py:g" ∧
    ¬ Requests nestedTree nestedScope "/x/m.py:h" "g" "/util.py:g" := by
  have hutil : identifier "/projects/d" "/projects/d/util.py" "g" = "/util.py:g" := by cbv
  have hown : identifier "/projects/d" "/projects/d/x/projects/d/m.py" "g" = "/x/m.py:g" := by cbv
  have htarget : target? nestedTree nestedScope "g" = .ok (some "/x/m.py:g") := by
    simp only [target?, meant?, nestedScope, hown]
    rfl
  have hrequests : Requests nestedTree nestedScope "/x/m.py:h" "g" "/x/m.py:g" :=
    requests_of_target htarget
  have honly : ∀ p f, Table.get? nested p = some f → Text.contains "util" p = true →
      p = "/projects/d/util.py" := forall_entry (by decide)
  have hwalked : Walked nestedTree nested "/projects/d" :=
    walked_of_parts (by decide) [([], "util.py"), (["x"], "m.py"), (["x", "projects", "d"], "m.py")]
      (by decide)
  have himport : Unambiguous nestedScope _ ["util"] "g" "/projects/d/util.py" :=
    { entry := rfl
      unbound := rfl
      foreign := by rw [nestedScope, hown]; decide
      module := by decide
      word := by decide
      imported := ⟨[], [], rfl, by simp⟩
      defined := ⟨_, rfl, by rw [nestedScope, hutil]; decide, by decide, rfl⟩
      path := by decide
      only := honly }
  exact ⟨hwalked, ⟨_, himport⟩, hutil, hrequests,
    fun h => absurd (hrequests.unique h) (by decide)⟩

end Calls
end CodeAtlas
