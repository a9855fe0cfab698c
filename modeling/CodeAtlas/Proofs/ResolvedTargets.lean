import CodeAtlas.Proofs.CalledNames
import CodeAtlas.Proofs.FileTree

/-!
# What a name is resolved to, and when it cannot be

The search for a name has two stages. A name that is bound to a call stands for what the call calls;
if that leads nowhere, the name itself is looked for. In both stages an import of the file is
chosen, and the source files below the directory are asked for what it ends in.

* `Resolve.candidates_eq`: below a directory from the root, the files asked are those of the walk;
* `Resolve.target_found`: what is found is in the index, in a file that the import points to, and
  known there;
* `Resolve.functionTarget_error_iff`: the ways in which the search fails, each of which meets a name
  that is bound to a call without a named callee;
* `Resolve.exists_functionTarget`: it does not fail where every such callee is named;
* `Resolve.name_resolved_iff`: the names that can be resolved;
* `Resolve.unnamed_binding_fails`: a file of two lines with a name that cannot.
-/
namespace CodeAtlas

namespace Resolve

variable {t : FileTree} {index : FileIndex} {directory file : String} {e : FileEntry}
  {key : Option String} {name first rest : String}

theorem candidates_eq (hroot : Path.isRooted directory = true) (part : String) :
    candidates t directory part = t.sourcesWith directory part := by
  have hjoin : ∀ p ∈ t.sourcesWith directory part, Path.join directory p = id p := fun p hp =>
    if_pos (FileTree.isRooted_of_mem_sources hroot (List.mem_filter.1 hp).1)
  rw [candidates, List.map_congr_left hjoin, List.map_id]

theorem mem_candidates_iff (hroot : Path.isRooted directory = true) {part p : String} :
    p ∈ candidates t directory part ↔
      p ∈ t.sources directory ∧ Text.contains part p = true := by
  rw [candidates_eq hroot]
  exact List.mem_filter

/-! ## The parts of a name, and the import for it -/

def Parted (name first rest : String) : Prop :=
  '.' ∉ first.toList ∧ name = first ++ "." ++ rest ∨ '.' ∉ name.toList ∧ first = name ∧ rest = name

theorem firstAndRest_of_parted (h : Parted name first rest) :
    firstAndRest name = (first, rest) := by
  rcases h with ⟨hfirst, rfl⟩ | ⟨hname, rfl, rfl⟩
  · have hfields : Text.fields '.' (first ++ "." ++ rest) = first :: Text.fields '.' rest := by
      have hcut := Text.fields_of_toList (c := '.') (s := first ++ "." ++ rest) (a := first)
        (b := rest) (by simp)
      rw [hcut, Text.fields, Text.splitOn_of_not_mem hfirst]
      simp
    have hrest : ".".intercalate (Text.fields '.' rest) = rest := Text.intercalate_fields rfl rest
    have hne : Text.fields '.' rest ≠ [] := by simp [Text.fields]
    obtain ⟨r, rs, hr⟩ := List.exists_cons_of_ne_nil hne
    rw [hr] at hfields hrest
    simp [firstAndRest, hfields, hrest]
  · exact firstAndRest_of_not_mem hname

def taken (key : Option String) (i : Import) : Bool :=
  i.otherName = key || key.any (Text.contains · i.module)

theorem importOf_eq_ok {imports : List Import} {found : Option String}
    (h : importOf key imports = .ok found) :
    found = (imports.find? (taken key)).map Import.module := by
  cases key with
  | some n =>
    rw [importOf_some] at h
    exact (Except.ok.inj h).symm
  | none =>
    cases imports with
    | nil => exact (Except.ok.inj h).symm
    | cons i imports =>
      unfold importOf at h
      split at h
      · next hother => simp [taken, hother, ← Except.ok.inj h]
      · cases h

/-- Only for the missing name of a callee the choice may fail: if the first import is renamed. -/
theorem importOf_error_iff {imports : List Import} :
    (∃ err, importOf key imports = .error err) ↔
      key = none ∧ ∃ i is, imports = i :: is ∧ i.otherName ≠ none := by
  cases key with
  | some n => simp [importOf_some]
  | none =>
    cases imports with
    | nil => simp [importOf]
    | cons i imports =>
      unfold importOf
      by_cases hother : i.otherName = none <;> simp [hother]

/-! ## What is found -/

/-- What a target is called in its file: a method of a class, a method of what a name is bound to,
or a function. -/
inductive KnownAs (f : FileEntry) (rest : String) : String → Prop where
  | method {c : String} (h : c ∈ f.classes) : KnownAs f rest (c ++ "." ++ rest)
  | bound {n v : String} (h : (n, some v) ∈ f.instances) : KnownAs f rest (v ++ "." ++ rest)
  | function {id : String} (h : id ∈ f.functions) : KnownAs f rest (Text.last ':' id)

/-- A source file of the walk whose path contains the path of the import that is taken for a name,
or for what the name is bound to. -/
def PointedTo (t : FileTree) (directory file : String) (e : FileEntry) (first p : String) : Prop :=
  ∃ key i, (key = some first ∨ Table.get? e.instances first = some key) ∧
    e.imports.find? (taken key) = some i ∧ p ∈ t.sources directory ∧
    Text.contains (place file i.module).1 p = true

theorem knownAs_of_pickMethod {f : FileEntry} {found : Option String}
    (h : pickMethod name rest f = .ok (some found)) : ∃ n, found = some n ∧ KnownAs f rest n := by
  rcases pickMethod_eq_some_iff.1 h with ⟨hclass, rfl⟩ | ⟨-, v, hbound, rfl⟩
  · exact ⟨_, rfl, .method hclass⟩
  · exact ⟨_, rfl, .bound (Table.mem_of_get? hbound)⟩

theorem knownAs_of_pickCallable {f : FileEntry} {found : Option String}
    (h : pickCallable name rest f = .ok (some found)) : ∃ n, found = some n ∧ KnownAs f rest n := by
  rcases pickCallable_eq_some_iff.1 h with hmethod | ⟨-, ⟨id, hid, rfl⟩, rfl⟩
  · exact knownAs_of_pickMethod hmethod
  · exact ⟨_, rfl, .function hid⟩

theorem throughImport_found (hroot : Path.isRooted directory = true)
    {P : String → FileEntry → Prop}
    {pick : String → FileEntry → Except Failure (Option (Option String))}
    (hpick : ∀ last e, pick last e = .ok none ↔ ¬ P last e)
    (hknown : ∀ last f found, pick last f = .ok (some found) →
      ∃ n, found = some n ∧ KnownAs f rest n)
    (hkey : key = some first ∨ Table.get? e.instances first = some key) {target : Target}
    (h : throughImport t index directory file e key pick = .ok (some target)) :
    target.name ≠ none ∧ ∀ n, target.name = some n → ∃ f, Table.get? index target.file = some f ∧
      PointedTo t directory file e first target.file ∧ KnownAs f rest n := by
  obtain ⟨module, f, himport, -, hfirst, hfound⟩ := (throughImport_eq_some_iff hpick).1 h
  obtain ⟨n, hn, hk⟩ := hknown _ f _ hfound
  obtain ⟨i, hi, rfl⟩ := Option.map_eq_some_iff.1 (importOf_eq_ok himport).symm
  refine ⟨by simp [hn], fun m hm => ⟨f, hfirst.entry, ?_, ?_⟩⟩
  · exact ⟨key, i, hkey, hi, (mem_candidates_iff hroot).1 hfirst.mem⟩
  · obtain rfl : n = m := Option.some.inj (hn.symm.trans hm)
    exact hk

/-- **What a name is resolved to exists**, in whatever order the files are listed: without a target
the calling file is the answer. A target stands in a file of the index, which is the calling file or
a source file that the import for the name points to, and it is known there. -/
theorem target_found (hroot : Path.isRooted directory = true)
    (he : Table.get? index file = some e) (hparts : Parted name first rest) {q : String}
    {found : Option String} (h : functionTarget t index directory file name = .ok ⟨q, found⟩) :
    (found = none → q = file) ∧
    ∀ n, found = some n → ∃ f, Table.get? index q = some f ∧
      (q = file ∨ PointedTo t directory file e first q) ∧ KnownAs f rest n := by
  rw [functionTarget_eq he, firstAndRest_of_parted hparts] at h
  obtain ⟨bound, hbound, h⟩ := Run.bind_eq_ok h
  cases bound with
  | some target =>
    obtain rfl := Except.ok.inj h
    rcases boundTarget_eq_some hbound with ⟨c, -, hc, heq⟩ | ⟨key, hkey, hthrough⟩
    · cases heq
      refine ⟨fun _ => rfl, fun n hn => ⟨e, he, Or.inl rfl, ?_⟩⟩
      obtain rfl := Option.some.inj hn
      exact .method hc
    · obtain ⟨hnamed, hfound⟩ := throughImport_found hroot
        (fun _ _ => pickMethod_eq_none_iff) (fun _ _ _ => knownAs_of_pickMethod) (Or.inr hkey)
        hthrough
      refine ⟨fun hnone => absurd hnone hnamed, fun n hn => ?_⟩
      obtain ⟨f, hf, hp, hk⟩ := hfound n hn
      exact ⟨f, hf, Or.inr hp, hk⟩
  | none =>
    obtain ⟨imported, himported, h⟩ := Run.bind_eq_ok h
    obtain heq := Except.ok.inj h
    cases imported with
    | none =>
      cases heq
      exact ⟨fun _ => rfl, by simp⟩
    | some target =>
      obtain rfl : target = ⟨q, found⟩ := heq
      obtain ⟨hnamed, hfound⟩ := throughImport_found hroot
        (fun _ _ => pickCallable_eq_none_iff) (fun _ _ _ => knownAs_of_pickCallable) (Or.inl rfl)
        himported
      refine ⟨fun hnone => absurd hnone hnamed, fun n hn => ?_⟩
      obtain ⟨f, hf, hp, hk⟩ := hfound n hn
      exact ⟨f, hf, Or.inr hp, hk⟩

def serving : FileIndex :=
  [("/p/m.py", ⟨[⟨"os.path", none⟩, ⟨"lib.a.Service", some "S"⟩], [("svc", some "S")], [],
    ["/m.py:f"]⟩),
   ("/p/lib/a.py", ⟨[], [], ["Service"], ["/lib/a.py:Service.run"]⟩)]

def servingTree : FileTree := .named [("/p/lib/a.py", .empty), ("/p/m.py", .empty)] []

/-- A method of a service is found in the file that its class is imported from. -/
theorem service_method_found :
    functionTarget servingTree serving "/p" "/p/m.py" "svc.run" =
      .ok ⟨"/p/lib/a.py", some "Service.run"⟩ ∧
    ∃ e f, Table.get? serving "/p/m.py" = some e ∧ Table.get? serving "/p/lib/a.py" = some f ∧
      PointedTo servingTree "/p" "/p/m.py" e "svc" "/p/lib/a.py" ∧
      KnownAs f "run" "Service.run" := by
  have htarget : functionTarget servingTree serving "/p" "/p/m.py" "svc.run" =
      .ok ⟨"/p/lib/a.py", some "Service.run"⟩ := Run.eq_ok_of_toOption (by decide +kernel)
  have hparts : Parted "svc.run" "svc" "run" := Or.inl ⟨by decide, by decide⟩
  obtain ⟨f, hf, hfile, hk⟩ := (target_found (by decide) rfl hparts htarget).2 _ rfl
  exact ⟨htarget, _, f, rfl, hf, hfile.resolve_left (by decide), hk⟩

/-! ## When the search fails -/

/-- Where an import points, the first file that knows its last name binds it to a call without a
named callee. -/
def Blocked (t : FileTree) (index : FileIndex) (directory file : String)
    (P : String → FileEntry → Prop) (module : String) : Prop :=
  module ≠ "" ∧ ∃ q f,
    FirstAmong index (P (Text.last '.' module)) (candidates t directory (place file module).1) q f ∧
    Unnamed (Text.last '.' module) f

/-- The ways in which the search for a name fails. -/
inductive Stuck (t : FileTree) (index : FileIndex) (directory file : String) (e : FileEntry)
    (first rest : String) : Prop where
  /-- The name is bound to a call without a named callee, and the first import is renamed. -/
  | renamed {i : Import} {is : List Import} (bound : Table.get? e.instances first = some none)
      (imports : e.imports = i :: is) (other : i.otherName ≠ none)
  /-- The name is bound to something else than a class of the file, and the import for that is
  blocked. -/
  | bound {key : Option String} {i : Import} (bound : Table.get? e.instances first = some key)
      (foreign : ∀ c, key = some c → c ∉ e.classes) (chosen : e.imports.find? (taken key) = some i)
      (blocked : Blocked t index directory file Owns i.module)
  /-- What the name is bound to leads nowhere, and the import for the name itself is blocked. -/
  | imported {i : Import} (nowhere : boundTarget t index directory file e first rest = .ok none)
      (chosen : e.imports.find? (taken (some first)) = some i)
      (blocked : Blocked t index directory file (fun n f => Owns n f ∨ Defines n f) i.module)

theorem throughImport_fails_iff {P : String → FileEntry → Prop}
    {pick : String → FileEntry → Except Failure (Option (Option String))}
    (hpick : ∀ last e, pick last e = .ok none ↔ ¬ P last e)
    (hfails : ∀ last e, (∃ err, pick last e = .error err) ↔ Unnamed last e) :
    (∃ err, throughImport t index directory file e key pick = .error err) ↔
      (key = none ∧ ∃ i is, e.imports = i :: is ∧ i.otherName ≠ none) ∨
      ∃ i, e.imports.find? (taken key) = some i ∧ Blocked t index directory file P i.module := by
  rw [throughImport_error_iff hpick, importOf_error_iff]
  constructor
  · rintro (hrenamed | ⟨module, q, f, himport, hne, hfirst, herr⟩)
    · exact Or.inl hrenamed
    · obtain ⟨i, hi, rfl⟩ := Option.map_eq_some_iff.1 (importOf_eq_ok himport).symm
      exact Or.inr ⟨i, hi, hne, q, f, hfirst, (hfails _ f).1 herr⟩
  · rintro (hrenamed | ⟨i, hi, hne, q, f, hfirst, hunnamed⟩)
    · exact Or.inl hrenamed
    · cases himport : importOf key e.imports with
      | error err => exact Or.inl (importOf_error_iff.1 ⟨err, himport⟩)
      | ok found =>
        have hfound := importOf_eq_ok himport
        rw [hi, Option.map_some] at hfound
        exact Or.inr ⟨i.module, q, f, by rw [hfound], hne, hfirst, (hfails _ f).2 hunnamed⟩

theorem boundTarget_error_iff :
    (∃ err, boundTarget t index directory file e first rest = .error err) ↔
      ∃ key, Table.get? e.instances first = some key ∧ (∀ c, key = some c → c ∉ e.classes) ∧
        ∃ err, throughImport t index directory file e key (fun last => pickMethod last rest) =
          .error err := by
  constructor
  · rintro ⟨err, h⟩
    rcases bound_cases e first with hnone | ⟨c, hbound, hc⟩ | ⟨key, hbound, hkey⟩
    · simp [boundTarget, boundTo, hnone] at h
    · simp [boundTarget_of_own hbound hc] at h
    · exact ⟨key, hbound, hkey, err, by rwa [boundTarget_of_foreign hbound hkey] at h⟩
  · rintro ⟨key, hbound, hkey, err, h⟩
    exact ⟨err, by rwa [boundTarget_of_foreign hbound hkey]⟩

/-- The search fails in its first stage, or in the second one when the first finds nothing. -/
theorem functionTarget_fails_iff (he : Table.get? index file = some e)
    (hparts : firstAndRest name = (first, rest)) :
    (∃ err, functionTarget t index directory file name = .error err) ↔
      (∃ err, boundTarget t index directory file e first rest = .error err) ∨
      boundTarget t index directory file e first rest = .ok none ∧
        ∃ err, importedTarget t index directory file e first rest = .error err := by
  rw [functionTarget_eq he, hparts]
  cases boundTarget t index directory file e first rest with
  | error err => exact iff_of_true ⟨err, rfl⟩ (Or.inl ⟨err, rfl⟩)
  | ok found =>
    cases found with
    | some target => simp [Run.ok_bind, pure, Except.pure]
    | none =>
      rw [Run.ok_bind]
      cases importedTarget t index directory file e first rest with
      | error err => exact iff_of_true ⟨err, rfl⟩ (Or.inr ⟨rfl, err, rfl⟩)
      | ok found => simp [Run.ok_bind, pure, Except.pure]

/-- **The search for a name fails** exactly in the ways of `Stuck`. -/
theorem functionTarget_error_iff (he : Table.get? index file = some e)
    (hparts : firstAndRest name = (first, rest)) :
    (∃ err, functionTarget t index directory file name = .error err) ↔
      Stuck t index directory file e first rest := by
  have himported : (∃ err, importedTarget t index directory file e first rest = .error err) ↔ _ :=
    throughImport_fails_iff (fun _ _ => pickCallable_eq_none_iff) fun _ _ => pickCallable_error_iff
  rw [functionTarget_fails_iff he hparts, boundTarget_error_iff, himported]
  simp only [throughImport_fails_iff (fun _ _ => pickMethod_eq_none_iff)
    fun _ _ => pickMethod_error_iff]
  constructor
  · rintro (⟨key, hkey, hforeign, hfails⟩ | ⟨hnowhere, hfails⟩)
    · rcases hfails with ⟨rfl, i, is, himports, hother⟩ | ⟨i, hi, hblocked⟩
      · exact .renamed hkey himports hother
      · exact .bound hkey hforeign hi hblocked
    · rcases hfails with ⟨hnone, -⟩ | ⟨i, hi, hblocked⟩
      · cases hnone
      · exact .imported hnowhere hi hblocked
  · rintro (⟨hkey, himports, hother⟩ | ⟨hkey, hforeign, hi, hblocked⟩ | ⟨hnowhere, hi, hblocked⟩)
    · exact Or.inl ⟨none, hkey, by simp, Or.inl ⟨rfl, _, _, himports, hother⟩⟩
    · exact Or.inl ⟨_, hkey, hforeign, Or.inr ⟨_, hi, hblocked⟩⟩
    · exact Or.inr ⟨hnowhere, Or.inr ⟨_, hi, hblocked⟩⟩

/-! ## When names can be resolved -/

/-- Every name that is bound to a call is bound to one whose callee is known. -/
def Bound (index : FileIndex) : Prop :=
  ∀ path e, Table.get? index path = some e → ∀ b ∈ e.instances, b.2 ≠ none

theorem Bound.not_stuck (h : Bound index) (he : Table.get? index file = some e) :
    ¬ Stuck t index directory file e first rest := by
  have hblocked {P : String → FileEntry → Prop} {module : String} :
      ¬ Blocked t index directory file P module := by
    rintro ⟨-, q, f, hfirst, -, hunnamed⟩
    exact h q f hfirst.entry _ (Table.mem_of_get? hunnamed) rfl
  rintro (⟨hbound, -, -⟩ | ⟨-, -, -, hb⟩ | ⟨-, -, hb⟩)
  · exact h file e he _ (Table.mem_of_get? hbound) rfl
  · exact hblocked hb
  · exact hblocked hb

theorem exists_ok_iff_not_error {α : Type} (x : Except Failure α) :
    (∃ a, x = .ok a) ↔ ¬ ∃ err, x = .error err := by
  cases x <;> simp

theorem exists_functionTarget (h : Bound index) (he : Table.get? index file = some e)
    (name : String) : ∃ target, functionTarget t index directory file name = .ok target := by
  rw [exists_ok_iff_not_error, functionTarget_error_iff he rfl]
  exact h.not_stuck he

/-- **Names that can be resolved**: the search for a name ends with an answer unless it is stuck,
and it is never stuck where all callees are named that names are bound to. -/
theorem name_resolved_iff (he : Table.get? index file = some e) (hparts : Parted name first rest) :
    ((∃ target, functionTarget t index directory file name = .ok target) ↔
      ¬ Stuck t index directory file e first rest) ∧
    (Bound index → ∃ target, functionTarget t index directory file name = .ok target) := by
  refine ⟨?_, fun hbound => exists_functionTarget hbound he name⟩
  rw [exists_ok_iff_not_error, functionTarget_error_iff he (firstAndRest_of_parted hparts)]

def oneFile (src : String) (tree : Node) : FileIndex :=
  [("/p/m.py", (Survey.ofTree src tree).toEntry "/p" "/p/m.py")]

def oneFileTree : FileTree := .named [("/p/m.py", .empty)] []

/-- A file that binds a name to a call without a named callee. -/
def plainImport : String := "import numpy\nx = h[0]()\n"

def plainImportTree : Node :=
  .mk "module" 0 24 [
    .mk "import_statement" 0 12 [.mk "import" 0 6 [], .mk "dotted_name" 7 12 []],
    .mk "expression_statement" 13 23 [.mk "assignment" 13 23 [.mk "identifier" 13 14 [],
      .mk "=" 15 16 [], .mk "call" 17 23 [.mk "subscript" 17 21 [], .mk "argument_list" 21 23 []]]]]

/-- Such a name can be resolved where the first import is not renamed. -/
theorem unnamed_binding_resolved : ∃ e,
    Table.get? (oneFile plainImport plainImportTree) "/p/m.py" = some e ∧
    Table.get? e.instances "x" = some none ∧
    (∃ target, functionTarget oneFileTree (oneFile plainImport plainImportTree) "/p" "/p/m.py" "x" =
      .ok target) ∧
    ¬ Stuck oneFileTree (oneFile plainImport plainImportTree) "/p" "/p/m.py" e "x" "x" := by
  have htarget : functionTarget oneFileTree (oneFile plainImport plainImportTree) "/p" "/p/m.py"
      "x" = .ok ⟨"/p/m.py", none⟩ := Run.eq_ok_of_toOption (by decide +kernel)
  refine ⟨_, rfl, by decide +kernel, ⟨_, htarget⟩, ?_⟩
  exact (name_resolved_iff rfl (Or.inr ⟨by decide, rfl, rfl⟩)).1.1 ⟨_, htarget⟩

def renamedImport : String := "import numpy as np\nx = h[0]()\n"

def renamedImportTree : Node :=
  .mk "module" 0 30 [
    .mk "import_statement" 0 18 [.mk "import" 0 6 [], .mk "aliased_import" 7 18 []],
    .mk "expression_statement" 19 29 [.mk "assignment" 19 29 [.mk "identifier" 19 20 [],
      .mk "=" 21 22 [], .mk "call" 23 29 [.mk "subscript" 23 27 [], .mk "argument_list" 27 29 []]]]]

/-- The survey of the file ends well, and still a name in it cannot be resolved. -/
theorem unnamed_binding_fails :
    (Survey.ofTree renamedImport renamedImportTree).ended = none ∧
    functionTarget oneFileTree (oneFile renamedImport renamedImportTree) "/p" "/p/m.py" "x" =
      .error (.unfit "'in <string>' requires string as left operand, not NoneType") := by
  have hsurvey : (Survey.ofTree renamedImport renamedImportTree).ended = none := by decide +kernel
  refine ⟨hsurvey, ?_⟩
  decide +kernel

end Resolve
end CodeAtlas
