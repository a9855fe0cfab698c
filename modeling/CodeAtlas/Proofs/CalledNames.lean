import CodeAtlas.Index
import CodeAtlas.Proofs.Run
import CodeAtlas.Proofs.Text

/-!
# The name of what a call is resolved to

A call of a name without a point is resolved to a method of that name, or to a function that is
found through an import of the file. This is the first import that is renamed to the called name or
whose path contains it, and the function has the name that the path of the import ends in.

* `Resolve.importOf_some`: which import is taken;
* `Resolve.firstIn_eq_some_iff`, `Resolve.firstIn_error_iff`: a search ends at the first file that
  knows the name, well or not;
* `Resolve.throughImport_eq_some_iff`: what is found where an import points;
* `Resolve.target_cases`: the two ways to a target;
* `Resolve.target_named_iff`: when the target has the called name;
* `Resolve.contained_name_taken`: a name inside another one leads to a function of another name.
-/
namespace CodeAtlas.Resolve

def answersTo (name : String) (i : Import) : Bool :=
  i.otherName = some name || Text.contains name i.module

theorem importOf_some (name : String) (imports : List Import) :
    importOf (some name) imports = .ok ((imports.find? (answersTo name)).map Import.module) := by
  induction imports with
  | nil => rfl
  | cons i imports ih =>
    unfold importOf
    by_cases hother : i.otherName = some name
    · simp [answersTo, hother]
    · cases hpath : Text.contains name i.module with
      | true => simp [answersTo, hother, hpath]
      | false => simp [answersTo, hother, hpath, ih]

/-- What is looked for where an import points is the last part of its path. -/
theorem place_snd (file module : String) : (place file module).2 = Text.last '.' module := by
  unfold place
  cases Text.startsWith "." module with
  | false => simp only [Bool.false_eq_true, if_false, Text.last]
  | true =>
    simp only [if_true]
    rw [← Text.last_trimLeft '.' module, Text.last]

/-! ## The search through files -/

/-- The first of some files whose entry in the index has a property. -/
structure FirstAmong (index : FileIndex) (P : FileEntry → Prop) (ps : List String) (p : String)
    (e : FileEntry) : Prop where
  entry : Table.get? index p = some e
  holds : P e
  first : ∃ before after, ps = before ++ p :: after ∧
    ∀ q ∈ before, ∀ f, Table.get? index q = some f → ¬ P f

section
variable {index : FileIndex} {P : FileEntry → Prop} {ps : List String} {p : String} {e : FileEntry}

theorem FirstAmong.mem (h : FirstAmong index P ps p e) : p ∈ ps := by
  obtain ⟨before, after, rfl, -⟩ := h.first
  simp

theorem exists_firstAmong (index : FileIndex) (P : FileEntry → Prop) (ps : List String) :
    (∀ p ∈ ps, ∀ e, Table.get? index p = some e → ¬ P e) ∨ ∃ p e, FirstAmong index P ps p e := by
  induction ps with
  | nil => exact Or.inl (by simp)
  | cons q ps ih =>
    by_cases hq : ∃ f, Table.get? index q = some f ∧ P f
    · obtain ⟨f, hf, hP⟩ := hq
      exact Or.inr ⟨q, f, hf, hP, [], ps, rfl, by simp⟩
    · have hnot : ∀ f, Table.get? index q = some f → ¬ P f := fun f hf hP => hq ⟨f, hf, hP⟩
      rcases ih with ih | ⟨p, e, he, hP, before, after, rfl, hbefore⟩
      · exact Or.inl (List.forall_mem_cons.2 ⟨hnot, ih⟩)
      · exact Or.inr ⟨p, e, he, hP, q :: before, after, rfl,
          List.forall_mem_cons.2 ⟨hnot, hbefore⟩⟩

variable {pick : FileEntry → Except Failure (Option (Option String))}
  (hpick : ∀ e, pick e = .ok none ↔ ¬ P e)
include hpick

/-- Files without the property are passed over. -/
theorem firstIn_append {before : List String}
    (h : ∀ q ∈ before, ∀ f, Table.get? index q = some f → ¬ P f) (rest : List String) :
    firstIn index pick (before ++ rest) = firstIn index pick rest := by
  induction before with
  | nil => rfl
  | cons q before ih =>
    rw [List.forall_mem_cons] at h
    rw [List.cons_append, firstIn]
    cases hq : Table.get? index q with
    | none => exact ih h.2
    | some f =>
      simp only [(hpick f).2 (h.1 f hq), Run.ok_bind]
      exact ih h.2

theorem firstIn_eq_none (h : ∀ q ∈ ps, ∀ f, Table.get? index q = some f → ¬ P f) :
    firstIn index pick ps = .ok none := by
  rw [← List.append_nil ps, firstIn_append hpick h]
  rfl

/-- The search ends at the first file with the property. -/
theorem firstIn_of_firstAmong (h : FirstAmong index P ps p e) :
    firstIn index pick ps = (pick e).map (Option.map (Target.mk p)) := by
  obtain ⟨he, hP, before, after, rfl, hbefore⟩ := h
  rw [firstIn_append hpick hbefore, firstIn, he]
  simp only
  cases hfound : pick e with
  | error err => rfl
  | ok found =>
    cases found with
    | none => exact absurd hP ((hpick e).1 hfound)
    | some name => rfl

theorem firstIn_cases (index : FileIndex) (ps : List String) :
    firstIn index pick ps = .ok none ∨ ∃ p e, FirstAmong index P ps p e := by
  rcases exists_firstAmong index P ps with hnone | hfirst
  · exact Or.inl (firstIn_eq_none hpick hnone)
  · exact Or.inr hfirst

theorem firstIn_eq_some_iff {target : Target} : firstIn index pick ps = .ok (some target) ↔
    ∃ e, FirstAmong index P ps target.file e ∧ pick e = .ok (some target.name) := by
  constructor
  · intro h
    rcases firstIn_cases hpick index ps with hnone | ⟨p, e, hfirst⟩
    · rw [hnone] at h
      cases h
    · rw [firstIn_of_firstAmong hpick hfirst] at h
      cases hfound : pick e with
      | error err => rw [hfound] at h; cases h
      | ok found =>
        rw [hfound] at h
        obtain ⟨name, rfl, rfl⟩ := Option.map_eq_some_iff.1 (Except.ok.inj h)
        exact ⟨e, hfirst, hfound⟩
  · rintro ⟨e, hfirst, hfound⟩
    rw [firstIn_of_firstAmong hpick hfirst, hfound]
    rfl

theorem firstIn_error_iff : (∃ err, firstIn index pick ps = .error err) ↔
    ∃ p e, FirstAmong index P ps p e ∧ ∃ err, pick e = .error err := by
  constructor
  · rintro ⟨err, h⟩
    rcases firstIn_cases hpick index ps with hnone | ⟨p, e, hfirst⟩
    · rw [hnone] at h
      cases h
    · rw [firstIn_of_firstAmong hpick hfirst] at h
      cases hfound : pick e with
      | error err => exact ⟨p, e, hfirst, err, hfound⟩
      | ok found => rw [hfound] at h; cases h
  · rintro ⟨p, e, hfirst, err, hfound⟩
    exact ⟨err, by rw [firstIn_of_firstAmong hpick hfirst, hfound]; rfl⟩

end

/-! ## What a file knows of a name -/

def Owns (name : String) (e : FileEntry) : Prop :=
  name ∈ e.classes ∨ ∃ v, Table.get? e.instances name = some v

instance (name : String) (e : FileEntry) : Decidable (Owns name e) :=
  decidable_of_iff (name ∈ e.classes ∨ (Table.get? e.instances name).isSome = true)
    (or_congr_right Option.isSome_iff_exists)

def Defines (name : String) (e : FileEntry) : Prop := ∃ id ∈ e.functions, Text.last ':' id = name

instance (name : String) (e : FileEntry) : Decidable (Defines name e) :=
  inferInstanceAs (Decidable (∃ id ∈ e.functions, Text.last ':' id = name))

/-- A file has no class of a name, and binds the name to a call whose callee is not named. -/
def Unnamed (name : String) (e : FileEntry) : Prop :=
  name ∉ e.classes ∧ Table.get? e.instances name = some none

/-- What is looked for in the files that an import points to. -/
def pickCallable (name rest : String) : FileEntry → Except Failure (Option (Option String)) :=
  orElse (pickMethod name rest) (pickFunction name)

section
variable {name rest : String} {e : FileEntry} {found : Option String}

theorem pickMethod_eq_none_iff : pickMethod name rest e = .ok none ↔ ¬ Owns name e := by
  unfold pickMethod Owns
  by_cases hclass : name ∈ e.classes
  · simp [hclass]
  · rcases hbound : Table.get? e.instances name with _ | _ | v
    all_goals simp [hclass]

theorem pickMethod_eq_some_iff : pickMethod name rest e = .ok (some found) ↔
    (name ∈ e.classes ∧ found = some (name ++ "." ++ rest)) ∨
      name ∉ e.classes ∧ ∃ v, Table.get? e.instances name = some (some v) ∧
        found = some (v ++ "." ++ rest) := by
  unfold pickMethod
  by_cases hclass : name ∈ e.classes
  · simp [hclass, eq_comm]
  · rcases hbound : Table.get? e.instances name with _ | _ | v
    · simp [hclass]
    · simp [hclass]
    · simp [hclass, eq_comm]

theorem pickMethod_error_iff :
    (∃ err, pickMethod name rest e = .error err) ↔ Unnamed name e := by
  unfold pickMethod Unnamed
  by_cases hclass : name ∈ e.classes
  · simp [hclass]
  · rcases hbound : Table.get? e.instances name with _ | _ | v
    all_goals simp [hclass]

theorem pickFunction_eq_some_iff :
    pickFunction name e = some found ↔ Defines name e ∧ found = some name := by
  unfold pickFunction Defines
  simp only [Option.ite_none_right_eq_some, List.contains_iff_mem, List.mem_map, Option.some.injEq,
    Text.last, eq_comm (a := found)]

theorem pickCallable_of_owns (h : Owns name e) :
    pickCallable name rest e = pickMethod name rest e := by
  unfold pickCallable orElse
  cases hmethod : pickMethod name rest e with
  | error err => rfl
  | ok picked =>
    cases picked with
    | none => exact absurd h (pickMethod_eq_none_iff.1 hmethod)
    | some found => rfl

theorem pickCallable_of_not_owns (h : ¬ Owns name e) :
    pickCallable name rest e = .ok (pickFunction name e) := by
  unfold pickCallable orElse
  rw [pickMethod_eq_none_iff.2 h]
  rfl

theorem pickCallable_eq_none_iff :
    pickCallable name rest e = .ok none ↔ ¬ (Owns name e ∨ Defines name e) := by
  by_cases howns : Owns name e
  · simp [pickCallable_of_owns howns, pickMethod_eq_none_iff, howns]
  · rw [pickCallable_of_not_owns howns, Except.ok.injEq, Option.eq_none_iff_forall_ne_some]
    simp [pickFunction_eq_some_iff, howns]

theorem pickCallable_eq_some_iff : pickCallable name rest e = .ok (some found) ↔
    pickMethod name rest e = .ok (some found) ∨
      ¬ Owns name e ∧ Defines name e ∧ found = some name := by
  by_cases howns : Owns name e
  · simp [pickCallable_of_owns howns, howns]
  · rw [pickCallable_of_not_owns howns, Except.ok.injEq, pickFunction_eq_some_iff,
      pickMethod_eq_none_iff.2 howns]
    simp [howns]

theorem pickCallable_error_iff :
    (∃ err, pickCallable name rest e = .error err) ↔ Unnamed name e := by
  by_cases howns : Owns name e
  · rw [pickCallable_of_owns howns, pickMethod_error_iff]
  · rw [pickCallable_of_not_owns howns]
    simp only [reduceCtorEq, exists_false, false_iff]
    exact fun hunnamed => howns (Or.inr ⟨none, hunnamed.2⟩)

end

/-! ## Through an import -/

section
variable {t : FileTree} {index : FileIndex} {directory file : String} {e : FileEntry}
  {key : Option String} {P : String → FileEntry → Prop}
  {pick : String → FileEntry → Except Failure (Option (Option String))}

theorem throughImport_of_chosen {module : String}
    (himport : importOf key e.imports = .ok (some module)) (hne : module ≠ "") :
    throughImport t index directory file e key pick =
      firstIn index (pick (Text.last '.' module))
        (candidates t directory (place file module).1) := by
  unfold throughImport
  rw [himport, Run.ok_bind, ← place_snd file module]
  simp [hne]

theorem throughImport_cases (t : FileTree) (index : FileIndex) (directory file : String)
    (e : FileEntry) (key : Option String)
    (pick : String → FileEntry → Except Failure (Option (Option String))) :
    (∃ err, importOf key e.imports = .error err ∧
      throughImport t index directory file e key pick = .error err) ∨
    throughImport t index directory file e key pick = .ok none ∨
    ∃ module, importOf key e.imports = .ok (some module) ∧ module ≠ "" := by
  cases himport : importOf key e.imports with
  | error err => exact Or.inl ⟨err, rfl, by rw [throughImport, himport]; rfl⟩
  | ok found =>
    cases found with
    | none => exact Or.inr (Or.inl (by rw [throughImport, himport]; rfl))
    | some module =>
      by_cases hne : module = ""
      · exact Or.inr (Or.inl (by rw [throughImport, himport, hne]; rfl))
      · exact Or.inr (Or.inr ⟨module, rfl, hne⟩)

variable (hpick : ∀ last e, pick last e = .ok none ↔ ¬ P last e)
include hpick

/-- What is found through an import is picked by the last part of its path, in the first file that
knows that name. -/
theorem throughImport_eq_some_iff {target : Target} :
    throughImport t index directory file e key pick = .ok (some target) ↔
      ∃ module f, importOf key e.imports = .ok (some module) ∧ module ≠ "" ∧
        FirstAmong index (P (Text.last '.' module)) (candidates t directory (place file module).1)
          target.file f ∧
        pick (Text.last '.' module) f = .ok (some target.name) := by
  constructor
  · intro h
    rcases throughImport_cases t index directory file e key pick with
      ⟨err, -, herr⟩ | hnone | ⟨module, himport, hne⟩
    · rw [herr] at h
      cases h
    · rw [hnone] at h
      cases h
    · rw [throughImport_of_chosen himport hne, firstIn_eq_some_iff (hpick _)] at h
      obtain ⟨f, hfirst, hfound⟩ := h
      exact ⟨module, f, himport, hne, hfirst, hfound⟩
  · rintro ⟨module, f, himport, hne, hfirst, hfound⟩
    rw [throughImport_of_chosen himport hne, firstIn_eq_some_iff (hpick _)]
    exact ⟨f, hfirst, hfound⟩

theorem throughImport_error_iff :
    (∃ err, throughImport t index directory file e key pick = .error err) ↔
      (∃ err, importOf key e.imports = .error err) ∨
      ∃ module q f, importOf key e.imports = .ok (some module) ∧ module ≠ "" ∧
        FirstAmong index (P (Text.last '.' module)) (candidates t directory (place file module).1)
          q f ∧
        ∃ err, pick (Text.last '.' module) f = .error err := by
  constructor
  · rintro ⟨err, h⟩
    rcases throughImport_cases t index directory file e key pick with
      ⟨err, himport, -⟩ | hnone | ⟨module, himport, hne⟩
    · exact Or.inl ⟨err, himport⟩
    · rw [hnone] at h
      cases h
    · rw [throughImport_of_chosen himport hne] at h
      obtain ⟨q, f, hfirst, hfails⟩ := (firstIn_error_iff (hpick _)).1 ⟨err, h⟩
      exact Or.inr ⟨module, q, f, himport, hne, hfirst, hfails⟩
  · rintro (⟨err, himport⟩ | ⟨module, q, f, himport, hne, hfirst, hfails⟩)
    · exact ⟨err, by rw [throughImport, himport]; rfl⟩
    · rw [throughImport_of_chosen himport hne]
      exact (firstIn_error_iff (hpick _)).2 ⟨q, f, hfirst, hfails⟩

end

/-! ## The two ways to a target -/

section
variable {t : FileTree} {index : FileIndex} {directory file : String} {e : FileEntry}

theorem firstAndRest_of_not_mem {name : String} (h : '.' ∉ name.toList) :
    firstAndRest name = (name, name) := by
  have hfields : Text.fields '.' name = [name] := by
    simp [Text.fields, Text.splitOn_of_not_mem h]
  simp [firstAndRest, hfields]

theorem functionTarget_eq (he : Table.get? index file = some e) (name : String) :
    functionTarget t index directory file name =
      (do
        match ← boundTarget t index directory file e (firstAndRest name).1
          (firstAndRest name).2 with
        | some target => return target
        | none =>
          let found ← importedTarget t index directory file e (firstAndRest name).1
            (firstAndRest name).2
          return found.getD ⟨file, none⟩) := by
  rw [functionTarget, FileIndex.entry, he]
  rfl

section
variable {first rest : String} {target : Target}

theorem boundTarget_of_own {c : String} (h : Table.get? e.instances first = some (some c))
    (hc : c ∈ e.classes) : boundTarget t index directory file e first rest =
      .ok (some ⟨file, some (c ++ "." ++ rest)⟩) := by
  simp [boundTarget, boundTo, h, hc]

theorem boundTarget_of_foreign {key : Option String} (h : Table.get? e.instances first = some key)
    (hkey : ∀ c, key = some c → c ∉ e.classes) : boundTarget t index directory file e first rest =
      throughImport t index directory file e key fun last => pickMethod last rest := by
  cases key with
  | none => simp [boundTarget, boundTo, h]
  | some c => simp [boundTarget, boundTo, h, hkey c rfl]

theorem bound_cases (e : FileEntry) (first : String) :
    Table.get? e.instances first = none ∨
    (∃ c, Table.get? e.instances first = some (some c) ∧ c ∈ e.classes) ∨
    ∃ key, Table.get? e.instances first = some key ∧ ∀ c, key = some c → c ∉ e.classes := by
  match h : Table.get? e.instances first with
  | none => exact Or.inl rfl
  | some none => exact Or.inr (Or.inr ⟨none, rfl, by simp⟩)
  | some (some c) =>
    by_cases hc : c ∈ e.classes
    · exact Or.inr (Or.inl ⟨c, rfl, hc⟩)
    · exact Or.inr (Or.inr ⟨some c, rfl, by simpa using hc⟩)

theorem boundTarget_eq_some
    (h : boundTarget t index directory file e first rest = .ok (some target)) :
    (∃ c, Table.get? e.instances first = some (some c) ∧ c ∈ e.classes ∧
      target = ⟨file, some (c ++ "." ++ rest)⟩) ∨
    ∃ key, Table.get? e.instances first = some key ∧
      throughImport t index directory file e key (fun last => pickMethod last rest) =
        .ok (some target) := by
  rcases bound_cases e first with hnone | ⟨c, hbound, hc⟩ | ⟨key, hbound, hkey⟩
  · simp [boundTarget, boundTo, hnone] at h
  · rw [boundTarget_of_own hbound hc] at h
    exact Or.inl ⟨c, hbound, hc, (Option.some.inj (Except.ok.inj h)).symm⟩
  · rw [boundTarget_of_foreign hbound hkey] at h
    exact Or.inr ⟨key, hbound, h⟩

theorem pickMethod_named {name : String} {found : Option String}
    (h : pickMethod name rest e = .ok (some found)) : ∃ c, found = some (c ++ "." ++ rest) := by
  rcases pickMethod_eq_some_iff.1 h with ⟨-, rfl⟩ | ⟨-, v, -, rfl⟩
  · exact ⟨name, rfl⟩
  · exact ⟨v, rfl⟩

theorem boundTarget_named
    (h : boundTarget t index directory file e first rest = .ok (some target)) :
    ∃ c, target.name = some (c ++ "." ++ rest) := by
  rcases boundTarget_eq_some h with ⟨c, -, -, rfl⟩ | ⟨key, -, h⟩
  · exact ⟨c, rfl⟩
  · obtain ⟨_, _, -, -, -, hpick⟩ :=
      (throughImport_eq_some_iff fun _ _ => pickMethod_eq_none_iff).1 h
    exact pickMethod_named hpick

/-- The imports lead to a method, or to a function with the name that the path ends in. -/
theorem importedTarget_named
    (h : importedTarget t index directory file e first rest = .ok (some target)) :
    (∃ c, target.name = some (c ++ "." ++ rest)) ∨
      ∃ i, e.imports.find? (answersTo first) = some i ∧
        target.name = some (Text.last '.' i.module) := by
  obtain ⟨module, f, himport, -, -, hpick⟩ :=
    (throughImport_eq_some_iff fun _ _ => pickCallable_eq_none_iff).1 h
  rcases pickCallable_eq_some_iff.1 hpick with hmethod | ⟨-, -, hname⟩
  · exact Or.inl (pickMethod_named hmethod)
  · rw [importOf_some] at himport
    obtain ⟨i, hi, rfl⟩ := Option.map_eq_some_iff.1 (Except.ok.inj himport)
    exact Or.inr ⟨i, hi, hname⟩

end

/-- The two ways to a target of a name without a point: a method of that name, or what the import
that is taken for the name leads to. -/
theorem target_cases {g q n : String} (hg : '.' ∉ g.toList) (he : Table.get? index file = some e)
    (h : functionTarget t index directory file g = .ok ⟨q, some n⟩) :
    (∃ c, n = c ++ "." ++ g) ∨
      ∃ i, e.imports.find? (answersTo g) = some i ∧ n = Text.last '.' i.module := by
  rw [functionTarget_eq he, firstAndRest_of_not_mem hg] at h
  obtain ⟨bound, hbound, h⟩ := Run.bind_eq_ok h
  cases bound with
  | some target =>
    cases h
    obtain ⟨c, hc⟩ := boundTarget_named hbound
    exact Or.inl ⟨c, Option.some.inj hc⟩
  | none =>
    obtain ⟨imported, himported, h⟩ := Run.bind_eq_ok h
    cases imported with
    | none => cases h
    | some target =>
      cases h
      rcases importedTarget_named himported with ⟨c, hc⟩ | ⟨i, hi, hn⟩
      · exact Or.inl ⟨c, Option.some.inj hc⟩
      · exact Or.inr ⟨i, hi, Option.some.inj hn⟩

/-! ## Targets with the called name -/

/-- A target has the name that was called: it ends in the name itself, or an import is renamed to
the name and its path ends as the target does. -/
def HasName (imports : List Import) (g n : String) : Prop :=
  Text.last '.' n = g ∨
    ∃ i ∈ imports, i.otherName = some g ∧ Text.last '.' n = Text.last '.' i.module

def TakenFromPath (imports : List Import) (g n : String) : Prop :=
  ∃ i, imports.find? (answersTo g) = some i ∧ Text.contains g i.module = true ∧
    i.otherName ≠ some g ∧ n = Text.last '.' i.module ∧ n ≠ g ∧
    ∀ j ∈ imports, j.otherName = some g → Text.last '.' j.module ≠ n

/-- **The name of a target**: what a call is resolved to has the called name if and only if it was
not taken from an import whose path only contains the name. -/
theorem target_named_iff {g q n : String} (hg : '.' ∉ g.toList)
    (he : Table.get? index file = some e)
    (h : functionTarget t index directory file g = .ok ⟨q, some n⟩) :
    HasName e.imports g n ↔ ¬ TakenFromPath e.imports g n := by
  have hlast (m : String) : Text.last '.' (Text.last '.' m) = Text.last '.' m :=
    Text.last_of_not_mem (Text.not_mem_last '.' m)
  constructor
  · rintro hname ⟨i, -, -, -, rfl, hne, hothers⟩
    unfold HasName at hname
    rw [hlast] at hname
    rcases hname with heq | ⟨j, hj, hother, heq⟩
    · exact hne heq
    · exact hothers j hj hother heq.symm
  · intro hnot
    rcases target_cases hg he h with ⟨c, rfl⟩ | ⟨i, hi, rfl⟩
    · exact Or.inl (Text.last_append hg c)
    · refine Classical.byContradiction fun hname => ?_
      unfold HasName at hname
      rw [hlast, not_or] at hname
      have hother : i.otherName ≠ some g := fun hother =>
        hname.2 ⟨i, List.mem_of_find?_eq_some hi, hother, rfl⟩
      have hcontains : Text.contains g i.module = true := by
        simpa [answersTo, hother] using List.find?_some hi
      exact hnot ⟨i, hi, hcontains, hother, rfl, hname.1, fun j hj hj' heq =>
        hname.2 ⟨j, hj, hj', heq.symm⟩⟩

end

def validating (imports : List Import) : FileIndex :=
  [("/p/m.py", ⟨imports, [], [], ["/m.py:f"]⟩),
   ("/p/lib/a.py", ⟨[], [], [], ["/lib/a.py:validate"]⟩)]

def validatingTree : FileTree := .named [("/p/lib/a.py", .empty), ("/p/m.py", .empty)] []

/-- A function that is imported under another name is found by that name. -/
theorem renamed_target_named :
    functionTarget validatingTree (validating [⟨"os.idle", none⟩, ⟨"lib.a.validate", some "check"⟩])
      "/p" "/p/m.py" "check" = .ok ⟨"/p/lib/a.py", some "validate"⟩ ∧
    HasName [⟨"os.idle", none⟩, ⟨"lib.a.validate", some "check"⟩] "check" "validate" := by
  have htarget : functionTarget validatingTree
      (validating [⟨"os.idle", none⟩, ⟨"lib.a.validate", some "check"⟩]) "/p" "/p/m.py" "check" =
        .ok ⟨"/p/lib/a.py", some "validate"⟩ := Run.eq_ok_of_toOption (by decide +kernel)
  refine ⟨htarget, (target_named_iff (by decide) rfl htarget).2 ?_⟩
  rintro ⟨i, hi, -, hother, -⟩
  have hchosen : [(⟨"os.idle", none⟩ : Import), ⟨"lib.a.validate", some "check"⟩].find?
      (answersTo "check") = some ⟨"lib.a.validate", some "check"⟩ := by decide
  cases hchosen.symm.trans hi
  exact hother rfl

/-- A name inside the name of an imported function leads to that function. -/
theorem contained_name_taken :
    functionTarget validatingTree (validating [⟨"lib.a.validate", none⟩]) "/p" "/p/m.py" "id" =
      .ok ⟨"/p/lib/a.py", some "validate"⟩ ∧
    ¬ HasName [⟨"lib.a.validate", none⟩] "id" "validate" := by
  refine ⟨Run.eq_ok_of_toOption (by decide +kernel), ?_⟩
  rintro (hlast | ⟨i, hi, hother, -⟩)
  · revert hlast
    decide
  · obtain rfl := List.mem_singleton.1 hi
    cases hother

end CodeAtlas.Resolve
