import CodeAtlas.FileTree
import CodeAtlas.Proofs.Path
import CodeAtlas.Proofs.Table
import Mathlib.Data.List.Fold
import Mathlib.Data.List.MinMax
import Mathlib.Tactic.Tauto

/-!
# Walks and copies

A walk goes through the files below a folder. It lists names in the order of the file system, which may
be any, so what is proved of a walk is proved for every order.

* `FileTree.mem_listed`: what is listed are the names;
* `FileTree.mem_sources`: a walk meets every source file below its folder;
* `FileTree.contains_copyFolder`, `FileTree.contains_copyFolder_of_contains`: a copy is there, and takes
  nothing away.
-/
namespace CodeAtlas.FileTree

variable {t : FileTree} {folder p q x : String}

theorem isRooted_of_mem_walkFrom (depth : Nat) :
    ∀ {folder : String}, Path.isRooted folder = true →
      ∀ visit ∈ t.walkFrom depth folder, Path.isRooted visit.1 = true := by
  induction depth with
  | zero => simp [walkFrom]
  | succ depth ih =>
    intro folder hroot visit hvisit
    rcases List.mem_cons.1 hvisit with rfl | hvisit
    · exact hroot
    · obtain ⟨name, -, hbelow⟩ := List.mem_flatMap.1 hvisit
      exact ih (Path.isRooted_join hroot name) visit hbelow

theorem isRooted_of_mem_sources (hroot : Path.isRooted folder = true) {p : String}
    (hp : p ∈ t.sources folder) : Path.isRooted p = true := by
  obtain ⟨visit, hvisit, hp⟩ := List.mem_flatMap.1 hp
  obtain ⟨name, -, rfl⟩ := List.mem_map.1 hp
  refine Path.isRooted_join ?_ name
  unfold walk at hvisit
  split at hvisit
  · exact isRooted_of_mem_walkFrom t.depth hroot visit hvisit
  · cases hvisit

/-! ## The files that a walk meets -/

/-- Whatever the order, what is listed are the names. -/
theorem mem_listed {names : List String} {x : String} :
    x ∈ t.listed folder names ↔ x ∈ names :=
  (t.listing.perm folder _).mem_iff.trans List.mem_eraseDups

theorem mem_remainders {paths : List String} {r : String} :
    r ∈ remainders folder paths ↔ inside folder ++ r ∈ paths := by
  simp only [remainders, List.mem_filterMap, Option.map_eq_some_iff, Chars.after?_eq_some]
  constructor
  · rintro ⟨p, hp, l, hl, rfl⟩
    have heq : inside folder ++ String.ofList l = p := by
      rw [← String.toList_inj, String.toList_append, String.toList_ofList, hl]
    rwa [heq]
  · intro h
    exact ⟨_, h, r.toList, by simp, String.ofList_toList⟩

theorem endsWith_slash (s : String) :
    Text.endsWith "/" s = (s.toList.getLast? == some '/') := by
  unfold Text.endsWith Chars.endsWith
  rw [← List.head?_reverse]
  cases s.toList.reverse with
  | nil => rfl
  | cons c l =>
    by_cases hc : c = '/'
    · simp [Chars.after?, hc]
    · simp [Chars.after?, hc, Ne.symm hc]

theorem join_eq_inside (hfolder : folder ≠ "") {name : String} (hname : '/' ∉ name.toList) :
    Path.join folder name = inside folder ++ name := by
  have hrooted : Path.isRooted name = false := by
    rw [Path.isRooted, beq_eq_false_iff_ne]
    exact fun h => hname (List.mem_of_mem_head? h)
  rw [Path.join, hrooted, inside, endsWith_slash]
  cases folder.toList.getLast? == some '/' <;> simp [hfolder]

theorem inside_append {name : String} (hne : name ≠ "") (hname : '/' ∉ name.toList) (s : String) :
    inside (s ++ name) = s ++ name ++ "/" := by
  have hlist : name.toList ≠ [] := mt String.toList_eq_nil_iff.1 hne
  have hlast : ((s ++ name).toList.getLast? == some '/') = false := by
    rw [beq_eq_false_iff_ne, String.toList_append, List.getLast?_append,
      List.getLast?_eq_some_getLast hlist]
    intro h
    exact hname (Option.some.inj h ▸ List.getLast_mem hlist)
  rw [inside, endsWith_slash, hlast]
  rfl

/-- A folder lies in another one if a file lies below it there. -/
theorem mem_foldersIn {d : String} {parts : List String} (hparts : Path.Proper (d :: parts))
    (hne : parts ≠ [])
    (hfile : inside folder ++ "/".intercalate (d :: parts) ∈ t.files.keys) :
    d ∈ t.foldersIn folder := by
  have hfields : Text.fields '/' ("/".intercalate (d :: parts)) = d :: parts :=
    Text.fields_intercalate rfl (fun s hs => (hparts s hs).2.2.2) (by simp)
  have hbefore : Text.before '/' ("/".intercalate (d :: parts)) = d := by
    have hhead := Text.head?_fields '/' ("/".intercalate (d :: parts))
    rw [hfields] at hhead
    exact (Option.some.inj hhead).symm
  have hslash : '/' ∈ ("/".intercalate (d :: parts)).toList := by
    rw [String.intercalate_cons_of_ne_nil hne]
    simp
  have hd : d ≠ "" := (hparts d List.mem_cons_self).1
  simp only [foldersIn, mem_listed, List.mem_filter, List.mem_map, List.mem_append]
  exact ⟨⟨_, Or.inl ⟨mem_remainders.2 hfile, by simpa using hslash⟩, hbefore⟩, by simpa using hd⟩

theorem exists_visit {name : String} (dirs : List String) :
    ∀ {folder : String} {levels : Nat}, Path.Proper (dirs ++ [name]) → folder ≠ "" →
      dirs.length < levels → inside folder ++ "/".intercalate (dirs ++ [name]) ∈ t.files.keys →
      ∃ visit ∈ t.walkFrom levels folder, name ∈ visit.2 ∧
        Path.join visit.1 name = inside folder ++ "/".intercalate (dirs ++ [name]) := by
  induction dirs with
  | nil =>
    intro folder levels hparts hfolder hlevels hfile
    obtain ⟨levels, rfl⟩ := Nat.exists_eq_add_of_lt hlevels
    obtain ⟨hne, -, -, hslash⟩ := hparts name (by simp)
    simp only [List.nil_append, String.intercalate_singleton] at hfile ⊢
    refine ⟨_, List.mem_cons_self, ?_, join_eq_inside hfolder hslash⟩
    rw [filesIn, mem_listed, List.mem_filter, mem_remainders]
    exact ⟨hfile, by simpa using ⟨hne, hslash⟩⟩
  | cons d dirs ih =>
    intro folder levels hparts hfolder hlevels hfile
    obtain ⟨levels, rfl⟩ : ∃ n, levels = n + 1 := ⟨levels - 1, by omega⟩
    obtain ⟨hne, -, -, hslash⟩ := hparts d (by simp)
    have hpath : inside folder ++ "/".intercalate (d :: dirs ++ [name]) =
        inside (Path.join folder d) ++ "/".intercalate (dirs ++ [name]) := by
      rw [join_eq_inside hfolder hslash, inside_append hne hslash, List.cons_append,
        String.intercalate_cons_of_ne_nil (by simp)]
      simp [String.append_assoc]
    have hbelow : Path.join folder d ≠ "" := by
      rw [join_eq_inside hfolder hslash]
      simp [hne]
    have hd := mem_foldersIn hparts (by simp) hfile
    rw [hpath] at hfile ⊢
    obtain ⟨visit, hvisit, hfound⟩ :=
      ih (fun s hs => hparts s (List.mem_cons_of_mem d hs)) hbelow (by simpa using hlevels) hfile
    exact ⟨visit, List.mem_cons_of_mem _ (List.mem_flatMap.2 ⟨d, hd, hvisit⟩), hfound⟩

/-- A file lies less deep than a walk goes. -/
theorem length_lt_depth {dirs : List String} {name : String} (hparts : Path.Proper (dirs ++ [name]))
    (hfile : inside folder ++ "/".intercalate (dirs ++ [name]) ∈ t.files.keys) :
    dirs.length < t.depth := by
  have hcount : dirs.length ≤
      (inside folder ++ "/".intercalate (dirs ++ [name])).toList.count '/' := by
    have hlength := Text.length_fields '/' ("/".intercalate (dirs ++ [name]))
    rw [Text.fields_intercalate rfl (fun s hs => (hparts s hs).2.2.2) (by simp), List.length_append,
      List.length_singleton] at hlength
    rw [String.toList_append, List.count_append]
    omega
  have hmem := List.mem_map_of_mem (f := fun p => p.toList.count '/')
    (List.mem_append_left t.folders hfile)
  have hmax := List.le_max_of_le' 0 hmem hcount
  rw [depth, List.foldl_eq_foldr]
  omega

/-- **A walk is complete**: it meets every source file below its folder. -/
theorem mem_sources (hfolder : folder ≠ "") {p : String} (dirs : List String) (name : String)
    (hparts : Path.Proper (dirs ++ [name]))
    (hp : p = inside folder ++ "/".intercalate (dirs ++ [name])) (hsource : isSource name = true)
    (hfile : p ∈ t.files.keys) : p ∈ t.sources folder := by
  subst hp
  have hbelow : t.isFolder folder = true := by
    have hany : t.files.keys.any (isBelow folder) = true := by
      refine List.any_eq_true.2 ⟨_, hfile, ?_⟩
      rw [isBelow, Text.startsWith, String.toList_append, Chars.after?_eq_some.2 rfl]
      rfl
    simp [isFolder, hfolder, hany]
  obtain ⟨visit, hvisit, hmem, hjoin⟩ :=
    exists_visit dirs hparts hfolder (length_lt_depth hparts hfile) hfile
  rw [sources, walk, if_pos hbelow]
  exact List.mem_flatMap.2 ⟨visit, hvisit, List.mem_map.2
    ⟨name, List.mem_filter.2 ⟨hmem, hsource⟩, hjoin⟩⟩

/-! ## Copies of folders -/

theorem mem_foldl_add (l : List String) : ∀ fs : List String,
    x ∈ l.foldl (fun fs f => if fs.contains f then fs else fs ++ [f]) fs ↔ x ∈ fs ∨ x ∈ l := by
  induction l with
  | nil => simp
  | cons f l ih =>
    intro fs
    rw [List.foldl_cons, ih, List.mem_cons]
    split
    · next hf =>
      have hmem : x = f → x ∈ fs := fun h => h ▸ List.contains_iff_mem.1 hf
      tauto
    · rw [List.mem_append, List.mem_singleton, or_assoc]

theorem contains_mono {u : FileTree} (hfiles : t.files.keys ⊆ u.files.keys)
    (hfolders : t.folders ⊆ u.folders) (h : t.contains x = true) : u.contains x = true := by
  simp only [contains, isFile, isFolder, Bool.or_eq_true, Bool.and_eq_true, List.any_eq_true,
    List.contains_iff_mem, ← Table.mem_keys_iff_has] at h ⊢
  rcases h with h | ⟨hx, (h | ⟨y, hy, h⟩) | ⟨y, hy, h⟩⟩
  · exact .inl (hfiles h)
  · exact .inr ⟨hx, .inl (.inl (hfolders h))⟩
  · exact .inr ⟨hx, .inl (.inr ⟨y, hfolders hy, h⟩)⟩
  · exact .inr ⟨hx, .inr ⟨y, hfiles hy, h⟩⟩

/-- A copy takes nothing away. -/
theorem contains_copyFolder_of_contains (h : t.contains x = true) :
    (t.copyFolder p q).contains x = true := by
  refine contains_mono (fun y hy => ?_) (fun y hy => (mem_foldl_add _ _).2 (.inl hy)) h
  obtain ⟨b, hb⟩ := Table.mem_keys_iff.1 hy
  exact Table.mem_keys_iff.2 (Table.exists_get?_setAll (.inl ⟨b, hb⟩))

theorem contains_copyFolder (hq : q ≠ "") : (t.copyFolder p q).contains q = true := by
  have hmem : q ∈ (t.copyFolder p q).folders := (mem_foldl_add _ _).2 (.inr (by simp))
  simp [contains, isFolder, hq, hmem]

end CodeAtlas.FileTree
