import CodeAtlas.Path
import CodeAtlas.Proofs.Text

/-!
# Paths in normal form

`ofParts` writes a path from the root by its parts. When these are `Proper`, the path is in normal
form and its parts can be read back, so that a path below a folder is seen from there as the parts
that follow.

* `normal_ofParts`: such a path is its own normal form;
* `normal_join`: a path below a folder is joined from the two;
* `relative_ofParts`: what is seen from a folder;
* `remove_ofParts`: what is left when the text of the folder is taken out.

A path from the root that is given in normal form is of this kind, perhaps with one more slash in
front (`exists_ofParts`). So what stands below such a folder has proper parts (`proper_below`), is
joined to it (`join_below`) and seen from it (`relative_below`).
-/
namespace CodeAtlas

namespace Path

/-- Parts that mean themselves: none is empty, `.` or `..`, and none has a slash. -/
def Proper (parts : List String) : Prop :=
  ∀ s ∈ parts, s ≠ "" ∧ s ≠ "." ∧ s ≠ ".." ∧ '/' ∉ s.toList

instance (parts : List String) : Decidable (Proper parts) :=
  inferInstanceAs (Decidable (∀ s ∈ parts, s ≠ "" ∧ s ≠ "." ∧ s ≠ ".." ∧ '/' ∉ s.toList))

/-- The path from the root with some parts. -/
def ofParts (parts : List String) : String := "/" ++ "/".intercalate parts

variable {parts folder inner : List String}

theorem Proper.append_left (h : Proper (folder ++ inner)) : Proper folder :=
  fun s hs => h s (List.mem_append_left _ hs)

theorem Proper.append_right (h : Proper (folder ++ inner)) : Proper inner :=
  fun s hs => h s (List.mem_append_right _ hs)

theorem toList_ofParts (parts : List String) :
    (ofParts parts).toList = '/' :: ['/'].intercalate (parts.map String.toList) := by
  simp [ofParts, String.toList_intercalate]

/-- What stands between the slashes of a path. -/
theorem fields_ofParts (h : Proper parts) (hne : parts ≠ []) :
    Text.fields '/' (ofParts parts) = "" :: parts := by
  have hsplit : (['/'].intercalate (parts.map String.toList)).splitOn '/' =
      parts.map String.toList := by
    refine List.splitOn_intercalate '/' (fun l hl => ?_) (by simpa using hne)
    obtain ⟨s, hs, rfl⟩ := List.mem_map.1 hl
    exact (h s hs).2.2.2
  rw [Text.fields, toList_ofParts, List.splitOn_cons_eq_if_modifyHead, hsplit]
  simp [Function.comp_def]

theorem settle_proper (rooted : Bool) (h : Proper parts) :
    ∀ done, settle rooted done parts = done.reverse ++ parts := by
  induction parts with
  | nil => simp [settle]
  | cons s parts ih =>
    intro done
    obtain ⟨hempty, hdot, hup, -⟩ := h s List.mem_cons_self
    have hrest : Proper parts := fun t ht => h t (List.mem_cons_of_mem s ht)
    rw [settle.eq_def]
    simp [hempty, hdot, hup, ih hrest]

/-- The first part does not start with a slash. -/
theorem head?_intercalate_of_plain (h : ∀ s ∈ parts, s ≠ "" ∧ '/' ∉ s.toList) :
    (['/'].intercalate (parts.map String.toList)).head? ≠ some '/' := by
  cases parts with
  | nil => simp
  | cons s parts =>
    obtain ⟨hempty, hslash⟩ := h s List.mem_cons_self
    obtain ⟨c, cs, hc⟩ := List.exists_cons_of_ne_nil (mt String.toList_eq_nil_iff.1 hempty)
    rw [hc, List.mem_cons, not_or] at hslash
    cases parts <;> simp [hc, Ne.symm hslash.1]

theorem head?_intercalate (h : Proper parts) :
    (['/'].intercalate (parts.map String.toList)).head? ≠ some '/' :=
  head?_intercalate_of_plain fun s hs => ⟨(h s hs).1, (h s hs).2.2.2⟩

theorem takeWhile_ofParts (h : Proper parts) :
    (ofParts parts).toList.takeWhile (· == '/') = ['/'] := by
  rw [toList_ofParts]
  have hhead := head?_intercalate h
  cases hl : ['/'].intercalate (parts.map String.toList) with
  | nil => rfl
  | cons c cs =>
    rw [hl, List.head?_cons, ne_eq, Option.some.injEq] at hhead
    simp [hhead]

theorem normal_ofParts (h : Proper parts) (hne : parts ≠ []) :
    normal (ofParts parts) = ofParts parts := by
  have hempty : ofParts parts ≠ "" := fun he => by
    have := toList_ofParts parts
    simp [he] at this
  unfold normal
  rw [takeWhile_ofParts h, fields_ofParts h hne]
  have hbody : "/" ++ "/".intercalate parts = ofParts parts := rfl
  simp [hempty, settle, settle_proper _ h, hbody]

theorem partsOf_ofParts (h : Proper parts) (hne : parts ≠ []) :
    partsOf (ofParts parts) = parts := by
  have hrooted : isRooted (ofParts parts) = true := by simp [isRooted, toList_ofParts]
  have hfilter : parts.filter (· != "") = parts :=
    List.filter_eq_self.2 fun s hs => by simpa using (h s hs).1
  rw [partsOf, absolute, if_pos hrooted, normal_ofParts h hne, fields_ofParts h hne]
  simp [hfilter]

theorem beyond_append (as bs : List String) : beyond as (as ++ bs) = ([], bs) := by
  induction as with
  | nil => cases bs <;> rfl
  | cons a as ih => simp [beyond, ih]

/-- What is seen of a path from a folder above it. -/
theorem relative_ofParts (h : Proper (folder ++ inner)) (hfolder : folder ≠ [])
    (hinner : inner ≠ []) :
    relative (ofParts (folder ++ inner)) (ofParts folder) = "/".intercalate inner := by
  have hne : folder ++ inner ≠ [] := by simp [hfolder]
  unfold relative
  rw [partsOf_ofParts h hne, partsOf_ofParts h.append_left hfolder, beyond_append]
  simp [hinner]

theorem ofParts_append (hfolder : folder ≠ []) (hinner : inner ≠ []) :
    ofParts (folder ++ inner) = ofParts folder ++ ofParts inner := by
  simp only [ofParts, String.intercalate_append_of_ne_nil hfolder hinner, String.append_assoc]

theorem getLast?_ofParts (h : Proper parts) (hne : parts ≠ []) :
    (ofParts parts).toList.getLast? ≠ some '/' := by
  obtain ⟨before, s, rfl⟩ := List.eq_nil_or_concat parts |>.resolve_left hne
  obtain ⟨hempty, -, -, hslash⟩ := h s (by simp)
  have hs : s.toList ≠ [] := mt String.toList_eq_nil_iff.1 hempty
  have htail : ∃ l, (ofParts (before ++ [s])).toList = l ++ s.toList := by
    by_cases hb : before = []
    · exact ⟨['/'], by simp [hb, ofParts]⟩
    · exact ⟨(ofParts before ++ "/").toList, by
        rw [ofParts_append hb (by simp)]; simp [ofParts]⟩
  obtain ⟨l, hl⟩ := htail
  rw [List.concat_eq_append, hl, List.getLast?_append, List.getLast?_eq_some_getLast hs]
  intro hlast
  exact hslash (Option.some.inj hlast ▸ List.getLast_mem hs)

theorem normal_join (h : Proper (folder ++ inner)) (hfolder : folder ≠ []) (hinner : inner ≠ []) :
    normal (join (ofParts folder) ("/".intercalate inner)) = ofParts (folder ++ inner) := by
  have hrooted : isRooted ("/".intercalate inner) = false := by
    simpa [isRooted, String.toList_intercalate] using head?_intercalate h.append_right
  have hlast : ((ofParts folder).toList.getLast? == some '/') = false := by
    simpa using getLast?_ofParts h.append_left hfolder
  have hempty : (ofParts folder == "") = false := by simp [ofParts]
  have hjoin : join (ofParts folder) ("/".intercalate inner) = ofParts (folder ++ inner) := by
    rw [join, hrooted, hlast, hempty, ofParts_append hfolder hinner]
    simp [ofParts, String.append_assoc]
  rw [hjoin, normal_ofParts h (by simp [hfolder])]

/-- What is left of a path when the text of the folder is taken out, if that stands at the beginning
only. -/
theorem remove_ofParts (hfolder : folder ≠ []) (hinner : inner ≠ [])
    (honce : Text.contains (ofParts folder) (ofParts inner) = false) :
    Text.remove (ofParts folder) (ofParts (folder ++ inner)) = ofParts inner := by
  have hne : (ofParts folder).toList ≠ [] := by simp [toList_ofParts]
  rw [ofParts_append hfolder hinner, Text.remove, Text.swap, String.toList_append,
    String.toList_empty, Chars.swap_append hne honce, String.ofList_toList]

/-! ## Paths that are given in normal form -/

/-- At the root nothing can be left but parts that mean themselves. -/
theorem proper_settle {parts : List String} (h : ∀ s ∈ parts, '/' ∉ s.toList) :
    ∀ {done}, Proper done → Proper (settle true done parts) := by
  induction parts with
  | nil =>
    intro done hdone s hs
    exact hdone s (List.mem_reverse.1 hs)
  | cons part rest ih =>
    intro done hdone
    rw [List.forall_mem_cons] at h
    rw [settle.eq_def]
    simp only
    split
    · exact ih h.2 hdone
    · next hempty =>
      rw [Bool.or_eq_true, beq_iff_eq, beq_iff_eq, not_or] at hempty
      split
      · next hup =>
        rw [bne_iff_ne] at hup
        exact ih h.2 (List.forall_mem_cons.2 ⟨⟨hempty.1, hempty.2, hup, h.1⟩, hdone⟩)
      · cases done with
        | nil => exact ih h.2 hdone
        | cons last before =>
          rw [Proper, List.forall_mem_cons] at hdone
          have hlast : (last == "..") = false := beq_eq_false_iff_ne.2 hdone.1.2.2.1
          simp only [hlast, Bool.false_eq_true, if_false]
          exact ih h.2 hdone.2

theorem exists_ofParts {p : String} (hrooted : isRooted p = true) (hnormal : normal p = p) :
    ∃ parts, Proper parts ∧ (p = ofParts parts ∨ p = "/" ++ ofParts parts) := by
  obtain ⟨cs, hcs⟩ : ∃ cs, p.toList = '/' :: cs := by
    simpa [isRooted, List.head?_eq_some_iff] using hrooted
  have hne : p ≠ "" := fun he => by simp [he] at hcs
  have hslashes : (p.toList.takeWhile (· == '/')).length > 0 := by simp [hcs]
  have hproper : Proper (settle true [] (Text.fields '/' p)) :=
    proper_settle (fun s hs => Text.not_mem_of_mem_fields hs) (by simp [Proper])
  refine ⟨_, hproper, ?_⟩
  unfold normal at hnormal
  simp only [beq_iff_eq, hne, if_false, hslashes, if_true, decide_true] at hnormal
  split at hnormal
  · rw [if_neg (by simp)] at hnormal
    refine Or.inr (hnormal.symm.trans ?_)
    simp [ofParts, ← String.append_assoc]
  · rw [if_neg (by simp)] at hnormal
    exact Or.inl hnormal.symm

theorem fields_below (folder inner : String) :
    Text.fields '/' (folder ++ "/" ++ inner) = Text.fields '/' folder ++ Text.fields '/' inner := by
  have hlist : (folder ++ "/" ++ inner).toList = folder.toList ++ '/' :: inner.toList := by simp
  exact Text.fields_of_toList hlist

theorem intercalate_fields (s : String) : "/".intercalate (Text.fields '/' s) = s :=
  Text.intercalate_fields rfl s

/-- What is written before the parts of a path. -/
theorem fields_slash (s : String) : Text.fields '/' ("/" ++ s) = "" :: Text.fields '/' s := by
  simp [Text.fields, List.splitOn_cons_eq_if_modifyHead]

theorem isRooted_append {p : String} (h : isRooted p = true) (q : String) :
    isRooted (p ++ q) = true := by
  simp only [isRooted, String.toList_append, beq_iff_eq] at h ⊢
  rw [List.head?_append, h]
  rfl

theorem isRooted_join {p : String} (h : isRooted p = true) (q : String) :
    isRooted (join p q) = true := by
  unfold join
  split
  · assumption
  · split
    · exact isRooted_append h q
    · exact isRooted_append (isRooted_append h "/") q

/-- No more than two slashes stand at the beginning of a normal form. -/
theorem ne_slashes {p : String} (hrooted : isRooted p = true) (hnormal : normal p = p)
    (rest : String) : p ≠ "///" ++ rest := by
  rintro rfl
  obtain ⟨parts, hparts, heq⟩ := exists_ofParts hrooted hnormal
  apply head?_intercalate hparts
  rcases heq with h | h <;>
  · have hlist := congrArg String.toList h
    simp only [String.toList_append, toList_ofParts] at hlist
    simp at hlist
    simp [← hlist]

theorem isRooted_intercalate (h : Proper parts) : isRooted ("/".intercalate parts) = false := by
  simpa [isRooted, String.toList_intercalate] using head?_intercalate h

theorem beyond_subset (as bs : List String) : (beyond as bs).2 ⊆ bs := by
  fun_induction beyond as bs with
  | case1 a as b bs _ ih => exact List.subset_cons_of_subset b ih
  | _ => exact List.Subset.refl _

/-- A path as seen from a directory has no slash in front. -/
theorem isRooted_relative (p start : String) : isRooted (relative p start) = false := by
  unfold relative
  simp only
  split
  · decide
  · have hplain : ∀ s ∈ (beyond (partsOf start) (partsOf p)).1.map (fun _ => "..") ++
        (beyond (partsOf start) (partsOf p)).2, s ≠ "" ∧ '/' ∉ s.toList := by
      intro s hs
      rcases List.mem_append.1 hs with hs | hs
      · obtain ⟨-, -, rfl⟩ := List.mem_map.1 hs
        decide
      · obtain ⟨hfield, hne⟩ := List.mem_filter.1 (beyond_subset _ _ hs)
        exact ⟨bne_iff_ne.1 hne, Text.not_mem_of_mem_fields hfield⟩
    simpa [isRooted, String.toList_intercalate] using head?_intercalate_of_plain hplain

/-- The parts of a path follow its slashes. -/
theorem dropWhile_fields {p : String} (h : Proper parts)
    (heq : p = ofParts parts ∨ p = "/" ++ ofParts parts) :
    (Text.fields '/' p).dropWhile (· == "") = parts := by
  cases parts with
  | nil => rcases heq with rfl | rfl <;> decide
  | cons s rest =>
    have hs : (s == "") = false := beq_eq_false_iff_ne.2 (h s List.mem_cons_self).1
    have hfields := fields_ofParts h (by simp)
    rcases heq with rfl | rfl
    · simp [hfields, hs]
    · simp [fields_slash, hfields, hs]

/-! ## Below a folder -/

section
variable {above below : String} (hrooted : isRooted above = true) (habove : normal above = above)
  (hbelow : normal (above ++ "/" ++ below) = above ++ "/" ++ below) (hroot : above ≠ "/")
include hrooted habove hbelow hroot

/-- A folder other than the root has parts, if what stands below it is in normal form. -/
theorem exists_folder : ∃ folder, Proper folder ∧ folder ≠ [] ∧
    (above = ofParts folder ∨ above = "/" ++ ofParts folder) := by
  obtain ⟨folder, hfolder, heq⟩ := exists_ofParts hrooted habove
  refine ⟨folder, hfolder, ?_, heq⟩
  rintro rfl
  rcases heq with rfl | rfl
  · exact hroot rfl
  · exact ne_slashes (isRooted_append (isRooted_append hrooted "/") below) hbelow below rfl

theorem proper_below : Proper (Text.fields '/' below) := by
  obtain ⟨folder, hfolder, hne, heq⟩ := exists_folder hrooted habove hbelow hroot
  obtain ⟨all, hall, halleq⟩ :=
    exists_ofParts (isRooted_append (isRooted_append hrooted "/") below) hbelow
  have hsplit : all = folder ++ Text.fields '/' below := by
    rw [← dropWhile_fields hall halleq, fields_below, List.dropWhile_append,
      dropWhile_fields hfolder heq, if_neg (by simpa using hne)]
  exact (hsplit ▸ hall).append_right

theorem join_below : join above below = above ++ "/" ++ below := by
  obtain ⟨folder, hfolder, hne, heq⟩ := exists_folder hrooted habove hbelow hroot
  have hhead : isRooted below = false := by
    rw [← intercalate_fields below]
    exact isRooted_intercalate (proper_below hrooted habove hbelow hroot)
  have hlast : (above.toList.getLast? == some '/') = false := by
    rw [beq_eq_false_iff_ne]
    have hparts := getLast?_ofParts hfolder hne
    rcases heq with rfl | rfl
    · exact hparts
    · have hl : (ofParts folder).toList ≠ [] := by simp [toList_ofParts]
      rw [List.getLast?_eq_some_getLast hl] at hparts
      rwa [String.toList_append, List.getLast?_append, List.getLast?_eq_some_getLast hl]
  have hempty : (above == "") = false := by
    rw [beq_eq_false_iff_ne]
    rintro rfl
    cases hrooted
  simp [join, hhead, hlast, hempty]

/-- What is seen of a path from the folder above it. -/
theorem relative_below : relative (above ++ "/" ++ below) above = below := by
  have hparts (p : String) (hr : isRooted p = true) (hn : normal p = p) :
      partsOf p = (Text.fields '/' p).filter (· != "") := by
    rw [partsOf, absolute, if_pos hr, hn]
  have hfilter : (Text.fields '/' below).filter (· != "") = Text.fields '/' below :=
    List.filter_eq_self.2 fun s hs => by
      simpa using (proper_below hrooted habove hbelow hroot s hs).1
  unfold relative
  rw [hparts _ (isRooted_append (isRooted_append hrooted "/") below) hbelow,
    hparts _ hrooted habove, fields_below, List.filter_append, hfilter, beyond_append]
  have hne : Text.fields '/' below ≠ [] := by simp [Text.fields]
  simp [hne, intercalate_fields]

end

theorem join_ne_empty {a b : String} (h : b ≠ "") : join a b ≠ "" := by
  unfold join
  split
  · exact h
  · split <;> simp [h]

end Path
end CodeAtlas
