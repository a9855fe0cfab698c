import CodeAtlas.Text.Basic
import Mathlib.Data.List.DropRight
import Mathlib.Data.List.Infix

/-!
# Parts of texts

* `head?_fields`: the first part between the occurrences of a character is what stands before it;
* `length_fields`: there is one part more than there are occurrences;
* `last_append`, `last_trimLeft`: the last part is what stands after the last occurrence;
* `intercalate_fields`, `fields_intercalate`: cutting and joining undo each other;
* `intercalate_injective`: lines can be told from the text that they make;
* `Chars.trimmed_parts_trimBy`: parts that are trimmed are the same for a trimmed text;
* `Chars.contains_iff`: where one text occurs in another;
* `Chars.cut?_eq_some_iff`: a text is cut at the leftmost occurrence of another;
* `Chars.cut?_of_first`, `Chars.swap_of_once`: cutting and replacing at an occurrence that is known;
* `Chars.runs_append`: the first word of a text;
* `Integer.ofText?_toString`: a natural number is read back if it is not too long.
-/
namespace CodeAtlas.Text

theorem head?_splitOn (c : Char) (l : List Char) :
    (l.splitOn c).head? = some (l.takeWhile (· != c)) := by
  induction l with
  | nil => rfl
  | cons a l ih =>
    rw [List.splitOn_cons_eq_if_modifyHead]
    by_cases ha : a = c
    · simp [ha]
    · obtain ⟨m, ms, hm⟩ := List.exists_cons_of_ne_nil (List.splitOn_ne_nil c l)
      rw [hm, List.head?_cons, Option.some.injEq] at ih
      simp [ha, hm, ih]

theorem length_splitOn (c : Char) (l : List Char) : (l.splitOn c).length = l.count c + 1 := by
  induction l with
  | nil => rfl
  | cons a l ih =>
    rw [List.splitOn_cons_eq_if_modifyHead]
    by_cases ha : a = c
    · simp [ha, ih]
    · simp [ha, ih]

theorem not_mem_of_mem_splitOn {c : Char} {l m : List Char} (h : m ∈ l.splitOn c) : c ∉ m := by
  induction l generalizing m with
  | nil => simp_all
  | cons a l ih =>
    rw [List.splitOn_cons_eq_if_modifyHead] at h
    obtain ⟨k, ks, hk⟩ := List.exists_cons_of_ne_nil (List.splitOn_ne_nil c l)
    by_cases ha : a = c
    · simp only [ha, beq_self_eq_true, if_true, List.mem_cons] at h
      rcases h with rfl | h
      · simp
      · exact ih h
    · rw [hk] at ih h
      simp only [beq_iff_eq, ha, if_false, List.modifyHead_cons, List.mem_cons] at h
      rcases h with rfl | h
      · simp only [List.mem_cons, not_or]
        exact ⟨Ne.symm ha, ih List.mem_cons_self⟩
      · exact ih (List.mem_cons_of_mem k h)

/-- A text without the character is its only part. -/
theorem splitOn_of_not_mem {c : Char} {l : List Char} (h : c ∉ l) : l.splitOn c = [l] := by
  induction l with
  | nil => rfl
  | cons a l ih =>
    rw [List.mem_cons, not_or] at h
    simp [List.splitOn_cons_eq_if_modifyHead, ih h.2, Ne.symm h.1]

theorem getLast?_splitOn_append {c : Char} {t : List Char} (h : c ∉ t) (l : List Char) :
    ((l ++ c :: t).splitOn c).getLast? = some t := by
  induction l with
  | nil => simp [List.splitOn_cons_eq_if_modifyHead, splitOn_of_not_mem h]
  | cons a l ih =>
    rw [List.cons_append, List.splitOn_cons_eq_if_modifyHead]
    -- there is more than one part, so what happens to the first one does not reach the last
    have hlen : 2 ≤ ((l ++ c :: t).splitOn c).length := by
      rw [length_splitOn, List.count_append, List.count_cons_self]
      omega
    obtain ⟨m, k, ms, hm⟩ : ∃ m k ms, (l ++ c :: t).splitOn c = m :: k :: ms := by
      match hp : (l ++ c :: t).splitOn c with
      | [] => simp [hp] at hlen
      | [_] => simp [hp] at hlen
      | m :: k :: ms => exact ⟨m, k, ms, rfl⟩
    rw [hm, List.getLast?_cons_cons] at ih
    split <;> simp [hm, ih]

/-- The first part is what stands before the character. -/
theorem head?_fields (c : Char) (s : String) : (fields c s).head? = some (before c s) := by
  simp only [fields, before, List.head?_map, head?_splitOn, Option.map_some]

theorem length_fields (c : Char) (s : String) : (fields c s).length = s.toList.count c + 1 := by
  simp only [fields, List.length_map, length_splitOn]

theorem not_mem_of_mem_fields {c : Char} {s t : String} (h : t ∈ fields c s) : c ∉ t.toList := by
  obtain ⟨m, hm, rfl⟩ := List.mem_map.1 h
  rw [String.toList_ofList]
  exact not_mem_of_mem_splitOn hm

/-- The last part of a text between the occurrences of a character. -/
def last (c : Char) (s : String) : String := (fields c s).getLast?.getD ""

theorem last_of_not_mem {c : Char} {s : String} (h : c ∉ s.toList) : last c s = s := by
  simp [last, fields, splitOn_of_not_mem h]

theorem not_mem_last (c : Char) (s : String) : c ∉ (last c s).toList := by
  unfold last
  cases hl : (fields c s).getLast? with
  | none => simp
  | some m => exact not_mem_of_mem_fields (List.mem_of_getLast? hl)

theorem last_of_toList {c : Char} {s t : String} {l : List Char} (hs : s.toList = l ++ c :: t.toList)
    (h : c ∉ t.toList) : last c s = t := by
  simp [last, fields, hs, getLast?_splitOn_append h]

theorem last_append {t : String} (h : '.' ∉ t.toList) (s : String) :
    last '.' (s ++ "." ++ t) = t :=
  last_of_toList (l := s.toList) (by simp) h

theorem last_trimLeft (c : Char) (s : String) : last c (trimLeft c s) = last c s := by
  have hlist (l : List Char) :
      ((l.dropWhile (· == c)).splitOn c).getLast? = (l.splitOn c).getLast? := by
    induction l with
    | nil => rfl
    | cons a l ih =>
      by_cases ha : a = c
      · obtain ⟨m, ms, hm⟩ := List.exists_cons_of_ne_nil (List.splitOn_ne_nil c l)
        simp only [ha, List.dropWhile_cons, beq_self_eq_true, if_true, ih,
          List.splitOn_cons_eq_if_modifyHead, hm, List.getLast?_cons_cons]
      · simp [ha]
  simp only [last, fields, trimLeft, String.toList_ofList, List.getLast?_map, hlist]

theorem before_of_toList {c : Char} {s a : String} {l : List Char}
    (hs : s.toList = a.toList ++ c :: l) (h : c ∉ a.toList) : before c s = a := by
  have hpos : ∀ b ∈ a.toList, (b != c) = true := fun b hb => by
    simpa using fun he : b = c => h (he ▸ hb)
  rw [before, hs, List.takeWhile_append_of_pos hpos]
  simp

theorem before_colon {s : String} (h : ':' ∉ s.toList) (t : String) :
    before ':' (s ++ ":" ++ t) = s :=
  before_of_toList (l := t.toList) (by simp) h

theorem fields_of_toList {c : Char} {s a b : String} (h : s.toList = a.toList ++ c :: b.toList) :
    fields c s = fields c a ++ fields c b := by
  simp only [fields, h, List.splitOn_append_cons_self, List.map_append]

theorem intercalate_fields {c : Char} {sep : String} (h : sep.toList = [c]) (s : String) :
    sep.intercalate (fields c s) = s := by
  rw [← String.toList_inj, String.toList_intercalate, fields, List.map_map, h]
  have hid : String.toList ∘ String.ofList = id := by funext l; simp
  rw [hid, List.map_id]
  exact List.intercalate_splitOn c

theorem fields_intercalate {c : Char} {sep : String} (h : sep.toList = [c]) {parts : List String}
    (hparts : ∀ s ∈ parts, c ∉ s.toList) (hne : parts ≠ []) :
    fields c (sep.intercalate parts) = parts := by
  have hsplit : (sep.intercalate parts).toList.splitOn c = parts.map String.toList := by
    rw [String.toList_intercalate, h]
    refine List.splitOn_intercalate c (fun l hl => ?_) (by simpa using hne)
    obtain ⟨s, hs, rfl⟩ := List.mem_map.1 hl
    exact hparts s hs
  rw [fields, hsplit, List.map_map]
  simp [Function.comp_def]

/-- What holds of the separator and of all parts holds of the joined text. -/
theorem forall_mem_intercalate {P : Char → Prop} {sep : String} (hsep : ∀ c ∈ sep.toList, P c) :
    ∀ {parts : List String}, (∀ s ∈ parts, ∀ c ∈ s.toList, P c) →
      ∀ c ∈ (sep.intercalate parts).toList, P c
  | [], _ => by simp
  | [s], h => by simpa using h
  | s :: t :: parts, h => by
    have hrest := forall_mem_intercalate hsep fun u hu => h u (List.mem_cons_of_mem s hu)
    intro c hc
    rw [String.toList_intercalate, List.map_cons, List.map_cons, List.intercalate_cons_cons,
      ← List.map_cons, ← String.toList_intercalate, List.mem_append, List.mem_append] at hc
    rcases hc with (hc | hc) | hc
    · exact h s List.mem_cons_self c hc
    · exact hsep c hc
    · exact hrest c hc

/-- Lines can be told from the text that they make. -/
theorem intercalate_injective {ls ms : List String} (hl : ∀ s ∈ ls, '\n' ∉ s.toList)
    (hm : ∀ s ∈ ms, '\n' ∉ s.toList) (hlen : ls.length = ms.length)
    (h : "\n".intercalate ls = "\n".intercalate ms) : ls = ms := by
  by_cases hne : ls = []
  · rw [hne] at hlen ⊢
    exact (List.length_eq_zero_iff.1 hlen.symm).symm
  · have hne' : ms ≠ [] := by
      rintro rfl
      exact hne (List.length_eq_zero_iff.1 hlen)
    have hline : "\n".toList = ['\n'] := rfl
    rw [← fields_intercalate hline hl hne, h, fields_intercalate hline hm hne']

end CodeAtlas.Text

/-! ## Trimmed parts -/

namespace CodeAtlas.Chars
variable {f : Char → Bool} {a c : Char}

theorem trimBy_cons (h : f a = true) (l : List Char) : trimBy f (a :: l) = trimBy f l := by
  simp [trimBy, h]

theorem trimBy_concat (h : f a = true) (l : List Char) : trimBy f (l ++ [a]) = trimBy f l := by
  rw [trimBy, List.dropWhile_append]
  split
  · next hempty => simp [trimBy, List.isEmpty_iff.1 hempty, h]
  · simp [trimBy, h]

/-- What is accepted around a text is trimmed away. -/
theorem trimBy_append {xs ys : List Char} (hx : ∀ b ∈ xs, f b = true) (hy : ∀ b ∈ ys, f b = true)
    (l : List Char) : trimBy f (xs ++ (l ++ ys)) = trimBy f l := by
  have hleft (m : List Char) : trimBy f (xs ++ m) = trimBy f m := by
    induction xs with
    | nil => rfl
    | cons b xs ih =>
      rw [List.forall_mem_cons] at hx
      rw [List.cons_append, trimBy_cons hx.1, ih hx.2]
  have hright (m : List Char) : trimBy f (m ++ ys) = trimBy f m := by
    induction ys using List.reverseRecOn with
    | nil => rw [List.append_nil]
    | append_singleton ys b ih =>
      rw [← List.append_assoc, trimBy_concat (hy b (by simp)),
        ih fun d hd => hy d (List.mem_append_left _ hd)]
  rw [hleft, hright]

/-- Ends that are refused stay. -/
theorem trimBy_of_refused {b : Char} (ha : f a = false) (hb : f b = false) (l : List Char) :
    trimBy f (a :: (l ++ [b])) = a :: (l ++ [b]) := by
  simp [trimBy, ha, hb]

/-- Nothing is taken off a text that neither begins nor ends with what is to be taken off. -/
theorem trimBy_eq_self_iff {l : List Char} :
    trimBy f l = l ↔ (∀ a ∈ l.head?, f a = false) ∧ ∀ a ∈ l.getLast?, f a = false := by
  have hright : trimBy f l = (l.dropWhile f).rdropWhile f := rfl
  have hfirst : l.dropWhile f = l ↔ ∀ a ∈ l.head?, f a = false := by
    cases l <;> simp [List.dropWhile_eq_self_iff]
  have hlast : l.rdropWhile f = l ↔ ∀ a ∈ l.getLast?, f a = false := by
    rw [List.rdropWhile_eq_self_iff]
    cases l <;> simp [List.getLast?_cons, List.getLast_eq_getLastD]
  rw [← hfirst, ← hlast]
  constructor
  · intro h
    have hle := (List.dropWhile_sublist f (l := l)).length_le
    have hle' := (List.rdropWhile_prefix f (l := l.dropWhile f)).length_le
    have heq := congrArg List.length h
    rw [hright] at heq
    have hdrop : l.dropWhile f = l := (List.dropWhile_sublist f).eq_of_length (by omega)
    exact ⟨hdrop, by rwa [hright, hdrop] at h⟩
  · rintro ⟨hdrop, hrdrop⟩
    rw [hright, hdrop, hrdrop]

theorem trimBy_eq_self {l : List Char} (h : ∀ b ∈ l, f b = false) : trimBy f l = l :=
  trimBy_eq_self_iff.2
    ⟨fun b hb => h b (List.mem_of_head? hb), fun b hb => h b (List.mem_of_getLast? hb)⟩

/-- A last character belongs to the last part, unless it is the one that parts are cut at. -/
theorem splitOn_concat (h : a ≠ c) (l : List Char) : ∃ ms m, l.splitOn c = ms ++ [m] ∧
    (l ++ [a]).splitOn c = ms ++ [m ++ [a]] := by
  induction l with
  | nil => exact ⟨[], [], rfl, by simp [List.splitOn_cons_eq_if_modifyHead, h]⟩
  | cons b l ih =>
    obtain ⟨ms, m, hl, hla⟩ := ih
    rw [List.cons_append, List.splitOn_cons_eq_if_modifyHead, List.splitOn_cons_eq_if_modifyHead, hl,
      hla]
    split
    · exact ⟨[] :: ms, m, rfl, rfl⟩
    · cases ms with
      | nil => exact ⟨[], b :: m, rfl, rfl⟩
      | cons k ks => exact ⟨(b :: k) :: ks, m, rfl, rfl⟩

theorem trimmed_parts_cons (ha : f a = true) (hac : a ≠ c) (l : List Char) :
    ((a :: l).splitOn c).map (trimBy f) = (l.splitOn c).map (trimBy f) := by
  obtain ⟨m, ms, hl⟩ := List.exists_cons_of_ne_nil (List.splitOn_ne_nil c l)
  simp [List.splitOn_cons_eq_if_modifyHead, hac, hl, trimBy_cons ha]

theorem trimmed_parts_concat (ha : f a = true) (hac : a ≠ c) (l : List Char) :
    ((l ++ [a]).splitOn c).map (trimBy f) = (l.splitOn c).map (trimBy f) := by
  obtain ⟨ms, m, hl, hla⟩ := splitOn_concat hac l
  simp [hl, hla, trimBy_concat ha]

theorem trimmed_parts_trimBy (hc : f c = false) (l : List Char) :
    ((trimBy f l).splitOn c).map (trimBy f) = (l.splitOn c).map (trimBy f) := by
  have hne {b : Char} (hb : f b = true) : b ≠ c := by
    rintro rfl
    exact absurd hb (by simp [hc])
  have hleft (l : List Char) :
      ((l.dropWhile f).splitOn c).map (trimBy f) = (l.splitOn c).map (trimBy f) := by
    induction l with
    | nil => rfl
    | cons b l ih =>
      by_cases hb : f b = true
      · rw [List.dropWhile_cons_of_pos hb, ih, trimmed_parts_cons hb (hne hb)]
      · rw [List.dropWhile_cons_of_neg hb]
  have hright (l : List Char) :
      ((l.rdropWhile f).splitOn c).map (trimBy f) = (l.splitOn c).map (trimBy f) := by
    induction l using List.reverseRecOn with
    | nil => rfl
    | append_singleton l b ih =>
      by_cases hb : f b = true
      · rw [List.rdropWhile_concat_pos f l b hb, ih, trimmed_parts_concat hb (hne hb)]
      · rw [List.rdropWhile_concat_neg f l b hb]
  exact (hright _).trans (hleft l)

theorem cut?_singleton {s a b : List Char} :
    cut? [c] s = some (a, b) ↔ s = a ++ c :: b ∧ c ∉ a := by
  induction s generalizing a with
  | nil => simp [cut?, after?]
  | cons d s ih =>
    by_cases hd : c = d
    · subst hd
      cases a with
      | nil => simp [cut?, after?]
      | cons e a => simp +contextual [cut?, after?]
    · cases a with
      | nil => simp [cut?, after?, hd, Ne.symm hd]
      | cons e a =>
        simp only [cut?, after?, hd, if_false, Option.map_eq_some_iff, Prod.exists, Prod.mk.injEq,
          List.cons.injEq, List.cons_append, List.mem_cons, not_or]
        constructor
        · rintro ⟨a', b', h, ⟨rfl, rfl⟩, rfl⟩
          obtain ⟨hs, ha⟩ := ih.1 h
          exact ⟨⟨rfl, hs⟩, hd, ha⟩
        · rintro ⟨⟨rfl, hs⟩, -, ha⟩
          exact ⟨a, b, ih.2 ⟨hs, ha⟩, ⟨rfl, rfl⟩, rfl⟩

end CodeAtlas.Chars

/-! ## Occurrences of a text in another -/

namespace CodeAtlas.Chars
variable {p r s a b : List Char}

theorem cut?_append (p r : List Char) : cut? p (p ++ r) = some ([], r) := by
  have hafter : after? p (p ++ r) = some r := after?_eq_some.2 rfl
  cases hs : p ++ r with
  | nil => rw [hs] at hafter; simp [cut?, hafter]
  | cons c s => rw [hs] at hafter; simp [cut?, hafter]

/-- A text occurs in another one if something stands before it and something after it there. -/
theorem contains_iff {p s : List Char} : contains p s = true ↔ p <:+: s := by
  constructor
  · intro h
    obtain ⟨⟨a, b⟩, hcut⟩ := Option.isSome_iff_exists.1 h
    exact ⟨a, b, (eq_append_of_cut? hcut).symm⟩
  · rintro ⟨a, b, rfl⟩
    induction a with
    | nil => simp [contains, cut?_append]
    | cons c a ih =>
      rw [List.cons_append, List.cons_append, contains, cut?]
      split
      · rfl
      · simpa [contains] using ih

theorem cut?_eq_none_iff : cut? p s = none ↔ ¬ p <:+: s := by
  rw [← contains_iff, contains, Option.isSome_iff_ne_none, not_not]

/-- A text without a character occurs on one side of it or not at all. -/
theorem infix_append_cons_iff {c : Char} (h : c ∉ p) :
    p <:+: a ++ c :: b ↔ p <:+: a ∨ p <:+: b := by
  constructor
  · rw [List.infix_append_iff_ne_nil]
    rintro (hleft | hright | ⟨l, m, -, hm, rfl, -, hprefix⟩)
    · exact .inl hleft
    · rcases List.infix_cons_iff.1 hright with hprefix | hinfix
      · cases p with
        | nil => exact .inl List.nil_infix
        | cons d p =>
          obtain ⟨rfl, -⟩ := List.cons_prefix_cons.1 hprefix
          exact absurd List.mem_cons_self h
      · exact .inr hinfix
    · obtain ⟨d, m, rfl⟩ := List.exists_cons_of_ne_nil hm
      obtain ⟨rfl, -⟩ := List.cons_prefix_cons.1 hprefix
      exact absurd (List.mem_append_right l List.mem_cons_self) h
  · rintro (hleft | hright)
    · exact List.infix_append_of_infix_left hleft
    · exact List.infix_append_of_infix_right (List.infix_cons hright)

/-- A text is cut at the first occurrence, the one that does not overlap with an earlier one. -/
theorem cut?_of_first (hfirst : ¬ p <:+: a ++ p.dropLast) (b : List Char) :
    cut? p (a ++ p ++ b) = some (a, b) := by
  have hp : p ≠ [] := by
    rintro rfl
    exact hfirst List.nil_infix
  induction a with
  | nil => exact cut?_append p b
  | cons c a ih =>
    rw [List.cons_append, List.infix_cons_iff, not_or] at hfirst
    have hafter : after? p (c :: (a ++ p ++ b)) = none := by
      cases hr : after? p (c :: (a ++ p ++ b)) with
      | none => rfl
      | some rest =>
        -- an occurrence at the beginning would end before the last character of the one that is meant
        have hsplit : c :: (a ++ p.dropLast) ++ (p.getLast hp :: b) = p ++ rest := by
          rw [← after?_eq_some.1 hr, List.cons_append, List.append_assoc, List.append_assoc,
            ← List.singleton_append (l := b), ← List.append_assoc p.dropLast,
            List.dropLast_append_getLast hp]
        have hlength : p.length ≤ (c :: (a ++ p.dropLast)).length := by
          simp only [List.length_cons, List.length_append, List.length_dropLast]
          omega
        exact absurd (List.prefix_of_prefix_length_le (List.prefix_append p rest)
          (hsplit ▸ List.prefix_append _ _) hlength) hfirst.1
    rw [List.cons_append, List.cons_append, cut?, hafter]
    simp only [ih hfirst.2, Option.map_some]

/-- The parts before and after the first occurrence of `p`. -/
def Leftmost (p s a b : List Char) : Prop :=
  s = a ++ p ++ b ∧ ∀ a' b', s = a' ++ p ++ b' → a.length ≤ a'.length

theorem Leftmost.unique {a' b' : List Char} (h : Leftmost p s a b) (h' : Leftmost p s a' b') :
    a = a' ∧ b = b' := by
  have hlength := Nat.le_antisymm (h.2 _ _ h'.1) (h'.2 _ _ h.1)
  have heq : a ++ (p ++ b) = a' ++ (p ++ b') := by
    rw [← List.append_assoc, ← List.append_assoc, ← h.1, ← h'.1]
  obtain ⟨rfl, hrest⟩ := List.append_inj heq hlength
  exact ⟨rfl, List.append_cancel_left hrest⟩

theorem leftmost_of_cut? (h : cut? p s = some (a, b)) : Leftmost p s a b := by
  refine ⟨eq_append_of_cut? h, fun a' b' hs => ?_⟩
  induction s generalizing a a' with
  | nil =>
    have hempty := congrArg List.length (eq_append_of_cut? h)
    simp only [List.length_nil, List.length_append] at hempty
    omega
  | cons c s ih =>
    rw [cut?] at h
    split at h
    · cases h
      exact Nat.zero_le _
    · next hafter =>
      obtain ⟨⟨a₁, b₁⟩, hcut, he⟩ := Option.map_eq_some_iff.1 h
      cases he
      cases a' with
      | nil => rw [hs, List.nil_append, after?_eq_some.2 rfl] at hafter; cases hafter
      | cons d a' => exact Nat.succ_le_succ (ih hcut a' (List.cons.inj hs).2)

theorem cut?_eq_some_iff : cut? p s = some (a, b) ↔ Leftmost p s a b := by
  refine ⟨leftmost_of_cut?, fun h => ?_⟩
  have hfound : contains p s = true := contains_iff.2 ⟨a, b, h.1.symm⟩
  obtain ⟨⟨a', b'⟩, hcut⟩ := Option.isSome_iff_exists.1 hfound
  obtain ⟨rfl, rfl⟩ := h.unique (leftmost_of_cut? hcut)
  exact hcut

theorem pieces_of_absent (h : ¬ p <:+: s) : pieces p s = [s] := by
  rw [pieces, cut?_eq_none_iff.2 h]

theorem pieces_of_cut? (hp : p ≠ []) (h : cut? p s = some (a, b)) :
    pieces p s = a :: pieces p b := by
  have hlength := length_of_cut? h
  have hpos := List.length_pos_iff.2 hp
  have hlt : b.length < s.length := by omega
  rw [pieces, h]
  simp only [hlt, if_true]

/-- The pieces and what stood between them make the text. -/
theorem flatten_intersperse_pieces (p s : List Char) :
    ((pieces p s).intersperse p).flatten = s := by
  fun_induction pieces p s with
  | case1 s hcut => simp
  | case2 s a b hcut hlt ih =>
    obtain ⟨m, ms, hm⟩ := List.exists_cons_of_ne_nil (pieces_ne_nil p b)
    rw [hm] at ih ⊢
    rw [eq_append_of_cut? hcut, ← ih]
    simp
  | case3 s a b hcut hge => simp

theorem swap_of_absent (r : List Char) (h : ¬ p <:+: s) : swap p r s = s := by
  unfold swap
  split
  · rfl
  · simp [pieces_of_absent h]

/-- A text that occurs once is replaced there. -/
theorem swap_of_once (r : List Char) (hfirst : ¬ p <:+: a ++ p.dropLast) (hlast : ¬ p <:+: b) :
    swap p r (a ++ p ++ b) = a ++ r ++ b := by
  have hp : p ≠ [] := by
    rintro rfl
    exact hlast List.nil_infix
  rw [swap, if_neg hp, pieces_of_cut? hp (cut?_of_first hfirst b), pieces_of_absent hlast]
  simp

theorem flatten_intersperse_nil : ∀ ls : List (List Char), (ls.intersperse []).flatten = ls.flatten
  | [] | [_] => rfl
  | l :: m :: ls => by
    have ih := flatten_intersperse_nil (m :: ls)
    simp_all

theorem swap_nil (hp : p ≠ []) (s : List Char) : swap p [] s = (pieces p s).flatten := by
  rw [swap, if_neg hp, flatten_intersperse_nil]

theorem swap_singleton_nil (c : Char) (s : List Char) : swap [c] [] s = s.filter (· != c) := by
  rw [swap_nil (List.cons_ne_nil c [])]
  fun_induction pieces [c] s with
  | case1 s hcut =>
    have habsent : c ∉ s := by rwa [← List.singleton_infix_iff, ← cut?_eq_none_iff]
    have hall : s.filter (· != c) = s :=
      List.filter_eq_self.2 fun b hb => by simpa using fun he : b = c => habsent (he ▸ hb)
    simp [hall]
  | case2 s a b hcut hlt ih =>
    obtain ⟨rfl, ha⟩ := cut?_singleton.1 hcut
    have hall : a.filter (· != c) = a :=
      List.filter_eq_self.2 fun b hb => by simpa using fun he : b = c => ha (he ▸ hb)
    simp [ih, hall]
  | case3 s a b hcut hge =>
    have hlength := length_of_cut? hcut
    simp only [List.length_singleton] at hlength
    omega

/-- Taking out what stands at the beginning and nowhere else. -/
theorem swap_append {p r : List Char} (hp : p ≠ []) (h : contains p r = false) :
    swap p [] (p ++ r) = r := by
  have hfirst : ¬ p <:+: [] ++ p.dropLast := by
    intro hin
    have hlength := hin.length_le
    have hpos := List.length_pos_iff.2 hp
    simp only [List.nil_append, List.length_dropLast] at hlength
    omega
  have hlast : ¬ p <:+: r := by rw [← contains_iff, h]; simp
  simpa using swap_of_once [] hfirst hlast

end CodeAtlas.Chars

namespace CodeAtlas.Text

/-- A text does not begin with a character if its first part is not empty, or is all of it. -/
theorem head?_ne_iff {c : Char} {s : String} : (∀ a ∈ s.toList.head?, (a == c) = false) ↔
    (fields c s).length = 1 ∨ (fields c s).head? ≠ some "" := by
  rw [length_fields, head?_fields, before]
  cases s.toList with
  | nil => simp
  | cons a l =>
    by_cases ha : a = c
    · simp [ha]
    · simp [ha, ← String.toList_inj]

theorem getLast?_ne_iff {c : Char} {s : String} : (∀ a ∈ s.toList.getLast?, (a == c) = false) ↔
    (fields c s).length = 1 ∨ (fields c s).getLast? ≠ some "" := by
  rw [length_fields, fields, List.getLast?_map]
  rcases List.eq_nil_or_concat s.toList with hs | ⟨l, a, hs⟩
  · simp [hs]
  · rw [hs]
    by_cases ha : a = c
    · subst ha
      simp [getLast?_splitOn_append (c := a) (t := []) (by simp) l]
    · obtain ⟨ms, m, -, hsplit⟩ := Chars.splitOn_concat ha l
      simp [hsplit, ha, ← String.toList_inj]

theorem contains_iff {p s : String} : contains p s = true ↔ p.toList <:+: s.toList :=
  Chars.contains_iff

/-- Cutting at the first of a character. -/
theorem cut?_single {c : Char} {p text lead rest : String} (hp : p.toList = [c]) :
    cut? p text = some (lead, rest) ↔
      text.toList = lead.toList ++ c :: rest.toList ∧ c ∉ lead.toList := by
  simp only [cut?, hp, Option.map_eq_some_iff, Prod.exists, Chars.cut?_singleton, Prod.mk.injEq]
  constructor
  · rintro ⟨a, b, h, rfl, rfl⟩
    simpa using h
  · exact fun h => ⟨_, _, h, by simp, by simp⟩

theorem cut?_single_eq_none {c : Char} {p text : String} (hp : p.toList = [c]) :
    cut? p text = none ↔ c ∉ text.toList := by
  rw [cut?, Option.map_eq_none_iff, hp, Chars.cut?_eq_none_iff, List.singleton_infix_iff]

/-- Cutting at the first occurrence of a text. -/
theorem cut?_of_toList {p text lead rest : String}
    (htext : text.toList = lead.toList ++ p.toList ++ rest.toList)
    (hfirst : ¬ p.toList <:+: lead.toList ++ p.toList.dropLast) :
    cut? p text = some (lead, rest) := by
  rw [cut?, htext, Chars.cut?_of_first hfirst]
  simp

end CodeAtlas.Text

/-! ## Words -/

namespace CodeAtlas.Chars

variable {f : Char → Bool} {w rest : List Char} {b : Char}

/-- The first word of a text, where a separator follows it. -/
theorem runs_append (hw : ∀ c ∈ w, f c = false) (hne : w ≠ []) (hb : f b = true) :
    runs f (w ++ b :: rest) = w :: runs f rest := by
  induction w with
  | nil => exact absurd rfl hne
  | cons c w ih =>
    obtain ⟨hc, hw⟩ := List.forall_mem_cons.1 hw
    cases w with
    | nil => simp [runs, hc, hb]
    | cons d w =>
      have hrest := ih hw (by simp)
      have hd := hw d List.mem_cons_self
      rw [List.cons_append] at hrest
      rw [List.cons_append, List.cons_append, runs.eq_def]
      simp only [hc, hd, hrest, Bool.false_eq_true, if_false]

end CodeAtlas.Chars

/-! ## Numbers -/

namespace CodeAtlas.Integer

/-- A number that can be read back from its digits: they are not too many. -/
def Fits (n : Nat) : Prop := (toString n).length ≤ maxDigits

instance (n : Nat) : Decidable (Fits n) := inferInstanceAs (Decidable (_ ≤ _))

theorem isDigit_of_mem {n : Nat} {c : Char} (h : c ∈ (toString n).toList) : c.isDigit = true := by
  rw [Nat.toString_eq_repr, Nat.toList_repr] at h
  exact Nat.isDigit_of_mem_toDigits (by decide) (by decide) h

theorem toNat_of_isDigit {c : Char} (h : c.isDigit = true) : 48 ≤ c.toNat ∧ c.toNat ≤ 57 :=
  Char.isDigit_iff_toNat.1 h

theorem isBlank_of_isDigit {c : Char} (h : c.isDigit = true) : Text.isBlank c = false := by
  obtain ⟨hlow, hhigh⟩ := toNat_of_isDigit h
  simp only [Text.isBlank, Bool.or_eq_false_iff, Bool.and_eq_false_iff, decide_eq_false_iff_not,
    beq_eq_false_iff_ne]
  omega

theorem digitValue?_of_isDigit {c : Char} (h : c.isDigit = true) :
    Text.digitValue? c = some (c.toNat - 48) := by
  have hsmall : c.toNat < 0x80 := by
    have := (toNat_of_isDigit h).2
    omega
  simp [Text.digitValue?, hsmall, h]

theorem digitsFrom?_of_digits {s : List Char} (h : ∀ c ∈ s, c.isDigit = true) (n : Nat) :
    digitsFrom? n s = some (Nat.ofDigitChars 10 s n) := by
  induction s generalizing n with
  | nil => simp [digitsFrom?]
  | cons c s ih =>
    obtain ⟨hc, hs⟩ := List.forall_mem_cons.1 h
    have hline : c ≠ '_' := by rintro rfl; cases hc
    rw [digitsFrom?, digitValue?_of_isDigit hc]
    · exact (ih hs _).trans (by rw [Nat.ofDigitChars_cons]; rfl)
    · rintro d t rfl
      exact absurd rfl hline

theorem natural?_of_digits {s : List Char} (h : ∀ c ∈ s, c.isDigit = true) (hne : s ≠ []) :
    natural? s = some (Nat.ofDigitChars 10 s 0) := by
  cases s with
  | nil => exact absurd rfl hne
  | cons c s =>
    obtain ⟨hc, hs⟩ := List.forall_mem_cons.1 h
    rw [natural?, digitValue?_of_isDigit hc]
    refine (digitsFrom?_of_digits hs _).trans ?_
    rw [Nat.ofDigitChars_cons, Nat.mul_zero, Nat.zero_add]
    rfl

theorem length_toString_le_iff {n k : Nat} (hk : 0 < k) :
    (toString n).length ≤ k ↔ n < Nat.pow 10 k := by
  rw [Nat.toString_eq_repr, ← String.length_toList, Nat.toList_repr]
  exact Nat.length_toDigits_le_iff (by decide) hk

theorem not_fits_pow : ¬ Fits (Nat.pow 10 maxDigits) := fun h =>
  Nat.lt_irrefl _ ((length_toString_le_iff (by decide)).1 h)

/-- A natural number is read back if it is not too long. -/
theorem ofText?_toString (n : Nat) :
    ofText? (toString n) = if Fits n then some (n : Int) else none := by
  have hdigits : ∀ c ∈ (toString n).toList, c.isDigit = true := fun c => isDigit_of_mem
  have hne : (toString n).toList ≠ [] := by
    rw [Nat.toString_eq_repr, Nat.toList_repr]
    exact Nat.toDigits_ne_nil
  have hvalue : Nat.ofDigitChars 10 (toString n).toList 0 = n := by
    rw [Nat.toString_eq_repr, Nat.toList_repr]
    exact Nat.ofDigitChars_toDigits (by decide) (by decide)
  have htrim : Text.trimBy isGap (toString n) = toString n := by
    rw [Text.trimBy, Chars.trimBy_eq_self fun c hc => ?_, String.ofList_toList]
    rw [isGap, isBlank_of_isDigit (hdigits c hc), Bool.false_and]
  have hlines : (toString n).toList.filter (· != '_') = (toString n).toList := by
    refine List.filter_eq_self.2 fun c hc => ?_
    rw [bne_iff_ne]
    rintro rfl
    cases hdigits _ hc
  have hbounded : bounded? (toString n).toList = if Fits n then some n else none := by
    rw [bounded?, hlines, natural?_of_digits hdigits hne, hvalue, String.length_toList]
    rfl
  rw [ofText?, htrim, signed?, hbounded]
  · split <;> rfl
  all_goals
    intro s hs
    have := hdigits _ (hs ▸ List.mem_cons_self)
    cases this

end CodeAtlas.Integer
