import CodeAtlas.Plan.Extraction
import CodeAtlas.Proofs.JsonText
import Mathlib.Data.List.TakeWhile

/-!
# Objects in prose

A plan is looked for in the text around it by its braces, whatever stands in quotes. It is cut out
as it stands there exactly if it has no brace but its first and its last one; a path like
`/users/{id}` in a scenario is enough to lose it.

* `Extraction.braced?_object`: what is cut out of a text with an object in it;
* `Extraction.object_embedded`: when an object is found in prose.
-/
namespace CodeAtlas.Extraction
open Json

variable {pre body post : List Char}

theorem braced?_append (h : ∀ c ∈ pre, isBrace c = false) (s : List Char) :
    braced? (pre ++ s) = braced? s := by
  induction pre with
  | nil => rfl
  | cons c pre ih =>
    obtain ⟨hc, hpre⟩ := List.forall_mem_cons.1 h
    have hopen : c ≠ '\x7b' := by
      rintro rfl
      cases hc
    rw [List.cons_append, braced?, if_neg hopen, ih hpre]

theorem bare_of_braced {s u : List Char} (h : braced? s = some ('\x7b' :: (u ++ ['\x7d']))) :
    ∀ c ∈ u, isBrace c = false := by
  induction s with
  | nil => cases h
  | cons c s ih =>
    rw [braced?] at h
    split at h
    · split at h
      · have hu : s.takeWhile (fun d => !isBrace d) = u :=
          List.append_cancel_right (List.cons.inj (Option.some.inj h)).2
        intro d hd
        rw [← hu] at hd
        simpa using List.mem_takeWhile_imp hd
      · exact ih h
    · exact ih h

/-- A stretch from the first brace to the last one is cut out if it has no other brace. -/
theorem braced?_object (hpre : ∀ c ∈ pre, isBrace c = false) :
    braced? (pre ++ '\x7b' :: (body ++ ['\x7d']) ++ post) = some ('\x7b' :: (body ++ ['\x7d'])) ↔
      ∀ c ∈ body, isBrace c = false := by
  refine ⟨bare_of_braced, fun hbare => ?_⟩
  have hkeep : ∀ c ∈ body, (!isBrace c) = true := by simpa using hbare
  rw [List.append_assoc, braced?_append hpre, List.cons_append, List.append_assoc, braced?,
    if_pos rfl, List.dropWhile_append_of_pos hkeep, List.takeWhile_append_of_pos hkeep]
  simp [isBrace]

theorem filter_isBrace_object :
    ('\x7b' :: (body ++ ['\x7d'])).filter isBrace = ['\x7b', '\x7d'] ↔
      ∀ c ∈ body, isBrace c = false := by
  rw [List.filter_cons_of_pos rfl, List.filter_append, List.filter_singleton]
  simp [isBrace]

/-- Of two opening braces in a row the second one counts. -/
theorem braced?_inner {u rest : List Char} (hpre : ∀ c ∈ pre, isBrace c = false)
    (hbody : ∀ c ∈ body, isBrace c = false) (hu : ∀ c ∈ u, isBrace c = false) :
    braced? (pre ++ '\x7b' :: (body ++ '\x7b' :: (u ++ '\x7d' :: rest))) =
      some ('\x7b' :: (u ++ ['\x7d'])) := by
  have hkeep : ∀ c ∈ body, (!isBrace c) = true := by simpa using hbody
  have hinner := (@braced?_object body u rest hbody).2 hu
  rw [List.append_assoc, List.cons_append, List.append_assoc] at hinner
  rw [braced?_append hpre, braced?, if_pos rfl, List.dropWhile_append_of_pos hkeep]
  exact hinner

/-- A stretch in braces whose first sign is no quote shows nothing. -/
theorem ofChars_braced {c : Char} {u : List Char} (hgap : isGap c = false)
    (hbrace : isBrace c = false) (hquote : c ≠ '"') :
    ofChars ('\x7b' :: (c :: u ++ ['\x7d'])) = .error .malformed := by
  have hend : c ≠ '\x7d' := by
    rintro rfl
    cases hbrace
  have hmembers (fuel d : Nat) :
      membersFrom (fuel + 1) d (c :: u ++ ['\x7d']) = .error .malformed := by
    rw [List.cons_append, membersFrom]
    simpa using hquote
  have hvalue : Json.value (2 * ('\x7b' :: (c :: u ++ ['\x7d'])).length + 2) maxDepth
      ('\x7b' :: (c :: u ++ ['\x7d'])) = .error .malformed := by
    rw [maxDepth, Json.value.eq_def]
    have hskip := Json.skipGap_cons hgap (u ++ ['\x7d'])
    simp only [List.cons_append] at hmembers ⊢
    simp [hskip, hend, hmembers, bind, Except.bind]
  rw [ofChars, Json.skipGap_cons (by decide), hvalue]
  rfl

/-- **Objects in prose**: an object with nothing but blanks around it is found. Where the whole text
cannot be read, the object is cut out as it stands there exactly if it has no brace but its first
and its last one, and then it is found. If the next brace opens a stretch like `{id}`, nothing is
found. -/
theorem object_embedded {ms : List (String × Json)} {pre j post : String}
    (hj : Written maxDepth (.obj ms) j.toList) (hpre : ∀ c ∈ pre.toList, isBrace c = false) :
    (Gap pre.toList ∧ Gap post.toList → value (pre ++ j ++ post) = .ok (.obj ms)) ∧
    ((∀ x, ofText (pre ++ j ++ post) ≠ .ok x) →
      (braced? (pre ++ j ++ post).toList = some j.toList ↔
        j.toList.filter isBrace = ['\x7b', '\x7d']) ∧
      (j.toList.filter isBrace = ['\x7b', '\x7d'] → value (pre ++ j ++ post) = .ok (.obj ms)) ∧
      ∀ a c u rest, j.toList = '\x7b' :: (a ++ '\x7b' :: (c :: u ++ '\x7d' :: rest)) →
        (∀ d ∈ a ++ c :: u, isBrace d = false) → isGap c = false → c ≠ '"' →
          value (pre ++ j ++ post) = .ok .null) := by
  have htext : (pre ++ j ++ post).toList = pre.toList ++ j.toList ++ post.toList := by simp
  obtain ⟨body, hbody⟩ : ∃ body, j.toList = '\x7b' :: (body ++ ['\x7d']) := by
    obtain ⟨-, body, -, hbody⟩ := hj
    exact ⟨body, hbody⟩
  have hcut : braced? (pre ++ j ++ post).toList = some j.toList ↔
      j.toList.filter isBrace = ['\x7b', '\x7d'] := by
    rw [htext, hbody, braced?_object hpre, filter_isBrace_object]
  refine ⟨fun ⟨hgap, hgap'⟩ => ?_, fun hwhole => ?_⟩
  · unfold value
    rw [ofText, htext, ofChars_written hj hgap hgap']
  · obtain ⟨e, he⟩ : ∃ e, ofText (pre ++ j ++ post) = .error e := by
      cases hofText : ofText (pre ++ j ++ post) with
      | ok x => exact absurd hofText (hwhole x)
      | error e => exact ⟨e, rfl⟩
    refine ⟨hcut, fun hbare => ?_, fun a c u rest hinner hclear hgap hquote => ?_⟩
    · have hread := ofChars_written hj gap_nil gap_nil
      rw [List.nil_append, List.append_nil] at hread
      unfold value
      simp only [he, hcut.2 hbare, hread]
    · obtain ⟨ha, hu⟩ := List.forall_mem_append.1 hclear
      have hstretch := @braced?_inner pre.toList a (c :: u) (rest ++ post.toList) hpre ha hu
      have hfound : braced? (pre ++ j ++ post).toList = some ('\x7b' :: (c :: u ++ ['\x7d'])) := by
        rw [htext, hinner, ← hstretch]
        simp
      unfold value
      simp only [he, hfound, ofChars_braced hgap (hu c List.mem_cons_self) hquote]

theorem plan_in_sentence :
    value "The plan: \x7b\"happy_path\": [\"paid\"], \"edge_case\": []\x7d. Done." =
      .ok (.obj [("happy_path", .arr [.str "paid"]), ("edge_case", .arr [])]) := by
  have hj : OfTexts maxDepth (.obj [("happy_path", .arr [.str "paid"]), ("edge_case", .arr [])]) :=
    .obj (by decide) (by simpa using ⟨.arr (by simpa using .str 988 "paid"), .arr (by simp)⟩)
  have hwritten := hj.written Layout.standard_spaced
  have hwhole (x : Json) : ofText
      "The plan: \x7b\"happy_path\": [\"paid\"], \"edge_case\": []\x7d. Done." ≠ .ok x := by
    intro h
    cases h
  have hfound := @object_embedded _ "The plan: "
    "\x7b\"happy_path\": [\"paid\"], \"edge_case\": []\x7d" ". Done." hwritten (by simp [isBrace])
  exact (hfound.2 hwhole).2.1 (by decide)

/-- A path parameter in a scenario loses the plan. -/
theorem quoted_braces_lost :
    value "Plan: \x7b\"happy_path\": [\"/users/\x7bid\x7d\"], \"edge_case\": []\x7d" =
      .ok .null := by
  decide +kernel

end CodeAtlas.Extraction
