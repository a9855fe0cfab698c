import CodeAtlas.Change.Hunk
import CodeAtlas.Proofs.Table
import CodeAtlas.Proofs.Text

/-!
# Hunks that are read back

A patch is written hunk by hunk: a header with the old and the new range, then lines that are marked
as kept, added or removed, or as a remark. Whatever stands in these lines and after the header, the
new ranges are read back, unless one of their numbers has more digits than can be read.

* `WrittenHunk.words_header`, `WrittenRange.ofHeader_of_word`: what a header gives;
* `WrittenPatch.ofPatch_text`: what a patch gives;
* `ChangedLines.ofPatches_written`: for each file exactly the lines of its hunks are answered;
* `ChangedLines.long_number_refused`: a number that is too long is refused.
-/
namespace CodeAtlas

/-! ## Readings that succeed under a condition -/

section
variable {α β : Type} {c d : Prop} {x : Except Failure α} {f : α → Except Failure β} {a : α} {b : β}

/-- A reading gives a value if a condition holds, and is refused as invalid otherwise. -/
def ReadsIf (c : Prop) (x : Except Failure α) (a : α) : Prop :=
  (c → x = .ok a) ∧ (¬ c → ∃ reason, x = .error (.invalid reason))

theorem ReadsIf.pure (hc : c) (a : α) : ReadsIf c (pure a) a := ⟨fun _ => rfl, fun h => absurd hc h⟩

theorem ReadsIf.congr (h : ReadsIf c x a) (hcd : c ↔ d) : ReadsIf d x a := by
  rwa [ReadsIf, hcd] at h

theorem ReadsIf.bind (hx : ReadsIf c x a) (hf : ReadsIf d (f a) b) : ReadsIf (c ∧ d) (x >>= f) b := by
  by_cases hc : c
  · rw [hx.1 hc]
    exact hf.congr (and_iff_right hc).symm
  · obtain ⟨reason, hreason⟩ := hx.2 hc
    rw [hreason]
    exact ⟨fun h => absurd h.1 hc, fun _ => ⟨reason, rfl⟩⟩

theorem ReadsIf.map (hx : ReadsIf c x a) (g : α → β) :
    ReadsIf c (x >>= fun a => Pure.pure (g a)) (g a) :=
  (hx.bind (ReadsIf.pure trivial (g a))).congr (iff_of_eq (and_true c))

theorem ReadsIf.mapM {h : α → β} {c : α → Prop} {l : List α} (hf : ∀ a, ReadsIf (c a) (f a) (h a)) :
    ReadsIf (∀ a ∈ l, c a) (l.mapM f) (l.map h) := by
  induction l with
  | nil => exact ReadsIf.pure (by simp) []
  | cons a l ih =>
    rw [List.mapM_cons]
    exact ((hf a).bind (ih.map (h a :: ·))).congr List.forall_mem_cons.symm

end

/-! ## Written hunks -/

/-- A range as it is written: its first line and, unless it is left out, the number of its lines. -/
structure WrittenRange where
  start : Nat
  count : Option Nat

namespace WrittenRange

def text (r : WrittenRange) : String :=
  match r.count with
  | none => toString r.start
  | some n => toString r.start ++ "," ++ toString n

/-- The lines that are meant: one line if their number is left out. -/
def hunk (r : WrittenRange) : Hunk := ⟨r.start, (r.count.getD 1 : Nat)⟩

/-- The numbers of a range are not too long. -/
def Readable (r : WrittenRange) : Prop := Integer.Fits r.start ∧ ∀ n ∈ r.count, Integer.Fits n

instance (r : WrittenRange) : Decidable r.Readable := inferInstanceAs (Decidable (_ ∧ _))

end WrittenRange

/-- A hunk as it is written: the ranges on both sides, what follows them in the header, and marked
lines. -/
structure WrittenHunk where
  old : WrittenRange
  new : WrittenRange
  heading : String
  body : List String
  oneLine : '\n' ∉ heading.toList
  marked : ∀ s ∈ body, '\n' ∉ s.toList ∧ s.toList.head? ∈ [' ', '+', '-', '\\'].map some

namespace WrittenHunk

def header (h : WrittenHunk) : String :=
  "@@ -" ++ h.old.text ++ " +" ++ h.new.text ++ " @@" ++ h.heading

def lines (h : WrittenHunk) : List String := h.header :: h.body

end WrittenHunk

/-- A patch as it is written: its hunks, and whether a line end follows the last line. -/
structure WrittenPatch where
  hunks : List WrittenHunk
  closed : Bool

namespace WrittenPatch

def lines (p : WrittenPatch) : List String :=
  p.hunks.flatMap WrittenHunk.lines ++ if p.closed then [""] else []

def text (p : WrittenPatch) : String := "\n".intercalate p.lines

/-- The numbers on the new side are not too long. -/
def Readable (p : WrittenPatch) : Prop := ∀ h ∈ p.hunks, h.new.Readable

instance (p : WrittenPatch) : Decidable p.Readable := inferInstanceAs (Decidable (∀ h ∈ p.hunks, _))

end WrittenPatch

/-! ## Headers -/

theorem Hunk.number_toString (n : Nat) : ReadsIf (Integer.Fits n) (number (toString n)) (n : Int) := by
  unfold number
  rw [Integer.ofText?_toString]
  constructor
  · intro h
    rw [if_pos h]
  · intro h
    rw [if_neg h]
    exact ⟨_, rfl⟩

namespace WrittenRange

variable {r : WrittenRange}

/-- A range is made of digits, and of a comma if it gives its count. -/
theorem mem_text {c : Char} (h : c ∈ r.text.toList) :
    c.isDigit = true ∨ c = ',' ∧ r.count.isSome := by
  unfold text at h
  split at h
  · exact .inl (Integer.isDigit_of_mem h)
  · next n hn =>
    simp only [String.toList_append, List.mem_append] at h
    rcases h with (h | h) | h
    · exact .inl (Integer.isDigit_of_mem h)
    · exact .inr ⟨by simpa using h, by rw [hn]; rfl⟩
    · exact .inl (Integer.isDigit_of_mem h)

theorem comma_not_mem (n : Nat) : ',' ∉ (toString n).toList := fun h => by
  cases Integer.isDigit_of_mem h

theorem isBlank_of_mem {c : Char} (h : c ∈ r.text.toList) : Text.isBlank c = false := by
  rcases mem_text h with h | ⟨rfl, -⟩
  · exact Integer.isBlank_of_isDigit h
  · decide

theorem fields_text {n : Nat} (h : r.count = some n) :
    Text.fields ',' r.text = [toString r.start, toString n] := by
  have htext : r.text.toList = (toString r.start).toList ++ ',' :: (toString n).toList := by
    simp [text, h]
  have hsingle (m : Nat) : Text.fields ',' (toString m) = [toString m] := by
    rw [Text.fields, Text.splitOn_of_not_mem (comma_not_mem m), List.map_singleton,
      String.ofList_toList]
  rw [Text.fields_of_toList htext, hsingle, hsingle]
  rfl

theorem contains_comma : Text.contains "," ("+" ++ r.text) = true ↔ r.count.isSome := by
  have hsign : ",".toList = [','] := rfl
  rw [Text.contains_iff, hsign, List.singleton_infix_iff, String.toList_append, List.mem_append]
  constructor
  · rintro (h | h)
    · cases List.mem_singleton.1 h
    · exact ((mem_text h).resolve_left (by decide)).2
  · intro h
    obtain ⟨n, hn⟩ := Option.isSome_iff_exists.1 h
    exact .inr (by simp [text, hn])

/-- A line whose third word is a range gives the hunk of the range. -/
theorem ofHeader_of_word {line : String} (h : (Text.words line)[2]? = some ("+" ++ r.text)) :
    ReadsIf r.Readable (Hunk.ofHeader line) r.hunk := by
  have hdrop : String.ofList (("+" ++ r.text).toList.drop 1) = r.text := by simp
  have hstart := Hunk.number_toString r.start
  unfold Hunk.ofHeader Readable hunk
  simp only [h, hdrop, contains_comma]
  cases hcount : r.count with
  | none =>
    have htext : r.text = toString r.start := by rw [text, hcount]
    simp only [Option.isSome_none, Bool.false_eq_true, if_false, htext]
    exact (hstart.map fun start => (⟨start, 1⟩ : Hunk)).congr (by simp)
  | some n =>
    simp only [Option.isSome_some, if_true, Hunk.ofRange, fields_text hcount]
    have hboth : ReadsIf (Integer.Fits r.start ∧ Integer.Fits n)
        (do return (⟨← Hunk.number (toString r.start), ← Hunk.number (toString n)⟩ : Hunk))
        ⟨r.start, n⟩ := by
      refine hstart.bind ?_
      exact (Hunk.number_toString n).map (Hunk.mk r.start)
    exact hboth.congr (by simp)

end WrittenRange

namespace WrittenHunk

theorem words_header (h : WrittenHunk) : (Text.words h.header)[2]? = some ("+" ++ h.new.text) := by
  have hheader : h.header.toList = ['@', '@'] ++ ' ' :: (('-' :: h.old.text.toList) ++
      ' ' :: (('+' :: h.new.text.toList) ++ ' ' :: ('@' :: '@' :: h.heading.toList))) := by
    simp [header]
  have hmark {c : Char} (hc : Text.isBlank c = false) (r : WrittenRange) :
      ∀ b ∈ c :: r.text.toList, Text.isBlank b = false :=
    List.forall_mem_cons.2 ⟨hc, fun _ => WrittenRange.isBlank_of_mem⟩
  have hat : ∀ b ∈ ['@', '@'], Text.isBlank b = false :=
    List.forall_mem_cons.2 ⟨by decide, List.forall_mem_singleton.2 (by decide)⟩
  rw [Text.words, hheader, Chars.runs_append hat (by decide) (by decide),
    Chars.runs_append (hmark (by decide) _) (by simp) (by decide),
    Chars.runs_append (hmark (by decide) _) (by simp) (by decide)]
  simp only [List.map_cons, List.getElem?_cons_succ, List.getElem?_cons_zero, Option.some.injEq]
  rw [← String.toList_inj]
  simp

theorem startsWith_header (h : WrittenHunk) : Text.startsWith "@@" h.header = true := by
  have hheader : h.header.toList = "@@".toList ++ (" -" ++ h.old.text ++ " +" ++ h.new.text ++
      " @@" ++ h.heading).toList := by
    simp [header]
  rw [Text.startsWith, hheader, Chars.after?_eq_some.2 rfl, Option.isSome_some]

/-- A marked line announces no hunk, whatever else it holds. -/
theorem startsWith_body (h : WrittenHunk) {s : String} (hs : s ∈ h.body) :
    Text.startsWith "@@" s = false := by
  obtain ⟨c, hc, hhead⟩ := List.mem_map.1 (h.marked s hs).2
  rw [Text.startsWith, Option.isSome_eq_false_iff, Option.isNone_iff_eq_none]
  cases hafter : Chars.after? "@@".toList s.toList with
  | none => rfl
  | some r =>
    rw [Chars.after?_eq_some.1 hafter] at hhead
    obtain rfl : c = '@' := Option.some.inj hhead
    exact absurd hc (by decide)

theorem newline_not_mem_range (r : WrittenRange) : '\n' ∉ r.text.toList := fun h => by
  cases WrittenRange.isBlank_of_mem h

theorem newline_not_mem (h : WrittenHunk) {s : String} (hs : s ∈ h.lines) : '\n' ∉ s.toList := by
  rcases List.mem_cons.1 hs with rfl | hs
  · simp [header, newline_not_mem_range, h.oneLine]
  · exact (h.marked s hs).1

end WrittenHunk

/-! ## Patches -/

namespace WrittenPatch

theorem filter_lines (p : WrittenPatch) :
    p.lines.filter (Text.startsWith "@@") = p.hunks.map WrittenHunk.header := by
  have hend : (if p.closed then [""] else []).filter (Text.startsWith "@@") = [] := by
    split <;> rfl
  have hlines (h : WrittenHunk) : h.lines.filter (Text.startsWith "@@") = [h.header] := by
    rw [WrittenHunk.lines, List.filter_cons_of_pos h.startsWith_header]
    congr 1
    exact List.filter_eq_nil_iff.2 fun s hs => by rw [h.startsWith_body hs]; decide
  rw [lines, List.filter_append, hend, List.append_nil, List.filter_flatMap]
  simp only [hlines, List.map_eq_flatMap]

theorem headers_text (p : WrittenPatch) :
    (Text.fields '\n' p.text).filter (Text.startsWith "@@") = p.hunks.map WrittenHunk.header := by
  by_cases hnil : p.lines = []
  · rw [← filter_lines, text, hnil]
    rfl
  · have hlines : ∀ s ∈ p.lines, '\n' ∉ s.toList := by
      intro s hs
      rcases List.mem_append.1 hs with hs | hs
      · obtain ⟨h, -, hs⟩ := List.mem_flatMap.1 hs
        exact h.newline_not_mem hs
      · split at hs
        · rw [List.mem_singleton.1 hs]
          simp
        · cases hs
    rw [text, Text.fields_intercalate rfl hlines hnil, filter_lines]

theorem ofPatch_text (p : WrittenPatch) :
    ReadsIf p.Readable (ChangedLines.ofPatch p.text) (p.hunks.map fun h => h.new.hunk) := by
  unfold ChangedLines.ofPatch
  rw [headers_text, List.mapM_map, Function.comp_def]
  exact ReadsIf.mapM fun h => WrittenRange.ofHeader_of_word h.words_header

end WrittenPatch

/-! ## Files -/

namespace ChangedLines

variable {root : String} {files : List (String × WrittenPatch)}

def pathOf (root file : String) : String := Path.normal (Path.join root file)

def given (files : List (String × WrittenPatch)) : List (String × Option String) :=
  files.map fun f => (f.1, some f.2.text)

def kept (root : String) (files : List (String × WrittenPatch)) : ChangedLines :=
  files.map fun f => (pathOf root f.1, f.2.hunks.map fun h => h.new.hunk)

theorem keys_kept : Table.keys (kept root files) = files.map fun f => pathOf root f.1 := by
  simp [Table.keys, kept]

theorem add_written (changed : ChangedLines) (f : String × WrittenPatch) :
    ReadsIf f.2.Readable (add root changed (f.1, some f.2.text))
      (Table.set changed (pathOf root f.1) (f.2.hunks.map fun h => h.new.hunk)) :=
  f.2.ofPatch_text.map (Table.set changed (pathOf root f.1))

theorem foldlM_written (changed : ChangedLines) : ReadsIf (∀ f ∈ files, f.2.Readable)
    ((given files).foldlM (add root) changed) (Table.setAll changed (kept root files)) := by
  induction files generalizing changed with
  | nil => exact ReadsIf.pure (by simp) changed
  | cons f files ih =>
    simp only [given, List.map_cons, List.foldlM_cons, List.forall_mem_cons]
    exact (add_written changed f).bind (ih _)

theorem ofPatches_given (root : String) (files : List (String × WrittenPatch)) :
    ReadsIf (∀ f ∈ files, f.2.Readable) (ofPatches root (given files))
      (Table.ofPairs (kept root files)) := foldlM_written []

theorem mem_lineNumbers {hunks : List Hunk} {n : Int} :
    n ∈ lineNumbers hunks ↔ ∃ h ∈ hunks, h.start ≤ n ∧ n < h.start + h.count := by
  simp only [lineNumbers, List.mem_eraseDups, List.mem_mergeSort, List.mem_flatMap, Hunk.lines,
    List.mem_map, List.mem_range]
  constructor
  · rintro ⟨h, hh, i, hi, rfl⟩
    exact ⟨h, hh, by omega⟩
  · rintro ⟨h, hh, hlow, hhigh⟩
    exact ⟨h, hh, (n - h.start).toNat, by omega⟩

/-- **Hunks are read back**: for patches of files with different paths the answer has these paths in
their order, and for each the lines of the new ranges of its hunks, whatever stands in the headings
and in the marked lines. A number with too many digits on a new side is refused. -/
theorem ofPatches_written (hpaths : (files.map fun f => pathOf root f.1).Nodup) :
    ((∀ f ∈ files, f.2.Readable) → ∃ changed, ofPatches root (given files) = .ok changed ∧
        Table.keys changed = (files.map fun f => pathOf root f.1) ∧
        ∀ f ∈ files, ∃ hunks, Table.get? changed (pathOf root f.1) = some hunks ∧
          ∀ n : Int, n ∈ lineNumbers hunks ↔ ∃ h ∈ f.2.hunks,
            (h.new.start : Int) ≤ n ∧ n < h.new.start + (h.new.count.getD 1 : Nat)) ∧
      (¬ (∀ f ∈ files, f.2.Readable) →
        ∃ reason, ofPatches root (given files) = .error (.invalid reason)) := by
  have hkeys : (Table.keys (kept root files)).Nodup := keys_kept ▸ hpaths
  have hread := ofPatches_given root files
  rw [Table.ofPairs_of_nodup hkeys] at hread
  refine ⟨fun h => ⟨kept root files, hread.1 h, keys_kept, fun f hf => ?_⟩, hread.2⟩
  refine ⟨_, (Table.get?_eq_some_iff hkeys).2 (List.mem_map_of_mem hf), fun n => ?_⟩
  simp only [mem_lineNumbers, List.mem_map, exists_exists_and_eq_and, WrittenRange.hunk]

/-- A hunk with headers in its heading and in its lines, and one that only removes. -/
def quotedPatch : WrittenPatch where
  hunks :=
    [⟨⟨1, some 2⟩, ⟨3, none⟩, " f(x, y) @@ -7,7 +7,7 @@", ["+@@ -9,9 +9,9 @@", "-@@", "\\ @@"],
      by decide, by decide⟩,
    ⟨⟨9, none⟩, ⟨8, some 0⟩, "", ["-x, y"], by decide, by decide⟩]
  closed := true

def quotedFiles : List (String × WrittenPatch) :=
  [("b/../a.py", quotedPatch), ("c.py", ⟨[], false⟩)]

theorem readable_quotedFiles : ∀ f ∈ quotedFiles, f.2.Readable := by decide

/-- Only the line that the first header announces is read. -/
theorem quoted_files_read : ∃ changed, ofPatches "/r" (given quotedFiles) = .ok changed ∧
    Table.keys changed = ["/r/a.py", "/r/c.py"] ∧ ∃ hunks,
      Table.get? changed "/r/a.py" = some hunks ∧ ∀ n : Int, n ∈ lineNumbers hunks ↔ n = 3 := by
  have hpaths : (quotedFiles.map fun f => pathOf "/r" f.1) = ["/r/a.py", "/r/c.py"] := by decide
  have hnodup : (quotedFiles.map fun f => pathOf "/r" f.1).Nodup := by
    rw [hpaths]
    decide
  obtain ⟨changed, hanswer, hkeys, hlines⟩ := (ofPatches_written hnodup).1 readable_quotedFiles
  obtain ⟨hunks, hhunks, hmem⟩ := hlines _ List.mem_cons_self
  refine ⟨changed, hanswer, hkeys.trans hpaths, hunks, hhunks, fun n => (hmem n).trans ?_⟩
  simp only [quotedPatch, List.mem_cons, exists_eq_or_imp, exists_eq_left, List.not_mem_nil, or_false,
    Option.getD_none, Option.getD_some]
  omega

/-- A hunk without lines on its new side. -/
def emptyHunk (start : Nat) : WrittenHunk :=
  ⟨⟨1, none⟩, ⟨start, some 0⟩, "", [], by decide, by decide⟩

theorem refused_of_not_fits {n : Nat} (h : ¬ Integer.Fits n) : ∃ reason,
    ofPatches "/r" (given [("a.py", ⟨[emptyHunk n], false⟩)]) = .error (.invalid reason) := by
  refine (ofPatches_given "/r" [("a.py", ⟨[emptyHunk n], false⟩)]).2 fun hread => h ?_
  exact (hread _ List.mem_cons_self (emptyHunk n) List.mem_cons_self).1

/-- A hunk without lines, where the number of the line before it has one digit too many: the patch is
refused. -/
theorem long_number_refused :
    (emptyHunk (Nat.pow 10 Integer.maxDigits)).new.hunk.lines = [] ∧ ∃ reason,
      ofPatches "/r" (given [("a.py", ⟨[emptyHunk (Nat.pow 10 Integer.maxDigits)], false⟩)]) =
        .error (.invalid reason) :=
  ⟨rfl, refused_of_not_fits Integer.not_fits_pow⟩

end ChangedLines
end CodeAtlas
