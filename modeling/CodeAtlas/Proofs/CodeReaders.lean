import CodeAtlas.Proofs.CutTexts
import CodeAtlas.Proofs.KeptExplanations

/-!
# Two readers of code

The rows of a node are read from the hosting service, where lines are cut apart and joined with line
ends between them, or from a clone, where lines keep their ends and are put one after the other. A
last line without an end is no line of its own where ends are kept, but an empty one where they are
cut off.

* `join_rows`: what the two ways of cutting out make of the same rows;
* `HostedText.answer`, `ClonedText.answer`: what the readers answer once they reach a text;
* `readers_agree`: the answers differ by one line end at most.
-/
namespace CodeAtlas.Code

/-! ## Lines with and without their ends -/

theorem join_ended (lines : List String) (last : String) :
    String.join (lines.map (· ++ "\n")) ++ last = "\n".intercalate (lines ++ [last]) := by
  induction lines with
  | nil => simp
  | cons l lines ih =>
    obtain ⟨m, ms, hm⟩ := List.exists_cons_of_ne_nil (List.concat_ne_nil last lines)
    rw [List.map_cons, String.join_cons, String.append_assoc, ih, List.cons_append, hm,
      String.intercalate_cons_cons]

theorem join_ends {lines : List String} (h : lines ≠ []) :
    String.join (lines.map (· ++ "\n")) = "\n".intercalate lines ++ "\n" := by
  rcases List.eq_nil_or_concat lines with rfl | ⟨front, l, rfl⟩
  · exact absurd rfl h
  · rw [List.concat_eq_append, ← join_ended]
    simp [String.append_assoc]

theorem rows_natCast (lines : List String) (k n : Nat) :
    rows lines ((k : Int) + 1) n = (lines.take n).drop k := by
  simp only [rows, Int.add_sub_cancel, place_natCast]
  rw [List.drop_take]
  by_cases hk : k ≤ lines.length
  · rw [Nat.min_eq_left hk, List.take_eq_take_iff, List.length_drop]
    omega
  · rw [List.drop_of_length_le (by omega), List.drop_of_length_le (by omega), List.take_nil,
      List.take_nil]

/-- The last line has an end only if another one follows. -/
theorem exists_fields (text : String) : ∃ front last, Text.fields '\n' text = front ++ [last] ∧
    front.length = text.toList.count '\n' ∧
    linesOf text = front.map (· ++ "\n") ++ [last].filter (· != "") := by
  have hlength := Text.length_fields '\n' text
  rcases List.eq_nil_or_concat (Text.fields '\n' text) with hnil | ⟨front, last, hfields⟩
  · rw [hnil] at hlength
    cases hlength
  · rw [List.concat_eq_append] at hfields
    refine ⟨front, last, hfields, ?_, ?_⟩
    · rw [hfields, List.length_append, List.length_singleton] at hlength
      omega
    · rw [linesOf, hfields, List.dropLast_concat, List.getLast?_concat]
      rfl

/-- Lines that are cut out with their ends make the text of those without, and one line end more
unless nothing is cut out or the last line is. -/
theorem join_rows (text : String) (k n : Nat) :
    String.join (rows (linesOf text) ((k : Int) + 1) n) =
      "\n".intercalate (rows (Text.fields '\n' text) ((k : Int) + 1) n) ++
        if k < n ∧ n ≤ text.toList.count '\n' then "\n" else "" := by
  obtain ⟨front, last, hfields, hlength, hlines⟩ := exists_fields text
  rw [rows_natCast, rows_natCast, hfields, hlines, ← hlength]
  have hlast : ([last].filter (· != "")).length ≤ 1 := List.length_filter_le _ _
  by_cases hn : n ≤ front.length
  · -- the last line is not among those that are cut out
    rw [List.take_append_of_le_length (by simpa using hn), List.take_append_of_le_length hn,
      ← List.map_take, ← List.map_drop]
    by_cases hk : k < n
    · rw [if_pos ⟨hk, hn⟩, join_ends]
      rw [ne_eq, List.drop_eq_nil_iff, List.length_take]
      omega
    · rw [if_neg (fun h => hk h.1), List.drop_of_length_le (by rw [List.length_take]; omega)]
      rfl
  · rw [if_neg (fun h => hn h.2), String.append_empty,
      List.take_of_length_le (by simp only [List.length_append, List.length_map]; omega),
      List.take_of_length_le (by simp only [List.length_append, List.length_singleton]; omega)]
    by_cases hk : k ≤ front.length
    · rw [List.drop_append_of_le_length (by simpa using hk), List.drop_append_of_le_length hk,
        ← List.map_drop, ← join_ended]
      by_cases hempty : last = ""
      · simp [hempty]
      · simp [hempty]
    · rw [List.drop_of_length_le (by simp only [List.length_append, List.length_map]; omega),
        List.drop_of_length_le (by simp only [List.length_append, List.length_singleton]; omega)]
      rfl

/-! ## The two readers -/

variable {node : List (String × Json)} {w : World} {l : Location} {text : String}

/-- The file that a node names is hosted, and this is its text. -/
structure HostedText (w : World) (node : List (String × Json)) (l : Location) (text : String) :
    Prop where
  place : locate node = .ok l
  file : ∃ p name r, (projectOf l).answer w = .ok p ∧ p.repository = some name ∧
    (Hosting.installedRepository (.str name)).answer w = .ok r ∧
    r.file? (Text.swap "\\" "/" l.path) = some text

/-- The file that a node names is in a clone, and this is its text. -/
structure ClonedText (w : World) (node : List (String × Json)) (l : Location) (text : String) :
    Prop where
  place : locate node = .ok l
  file : ∃ p folder c bytes, (projectOf l).answer w = .ok p ∧
    folderOf p (Table.get? w.settings "defaultUsername") = some folder ∧
    (Clone.checkoutAt folder (Json.ofOption p.branch)).answer w = .ok c ∧
    w.files.bytes (Path.join folder l.path) = .ok bytes ∧ Utf8.decode bytes = .ok text

theorem ends_projectOf {p : Project} (h : (projectOf l).answer w = .ok p) :
    (projectOf l).ends w = (.ok p, w) := by
  have hkeeps : Run.Keeps id (projectOf l) := by
    refine (Run.Keeps.lift _).bind fun key => (Run.Keeps.look _).bind fun found => ?_
    split
    · exact Run.Keeps.pure _
    · exact Run.Keeps.throw _
  exact Prod.ext h (hkeeps w)

theorem answer_toOption {read : Run String} {x : String} (h : read.answer w = .ok x) :
    (do return (← read.outcome).toOption : Run (Option String)).answer w = .ok (some x) := by
  rw [Run.answer, Run.ends_bind_ok _ (Run.ends_outcome read w), Run.ends_of_answer h]
  rfl

theorem HostedText.answer (h : HostedText w node l text) {lines : List String}
    (hcut : l.cut (Text.fields '\n' text) = .ok lines) :
    (hosted node).answer w = .ok (some ("\n".intercalate lines)) := by
  obtain ⟨hplace, p, name, r, hp, hname, hr, hfile⟩ := h
  have hrepository : (Hosting.installedRepository (.str name)).ends w = (.ok r, w) :=
    Prod.ext hr (keeps_installedRepository (.str name) w)
  refine answer_toOption ?_
  unfold readHosted Run.answer
  rw [hplace, Run.ends_bind_lift]
  simp only [Run.ends_bind_ok _ (ends_projectOf hp), hname, Run.ends_bind_ok _ hrepository,
    Hosting.fileText, hfile, Run.ends_bind_lift, hcut]
  rfl

theorem unify_of_not_mem {s : List Char} (h : '\r' ∉ s) : Lines.unify s = s := by
  fun_induction Lines.unify s with
  | case1 => rfl
  | case2 s ih => exact absurd List.mem_cons_self h
  | case3 c s _ ih =>
    rw [List.mem_cons, not_or] at h
    rw [ih h.2, if_neg (Ne.symm h.1)]

theorem ClonedText.answer (h : ClonedText w node l text) (hreturn : '\r' ∉ text.toList)
    {lines : List String} (hcut : l.cut (linesOf text) = .ok lines) :
    (cloned node).answer w = .ok (some (String.join lines)) := by
  obtain ⟨hplace, p, folder, c, bytes, hp, hfolder, hc, hbytes, hdecode⟩ := h
  have hcheckout := Run.ends_of_answer hc
  have hkeeps : Run.Keeps World.files (Clone.checkoutAt folder (Json.ofOption p.branch)) :=
    Clone.keeps_checkoutAt (fun _ _ _ => rfl) _ _
  have hfiles := hkeeps.of_ends hcheckout
  have htext : w.files.readText (Path.join folder l.path) = .ok text := by
    unfold FileTree.readText
    simp only [hbytes, Run.ok_bind, hdecode, unify_of_not_mem hreturn, String.ofList_toList]
    rfl
  have huser : (Run.setting? "defaultUsername").ends w =
    (.ok (Table.get? w.settings "defaultUsername"), w) := rfl
  refine answer_toOption ?_
  unfold readCloned Run.answer
  rw [hplace, Run.ends_bind_lift]
  simp only [Run.ends_bind_ok _ (ends_projectOf hp), Run.ends_bind_ok _ huser, hfolder,
    Run.ends_bind_ok _ hcheckout, Run.ends_bind_ok _ (Run.ends_get _), hfiles, htext,
    Run.ends_bind_lift, hcut]
  rfl

/-- **The two readers of code agree**: where both reach the same text without carriage returns, both
answer, for any row from the first on and any last row. The clone's reader answers what the other one
does, with one line end more exactly if the rows are not empty and all of them end. -/
theorem readers_agree {v : World} {a b : Int} (hw : HostedText w node l text)
    (hv : ClonedText v node l text) (hreturn : '\r' ∉ text.toList) (hstart : l.start = .int a)
    (hstop : l.stop = .int b) (ha : 1 ≤ a) (hb : 0 ≤ b) :
    ∃ shown read, (hosted node).answer w = .ok (some shown) ∧
      (cloned node).answer v = .ok (some read) ∧ (read = shown ∨ read = shown ++ "\n") ∧
      (read = shown ++ "\n" ↔ a ≤ b ∧ b ≤ text.toList.count '\n') := by
  have hcut (lines : List String) : l.cut lines = .ok (rows lines a b) := by
    unfold Location.cut
    rw [hstart, hstop]
    rfl
  refine ⟨_, _, hw.answer (hcut _), hv.answer hreturn (hcut _), ?_⟩
  obtain ⟨k, rfl⟩ : ∃ k : Nat, a = (k : Int) + 1 := ⟨(a - 1).toNat, by omega⟩
  obtain ⟨n, rfl⟩ := Int.eq_ofNat_of_zero_le hb
  have hrange : (k : Int) + 1 ≤ n ∧ (n : Int) ≤ text.toList.count '\n' ↔
      k < n ∧ n ≤ text.toList.count '\n' := by omega
  rw [join_rows, hrange]
  split
  · next hinside => exact ⟨.inr rfl, iff_of_true rfl hinside⟩
  · next houtside =>
    rw [String.append_empty]
    refine ⟨.inl rfl, iff_of_false (fun he => ?_) houtside⟩
    have hlength := congrArg String.length he
    rw [String.length_append, show "\n".length = 1 by decide] at hlength
    omega

/-- The project of `demo` with a clone, which holds its file too. -/
def demoClone (src : String) : World :=
  { demo src with
    clones := [("o/demo", ⟨[("main", "s1")], "main", [], [], [], []⟩)]
    files := .named [("o/demo/m.py", src.toByteArray)] [] }

def demoNode : List (String × Json) :=
  [("project_id", .int 1), ("id", .str "/m.py:f"), ("start", .int 1), ("end", .int 1)]

theorem first_line_read : ∃ shown read, (hosted demoNode).answer (demo "a\nb") = .ok (some shown) ∧
    (cloned demoNode).answer (demoClone "a\nb") = .ok (some read) ∧ read = shown ++ "\n" := by
  have hplace : locate demoNode = .ok ⟨.int 1, "m.py", .int 1, .int 1⟩ := rfl
  have hpath : Text.swap "\\" "/" "m.py" = "m.py" := by cbv
  have hhosted : HostedText (demo "a\nb") demoNode ⟨.int 1, "m.py", .int 1, .int 1⟩ "a\nb" :=
    ⟨hplace, _, _, _, rfl, rfl, rfl, by rw [hpath]; rfl⟩
  have hcloned : ClonedText (demoClone "a\nb") demoNode ⟨.int 1, "m.py", .int 1, .int 1⟩ "a\nb" :=
    ⟨hplace, _, _, _, _, rfl, rfl, rfl, rfl, Utf8.decode_toByteArray _⟩
  obtain ⟨shown, read, hshown, hread, -, hend⟩ :=
    readers_agree hhosted hcloned (by decide) rfl rfl (by decide) (by decide)
  exact ⟨shown, read, hshown, hread, hend.2 (by decide)⟩

end CodeAtlas.Code
