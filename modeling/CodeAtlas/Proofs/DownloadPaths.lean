import CodeAtlas.Change.Detection
import CodeAtlas.Proofs.Text

/-!
# Recovering the path inside a download

A file of a download stands at `base/name-branch-user/inner`, and `inner` is the path the hosting
service knows it by. It is found by a regular expression around the escaped name of the folder.

* `Regex.signs?_escape`: each character of an escaped text stands for itself, whatever it means in an
  expression;
* `Regex.head?_ways_download`: at the folder, the first match takes the whole user and the whole path;
* `Regex.find?_base`: before the folder there is no match, as its name holds no separator and could only
  occur inside the base;
* `inside?_download`: so the path is found, and it is the one the service is asked for.
-/
namespace CodeAtlas.Regex

/-! ## Escaped texts -/

/-- The signs of a text that stands for itself. -/
def verbatim (s : List Char) : List Sign := s.map fun c => .one (.only c)

theorem signs?_cons {c : Char} (h : c ≠ '\\') (s : List Char) :
    signs? (c :: s) = (sign? c).bind fun k => (signs? s).map (k :: ·) := by
  rw [signs?.eq_def]
  split <;> simp_all

/-- A character that is not escaped has no meaning of its own. -/
theorem sign?_of_not_special {c : Char} (h : DownloadPath.special.contains c = false) :
    sign? c = some (.one (.only c)) := by
  have hne : ∀ d ∈ DownloadPath.special, c ≠ d := by
    rintro d hd rfl
    simp [hd] at h
  have hrest : "\\^$*?|[]\x7b\x7d".toList.contains c = false := by
    rw [List.contains_eq_mem, decide_eq_false_iff_not]
    intro hc
    have hsub : "\\^$*?|[]\x7b\x7d".toList ⊆ DownloadPath.special := by decide
    exact hne c (hsub hc) rfl
  rw [sign?, if_neg (hne '+' (by decide)), if_neg (hne '(' (by decide)), if_neg (hne ')' (by decide)),
    if_neg (hne '.' (by decide)), hrest]
  rfl

theorem escaped?_of_special {c : Char} (h : DownloadPath.special.contains c = true) :
    escaped? c = some (.one (.only c)) := by
  have hall : (DownloadPath.special.all fun d => escaped? d = some (.one (.only d))) = true := by
    decide
  simpa using List.all_eq_true.1 hall c (List.contains_iff_mem.1 h)

theorem signs?_escape (s : String) (t : List Char) :
    signs? ((DownloadPath.escape s).toList ++ t) = (signs? t).map (verbatim s.toList ++ ·) := by
  rw [DownloadPath.escape, String.toList_ofList]
  induction s.toList with
  | nil => simp [verbatim]
  | cons c cs ih =>
    have hmap : ((signs? t).map (verbatim cs ++ ·)).map (Sign.one (.only c) :: ·) =
        (signs? t).map (verbatim (c :: cs) ++ ·) := by
      rw [Option.map_map]; rfl
    rw [List.flatMap_cons, List.append_assoc]
    cases hc : DownloadPath.special.contains c with
    | true =>
      rw [if_pos rfl, ← hmap, ← ih]
      simp only [List.cons_append, List.nil_append, signs?, escaped?_of_special hc, Option.bind_some]
    | false =>
      have hne : c ≠ '\\' := by rintro rfl; exact absurd hc (by decide)
      rw [if_neg Bool.false_ne_true, ← hmap, ← ih, List.singleton_append, signs?_cons hne,
        sign?_of_not_special hc, Option.bind_some]

/-- A text that stands for itself is matched by itself only. -/
theorem ways_verbatim (folder : List Char) (k : CharClass) (ps : List Sign) (s : List Char) :
    ways (verbatim folder ++ .one k :: ps) none none s =
      ((Chars.after? folder s).map (ways (.one k :: ps) none none)).getD [] := by
  induction folder generalizing s with
  | nil => rfl
  | cons c folder ih =>
    cases s with
    | nil => cases folder <;> rfl
    | cons d s =>
      -- no sign of the text is repeated
      have hstep : ways (verbatim (c :: folder) ++ .one k :: ps) none none (d :: s) =
          if d == c then ways (verbatim folder ++ .one k :: ps) none none s else [] := by
        cases folder <;> rfl
      rw [hstep]
      by_cases h : c = d
      · subst h
        simpa [Chars.after?] using ih s
      · simp [Chars.after?, h, Ne.symm h]

/-! ## Repetitions -/

variable {k : CharClass} {a b : List Char}

/-- The first way to repeat a class takes all that there is. -/
theorem splits_append (ha : a ≠ []) (hall : ∀ c ∈ a, k.accepts c = true)
    (hb : ∀ c ∈ b.head?, k.accepts c = false) : ∃ others, splits k (a ++ b) = (a, b) :: others := by
  induction a with
  | nil => exact absurd rfl ha
  | cons c a ih =>
    obtain ⟨hc, hall⟩ := List.forall_mem_cons.1 hall
    rw [List.cons_append, splits, if_pos hc]
    cases a with
    | nil =>
      have hnone : splits k b = [] := by
        cases b with
        | nil => rfl
        | cons d b => simp [splits, hb d rfl]
      exact ⟨[], by rw [List.nil_append, hnone]; rfl⟩
    | cons d a =>
      obtain ⟨others, hothers⟩ := ih (List.cons_ne_nil d a) hall
      exact ⟨others.map (fun p => (c :: p.1, p.2)) ++ [([c], d :: a ++ b)], by rw [hothers]; rfl⟩

/-- A match that goes on after all that can be repeated is the first one. -/
theorem head?_ways_plus {ps : List Sign} {group held x : Option (List Char)} (ha : a ≠ [])
    (hall : ∀ c ∈ a, k.accepts c = true) (hb : ∀ c ∈ b.head?, k.accepts c = false)
    (h : (ways ps (group.map (· ++ a)) held b).head? = some x) :
    (ways (.one k :: .plus :: ps) group held (a ++ b)).head? = some x := by
  obtain ⟨others, hothers⟩ := splits_append ha hall hb
  rw [ways, hothers, List.flatMap_cons, List.head?_append, h]
  rfl

/-! ## The expression of a download -/

/-- The signs of the expression: the folder up to the user, a word, a separator and the rest of a line. -/
def downloadSigns (sep : Char) (folder : List Char) : List Sign :=
  verbatim folder ++ [.one .word, .plus, .one (.only sep), .opens, .one .any, .plus, .closes]

variable {sep : Char} {folder : List Char}

theorem signs?_pattern (repository branch : String) :
    ∃ t, DownloadPath.pattern .posix repository branch = .ok t ∧
      signs? t.toList = some (downloadSigns '/' (repository ++ "-" ++ branch ++ "-").toList) := by
  have htail : signs? ("-\\w+\\".toList ++ ((String.singleton '/').toList ++ "(.+)".toList)) =
      some (downloadSigns '/' "-".toList) := by decide
  refine ⟨_, rfl, ?_⟩
  rw [String.toList_append, String.toList_append, String.toList_append, List.append_assoc,
    List.append_assoc, signs?_escape, htail, Option.map_some]
  simp [downloadSigns, verbatim]

theorem ways_downloadSigns_of_not_prefix {s : List Char} (h : ¬ folder <+: s) :
    ways (downloadSigns sep folder) none none s = [] := by
  have hafter : Chars.after? folder s = none := by
    cases hr : Chars.after? folder s with
    | none => rfl
    | some r => exact absurd ⟨r, (Chars.after?_eq_some.1 hr).symm⟩ h
  rw [downloadSigns, ways_verbatim, hafter]
  rfl

/-- At the folder of a download, the first match takes the user and all that stands below. -/
theorem head?_ways_download {user inner : List Char} (hsep : Text.isWord sep = false) (hu : user ≠ [])
    (hword : ∀ c ∈ user, Text.isWord c = true) (hi : inner ≠ []) (hline : '\n' ∉ inner) :
    (ways (downloadSigns sep folder) none none (folder ++ (user ++ sep :: inner))).head? =
      some (some inner) := by
  have hafter : Chars.after? folder (folder ++ (user ++ sep :: inner)) = some (user ++ sep :: inner) :=
    Chars.after?_eq_some.2 rfl
  have hgroup : (ways [.one .any, .plus, .closes] (some []) none (inner ++ [])).head? =
      some (some inner) :=
    head?_ways_plus hi (fun c hc => bne_iff_ne.2 fun h => hline (h ▸ hc)) (by simp) rfl
  have hbelow : (ways [.one (.only sep), .opens, .one .any, .plus, .closes] none none
      (sep :: inner)).head? = some (some inner) := by
    have hstep : ways [.one (.only sep), .opens, .one .any, .plus, .closes] none none (sep :: inner) =
        if (sep == sep) = true then ways [.one .any, .plus, .closes] (some []) none inner else [] := rfl
    rw [hstep, if_pos (beq_self_eq_true sep)]
    rwa [List.append_nil] at hgroup
  rw [downloadSigns, ways_verbatim, hafter, Option.map_some, Option.getD_some]
  exact head?_ways_plus hu hword (by simpa [CharClass.accepts] using hsep) hbelow

/-- A text without the separator that begins a path ends before the first separator. -/
theorem prefix_of_not_mem {p : List Char} (hp : sep ∉ p) (h : p <+: a ++ sep :: b) : p <+: a := by
  rcases Nat.le_total p.length a.length with hle | hle
  · exact List.prefix_of_prefix_length_le h (List.prefix_append a _) hle
  · obtain ⟨q, rfl⟩ := List.prefix_of_prefix_length_le (List.prefix_append a _) h hle
    cases q with
    | nil => simp
    | cons d q =>
      obtain ⟨rfl, -⟩ := List.cons_prefix_cons.1 ((List.prefix_append_right_inj a).1 h)
      exact absurd (List.mem_append_right a List.mem_cons_self) hp

/-- Before a separator nothing is found where the name of the folder does not occur. -/
theorem find?_base {base : List Char} (hfolder : sep ∉ folder) (hbase : ¬ folder <:+: base)
    (t : List Char) :
    find? (downloadSigns sep folder) (base ++ sep :: t) = find? (downloadSigns sep folder) t := by
  have hstep (c : Char) (s : List Char) (h : ¬ folder <+: c :: s) :
      find? (downloadSigns sep folder) (c :: s) = find? (downloadSigns sep folder) s := by
    rw [find?, ways_downloadSigns_of_not_prefix h]
  induction base with
  | nil => exact hstep sep t fun h => hbase (prefix_of_not_mem (a := []) hfolder h).isInfix
  | cons c base ih =>
    rw [List.infix_cons_iff, not_or] at hbase
    -- a folder that began here would end before the separator too
    have hhere : ¬ folder <+: c :: (base ++ sep :: t) := fun h =>
      hbase.1 (prefix_of_not_mem (a := c :: base) hfolder h)
    rw [List.cons_append, hstep c _ hhere, ih hbase.2]

theorem find?_of_head? {ps : List Sign} {s : List Char} {x : Option (List Char)}
    (h : (ways ps none none s).head? = some x) : find? ps s = x := by
  cases s with
  | nil => rw [find?, h]; rfl
  | cons c s =>
    obtain ⟨others, hways⟩ := List.head?_eq_some_iff.1 h
    rw [find?, hways]

end CodeAtlas.Regex

/-! ## The path below the folder of a download -/

namespace CodeAtlas.DownloadPath

/-- The path inside a repository is recovered from the path of its file in a download, and it is the one
the file is asked for by. The name and the branch may hold any character but the separator, and what
stands below the folder may repeat its name. -/
theorem inside?_download {repository branch user base inner : String}
    (hrepository : '/' ∉ repository.toList) (hbranch : '/' ∉ branch.toList)
    (huser : user ≠ "") (hword : ∀ c ∈ user.toList, Text.isWord c = true)
    (hbase : ¬ (repository ++ "-" ++ branch ++ "-").toList <:+: base.toList)
    (hinner : inner ≠ "") (hline : '\n' ∉ inner.toList) (hosted : HostedRepository) :
    let path := base ++ "/" ++ repository ++ "-" ++ branch ++ "-" ++ user ++ "/" ++ inner
    inside? .posix repository branch path = some inner ∧
      Change.readFile (.hosted hosted repository) branch path = Hosting.fileText hosted inner := by
  intro path
  have hfolder : '/' ∉ (repository ++ "-" ++ branch ++ "-").toList := by
    simp [hrepository, hbranch]
  have hpath : path.toList = base.toList ++ '/' :: ((repository ++ "-" ++ branch ++ "-").toList ++
      (user.toList ++ '/' :: inner.toList)) := by
    simp [path]
  have hfirst : (Regex.ways (Regex.downloadSigns '/' (repository ++ "-" ++ branch ++ "-").toList) none
      none ((repository ++ "-" ++ branch ++ "-").toList ++ (user.toList ++ '/' :: inner.toList))).head? =
      some (some inner.toList) :=
    Regex.head?_ways_download (by decide) (by simpa using huser) hword (by simpa using hinner) hline
  have hinside : inside? .posix repository branch path = some inner := by
    obtain ⟨t, ht, hsigns⟩ := Regex.signs?_pattern repository branch
    rw [inside?, ht]
    simp only [Regex.captured?]
    rw [hsigns, Option.bind_some, hpath, Regex.find?_base hfolder hbase, Regex.find?_of_head? hfirst,
      Option.map_some, String.ofList_toList]
  refine ⟨hinside, ?_⟩
  rw [Change.readFile, hinside]

/-- A name full of signs, below a folder that almost has it and above one that has it again. -/
theorem inside?_download_signs :
    '/' ∉ "c++ (a.b)".toList ∧ '/' ∉ "v1.*".toList ∧ "u_1" ≠ "" ∧
      (∀ c ∈ "u_1".toList, Text.isWord c = true) ∧
      ¬ ("c++ (a.b)" ++ "-" ++ "v1.*" ++ "-").toList <:+: "/srv/c++ (a.b)-v1.*".toList ∧
      "c++ (a.b)-v1.*-u_1/x.py" ≠ "" ∧ '\n' ∉ "c++ (a.b)-v1.*-u_1/x.py".toList ∧
      inside? .posix "c++ (a.b)" "v1.*"
        "/srv/c++ (a.b)-v1.*/c++ (a.b)-v1.*-u_1/c++ (a.b)-v1.*-u_1/x.py" =
        some "c++ (a.b)-v1.*-u_1/x.py" := by
  have hword : ∀ c ∈ "u_1".toList, Text.isWord c = true := List.all_eq_true.1 (by decide)
  have hbase : ¬ ("c++ (a.b)" ++ "-" ++ "v1.*" ++ "-").toList <:+: "/srv/c++ (a.b)-v1.*".toList := by
    decide
  have hline : '\n' ∉ "c++ (a.b)-v1.*-u_1/x.py".toList := by decide
  exact ⟨by decide, by decide, by decide, hword, hbase, by decide, hline,
    (inside?_download (by decide) (by decide) (by decide) hword hbase (by decide) hline .blank).1⟩

end CodeAtlas.DownloadPath
