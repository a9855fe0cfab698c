import CodeAtlas.Proofs.CutTexts

/-!
# Decorators as they are written

The decorator of an entry point is a dotted name that ends in a verb, with a quoted path as its first
argument: `@app.get('/x', tags=[])`. A `route` may list its methods after the path. The text is taken
apart by searching for characters and words, so that what is found depends on where else these occur.

* `Written`: a decorator by its parts, and its text;
* `Written.Answers`: the verbs that a decorator is written to answer;
* `endpointText_text`: the verb and the path that are found in the text are those of the decorator;
* `methods_text`: the methods that are found are those that are listed;
* `inTree_of_alone`: in a tree with one decorated definition the detection looks at its decorator;
* `decorator_read_exactly`: in a source of ASCII characters the entry points that are found are those
  that the decorator is written for.
-/
namespace CodeAtlas

namespace ServedPath

def quoted (quote : Char) (s : String) : String := String.ofList (quote :: (s.toList ++ [quote]))

def served (path : String) : String := if path = "" then "/" else path

section
variable {q : Char} (hq : isQuote q = true)

theorem eq_of_isQuote (hq : isQuote q = true) : q = '\'' ∨ q = '"' := by
  simpa [isQuote] using hq

include hq

theorem ne_of_isQuote {c : Char} (hc : isQuote c = false) : c ≠ q := by
  rintro rfl
  simp [hq] at hc

theorem trim_quoted (s : String) : Text.trim (quoted q s) = quoted q s := by
  have hblank : Text.isBlank q = false := by
    rcases eq_of_isQuote hq with rfl | rfl <;> decide
  rw [Text.trim, Text.trimBy, quoted, String.toList_ofList, Chars.trimBy_of_refused hblank hblank]

theorem isQuoted_quoted (s : String) : isQuoted (quoted q s) = true := by
  simp [isQuoted, quoted, List.getLast?_cons, hq]

/-- Both kinds of quotes are taken out of a quoted name, which has none inside. -/
theorem remove_quotes {s : String} (hs : ∀ c ∈ s.toList, isQuote c = false) :
    Text.remove "\"" (Text.remove "'" (quoted q s)) = s := by
  have hsingle : "'".toList = ['\''] := rfl
  have hdouble : "\"".toList = ['"'] := rfl
  have hkeep (c : Char) : (c != '"' && c != '\'') = !isQuote c := by
    simp [isQuote, bne, Bool.and_comm]
  have hinside : s.toList.filter (!isQuote ·) = s.toList :=
    List.filter_eq_self.2 fun c hc => by simp [hs c hc]
  simp only [Text.remove, Text.swap, hsingle, hdouble, String.toList_empty, String.toList_ofList,
    Chars.swap_singleton_nil, List.filter_filter, quoted, hkeep]
  simp [hq, hinside]

end

theorem inner_quoted (q : Char) (s : String) : Text.inner (quoted q s) = s := by
  simp [Text.inner, quoted]

end ServedPath

namespace Decorator
open ServedPath (isQuote quoted served)

/-! ## Parts of decorators -/

/-- A decorator with a quoted path as its first argument. -/
structure Written where
  router : List String
  verb : String
  quote : Char
  path : String
  tail : String

namespace Written

/-- The dotted name of a decorator, with its sign. -/
def name (d : Written) : String := "@" ++ ".".intercalate d.router ++ "." ++ d.verb

/-- The arguments, up to the closing parenthesis. -/
def arguments (d : Written) : String := quoted d.quote d.path ++ d.tail ++ ")"

def text (d : Written) : String := d.name ++ "(" ++ d.arguments

/-- What the parts of a decorator can be: words in the dotted name, no comma in the path, and after
it nothing or more arguments. Decorators that patch something for a test are left out. -/
structure Supported (d : Written) : Prop where
  router : ∀ s ∈ d.router, ∀ c ∈ s.toList, Text.isWord c = true
  quote : isQuote d.quote = true
  path : ',' ∉ d.path.toList
  tail : d.tail = "" ∨ ∃ rest, d.tail = "," ++ rest
  unpatched : Text.contains ".patch." d.text = false

end Written

/-- A method in the list of a route: a quoted name, with blanks around it. -/
structure Listed where
  before : String
  quote : Char
  name : String
  after : String

namespace Listed

def text (m : Listed) : String := m.before ++ quoted m.quote m.name ++ m.after

structure Proper (m : Listed) : Prop where
  before : ∀ c ∈ m.before.toList, Text.isBlank c = true
  quote : isQuote m.quote = true
  name : ∀ c ∈ m.name.toList, c.isAlpha = true
  after : ∀ c ∈ m.after.toList, Text.isBlank c = true

end Listed

def listing (ms : List Listed) : String := ",".intercalate (ms.map Listed.text)

/-- The verbs of requests and of sockets. -/
def verbs : List String :=
  ["get", "post", "put", "patch", "delete", "options", "head", "trace", "websocket"]

/-- The verbs that a decorator is written to answer: its own one, those that a route lists, or `GET`
for a route that lists none. The words that the text is searched for must not stand elsewhere. -/
inductive Written.Answers (d : Written) : List String → Prop where
  | own (verb : d.verb ∈ verbs)
      (plain : Text.contains ".route" d.text = false ∨
        Text.contains "methods" d.text = false ∧ Text.contains "ROUTE" d.text = false) :
      d.Answers [Text.upper d.verb]
  | listed (ms : List Listed) (some : ms ≠ []) (proper : ∀ m ∈ ms, m.Proper)
      (verb : d.verb = "route") (tail : d.tail = ", methods=[" ++ listing ms ++ "]")
      (unlisted : Text.contains "methods" d.path = false)
      (unrouted : Text.contains "ROUTE" d.path = false) :
      d.Answers (ms.map fun m => Text.upper m.name)
  | unlisted (verb : d.verb = "route") (none : Text.contains "methods" d.text = false)
      (unrouted : Text.contains "ROUTE" d.path = false) : d.Answers ["GET"]

/-! ## Reading the verb and the path -/

section
variable {d : Written} {vs : List String}

theorem Written.Answers.verb_mem (h : d.Answers vs) : d.verb ∈ "route" :: verbs := by
  cases h with
  | own verb => exact List.mem_cons_of_mem _ verb
  | listed ms some proper verb => exact verb ▸ List.mem_cons_self
  | unlisted verb => exact verb ▸ List.mem_cons_self

theorem isWord_of_mem_verb : ∀ v ∈ "route" :: verbs, ∀ c ∈ v.toList, Text.isWord c = true := by
  have hall : ∀ v ∈ "route" :: verbs, v.toList.all Text.isWord = true := by decide
  exact fun v hv => List.all_eq_true.1 (hall v hv)

/-- The dotted name has no other signs than its points and the one at the beginning. -/
theorem not_mem_name (hd : d.Supported) (hv : d.verb ∈ "route" :: verbs) {c : Char}
    (hword : Text.isWord c = false) (hat : c ≠ '@') (hpoint : c ≠ '.') : c ∉ d.name.toList := by
  have hne {b : Char} (hb : Text.isWord b = true) : b ≠ c := by
    rintro rfl
    simp [hb] at hword
  have hrouter : ∀ b ∈ (".".intercalate d.router).toList, b ≠ c :=
    Text.forall_mem_intercalate (by simpa using hpoint.symm) fun s hs b hb =>
      hne (hd.router s hs b hb)
  intro hc
  simp only [Written.name, String.toList_append, List.mem_append] at hc
  rcases hc with ((hc | hc) | hc) | hc
  · exact hat (by simpa using hc)
  · exact hrouter c hc rfl
  · exact hpoint (by simpa using hc)
  · exact hne (isWord_of_mem_verb _ hv c hc) rfl

theorem toList_text (d : Written) :
    d.text.toList = d.name.toList ++ '(' :: d.arguments.toList := by
  simp [Written.text]

theorem argument_eq (hd : d.Supported) :
    ((Text.cut? "," d.arguments).map Prod.fst).getD (Text.dropLast d.arguments) =
      quoted d.quote d.path := by
  have hcomma : ",".toList = [','] := rfl
  have hfree : ',' ∉ (quoted d.quote d.path).toList := by
    have hquote : ',' ≠ d.quote := ServedPath.ne_of_isQuote hd.quote (by decide)
    simp [quoted, hquote, hd.path]
  rcases hd.tail with htail | ⟨rest, htail⟩
  · have hnone : Text.cut? "," d.arguments = none := by
      rw [Text.cut?_single_eq_none hcomma]
      simpa [Written.arguments, htail] using hfree
    rw [hnone]
    simp [Written.arguments, htail, Text.dropLast]
  · have hcut : Text.cut? "," d.arguments = some (quoted d.quote d.path, rest ++ ")") :=
      (Text.cut?_single hcomma).2 ⟨by simp [Written.arguments, htail], hfree⟩
    rw [hcut]
    rfl

theorem ofDecorator_text (hd : d.Supported) (hv : d.verb ∈ "route" :: verbs) :
    ServedPath.ofDecorator d.text = served d.path := by
  have hopen : Text.cut? "(" d.text = some (d.name, d.arguments) :=
    (Text.cut?_single rfl).2
      ⟨toList_text d, not_mem_name hd hv (by decide) (by decide) (by decide)⟩
  simp only [ServedPath.ofDecorator, hopen, Option.map_some, Option.getD_some, argument_eq hd,
    ServedPath.trim_quoted hd.quote, ServedPath.isQuoted_quoted hd.quote, ServedPath.inner_quoted,
    if_true, served, beq_iff_eq]

theorem endpointText_text (hd : d.Supported) (hv : d.verb ∈ "route" :: verbs) :
    endpointText d.text = Text.upper d.verb ++ " " ++ served d.path := by
  have hname : Text.before '(' d.text = d.name :=
    Text.before_of_toList (toList_text d) (not_mem_name hd hv (by decide) (by decide) (by decide))
  have hpoint : '.' ∉ d.verb.toList := fun hc =>
    absurd (isWord_of_mem_verb _ hv '.' hc) (by decide)
  have hverb : (Text.fields '.' d.name).getLast?.getD "" = d.verb := Text.last_append hpoint _
  rw [endpointText, hname, hverb, ofDecorator_text hd hv]

/-- The verb stands after a point. -/
theorem contains_verb (d : Written) : Text.contains ("." ++ d.verb) d.text = true :=
  Text.contains_iff.2 ⟨("@" ++ ".".intercalate d.router).toList, ("(" ++ d.arguments).toList, by
    simp [Written.text, Written.name]⟩

theorem contains_route (h : d.verb = "route") : Text.contains ".route" d.text = true := by
  have hverb := contains_verb d
  rwa [h, show "." ++ "route" = ".route" from rfl] at hverb

theorem isMarked_text (hd : d.Supported) (hv : d.verb ∈ "route" :: verbs) :
    isMarked d.text = true := by
  have hmark : "." ++ d.verb ∈ marks := by
    have hall : ∀ v ∈ "route" :: verbs, "." ++ v ∈ marks := by decide
    exact hall _ hv
  have hany : marks.any (Text.contains · d.text) = true :=
    List.any_eq_true.2 ⟨_, hmark, contains_verb d⟩
  rw [isMarked, hany, hd.unpatched]
  rfl

/-! ## Replacing the word of a route -/

theorem route_absent_served {path : String} (h : Text.contains "ROUTE" path = false) :
    ¬ "ROUTE".toList <:+: (served path).toList := by
  unfold served
  split
  · decide
  · rw [← Text.contains_iff, h]
    simp

theorem swap_route (m : String) {path : String} (h : Text.contains "ROUTE" path = false) :
    Text.swap "ROUTE" m ("ROUTE" ++ " " ++ served path) = m ++ " " ++ served path := by
  have hlast : ¬ "ROUTE".toList <:+: ' ' :: (served path).toList := by
    rw [← List.nil_append (' ' :: _), Chars.infix_append_cons_iff (by decide)]
    exact not_or.2 ⟨by decide, route_absent_served h⟩
  have hswap := Chars.swap_of_once (a := []) m.toList (by decide) hlast
  rw [Text.swap, ← String.toList_inj]
  simpa using hswap

/-- Another verb has no such word. -/
theorem swap_verb {v path : String} (hv : v ∈ verbs) (h : Text.contains "ROUTE" path = false) :
    Text.swap "ROUTE" "GET" (Text.upper v ++ " " ++ served path) =
      Text.upper v ++ " " ++ served path := by
  have hverb : ∀ v ∈ verbs, ¬ "ROUTE".toList <:+: (Text.upper v).toList := by decide
  have habsent : ¬ "ROUTE".toList <:+: (Text.upper v ++ " " ++ served path).toList := by
    simp only [String.toList_append, List.append_assoc]
    rw [show " ".toList ++ (served path).toList = ' ' :: (served path).toList from rfl,
      Chars.infix_append_cons_iff (by decide)]
    exact not_or.2 ⟨hverb v hv, route_absent_served h⟩
  rw [Text.swap, Chars.swap_of_absent _ habsent, String.ofList_toList]

/-! ## Reading the methods -/

theorem isQuote_of_isAlpha {c : Char} (h : c.isAlpha = true) : isQuote c = false := by
  cases hc : isQuote c with
  | false => rfl
  | true =>
    rcases ServedPath.eq_of_isQuote hc with rfl | rfl
    · exact absurd h (by decide)
    · exact absurd h (by decide)

theorem Listed.Proper.not_mem {m : Listed} (hm : m.Proper) {c : Char}
    (hblank : Text.isBlank c = false) (hquote : isQuote c = false) (halpha : c.isAlpha = false) :
    c ∉ m.text.toList := by
  have hq : c ≠ m.quote := ServedPath.ne_of_isQuote hm.quote hquote
  have hbefore : c ∉ m.before.toList := fun hc => by simp [hm.before c hc] at hblank
  have hname : c ∉ m.name.toList := fun hc => by simp [hm.name c hc] at halpha
  have hafter : c ∉ m.after.toList := fun hc => by simp [hm.after c hc] at hblank
  simp [Listed.text, quoted, hq, hbefore, hname, hafter]

theorem Listed.Proper.trim_text {m : Listed} (hm : m.Proper) :
    Text.trim m.text = quoted m.quote m.name := by
  rw [← ServedPath.trim_quoted hm.quote, Text.trim, Text.trimBy, Text.trim, Text.trimBy,
    Listed.text, String.append_assoc, String.toList_append, String.toList_append,
    Chars.trimBy_append hm.before hm.after]

section
variable {ms : List Listed} (hms : ∀ m ∈ ms, m.Proper)
include hms

theorem not_mem_listing {c : Char} (hblank : Text.isBlank c = false) (hquote : isQuote c = false)
    (halpha : c.isAlpha = false) (hcomma : c ≠ ',') : c ∉ (listing ms).toList := by
  have hne : ∀ b ∈ (listing ms).toList, b ≠ c := by
    refine Text.forall_mem_intercalate (by simpa using hcomma.symm) fun s hs b hb => ?_
    obtain ⟨m, hm, rfl⟩ := List.mem_map.1 hs
    rintro rfl
    exact (hms m hm).not_mem hblank hquote halpha hb
  exact fun hc => hne c hc rfl

/-- Brackets are taken off, one kind after the other. -/
theorem trim_brackets :
    Text.trimBy (· == ']') (Text.trimBy (· == '[') ("[" ++ listing ms ++ "]")) = listing ms := by
  have hopen : '[' ∉ (listing ms).toList :=
    not_mem_listing hms (by decide) (by decide) (by decide) (by decide)
  have hclose : ']' ∉ (listing ms).toList :=
    not_mem_listing hms (by decide) (by decide) (by decide) (by decide)
  have hleft : Chars.trimBy (· == '[') ('[' :: ((listing ms).toList ++ [']'])) =
      (listing ms).toList ++ [']'] := by
    rw [Chars.trimBy_cons (by decide), Chars.trimBy_eq_self]
    intro b hb
    rcases List.mem_append.1 hb with hb | hb
    · simpa using fun he : b = '[' => hopen (he ▸ hb)
    · obtain rfl := List.mem_singleton.1 hb
      decide
  have hright : Chars.trimBy (· == ']') ((listing ms).toList ++ [']']) = (listing ms).toList := by
    rw [Chars.trimBy_concat (by decide), Chars.trimBy_eq_self]
    intro b hb
    simpa using fun he : b = ']' => hclose (he ▸ hb)
  have hlist : ("[" ++ listing ms ++ "]").toList = '[' :: ((listing ms).toList ++ [']']) := by simp
  rw [Text.trimBy, Text.trimBy, hlist, hleft, String.toList_ofList, hright, String.ofList_toList]

theorem names_listing (hne : ms ≠ []) :
    (Text.fields ',' (listing ms)).map (fun m => Text.remove "\"" (Text.remove "'" (Text.trim m))) =
      ms.map Listed.name := by
  have hfree : ∀ s ∈ ms.map Listed.text, ',' ∉ s.toList := by
    intro s hs
    obtain ⟨m, hm, rfl⟩ := List.mem_map.1 hs
    exact (hms m hm).not_mem (by decide) (by decide) (by decide)
  rw [listing, Text.fields_intercalate rfl hfree (by simpa using hne), List.map_map]
  refine List.map_congr_left fun m hm => ?_
  have hplain : ∀ c ∈ m.name.toList, isQuote c = false :=
    fun c hc => isQuote_of_isAlpha ((hms m hm).name c hc)
  rw [Function.comp_apply, (hms m hm).trim_text, ServedPath.remove_quotes (hms m hm).quote hplain]

/-- What stands before the closing parenthesis is the list in its brackets. -/
theorem inside_listing :
    Text.trim (Text.before ')' ("[" ++ listing ms ++ "])")) = "[" ++ listing ms ++ "]" := by
  have hclose : ')' ∉ (listing ms).toList :=
    not_mem_listing hms (by decide) (by decide) (by decide) (by decide)
  have hlist : ("[" ++ listing ms ++ "]").toList = '[' :: ((listing ms).toList ++ [']']) := by simp
  have hbefore : Text.before ')' ("[" ++ listing ms ++ "])") = "[" ++ listing ms ++ "]" :=
    Text.before_of_toList (l := []) (by simp) (by simpa using hclose)
  rw [hbefore, Text.trim, Text.trimBy, hlist, Chars.trimBy_of_refused (by decide) (by decide),
    ← hlist, String.ofList_toList]

end

section
variable {ms : List Listed}

theorem methods_absent {s : List Char} (h : '=' ∉ s) : ¬ "methods=".toList <:+: s :=
  fun hin => h (hin.subset (by decide))

/-- The list of methods begins where their word does: the dotted name has no equals sign, and the
quotes keep the path apart from what stands around it. -/
theorem cut?_methods (hd : d.Supported) (hverb : d.verb ∈ "route" :: verbs)
    (htail : d.tail = ", methods=[" ++ listing ms ++ "]")
    (hpath : Text.contains "methods" d.path = false) :
    Text.cut? "methods=" d.text =
      some (d.name ++ "(" ++ quoted d.quote d.path ++ ", ", "[" ++ listing ms ++ "])") := by
  have hquote : d.quote ∉ "methods=".toList := by
    rcases ServedPath.eq_of_isQuote hd.quote with hq | hq <;> rw [hq] <;> decide
  have hname : '=' ∉ (d.name ++ "(").toList := by
    simpa using not_mem_name hd hverb (c := '=') (by decide) (by decide) (by decide)
  have hinside : ¬ "methods=".toList <:+: d.path.toList := by
    intro hin
    have hword : "methods".toList <:+: d.path.toList := List.IsInfix.trans ⟨[], ['='], rfl⟩ hin
    rw [← Text.contains_iff, hpath] at hword
    cases hword
  have hlead : (d.name ++ "(" ++ quoted d.quote d.path ++ ", ").toList ++
      "methods=".toList.dropLast =
        (d.name ++ "(").toList ++ d.quote :: (d.path.toList ++ d.quote :: ", methods".toList) := by
    simp [quoted]
  refine Text.cut?_of_toList (by simp [Written.text, Written.arguments, htail, quoted]) ?_
  rw [hlead, Chars.infix_append_cons_iff hquote, Chars.infix_append_cons_iff hquote]
  exact not_or.2 ⟨methods_absent hname, not_or.2 ⟨hinside, methods_absent (by decide)⟩⟩

theorem methods_text (hd : d.Supported) (hverb : d.verb ∈ "route" :: verbs) (hne : ms ≠ [])
    (hms : ∀ m ∈ ms, m.Proper) (htail : d.tail = ", methods=[" ++ listing ms ++ "]")
    (hpath : Text.contains "methods" d.path = false) :
    methods d.text = .ok (ms.map Listed.name) := by
  have hrest : Text.cut? "methods=" ("[" ++ listing ms ++ "])") = none := by
    have hlist : '=' ∉ (listing ms).toList :=
      not_mem_listing hms (by decide) (by decide) (by decide) (by decide)
    rw [Text.cut?, Option.map_eq_none_iff, Chars.cut?_eq_none_iff]
    exact methods_absent (by simpa using hlist)
  unfold methods
  rw [cut?_methods hd hverb htail hpath]
  simp only [hrest, Option.map_none, Option.getD_none, inside_listing hms, trim_brackets hms,
    names_listing hms hne]
  rfl

end

/-! ## Entry points of a decorator -/

theorem contains_path {p : String} (h : Text.contains p d.text = false) :
    Text.contains p d.path = false := by
  rw [← Bool.not_eq_true, Text.contains_iff] at h ⊢
  have hpath : d.path.toList <:+: d.text.toList :=
    ⟨(d.name ++ "(").toList ++ [d.quote], d.quote :: (d.tail ++ ")").toList, by
      simp [Written.text, Written.arguments, quoted]⟩
  exact fun hin => h (hin.trans hpath)

theorem contains_methods {ms : List Listed} (h : d.tail = ", methods=[" ++ listing ms ++ "]") :
    Text.contains "methods" d.text = true :=
  Text.contains_iff.2 ⟨(d.name ++ "(" ++ quoted d.quote d.path ++ ", ").toList,
    ("=[" ++ listing ms ++ "])").toList, by
      simp [Written.text, Written.arguments, h]⟩

/-- A decorator gives one entry point for each verb that it is written to answer. -/
theorem endpoints_text (hd : d.Supported) (h : d.Answers vs) :
    endpoints d.text = .ok (vs.map (· ++ " " ++ served d.path)) := by
  have hmember := h.verb_mem
  have htext := endpointText_text hd hmember
  have hupper : Text.upper "route" = "ROUTE" := by decide
  unfold endpoints
  cases h with
  | own verb plain =>
    rcases plain with hroute | ⟨hmethods, hword⟩
    · rw [hroute, htext]
      rfl
    · simp only [hmethods, htext, swap_verb verb (contains_path hword)]
      split <;> rfl
  | listed ms some proper verb tail unlisted unrouted =>
    rw [contains_route verb, contains_methods tail,
      methods_text hd hmember some proper tail unlisted, htext, verb, hupper]
    simp only [swap_route _ unrouted, if_true, Run.ok_bind, List.map_map]
    rfl
  | unlisted verb none unrouted =>
    rw [contains_route verb, none, htext, verb, hupper]
    simp only [swap_route _ unrouted]
    rfl

end

/-! ## A tree with one decorated definition -/

section
variable {src directory file f : String} {p : ProjectKey} {root n d : Node}

/-- A tree over ASCII characters with one decorated definition, that of a function with one
decorator. The decorator names no response type. -/
structure Alone (src : String) (root n d : Node) (f : String) : Prop where
  ascii : ∀ c ∈ src.toList, c.toNat < 128
  definition : root.preorder.filter (·.kind == "decorated_definition") = [n]
  decorator : n.children.filter (·.kind == "decorator") = [d]
  function : Definitions.functionName? src n = some f
  silent : ∀ a ∈ namedArguments d, ∃ c, a.child 0 = .ok c ∧ c.text src ≠ .ok "response_model"

theorem Alone.bytes (h : Alone src root n d f) : ∀ c ∈ src.toList, c.utf8Size = 1 :=
  fun c hc =>
    Char.utf8Size_eq_one_iff.2 (UInt32.le_iff_toNat_le.2 (Nat.le_of_lt_succ (h.ascii c hc)))

/-- The detection looks at the one decorator. -/
theorem inTree_of_alone (h : Alone src root n d f) :
    inTree src directory file p root = ofDecorator src directory file p n d := by
  have hkind : n.kind = "decorated_definition" := by
    have hmem : n ∈ root.preorder.filter (·.kind == "decorated_definition") := by
      rw [h.definition]
      exact List.mem_singleton_self n
    exact beq_iff_eq.1 (List.mem_filter.1 hmem).2
  have hother : ∀ m ∈ root.preorder, (m.kind == "decorated_definition") = false →
      ofDefinition src directory file p m = pure [] := by
    intro m _ hm
    rw [ofDefinition, hm]
    rfl
  rw [inTree, Run.gather_filter hother, h.definition, Run.gather_singleton, ofDefinition,
    if_pos (beq_iff_eq.2 hkind), h.decorator, Run.gather_singleton]

theorem noteResponses_of_alone (h : Alone src root n d f) (id : String) :
    noteResponses src id p d = pure () := by
  have hsilent : ∀ a ∈ namedArguments d, responseType? src a = .ok none := by
    intro a ha
    obtain ⟨c, hc, hne⟩ := h.silent a ha
    rw [Node.text_of_ascii h.bytes c] at hne
    have hname : c.cutOut src ≠ "response_model" := fun he => hne (congrArg Except.ok he)
    rw [responseType?, hc, Run.ok_bind, Node.text_of_ascii h.bytes c, Run.ok_bind,
      if_neg (by simpa using hname)]
    rfl
  unfold noteResponses
  generalize namedArguments d = arguments at hsilent
  induction arguments with
  | nil => rfl
  | cons a as ih =>
    rw [List.forall_mem_cons] at hsilent
    rw [List.forM_eq_forM, List.forM_cons, hsilent.1, Run.lift_ok_bind, pure_bind]
    exact ih hsilent.2

/-- **Decorators are read exactly**: in a tree over ASCII characters with one decorated definition
the detection finds the entry points that the decorator is written for, in their order, and does
nothing else. -/
theorem decorator_read_exactly {w : Written} {vs : List String} (h : Alone src root n d f)
    (htext : d.text src = .ok w.text) (hw : w.Supported) (hvs : w.Answers vs) :
    inTree src directory file p root =
      pure (vs.map fun v => (v ++ " " ++ served w.path, identifier directory file f)) := by
  have hcut : d.cutOut src = w.text := by
    rw [Node.text_of_ascii h.bytes] at htext
    exact Except.ok.inj htext
  have hfunction : functionId src directory file n = .ok (identifier directory file f) := by
    rw [functionId_eq fun m _ => ⟨_, Node.text_of_ascii h.bytes m⟩, h.function]
  rw [inTree_of_alone h, ofDecorator, ofText]
  simp only [hcut, isMarked_text hw hvs.verb_mem, if_true, hfunction, endpoints_text hw hvs,
    noteResponses_of_alone h, Run.lift_ok_bind, pure_bind, List.map_map]
  rfl

def listedSource : String := "@app.api.route('/x', methods=['GET', \"post\"])\ndef f(): pass\n"

def listedArgument : Node :=
  .mk "keyword_argument" 21 44 [.mk "identifier" 21 28 [], .mk "=" 28 29 [], .mk "list" 29 44 []]

def listedDecorator : Node :=
  .mk "decorator" 0 45 [.mk "call" 1 45 [.mk "argument_list" 14 45 [listedArgument]]]

def listedDefinition : Node :=
  .mk "decorated_definition" 0 59 [
    listedDecorator, .mk "function_definition" 46 59 [.mk "identifier" 50 51 []]]

def listedTree : Node := .mk "module" 0 60 [listedDefinition]

def listedRoute : Written where
  router := ["app", "api"]
  verb := "route"
  quote := '\''
  path := "/x"
  tail := ", methods=['GET', \"post\"]"

def listedMethods : List Listed := [⟨"", '\'', "GET", ""⟩, ⟨" ", '"', "post", ""⟩]

theorem listed_methods_read :
    Alone listedSource listedTree listedDefinition listedDecorator "f" ∧
    listedDecorator.text listedSource = .ok listedRoute.text ∧
    listedRoute.Supported ∧ listedRoute.Answers ["GET", "POST"] ∧
    inTree listedSource "/p" "/p/m.py" (.number 1) listedTree =
      pure [("GET /x", "/m.py:f"), ("POST /x", "/m.py:f")] := by
  have halone : Alone listedSource listedTree listedDefinition listedDecorator "f" := by
    have hascii : listedSource.toList.all (·.toNat < 128) = true := by decide
    refine ⟨by simpa using hascii, rfl, rfl, by decide, fun a ha => ?_⟩
    obtain rfl : a = listedArgument := List.mem_singleton.1 ha
    have hname : (Node.mk "identifier" 21 28 []).text listedSource = .ok "methods" :=
      Run.eq_ok_of_toOption (by decide)
    exact ⟨_, rfl, by simp [hname]⟩
  have htext : listedDecorator.text listedSource = .ok listedRoute.text :=
    Run.eq_ok_of_toOption (by decide)
  have hrouter : ∀ s ∈ listedRoute.router, s.toList.all Text.isWord = true := by decide
  have hsupported : listedRoute.Supported :=
    ⟨fun s hs => List.all_eq_true.1 (hrouter s hs), by decide, by decide,
      .inr ⟨" methods=['GET', \"post\"]", by decide⟩, by decide⟩
  have hproper : ∀ m ∈ listedMethods, m.Proper := by
    have hparts : ∀ m ∈ listedMethods, m.before.toList.all Text.isBlank = true ∧
        isQuote m.quote = true ∧ m.name.toList.all Char.isAlpha = true ∧
        m.after.toList.all Text.isBlank = true := by decide
    intro m hm
    obtain ⟨hbefore, hquote, hname, hafter⟩ := hparts m hm
    exact ⟨List.all_eq_true.1 hbefore, hquote, List.all_eq_true.1 hname, List.all_eq_true.1 hafter⟩
  have hanswers : listedRoute.Answers ["GET", "POST"] :=
    .listed listedMethods (by decide) hproper rfl (by decide) (by decide) (by decide)
  have hid : identifier "/p" "/p/m.py" "f" = "/m.py:f" := Analysis.identifier_oneSource "f"
  refine ⟨halone, htext, hsupported, hanswers, ?_⟩
  rw [decorator_read_exactly halone htext hsupported hanswers, hid]
  rfl

end
end Decorator
end CodeAtlas
