import CodeAtlas.Crew.Work
import CodeAtlas.Proofs.FencedCode
import CodeAtlas.Proofs.SavedPlans

/-!
# Tests that the crew has written

The crew is asked for code without fences, and may answer with fenced code all the same. Wanted is
the code of the first block, or the whole answer where there is none. What is taken is the first of
a list: of the codes if a block is opened anywhere, and of the characters if not.

* `CodeBlock.head?_blocks`: the first code goes from the first opening to the first fence behind it;
* `CodeBlock.first_of_firstCode`, `CodeBlock.first_of_unclosed`, `CodeBlock.first_of_plain`: what is
  taken from an answer with a block, with an opening only, and with neither;
* `Crew.tests_returned_iff`: which answers give the tests that are wanted, and which fail.
-/
namespace CodeAtlas

namespace CodeBlock
open Chars
variable {s code : List Char}

/-- A fence stands somewhere behind an opening. -/
def HasBlock (s : List Char) : Prop :=
  ∃ before code after, s = before ++ opening ++ (code ++ fence ++ after)

/-- The code of the first block: from the first opening to the first fence behind it. -/
def FirstCode (s code : List Char) : Prop :=
  ∃ before rest after, Leftmost opening s before rest ∧ Leftmost fence rest code after

theorem FirstCode.hasBlock (h : FirstCode s code) : HasBlock s := by
  obtain ⟨before, rest, after, hopen, hclose⟩ := h
  exact ⟨before, code, after, hclose.1 ▸ hopen.1⟩

theorem HasBlock.exists_firstCode (h : HasBlock s) : ∃ code, FirstCode s code := by
  obtain ⟨before, code, after, hs⟩ := h
  have hin : opening <:+: s := ⟨before, code ++ fence ++ after, hs.symm⟩
  obtain ⟨⟨lead, rest⟩, hcut⟩ := Option.isSome_iff_exists.1 (contains_iff.2 hin)
  obtain ⟨hlead, hleast⟩ := leftmost_of_cut? hcut
  -- a block that begins later ends behind the first opening too
  have hsuffix : code ++ fence ++ after <:+ rest := by
    have hblock : code ++ fence ++ after <:+ s := ⟨before ++ opening, hs.symm⟩
    have hrest : rest <:+ s := ⟨lead ++ opening, hlead.symm⟩
    refine List.suffix_of_suffix_length_le hblock hrest ?_
    have hshort := hleast _ _ hs
    have hlength := congrArg List.length (hs.symm.trans hlead)
    simp only [List.length_append] at hlength ⊢
    omega
  have hfence : fence <:+: rest := List.IsInfix.trans ⟨code, after, rfl⟩ hsuffix.isInfix
  obtain ⟨⟨first, tail⟩, hclose⟩ := Option.isSome_iff_exists.1 (contains_iff.2 hfence)
  exact ⟨first, lead, rest, tail, leftmost_of_cut? hcut, leftmost_of_cut? hclose⟩

theorem head?_blocks : (blocks s).head? = some code ↔ FirstCode s code := by
  rw [blocks_eq]
  constructor
  · intro h
    split at h
    · cases h
    · next hopen =>
      split at h
      · cases h
      · next hclose =>
        cases h
        exact ⟨_, _, _, leftmost_of_cut? hopen, leftmost_of_cut? hclose⟩
  · rintro ⟨before, rest, after, hopen, hclose⟩
    rw [cut?_eq_some_iff.2 hopen]
    simp only [cut?_eq_some_iff.2 hclose, List.head?_cons]

theorem blocks_eq_nil (h : ¬ HasBlock s) : blocks s = [] := by
  rw [← List.head?_eq_none_iff, Option.eq_none_iff_forall_ne_some]
  exact fun code hcode => h (head?_blocks.1 hcode).hasBlock

/-! ## What is taken for the code -/

variable {text : String}

theorem content_of_opening (h : opening <:+: text.toList) : content text = .codes (all text) :=
  if_pos (Text.contains_iff.2 h)

theorem first_of_firstCode {code : String} (h : FirstCode text.toList code.toList) :
    (content text).first = .ok code := by
  obtain ⟨before, rest, after, hopen, hclose⟩ := h
  obtain ⟨tail, htail⟩ := List.head?_eq_some_iff.1 (head?_blocks.2 ⟨_, _, _, hopen, hclose⟩)
  rw [content_of_opening ⟨before, rest, hopen.1.symm⟩, all, htail]
  simp [Content.first]

theorem first_of_unclosed (h : ¬ HasBlock text.toList) (hopen : opening <:+: text.toList) :
    (content text).first = .error (.outOfRange "list") := by
  rw [content_of_opening hopen, all, blocks_eq_nil h]
  rfl

/-- A text in which no block is opened is taken for a list of its characters. -/
theorem first_of_plain {c : Char} {cs : List Char} (h : ¬ opening <:+: text.toList)
    (htext : text.toList = c :: cs) : (content text).first = .ok (String.singleton c) := by
  rw [content, if_neg fun hin => h (Text.contains_iff.1 hin), Content.first, htext]

end CodeBlock

namespace Crew
open CodeBlock
variable {r : Request} {p : Project} {w v : World} {reply : String}

theorem ends_writeFor (h : (askFor r p).ends w = (.ok reply, v)) :
    (writeFor r p).ends w = ((content reply).first, v) := by
  unfold writeFor
  rw [Run.ends_bind_ok _ h, Run.ends_lift]

/-- What is wanted from an answer of the crew: the code of its first block, or all of it if there is
no block in it. -/
def Wanted (reply tests : String) : Prop :=
  FirstCode reply.toList tests.toList ∨ ¬ HasBlock reply.toList ∧ tests = reply

/-- **Tests from the answer of the crew**: once the crew has answered and the usage is noted, the tests
that are wanted are returned exactly if there is a block in the answer, or the answer is a single
character. It is a failure exactly if the answer is empty or has an opening that no fence follows.
From any other answer without a block only the first character is returned. -/
theorem tests_returned_iff (h : (askFor r p).ends w = (.ok reply, v)) :
    ((∃ tests, (writeFor r p).ends w = (.ok tests, v) ∧ Wanted reply tests) ↔
      HasBlock reply.toList ∨ reply.length = 1) ∧
    ((∃ e, (writeFor r p).ends w = (.error e, v)) ↔
      ¬ HasBlock reply.toList ∧ (reply = "" ∨ opening <:+: reply.toList)) ∧
    ∀ c cs, reply.toList = c :: cs → ¬ opening <:+: reply.toList →
      (writeFor r p).ends w = (.ok (String.singleton c), v) := by
  rw [ends_writeFor h, ← and_assoc]
  refine ⟨?_, fun c cs hcs hopen => by rw [first_of_plain hopen hcs]⟩
  by_cases hblock : HasBlock reply.toList
  · obtain ⟨code, hcode⟩ := hblock.exists_firstCode
    rw [← String.toList_ofList (l := code)] at hcode
    rw [first_of_firstCode hcode]
    exact ⟨iff_of_true ⟨_, rfl, .inl hcode⟩ (.inl hblock),
      iff_of_false (fun ⟨_, he⟩ => by cases he) fun hnot => hnot.1 hblock⟩
  · by_cases hopen : opening <:+: reply.toList
    · rw [first_of_unclosed hblock hopen]
      have hlength : reply.length ≠ 1 := by
        have hle := hopen.length_le
        rw [String.length_toList] at hle
        have hopening : opening.length = 9 := rfl
        omega
      exact ⟨iff_of_false (fun ⟨_, he, _⟩ => by cases he) fun hor => hor.elim hblock hlength,
        iff_of_true ⟨_, rfl⟩ ⟨hblock, .inr hopen⟩⟩
    · by_cases hempty : reply = ""
      · subst hempty
        exact ⟨iff_of_false (fun ⟨_, he, _⟩ => by cases he) fun hor => hor.elim hblock (by decide),
          iff_of_true ⟨_, rfl⟩ ⟨hblock, .inl rfl⟩⟩
      · obtain ⟨c, cs, hcs⟩ :=
          List.exists_cons_of_ne_nil fun hnil => hempty (String.toList_eq_nil_iff.1 hnil)
        rw [first_of_plain hopen hcs]
        have hwhole : String.singleton c = reply ↔ reply.length = 1 := by
          rw [← String.toList_inj, ← String.length_toList, hcs]
          simp [eq_comm]
        refine ⟨⟨?_, ?_⟩,
          iff_of_false (fun ⟨_, he⟩ => by cases he) fun hor => hor.2.elim hempty hopen⟩
        · rintro ⟨tests, he, hcode | ⟨-, rfl⟩⟩
          · exact .inl hcode.hasBlock
          · exact .inr (hwhole.1 (Except.ok.inj (Prod.mk.inj he).1))
        · exact fun hor => ⟨_, rfl, .inr ⟨hblock, hwhole.2 (hor.resolve_left hblock)⟩⟩

/-! ## An entry point with a saved plan -/

def demo (reply : String) : World :=
  { World.vacant with
    settings := [("OPENAI_MODEL_REASONING", "gpt-4")]
    store := { Store.empty with
      projects := [Project.sample 1 "u"]
      endpoints := [⟨some "GET /f", "/m.py:f", some ((Json.plan [] []).render .compact), none, .number 1⟩] }
    crewReply := reply }

def demoRequest : Request := ⟨.str "/m.py:f", .str "GET /f", .number 1, .str "u"⟩

theorem demo_asked (reply : String) :
    (askFor demoRequest (Project.sample 1 "u")).answer (demo reply) = .ok reply := by
  have hsaved : (Saved.planAndPreferences demoRequest.identifier
      (.number (Project.sample 1 "u").id)).ends (demo reply) = (.ok (.plan [] [], .null), demo reply) := by
    unfold Saved.planAndPreferences
    rw [demoRequest, Run.ends_bind_ok _ (Saved.ends_endpoint? "/m.py:f" rfl _)]
    change (liftM (Saved.value _) >>= _ : Run _).ends _ = _
    rw [Saved.value_of_ofText (Json.ofText_plan [] [])]
    rfl
  unfold askFor Run.answer
  rw [Run.ends_bind_ok _ hsaved]
  rfl

theorem fenced_tests_returned :
    ∃ tests, (writeFor demoRequest (Project.sample 1 "u")).answer (demo "```python\nx = 1\n```") =
      .ok tests ∧ Wanted "```python\nx = 1\n```" tests := by
  have hends := Run.ends_of_answer (demo_asked "```python\nx = 1\n```")
  obtain ⟨tests, htests, hwanted⟩ := (tests_returned_iff hends).1.2
    (.inl ⟨[], "\nx = 1\n".toList, [], by decide⟩)
  exact ⟨tests, congrArg Prod.fst htests, hwanted⟩

/-- Of plain code the first character is returned. -/
theorem plain_tests_cut :
    (writeFor demoRequest (Project.sample 1 "u")).answer (demo "import os") = .ok "i" := by
  rw [Run.answer, ends_writeFor (Run.ends_of_answer (demo_asked _))]
  exact @first_of_plain "import os" 'i' _ (by decide) rfl

end Crew
end CodeAtlas
