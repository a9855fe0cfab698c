import CodeAtlas.Plan.Extraction
import CodeAtlas.Proofs.Text

/-!
# Code between fences

Text in which prose and fenced code take turns. The opening of a block ends with a letter that it
does not have before its end, so it cannot begin in the prose before it; a closing fence could begin
in the code, which therefore must not end with a backquote. So each block is cut out where it was
put, whatever backquotes the prose around it begins or ends with.

* `Chars.within_of_append`, `Chars.within_or_within`: what can be found across a border;
* `CodeBlock.blocks_cons`: the first block is found, and the search goes on behind it;
* `CodeBlock.content_fenced`: all blocks are found, in order.
-/
namespace CodeAtlas

namespace Chars
variable {p a q : List Char} {c : Char}

theorem within_of_append (hlast : p.getLast? = some c) (hq : c ∉ q) (h : p <:+: a ++ q) :
    p <:+: a := by
  have hmem {m : List Char} (hm : m.getLast? = some c) : ¬ m <:+: q := fun hin =>
    hq (hin.subset (List.mem_of_getLast? hm))
  rcases List.infix_append_iff_ne_nil.1 h with hleft | hright | ⟨l, m, -, hm, rfl, -, hstart⟩
  · exact hleft
  · exact absurd hright (hmem hlast)
  · rw [List.getLast?_append_of_ne_nil l hm] at hlast
    exact absurd hstart.isInfix (hmem hlast)

/-- A text of one character only begins in `a` if `a` ends with that character. -/
theorem within_or_within (hp : ∀ d ∈ p, d = c) (ha : a.getLast? ≠ some c)
    (h : p <:+: a ++ q) : p <:+: a ∨ p <:+: q := by
  rcases List.infix_append_iff_ne_nil.1 h with hleft | hright | ⟨l, m, hl, -, rfl, hend, -⟩
  · exact .inl hleft
  · exact .inr hright
  · obtain ⟨front, rfl⟩ := hend
    have hback := hp _ (List.mem_append_left m (List.getLast_mem hl))
    rw [List.getLast?_append_of_ne_nil front hl, List.getLast?_eq_some_getLast hl, hback] at ha
    exact absurd rfl ha

end Chars

namespace CodeBlock

/-- Code that a fence can be put after. -/
structure Fit (code : List Char) : Prop where
  noFence : ¬ fence <:+: code
  noQuote : code.getLast? ≠ some '`'

theorem opening_first {prose : List Char} (h : ¬ opening <:+: prose) :
    ¬ opening <:+: prose ++ opening.dropLast := fun hin =>
  h (Chars.within_of_append (c := 'n') rfl (by decide) hin)

theorem Fit.fence_first {code : List Char} (h : Fit code) :
    ¬ fence <:+: code ++ fence.dropLast := fun hin =>
  (Chars.within_or_within (by simp [fence]) h.noQuote hin).elim h.noFence
    fun hshort => absurd hshort.length_le (by decide)

theorem blocks_eq (s : List Char) : blocks s =
    match Chars.cut? opening s with
    | none => []
    | some (_, rest) =>
      match Chars.cut? fence rest with
      | none => []
      | some (code, tail) => code :: blocks tail := by
  rw [blocks]
  split
  · next h => simp only [h]
  · next h =>
    split
    · next h' => simp only [h, h']
    · next h' => simp only [h, h']

/-- The first block of a text is found, and the search goes on behind it. -/
theorem blocks_cons {prose code : List Char} (hprose : ¬ opening <:+: prose) (hcode : Fit code)
    (rest : List Char) :
    blocks (prose ++ opening ++ (code ++ fence ++ rest)) = code :: blocks rest := by
  rw [blocks_eq, Chars.cut?_of_first (opening_first hprose)]
  simp only [Chars.cut?_of_first hcode.fence_first]

theorem blocks_of_absent {s : List Char} (h : ¬ opening <:+: s) : blocks s = [] := by
  rw [blocks_eq, Chars.cut?_eq_none_iff.2 h]

def fenced (lead : String) (parts : List (String × String)) : String :=
  lead ++ String.join (parts.map fun (code, prose) => "```python" ++ code ++ "```" ++ prose)

theorem toList_fenced_cons (lead code prose : String) (parts : List (String × String)) :
    (fenced lead ((code, prose) :: parts)).toList =
      lead.toList ++ opening ++ (code.toList ++ fence ++ (fenced prose parts).toList) := by
  have hparts : fenced lead ((code, prose) :: parts) =
      lead ++ ("```python" ++ code ++ "```" ++ prose ++ String.join (parts.map _)) :=
    congrArg (lead ++ ·) String.join_cons
  rw [hparts, fenced]
  simp only [String.toList_append, List.append_assoc]
  rfl

theorem blocks_fenced {lead : String} {parts : List (String × String)}
    (hlead : ¬ opening <:+: lead.toList)
    (hparts : ∀ x ∈ parts, Fit x.1.toList ∧ ¬ opening <:+: x.2.toList) :
    blocks (fenced lead parts).toList = parts.map fun x => x.1.toList := by
  induction parts generalizing lead with
  | nil => simpa [fenced] using blocks_of_absent hlead
  | cons x parts ih =>
    obtain ⟨⟨hcode, hprose⟩, hrest⟩ := List.forall_mem_cons.1 hparts
    rw [toList_fenced_cons, blocks_cons hlead hcode, ih hprose hrest, List.map_cons]

/-- **Fenced code is cut out exactly**: where prose without the opening of a block and fenced code
take turns, and no code has a fence in it or ends with a backquote, the codes are found as they were
put there, in order. -/
theorem content_fenced {lead : String} {parts : List (String × String)} (hparts : parts ≠ [])
    (hlead : ¬ "```python".toList <:+: lead.toList)
    (hprose : ∀ x ∈ parts, ¬ "```python".toList <:+: x.2.toList)
    (hcode : ∀ x ∈ parts, ¬ "```".toList <:+: x.1.toList ∧ x.1.toList.getLast? ≠ some '`') :
    content (fenced lead parts) = .codes (parts.map Prod.fst) := by
  have hblocks := blocks_fenced hlead fun x hx => ⟨⟨(hcode x hx).1, (hcode x hx).2⟩, hprose x hx⟩
  have hfound : Text.contains "```python" (fenced lead parts) = true := by
    obtain ⟨x, rest, rfl⟩ := List.exists_cons_of_ne_nil hparts
    rw [Text.contains_iff, toList_fenced_cons, List.append_assoc]
    exact ⟨_, _, List.append_assoc _ _ _⟩
  rw [content, if_pos hfound, all, hblocks]
  simp [Function.comp_def]

/-- Backquotes at the borders of the prose, code over several lines and an empty code. -/
theorem quoted_borders_content :
    content (fenced "Use `" [("\nx = '`'\ny = 2\n", "`python` and ``"), ("", "```")]) =
      .codes ["\nx = '`'\ny = 2\n", ""] :=
  content_fenced (by decide) (by decide) (by decide) (by decide)

end CodeBlock
end CodeAtlas
