import CodeAtlas.Syntax.Node
import Mathlib.Algebra.GroupWithZero.Nat

/-!
# Spans

The span of a node counts bytes, and a cut by characters takes these counts for positions. Every byte
beyond the first of a character before the node moves the cut one character on, and every such byte
inside the node makes the cut longer.

* `Text.surplus`: the bytes of a text beyond one for each character;
* `Node.Covers`: a node over a stretch of a source;
* `Node.Covers.cutOut_eq_iff`: the cut is the text of the node exactly if this text stands again as
  many characters on as there are surplus bytes before it, and nothing follows it there if it has
  surplus bytes itself;
* `Node.text_of_ascii`: in a source of ASCII characters both ways to read agree for every node.
-/
namespace CodeAtlas

namespace Text

/-- The bytes of a text beyond one for each character. -/
def surplus (s : String) : Nat := (s.toList.map fun c => c.utf8Size - 1).sum

theorem utf8ByteSize_eq (s : String) : s.utf8ByteSize = s.length + surplus s := by
  have hbytes : s.utf8ByteSize = (s.toList.map Char.utf8Size).sum := by
    rw [← String.size_toByteArray, ← String.utf8Encode_toList]
    simp [List.utf8Encode, List.length_flatMap]
  rw [hbytes, surplus, ← String.length_toList]
  induction s.toList with
  | nil => rfl
  | cons c cs ih =>
    have hpos := c.utf8Size_pos
    simp only [List.map_cons, List.sum_cons, List.length_cons, ih]
    omega

theorem surplus_of_ascii {s : String} (h : ∀ c ∈ s.toList, c.utf8Size = 1) : surplus s = 0 := by
  have hzero : (s.toList.map fun c => c.utf8Size - 1) = s.toList.map fun _ => 0 :=
    List.map_congr_left fun c hc => by rw [h c hc]
  rw [surplus, hzero, List.map_const', List.sum_replicate_nat, Nat.mul_zero]

end Text

theorem Utf8.decode_toByteArray (s : String) : Utf8.decode s.toByteArray = .ok s := by
  have hvalid : String.fromUTF8? s.toByteArray = some s := by
    unfold String.fromUTF8?
    rw [dif_pos s.isValidUTF8]
    rfl
  unfold Utf8.decode
  rw [hvalid]

/-! ## Spans -/

namespace Node
variable {src before inside after : String} {n : Node}

/-- A node over a stretch of a source: what stands before it, its own text and what stands after it.
Its span counts their bytes. -/
structure Covers (src : String) (n : Node) (before inside after : String) : Prop where
  source : src = before ++ inside ++ after
  start : n.start = before.utf8ByteSize
  stop : n.stop = before.utf8ByteSize + inside.utf8ByteSize

/-- A text stands again as many characters on as there are surplus bytes before it, and nothing
follows it there if it has surplus bytes itself. -/
def Recurs (before inside after : String) : Prop :=
  ∃ rest, (inside ++ after).toList.drop (Text.surplus before) = inside.toList ++ rest ∧
    (Text.surplus inside = 0 ∨ rest = [])

theorem text_congr {m : Node} (h : bytesIn src n.start n.stop = bytesIn src m.start m.stop) :
    n.text src = m.text src := by
  rw [Node.text, Node.text, h]

theorem recurs_of_ascii (hbefore : Text.surplus before = 0) (hinside : Text.surplus inside = 0)
    (after : String) : Recurs before inside after :=
  ⟨after.toList, by rw [hbefore, List.drop_zero, String.toList_append], .inl hinside⟩

namespace Covers

theorem text (h : n.Covers src before inside after) : n.text src = .ok inside := by
  have hsize : src.utf8ByteSize =
      before.utf8ByteSize + inside.utf8ByteSize + after.utf8ByteSize := by
    rw [h.source, String.utf8ByteSize_append, String.utf8ByteSize_append]
  have hskip := ByteArray.extract_append_size_add' (a := before.toByteArray)
    (b := inside.toByteArray ++ after.toByteArray) (i := 0) (j := inside.utf8ByteSize)
    String.size_toByteArray.symm
  have hbytes : bytesIn src n.start n.stop = inside.toByteArray := by
    unfold bytesIn
    rw [h.start, h.stop, Nat.min_eq_left (by omega), Nat.min_eq_left (by omega), h.source,
      String.toByteArray_append, String.toByteArray_append, ByteArray.append_assoc]
    exact hskip.trans (ByteArray.extract_append_eq_left String.size_toByteArray.symm)
  unfold Node.text
  rw [hbytes, Utf8.decode_toByteArray]

theorem cutOut (h : n.Covers src before inside after) : n.cutOut src = String.ofList
    (((inside ++ after).toList.drop (Text.surplus before)).take inside.utf8ByteSize) := by
  unfold Node.cutOut Text.slice Chars.slice
  rw [List.drop_take, h.start, h.stop, h.source, Nat.add_sub_cancel_left,
    Text.utf8ByteSize_eq before, String.append_assoc, String.toList_append,
    ← String.length_toList, List.drop_length_add_append]

theorem cutOut_eq_iff (h : n.Covers src before inside after) :
    n.cutOut src = inside ↔ Recurs before inside after := by
  rw [h.cutOut, ← String.toList_inj, String.toList_ofList, Text.utf8ByteSize_eq,
    ← String.length_toList]
  generalize hread : (inside ++ after).toList.drop (Text.surplus before) = read
  unfold Recurs
  rw [hread]
  constructor
  · intro htake
    obtain ⟨rest, hrest⟩ : inside.toList <+: read := htake ▸ List.take_prefix _ _
    subst hrest
    rw [List.take_length_add_append, List.append_right_eq_self, List.take_eq_nil_iff] at htake
    exact ⟨rest, rfl, htake⟩
  · rintro ⟨rest, rfl, hnone⟩
    rw [List.take_length_add_append, List.append_right_eq_self, List.take_eq_nil_iff]
    exact hnone

end Covers

/-! ### Sources of ASCII characters -/

section
variable (h : ∀ c ∈ src.toList, c.utf8Size = 1)
include h

theorem utf8ByteSize_of_ascii {l : List Char} (hl : l ⊆ src.toList) :
    (String.ofList l).utf8ByteSize = l.length := by
  have hascii : ∀ c ∈ (String.ofList l).toList, c.utf8Size = 1 :=
    fun c hc => h c (hl (by simpa using hc))
  rw [Text.utf8ByteSize_eq, Text.surplus_of_ascii hascii, String.length_ofList, Nat.add_zero]

theorem covers_of_ascii {start stop : Nat} (hle : start ≤ stop)
    (hstop : stop ≤ src.toList.length) (kind : String) :
    (Node.mk kind start stop []).Covers src (String.ofList (src.toList.take start))
      (String.ofList ((src.toList.take stop).drop start))
      (String.ofList (src.toList.drop stop)) := by
  have hbefore := utf8ByteSize_of_ascii h (List.take_subset start src.toList)
  have hinside := utf8ByteSize_of_ascii h
    (List.Subset.trans (List.drop_subset start _) (List.take_subset stop src.toList))
  refine ⟨?_, ?_, ?_⟩
  · have hfront : src.toList.take start = (src.toList.take stop).take start := by
      rw [List.take_take, Nat.min_eq_left hle]
    rw [← String.toList_inj]
    simp only [String.toList_append, String.toList_ofList]
    rw [hfront, List.take_append_drop, List.take_append_drop]
  · rw [hbefore, List.length_take]
    change start = _
    omega
  · rw [hbefore, hinside, List.length_drop, List.length_take, List.length_take]
    change stop = _
    omega

/-- In a source of ASCII characters positions are bytes, for spans of any kind. -/
theorem text_of_ascii (n : Node) : n.text src = .ok (n.cutOut src) := by
  have hsize : src.utf8ByteSize = src.toList.length := by
    rw [Text.utf8ByteSize_eq, Text.surplus_of_ascii h, String.length_toList, Nat.add_zero]
  -- what is beyond the end of the source does not count, nor does a start after the end of the span
  obtain ⟨stop, hstop⟩ : ∃ j, j = min n.stop src.toList.length := ⟨_, rfl⟩
  obtain ⟨start, hstart⟩ : ∃ i, i = min n.start stop := ⟨_, rfl⟩
  have hbytes : bytesIn src n.start n.stop = bytesIn src start stop := by
    unfold bytesIn
    rw [hsize, ← hstop, Nat.min_eq_left (by omega : stop ≤ src.toList.length)]
    refine ByteArray.extract_eq_extract_left.2 ?_
    rw [String.size_toByteArray, hsize]
    omega
  have hchars : (src.toList.take n.stop).drop n.start = (src.toList.take stop).drop start := by
    have htake : src.toList.take n.stop = src.toList.take stop :=
      List.take_eq_take_iff.2 (by omega)
    rw [htake]
    by_cases hle : n.start ≤ stop
    · rw [hstart, Nat.min_eq_left hle]
    · rw [List.drop_eq_nil_of_le (by rw [List.length_take]; omega),
        List.drop_eq_nil_of_le (by rw [List.length_take]; omega)]
  have hcut : n.cutOut src = String.ofList ((src.toList.take stop).drop start) := by
    rw [Node.cutOut, Text.slice, Chars.slice, hchars]
  have hnode : n.text src = (Node.mk n.kind start stop []).text src := text_congr hbytes
  rw [hcut, hnode, (covers_of_ascii h (by omega) (by omega) n.kind).text]

end

end Node

end CodeAtlas
