import CodeAtlas.Code.Reader
import CodeAtlas.Proofs.Text

/-!
# Rows of a source

The row of a node is counted in line ends before it, so it is the number, from zero, of a line of
the source. `Code.rows` cuts lines out by numbers from one.

* `Node.rowAt_lt`: the row of a position is the number of a line;
* `rows_joined_iff`: for rows counted from zero the cut is one line too early, so that it is right
  only if every line repeats the one before it.
-/
namespace CodeAtlas

/-! ## Line ends in bytes -/

theorem toList_byteArray (b : ByteArray) : b.toList = b.data.toList := by
  suffices hloop : ∀ i r, ByteArray.toList.loop b i r = r.reverse ++ b.data.toList.drop i from
    hloop 0 []
  intro i r
  fun_induction ByteArray.toList.loop b i r with
  | case1 i r hi ih =>
    have hlt : i < b.data.toList.length := hi
    have hget : b.get! i = b.data.toList[i] := by
      change b.data[i]! = _
      simp [getElem!_pos b.data i hi]
    rw [ih, hget, List.drop_eq_getElem_cons hlt]
    simp
  | case2 i r hi =>
    rw [List.drop_eq_nil_of_le (Nat.le_of_not_lt hi), List.append_nil]

/-- A character takes the byte of a line end if and only if it is one. -/
theorem count_utf8EncodeChar (c : Char) :
    (String.utf8EncodeChar c).count 10 = if c = '\n' then 1 else 0 := by
  have hc : c = '\n' ↔ c.val.toNat = 10 := by
    rw [Char.ext_iff, ← UInt32.toNat_inj]
    rfl
  have hbyte (n : Nat) (hn : n < 256) : UInt8.ofNat n = 10 ↔ n = 10 := by
    rw [← UInt8.toNat_inj, UInt8.toNat_ofNat', Nat.mod_eq_of_lt hn]
    rfl
  -- every byte of a character beyond the first 128 is one of the upper half
  have hhigh (n : Nat) (hn : n < 128) (k : Nat) (hk : 128 ≤ k ∧ n + k < 256) :
      ¬ 10 = UInt8.ofNat (n + k) := by
    rw [eq_comm, hbyte _ hk.2]
    omega
  unfold String.utf8EncodeChar
  simp only [hc]
  generalize c.val.toNat = v
  split
  · simp only [List.count_singleton, beq_iff_eq, hbyte v (by omega)]
  · have hv : ¬ v = 10 := by omega
    rw [if_neg hv]
    split
    · simp only [List.count_eq_zero, List.mem_cons, List.not_mem_nil, or_false, not_or]
      exact ⟨hhigh _ (by omega) _ (by omega), hhigh _ (by omega) _ (by omega)⟩
    · split
      · simp only [List.count_eq_zero, List.mem_cons, List.not_mem_nil, or_false, not_or]
        exact ⟨hhigh _ (by omega) _ (by omega), hhigh _ (by omega) _ (by omega),
          hhigh _ (by omega) _ (by omega)⟩
      · simp only [List.count_eq_zero, List.mem_cons, List.not_mem_nil, or_false, not_or]
        exact ⟨hhigh _ (by omega) _ (by omega), hhigh _ (by omega) _ (by omega),
          hhigh _ (by omega) _ (by omega), hhigh _ (by omega) _ (by omega)⟩

theorem count_toByteArray (src : String) :
    src.toByteArray.data.toList.count 10 = src.toList.count '\n' := by
  have hflat (l : List Char) : (l.flatMap String.utf8EncodeChar).count 10 = l.count '\n' := by
    induction l with
    | nil => rfl
    | cons c l ih =>
      rw [List.flatMap_cons, List.count_append, ih, count_utf8EncodeChar, List.count_cons]
      simp only [beq_iff_eq]
      omega
  rw [← hflat, ← String.utf8Encode_toList]
  simp [List.utf8Encode]

theorem Node.rowAt_lt (src : String) (offset : Nat) :
    Node.rowAt src offset < (Text.fields '\n' src).length := by
  rw [Text.length_fields, ← count_toByteArray, Node.rowAt, toList_byteArray, Node.bytesIn,
    ByteArray.data_extract]
  refine Nat.lt_succ_of_le (List.Sublist.count_le 10 ?_)
  rw [Array.toList_extract]
  exact (List.take_sublist _ _).trans (List.drop_sublist _ _)

/-! ## Cutting -/

namespace Code

/-- The lines from row `a` to row `b`, counted from zero. -/
def span (lines : List String) (a b : Nat) : List String := (lines.drop a).take (b + 1 - a)

variable {lines : List String} {a b : Nat}

theorem place_natCast (n i : Nat) : place n (i : Int) = min i n := by
  unfold place
  split <;> omega

theorem place_pred (n : Nat) (ha : 1 ≤ a) : place n ((a : Int) - 1) = min (a - 1) n := by
  rw [← place_natCast, Int.natCast_sub ha]
  rfl

/-- Rows counted from zero are cut one line too early. -/
theorem rows_of_pos (ha : 1 ≤ a) (hb : b < lines.length) :
    rows lines a b = (lines.drop (a - 1)).take (b + 1 - a) := by
  simp only [rows, place_natCast, place_pred _ ha]
  by_cases hab : a ≤ b
  · rw [Nat.min_eq_left (by omega), Nat.min_eq_left (by omega),
      show b - (a - 1) = b + 1 - a by omega]
  · rw [show min b lines.length - min (a - 1) lines.length = 0 by omega,
      show b + 1 - a = 0 by omega, List.take_zero, List.take_zero]

/-- The first row is cut from the end of the text, which leaves nothing. -/
theorem rows_zero (hb : b < lines.length) : rows lines (0 : Nat) b = [] := by
  have hstart : place lines.length (((0 : Nat) : Int) - 1) = lines.length - 1 := by
    unfold place
    split <;> omega
  simp only [rows, place_natCast, hstart]
  rw [show min b lines.length - (lines.length - 1) = 0 by omega, List.take_zero]

theorem getElem?_take_drop (k n j : Nat) :
    ((lines.drop k).take n)[j]? = if j < n then lines[k + j]? else none := by
  rw [List.getElem?_take, List.getElem?_drop]

theorem joined_eq_iff {src : String} (hlines : lines = Text.fields '\n' src) {k m n : Nat}
    (hk : k + n ≤ lines.length) (hm : m + n ≤ lines.length) :
    "\n".intercalate ((lines.drop k).take n) = "\n".intercalate ((lines.drop m).take n) ↔
      ∀ j < n, lines[k + j]? = lines[m + j]? := by
  have hfree (i : Nat) : ∀ s ∈ (lines.drop i).take n, '\n' ∉ s.toList := fun s hs =>
    Text.not_mem_of_mem_fields (hlines ▸ List.mem_of_mem_drop (List.mem_of_mem_take hs))
  constructor
  · intro h j hj
    have he := Text.intercalate_injective (hfree k) (hfree m) (by simp; omega) h
    have hj' := congrArg (·[j]?) he
    simpa only [getElem?_take_drop, hj, if_true] using hj'
  · intro h
    congr 1
    refine List.ext_getElem? fun j => ?_
    rw [getElem?_take_drop, getElem?_take_drop]
    split
    · exact h j ‹_›
    · rfl

theorem joined_eq_empty_iff (hb : b < lines.length) :
    "" = "\n".intercalate (span lines 0 b) ↔ b = 0 ∧ lines[0]? = some "" := by
  obtain ⟨l, ls, rfl⟩ := List.exists_cons_of_length_pos (by omega : 0 < lines.length)
  cases b with
  | zero => simp [span, eq_comm]
  | succ b =>
    obtain ⟨m, ms, rfl⟩ := List.exists_cons_of_length_pos
      (by simp at hb; omega : 0 < ls.length)
    simp only [span, Nat.sub_zero, List.drop_zero, List.take_succ_cons,
      String.intercalate_cons_cons]
    constructor
    · intro h
      have hlen := congrArg String.length h
      simp only [String.length_append, show "\n".length = 1 by decide, String.length_empty] at hlen
      omega
    · intro h
      omega

/-- **Cutting by rows**: the text that is cut out for rows counted from zero is that of these rows
if and only if each of them repeats the row before it, or the only row is the first one and is
empty. -/
theorem rows_joined_iff {src : String} (hlines : lines = Text.fields '\n' src)
    (hb : b < lines.length) :
    "\n".intercalate (rows lines a b) = "\n".intercalate (span lines a b) ↔
      (1 ≤ a ∧ ∀ i, a ≤ i → i ≤ b → lines[i]? = lines[i - 1]?) ∨
        (a = 0 ∧ b = 0 ∧ lines[0]? = some "") := by
  rcases Nat.eq_zero_or_pos a with rfl | ha
  · rw [rows_zero hb, String.intercalate_nil, joined_eq_empty_iff hb]
    simp
  · rw [rows_of_pos ha hb]
    by_cases hab : a ≤ b
    · rw [span, joined_eq_iff hlines (by omega) (by omega)]
      constructor
      · refine fun h => Or.inl ⟨ha, fun i hi hib => ?_⟩
        have := h (i - a) (by omega)
        rw [show a - 1 + (i - a) = i - 1 by omega, show a + (i - a) = i by omega] at this
        exact this.symm
      · rintro (⟨-, h⟩ | ⟨rfl, -⟩) j hj
        · rw [h (a + j) (by omega) (by omega), show a + j - 1 = a - 1 + j by omega]
        · omega
    · -- no row at all: nothing is cut out, and nothing is asked for
      rw [span, show b + 1 - a = 0 by omega, List.take_zero, List.take_zero]
      exact iff_of_true rfl (Or.inl ⟨ha, fun i hi hib => by omega⟩)

end Code
end CodeAtlas
