import CodeAtlas.Json.Parser
import CodeAtlas.Json.Printer
import CodeAtlas.Proofs.Table
import Mathlib.Data.List.Forall2

/-!
# Reading what was written

The texts that show a value made of texts: blanks may stand around every sign, and a character in
quotes may be escaped or not (`Written`). The reader accepts all of them (`Written.reads`). What is
rendered is one of them, under every layout whose commas and colons are followed by blanks only
(`OfTexts.written`); so a value is the same after it was written and read (`ofText_render`).

* A character in quotes is read back as itself, however it was escaped (`Sign.stringTail`); hence a
  quoted text is (`Quotes.exists_tail`).
* Each reader is followed for one step. The text of a value opens with a sign that ends nothing
  (`Opens`), so it is not taken for the end of the list or the object that it stands in.
* Lists and objects are then read back by induction over their items, with twice the length of their
  text as fuel (`itemsFrom_row`, `membersFrom_row`).
-/
namespace CodeAtlas.Json

attribute [local simp] stringTail value itemsFrom membersFrom chars itemChars memberChars

/-! ## Texts in quotes -/

/-- The ways to write a character in quotes. -/
inductive Sign : Char → List Char → Prop
  | plain {c : Char} (hquote : c ≠ '"') (hescape : c ≠ '\\') (h : ¬ c.toNat < 0x20) : Sign c [c]
  | simple {c d : Char} (h : simpleEscape? d = some c) : Sign c ['\\', d]
  | unit {n : Nat} {ds : List Char} (h : unit? ds = some (n, []))
      (hn : n < 0xD800 ∨ 0xDFFF < n) : Sign (Char.ofNat n) ('\\' :: 'u' :: ds)
  | pair {n : Nat} {ds es : List Char} (hn : n < 0x100000)
      (hhigh : unit? ds = some (0xD800 + n / 1024, []))
      (hlow : unit? es = some (0xDC00 + n % 1024, [])) :
      Sign (Char.ofNat (0x10000 + n)) ('\\' :: 'u' :: (ds ++ '\\' :: 'u' :: es))

theorem unit?_append {ds : List Char} {n : Nat} (h : unit? ds = some (n, [])) (r : List Char) :
    unit? (ds ++ r) = some (n, r) := by
  match ds, h with
  | a :: b :: c :: d :: s, h =>
    simp only [unit?, Option.bind_eq_bind, Option.bind_eq_some_iff, Option.some.injEq,
      Prod.mk.injEq] at h
    obtain ⟨a', ha, b', hb, c', hc, d', hd, hn, rfl⟩ := h
    simp [unit?, ha, hb, hc, hd, hn]

theorem Sign.ne_nil {c : Char} {s : List Char} (h : Sign c s) : s ≠ [] := by
  cases h <;> simp

/-- A character that was written in quotes is read back. -/
theorem Sign.stringTail {c : Char} {s : List Char} (h : Sign c s) (acc : List Char) (fuel : Nat)
    (r : List Char) : stringTail acc (fuel + 1) (s ++ r) = stringTail (c :: acc) fuel r := by
  cases h with
  | plain hquote hescape h =>
    rw [List.singleton_append, Json.stringTail.eq_def]
    simp only [hquote, hescape, h, if_false]
  | @simple _ d h =>
    have hu : d ≠ 'u' := by
      rintro rfl
      cases h
    rw [List.cons_append, List.singleton_append, Json.stringTail]
    · simp [h]
    · exact hu
  | @unit n ds h hn =>
    have hhigh : ¬ (0xD800 ≤ n ∧ n ≤ 0xDBFF) := by omega
    have hlow : ¬ (0xDC00 ≤ n ∧ n ≤ 0xDFFF) := by omega
    simp [unit?_append h r, hhigh, hlow]
  | @pair n ds es hn hfirst hsecond =>
    have hlow : lowHalf? ('\\' :: 'u' :: (es ++ r)) = some (0xDC00 + n % 1024, r) := by
      have hrange : 0xDC00 ≤ 0xDC00 + n % 1024 ∧ 0xDC00 + n % 1024 ≤ 0xDFFF := by omega
      simp only [lowHalf?, unit?_append hsecond r, hrange, and_self, if_true]
    have hhigh : 0xD800 ≤ 0xD800 + n / 1024 ∧ 0xD800 + n / 1024 ≤ 0xDBFF := by omega
    have hvalue : 0x10000 + n / 1024 * 1024 + n % 1024 = 0x10000 + n := by omega
    simp [unit?_append hfirst, hlow, hhigh, hvalue]

/-- A text in quotes. -/
def Quotes (t : String) (s : List Char) : Prop :=
  ∃ signs, List.Forall₂ Sign t.toList signs ∧ s = '"' :: (signs.flatten ++ ['"'])

theorem stringTail_signs {cs : List Char} {signs : List (List Char)}
    (h : List.Forall₂ Sign cs signs) (r : List Char) : ∀ (acc : List Char) {fuel : Nat},
    cs.length < fuel → stringTail acc fuel (signs.flatten ++ '"' :: r) =
      some (String.ofList (acc.reverse ++ cs), r) := by
  induction h with
  | nil =>
    intro acc fuel hfuel
    obtain ⟨fuel, rfl⟩ := Nat.exists_eq_add_one.2 hfuel
    simp
  | @cons c s cs signs hc _ ih =>
    intro acc fuel hfuel
    obtain ⟨fuel, rfl⟩ := Nat.exists_eq_add_one.2 (Nat.zero_lt_of_lt hfuel)
    rw [List.flatten_cons, List.append_assoc, hc.stringTail, ih (c :: acc) (by simpa using hfuel)]
    simp

theorem length_le_signs {cs : List Char} {signs : List (List Char)}
    (h : List.Forall₂ Sign cs signs) : cs.length ≤ signs.flatten.length := by
  induction h with
  | nil => exact Nat.le_refl 0
  | cons hc _ ih =>
    have := List.length_pos_iff.2 hc.ne_nil
    rw [List.flatten_cons, List.length_append, List.length_cons]
    omega

/-- A text that was written in quotes is read back. -/
theorem Quotes.exists_tail {t : String} {s : List Char} (h : Quotes t s) :
    ∃ u, s = '"' :: u ∧ ∀ r, quoted (u ++ r) = .ok (t, r) := by
  obtain ⟨signs, hsigns, rfl⟩ := h
  refine ⟨_, rfl, fun r => ?_⟩
  have hlength := length_le_signs hsigns
  unfold quoted
  rw [List.append_assoc, List.singleton_append,
    stringTail_signs hsigns r [] (by rw [List.length_append]; omega)]
  simp

/-! ## Lists and objects -/

/-- Blanks, or nothing. -/
def Gap (s : List Char) : Prop := ∀ c ∈ s, isGap c = true

theorem gap_nil : Gap [] := fun _ h => by cases h

theorem skipGap_cons {c : Char} (hc : isGap c = false) (s : List Char) :
    skipGap (c :: s) = c :: s :=
  List.dropWhile_cons_of_neg (by simp [hc])

theorem Gap.skipGap_cons {gap : List Char} (hgap : Gap gap) {c : Char} (hc : isGap c = false)
    (s : List Char) : skipGap (gap ++ c :: s) = c :: s := by
  rw [skipGap, List.dropWhile_append_of_pos hgap]
  exact Json.skipGap_cons hc s

/-- Parts with commas between them, and blanks after all but the commas. -/
inductive Row {α : Type} (P : α → List Char → Prop) : List α → List Char → Prop
  | one {x : α} {s gap : List Char} (hx : P x s) (hgap : Gap gap) : Row P [x] (s ++ gap)
  | more {x : α} {xs : List α} {s gap gap' t : List Char} (hx : P x s) (hgap : Gap gap)
      (hgap' : Gap gap') (hxs : Row P xs t) : Row P (x :: xs) (s ++ (gap ++ ',' :: (gap' ++ t)))

/-- What stands in a list or in an object, if anything. -/
def Filled {α : Type} (P : α → List Char → Prop) (xs : List α) (s : List Char) : Prop :=
  xs = [] ∧ Gap s ∨ ∃ gap t, Gap gap ∧ Row P xs t ∧ s = gap ++ t

/-- A key and its value. -/
def Member (P : Json → List Char → Prop) (m : String × Json) (s : List Char) : Prop :=
  ∃ q gap gap' t, Quotes m.1 q ∧ Gap gap ∧ Gap gap' ∧ P m.2 t ∧ s = q ++ (gap ++ ':' :: (gap' ++ t))

/-- The texts that show a value which is made of texts, with lists and objects at most so deep
inside each other. The keys of an object are distinct. -/
def Written : Nat → Json → List Char → Prop
  | _, .str t, s => Quotes t s
  | d + 1, .arr items, s => ∃ t, Filled (Written d) items t ∧ s = '[' :: (t ++ [']'])
  | d + 1, .obj members, s => (members.map Prod.fst).Nodup ∧
      ∃ t, Filled (Member (Written d)) members t ∧ s = '\x7b' :: (t ++ ['\x7d'])
  | _, _, _ => False

/-- A text begins with a sign that is neither a blank nor the end of a list or of an object. -/
def Opens (s : List Char) : Prop := ∃ c t, s = c :: t ∧ isGap c = false ∧ c ≠ ']' ∧ c ≠ '\x7d'

theorem Opens.append {s : List Char} (h : Opens s) (t : List Char) : Opens (s ++ t) := by
  obtain ⟨c, u, rfl, hc⟩ := h
  exact ⟨c, u ++ t, rfl, hc⟩

theorem Opens.skipGap_append {s gap : List Char} (h : Opens s) (hgap : Gap gap) :
    skipGap (gap ++ s) = s := by
  obtain ⟨c, u, rfl, hc, -⟩ := h
  exact hgap.skipGap_cons hc u

theorem Quotes.opens {t : String} {s : List Char} (h : Quotes t s) : Opens s := by
  obtain ⟨u, rfl, -⟩ := h.exists_tail
  exact ⟨'"', u, rfl, by decide⟩

theorem Member.opens {P : Json → List Char → Prop} {m : String × Json} {s : List Char}
    (h : Member P m s) : Opens s := by
  obtain ⟨q, gap, gap', t, hq, -, -, -, rfl⟩ := h
  exact hq.opens.append _

theorem Row.opens {α : Type} {P : α → List Char → Prop} (hP : ∀ {x s}, P x s → Opens s)
    {xs : List α} {s : List Char} (h : Row P xs s) : Opens s := by
  cases h with
  | one hx => exact (hP hx).append _
  | more hx => exact (hP hx).append _

theorem Written.opens {d : Nat} {j : Json} {s : List Char} (h : Written d j s) : Opens s := by
  cases j with
  | str t =>
    rw [Written] at h
    exact h.opens
  | arr items =>
    cases d with
    | zero => exact h.elim
    | succ d =>
      obtain ⟨t, -, rfl⟩ := h
      exact ⟨'[', _, rfl, by decide⟩
  | obj members =>
    cases d with
    | zero => exact h.elim
    | succ d =>
      obtain ⟨-, t, -, rfl⟩ := h
      exact ⟨'\x7b', _, rfl, by decide⟩
  | _ => cases d <;> exact h.elim

/-! ### One step of reading -/

section
variable {fuel d : Nat} {gap gap' q s t r : List Char} {k : String} {x : Json} {xs : List Json}
  {ms : List (String × Json)}

theorem value_quotes (h : Quotes k s) : value (fuel + 1) d (s ++ r) = .ok (.str k, r) := by
  obtain ⟨u, rfl, hread⟩ := h.exists_tail
  simp [hread, bind, Except.bind, pure, Except.pure]

theorem value_arr_nil (hgap : Gap gap) :
    value (fuel + 1) (d + 1) ('[' :: (gap ++ ']' :: r)) = .ok (.arr [], r) := by
  have hskip : skipGap (gap ++ ']' :: r) = ']' :: r := hgap.skipGap_cons (by decide) r
  simp [hskip]

theorem value_arr (hgap : Gap gap) (hs : Opens s) (h : itemsFrom fuel d s = .ok (xs, r)) :
    value (fuel + 1) (d + 1) ('[' :: (gap ++ s)) = .ok (.arr xs, r) := by
  have hskip := hs.skipGap_append hgap
  obtain ⟨c, t, rfl, -, hend, -⟩ := hs
  simp [hskip, hend, h, bind, Except.bind, pure, Except.pure]

theorem value_obj_nil (hgap : Gap gap) :
    value (fuel + 1) (d + 1) ('\x7b' :: (gap ++ '\x7d' :: r)) = .ok (.obj [], r) := by
  have hskip : skipGap (gap ++ '\x7d' :: r) = '\x7d' :: r := hgap.skipGap_cons (by decide) r
  simp [hskip]

theorem value_obj (hgap : Gap gap) (hs : Opens s) (h : membersFrom fuel d s = .ok (ms, r)) :
    value (fuel + 1) (d + 1) ('\x7b' :: (gap ++ s)) = .ok (.obj (Table.ofPairs ms), r) := by
  have hskip := hs.skipGap_append hgap
  obtain ⟨c, t, rfl, -, -, hend⟩ := hs
  simp [hskip, hend, h, bind, Except.bind, pure, Except.pure]

theorem itemsFrom_value (hx : value fuel d s = .ok (x, t)) : itemsFrom (fuel + 1) d s =
    match skipGap t with
    | ']' :: r => .ok ([x], r)
    | ',' :: r => do
      let p ← itemsFrom fuel d (skipGap r)
      return (x :: p.1, p.2)
    | _ => .error .malformed := by
  rw [itemsFrom, hx]
  rfl

theorem membersFrom_value (hk : Quotes k q) (hgap : Gap gap) (hgap' : Gap gap') (hs : Opens s)
    (hx : value fuel d s = .ok (x, t)) :
    membersFrom (fuel + 1) d (q ++ (gap ++ ':' :: (gap' ++ s))) =
      match skipGap t with
      | '\x7d' :: r => .ok ([(k, x)], r)
      | ',' :: r => do
        let p ← membersFrom fuel d (skipGap r)
        return ((k, x) :: p.1, p.2)
      | _ => .error .malformed := by
  obtain ⟨u, rfl, hread⟩ := hk.exists_tail
  have hcolon : skipGap (gap ++ ':' :: (gap' ++ s)) = ':' :: (gap' ++ s) :=
    hgap.skipGap_cons (by decide) _
  rw [List.cons_append, membersFrom, hread]
  simp only [bind, Except.bind, hcolon, hs.skipGap_append hgap', hx]
  rfl

end

/-! ### Whole values -/

/-- A value is read back from a text, with twice its length as fuel. -/
def Reads (d : Nat) (j : Json) (s : List Char) : Prop :=
  ∀ (fuel : Nat) (r : List Char), 2 * s.length ≤ fuel → value fuel d (s ++ r) = .ok (j, r)

section
variable {d : Nat} {s : List Char}

theorem reads_quotes {t : String} (h : Quotes t s) : Reads d (.str t) s := by
  intro fuel r hfuel
  have hpos : 0 < 2 * s.length := by
    obtain ⟨u, rfl, -⟩ := h.exists_tail
    simp
  obtain ⟨fuel, rfl⟩ := Nat.exists_eq_add_one.2 (Nat.lt_of_lt_of_le hpos hfuel)
  exact value_quotes h

theorem itemsFrom_row (hread : ∀ {x s}, Written d x s → Reads d x s) {xs : List Json}
    (h : Row (Written d) xs s) : ∀ (fuel : Nat) (r : List Char), 2 * s.length + 1 ≤ fuel →
      itemsFrom fuel d (s ++ ']' :: r) = .ok (xs, r) := by
  induction h with
  | @one x s gap hx hgap =>
    intro fuel r hfuel
    obtain ⟨fuel, rfl⟩ := Nat.exists_eq_add_one.2 (Nat.zero_lt_of_lt hfuel)
    rw [List.length_append] at hfuel
    rw [List.append_assoc, itemsFrom_value (hread hx fuel _ (by omega)),
      hgap.skipGap_cons (by decide)]
    rfl
  | @more x xs s gap gap' t hx hgap hgap' hxs ih =>
    intro fuel r hfuel
    obtain ⟨fuel, rfl⟩ := Nat.exists_eq_add_one.2 (Nat.zero_lt_of_lt hfuel)
    simp only [List.length_append, List.length_cons] at hfuel
    have hskip := ((hxs.opens Written.opens).append (']' :: r)).skipGap_append hgap'
    simp only [List.append_assoc, List.cons_append]
    rw [itemsFrom_value (hread hx fuel _ (by omega)), hgap.skipGap_cons (by decide)]
    simp only [hskip, ih fuel r (by omega)]
    rfl

theorem membersFrom_row (hread : ∀ {x s}, Written d x s → Reads d x s)
    {ms : List (String × Json)} (h : Row (Member (Written d)) ms s) :
    ∀ (fuel : Nat) (r : List Char), 2 * s.length + 1 ≤ fuel →
      membersFrom fuel d (s ++ '\x7d' :: r) = .ok (ms, r) := by
  induction h with
  | @one m s gap hm hgap =>
    intro fuel r hfuel
    obtain ⟨fuel, rfl⟩ := Nat.exists_eq_add_one.2 (Nat.zero_lt_of_lt hfuel)
    obtain ⟨q, before, after, t, hq, hbefore, hafter, hx, rfl⟩ := hm
    simp only [List.length_append, List.length_cons] at hfuel
    simp only [List.append_assoc, List.cons_append]
    rw [membersFrom_value hq hbefore hafter (hx.opens.append _) (hread hx fuel _ (by omega)),
      hgap.skipGap_cons (by decide)]
    rfl
  | @more m ms s gap gap' t hm hgap hgap' hms ih =>
    intro fuel r hfuel
    obtain ⟨fuel, rfl⟩ := Nat.exists_eq_add_one.2 (Nat.zero_lt_of_lt hfuel)
    obtain ⟨q, before, after, u, hq, hbefore, hafter, hx, rfl⟩ := hm
    simp only [List.length_append, List.length_cons] at hfuel
    have hskip := ((hms.opens Member.opens).append ('\x7d' :: r)).skipGap_append hgap'
    simp only [List.append_assoc, List.cons_append]
    rw [membersFrom_value hq hbefore hafter (hx.opens.append _) (hread hx fuel _ (by omega)),
      hgap.skipGap_cons (by decide)]
    simp only [hskip, ih fuel r (by omega)]
    rfl

/-- **The reader accepts every text that shows a value.** -/
theorem Written.reads {j : Json} (h : Written d j s) : Reads d j s := by
  induction d generalizing j s with
  | zero =>
    cases j with
    | str t => exact reads_quotes h
    | _ => exact h.elim
  | succ d ih =>
    cases j with
    | str t => exact reads_quotes h
    | arr items =>
      intro fuel r hfuel
      obtain ⟨t, hfilled, rfl⟩ := h
      simp only [List.length_append, List.length_cons] at hfuel
      obtain ⟨fuel, rfl⟩ := Nat.exists_eq_add_one.2 (Nat.lt_of_lt_of_le (by omega) hfuel)
      simp only [List.cons_append, List.append_assoc, List.nil_append]
      rcases hfilled with ⟨rfl, hgap⟩ | ⟨gap, t, hgap, hrow, rfl⟩
      · exact value_arr_nil hgap
      · rw [List.length_append] at hfuel
        rw [List.append_assoc]
        exact value_arr hgap ((hrow.opens Written.opens).append _)
          (itemsFrom_row ih hrow fuel r (by omega))
    | obj members =>
      intro fuel r hfuel
      obtain ⟨hkeys, t, hfilled, rfl⟩ := h
      simp only [List.length_append, List.length_cons] at hfuel
      obtain ⟨fuel, rfl⟩ := Nat.exists_eq_add_one.2 (Nat.lt_of_lt_of_le (by omega) hfuel)
      simp only [List.cons_append, List.append_assoc, List.nil_append]
      rcases hfilled with ⟨rfl, hgap⟩ | ⟨gap, t, hgap, hrow, rfl⟩
      · exact value_obj_nil hgap
      · rw [List.length_append] at hfuel
        have hread := value_obj hgap ((hrow.opens Member.opens).append _)
          (membersFrom_row ih hrow fuel r (by omega))
        rwa [Table.ofPairs_of_nodup hkeys, ← List.append_assoc] at hread
    | _ => exact h.elim

/-- A text that shows a value is read as that value, with blanks around it. -/
theorem ofChars_written {j : Json} {gap gap' : List Char} (h : Written maxDepth j s)
    (hgap : Gap gap) (hgap' : Gap gap') : ofChars (gap ++ s ++ gap') = .ok j := by
  have hskip : skipGap (gap' ++ []) = [] := List.dropWhile_append_of_pos hgap'
  rw [List.append_nil] at hskip
  have hread := h.reads (2 * (gap ++ s ++ gap').length + 2) gap' (by simp; omega)
  rw [ofChars, List.append_assoc, (h.opens.append gap').skipGap_append hgap, ← List.append_assoc,
    hread]
  change (if (skipGap gap').isEmpty then pure j else throw Fault.malformed) = _
  rw [hskip]
  rfl

/-! ## What is rendered -/

/-- Commas and colons may be followed by blanks. -/
structure Layout.Standard (l : Layout) : Prop where
  comma : ∃ gap, l.comma.toList = ',' :: gap ∧ Gap gap
  colon : ∃ gap, l.colon.toList = ':' :: gap ∧ Gap gap

theorem Layout.standard_spaced : Layout.spaced.Standard :=
  ⟨⟨[' '], rfl, by simp [Gap, isGap]⟩, ⟨[' '], rfl, by simp [Gap, isGap]⟩⟩

theorem Layout.standard_compact : Layout.compact.Standard :=
  ⟨⟨[], rfl, gap_nil⟩, ⟨[], rfl, gap_nil⟩⟩

/-- Values that are made of texts, with lists and objects at most so deep inside each other. The
keys of an object are distinct. -/
inductive OfTexts : Nat → Json → Prop
  | str (d : Nat) (s : String) : OfTexts d (.str s)
  | arr {d : Nat} {items : List Json} (h : ∀ x ∈ items, OfTexts d x) : OfTexts (d + 1) (.arr items)
  | obj {d : Nat} {members : List (String × Json)} (hkeys : (members.map Prod.fst).Nodup)
      (h : ∀ m ∈ members, OfTexts d m.2) : OfTexts (d + 1) (.obj members)

theorem hexValue?_hexDigit : ∀ d < 16, hexValue? (Chars.hexDigit d) = some d := by decide

/-- The digits of a unit are those of its number. -/
theorem exists_unitEscape {n : Nat} (h : n < 65536) :
    ∃ ds, unitEscape n = '\\' :: 'u' :: ds ∧ unit? ds = some (n, []) := by
  refine ⟨_, rfl, ?_⟩
  have hvalue : ((n / 4096 % 16 * 16 + n / 256 % 16) * 16 + n / 16 % 16) * 16 + n % 16 = n := by
    omega
  simp only [unit?, Option.bind_eq_bind, hexValue?_hexDigit _ (Nat.mod_lt _ (by decide : 0 < 16)),
    Option.bind_some, hvalue]

theorem sign_unitEscape {c : Char} (h : c.toNat < 65536) : Sign c (unitEscape c.toNat) := by
  have hvalid : c.toNat < 0xD800 ∨ 0xDFFF < c.toNat ∧ c.toNat < 0x110000 := c.valid
  obtain ⟨ds, hds, hunit⟩ := exists_unitEscape h
  have hsign := Sign.unit hunit (hvalid.imp_right And.left)
  rwa [Char.ofNat_toNat, ← hds] at hsign

/-- A character beyond the first plane is signed by a pair of units. -/
theorem sign_unitEscapes {c : Char} (h : ¬ c.toNat < 0x10000) :
    Sign c (unitEscape (0xD800 + (c.toNat - 0x10000) / 1024) ++
      unitEscape (0xDC00 + (c.toNat - 0x10000) % 1024)) := by
  have hvalid : c.toNat < 0xD800 ∨ 0xDFFF < c.toNat ∧ c.toNat < 0x110000 := c.valid
  obtain ⟨ds, hds, hhigh⟩ := exists_unitEscape
    (by omega : 0xD800 + (c.toNat - 0x10000) / 1024 < 65536)
  obtain ⟨es, hes, hlow⟩ := exists_unitEscape
    (by omega : 0xDC00 + (c.toNat - 0x10000) % 1024 < 65536)
  have hsign := Sign.pair (by omega) hhigh hlow
  rw [show 0x10000 + (c.toNat - 0x10000) = c.toNat by omega, Char.ofNat_toNat] at hsign
  simpa only [hds, hes, List.cons_append] using hsign

theorem sign_escapeChar (asciiOnly : Bool) (c : Char) : Sign c (escapeChar asciiOnly c) := by
  have hself : Char.ofNat c.toNat = c := Char.ofNat_toNat c
  -- One condition at a time: `split` goes over the whole chain at each of its steps.
  rw [escapeChar]
  by_cases hquote : c = '"'
  · rw [if_pos hquote]
    exact .simple (by rw [hquote]; rfl)
  rw [if_neg hquote]
  by_cases hescape : c = '\\'
  · rw [if_pos hescape]
    exact .simple (by rw [hescape]; rfl)
  rw [if_neg hescape]
  by_cases hline : c = '\n'
  · rw [if_pos hline]
    exact .simple (by rw [hline]; rfl)
  rw [if_neg hline]
  by_cases hreturn : c = '\r'
  · rw [if_pos hreturn]
    exact .simple (by rw [hreturn]; rfl)
  rw [if_neg hreturn]
  by_cases htab : c = '\t'
  · rw [if_pos htab]
    exact .simple (by rw [htab]; rfl)
  rw [if_neg htab]
  by_cases hback : c.toNat = 8
  · rw [if_pos hback]
    exact .simple (by rw [← hself, hback]; rfl)
  rw [if_neg hback]
  by_cases hfeed : c.toNat = 12
  · rw [if_pos hfeed]
    exact .simple (by rw [← hself, hfeed]; rfl)
  rw [if_neg hfeed]
  by_cases hcontrol : c.toNat < 0x20
  · rw [if_pos hcontrol]
    exact sign_unitEscape (by omega)
  rw [if_neg hcontrol]
  by_cases houtside : (asciiOnly && c.toNat ≥ 0x7F) = true
  · rw [if_pos houtside]
    by_cases hplane : c.toNat < 0x10000
    · rw [if_pos hplane]
      exact sign_unitEscape hplane
    · rw [if_neg hplane]
      exact sign_unitEscapes hplane
  · rw [if_neg houtside]
    exact .plain hquote hescape hcontrol

theorem quotes_quote (asciiOnly : Bool) (t : String) : Quotes t (quote asciiOnly t) := by
  refine ⟨t.toList.map (escapeChar asciiOnly), ?_, ?_⟩
  · rw [List.forall₂_map_right_iff, List.forall₂_same]
    exact fun c _ => sign_escapeChar asciiOnly c
  · rw [quote, List.flatMap_def]
    rfl

end

section
variable {l : Layout} {d : Nat}

theorem row_itemChars (hl : l.Standard) (items : List Json) : ∀ x : Json,
    (∀ y ∈ x :: items, Written d y (chars l y)) →
      Row (Written d) (x :: items) (itemChars l (x :: items)) := by
  induction items with
  | nil =>
    intro x h
    simpa using Row.one (h x List.mem_cons_self) gap_nil
  | cons y items ih =>
    intro x h
    obtain ⟨gap, hcomma, hgap⟩ := hl.comma
    obtain ⟨hx, hrest⟩ := List.forall_mem_cons.1 h
    have hrow := Row.more hx gap_nil hgap (ih y hrest)
    simpa [hcomma] using hrow

theorem member_chars (hl : l.Standard) {m : String × Json} (h : Written d m.2 (chars l m.2)) :
    Member (Written d) m (quote l.asciiOnly m.1 ++ l.colon.toList ++ chars l m.2) := by
  obtain ⟨gap, hcolon, hgap⟩ := hl.colon
  refine ⟨_, [], gap, _, quotes_quote l.asciiOnly m.1, gap_nil, hgap, h, ?_⟩
  simp [hcolon]

theorem row_memberChars (hl : l.Standard) (members : List (String × Json)) : ∀ m : String × Json,
    (∀ n ∈ m :: members, Written d n.2 (chars l n.2)) →
      Row (Member (Written d)) (m :: members) (memberChars l (m :: members)) := by
  induction members with
  | nil =>
    intro m h
    simpa using Row.one (member_chars hl (h m List.mem_cons_self)) gap_nil
  | cons n members ih =>
    intro m h
    obtain ⟨gap, hcomma, hgap⟩ := hl.comma
    obtain ⟨hm, hrest⟩ := List.forall_mem_cons.1 h
    have hrow := Row.more (member_chars hl hm) gap_nil hgap (ih n hrest)
    simpa [hcomma] using hrow

/-- What is rendered shows the value. -/
theorem OfTexts.written (hl : l.Standard) {j : Json} (h : OfTexts d j) :
    Written d j (chars l j) := by
  induction h with
  | str d s =>
    rw [chars, Written]
    exact quotes_quote l.asciiOnly s
  | @arr d items _ ih =>
    refine ⟨itemChars l items, ?_, by simp⟩
    cases items with
    | nil => exact .inl ⟨rfl, gap_nil⟩
    | cons x items => exact .inr ⟨[], _, gap_nil, row_itemChars hl items x ih, rfl⟩
  | @obj d members hkeys _ ih =>
    refine ⟨hkeys, memberChars l members, ?_, by simp⟩
    cases members with
    | nil => exact .inl ⟨rfl, gap_nil⟩
    | cons m members => exact .inr ⟨[], _, gap_nil, row_memberChars hl members m ih, rfl⟩

theorem ofText_render (hl : l.Standard) {j : Json} (h : OfTexts maxDepth j) :
    ofText (render l j) = .ok j := by
  have hread := ofChars_written (h.written hl) gap_nil gap_nil
  rw [ofText, render, String.toList_ofList]
  simpa using hread

end
end CodeAtlas.Json
