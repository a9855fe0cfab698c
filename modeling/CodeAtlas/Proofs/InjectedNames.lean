import CodeAtlas.Analysis.Calls
import CodeAtlas.Proofs.Run
import CodeAtlas.Proofs.SourceRows

/-!
# Names of injected dependencies

The names are collected turn by turn, from a position on: the next opening is looked for, then the
next closing parenthesis, where the search goes on. What is not found is at the position -1, which
is the last character when something is cut out up to it, or searched from it.

* `Injection.collects_append`: the turns come to an end, and collect what the scan does;
* `Injection.names_scan`: what the scan collects, said without positions;
* `Injection.names_collected`: the names in a text, for routers and for parameters.
-/
namespace CodeAtlas

namespace Injection
open Chars
variable {s : List Char} {found : List (List Char)} {i j : Int}

/-! ## Turn by turn -/

/-- Where a text is found from a position on, -1 if it is not. -/
def find (p s : List Char) (i : Int) : Int :=
  (cut? p (s.drop (Code.place s.length i))).elim (-1) fun cut =>
    Code.place s.length i + cut.1.length

def between (s : List Char) (i j : Int) : List Char :=
  (s.take (Code.place s.length j)).drop (Code.place s.length i)

/-- The position behind the next opening, and where the name ends that begins there. -/
def start (s : List Char) (i : Int) : Int := find opening s i + opening.length

def stop (s : List Char) (i : Int) : Int := find [')'] s (start s i)

/-- The turns from a position on come to an end, and collect these names. -/
inductive Collects (s : List Char) : Int → List (List Char) → Prop
  | done {i : Int} (h : find opening s i = -1) : Collects s i []
  | turn {i : Int} {found : List (List Char)} (h : find opening s i ≠ -1)
      (hrest : Collects s (stop s i) found) :
      Collects s i (between s (start s i) (stop s i) :: found)

theorem Collects.unique {found' : List (List Char)} (h : Collects s i found)
    (h' : Collects s i found') : found = found' := by
  induction h generalizing found' with
  | done h =>
    cases h' with
    | done => rfl
    | turn hne => exact absurd h hne
  | turn hne _ ih =>
    cases h' with
    | done h => exact absurd h hne
    | turn _ hrest => rw [ih hrest]

theorem find_append (p a b : List Char) : find p (a ++ b) a.length =
    (cut? p b).elim (-1 : Int) fun cut => a.length + cut.1.length := by
  have hplace : Code.place (a ++ b).length a.length = a.length := by
    rw [Code.place_natCast, List.length_append]
    omega
  rw [find, hplace, List.drop_left]

theorem place_last (n : Nat) : Code.place n (-1) = n - 1 := by
  unfold Code.place
  split <;> omega

/-- From the last character on there is no room for an opening. -/
theorem find_last (s : List Char) : find opening s (-1) = -1 := by
  rw [find, place_last]
  cases hcut : cut? opening (s.drop (s.length - 1)) with
  | none => rfl
  | some cut =>
    have hlength := length_of_cut? hcut
    have hopening : opening.length = 8 := rfl
    rw [List.length_drop] at hlength
    omega

theorem between_append (a b c : List Char) :
    between (a ++ (b ++ c)) a.length ((a ++ b).length : Nat) = b := by
  have hstart : min a.length (a ++ (b ++ c)).length = a.length := by simp
  have hstop : min (a ++ b).length (a ++ (b ++ c)).length = (a ++ b).length := by simp
  rw [between, Code.place_natCast, Code.place_natCast, hstart, hstop, ← List.append_assoc,
    List.take_left, List.drop_left]

/-- Up to the last character: all but that one. -/
theorem between_last (a b : List Char) : between (a ++ b) a.length (-1) = b.dropLast := by
  have hstart : min a.length (a ++ b).length = a.length := by simp
  rw [between, Code.place_natCast, place_last, hstart, ← List.dropLast_eq_take, List.dropLast_append]
  split
  · next hb => simp [List.isEmpty_iff.1 hb]
  · rw [List.drop_left]

/-- The turns from a position on depend on nothing but the next opening. -/
theorem Collects.congr (h : Collects s i found) (hij : find opening s i = find opening s j) :
    Collects s j found := by
  have hstart : start s i = start s j := by rw [start, hij, start]
  have hstop : stop s i = stop s j := by rw [stop, hstart, stop]
  cases h with
  | done hnone => exact .done (hij ▸ hnone)
  | turn hsome hrest =>
    rw [hstart, hstop]
    exact .turn (hij ▸ hsome) (hstop ▸ hrest)

/-- The closing parenthesis of a name begins no opening. -/
theorem cut?_closing (s : List Char) :
    cut? opening (')' :: s) = (cut? opening s).map fun (a, b) => (')' :: a, b) := rfl

theorem find_closing (a s : List Char) : find opening (a ++ ')' :: s) a.length =
    find opening (a ++ [')'] ++ s) (a ++ [')']).length := by
  rw [find_append, find_append, cut?_closing]
  cases cut? opening s with
  | none => rfl
  | some cut =>
    simp only [Option.map_some, Option.elim_some, List.length_cons, List.length_append,
      List.length_nil]
    omega

theorem scan_eq (s : List Char) : scan s =
    match cut? opening s with
    | none => []
    | some (_, rest) =>
      match cut? [')'] rest with
      | none => [rest.dropLast]
      | some (name, after) => name :: scan after := by
  rw [scan]
  split
  · next h => simp only [h]
  · next h =>
    split
    · next h' => simp only [h, h']
    · next h' => simp only [h, h']

theorem scan_closing (s : List Char) : scan (')' :: s) = scan s := by
  rw [scan_eq, scan_eq, cut?_closing]
  cases cut? opening s <;> rfl

/-- The next opening after a beginning. -/
theorem start_append {before rest : List Char} (a : List Char)
    (hcut : cut? opening s = some (before, rest)) :
    a ++ s = a ++ before ++ opening ++ rest ∧ find opening (a ++ s) a.length ≠ -1 ∧
      start (a ++ s) a.length = (a ++ before ++ opening).length := by
  have hfind : find opening (a ++ s) a.length = (a ++ before).length := by
    rw [find_append, hcut, List.length_append]
    rfl
  refine ⟨?_, ?_, ?_⟩
  · rw [eq_append_of_cut? hcut]
    simp only [List.append_assoc]
  · rw [hfind]
    omega
  · rw [start, hfind, @List.length_append _ (a ++ before)]
    rfl

/-- The turns from the beginning of a part come to an end, and collect what the scan does. -/
theorem collects_append (a s : List Char) : Collects (a ++ s) a.length (scan s) := by
  fun_induction scan s generalizing a with
  | case1 s hcut =>
    refine .done ?_
    rw [find_append, hcut, Option.elim_none]
  | case2 s before rest hcut hclose =>
    obtain ⟨hs, hfound, hstart⟩ := start_append a hcut
    have hstop : stop (a ++ s) a.length = -1 := by
      rw [stop, hstart, hs, find_append, hclose, Option.elim_none]
    have hrest : Collects (a ++ s) (stop (a ++ s) a.length) [] := by
      rw [hstop]
      exact .done (find_last _)
    have hname : between (a ++ s) (start (a ++ s) a.length) (stop (a ++ s) a.length) =
        rest.dropLast := by
      rw [hstart, hstop, hs, between_last]
    exact hname ▸ .turn hfound hrest
  | case3 s before rest hcut name after hclose hlt ih =>
    obtain ⟨hs, hfound, hstart⟩ := start_append a hcut
    obtain ⟨rfl, -⟩ := cut?_singleton.1 hclose
    have hstop : stop (a ++ s) a.length = (a ++ before ++ opening ++ name).length := by
      rw [stop, hstart, hs, find_append, hclose, @List.length_append _ (a ++ before ++ opening)]
      rfl
    have hname : between (a ++ s) (start (a ++ s) a.length) (stop (a ++ s) a.length) = name := by
      rw [hstart, hstop, hs, between_append]
    -- the search goes on at the closing parenthesis, which is as good as behind it
    have hrest : Collects (a ++ s) (stop (a ++ s) a.length) (scan after) := by
      have hclosed := ih (a ++ before ++ opening ++ name ++ [')'])
      have htext : a ++ before ++ opening ++ name ++ [')'] ++ after = a ++ s := by
        rw [hs]
        simp
      rw [hstop]
      refine (htext ▸ hclosed).congr ?_
      rw [← htext, ← find_closing]
      simp
    exact hname ▸ .turn hfound hrest

/-! ## Without positions -/

/-- The names in a text: what stands between each opening, found from the last closing parenthesis
on, and the next closing parenthesis. One that is not closed is the rest without its last character,
and the last one. -/
inductive Names : List Char → List (List Char) → Prop
  | none {s : List Char} (h : ¬ opening <:+: s) : Names s []
  | unclosed {s before rest : List Char} (h : Leftmost opening s before rest) (hopen : ')' ∉ rest) :
      Names s [rest.dropLast]
  | closed {s before name after : List Char} {found : List (List Char)}
      (h : Leftmost opening s before (name ++ ')' :: after)) (hname : ')' ∉ name)
      (hrest : Names (')' :: after) found) : Names s (name :: found)

theorem names_scan (s : List Char) : Names s (scan s) := by
  rw [scan_eq]
  split
  · next hcut => exact .none (cut?_eq_none_iff.1 hcut)
  · next hcut =>
    split
    · next hclose =>
      refine .unclosed (leftmost_of_cut? hcut) ?_
      rwa [cut?_eq_none_iff, List.singleton_infix_iff] at hclose
    · next after hclose =>
      obtain ⟨rfl, hname⟩ := cut?_singleton.1 hclose
      have hshorter : (')' :: after).length < s.length := by
        have hlength := length_of_cut? hcut
        have hopening : opening.length = 8 := rfl
        simp only [List.length_append, List.length_cons] at hlength ⊢
        omega
      rw [← scan_closing]
      exact .closed (leftmost_of_cut? hcut) hname (names_scan (')' :: after))
termination_by s.length

theorem Names.eq_scan (h : Names s found) : found = scan s := by
  induction h with
  | none h => rw [scan_eq, cut?_eq_none_iff.2 h]
  | unclosed h hopen =>
    have hclose : cut? [')'] _ = Option.none := cut?_eq_none_iff.2 (by rwa [List.singleton_infix_iff])
    rw [scan_eq, cut?_eq_some_iff.2 h]
    simp only [hclose]
  | closed h hname _ ih =>
    rw [scan_eq, cut?_eq_some_iff.2 h]
    simp only [cut?_singleton.2 ⟨rfl, hname⟩, ih, scan_closing]

/-- **Names of injected dependencies**: the turns from the beginning of any text come to an end, and
collect the names in it. The arguments of a mounted router and a default parameter that have this
text give the same names. -/
theorem names_collected (text : String) :
    (∀ found, Collects text.toList 0 found ↔ found = (names text).map String.toList) ∧
    (∀ found, Names text.toList found ↔ found = (names text).map String.toList) ∧
    (∀ src n m, Node.text src n = .ok text → Mount.ofArguments src n = .ok m →
      m.depends = names text) ∧
    ∀ src owner n, Node.text src n = .ok text → n.kind = "default_parameter" →
      Calls.namesAt src owner n = .ok (names text) := by
  have hnames : (names text).map String.toList = scan text.toList := by
    simp [names, Function.comp_def]
  have hcollects : Collects text.toList 0 (scan text.toList) := collects_append [] text.toList
  rw [hnames]
  refine ⟨fun found => ⟨fun h => h.unique hcollects, fun h => h ▸ hcollects⟩,
    fun found => ⟨Names.eq_scan, fun h => h ▸ names_scan _⟩, fun src n m htext hm => ?_,
    fun src owner n htext hkind => ?_⟩
  · unfold Mount.ofArguments at hm
    obtain ⟨args, -, hm⟩ := Run.bind_eq_ok hm
    simp only [htext] at hm
    split at hm <;> cases hm
    · rfl
    · rfl
  · unfold Calls.namesAt
    rw [if_pos (by rw [hkind]; rfl), htext]
    rfl

/-- A name that is not closed loses its last character. -/
theorem unclosed_name_collected :
    Calls.namesAt "a=Depends(gh" none (.mk "default_parameter" 0 12 []) = .ok ["g"] := by
  have hnames : names "a=Depends(gh" = ["g"] := by
    rw [names, scan_eq]
    rfl
  rw [(names_collected "a=Depends(gh").2.2.2 _ none (.mk "default_parameter" 0 12 []) rfl rfl,
    hnames]

end Injection
end CodeAtlas
