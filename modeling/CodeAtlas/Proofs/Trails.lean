import CodeAtlas.Proofs.GraphInvariant

/-!
# Trails

`Graph.trailsOver` lists the ends of the trails from a node over some edges. Here the trails themselves are
listed, as lists of edges.

* `Graph.mem_edgeTrails`, `Graph.nodup_edgeTrails`: the trails that are listed are the paths without a
  repeated edge, each once;
* `Graph.trailsOver_fuel`: as many steps as there are edges are enough;
* `Graph.trailsOver_filter`: edges that a walk from a node never comes to may be left out.
-/
namespace CodeAtlas

/-! ## Trails as lists of edges -/

section
variable {α : Type} {l rest : List α} {a : α}

theorem map_fst_picks (l : List α) : (picks l).map Prod.fst = l := by
  induction l with
  | nil => rfl
  | cons a l ih => simp [picks, Function.comp_def, ih]

theorem mem_picks : (a, rest) ∈ picks l ↔ ∃ s t, l = s ++ a :: t ∧ rest = s ++ t := by
  induction l generalizing rest with
  | nil => simp [picks]
  | cons b l ih =>
    simp only [picks, List.mem_cons, Prod.mk.injEq, List.mem_map, Prod.exists]
    constructor
    · rintro (⟨rfl, rfl⟩ | ⟨c, others, hmem, rfl, rfl⟩)
      · exact ⟨[], _, rfl, rfl⟩
      · obtain ⟨s, t, rfl, rfl⟩ := ih.1 hmem
        exact ⟨b :: s, t, rfl, rfl⟩
    · rintro ⟨s, t, hl, rfl⟩
      cases s with
      | nil =>
        obtain ⟨rfl, rfl⟩ := List.cons.inj hl
        exact .inl ⟨rfl, rfl⟩
      | cons c s =>
        obtain ⟨rfl, rfl⟩ := List.cons.inj hl
        exact .inr ⟨a, s ++ t, ih.2 ⟨s, t, rfl, rfl⟩, rfl, rfl⟩

end

namespace Graph

variable {edges es : List CallEdge} {e : CallEdge} {x : NodeRef} {fuel : Nat}

/-- Edges that follow one another, the first of them from a given node. -/
def Trail (x : NodeRef) : List CallEdge → Prop
  | [] => True
  | e :: es => e.source.same x = true ∧ Trail e.target es

def trailEnd (x : NodeRef) : List CallEdge → NodeRef
  | [] => x
  | e :: es => trailEnd e.target es

theorem trail_append {fs : List CallEdge} :
    Trail x (es ++ fs) ↔ Trail x es ∧ Trail (trailEnd x es) fs := by
  induction es generalizing x with
  | nil => simp [Trail, trailEnd]
  | cons e es ih => simp [Trail, trailEnd, ih, and_assoc]

theorem trail_concat :
    Trail x (es ++ [e]) ↔ Trail x es ∧ e.source.same (trailEnd x es) = true := by
  simp [trail_append, Trail]

theorem trailEnd_concat : trailEnd x (es ++ [e]) = e.target := by
  induction es generalizing x with
  | nil => rfl
  | cons f es ih => exact ih

def edgeTrails : Nat → List CallEdge → NodeRef → List (List CallEdge)
  | 0, _, _ => []
  | fuel + 1, edges, x =>
    (picks edges).flatMap fun (e, rest) =>
      if e.source.same x then [e] :: (edgeTrails fuel rest e.target).map (e :: ·) else []

theorem trailsOver_eq_map :
    trailsOver .outward fuel edges x = (edgeTrails fuel edges x).map (trailEnd x) := by
  induction fuel generalizing edges x with
  | zero => rfl
  | succ fuel ih =>
    rw [trailsOver, edgeTrails, List.map_flatMap]
    congr 1
    funext ⟨e, rest⟩
    by_cases h : e.source.same x = true
    · simp only [Direction.follow, h, if_true, ih, List.map_cons, List.map_map]
      rfl
    · simp only [Direction.follow, h, Bool.false_eq_true, if_false, List.map_nil]

theorem mem_edgeTrails_succ : es ∈ edgeTrails (fuel + 1) edges x ↔
    ∃ e s t, edges = s ++ e :: t ∧ e.source.same x = true ∧
      (es = [e] ∨ ∃ fs ∈ edgeTrails fuel (s ++ t) e.target, es = e :: fs) := by
  simp only [edgeTrails, List.mem_flatMap, Prod.exists, mem_picks]
  constructor
  · rintro ⟨e, rest, ⟨s, t, rfl, rfl⟩, hes⟩
    split at hes
    · next hsource =>
      refine ⟨e, s, t, rfl, hsource, ?_⟩
      rcases List.mem_cons.1 hes with rfl | hes
      · exact .inl rfl
      · obtain ⟨fs, hfs, rfl⟩ := List.mem_map.1 hes
        exact .inr ⟨fs, hfs, rfl⟩
    · cases hes
  · rintro ⟨e, s, t, rfl, hsource, hes⟩
    refine ⟨e, s ++ t, ⟨s, t, rfl, rfl⟩, ?_⟩
    rw [if_pos hsource]
    rcases hes with rfl | ⟨fs, hfs, rfl⟩
    · exact List.mem_cons_self
    · exact List.mem_cons_of_mem _ (List.mem_map_of_mem hfs)

theorem nil_not_mem_edgeTrails : [] ∉ edgeTrails fuel edges x := by
  cases fuel with
  | zero => exact List.not_mem_nil
  | succ fuel =>
    rw [mem_edgeTrails_succ]
    rintro ⟨e, s, t, -, -, h | ⟨fs, -, h⟩⟩ <;> cases h

theorem mem_edgeTrails (hedges : edges.Nodup) (hfuel : edges.length ≤ fuel) :
    es ∈ edgeTrails fuel edges x ↔ es ≠ [] ∧ Trail x es ∧ es.Nodup ∧ es ⊆ edges := by
  induction fuel generalizing edges x es with
  | zero =>
    obtain rfl := List.eq_nil_of_length_eq_zero (Nat.le_zero.1 hfuel)
    simp only [edgeTrails, List.not_mem_nil, false_iff]
    rintro ⟨hne, -, -, hsub⟩
    exact hne (List.subset_nil.1 hsub)
  | succ fuel ih =>
    rw [mem_edgeTrails_succ]
    constructor
    · rintro ⟨e, s, t, rfl, hsource, hes⟩
      have hmiddle := List.nodup_middle.1 hedges
      have hlength : (s ++ t).length ≤ fuel := by
        simp only [List.length_append, List.length_cons] at hfuel ⊢
        omega
      rcases hes with rfl | ⟨fs, hfs, rfl⟩
      · exact ⟨by simp, ⟨hsource, trivial⟩, List.nodup_singleton e, by simp⟩
      · obtain ⟨-, htrail, hnodup, hsub⟩ := (ih hmiddle.of_cons hlength).1 hfs
        have hnew : e ∉ fs := fun hmem => (List.nodup_cons.1 hmiddle).1 (hsub hmem)
        refine ⟨by simp, ⟨hsource, htrail⟩, List.nodup_cons.2 ⟨hnew, hnodup⟩, ?_⟩
        refine List.cons_subset.2 ⟨by simp, fun f hf => ?_⟩
        exact List.perm_middle.mem_iff.2 (List.mem_cons_of_mem e (hsub hf))
    · rintro ⟨hne, htrail, hnodup, hsub⟩
      cases es with
      | nil => exact absurd rfl hne
      | cons e es =>
        obtain ⟨hsource, htrail⟩ := htrail
        obtain ⟨hnew, hnodup⟩ := List.nodup_cons.1 hnodup
        obtain ⟨he, hsub⟩ := List.cons_subset.1 hsub
        obtain ⟨s, t, rfl⟩ := List.append_of_mem he
        refine ⟨e, s, t, rfl, hsource, ?_⟩
        by_cases hes : es = []
        · exact .inl (by rw [hes])
        have hlength : (s ++ t).length ≤ fuel := by
          simp only [List.length_append, List.length_cons] at hfuel ⊢
          omega
        -- no later edge is the first one, so all of them are among the others
        have hothers : es ⊆ s ++ t := by
          intro f hf
          rcases List.mem_cons.1 (List.perm_middle.mem_iff.1 (hsub hf)) with rfl | hmem
          · exact absurd hf hnew
          · exact hmem
        have hrest := (List.nodup_middle.1 hedges).of_cons
        exact .inr ⟨es, (ih hrest hlength).2 ⟨hes, htrail, hnodup, hothers⟩, rfl⟩

theorem nodup_edgeTrails (hedges : edges.Nodup) : (edgeTrails fuel edges x).Nodup := by
  induction fuel generalizing edges x with
  | zero => exact List.nodup_nil
  | succ fuel ih =>
    rw [edgeTrails, List.nodup_flatMap]
    constructor
    · rintro ⟨e, rest⟩ hmem
      obtain ⟨s, t, rfl, rfl⟩ := mem_picks.1 hmem
      dsimp only
      split
      · have hrest := ih (x := e.target) (List.nodup_middle.1 hedges).of_cons
        refine List.nodup_cons.2 ⟨?_, hrest.map fun _ _ he => List.tail_eq_of_cons_eq he⟩
        rw [List.mem_map]
        rintro ⟨fs, hfs, he⟩
        obtain rfl : fs = [] := List.tail_eq_of_cons_eq he
        exact nil_not_mem_edgeTrails hfs
      · exact List.nodup_nil
    · have hfirst : (picks edges).Pairwise fun a b => a.1 ≠ b.1 := by
        rw [← List.pairwise_map (R := (· ≠ ·)), map_fst_picks]
        exact hedges
      have hstart {a : CallEdge × List CallEdge} {es : List CallEdge}
          (h : es ∈ if a.1.source.same x then
            [a.1] :: (edgeTrails fuel a.2 a.1.target).map (a.1 :: ·) else []) :
          es.head? = some a.1 := by
        split at h
        · rcases List.mem_cons.1 h with rfl | h
          · rfl
          · obtain ⟨fs, -, rfl⟩ := List.mem_map.1 h
            rfl
        · cases h
      refine hfirst.imp fun {a b} hne es ha hb => hne ?_
      exact Option.some.inj ((hstart ha).symm.trans (hstart hb))

/-! ## What the ends depend on -/

variable {d : Direction}

theorem length_of_mem_picks {α : Type} {l rest : List α} {a : α} (h : (a, rest) ∈ picks l) :
    rest.length + 1 = l.length := by
  obtain ⟨s, t, rfl, rfl⟩ := mem_picks.1 h
  simp only [List.length_append, List.length_cons]
  omega

theorem trailsOver_fuel {m n : Nat} (hm : edges.length ≤ m) (hn : edges.length ≤ n) :
    trailsOver d m edges x = trailsOver d n edges x := by
  have hnil (n : Nat) (x : NodeRef) : trailsOver d n [] x = [] := by cases n <;> rfl
  induction m generalizing n edges x with
  | zero =>
    obtain rfl := List.eq_nil_of_length_eq_zero (Nat.le_zero.1 hm)
    rw [hnil, hnil]
  | succ m ih =>
    cases n with
    | zero =>
      obtain rfl := List.eq_nil_of_length_eq_zero (Nat.le_zero.1 hn)
      rw [hnil, hnil]
    | succ n =>
      refine List.flatMap_congr fun ⟨e, rest⟩ ha => ?_
      have hlength := length_of_mem_picks ha
      dsimp only
      cases d.follow e x with
      | none => rfl
      | some y => exact congrArg (y :: ·) (ih (by omega) (by omega))

theorem picks_filter {α : Type} (q : α → Bool) (l : List α) :
    picks (l.filter q) =
      (picks l).flatMap fun a => if q a.1 then [(a.1, a.2.filter q)] else [] := by
  induction l with
  | nil => rfl
  | cons a l ih =>
    simp only [picks, List.flatMap_cons, List.flatMap_map]
    cases ha : q a with
    | true =>
      rw [List.filter_cons_of_pos ha, picks, ih, List.map_flatMap]
      refine congrArg ((a, l.filter q) :: ·) (List.flatMap_congr fun b _ => ?_)
      cases q b.1 <;> simp [ha]
    | false =>
      rw [List.filter_cons_of_neg (by simp [ha]), ih]
      refine List.flatMap_congr fun b _ => ?_
      cases q b.1 <;> simp [ha]

/-- Where a step from a place of some kind is over an edge of some kind, and leads to a place of that
kind again, the other edges play no part. -/
theorem trailsOver_filter {K : NodeRef → Prop} {q : CallEdge → Bool}
    (hstep : ∀ e ∈ edges, ∀ x y, K x → d.follow e x = some y → q e = true ∧ K y) (hx : K x) :
    trailsOver d fuel (edges.filter q) x = trailsOver d fuel edges x := by
  induction fuel generalizing edges x with
  | zero => rfl
  | succ fuel ih =>
    rw [trailsOver, trailsOver, picks_filter, List.flatMap_assoc]
    refine List.flatMap_congr fun ⟨e, rest⟩ ha => ?_
    obtain ⟨s, t, hedges, hrest⟩ := mem_picks.1 ha
    have hperm : edges.Perm (e :: rest) := hedges ▸ hrest ▸ List.perm_middle
    dsimp only
    cases hfollow : d.follow e x with
    | none => cases q e <;> simp [hfollow]
    | some y =>
      obtain ⟨hq, hy⟩ := hstep e (hperm.mem_iff.2 List.mem_cons_self) x y hx hfollow
      have hothers : trailsOver d fuel (rest.filter q) y = trailsOver d fuel rest y :=
        ih (fun f hf => hstep f (hperm.mem_iff.2 (List.mem_cons_of_mem e hf))) hy
      simp only [hq, if_true, List.flatMap_singleton, hfollow, hothers]

end Graph
end CodeAtlas
