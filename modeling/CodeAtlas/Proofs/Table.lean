import CodeAtlas.Table

/-!
# Tables whose keys occur once

A table made by `set` and `erase` from nothing has each key once (`nodup_set`, `nodup_erase`). In
such a table a pair is a member if and only if its value is what the key reads as
(`get?_eq_some_iff`). A key that was set several times reads as what was set last, and so does its
image in a table of images (`get?_setAll_map`).
-/
namespace CodeAtlas.Table

variable {κ α : Type} [DecidableEq κ]

theorem mem_of_get? {t : Table κ α} {x : κ} {a : α} (h : t.get? x = some a) : (x, a) ∈ t := by
  induction t with
  | nil => cases h
  | cons p t ih =>
    obtain ⟨k, b⟩ := p
    by_cases hk : k = x
    · subst hk
      simp only [get?, if_true, Option.some.injEq] at h
      subst h; exact List.mem_cons_self
    · simp only [get?, hk, if_false] at h
      exact List.mem_cons_of_mem _ (ih h)

theorem get?_eq_some_iff {t : Table κ α} (hn : t.keys.Nodup) {x : κ} {a : α} :
    t.get? x = some a ↔ (x, a) ∈ t := by
  refine ⟨mem_of_get?, fun h => ?_⟩
  induction t with
  | nil => cases h
  | cons p t ih =>
    obtain ⟨k, b⟩ := p
    simp only [keys, List.map_cons, List.nodup_cons] at hn
    rcases List.mem_cons.1 h with he | ht
    · simp only [Prod.mk.injEq] at he
      obtain ⟨rfl, rfl⟩ := he
      simp [get?]
    · have hk : k ≠ x := by
        rintro rfl
        exact hn.1 (List.mem_map.2 ⟨(k, a), ht, rfl⟩)
      simp only [get?, hk, if_false]
      exact ih hn.2 ht

theorem mem_set {t : Table κ α} {x : κ} {a : α} {p : κ × α} (h : p ∈ t.set x a) :
    p ∈ t ∨ p = (x, a) := by
  induction t with
  | nil => exact Or.inr (List.mem_singleton.1 h)
  | cons q t ih =>
    obtain ⟨k, b⟩ := q
    by_cases hk : k = x
    · subst hk
      simp only [set, if_true, List.mem_cons] at h
      exact h.elim Or.inr fun ht => Or.inl (List.mem_cons_of_mem _ ht)
    · simp only [set, hk, if_false, List.mem_cons] at h
      rcases h with rfl | ht
      · exact Or.inl List.mem_cons_self
      · exact (ih ht).imp_left (List.mem_cons_of_mem _)

theorem mem_setAll {ps : List (κ × α)} {p : κ × α} :
    ∀ {t : Table κ α}, p ∈ t.setAll ps → p ∈ t ∨ p ∈ ps := by
  induction ps with
  | nil => exact Or.inl
  | cons q ps ih =>
    intro t h
    rcases ih (t := t.set q.1 q.2) h with ht | hp
    · rcases mem_set ht with ht | rfl
      · exact Or.inl ht
      · exact Or.inr List.mem_cons_self
    · exact Or.inr (List.mem_cons_of_mem q hp)

theorem nodup_set {t : Table κ α} (hn : t.keys.Nodup) (x : κ) (a : α) : (t.set x a).keys.Nodup := by
  by_cases hx : x ∈ t.keys
  · rw [keys_set_of_mem a hx]; exact hn
  · rw [keys_set_of_not_mem a hx, List.nodup_append]
    refine ⟨hn, by simp, ?_⟩
    intro y hy z hz he
    simp only [List.mem_singleton] at hz
    exact hx (hz ▸ he ▸ hy)

theorem get?_set (t : Table κ α) (x y : κ) (a : α) :
    (t.set x a).get? y = if x = y then some a else t.get? y := by
  by_cases h : x = y
  · rw [if_pos h, ← h, get?_set_self]
  · rw [if_neg h, get?_set_of_ne t a h]

theorem has_iff {t : Table κ α} {x : κ} : t.has x = true ↔ ∃ a, t.get? x = some a :=
  Option.isSome_iff_exists

theorem has_set_of_has {t : Table κ α} {y : κ} (h : t.has y = true) (x : κ) (a : α) :
    (t.set x a).has y = true := by
  rw [has, get?_set]
  split
  · rfl
  · exact h

theorem has_set_self (t : Table κ α) (x : κ) (a : α) : (t.set x a).has x = true := by
  rw [has, get?_set_self]
  rfl

theorem mem_keys_iff_has {t : Table κ α} {x : κ} : x ∈ t.keys ↔ t.has x = true := by
  rw [has_iff]
  constructor
  · intro h
    induction t with
    | nil => cases h
    | cons p t ih =>
      by_cases hp : p.1 = x
      · exact ⟨p.2, by simp [get?, hp]⟩
      · obtain ⟨a, ha⟩ := ih ((List.mem_cons.1 h).resolve_left (Ne.symm hp))
        exact ⟨a, by simp [get?, hp, ha]⟩
  · rintro ⟨a, ha⟩
    exact List.mem_map.2 ⟨_, mem_of_get? ha, rfl⟩

theorem mem_keys_iff {t : Table κ α} {x : κ} : x ∈ t.keys ↔ ∃ a, t.get? x = some a :=
  mem_keys_iff_has.trans has_iff

/-- Setting a key again to the same value changes nothing. -/
theorem set_set (t : Table κ α) (x : κ) (a : α) : (t.set x a).set x a = t.set x a := by
  induction t with
  | nil => simp [set]
  | cons p t ih => by_cases hp : p.1 = x <;> simp [set, hp, ih]

theorem nodup_setAll (ps : List (κ × α)) :
    ∀ {t : Table κ α}, t.keys.Nodup → (t.setAll ps).keys.Nodup := by
  induction ps with
  | nil => exact id
  | cons p ps ih => exact fun hn => ih (nodup_set hn p.1 p.2)

/-- A key that is set has a value. -/
theorem exists_get?_setAll {ps : List (κ × α)} {x : κ} :
    ∀ {t : Table κ α}, (∃ a, t.get? x = some a) ∨ (∃ a, (x, a) ∈ ps) →
      ∃ a, (t.setAll ps).get? x = some a := by
  induction ps with
  | nil =>
    intro t h
    exact h.resolve_right fun ⟨a, ha⟩ => by cases ha
  | cons p ps ih =>
    obtain ⟨k, b⟩ := p
    intro t h
    refine ih (t := t.set k b) ?_
    rw [get?_set]
    by_cases hk : k = x
    · exact Or.inl ⟨b, if_pos hk⟩
    · rw [if_neg hk]
      refine h.imp_right fun ⟨a, ha⟩ => ⟨a, (List.mem_cons.1 ha).resolve_left fun he => ?_⟩
      exact hk (Prod.mk.inj he).1.symm

/-- Setting what a function makes of values, against setting the values. -/
theorem get?_setAll_map {β : Type} (f : α → β) (ps : List (κ × α)) :
    ∀ {t : Table κ α} {u : Table κ β}, (∀ x, u.get? x = (t.get? x).map f) →
      ∀ x, (u.setAll (ps.map fun p => (p.1, f p.2))).get? x = ((t.setAll ps).get? x).map f := by
  induction ps with
  | nil => exact fun h => h
  | cons p ps ih =>
    intro t u h
    refine ih (t := t.set p.1 p.2) (u := u.set p.1 (f p.2)) fun x => ?_
    rw [get?_set, get?_set]
    split
    · rfl
    · exact h x

theorem erase_eq_filter (t : Table κ α) (x : κ) : t.erase x = t.filter fun p => p.1 ≠ x := by
  induction t with
  | nil => rfl
  | cons p t ih => by_cases hk : p.1 = x <;> simp [erase, hk, ih]

theorem nodup_erase {t : Table κ α} (hn : t.keys.Nodup) (x : κ) : (t.erase x).keys.Nodup := by
  rw [erase_eq_filter]
  exact (List.filter_sublist.map Prod.fst).nodup hn

theorem eq_of_mem_set {t : Table κ α} (hn : t.keys.Nodup) {x : κ} {a b : α}
    (h : (x, b) ∈ t.set x a) : b = a := by
  have hb := (get?_eq_some_iff (nodup_set hn x a)).2 h
  rw [get?_set_self] at hb
  exact (Option.some.inj hb).symm

theorem get?_map {β : Type} (f : α → β) (t : Table κ α) (x : κ) :
    get? (t.map fun p => (p.1, f p.2)) x = (t.get? x).map f := by
  induction t with
  | nil => rfl
  | cons p t ih => by_cases hp : p.1 = x <;> simp [get?, hp, ih]

/-- A value that takes the place of another is not told from it by what does not tell them apart. -/
theorem map_set {β : Type} {f : α → β} {t : Table κ α} {x : κ} {a b : α}
    (h : t.get? x = some a) (hf : f b = f a) :
    (t.set x b).map (fun p => (p.1, f p.2)) = t.map fun p => (p.1, f p.2) := by
  induction t with
  | nil => cases h
  | cons p t ih =>
    by_cases hp : p.1 = x
    · simp only [get?, hp, if_true, Option.some.injEq] at h
      simp [set, hp, hf, h]
    · simp only [get?, hp, if_false] at h
      simp [set, hp, ih h]

theorem set_of_not_mem {t : Table κ α} {x : κ} (a : α) (h : x ∉ t.keys) :
    t.set x a = t ++ [(x, a)] := by
  induction t with
  | nil => rfl
  | cons p t ih =>
    simp only [keys, List.map_cons, List.mem_cons, not_or] at h
    simp [set, Ne.symm h.1, ih h.2]

theorem setAll_of_nodup (ps : List (κ × α)) : ∀ t : Table κ α, (keys (t ++ ps)).Nodup →
    t.setAll ps = t ++ ps := by
  induction ps with
  | nil =>
    intro t _
    rw [List.append_nil]
    rfl
  | cons p ps ih =>
    intro t h
    have hset : t.set p.1 p.2 = t ++ [p] := by
      refine set_of_not_mem p.2 fun hmem => ?_
      rw [keys, List.map_append, List.nodup_append] at h
      exact h.2.2 p.1 hmem p.1 List.mem_cons_self rfl
    have hrest := ih (t ++ [p]) (by simpa using h)
    rw [List.append_assoc, List.singleton_append] at hrest
    rw [← hrest, ← hset]
    rfl

/-- Pairs whose keys are distinct are a table as they stand. -/
theorem ofPairs_of_nodup {ps : List (κ × α)} (h : (ps.map Prod.fst).Nodup) : ofPairs ps = ps :=
  setAll_of_nodup ps [] h

end CodeAtlas.Table
