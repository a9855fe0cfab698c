/-!
# Tables in insertion order

A table is a list of pairs. Setting a key that is present changes its value in place; a new key goes
to the end. So the order of the keys is the order in which they were first set, which is the order
in which tables are shown.

* `get?_set_self`, `get?_set_of_ne`: reading after a write;
* `keys_set_of_mem`, `keys_set_of_not_mem`: a write keeps the order of the keys;
* `get?_erase_self`, `get?_erase_of_ne`: reading after a removal.
-/
namespace CodeAtlas

/-- Pairs in insertion order. -/
abbrev Table (κ α : Type) := List (κ × α)

namespace Table

variable {κ α : Type} [DecidableEq κ]

/-- The value of a key. -/
def get? : Table κ α → κ → Option α
  | [], _ => none
  | (k, a) :: t, x => if k = x then some a else get? t x

def has (t : Table κ α) (x : κ) : Bool := (t.get? x).isSome

/-- Sets the value of a key, in place if the key is present and at the end otherwise. -/
def set : Table κ α → κ → α → Table κ α
  | [], x, a => [(x, a)]
  | (k, b) :: t, x, a => if k = x then (k, a) :: t else (k, b) :: set t x a

/-- Without a key. -/
def erase : Table κ α → κ → Table κ α
  | [], _ => []
  | (k, b) :: t, x => if k = x then erase t x else (k, b) :: erase t x

def keys (t : Table κ α) : List κ := t.map Prod.fst

def setAll (t : Table κ α) (pairs : List (κ × α)) : Table κ α :=
  pairs.foldl (fun t (x, a) => t.set x a) t

def ofPairs (pairs : List (κ × α)) : Table κ α := setAll [] pairs

@[simp] theorem get?_set_self (t : Table κ α) (x : κ) (a : α) : (t.set x a).get? x = some a := by
  induction t with
  | nil => simp [set, get?]
  | cons p t ih => by_cases h : p.1 = x <;> simp [set, get?, h, ih]

theorem get?_set_of_ne (t : Table κ α) {x y : κ} (a : α) (h : x ≠ y) :
    (t.set x a).get? y = t.get? y := by
  induction t with
  | nil => simp [set, get?, h]
  | cons p t ih =>
    by_cases hp : p.1 = x
    · simp [set, get?, hp, h]
    · by_cases hy : p.1 = y <;> simp [set, get?, hp, hy, ih, Ne.symm h]

theorem keys_set_of_mem {t : Table κ α} {x : κ} (a : α) (h : x ∈ t.keys) :
    (t.set x a).keys = t.keys := by
  induction t with
  | nil => simp [keys] at h
  | cons p t ih =>
    by_cases hp : p.1 = x
    · simp [set, keys, hp]
    · have ht : x ∈ keys t := by
        simp only [keys, List.map_cons, List.mem_cons] at h
        exact h.resolve_left fun he => hp he.symm
      have := ih ht
      simp only [keys] at this
      simp [set, keys, hp, this]

theorem keys_set_of_not_mem {t : Table κ α} {x : κ} (a : α) (h : x ∉ t.keys) :
    (t.set x a).keys = t.keys ++ [x] := by
  induction t with
  | nil => simp [set, keys]
  | cons p t ih =>
    simp only [keys, List.map_cons, List.mem_cons, not_or] at h
    have := ih (by simpa [keys] using h.2)
    simp only [keys] at this
    simp [set, keys, Ne.symm h.1, this]

@[simp] theorem get?_erase_self (t : Table κ α) (x : κ) : (t.erase x).get? x = none := by
  induction t with
  | nil => rfl
  | cons p t ih => by_cases h : p.1 = x <;> simp [erase, get?, h, ih]

theorem get?_erase_of_ne (t : Table κ α) {x y : κ} (h : x ≠ y) :
    (t.erase x).get? y = t.get? y := by
  induction t with
  | nil => rfl
  | cons p t ih =>
    by_cases hp : p.1 = x
    · simp [erase, get?, hp, h, ih]
    · by_cases hy : p.1 = y <;> simp [erase, get?, hp, hy, ih, Ne.symm h]

end Table
end CodeAtlas
