import CodeAtlas.Form.Requests

/-!
# Accepted keys

A key is a beginning and forty-eight letters and digits. The check takes the end of a line for the
end of the key, so a key with one line end behind it passes too, and is kept with it.

* `ApiKey.isValid_iff`: the texts that pass;
* `Form.read_secret`: what the form of a key answers;
* `ApiKey.accepted_iff`: which keys are accepted.
-/
namespace CodeAtlas

namespace ApiKey
variable {key : String} {s : List Char}

def IsLetterOrDigit (c : Char) : Prop :=
  ('a' ≤ c ∧ c ≤ 'z') ∨ ('A' ≤ c ∧ c ≤ 'Z') ∨ ('0' ≤ c ∧ c ≤ '9')

/-- One of the two beginnings, forty-eight letters and digits, and nothing else. -/
def WellFormed (key : String) : Prop :=
  ∃ beginning ∈ ["sk-", "sk-proj-"], ∃ body : List Char, key.toList = beginning.toList ++ body ∧
    body.length = 48 ∧ ∀ c ∈ body, IsLetterOrDigit c

theorem isKeyChar_iff {c : Char} : isKeyChar c = true ↔ IsLetterOrDigit c := by
  have hrange {low high : Char} : (decide (low ≤ c) && decide (c ≤ high)) = true ↔
      low ≤ c ∧ c ≤ high := by
    simp only [Bool.and_eq_true, decide_eq_true_eq]
  have hupper : c.isUpper = true ↔ 'A' ≤ c ∧ c ≤ 'Z' := decide_eq_true_iff
  have hlower : c.isLower = true ↔ 'a' ≤ c ∧ c ≤ 'z' := hrange
  have hdigit : c.isDigit = true ↔ '0' ≤ c ∧ c ≤ '9' := hrange
  change (c.isUpper || c.isLower || c.isDigit) = true ↔ _
  rw [Bool.or_eq_true, Bool.or_eq_true, hupper, hlower, hdigit, IsLetterOrDigit, or_assoc,
    or_left_comm]

/-- A body, or a body and a line end. -/
theorem isBody_iff : isBody s = true ↔ ∃ body : List Char, (s = body ∨ s = body ++ ['\n']) ∧
    body.length = 48 ∧ ∀ c ∈ body, IsLetterOrDigit c := by
  have hfull {body : List Char} : (body.length == 48 && body.all isKeyChar) = true ↔
      body.length = 48 ∧ ∀ c ∈ body, IsLetterOrDigit c := by
    simp only [Bool.and_eq_true, beq_iff_eq, List.all_eq_true, isKeyChar_iff]
  unfold isBody
  by_cases hlast : s.getLast? = some '\n'
  · obtain ⟨front, rfl⟩ := List.getLast?_eq_some_iff.1 hlast
    rw [if_pos hlast, List.dropLast_concat, hfull]
    constructor
    · exact fun h => ⟨front, .inr rfl, h⟩
    · rintro ⟨body, rfl | h, hbody⟩
      · exact absurd (hbody.2 '\n' (by simp)) (by unfold IsLetterOrDigit; decide)
      · rwa [List.append_cancel_right h]
  · rw [if_neg hlast, hfull]
    constructor
    · exact fun h => ⟨s, .inl rfl, h⟩
    · rintro ⟨body, rfl | rfl, hbody⟩
      · exact hbody
      · exact absurd (by simp) hlast

/-- The texts that pass are keys, with one line end behind them or without. -/
theorem isValid_iff : isValid key = true ↔
    WellFormed key ∨ ∃ front, WellFormed front ∧ key = front ++ "\n" := by
  simp only [isValid, List.any_eq_true, Option.any_eq_true, Chars.after?_eq_some, isBody_iff]
  constructor
  · rintro ⟨beginning, hb, rest, hkey, body, rfl | rfl, hbody⟩
    · exact .inl ⟨beginning, hb, rest, hkey, hbody⟩
    · refine .inr ⟨String.ofList (beginning.toList ++ body),
        ⟨beginning, hb, body, String.toList_ofList, hbody⟩, ?_⟩
      rw [← String.toList_inj, hkey]
      simp
  · rintro (⟨beginning, hb, body, hkey, hbody⟩ | ⟨front, ⟨beginning, hb, body, hfront, hbody⟩, rfl⟩)
    · exact ⟨beginning, hb, body, hkey, body, .inl rfl, hbody⟩
    · exact ⟨beginning, hb, body ++ ['\n'], by simp [hfront], body, .inr rfl, hbody⟩

end ApiKey

namespace Form

/-- The members of a request that names a key, for the only provider there is. -/
structure NamesKey (members : List (String × Json)) (key : String) : Prop where
  key : Table.get? members "api_key" = some (.str key)
  provider : Table.get? members "provider" = none ∨
    Table.get? members "provider" = some (.str "openai")

theorem read_secret {members : List (String × Json)} {key : String} (h : NamesKey members key) :
    secret.read (.obj members) =
      if ApiKey.isValid key then .ok (.obj [("api_key", .str key), ("provider", .str "openai")])
      else .error (.invalidFields [("api_key", .rejected)]) := by
  have hfields : secret.fields = [("api_key", .required, .checked ApiKey.isValid),
      ("provider", .usual (.str "openai"), .constant "openai")] := rfl
  have hread : Shape.readFields secret.fields members =
      if ApiKey.isValid key then .ok [("api_key", .str key), ("provider", .str "openai")]
      else .error [("api_key", .rejected)] := by
    rw [hfields]
    rcases h.provider with hprovider | hprovider <;> cases hvalid : ApiKey.isValid key <;>
      simp [Shape.readFields, Shape.read, Shape.textOf?, Shape.inField, Json.checkKey, h.key,
        hprovider, hvalid]
  have hfinite : ¬ secret.fields.any (isEndless members) = true := Bool.false_ne_true
  rw [read, readMembers, if_neg hfinite, hread]
  cases ApiKey.isValid key <;> rfl

end Form

namespace ApiKey

/-- **Accepted keys**: a text passes, and a request with it is accepted, exactly if it is a key or a
key and one line end. What is accepted is kept as it is. -/
theorem accepted_iff (key : String) :
    (isValid key = true ↔ WellFormed key ∨ ∃ front, WellFormed front ∧ key = front ++ "\n") ∧
    ∀ members, Form.NamesKey members key →
      ((∃ v, Form.secret.read (.obj members) = .ok v) ↔
        WellFormed key ∨ ∃ front, WellFormed front ∧ key = front ++ "\n") ∧
      ∀ v, Form.secret.read (.obj members) = .ok v → v.getD "api_key" = .str key := by
  refine ⟨isValid_iff, fun members h => ?_⟩
  rw [Form.read_secret h, ← isValid_iff]
  split
  · next hvalid =>
    refine ⟨iff_of_true ⟨_, rfl⟩ hvalid, fun v hv => ?_⟩
    cases hv
    rfl
  · next hinvalid =>
    exact ⟨iff_of_false (fun ⟨_, hv⟩ => by cases hv) hinvalid, fun v hv => by cases hv⟩

def sampleKey : String := "sk-" ++ String.ofList (List.replicate 48 'A')

theorem wellFormed_sampleKey : WellFormed sampleKey := by
  refine ⟨"sk-", by simp, List.replicate 48 'A', by simp [sampleKey], by simp, fun c hc => ?_⟩
  rw [List.eq_of_mem_replicate hc]
  unfold IsLetterOrDigit
  decide

theorem sampleKey_accepted : Form.NamesKey [("api_key", .str sampleKey)] sampleKey ∧
    ∃ v, Form.secret.read (.obj [("api_key", .str sampleKey)]) = .ok v := by
  have hnames : Form.NamesKey [("api_key", .str sampleKey)] sampleKey := ⟨rfl, .inl rfl⟩
  exact ⟨hnames, (((accepted_iff sampleKey).2 _ hnames).1.2 (.inl wellFormed_sampleKey))⟩

/-- A key with a line end behind it is no key, and passes. -/
theorem line_end_accepted : isValid (sampleKey ++ "\n") = true ∧ ¬ WellFormed (sampleKey ++ "\n") := by
  refine ⟨isValid_iff.2 (.inr ⟨_, wellFormed_sampleKey, rfl⟩), ?_⟩
  rintro ⟨beginning, hb, body, hkey, hlength, hbody⟩
  have hmem : '\n' ∈ beginning.toList ++ body := by simp [← hkey]
  rcases List.mem_append.1 hmem with hfront | hback
  · simp only [List.mem_cons, List.not_mem_nil, or_false] at hb
    rcases hb with rfl | rfl <;> simp at hfront
  · exact absurd (hbody _ hback) (by unfold IsLetterOrDigit; decide)

end ApiKey
end CodeAtlas
