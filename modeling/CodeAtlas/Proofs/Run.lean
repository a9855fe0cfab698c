import CodeAtlas.World
import Mathlib.Logic.Function.Iterate

/-!
# Reasoning about runs

`Run.ends r w` is how a run ends in a world: its answer or its failure, and the world after it. One
equation for each way to build a run reduces `ends` to the parts.

A property of runs `Composes` if it passes on to the runs that are made of runs with the property;
then it passes on to loops.

`Keeps part r` says that a run leaves a part of the world as it is, `Leads R r` that it makes of a
world one to which that is related by `R`, and `Respects R r` that worlds which are alike in the
sense of `R` give one answer and stay alike.

Reading runs are described by what they give on a whole class of worlds. `Gives P r x` says that in
every world of `P` the run `r` ends with `x` and stays in `P`; `Settled P r` says that there is such
an `x`, so that the answer depends on nothing but `P`.

* `Gives.bind`, `Gives.bind_error`: a run after another one;
* `Gives.getBind`: a run that looks at the world, where `P` fixes what it looks at;
* `Settled.bind`: runs one after the other, for answers that are not spelled out.

`Succeeds P Q r` says that from every world of `P` the run ends well, with an answer of `Q` and in a
world of `P`. `Spares r` says that it is never refused, and `Breaks r` that it is refused only as a
failure.
-/
namespace CodeAtlas

/-- The world in which there is nothing. -/
def World.vacant : World where
  settings := []
  files := .empty
  unwritable := []
  unremovable := []
  trees := []
  graph := .empty
  troubles := []
  lineage := []
  tracing := false
  store := .empty
  deletesJoined := false
  hosted := []
  accounts := []
  clones := []
  replies := []
  crewReply := ""
  documents := []
  secrets := []
  tokens := []
  passwords := []
  knowledge := .null
  usage := []
  subscriptions := []
  usageFails := false
  requestNotes := []
  log := []

/-- A folder with one source file. -/
def World.oneSource (src : String) (tree : Node) : World :=
  { World.vacant with
    files := .named [("/p/m.py", src.toUTF8)] ["/p"]
    trees := [(src, tree)] }

/-- The main branch of a repository as a project of a user. -/
def Project.sample (id : Int) (owner : String) : Project where
  id
  directory := some ("/p/" ++ owner)
  isDefault := some false
  name := some "demo-main"
  properties := none
  repository := some "o/demo"
  branch := some "main"
  owner
  commit := some "c0"
  isDeleted := some false
  status := some .ready

namespace Run

variable {α β : Type}

/-- What follows a reading that may fail only matters if it did not. -/
theorem bind_eq_ok {x : Except Failure α} {f : α → Except Failure β} {b : β}
    (h : (x >>= f) = .ok b) : ∃ a, x = .ok a ∧ f a = .ok b := by
  cases x with
  | error e => cases h
  | ok a => exact ⟨a, rfl, h⟩

theorem eq_ok_of_toOption {x : Except Failure α} {a : α} (h : x.toOption = some a) : x = .ok a := by
  cases x with
  | error e => cases h
  | ok b => exact congrArg Except.ok (Option.some.inj h)

theorem isSome_toOption_iff {x : Except Failure α} : x.toOption.isSome = true ↔ ∃ a, x = .ok a := by
  cases x <;> simp [Except.toOption]

theorem ok_bind (a : α) (f : α → Except Failure β) : (Except.ok a >>= f) = f a := rfl

section
variable {f : β → α → Except Failure β}

/-- What every step keeps holds at the end. -/
theorem foldlM_keeps {P : β → Prop} {l : List α}
    (hstep : ∀ a ∈ l, ∀ b c, P b → f b a = .ok c → P c) :
    ∀ {b c : β}, P b → l.foldlM f b = .ok c → P c := by
  induction l with
  | nil =>
    intro b c hb h
    exact Except.ok.inj h ▸ hb
  | cons a l ih =>
    intro b c hb h
    rw [List.foldlM_cons] at h
    obtain ⟨d, hd, hrest⟩ := bind_eq_ok h
    have hkept := hstep a List.mem_cons_self b d hb hd
    exact ih (fun e he => hstep e (List.mem_cons_of_mem a he)) hkept hrest

theorem exists_foldlM {l : List α} (hstep : ∀ a ∈ l, ∀ b, ∃ c, f b a = .ok c) :
    ∀ b, ∃ c, l.foldlM f b = .ok c := by
  induction l with
  | nil => exact fun b => ⟨b, rfl⟩
  | cons a l ih =>
    intro b
    obtain ⟨c, hc⟩ := hstep a List.mem_cons_self b
    rw [List.foldlM_cons, hc]
    exact ih (fun e he => hstep e (List.mem_cons_of_mem a he)) c

/-- The step for a member, and the steps before and after it. -/
theorem foldlM_at {l : List α} {a : α} (ha : a ∈ l) {b c : β} (h : l.foldlM f b = .ok c) :
    ∃ l₁ l₂ b₁ b₂, l = l₁ ++ a :: l₂ ∧ l₁.foldlM f b = .ok b₁ ∧ f b₁ a = .ok b₂ ∧
      l₂.foldlM f b₂ = .ok c := by
  obtain ⟨l₁, l₂, rfl⟩ := List.append_of_mem ha
  rw [List.foldlM_append] at h
  obtain ⟨b₁, h₁, h⟩ := bind_eq_ok h
  rw [List.foldlM_cons] at h
  obtain ⟨b₂, h₂, h₃⟩ := bind_eq_ok h
  exact ⟨l₁, l₂, b₁, b₂, rfl, h₁, h₂, h₃⟩

end

/-- How a run ends in a world: the answer or the failure, and the world after it. -/
def ends (r : Run α) (w : World) : Except Failure α × World := r.run.run w

/-- The answer of a run in a world. -/
def answer (r : Run α) (w : World) : Except Failure α := (r.ends w).1

/-- The world after a run. -/
def after (r : Run α) (w : World) : World := (r.ends w).2

/-- How a run with a known answer ends. -/
theorem ends_of_answer {r : Run α} {w : World} {x : Except Failure α} (h : r.answer w = x) :
    r.ends w = (x, r.after w) := Prod.ext h rfl

@[simp] theorem ends_pure (a : α) (w : World) : (pure a : Run α).ends w = (.ok a, w) := rfl

@[simp] theorem ends_get (w : World) : (get : Run World).ends w = (.ok w, w) := rfl

@[simp] theorem ends_lift (x : Except Failure α) (w : World) :
    (liftM x : Run α).ends w = (x, w) := rfl

theorem ends_bind (r : Run α) (f : α → Run β) (w : World) :
    (r >>= f).ends w = match (r.ends w).1 with
      | .ok a => (f a).ends (r.ends w).2
      | .error e => (.error e, (r.ends w).2) := by
  change ExceptT.bindCont f (r w).1 (r w).2 = match (r w).1 with
    | .ok a => f a (r w).2
    | .error e => (.error e, (r w).2)
  cases (r w).1 <;> rfl

theorem ends_bind_lift (x : Except Failure α) (f : α → Run β) (w : World) :
    ((liftM x : Run α) >>= f).ends w = match x with
      | .ok a => (f a).ends w
      | .error e => (.error e, w) :=
  ends_bind _ f w

theorem ends_bind_ok {r : Run α} {a : α} {w v : World} (f : α → Run β)
    (h : r.ends w = (.ok a, v)) : (r >>= f).ends w = (f a).ends v := by
  rw [ends_bind, h]

theorem ends_bind_error {r : Run α} {e : Failure} {w v : World} (f : α → Run β)
    (h : r.ends w = (.error e, v)) : (r >>= f).ends w = (.error e, v) := by
  rw [ends_bind, h]

theorem lift_ok_bind (a : α) (f : α → Run β) :
    ((liftM (Except.ok a : Except Failure α) : Run α) >>= f) = f a := rfl

/-- What a run that ended well did first, and what it did then. -/
theorem ends_bind_eq_ok {r : Run α} {f : α → Run β} {w v : World} {b : β}
    (h : (r >>= f).ends w = (.ok b, v)) :
    ∃ a u, r.ends w = (.ok a, u) ∧ (f a).ends u = (.ok b, v) := by
  rw [ends_bind] at h
  cases hr : (r.ends w).1 with
  | error e => rw [hr] at h; cases h
  | ok a =>
    rw [hr] at h
    exact ⟨a, _, Prod.ext hr rfl, h⟩

/-- Where a run that failed did so: at first, or in what it did then. -/
theorem ends_bind_eq_error {r : Run α} {f : α → Run β} {w v : World} {e : Failure}
    (h : (r >>= f).ends w = (.error e, v)) :
    r.ends w = (.error e, v) ∨ ∃ a u, r.ends w = (.ok a, u) ∧ (f a).ends u = (.error e, v) := by
  rw [ends_bind] at h
  cases hr : (r.ends w).1 with
  | error e' =>
    rw [hr] at h
    cases h
    exact .inl (Prod.ext hr rfl)
  | ok a =>
    rw [hr] at h
    exact .inr ⟨a, _, Prod.ext hr rfl, h⟩

theorem answer_bind_ok {r : Run α} {a : α} {w v : World} (f : α → Run β)
    (h : r.ends w = (.ok a, v)) : (r >>= f).answer w = (f a).answer v :=
  congrArg Prod.fst (ends_bind_ok f h)

theorem answer_bind_error {r : Run α} {e : Failure} {w : World} (f : α → Run β)
    (h : r.answer w = .error e) :
    (r >>= f).answer w = .error e := by
  have hends : r.ends w = (.error e, (r.ends w).2) := Prod.ext h rfl
  rw [answer, ends_bind_error f hends]

theorem answer_bind_pure (r : Run α) (g : α → β) (w : World) :
    (r >>= fun a => pure (g a)).answer w = (r.answer w).map g := by
  unfold answer
  rw [ends_bind]
  cases (r.ends w).1 <;> rfl

/-- Two worlds in which a run ends alike, and after it something that does not look at the world. -/
theorem answer_bind_congr {r : Run α} {f : α → Run β} {w v : World}
    (h : r.answer w = r.answer v)
    (hf : ∀ a w' v', (f a).answer w' = (f a).answer v') :
    (r >>= f).answer w = (r >>= f).answer v := by
  cases hw : r.answer w with
  | error e => rw [answer_bind_error f hw, answer_bind_error f (h ▸ hw)]
  | ok a =>
    have hends {u : World} (hu : r.answer u = .ok a) : r.ends u = (.ok a, r.after u) :=
      Prod.ext hu rfl
    rw [answer_bind_ok f (hends hw), answer_bind_ok f (hends (h ▸ hw))]
    exact hf a _ _

theorem after_bind (r : Run α) (f : α → Run β) (w : World) :
    (r >>= f).after w = match r.answer w with
      | .ok a => (f a).after (r.after w)
      | .error _ => r.after w := by
  unfold after answer
  rw [ends_bind]
  cases (r.ends w).1 <;> rfl

@[simp] theorem ends_outcome (r : Run α) (w : World) :
    r.outcome.ends w = (.ok (r.ends w).1, (r.ends w).2) := by
  unfold outcome ends
  simp only [tryCatch, tryCatchThe, MonadExceptOf.tryCatch, ExceptT.tryCatch, ExceptT.run,
    ExceptT.mk, StateT.run, bind, ExceptT.bind, StateT.bind, ExceptT.bindCont]
  obtain ⟨x, v⟩ := r w
  cases x <;> rfl

@[simp] theorem ends_note (e : Effect) (w : World) :
    (note e).ends w = (.ok (), { w with log := w.log ++ [e] }) := rfl

@[simp] theorem ends_look (f : Store → α) (w : World) :
    (look f).ends w = (.ok (f w.store), w) := rfl

theorem ends_alterWith (f : Store → Except Failure (α × Store)) (w : World) :
    (alterWith f).ends w = match f w.store with
      | .ok (a, s) => (.ok a, { w with store := s })
      | .error e => (.error e, w) := by
  unfold alterWith
  rw [ends_bind_ok _ (ends_get w), ends_bind, ends_lift]
  cases f w.store <;> rfl

theorem ends_alter (f : Store → Except Failure Store) (w : World) :
    (alter f).ends w = match f w.store with
      | .ok s => (.ok (), { w with store := s })
      | .error e => (.error e, w) := by
  unfold alter
  rw [ends_bind_ok _ (ends_get w), ends_bind_lift]
  cases f w.store <;> rfl

/-- What only looks at the outcome of a run and answers changes nothing more. -/
theorem after_outcome_bind (r : Run α) {k : Except Failure α → Run β}
    (hk : ∀ x v, (k x).after v = v) (w : World) : (r.outcome >>= k).after w = r.after w := by
  rw [after, ends_bind_ok _ (ends_outcome r w)]
  exact hk _ _

theorem after_bind_pure (r : Run α) (f : α → β) (w : World) :
    (r >>= fun a => pure (f a)).after w = r.after w := by
  rw [after_bind]
  cases r.answer w <;> rfl

theorem gather_congr {f g : α → Run (List β)} : ∀ {l : List α},
    (∀ a ∈ l, f a = g a) → gather f l = gather g l
  | [], _ => rfl
  | a :: l, h => by
    unfold gather
    rw [h a List.mem_cons_self, gather_congr fun b hb => h b (List.mem_cons_of_mem a hb)]

/-- Members that give nothing can be left out. -/
theorem gather_filter {g : α → Run (List β)} {k : α → Bool} : ∀ {l : List α}, (∀ a ∈ l, k a = false → g a = pure []) →
    gather g l = gather g (l.filter k)
  | [], _ => rfl
  | a :: l, h => by
    have hrest := gather_filter fun b hb => h b (List.mem_cons_of_mem a hb)
    cases hk : k a with
    | true => rw [List.filter_cons_of_pos hk, gather, gather, hrest]
    | false =>
      rw [List.filter_cons_of_neg (by simp [hk]), gather, h a List.mem_cons_self hk, pure_bind,
        ← hrest]
      simp

theorem gather_singleton (g : α → Run (List β)) (a : α) : gather g [a] = g a := by
  simp [gather]

/-! ## Properties that pass on -/

/-- A property of runs that answers have, and with a run and all that may follow it the two together. -/
structure Composes (C : (α : Type) → Run α → Prop) : Prop where
  pure : ∀ {α : Type} (a : α), C α (pure a)
  bind : ∀ {α β : Type} {r : Run α} {f : α → Run β}, C α r → (∀ a, C β (f a)) → C β (r >>= f)

namespace Composes
variable {C : (α : Type) → Run α → Prop} (hC : Composes C)
include hC

theorem forM {f : α → Run Unit} :
    ∀ {l : List α}, (∀ a ∈ l, C Unit (f a)) → C Unit (l.forM f)
  | [], _ => hC.pure ()
  | a :: _, h => hC.bind (h a List.mem_cons_self) fun _ =>
      forM fun b hb => h b (List.mem_cons_of_mem a hb)

theorem mapM {f : α → Run β} {l : List α} (h : ∀ a ∈ l, C β (f a)) : C (List β) (l.mapM f) := by
  induction l with
  | nil => exact hC.pure []
  | cons a l ih =>
    rw [List.forall_mem_cons] at h
    rw [List.mapM_cons]
    exact hC.bind h.1 fun _ => hC.bind (ih h.2) fun _ => hC.pure _

theorem gather {f : α → Run (List β)} :
    ∀ {l : List α}, (∀ a ∈ l, C (List β) (f a)) → C (List β) (gather f l)
  | [], _ => hC.pure []
  | a :: _, h => hC.bind (h a List.mem_cons_self) fun _ =>
      hC.bind (gather fun b hb => h b (List.mem_cons_of_mem a hb)) fun _ => hC.pure _

theorem filterMapM {f : α → Run (Option β)} {l : List α} (h : ∀ a ∈ l, C (Option β) (f a)) :
    C (List β) (l.filterMapM f) := by
  induction l with
  | nil => exact hC.pure []
  | cons a l ih =>
    rw [List.forall_mem_cons] at h
    rw [List.filterMapM_cons]
    refine hC.bind h.1 fun b => ?_
    cases b with
    | none => exact ih h.2
    | some b => exact hC.bind (ih h.2) fun _ => hC.pure _

theorem foldlM {f : β → α → Run β} (h : ∀ b a, C β (f b a)) :
    ∀ (l : List α) (b : β), C β (l.foldlM f b)
  | [], b => hC.pure b
  | a :: l, b => hC.bind (h b a) fun b => foldlM h l b

end Composes

/-! ## What a run leaves as it is -/

/-- A run leaves a part of the world as it is, whether it ends well or not. -/
def Keeps {γ : Type} (part : World → γ) (r : Run α) : Prop := ∀ w, part (r.ends w).2 = part w

section
variable {γ : Type} {part : World → γ}

/-- What a run that keeps a part of the world leaves of it. -/
theorem Keeps.of_ends {r : Run α} (h : Keeps part r) {x : Except Failure α} {w v : World}
    (hends : r.ends w = (x, v)) : part v = part w :=
  (congrArg (part ∘ Prod.snd) hends).symm.trans (h w)

theorem Keeps.pure (a : α) : Keeps part (pure a : Run α) := fun _ => rfl

theorem Keeps.throw (e : Failure) : Keeps part (throw e : Run α) := fun _ => rfl

theorem Keeps.lift (x : Except Failure α) : Keeps part (liftM x : Run α) := fun _ => rfl

theorem Keeps.get : Keeps part (get : Run World) := fun _ => rfl

theorem Keeps.look (f : Store → α) : Keeps part (look f) := fun _ => rfl

theorem Keeps.setting? (name : String) : Keeps part (setting? name) := fun _ => rfl

theorem Keeps.modify {f : World → World} (h : ∀ w, part (f w) = part w) :
    Keeps part (modify f : Run Unit) := h

theorem Keeps.outcome {r : Run α} (h : Keeps part r) : Keeps part r.outcome := by
  intro w
  rw [ends_outcome]
  exact h w

theorem Keeps.bind {r : Run α} {f : α → Run β} (hr : Keeps part r) (hf : ∀ a, Keeps part (f a)) :
    Keeps part (r >>= f) := by
  intro w
  rw [ends_bind]
  cases (r.ends w).1 with
  | error e => exact hr w
  | ok a => exact (hf a _).trans (hr w)

/-- A run that is refused under a condition, and goes on otherwise. -/
theorem Keeps.check {c : Prop} [Decidable c] {e : Failure} {rest : PUnit → Run α}
    (h : ∀ u, Keeps part (rest u)) :
    Keeps part (if c then MonadExcept.throw e >>= rest else rest ⟨⟩) := by
  split
  · exact (Keeps.throw e).bind h
  · exact h _

theorem Keeps.composes : Composes fun _ r => Keeps part r := ⟨Keeps.pure, Keeps.bind⟩

/-- A run after one that leaves a part of the world as it is. -/
theorem Keeps.bind_cases {r : Run α} {f : α → Run β}
    (hr : Keeps part r) {w v : World} {x : Except Failure β} (h : (r >>= f).ends w = (x, v)) :
    (∃ e, x = .error e) ∧ part v = part w ∨
      ∃ a u, r.ends w = (.ok a, u) ∧ part u = part w ∧ (f a).ends u = (x, v) := by
  rw [ends_bind] at h
  cases hends : r.ends w with
  | mk y u =>
    rw [hends] at h
    cases y with
    | error e =>
      cases h
      exact .inl ⟨⟨e, rfl⟩, hr.of_ends hends⟩
    | ok a => exact .inr ⟨a, u, rfl, hr.of_ends hends, h⟩

end

/-! ## What a run makes of a world -/

section
variable {R : World → World → Prop}

/-- A relation that holds between a world and itself, and passes on from change to change. -/
structure Passes (R : World → World → Prop) : Prop where
  refl : ∀ w, R w w
  trans : ∀ {u v w}, R u v → R v w → R u w

/-- Every world is related to the one that the run makes of it, whether it ends well or not. -/
def Leads (R : World → World → Prop) (r : Run α) : Prop := ∀ w, R w (r.after w)

theorem Leads.of_ends {r : Run α} (h : Leads R r) {w v : World} {x : Except Failure α}
    (hends : r.ends w = (x, v)) : R w v := by
  have hv := h w
  rwa [after, hends] at hv

theorem Passes.pure (hR : Passes R) (a : α) : Leads R (pure a : Run α) := hR.refl

theorem Passes.lift (hR : Passes R) (x : Except Failure α) : Leads R (liftM x : Run α) := hR.refl

/-- A run that goes on with what was read, if it could be read. -/
theorem Passes.lift_bind (hR : Passes R) {x : Except Failure α} {f : α → Run β}
    (hf : ∀ a, x = .ok a → Leads R (f a)) : Leads R ((liftM x : Run α) >>= f) := by
  intro w
  rw [after, ends_bind_lift]
  cases x with
  | error e => exact hR.refl w
  | ok a => exact hf a rfl w

theorem Passes.bind (hR : Passes R) {r : Run α} {f : α → Run β} (hr : Leads R r)
    (hf : ∀ a, Leads R (f a)) : Leads R (r >>= f) := by
  intro w
  rw [after_bind]
  cases r.answer w with
  | error e => exact hr w
  | ok a => exact hR.trans (hr w) (hf a _)

theorem Passes.composes (hR : Passes R) : Composes fun _ r => Leads R r := ⟨hR.pure, hR.bind⟩

/-- The run for a member of a list, on the way of a run over the list that ends well. -/
theorem Passes.exists_of_forM (hR : Passes R) {f : α → Run Unit} {l : List α}
    (hl : ∀ a ∈ l, Leads R (f a)) {w v : World} (h : (l.forM f).ends w = (.ok (), v)) {a : α}
    (ha : a ∈ l) : ∃ u x, R w u ∧ (f a).ends u = (.ok (), x) ∧ R x v := by
  induction l generalizing w with
  | nil => cases ha
  | cons b l ih =>
    rw [List.forall_mem_cons] at hl
    obtain ⟨_, u, hb, htail⟩ := ends_bind_eq_ok (f := fun _ => l.forM f) h
    rcases List.mem_cons.1 ha with rfl | ha
    · exact ⟨w, u, hR.refl w, hb, (hR.composes.forM hl.2).of_ends htail⟩
    · obtain ⟨u', x, hu', ha, hx⟩ := ih hl.2 htail ha
      exact ⟨u', x, hR.trans (hl.1.of_ends hb) hu', ha, hx⟩

theorem Passes.exists_of_gather (hR : Passes R) {f : α → Run (List β)} {l : List α}
    (hl : ∀ a ∈ l, Leads R (f a)) {w v : World} {bs : List β}
    (h : (gather f l).ends w = (.ok bs, v)) {a : α} (ha : a ∈ l) :
    ∃ u cs x, R w u ∧ (f a).ends u = (.ok cs, x) ∧ cs ⊆ bs ∧ R x v := by
  induction l generalizing w bs with
  | nil => cases ha
  | cons b l ih =>
    rw [List.forall_mem_cons] at hl
    obtain ⟨here, u, hb, h⟩ := ends_bind_eq_ok h
    obtain ⟨there, t, htail, h⟩ := ends_bind_eq_ok h
    cases h
    rcases List.mem_cons.1 ha with rfl | ha
    · exact ⟨w, here, u, hR.refl w, hb, List.subset_append_left _ _, (hR.composes.gather hl.2).of_ends htail⟩
    · obtain ⟨u', cs, x, hu', ha, hsub, hx⟩ := ih hl.2 htail ha
      exact ⟨u', cs, x, hR.trans (hl.1.of_ends hb) hu', ha,
        List.Subset.trans hsub (List.subset_append_right _ _), hx⟩

/-- A run that is made again and again. -/
theorem Passes.iterate (hR : Passes R) {r : Run α} (h : Leads R r) (k : Nat) (w : World) :
    R w (r.after^[k] w) := by
  induction k with
  | zero => exact hR.refl w
  | succ k ih =>
    rw [Function.iterate_succ_apply']
    exact hR.trans ih (h _)

theorem passes_any : Passes fun _ _ => True := ⟨fun _ => trivial, fun _ _ => trivial⟩

/-- Runs over a list that end well end well for each member. -/
theorem exists_of_forM {f : α → Run Unit} {l : List α} {w v : World}
    (h : (l.forM f).ends w = (.ok (), v)) : ∀ a ∈ l, ∃ u x, (f a).ends u = (.ok (), x) := by
  intro a ha
  obtain ⟨u, x, -, hends, -⟩ := passes_any.exists_of_forM (fun _ _ _ => trivial) h ha
  exact ⟨u, x, hends⟩

/-- What was gathered was found for every member. -/
theorem exists_of_gather {f : α → Run (List β)} {l : List α} {w v : World} {bs : List β}
    (h : (gather f l).ends w = (.ok bs, v)) :
    ∀ a ∈ l, ∃ cs u x, (f a).ends u = (.ok cs, x) ∧ cs ⊆ bs := by
  intro a ha
  obtain ⟨u, cs, x, -, hends, hsub, -⟩ := passes_any.exists_of_gather (fun _ _ _ => trivial) h ha
  exact ⟨cs, u, x, hends, hsub⟩

end

/-! ## What a run makes of two worlds that are alike -/

/-- Worlds that are alike in the sense of `R` give one answer, and are alike after the run. -/
def Respects (R : World → World → Prop) (r : Run α) : Prop :=
  ∀ w v, R w v → (r.ends w).1 = (r.ends v).1 ∧ R (r.ends w).2 (r.ends v).2

section
variable {R : World → World → Prop}

theorem Respects.pure (a : α) : Respects R (pure a : Run α) := fun _ _ h => ⟨rfl, h⟩

theorem Respects.lift (x : Except Failure α) : Respects R (liftM x : Run α) :=
  fun _ _ h => ⟨rfl, h⟩

theorem Respects.modify {f : World → World} (h : ∀ w v, R w v → R (f w) (f v)) :
    Respects R (modify f : Run Unit) := fun w v hs => ⟨rfl, h w v hs⟩

theorem Respects.bind {r : Run α} {f : α → Run β} (hr : Respects R r)
    (hf : ∀ a, Respects R (f a)) : Respects R (r >>= f) := by
  intro w v h
  obtain ⟨he, hs⟩ := hr w v h
  rw [ends_bind, ends_bind, ← he]
  cases (r.ends w).1 with
  | error e => exact ⟨rfl, hs⟩
  | ok a => exact hf a _ _ hs

/-- A run that looks at the world at something in which worlds that are alike do not differ. -/
theorem Respects.getBind {k : World → Run α} (hk : ∀ w v, R w v → k w = k v)
    (h : ∀ w, Respects R (k w)) : Respects R (get >>= k) := by
  intro w v hs
  rw [ends_bind_ok _ (ends_get w), ends_bind_ok _ (ends_get v), ← hk w v hs]
  exact h w w v hs

theorem Respects.composes : Composes fun _ r => Respects R r := ⟨Respects.pure, Respects.bind⟩

theorem Respects.outcome {r : Run α} (h : Respects R r) : Respects R r.outcome := by
  intro w v hs
  rw [ends_outcome, ends_outcome, (h w v hs).1]
  exact ⟨rfl, (h w v hs).2⟩

end

/-! ## What a run gives on a class of worlds -/

/-- In every world of `P` the run ends with `x`, and the world after it is one of `P`. -/
def Gives (P : World → Prop) (r : Run α) (x : Except Failure α) : Prop :=
  ∀ w, P w → (r.ends w).1 = x ∧ P (r.ends w).2

section
variable {P : World → Prop} {r : Run α} {f : α → Run β}

theorem Gives.exists_ends {x : Except Failure α} (h : Gives P r x) {w : World} (hw : P w) :
    ∃ v, r.ends w = (x, v) ∧ P v := ⟨_, Prod.ext (h w hw).1 rfl, (h w hw).2⟩

theorem Gives.pure (a : α) : Gives P (pure a) (.ok a) := fun _ hw => ⟨rfl, hw⟩

theorem Gives.throw (e : Failure) : Gives P (throw e : Run α) (.error e) := fun _ hw => ⟨rfl, hw⟩

theorem Gives.lift (x : Except Failure α) : Gives P (liftM x : Run α) x := fun _ hw => ⟨rfl, hw⟩

theorem Gives.bind {a : α} {y : Except Failure β} (hr : Gives P r (.ok a)) (hf : Gives P (f a) y) :
    Gives P (r >>= f) y := by
  intro w hw
  obtain ⟨he, hv⟩ := hr w hw
  rw [ends_bind, he]
  exact hf _ hv

theorem Gives.bind_error {e : Failure} (hr : Gives P r (.error e)) :
    Gives P (r >>= f) (.error e) := by
  intro w hw
  obtain ⟨he, hv⟩ := hr w hw
  rw [ends_bind, he]
  exact ⟨rfl, hv⟩

/-- A run that looks at the world: `P` fixes how it goes on. -/
theorem Gives.getBind {k : World → Run α} {x : Except Failure α} (hk : ∀ w, P w → k w = r)
    (hr : Gives P r x) : Gives P (get >>= k) x := by
  intro w hw
  rw [ends_bind_ok _ (ends_get w), hk w hw]
  exact hr w hw

theorem Gives.outcome {x : Except Failure α} (h : Gives P r x) : Gives P r.outcome (.ok x) := by
  intro w hw
  rw [ends_outcome]
  exact ⟨congrArg Except.ok (h w hw).1, (h w hw).2⟩

/-- A run over a list, the members of which give what `g` says. -/
theorem Gives.filterMapM {g : α → Option β} {h : α → Run (Option β)} :
    ∀ {l : List α}, (∀ a ∈ l, Gives P (h a) (.ok (g a))) →
      Gives P (l.filterMapM h) (.ok (l.filterMap g))
  | [], _ => Gives.pure []
  | a :: l, ha => by
    rw [List.filterMapM_cons]
    refine Gives.bind (ha a List.mem_cons_self) ?_
    have hl := Gives.filterMapM fun b hb => ha b (List.mem_cons_of_mem a hb)
    cases hg : g a with
    | none => rw [List.filterMap_cons_none hg]; exact hl
    | some b => rw [List.filterMap_cons_some hg]; exact hl.bind (Gives.pure _)

theorem Gives.mapM {h : α → Run β} {g : α → β} :
    ∀ {l : List α}, (∀ a ∈ l, Gives P (h a) (.ok (g a))) → Gives P (l.mapM h) (.ok (l.map g))
  | [], _ => by rw [List.mapM_nil]; exact Gives.pure []
  | a :: l, hl => by
    rw [List.mapM_cons]
    exact (hl a List.mem_cons_self).bind
      ((Gives.mapM fun b hb => hl b (List.mem_cons_of_mem a hb)).bind (Gives.pure _))

theorem Gives.gather {f : α → Run (List β)} {h : α → List β} :
    ∀ {l : List α}, (∀ a ∈ l, Gives P (f a) (.ok (h a))) → Gives P (gather f l) (.ok (l.flatMap h))
  | [], _ => Gives.pure []
  | a :: _, hl => (hl a List.mem_cons_self).bind
      ((Gives.gather fun b hb => hl b (List.mem_cons_of_mem a hb)).bind (Gives.pure _))

/-- The answer of the run depends on nothing but `P`. -/
def Settled (P : World → Prop) (r : Run α) : Prop := ∃ x, Gives P r x

theorem Gives.settled {x : Except Failure α} (h : Gives P r x) : Settled P r := ⟨x, h⟩

theorem Settled.bind (hr : Settled P r) (hf : ∀ a, Settled P (f a)) : Settled P (r >>= f) := by
  obtain ⟨x, hx⟩ := hr
  cases x with
  | error e => exact hx.bind_error.settled
  | ok a =>
    obtain ⟨y, hy⟩ := hf a
    exact (hx.bind hy).settled

theorem Settled.outcome (h : Settled P r) : Settled P r.outcome := by
  obtain ⟨x, hx⟩ := h
  exact hx.outcome.settled

theorem Settled.lift (x : Except Failure α) : Settled P (liftM x : Run α) := (Gives.lift x).settled

theorem Settled.throw (e : Failure) : Settled P (throw e : Run α) := (Gives.throw e).settled

theorem Settled.pure (a : α) : Settled P (pure a : Run α) := (Gives.pure a).settled

/-- A run that looks at the world at something that `P` fixes. -/
theorem Settled.getBind {k : World → Run α} (hk : ∀ w v, P w → P v → k w = k v)
    (h : ∀ w, P w → Settled P (k w)) : Settled P (get >>= k) := by
  by_cases hP : ∃ w, P w
  · obtain ⟨w, hw⟩ := hP
    obtain ⟨x, hx⟩ := h w hw
    exact ⟨x, Gives.getBind (fun v hv => hk v w hv hw) hx⟩
  · exact ⟨.error .storeRefused, fun w hw => absurd ⟨w, hw⟩ hP⟩

/-- Two worlds of `P` give one answer. -/
theorem Settled.answer_eq (h : Settled P r) {w v : World} (hw : P w) (hv : P v) :
    r.answer w = r.answer v := by
  obtain ⟨x, hx⟩ := h
  exact (hx w hw).1.trans (hx v hv).1.symm

end
/-! ## Runs that end well -/

section
variable {P : World → Prop} {Q : α → Prop}

/-- From every world of `P` the run ends well, with an answer of `Q` and in a world of `P`. -/
def Succeeds (P : World → Prop) (Q : α → Prop) (r : Run α) : Prop :=
  ∀ w, P w → ∃ a v, r.ends w = (.ok a, v) ∧ P v ∧ Q a

theorem Succeeds.pure {a : α} (h : Q a) : Succeeds P Q (pure a : Run α) :=
  fun w hw => ⟨a, w, rfl, hw, h⟩

theorem Succeeds.lift {x : Except Failure α} {a : α} (hx : x = .ok a) (h : Q a) :
    Succeeds P Q (liftM x : Run α) :=
  fun w hw => ⟨a, w, by rw [ends_lift, hx], hw, h⟩

theorem Succeeds.bind {r : Run α} {f : α → Run β} {Q' : β → Prop} (hr : Succeeds P Q r)
    (hf : ∀ a, Q a → Succeeds P Q' (f a)) : Succeeds P Q' (r >>= f) := by
  intro w hw
  obtain ⟨a, v, hends, hv, ha⟩ := hr w hw
  rw [ends_bind_ok f hends]
  exact hf a ha v hv

theorem Succeeds.forM {f : α → Run Unit} : ∀ {l : List α},
    (∀ a ∈ l, Succeeds P (fun _ => True) (f a)) → Succeeds P (fun _ => True) (l.forM f)
  | [], _ => Succeeds.pure trivial
  | a :: _, h => (h a List.mem_cons_self).bind fun _ _ =>
      Succeeds.forM fun b hb => h b (List.mem_cons_of_mem a hb)

theorem Succeeds.gather {R : β → Prop} {f : α → Run (List β)} : ∀ {l : List α},
    (∀ a ∈ l, Succeeds P (fun bs => ∀ b ∈ bs, R b) (f a)) →
      Succeeds P (fun bs => ∀ b ∈ bs, R b) (gather f l)
  | [], _ => Succeeds.pure fun _ hb => by cases hb
  | a :: l, h => (h a List.mem_cons_self).bind fun _ hbs =>
      (Succeeds.gather fun b hb => h b (List.mem_cons_of_mem a hb)).bind fun _ hcs =>
        Succeeds.pure fun b hb => (List.mem_append.1 hb).elim (hbs b) (hcs b)

end
end Run

/-! ## Runs without refusals -/

/-- An answer that is no refusal of a request. -/
def Spared {α : Type} (x : Except Failure α) : Prop :=
  ∀ status detail headers, x ≠ .error (.refused status detail headers)

namespace Spared
variable {α β : Type}

theorem ok (a : α) : Spared (.ok a : Except Failure α) := fun _ _ _ h => by cases h

theorem error {e : Failure} (h : Spared (.error e : Except Failure α)) :
    Spared (.error e : Except Failure β) := by
  intro status detail headers he
  obtain rfl : e = .refused status detail headers := Except.error.inj he
  exact h status detail headers rfl

theorem bind {x : Except Failure α} {f : α → Except Failure β} (hx : Spared x)
    (hf : ∀ a, Spared (f a)) : Spared (x >>= f) := by
  cases x with
  | ok a => exact hf a
  | error e => exact hx.error

theorem forM {f : α → Except Failure Unit} (hf : ∀ a, Spared (f a)) :
    ∀ l : List α, Spared (l.forM f)
  | [] => ok ()
  | a :: l => (hf a).bind fun _ => forM hf l

theorem foldlM {f : β → α → Except Failure β} (hf : ∀ b a, Spared (f b a)) :
    ∀ (l : List α) (b : β), Spared (l.foldlM f b)
  | [], b => ok b
  | a :: l, b => (hf b a).bind fun c => foldlM hf l c

end Spared

theorem Json.spared_checkKey (j : Json) : Spared j.checkKey := by
  intro status detail headers h
  cases j <;> cases h

theorem Cell.spared_ofJson (j : Json) : Spared (Cell.ofJson j) := by
  intro status detail headers h
  cases j with
  | int n =>
    rw [ofJson] at h
    split at h <;> cases h
  | _ => cases h

namespace Run
variable {α β : Type} {r : Run α} {f : α → Run β}

/-- A run that never ends in a refusal. -/
def Spares (r : Run α) : Prop := ∀ w, Spared (r.answer w)

theorem Spares.pure (a : α) : Spares (pure a : Run α) := fun _ => .ok a

theorem Spares.lift {x : Except Failure α} (h : Spared x) : Spares (liftM x : Run α) := fun _ => h

theorem Spares.get : Spares (get : Run World) := fun w => .ok w

theorem Spares.modify (g : World → World) : Spares (modify g : Run Unit) := fun _ => .ok ()

theorem Spares.bind (hr : Spares r) (hf : ∀ a, Spares (f a)) : Spares (r >>= f) := by
  intro w
  rw [answer, ends_bind]
  have hw : Spared (r.ends w).1 := hr w
  cases hx : (r.ends w).1 with
  | ok a => exact hf a _
  | error e =>
    rw [hx] at hw
    exact hw.error

theorem Spares.composes : Composes fun _ r => Spares r := ⟨Spares.pure, Spares.bind⟩

/-- A run that is not refused: it may fail as a whole. -/
def Breaks (r : Run α) : Prop :=
  ∀ w status detail headers, r.answer w = .error (.refused status detail headers) → status = 500

theorem Spares.breaks (h : Spares r) : Breaks r := fun w status detail headers he =>
  absurd he (h w status detail headers)

theorem Breaks.bind (hr : Breaks r) (hf : ∀ a, Breaks (f a)) : Breaks (r >>= f) := by
  intro w status detail headers h
  rcases ends_bind_eq_error (ends_of_answer h) with h | ⟨a, u, -, h⟩
  · exact hr w status detail headers (congrArg Prod.fst h)
  · exact hf a u status detail headers (congrArg Prod.fst h)

theorem Breaks.outcome_bind {k : Except Failure α → Run β} (hk : ∀ x, Breaks (k x)) :
    Breaks (r.outcome >>= k) := by
  intro w
  rw [answer, ends_bind_ok _ (ends_outcome r w)]
  exact hk _ _

end Run
end CodeAtlas
