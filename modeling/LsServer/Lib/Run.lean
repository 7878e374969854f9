import Mathlib.Data.List.Induction

/-!
# Machines and their runs

A `Machine` is an initial state and a partial step function: `step s e` is `none` when the event
`e` cannot happen in `s`, and otherwise the next state with the actions the step performs. A step
that did happen is an `Item`: the state before, the event, the state after, the actions, and the
proof that they belong together. A run is a `Path` of items from the initial state, oldest first.

What an event carries is chosen by the surroundings: an argument of a call, the bytes of a packet,
the result of something that is not modelled. So a machine that is deterministic in its events
stands for all that can happen, and a result about every run is one about every order of events and
every choice. A wait of a program is a state of its own, which a later event ends.

A statement about a run can speak of the states at a step (`Item.pre`, `Item.post`), of what the
step did (`out`), and of the order of two steps, by the way in which the list of items is cut. There
is no fairness: a run may stop anywhere, and an event that is due need not happen.

* An invariant is proved by a step lemma and `Run.invariant`, one that remembers what has happened
  by `Run.history`.
* `Yields` hides the items: from one state some events lead to another one, with these actions.

Results:
* `Run.invariant`: what holds initially and is kept by every step holds after every run;
  `Path.keeps` asks it only of the steps of one path;
* `Run.history`: the same for a relation between the run so far and the state;
* `Run.simulation`: a machine that can follow every step of another can follow every run;
* `path_append_iff`, `Path.split`: a run can be cut at any of its items;
* `exists_run`: the items computed from a list of events are a run, so a concrete run can be
  evaluated.
-/

namespace LsServer.Lib

/-- An initial state and a partial step function with actions. -/
structure Machine (σ ε ω : Type) where
  init : σ
  step : σ → ε → Option (σ × List ω)

/-- A relation between the elements of a list, from the ways to cut it at two of them. -/
theorem pairwise_of_split {α : Type} {R : α → α → Prop} {l : List α}
    (h : ∀ a x b y d, l = a ++ x :: (b ++ y :: d) → R x y) : l.Pairwise R := by
  induction l with
  | nil => exact List.Pairwise.nil
  | cons x l ih =>
    refine List.pairwise_cons.mpr ⟨fun y hy => ?_, ih fun a x' b y d hl => ?_⟩
    · obtain ⟨b, d, rfl⟩ := List.append_of_mem hy
      exact h [] x b y d rfl
    · exact h (x :: a) x' b y d (by rw [hl]; rfl)

variable {σ ε ω : Type}

/-- One step that was taken. -/
structure Machine.Item (M : Machine σ ε ω) where
  pre : σ
  ev : ε
  post : σ
  out : List ω
  ok : M.step pre ev = some (post, out)

namespace Machine

variable {M : Machine σ ε ω}

/-- The items `tr`, oldest first, lead from `s` to the last state. -/
inductive Path (M : Machine σ ε ω) : σ → List M.Item → σ → Prop
  | nil (s : σ) : Path M s [] s
  | snoc {s m : σ} {tr : List M.Item} (h : Path M s tr m) (i : M.Item) (hi : i.pre = m) :
      Path M s (tr ++ [i]) i.post

/-- A run: a path from the initial state. -/
def Run (M : Machine σ ε ω) (tr : List M.Item) (s : σ) : Prop := Path M M.init tr s

theorem Path.single (i : M.Item) : Path M i.pre [i] i.post :=
  (Path.nil i.pre).snoc i rfl

theorem Path.append {s m t : σ} {a b : List M.Item} (ha : Path M s a m) (hb : Path M m b t) :
    Path M s (a ++ b) t := by
  induction hb with
  | nil => rwa [List.append_nil]
  | snoc _ i hi ih =>
    rw [← List.append_assoc]
    exact Path.snoc ih i hi

theorem path_nil_iff {s t : σ} : Path M s [] t ↔ s = t := by
  constructor
  · generalize hl : ([] : List M.Item) = l
    intro h
    cases h with
    | nil => rfl
    | snoc h i hi => simp at hl
  · rintro rfl
    exact Path.nil _

theorem path_snoc_iff {s t : σ} {tr : List M.Item} {i : M.Item} :
    Path M s (tr ++ [i]) t ↔ Path M s tr i.pre ∧ t = i.post := by
  constructor
  · generalize hl : tr ++ [i] = l
    intro h
    cases h with
    | nil => simp at hl
    | snoc h j hj =>
      obtain ⟨rfl, hij⟩ := List.append_inj' hl rfl
      obtain rfl := List.singleton_inj.mp hij
      exact ⟨hj ▸ h, rfl⟩
  · rintro ⟨h, rfl⟩
    exact Path.snoc h i rfl

/-- A path can be cut anywhere. -/
theorem path_append_iff {s t : σ} {a b : List M.Item} :
    Path M s (a ++ b) t ↔ ∃ m, Path M s a m ∧ Path M m b t := by
  constructor
  · induction b using List.reverseRecOn generalizing t with
    | nil =>
      intro h
      rw [List.append_nil] at h
      exact ⟨t, h, Path.nil _⟩
    | append_singleton b i ih =>
      intro h
      rw [← List.append_assoc, path_snoc_iff] at h
      obtain ⟨h, rfl⟩ := h
      obtain ⟨m, hm, hb⟩ := ih h
      exact ⟨m, hm, Path.snoc hb i rfl⟩
  · rintro ⟨m, ha, hb⟩
    exact ha.append hb

theorem path_cons_iff {s t : σ} {i : M.Item} {tr : List M.Item} :
    Path M s (i :: tr) t ↔ i.pre = s ∧ Path M i.post tr t := by
  rw [← List.singleton_append, path_append_iff]
  constructor
  · rintro ⟨m, h1, h2⟩
    obtain ⟨h, rfl⟩ := path_snoc_iff.mp (show Path M s ([] ++ [i]) m from h1)
    exact ⟨(path_nil_iff.mp h).symm, h2⟩
  · rintro ⟨rfl, h⟩
    exact ⟨i.post, Path.single i, h⟩

/-- **Cutting a path at one of its items.** -/
theorem Path.split {s t : σ} {a b : List M.Item} {i : M.Item} (h : Path M s (a ++ i :: b) t) :
    Path M s a i.pre ∧ Path M i.post b t := by
  obtain ⟨m, ha, hib⟩ := path_append_iff.mp h
  obtain ⟨rfl, hb⟩ := path_cons_iff.mp hib
  exact ⟨ha, hb⟩

/-- Some items lead from `s` to `t`, with the actions `out`. -/
def Yields (M : Machine σ ε ω) (s : σ) (out : List ω) (t : σ) : Prop :=
  ∃ tr, Path M s tr t ∧ tr.flatMap Item.out = out

theorem Yields.refl (s : σ) : Yields M s [] s := ⟨[], Path.nil s, rfl⟩

theorem Yields.trans {s m t : σ} {out out' : List ω} (h : Yields M s out m)
    (h' : Yields M m out' t) : Yields M s (out ++ out') t := by
  obtain ⟨a, ha, rfl⟩ := h
  obtain ⟨b, hb, rfl⟩ := h'
  exact ⟨a ++ b, ha.append hb, List.flatMap_append⟩

theorem Yields.of_step {s t : σ} {e : ε} {out : List ω} (h : M.step s e = some (t, out)) :
    Yields M s out t :=
  ⟨[⟨s, e, t, out, h⟩], Path.single (M := M) ⟨s, e, t, out, h⟩, List.flatMap_singleton _ _⟩

/-! ## Invariants -/

/-- What every step of a path keeps holds at its end. -/
theorem Path.keeps {I : σ → Prop} {s t : σ} {tr : List M.Item} (h : Path M s tr t) (h0 : I s)
    (hstep : ∀ i ∈ tr, I i.pre → I i.post) : I t := by
  induction h with
  | nil => exact h0
  | snoc _ i hi ih =>
    refine hstep i (by simp) (hi ▸ ih fun j hj => hstep j (by simp [hj]))

/-- The same for a relation between the items so far and the state. -/
theorem Path.history {J : List M.Item → σ → Prop} {s t : σ} {tr : List M.Item}
    (h : Path M s tr t) (h0 : J [] s)
    (hstep : ∀ a i b, tr = a ++ i :: b → J a i.pre → J (a ++ [i]) i.post) : J tr t := by
  induction h with
  | nil => exact h0
  | @snoc m tr _ i hi ih =>
    refine hstep tr i [] rfl (hi ▸ ih fun a j b hj hJ => hstep a j (b ++ [i]) ?_ hJ)
    rw [hj, List.append_assoc]
    rfl

/-- What every step of a path keeps holds before each of its items. -/
theorem Path.keeps_pre {I : σ → Prop} {s t : σ} {tr : List M.Item} (h : Path M s tr t) (h0 : I s)
    (hstep : ∀ i ∈ tr, I i.pre → I i.post) : ∀ i ∈ tr, I i.pre := by
  intro i hi
  obtain ⟨a, b, rfl⟩ := List.append_of_mem hi
  exact h.split.1.keeps h0 fun j hj => hstep j (by simp [hj])

/-- **The invariant rule.** -/
theorem Run.invariant {I : σ → Prop} (h0 : I M.init) (hstep : ∀ i : M.Item, I i.pre → I i.post)
    {tr : List M.Item} {s : σ} (h : Run M tr s) : I s :=
  Path.keeps h h0 fun i _ => hstep i

/-- **The history rule**: a relation between the run so far and its state. -/
theorem Run.history {J : List M.Item → σ → Prop} (h0 : J [] M.init)
    (hstep : ∀ tr (i : M.Item), Run M tr i.pre → J tr i.pre → J (tr ++ [i]) i.post)
    {tr : List M.Item} {s : σ} (h : Run M tr s) : J tr s := by
  induction tr using List.reverseRecOn generalizing s with
  | nil =>
    obtain rfl := path_nil_iff.mp h
    exact h0
  | append_singleton tr i ih =>
    obtain ⟨hr, rfl⟩ := path_snoc_iff.mp h
    exact hstep tr i hr (ih hr)

/-! ## Simulation -/

/-- **The simulation rule.** `R` relates states of `M` and `N`; `f` and `g` say what is observed of
their actions. If `N` can follow every step of `M`, it can follow every run. -/
theorem Run.simulation {σ' ε' ω' α : Type} {N : Machine σ' ε' ω'} {R : σ → σ' → Prop}
    {f : ω → Option α} {g : ω' → Option α} (h0 : R M.init N.init)
    (hstep : ∀ (i : M.Item) s', R i.pre s' → ∃ out t', N.Yields s' out t' ∧ R i.post t' ∧
      out.filterMap g = i.out.filterMap f)
    {tr : List M.Item} {s : σ} (h : Run M tr s) :
    ∃ out t', N.Yields N.init out t' ∧ R s t' ∧
      out.filterMap g = (tr.flatMap Item.out).filterMap f := by
  refine h.history (J := fun tr s => ∃ out t', N.Yields N.init out t' ∧ R s t' ∧
    out.filterMap g = (tr.flatMap Item.out).filterMap f) ⟨[], N.init, .refl _, h0, rfl⟩ ?_
  rintro tr i - ⟨out, s', hyields, hR, hout⟩
  obtain ⟨out', t', hyields', hR', hout'⟩ := hstep i s' hR
  refine ⟨out ++ out', t', hyields.trans hyields', hR', ?_⟩
  rw [List.filterMap_append, hout, hout', List.flatMap_append, List.filterMap_append,
    List.flatMap_singleton]

/-! ## Concrete runs -/

/-- The step of the event `e` in `s`, if it can happen. -/
def itemAt (M : Machine σ ε ω) (s : σ) (e : ε) : Option M.Item :=
  match h : M.step s e with
  | none => none
  | some (t, out) => some ⟨s, e, t, out, h⟩

theorem itemAt_eq_some {s t : σ} {e : ε} {out : List ω} (h : M.step s e = some (t, out)) :
    M.itemAt s e = some ⟨s, e, t, out, h⟩ := by
  unfold itemAt
  split
  · rename_i hnone
    exact absurd (hnone.symm.trans h) (by simp)
  · rename_i t' out' h'
    obtain ⟨rfl, rfl⟩ := Prod.mk.inj (Option.some.inj (h'.symm.trans h))
    rfl

/-- The items of the events `es` from `s`, if every event can happen. -/
def items (M : Machine σ ε ω) : σ → List ε → Option (List M.Item)
  | _, [] => some []
  | s, e :: es =>
    match h : M.step s e with
    | none => none
    | some (t, out) => (items M t es).map fun tr => ⟨s, e, t, out, h⟩ :: tr

/-- The state the items `tr` end in, from `s`. -/
def last (s : σ) : List M.Item → σ
  | [] => s
  | i :: tr => last i.post tr

/-- **Computed items are a path.** -/
theorem items_path {s : σ} {es : List ε} {tr : List M.Item} (h : items M s es = some tr) :
    Path M s tr (last s tr) := by
  induction es generalizing s tr with
  | nil =>
    simp only [items, Option.some.injEq] at h
    subst h
    exact Path.nil _
  | cons e es ih =>
    simp only [items] at h
    split at h
    · exact absurd h (by simp)
    · obtain ⟨tr', htr, rfl⟩ := Option.map_eq_some_iff.mp h
      exact path_cons_iff.mpr ⟨rfl, ih htr⟩

/-- A concrete run with a property that evaluates to `true`. -/
theorem exists_run {es : List ε} {P : List M.Item → Bool}
    (h : (items M M.init es).map P = some true) :
    ∃ tr, Run M tr (last M.init tr) ∧ P tr = true := by
  obtain ⟨tr, htr, hP⟩ := Option.map_eq_some_iff.mp h
  exact ⟨tr, items_path htr, hP⟩

theorem items_ev {s : σ} {es : List ε} {tr : List M.Item} (h : items M s es = some tr) :
    tr.map Item.ev = es := by
  induction es generalizing s tr with
  | nil =>
    simp only [items, Option.some.injEq] at h
    rw [← h]
    rfl
  | cons e es ih =>
    simp only [items] at h
    split at h
    · exact absurd h (by simp)
    · obtain ⟨tr', htr, rfl⟩ := Option.map_eq_some_iff.mp h
      rw [List.map_cons, ih htr]

/-- A concrete run with the actions its steps evaluate to. -/
theorem exists_run_out (es : List ε) {outs : List (List ω)}
    (h : (items M M.init es).map (List.map Item.out) = some outs) :
    ∃ tr, Run M tr (last M.init tr) ∧ tr.map Item.ev = es ∧ tr.map Item.out = outs := by
  obtain ⟨tr, htr, hout⟩ := Option.map_eq_some_iff.mp h
  exact ⟨tr, items_path htr, items_ev htr, hout⟩

end Machine

end LsServer.Lib
